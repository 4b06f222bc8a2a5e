import BuildMatrix.Proofs.Registration

/-!
# Laws of the expansions

The cells of modules are expanded over partitions and over build types, and modules can be filtered
out at every point. The points do not matter: a filter keeps or drops all cells that come from one,
and the two expansions multiply by different coordinates, so that their order only changes the order
of the cells.
-/

namespace BuildMatrix.Matrix

/-- What cells are **expanded over** after platforms. -/
inductive Expansion where
  | tests
  | buildTypes
  deriving DecidableEq

/-- What an expansion does to cells. -/
def Expansion.apply : Expansion → List Cell → List Cell
  | tests => withTests
  | buildTypes => withBuildTypes

/-- Some **expansions one after another**. -/
def expand (steps : List Expansion) (cells : List Cell) : List Cell :=
  steps.foldl (fun cells step => step.apply cells) cells

/-- A combination that is **allowed**, after some expansions. -/
@[mk_iff]
structure Allowed (accepts : ProductType → Bool) (only : List Platform) (modules : List Module)
    (steps : List Expansion) (cell : Cell) : Prop where
  module : cell.module ∈ modules
  type : accepts cell.module.productType = true
  platform : cell.platform ∈ cell.module.platforms
  allowed : only = [] ∨ cell.platform ∈ only
  partition : cell.isTest = true → .tests ∈ steps
  buildType : cell.buildType.isSome = true ↔ .buildTypes ∈ steps

variable {accepts : ProductType → Bool} {only : List Platform} {modules : List Module}
  {cells others : List Cell} {cell : Cell} {steps steps' : List Expansion}

/-! ### Filters -/

/-- A filter **keeps or drops together** what comes from one thing. -/
theorem filterCells_flatMap {items : List α} {cellsOf : α → List Cell} {keep : α → Bool}
    (h : ∀ a, ∀ c ∈ cellsOf a, accepts c.module.productType = keep a) :
    filterCells accepts (items.flatMap cellsOf) = (items.filter keep).flatMap cellsOf := by
  induction items with
  | nil => rfl
  | cons a rest ih =>
    simp only [filterCells, List.flatMap_cons, List.filter_append] at ih ⊢
    rw [ih, List.filter_congr (h a)]
    by_cases ha : keep a = true <;> simp [ha]

theorem filterCells_ofModules : filterCells accepts (ofModules only modules) =
    ofModules only (filterModules accepts modules) :=
  filterCells_flatMap fun m c hc => by
    obtain ⟨p, -, rfl⟩ := List.mem_map.1 hc
    rfl

theorem filterCells_expand :
    filterCells accepts (expand steps cells) = expand steps (filterCells accepts cells) := by
  induction steps generalizing cells with
  | nil => rfl
  | cons step rest ih =>
    refine ih.trans (congrArg (expand rest) ?_)
    cases step with
    | tests => exact filterCells_flatMap fun c copy hcopy => by simp at hcopy; grind
    | buildTypes => exact filterCells_flatMap fun c copy hcopy => by simp at hcopy; grind

/-! ### The order of expansions -/

theorem Expansion.apply_perm (step : Expansion) (h : cells.Perm others) :
    (step.apply cells).Perm (step.apply others) := by
  cases step <;> exact h.flatMap_right _

theorem withBuildTypes_withTests_perm :
    (withBuildTypes (withTests cells)).Perm (withTests (withBuildTypes cells)) := by
  simp only [withBuildTypes, withTests, List.flatMap_assoc, BuildType.all]
  refine List.Perm.flatMap_left _ fun c _ => ?_
  simpa using .swap ..

theorem Expansion.apply_comm_perm (a b : Expansion) :
    (a.apply (b.apply cells)).Perm (b.apply (a.apply cells)) := by
  match a, b with
  | tests, tests | buildTypes, buildTypes => rfl
  | buildTypes, tests => exact withBuildTypes_withTests_perm
  | tests, buildTypes => exact withBuildTypes_withTests_perm.symm

theorem expand_perm_right (h : cells.Perm others) :
    (expand steps cells).Perm (expand steps others) := by
  induction steps generalizing cells others with
  | nil => exact h
  | cons step _ ih => exact ih (step.apply_perm h)

/-- **The order of the expansions** is only seen in the order of the cells. -/
theorem expand_perm (h : steps.Perm steps') : (expand steps cells).Perm (expand steps' cells) := by
  induction h generalizing cells with
  | nil => rfl
  | cons step _ ih => exact ih
  | swap a b rest => exact expand_perm_right (a.apply_comm_perm b)
  | trans _ _ ih ih' => exact ih.trans ih'

/-! ### The cells that come out -/

/-- Expansions that are made **at most once** come to the same as in a fixed order. -/
theorem expand_perm_of_nodup (h : steps.Nodup) : (expand steps cells).Perm
    (if steps.contains .buildTypes then
      withBuildTypes (if steps.contains .tests then withTests cells else cells)
    else if steps.contains .tests then withTests cells else cells) := by
  have hperm : steps.Perm ([.tests, .buildTypes].filter (steps.contains ·)) :=
    (List.perm_ext_iff_of_nodup h (.filter _ (by decide))).2 fun step => by cases step <;> simp
  refine (expand_perm hperm).trans (.of_eq ?_)
  simp only [List.filter_cons, List.filter_nil]
  cases steps.contains .tests <;> cases steps.contains .buildTypes <;> rfl

theorem isTest_of_mem_ofModules (h : cell ∈ ofModules only modules) : cell.isTest = false :=
  (mem_ofModules.1 h).2.2.2.1

theorem buildType_of_mem_ite {tests : Bool}
    (h : cell ∈ if tests then withTests (ofModules only modules) else ofModules only modules) :
    cell.buildType = none :=
  (mem_ofModules.1 ((mem_ite_withTests (fun _ => isTest_of_mem_ofModules) _).1 h).1).2.2.2.2

theorem mem_expand_iff (h : steps.Nodup) :
    cell ∈ expand steps (ofModules only (filterModules accepts modules)) ↔
      Allowed accepts only modules steps cell := by
  rw [(expand_perm_of_nodup h).mem_iff, mem_ite_withBuildTypes fun _ => buildType_of_mem_ite,
    mem_ite_withTests fun _ => isTest_of_mem_ofModules, mem_ofModules, filterModules,
    List.mem_filter, allowed_iff, @Bool.eq_iff_iff cell.buildType.isSome]
  simp only [Cell.mainPartition, Bool.or_eq_true, List.isEmpty_iff, List.contains_iff_mem,
    and_true, and_assoc]

theorem nodup_expand (h : steps.Nodup) (hmodules : modules.Nodup)
    (hplatforms : ∀ m ∈ modules, m.platforms.Nodup) :
    (expand steps (ofModules only (filterModules accepts modules))).Nodup := by
  rw [(expand_perm_of_nodup h).nodup_iff,
    nodup_ite_withBuildTypes_iff fun _ => buildType_of_mem_ite,
    nodup_ite_withTests_iff fun _ => isTest_of_mem_ofModules, filterModules,
    nodup_ofModules_iff (hmodules.filter _)]
  exact fun m hm => (hplatforms m (List.mem_of_mem_filter hm)).filter _

/-- **Expansions commute** with filters by product type and, up to the order of the cells, with one
another; and where no module of a project lists a platform twice, the cells are one for each
combination that is allowed. -/
theorem expansions_commute {root : Path} {project : Project}
    (hproject : Project.make root modules = .ok project) (accepts : ProductType → Bool)
    (only : List Platform) :
    (∀ before after,
      expand (before ++ after) (ofModules only (filterModules accepts project.modules)) =
        expand after (filterCells accepts (expand before (ofModules only project.modules)))) ∧
      (∀ cells, (withBuildTypes (withTests cells)).Perm (withTests (withBuildTypes cells))) ∧
      ((∀ m ∈ project.modules, m.platforms.Nodup) → ∀ steps : List Expansion, steps.Nodup →
        (expand steps (ofModules only (filterModules accepts project.modules))).Nodup ∧
        ∀ cell, cell ∈ expand steps (ofModules only (filterModules accepts project.modules)) ↔
          Allowed accepts only project.modules steps cell) := by
  refine ⟨fun before after => ?_, fun cells => withBuildTypes_withTests_perm,
    fun hplatforms steps hsteps => ⟨nodup_expand hsteps ?_ hplatforms,
      fun cell => mem_expand_iff hsteps⟩⟩
  · rw [filterCells_expand, filterCells_ofModules, expand, List.foldl_append]
    rfl
  · rw [Project.make] at hproject
    split at hproject
    · cases hproject
    · next hchecked =>
      obtain rfl := Except.ok.inj hproject
      exact (Project.checkModules_eq_ok_iff.1 hchecked).1.of_map

/-- The library and the application of a project, with **both expansions**. -/
theorem expansions_commute_app :
    ∃ project, Project.make ⟨"/p"⟩ [{ name := "core", platforms := [.jvm, .js] },
        { name := "app", productType := .jvmApp, platforms := [.jvm],
          dependencies := [⟨"core", .all⟩] }] = .ok project ∧
      (∀ m ∈ project.modules, m.platforms.Nodup) ∧
      (expand [.buildTypes, .tests] (ofModules [.jvm] (filterModules (· == .jvmApp)
        project.modules))).Nodup := by
  obtain ⟨project, hproject, hplatforms⟩ : ∃ project, Project.make ⟨"/p"⟩
      [{ name := "core", platforms := [.jvm, .js] },
        { name := "app", productType := .jvmApp, platforms := [.jvm],
          dependencies := [⟨"core", .all⟩] }] = .ok project ∧
      ∀ m ∈ project.modules, m.platforms.Nodup := ⟨_, rfl, by decide⟩
  exact ⟨project, hproject, hplatforms,
    ((expansions_commute hproject (· == .jvmApp) [.jvm]).2.2 hplatforms _ (by decide)).1⟩

end BuildMatrix.Matrix
