import BuildMatrix.Proofs.GraphParts
import BuildMatrix.Proofs.TaskNames
import BuildMatrix.Proofs.Validation
import Mathlib.Data.Set.Card

/-!
# One task for each cell of each action

The cells of an action are made by expanding lists, their tasks are registered under names that are
made from texts, and a name that comes back is refused. For a configuration that passes the check
all of this comes to a count: expansions repeat nothing but what a module repeats, names tell apart
whatever is different, and so there is one task for each combination that the actions allow, unless
a module lists a platform twice that an action applies to.
-/

namespace BuildMatrix

/-! ### Lists that repeat nothing -/

section Lists

variable {α β : Type} {items : List α}

theorem bijOn_of_nodup_map {f : α → β} (h : (items.map f).Nodup) :
    Set.BijOn f {a | a ∈ items} {b | b ∈ items.map f} := by
  refine ⟨fun a ha => List.mem_map_of_mem ha, fun a ha b hb heq => ?_, fun b hb => ?_⟩
  · exact List.inj_on_of_nodup_map h ha hb heq
  · exact List.mem_map.mp hb

theorem length_eq_ncard (h : items.Nodup) : items.length = {a | a ∈ items}.ncard := by
  classical
  have hset : {a | a ∈ items} = (items.toFinset : Set α) := by
    ext a
    simp
  rw [hset, Set.ncard_coe_finset, List.toFinset_card_of_nodup h]

/-- An expansion from which the source of each item can be told **repeats an item exactly if the
list that is expanded does**. -/
theorem nodup_flatMap_iff {expand : α → List β} (source : β → α)
    (hsource : ∀ a ∈ items, ∀ b ∈ expand a, source b = a)
    (hnodup : ∀ a ∈ items, (expand a).Nodup) (hne : ∀ a, expand a ≠ []) :
    (items.flatMap expand).Nodup ↔ items.Nodup := by
  rw [List.nodup_flatMap, and_iff_right hnodup]
  refine List.Pairwise.iff_of_mem fun {a b} ha hb => ⟨?_, ?_⟩
  · rintro hdisjoint rfl
    obtain ⟨c, hc⟩ := List.exists_mem_of_ne_nil _ (hne a)
    exact hdisjoint hc hc
  · intro hdiffer c hca hcb
    exact hdiffer ((hsource a ha c hca).symm.trans (hsource b hb c hcb))

end Lists

/-! ### Expansions of cells -/

namespace Matrix

theorem nodup_ite_withTests_iff {cells : List Cell} (hmain : ∀ c ∈ cells, c.isTest = false)
    (tests : Bool) : (if tests then withTests cells else cells).Nodup ↔ cells.Nodup := by
  cases tests with
  | false => exact Iff.rfl
  | true =>
    refine nodup_flatMap_iff Cell.mainPartition (fun c hc b hb => ?_) (fun c hc => ?_)
      (fun c => by simp)
    · obtain ⟨m, p, isTest, buildType⟩ := c
      obtain rfl : isTest = false := hmain _ hc
      simp only [List.mem_cons, List.not_mem_nil, or_false] at hb
      rcases hb with rfl | rfl <;> rfl
    · obtain ⟨m, p, isTest, buildType⟩ := c
      obtain rfl : isTest = false := hmain _ hc
      simp

theorem nodup_ite_withBuildTypes_iff {cells : List Cell} (hnone : ∀ c ∈ cells, c.buildType = none)
    (buildTypes : Bool) :
    (if buildTypes then withBuildTypes cells else cells).Nodup ↔ cells.Nodup := by
  cases buildTypes with
  | false => exact Iff.rfl
  | true =>
    refine nodup_flatMap_iff (fun c => { c with buildType := none }) (fun c hc b hb => ?_)
      (fun c _ => by simp [BuildType.all]) (fun c => by simp [BuildType.all])
    obtain ⟨m, p, isTest, buildType⟩ := c
    obtain rfl : buildType = none := hnone _ hc
    obtain ⟨type, -, rfl⟩ := List.mem_map.mp hb
    rfl

/-- The cells of different modules are different, and those of a module are **as often there as the
module lists their platform**. -/
theorem nodup_ofModules_iff {only : List Platform} {modules : List Module} (h : modules.Nodup) :
    (ofModules only modules).Nodup ↔ ∀ m ∈ modules, (platformsOf only m).Nodup := by
  have hinj : ∀ m : Module, Function.Injective fun p => ({ module := m, platform := p } : Cell) :=
    fun m p q heq => congrArg Cell.platform heq
  rw [ofModules, List.nodup_flatMap, and_iff_left]
  · exact forall₂_congr fun m _ => List.nodup_map_iff (hinj m)
  · refine h.imp fun {a b} hdiffer c hca hcb => hdiffer ?_
    obtain ⟨p, -, rfl⟩ := List.mem_map.mp hca
    obtain ⟨q, -, heq⟩ := List.mem_map.mp hcb
    exact congrArg Cell.module heq.symm

end Matrix

namespace Pipeline

variable {pipeline : Pipeline} {action : Action} {cell : Cell}

/-- **An action has no cell twice** exactly if no module of an accepted type lists an accepted
platform twice. -/
theorem nodup_cells_iff (h : pipeline.project.modules.Nodup) (action : Action) :
    (pipeline.cells action).Nodup ↔ ∀ m ∈ pipeline.project.modules,
      action.acceptsType m.productType = true →
      ∀ p, action.acceptsPlatform p = true → m.platforms.count p ≤ 1 := by
  have hplain : ∀ c ∈ Matrix.ofModules action.platforms
      (Matrix.filterModules action.acceptsType pipeline.project.modules),
        c.isTest = false ∧ c.buildType = none := fun c hc => (Matrix.mem_ofModules.mp hc).2.2.2
  have hmain := fun c hc => (hplain c hc).1
  have hmodules : (Matrix.filterModules action.acceptsType pipeline.project.modules).Nodup :=
    h.filter _
  rw [cells, Matrix.nodup_ite_withBuildTypes_iff, Matrix.nodup_ite_withTests_iff hmain,
    Matrix.nodup_ofModules_iff hmodules]
  · simp only [Matrix.filterModules, List.mem_filter, and_imp]
    refine forall₂_congr fun m _ => forall_congr' fun _ => ?_
    have hplatforms : Matrix.platformsOf action.platforms m =
        m.platforms.filter action.acceptsPlatform := rfl
    rw [hplatforms, List.nodup_iff_count_le_one]
    refine forall_congr' fun p => ?_
    by_cases hp : action.acceptsPlatform p = true
    · rw [List.count_filter hp]
      simp [hp]
    · have hout : p ∉ m.platforms.filter action.acceptsPlatform := fun hmem =>
        hp (List.mem_filter.mp hmem).2
      simp [List.count_eq_zero_of_not_mem hout, hp]
  · intro c hc
    exact (hplain _ ((Matrix.mem_ite_withTests hmain _).mp hc).1).2

/-! ### Slots -/

/-- A **slot** of a pipeline: an action in a cell. -/
structure Slot where
  action : Action
  cell : Cell

def Slot.name (slot : Slot) : TaskName := .ofCell slot.action.name slot.cell

def slots (pipeline : Pipeline) : List Slot :=
  pipeline.actions.flatMap fun action => (pipeline.cells action).map (Slot.mk action)

theorem mem_slots {slot : Slot} :
    slot ∈ pipeline.slots ↔
      slot.action ∈ pipeline.actions ∧ slot.cell ∈ pipeline.cells slot.action := by
  rw [slots, List.mem_flatMap]
  constructor
  · rintro ⟨action, haction, hslot⟩
    obtain ⟨cell, hcell, rfl⟩ := List.mem_map.mp hslot
    exact ⟨haction, hcell⟩
  · rintro ⟨haction, hcell⟩
    exact ⟨_, haction, List.mem_map_of_mem hcell⟩

theorem map_name_slots (pipeline : Pipeline) :
    pipeline.slots.map Slot.name = pipeline.taskNames := by
  rw [slots, taskNames, List.map_flatMap]
  refine List.flatMap_congr fun action _ => ?_
  rw [List.map_map]
  rfl

/-- Different actions have different slots, and those of an action are **as often there as its
cells**. -/
theorem nodup_slots_iff (h : pipeline.actions.Nodup) :
    pipeline.slots.Nodup ↔ ∀ action ∈ pipeline.actions, (pipeline.cells action).Nodup := by
  have hinj : ∀ action, Function.Injective (Slot.mk action) :=
    fun action c d heq => congrArg Slot.cell heq
  rw [slots, List.nodup_flatMap, and_iff_left]
  · exact forall₂_congr fun action _ => List.nodup_map_iff (hinj action)
  · refine h.imp fun {a b} hdiffer slot ha hb => hdiffer ?_
    obtain ⟨c, -, rfl⟩ := List.mem_map.mp ha
    obtain ⟨d, -, heq⟩ := List.mem_map.mp hb
    exact congrArg Slot.action heq.symm

/-- The slots that the actions **allow**. -/
structure Allows (pipeline : Pipeline) (slot : Slot) : Prop where
  action : slot.action ∈ pipeline.actions
  module : slot.cell.module ∈ pipeline.project.modules
  /-- The module has one of the action's types, if the action lists any. -/
  moduleType : slot.action.moduleTypes = [] ∨
    slot.cell.module.productType ∈ slot.action.moduleTypes
  /-- The platform is one of the module's, and one of the action's, if the action lists any. -/
  hasPlatform : slot.cell.platform ∈ slot.cell.module.platforms
  platform : slot.action.platforms = [] ∨ slot.cell.platform ∈ slot.action.platforms
  /-- The test partition is there only for an action with tests. -/
  partition : slot.cell.isTest = true → slot.action.tests = true
  /-- There is a build type exactly for an action with build types. -/
  buildType : slot.cell.buildType.isSome = slot.action.buildTypes

theorem isEmpty_or_contains_iff {α : Type} [BEq α] [LawfulBEq α] {only : List α} {a : α} :
    (only.isEmpty || only.contains a) = true ↔ only = [] ∨ a ∈ only := by
  rw [Bool.or_eq_true, List.isEmpty_iff, List.contains_iff_mem]

theorem mem_slots_iff_allows {slot : Slot} : slot ∈ pipeline.slots ↔ pipeline.Allows slot := by
  rw [mem_slots, mem_cells, Action.acceptsType, Action.acceptsPlatform, isEmpty_or_contains_iff,
    isEmpty_or_contains_iff]
  constructor
  · rintro ⟨ha, hm, ht, hp, hq, htest, hb⟩
    exact ⟨ha, hm, ht, hp, hq, htest, hb⟩
  · exact fun h => ⟨h.action, h.module, h.moduleType, h.hasPlatform, h.platform, h.partition,
      h.buildType⟩

/-- Some action applies to a module that lists a platform **twice** which the action selects. -/
def Doubled (pipeline : Pipeline) : Prop :=
  ∃ action ∈ pipeline.actions, ∃ module ∈ pipeline.project.modules,
    (action.moduleTypes = [] ∨ module.productType ∈ action.moduleTypes) ∧
    ∃ platform, (action.platforms = [] ∨ platform ∈ action.platforms) ∧
      1 < module.platforms.count platform

theorem nodup_slots_iff_not_doubled (hactions : pipeline.actions.Nodup)
    (hmodules : pipeline.project.modules.Nodup) :
    pipeline.slots.Nodup ↔ ¬pipeline.Doubled := by
  simp only [nodup_slots_iff hactions, nodup_cells_iff hmodules, Doubled, Action.acceptsType,
    Action.acceptsPlatform, isEmpty_or_contains_iff]
  push Not
  rfl

/-! ### Registering -/

/-- **Registering some cells**, whose peers are known: either all of them are registered, or a name
comes back, and then this is the error. -/
theorem registerCells_cases (count : Nat) (builder : GraphBuilder Work) (cells : List Cell)
    (hpeers : ∀ cell ∈ cells, ∃ names, pipeline.peers action cell = .ok names) :
    (∃ more next, pipeline.registerCells action count builder cells = .ok (more, next) ∧
      next.tasks.map (·.name) =
        builder.tasks.map (·.name) ++ cells.map (TaskName.ofCell action.name)) ∨
    (∃ name before, pipeline.registerCells action count builder cells =
      .error ⟨.duplicateTask name, before⟩) ∧
      ¬(builder.tasks.map (·.name) ++ cells.map (TaskName.ofCell action.name)).Nodup := by
  induction cells generalizing count builder with
  | nil => exact .inl ⟨count, builder, rfl, by simp⟩
  | cons cell rest ih =>
    obtain ⟨⟨names, hnames⟩, hrest⟩ := List.forall_mem_cons.mp hpeers
    have hname := name_task pipeline action cell
    by_cases hmem : (pipeline.task action cell).name ∈ builder.tasks.map (·.name)
    · have hrefused : builder.register (pipeline.task action cell) names =
          .error (.duplicateTask (pipeline.task action cell).name) :=
        if_pos ((builder.contains_iff_mem _).mpr hmem)
      refine .inr ⟨⟨(pipeline.task action cell).name, builder, ?_⟩, fun hnodup => ?_⟩
      · simp only [registerCells, hnames, hrefused]
      · exact (List.nodup_append.mp hnodup).2.2 _ (hname ▸ hmem) _ (List.mem_cons_self ..) rfl
    · have hregister : builder.register (pipeline.task action cell) names = .ok _ :=
        GraphBuilder.register_eq_ok_iff.mpr ⟨hmem, rfl⟩
      simp only [registerCells, hnames, hregister]
      have happend : builder.tasks.map (·.name) ++
          (cell :: rest).map (TaskName.ofCell action.name) =
        (builder.tasks ++ [pipeline.task action cell]).map (·.name) ++
          rest.map (TaskName.ofCell action.name) := by simp [hname]
      rw [happend]
      exact ih _ _ hrest

theorem tasks_foldl_depend (builder : GraphBuilder Work) (edges : List (TaskName × TaskName)) :
    (edges.foldl (fun builder edge => builder.depend edge.1 edge.2) builder).tasks =
      builder.tasks := by
  induction edges generalizing builder with
  | nil => rfl
  | cons edge rest ih => exact ih _

/-- **Registering some actions**, whose peers are known: either all of their cells are registered,
or a name comes back, and then this is the error. -/
theorem registerActions_cases (count : Nat) (builder : GraphBuilder Work) (actions : List Action)
    (hpeers : ∀ action ∈ actions, ∀ cell ∈ pipeline.cells action,
      ∃ names, pipeline.peers action cell = .ok names) :
    (∃ more next, pipeline.registerActions count builder actions = .ok (more, next)) ∨
    (∃ name before, pipeline.registerActions count builder actions =
      .error ⟨.duplicateTask name, before⟩) ∧
      ¬(builder.tasks.map (·.name) ++ actions.flatMap fun action =>
        (pipeline.cells action).map (TaskName.ofCell action.name)).Nodup := by
  induction actions generalizing count builder with
  | nil => exact .inl ⟨count, builder, rfl⟩
  | cons action rest ih =>
    obtain ⟨hfirst, hrest⟩ := List.forall_mem_cons.mp hpeers
    rw [registerActions, List.flatMap_cons, ← List.append_assoc]
    rcases registerCells_cases count builder (pipeline.cells action) hfirst with
      ⟨more, next, hnext, hnames⟩ | ⟨⟨name, before, herror⟩, hnodup⟩
    · simp only [hnext]
      rw [← hnames, ← tasks_foldl_depend next (pipeline.moduleEdges action)]
      exact ih _ _ hrest
    · simp only [herror]
      exact .inr ⟨⟨name, before, rfl⟩, fun h => hnodup (List.nodup_append.mp h).1⟩

section Registered

variable {count : Nat} {builder : GraphBuilder Work}

theorem tasks_of_register (h : pipeline.register = .ok (count, builder)) :
    builder.tasks = pipeline.slots.map fun slot => pipeline.task slot.action slot.cell := by
  have hregistered := registered_declarations h
  obtain ⟨-, rfl, -, -⟩ := register_spec h
  rw [GraphBuilder.tasks_declareAll, hregistered, slots, List.map_flatMap]
  refine List.flatMap_congr fun action _ => ?_
  rw [List.map_map]
  rfl

theorem nodup_map_name_slots (h : pipeline.register = .ok (count, builder)) :
    (pipeline.slots.map Slot.name).Nodup := by
  obtain ⟨-, rfl, hnames, -⟩ := register_spec h
  rw [map_name_slots, ← hnames, ← GraphBuilder.names_declareAll]
  exact (GraphBuilder.declared_declareAll _).names_nodup

theorem contains_iff_mem_map_name (h : pipeline.register = .ok (count, builder)) (name : TaskName) :
    builder.contains name = true ↔ name ∈ pipeline.slots.map Slot.name := by
  obtain ⟨-, rfl, hnames, -⟩ := register_spec h
  rw [GraphBuilder.contains_iff_mem, GraphBuilder.names_declareAll, hnames, map_name_slots]

theorem nodup_map_task_slots (h : pipeline.register = .ok (count, builder)) :
    (pipeline.slots.map fun slot => pipeline.task slot.action slot.cell).Nodup := by
  refine List.Nodup.of_map (·.name) ?_
  rw [List.map_map, List.map_congr_left fun slot _ => name_task pipeline slot.action slot.cell]
  exact nodup_map_name_slots h

end Registered

/-- **Registering a pipeline** whose peers are known: it fails exactly if a name comes back, and
then this is the error. -/
theorem register_cases (hpeers : ∀ action ∈ pipeline.actions, ∀ cell ∈ pipeline.cells action,
      ∃ names, pipeline.peers action cell = .ok names) :
    (∃ count builder, pipeline.register = .ok (count, builder)) ∧ pipeline.taskNames.Nodup ∨
    (∃ name before, pipeline.register = .error ⟨.duplicateTask name, before⟩) ∧
      ¬pipeline.taskNames.Nodup := by
  rcases registerActions_cases 0 {} pipeline.actions hpeers with ⟨count, builder, hbuilder⟩ | herror
  · exact .inl ⟨⟨count, builder, hbuilder⟩, map_name_slots pipeline ▸ nodup_map_name_slots hbuilder⟩
  · exact .inr herror

theorem exists_peers (hknown : ∀ name ∈ action.dependsOn, (pipeline.action? name).isSome = true)
    (cell : Cell) : ∃ names, pipeline.peers action cell = .ok names := by
  have hlisted : ∀ listed : List String,
      (∀ name ∈ listed, (pipeline.action? name).isSome = true) →
      ∃ names, pipeline.peersOf action cell listed = .ok names := by
    intro listed
    induction listed with
    | nil => exact fun _ => ⟨[], rfl⟩
    | cons name rest ih =>
      intro hlisted
      obtain ⟨hname, hrest⟩ := List.forall_mem_cons.mp hlisted
      obtain ⟨peer, hpeer⟩ := Option.isSome_iff_exists.mp hname
      obtain ⟨others, hothers⟩ := ih hrest
      exact ⟨peerTasks peer cell ++ others, by simp [peersOf, hpeer, hothers]⟩
  obtain ⟨names, hnames⟩ := hlisted action.dependsOn hknown
  rw [peers, hnames]
  exact ⟨_, rfl⟩

end Pipeline

/-! ### Configurations that pass the check -/

namespace Config

variable {config : Config} {root : Path} {timeout : Option Duration}

open Pipeline (Slot)

/-- **Different slots have different names**: a name tells the module, the action and the cell, and
there is one module and one action of each name. -/
theorem Consistent.eq_of_name_eq (h : config.Consistent) {slot other : Slot}
    (hslot : slot ∈ (config.pipeline root timeout).slots)
    (hother : other ∈ (config.pipeline root timeout).slots) (heq : slot.name = other.name) :
    slot = other := by
  obtain ⟨action, m, p, isTest, buildType⟩ := slot
  obtain ⟨action', m', p', isTest', buildType'⟩ := other
  have hallows := Pipeline.mem_slots_iff_allows.mp hslot
  have hallows' := Pipeline.mem_slots_iff_allows.mp hother
  have htext := congrArg (fun name : TaskName => name.text.toList) heq
  simp only [Slot.name, TaskName.ofCell, TaskName.forAction, String.toList_append,
    List.append_assoc] at htext
  obtain ⟨hmodule, hrest⟩ := Fingerprint.cut_at (h.colon_notMem _ hallows.module)
    (h.colon_notMem _ hallows'.module) (List.cons.inj htext).2
  obtain ⟨haction, hvariant⟩ := TaskName.suffixCode_variant.read
    (a := ((p, isTest), buildType)) (b := ((p', isTest'), buildType')) hrest
  obtain rfl := List.inj_on_of_nodup_map (Project.checkModules_eq_ok_iff.1 h.checked).1
    hallows.module hallows'.module (String.toList_inj.mp hmodule)
  obtain rfl := List.inj_on_of_nodup_map h.actions_nodup hallows.action hallows'.action
    (String.toList_inj.mp haction)
  cases hvariant
  rfl

theorem Consistent.nodup_taskNames_iff (h : config.Consistent) :
    (config.pipeline root timeout).taskNames.Nodup ↔ ¬(config.pipeline root timeout).Doubled := by
  have hactions : config.actions.Nodup := h.actions_nodup.of_map
  have hmodules : config.modules.Nodup :=
    (Project.checkModules_eq_ok_iff.1 h.checked).1.of_map
  rw [← Pipeline.map_name_slots, ← Pipeline.nodup_slots_iff_not_doubled hactions hmodules]
  exact ⟨List.Nodup.of_map _, fun hslots =>
    hslots.map_on fun slot hslot other hother => h.eq_of_name_eq hslot hother⟩

theorem Consistent.exists_peers (h : config.Consistent) :
    ∀ action ∈ (config.pipeline root timeout).actions,
      ∀ cell ∈ (config.pipeline root timeout).cells action,
        ∃ names, (config.pipeline root timeout).peers action cell = .ok names := by
  intro action haction cell _
  refine Pipeline.exists_peers (fun name hname => ?_) cell
  obtain ⟨peer, hpeer, -⟩ := h.peers action haction name hname
  exact Option.isSome_iff_exists.mpr ⟨peer, hpeer⟩

/-- **There is one task for each combination that the actions allow**, for every configuration that
passes the check. Its modules make a project. Registering its actions never meets an action that is
not known; it fails exactly if some action applies to a module that lists a platform twice which the
action selects, and then because of a task that is there already. Otherwise it counts as many tasks
as combinations of an action, a module, a platform, a partition and a build type are allowed, and
there is one for each, under the name that is made from it. -/
theorem registration_is_exact (hvalid : config.validate = .ok ()) (root : Path)
    (timeout : Option Duration) :
    Project.make root config.modules = .ok (config.pipeline root timeout).project ∧
    (∀ action dependency before, (config.pipeline root timeout).register ≠
      .error ⟨.unknownAction action dependency, before⟩) ∧
    ((∃ refusal, (config.pipeline root timeout).register = .error refusal) ↔
      (config.pipeline root timeout).Doubled) ∧
    (∀ refusal, (config.pipeline root timeout).register = .error refusal →
      ∃ name, refusal.error = .duplicateTask name) ∧
    ∀ count builder, (config.pipeline root timeout).register = .ok (count, builder) →
      count = {slot | (config.pipeline root timeout).Allows slot}.ncard ∧
      builder.tasks.length = count ∧
      Set.BijOn (fun slot => (config.pipeline root timeout).task slot.action slot.cell)
        {slot | (config.pipeline root timeout).Allows slot} {task | task ∈ builder.tasks} ∧
      Set.BijOn (fun slot => TaskName.forAction slot.action.name slot.cell.module.name
          slot.cell.platform slot.cell.isTest slot.cell.buildType)
        {slot | (config.pipeline root timeout).Allows slot} {name | builder.contains name} := by
  have hconsistent := consistent_of_validate hvalid
  have hpeers : ∀ action ∈ (config.pipeline root timeout).actions,
      ∀ cell ∈ (config.pipeline root timeout).cells action,
        ∃ names, (config.pipeline root timeout).peers action cell = .ok names :=
    hconsistent.exists_peers
  have hcases := Pipeline.register_cases hpeers
  rw [hconsistent.nodup_taskNames_iff] at hcases
  refine ⟨hconsistent.make root, ?_, ?_, ?_, fun count builder hbuilder => ?_⟩
  · rintro action dependency before herror
    rcases hcases with ⟨⟨count, builder, hok⟩, -⟩ | ⟨⟨name, other, hduplicate⟩, -⟩
    · rw [hok] at herror
      cases herror
    · rw [hduplicate] at herror
      cases herror
  · rcases hcases with ⟨⟨count, builder, hok⟩, hnot⟩ | ⟨⟨name, other, hduplicate⟩, hnot⟩
    · simp [hok, hnot]
    · simp [hduplicate, not_not.mp hnot]
  · intro refusal herror
    rcases hcases with ⟨⟨count, builder, hok⟩, -⟩ | ⟨⟨name, other, hduplicate⟩, -⟩
    · rw [hok] at herror
      cases herror
    · rw [hduplicate] at herror
      exact ⟨name, by rw [← Except.error.inj herror]⟩
  · have hcount : count = (config.pipeline root timeout).slots.length := by
      rw [(Pipeline.register_spec hbuilder).1, ← Pipeline.map_name_slots, List.length_map]
    simp only [← Pipeline.mem_slots_iff_allows, Pipeline.contains_iff_mem_map_name hbuilder,
      Pipeline.tasks_of_register hbuilder]
    refine ⟨?_, by rw [hcount, List.length_map],
      bijOn_of_nodup_map (Pipeline.nodup_map_task_slots hbuilder),
      bijOn_of_nodup_map (Pipeline.nodup_map_name_slots hbuilder)⟩
    rw [hcount, length_eq_ncard (Pipeline.nodup_map_name_slots hbuilder).of_map]

/-- A **library and an application** on top of it, compiled for tests and build types; what is
compiled for the virtual machine is packed. -/
def layered : Config where
  modules := [
    { name := "core", platforms := [.jvm, .js] },
    { name := "app", productType := .jvmApp, platforms := [.jvm],
      dependencies := [{ module := "core" }] }]
  actions := [
    { name := "pack", command := some "pack", platforms := [.jvm], buildTypes := true,
      dependsOn := ["compile"] },
    { name := "compile", command := some "compile", tests := true, buildTypes := true,
      moduleDependencies := some .compile }]

/-- The same with a module that lists a platform twice. -/
def layeredTwice : Config :=
  { layered with modules := [{ name := "core", platforms := [.jvm, .js, .jvm] }] }

theorem register_layered :
    ∃ registered, (layered.pipeline ⟨"/work"⟩ none).register = .ok registered ∧
      registered.1 = 16 :=
  exists_eq_ok_of_toOption (by decide +kernel)

/-- The library and the application have sixteen tasks; with a module that lists a platform twice
there is an error. -/
theorem registration_is_exact_layered :
    layered.validate = .ok () ∧
    (∃ builder, (layered.pipeline ⟨"/work"⟩ none).register = .ok (16, builder) ∧
      builder.tasks.length = 16 ∧
      {slot | (layered.pipeline ⟨"/work"⟩ none).Allows slot}.ncard = 16) ∧
    layeredTwice.validate = .ok () ∧ (layeredTwice.pipeline ⟨"/work"⟩ none).Doubled ∧
    ∃ refusal name, (layeredTwice.pipeline ⟨"/work"⟩ none).register = .error refusal ∧
      refusal.error = .duplicateTask name := by
  have hvalid : layered.validate = .ok () := by decide +kernel
  have htwice : layeredTwice.validate = .ok () := by decide +kernel
  obtain ⟨⟨count, builder⟩, hbuilder, rfl⟩ := register_layered
  have hdoubled : (layeredTwice.pipeline ⟨"/work"⟩ none).Doubled :=
    ⟨_, .tail _ (.head _), _, .head _, .inl rfl, .jvm, .inl rfl, by decide⟩
  obtain ⟨-, -, hfails, herror, -⟩ := registration_is_exact htwice ⟨"/work"⟩ none
  obtain ⟨refusal, hrefusal⟩ := hfails.mpr hdoubled
  obtain ⟨name, hname⟩ := herror refusal hrefusal
  obtain ⟨hcount, hlength, -⟩ :=
    (registration_is_exact hvalid ⟨"/work"⟩ none).2.2.2.2 _ builder hbuilder
  exact ⟨hvalid, ⟨builder, hbuilder, hlength, hcount.symm⟩, htwice, hdoubled, refusal, name,
    hrefusal, hname⟩

end Config

end BuildMatrix
