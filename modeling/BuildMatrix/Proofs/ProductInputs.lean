import BuildMatrix.Proofs.InputFiles
import BuildMatrix.Proofs.OutputDirectories

/-!
# Products and inputs

What a build writes should not be an input of its tasks, and so files in its directories are left
out. They are told by how their paths are written. A path that goes up and down again leads into
these directories without starting like them, and what it leads to is an input; without such steps
no input lies there.
-/

namespace BuildMatrix

namespace Path

variable {path root : Path}

/-- The component that a path **starts** with, before its names. -/
def start (path : Path) : List Component :=
  if path.isAbsolute then [.root] else if path.startsAtCurrent then [.current] else []

theorem components_of_plain (h : ".." ∉ path.plainNames) :
    path.components = path.start ++ path.plainNames.map .normal := by
  have hstart : path.start.filterMap Component.part? = [] := by
    unfold start
    split
    · rfl
    · split <;> rfl
  have hcomponents : path.components = path.start ++
      (split '/' (path.chars.drop path.headLength)).filterMap component? := rfl
  rw [plainNames_eq, hcomponents, List.filterMap_append, hstart, List.nil_append] at h ⊢
  congr 1
  clear hcomponents
  generalize split '/' (path.chars.drop path.headLength) = parts at h
  induction parts with
  | nil => rfl
  | cons part parts ih =>
    have hpart : component? part = none ∨ component? part = some .parent ∨
        ∃ name, component? part = some (.normal name) := by
      rw [component?.eq_def]
      split <;> simp
    rcases hpart with hpart | hpart | ⟨name, hpart⟩
    · rw [List.filterMap_cons_none hpart] at h ⊢
      exact ih h
    · rw [List.filterMap_cons_some hpart] at h
      exact absurd List.mem_cons_self h
    · rw [List.filterMap_cons_some hpart] at h ⊢
      exact congrArg (Component.normal name :: ·) (ih (mt (List.mem_cons_of_mem name) h))

theorem resolved_of_plain (h : ".." ∉ path.plainNames) :
    path.resolved = (path.isAbsolute, path.plainNames) := by
  have hfold : ∀ names entered : List String, ".." ∉ names →
      names.foldl (enter path.isAbsolute) entered = entered ++ names := by
    intro names
    induction names with
    | nil => simp
    | cons name names ih =>
      intro entered hnames
      have hname : name ≠ ".." := fun heq => hnames (heq ▸ List.mem_cons_self)
      rw [List.foldl_cons, enter, if_neg hname, ih _ (mt (List.mem_cons_of_mem name) hnames),
        ← List.append_cons]
  rw [resolved, hfold _ _ h, List.nil_append]

end Path

namespace Command

/-- **No input is a product as its path is written**: it does not start like the directory of the
build, or that of the cache. So no input lies there if neither path has a step up, and both start in
the same way. -/
theorem inputs_are_outside_as_written {task : Command} {tree : FileTree} {layout : Layout}
    {files : List Path} (h : task.inputFiles tree layout = .ok files) :
    ∀ path ∈ files, ∀ root ∈ [layout.buildRoot, layout.cacheRoot], path.within root = false ∧
      (path.start = root.start → ".." ∉ path.plainNames → ".." ∉ root.plainNames →
        ¬(path.resolved.1 = root.resolved.1 ∧ root.resolved.2 <+: path.resolved.2)) := by
  intro path hpath root hroot
  have hwithin := (kept_of_mem_inputFiles h hpath).2 root hroot
  refine ⟨hwithin, fun hstart hpath hroot => ?_⟩
  rw [Path.resolved_of_plain hpath, Path.resolved_of_plain hroot]
  rintro ⟨-, hnames⟩
  refine Bool.eq_false_iff.1 hwithin ?_
  rw [Path.within, List.isPrefixOf_iff_prefix, Path.components_of_plain hpath,
    Path.components_of_plain hroot, hstart]
  exact (List.prefix_append_right_inj _).2 (hnames.map _)

/-- A task that reads the files of its module, or what it is told to. -/
def reading (inputs : List String) : Command :=
  ofCell { name := "gen", command := some "true", inputs }
    { module := { name := "core", platforms := [.jvm] }, platform := .jvm } ⟨"/p"⟩ none

/-- A project after its first build. -/
def builtTree : FileTree where
  entries := [(["p"], .directory), (["p", "core"], .directory),
    (["p", "core", "a.txt"], .file .empty), (["p", "build"], .directory),
    (["p", "build", "tasks"], .directory), (["p", "build", "tasks", "core_genJvm"], .directory),
    (["p", "build", "tasks", "core_genJvm", "x.txt"], .file .empty)]
  here := []

theorem module_file_is_outside :
    (reading []).inputFiles builtTree (.new ⟨"/p"⟩) = .ok [⟨"/p/core/a.txt"⟩] ∧
      ¬(Layout.new ⟨"/p"⟩).buildRoot.resolved.2 <+: (⟨"/p/core/a.txt"⟩ : Path).resolved.2 := by
  have hfiles : (reading []).inputFiles builtTree (.new ⟨"/p"⟩) = .ok [⟨"/p/core/a.txt"⟩] := by
    decide +kernel
  obtain ⟨-, houtside⟩ := inputs_are_outside_as_written hfiles ⟨"/p/core/a.txt"⟩ (by simp)
    (Layout.new ⟨"/p"⟩).buildRoot (by simp)
  exact ⟨hfiles, fun h => houtside (by decide +kernel) (by decide +kernel) (by decide +kernel)
    ⟨by decide +kernel, h⟩⟩

/-- **A product becomes an input** of the task that has written it. -/
theorem product_is_an_input :
    (reading ["../build/tasks/core_genJvm/x.txt"]).inputFiles builtTree (.new ⟨"/p"⟩) =
        .ok [⟨"/p/core/../build/tasks/core_genJvm/x.txt"⟩] ∧
      (⟨"/p/core/../build/tasks/core_genJvm/x.txt"⟩ : Path).resolved =
        (true, ["p", "build", "tasks", "core_genJvm", "x.txt"]) := by
  decide +kernel

end Command

end BuildMatrix
