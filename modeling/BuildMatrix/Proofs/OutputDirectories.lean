import BuildMatrix.Proofs.Lookups
import BuildMatrix.Proofs.Registration
import BuildMatrix.Proofs.Workshop

/-!
# Where tasks write

A task writes to a directory of its own, or to that of its shared key. Both are named after a text
in which all separators were replaced, and lie below the directory of the tasks, those of shared
keys one level deeper.

For directories of their own this keeps tasks apart: graphs with two tasks whose names make one
directory are refused, and the name of a module, with which all these directories start, begins with
a letter or digit. Nothing is asked of shared keys. A key may stand for the directory above, or for
the directory of all keys, and two keys may make one directory. These are the only ways in which
tasks get in each other's way.
-/

namespace BuildMatrix

variable {name : String}

/-! ### Resolving paths -/

namespace Path

/-- The names of a path with **one more**: a `..` takes back the last of them, stays at the root,
and is kept at the start of a relative path. -/
def enter (isAbsolute : Bool) (names : List String) (name : String) : List String :=
  if name = ".." then
    match names.getLast? with
    | none => if isAbsolute then [] else [".."]
    | some last => if last = ".." then names ++ [".."] else names.dropLast
  else names ++ [name]

/-- The names that a path leads through, with each `.` and `..` **resolved**; and whether it starts
at the root. -/
def resolved (path : Path) : Bool × List String :=
  (path.isAbsolute, path.plainNames.foldl (enter path.isAbsolute) [])

/-- A path that lies **strictly below** another. -/
def StrictlyBelow (path dir : Path) : Prop :=
  path.resolved.1 = dir.resolved.1 ∧ dir.resolved.2 <+: path.resolved.2 ∧
    dir.resolved.2 ≠ path.resolved.2

/-- Two paths that are **equal or nested**. -/
def Overlap (path other : Path) : Prop :=
  path.resolved.1 = other.resolved.1 ∧
    (path.resolved.2 <+: other.resolved.2 ∨ other.resolved.2 <+: path.resolved.2)

theorem resolved_child (dir : Path) (hne : name ≠ "") (hname : '/' ∉ name.toList) :
    (dir.child name).resolved =
      (dir.resolved.1, if name = "." then dir.resolved.2
        else enter dir.isAbsolute dir.resolved.2 name) := by
  rw [resolved, isAbsolute_child dir hname, plainNames_child dir hne hname, List.foldl_append]
  by_cases hcurrent : name = "."
  · simp [hcurrent, resolved]
  · simp [hcurrent, resolved]

theorem resolved_child_of_plain (dir : Path) (hne : name ≠ "") (hname : '/' ∉ name.toList)
    (hcurrent : name ≠ ".") (hparent : name ≠ "..") :
    (dir.child name).resolved = (dir.resolved.1, dir.resolved.2 ++ [name]) := by
  rw [resolved_child dir hne hname, if_neg hcurrent, enter, if_neg hparent]

end Path

/-! ### The directories of tasks -/

namespace Task

variable {task other : Task Work} {key : String}

/-- The shared key of a task. -/
def sharedKey? (task : Task Work) : Option String :=
  match task.work with
  | .command command => command.sharedKey
  | .classpath => none

/-- Where a task writes. -/
def writeDir (task : Task Work) (place : Place) : Path :=
  match task.work with
  | .command command => command.outputDir place.layout (place.ownDir command.name)
  | .classpath => place.ownDir task.name

/-- The directory of a shared key **below that of the tasks**. -/
def keySpot (key : String) : List String :=
  if TaskName.dirName key = ".." then []
  else if TaskName.dirName key = "." then ["_shared"]
  else ["_shared", TaskName.dirName key]

/-- The directory of a task **below that of the tasks**. -/
def spot (task : Task Work) : List String :=
  match task.sharedKey? with
  | some key => keySpot key
  | none => [task.name.outputDir]

/-- The directories of tasks are **as they should be**: below that of the tasks, and apart unless
the tasks have the same shared key. -/
structure Separated (place : Place) (tasks : List (Task Work)) : Prop where
  below : ∀ task ∈ tasks, (task.writeDir place).StrictlyBelow place.layout.tasksRoot
  apart : ∀ task ∈ tasks, ∀ other ∈ tasks, task.name ≠ other.name →
    (task.writeDir place).Overlap (other.writeDir place) →
    ∃ key, task.sharedKey? = some key ∧ other.sharedKey? = some key

/-- Shared keys are **clear**: none stands for the directory above, and if there are several, they
make different directories, and none stands for the directory of all keys. -/
structure KeysClear (keys : List String) : Prop where
  inside : ∀ key ∈ keys, TaskName.dirName key ≠ ".."
  different : ∀ key ∈ keys, ∀ key' ∈ keys, key ≠ key' →
    TaskName.dirName key ≠ TaskName.dirName key' ∧ TaskName.dirName key ≠ "."

/-- A task that is **made from an action**: it writes under its own name, which starts with that of
a module. -/
structure Made (task : Task Work) : Prop where
  name_eq : ∀ command, task.work = .command command → command.name = task.name
  start : ∃ c, task.name.outputDir.toList.head? = some c ∧ c.isAlphanum = true

theorem Made.outputDir_ne (h : task.Made) (hname : ∀ c ∈ name.toList.head?, c.isAlphanum = false) :
    task.name.outputDir ≠ name := by
  obtain ⟨c, hstart, hc⟩ := h.start
  rintro rfl
  rw [hname c hstart] at hc
  cases hc

theorem resolved_sharedDir (layout : Layout) (key : String) :
    (Command.sharedDir layout key).resolved =
      (layout.tasksRoot.resolved.1, layout.tasksRoot.resolved.2 ++ keySpot key) := by
  obtain ⟨hne, hseparator⟩ := TaskName.outputDir_spec ⟨key⟩
  have hkeys : (layout.tasksRoot.child "_shared").resolved =
      (layout.tasksRoot.resolved.1, layout.tasksRoot.resolved.2 ++ ["_shared"]) :=
    Path.resolved_child_of_plain _ (by decide) (by decide) (by decide) (by decide)
  have hlast : (layout.tasksRoot.resolved.2 ++ ["_shared"]).getLast? = some "_shared" :=
    List.getLast?_concat
  rw [Command.sharedDir]
  refine (Path.resolved_child _ hne hseparator).trans ?_
  rw [hkeys, TaskName.outputDir, keySpot]
  by_cases hparent : TaskName.dirName key = ".."
  · simp [hparent, Path.enter]
  by_cases hcurrent : TaskName.dirName key = "."
  · simp [hcurrent]
  · simp [hparent, hcurrent, Path.enter]

/-- **Where the directory of a task lies**, below that of the tasks. -/
theorem Made.resolved_writeDir (h : task.Made) (place : Place) :
    (task.writeDir place).resolved =
      (place.layout.tasksRoot.resolved.1, place.layout.tasksRoot.resolved.2 ++ task.spot) := by
  obtain ⟨hne, hseparator⟩ := task.name.outputDir_spec
  have hown : (place.ownDir task.name).resolved =
      (place.layout.tasksRoot.resolved.1,
        place.layout.tasksRoot.resolved.2 ++ [task.name.outputDir]) :=
    Path.resolved_child_of_plain _ hne hseparator (h.outputDir_ne (by simp))
      (h.outputDir_ne (by simp))
  cases hwork : task.work with
  | classpath => simpa only [writeDir, spot, sharedKey?, hwork] using hown
  | command command =>
    have hname := h.name_eq command hwork
    cases hkey : command.sharedKey with
    | none =>
      simpa only [writeDir, spot, sharedKey?, hwork, hkey, Command.outputDir, hname] using hown
    | some key =>
      simpa only [writeDir, spot, sharedKey?, hwork, hkey, Command.outputDir] using
        resolved_sharedDir place.layout key

theorem spot_eq_nil_iff :
    task.spot = [] ↔ ∃ key, task.sharedKey? = some key ∧ TaskName.dirName key = ".." := by
  rw [spot]
  cases task.sharedKey? with
  | none => simp
  | some key =>
    simp only [keySpot, Option.some.injEq, exists_eq_left']
    split
    · next hparent => simp [hparent]
    · next hparent => split <;> simp [hparent]

/-- **The directory of a task lies below that of the tasks** unless its key stands for the directory
above. -/
theorem Made.strictlyBelow_iff (h : task.Made) (place : Place) :
    (task.writeDir place).StrictlyBelow place.layout.tasksRoot ↔
      ∀ key, task.sharedKey? = some key → TaskName.dirName key ≠ ".." := by
  have hspot : task.spot ≠ [] ↔
      ∀ key, task.sharedKey? = some key → TaskName.dirName key ≠ ".." := by
    rw [Ne, spot_eq_nil_iff]
    push Not
    rfl
  rw [← hspot, Path.StrictlyBelow, h.resolved_writeDir place]
  simp

theorem Made.overlap_iff (h : task.Made) (hother : other.Made) (place : Place) :
    (task.writeDir place).Overlap (other.writeDir place) ↔
      task.spot <+: other.spot ∨ other.spot <+: task.spot := by
  rw [Path.Overlap, h.resolved_writeDir place, hother.resolved_writeDir place]
  simp [List.prefix_append_right_inj]

theorem keySpot_prefix_iff {key' : String} (h : TaskName.dirName key ≠ "..")
    (h' : TaskName.dirName key' ≠ "..") :
    keySpot key <+: keySpot key' ↔
      TaskName.dirName key = TaskName.dirName key' ∨ TaskName.dirName key = "." := by
  rw [keySpot, keySpot, if_neg h, if_neg h']
  by_cases hcurrent : TaskName.dirName key = "."
  · rw [if_pos hcurrent]
    split <;> simp [hcurrent]
  · rw [if_neg hcurrent]
    by_cases hcurrent' : TaskName.dirName key' = "." <;> simp [hcurrent, hcurrent']

theorem Made.not_overlap (h : task.Made) (hkey : task.sharedKey? = none)
    (hother : other.sharedKey? = some key) (hinside : TaskName.dirName key ≠ "..") :
    ¬(task.spot <+: other.spot ∨ other.spot <+: task.spot) := by
  have hshared : task.name.outputDir ≠ "_shared" := h.outputDir_ne (by simp)
  simp only [spot, hkey, hother, keySpot, if_neg hinside]
  split <;> simp [hshared, hshared.symm]

/-- **The directories of some tasks are as they should be exactly if their keys are**, where the
tasks' own directories differ. -/
theorem separated_iff {tasks : List (Task Work)} (hmade : ∀ task ∈ tasks, task.Made)
    (hnodup : (tasks.map fun task => task.name.outputDir).Nodup) (place : Place) :
    Separated place tasks ↔ KeysClear (tasks.filterMap sharedKey?) := by
  have hsame : ∀ task ∈ tasks, ∀ other ∈ tasks,
      task.name.outputDir = other.name.outputDir → task = other := fun task htask other hother =>
    List.inj_on_of_nodup_map hnodup htask hother
  constructor
  · intro h
    have hinside : ∀ task ∈ tasks, ∀ key, task.sharedKey? = some key →
        TaskName.dirName key ≠ ".." := fun task htask =>
      ((hmade task htask).strictlyBelow_iff place).1 (h.below task htask)
    refine ⟨fun key hmem => ?_, fun key hmem key' hmem' hne => ?_⟩
    · obtain ⟨task, htask, hkey⟩ := List.mem_filterMap.1 hmem
      exact hinside task htask key hkey
    · obtain ⟨task, htask, hkey⟩ := List.mem_filterMap.1 hmem
      obtain ⟨other, hother, hkey'⟩ := List.mem_filterMap.1 hmem'
      have hname : task.name ≠ other.name := fun heq => by
        obtain rfl := hsame task htask other hother (by rw [heq])
        exact hne (Option.some.inj (hkey.symm.trans hkey'))
      rw [← not_or, ← keySpot_prefix_iff (hinside task htask key hkey)
        (hinside other hother key' hkey')]
      intro hnested
      obtain ⟨found, hfound, hfound'⟩ := h.apart task htask other hother hname
        (((hmade task htask).overlap_iff (hmade other hother) place).2
          (.inl (by simpa only [spot, hkey, hkey'] using hnested)))
      exact hne (Option.some.inj ((hkey.symm.trans hfound).trans (hfound'.symm.trans hkey')))
  · intro h
    have hmem : ∀ task ∈ tasks, ∀ key, task.sharedKey? = some key →
        key ∈ tasks.filterMap sharedKey? := fun task htask key hkey =>
      List.mem_filterMap.2 ⟨task, htask, hkey⟩
    refine ⟨fun task htask => ((hmade task htask).strictlyBelow_iff place).2 fun key hkey =>
      h.inside key (hmem task htask key hkey), fun task htask other hother hname hoverlap => ?_⟩
    have hspots := ((hmade task htask).overlap_iff (hmade other hother) place).1 hoverlap
    cases hkey : task.sharedKey? with
    | none =>
      cases hkey' : other.sharedKey? with
      | none =>
        simp only [spot, hkey, hkey', List.cons_prefix_cons, List.prefix_rfl, and_true] at hspots
        have houtput : task.name.outputDir = other.name.outputDir := hspots.elim id Eq.symm
        exact absurd (congrArg Task.name (hsame task htask other hother houtput)) hname
      | some key' =>
        exact absurd hspots ((hmade task htask).not_overlap hkey hkey'
          (h.inside key' (hmem other hother key' hkey')))
    | some key =>
      have hinside := h.inside key (hmem task htask key hkey)
      cases hkey' : other.sharedKey? with
      | none => exact absurd hspots.symm ((hmade other hother).not_overlap hkey' hkey hinside)
      | some key' =>
        have hinside' := h.inside key' (hmem other hother key' hkey')
        refine ⟨key, rfl, ?_⟩
        by_contra hne
        replace hne : key' ≠ key := fun heq => hne (congrArg some heq)
        have hdifferent := h.different key (hmem task htask key hkey) key'
          (hmem other hother key' hkey') hne.symm
        have hdifferent' := h.different key' (hmem other hother key' hkey') key
          (hmem task htask key hkey) hne
        simp only [spot, hkey, hkey'] at hspots
        rcases hspots with hnested | hnested
        · exact ((keySpot_prefix_iff hinside hinside').1 hnested).elim hdifferent.1 hdifferent.2
        · exact ((keySpot_prefix_iff hinside' hinside).1 hnested).elim hdifferent'.1 hdifferent'.2

end Task

/-! ### The tasks of a configuration -/

theorem TaskName.outputDir_ofCell {kind : String} {cell : Cell}
    (h : isValidName cell.module.name = true) :
    ∃ c, (ofCell kind cell).outputDir.toList.head? = some c ∧ c.isAlphanum = true := by
  rw [isValidName] at h
  split at h
  · cases h
  · next c rest hname =>
    have hc : c.isAlphanum = true := (Bool.and_eq_true_iff.1 h).1
    have hcolon : c ≠ ':' := by
      rintro rfl
      cases hc
    have hchar : dirChar c = c := by
      have hseparator : c ≠ '/' ∧ c ≠ '\\' := by constructor <;> rintro rfl <;> cases hc
      simp [dirChar, hcolon, hseparator, hc]
    refine ⟨c, ?_, hc⟩
    simp [outputDir, dirName, ofCell, forAction, hname, hcolon, hchar]

theorem Pipeline.made_of_register {pipeline : Pipeline} {count : Nat} {builder : GraphBuilder Work}
    (hvalid : ∀ module ∈ pipeline.project.modules, isValidName module.name = true)
    (h : pipeline.register = .ok (count, builder)) : ∀ task ∈ builder.tasks, task.Made := by
  intro task htask
  rw [tasks_of_register h] at htask
  obtain ⟨slot, hslot, rfl⟩ := List.mem_map.1 htask
  have hmodule := (mem_cells.1 (mem_slots.1 hslot).2).1
  refine ⟨fun command hwork => ?_, ?_⟩
  · rw [name_task]
    rw [Pipeline.task] at hwork
    split at hwork
    · cases hwork
    · cases hwork
      rfl
  · rw [name_task]
    exact TaskName.outputDir_ofCell (hvalid _ hmodule)

theorem GraphBuilder.nodup_outputDir_of_build {ω : Type} {builder : GraphBuilder ω}
    {graph : TaskGraph ω} (h : builder.build = .ok graph) :
    (builder.tasks.map fun task => task.name.outputDir).Nodup := by
  have hconflict : conflict? [] (builder.tasks.map (·.name)) = none := by
    rw [build] at h
    split at h
    · cases h
    split at h
    · cases h
    · next hconflict => exact hconflict
  have hnodup := (conflict?_eq_none_iff.1 hconflict).1
  rwa [List.map_map] at hnodup

namespace Config

/-- **The directories of tasks are as they should be exactly if the shared keys are clear**: for a
configuration that passes the check and makes a graph, they lie strictly below that of the tasks,
and two of them are equal or nested only for tasks with the same key. -/
theorem directories_separated_iff {config : Config} (hvalid : config.validate = .ok ())
    (root : Path) (timeout : Option Duration) {count : Nat} {builder : GraphBuilder Work}
    (hregister : (config.pipeline root timeout).register = .ok (count, builder))
    {graph : TaskGraph Work} (hbuild : builder.build = .ok graph) (place : Place) :
    Task.Separated place builder.tasks ↔
      Task.KeysClear (builder.tasks.filterMap Task.sharedKey?) :=
  Task.separated_iff (Pipeline.made_of_register (isValidName_of_validate hvalid) hregister)
    (GraphBuilder.nodup_outputDir_of_build hbuild) place

/-- A module with two actions that have shared keys. -/
def twoKeys (key key' : String) : Config where
  modules := [{ name := "core", platforms := [.jvm] }]
  actions := [{ name := "gen", command := some "true", sharedKey := some key },
    { name := "pack", command := some "true", sharedKey := some key' }]

theorem exists_graph {config : Config} {root : Path} {keys : List String}
    (h : ((config.pipeline root none).register.toOption.bind fun registered =>
      registered.2.build.toOption.map fun _ => registered.2.tasks.filterMap Task.sharedKey?) =
        some keys) :
    ∃ count builder graph, (config.pipeline root none).register = .ok (count, builder) ∧
      builder.build = .ok graph ∧ builder.tasks.filterMap Task.sharedKey? = keys := by
  obtain ⟨⟨count, builder⟩, hbuilder, hmap⟩ := Option.bind_eq_some_iff.1 h
  obtain ⟨graph, hgraph, hkeys⟩ := Option.map_eq_some_iff.1 hmap
  exact ⟨count, builder, graph, eq_ok_of_toOption_eq_some hbuilder,
    eq_ok_of_toOption_eq_some hgraph, hkeys⟩

/-- Two keys that make different directories keep the tasks apart. -/
theorem directories_separated_twoKeys :
    (twoKeys "gen" "pack").validate = .ok () ∧
    ∃ count builder graph,
      ((twoKeys "gen" "pack").pipeline ⟨"/work"⟩ none).register = .ok (count, builder) ∧
      builder.build = .ok graph ∧ ∀ place, Task.Separated place builder.tasks := by
  have hvalid : (twoKeys "gen" "pack").validate = .ok () := by decide +kernel
  obtain ⟨count, builder, graph, hregister, hbuild, hkeys⟩ :=
    @exists_graph (twoKeys "gen" "pack") ⟨"/work"⟩ ["gen", "pack"] (by decide +kernel)
  refine ⟨hvalid, count, builder, graph, hregister, hbuild, fun place => ?_⟩
  rw [directories_separated_iff hvalid _ _ hregister hbuild place, hkeys]
  exact ⟨by decide +kernel, by decide +kernel⟩

/-- **Two keys meet in a directory** in a configuration that passes the check and makes a graph:
`k/x` and `k_x` are different keys, and tasks that do not share their work write to one place. -/
theorem keys_meet_in_a_directory :
    (twoKeys "k/x" "k_x").validate = .ok () ∧
    ∃ count builder graph,
      ((twoKeys "k/x" "k_x").pipeline ⟨"/work"⟩ none).register = .ok (count, builder) ∧
      builder.build = .ok graph ∧ ∀ place, ¬Task.Separated place builder.tasks := by
  have hvalid : (twoKeys "k/x" "k_x").validate = .ok () := by decide +kernel
  obtain ⟨count, builder, graph, hregister, hbuild, hkeys⟩ :=
    @exists_graph (twoKeys "k/x" "k_x") ⟨"/work"⟩ ["k/x", "k_x"] (by decide +kernel)
  refine ⟨hvalid, count, builder, graph, hregister, hbuild, fun place hseparated => ?_⟩
  have hclear := (Task.separated_iff
    (Pipeline.made_of_register (isValidName_of_validate hvalid) hregister)
    (GraphBuilder.nodup_outputDir_of_build hbuild) place).1 hseparated
  rw [hkeys] at hclear
  exact (hclear.different "k/x" (by simp) "k_x" (by simp) (by decide)).1 (by decide +kernel)

end Config

end BuildMatrix
