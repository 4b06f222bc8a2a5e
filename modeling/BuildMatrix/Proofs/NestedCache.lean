import BuildMatrix.Proofs.Incremental

/-!
# A cache in the directory of a task

Nothing keeps the directory of the cache out of the directory of a task. A task owns what is in its
directory, and may remove it; if the records of the cache are there, they go with the rest. So the
tasks that were done before lose their records, although no task has touched anything outside of its
directory and the build has succeeded: the next build does their work again.
-/

namespace BuildMatrix

/-! ### Removing files -/

namespace FileTree

variable {tree : FileTree} {dir : Location}

def hasFile (tree : FileTree) (location : Location) : Bool :=
  match tree.entry? location with
  | some (.file _) => true
  | _ => false

/-- A tree **without the files in a directory** and in those below it. -/
def withoutFiles (tree : FileTree) (dir : Location) : FileTree :=
  { tree with
    entries := tree.entries.filter fun e => decide (¬(dir <+: e.1 ∧ tree.hasFile e.1 = true)) }

theorem entry?_withoutFiles (tree : FileTree) (dir location : Location) :
    entry? (tree.withoutFiles dir) location =
      if dir <+: location ∧ tree.hasFile location = true then none else tree.entry? location := by
  by_cases hroot : location = []
  · subst hroot
    simp [hasFile]
  rw [entry?_of_ne_nil _ hroot, withoutFiles]
  split
  · next hgone =>
      refine find?_eq_none fun e he heq => ?_
      exact of_decide_eq_true (List.mem_filter.1 he).2 (heq ▸ hgone)
  · next hstays =>
      rw [entry?_of_ne_nil _ hroot]
      exact @find?_filter (fun key => decide (¬(dir <+: key ∧ tree.hasFile key = true))) _
        (decide_eq_true hstays) _

theorem keeps_withoutFiles (tree : FileTree) (dir : Location) :
    tree.Keeps (tree.withoutFiles dir) := by
  intro location entry hentry hfile
  rw [entry?_withoutFiles, if_neg, hentry]
  rintro ⟨-, hhas⟩
  rw [hasFile, hentry] at hhas
  cases entry with
  | file content => exact hfile content rfl
  | directory => cases hhas
  | link target => cases hhas

theorem Tidy.withoutFiles (h : tree.Tidy) (dir : Location) : (tree.withoutFiles dir).Tidy where
  sound := by
    have hkeeps := tree.keeps_withoutFiles dir
    refine ⟨hkeeps _ _ h.sound.here (by simp), fun location name hentry => ?_⟩
    refine hkeeps _ _ (h.sound.parent location name fun hnone => hentry ?_) (by simp)
    rw [entry?_withoutFiles, hnone]
    simp
  nodup := (List.filter_sublist.map _).nodup h.nodup

end FileTree

open FileTree

namespace Workshop

variable {ω : Type} {shop : Workshop ω} {sweeper task : TaskName} {tree : FileTree}
  {session : Session}

/-! ### Sweeping -/

/-- A tree in which a task has done its work: one task, the sweeper, **removes all files from the
directory of the cache**, and the others write a file each. -/
def swept (shop : Workshop ω) (sweeper task : TaskName) (tree : FileTree) : FileTree :=
  if task = sweeper then tree.withoutFiles shop.folder else shop.withFile task tree

/-- **The cache is in the directory of a task**, the sweeper. Apart from that the tasks are out of
each other's way. -/
structure Nested (shop : Workshop ω) (sweeper : TaskName) : Prop where
  homes : ∀ a ∈ shop.graph.names, ∀ b ∈ shop.graph.names, a ≠ b → Apart (shop.home a) (shop.home b)
  folder : shop.home sweeper <+: shop.folder
  deliver : ∀ task paths, (shop.deliver task paths).paths = paths

namespace Nested

/-- A tree in which a task has done its work is tidy, and the paths of directories lead there as
before. -/
theorem tidy_swept (sweeper : TaskName) (htidy : tree.Tidy)
    (hhome : tree.entry? (shop.home task) = some .directory) :
    (shop.swept sweeper task tree).Tidy ∧ (shop.swept sweeper task tree).here = tree.here ∧
      ∀ path location, tree.Enters path location →
        (shop.swept sweeper task tree).Enters path location := by
  rw [swept]
  split
  · have hnext := htidy.withoutFiles shop.folder
    exact ⟨hnext, rfl, fun _ _ => htidy.sound.enters_of_keeps hnext.sound
      (tree.keeps_withoutFiles shop.folder) rfl⟩
  · exact tidy_withFile htidy hhome

theorem behaves (h : shop.Nested sweeper) (results : List TaskResult)
    (htidy : session.tree.Tidy)
    (henters : session.tree.Enters (shop.place.ownDir task) (shop.home task)) :
    shop.Behaves task (shop.work (shop.swept sweeper) task results) session := by
  have hhome := htidy.sound.entry?_of_enters henters
  obtain ⟨hnext, hhere, hpaths⟩ := tidy_swept sweeper htidy hhome
  refine behaves_work results (h.deliver task) hnext hhere (hpaths _ _ henters)
    fun location hlocation => ?_
  rw [swept]
  split
  · next heq =>
      rw [entry?_withoutFiles, if_neg]
      rintro ⟨hbelow, hfile⟩
      refine hlocation ⟨heq ▸ h.folder.trans hbelow, ?_⟩
      rintro rfl
      rw [hasFile, hhome] at hfile
      cases hfile
  · refine shop.entry?_withFile task session.tree fun heq => hlocation ?_
    rw [heq]
    exact ⟨List.prefix_append .., by simp⟩

end Nested

/-! ### A crowded workshop -/

/-- The workshop for three tasks, with the cache **in the directory of one of them**. -/
def crowded : Workshop Unit :=
  { small with
    place := {
      layout := { small.place.layout with cacheRoot := ⟨"build/tasks/app/cache"⟩ }
      cache := { dir := ⟨"build/tasks/app/cache"⟩ }
      system := .idle }
    folder := ["build", "tasks", "app", "cache"] }

/-- A tree for the three tasks, in which the directory of the cache is there and empty. -/
def crowdedTree : FileTree := smallTree.insert crowded.folder .directory

theorem nested_crowded : crowded.Nested ⟨"app"⟩ where
  homes := separate_small.homes
  folder := by decide
  deliver _ _ := rfl

theorem entry?_crowdedTree (name : String) :
    crowdedTree.entry? (crowded.folder ++ [name]) = none := by
  rw [crowdedTree, FileTree.entry?_insert _ (by decide), if_neg (by simp)]
  simp [smallTree, FileTree.entry?, FileTree.find?, crowded]

/-- The first build of the three tasks, one of which sweeps the cache. -/
def crowdedFirst : Report × List Event × Solo :=
  crowded.graph.execute (crowded.solo (crowded.work (crowded.swept ⟨"app"⟩))) 2
    { session := { tree := crowdedTree, now := ⟨0⟩ } }

def crowdedSecond : Report × List Event × Solo :=
  crowded.graph.execute (crowded.solo (crowded.work (crowded.swept ⟨"app"⟩))) 2
    { session := { tree := crowdedFirst.2.2.world.tree, now := ⟨0⟩ } }

/-- **A task is done again although nothing was edited**, if the cache is in the directory of a task
that removes what is there. The tasks have directories of their own, and sources that stand apart
from these and from the cache; each keeps to its directory, and the first build succeeds, from an
empty cache. -/
theorem lib_is_done_again_crowded :
    GraphBuilder.small.Declared ∧ GraphBuilder.small.build = .ok crowded.graph ∧
      crowded.place.cache.enabled = true ∧
      (∀ a ∈ crowded.graph.names, ∀ b ∈ crowded.graph.names, a ≠ b →
        Apart (crowded.home a) (crowded.home b)) ∧
      (∀ task ∈ crowded.graph.names, ∀ path ∈ crowded.sources task, ∃ location,
        Straight crowdedTree.here path location ∧ Apart location crowded.folder ∧
          ∀ other ∈ crowded.graph.names, Apart location (crowded.home other)) ∧
      (∀ task ∈ crowded.graph.names, ∀ results session, session.tree.Tidy →
        session.tree.Enters (crowded.place.ownDir task) (crowded.home task) →
        crowded.Behaves task (crowded.work (crowded.swept ⟨"app"⟩) task results) session) ∧
      (∀ task, crowdedTree.entry? (crowded.record task) = none ∧
        crowdedTree.entry? (crowded.temporary task) = none) ∧
      crowdedFirst.1.isSuccess = true ∧ crowdedSecond.1.isSuccess = true ∧
      (⟨"lib"⟩, .skipped) ∉ crowdedSecond.1.statuses ∧
      (⟨"lib"⟩, .completed) ∈ crowdedSecond.1.statuses := by
  have hapart : ∀ task ∈ crowded.graph.names,
      Straight [] ⟨task.text ++ ".txt"⟩ [task.text ++ ".txt"] ∧
        Apart [task.text ++ ".txt"] crowded.folder ∧
        ∀ other ∈ crowded.graph.names, Apart [task.text ++ ".txt"] (crowded.home other) := by
    decide +kernel
  refine ⟨GraphBuilder.declared_small, GraphBuilder.build_small, rfl, nested_crowded.homes,
    fun task htask path hpath => ?_, fun task _ results session => nested_crowded.behaves results,
    fun _ => ⟨entry?_crowdedTree _, entry?_crowdedTree _⟩, by decide +kernel⟩
  obtain rfl := List.mem_singleton.1 hpath
  exact ⟨_, hapart task htask⟩

end Workshop

end BuildMatrix
