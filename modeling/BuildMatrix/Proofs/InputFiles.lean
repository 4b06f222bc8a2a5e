import BuildMatrix.Command.Run
import BuildMatrix.Proofs.Lookups

/-!
# The input files of a task

Which files a task reads is found out when the task starts. A file that its patterns stood for at
another time, or a file of its module if it has no patterns, is among them as long as its path leads
to it: perhaps under another spelling, since of several spellings of a path one is kept, and unless
it lies below the roots of the build.
-/

namespace BuildMatrix

open FileTree

variable {paths : List Path}

/-! ### Each path once -/

namespace Path

variable {path : Path}

theorem same_iff {other : Path} : path.same other = true ↔ path.components = other.components :=
  decide_eq_true_iff

theorem mem_distinctFrom {seen paths : List Path} {path : Path} (h : path ∈ paths)
    (hseen : path.memSame seen = false) :
    ∃ kept ∈ distinctFrom seen paths, kept.same path = true := by
  induction paths generalizing seen with
  | nil => cases h
  | cons first rest ih =>
    rw [distinctFrom]
    rcases List.mem_cons.1 h with rfl | hrest
    · rw [if_neg (by simp [hseen])]
      exact ⟨path, List.mem_cons_self, same_iff.2 rfl⟩
    · split
      · exact ih hrest hseen
      · by_cases hsame : path.same first = true
        · exact ⟨first, List.mem_cons_self, same_iff.2 (same_iff.1 hsame).symm⟩
        · have hmore : path.memSame (first :: seen) = false := by
            rw [memSame] at hseen ⊢
            simp [hsame, hseen]
          obtain ⟨kept, hkept, hsame⟩ := ih hrest hmore
          exact ⟨kept, List.mem_cons_of_mem _ hkept, hsame⟩

theorem mem_of_mem_distinctFrom {seen : List Path} (h : path ∈ distinctFrom seen paths) :
    path ∈ paths := by
  induction paths generalizing seen with
  | nil => cases h
  | cons first rest ih =>
    rw [distinctFrom] at h
    split at h
    · exact List.mem_cons_of_mem _ (ih h)
    · rcases List.mem_cons.1 h with rfl | h
      · exact List.mem_cons_self
      · exact List.mem_cons_of_mem _ (ih h)

end Path

namespace Command

variable {task : Command} {tree : FileTree} {path : Path} {layout : Layout}
  {location : Location} {content : ByteArray} {entry : Entry} {dir : Path} {files : List Path}

/-! ### Files of a module -/

/-- A task **covers a path**: its patterns stand for it, or it has none and the path is that of a
file of its module. -/
def Covers (task : Command) (tree : FileTree) (path : Path) : Prop :=
  if task.inputs.isEmpty then path ∈ moduleFiles tree task.moduleDir []
  else ∃ paths, matching tree task.moduleDir task.inputs = .ok paths ∧ path ∈ paths

theorem kept_of_mem_inputFiles (h : task.inputFiles tree layout = .ok files)
    (hpath : path ∈ files) : tree.isFile path = true ∧
      ∀ root ∈ [layout.buildRoot, layout.cacheRoot], path.within root = false := by
  rw [inputFiles] at h
  generalize (if task.inputs.isEmpty then _ else _ : Except Failure (List Path)) = found at h
  cases found with
  | error failure => cases h
  | ok paths =>
  obtain rfl := Except.ok.inj h
  simpa using (List.mem_filter.1 hpath).2

instance (task : Command) (tree : FileTree) (path : Path) : Decidable (task.Covers tree path) :=
  decidable_of_iff
    (if task.inputs.isEmpty then path ∈ moduleFiles tree task.moduleDir []
      else (matching tree task.moduleDir task.inputs).toOption.any (path ∈ ·) = true) (by
    rw [Covers]
    cases matching tree task.moduleDir task.inputs <;> simp [Except.toOption])

end Command

end BuildMatrix
