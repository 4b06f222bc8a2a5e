import BuildMatrix.TaskName

/-!
# Tables by task

A value for each of some tasks. A table is kept as a list of entries; the first entry of a task
counts, and setting a value replaces that entry or adds one at the end.
-/

namespace BuildMatrix

/-- **Values by task.** -/
abbrev TaskTable (α : Type) := List (TaskName × α)

namespace TaskTable

variable {α : Type}

def get? (name : TaskName) : TaskTable α → Option α
  | [] => none
  | (key, value) :: rest => if key = name then some value else get? name rest

/-- The table with a value for a task, in place of the one before. -/
def set (name : TaskName) (value : α) : TaskTable α → TaskTable α
  | [] => [(name, value)]
  | (key, old) :: rest =>
    if key = name then (key, value) :: rest else (key, old) :: set name value rest

def contains (name : TaskName) (table : TaskTable α) : Bool := (get? name table).isSome

/-- A look-up after an update. -/
theorem get?_set (name other : TaskName) (value : α) (table : TaskTable α) :
    get? other (set name value table) = if name = other then some value else get? other table := by
  induction table with
  | nil => simp [set, get?]
  | cons entry rest ih =>
    obtain ⟨key, old⟩ := entry
    by_cases hk : key = name
    · subst hk
      by_cases ho : key = other <;> simp [set, get?, ho]
    · by_cases ho : key = other
      · subst ho
        simp [set, get?, hk, Ne.symm hk]
      · simp [set, get?, hk, ho, ih]

end TaskTable

end BuildMatrix
