import BuildMatrix.Graph.Builder
import Mathlib.Data.List.Nodup

/-!
# What declarations lead to

A builder is never made by hand: it starts empty, and every task and every dependency in it was
declared. This module says which builders there are (`GraphBuilder.Declared`), and what all of them
have in common: a name is registered once, and a name depends on another at most once. Both are kept
by each declaration, whatever the order of the declarations.
-/

namespace BuildMatrix.GraphBuilder

variable {ω : Type} {targets : List TaskName} {edges : Dependencies} {builder : GraphBuilder ω}

/-- The builders that **declarations lead to**, in any number and any order. A declaration that
fails leaves the builder as it was, so that it needs no case of its own. -/
inductive Declared : GraphBuilder ω → Prop
  | empty : Declared {}
  | register {builder next : GraphBuilder ω} {task : Task ω} {dependsOn : List TaskName} :
      Declared builder → builder.register task dependsOn = .ok next → Declared next
  | depend {builder : GraphBuilder ω} {name dependsOn : TaskName} :
      Declared builder → Declared (builder.depend name dependsOn)

/-! ### Lists of dependencies -/

theorem nodup_union (h : targets.Nodup) (names : List TaskName) : (union targets names).Nodup := by
  induction names generalizing targets with
  | nil => exact h
  | cons name rest ih =>
    rw [union]
    by_cases hmem : name ∈ targets
    · rw [if_pos (List.contains_iff_mem.mpr hmem)]
      exact ih h
    · rw [if_neg (by simpa using hmem)]
      rw [← List.concat_eq_append]
      exact ih (h.concat hmem)

/-- More dependencies of a name repeat none of those of any name. -/
theorem nodup_of_mem_addEdges {name : TaskName} (h : ∀ e ∈ edges, e.2.Nodup) :
    ∀ e ∈ addEdges name targets edges, e.2.Nodup := by
  induction edges with
  | nil =>
    intro e he
    rw [addEdges, List.mem_singleton] at he
    subst he
    exact nodup_union List.nodup_nil targets
  | cons head rest ih =>
    obtain ⟨key, old⟩ := head
    obtain ⟨hold, hrest⟩ := List.forall_mem_cons.mp h
    intro e he
    by_cases hkey : key = name
    · rw [addEdges, if_pos hkey] at he
      rcases List.mem_cons.mp he with rfl | he
      · exact nodup_union hold targets
      · exact hrest e he
    · rw [addEdges, if_neg hkey] at he
      rcases List.mem_cons.mp he with rfl | he
      · exact hold
      · exact ih hrest e he

/-! ### Every builder -/

theorem contains_iff_mem (builder : GraphBuilder ω) (name : TaskName) :
    builder.contains name = true ↔ name ∈ builder.tasks.map (·.name) := by
  simp [contains]

theorem register_eq_ok_iff {next : GraphBuilder ω} {task : Task ω} {dependsOn : List TaskName} :
    builder.register task dependsOn = .ok next ↔
      task.name ∉ builder.tasks.map (·.name) ∧
      next = { tasks := builder.tasks ++ [task]
               edges := addEdges task.name dependsOn builder.edges } := by
  rw [register, ← contains_iff_mem]
  by_cases h : builder.contains task.name = true
  · simp [h]
  · simp [h, eq_comm]

theorem Declared.names_nodup (h : builder.Declared) : (builder.tasks.map (·.name)).Nodup := by
  induction h with
  | empty => exact List.nodup_nil
  | register _ hreg ih =>
    obtain ⟨hnew, rfl⟩ := register_eq_ok_iff.mp hreg
    rw [List.map_append, List.map_singleton, ← List.concat_eq_append]
    exact ih.concat hnew
  | depend _ ih => exact ih

theorem Declared.targets_nodup (h : builder.Declared) : ∀ e ∈ builder.edges, e.2.Nodup := by
  induction h with
  | empty => simp
  | register _ hreg ih =>
    obtain ⟨-, rfl⟩ := register_eq_ok_iff.mp hreg
    exact nodup_of_mem_addEdges ih
  | depend _ ih => exact nodup_of_mem_addEdges ih

/-! ### The check for dangling ends -/

theorem ends_mem_of_unresolved?_eq_none {names : List TaskName}
    (h : unresolved? names edges = none) :
    ∀ e ∈ edges, ∀ target ∈ e.2, e.1 ∈ names ∧ target ∈ names := by
  induction edges with
  | nil => simp
  | cons head rest ih =>
    obtain ⟨dependent, targets⟩ := head
    rw [unresolved?] at h
    split at h
    · exact absurd h (by simp)
    · rename_i hhead
      refine List.forall_mem_cons.mpr ⟨?_, ih h⟩
      intro target htarget
      have hfound := List.findSome?_eq_none_iff.mp hhead target htarget
      simpa using hfound

end BuildMatrix.GraphBuilder
