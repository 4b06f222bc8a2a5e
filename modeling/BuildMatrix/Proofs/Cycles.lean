import BuildMatrix.Proofs.Sorting
import Mathlib.Order.WellFoundedSet

/-!
# Cycles among dependencies

Names are taken until the queue is empty, and by then every name whose dependencies were all taken
has been taken itself. So each name that is left over has a dependency that is left over too, and
among finitely many names this goes round in a circle somewhere. Conversely every dependency of a
name that was taken stands before it in the order, so that nothing that was taken is on a circle.
-/

namespace BuildMatrix.Dependencies

/-- **No cycle**: no name depends on itself, directly or by way of others. -/
def Acyclic (deps : Dependencies) : Prop :=
  ∀ name, ¬Relation.TransGen (fun a b => b ∈ deps.of a) name name

variable {deps : Dependencies}

/-! ### What is left over -/

/-- If nothing more can be taken, **every name whose dependencies were taken was taken**. The number
of names bounds the number of steps, since no name is taken twice. -/
theorem mem_drain_of_forall_mem (hkeys : (deps.map (·.1)).Nodup)
    (htargets : ∀ e ∈ deps, e.2.Nodup) (fuel : Nat) {done queue : List TaskName}
    {counts : Counts} (h : Countdown deps done counts queue)
    (hfuel : deps.length ≤ fuel + done.length) {e : TaskName × List TaskName} (he : e ∈ deps)
    (hdone : ∀ d ∈ e.2, d ∈ done ++ drain deps fuel counts queue) :
    e.1 ∈ done ++ drain deps fuel counts queue := by
  induction fuel generalizing done counts queue with
  | zero =>
    have hnodup : done.Nodup := h.nodup.sublist (List.sublist_append_left ..)
    have hsub : done.Subperm (deps.map (·.1)) :=
      hnodup.subperm fun name hname => h.mem_keys name (List.mem_append_left _ hname)
    have hall := hsub.perm_of_length_le (by simpa using hfuel)
    exact List.mem_append_left _ (hall.mem_iff.mpr (List.mem_map_of_mem he))
  | succ fuel ih =>
    cases queue with
    | nil =>
      rw [drain, List.append_nil] at hdone ⊢
      simpa using (h.mem_iff e he).mpr hdone
    | cons name queue =>
      have hsplit : ∀ rest, done ++ name :: rest = done ++ [name] ++ rest := by simp
      rw [drain, hsplit] at hdone ⊢
      refine ih (h.take hkeys htargets) ?_ hdone
      rw [List.length_append, List.length_singleton]
      omega

theorem mem_sort_of_forall_mem (hkeys : (deps.map (·.1)).Nodup)
    (htargets : ∀ e ∈ deps, e.2.Nodup) {e : TaskName × List TaskName} (he : e ∈ deps)
    (hdone : ∀ d ∈ e.2, d ∈ deps.sort) : e.1 ∈ deps.sort :=
  mem_drain_of_forall_mem hkeys htargets deps.length (.initial hkeys) (Nat.le_add_right ..) he
    hdone

/-! ### Cycles -/

/-- What a name that was taken depends on, directly or not, stands **before it**. -/
theorem idxOf_lt_of_transGen (hkeys : (deps.map (·.1)).Nodup) (htargets : ∀ e ∈ deps, e.2.Nodup)
    {name other : TaskName} (hname : name ∈ deps.sort)
    (h : Relation.TransGen (fun a b => b ∈ deps.of a) name other) :
    other ∈ deps.sort ∧ deps.sort.idxOf other < deps.sort.idxOf name := by
  have hstep : ∀ a ∈ deps.sort, ∀ b ∈ deps.of a,
      b ∈ deps.sort ∧ deps.sort.idxOf b < deps.sort.idxOf a := by
    intro a ha b hb
    obtain ⟨before, after, hsplit⟩ := List.append_of_mem ha
    have hbefore := mem_before_of_sort hkeys htargets hsplit b hb
    have hnodup := nodup_sort hkeys htargets
    rw [hsplit] at hnodup ⊢
    have hfresh : a ∉ before := fun hmem =>
      (List.nodup_append.mp hnodup).2.2 a hmem a (List.mem_cons_self ..) rfl
    refine ⟨List.mem_append_left _ hbefore, ?_⟩
    rw [List.idxOf_append_of_mem hbefore, List.idxOf_append_of_notMem hfresh,
      List.idxOf_cons_self, Nat.add_zero]
    exact List.idxOf_lt_length_of_mem hbefore
  induction h with
  | single hd => exact hstep name hname _ hd
  | tail _ hd ih =>
    obtain ⟨hmem, hlt⟩ := hstep _ ih.1 _ hd
    exact ⟨hmem, hlt.trans ih.2⟩

/-- Without a cycle, **all names are taken**: on finitely many names the dependencies are well
founded, and a name is taken as soon as its dependencies are. -/
theorem Acyclic.mem_sort (h : deps.Acyclic) (hkeys : (deps.map (·.1)).Nodup)
    (htargets : ∀ e ∈ deps, e.2.Nodup)
    (hclosed : ∀ e ∈ deps, ∀ d ∈ e.2, d ∈ deps.map (·.1)) :
    ∀ name ∈ deps.map (·.1), name ∈ deps.sort := by
  let below (b a : TaskName) : Prop := Relation.TransGen (fun a b => b ∈ deps.of a) a b
  have : IsStrictOrder TaskName below :=
    { irrefl := h, trans := fun _ _ _ hab hbc => hbc.trans hab }
  have hfounded : {name | name ∈ deps.map (·.1)}.WellFoundedOn below :=
    (List.finite_toSet (deps.map (·.1))).wellFoundedOn
  intro name hname
  refine hfounded.induction hname fun a ha ih => ?_
  obtain ⟨e, he, rfl⟩ := List.mem_map.mp ha
  refine mem_sort_of_forall_mem hkeys htargets he fun d hd => ?_
  refine ih d (hclosed e he d hd) (.single ?_)
  rwa [of_eq_of_mem hkeys he]

theorem length_sort_eq_iff_acyclic (hkeys : (deps.map (·.1)).Nodup)
    (htargets : ∀ e ∈ deps, e.2.Nodup)
    (hclosed : ∀ e ∈ deps, ∀ d ∈ e.2, d ∈ deps.map (·.1)) :
    deps.sort.length = deps.length ↔ deps.Acyclic := by
  constructor
  · intro hlength name hcycle
    have hperm := perm_sort hkeys htargets hlength
    obtain ⟨d, hd, -⟩ := Relation.TransGen.head'_iff.mp hcycle
    have hname : name ∈ deps.map (·.1) := by
      by_contra hout
      rw [of_eq_nil hout] at hd
      cases hd
    exact Nat.lt_irrefl _
      (idxOf_lt_of_transGen hkeys htargets (hperm.mem_iff.mpr hname) hcycle).2
  · intro h
    have hle := ((nodup_sort hkeys htargets).subperm
      (mem_keys_of_mem_sort hkeys htargets)).length_le
    have hge := (hkeys.subperm (h.mem_sort hkeys htargets hclosed)).length_le
    simp only [List.length_map] at hle hge
    omega

end BuildMatrix.Dependencies
