import BuildMatrix.Graph.Order
import Mathlib.Data.List.Perm.Subperm

/-!
# Sorting dependencies

Names are taken from a queue, and each name that is taken lowers the counts of the names that wait
for it. The counts are exact at every moment: the count of a name is the number of its dependencies
that have not been taken (`Countdown`), so that a name joins the queue when the last of its
dependencies is taken, and only then.
-/

namespace BuildMatrix

open TaskTable Dependencies

variable {done targets queue : List TaskName} {name : TaskName} {deps : Dependencies}

/-! ### Counts of open dependencies -/

/-- How many of some names are **open**: not among those that are done. -/
def openCount (done targets : List TaskName) : Nat :=
  (targets.filter (· ∉ done)).length

theorem openCount_eq_zero_iff : openCount done targets = 0 ↔ ∀ d ∈ targets, d ∈ done := by
  simp [openCount, List.filter_eq_nil_iff]

theorem openCount_append_of_mem (hnodup : targets.Nodup) (hmem : name ∈ targets)
    (hopen : name ∉ done) : openCount (done ++ [name]) targets + 1 = openCount done targets := by
  have herase : targets.filter (· ∉ done ++ [name]) = (targets.filter (· ∉ done)).erase name := by
    rw [List.Nodup.erase_eq_filter (hnodup.filter _), List.filter_filter]
    refine List.filter_congr fun d _ => ?_
    by_cases hd : d = name <;> simp [hd]
  have hfilter : name ∈ targets.filter (· ∉ done) := by simp [hmem, hopen]
  have hpos : 0 < (targets.filter (· ∉ done)).length := List.length_pos_of_mem hfilter
  rw [openCount, openCount, herase, List.length_erase_of_mem hfilter]
  omega

theorem openCount_append_of_notMem (hmem : name ∉ targets) :
    openCount (done ++ [name]) targets = openCount done targets := by
  refine congrArg List.length (List.filter_congr fun d hd => ?_)
  have hne : d ≠ name := fun h => hmem (h ▸ hd)
  simp [hne]

namespace Dependencies

/-! ### Look-ups -/

theorem of_eq_of_mem (hkeys : (deps.map (·.1)).Nodup) {e : TaskName × List TaskName}
    (h : e ∈ deps) :
    deps.of e.1 = e.2 := by
  induction deps with
  | nil => simp at h
  | cons head rest ih =>
    obtain ⟨key, old⟩ := head
    rw [List.map_cons, List.nodup_cons] at hkeys
    rw [of]
    rcases List.mem_cons.mp h with rfl | hrest
    · rw [if_pos rfl]
    · have hmem : e.1 ∈ rest.map (·.1) := List.mem_map_of_mem hrest
      have hne : key ≠ e.1 := fun hk => hkeys.1 (hk ▸ hmem)
      rw [if_neg hne]
      exact ih hkeys.2 hrest

theorem mem_or_of_eq_nil (deps : Dependencies) (name : TaskName) :
    (name, deps.of name) ∈ deps ∨ deps.of name = [] := by
  induction deps with
  | nil => exact .inr rfl
  | cons head rest ih =>
    obtain ⟨key, old⟩ := head
    by_cases hkey : key = name
    · subst hkey
      exact .inl (by simp [of])
    · rw [of, if_neg hkey]
      exact ih.imp (List.mem_cons_of_mem _) id

theorem of_eq_nil (h : name ∉ deps.map (·.1)) : deps.of name = [] := by
  refine (deps.mem_or_of_eq_nil name).resolve_left fun hmem => h ?_
  exact List.mem_map_of_mem (f := (·.1)) hmem

theorem mem_dependents (hkeys : (deps.map (·.1)).Nodup) {other : TaskName} :
    other ∈ deps.dependents name ↔ name ∈ deps.of other := by
  constructor
  · intro h
    obtain ⟨e, he, rfl⟩ := List.mem_map.mp h
    obtain ⟨hmem, htarget⟩ := List.mem_filter.mp he
    rw [of_eq_of_mem hkeys hmem]
    exact List.contains_iff_mem.mp htarget
  · intro h
    rcases deps.mem_or_of_eq_nil other with hmem | hnil
    · exact List.mem_map.mpr
        ⟨(other, deps.of other), List.mem_filter.mpr ⟨hmem, List.contains_iff_mem.mpr h⟩, rfl⟩
    · simp [hnil] at h

theorem nodup_dependents (hkeys : (deps.map (·.1)).Nodup) (name : TaskName) :
    (deps.dependents name).Nodup :=
  hkeys.sublist (List.filter_sublist.map _)

/-! ### Lowering counts -/

theorem get?_lower (name other : TaskName) (counts : Counts) :
    get? other (lower name counts).1 =
      if other = name then (get? other counts).map (· - 1)
      else get? other counts := by
  induction counts with
  | nil => simp [lower, get?]
  | cons head rest ih =>
    obtain ⟨key, count⟩ := head
    by_cases hk : key = name
    · subst hk
      by_cases ho : other = key
      · subst ho
        simp [lower, get?]
      · simp [lower, get?, ho, Ne.symm ho]
    · rw [lower, if_neg hk]
      by_cases ho : key = other
      · subst ho
        simp [get?, hk]
      · simp only [get?, if_neg ho, ih]

theorem lower_snd (name : TaskName) (counts : Counts) :
    (lower name counts).2 = (get? name counts).any (· - 1 == 0) := by
  induction counts with
  | nil => simp [lower, get?]
  | cons head rest ih =>
    obtain ⟨key, count⟩ := head
    by_cases hk : key = name
    · simp [lower, get?, hk]
    · simpa [lower, get?, hk] using ih

theorem get?_release {names : List TaskName} (hnodup : names.Nodup) (counts : Counts)
    (queue : List TaskName) (other : TaskName) :
    get? other (release names counts queue).1 =
      if other ∈ names then (get? other counts).map (· - 1)
      else get? other counts := by
  induction names generalizing counts queue with
  | nil => simp [release]
  | cons name rest ih =>
    rw [List.nodup_cons] at hnodup
    rw [release, ih hnodup.2, get?_lower]
    by_cases ho : other = name
    · subst ho
      simp [hnodup.1]
    · simp [ho]

theorem release_snd {names : List TaskName} (hnodup : names.Nodup) (counts : Counts)
    (queue : List TaskName) :
    (release names counts queue).2 =
      queue ++ names.filter fun n => (get? n counts).any (· - 1 == 0) := by
  induction names generalizing counts queue with
  | nil => simp [release]
  | cons name rest ih =>
    rw [List.nodup_cons] at hnodup
    have hsame : rest.filter (fun n =>
          (get? n (lower name counts).1).any (· - 1 == 0)) =
        rest.filter fun n => (get? n counts).any (· - 1 == 0) := by
      refine List.filter_congr fun n hn => ?_
      have hne : n ≠ name := fun h => hnodup.1 (h ▸ hn)
      rw [get?_lower, if_neg hne]
    rw [release, ih hnodup.2, hsame, lower_snd, List.filter_cons]
    by_cases hzero : (get? name counts).any (· - 1 == 0) = true
    · rw [if_pos hzero, if_pos hzero, List.append_assoc, List.singleton_append]
    · rw [if_neg hzero, if_neg hzero]

end Dependencies

/-! ### Taking names -/

/-- **Exact counts**: `done` holds the names that were taken, the count of every name is the number
of its dependencies that were not, and the names whose dependencies were all taken are those that
were taken or stand in the queue. -/
structure Countdown (deps : Dependencies) (done : List TaskName) (counts : Counts)
    (queue : List TaskName) : Prop where
  nodup : (done ++ queue).Nodup
  mem_keys : ∀ name ∈ done ++ queue, name ∈ deps.map (·.1)
  count_eq : ∀ e ∈ deps, get? e.1 counts = some (openCount done e.2)
  mem_iff : ∀ e ∈ deps, e.1 ∈ done ++ queue ↔ ∀ d ∈ e.2, d ∈ done

/-- Before anything is taken the counts are exact. -/
theorem Countdown.initial {deps : Dependencies} (hkeys : (deps.map (·.1)).Nodup) :
    Countdown deps [] (deps.map fun e => (e.1, e.2.length))
      ((deps.filter fun e => e.2.isEmpty).map (·.1)) where
  nodup := hkeys.sublist (List.filter_sublist.map _)
  mem_keys := by
    intro name hname
    exact (List.filter_sublist.map _).subset hname
  count_eq := by
    intro e he
    induction deps with
    | nil => simp at he
    | cons head rest ih =>
      rw [List.map_cons, List.nodup_cons] at hkeys
      rw [List.map_cons, get?]
      rcases List.mem_cons.mp he with rfl | he
      · simp [openCount]
      · have hne : head.1 ≠ e.1 := fun h => hkeys.1 (h ▸ List.mem_map_of_mem he)
        rw [if_neg hne]
        exact ih hkeys.2 he
  mem_iff := by
    intro e he
    constructor
    · intro h
      obtain ⟨e', he', heq⟩ := List.mem_map.mp h
      obtain ⟨hmem, hempty⟩ := List.mem_filter.mp he'
      have hsame : e'.2 = e.2 := by
        rw [← of_eq_of_mem hkeys hmem,
          ← of_eq_of_mem hkeys he, heq]
      rw [hsame, List.isEmpty_iff] at hempty
      simp [hempty]
    · intro h
      have hempty : e.2 = [] := List.eq_nil_iff_forall_not_mem.mpr fun d hd => by
        simpa using h d hd
      exact List.mem_map_of_mem (List.mem_filter.mpr ⟨he, by simp [hempty]⟩)

/-- **Taking the first name of the queue keeps the counts exact.** -/
theorem Countdown.take (hkeys : (deps.map (·.1)).Nodup) (htargets : ∀ e ∈ deps, e.2.Nodup)
    {counts : Counts} (h : Countdown deps done counts (name :: queue)) :
    Countdown deps (done ++ [name])
      (release (deps.dependents name) counts queue).1
      (release (deps.dependents name) counts queue).2 := by
  have hopen : name ∉ done := by
    have := h.nodup
    rw [List.nodup_append] at this
    exact fun hd => this.2.2 name hd name (List.mem_cons_self ..) rfl
  have hdependents := nodup_dependents hkeys name
  have hwaits : ∀ e ∈ deps, e.1 ∈ deps.dependents name ↔ name ∈ e.2 := by
    intro e he
    rw [mem_dependents hkeys, of_eq_of_mem hkeys he]
  -- The names that join the queue are those that had this one dependency left.
  have hjoins : ∀ e ∈ deps, e.1 ∈ (deps.dependents name).filter
        (fun n => (get? n counts).any (· - 1 == 0)) ↔
      name ∈ e.2 ∧ ∀ d ∈ e.2, d ∈ done ++ [name] := by
    intro e he
    rw [List.mem_filter, hwaits e he, h.count_eq e he]
    refine and_congr_right fun hmem => ?_
    have hcount := openCount_append_of_mem (htargets e he) hmem hopen
    rw [← openCount_eq_zero_iff, ← hcount]
    simp
  have hsplit : done ++ name :: queue = done ++ [name] ++ queue := by simp
  rw [release_snd hdependents]
  refine ⟨?_, ?_, ?_, ?_⟩
  · rw [← List.append_assoc, ← hsplit, List.nodup_append]
    refine ⟨h.nodup, hdependents.filter _, ?_⟩
    rintro a hold b hnew rfl
    have hkey : a ∈ deps.map (·.1) := h.mem_keys a hold
    obtain ⟨e, he, rfl⟩ := List.mem_map.mp hkey
    exact hopen ((h.mem_iff e he).mp hold name ((hjoins e he).mp hnew).1)
  · intro other hother
    rw [← List.append_assoc, ← hsplit] at hother
    rcases List.mem_append.mp hother with hold | hnew
    · exact h.mem_keys other hold
    · have hwaiting := (List.mem_filter.mp hnew).1
      exact (List.filter_sublist.map _).subset hwaiting
  · intro e he
    rw [get?_release hdependents, h.count_eq e he]
    by_cases hmem : name ∈ e.2
    · rw [if_pos ((hwaits e he).mpr hmem), Option.map_some,
        ← openCount_append_of_mem (htargets e he) hmem hopen, Nat.add_sub_cancel]
    · rw [if_neg (mt (hwaits e he).mp hmem), openCount_append_of_notMem hmem]
  · intro e he
    rw [← List.append_assoc, ← hsplit, List.mem_append, h.mem_iff e he, hjoins e he]
    constructor
    · rintro (hdone | ⟨-, hdone⟩)
      · exact fun d hd => List.mem_append_left _ (hdone d hd)
      · exact hdone
    · intro hdone
      by_cases hmem : name ∈ e.2
      · exact .inr ⟨hmem, hdone⟩
      · refine .inl fun d hd => ?_
        rcases List.mem_append.mp (hdone d hd) with hd' | hd'
        · exact hd'
        · exact absurd (List.mem_singleton.mp hd' ▸ hd) hmem

namespace Dependencies

/-- What is taken from exact counts: each name once, and each after its dependencies. -/
theorem drain_spec (hkeys : (deps.map (·.1)).Nodup) (htargets : ∀ e ∈ deps, e.2.Nodup) (fuel : Nat)
    {counts : Counts} (h : Countdown deps done counts queue) :
    (done ++ drain deps fuel counts queue).Nodup ∧
    (∀ name ∈ drain deps fuel counts queue, name ∈ deps.map (·.1)) ∧
    ∀ before name after, drain deps fuel counts queue = before ++ name :: after →
      ∀ d ∈ deps.of name, d ∈ done ++ before := by
  have hdone : (done ++ []).Nodup := by
    rw [List.append_nil]
    exact h.nodup.sublist (List.sublist_append_left ..)
  induction fuel generalizing done counts queue with
  | zero => exact ⟨hdone, by simp [drain], by simp [drain]⟩
  | succ fuel ih =>
    cases queue with
    | nil => exact ⟨hdone, by simp [drain], by simp [drain]⟩
    | cons name queue =>
      have hnext := h.take hkeys htargets
      have hdone' : (done ++ [name] ++ []).Nodup := by
        rw [List.append_nil]
        exact hnext.nodup.sublist (List.sublist_append_left ..)
      obtain ⟨hnodup, hmem, hbefore⟩ := ih hnext hdone'
      have hname : name ∈ deps.map (·.1) := h.mem_keys name (by simp)
      rw [drain]
      refine ⟨by simpa using hnodup, ?_, ?_⟩
      · rintro other (_ | ⟨_, hother⟩)
        · exact hname
        · exact hmem other hother
      · intro before other after heq d hd
        cases before with
        | nil =>
          obtain ⟨rfl, -⟩ := List.cons.inj heq
          obtain ⟨e, he, rfl⟩ := List.mem_map.mp hname
          rw [of_eq_of_mem hkeys he] at hd
          rw [List.append_nil]
          exact (h.mem_iff e he).mp (by simp) d hd
        | cons first before =>
          obtain ⟨rfl, hrest⟩ := List.cons.inj heq
          simpa using hbefore before other after hrest d hd

theorem nodup_sort (hkeys : (deps.map (·.1)).Nodup) (htargets : ∀ e ∈ deps, e.2.Nodup) :
    deps.sort.Nodup := by
  exact (drain_spec hkeys htargets deps.length (.initial hkeys)).1

theorem mem_keys_of_mem_sort (hkeys : (deps.map (·.1)).Nodup) (htargets : ∀ e ∈ deps, e.2.Nodup) :
    ∀ name ∈ deps.sort, name ∈ deps.map (·.1) :=
  (drain_spec hkeys htargets deps.length (.initial hkeys)).2.1

theorem mem_before_of_sort (hkeys : (deps.map (·.1)).Nodup) (htargets : ∀ e ∈ deps, e.2.Nodup)
    {before after : List TaskName} (h : deps.sort = before ++ name :: after) :
    ∀ d ∈ deps.of name, d ∈ before := by
  exact (drain_spec hkeys htargets deps.length (.initial hkeys)).2.2 before name after h

theorem perm_sort (hkeys : (deps.map (·.1)).Nodup) (htargets : ∀ e ∈ deps, e.2.Nodup)
    (hlength : deps.sort.length = deps.length) : deps.sort.Perm (deps.map (·.1)) := by
  have hsub : deps.sort.Subperm (deps.map (·.1)) :=
    (nodup_sort hkeys htargets).subperm (mem_keys_of_mem_sort hkeys htargets)
  exact hsub.perm_of_length_le (by simp [hlength])

end Dependencies

end BuildMatrix
