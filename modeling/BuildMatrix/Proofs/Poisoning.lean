import BuildMatrix.Proofs.GraphShape
import BuildMatrix.Schedule
import Mathlib.Algebra.GroupWithZero.Nat

/-!
# Poisoning

When a task fails, everything that depends on it is poisoned, breadth first. The walk stops at tasks
that have a status, so what it reaches is stated relative to the statuses before it: whatever it
gives a status to leads on to all that waits for it (`Spread`). The walk is bounded by a number of
steps, and the bound is never met: each step uses up one entry of the queue, and the entries that a
task adds are paid for by the task losing its place among those without a status.
-/

namespace BuildMatrix

/-- How far poison **spreads** from a queue: `before` and `after` are the statuses around it. -/
structure Spread {ω : Type} (graph : TaskGraph ω) (cause : TaskName) (queue : List TaskName)
    (before after : TaskTable Status) : Prop where
  keeps : ∀ name status, before.get? name = some status → after.get? name = some status
  /-- New statuses are poison, and come from the queue along dependencies. -/
  marks : ∀ name status, before.get? name = none → after.get? name = some status →
    status = .poisoned cause ∧ ∃ source ∈ queue, name = source ∨ graph.Needs name source
  /-- Everything in the queue has a status. -/
  reaches : ∀ name ∈ queue, name ∈ graph.names → (after.get? name).isSome
  /-- Everything that waits for a task with a new status has a status. -/
  closed : ∀ name, before.get? name = none → (after.get? name).isSome →
    ∀ other ∈ graph.dependentsOf name, other ∈ graph.names → (after.get? other).isSome

namespace Spread

variable {ω : Type} {graph : TaskGraph ω} {cause name : TaskName} {queue : List TaskName}
  {before after : TaskTable Status}

theorem nil (statuses : TaskTable Status) : Spread graph cause [] statuses statuses where
  keeps _ _ h := h
  marks name status hnone hsome := by
    rw [hnone] at hsome
    cases hsome
  reaches := by simp
  closed name hnone hsome := by
    rw [hnone] at hsome
    cases hsome

theorem isSome (h : Spread graph cause queue before after) (hsome : (before.get? name).isSome) :
    (after.get? name).isSome := by
  obtain ⟨status, hstatus⟩ := Option.isSome_iff_exists.mp hsome
  rw [h.keeps name status hstatus]
  rfl

theorem skip (h : Spread graph cause queue before after)
    (hname : name ∈ graph.names → (before.get? name).isSome) :
    Spread graph cause (name :: queue) before after where
  keeps := h.keeps
  marks other status hnone hsome := by
    obtain ⟨hstatus, source, hsource, hfrom⟩ := h.marks other status hnone hsome
    exact ⟨hstatus, source, List.mem_cons_of_mem _ hsource, hfrom⟩
  reaches other hother hmem := by
    rcases List.mem_cons.mp hother with rfl | hqueue
    · exact h.isSome (hname hmem)
    · exact h.reaches other hqueue hmem
  closed := h.closed

/-- From a task without a status poison spreads to all that waits for it. -/
theorem mark (hgraph : graph.WellFormed) (hnone : before.get? name = none)
    (h : Spread graph cause (queue ++ graph.dependentsOf name)
      (before.set name (.poisoned cause)) after) :
    Spread graph cause (name :: queue) before after := by
  have hset : ∀ other, other ≠ name →
      (before.set name (.poisoned cause)).get? other = before.get? other := by
    intro other hne
    rw [TaskTable.get?_set, if_neg (Ne.symm hne)]
  have hname : after.get? name = some (.poisoned cause) :=
    h.keeps name _ (by rw [TaskTable.get?_set, if_pos rfl])
  refine ⟨?_, ?_, ?_, ?_⟩
  · intro other status hother
    have hne : other ≠ name := by
      rintro rfl
      rw [hnone] at hother
      cases hother
    exact h.keeps other status (hset other hne ▸ hother)
  · intro other status hother hsome
    by_cases hne : other = name
    · subst hne
      rw [hname] at hsome
      exact ⟨(Option.some.inj hsome).symm, other, List.mem_cons_self .., .inl rfl⟩
    · obtain ⟨hstatus, source, hsource, hfrom⟩ :=
        h.marks other status (hset other hne ▸ hother) hsome
      refine ⟨hstatus, ?_⟩
      rcases List.mem_append.mp hsource with hqueue | hwaits
      · exact ⟨source, List.mem_cons_of_mem _ hqueue, hfrom⟩
      · have hneeds : name ∈ graph.dependenciesOf source :=
          (hgraph.mem_dependentsOf name source).mp hwaits
        refine ⟨name, List.mem_cons_self .., .inr ?_⟩
        rcases hfrom with rfl | hfrom
        · exact .single hneeds
        · exact .tail hfrom hneeds
  · intro other hother hmem
    rcases List.mem_cons.mp hother with rfl | hqueue
    · rw [hname]
      rfl
    · exact h.reaches other (List.mem_append_left _ hqueue) hmem
  · intro other hother hsome waiting hwaiting hmem
    by_cases hne : other = name
    · subst hne
      exact h.reaches waiting (List.mem_append_right _ hwaiting) hmem
    · exact h.closed other (hset other hne ▸ hother) hsome waiting hwaiting hmem

/-- Poison that spreads from all that waits for a task **reaches all that needs it**, if what waits
for a task with an old status has one too. -/
theorem isSome_of_needs (h : Spread graph cause (graph.dependentsOf cause) before after)
    (hgraph : graph.WellFormed)
    (hold : ∀ next status, graph.Needs next cause → before.get? next = some status →
      ∀ other, next ∈ graph.dependenciesOf other → (before.get? other).isSome)
    (hneeds : graph.Needs name cause) : (after.get? name).isSome := by
  induction hneeds using Relation.TransGen.head_induction_on with
  | single hd =>
    exact h.reaches _ ((hgraph.mem_dependentsOf ..).mpr hd)
      (TaskGraph.mem_names_of_mem_dependenciesOf hd)
  | @head other next hd hrest ih =>
    cases hnext : before.get? next with
    | none =>
      exact h.closed next hnext ih other ((hgraph.mem_dependentsOf ..).mpr hd)
        (TaskGraph.mem_names_of_mem_dependenciesOf hd)
    | some status => exact h.isSome (hold next status hrest hnext other hd)

end Spread

namespace Schedule

variable {ω : Type}

/-! ### The number of steps -/

/-- How many tasks wait for those of some nodes that have no status. -/
def openWaits (statuses : TaskTable Status) (nodes : List (Node ω)) : Nat :=
  ((nodes.filter fun n => (statuses.get? n.name).isNone).map (·.dependents.length)).sum

theorem openWaits_set_of_notMem (statuses : TaskTable Status) {nodes : List (Node ω)}
    {name : TaskName} (status : Status) (h : name ∉ nodes.map Node.name) :
    openWaits (statuses.set name status) nodes = openWaits statuses nodes := by
  unfold openWaits
  refine congrArg (fun l => (List.map _ l).sum) (List.filter_congr fun n hn => ?_)
  have hne : name ≠ n.name := fun heq => h (heq ▸ List.mem_map_of_mem hn)
  rw [TaskTable.get?_set, if_neg hne]

/-- A status for a node that had none takes away the tasks that wait for it. -/
theorem openWaits_set {statuses : TaskTable Status} {nodes : List (Node ω)} {node : Node ω}
    (status : Status) (hnodup : (nodes.map Node.name).Nodup) (hmem : node ∈ nodes)
    (hnone : statuses.get? node.name = none) :
    openWaits (statuses.set node.name status) nodes + node.dependents.length =
      openWaits statuses nodes := by
  induction nodes with
  | nil => simp at hmem
  | cons head rest ih =>
    rw [List.map_cons, List.nodup_cons] at hnodup
    rcases List.mem_cons.mp hmem with rfl | hrest
    · have hsame := openWaits_set_of_notMem statuses status hnodup.1
      unfold openWaits at hsame ⊢
      rw [List.filter_cons, List.filter_cons, TaskTable.get?_set, if_pos rfl, hnone]
      simp only [Option.isNone_some, Option.isNone_none, if_true, Bool.false_eq_true, if_false,
        List.map_cons, List.sum_cons]
      rw [hsame]
      omega
    · have hne : node.name ≠ head.name := fun heq =>
        hnodup.1 (heq ▸ List.mem_map_of_mem hrest)
      have hrest' := ih hnodup.2 hrest
      unfold openWaits at hrest' ⊢
      rw [List.filter_cons, List.filter_cons, TaskTable.get?_set, if_neg hne]
      split
      · simp only [List.map_cons, List.sum_cons]
        omega
      · exact hrest'

theorem openWaits_le_poisonSteps (statuses : TaskTable Status) (graph : TaskGraph ω) :
    openWaits statuses graph.nodes ≤ poisonSteps graph := by
  suffices h : ∀ (nodes : List (Node ω)) (start : Nat), openWaits statuses nodes + start ≤
      nodes.foldl (fun count node => count + node.dependents.length + 1) start by
    exact Nat.le_trans (Nat.le_add_right _ 1) (h graph.nodes 1)
  intro nodes
  induction nodes with
  | nil => simp [openWaits]
  | cons head rest ih =>
    intro start
    refine Nat.le_trans ?_ (ih (start + head.dependents.length + 1))
    unfold openWaits
    rw [List.filter_cons]
    split
    · simp only [List.map_cons, List.sum_cons]
      omega
    · omega

/-! ### The walk -/

theorem poison_frame (cause : TaskName) (fuel : Nat) (queue : List TaskName)
    (schedule : Schedule ω) :
    ∃ statuses reported, poison cause fuel queue schedule =
      { schedule with statuses := statuses, reported := reported } := by
  induction fuel generalizing queue schedule with
  | zero => exact ⟨schedule.statuses, schedule.reported, by rw [poison]⟩
  | succ fuel ih =>
    cases queue with
    | nil => exact ⟨schedule.statuses, schedule.reported, by rw [poison]⟩
    | cons name queue =>
      rw [poison]
      split
      · exact ih queue schedule
      · exact ih _ _

/-- **What poisoning reaches**, if the number of steps bounds the entries that the queue can ever
have. -/
theorem poison_spread {graph : TaskGraph ω} (hgraph : graph.WellFormed) (cause : TaskName)
    (fuel : Nat) (queue : List TaskName) (schedule : Schedule ω) (hsame : schedule.graph = graph)
    (hfuel : queue.length + openWaits schedule.statuses graph.nodes ≤ fuel) :
    Spread graph cause queue schedule.statuses (poison cause fuel queue schedule).statuses := by
  induction fuel generalizing queue schedule with
  | zero =>
    obtain rfl : queue = [] := List.eq_nil_of_length_eq_zero (by omega)
    exact .nil _
  | succ fuel ih =>
    cases queue with
    | nil => exact .nil _
    | cons name queue =>
      rw [List.length_cons] at hfuel
      rw [poison]
      split
      · rename_i hskip
        refine (ih queue schedule hsame (by omega)).skip fun hmem => ?_
        have hin : schedule.graph.contains name = true :=
          hsame ▸ TaskGraph.isSome_get?_iff.mpr hmem
        rw [hin, Bool.not_true, Bool.or_false] at hskip
        exact hskip
      · rename_i hmark
        simp only [Bool.or_eq_true, Bool.not_eq_true', not_or, Bool.not_eq_false,
          Bool.not_eq_true] at hmark
        have hnone : schedule.statuses.get? name = none := by
          simpa [TaskTable.contains] using hmark.1
        have hname : name ∈ graph.names :=
          TaskGraph.isSome_get?_iff.mp (hsame ▸ hmark.2)
        obtain ⟨node, hnode⟩ := TaskGraph.exists_get?_eq_some hname
        have hnodeName := TaskGraph.name_of_get?_eq_some hnode
        -- What joins the queue is paid for by the name, which has a status now.
        have hpaid := openWaits_set (.poisoned cause) hgraph.names_nodup
          (TaskGraph.mem_nodes_of_get?_eq_some hnode) (hnodeName ▸ hnone)
        rw [hnodeName, ← TaskGraph.dependentsOf_eq hnode] at hpaid
        rw [hsame]
        refine .mark hgraph hnone (ih (queue ++ graph.dependentsOf name)
          ((schedule.conclude name (.poisoned cause)).report (.poisoned name cause)) hsame ?_)
        change (queue ++ graph.dependentsOf name).length +
          openWaits (schedule.statuses.set name (.poisoned cause)) graph.nodes ≤ fuel
        rw [List.length_append]
        omega

end Schedule

end BuildMatrix
