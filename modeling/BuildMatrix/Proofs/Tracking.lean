import BuildMatrix.Proofs.GraphShape
import BuildMatrix.Proofs.History

/-!
# A build keeps track of its history

What a build knows at a moment (the counts of open dependencies, the tasks that are ready and those
that are running, the statuses and results, and its two flags) is exactly what can be read off its
history. This is the invariant of the whole loop, in parts that each concern a few of the things
that a build knows. This module states it, and shows that it holds at the outset and that looking
around and starting a task keep it.
-/

namespace BuildMatrix

open History

variable {ω : Type} {task : TaskName}

/-- The **status** that a verdict gives a task. -/
def Verdict.status : Verdict → Status
  | succeeded product => if product.upToDate then .skipped else .completed
  | failed failure => .failed failure.message
  | stopped => .cancelled

namespace History

/-- What is **in order** about every history: a task starts once and after its dependencies have
succeeded, and ends once and after its start. -/
structure Orderly (graph : TaskGraph ω) (history : History) : Prop where
  starts_nodup : history.starts.Nodup
  starts_mem : ∀ task ∈ history.starts, task ∈ graph.names
  starts_after : ∀ task ∈ history.starts, ∀ d ∈ graph.dependenciesOf task, d ∈ history.successes
  verdicts_nodup : (history.verdicts.map (·.1)).Nodup
  verdicts_started : ∀ task ∈ history.verdicts.map (·.1), task ∈ history.starts

/-- What holds whenever a task **starts**; `before` is the history until then. -/
structure SafeStart (graph : TaskGraph ω) (before : History) (task : TaskName)
    (results : List TaskResult) : Prop where
  mem : task ∈ graph.names
  fresh : task ∉ before.starts
  succeeded : ∀ d ∈ graph.dependenciesOf task, d ∈ before.successes
  /-- It gets one result for each dependency, in the order of their declaration, with what that
  dependency produced. -/
  results : List.Forall₂ (fun d result => result.task = d ∧
    ∃ product, (d, .succeeded product) ∈ before.verdicts ∧ result.output = product.output)
    (graph.dependenciesOf task) results
  no_failure : before.failures = []
  no_stop : ¬before.StopSeen

/-- The **culprit** for a task: the first task to fail of all those it needs. -/
def Culprit (graph : TaskGraph ω) (failures : List (TaskName × Failure)) (task cause : TaskName) :
    Prop :=
  ∃ before failure after, failures = before ++ (cause, failure) :: after ∧
    graph.Needs task cause ∧ ∀ f ∈ before, ¬graph.Needs task f.1

namespace Orderly

variable {graph : TaskGraph ω} {history : History}

theorem mem_starts_of_mem_successes (h : history.Orderly graph) (hmem : task ∈ history.successes) :
    task ∈ history.starts := by
  obtain ⟨product, hverdict⟩ := mem_successes.mp hmem
  exact h.verdicts_started task (List.mem_map_of_mem (f := (·.1)) hverdict)

theorem mem_successes_of_needs (h : history.Orderly graph) {d : TaskName}
    (hneeds : graph.Needs task d) (hmem : task ∈ history.starts) : d ∈ history.successes := by
  induction hneeds using Relation.TransGen.head_induction_on with
  | single hd => exact h.starts_after _ hmem d hd
  | head hd _ ih => exact ih (h.mem_starts_of_mem_successes (h.starts_after _ hmem _ hd))

theorem verdict_unique (h : history.Orderly graph) {v w : Verdict}
    (hv : (task, v) ∈ history.verdicts) (hw : (task, w) ∈ history.verdicts) : v = w :=
  (Prod.mk.inj (List.inj_on_of_nodup_map h.verdicts_nodup hv hw rfl)).2

theorem not_failed (h : history.Orderly graph) (hmem : task ∈ history.successes)
    (failure : Failure) :
    (task, .failed failure) ∉ history.verdicts := by
  obtain ⟨product, hverdict⟩ := mem_successes.mp hmem
  intro hfailed
  cases h.verdict_unique hverdict hfailed

theorem returned_ok (h : history.Orderly graph) {product : Product} {outcome : Outcome}
    {stopping stopping' : Bool} (hok : history.Returned task (.ok product) stopping)
    (hother : history.Returned task outcome stopping') : outcome = .ok product := by
  obtain ⟨ending, hmem, htask, rfl⟩ := hother
  have hverdict := mem_verdicts.mpr ⟨ending, stopping', hmem, htask, rfl⟩
  exact Ending.verdict_eq_succeeded_iff.mp
    (h.verdict_unique hverdict (succeeded_mem_verdicts.mpr ⟨stopping, hok⟩))

/-- A safe start keeps a history in order. -/
theorem start (h : history.Orderly graph) {task : TaskName} {results : List TaskResult}
    (hsafe : history.SafeStart graph task results) :
    Orderly graph (history ++ [.started task results]) := by
  refine ⟨?_, ?_, ?_, ?_, ?_⟩
  · rw [starts_append, Moment.start?_started, Option.toList_some, ← List.concat_eq_append]
    exact h.starts_nodup.concat hsafe.fresh
  · simpa [or_imp, forall_and, hsafe.mem] using h.starts_mem
  · simpa [or_imp, forall_and] using ⟨h.starts_after, hsafe.succeeded⟩
  · simpa using h.verdicts_nodup
  · intro other hother
    rw [starts_append, List.mem_append]
    exact .inl (h.verdicts_started other (by simpa using hother))

theorem settle (h : history.Orderly graph) {ending : Ending}
    (hstarted : ending.task ∈ history.starts)
    (hopen : ending.task ∉ history.verdicts.map (·.1)) (stopping : Bool) :
    Orderly graph (history ++ [.ended ending stopping]) := by
  refine ⟨by simpa using h.starts_nodup, by simpa using h.starts_mem, ?_, ?_, ?_⟩
  · intro task htask d hd
    rw [successes_append]
    exact List.mem_append_left _ (h.starts_after task (by simpa using htask) d hd)
  · rw [verdicts_append, Moment.verdict?_ended, Option.toList_some, List.map_append,
      List.map_singleton, ← List.concat_eq_append]
    exact h.verdicts_nodup.concat hopen
  · simpa [or_imp, forall_and, hstarted] using h.verdicts_started

end Orderly

end History

namespace Schedule

variable {α : Type} {graph : TaskGraph ω}

/-! ### The parts of the invariant -/

/-- The **running** tasks are those that were started and have not ended. -/
structure Roster (starts ended running finished : List TaskName) : Prop where
  nodup : running.Nodup
  mem_iff : ∀ task, task ∈ running ↔ task ∈ starts ∧ task ∉ ended
  finished_sublist : finished.Sublist running

/-- The **counts** are the numbers of dependencies that have not succeeded, and the tasks that are
**ready** are those that could start and have not. -/
structure Counts (graph : TaskGraph ω) (starts successes : List TaskName)
    (waiting : TaskTable Nat) (ready : List TaskName) : Prop where
  waiting_eq : ∀ task ∈ graph.names,
    waiting.get? task = some (openCount successes (graph.dependenciesOf task))
  ready_nodup : ready.Nodup
  mem_ready : ∀ task, task ∈ ready ↔
    task ∈ graph.names ∧ task ∉ starts ∧ ∀ d ∈ graph.dependenciesOf task, d ∈ successes

/-- The **statuses** are those of the verdicts, and poison for the tasks that need one that has
failed. -/
structure Statuses (graph : TaskGraph ω) (verdicts : TaskTable Verdict)
    (failures : List (TaskName × Failure)) (statuses : TaskTable Status) : Prop where
  of_verdict : ∀ task verdict, (task, verdict) ∈ verdicts →
    statuses.get? task = some verdict.status
  culprit : ∀ task status, task ∉ verdicts.map (·.1) → statuses.get? task = some status →
    ∃ cause, status = .poisoned cause ∧ Culprit graph failures task cause
  of_needs : ∀ task, ∀ f ∈ failures, graph.Needs task f.1 → (statuses.get? task).isSome

/-- The **results** are those of the tasks that have succeeded before the first failure, each with
the results of its dependencies. -/
structure Results (graph : TaskGraph ω) (verdicts : TaskTable Verdict) (kept : List TaskName)
    (results : TaskTable TaskResult) : Prop where
  mem_iff : ∀ task, (results.get? task).isSome ↔ task ∈ kept
  result : ∀ task result, results.get? task = some result →
    result.task = task ∧
    (∃ product, (task, .succeeded product) ∈ verdicts ∧ result.output = product.output) ∧
    (graph.dependenciesOf task).map results.get? = result.dependencies.map some

/-- **What a build knows is what can be read off its history.** -/
structure Tracks (graph : TaskGraph ω) (limit : Nat) (schedule : Schedule ω)
    (history : History) : Prop where
  graph_eq : schedule.graph = graph
  limit_eq : schedule.limit = max 1 limit
  orderly : history.Orderly graph
  roster : Roster history.starts (history.verdicts.map (·.1)) schedule.running schedule.finished
  counts : Counts graph history.starts history.successes schedule.waiting schedule.ready
  statuses : Statuses graph history.verdicts history.failures schedule.statuses
  results : Results graph history.verdicts history.kept schedule.results
  rootCause_eq : schedule.rootCause = history.failures.head?
  cancelled_iff : schedule.cancelled = true ↔ history.StopSeen
  busy_eq : schedule.busy = history.working
  bounded : ∀ before : History, before <+: history → before.working.length ≤ max 1 limit
  safe : ∀ (before : History) task results, before ++ [.started task results] <+: history →
    before.SafeStart graph task results

/-! ### The outset -/

theorem get?_map_nodes (graph : TaskGraph ω) (f : Node ω → α) (name : TaskName) :
    TaskTable.get? name (graph.nodes.map fun n => (n.name, f n)) = (graph.get? name).map f := by
  rw [TaskGraph.get?]
  induction graph.nodes with
  | nil => rfl
  | cons node rest ih =>
    by_cases h : node.name = name
    · simp [TaskTable.get?, h]
    · simp [TaskTable.get?, h, ih]

theorem counts_initial (hgraph : graph.WellFormed) (limit : Nat) :
    Counts graph [] [] (initial graph limit).waiting (initial graph limit).ready where
  waiting_eq task htask := by
    obtain ⟨node, hnode⟩ := TaskGraph.exists_get?_eq_some htask
    change TaskTable.get? task (graph.nodes.map fun n => (n.name, n.dependencies.length)) = _
    rw [get?_map_nodes, hnode, TaskGraph.dependenciesOf_eq hnode]
    simp [openCount]
  ready_nodup := (List.filter_sublist.map Node.name).nodup hgraph.names_nodup
  mem_ready task := by
    simp only [initial, List.mem_map, List.mem_filter, List.isEmpty_iff]
    constructor
    · rintro ⟨node, ⟨hnode, hempty⟩, rfl⟩
      have hget := hgraph.get?_of_mem hnode
      exact ⟨List.mem_map_of_mem hnode, by simp [TaskGraph.dependenciesOf_eq hget, hempty]⟩
    · rintro ⟨htask, -, hdone⟩
      obtain ⟨node, hnode⟩ := TaskGraph.exists_get?_eq_some htask
      rw [TaskGraph.dependenciesOf_eq hnode] at hdone
      exact ⟨node, ⟨TaskGraph.mem_nodes_of_get?_eq_some hnode,
        List.eq_nil_iff_forall_not_mem.mpr fun d hd => absurd (hdone d hd) (by simp)⟩,
        TaskGraph.name_of_get?_eq_some hnode⟩

/-- **At the outset** a build knows what can be read off the empty history. -/
theorem tracks_initial (hgraph : graph.WellFormed) (limit : Nat) :
    Tracks graph limit (initial graph limit) [] where
  graph_eq := rfl
  limit_eq := rfl
  orderly := ⟨List.nodup_nil, by simp [starts], by simp [starts],
    List.nodup_nil, by simp [verdicts]⟩
  roster := ⟨List.nodup_nil, by simp [initial, starts], List.Sublist.refl _⟩
  counts := counts_initial hgraph limit
  statuses := ⟨by simp [verdicts], by simp [initial, TaskTable.get?],
    by simp [failures, verdicts]⟩
  results := ⟨by simp [initial, TaskTable.get?, kept, verdicts],
    by simp [initial, TaskTable.get?]⟩
  rootCause_eq := rfl
  cancelled_iff := by simp [initial, StopSeen, verdicts]
  busy_eq := rfl
  bounded before hinit := by
    rw [List.prefix_nil] at hinit
    simp [hinit, working]
  safe before task results hinit := by
    rw [List.prefix_nil] at hinit
    simp at hinit

/-! ### Moments in which nothing starts or ends -/

section Steps

variable {graph : TaskGraph ω} {limit : Nat} {schedule : Schedule ω} {history : History}
  {moment : Moment}

theorem Tracks.bounded_append (h : Tracks graph limit schedule history)
    (hnew : (moment.work history.working).length ≤ max 1 limit) (before : History)
    (hinit : before <+: history ++ [moment]) : before.working.length ≤ max 1 limit := by
  rcases List.prefix_concat_iff.mp hinit with rfl | hold
  · rwa [working_append]
  · exact h.bounded before hold

theorem Tracks.safe_append (h : Tracks graph limit schedule history)
    (hnew : ∀ task results, moment = .started task results →
      history.SafeStart graph task results) (before : History) (task : TaskName)
    (results : List TaskResult)
    (hinit : before ++ [.started task results] <+: history ++ [moment]) :
    before.SafeStart graph task results := by
  rcases List.prefix_concat_iff.mp hinit with heq | hold
  · obtain ⟨rfl, hmoment⟩ := List.append_inj' heq rfl
    exact hnew task results (List.singleton_inj.mp hmoment).symm
  · exact h.safe before task results hold

/-- A build that only learns something about the running tasks, or that it was asked to stop. -/
theorem Tracks.quiet (h : Tracks graph limit schedule history) (hstart : moment.start? = none)
    (hverdict : moment.verdict? = none) (finished : List TaskName) (cancelled : Bool)
    (hfinished : finished.Sublist schedule.running)
    (hcancelled : cancelled = true ↔ schedule.cancelled = true ∨ moment = .looked true)
    (hbusy : { schedule with finished, cancelled }.busy = moment.work schedule.busy)
    (hless : (moment.work history.working).length ≤ history.working.length) :
    Tracks graph limit { schedule with finished, cancelled } (history ++ [moment]) := by
  have hstarts : starts (history ++ [moment]) = history.starts := by simp [hstart]
  have hverdicts : verdicts (history ++ [moment]) = history.verdicts := by simp [hverdict]
  have hsuccesses : successes (history ++ [moment]) = history.successes := by
    simp [hverdict]
  have hfailures : failures (history ++ [moment]) = history.failures := by
    simp [hverdict]
  have hkept : kept (history ++ [moment]) = history.kept :=
    history.kept_append_of_not_succeeded moment (by simp [hverdict])
  refine ⟨h.graph_eq, h.limit_eq, ?_, ?_, ?_, ?_, ?_, ?_, ?_, ?_, ?_, ?_⟩
  · exact ⟨hstarts ▸ h.orderly.starts_nodup, hstarts ▸ h.orderly.starts_mem,
      by rw [hstarts, hsuccesses]; exact h.orderly.starts_after,
      hverdicts ▸ h.orderly.verdicts_nodup,
      by rw [hstarts, hverdicts]; exact h.orderly.verdicts_started⟩
  · rw [hstarts, hverdicts]
    exact ⟨h.roster.nodup, h.roster.mem_iff, hfinished⟩
  · rw [hstarts, hsuccesses]
    exact h.counts
  · rw [hverdicts, hfailures]
    exact h.statuses
  · rw [hverdicts, hkept]
    exact h.results
  · rw [hfailures]
    exact h.rootCause_eq
  · rw [hcancelled, h.cancelled_iff]
    simp [hverdict]
  · rw [hbusy, h.busy_eq, working_append]
  · exact h.bounded_append (Nat.le_trans hless (h.bounded history List.prefix_rfl))
  · refine h.safe_append fun task results hmoment => ?_
    rw [hmoment] at hstart
    cases hstart

/-- A build that **looks** whether it was asked to stop. -/
theorem Tracks.look (h : Tracks graph limit schedule history) (stopping : Bool) :
    Tracks graph limit (schedule.look stopping) (history ++ [.looked stopping]) :=
  h.quiet rfl rfl schedule.finished (schedule.cancelled || stopping) h.roster.finished_sublist
    (by simp) rfl (Nat.le_refl _)

theorem Tracks.finish (h : Tracks graph limit schedule history) (tasks : List TaskName) :
    Tracks graph limit (schedule.finish tasks) (history ++ [.finished tasks]) := by
  refine h.quiet rfl rfl _ schedule.cancelled List.filter_sublist (by simp) ?_
    (List.length_filter_le ..)
  simp only [busy, Moment.work_finished, List.filter_filter]
  refine List.filter_congr fun task htask => ?_
  simp only [List.contains_eq_mem, List.mem_filter, htask, Bool.or_eq_true, decide_eq_true_eq]
  by_cases hfinished : task ∈ schedule.finished <;> simp [hfinished]

/-! ### The start of a task -/

theorem forall₂_filterMap {β : Type} {R : α → β → Prop} {f : α → Option β} {l : List α}
    (h : ∀ a ∈ l, ∃ b, f a = some b ∧ R a b) : List.Forall₂ R l (l.filterMap f) := by
  induction l with
  | nil => exact .nil
  | cons a rest ih =>
    obtain ⟨b, hb, hR⟩ := h a (List.mem_cons_self ..)
    rw [List.filterMap_cons_some hb]
    exact .cons hR (ih fun x hx => h x (List.mem_cons_of_mem _ hx))

theorem Tracks.of_not_isStopped (h : Tracks graph limit schedule history)
    (hgo : schedule.isStopped = false) : history.failures = [] ∧ ¬history.StopSeen := by
  rw [isStopped, Bool.or_eq_false_iff] at hgo
  refine ⟨?_, fun hseen => ?_⟩
  · rw [h.rootCause_eq] at hgo
    simpa using hgo.1
  · rw [h.cancelled_iff.mpr hseen] at hgo
    exact absurd hgo.2 (by simp)

theorem Tracks.safeStart (h : Tracks graph limit schedule history) {node : Node ω}
    (hready : task ∈ schedule.ready) (hnode : graph.get? task = some node)
    (hgo : schedule.isStopped = false) :
    history.SafeStart graph task (schedule.dependencyResults node) := by
  obtain ⟨hmem, hfresh, hdone⟩ := (h.counts.mem_ready task).mp hready
  obtain ⟨hfailures, hstop⟩ := h.of_not_isStopped hgo
  refine ⟨hmem, hfresh, hdone, ?_, hfailures, hstop⟩
  rw [TaskGraph.dependenciesOf_eq hnode] at hdone ⊢
  refine forall₂_filterMap fun d hd => ?_
  have hkept : d ∈ history.kept := kept_eq_successes hfailures ▸ hdone d hd
  obtain ⟨result, hresult⟩ := Option.isSome_iff_exists.mp ((h.results.mem_iff d).mpr hkept)
  obtain ⟨htask, hproduct, -⟩ := h.results.result d result hresult
  exact ⟨result, hresult, htask, hproduct⟩

theorem Roster.start {starts ended running finished : List TaskName} {task : TaskName}
    (h : Roster starts ended running finished) (hrunning : task ∉ running)
    (hended : task ∉ ended) :
    Roster (starts ++ [task]) ended (running ++ [task]) finished where
  nodup := List.concat_eq_append ▸ h.nodup.concat hrunning
  mem_iff other := by
    rw [List.mem_append, List.mem_append, h.mem_iff, List.mem_singleton]
    constructor
    · rintro (⟨hstarts, hother⟩ | rfl)
      · exact ⟨.inl hstarts, hother⟩
      · exact ⟨.inr rfl, hended⟩
    · rintro ⟨hstarts | rfl, hother⟩
      · exact .inl ⟨hstarts, hother⟩
      · exact .inr rfl
  finished_sublist := h.finished_sublist.trans (List.sublist_append_left ..)

/-- A task that starts is no longer ready. -/
theorem Counts.start {starts successes ready : List TaskName} {waiting : TaskTable Nat}
    {task : TaskName} {rest : List TaskName} (h : Counts graph starts successes waiting ready)
    (hready : ready = task :: rest) :
    Counts graph (starts ++ [task]) successes waiting rest := by
  subst hready
  obtain ⟨hnotMem, hrest⟩ := List.nodup_cons.mp h.ready_nodup
  refine ⟨h.waiting_eq, hrest, fun other => ?_⟩
  constructor
  · intro hother
    obtain ⟨hmem, hfresh, hdone⟩ := (h.mem_ready other).mp (List.mem_cons_of_mem _ hother)
    have hne : other ≠ task := fun heq => hnotMem (heq ▸ hother)
    exact ⟨hmem, by simp [hfresh, hne], hdone⟩
  · rintro ⟨hmem, hfresh, hdone⟩
    rw [List.mem_append, List.mem_singleton, not_or] at hfresh
    exact List.mem_of_ne_of_mem hfresh.2 ((h.mem_ready other).mpr ⟨hmem, hfresh.1, hdone⟩)

theorem Tracks.start (h : Tracks graph limit schedule history) {task : TaskName}
    {rest : List TaskName} {node : Node ω} (hready : schedule.ready = task :: rest)
    (hnode : graph.get? task = some node) (hroom : schedule.busy.length < schedule.limit)
    (hgo : schedule.isStopped = false) :
    Tracks graph limit { schedule.start node with ready := rest }
      (history ++ [.started task (schedule.dependencyResults node)]) := by
  have hsafe := h.safeStart (hready ▸ List.mem_cons_self ..) hnode hgo
  have hname : node.name = task := TaskGraph.name_of_get?_eq_some hnode
  have hrunning : task ∉ schedule.running := fun hmem =>
    hsafe.fresh ((h.roster.mem_iff task).mp hmem).1
  have hended : task ∉ history.verdicts.map (·.1) := fun hmem =>
    hsafe.fresh (h.orderly.verdicts_started task hmem)
  have hkept := history.kept_append_of_not_succeeded
    (.started task (schedule.dependencyResults node)) (by simp)
  refine ⟨h.graph_eq, h.limit_eq, ?_, ?_, ?_, ?_, ?_, ?_, ?_, ?_, ?_, ?_⟩
  · exact h.orderly.start hsafe
  · simpa [Schedule.start, report, hname] using h.roster.start hrunning hended
  · simpa [Schedule.start, report] using h.counts.start hready
  · simpa [Schedule.start, report] using h.statuses
  · rw [hkept]
    simpa [Schedule.start, report] using h.results
  · simpa [Schedule.start, report] using h.rootCause_eq
  · simpa [Schedule.start, report] using h.cancelled_iff
  · have hfinished : task ∉ schedule.finished := fun hmem =>
      hrunning (h.roster.finished_sublist.subset hmem)
    rw [working_append, Moment.work_started, ← h.busy_eq]
    simp [busy, Schedule.start, report, hname, List.filter_append, hfinished]
  · rw [h.limit_eq, h.busy_eq] at hroom
    refine h.bounded_append ?_
    rw [Moment.work_started, List.length_append, List.length_singleton]
    exact hroom
  · refine h.safe_append fun other results hmoment => ?_
    obtain ⟨rfl, rfl⟩ := Moment.started.inj hmoment
    exact hsafe

end Steps

end Schedule

end BuildMatrix
