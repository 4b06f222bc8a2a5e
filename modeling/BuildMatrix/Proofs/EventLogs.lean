import BuildMatrix.Proofs.Rounds
import BuildMatrix.Proofs.Reports

/-!
# The log of a build

While a build runs it reports what happens, and at its end it gives a report. The two tell the same
story: whatever a build reports about the end of a task is the status that the task has in the
report, and the only tasks about whose end nothing is reported are the cancelled ones.

This holds at every moment, between what was reported so far and the statuses that the build has
given so far (`Schedule.Logs`), since a status is only ever given to a task that has none, and is
reported then and there.
-/

namespace BuildMatrix

open Event

variable {ω : Type} {status : Status} {task : TaskName}

/-! ### What events say -/

namespace Event

/-- The **status** that an event says a task has. -/
def status? : Event → Option (TaskName × Status)
  | completed task _ => some (task, .completed)
  | upToDate task _ => some (task, .skipped)
  | failed task _ error => some (task, .failed error)
  | poisoned task cause => some (task, .poisoned cause)
  | _ => none

/-- Whether an event says that the whole build is over. -/
def isLast : Event → Bool
  | allCompleted .. => true
  | _ => false

variable {log : List Event} {task : TaskName}

theorem startedTask?_eq_some_iff (event : Event) :
    event.startedTask? = some task ↔ ∃ description, started task description = event := by
  cases event <;> simp [startedTask?, eq_comm]

theorem status?_eq_completed_iff (event : Event) :
    event.status? = some (task, .completed) ↔ ∃ duration, completed task duration = event := by
  cases event <;> simp [status?, eq_comm]

theorem status?_eq_skipped_iff (event : Event) :
    event.status? = some (task, .skipped) ↔ ∃ duration, upToDate task duration = event := by
  cases event <;> simp [status?, eq_comm]

theorem status?_eq_failed_iff {reason : String} (event : Event) :
    event.status? = some (task, .failed reason) ↔
      ∃ duration, failed task duration reason = event := by
  cases event <;> simp [status?, eq_comm]

theorem status?_eq_poisoned_iff {cause : TaskName} (event : Event) :
    event.status? = some (task, .poisoned cause) ↔ poisoned task cause = event := by
  cases event <;> simp [status?, eq_comm]

theorem mem_filterMap_iff {α β : Type} {fact? : Event → Option α} {fact : α} {kind : β → Event}
    (hkind : ∀ event, fact? event = some fact ↔ ∃ b, kind b = event) :
    fact ∈ log.filterMap fact? ↔ ∃ b, kind b ∈ log := by
  rw [List.mem_filterMap]
  constructor
  · rintro ⟨event, hmem, hfact⟩
    obtain ⟨b, rfl⟩ := (hkind event).mp hfact
    exact ⟨b, hmem⟩
  · rintro ⟨b, hmem⟩
    exact ⟨kind b, hmem, (hkind _).mpr ⟨b, rfl⟩⟩

end Event

/-! ### What was reported so far -/

namespace Schedule

/-- **What was reported** so far, the last event first, tells which tasks were started and which
statuses were given, but for those of the tasks that gave up. -/
structure Logs (starts : List TaskName) (statuses : TaskTable Status) (reported : List Event) :
    Prop where
  starts_eq : reported.filterMap startedTask? = starts.reverse
  /-- At most one status is told for each task. -/
  nodup : ((reported.filterMap status?).map (·.1)).Nodup
  mem_iff : ∀ task status, (task, status) ∈ reported.filterMap status? ↔
    statuses.get? task = some status ∧ status ≠ .cancelled
  /-- A task has started before a status is told, unless it is poisoned. -/
  after_start : ∀ event earlier, event :: earlier <:+ reported →
    ∀ task status, event.status? = some (task, status) →
      task ∈ earlier.filterMap startedTask? ∨ ∃ cause, status = .poisoned cause
  /-- The build is not over. -/
  not_last : ∀ event ∈ reported, event.isLast = false

namespace Logs

variable {starts : List TaskName} {statuses : TaskTable Status} {reported : List Event}
  {task : TaskName} {event : Event}

theorem nil : Logs [] [] [] where
  starts_eq := rfl
  nodup := List.nodup_nil
  mem_iff task status := by simp [TaskTable.get?]
  after_start event earlier hsuffix := by simp at hsuffix
  not_last event hmem := by cases hmem

/-- What is said about a status comes **after the start** of the task, if that is so for the
newest event. -/
theorem after_start_cons (h : Logs starts statuses reported)
    (hnew : ∀ task status, event.status? = some (task, status) →
      task ∈ starts ∨ ∃ cause, status = .poisoned cause) :
    ∀ event' earlier, event' :: earlier <:+ event :: reported →
      ∀ task status, event'.status? = some (task, status) →
        task ∈ earlier.filterMap startedTask? ∨ ∃ cause, status = .poisoned cause := by
  intro event' earlier hsuffix task status hstatus
  rcases List.suffix_cons_iff.mp hsuffix with heq | hold
  · obtain ⟨rfl, rfl⟩ := List.cons.inj heq
    rw [h.starts_eq, List.mem_reverse]
    exact hnew task status hstatus
  · exact h.after_start event' earlier hold task status hstatus

theorem start (h : Logs starts statuses reported) (task : TaskName) (description : String) :
    Logs (starts ++ [task]) statuses (.started task description :: reported) where
  starts_eq := by
    rw [List.reverse_append, ← h.starts_eq]
    rfl
  nodup := h.nodup
  mem_iff := h.mem_iff
  after_start := h.after_start_cons fun _ _ hstatus => by cases hstatus
  not_last := List.forall_mem_cons.mpr ⟨rfl, h.not_last⟩

theorem lines (h : Logs starts statuses reported) (task : TaskName) (lines : List OutputLine) :
    Logs starts statuses (lines.foldl
      (fun events line => .output task line.text line.isStderr :: events) reported) := by
  induction lines generalizing reported with
  | nil => exact h
  | cons line rest ih =>
    refine ih ⟨h.starts_eq, h.nodup, h.mem_iff, ?_, List.forall_mem_cons.mpr ⟨rfl, h.not_last⟩⟩
    exact h.after_start_cons fun _ _ hstatus => by cases hstatus

/-- **A status is given and told**, to a task that has none. -/
theorem tell (h : Logs starts statuses reported) (hnone : statuses.get? task = none) (event : Event)
    (hevent : event.status? = some (task, status))
    (hstarted : task ∈ starts ∨ ∃ cause, status = .poisoned cause) :
    Logs starts (statuses.set task status) (event :: reported) := by
  have hquiet : event.startedTask? = none ∧ event.isLast = false ∧ status ≠ .cancelled := by
    cases event <;> cases hevent <;> exact ⟨rfl, rfl, by simp⟩
  have hfresh : ∀ other, (task, other) ∉ reported.filterMap status? := by
    intro other hmem
    rw [h.mem_iff, hnone] at hmem
    cases hmem.1
  refine ⟨?_, ?_, fun other told => ?_, h.after_start_cons fun other told htold => ?_,
    List.forall_mem_cons.mpr ⟨hquiet.2.1, h.not_last⟩⟩
  · rw [List.filterMap_cons_none hquiet.1, h.starts_eq]
  · rw [List.filterMap_cons_some hevent, List.map_cons, List.nodup_cons]
    refine ⟨fun hmem => ?_, h.nodup⟩
    obtain ⟨⟨name, other⟩, hold, rfl⟩ := List.mem_map.mp hmem
    exact hfresh other hold
  · rw [List.filterMap_cons_some hevent, List.mem_cons, Prod.mk.injEq, TaskTable.get?_set]
    by_cases heq : task = other
    · subst heq
      simp only [true_and, hfresh, or_false, if_true, Option.some.injEq]
      exact ⟨fun htold => ⟨htold.symm, htold ▸ hquiet.2.2⟩, fun htold => htold.1.symm⟩
    · simp only [Ne.symm heq, false_and, false_or, if_neg heq, h.mem_iff]
  · obtain ⟨rfl, rfl⟩ := Prod.mk.inj (Option.some.inj (hevent.symm.trans htold))
    exact hstarted

theorem giveUp (h : Logs starts statuses reported) (hnone : statuses.get? task = none) :
    Logs starts (statuses.set task .cancelled) reported := by
  refine ⟨h.starts_eq, h.nodup, fun other told => ?_, h.after_start, h.not_last⟩
  rw [h.mem_iff, TaskTable.get?_set]
  by_cases heq : task = other
  · subst heq
    rw [hnone, if_pos rfl, Option.some.injEq]
    simp [eq_comm]
  · rw [if_neg heq]

theorem poison {schedule : Schedule ω} (h : Logs starts schedule.statuses schedule.reported)
    (cause : TaskName) (fuel : Nat) (queue : List TaskName) :
    Logs starts (Schedule.poison cause fuel queue schedule).statuses
      (Schedule.poison cause fuel queue schedule).reported := by
  induction fuel generalizing queue schedule with
  | zero => exact h
  | succ fuel ih =>
    cases queue with
    | nil => exact h
    | cons name queue =>
      rw [Schedule.poison]
      split
      · exact ih h queue
      · next hopen =>
          have hnone : schedule.statuses.get? name = none := by
            rw [Bool.or_eq_true, not_or] at hopen
            simpa [TaskTable.contains] using hopen.1
          exact ih (h.tell hnone (.poisoned name cause) rfl (.inr ⟨cause, rfl⟩)) _

end Logs

/-! ### The log at any moment -/

theorem frame_foldl_release (names : List TaskName) (schedule : Schedule ω) :
    (names.foldl release schedule).statuses = schedule.statuses ∧
      (names.foldl release schedule).reported = schedule.reported := by
  induction names generalizing schedule with
  | nil => exact ⟨rfl, rfl⟩
  | cons name rest ih =>
    obtain ⟨waiting, heq, -⟩ := schedule.release_eq name
    obtain ⟨hstatuses, hreported⟩ := ih (schedule.release name)
    rw [List.foldl_cons, hstatuses, hreported, heq]
    exact ⟨rfl, rfl⟩

section Settle

variable {graph : TaskGraph ω} {limit : Nat} {schedule : Schedule ω} {history : History}
  {node : Node ω} {starts : List TaskName}

theorem Logs.succeed (h : Logs starts schedule.statuses schedule.reported)
    (hstarted : node.name ∈ starts) (hnone : schedule.statuses.get? node.name = none)
    (product : Product) (duration : Duration) :
    Logs starts (schedule.succeed node product duration).statuses
      (schedule.succeed node product duration).reported := by
  unfold Schedule.succeed
  rw [(frame_foldl_release _ _).1, (frame_foldl_release _ _).2]
  cases schedule.rootCause.isSome <;> cases product.upToDate <;>
    exact h.tell hnone _ rfl (.inl hstarted)

/-- A **failure** is told, and so is all that it poisons. -/
theorem Logs.fail (h : Logs starts schedule.statuses schedule.reported)
    (hstarted : node.name ∈ starts) (hnone : schedule.statuses.get? node.name = none)
    (failure : Failure) (duration : Duration) :
    Logs starts (schedule.fail node failure duration).statuses
      (schedule.fail node failure duration).reported :=
  Logs.poison (h.tell hnone (.failed node.name duration failure.message) rfl (.inl hstarted))
    node.name _ node.dependents

theorem Tracks.get?_statuses_of_running (h : Tracks graph limit schedule history)
    (hrunning : task ∈ schedule.running) : schedule.statuses.get? task = none := by
  obtain ⟨hstarted, hopen⟩ := (h.roster.mem_iff task).mp hrunning
  refine h.statuses.get?_eq_none h.orderly hopen fun d hd => ?_
  have hdone := h.orderly.starts_after task hstarted d hd
  exact ⟨h.orderly.mem_starts_of_mem_successes hdone, h.orderly.not_failed hdone⟩

theorem Logs.settle (htracks : Tracks graph limit schedule history)
    (h : Logs history.starts schedule.statuses schedule.reported) {ending : Ending}
    (hrunning : ending.task ∈ schedule.running) (stopping : Bool) :
    Logs history.starts (schedule.settle stopping ending).statuses
      (schedule.settle stopping ending).reported := by
  have hstarted := ((htracks.roster.mem_iff ending.task).mp hrunning).1
  have hnone := htracks.get?_statuses_of_running hrunning
  obtain ⟨node, hnode⟩ := TaskGraph.exists_get?_eq_some (htracks.orderly.starts_mem _ hstarted)
  have hname := TaskGraph.name_of_get?_eq_some hnode
  have hleft : Logs history.starts (schedule.leave ending).statuses
      (schedule.leave ending).reported := h.lines ending.task ending.lines
  rw [← hname] at hstarted hnone
  rw [settle_eq (htracks.graph_eq ▸ hnode)]
  cases ending.verdict stopping with
  | succeeded product => exact hleft.succeed hstarted hnone product ending.duration
  | failed failure => exact hleft.fail hstarted hnone failure ending.duration
  | stopped => exact hleft.giveUp hnone

/-- **At every moment of a build**, what was reported tells what was started and which statuses
were given. -/
theorem Reached.logs (hgraph : graph.WellFormed) (h : Reached graph limit schedule history) :
    Logs history.starts schedule.statuses schedule.reported := by
  induction h with
  | initial => exact .nil
  | look stopping _ ih =>
    rwa [History.starts_append, Moment.start?_looked, Option.toList_none, List.append_nil]
  | finish tasks _ ih =>
    rwa [History.starts_append, Moment.start?_finished, Option.toList_none, List.append_nil]
  | @start schedule history task rest node _ _ hnode _ _ ih =>
    rw [History.starts_append, Moment.start?_started, Option.toList_some]
    exact TaskGraph.name_of_get?_eq_some hnode ▸ ih.start node.name node.task.description
  | settle stopping hreached hrunning ih =>
    rw [History.starts_append, Moment.start?_ended, Option.toList_none, List.append_nil]
    exact ih.settle (hreached.tracks hgraph) hrunning stopping

end Settle

end Schedule

/-! ### Counts -/

namespace Tally

/-- How often a status was counted. -/
def counter (tally : Tally) : Status → Nat
  | .completed => tally.completed
  | .skipped => tally.skipped
  | .failed _ => tally.failed
  | .poisoned _ => tally.poisoned
  | .cancelled => tally.cancelled

theorem counter_add (tally : Tally) (new status : Status) :
    (tally.add new).counter status =
      tally.counter status + if new.label = status.label then 1 else 0 := by
  cases new <;> cases status <;> simp [add, counter, Status.label]

theorem counter_ofStatuses (statuses : List Status) (status : Status) :
    (ofStatuses statuses).counter status = statuses.countP (·.label = status.label) := by
  suffices h : ∀ tally : Tally, (statuses.foldl add tally).counter status =
      tally.counter status + statuses.countP (·.label = status.label) by
    have hzero : ({} : Tally).counter status = 0 := by cases status <;> rfl
    rw [ofStatuses, h, hzero, Nat.zero_add]
  induction statuses with
  | nil => exact fun tally => rfl
  | cons new rest ih =>
    intro tally
    rw [List.foldl_cons, ih, counter_add, List.countP_cons]
    simp only [decide_eq_true_eq]
    omega

/-- How many tasks a tally counts. -/
def total (tally : Tally) : Nat :=
  tally.completed + tally.skipped + tally.failed + tally.poisoned + tally.cancelled

theorem total_ofStatuses (statuses : List Status) :
    (ofStatuses statuses).total = statuses.length := by
  suffices h : ∀ tally : Tally,
      (statuses.foldl add tally).total = tally.total + statuses.length by
    simpa [ofStatuses, total] using h {}
  induction statuses with
  | nil => exact fun tally => rfl
  | cons new rest ih =>
    intro tally
    rw [List.foldl_cons, ih, List.length_cons]
    cases new <;> simp only [add, total] <;> omega

end Tally

/-! ### The whole log -/

/-- A log **tells the same story** as a report of some number of tasks. -/
structure Report.ToldBy (report : Report) (total : Nat) (log : List Event) : Prop where
  /-- A task is said to start at most once. -/
  starts_nodup : (log.filterMap startedTask?).Nodup
  /-- The end of a task, or that it is poisoned, is told at most once. -/
  ends_nodup : ((log.filterMap status?).map (·.1)).Nodup
  /-- A task is said to start before its end is told. -/
  after_start : ∀ before event after task status, log = before ++ event :: after →
    event.status? = some (task, status) →
    (∃ description, .started task description ∈ before) ∨ ∃ cause, event = .poisoned task cause
  completed : ∀ task, (∃ duration, .completed task duration ∈ log) ↔
    (task, .completed) ∈ report.statuses
  upToDate : ∀ task, (∃ duration, .upToDate task duration ∈ log) ↔
    (task, .skipped) ∈ report.statuses
  failed : ∀ task reason, (∃ duration, .failed task duration reason ∈ log) ↔
    (task, .failed reason) ∈ report.statuses
  poisoned : ∀ task cause, .poisoned task cause ∈ log ↔ (task, .poisoned cause) ∈ report.statuses
  /-- A poisoned task is not said to start. -/
  unstarted : ∀ task cause, .poisoned task cause ∈ log →
    ∀ description, .started task description ∉ log
  /-- The last event, and no other, says that the build is over, with the tally of the report. -/
  last : ∃ body duration, log = body ++ [.allCompleted total report.tally duration] ∧
    ∀ event ∈ body, event.isLast = false
  statuses_nodup : (report.statuses.map (·.1)).Nodup
  /-- Each counter of the tally is the number of tasks that ended in that way. -/
  counters : ∀ status, report.tally.counter status =
    report.statuses.countP (·.2.label = status.label)
  /-- The counters add up. -/
  total_eq : report.tally.total = total

namespace Schedule

variable {graph : TaskGraph ω} {limit : Nat} {schedule : Schedule ω}
  {history : History}

theorem Tracks.mem_names_of_status (h : Tracks graph limit schedule history)
    (hget : schedule.statuses.get? task = some status) : task ∈ graph.names := by
  by_cases hended : task ∈ history.verdicts.map (·.1)
  · exact h.orderly.starts_mem task (h.orderly.verdicts_started task hended)
  · obtain ⟨cause, -, before, failure, after, -, hneeds, -⟩ :=
      h.statuses.culprit task status hended hget
    exact hneeds.mem_names

/-- What is reported about the end of a task is **its status in the report**, when the build is
over. -/
theorem Logs.mem_iff_toReport (h : Logs history.starts schedule.statuses schedule.reported)
    (htracks : Tracks graph limit schedule history) (task : TaskName)
    (hstatus : status ≠ .cancelled) :
    (task, status) ∈ schedule.reported.filterMap status? ↔
      (task, status) ∈ schedule.toReport.statuses := by
  rw [h.mem_iff, mem_statuses_toReport htracks]
  constructor
  · rintro ⟨hget, -⟩
    exact ⟨htracks.mem_names_of_status hget, by rw [hget, Option.getD_some]⟩
  · rintro ⟨-, heq⟩
    cases hget : schedule.statuses.get? task with
    | none => exact absurd (heq.trans (by rw [hget]; rfl)) hstatus
    | some given => exact ⟨by rw [heq, hget, Option.getD_some], hstatus⟩

section Over

variable {log : List Event} {duration : Duration}

/-- In the log of a build that is over, what is said about a status comes **after the start** of the
task, unless it is poisoned. -/
theorem Logs.exists_started (h : Logs history.starts schedule.statuses schedule.reported)
    (hlog : log = schedule.reported.reverse ++
      [.allCompleted graph.size schedule.toReport.tally duration]) {before after : List Event}
    {event : Event} (hsplit : log = before ++ event :: after)
    (hstatus : event.status? = some (task, status)) :
    (∃ description, .started task description ∈ before) ∨
      ∃ cause, event = .poisoned task cause := by
  rw [hlog] at hsplit
  rcases List.eq_nil_or_concat after with rfl | ⟨middle, final, rfl⟩
  · -- the last event says nothing about a task
    obtain ⟨-, heq⟩ := List.append_inj' hsplit rfl
    rw [← List.singleton_inj.mp heq] at hstatus
    cases hstatus
  · rw [List.concat_eq_append, ← List.cons_append, ← List.append_assoc] at hsplit
    obtain ⟨heq, -⟩ := List.append_inj' hsplit rfl
    have hreported : schedule.reported = middle.reverse ++ event :: before.reverse := by
      rw [← List.reverse_reverse schedule.reported, heq]
      simp
    rcases h.after_start event before.reverse ⟨middle.reverse, hreported.symm⟩ task status hstatus
      with hstarted | ⟨cause, rfl⟩
    · rw [List.filterMap_reverse, List.mem_reverse,
        mem_filterMap_iff startedTask?_eq_some_iff] at hstarted
      exact .inl hstarted
    · exact .inr ⟨cause, ((status?_eq_poisoned_iff event).mp hstatus).symm⟩

/-- **The log of a build that is over** tells the same story as its report. -/
theorem Logs.toldBy (h : Logs history.starts schedule.statuses schedule.reported)
    (hgraph : graph.WellFormed) (htracks : Tracks graph limit schedule history)
    (hover : schedule.Over)
    (hlog : log = schedule.reported.reverse ++
      [.allCompleted graph.size schedule.toReport.tally duration]) :
    schedule.toReport.ToldBy graph.size log := by
  have hstarts : log.filterMap startedTask? = history.starts := by
    rw [hlog, List.filterMap_append, List.filterMap_reverse, h.starts_eq, List.reverse_reverse]
    exact List.append_nil _
  have hends : log.filterMap status? =
      (schedule.reported.filterMap status?).reverse := by
    rw [hlog, List.filterMap_append, List.filterMap_reverse]
    exact List.append_nil _
  have htold : ∀ task status, status ≠ .cancelled →
      ((task, status) ∈ log.filterMap status? ↔
        (task, status) ∈ schedule.toReport.statuses) := by
    intro task status hstatus
    rw [hends, List.mem_reverse, h.mem_iff_toReport htracks task hstatus]
  have hpoisoned : ∀ task cause, .poisoned task cause ∈ log ↔
      (task, .poisoned cause) ∈ schedule.toReport.statuses := by
    intro task cause
    rw [← htold task _ (by simp), List.mem_filterMap]
    simp only [status?_eq_poisoned_iff, exists_eq_right']
  have hnames : schedule.toReport.statuses.map (·.1) = graph.names := by
    simp [toReport, htracks.graph_eq, Function.comp_def]
  refine {
    starts_nodup := hstarts ▸ htracks.orderly.starts_nodup
    ends_nodup := ?_
    after_start := fun _ _ _ _ _ => h.exists_started hlog
    completed := fun task => ?_
    upToDate := fun task => ?_
    failed := fun task reason => ?_
    poisoned := hpoisoned
    unstarted := fun task cause hmem description hstarted => ?_
    last := ⟨_, duration, hlog, fun event hmem => h.not_last event (List.mem_reverse.mp hmem)⟩
    statuses_nodup := hnames ▸ hgraph.names_nodup
    counters := fun status => ?_
    total_eq := ?_ }
  · rw [hends, List.map_reverse, List.nodup_reverse]
    exact h.nodup
  · rw [← htold task _ (by simp), mem_filterMap_iff status?_eq_completed_iff]
  · rw [← htold task _ (by simp), mem_filterMap_iff status?_eq_skipped_iff]
  · rw [← htold task _ (by simp), mem_filterMap_iff status?_eq_failed_iff]
  · have hmention : task ∈ history.starts := by
      rw [← hstarts, mem_filterMap_iff startedTask?_eq_some_iff]
      exact ⟨description, hstarted⟩
    rcases htracks.status_cases hover ((hpoisoned task cause).mp hmem) with
      ⟨verdict, -, heq, -⟩ | ⟨hfresh, -⟩ | ⟨hfresh, -⟩
    · exact verdict.status_ne_poisoned cause heq.symm
    · exact hfresh hmention
    · exact hfresh hmention
  · rw [Report.tally, Tally.counter_ofStatuses, List.countP_map]
    rfl
  · rw [Report.tally, Tally.total_ofStatuses, List.length_map, ← List.length_map, hnames]
    exact List.length_map ..

end Over

end Schedule

namespace TaskGraph

variable {σ : Type}

/-- **The log tells the same story as the report**, for every build of a graph made from
declarations: however tasks end, in whichever order, and whenever the build is asked to stop. -/
theorem log_tells_the_report {builder : GraphBuilder ω} (hdeclared : builder.Declared)
    {graph : TaskGraph ω} (hbuild : builder.build = .ok graph) (runner : Schedule.Runner ω σ)
    (limit : Nat) (state : σ) :
    (graph.execute runner limit state).1.ToldBy builder.tasks.length
      (graph.execute runner limit state).2.1 := by
  have hgraph := hdeclared.wellFormed hbuild
  obtain ⟨schedule, hcourse, hover, hreport, hlog⟩ := hgraph.course_execute runner limit state
  have hreached := hcourse.reached
  have hsize : graph.size = builder.tasks.length := by
    simpa [names, size] using congrArg List.length (GraphBuilder.names_of_build hbuild)
  rw [hreport, ← hsize]
  exact (hreached.logs hgraph).toldBy hgraph (hreached.tracks hgraph) hover hlog

/-- The small build in which a task fails on which another depends: the log has the failure and the
poisoning, one after the other, and at its end the counts. -/
theorem log_tells_the_report_small :
    (small.execute (.breaking "lib") 2 ()).2.1 =
        [.started ⟨"lib"⟩ "lib", .started ⟨"docs"⟩ "docs", .failed ⟨"lib"⟩ ⟨0⟩ "broken",
          .poisoned ⟨"app"⟩ ⟨"lib"⟩, .completed ⟨"docs"⟩ ⟨0⟩,
          .allCompleted 3 { completed := 1, failed := 1, poisoned := 1 } ⟨0⟩] ∧
      (small.execute (.breaking "lib") 2 ()).1.ToldBy 3
        (small.execute (.breaking "lib") 2 ()).2.1 :=
  ⟨rfl, log_tells_the_report GraphBuilder.declared_small GraphBuilder.build_small
    (.breaking "lib") 2 ()⟩

end TaskGraph

end BuildMatrix
