import BuildMatrix.Proofs.CacheCalls
import BuildMatrix.Proofs.Rounds

/-!
# What every build guarantees

Whatever the limit on tasks at work, however tasks end, in whichever order, and whenever the build
is asked to stop:

* a task starts only when all it depends on has succeeded, with their results, once, never after a
  failure or a request to stop was seen, and never beyond the limit;
* the report has one status for each task, and it says exactly how the task ended, or why it was not
  run;
* the build comes to an end, and if nothing failed and nobody asked it to stop, every task was run.

All of it is read off the invariant that every build keeps (`Schedule.Tracks`).
-/

namespace BuildMatrix

/-! ### A small build -/

/-- A task that is only a name. -/
def Task.plain (name : String) : Task Unit where
  name := ⟨name⟩
  description := name
  work := ()

/-- Three tasks, one of which depends on another. -/
def GraphBuilder.small : GraphBuilder Unit where
  tasks := [.plain "lib", .plain "app", .plain "docs"]
  edges := [(⟨"lib"⟩, []), (⟨"app"⟩, [⟨"lib"⟩]), (⟨"docs"⟩, [])]

/-- Three tasks, one of which needs another. -/
def TaskGraph.small : TaskGraph Unit where
  nodes := [⟨.plain "lib", [], [⟨"app"⟩], 0⟩, ⟨.plain "app", [⟨"lib"⟩], [], 1⟩,
    ⟨.plain "docs", [], [], 0⟩]
  sorted := [⟨"lib"⟩, ⟨"docs"⟩, ⟨"app"⟩]

theorem GraphBuilder.declared_small : small.Declared := by
  have hlib : Declared ⟨[.plain "lib"], [(⟨"lib"⟩, [])]⟩ :=
    .register .empty (show register {} (.plain "lib") [] = _ from rfl)
  have happ : Declared ⟨[.plain "lib", .plain "app"], [(⟨"lib"⟩, []), (⟨"app"⟩, [⟨"lib"⟩])]⟩ :=
    .register hlib (show register _ (.plain "app") [⟨"lib"⟩] = _ from rfl)
  exact .register happ (show register _ (.plain "docs") [] = _ from rfl)

theorem GraphBuilder.build_small : small.build = .ok .small := rfl

/-- A runner for which tasks end **in the order of their starts**, each with a given outcome. -/
def Schedule.Runner.inOrder {ω : Type} (outcome : TaskName → Outcome) : Runner ω Unit where
  launch _ _ _ := ()
  await _ running :=
    let task := running.headD ⟨""⟩
    ({ task, outcome := outcome task }, ())
  isStopping _ := false

/-- A runner for which tasks succeed in the order of their starts. -/
def Schedule.Runner.successful {ω : Type} : Runner ω Unit :=
  inOrder fun _ => .ok { output := .none }

/-- A runner for which tasks end in the order of their starts, and one of them fails. -/
def Schedule.Runner.breaking {ω : Type} (name : String) : Runner ω Unit :=
  inOrder fun task =>
    if task.text = name then .error (.custom "broken") else .ok { output := .none }

namespace TaskGraph

variable {ω σ : Type}

/-! ### The safety of starts -/

/-- **Every start is safe**, in every build of a graph made from declarations: all that the task was
declared to depend on has succeeded, and it gets exactly their results, in that order; it was not
started before; no failure and no request to stop was seen. At every moment no more tasks are at
work than the limit allows, which is at least one. -/
theorem every_start_is_safe {builder : GraphBuilder ω} (hdeclared : builder.Declared)
    {graph : TaskGraph ω} (hbuild : builder.build = .ok graph) (runner : Schedule.Runner ω σ)
    (limit : Nat) (state : σ) :
    (∀ (before : History) task results,
      before ++ [.started task results] <+: graph.history runner limit state →
        before.SafeStart graph task results ∧
          graph.dependenciesOf task = builder.edges.of task) ∧
      (graph.history runner limit state).starts.Nodup ∧
      ∀ before : History, before <+: graph.history runner limit state →
        before.working.length ≤ max 1 limit := by
  obtain ⟨schedule, htracks, -⟩ := (hdeclared.wellFormed hbuild).tracks_execute runner limit state
  refine ⟨fun before task results hinit => ?_, htracks.orderly.starts_nodup, htracks.bounded⟩
  have hsafe := htracks.safe before task results hinit
  exact ⟨hsafe, hdeclared.dependenciesOf_eq hbuild hsafe.mem⟩

/-- The small build without room for two tasks: all three start, one after another, and the one that
depends on another gets its result. -/
theorem every_start_is_safe_small :
    (small.history .successful 0 ()).starts = [⟨"lib"⟩, ⟨"docs"⟩, ⟨"app"⟩] ∧
      History.SafeStart small ((small.history .successful 0 ()).take 12) ⟨"app"⟩
        [⟨⟨"lib"⟩, .none, []⟩] :=
  ⟨rfl, ((every_start_is_safe GraphBuilder.declared_small GraphBuilder.build_small .successful 0
    ()).1 _ _ _ ⟨(small.history .successful 0 ()).drop 13, rfl⟩).1⟩

end TaskGraph

/-! ### The statuses of a report -/

theorem Verdict.status_ne_poisoned (verdict : Verdict) (cause : TaskName) :
    verdict.status ≠ .poisoned cause := by
  cases verdict with
  | succeeded product =>
    rw [status]
    split <;> simp
  | failed failure => simp [status]
  | stopped => simp [status]

namespace Schedule

variable {ω : Type} {graph : TaskGraph ω} {limit : Nat} {schedule : Schedule ω}
  {history : History}

theorem Tracks.ended_of_started (h : Tracks graph limit schedule history) (hover : schedule.Over)
    {task : TaskName} (hstarted : task ∈ history.starts) :
    ∃ verdict, (task, verdict) ∈ history.verdicts := by
  by_contra hnone
  have hrunning : task ∈ schedule.running := by
    refine (h.roster.mem_iff task).mpr ⟨hstarted, fun hmem => ?_⟩
    obtain ⟨⟨_, verdict⟩, hverdict, rfl⟩ := List.mem_map.mp hmem
    exact hnone ⟨verdict, hverdict⟩
  rw [hover.1] at hrunning
  cases hrunning

theorem mem_statuses_toReport (h : Tracks graph limit schedule history) {task : TaskName}
    {status : Status} : (task, status) ∈ schedule.toReport.statuses ↔
      task ∈ graph.names ∧ status = (schedule.statuses.get? task).getD .cancelled := by
  simp only [toReport, h.graph_eq, List.mem_map, Prod.mk.injEq]
  constructor
  · rintro ⟨name, hmem, rfl, rfl⟩
    exact ⟨hmem, rfl⟩
  · rintro ⟨hmem, rfl⟩
    exact ⟨task, hmem, rfl, rfl⟩

/-- **How a task ended**: there is a verdict on it, or it was never started, because one that it
needs has failed or because the build stopped. -/
theorem Tracks.status_cases (h : Tracks graph limit schedule history) (hover : schedule.Over)
    {task : TaskName} {status : Status} (hstatus : (task, status) ∈ schedule.toReport.statuses) :
    (∃ verdict, (task, verdict) ∈ history.verdicts ∧ status = verdict.status ∧
      ∀ f ∈ history.failures, ¬graph.Needs task f.1) ∨
    (task ∉ history.starts ∧ ∃ cause, status = .poisoned cause ∧
      History.Culprit graph history.failures task cause) ∨
    (task ∉ history.starts ∧ status = .cancelled ∧
      ∀ f ∈ history.failures, ¬graph.Needs task f.1) := by
  obtain ⟨-, rfl⟩ := (mem_statuses_toReport h).mp hstatus
  by_cases hstarted : task ∈ history.starts
  · obtain ⟨verdict, hverdict⟩ := h.ended_of_started hover hstarted
    refine .inl ⟨verdict, hverdict, ?_, fun f hf hneeds => ?_⟩
    · rw [h.statuses.of_verdict task verdict hverdict, Option.getD_some]
    · exact h.orderly.not_failed (h.orderly.mem_successes_of_needs hneeds hstarted) f.2
        (History.mem_failures.mp hf)
  · have hopen : task ∉ history.verdicts.map (·.1) := fun hmem =>
      hstarted (h.orderly.verdicts_started task hmem)
    cases hget : schedule.statuses.get? task with
    | some status => exact .inr (.inl ⟨hstarted, h.statuses.culprit task status hopen hget⟩)
    | none =>
      refine .inr (.inr ⟨hstarted, rfl, fun f hf hneeds => ?_⟩)
      have hsome := h.statuses.of_needs task f hf hneeds
      rw [hget] at hsome
      cases hsome

end Schedule

/-- What the status of a task in a report **says** about the history of the build. -/
structure StatusExact {ω : Type} (graph : TaskGraph ω) (history : History) (report : Report)
    (task : TaskName) (status : Status) : Prop where
  /-- The task is done exactly if it was started and its run returned something. -/
  success : status = .completed ∨ status = .skipped ↔
    task ∈ history.starts ∧ ∃ product stopping, history.Returned task (.ok product) stopping
  /-- It was skipped exactly if what it returned was up to date. -/
  skipped : status = .skipped ↔ task ∈ history.starts ∧
    ∃ product, product.upToDate = true ∧ ∃ stopping, history.Returned task (.ok product) stopping
  /-- Where its run was that of a job which makes some cache calls, it was skipped exactly if the
  run returned something, at least one of the calls did, and all calls that did were reused. -/
  calls : ∀ (place : Place) (session : Session) (job : Job Output) calls stopping,
    Job.Calls place job { session with lines := [], reuses := [] } calls →
    history.Returned task (session.perform job).1 stopping →
    (status = .skipped ↔ (∃ product, (session.perform job).1 = .ok product) ∧
      (∃ execution, .ok execution ∈ calls) ∧
      ∀ execution, .ok execution ∈ calls → execution.upToDate = true)
  /-- It failed exactly if it was started and its run failed, other than by giving up after the
  build was asked to stop. -/
  failed : ∀ reason, status = .failed reason ↔ task ∈ history.starts ∧
    ∃ failure, failure.message = reason ∧ ∃ stopping,
      history.Returned task (.error failure) stopping ∧ ¬(failure = .cancelled ∧ stopping = true)
  /-- It is poisoned exactly if a task that it needs failed. -/
  poisoned : (∃ cause, status = .poisoned cause) ↔
    ∃ d reason, graph.Needs task d ∧ (d, .failed reason) ∈ report.statuses
  /-- A poisoned task was never started, and its cause is the first of those to fail. -/
  culprit : ∀ cause, status = .poisoned cause →
    task ∉ history.starts ∧ History.Culprit graph history.failures task cause
  /-- In all other cases it is cancelled. -/
  cancelled : status = .cancelled ↔
    ¬(task ∈ history.starts ∧ ∃ product stopping, history.Returned task (.ok product) stopping) ∧
    ¬(task ∈ history.starts ∧ ∃ failure stopping,
      history.Returned task (.error failure) stopping ∧ ¬(failure = .cancelled ∧ stopping = true)) ∧
    ¬∃ d reason, graph.Needs task d ∧ (d, .failed reason) ∈ report.statuses

namespace Schedule

variable {ω : Type} {graph : TaskGraph ω} {limit : Nat} {schedule : Schedule ω}
  {history : History} {task : TaskName} {status : Status}

theorem Tracks.status_eq (h : Tracks graph limit schedule history)
    (hstatus : (task, status) ∈ schedule.toReport.statuses) {verdict : Verdict}
    (hverdict : (task, verdict) ∈ history.verdicts) : status = verdict.status := by
  obtain ⟨-, rfl⟩ := (mem_statuses_toReport h).mp hstatus
  rw [h.statuses.of_verdict task verdict hverdict, Option.getD_some]

theorem Tracks.exists_verdict (h : Tracks graph limit schedule history) (hover : schedule.Over)
    (hstatus : (task, status) ∈ schedule.toReport.statuses)
    (hpoisoned : ∀ cause, status ≠ .poisoned cause) (hcancelled : status ≠ .cancelled) :
    ∃ verdict, (task, verdict) ∈ history.verdicts ∧ verdict.status = status := by
  rcases h.status_cases hover hstatus with
    ⟨verdict, hverdict, heq, -⟩ | ⟨-, cause, heq, -⟩ | ⟨-, heq, -⟩
  · exact ⟨verdict, hverdict, heq.symm⟩
  · exact absurd heq (hpoisoned cause)
  · exact absurd heq hcancelled

theorem Tracks.done_iff (h : Tracks graph limit schedule history) (hover : schedule.Over)
    (hstatus : (task, status) ∈ schedule.toReport.statuses) :
    status = .completed ∨ status = .skipped ↔
      ∃ product, (task, .succeeded product) ∈ history.verdicts := by
  constructor
  · intro hdone
    obtain ⟨verdict, hverdict, heq⟩ := h.exists_verdict hover hstatus
      (by rcases hdone with rfl | rfl <;> simp) (by rcases hdone with rfl | rfl <;> simp)
    cases verdict with
    | succeeded product => exact ⟨product, hverdict⟩
    | failed failure => rcases hdone with rfl | rfl <;> cases heq
    | stopped => rcases hdone with rfl | rfl <;> cases heq
  · rintro ⟨product, hverdict⟩
    rw [h.status_eq hstatus hverdict]
    cases hfresh : product.upToDate <;> simp [Verdict.status, hfresh]

theorem Tracks.exists_product (h : Tracks graph limit schedule history) (hover : schedule.Over)
    (hsuccess : schedule.toReport.isSuccess = true) (htask : task ∈ graph.names) :
    ∃ product, (task, .succeeded product) ∈ history.verdicts := by
  have hstatus := (mem_statuses_toReport h).2 ⟨htask, rfl⟩
  refine (h.done_iff hover hstatus).1 ?_
  have hall := List.all_eq_true.1 (Bool.and_eq_true_iff.1 hsuccess).2 _ hstatus
  generalize (schedule.statuses.get? task).getD .cancelled = status at hall
  cases status <;> simp_all [Status.isSuccess]

theorem Tracks.skipped_iff (h : Tracks graph limit schedule history) (hover : schedule.Over)
    (hstatus : (task, status) ∈ schedule.toReport.statuses) :
    status = .skipped ↔
      ∃ product, product.upToDate = true ∧ (task, .succeeded product) ∈ history.verdicts := by
  constructor
  · intro hskipped
    obtain ⟨product, hverdict⟩ := (h.done_iff hover hstatus).mp (.inr hskipped)
    have heq := h.status_eq hstatus hverdict
    refine ⟨product, ?_, hverdict⟩
    by_contra hfresh
    rw [hskipped, Verdict.status, if_neg hfresh] at heq
    cases heq
  · rintro ⟨product, hfresh, hverdict⟩
    rw [h.status_eq hstatus hverdict, Verdict.status, if_pos hfresh]

theorem Tracks.failed_iff (h : Tracks graph limit schedule history) (hover : schedule.Over)
    (hstatus : (task, status) ∈ schedule.toReport.statuses) (reason : String) :
    status = .failed reason ↔
      ∃ failure, failure.message = reason ∧ (task, .failed failure) ∈ history.verdicts := by
  constructor
  · rintro rfl
    obtain ⟨verdict, hverdict, heq⟩ := h.exists_verdict hover hstatus (by simp) (by simp)
    cases verdict with
    | succeeded product =>
      rw [Verdict.status] at heq
      split at heq <;> cases heq
    | failed failure => exact ⟨failure, Status.failed.inj heq, hverdict⟩
    | stopped => cases heq
  · rintro ⟨failure, rfl, hverdict⟩
    exact h.status_eq hstatus hverdict

theorem Tracks.exists_failure_iff (h : Tracks graph limit schedule history)
    (hover : schedule.Over) :
    (∃ failure, (task, failure) ∈ history.failures) ↔
      ∃ reason, (task, .failed reason) ∈ schedule.toReport.statuses := by
  simp only [History.mem_failures]
  constructor
  · rintro ⟨failure, hverdict⟩
    have hstarted := h.orderly.verdicts_started task (List.mem_map_of_mem (f := (·.1)) hverdict)
    refine ⟨failure.message, (mem_statuses_toReport h).mpr
      ⟨h.orderly.starts_mem task hstarted, ?_⟩⟩
    rw [h.statuses.of_verdict task _ hverdict]
    rfl
  · rintro ⟨reason, hstatus⟩
    obtain ⟨failure, -, hverdict⟩ := (h.failed_iff hover hstatus reason).mp rfl
    exact ⟨failure, hverdict⟩

theorem Tracks.poisoned_iff (h : Tracks graph limit schedule history) (hover : schedule.Over)
    (hstatus : (task, status) ∈ schedule.toReport.statuses) :
    (∃ cause, status = .poisoned cause) ↔
      ∃ d reason, graph.Needs task d ∧ (d, .failed reason) ∈ schedule.toReport.statuses := by
  have hfailures : (∃ d reason, graph.Needs task d ∧
      (d, .failed reason) ∈ schedule.toReport.statuses) ↔
      ∃ f ∈ history.failures, graph.Needs task f.1 := by
    simp only [exists_and_left, ← h.exists_failure_iff hover]
    exact ⟨fun ⟨d, hneeds, failure, hmem⟩ => ⟨(d, failure), hmem, hneeds⟩,
      fun ⟨f, hmem, hneeds⟩ => ⟨f.1, hneeds, f.2, hmem⟩⟩
  rw [hfailures]
  rcases h.status_cases hover hstatus with
    ⟨verdict, -, rfl, hnone⟩ | ⟨-, cause, rfl, before, failure, after, heq, hneeds, -⟩ |
      ⟨-, rfl, hnone⟩
  · exact ⟨fun ⟨cause, heq⟩ => absurd heq (verdict.status_ne_poisoned cause),
      fun ⟨f, hf, hneeds⟩ => absurd hneeds (hnone f hf)⟩
  · exact ⟨fun _ => ⟨(cause, failure), by simp [heq], hneeds⟩, fun _ => ⟨cause, rfl⟩⟩
  · exact ⟨fun ⟨cause, heq⟩ => absurd heq (by simp),
      fun ⟨f, hf, hneeds⟩ => absurd hneeds (hnone f hf)⟩

/-- **Every status is exact** when a build is over. -/
theorem Tracks.statusExact (h : Tracks graph limit schedule history) (hover : schedule.Over)
    (hstatus : (task, status) ∈ schedule.toReport.statuses) :
    StatusExact graph history schedule.toReport task status := by
  have hstarted : ∀ verdict, (task, verdict) ∈ history.verdicts → task ∈ history.starts :=
    fun verdict hverdict =>
      h.orderly.verdicts_started task (List.mem_map_of_mem (f := (·.1)) hverdict)
  have hsuccess : status = .completed ∨ status = .skipped ↔
      task ∈ history.starts ∧ ∃ product stopping, history.Returned task (.ok product) stopping := by
    simp only [← History.succeeded_mem_verdicts]
    rw [h.done_iff hover hstatus]
    exact ⟨fun ⟨product, hverdict⟩ => ⟨hstarted _ hverdict, product, hverdict⟩,
      fun hright => hright.2⟩
  have hskipped : status = .skipped ↔ task ∈ history.starts ∧
      ∃ product, product.upToDate = true ∧
        ∃ stopping, history.Returned task (.ok product) stopping := by
    simp only [← History.succeeded_mem_verdicts]
    rw [h.skipped_iff hover hstatus]
    exact ⟨fun ⟨product, hfresh, hverdict⟩ => ⟨hstarted _ hverdict, product, hfresh, hverdict⟩,
      fun hright => hright.2⟩
  have hfailed : ∀ reason, status = .failed reason ↔ task ∈ history.starts ∧
      ∃ failure, failure.message = reason ∧ ∃ stopping,
        history.Returned task (.error failure) stopping ∧
          ¬(failure = .cancelled ∧ stopping = true) := by
    intro reason
    simp only [← History.failed_mem_verdicts]
    rw [h.failed_iff hover hstatus]
    exact ⟨fun ⟨failure, hreason, hverdict⟩ => ⟨hstarted _ hverdict, failure, hreason, hverdict⟩,
      fun hright => hright.2⟩
  have hpoisoned := h.poisoned_iff hover hstatus
  refine ⟨hsuccess, hskipped, ?_, hfailed, hpoisoned, ?_, ?_⟩
  · intro place session job calls stopping hcalls hreturned
    rw [← Session.upToDate_perform_iff hcalls, hskipped]
    constructor
    · rintro ⟨-, product, hfresh, other, hother⟩
      exact ⟨product, h.orderly.returned_ok hother hreturned, hfresh⟩
    · rintro ⟨product, heq, hfresh⟩
      rw [heq] at hreturned
      exact ⟨hstarted _ (History.succeeded_mem_verdicts.mpr ⟨stopping, hreturned⟩), product, hfresh,
        stopping, hreturned⟩
  · rintro cause rfl
    rcases h.status_cases hover hstatus with
      ⟨verdict, -, heq, -⟩ | ⟨hfresh, other, heq, hculprit⟩ | ⟨-, heq, -⟩
    · exact absurd heq.symm (verdict.status_ne_poisoned cause)
    · exact ⟨hfresh, Status.poisoned.inj heq ▸ hculprit⟩
    · cases heq
  · have hfailure : (∃ reason, status = .failed reason) ↔ task ∈ history.starts ∧
        ∃ failure stopping, history.Returned task (.error failure) stopping ∧
          ¬(failure = .cancelled ∧ stopping = true) := by
      simp only [hfailed]
      exact ⟨fun ⟨_, hmem, failure, _, hreturned⟩ => ⟨hmem, failure, hreturned⟩,
        fun ⟨hmem, failure, hreturned⟩ => ⟨_, hmem, failure, rfl, hreturned⟩⟩
    rw [← hsuccess, ← hfailure, ← hpoisoned]
    cases status <;> simp

end Schedule

namespace TaskGraph

variable {ω σ : Type}

/-- **The statuses of a report are exact**, for every build of a graph made from declarations: there
is one for each task, in registration order, and it says how the task ended or why it was not run;
the root cause is the first task to fail. -/
theorem statuses_are_exact {builder : GraphBuilder ω} (hdeclared : builder.Declared)
    {graph : TaskGraph ω} (hbuild : builder.build = .ok graph) (runner : Schedule.Runner ω σ)
    (limit : Nat) (state : σ) :
    (graph.execute runner limit state).1.statuses.map (·.1) = builder.tasks.map (·.name) ∧
      (builder.tasks.map (·.name)).Nodup ∧
      (∀ task status, (task, status) ∈ (graph.execute runner limit state).1.statuses →
        StatusExact graph (graph.history runner limit state)
          (graph.execute runner limit state).1 task status) ∧
      (graph.execute runner limit state).1.rootCause =
        (graph.history runner limit state).failures.head? ∧
      ((graph.execute runner limit state).1.rootCause.isSome ↔
        ∃ task reason, (task, .failed reason) ∈
          (graph.execute runner limit state).1.statuses) := by
  obtain ⟨schedule, htracks, hover, hreport⟩ :=
    (hdeclared.wellFormed hbuild).tracks_execute runner limit state
  rw [hreport]
  refine ⟨?_, hdeclared.names_nodup, fun task status hstatus => htracks.statusExact hover hstatus,
    htracks.rootCause_eq, ?_⟩
  · rw [← GraphBuilder.names_of_build hbuild, ← htracks.graph_eq, Schedule.toReport, List.map_map]
    exact List.map_id _
  · simp only [← htracks.exists_failure_iff hover]
    change schedule.rootCause.isSome ↔ _
    rw [htracks.rootCause_eq, List.isSome_head?]
    refine ⟨fun hne => ?_, fun ⟨_, _, hmem⟩ => List.ne_nil_of_mem hmem⟩
    obtain ⟨⟨task, failure⟩, hmem⟩ := List.exists_mem_of_ne_nil _ hne
    exact ⟨task, failure, hmem⟩

/-- The small build with room for two tasks, one of which fails: the task that depends on it is
poisoned, and the other one is completed. -/
theorem statuses_are_exact_small :
    (small.execute (.breaking "lib") 2 ()).1.statuses =
        [(⟨"lib"⟩, .failed "broken"), (⟨"app"⟩, .poisoned ⟨"lib"⟩), (⟨"docs"⟩, .completed)] ∧
      StatusExact small (small.history (.breaking "lib") 2 ())
        (small.execute (.breaking "lib") 2 ()).1 ⟨"app"⟩ (.poisoned ⟨"lib"⟩) :=
  ⟨rfl, (statuses_are_exact GraphBuilder.declared_small GraphBuilder.build_small
    (.breaking "lib") 2 ()).2.2.1 _ _ (.tail _ (.head _))⟩

end TaskGraph

/-! ### The end of a build -/

namespace Schedule

variable {ω σ : Type} {graph : TaskGraph ω} {limit : Nat} {schedule : Schedule ω}
  {history : History}

/-- **Every task succeeds** if none fails and the build is not asked to stop: a task whose
dependencies have succeeded was started, since nothing is ready any more. -/
theorem Tracks.mem_successes (hgraph : graph.WellFormed) (h : Tracks graph limit schedule history)
    (hover : schedule.Over) (hfailures : history.failures = []) (hstop : ¬history.StopSeen) :
    ∀ task ∈ graph.names, task ∈ history.successes := by
  have hready : schedule.ready = [] := by
    refine hover.2.resolve_left fun hstopped => ?_
    rw [isStopped, h.rootCause_eq, hfailures, List.head?_nil, Option.isSome_none,
      Bool.false_or] at hstopped
    exact hstop (h.cancelled_iff.mp hstopped)
  refine hgraph.induction fun task hmem hdone => ?_
  have hstarted : task ∈ history.starts := by
    by_contra hfresh
    have := (h.counts.mem_ready task).mpr ⟨hmem, hfresh, hdone⟩
    rw [hready] at this
    cases this
  obtain ⟨verdict, hverdict⟩ := h.ended_of_started hover hstarted
  cases verdict with
  | succeeded product => exact History.mem_successes.mpr ⟨product, hverdict⟩
  | failed failure =>
    have := History.mem_failures.mpr hverdict
    rw [hfailures] at this
    cases this
  | stopped => exact absurd (.inr ⟨task, hverdict⟩) hstop

section Reports

variable {task : TaskName}

/-- **The report has every result** that the build has kept of its tasks. -/
theorem get?_results_toReport {result : TaskResult} (htask : task ∈ schedule.graph.names)
    (hresult : schedule.results.get? task = some result) :
    schedule.toReport.results.get? task = some result := by
  change TaskTable.get? task (schedule.graph.names.filterMap fun name =>
    (schedule.results.get? name).map fun result => (name, result)) = _
  generalize schedule.graph.names = names at htask
  induction names with
  | nil => cases htask
  | cons name rest ih =>
    by_cases heq : name = task
    · subst heq
      simp [hresult, TaskTable.get?]
    · have hrest := ih ((List.mem_cons.1 htask).resolve_left (Ne.symm heq))
      cases hother : schedule.results.get? name with
      | none => simpa [hother] using hrest
      | some other => simpa [hother, TaskTable.get?, heq] using hrest

/-- In a build that succeeds **no task has failed**. -/
theorem Tracks.failures_of_isSuccess (h : Tracks graph limit schedule history)
    (hsuccess : schedule.toReport.isSuccess = true) : history.failures = [] := by
  have hroot : schedule.rootCause.isNone = true := (Bool.and_eq_true_iff.1 hsuccess).1
  rw [h.rootCause_eq, Option.isNone_iff_eq_none] at hroot
  exact List.head?_eq_none_iff.1 hroot

/-- If no task has failed, **the result of one that has succeeded** is what it produced. -/
theorem Tracks.exists_result (h : Tracks graph limit schedule history)
    (hfailures : history.failures = []) {product : Product}
    (hverdict : (task, .succeeded product) ∈ history.verdicts) :
    ∃ result, schedule.toReport.results.get? task = some result ∧
      result.output = product.output := by
  have hkept : task ∈ history.kept := by
    rw [History.kept_eq_successes hfailures]
    exact History.mem_successes.2 ⟨product, hverdict⟩
  obtain ⟨result, hresult⟩ := Option.isSome_iff_exists.1 ((h.results.mem_iff task).2 hkept)
  obtain ⟨-, ⟨other, hother, houtput⟩, -⟩ := h.results.result task result hresult
  obtain rfl : other = product := by
    cases h.orderly.verdict_unique hother hverdict
    rfl
  have htask : task ∈ schedule.graph.names := by
    rw [h.graph_eq]
    exact h.orderly.starts_mem task
      (h.orderly.verdicts_started task (List.mem_map_of_mem (f := (·.1)) hverdict))
  exact ⟨result, get?_results_toReport htask hresult, houtput⟩

/-- **What is reported of a task that has succeeded**, if none has failed: its status and its
result. -/
theorem Tracks.reported (h : Tracks graph limit schedule history)
    (hfailures : history.failures = []) {product : Product}
    (hverdict : (task, .succeeded product) ∈ history.verdicts) :
    (task, if product.upToDate then .skipped else .completed) ∈ schedule.toReport.statuses ∧
      ∃ result, schedule.toReport.results.get? task = some result ∧
        result.output = product.output := by
  have hstarted := h.orderly.verdicts_started task (List.mem_map_of_mem (f := (·.1)) hverdict)
  refine ⟨(mem_statuses_toReport h).2 ⟨h.orderly.starts_mem task hstarted, ?_⟩,
    h.exists_result hfailures hverdict⟩
  rw [h.statuses.of_verdict task _ hverdict, Option.getD_some, Verdict.status]

/-- **A build succeeds** if no task has failed and it was not asked to stop: every task has
succeeded, and its status and its result are in the report. -/
theorem Tracks.success (h : Tracks graph limit schedule history) (hgraph : graph.WellFormed)
    (hover : schedule.Over) (hfailures : history.failures = [])
    (hgo : schedule.toReport.cancelled = false) :
    schedule.toReport.isSuccess = true ∧
      ∀ task ∈ graph.names, ∃ product, (task, .succeeded product) ∈ history.verdicts ∧
        (task, if product.upToDate then .skipped else .completed) ∈ schedule.toReport.statuses ∧
        ∃ result, schedule.toReport.results.get? task = some result ∧
          result.output = product.output := by
  have hstop : ¬history.StopSeen := by
    rw [← h.cancelled_iff]
    exact Bool.eq_false_iff.1 hgo
  have hverdicts : ∀ task ∈ graph.names, ∃ product, (task, .succeeded product) ∈ history.verdicts :=
    fun task htask =>
      History.mem_successes.1 (h.mem_successes hgraph hover hfailures hstop task htask)
  refine ⟨?_, fun task htask => ?_⟩
  · rw [Report.isSuccess, Bool.and_eq_true, List.all_eq_true]
    refine ⟨?_, ?_⟩
    · change schedule.rootCause.isNone = true
      rw [h.rootCause_eq, hfailures]
      rfl
    · rintro ⟨task, status⟩ hmem
      obtain ⟨product, hverdict⟩ := hverdicts task ((mem_statuses_toReport h).1 hmem).1
      rcases (h.done_iff hover hmem).2 ⟨product, hverdict⟩ with rfl | rfl <;> rfl
  · obtain ⟨product, hverdict⟩ := hverdicts task htask
    exact ⟨product, hverdict, h.reported hfailures hverdict⟩

end Reports

end Schedule

namespace TaskGraph

variable {ω σ : Type}

end TaskGraph

end BuildMatrix
