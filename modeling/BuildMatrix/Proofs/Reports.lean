import BuildMatrix.Proofs.Guarantees

/-!
# What a report says about its build

The results of a report mirror the graph: there is one for each success that was settled before the
first failure, and below it stand the report's own results for what the task depends on, and so on
upwards.

A report has two verdicts on the whole build, `Report.isSuccess` and `Report.error?`. They are read
off different parts of it, and they agree unless the build was asked to stop too late to keep a task
from succeeding: such a build is a success by the first and cancelled by the second.
-/

namespace BuildMatrix

variable {ω : Type}

/-! ### Results -/

/-- The success of a task was **settled before any failure**: when its end was noted, no task had
failed. -/
def History.SettledFirst (history : History) (task : TaskName) : Prop :=
  ∃ (before : History) (ending : Ending) (stopping : Bool) (product : Product),
    before ++ [.ended ending stopping] <+: history ∧
      ending.task = task ∧ ending.outcome = .ok product ∧ before.failures = []

namespace History

variable {history : History} {task : TaskName}

theorem settledFirst_append (moment : Moment) :
    SettledFirst (history ++ [moment]) task ↔
      history.SettledFirst task ∨ history.failures = [] ∧
        ∃ ending stopping product, moment = .ended ending stopping ∧ ending.task = task ∧
          ending.outcome = .ok product := by
  constructor
  · rintro ⟨before, ending, stopping, product, hinit, htask, houtcome, hfailures⟩
    rcases List.prefix_concat_iff.mp hinit with heq | hold
    · obtain ⟨rfl, hmoment⟩ := List.append_inj' heq rfl
      exact .inr ⟨hfailures, ending, stopping, product, (List.singleton_inj.mp hmoment).symm,
        htask, houtcome⟩
    · exact .inl ⟨before, ending, stopping, product, hold, htask, houtcome, hfailures⟩
  · rintro (⟨before, ending, stopping, product, hold, hrest⟩ |
      ⟨hfailures, ending, stopping, product, rfl, htask, houtcome⟩)
    · exact ⟨before, ending, stopping, product, hold.trans (List.prefix_append ..), hrest⟩
    · exact ⟨history, ending, stopping, product, List.prefix_rfl, htask, houtcome, hfailures⟩

/-- **The tasks whose results are kept** are those whose success was settled first. -/
theorem mem_kept (history : History) : task ∈ history.kept ↔ history.SettledFirst task := by
  induction history using List.reverseRecOn with
  | nil => simp [kept, verdicts, SettledFirst]
  | append_singleton earlier moment ih =>
    rw [settledFirst_append, ← ih]
    by_cases hfailures : failures earlier = []
    · by_cases hsuccess : ∃ ending stopping product, moment = .ended ending stopping ∧
          ending.outcome = .ok product
      · obtain ⟨ending, stopping, product, rfl, houtcome⟩ := hsuccess
        have hverdict := (@Ending.verdict_eq_succeeded_iff ending stopping product).mpr houtcome
        have hnone : failures (earlier ++ [.ended ending stopping]) = [] := by
          simp [hfailures, hverdict]
        rw [kept_eq_successes hnone, kept_eq_successes hfailures]
        simp [hverdict, houtcome, hfailures, eq_comm]
      · rw [kept_append_of_not_succeeded]
        · refine (or_iff_left ?_).symm
          rintro ⟨-, ending, stopping, product, hmoment, -, houtcome⟩
          exact hsuccess ⟨ending, stopping, product, hmoment, houtcome⟩
        · intro other product hverdict
          cases moment with
          | ended ending stopping =>
            exact hsuccess ⟨ending, stopping, product, rfl,
              Ending.verdict_eq_succeeded_iff.mp (Prod.mk.inj (Option.some.inj hverdict)).2⟩
          | looked => cases hverdict
          | finished => cases hverdict
          | started => cases hverdict
    · simp [kept_append_of_failures earlier moment hfailures, hfailures]

end History

/-- The results of a report **mirror the graph** of the tasks, by what each was declared to depend
on. -/
structure Report.Mirrors (declared : Dependencies) (history : History) (report : Report) :
    Prop where
  /-- There is at most one result for a task. -/
  keys_nodup : (report.results.map (·.1)).Nodup
  /-- There is one exactly if the success of the task was settled before the first failure. -/
  mem_iff : ∀ task, (∃ result, (task, result) ∈ report.results) ↔ history.SettledFirst task
  /-- It carries the name of the task and what the task returned. -/
  content : ∀ task result, (task, result) ∈ report.results → result.task = task ∧
    ∃ product stopping, history.Returned task (.ok product) stopping ∧
      result.output = product.output
  /-- Its dependencies are the report's own results for all that the task was declared to depend on,
  in the order of their declaration. -/
  dependencies : ∀ task result, (task, result) ∈ report.results →
    List.Forall₂ (fun d below => (d, below) ∈ report.results) (declared.of task)
      result.dependencies
  /-- Everything upstream of it is a result of the report too. -/
  upstream : ∀ task result, (task, result) ∈ report.results → ∀ below,
    Relation.ReflTransGen (fun above below => below ∈ TaskResult.dependencies above) result below →
      (below.task, below) ∈ report.results

theorem forall₂_of_map_eq_map_some {α β : Type} {f : α → Option β} {l : List α} {m : List β}
    (h : l.map f = m.map some) : List.Forall₂ (fun a b => f a = some b) l m := by
  induction l generalizing m with
  | nil =>
    obtain rfl := List.map_eq_nil_iff.mp h.symm
    exact .nil
  | cons a rest ih =>
    obtain ⟨b, others, rfl, hb, hothers⟩ := List.map_eq_cons_iff.mp h.symm
    exact .cons hb.symm (ih hothers.symm)

namespace Schedule

variable {graph : TaskGraph ω} {limit : Nat} {schedule : Schedule ω}
  {history : History} {task : TaskName} {result : TaskResult}

theorem mem_results_toReport (h : Tracks graph limit schedule history) :
    (task, result) ∈ schedule.toReport.results ↔
      task ∈ graph.names ∧ schedule.results.get? task = some result := by
  simp only [toReport, h.graph_eq, List.mem_filterMap, Option.map_eq_some_iff, Prod.mk.injEq]
  constructor
  · rintro ⟨name, hmem, found, hfound, rfl, rfl⟩
    exact ⟨hmem, hfound⟩
  · rintro ⟨hmem, hresult⟩
    exact ⟨task, hmem, result, hresult, rfl, rfl⟩

theorem keys_results_sublist (schedule : Schedule ω) :
    (schedule.toReport.results.map (·.1)).Sublist schedule.graph.names := by
  change ((schedule.graph.names.filterMap fun name =>
    (schedule.results.get? name).map fun result => (name, result)).map (·.1)).Sublist _
  induction schedule.graph.names with
  | nil => exact .slnil
  | cons name rest ih =>
    cases hresult : schedule.results.get? name with
    | none => simpa [hresult] using ih.cons name
    | some result => simpa [hresult] using ih

theorem Tracks.mem_names_of_result (h : Tracks graph limit schedule history)
    (hresult : schedule.results.get? task = some result) : task ∈ graph.names := by
  obtain ⟨-, ⟨product, hverdict, -⟩, -⟩ := h.results.result task result hresult
  exact h.orderly.starts_mem task
    (h.orderly.mem_starts_of_mem_successes (History.mem_successes.mpr ⟨product, hverdict⟩))

theorem Tracks.forall₂_dependencies (h : Tracks graph limit schedule history)
    (hmem : (task, result) ∈ schedule.toReport.results) :
    List.Forall₂ (fun d below => (d, below) ∈ schedule.toReport.results)
      (graph.dependenciesOf task) result.dependencies := by
  obtain ⟨-, hresult⟩ := (mem_results_toReport h).mp hmem
  refine (forall₂_of_map_eq_map_some (h.results.result task result hresult).2.2).imp ?_
  intro d below hbelow
  exact (mem_results_toReport h).mpr ⟨h.mem_names_of_result hbelow, hbelow⟩

theorem Tracks.mem_results_of_mem_dependencies (h : Tracks graph limit schedule history)
    {below : TaskResult} (hmem : (task, result) ∈ schedule.toReport.results)
    (hbelow : below ∈ result.dependencies) : (below.task, below) ∈ schedule.toReport.results := by
  obtain ⟨-, hresult⟩ := (mem_results_toReport h).mp hmem
  have hfound := List.mem_map_of_mem (f := some) hbelow
  rw [← (h.results.result task result hresult).2.2] at hfound
  obtain ⟨d, -, hd⟩ := List.mem_map.mp hfound
  rw [(h.results.result d below hd).1]
  exact (mem_results_toReport h).mpr ⟨h.mem_names_of_result hd, hd⟩

end Schedule

namespace TaskGraph

variable {σ : Type}

/-- **The results of a report mirror the graph**, in every build of a graph made from
declarations. -/
theorem results_mirror_the_graph {builder : GraphBuilder ω} (hdeclared : builder.Declared)
    {graph : TaskGraph ω} (hbuild : builder.build = .ok graph) (runner : Schedule.Runner ω σ)
    (limit : Nat) (state : σ) :
    (graph.execute runner limit state).1.Mirrors builder.edges
      (graph.history runner limit state) := by
  have hgraph := hdeclared.wellFormed hbuild
  obtain ⟨schedule, htracks, -, hreport⟩ := hgraph.tracks_execute runner limit state
  rw [hreport]
  refine ⟨?_, fun task => ?_, fun task result hmem => ?_, fun task result hmem => ?_,
    fun task result hmem below habove => ?_⟩
  · refine (Schedule.keys_results_sublist schedule).nodup ?_
    exact htracks.graph_eq ▸ hgraph.names_nodup
  · rw [← History.mem_kept, ← htracks.results.mem_iff, Option.isSome_iff_exists]
    refine exists_congr fun result => ?_
    rw [Schedule.mem_results_toReport htracks]
    exact ⟨fun h => h.2, fun h => ⟨htracks.mem_names_of_result h, h⟩⟩
  · obtain ⟨-, hresult⟩ := (Schedule.mem_results_toReport htracks).mp hmem
    obtain ⟨htask, ⟨product, hverdict, houtput⟩, -⟩ := htracks.results.result task result hresult
    obtain ⟨stopping, hreturned⟩ := History.succeeded_mem_verdicts.mp hverdict
    exact ⟨htask, product, stopping, hreturned, houtput⟩
  · rw [← hdeclared.dependenciesOf_eq hbuild ((Schedule.mem_results_toReport htracks).mp hmem).1]
    exact htracks.forall₂_dependencies hmem
  · -- Along the chain of dependencies, each result is one of the report by the one above it.
    induction habove with
    | refl =>
      obtain ⟨-, hresult⟩ := (Schedule.mem_results_toReport htracks).mp hmem
      rwa [(htracks.results.result task result hresult).1]
    | tail _ hbelow ih => exact htracks.mem_results_of_mem_dependencies ih hbelow

/-- The small build. Where all succeed, the result of the task that depends on another holds the
result of that one. Where a task without dependencies fails while another runs, the success of the
latter is in its status, and its result is not kept. -/
theorem results_mirror_the_graph_small :
    (small.execute .successful 2 ()).1.results =
        [(⟨"lib"⟩, ⟨⟨"lib"⟩, .none, []⟩), (⟨"app"⟩, ⟨⟨"app"⟩, .none, [⟨⟨"lib"⟩, .none, []⟩]⟩),
          (⟨"docs"⟩, ⟨⟨"docs"⟩, .none, []⟩)] ∧
      (small.execute .successful 2 ()).1.Mirrors GraphBuilder.small.edges
        (small.history .successful 2 ()) ∧
      (small.execute (.breaking "docs") 2 ()).1.statuses =
        [(⟨"lib"⟩, .completed), (⟨"app"⟩, .completed), (⟨"docs"⟩, .failed "broken")] ∧
      ¬(small.history (.breaking "docs") 2 ()).SettledFirst ⟨"app"⟩ := by
  refine ⟨rfl, results_mirror_the_graph GraphBuilder.declared_small GraphBuilder.build_small
    .successful 2 (), rfl, fun hfirst => ?_⟩
  obtain ⟨result, hmem⟩ := ((results_mirror_the_graph GraphBuilder.declared_small
    GraphBuilder.build_small (.breaking "docs") 2 ()).mem_iff _).mpr hfirst
  have hresults : (small.execute (.breaking "docs") 2 ()).1.results =
    [(⟨"lib"⟩, ⟨⟨"lib"⟩, .none, []⟩)] := rfl
  rw [hresults] at hmem
  simp at hmem

end TaskGraph

/-! ### Verdicts on a whole build -/

theorem Tally.cancelled_ofStatuses (statuses : List Status) :
    (ofStatuses statuses).cancelled = statuses.countP (· = .cancelled) := by
  suffices h : ∀ tally : Tally, (statuses.foldl add tally).cancelled =
      tally.cancelled + statuses.countP (· = .cancelled) by
    simpa [ofStatuses] using h {}
  induction statuses with
  | nil => exact fun tally => rfl
  | cons status rest ih =>
    intro tally
    rw [List.foldl_cons, ih, List.countP_cons]
    cases status <;> simp [add, Nat.add_assoc, Nat.add_comm]

namespace Schedule

variable {graph : TaskGraph ω} {limit : Nat} {schedule : Schedule ω}
  {history : History}

theorem Tracks.isSuccess_iff (h : Tracks graph limit schedule history) (hover : schedule.Over) :
    schedule.toReport.isSuccess = true ↔ ∀ task ∈ graph.names, task ∈ history.successes := by
  constructor
  · intro hsuccess task htask
    exact History.mem_successes.mpr (h.exists_product hover hsuccess htask)
  · intro hall
    have hfailures : history.failures = [] := by
      refine List.eq_nil_iff_forall_not_mem.mpr fun ⟨task, failure⟩ hmem => ?_
      have hverdict := History.mem_failures.mp hmem
      have hstarted := h.orderly.verdicts_started task (List.mem_map_of_mem (f := (·.1)) hverdict)
      exact h.orderly.not_failed (hall task (h.orderly.starts_mem task hstarted)) failure hverdict
    have hcause : schedule.toReport.rootCause = none := by
      change schedule.rootCause = none
      rw [h.rootCause_eq, hfailures, List.head?_nil]
    rw [Report.isSuccess, hcause, Option.isNone_none, Bool.true_and, List.all_eq_true]
    rintro ⟨task, status⟩ hstatus
    have htask := ((mem_statuses_toReport h).mp hstatus).1
    rcases (h.done_iff hover hstatus).mpr (History.mem_successes.mp (hall task htask)) with
      rfl | rfl <;> rfl

/-- There is **no error** exactly if every task has succeeded and the build has not seen that it was
asked to stop. -/
theorem Tracks.error?_eq_none_iff (h : Tracks graph limit schedule history)
    (hgraph : graph.WellFormed) (hover : schedule.Over) :
    schedule.toReport.error? = none ↔
      schedule.toReport.isSuccess = true ∧ ¬history.StopSeen := by
  rw [← h.cancelled_iff]
  change _ ↔ _ ∧ ¬schedule.toReport.cancelled = true
  constructor
  · intro hnone
    have hcause : schedule.toReport.rootCause = none := by
      rw [Report.error?] at hnone
      split at hnone
      · cases hnone
      · assumption
    have hgo : ¬schedule.toReport.cancelled = true := fun hstop => by
      simp [Report.error?, hcause, hstop] at hnone
    refine ⟨(h.isSuccess_iff hover).mpr ?_, hgo⟩
    have hfailures : history.failures = [] := by
      rw [← List.head?_eq_none_iff, ← h.rootCause_eq]
      exact hcause
    exact h.mem_successes hgraph hover hfailures fun hseen => hgo (h.cancelled_iff.mpr hseen)
  · rintro ⟨hsuccess, hgo⟩
    obtain ⟨hcause, hall⟩ := Bool.and_eq_true_iff.mp hsuccess
    have hcount : schedule.toReport.tally.cancelled = 0 := by
      rw [Report.tally, Tally.cancelled_ofStatuses, List.countP_eq_zero]
      rintro _ hmem hcancelled
      obtain ⟨entry, hentry, rfl⟩ := List.mem_map.mp hmem
      have hdone := List.all_eq_true.mp hall entry hentry
      rw [of_decide_eq_true hcancelled] at hdone
      cases hdone
    rw [Report.error?, Option.isNone_iff_eq_none.mp hcause]
    simp [Bool.eq_false_iff.mpr hgo, hcount]

end Schedule

namespace TaskGraph

variable {σ : Type}

/-- **The two verdicts on a build**, for every build of a graph made from declarations. There is no
error exactly if the build is a success and has not seen that it was asked to stop. It is a success
exactly if every task returned something; so the verdicts differ exactly if it was asked to stop
and every task returned something all the same, and then the error is that it was cancelled. -/
theorem no_error_iff_success_and_no_stop {builder : GraphBuilder ω}
    (hdeclared : builder.Declared) {graph : TaskGraph ω} (hbuild : builder.build = .ok graph)
    (runner : Schedule.Runner ω σ) (limit : Nat) (state : σ) :
    ((graph.execute runner limit state).1.error? = none ↔
        (graph.execute runner limit state).1.isSuccess = true ∧
          ¬(graph.history runner limit state).StopSeen) ∧
      ((graph.execute runner limit state).1.isSuccess = true ↔
        ∀ task ∈ builder.tasks, ∃ product stopping,
          (graph.history runner limit state).Returned task.name (.ok product) stopping) ∧
      ((graph.execute runner limit state).1.isSuccess = true →
        (graph.history runner limit state).StopSeen →
          (graph.execute runner limit state).1.error? = some .cancelled) := by
  have hgraph := hdeclared.wellFormed hbuild
  obtain ⟨schedule, htracks, hover, hreport⟩ := hgraph.tracks_execute runner limit state
  rw [hreport]
  refine ⟨htracks.error?_eq_none_iff hgraph hover, ?_, fun hsuccess hseen => ?_⟩
  · rw [htracks.isSuccess_iff hover, GraphBuilder.names_of_build hbuild, List.forall_mem_map]
    simp only [History.mem_successes, History.succeeded_mem_verdicts]
  · have hcause := Option.isNone_iff_eq_none.mp (Bool.and_eq_true_iff.mp hsuccess).1
    have hstop : schedule.toReport.cancelled = true := htracks.cancelled_iff.mpr hseen
    simp [Report.error?, hcause, hstop]

end TaskGraph

/-- A runner for which tasks succeed in the order of their starts, until the build is **asked to
stop** when a number of them have ended. -/
def Schedule.Runner.stoppedAfter {ω : Type} (count : Nat) : Runner ω Nat where
  launch ended _ _ := ended
  await ended running :=
    ({ task := running.headD ⟨""⟩, outcome := .ok { output := .none } }, ended + 1)
  isStopping ended := count ≤ ended

namespace TaskGraph

/-- The small build, asked to stop after its second task: it is no success, and cancelled. -/
theorem no_error_iff_success_and_no_stop_small :
    (small.execute (.stoppedAfter 2) 1 0).1.statuses =
        [(⟨"lib"⟩, .completed), (⟨"app"⟩, .cancelled), (⟨"docs"⟩, .completed)] ∧
      ((small.execute (.stoppedAfter 2) 1 0).1.error? = none ↔
        (small.execute (.stoppedAfter 2) 1 0).1.isSuccess = true ∧
          ¬(small.history (.stoppedAfter 2) 1 0).StopSeen) :=
  ⟨rfl, (no_error_iff_success_and_no_stop GraphBuilder.declared_small GraphBuilder.build_small
    (.stoppedAfter 2) 1 0).1⟩

/-- **The verdicts differ** on the small build that is asked to stop when its last task ends: every
task is completed, so that it is a success, and yet it is cancelled. -/
theorem stopped_success_small :
    (small.execute (.stoppedAfter 3) 1 0).1.isSuccess = true ∧
      (small.execute (.stoppedAfter 3) 1 0).1.error? = some .cancelled ∧
      ¬((small.execute (.stoppedAfter 3) 1 0).1.error? = none ↔
        (small.execute (.stoppedAfter 3) 1 0).1.isSuccess = true) := by
  have hsuccess : (small.execute (.stoppedAfter 3) 1 0).1.isSuccess = true := rfl
  have herror : (small.execute (.stoppedAfter 3) 1 0).1.error? = some .cancelled := rfl
  refine ⟨hsuccess, herror, fun hagree => ?_⟩
  rw [hagree.mpr hsuccess] at herror
  cases herror

end TaskGraph

end BuildMatrix
