import BuildMatrix.Proofs.Guarantees

/-!
# The order of a build does not matter

Two builds of a graph may start and end its tasks in different orders, with room for different
numbers of them. If what a task comes to is decided by the results it is started with, they still
agree on everything that they both do: a task that both start is handed the same results, with all
that lies below them, by induction along the dependencies. So a task that fails in one build cannot
have succeeded in the other, and one build has a failure if the other has; without one, both build
everything, and their reports are the same.
-/

namespace BuildMatrix

open History

/-- What a task comes to is **decided by the results** it is started with. -/
def History.DecidedBy (history : History) (outcome : TaskName → List TaskResult → Outcome) : Prop :=
  ∀ task given, .started task given ∈ history →
    ∀ returned stopping, history.Returned task returned stopping → returned = outcome task given

namespace Schedule

variable {ω : Type} {graph : TaskGraph ω} {outcome : TaskName → List TaskResult → Outcome}
  {limit limit' : Nat} {schedule schedule' : Schedule ω} {history history' : History}
  {task : TaskName} {given : List TaskResult} {product : Product} {result : TaskResult}

theorem Tracks.exists_failed_iff (h : Tracks graph limit schedule history)
    (hover : schedule.Over) :
    (∃ task reason, (task, .failed reason) ∈ schedule.toReport.statuses) ↔
      history.failures ≠ [] := by
  simp only [← h.exists_failure_iff hover]
  constructor
  · rintro ⟨task, failure, hmem⟩
    exact List.ne_nil_of_mem hmem
  · intro hne
    obtain ⟨⟨task, failure⟩, hmem⟩ := List.exists_mem_of_ne_nil _ hne
    exact ⟨task, failure, hmem⟩

theorem outcome_eq_ok (hdecided : history.DecidedBy outcome)
    (hgiven : .started task given ∈ history)
    (hverdict : (task, .succeeded product) ∈ history.verdicts) :
    outcome task given = .ok product := by
  obtain ⟨stopping, hreturned⟩ := succeeded_mem_verdicts.mp hverdict
  exact (hdecided task given hgiven _ stopping hreturned).symm

theorem outcome_eq_error (hdecided : history.DecidedBy outcome)
    (hgiven : .started task given ∈ history) {failure : Failure}
    (hverdict : (task, .failed failure) ∈ history.verdicts) :
    outcome task given = .error failure := by
  obtain ⟨stopping, hreturned, -⟩ := failed_mem_verdicts.mp hverdict
  exact (hdecided task given hgiven _ stopping hreturned).symm

theorem Reached.result_eq (hgraph : graph.WellFormed) (h : Reached graph limit schedule history)
    (hdecided : history.DecidedBy outcome) (hresult : schedule.results.get? task = some result) :
    ∃ given product, .started task given ∈ history ∧ outcome task given = .ok product ∧
      result = { task, output := product.output, dependencies := given } := by
  have hgiven := h.started_dependencies hgraph hresult
  obtain ⟨htask, ⟨product, hverdict, houtput⟩, -⟩ :=
    (h.tracks hgraph).results.result task result hresult
  refine ⟨result.dependencies, product, hgiven, outcome_eq_ok hdecided hgiven hverdict, ?_⟩
  cases result with
  | mk name output dependencies =>
    subst htask houtput
    rfl

section TwoBuilds

variable (hgraph : graph.WellFormed) (h : Reached graph limit schedule history)
  (h' : Reached graph limit' schedule' history') (hdecided : history.DecidedBy outcome)
  (hdecided' : history'.DecidedBy outcome)

include hgraph h h' hdecided hdecided'

theorem Reached.result_unique
    (hsame : ∀ given given', .started task given ∈ history → .started task given' ∈ history' →
      given = given') {result' : TaskResult} (hresult : schedule.results.get? task = some result)
    (hresult' : schedule'.results.get? task = some result') : result = result' := by
  obtain ⟨given, product, hgiven, hproduct, rfl⟩ := h.result_eq hgraph hdecided hresult
  obtain ⟨given', product', hgiven', hproduct', rfl⟩ := h'.result_eq hgraph hdecided' hresult'
  obtain rfl := hsame given given' hgiven hgiven'
  obtain rfl := Except.ok.inj (hproduct.symm.trans hproduct')
  rfl

/-- **Both builds hand a task the same results**, with all that lies below them. -/
theorem Reached.given_unique :
    ∀ task ∈ graph.names, ∀ given given', .started task given ∈ history →
      .started task given' ∈ history' → given = given' := by
  refine hgraph.induction fun task _ ih given given' hgiven hgiven' => ?_
  have hinj : Function.Injective (some : TaskResult → Option TaskResult) :=
    fun _ _ => Option.some.inj
  have hhanded := h.handed hgraph hgiven
  have hhanded' := h'.handed hgraph hgiven'
  apply List.map_injective_iff.mpr hinj
  rw [← hhanded, ← hhanded']
  refine List.map_congr_left fun d hd => ?_
  -- both builds have a result for the dependency, made from what the dependency was started with
  obtain ⟨result, -, hresult⟩ := List.mem_map.mp (hhanded ▸ List.mem_map_of_mem hd)
  obtain ⟨result', -, hresult'⟩ := List.mem_map.mp (hhanded' ▸ List.mem_map_of_mem hd)
  obtain rfl := h.result_unique hgraph h' hdecided hdecided' (ih d hd) hresult.symm hresult'.symm
  rw [← hresult, ← hresult']

/-- What a task comes to in one build it comes to **in the other**, if both start it. -/
theorem Reached.verdict_unique {verdict : Verdict}
    (hverdict : (task, .succeeded product) ∈ history.verdicts)
    (hverdict' : (task, verdict) ∈ history'.verdicts) (hgo : ¬history'.StopSeen) :
    verdict = .succeeded product := by
  have horderly := (h.tracks hgraph).orderly
  have horderly' := (h'.tracks hgraph).orderly
  have hstarted := horderly.verdicts_started task (List.mem_map_of_mem (f := (·.1)) hverdict)
  obtain ⟨given, hgiven⟩ := mem_starts.mp hstarted
  obtain ⟨given', hgiven'⟩ := mem_starts.mp
    (horderly'.verdicts_started task (List.mem_map_of_mem (f := (·.1)) hverdict'))
  obtain rfl := h.given_unique hgraph h' hdecided hdecided' task
    (horderly.starts_mem task hstarted) given given' hgiven hgiven'
  have hok := outcome_eq_ok hdecided hgiven hverdict
  cases verdict with
  | succeeded product' =>
    rw [outcome_eq_ok hdecided' hgiven' hverdict'] at hok
    rw [Except.ok.inj hok]
  | failed failure =>
    rw [outcome_eq_error hdecided' hgiven' hverdict'] at hok
    cases hok
  | stopped => exact absurd (.inr ⟨task, hverdict'⟩) hgo

theorem Reached.failures_eq_nil (hgo : ¬history'.StopSeen)
    (hall : ∀ task ∈ graph.names, task ∈ history.successes) : history'.failures = [] := by
  have horderly' := (h'.tracks hgraph).orderly
  refine List.eq_nil_iff_forall_not_mem.mpr fun ⟨task, failure⟩ hfailed => ?_
  have hverdict' := mem_failures.mp hfailed
  have hmem := horderly'.starts_mem task
    (horderly'.verdicts_started task (List.mem_map_of_mem (f := (·.1)) hverdict'))
  obtain ⟨product, hverdict⟩ := mem_successes.mp (hall task hmem)
  cases h.verdict_unique hgraph h' hdecided hdecided' hverdict hverdict' hgo

/-- Two builds that succeed everywhere **report the same**. -/
theorem Reached.toReport_congr (hgo : ¬history'.StopSeen)
    (hall : ∀ task ∈ graph.names, task ∈ history.successes)
    (hall' : ∀ task ∈ graph.names, task ∈ history'.successes)
    (hfailures : history.failures = []) (hfailures' : history'.failures = []) :
    schedule.toReport.statuses = schedule'.toReport.statuses ∧
      schedule.toReport.results = schedule'.toReport.results := by
  have htracks := h.tracks hgraph
  have htracks' := h'.tracks hgraph
  simp only [toReport, htracks.graph_eq, htracks'.graph_eq]
  constructor
  · refine List.map_congr_left fun task hmem => ?_
    obtain ⟨product, hverdict⟩ := mem_successes.mp (hall task hmem)
    obtain ⟨product', hverdict'⟩ := mem_successes.mp (hall' task hmem)
    rw [htracks.statuses.of_verdict task _ hverdict, htracks'.statuses.of_verdict task _ hverdict',
      h.verdict_unique hgraph h' hdecided hdecided' hverdict hverdict' hgo]
  · refine List.filterMap_congr fun task hmem => ?_
    have hkept : task ∈ history.kept := kept_eq_successes hfailures ▸ hall task hmem
    have hkept' : task ∈ history'.kept := kept_eq_successes hfailures' ▸ hall' task hmem
    obtain ⟨result, hresult⟩ := Option.isSome_iff_exists.mp
      ((htracks.results.mem_iff task).mpr hkept)
    obtain ⟨result', hresult'⟩ := Option.isSome_iff_exists.mp
      ((htracks'.results.mem_iff task).mpr hkept')
    rw [hresult, hresult', h.result_unique hgraph h' hdecided hdecided'
      (h.given_unique hgraph h' hdecided hdecided' task hmem) hresult hresult']

end TwoBuilds

end Schedule

/-- A runner whose tasks come to what is **decided by the results** they are started with. Its state
is what every task comes to; `choose` says which of the running tasks ends next. -/
def Schedule.Runner.deciding {ω : Type} (outcome : TaskName → List TaskResult → Outcome)
    (choose : List TaskName → TaskName) : Runner ω (TaskTable Outcome) where
  launch state task results := state.set task.name (outcome task.name results)
  await state running :=
    let task := if running.contains (choose running) then choose running else running.headD ⟨""⟩
    ({ task, outcome := (state.get? task).getD (.error .cancelled) }, state)
  isStopping _ := false

namespace TaskGraph

variable {ω σ σ' : Type}

/-- **The order of a build does not matter**, for every graph made from declarations whose tasks
come to what is decided by the results they are started with. Take any two builds of it that are not
asked to stop, with any two limits, in which tasks end in any two orders. One has a task that failed
exactly if the other has; and if none failed, the reports have the same statuses and the same
results, with all that lies below them. -/
theorem order_does_not_matter {builder : GraphBuilder ω} (hdeclared : builder.Declared)
    {graph : TaskGraph ω} (hbuild : builder.build = .ok graph)
    (outcome : TaskName → List TaskResult → Outcome)
    (runner : Schedule.Runner ω σ) (limit : Nat) (state : σ)
    (runner' : Schedule.Runner ω σ') (limit' : Nat) (state' : σ')
    (hdecided : (graph.history runner limit state).DecidedBy outcome)
    (hgo : ¬(graph.history runner limit state).StopSeen)
    (hdecided' : (graph.history runner' limit' state').DecidedBy outcome)
    (hgo' : ¬(graph.history runner' limit' state').StopSeen) :
    ((∃ task reason, (task, .failed reason) ∈ (graph.execute runner limit state).1.statuses) ↔
      ∃ task reason, (task, .failed reason) ∈ (graph.execute runner' limit' state').1.statuses) ∧
    ((∀ task reason, (task, .failed reason) ∉ (graph.execute runner limit state).1.statuses) →
      (graph.execute runner limit state).1.statuses =
        (graph.execute runner' limit' state').1.statuses ∧
      (graph.execute runner limit state).1.results =
        (graph.execute runner' limit' state').1.results) := by
  have hgraph := hdeclared.wellFormed hbuild
  obtain ⟨schedule, hreached, hover, hreport⟩ := hgraph.reached_execute runner limit state
  obtain ⟨schedule', hreached', hover', hreport'⟩ := hgraph.reached_execute runner' limit' state'
  rw [hreport, hreport']
  have hfailed := (hreached.tracks hgraph).exists_failed_iff hover
  have hfailed' := (hreached'.tracks hgraph).exists_failed_iff hover'
  have hall := (hreached.tracks hgraph).mem_successes hgraph hover
  have hall' := (hreached'.tracks hgraph).mem_successes hgraph hover'
  have hiff : (graph.history runner limit state).failures = [] ↔
      (graph.history runner' limit' state').failures = [] :=
    ⟨fun hnone => hreached.failures_eq_nil hgraph hreached' hdecided hdecided' hgo'
        (hall hnone hgo),
      fun hnone => hreached'.failures_eq_nil hgraph hreached hdecided' hdecided hgo
        (hall' hnone hgo')⟩
  refine ⟨?_, fun hnone => ?_⟩
  · rw [hfailed, hfailed', not_iff_not, hiff]
  · have hnil := not_not.mp (mt hfailed.mpr (by simpa using hnone))
    have hnil' := hiff.mp hnil
    exact hreached.toReport_congr hgraph hreached' hdecided hdecided' hgo' (hall hnil hgo)
      (hall' hnil' hgo') hnil hnil'

/-- What the three tasks of the small graph come to: the one that gets a result has work to do, the
others are up to date. -/
def smallOutcome (_ : TaskName) (given : List TaskResult) : Outcome :=
  .ok { output := .none, upToDate := given.isEmpty }

/-- The small build one task at a time, and with room for two where the last to start is the first
to end: the tasks end in different orders, and the reports are the same. -/
theorem order_does_not_matter_small :
    (small.history (.deciding smallOutcome (·.headD ⟨""⟩)) 1 []).verdicts.map (·.1) =
      [⟨"lib"⟩, ⟨"docs"⟩, ⟨"app"⟩] ∧
    (small.history (.deciding smallOutcome (·.getLastD ⟨""⟩)) 2 []).verdicts.map (·.1) =
      [⟨"docs"⟩, ⟨"lib"⟩, ⟨"app"⟩] ∧
    (small.execute (.deciding smallOutcome (·.headD ⟨""⟩)) 1 []).1.statuses =
      (small.execute (.deciding smallOutcome (·.getLastD ⟨""⟩)) 2 []).1.statuses ∧
    (small.execute (.deciding smallOutcome (·.headD ⟨""⟩)) 1 []).1.results =
      (small.execute (.deciding smallOutcome (·.getLastD ⟨""⟩)) 2 []).1.results := by
  let ended (name : String) (given : List TaskResult) : Moment :=
    .ended { task := ⟨name⟩, outcome := smallOutcome ⟨name⟩ given } false
  let lib : TaskResult := ⟨⟨"lib"⟩, .none, []⟩
  -- the two builds, moment by moment
  have hone : small.history (.deciding smallOutcome (·.headD ⟨""⟩)) 1 [] =
      [.looked false, .finished [], .started ⟨"lib"⟩ [], .finished [], ended "lib" [],
        .looked false, .finished [], .started ⟨"docs"⟩ [], .finished [], ended "docs" [],
        .looked false, .finished [], .started ⟨"app"⟩ [lib], ended "app" [lib],
        .looked false] := rfl
  have htwo : small.history (.deciding smallOutcome (·.getLastD ⟨""⟩)) 2 [] =
      [.looked false, .finished [], .started ⟨"lib"⟩ [], .finished [], .started ⟨"docs"⟩ [],
        ended "docs" [], .looked false, ended "lib" [], .looked false, .finished [],
        .started ⟨"app"⟩ [lib], ended "app" [lib], .looked false] := rfl
  have hstatuses : (small.execute (.deciding smallOutcome (·.headD ⟨""⟩)) 1 []).1.statuses =
      [(⟨"lib"⟩, .skipped), (⟨"app"⟩, .completed), (⟨"docs"⟩, .skipped)] := rfl
  refine ⟨rfl, rfl, (order_does_not_matter GraphBuilder.declared_small GraphBuilder.build_small
    smallOutcome _ 1 [] _ 2 [] ?_ ?_ ?_ ?_).2 ?_⟩
  · rw [hone]
    rintro task given hgiven returned stopping ⟨ending, hended, rfl, rfl⟩
    simp [ended] at hgiven hended
    rcases hended with ⟨rfl, -⟩ | ⟨rfl, -⟩ | ⟨rfl, -⟩ <;> simp_all
  · rw [hone]
    simp [ended, StopSeen, verdicts, Moment.verdict?, Ending.verdict, smallOutcome]
  · rw [htwo]
    rintro task given hgiven returned stopping ⟨ending, hended, rfl, rfl⟩
    simp [ended] at hgiven hended
    rcases hended with ⟨rfl, -⟩ | ⟨rfl, -⟩ | ⟨rfl, -⟩ <;> simp_all
  · rw [htwo]
    simp [ended, StopSeen, verdicts, Moment.verdict?, Ending.verdict, smallOutcome]
  · rw [hstatuses]
    simp

end TaskGraph

end BuildMatrix
