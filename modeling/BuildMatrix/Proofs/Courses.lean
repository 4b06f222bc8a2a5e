import BuildMatrix.Proofs.Settling

/-!
# The course of a build

A build begins with nothing started, and there are four things that can happen next: it looks
whether it was asked to stop, learns that tasks have done their work, starts the first task that is
ready, or takes note of the end of a running task. What each of these keeps holds at the end of
every build, by an induction that knows nothing of the loops.

The first thing proved in this way is what tasks are handed: the results with which a task was
started are those that the build has for its dependencies ever after, since nothing that a started
task depends on ends again.
-/

namespace BuildMatrix

variable {task : TaskName}

theorem History.mem_starts {history : History} :
    task ∈ history.starts ↔ ∃ given, .started task given ∈ history := by
  rw [starts, List.mem_filterMap]
  constructor
  · rintro ⟨moment, hmem, heq⟩
    cases moment with
    | started other given => exact ⟨given, Option.some.inj heq ▸ hmem⟩
    | looked => cases heq
    | finished => cases heq
    | ended => cases heq
  · rintro ⟨given, hmem⟩
    exact ⟨_, hmem, rfl⟩

namespace Schedule

variable {ω : Type}

/-- What a build **can come to know**, with the history that leads there. -/
inductive Reached (graph : TaskGraph ω) (limit : Nat) : Schedule ω → History → Prop
  | initial : Reached graph limit (initial graph limit) []
  | look {schedule : Schedule ω} {history : History} (stopping : Bool) :
      Reached graph limit schedule history →
      Reached graph limit (schedule.look stopping) (history ++ [.looked stopping])
  | finish {schedule : Schedule ω} {history : History} (tasks : List TaskName) :
      Reached graph limit schedule history →
      Reached graph limit (schedule.finish tasks) (history ++ [.finished tasks])
  /-- The first task that is ready starts, while there is room and the build goes on. -/
  | start {schedule : Schedule ω} {history : History} {task : TaskName} {rest : List TaskName}
      {node : Node ω} :
      Reached graph limit schedule history → schedule.ready = task :: rest →
      graph.get? task = some node → schedule.busy.length < schedule.limit →
      schedule.isStopped = false →
      Reached graph limit { schedule.start node with ready := rest }
        (history ++ [.started task (schedule.dependencyResults node)])
  | settle {schedule : Schedule ω} {history : History} {ending : Ending} (stopping : Bool) :
      Reached graph limit schedule history → ending.task ∈ schedule.running →
      Reached graph limit (schedule.settle stopping ending)
        (history ++ [.ended ending stopping])

namespace Reached

variable {graph : TaskGraph ω} {limit : Nat} {schedule : Schedule ω} {history : History}

theorem tracks (hgraph : graph.WellFormed) (h : Reached graph limit schedule history) :
    Tracks graph limit schedule history := by
  induction h with
  | initial => exact tracks_initial hgraph limit
  | look stopping _ ih => exact ih.look stopping
  | finish tasks _ ih => exact ih.finish tasks
  | start _ hready hnode hroom hgo ih => exact ih.start hready hnode hroom hgo
  | settle stopping _ hrunning ih => exact ih.settle hgraph hrunning stopping

end Reached

/-! ### What tasks are handed -/

section Handed

variable {graph : TaskGraph ω} {limit : Nat} {schedule : Schedule ω} {history : History}

theorem results_poison (cause : TaskName) (fuel : Nat) (queue : List TaskName)
    (schedule : Schedule ω) : (poison cause fuel queue schedule).results = schedule.results := by
  obtain ⟨statuses, reported, hpoison⟩ := poison_frame cause fuel queue schedule
  rw [hpoison]

theorem results_fail (schedule : Schedule ω) (node : Node ω) (failure : Failure)
    (duration : Duration) : (schedule.fail node failure duration).results = schedule.results :=
  results_poison ..

theorem get?_results_settle (hgraph : graph.WellFormed) (h : Tracks graph limit schedule history)
    {ending : Ending} (hrunning : ending.task ∈ schedule.running) (stopping : Bool)
    (hne : ending.task ≠ task) :
    (schedule.settle stopping ending).results.get? task = schedule.results.get? task := by
  have hstarted := ((h.roster.mem_iff ending.task).mp hrunning).1
  obtain ⟨node, hnode⟩ := TaskGraph.exists_get?_eq_some (h.orderly.starts_mem _ hstarted)
  rw [settle_eq (h.graph_eq ▸ hnode)]
  cases ending.verdict stopping with
  | succeeded product =>
    obtain ⟨waiting, reported, heq, -⟩ := succeed_eq hgraph (schedule.leave ending) hnode product
      ending.duration
    simp only [heq]
    split
    · rfl
    · exact (TaskTable.get?_set ..).trans (if_neg hne)
  | failed failure => exact congrArg (TaskTable.get? task) (results_fail ..)
  | stopped => rfl

/-- A task that is ready is handed **one result for each dependency**, as long as the build goes
on. -/
theorem Tracks.map_get?_dependencyResults (h : Tracks graph limit schedule history) {node : Node ω}
    (hready : task ∈ schedule.ready) (hnode : graph.get? task = some node)
    (hgo : schedule.isStopped = false) :
    (graph.dependenciesOf task).map schedule.results.get? =
      (schedule.dependencyResults node).map some := by
  obtain ⟨-, -, hdone⟩ := (h.counts.mem_ready task).mp hready
  obtain ⟨hfailures, -⟩ := h.of_not_isStopped hgo
  rw [TaskGraph.dependenciesOf_eq hnode] at hdone ⊢
  rw [dependencyResults, List.map_filterMap_some_eq_filter_map_isSome, List.filter_eq_self.mpr]
  intro found hfound
  obtain ⟨d, hd, rfl⟩ := List.mem_map.mp hfound
  rw [h.results.mem_iff, History.kept_eq_successes hfailures]
  exact hdone d hd

/-- **What a task was started with** is what the build has for its dependencies, from its start to
the end of the build. -/
theorem Reached.handed (hgraph : graph.WellFormed) (h : Reached graph limit schedule history)
    {given : List TaskResult} (hstarted : .started task given ∈ history) :
    (graph.dependenciesOf task).map schedule.results.get? = given.map some := by
  induction h with
  | initial => cases hstarted
  | look stopping _ ih => exact ih (by simpa using hstarted)
  | finish tasks _ ih => exact ih (by simpa using hstarted)
  | start hreached hready hnode _ hgo ih =>
    rcases List.mem_append.mp hstarted with hbefore | hnow
    · exact ih hbefore
    · obtain ⟨rfl, rfl⟩ := Moment.started.inj (List.mem_singleton.mp hnow)
      exact (hreached.tracks hgraph).map_get?_dependencyResults (hready ▸ List.mem_cons_self ..)
        hnode hgo
  | @settle schedule history ending stopping hreached hrunning ih =>
    have htracks := hreached.tracks hgraph
    have hbefore : .started task given ∈ history := by simpa using hstarted
    rw [← ih hbefore]
    refine List.map_congr_left fun d hd => ?_
    -- what a started task depends on has ended, so that it is not what ends now
    have hdone := htracks.orderly.starts_after task
      (History.mem_starts.mpr ⟨given, hbefore⟩) d hd
    refine get?_results_settle hgraph htracks hrunning stopping fun heq => ?_
    exact History.notMem_successes ((htracks.roster.mem_iff _).mp hrunning).2 (heq ▸ hdone)

theorem Reached.started_dependencies (hgraph : graph.WellFormed)
    (h : Reached graph limit schedule history) {result : TaskResult}
    (hresult : schedule.results.get? task = some result) :
    .started task result.dependencies ∈ history := by
  have htracks := h.tracks hgraph
  obtain ⟨-, ⟨product, hverdict, -⟩, hdependencies⟩ := htracks.results.result task result hresult
  have hstarted := htracks.orderly.verdicts_started task
    (List.mem_map_of_mem (f := (·.1)) hverdict)
  obtain ⟨given, hgiven⟩ := History.mem_starts.mp hstarted
  have hsame := (h.handed hgraph hgiven).symm.trans hdependencies
  have hinj : Function.Injective (some : TaskResult → Option TaskResult) :=
    fun _ _ => Option.some.inj
  exact List.map_injective_iff.mpr hinj hsame ▸ hgiven

end Handed

end Schedule

end BuildMatrix
