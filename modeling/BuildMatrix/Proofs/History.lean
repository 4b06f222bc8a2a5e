import BuildMatrix.Schedule
import Mathlib.Data.List.TakeWhile
import Mathlib.Tactic.Tauto

/-!
# Histories of builds

What happens in a build, moment by moment: the build looks whether it was asked to stop, learns that
tasks have done their work, starts a task with some results, and takes note of the end of a task. A
runner can be made to keep this history beside its own state (`Runner.recorded`); it then runs
everything as before, so that the history is that of the build it would have run anyway.

How the end of a task is taken is its *verdict*: a task that gives up after the build was asked to
stop has not failed.
-/

namespace BuildMatrix

variable {failure : Failure}

/-! ### Moments -/

/-- How the end of a task is **taken**. -/
inductive Verdict where
  | succeeded (product : Product)
  | failed (failure : Failure)
  /-- The task gave up because the build was asked to stop. -/
  | stopped

def Verdict.isFailure : Verdict → Bool
  | failed _ => true
  | _ => false

/-- The **verdict** on the end of a task; `stopping` says whether the build was asked to stop. -/
def Ending.verdict (ending : Ending) (stopping : Bool) : Verdict :=
  match ending.outcome with
  | .ok product => .succeeded product
  | .error .cancelled => if stopping then .stopped else .failed .cancelled
  | .error failure => .failed failure

theorem Ending.verdict_eq_succeeded_iff {ending : Ending} {stopping : Bool} {product : Product} :
    ending.verdict stopping = .succeeded product ↔ ending.outcome = .ok product := by
  rw [verdict]
  split
  · rename_i heq
    rw [heq, Verdict.succeeded.injEq, Except.ok.injEq]
  · rename_i heq
    cases stopping <;> simp [heq]
  · rename_i heq
    simp [heq]

/-- A task has failed exactly if its outcome is a failure, and not that it gave up after the build
was asked to stop. -/
theorem Ending.verdict_eq_failed_iff {ending : Ending} {stopping : Bool} :
    ending.verdict stopping = .failed failure ↔
      ending.outcome = .error failure ∧ ¬(failure = .cancelled ∧ stopping = true) := by
  rw [verdict]
  split
  · rename_i heq
    simp [heq]
  · rename_i heq
    cases stopping <;> simp [heq, eq_comm]
  · rename_i other hne heq
    rw [heq, Verdict.failed.injEq, Except.error.injEq]
    exact ⟨fun h => ⟨h, fun hboth => hne (h.trans hboth.1)⟩, fun h => h.1⟩

/-- One **moment** of a build. -/
inductive Moment where
  /-- The build looks whether it was asked to stop. -/
  | looked (stopping : Bool)
  /-- The build learns which of the running tasks have done their work. -/
  | finished (tasks : List TaskName)
  /-- A task starts, with the results of its dependencies. -/
  | started (task : TaskName) (results : List TaskResult)
  /-- The end of a task is noted. -/
  | ended (ending : Ending) (stopping : Bool)

namespace Moment

def start? : Moment → Option TaskName
  | started task _ => some task
  | _ => none

/-- The task that ends at a moment, with the verdict on it. -/
def verdict? : Moment → Option (TaskName × Verdict)
  | ended ending stopping => some (ending.task, ending.verdict stopping)
  | _ => none

/-- The tasks at work after a moment, by those before it. -/
def work (names : List TaskName) : Moment → List TaskName
  | looked _ => names
  | finished tasks => names.filter (· ∉ tasks)
  | started task _ => names ++ [task]
  | ended ending _ => names.erase ending.task

variable {stopping : Bool} {names tasks : List TaskName} {task : TaskName}
  {results : List TaskResult} {ending : Ending}

@[simp] theorem start?_looked : (looked stopping).start? = none := rfl

@[simp] theorem start?_finished : (finished tasks).start? = none := rfl

@[simp] theorem start?_started : (started task results).start? = some task := rfl

@[simp] theorem start?_ended : (ended ending stopping).start? = none := rfl

@[simp] theorem verdict?_looked : (looked stopping).verdict? = none := rfl

@[simp] theorem verdict?_finished : (finished tasks).verdict? = none := rfl

@[simp] theorem verdict?_started : (started task results).verdict? = none := rfl

@[simp] theorem verdict?_ended :
    (ended ending stopping).verdict? = some (ending.task, ending.verdict stopping) := rfl

@[simp] theorem work_looked : (looked stopping).work names = names := rfl

@[simp] theorem work_finished : (finished tasks).work names = names.filter (· ∉ tasks) := rfl

@[simp] theorem work_started : (started task results).work names = names ++ [task] := rfl

@[simp] theorem work_ended : (ended ending stopping).work names = names.erase ending.task := rfl

end Moment

/-- The **history** of a build, moment by moment. -/
abbrev History := List Moment

namespace History

variable {task : TaskName}

def starts (history : History) : List TaskName := history.filterMap Moment.start?

/-- The **verdicts** on the tasks that have ended, in order. -/
def verdicts (history : History) : TaskTable Verdict := history.filterMap Moment.verdict?

def successes (history : History) : List TaskName :=
  history.verdicts.filterMap fun
    | (task, .succeeded _) => some task
    | _ => none

def failures (history : History) : List (TaskName × Failure) :=
  history.verdicts.filterMap fun
    | (task, .failed failure) => some (task, failure)
    | _ => none

/-- The tasks that have succeeded **before the first failure**, in order. -/
def kept (history : History) : List TaskName :=
  (history.verdicts.takeWhile fun e => !e.2.isFailure).filterMap fun
    | (task, .succeeded _) => some task
    | _ => none

/-- The build has **seen that it was asked to stop**: at a look, or by a task that gave up. -/
def StopSeen (history : History) : Prop :=
  .looked true ∈ history ∨ ∃ task, (task, .stopped) ∈ history.verdicts

/-- The tasks that are **at work**: started, not known to be done, and not ended. -/
def working (history : History) : List TaskName := history.foldl Moment.work []

/-- How the **run of a task** ended; `stopping` says whether the build was asked to stop by then. -/
def Returned (history : History) (task : TaskName) (outcome : Outcome) (stopping : Bool) : Prop :=
  ∃ ending, .ended ending stopping ∈ history ∧ ending.task = task ∧ ending.outcome = outcome

variable {history : History}

theorem mem_verdicts {verdict : Verdict} :
    (task, verdict) ∈ history.verdicts ↔
      ∃ ending stopping, .ended ending stopping ∈ history ∧ ending.task = task ∧
        ending.verdict stopping = verdict := by
  rw [verdicts, List.mem_filterMap]
  constructor
  · rintro ⟨moment, hmem, heq⟩
    cases moment with
    | ended ending stopping =>
      obtain ⟨htask, hverdict⟩ := Prod.mk.inj (Option.some.inj heq)
      exact ⟨ending, stopping, hmem, htask, hverdict⟩
    | looked => cases heq
    | finished => cases heq
    | started => cases heq
  · rintro ⟨ending, stopping, hmem, rfl, rfl⟩
    exact ⟨_, hmem, rfl⟩

theorem succeeded_mem_verdicts {product : Product} :
    (task, .succeeded product) ∈ history.verdicts ↔
      ∃ stopping, history.Returned task (.ok product) stopping := by
  simp only [mem_verdicts, Ending.verdict_eq_succeeded_iff, Returned]
  exact exists_comm

/-- A verdict is a failure exactly if the run of the task failed, and did not give up after the
build was asked to stop. -/
theorem failed_mem_verdicts :
    (task, .failed failure) ∈ history.verdicts ↔
      ∃ stopping, history.Returned task (.error failure) stopping ∧
        ¬(failure = .cancelled ∧ stopping = true) := by
  simp only [mem_verdicts, Ending.verdict_eq_failed_iff, Returned]
  rw [exists_comm]
  refine exists_congr fun stopping => ?_
  constructor
  · rintro ⟨ending, hmem, htask, houtcome, hother⟩
    exact ⟨⟨ending, hmem, htask, houtcome⟩, hother⟩
  · rintro ⟨⟨ending, hmem, htask, houtcome⟩, hother⟩
    exact ⟨ending, hmem, htask, houtcome, hother⟩

theorem mem_successes :
    task ∈ history.successes ↔ ∃ product, (task, .succeeded product) ∈ history.verdicts := by
  rw [successes, List.mem_filterMap]
  constructor
  · rintro ⟨⟨name, verdict⟩, hmem, heq⟩
    cases verdict with
    | succeeded product => exact ⟨product, Option.some.inj heq ▸ hmem⟩
    | failed failure => cases heq
    | stopped => cases heq
  · rintro ⟨product, hmem⟩
    exact ⟨_, hmem, rfl⟩

theorem notMem_successes (h : task ∉ history.verdicts.map (·.1)) : task ∉ history.successes := by
  intro hmem
  obtain ⟨product, hverdict⟩ := mem_successes.mp hmem
  exact h (List.mem_map_of_mem (f := (·.1)) hverdict)

theorem mem_failures :
    (task, failure) ∈ history.failures ↔ (task, .failed failure) ∈ history.verdicts := by
  rw [failures, List.mem_filterMap]
  constructor
  · rintro ⟨⟨name, verdict⟩, hmem, heq⟩
    cases verdict with
    | succeeded product => cases heq
    | failed failure =>
      obtain ⟨rfl, rfl⟩ := Prod.mk.inj (Option.some.inj heq)
      exact hmem
    | stopped => cases heq
  · intro hmem
    exact ⟨_, hmem, rfl⟩

theorem failures_eq_nil_iff :
    history.failures = [] ↔ ∀ e ∈ history.verdicts, (!e.2.isFailure) = true := by
  rw [failures, List.filterMap_eq_nil_iff]
  refine forall₂_congr fun e _ => ?_
  obtain ⟨task, _ | _ | _⟩ := e <;> simp [Verdict.isFailure]

theorem kept_eq_successes (h : history.failures = []) : history.kept = history.successes := by
  rw [kept, successes, List.takeWhile_eq_self_iff.mpr (failures_eq_nil_iff.mp h)]

/-! ### One more moment -/

section Append

variable (history)

@[simp] theorem starts_append (moment : Moment) :
    starts (history ++ [moment]) = history.starts ++ moment.start?.toList := by
  cases h : moment.start? <;> simp [starts, h]

@[simp] theorem verdicts_append (moment : Moment) :
    verdicts (history ++ [moment]) = history.verdicts ++ moment.verdict?.toList := by
  cases h : moment.verdict? <;> simp [verdicts, h]

@[simp] theorem working_append (moment : Moment) :
    working (history ++ [moment]) = moment.work history.working := by
  simp [working]

@[simp] theorem successes_append (moment : Moment) :
    successes (history ++ [moment]) =
      history.successes ++ match moment.verdict? with
        | some (task, .succeeded _) => [task]
        | _ => [] := by
  rw [successes, verdicts_append, List.filterMap_append]
  congr 1
  rcases moment.verdict? with _ | ⟨task, _ | _ | _⟩ <;> rfl

@[simp] theorem failures_append (moment : Moment) :
    failures (history ++ [moment]) =
      history.failures ++ match moment.verdict? with
        | some (task, .failed failure) => [(task, failure)]
        | _ => [] := by
  rw [failures, verdicts_append, List.filterMap_append]
  congr 1
  rcases moment.verdict? with _ | ⟨task, _ | _ | _⟩ <;> rfl

theorem kept_append_of_failures (moment : Moment) (h : history.failures ≠ []) :
    kept (history ++ [moment]) = history.kept := by
  have hlength : (history.verdicts.takeWhile fun e => !e.2.isFailure).length ≠
      history.verdicts.length := by
    intro heq
    refine h (failures_eq_nil_iff.mpr (List.takeWhile_eq_self_iff.mp ?_))
    exact (List.takeWhile_sublist _).eq_of_length heq
  rw [kept, verdicts_append, List.takeWhile_append, if_neg hlength, kept]

theorem kept_append_of_not_succeeded (moment : Moment)
    (h : ∀ task product, moment.verdict? ≠ some (task, .succeeded product)) :
    kept (history ++ [moment]) = history.kept := by
  by_cases hfailures : history.failures = []
  · have hall := List.takeWhile_eq_self_iff.mpr (failures_eq_nil_iff.mp hfailures)
    rw [kept, verdicts_append, List.takeWhile_append, if_pos (congrArg _ hall), kept, hall,
      List.filterMap_append]
    refine List.append_right_eq_self.mpr ?_
    rcases hverdict : moment.verdict? with _ | ⟨task, product | failure | _⟩
    · rfl
    · exact absurd hverdict (h task product)
    · rfl
    · rfl
  · exact kept_append_of_failures history moment hfailures

@[simp] theorem stopSeen_append (moment : Moment) :
    StopSeen (history ++ [moment]) ↔
      history.StopSeen ∨ moment = .looked true ∨
        ∃ task, moment.verdict? = some (task, .stopped) := by
  simp only [StopSeen, verdicts_append, List.mem_append, List.mem_singleton, Option.mem_toList,
    exists_or, eq_comm]
  tauto

end Append

end History

/-! ### Keeping the history -/

namespace Schedule.Runner

variable {ω σ : Type}

theorem task_next_mem (runner : Runner ω σ) (state : σ) (first : TaskName)
    (rest : List TaskName) : (runner.next state first rest).1.task ∈ first :: rest := by
  simp only [next]
  split
  · rename_i h
    exact List.contains_iff_mem.mp h
  · exact List.mem_cons_self ..

theorem next_of_mem {runner : Runner ω σ} {state : σ} {first : TaskName} {rest : List TaskName}
    (h : (runner.await state (first :: rest)).1.task ∈ first :: rest) :
    runner.next state first rest = runner.await state (first :: rest) := by
  rw [next]
  simp only [List.contains_iff_mem.mpr h, if_true]

/-- A runner that **keeps the history** beside its state. -/
def recorded (runner : Runner ω σ) : Runner ω (σ × History) where
  launch := fun (state, history) task results =>
    (runner.launch state task results, history ++ [.started task.name results])
  await := fun (state, history) running =>
    match running with
    | [] => ((runner.await state []).1, (runner.await state []).2, history)
    | first :: rest =>
      let (ending, state) := runner.next state first rest
      (ending, state, history ++ [.ended ending (runner.isStopping state)])
  isStopping := fun (state, _) => runner.isStopping state
  finished := fun (state, history) running =>
    let (names, state) := runner.finished state running
    (names, state, history ++ [.finished names])
  proceed := fun (state, history) =>
    let state := runner.proceed state
    (state, history ++ [.looked (runner.isStopping state)])

section Recorded

variable (runner : Runner ω σ) (state : σ) (history : History)

@[simp] theorem launch_recorded (task : Task ω) (results : List TaskResult) :
    runner.recorded.launch (state, history) task results =
      (runner.launch state task results, history ++ [.started task.name results]) :=
  rfl

@[simp] theorem isStopping_recorded :
    runner.recorded.isStopping (state, history) = runner.isStopping state :=
  rfl

@[simp] theorem finished_recorded (running : List TaskName) :
    runner.recorded.finished (state, history) running =
      ((runner.finished state running).1, (runner.finished state running).2,
        history ++ [.finished (runner.finished state running).1]) :=
  rfl

@[simp] theorem proceed_recorded :
    runner.recorded.proceed (state, history) =
      (runner.proceed state, history ++ [.looked (runner.isStopping (runner.proceed state))]) :=
  rfl

@[simp] theorem next_recorded (first : TaskName) (rest : List TaskName) :
    runner.recorded.next (state, history) first rest =
      ((runner.next state first rest).1, (runner.next state first rest).2,
        history ++ [.ended (runner.next state first rest).1
          (runner.isStopping (runner.next state first rest).2)]) := by
  exact next_of_mem (runner.task_next_mem state first rest)

end Recorded

end Schedule.Runner

namespace Schedule

variable {ω σ : Type}

/-! ### One step of the loops -/

section Loops

variable (runner : Runner ω σ) (schedule : Schedule ω) (state : σ)

/-- What a build knows when it is about to start a task. -/
def atStart : Schedule ω := schedule.finish (runner.finished state schedule.running).1

/-- The state of the runner when a task is about to start. -/
def stateAtStart : σ := (runner.finished state schedule.running).2

/-- What a build knows after it looked whether it was asked to stop. -/
def atLook : Schedule ω := schedule.look (runner.isStopping (runner.proceed state))

variable {runner schedule state} {name : TaskName} {rest : List TaskName}

theorem advance_of_stopped (h : (schedule.atLook runner state).isStopped = true) :
    advance runner schedule state = (schedule.atLook runner state, runner.proceed state) := by
  rw [advance]
  exact if_pos h

theorem advance_of_not_stopped (h : ¬(schedule.atLook runner state).isStopped = true) :
    advance runner schedule state =
      launchReady runner (schedule.atLook runner state).ready (schedule.atLook runner state)
        (runner.proceed state) := by
  rw [advance]
  exact if_neg h

theorem launchReady_of_full
    (h : (schedule.atStart runner state).limit ≤ (schedule.atStart runner state).busy.length) :
    launchReady runner (name :: rest) schedule state =
      ({ schedule.atStart runner state with ready := name :: rest },
        schedule.stateAtStart runner state) := by
  rw [launchReady]
  exact if_pos h

theorem launchReady_of_none
    (h : ¬(schedule.atStart runner state).limit ≤ (schedule.atStart runner state).busy.length)
    (hnode : schedule.graph.get? name = none) :
    launchReady runner (name :: rest) schedule state =
      launchReady runner rest (schedule.atStart runner state)
        (schedule.stateAtStart runner state) := by
  rw [launchReady]
  refine (if_neg h).trans ?_
  split
  · rfl
  · next node heq => cases hnode.symm.trans heq

theorem launchReady_of_some {node : Node ω}
    (h : ¬(schedule.atStart runner state).limit ≤ (schedule.atStart runner state).busy.length)
    (hnode : schedule.graph.get? name = some node) :
    launchReady runner (name :: rest) schedule state =
      launchReady runner rest ((schedule.atStart runner state).start node)
        (runner.launch (schedule.stateAtStart runner state) node.task
          ((schedule.atStart runner state).dependencyResults node)) := by
  rw [launchReady]
  refine (if_neg h).trans ?_
  split
  · next heq => cases hnode.symm.trans heq
  · next found heq =>
      obtain rfl := Option.some.inj (hnode.symm.trans heq)
      rfl

end Loops

section Recorded

variable (runner : Runner ω σ) (schedule : Schedule ω) (state : σ) (history : History)

@[simp] theorem atLook_recorded :
    schedule.atLook runner.recorded (state, history) = schedule.atLook runner state :=
  rfl

@[simp] theorem atStart_recorded :
    schedule.atStart runner.recorded (state, history) = schedule.atStart runner state :=
  rfl

@[simp] theorem stateAtStart_recorded :
    schedule.stateAtStart runner.recorded (state, history) =
      (schedule.stateAtStart runner state,
        history ++ [.finished (runner.finished state schedule.running).1]) :=
  rfl

end Recorded

theorem launchReady_recorded (runner : Runner ω σ) (names : List TaskName)
    (schedule : Schedule ω) (state : σ) (history : History) :
    ∃ history', launchReady runner.recorded names schedule (state, history) =
      ((launchReady runner names schedule state).1,
        (launchReady runner names schedule state).2, history') := by
  induction names generalizing schedule state history with
  | nil => exact ⟨history, rfl⟩
  | cons name rest ih =>
    have hat := schedule.atStart_recorded runner state history
    by_cases hfull : (schedule.atStart runner state).limit ≤
        (schedule.atStart runner state).busy.length
    · rw [launchReady_of_full hfull, launchReady_of_full (hat ▸ hfull)]
      exact ⟨_, rfl⟩
    · cases hnode : schedule.graph.get? name with
      | none =>
        rw [launchReady_of_none hfull hnode, launchReady_of_none (hat ▸ hfull) hnode]
        exact ih _ _ _
      | some node =>
        rw [launchReady_of_some hfull hnode, launchReady_of_some (hat ▸ hfull) hnode]
        exact ih _ _ _

theorem advance_recorded (runner : Runner ω σ) (schedule : Schedule ω) (state : σ)
    (history : History) :
    ∃ history', advance runner.recorded schedule (state, history) =
      ((advance runner schedule state).1, (advance runner schedule state).2, history') := by
  have hat := schedule.atLook_recorded runner state history
  by_cases hstopped : (schedule.atLook runner state).isStopped = true
  · rw [advance_of_stopped hstopped, advance_of_stopped (hat ▸ hstopped)]
    exact ⟨_, rfl⟩
  · rw [advance_of_not_stopped hstopped, advance_of_not_stopped (hat ▸ hstopped)]
    exact launchReady_recorded ..

theorem rounds_recorded (runner : Runner ω σ) (fuel : Nat) (schedule : Schedule ω) (state : σ)
    (history : History) :
    ∃ history', rounds runner.recorded fuel schedule (state, history) =
      ((rounds runner fuel schedule state).1, (rounds runner fuel schedule state).2, history') := by
  induction fuel generalizing schedule state history with
  | zero => exact ⟨history, rfl⟩
  | succ fuel ih =>
    obtain ⟨history', hadvance⟩ := advance_recorded runner schedule state history
    simp only [rounds, hadvance]
    split
    · exact ⟨history', rfl⟩
    · simp only [Runner.next_recorded, Runner.isStopping_recorded]
      exact ih _ _ _

end Schedule

namespace TaskGraph

variable {ω σ : Type}

def history (graph : TaskGraph ω) (runner : Schedule.Runner ω σ) (limit : Nat) (state : σ) :
    History :=
  (graph.execute runner.recorded limit (state, [])).2.2.2

/-- **Keeping the history changes nothing else**: the report, the events and what the tasks leave
behind are the same. -/
theorem execute_recorded (graph : TaskGraph ω) (runner : Schedule.Runner ω σ) (limit : Nat)
    (state : σ) :
    graph.execute runner.recorded limit (state, []) =
      ((graph.execute runner limit state).1, (graph.execute runner limit state).2.1,
        (graph.execute runner limit state).2.2, graph.history runner limit state) := by
  obtain ⟨history', hrounds⟩ := Schedule.rounds_recorded runner (graph.size + 1)
    (Schedule.initial graph limit) state []
  simp only [history, execute, hrounds]

end TaskGraph

end BuildMatrix
