import BuildMatrix.Proofs.Guarantees

/-!
# Invariants of runners

What holds between the state of a runner and the history of the build holds to the end, if every
single thing that a runner is asked for keeps it: going on after a round, saying which tasks have
done their work, starting a task and waiting for the end of one. A task is started only when this is
safe, and only tasks that were started and have not ended are waited for.

In particular, if tasks can be seen to be idle until they are started, and to end as the runner
says, then the history of a build says how far its tasks have come.
-/

namespace BuildMatrix

namespace Schedule

variable {ω σ : Type} {graph : TaskGraph ω} {limit : Nat} {runner : Runner ω σ}
  {holds : σ → History → Prop} {going : σ → Prop}

/-- **Each thing that a runner is asked for keeps an invariant** of its state and the history. -/
structure Runner.Upholds (runner : Runner ω σ) (graph : TaskGraph ω)
    (holds : σ → History → Prop) : Prop where
  proceed : ∀ state history, holds state history →
    holds (runner.proceed state)
      (history ++ [.looked (runner.isStopping (runner.proceed state))])
  finished : ∀ state history running, holds state history →
    holds (runner.finished state running).2
      (history ++ [.finished (runner.finished state running).1])
  launch : ∀ state history task results, holds state history →
    history.SafeStart graph task.name results →
    (∃ node, graph.get? task.name = some node ∧ node.task = task) →
    holds (runner.launch state task results) (history ++ [.started task.name results])
  next : ∀ state history first rest, holds state history →
    (∀ task, task ∈ first :: rest ↔
      task ∈ history.starts ∧ task ∉ history.verdicts.map (·.1)) →
    holds (runner.next state first rest).2
      (history ++ [.ended (runner.next state first rest).1
        (runner.isStopping (runner.next state first rest).2)])

namespace Runner.Upholds

theorem course (h : runner.Upholds graph holds) (hgraph : graph.WellFormed) {outset state : σ}
    {schedule : Schedule ω} {history : History} (houtset : holds outset [])
    (hcourse : Course runner graph limit outset schedule state history) :
    holds state history := by
  induction hcourse with
  | initial => exact houtset
  | look _ ih => exact h.proceed _ _ ih
  | finish _ ih => exact h.finished _ _ _ ih
  | start hcourse hready hnode _ hgo ih =>
    have htracks := hcourse.reached.tracks hgraph
    have hsafe := htracks.safeStart (hready ▸ List.mem_cons_self ..) hnode hgo
    exact h.launch _ _ _ _ ih hsafe ⟨_, hnode, rfl⟩
  | settle hcourse hrunning ih =>
    have htracks := hcourse.reached.tracks hgraph
    exact h.next _ _ _ _ ih (hrunning ▸ htracks.roster.mem_iff)

/-- **The invariant holds at the end of every build**, if it does at the outset. -/
theorem execute (h : runner.Upholds graph holds) (hgraph : graph.WellFormed) (limit : Nat)
    {state : σ} (hholds : holds state []) :
    holds (graph.execute runner limit state).2.2 (graph.history runner limit state) := by
  obtain ⟨schedule, hcourse, -⟩ := hgraph.course_execute runner limit state
  exact h.course hgraph hholds hcourse

end Runner.Upholds

/-- A runner that is **not asked to stop** in states of a kind, which it keeps. -/
structure Runner.Goes (runner : Runner ω σ) (going : σ → Prop) : Prop where
  isStopping : ∀ state, going state → runner.isStopping state = false
  proceed : ∀ state, going state → going (runner.proceed state)
  finished : ∀ state running, going state → going (runner.finished state running).2
  launch : ∀ state task results, going state → going (runner.launch state task results)
  await : ∀ state running, going state → going (runner.await state running).2

/-- A build in states of this kind is **not cancelled**. -/
theorem Runner.Goes.cancelled_eq_false (h : runner.Goes going) (hgraph : graph.WellFormed)
    (limit : Nat) {state : σ} (hgoing : going state) :
    (graph.execute runner limit state).1.cancelled = false := by
  have hupholds : runner.Upholds graph fun state history => going state ∧ ¬history.StopSeen := by
    refine ⟨?_, ?_, ?_, ?_⟩
    · rintro state history ⟨hgoing, hgo⟩
      have hnext := h.proceed state hgoing
      exact ⟨hnext, by simpa [h.isStopping _ hnext] using hgo⟩
    · rintro state history running ⟨hgoing, hgo⟩
      exact ⟨h.finished state running hgoing, by simpa using hgo⟩
    · rintro state history task results ⟨hgoing, hgo⟩ _ _
      exact ⟨h.launch state task results hgoing, by simpa using hgo⟩
    · rintro state history first rest ⟨hgoing, hgo⟩ _
      have hnext : going (runner.next state first rest).2 := h.await state _ hgoing
      have hverdict : (runner.next state first rest).1.verdict false ≠ .stopped := by
        rw [Ending.verdict]
        split <;> simp
      exact ⟨hnext, by simpa [h.isStopping _ hnext, hverdict] using hgo⟩
  have hstop : ¬(graph.history runner limit state).StopSeen :=
    (hupholds.execute hgraph limit ⟨hgoing, by simp [History.StopSeen, History.verdicts]⟩).2
  obtain ⟨schedule, htracks, -, hreport⟩ := hgraph.tracks_execute runner limit state
  rw [hreport]
  exact Bool.eq_false_iff.2 fun hcancelled => hstop (htracks.cancelled_iff.1 hcancelled)

theorem Runner.cancelled_eq_false (hrunner : ∀ state, runner.isStopping state = false)
    (hgraph : graph.WellFormed) (limit : Nat) (state : σ) :
    (graph.execute runner limit state).1.cancelled = false := by
  have hgoes : runner.Goes fun _ => True := by
    refine ⟨fun state _ => hrunner state, ?_, ?_, ?_, ?_⟩ <;> simp
  exact hgoes.cancelled_eq_false hgraph limit trivial

/-! ### What can be seen of tasks -/

/-- **What can be seen of the tasks** that a runner runs, in the states that it gets into: which of
them were not started, and how those that have ended did. -/
structure View (σ : Type) where
  Valid : σ → Prop
  Idle : σ → TaskName → Prop
  Ended : σ → TaskName → Outcome → Prop

namespace View

/-- From one state to another **nothing starts**, and what has ended stays so. -/
structure Keeps (view : View σ) (state after : σ) : Prop where
  valid : view.Valid after
  idle_iff : ∀ task, view.Idle after task ↔ view.Idle state task
  ended : ∀ task outcome, view.Ended state task outcome → view.Ended after task outcome

/-- **A task of the graph can be started**: it was not, and these are the results of what it depends
on. -/
structure Start (view : View σ) (graph : TaskGraph ω) (state : σ) (task : Task ω)
    (results : List TaskResult) : Prop where
  node : ∃ node, graph.get? task.name = some node ∧ node.task = task
  mem : task.name ∈ graph.names
  idle : view.Idle state task.name
  results : List.Forall₂ (fun d (result : TaskResult) => ∃ product,
    view.Ended state d (.ok product) ∧ result.output = product.output)
    (graph.dependenciesOf task.name) results

/-- **What the history of a build says of its tasks**: those that were started, and how those that
have ended did. -/
structure Follows (view : View σ) (state : σ) (history : History) : Prop where
  valid : view.Valid state
  idle_iff : ∀ task, view.Idle state task ↔ task ∉ history.starts
  ended : ∀ ending stopping, .ended ending stopping ∈ history →
    view.Ended state ending.task ending.outcome

end View

/-- A runner **runs tasks so that they can be seen**: a task is idle until it is started, and one
that the runner says has ended has. -/
structure Runner.Shows (runner : Runner ω σ) (graph : TaskGraph ω) (view : View σ) : Prop where
  proceed : ∀ state, view.Valid state → view.Keeps state (runner.proceed state)
  finished : ∀ state running, view.Valid state →
    view.Keeps state (runner.finished state running).2
  launch : ∀ state task results, view.Valid state → view.Start graph state task results →
    view.Valid (runner.launch state task results) ∧
      (∀ other, view.Idle (runner.launch state task results) other ↔
        view.Idle state other ∧ other ≠ task.name) ∧
      ∀ other outcome, view.Ended state other outcome →
        view.Ended (runner.launch state task results) other outcome
  await : ∀ state first rest, view.Valid state →
    (∀ task ∈ first :: rest, ¬view.Idle state task) →
    view.Keeps state (runner.await state (first :: rest)).2 ∧
      (runner.await state (first :: rest)).1.task ∈ first :: rest ∧
      view.Ended (runner.await state (first :: rest)).2
        (runner.await state (first :: rest)).1.task (runner.await state (first :: rest)).1.outcome

namespace View.Follows

variable {view : View σ} {state after : σ} {history : History}

/-- A moment in which nothing starts and nothing ends. -/
theorem keeps (h : view.Follows state history) (hkeeps : view.Keeps state after) {moment : Moment}
    (hstart : moment.start? = none) (hverdict : moment.verdict? = none) :
    view.Follows after (history ++ [moment]) where
  valid := hkeeps.valid
  idle_iff task := by
    rw [hkeeps.idle_iff, h.idle_iff, History.starts_append, hstart, Option.toList_none,
      List.append_nil]
  ended ending stopping hmem := by
    rcases List.mem_append.1 hmem with hold | hnew
    · exact hkeeps.ended _ _ (h.ended ending stopping hold)
    · rw [← List.mem_singleton.1 hnew] at hverdict
      cases hverdict

theorem ended_of_succeeded (h : view.Follows state history) {task : TaskName} {product : Product}
    (hverdict : (task, .succeeded product) ∈ history.verdicts) :
    view.Ended state task (.ok product) := by
  obtain ⟨stopping, ending, hmem, rfl, houtcome⟩ := History.succeeded_mem_verdicts.1 hverdict
  exact houtcome ▸ h.ended ending stopping hmem

/-- **A task that is safe to start can be started.** -/
theorem start (h : view.Follows state history) {task : Task ω} {results : List TaskResult}
    (hsafe : history.SafeStart graph task.name results)
    (hnode : ∃ node, graph.get? task.name = some node ∧ node.task = task) :
    view.Start graph state task results where
  node := hnode
  mem := hsafe.mem
  idle := (h.idle_iff task.name).2 hsafe.fresh
  results := by
    refine hsafe.results.imp fun d result hresult => ?_
    obtain ⟨-, product, hverdict, houtput⟩ := hresult
    exact ⟨product, h.ended_of_succeeded hverdict, houtput⟩

/-- **A task of a build that succeeds** has ended as reported, with the result that the report
has. -/
theorem of_success (h : view.Follows state history) {schedule : Schedule ω}
    (htracks : Tracks graph limit schedule history) (hover : schedule.Over)
    (hsuccess : schedule.toReport.isSuccess = true) {task : TaskName} (htask : task ∈ graph.names) :
    ∃ product, view.Ended state task (.ok product) ∧
      (task, if product.upToDate then .skipped else .completed) ∈ schedule.toReport.statuses ∧
      ∃ result, schedule.toReport.results.get? task = some result ∧
        result.output = product.output := by
  obtain ⟨product, hverdict⟩ := htracks.exists_product hover hsuccess htask
  exact ⟨product, h.ended_of_succeeded hverdict,
    htracks.reported (htracks.failures_of_isSuccess hsuccess) hverdict⟩

end View.Follows

namespace Runner.Shows

variable {view : View σ} {state : σ}

/-- **The history of a build says how far its tasks have come**, moment by moment. -/
theorem upholds (h : runner.Shows graph view) : runner.Upholds graph view.Follows where
  proceed state history hfollows := hfollows.keeps (h.proceed state hfollows.valid) rfl rfl
  finished state history running hfollows :=
    hfollows.keeps (h.finished state running hfollows.valid) rfl rfl
  launch state history task results hfollows hsafe hnode := by
    obtain ⟨hvalid, hidle, hended⟩ :=
      h.launch state task results hfollows.valid (hfollows.start hsafe hnode)
    refine ⟨hvalid, fun other => ?_, fun ending stopping hmem => ?_⟩
    · rw [hidle, hfollows.idle_iff, History.starts_append]
      simp
    · rcases List.mem_append.1 hmem with hold | hnew
      · exact hended _ _ (hfollows.ended ending stopping hold)
      · simp at hnew
  next state history first rest hfollows hrunning := by
    obtain ⟨hkeeps, hmem, hended⟩ := h.await state first rest hfollows.valid fun task htask hidle =>
      (hfollows.idle_iff task).1 hidle ((hrunning task).1 htask).1
    rw [next_of_mem hmem]
    refine ⟨hkeeps.valid, fun task => ?_, fun ending stopping hending => ?_⟩
    · rw [hkeeps.idle_iff, hfollows.idle_iff, History.starts_append]
      simp
    · rcases List.mem_append.1 hending with hold | hnew
      · exact hkeeps.ended _ _ (hfollows.ended ending stopping hold)
      · obtain ⟨rfl, -⟩ := Moment.ended.inj (List.mem_singleton.1 hnew)
        exact hended

/-- **The history of a whole build** says how its tasks have ended. -/
theorem follows (h : runner.Shows graph view) (hgraph : graph.WellFormed) (limit : Nat)
    (hvalid : view.Valid state) (hidle : ∀ task, view.Idle state task) :
    view.Follows (graph.execute runner limit state).2.2 (graph.history runner limit state) :=
  h.upholds.execute hgraph limit ⟨hvalid, by simp [hidle, History.starts], by simp⟩

end Runner.Shows

end Schedule

end BuildMatrix
