import BuildMatrix.Proofs.Courses

/-!
# Whole builds

The loops of a build by a runner come down to the things that can happen next in its course, so that
what each of these keeps holds at the end of the build. The rounds end by themselves: each of them
ends one task, no task ends twice, and a build that is left with nothing running has been stopped or
has nothing that is ready, since at least one task may always run.
-/

namespace BuildMatrix

namespace Schedule

variable {ω σ : Type}

/-! ### Progress -/

/-- A build that has started what it could is **over**, or some task is running. -/
def Over (schedule : Schedule ω) : Prop :=
  schedule.running = [] ∧ (schedule.isStopped = true ∨ schedule.ready = [])

/-- If a task that is ready is not started, others are running. -/
theorem ready_eq_nil_of_launchReady (runner : Runner ω σ) (names : List TaskName)
    (schedule : Schedule ω) (state : σ) (hlimit : 1 ≤ schedule.limit)
    (hidle : (launchReady runner names schedule state).1.running = []) :
    (launchReady runner names schedule state).1.ready = [] := by
  induction names generalizing schedule state with
  | nil => rfl
  | cons name rest ih =>
    by_cases hfull : (schedule.atStart runner state).limit ≤
        (schedule.atStart runner state).busy.length
    · rw [launchReady_of_full hfull] at hidle
      have hrunning : (schedule.atStart runner state).running = [] := hidle
      have hbusy : (schedule.atStart runner state).busy = [] := by
        rw [busy, hrunning, List.filter_nil]
      rw [hbusy] at hfull
      exact absurd (Nat.le_trans hlimit hfull) (by simp)
    · cases hnode : schedule.graph.get? name with
      | none =>
        rw [launchReady_of_none hfull hnode] at hidle ⊢
        exact ih _ _ hlimit hidle
      | some node =>
        rw [launchReady_of_some hfull hnode] at hidle ⊢
        exact ih _ _ hlimit hidle

theorem over_of_advance {runner : Runner ω σ} {schedule : Schedule ω} {state : σ}
    (hlimit : 1 ≤ schedule.limit) (hidle : (advance runner schedule state).1.running = []) :
    (advance runner schedule state).1.Over := by
  refine ⟨hidle, ?_⟩
  by_cases hstopped : (schedule.atLook runner state).isStopped = true
  · rw [advance_of_stopped hstopped]
    exact .inl hstopped
  · rw [advance_of_not_stopped hstopped] at hidle ⊢
    exact .inr (ready_eq_nil_of_launchReady runner _ _ _ hlimit hidle)

/-! ### Builds by a runner -/

variable {runner : Runner ω σ} {graph : TaskGraph ω} {limit : Nat} {outset : σ}
  {schedule : Schedule ω} {state : σ} {history : History}

/-- How far a build **by a runner** comes: what it knows, the runner's state and the history. -/
inductive Course (runner : Runner ω σ) (graph : TaskGraph ω) (limit : Nat) (outset : σ) :
    Schedule ω → σ → History → Prop
  | initial : Course runner graph limit outset (initial graph limit) outset []
  | look {schedule : Schedule ω} {state : σ} {history : History} :
      Course runner graph limit outset schedule state history →
      Course runner graph limit outset (schedule.atLook runner state) (runner.proceed state)
        (history ++ [.looked (runner.isStopping (runner.proceed state))])
  | finish {schedule : Schedule ω} {state : σ} {history : History} :
      Course runner graph limit outset schedule state history →
      Course runner graph limit outset (schedule.atStart runner state)
        (schedule.stateAtStart runner state)
        (history ++ [.finished (runner.finished state schedule.running).1])
  | start {schedule : Schedule ω} {state : σ} {history : History} {rest : List TaskName}
      {node : Node ω} :
      Course runner graph limit outset schedule state history →
      schedule.ready = node.task.name :: rest → graph.get? node.task.name = some node →
      schedule.busy.length < schedule.limit → schedule.isStopped = false →
      Course runner graph limit outset { schedule.start node with ready := rest }
        (runner.launch state node.task (schedule.dependencyResults node))
        (history ++ [.started node.task.name (schedule.dependencyResults node)])
  | settle {schedule : Schedule ω} {state : σ} {history : History} {first : TaskName}
      {rest : List TaskName} :
      Course runner graph limit outset schedule state history →
      schedule.running = first :: rest →
      Course runner graph limit outset
        (schedule.settle (runner.isStopping (runner.next state first rest).2)
          (runner.next state first rest).1)
        (runner.next state first rest).2
        (history ++ [.ended (runner.next state first rest).1
          (runner.isStopping (runner.next state first rest).2)])

theorem Tracks.length_verdicts_le (h : Tracks graph limit schedule history) :
    history.verdicts.length ≤ graph.size := by
  have hsubset : history.verdicts.map (·.1) ⊆ graph.names := fun task htask =>
    h.orderly.starts_mem task (h.orderly.verdicts_started task htask)
  simpa [TaskGraph.names, TaskGraph.size] using
    (h.orderly.verdicts_nodup.subperm hsubset).length_le

namespace Course

theorem reached (h : Course runner graph limit outset schedule state history) :
    Reached graph limit schedule history := by
  induction h with
  | initial => exact .initial
  | look _ ih => exact ih.look _
  | finish _ ih => exact ih.finish _
  | start _ hready hnode hroom hgo ih => exact ih.start hready hnode hroom hgo
  | @settle _ state _ first rest _ hrunning ih =>
    exact ih.settle _ (hrunning ▸ runner.task_next_mem state first rest)

/-- **Starting tasks** is part of the course; no task ends meanwhile. -/
theorem launchReady (hgraph : graph.WellFormed) (names : List TaskName) (schedule : Schedule ω)
    (state : σ) (history : History)
    (h : Course runner graph limit outset { schedule with ready := names } state history)
    (hgo : schedule.isStopped = false) :
    ∃ next state' history',
      Schedule.launchReady runner.recorded names schedule (state, history) =
        (next, state', history') ∧
      Course runner graph limit outset next state' history' ∧
      history'.verdicts = history.verdicts := by
  induction names generalizing schedule state history with
  | nil => exact ⟨_, _, _, rfl, h, rfl⟩
  | cons name rest ih =>
    have hat := schedule.atStart_recorded runner state history
    have htracks := h.reached.tracks hgraph
    by_cases hfull : (schedule.atStart runner state).limit ≤
        (schedule.atStart runner state).busy.length
    · rw [launchReady_of_full (hat ▸ hfull)]
      exact ⟨_, _, _, rfl, h.finish, by simp⟩
    · obtain ⟨hmem, -, -⟩ := (htracks.counts.mem_ready name).mp (List.mem_cons_self ..)
      obtain ⟨node, hnode⟩ := TaskGraph.exists_get?_eq_some hmem
      obtain rfl : node.task.name = name := TaskGraph.name_of_get?_eq_some hnode
      have hstart := h.finish.start rfl hnode (Nat.lt_of_not_le hfull) hgo
      rw [launchReady_of_some (hat ▸ hfull) (htracks.graph_eq ▸ hnode)]
      obtain ⟨next, state', history', heq, hcourse, hverdicts⟩ :=
        ih ((schedule.atStart runner state).start node) _ _ hstart hgo
      refine ⟨next, state', history', heq, hcourse, hverdicts.trans ?_⟩
      rw [History.verdicts_append, History.verdicts_append]
      simp

theorem advance (hgraph : graph.WellFormed)
    (h : Course runner graph limit outset schedule state history) :
    ∃ next state' history',
      Schedule.advance runner.recorded schedule (state, history) = (next, state', history') ∧
      Course runner graph limit outset next state' history' ∧
      history'.verdicts = history.verdicts := by
  have hat := schedule.atLook_recorded runner state history
  by_cases hstopped : (schedule.atLook runner state).isStopped = true
  · rw [advance_of_stopped (hat ▸ hstopped)]
    exact ⟨_, _, _, rfl, h.look, by simp⟩
  · rw [advance_of_not_stopped (hat ▸ hstopped)]
    obtain ⟨next, state', history', heq, hcourse, hverdicts⟩ := launchReady hgraph _
      (schedule.atLook runner state) _ _ h.look (Bool.eq_false_iff.mpr hstopped)
    exact ⟨next, state', history', heq, hcourse, hverdicts.trans (by simp)⟩

/-- **One round**: nothing is running and the rounds are over, or one more task ends. -/
theorem round (hgraph : graph.WellFormed)
    (h : Course runner graph limit outset schedule state history) :
    (∃ last state' history', last.Over ∧ Course runner graph limit outset last state' history' ∧
      ∀ fuel, Schedule.rounds runner.recorded (fuel + 1) schedule (state, history) =
        (last, state', history')) ∨
    (∃ next state' history', history'.verdicts.length = history.verdicts.length + 1 ∧
      Course runner graph limit outset next state' history' ∧
      ∀ fuel, Schedule.rounds runner.recorded (fuel + 1) schedule (state, history) =
        Schedule.rounds runner.recorded fuel next (state', history')) := by
  obtain ⟨middle, state', history', hstep, hadvance, hverdicts⟩ := h.advance hgraph
  have hlimit : 1 ≤ schedule.limit :=
    (h.reached.tracks hgraph).limit_eq ▸ Nat.le_max_left 1 limit
  cases hrunning : middle.running with
  | nil =>
    have hover := fun hidle => @over_of_advance _ _ runner.recorded _ (state, history) hlimit hidle
    rw [hstep] at hover
    refine .inl ⟨middle, state', history', hover hrunning, hadvance, fun fuel => ?_⟩
    simp only [Schedule.rounds, hstep, hrunning]
  | cons first rest =>
    refine .inr ⟨_, _, _, ?_, hadvance.settle hrunning, fun fuel => ?_⟩
    · rw [History.verdicts_append, hverdicts]
      simp
    · simp only [Schedule.rounds, hstep, hrunning, Runner.next_recorded,
        Runner.isStopping_recorded]

/-- **Rounds are a course**, however many there may be. -/
theorem rounds (hgraph : graph.WellFormed) (fuel : Nat)
    (h : Course runner graph limit outset schedule state history) :
    Course runner graph limit outset
      (Schedule.rounds runner.recorded fuel schedule (state, history)).1
      (Schedule.rounds runner.recorded fuel schedule (state, history)).2.1
      (Schedule.rounds runner.recorded fuel schedule (state, history)).2.2 := by
  induction fuel generalizing schedule state history with
  | zero => exact h
  | succ fuel ih =>
    rcases h.round hgraph with ⟨_, _, _, -, hlast, hrounds⟩ | ⟨_, _, _, -, hnext, hrounds⟩
    · rw [hrounds]
      exact hlast
    · rw [hrounds]
      exact ih hnext

/-- **The rounds are over** when the bound on their number is met, and no larger bound would change
anything. -/
theorem rounds_over (hgraph : graph.WellFormed) (fuel : Nat)
    (h : Course runner graph limit outset schedule state history)
    (hfuel : graph.size < fuel + history.verdicts.length) :
    (Schedule.rounds runner.recorded fuel schedule (state, history)).1.Over ∧
      ∀ extra, Schedule.rounds runner.recorded (fuel + extra) schedule (state, history) =
        Schedule.rounds runner.recorded fuel schedule (state, history) := by
  induction fuel generalizing schedule state history with
  | zero => exact absurd (h.reached.tracks hgraph).length_verdicts_le (by omega)
  | succ fuel ih =>
    rcases h.round hgraph with ⟨_, _, _, hover, -, hrounds⟩ | ⟨_, _, _, hlength, hnext, hrounds⟩
    · refine ⟨?_, fun extra => ?_⟩
      · rw [hrounds]
        exact hover
      · rw [hrounds, Nat.add_right_comm, hrounds]
    · obtain ⟨hover, hextra⟩ := ih hnext (by omega)
      refine ⟨?_, fun extra => ?_⟩
      · rw [hrounds]
        exact hover
      · rw [hrounds, Nat.add_right_comm, hrounds, hextra]

end Course

end Schedule

namespace TaskGraph

variable {ω σ : Type} {graph : TaskGraph ω}

/-- **Every build is a course of its runner**, that is over at its end; what it reports last is how
many tasks ended in each way. -/
theorem WellFormed.course_execute (h : graph.WellFormed) (runner : Schedule.Runner ω σ)
    (limit : Nat) (state : σ) :
    ∃ schedule, Schedule.Course runner graph limit state schedule
        (graph.execute runner limit state).2.2 (graph.history runner limit state) ∧
      schedule.Over ∧ (graph.execute runner limit state).1 = schedule.toReport ∧
      (graph.execute runner limit state).2.1 =
        schedule.reported.reverse ++ [.allCompleted graph.size schedule.toReport.tally ⟨0⟩] := by
  have hrecorded := graph.execute_recorded runner limit state
  have hcourse := @Schedule.Course.rounds _ _ runner graph limit state _ _ _ h (graph.size + 1)
    .initial
  have hstate : (Schedule.rounds runner.recorded (graph.size + 1) (.initial graph limit)
      (state, [])).2.1 = (graph.execute runner limit state).2.2 := congrArg (·.2.2.1) hrecorded
  rw [hstate] at hcourse
  refine ⟨_, hcourse, (Schedule.Course.initial.rounds_over h (graph.size + 1)
    (Nat.lt_succ_self _)).1, congrArg Prod.fst hrecorded.symm, ?_⟩
  rw [← List.reverse_cons]
  exact congrArg (·.2.1) hrecorded.symm

theorem WellFormed.reached_execute (h : graph.WellFormed) (runner : Schedule.Runner ω σ)
    (limit : Nat) (state : σ) :
    ∃ schedule, Schedule.Reached graph limit schedule (graph.history runner limit state) ∧
      schedule.Over ∧ (graph.execute runner limit state).1 = schedule.toReport := by
  obtain ⟨schedule, hcourse, hover, hreport, -⟩ := h.course_execute runner limit state
  exact ⟨schedule, hcourse.reached, hover, hreport⟩

/-- **What holds at the end of every build**: it is over, and what it knows is what can be read off
its history. -/
theorem WellFormed.tracks_execute (h : graph.WellFormed) (runner : Schedule.Runner ω σ)
    (limit : Nat) (state : σ) :
    ∃ schedule, Schedule.Tracks graph limit schedule (graph.history runner limit state) ∧
      schedule.Over ∧ (graph.execute runner limit state).1 = schedule.toReport := by
  obtain ⟨schedule, hreached, hover, hreport⟩ := h.reached_execute runner limit state
  exact ⟨schedule, hreached.tracks h, hover, hreport⟩

end TaskGraph

end BuildMatrix
