import BuildMatrix.Proofs.RunnerInvariants
import BuildMatrix.Proofs.TaskSteps

/-!
# Crews

A runner runs the tasks of a workshop if everything it does is made of steps of tasks that were
started: any number of steps, of any of them, in any order. Such a runner has a *crew*, which says
how the state of the runner is to be seen. The history of a build then says how far the tasks have
come, and the invariant of the steps is one of whole builds.
-/

namespace BuildMatrix

namespace Workshop

variable {ω σ : Type} {results : List TaskResult} {invoked : Bool} {outcome : Outcome}
  {product : Product}

/-! ### Starts and steps -/

/-- The world when a task was **started** with the results of what it depends on. -/
def started (shop : Workshop ω) (world : World) (task : TaskName) (results : List TaskResult) :
    World :=
  world.become task world.tree (.started (shop.sources task ++ TaskResult.outputPaths results))

/-- **A task can be started**: it was not, and these are the results of what it depends on. -/
structure Start (shop : Workshop ω) (world : World) (task : TaskName) (results : List TaskResult) :
    Prop where
  mem : task ∈ shop.graph.names
  idle : world.stage task = .idle
  results : List.Forall₂ (fun d (result : TaskResult) => ∃ invoked product,
    world.stage d = .ended invoked (.ok product) ∧ result.output = product.output)
    (shop.graph.dependenciesOf task) results

/-- Any number of steps, of any tasks. -/
def Steps (shop : Workshop ω) : World → World → Prop := Relation.ReflTransGen shop.Step

/-- Any number of starts and steps. -/
def Run (shop : Workshop ω) : World → World → Prop :=
  Relation.ReflTransGen fun world next =>
    (∃ task results, shop.Start world task results ∧ next = shop.started world task results) ∨
      shop.Step world next

/-- **The tasks that a runner runs**: each thing that the runner is asked for consists of steps of
tasks that were started, and a task that it says has ended has. -/
structure Crew (shop : Workshop ω) (runner : Schedule.Runner ω σ) where
  /-- The tree, and how far the tasks have come. -/
  world : σ → World
  /-- The states that the runner gets into. -/
  Valid : σ → Prop
  enabled : shop.place.cache.enabled = true
  launch : ∀ state task results, Valid state →
    shop.Start (world state) task.name results →
    Valid (runner.launch state task results) ∧
      shop.Steps (shop.started (world state) task.name results)
        (world (runner.launch state task results))
  finished : ∀ state running, Valid state →
    Valid (runner.finished state running).2 ∧
      shop.Steps (world state) (world (runner.finished state running).2)
  proceed : ∀ state, Valid state →
    Valid (runner.proceed state) ∧ shop.Steps (world state) (world (runner.proceed state))
  await : ∀ state first rest, Valid state →
    (∀ task ∈ first :: rest, (world state).stage task ≠ .idle) →
    Valid (runner.await state (first :: rest)).2 ∧
      shop.Steps (world state) (world (runner.await state (first :: rest)).2) ∧
      (runner.await state (first :: rest)).1.task ∈ first :: rest ∧
      ∃ invoked, (world (runner.await state (first :: rest)).2).stage
        (runner.await state (first :: rest)).1.task =
          .ended invoked (runner.await state (first :: rest)).1.outcome

variable {shop : Workshop ω} {world next : World} {task : TaskName}

theorem Step.idle_iff (h : shop.Step world next) (task : TaskName) :
    next.stage task = .idle ↔ world.stage task = .idle := by
  obtain ⟨other, tree, stage, hact, rfl⟩ := h
  rw [World.stage_become]
  split
  · next heq =>
      subst heq
      generalize world.stage task = before at hact
      cases hact <;> simp
  · rfl

theorem Step.ended (h : shop.Step world next) (hended : world.stage task = .ended invoked outcome) :
    next.stage task = .ended invoked outcome := by
  obtain ⟨other, tree, stage, hact, rfl⟩ := h
  rw [World.stage_become]
  split
  · next heq =>
      subst heq
      rw [hended] at hact
      cases hact
  · exact hended

theorem Steps.idle_iff (h : shop.Steps world next) (task : TaskName) :
    next.stage task = .idle ↔ world.stage task = .idle := by
  induction h with
  | refl => rfl
  | tail _ hstep ih => rw [hstep.idle_iff, ih]

theorem Steps.ended (h : shop.Steps world next)
    (hended : world.stage task = .ended invoked outcome) :
    next.stage task = .ended invoked outcome := by
  induction h with
  | refl => exact hended
  | tail _ hstep ih => exact hstep.ended ih

theorem Run.steps {start : World} (h : shop.Run start world) (hsteps : shop.Steps world next) :
    shop.Run start next := by
  induction hsteps with
  | refl => exact h
  | tail _ hstep ih => exact ih.tail (.inr hstep)

/-! ### Builds -/

namespace Crew

variable {runner : Schedule.Runner ω σ} {start : World} {state after : σ}

/-- **What can be seen of the tasks** of a crew, in a run that starts in some world. -/
def view (crew : shop.Crew runner) (start : World) : Schedule.View σ where
  Valid state := crew.Valid state ∧ shop.Run start (crew.world state)
  Idle state task := (crew.world state).stage task = .idle
  Ended state task outcome := ∃ invoked, (crew.world state).stage task = .ended invoked outcome

/-- Steps **start nothing**, and leave what has ended as it is. -/
theorem keeps {crew : shop.Crew runner} (h : (crew.view start).Valid state)
    (hsteps : crew.Valid after ∧ shop.Steps (crew.world state) (crew.world after)) :
    (crew.view start).Keeps state after where
  valid := ⟨hsteps.1, h.2.steps hsteps.2⟩
  idle_iff := hsteps.2.idle_iff
  ended _ _ hended := hended.imp fun _ => hsteps.2.ended

/-- **The tasks of a crew can be seen.** -/
theorem shows (crew : shop.Crew runner) (start : World) :
    runner.Shows shop.graph (crew.view start) where
  proceed state h := keeps h (crew.proceed state h.1)
  finished state running h := keeps h (crew.finished state running h.1)
  launch state task results h hstart := by
    have hcan : shop.Start (crew.world state) task.name results := by
      refine ⟨hstart.mem, hstart.idle, hstart.results.imp fun d result hresult => ?_⟩
      obtain ⟨product, ⟨invoked, hended⟩, houtput⟩ := hresult
      exact ⟨invoked, product, hended, houtput⟩
    obtain ⟨hvalid, hsteps⟩ := crew.launch state task results h.1 hcan
    refine ⟨⟨hvalid, Run.steps (h.2.tail (.inl ⟨task.name, results, hcan, rfl⟩)) hsteps⟩,
      fun other => ?_, fun other outcome ⟨invoked, hended⟩ => ⟨invoked, hsteps.ended ?_⟩⟩
    · change (crew.world _).stage other = .idle ↔ _
      rw [hsteps.idle_iff, started, World.stage_become]
      by_cases heq : other = task.name
      · simp [heq]
      · simp [heq, view]
    · rw [started, World.stage_become, if_neg, hended]
      rintro rfl
      rw [hcan.idle] at hended
      cases hended
  await state first rest h hstarted := by
    obtain ⟨hvalid, hsteps, hmem, hended⟩ := crew.await state first rest h.1 hstarted
    exact ⟨keeps h ⟨hvalid, hsteps⟩, hmem, hended⟩

/-- **The history of a build says how far its tasks have come.** -/
theorem follows (crew : shop.Crew runner) (hgraph : shop.graph.WellFormed) (limit : Nat)
    {tree : FileTree} (hvalid : crew.Valid state) (hfresh : crew.world state = .fresh tree) :
    (crew.view (.fresh tree)).Follows (shop.graph.execute runner limit state).2.2
      (shop.graph.history runner limit state) :=
  (crew.shows _).follows hgraph limit ⟨hvalid, hfresh ▸ .refl⟩ fun _ => by
    change (crew.world state).stage _ = _
    rw [hfresh]
    rfl

end Crew

/-! ### The invariant of builds -/

section Invariant

variable {start : FileTree} {followed : TaskName → Prop}

theorem good_fresh
    (hclear : ∀ task ∈ shop.graph.names,
      start.Clear (shop.record task) ∧ start.Clear (shop.temporary task))
    (hmade : ∀ task, followed task → shop.Made start task → shop.UpToDate start task ∧
      ∀ d ∈ shop.graph.dependenciesOf task, shop.Made start d) :
    shop.Good start followed (.fresh start) where
  drift := .refl
  mem _ h := absurd rfl h
  clear := hclear
  sound task := by rintro ⟨invoked, failure, h⟩; cases h
  upToDate := hmade
  origin _ _ _ := rfl
  fits _ _ := trivial

namespace Good

theorem of_ended (h : shop.Good start followed world) (htask : followed task)
    (hended : world.stage task = .ended invoked (.ok product)) :
    shop.Made world.tree task ∧
      product.output = shop.deliver task (shop.outputs world.tree task) ∧
      (shop.Made start task → invoked = false ∧ product.upToDate = true) := by
  have hfits := h.fits task htask
  rwa [hended] at hfits

/-- **A start keeps the invariant.** -/
theorem started (h : shop.Good start followed world) (hplan : shop.Plan start followed)
    (hstart : shop.Start world task results) :
    shop.Good start followed (shop.started world task results) := by
  obtain ⟨hmem, -, hresults⟩ := hstart
  refine h.advance hplan hmem (by rintro ⟨invoked, failure, h⟩; cases h) ⟨.refl, fun _ _ => rfl⟩
    (h.clear task hmem) (fun _ _ => shop.spares_refl task _)
    (fun _ hnot hmade => absurd hmade hnot) fun htask => ?_
  have hdeps : ∀ names results, (∀ d ∈ names, followed d) →
      List.Forall₂ (fun d (result : TaskResult) => ∃ invoked product,
        world.stage d = .ended invoked (.ok product) ∧ result.output = product.output)
        names results →
      TaskResult.outputPaths results = names.flatMap (shop.delivered world.tree) ∧
        ∀ d ∈ names, shop.Made world.tree d := by
    intro names results hnames hall
    induction hall with
    | nil => exact ⟨rfl, by simp⟩
    | @cons d result _ _ hresult _ ih =>
      obtain ⟨hd, hrest⟩ := List.forall_mem_cons.1 hnames
      obtain ⟨hpaths, hmade⟩ := ih hrest
      obtain ⟨invoked, product, hended, houtput⟩ := hresult
      obtain ⟨hmadeHead, hproduct, -⟩ := h.of_ended hd hended
      refine ⟨?_, List.forall_mem_cons.2 ⟨hmadeHead, hmade⟩⟩
      rw [TaskResult.outputPaths, List.flatMap_cons, List.flatMap_cons, houtput, hproduct,
        ← hpaths]
      rfl
  obtain ⟨hpaths, hmade⟩ := hdeps _ results (hplan.closed task htask) hresults
  exact ⟨by rw [hpaths]; rfl, hmade⟩

/-- **The invariant along whole builds**: it holds at the end, or some task has failed. -/
theorem run (h : shop.Good start followed world) (hplan : shop.Plan start followed)
    (hrun : shop.Run world next) :
    shop.Good start followed next ∨ ∃ task, (next.stage task).Failed := by
  induction hrun with
  | refl => exact .inl h
  | tail _ hmove ih =>
    rcases ih with hgood | ⟨task, invoked, failure, hfailed⟩
    · rcases hmove with ⟨task, results, hstart, rfl⟩ | hstep
      · exact .inl (hgood.started hplan hstart)
      · exact hgood.step hplan hstep
    · refine .inr ⟨task, invoked, failure, ?_⟩
      rcases hmove with ⟨other, results, hstart, rfl⟩ | hstep
      · rw [Workshop.started, World.stage_become, if_neg, hfailed]
        rintro rfl
        rw [hstart.idle] at hfailed
        cases hfailed
      · exact hstep.ended hfailed

theorem run_of_prepared (h : shop.Good start followed world) (hplan : shop.Plan start followed)
    (hprepared : shop.Prepared start) (hrun : shop.Run world next) :
    shop.Good start followed next := by
  induction hrun with
  | refl => exact h
  | tail _ hmove ih =>
    rcases hmove with ⟨task, results, hstart, rfl⟩ | hstep
    · exact ih.started hplan hstart
    · exact ih.step_of_prepared hplan hprepared hstep

end Good

end Invariant

end Workshop

end BuildMatrix
