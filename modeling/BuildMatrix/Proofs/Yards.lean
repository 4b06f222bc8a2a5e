import BuildMatrix.Proofs.Requests
import BuildMatrix.Proofs.RunnerInvariants
import BuildMatrix.Proofs.SharedWork

/-!
# Tasks that use one cache at the same time

The tasks of a project are at work at the same time, on one tree and with one cache. A task that was
started makes its directories, looks for its inputs and asks the cache for its work; it fetches the
lock of the work, waits until it is free, and from then on does what callers of the cache do. All
these are steps of their own, and tasks take them in any order. What a command does to the tree is
left open: it changes the tree in any number of steps, each of which is among those that it may
take.

Everything that happens is written down in a log, so that it can be said of a whole run which trees
there were, what was asked for and which commands were run. A runner runs such tasks if all it does
is made of their steps; it then has a *crew*.
-/

namespace BuildMatrix

/-- **Tasks that are at work in a place**, with a cache that is enabled, and what the command of
each of them may do to a tree in one step. -/
structure Yard where
  graph : TaskGraph Work
  place : Place
  enabled : place.cache.enabled = true
  effect : TaskName → FileTree → FileTree → Prop

namespace Yard

variable {yard : Yard} {task other : TaskName}

/-- The **work that a request is for**, which others may ask for too. -/
def work (yard : Yard) (request : Request) : SharedWork where
  cache := yard.place.cache
  enabled := yard.enabled
  identity := request.identity
  configuration := request.configuration
  inputs := request.inputs

/-! ### Steps -/

/-- **How far a task has come.** -/
inductive Phase where
  | idle
  /-- Some directories have to be made before the task asks for its work. -/
  | opening (work : Work) (dependencies : List TaskResult) (dirs : List Path)
  | asking (request : Request) (progress : SharedWork.Progress)
  /-- The task has failed before it asked for anything. -/
  | refused (failure : Failure)

namespace Phase

/-- What a task has asked for. -/
def request? : Phase → Option Request
  | .asking request _ => some request
  | _ => none

/-- The lock that a task has. -/
def lock? : Phase → Option Nat
  | .asking _ (.inside lock _) => some lock
  | _ => none

/-- The **outcome** of a task that has ended. -/
def outcome? : Phase → Option Outcome
  | .asking request (.returned result) => some <| result.map fun execution =>
      { output := request.deliver execution.outputs, upToDate := execution.upToDate }
  | .refused failure => some (.error failure)
  | _ => none

/-- A task that has succeeded **has got what it asked for**. -/
theorem exists_of_outcome?_eq_ok {phase : Phase} {product : Product}
    (h : phase.outcome? = some (.ok product)) :
    ∃ request execution, phase = .asking request (.returned (.ok execution)) ∧
      product =
        { output := request.deliver execution.outputs, upToDate := execution.upToDate } := by
  unfold outcome? at h
  split at h
  · next request result =>
      cases result with
      | error failure => cases h
      | ok execution =>
        exact ⟨request, execution, rfl, (Except.ok.inj (Option.some.inj h)).symm⟩
  · cases h
  · cases h

end Phase

/-- What all tasks **share**: the tree, and the locks with those who have them. -/
structure Hall where
  tree : FileTree
  locks : List String
  holder : Nat → Option TaskName

/-- **One line of the log**: a step of a task, what it brought about, and how the task and the tree
were after it. -/
structure Note where
  task : TaskName
  event : SharedWork.Event TaskName
  phase : Phase
  tree : FileTree

/-- What tasks share, how far each of them has come, and what has happened so far. -/
structure Floor extends Hall where
  phase : TaskName → Phase
  log : List Note

namespace Floor

/-- The floor before any task is started. -/
def fresh (tree : FileTree) : Floor where
  tree
  locks := []
  holder _ := none
  phase _ := .idle
  log := []

/-- The floor after a step of a task. -/
def become (floor : Floor) (task : TaskName) (event : SharedWork.Event TaskName) (hall : Hall)
    (phase : Phase) : Floor where
  toHall := hall
  phase := Function.update floor.phase task phase
  log := floor.log ++ [⟨task, event, phase, hall.tree⟩]

@[simp] theorem phase_become (floor : Floor) (task other : TaskName)
    (event : SharedWork.Event TaskName) (hall : Hall) (phase : Phase) :
    (floor.become task event hall phase).phase other =
      if other = task then phase else floor.phase other :=
  Function.update_apply ..

/-- The trees that there were since a tree with which all began. -/
def trees (floor : Floor) (made : FileTree) : List FileTree := made :: floor.log.map (·.tree)

/-- A task has asked for something that **may have this fingerprint**: its inputs had it in one of
the trees. -/
def Measures (floor : Floor) (made : FileTree) (task : TaskName) (request : Request)
    (fingerprint : Fingerprint) : Prop :=
  (∃ note ∈ floor.log, note.task = task ∧ note.phase.request? = some request) ∧
    ∃ tree ∈ floor.trees made, fingerprint = request.fingerprint tree

end Floor

/-- **The steps of one task**, each with what is shared and the phase before and after it. -/
inductive Act (yard : Yard) (task : TaskName) (hall : Hall) :
    Phase → SharedWork.Event TaskName → Hall → Phase → Prop
  | started {node : Node Work} {dependencies : List TaskResult} :
      yard.graph.get? task = some node →
      Act yard task hall .idle .silent hall
        (.opening node.task.work dependencies (node.task.work.dirs task yard.place))
  | opened {work : Work} {dependencies : List TaskResult} {dir : Path} {dirs : List Path}
      {made : FileTree} : hall.tree.createAll dir = (.ok (), made) →
      Act yard task hall (.opening work dependencies (dir :: dirs)) .silent
        { hall with tree := made } (.opening work dependencies dirs)
  | notOpened {work : Work} {dependencies : List TaskResult} {dir : Path} {dirs : List Path}
      {error : OsError} {made : FileTree} : hall.tree.createAll dir = (.error error, made) →
      Act yard task hall (.opening work dependencies (dir :: dirs)) .silent
        { hall with tree := made } (.refused (.io error.message))
  | asked {work : Work} {dependencies : List TaskResult} {request : Request} :
      work.request task yard.place dependencies hall.tree = .ok request →
      Act yard task hall (.opening work dependencies []) .silent hall (.asking request .arrived)
  | notAsked {work : Work} {dependencies : List TaskResult} {failure : Failure} :
      work.request task yard.place dependencies hall.tree = .error failure →
      Act yard task hall (.opening work dependencies []) .silent hall (.refused failure)
  | fetched {request : Request} :
      Act yard task hall (.asking request .arrived) .silent
        { hall with locks := (Cache.keyLock hall.locks request.identity).2 }
        (.asking request (.waiting (Cache.keyLock hall.locks request.identity).1))
  | entered {request : Request} {lock : Nat} : hall.holder lock = none →
      Act yard task hall (.asking request (.waiting lock)) .silent
        { hall with holder := Function.update hall.holder lock (some task) }
        (.asking request (.inside lock .entered))
  /-- A step of a caller that has the lock; what its command does is one of its effects. -/
  | acted {request : Request} {lock : Nat} {stage stage' : SharedWork.Stage}
      {event : SharedWork.Event TaskName} {tree : FileTree} :
      (yard.work request).Act task hall.tree stage event tree stage' →
      (∀ fingerprint, stage = .running fingerprint → stage' = .running fingerprint →
        yard.effect task hall.tree tree) →
      Act yard task hall (.asking request (.inside lock stage)) event { hall with tree }
        (.asking request (.inside lock stage'))
  | left {request : Request} {lock : Nat} {result : Except Failure Execution} :
      Act yard task hall (.asking request (.inside lock (.decided result))) (.returned task result)
        { hall with holder := Function.update hall.holder lock none }
        (.asking request (.returned result))

/-- **A step of some task**, while all others stay where they are. -/
def Step (yard : Yard) (floor next : Floor) : Prop :=
  ∃ task event hall phase, yard.Act task floor.toHall (floor.phase task) event hall phase ∧
    next = floor.become task event hall phase

/-- Any number of steps, of any tasks. -/
def Run (yard : Yard) : Floor → Floor → Prop := Relation.ReflTransGen yard.Step

/-- Any number of steps of tasks **that were started before**. -/
def Advance (yard : Yard) : Floor → Floor → Prop :=
  Relation.ReflTransGen fun floor next => ∃ task event hall phase, floor.phase task ≠ .idle ∧
    yard.Act task floor.toHall (floor.phase task) event hall phase ∧
    next = floor.become task event hall phase

/-- The floor when a task **was just started**. -/
def Floor.begun (floor : Floor) (yard : Yard) (task : Task Work)
    (dependencies : List TaskResult) : Floor :=
  floor.become task.name .silent floor.toHall
    (.opening task.work dependencies (task.work.dirs task.name yard.place))

@[simp] theorem Floor.phase_begun (floor : Floor) (yard : Yard) (task : Task Work)
    (dependencies : List TaskResult) (other : TaskName) :
    (floor.begun yard task dependencies).phase other = if other = task.name then
      .opening task.work dependencies (task.work.dirs task.name yard.place)
    else floor.phase other :=
  phase_become ..

variable {hall hall' : Hall} {phase phase' : Phase} {event : SharedWork.Event TaskName}
  {floor next start final : Floor}

/-- A task that takes a step **has not ended**, and is not idle afterwards. -/
theorem Act.unfinished (h : yard.Act task hall phase event hall' phase') :
    phase.outcome? = none ∧ phase' ≠ .idle := by
  cases h <;> exact ⟨rfl, nofun⟩

/-- A step **keeps a record**, or tries to. -/
def Stores (yard : Yard) (event : SharedWork.Event TaskName) (phase : Phase)
    (before after : FileTree) : Prop :=
  ∃ request lock fingerprint outputs createdAt kept, event ≠ .silent ∧
    phase = .asking request (.inside lock (.produced fingerprint outputs)) ∧
    yard.place.cache.store before
      { identity := request.identity, fingerprint, outputs, createdAt } = (kept, after)

/-- **What a step does to the tree**: it makes a directory, is an effect of the command, keeps a
record or does nothing. -/
theorem Act.tree_cases (h : yard.Act task hall phase event hall' phase') :
    hall'.tree = hall.tree ∨ (∃ dir, hall'.tree = (hall.tree.createAll dir).2) ∨
      yard.effect task hall.tree hall'.tree ∨
      yard.Stores event phase hall.tree hall'.tree := by
  cases h with
  | @opened work dependencies dir dirs made hmade => exact .inr (.inl ⟨dir, by rw [hmade]⟩)
  | @notOpened work dependencies dir dirs error made hmade =>
    exact .inr (.inl ⟨dir, by rw [hmade]⟩)
  | @acted request lock stage stage' event tree hact heffect =>
    cases hact with
    | wrote => exact .inr (.inr (.inl (heffect _ rfl rfl)))
    | kept hstore => exact .inr (.inr (.inr ⟨request, lock, _, _, _, _, nofun, rfl, hstore⟩))
    | notKept hstore => exact .inr (.inr (.inr ⟨request, lock, _, _, _, _, nofun, rfl, hstore⟩))
    | _ => exact .inl rfl
  | _ => exact .inl rfl

theorem Run.advance (h : yard.Run start floor) (hadvance : yard.Advance floor next) :
    yard.Run start next := by
  induction hadvance with
  | refl => exact h
  | tail _ hstep ih =>
    obtain ⟨task, event, hall, phase, -, hact, rfl⟩ := hstep
    exact ih.tail ⟨task, event, hall, phase, hact, rfl⟩

/-- **What every step keeps holds in the end**; what happened before is in the log that there is
then. -/
theorem Run.induction (hrun : yard.Run start final) (holds : Floor → Prop) (hstart : holds start)
    (hstep : ∀ floor task event hall phase, yard.Run start floor →
      yard.Act task floor.toHall (floor.phase task) event hall phase →
      floor.log <+: final.log → holds floor → holds (floor.become task event hall phase)) :
    holds final := by
  suffices hall : ∀ floor, yard.Run start floor → floor.log <+: final.log → holds floor from
    hall final hrun List.prefix_rfl
  intro floor hfloor
  induction hfloor with
  | refl => exact fun _ => hstart
  | @tail floor next hfloor hlast ih =>
    intro hearlier
    obtain ⟨task, event, hall, phase, hact, rfl⟩ := hlast
    have hearlier := (List.prefix_append ..).trans hearlier
    exact hstep floor task event hall phase hfloor hact hearlier (ih hearlier)

/-! ### What the log says -/

/-- A task **may ask for** this, in one of some trees. -/
def Asks (yard : Yard) (trees : List FileTree) (task : TaskName) (request : Request) : Prop :=
  ∃ node dependencies, yard.graph.get? task = some node ∧ ∃ tree ∈ trees,
    node.task.work.request task yard.place dependencies tree = .ok request

theorem Asks.mono {trees more : List FileTree} (h : yard.Asks trees task request)
    (hmore : trees ⊆ more) : yard.Asks more task request := by
  obtain ⟨node, dependencies, hnode, tree, htree, hrequest⟩ := h
  exact ⟨node, dependencies, hnode, tree, hmore htree, hrequest⟩

/-- **What is known of a floor** that tasks got to from a tree: what was asked for was asked for in
some tree, and so was the fingerprint taken; who is inside has the lock. -/
structure Traced (yard : Yard) (made : FileTree) (floor : Floor) : Prop where
  tree_mem : floor.tree ∈ floor.trees made
  opening : ∀ task work dependencies dirs, floor.phase task = .opening work dependencies dirs →
    ∃ node, yard.graph.get? task = some node ∧ node.task.work = work
  notes : ∀ note ∈ floor.log, ∀ request, note.phase.request? = some request →
    yard.Asks (floor.trees made) note.task request
  asking : ∀ task request, (floor.phase task).request? = some request →
    ∃ note ∈ floor.log, note.task = task ∧ note.phase.request? = some request
  measured : ∀ task request lock stage fingerprint,
    floor.phase task = .asking request (.inside lock stage) →
    stage.fingerprint? = some fingerprint →
    ∃ tree ∈ floor.trees made, fingerprint = request.fingerprint tree
  holder : ∀ lock task, floor.holder lock = some task ↔ (floor.phase task).lock? = some lock

namespace Traced

variable {made : FileTree}

theorem fresh (yard : Yard) (made : FileTree) : yard.Traced made (.fresh made) where
  tree_mem := List.mem_cons_self
  opening _ _ _ _ h := nomatch h
  notes _ h := nomatch h
  asking _ _ h := nomatch h
  measured _ _ _ _ _ h := nomatch h
  holder _ _ := ⟨nofun, nofun⟩

theorem asks (h : yard.Traced made floor) {request : Request}
    (hrequest : (floor.phase task).request? = some request) :
    yard.Asks (floor.trees made) task request := by
  obtain ⟨note, hnote, rfl, hasked⟩ := h.asking task request hrequest
  exact h.notes note hnote request hasked

/-- A step is **written down**, if what it asks for and measures is known and the locks are in
order. -/
theorem become (h : yard.Traced made floor)
    (hopening : ∀ work dependencies dirs, phase = .opening work dependencies dirs →
      ∃ node, yard.graph.get? task = some node ∧ node.task.work = work)
    (hrequest : ∀ request, phase.request? = some request →
      yard.Asks (floor.trees made) task request)
    (hmeasured : ∀ request lock stage fingerprint, phase = .asking request (.inside lock stage) →
      stage.fingerprint? = some fingerprint →
      ∃ tree ∈ floor.trees made, fingerprint = request.fingerprint tree)
    (hown : ∀ lock, hall.holder lock = some task ↔ phase.lock? = some lock)
    (hothers : ∀ lock other, other ≠ task →
      (hall.holder lock = some other ↔ floor.holder lock = some other)) :
    yard.Traced made (floor.become task event hall phase) := by
  have hmore : floor.trees made ⊆ (floor.become task event hall phase).trees made := by
    intro tree htree
    rcases List.mem_cons.1 htree with rfl | htree
    · exact List.mem_cons_self
    · simp [Floor.trees, Floor.become, List.mem_map.1 htree]
  constructor
  · simp [Floor.trees, Floor.become]
  · intro other work dependencies dirs
    rw [Floor.phase_become]
    split
    · next heq => exact heq ▸ hopening work dependencies dirs
    · exact h.opening other work dependencies dirs
  · refine List.forall_mem_append.2 ⟨fun note hnote request hasked => ?_, ?_⟩
    · exact (h.notes note hnote request hasked).mono hmore
    · rintro note hnote request hasked
      obtain rfl := List.mem_singleton.1 hnote
      exact (hrequest request hasked).mono hmore
  · intro other request
    rw [Floor.phase_become]
    split
    · next heq =>
        exact fun hasked =>
          ⟨_, List.mem_append_right _ (List.mem_singleton_self _), heq.symm, hasked⟩
    · intro hasked
      obtain ⟨note, hnote, hrest⟩ := h.asking other request hasked
      exact ⟨note, List.mem_append_left _ hnote, hrest⟩
  · intro other request lock stage fingerprint hinside hstage
    have hknown : ∃ tree ∈ floor.trees made, fingerprint = request.fingerprint tree := by
      rw [Floor.phase_become] at hinside
      split at hinside
      · exact hmeasured request lock stage fingerprint hinside hstage
      · exact h.measured other request lock stage fingerprint hinside hstage
    obtain ⟨tree, htree, heq⟩ := hknown
    exact ⟨tree, hmore htree, heq⟩
  · intro lock other
    rw [Floor.phase_become]
    split
    · next heq => exact heq ▸ hown lock
    · next hne => exact (hothers lock other hne).trans (h.holder lock other)

/-- **Every step is written down.** -/
theorem step (h : yard.Traced made floor)
    (hact : yard.Act task floor.toHall (floor.phase task) event hall phase) :
    yard.Traced made (floor.become task event hall phase) := by
  have hown := fun lock => h.holder lock task
  have hasks := fun {request} => @asks _ task _ _ h request
  have hmeasures := h.measured task
  have hopens := h.opening task
  generalize floor.phase task = before at hact hown hasks hmeasures hopens
  cases hact with
  | @started node dependencies hnode =>
    refine h.become ?_ (fun _ => nofun) (fun _ _ _ _ => nofun) hown fun _ _ _ => Iff.rfl
    rintro work dependencies dirs ⟨⟩
    exact ⟨node, hnode, rfl⟩
  | @opened work dependencies dir dirs made hmade =>
    refine h.become ?_ (fun _ => nofun) (fun _ _ _ _ => nofun) hown fun _ _ _ => Iff.rfl
    rintro work dependencies dirs ⟨⟩
    exact hopens _ _ _ rfl
  | notOpened hmade =>
    exact h.become (fun _ _ _ => nofun) (fun _ => nofun) (fun _ _ _ _ => nofun) hown
      fun _ _ _ => Iff.rfl
  | @asked work dependencies request hrequest =>
    refine h.become (fun _ _ _ => nofun) ?_ (fun _ _ _ _ => nofun) hown fun _ _ _ => Iff.rfl
    rintro _ ⟨⟩
    obtain ⟨node, hnode, rfl⟩ := hopens _ _ _ rfl
    exact ⟨node, dependencies, hnode, floor.tree, h.tree_mem, hrequest⟩
  | notAsked hrequest =>
    exact h.become (fun _ _ _ => nofun) (fun _ => nofun) (fun _ _ _ _ => nofun) hown
      fun _ _ _ => Iff.rfl
  | @fetched request =>
    generalize Cache.keyLock floor.locks request.identity = fetched
    exact h.become (fun _ _ _ => nofun) (fun _ hrequest => hasks hrequest)
      (fun _ _ _ _ => nofun) hown fun _ _ _ => Iff.rfl
  | @entered request lock hfree =>
    refine h.become (fun _ _ _ => nofun) (fun _ hrequest => hasks hrequest) ?_ (fun lock' => ?_)
      fun lock' other hne => ?_
    · rintro request lock stage fingerprint ⟨⟩ hstage
      cases hstage
    · by_cases heq : lock' = lock
      · simp [heq, Phase.lock?]
      · simp only [Function.update_of_ne heq, hown lock', Phase.lock?, Option.some.injEq]
        exact ⟨nofun, fun hlock => absurd hlock.symm heq⟩
    · by_cases heq : lock' = lock
      · simp [heq, hfree, hne.symm]
      · simp only [Function.update_of_ne heq]
  | @acted request lock stage stage' event tree hact heffect =>
    refine h.become (fun _ _ _ => nofun) (fun _ hrequest => hasks hrequest) ?_ hown
      fun _ _ _ => Iff.rfl
    rintro request lock stage'' fingerprint ⟨⟩ hstage
    have hbefore := hmeasures request lock stage fingerprint rfl
    cases hact with
    | measured =>
      simp only [SharedWork.Stage.fingerprint?, Option.some.injEq] at hstage
      exact ⟨floor.tree, h.tree_mem, hstage ▸ rfl⟩
    | reused _ | failed | kept _ | notKept _ => cases hstage
    | began _ | wrote | succeeded => exact hbefore hstage
  | @left request lock result =>
    refine h.become (fun _ _ _ => nofun) (fun _ hrequest => hasks hrequest)
      (fun _ _ _ _ => nofun) (fun lock' => ?_) fun lock' other hne => ?_
    · by_cases heq : lock' = lock
      · simp [heq, Phase.lock?]
      · simp only [Function.update_of_ne heq, hown lock', Phase.lock?, Option.some.injEq]
        exact ⟨fun hlock => absurd hlock.symm heq, nofun⟩
    · by_cases heq : lock' = lock
      · have hholder : floor.holder lock = some task := (hown lock).2 rfl
        simp [heq, hholder, hne.symm]
      · simp only [Function.update_of_ne heq]

end Traced

theorem Run.traced {made : FileTree} (hrun : yard.Run (.fresh made) floor) :
    yard.Traced made floor := by
  induction hrun with
  | refl => exact .fresh yard made
  | tail _ hstep ih =>
    obtain ⟨task, event, hall, phase, hact, rfl⟩ := hstep
    exact ih.step hact

/-- A step that **brings something about** is one of a task that has asked. -/
theorem Run.asked {made : FileTree} (hrun : yard.Run (.fresh made) floor) :
    ∀ note ∈ floor.log, note.event ≠ .silent → ∃ request, note.phase.request? = some request := by
  induction hrun with
  | refl => exact fun _ hnote => nomatch hnote
  | @tail floor next _ hstep ih =>
    obtain ⟨task, event, hall, phase, hact, rfl⟩ := hstep
    refine List.forall_mem_append.2 ⟨ih, fun note hnote hevent => ?_⟩
    obtain rfl := List.mem_singleton.1 hnote
    generalize floor.phase task = before at hact
    cases hact with
    | acted _ _ | left => exact ⟨_, rfl⟩
    | _ => exact absurd rfl hevent

/-! ### Crews -/

/-- **The tasks that a runner runs**: each thing that the runner is asked for consists of steps of
tasks that were started, and a task that it says has ended has. -/
structure Crew {σ : Type} (yard : Yard) (runner : Schedule.Runner Work σ) where
  /-- How the state of the runner is to be seen. -/
  floor : σ → Floor
  /-- The states that the runner gets into. -/
  Valid : σ → Prop
  launch : ∀ state task results, Valid state →
    (∃ node, yard.graph.get? task.name = some node ∧ node.task = task) →
    (floor state).phase task.name = .idle →
    Valid (runner.launch state task results) ∧
      yard.Advance ((floor state).begun yard task results)
        (floor (runner.launch state task results))
  finished : ∀ state running, Valid state →
    Valid (runner.finished state running).2 ∧
      yard.Advance (floor state) (floor (runner.finished state running).2)
  proceed : ∀ state, Valid state →
    Valid (runner.proceed state) ∧ yard.Advance (floor state) (floor (runner.proceed state))
  await : ∀ state first rest, Valid state →
    (∀ task ∈ first :: rest, (floor state).phase task ≠ .idle) →
    Valid (runner.await state (first :: rest)).2 ∧
      yard.Advance (floor state) (floor (runner.await state (first :: rest)).2) ∧
      (runner.await state (first :: rest)).1.task ∈ first :: rest ∧
      ((floor (runner.await state (first :: rest)).2).phase
        (runner.await state (first :: rest)).1.task).outcome? =
          some (runner.await state (first :: rest)).1.outcome

/-- Steps of tasks that were started **start nothing**, and leave what has ended as it is. -/
theorem Advance.keeps (h : yard.Advance floor next) (task : TaskName) :
    (next.phase task = .idle ↔ floor.phase task = .idle) ∧
      ∀ outcome, (floor.phase task).outcome? = some outcome →
        (next.phase task).outcome? = some outcome := by
  induction h with
  | refl => exact ⟨Iff.rfl, fun _ => id⟩
  | @tail floor' next' _ hstep ih =>
    obtain ⟨other, event, hall, phase, hstarted, hact, rfl⟩ := hstep
    obtain ⟨hopen, hidle⟩ := hact.unfinished
    by_cases heq : task = other
    · subst heq
      simp only [Floor.phase_become, if_true]
      refine ⟨⟨fun h => absurd h hidle, fun h => absurd (ih.1.2 h) hstarted⟩, fun outcome h => ?_⟩
      rw [ih.2 outcome h] at hopen
      cases hopen
    · simpa only [Floor.phase_become, if_neg heq] using ih

namespace Crew

variable {σ : Type} {runner : Schedule.Runner Work σ} {state after : σ}

/-- **What can be seen of the tasks** of a crew, in a run that starts on some floor. -/
def view (crew : yard.Crew runner) (start : Floor) : Schedule.View σ where
  Valid state := crew.Valid state ∧ yard.Run start (crew.floor state)
  Idle state task := (crew.floor state).phase task = .idle
  Ended state task outcome := ((crew.floor state).phase task).outcome? = some outcome

theorem keeps {crew : yard.Crew runner} (h : (crew.view start).Valid state)
    (hadvance : crew.Valid after ∧ yard.Advance (crew.floor state) (crew.floor after)) :
    (crew.view start).Keeps state after where
  valid := ⟨hadvance.1, h.2.advance hadvance.2⟩
  idle_iff task := (hadvance.2.keeps task).1
  ended task := (hadvance.2.keeps task).2

/-- **The tasks of a crew can be seen.** -/
theorem shows (crew : yard.Crew runner) (start : Floor) :
    runner.Shows yard.graph (crew.view start) where
  proceed state h := keeps h (crew.proceed state h.1)
  finished state running h := keeps h (crew.finished state running h.1)
  launch state task results h hstart := by
    obtain ⟨node, hnode, rfl⟩ := hstart.node
    have hidle : (crew.floor state).phase node.task.name = .idle := hstart.idle
    obtain ⟨hvalid, hadvance⟩ := crew.launch state node.task results h.1 ⟨node, hnode, rfl⟩ hidle
    have hbecome := Run.advance (h.2.tail ⟨_, _, _, _, hidle ▸ .started hnode, rfl⟩) hadvance
    refine ⟨⟨hvalid, hbecome⟩, fun other => ?_, fun other outcome hended => ?_⟩
    · refine (hadvance.keeps other).1.trans ?_
      by_cases heq : other = node.task.name
      · simp [heq]
      · simp [heq, view]
    · refine (hadvance.keeps other).2 outcome ?_
      have hne : other ≠ node.task.name := by
        rintro rfl
        replace hended : ((crew.floor state).phase node.task.name).outcome? = _ := hended
        rw [hidle] at hended
        cases hended
      rw [Floor.phase_begun, if_neg hne]
      exact hended
  await state first rest h hstarted := by
    obtain ⟨hvalid, hadvance, hmem, hended⟩ := crew.await state first rest h.1 hstarted
    exact ⟨keeps h ⟨hvalid, hadvance⟩, hmem, hended⟩

end Crew

end Yard

end BuildMatrix
