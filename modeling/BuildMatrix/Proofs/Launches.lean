import BuildMatrix.Proofs.Yards

/-!
# Builds as tasks at work

A build does the work of a task when it starts the task: the task takes all its steps there, one
after another and with nobody in between. So a build is one way for tasks to be at work at the same
time. It can be made to write down the steps of its tasks; it then runs as before, and what it
writes down is a run of tasks that use one cache, in which commands do what they do on the machine
of the build.
-/

namespace BuildMatrix

namespace Schedule.Runner

/-! ### Runners with more state -/

variable {ω σ τ : Type} {runner : Runner ω σ} {other : Runner ω τ} {view : σ → τ}

/-- A runner **does what another one does**, on states that say more. -/
structure Refines (runner : Runner ω σ) (other : Runner ω τ) (view : σ → τ) : Prop where
  launch : ∀ state task results,
    view (runner.launch state task results) = other.launch (view state) task results
  await : ∀ state running,
    ((runner.await state running).1, view (runner.await state running).2) =
      other.await (view state) running
  isStopping : ∀ state, runner.isStopping state = other.isStopping (view state)
  finished : ∀ state running,
    ((runner.finished state running).1, view (runner.finished state running).2) =
      other.finished (view state) running
  proceed : ∀ state, view (runner.proceed state) = other.proceed (view state)

namespace Refines

theorem next (h : runner.Refines other view) (state : σ) (first : TaskName)
    (rest : List TaskName) :
    ((runner.next state first rest).1, view (runner.next state first rest).2) =
      other.next (view state) first rest := by
  rw [Runner.next, Runner.next, ← h.await]

theorem launchReady (h : runner.Refines other view) (names : List TaskName)
    (schedule : Schedule ω) (state : σ) :
    ((Schedule.launchReady runner names schedule state).1,
        view (Schedule.launchReady runner names schedule state).2) =
      Schedule.launchReady other names schedule (view state) := by
  induction names generalizing schedule state with
  | nil => rfl
  | cons name rest ih =>
    have hat : schedule.atStart other (view state) = schedule.atStart runner state := by
      rw [atStart, atStart, ← h.finished]
    have hstate : schedule.stateAtStart other (view state) =
        view (schedule.stateAtStart runner state) := by
      rw [stateAtStart, stateAtStart, ← h.finished]
    by_cases hfull : (schedule.atStart runner state).limit ≤
        (schedule.atStart runner state).busy.length
    · rw [launchReady_of_full hfull, launchReady_of_full (hat ▸ hfull), hat, hstate]
    · cases hnode : schedule.graph.get? name with
      | none =>
        rw [launchReady_of_none hfull hnode, launchReady_of_none (hat ▸ hfull) hnode, hat,
          hstate]
        exact ih _ _
      | some node =>
        rw [launchReady_of_some hfull hnode, launchReady_of_some (hat ▸ hfull) hnode, hat,
          hstate, ← h.launch]
        exact ih _ _

theorem advance (h : runner.Refines other view) (schedule : Schedule ω) (state : σ) :
    ((Schedule.advance runner schedule state).1, view (Schedule.advance runner schedule state).2) =
      Schedule.advance other schedule (view state) := by
  have hat : schedule.atLook other (view state) = schedule.atLook runner state := by
    rw [atLook, atLook, ← h.proceed, h.isStopping]
  by_cases hstopped : (schedule.atLook runner state).isStopped = true
  · rw [advance_of_stopped hstopped, advance_of_stopped (hat ▸ hstopped), hat, h.proceed]
  · rw [advance_of_not_stopped hstopped, advance_of_not_stopped (hat ▸ hstopped), hat, ← h.proceed]
    exact h.launchReady _ _ _

theorem rounds (h : runner.Refines other view) (fuel : Nat) (schedule : Schedule ω) (state : σ) :
    ((Schedule.rounds runner fuel schedule state).1,
        view (Schedule.rounds runner fuel schedule state).2) =
      Schedule.rounds other fuel schedule (view state) := by
  induction fuel generalizing schedule state with
  | zero => rfl
  | succ fuel ih =>
    rw [Schedule.rounds, Schedule.rounds, ← h.advance]
    simp only
    split
    · rfl
    · rw [← h.next, h.isStopping]
      exact ih _ _

/-- **A whole build is the same**: the report, the events, and what the states say. -/
theorem execute (h : runner.Refines other view) (graph : TaskGraph ω) (limit : Nat) (state : σ) :
    ((graph.execute runner limit state).1, (graph.execute runner limit state).2.1,
        view (graph.execute runner limit state).2.2) =
      graph.execute other limit (view state) := by
  rw [TaskGraph.execute, TaskGraph.execute, ← h.rounds]

end Refines

end Schedule.Runner

/-! ### A task that is alone -/

/-- What a call returns **whose work was done**, by whether a record was kept. -/
def Execution.ofStore (outputs : List Path) : Except CacheError Unit → Except Failure Execution
  | .ok () => .ok { outputs, upToDate := false }
  | .error error => .error (.cache error)

namespace Yard

variable {yard : Yard} {task : TaskName} {floor next last : Floor} {hall : Hall} {phase : Phase}
  {event : SharedWork.Event TaskName} {request : Request} {lock : Nat}
  {stage stage' : SharedWork.Stage} {session : Session}

/-- **A task gets from one floor to another**, while all others stay where they are. -/
structure Alone (yard : Yard) (task : TaskName) (floor next : Floor) : Prop where
  advance : yard.Advance floor next
  others : ∀ other, other ≠ task → next.phase other = floor.phase other

namespace Alone

theorem refl (yard : Yard) (task : TaskName) (floor : Floor) : yard.Alone task floor floor :=
  ⟨.refl, fun _ _ => rfl⟩

theorem trans (h : yard.Alone task floor next) (hnext : yard.Alone task next last) :
    yard.Alone task floor last :=
  ⟨Relation.ReflTransGen.trans h.advance hnext.advance,
    fun other hne => (hnext.others other hne).trans (h.others other hne)⟩

/-- **One more step** of the task. -/
theorem act (h : yard.Alone task floor next) {before : Phase} (hphase : next.phase task = before)
    (hstarted : before ≠ .idle) (hact : yard.Act task next.toHall before event hall phase) :
    yard.Alone task floor (next.become task event hall phase) := by
  subst hphase
  refine ⟨h.advance.tail ⟨task, event, hall, phase, hstarted, hact, rfl⟩, fun other hne => ?_⟩
  rw [Floor.phase_become, if_neg hne, h.others other hne]

end Alone

namespace Floor

/-- The directories of a task **are made**, one step each, up to the first that cannot be made. -/
def openEach (task : TaskName) (work : Work) (dependencies : List TaskResult) :
    List Path → Floor → Except OsError Unit × Floor
  | [], floor => (.ok (), floor)
  | dir :: dirs, floor =>
    match floor.tree.createAll dir with
    | (.error error, made) =>
      (.error error, floor.become task .silent { floor.toHall with tree := made }
        (.refused (.io error.message)))
    | (.ok (), made) =>
      openEach task work dependencies dirs (floor.become task .silent
        { floor.toHall with tree := made } (.opening work dependencies dirs))

/-- A task that has the lock of its work **goes on to a stage**. -/
def inside (floor : Floor) (task : TaskName) (request : Request) (lock : Nat)
    (event : SharedWork.Event TaskName) (tree : FileTree) (stage : SharedWork.Stage) : Floor :=
  floor.become task event { floor.toHall with tree } (.asking request (.inside lock stage))

@[simp] theorem tree_inside (floor : Floor) (task : TaskName) (request : Request) (lock : Nat)
    (event : SharedWork.Event TaskName) (tree : FileTree) (stage : SharedWork.Stage) :
    (floor.inside task request lock event tree stage).tree = tree := rfl

/-- Work that was not found **is done** in a session, and a record of it is kept. -/
def perform (floor : Floor) (cache : Cache) (task : TaskName) (request : Request) (lock : Nat)
    (session : Session) : Except Failure Execution × Floor :=
  let fingerprint := request.fingerprint floor.tree
  let floor := floor.inside task request lock (.began task) floor.tree (.running fingerprint)
  match request.body session with
  | (.error failure, done) =>
    let floor := floor.inside task request lock .silent done.tree (.running fingerprint)
    (.error failure,
      floor.inside task request lock (.failed task) done.tree (.decided (.error failure)))
  | (.ok outputs, done) =>
    let floor := floor.inside task request lock .silent done.tree (.running fingerprint)
    let floor := floor.inside task request lock (.succeeded task outputs) done.tree
      (.produced fingerprint outputs)
    match cache.store done.tree
        { identity := request.identity, fingerprint, outputs, createdAt := done.now } with
    | (.error error, stored) =>
      (.error (.cache error), floor.inside task request lock (.notKept task) stored
        (.decided (.error (.cache error))))
    | (.ok (), stored) =>
      (.ok { outputs, upToDate := false }, floor.inside task request lock (.kept task done.now)
        stored (.decided (.ok { outputs, upToDate := false })))

/-- **A task that has the lock** takes the fingerprint, and does its work unless it is found. -/
def attempt (floor : Floor) (cache : Cache) (task : TaskName) (request : Request) (lock : Nat)
    (session : Session) : Except Failure Execution × Floor :=
  let fingerprint := request.fingerprint floor.tree
  let floor := floor.inside task request lock .silent floor.tree (.measured fingerprint)
  match cache.hit? floor.tree request.identity fingerprint with
  | some outputs =>
    (.ok { outputs, upToDate := true }, floor.inside task request lock .silent floor.tree
      (.decided (.ok { outputs, upToDate := true })))
  | none => floor.perform cache task request lock session

/-- **A task that has asked is served**: it fetches the lock and takes it, and gives it back when
its call is decided. -/
def serve (floor : Floor) (cache : Cache) (task : TaskName) (request : Request)
    (session : Session) : Floor :=
  let (lock, locks) := Cache.keyLock floor.locks request.identity
  let floor := floor.become task .silent { floor.toHall with locks }
    (.asking request (.waiting lock))
  let floor := floor.become task .silent
    { floor.toHall with holder := Function.update floor.holder lock (some task) }
    (.asking request (.inside lock .entered))
  let (result, floor) := floor.attempt cache task request lock session
  floor.become task (.returned task result)
    { floor.toHall with holder := Function.update floor.holder lock none }
    (.asking request (.returned result))

/-- **A task is started**, and its directories are made. -/
def opened (floor : Floor) (place : Place) (launch : Launch) : Except OsError Unit × Floor :=
  let dirs := launch.task.work.dirs launch.task.name place
  openEach launch.task.name launch.task.work launch.dependencies dirs
    (floor.become launch.task.name .silent floor.toHall
      (.opening launch.task.work launch.dependencies dirs))

/-- **All the steps of a task**, from its start in a session on, with nobody in between. -/
def solo (floor : Floor) (place : Place) (launch : Launch) : Floor :=
  let task := launch.task.name
  match floor.opened place launch with
  | (.error _, floor) => floor
  | (.ok (), floor) =>
    match launch.task.work.request task place launch.dependencies floor.tree with
    | .error failure => floor.become task .silent floor.toHall (.refused failure)
    | .ok request =>
      (floor.become task .silent floor.toHall (.asking request .arrived)).serve place.cache task
        request (launch.opened floor.tree)

end Floor

/-- A task that was alone **has got to a phase**, and no lock has changed hands. -/
structure Gets (yard : Yard) (task : TaskName) (floor next : Floor) (tree : FileTree)
    (phase : Phase) : Prop where
  alone : yard.Alone task floor next
  tree_eq : next.tree = tree
  phase_eq : next.phase task = phase
  holder_eq : next.holder = floor.holder

namespace Gets

variable {tree after : FileTree}

theorem act (h : yard.Gets task floor next tree (.asking request (.inside lock stage)))
    (hact : (yard.work request).Act task tree stage event after stage')
    (heffect : ∀ fingerprint, stage = .running fingerprint → stage' = .running fingerprint →
      yard.effect task tree after) :
    yard.Gets task floor (next.inside task request lock event after stage') after
      (.asking request (.inside lock stage')) := by
  obtain rfl := h.tree_eq
  refine ⟨h.alone.act h.phase_eq nofun (.acted hact heffect), rfl, ?_, h.holder_eq⟩
  rw [Floor.inside, Floor.phase_become, if_pos rfl]

/-- **The directories are made** as a layout makes them. -/
theorem openEach {work : Work} {dependencies : List TaskResult} {dirs : List Path}
    (h : yard.Gets task floor next tree (.opening work dependencies dirs)) :
    (Floor.openEach task work dependencies dirs next).1 = (Layout.createEach tree dirs).1 ∧
      yard.Gets task floor (Floor.openEach task work dependencies dirs next).2
        (Layout.createEach tree dirs).2
        (match (Layout.createEach tree dirs).1 with
          | .error error => .refused (.io error.message)
          | .ok () => .opening work dependencies []) := by
  induction dirs generalizing next tree with
  | nil => exact ⟨rfl, h⟩
  | cons dir dirs ih =>
    obtain rfl := h.tree_eq
    unfold Floor.openEach Layout.createEach
    rcases hmade : next.tree.createAll dir with ⟨error | ⟨⟩, made⟩
    · refine ⟨rfl, h.alone.act h.phase_eq (by simp) (.notOpened hmade), rfl, ?_, h.holder_eq⟩
      simp
    · refine ih ⟨h.alone.act h.phase_eq (by simp) (.opened hmade), rfl, ?_, h.holder_eq⟩
      simp

/-- A task that has found its work **is done**. -/
theorem attempt_of_hit
    (h : yard.Gets task floor next tree (.asking request (.inside lock .entered)))
    {outputs : List Path}
    (hhit : yard.place.cache.hit? tree request.identity (request.fingerprint tree) =
      some outputs) :
    (next.attempt yard.place.cache task request lock session).1 =
        .ok { outputs, upToDate := true } ∧
      yard.Gets task floor (next.attempt yard.place.cache task request lock session).2 tree
        (.asking request (.inside lock (.decided (.ok { outputs, upToDate := true })))) := by
  obtain rfl := h.tree_eq
  have hmeasured := h.act .measured (fun _ => nofun)
  unfold Floor.attempt
  simp only [Floor.tree_inside, hhit]
  exact ⟨trivial, hmeasured.act (.reused hhit) (fun _ => nofun)⟩

/-- A task that has not found its work **runs its body**, and what the body does is an effect. -/
theorem running (h : yard.Gets task floor next tree (.asking request (.inside lock .entered)))
    (hmiss : yard.place.cache.hit? tree request.identity (request.fingerprint tree) = none)
    (heffect : yard.effect task tree after) :
    yard.Gets task floor
      (((next.inside task request lock .silent tree (.measured (request.fingerprint tree))).inside
        task request lock (.began task) tree (.running (request.fingerprint tree))).inside
        task request lock .silent after (.running (request.fingerprint tree)))
      after (.asking request (.inside lock (.running (request.fingerprint tree)))) :=
  ((h.act .measured (fun _ => nofun)).act (.began hmiss) (fun _ => nofun)).act .wrote
    fun _ _ _ => heffect

/-- A task whose body has failed **fails as it did**. -/
theorem attempt_of_failure
    (h : yard.Gets task floor next tree (.asking request (.inside lock .entered)))
    (hmiss : yard.place.cache.hit? tree request.identity (request.fingerprint tree) = none)
    {failure : Failure} {done : Session} (hbody : request.body session = (.error failure, done))
    (heffect : yard.effect task tree done.tree) :
    (next.attempt yard.place.cache task request lock session).1 = .error failure ∧
      yard.Gets task floor (next.attempt yard.place.cache task request lock session).2 done.tree
        (.asking request (.inside lock (.decided (.error failure)))) := by
  obtain rfl := h.tree_eq
  have hrunning := h.running hmiss heffect
  unfold Floor.attempt Floor.perform
  simp only [Floor.tree_inside, hmiss, hbody]
  exact ⟨trivial, hrunning.act .failed (fun _ => nofun)⟩

/-- A task whose body has succeeded **keeps a record**, or fails. -/
theorem attempt_of_success
    (h : yard.Gets task floor next tree (.asking request (.inside lock .entered)))
    (hmiss : yard.place.cache.hit? tree request.identity (request.fingerprint tree) = none)
    {outputs : List Path} {done : Session} (hbody : request.body session = (.ok outputs, done))
    (heffect : yard.effect task tree done.tree) {kept : Except CacheError Unit}
    {stored : FileTree}
    (hstore : yard.place.cache.store done.tree
      { identity := request.identity, fingerprint := request.fingerprint tree, outputs,
        createdAt := done.now } = (kept, stored)) :
    (next.attempt yard.place.cache task request lock session).1 = Execution.ofStore outputs kept ∧
      yard.Gets task floor (next.attempt yard.place.cache task request lock session).2 stored
        (.asking request (.inside lock (.decided (Execution.ofStore outputs kept)))) := by
  obtain rfl := h.tree_eq
  have hsucceeded : (yard.work request).Act task done.tree
      (.running (request.fingerprint next.tree)) (.succeeded task outputs) done.tree
      (.produced (request.fingerprint next.tree) outputs) := .succeeded
  have hproduced := (h.running hmiss heffect).act hsucceeded (fun _ => nofun)
  unfold Floor.attempt Floor.perform
  simp only [Floor.tree_inside, hmiss, hbody, hstore]
  rcases kept with error | ⟨⟩
  · exact ⟨rfl, hproduced.act (.notKept hstore) (fun _ => nofun)⟩
  · exact ⟨rfl, hproduced.act (.kept hstore) (fun _ => nofun)⟩

end Gets

/-- A task that was alone **has ended**, and all locks are free. -/
structure Ends (yard : Yard) (task : TaskName) (floor next : Floor) (tree : FileTree)
    (outcome : Outcome) : Prop where
  alone : yard.Alone task floor next
  tree_eq : next.tree = tree
  outcome_eq : (next.phase task).outcome? = some outcome
  free : ∀ lock, next.holder lock = none

/-- **A task is served** when all locks are free, if its call is decided once it has the lock. -/
theorem Gets.serve {tree after : FileTree} {result : Except Failure Execution}
    (h : yard.Gets task floor next tree (.asking request .arrived))
    (hfree : ∀ lock, floor.holder lock = none)
    (hattempt : ∀ floor next lock,
      yard.Gets task floor next tree (.asking request (.inside lock .entered)) →
      (next.attempt yard.place.cache task request lock session).1 = result ∧
        yard.Gets task floor (next.attempt yard.place.cache task request lock session).2 after
          (.asking request (.inside lock (.decided result)))) :
    yard.Ends task floor (next.serve yard.place.cache task request session) after
      (result.map fun execution =>
        { output := request.deliver execution.outputs, upToDate := execution.upToDate }) := by
  obtain rfl := h.tree_eq
  unfold Floor.serve
  have hfetched := h.alone.act h.phase_eq nofun .fetched
  generalize Cache.keyLock next.locks request.identity = fetched at hfetched
  obtain ⟨lock, locks⟩ := fetched
  simp only at hfetched ⊢
  generalize hwaiting : Floor.become next task .silent { next.toHall with locks }
    (.asking request (.waiting lock)) = waiting at hfetched ⊢
  have hholder : waiting.holder = floor.holder := hwaiting ▸ h.holder_eq
  have hphase : waiting.phase task = .asking request (.waiting lock) := by simp [← hwaiting]
  have hentered := hfetched.act hphase nofun (.entered (by rw [hholder]; exact hfree lock))
  generalize hmiddle : Floor.become waiting task .silent _ _ = middle at hentered ⊢
  obtain ⟨hresult, hdecided⟩ := hattempt middle middle lock
    ⟨.refl .., by rw [← hmiddle, ← hwaiting]; rfl, by simp [← hmiddle], rfl⟩
  generalize middle.attempt _ _ _ _ _ = attempted at hresult hdecided
  obtain ⟨_, last⟩ := attempted
  obtain rfl := hresult
  refine ⟨(hentered.trans hdecided.alone).act hdecided.phase_eq nofun .left, hdecided.tree_eq,
    by simp [Phase.outcome?], fun other => ?_⟩
  simp only [Floor.become]
  by_cases heq : other = lock
  · rw [heq, Function.update_self]
  · rw [Function.update_of_ne heq, hdecided.holder_eq, ← hmiddle]
    simp only [Floor.become, Function.update_of_ne heq, hholder, hfree]

section Solo

variable {launch : Launch} {tree : FileTree}

theorem gets_opened (yard : Yard) (htree : launch.session.tree = floor.tree) :
    (floor.opened yard.place launch).1 = (Layout.createEach launch.session.tree
        (launch.task.work.dirs launch.task.name yard.place)).1 ∧
      yard.Gets launch.task.name (floor.begun yard launch.task launch.dependencies)
        (floor.opened yard.place launch).2
        (Layout.createEach launch.session.tree
          (launch.task.work.dirs launch.task.name yard.place)).2
        (match (Layout.createEach launch.session.tree
            (launch.task.work.dirs launch.task.name yard.place)).1 with
          | .error error => .refused (.io error.message)
          | .ok () => .opening launch.task.work launch.dependencies []) := by
  unfold Floor.opened
  exact Gets.openEach ⟨.refl .., htree.symm, by simp, rfl⟩

/-- A start that fails before it asks is **a task that is refused**. -/
theorem ends_solo_of_refused (hfree : ∀ lock, floor.holder lock = none)
    (htree : launch.session.tree = floor.tree) {failure : Failure}
    (hask : launch.ask yard.place = (.error failure, tree)) :
    yard.Ends launch.task.name (floor.begun yard launch.task launch.dependencies)
      (floor.solo yard.place launch) tree (.error failure) := by
  obtain ⟨hmade, hgets⟩ := yard.gets_opened htree
  unfold Launch.ask at hask
  unfold Floor.solo
  generalize floor.opened yard.place launch = opened at hmade hgets ⊢
  obtain ⟨made, next⟩ := opened
  generalize Layout.createEach launch.session.tree _ = created at hask hmade hgets
  rcases created with ⟨error | ⟨⟩, created⟩
  · obtain ⟨hfailure, rfl⟩ := Prod.mk.inj hask
    obtain rfl := Except.error.inj hfailure
    obtain rfl := hmade
    exact ⟨hgets.alone, hgets.tree_eq, by rw [hgets.phase_eq]; rfl,
      fun lock => (congrFun hgets.holder_eq lock).trans (hfree lock)⟩
  · obtain ⟨hrequest, rfl⟩ := Prod.mk.inj hask
    obtain rfl := hmade
    obtain rfl : next.tree = created := hgets.tree_eq
    simp only [hrequest]
    exact ⟨hgets.alone.act hgets.phase_eq nofun (.notAsked hrequest), rfl, by simp [Phase.outcome?],
      fun lock => (congrFun hgets.holder_eq lock).trans (hfree lock)⟩

/-- A start that asks is **a task that is served**. -/
theorem solo_of_asked (htree : launch.session.tree = floor.tree)
    (hask : launch.ask yard.place = (.ok request, tree)) :
    ∃ next, floor.solo yard.place launch =
        next.serve yard.place.cache launch.task.name request (launch.opened tree) ∧
      yard.Gets launch.task.name (floor.begun yard launch.task launch.dependencies) next tree
        (.asking request .arrived) := by
  obtain ⟨hmade, hgets⟩ := yard.gets_opened htree
  unfold Launch.ask at hask
  unfold Floor.solo
  generalize floor.opened yard.place launch = opened at hmade hgets ⊢
  obtain ⟨made, next⟩ := opened
  generalize Layout.createEach launch.session.tree _ = created at hask hmade hgets
  rcases created with ⟨error | ⟨⟩, created⟩
  · cases hask
  obtain ⟨hrequest, rfl⟩ := Prod.mk.inj hask
  obtain rfl := hmade
  obtain rfl : next.tree = created := hgets.tree_eq
  simp only [hrequest]
  exact ⟨_, rfl, hgets.alone.act hgets.phase_eq nofun (.asked hrequest), rfl, by simp,
    hgets.holder_eq⟩

/-- **A task that takes all its steps at once** ends as its start does, in the tree that its start
leaves, if what the body of its request does is an effect. -/
theorem ends_solo (yard : Yard) (launch : Launch) (hfree : ∀ lock, floor.holder lock = none)
    (htree : launch.session.tree = floor.tree)
    (heffect : ∀ request tree, launch.ask yard.place = (.ok request, tree) →
      yard.effect launch.task.name tree (request.body (launch.opened tree)).2.tree) :
    yard.Ends launch.task.name (floor.begun yard launch.task launch.dependencies)
      (floor.solo yard.place launch) (launch.after yard.place).tree
      (launch.outcome yard.place) := by
  have hcourse := launch.course yard.enabled
  generalize launch.outcome yard.place = outcome at hcourse ⊢
  generalize (launch.after yard.place).tree = after at hcourse ⊢
  cases hcourse with
  | refused hask => exact ends_solo_of_refused hfree htree hask
  | found hask hhit =>
    obtain ⟨next, hsolo, hgets⟩ := solo_of_asked htree hask
    rw [hsolo]
    exact hgets.serve hfree fun _ _ _ hentered => hentered.attempt_of_hit hhit
  | @failed request tree done failure hask hmiss hbody =>
    obtain ⟨next, hsolo, hgets⟩ := solo_of_asked htree hask
    have heffect := heffect request tree hask
    rw [hbody] at heffect
    rw [hsolo]
    exact hgets.serve hfree fun _ _ _ hentered => hentered.attempt_of_failure hmiss hbody heffect
  | @stored request tree done outputs kept stored hask hmiss hbody hstore =>
    obtain ⟨next, hsolo, hgets⟩ := solo_of_asked htree hask
    have heffect := heffect request tree hask
    rw [hbody] at heffect
    rw [hsolo]
    have hends := hgets.serve hfree fun _ _ _ hentered =>
      hentered.attempt_of_success hmiss hbody heffect hstore
    rcases kept with error | ⟨⟩ <;> exact hends

end Solo

end Yard

/-! ### The tasks of a build -/

namespace Build

variable {build : Build} {graph : TaskGraph Work} {state : BuildState} {floor : Yard.Floor}

/-- What the command of a task **may do to a tree** in a build: what the body of one of its requests
does, in some session. -/
def Effect (build : Build) (graph : TaskGraph Work) (task : TaskName)
    (before after : FileTree) : Prop :=
  ∃ node dependencies tree request session, graph.get? task = some node ∧
    node.task.work.request task build.place dependencies tree = .ok request ∧
    session.tree = before ∧ (request.body session).2.tree = after

/-- **The tasks of a build** at work. -/
def yard (build : Build) (graph : TaskGraph Work) (henabled : build.place.cache.enabled = true) :
    Yard where
  graph
  place := build.place
  enabled := henabled
  effect := build.Effect graph

theorem yard_place (henabled : build.place.cache.enabled = true) :
    (build.yard graph henabled).place = build.place :=
  rfl

/-- How tasks run in a build that **writes down their steps**. -/
def watched (build : Build) : Schedule.Runner Work (BuildState × Yard.Floor) where
  launch := fun (state, floor) task dependencies =>
    (build.launch state task dependencies,
      floor.solo build.place { task, dependencies, session := state.session })
  await := fun (state, floor) running =>
    let (ending, state) := await state running
    (ending, state, floor)
  isStopping := fun (state, _) => state.session.isStopping

/-- **It runs as before.** -/
theorem watched_refines (build : Build) : build.watched.Refines build.runner Prod.fst where
  launch _ _ _ := rfl
  await _ _ := rfl
  isStopping _ := rfl
  finished _ _ := rfl
  proceed _ := rfl

/-- **What the start of a task does** to a build under way: its work is done, but no time goes by
until its end. -/
theorem launch_eq (build : Build) (state : BuildState) (task : Task Work)
    (dependencies : List TaskResult) :
    ∃ ending : Ending, ending.task = task.name ∧
      ending.outcome = Launch.outcome ⟨task, dependencies, state.session⟩ build.place ∧
      build.launch state task dependencies =
        { session := { Launch.after ⟨task, dependencies, state.session⟩ build.place with
            now := state.session.now }
          running := state.running.set task.name
            ⟨ending, (Launch.after ⟨task, dependencies, state.session⟩ build.place).now⟩ } := by
  simp only [Build.launch, Launch.after, Launch.outcome, Launch.job]
  generalize state.session.perform _ = result
  exact ⟨_, rfl, rfl, rfl⟩

/-- **What is known of a build** that writes down the steps of its tasks: those that were started
have taken all of them. -/
structure Watches (state : BuildState) (floor : Yard.Floor) : Prop where
  tree_eq : floor.tree = state.session.tree
  free : ∀ lock, floor.holder lock = none
  running : ∀ task, floor.phase task ≠ .idle → ∃ entry, state.running.get? task = some entry ∧
    entry.ending.task = task ∧ (floor.phase task).outcome? = some entry.ending.outcome

theorem watches_fresh (session : Session) : Watches { session } (.fresh session.tree) where
  tree_eq := rfl
  free _ := rfl
  running _ h := absurd rfl h

/-- **A task that is started** takes all its steps. -/
theorem Watches.launch (h : Watches state floor) (henabled : build.place.cache.enabled = true)
    {task : Task Work} (dependencies : List TaskResult)
    (hnode : ∃ node, graph.get? task.name = some node ∧ node.task = task) :
    Watches (build.launch state task dependencies)
        (floor.solo build.place ⟨task, dependencies, state.session⟩) ∧
      (build.yard graph henabled).Advance
        (floor.begun (build.yard graph henabled) task dependencies)
        (floor.solo build.place ⟨task, dependencies, state.session⟩) := by
  obtain ⟨node, hnode, rfl⟩ := hnode
  have hends := (build.yard graph henabled).ends_solo
    ⟨node.task, dependencies, state.session⟩ h.free h.tree_eq.symm
    fun request tree hask => ⟨node, dependencies, tree, request,
      Launch.opened ⟨node.task, dependencies, state.session⟩ tree, hnode,
      Launch.request_of_ask hask, rfl, rfl⟩
  rw [yard_place] at hends
  obtain ⟨ending, hname, houtcome, hlaunch⟩ := build.launch_eq state node.task dependencies
  rw [hlaunch]
  generalize Launch.after ⟨node.task, dependencies, state.session⟩ build.place = after at hends ⊢
  generalize floor.solo build.place ⟨node.task, dependencies, state.session⟩ = next at hends ⊢
  refine ⟨⟨hends.tree_eq, hends.free, fun other hstarted => ?_⟩, hends.alone.advance⟩
  rw [TaskTable.get?_set]
  by_cases heq : node.task.name = other
  · subst heq
    exact ⟨_, if_pos rfl, hname, houtcome ▸ hends.outcome_eq⟩
  · have hsame := hends.alone.others other (Ne.symm heq)
    rw [Yard.Floor.phase_begun, if_neg (Ne.symm heq)] at hsame
    rw [if_neg heq, hsame]
    exact h.running other (hsame ▸ hstarted)

theorem earliest_mem : ∀ {tasks : List RunningTask}, tasks ≠ [] →
    ∃ task ∈ tasks, earliest tasks = some task
  | [], h => absurd rfl h
  | task :: rest, _ => by
      rw [earliest]
      cases hrest : earliest rest with
      | none => exact ⟨task, List.mem_cons_self, rfl⟩
      | some other =>
        have hne : rest ≠ [] := by
          rintro rfl
          cases hrest
        obtain ⟨found, hmem, hfound⟩ := earliest_mem hne
        obtain rfl := Option.some.inj (hrest.symm.trans hfound)
        simp only
        split
        · exact ⟨other, List.mem_cons_of_mem _ hmem, rfl⟩
        · exact ⟨task, List.mem_cons_self, rfl⟩

/-- **The task that ends next** was started, and ends as it was bound to. -/
theorem Watches.await (h : Watches state floor) {running : List TaskName} (hne : running ≠ [])
    (hstarted : ∀ task ∈ running, floor.phase task ≠ .idle) :
    Watches (await state running).2 floor ∧ (Build.await state running).1.task ∈ running ∧
      (floor.phase (Build.await state running).1.task).outcome? =
        some (Build.await state running).1.outcome := by
  have hsome : running.filterMap (fun name => state.running.get? name) ≠ [] := by
    obtain ⟨task, htask⟩ := List.exists_mem_of_ne_nil _ hne
    obtain ⟨entry, hentry, -⟩ := h.running task (hstarted task htask)
    exact List.ne_nil_of_mem (List.mem_filterMap.2 ⟨task, htask, hentry⟩)
  obtain ⟨entry, hmem, hearliest⟩ := earliest_mem hsome
  obtain ⟨task, htask, hentry⟩ := List.mem_filterMap.1 hmem
  obtain ⟨same, hsame, rfl, houtcome⟩ := h.running task (hstarted task htask)
  obtain rfl := Option.some.inj (hentry.symm.trans hsame)
  rw [Build.await, hearliest]
  exact ⟨⟨h.tree_eq, h.free, h.running⟩, htask, houtcome⟩

/-- **A build runs its tasks in its yard**: one that writes down their steps has a crew. -/
def crew (build : Build) (graph : TaskGraph Work) (henabled : build.place.cache.enabled = true) :
    (build.yard graph henabled).Crew build.watched where
  floor := Prod.snd
  Valid state := Watches state.1 state.2
  launch := by
    rintro ⟨state, floor⟩ task results h hnode -
    have hlaunch := h.launch henabled results hnode
    simp only [watched]
    generalize floor.solo build.place _ = next at hlaunch ⊢
    exact hlaunch
  finished _ _ h := ⟨h, .refl⟩
  proceed _ h := ⟨h, .refl⟩
  await := by
    rintro ⟨state, floor⟩ first rest h hstarted
    obtain ⟨hwatches, hmem, houtcome⟩ := h.await (List.cons_ne_nil first rest) hstarted
    exact ⟨hwatches, .refl, hmem, houtcome⟩

end Build

end BuildMatrix
