import BuildMatrix.Proofs.CacheCalls
import BuildMatrix.Proofs.Contents

/-!
# Callers that ask for the same work

Several callers may ask one cache for the same piece of work at the same time. Each fetches the lock
of the work, waits until it is free, takes the fingerprint, looks for the record, and if it has to
runs its body and keeps a record; then it gives the lock back. Callers take these steps in any
order, and others use the cache and the tree meanwhile. A caller that is alone does what the cache
does for it, and whatever the order of the steps is, one caller at a time has the lock.
-/

namespace BuildMatrix

open FileTree

/-! ### The lock of a piece of work -/

/-- **The lock of a piece of work**, and the table of locks with it. A lock is known by its position
in the table; work that has none yet gets a new one. -/
def Cache.keyLock (locks : List String) (identity : String) : Nat × List String :=
  if identity ∈ locks then (locks.idxOf identity, locks)
  else (locks.length, locks ++ [identity])

theorem Cache.keyLock_spec (locks : List String) (identity : String) :
    identity ∈ (Cache.keyLock locks identity).2 ∧
    (Cache.keyLock locks identity).1 = (Cache.keyLock locks identity).2.idxOf identity ∧
    ∃ more, (Cache.keyLock locks identity).2 = locks ++ more := by
  rw [Cache.keyLock]
  split
  · next hmem => exact ⟨hmem, rfl, [], (List.append_nil locks).symm⟩
  · next hmem => exact ⟨by simp, by simp [List.idxOf_append, hmem], [identity], rfl⟩

/-! ### Callers and their steps -/

/-- A **piece of work that callers ask for**, from a cache that is enabled. -/
structure SharedWork where
  cache : Cache
  enabled : cache.enabled = true
  identity : String
  configuration : Environment
  inputs : List Path

namespace SharedWork

/-- How far a caller has come that **has the lock**. -/
inductive Stage where
  | entered
  | measured (fingerprint : Fingerprint)
  | running (fingerprint : Fingerprint)
  /-- The body has succeeded, and no record was kept yet. -/
  | produced (fingerprint : Fingerprint) (outputs : List Path)
  /-- It is decided what the call returns. -/
  | decided (result : Except Failure Execution)

/-- The fingerprint that was measured. -/
def Stage.fingerprint? : Stage → Option Fingerprint
  | .measured fingerprint => some fingerprint
  | .running fingerprint => some fingerprint
  | .produced fingerprint _ => some fingerprint
  | _ => none

/-- **How far a caller has come.** -/
inductive Progress where
  | arrived
  /-- The caller has fetched the lock and waits for it. -/
  | waiting (lock : Nat)
  | inside (lock : Nat) (stage : Stage)
  | returned (result : Except Failure Execution)

def Progress.lock? : Progress → Option Nat
  | .waiting lock => some lock
  | .inside lock _ => some lock
  | _ => none

/-- **What a step brings about.** -/
inductive Event (ι : Type) where
  | silent
  /-- A body starts to run. -/
  | began (caller : ι)
  | succeeded (caller : ι) (outputs : List Path)
  | failed (caller : ι)
  | kept (caller : ι) (createdAt : Timestamp)
  | notKept (caller : ι)
  | returned (caller : ι) (result : Except Failure Execution)

/-- The **tree and the locks** that callers share, and how far each of them has come. -/
structure Scene (ι : Type) where
  tree : FileTree
  locks : List String
  holder : Nat → Option ι
  progress : ι → Progress

/-- The scene when the callers arrive. -/
def Scene.fresh {ι : Type} (tree : FileTree) (locks : List String) : Scene ι where
  tree
  locks
  holder _ := none
  progress _ := .arrived

/-- A caller runs its body. -/
def Scene.Runs {ι : Type} (scene : Scene ι) (caller : ι) : Prop :=
  ∃ lock fingerprint, scene.progress caller = .inside lock (.running fingerprint)

variable {ι : Type} [DecidableEq ι] {work : SharedWork}

/-- **The steps of a caller that has the lock**, each with the tree and the stage before and after
it. A running body may change the tree in any way. -/
inductive Act (work : SharedWork) (caller : ι) (tree : FileTree) :
    Stage → Event ι → FileTree → Stage → Prop
  | measured :
      Act work caller tree .entered .silent tree
        (.measured (Fingerprint.compute tree work.configuration work.inputs))
  | reused {fingerprint : Fingerprint} {outputs : List Path} :
      work.cache.hit? tree work.identity fingerprint = some outputs →
      Act work caller tree (.measured fingerprint) .silent tree
        (.decided (.ok { outputs, upToDate := true }))
  /-- The work is not found, and the body is invoked. -/
  | began {fingerprint : Fingerprint} :
      work.cache.hit? tree work.identity fingerprint = none →
      Act work caller tree (.measured fingerprint) (.began caller) tree (.running fingerprint)
  | wrote {fingerprint : Fingerprint} {next : FileTree} :
      Act work caller tree (.running fingerprint) .silent next (.running fingerprint)
  | succeeded {fingerprint : Fingerprint} {outputs : List Path} :
      Act work caller tree (.running fingerprint) (.succeeded caller outputs) tree
        (.produced fingerprint outputs)
  | failed {fingerprint : Fingerprint} {failure : Failure} :
      Act work caller tree (.running fingerprint) (.failed caller) tree (.decided (.error failure))
  | kept {fingerprint : Fingerprint} {outputs : List Path} {createdAt : Timestamp}
      {stored : FileTree} :
      work.cache.store tree { identity := work.identity, fingerprint, outputs, createdAt } =
        (.ok (), stored) →
      Act work caller tree (.produced fingerprint outputs) (.kept caller createdAt) stored
        (.decided (.ok { outputs, upToDate := false }))
  | notKept {fingerprint : Fingerprint} {outputs : List Path} {createdAt : Timestamp}
      {error : CacheError} {stored : FileTree} :
      work.cache.store tree { identity := work.identity, fingerprint, outputs, createdAt } =
        (.error error, stored) →
      Act work caller tree (.produced fingerprint outputs) (.notKept caller) stored
        (.decided (.error (.cache error)))

/-- **A step** of one of the callers, or of someone else: others may fetch locks of their own, and
change the tree in any way that leaves the record of this work. -/
inductive Step (work : SharedWork) (scene : Scene ι) : Event ι → Scene ι → Prop
  | fetched {i : ι} : scene.progress i = .arrived →
      Step work scene .silent
        { scene with
          locks := (Cache.keyLock scene.locks work.identity).2
          progress := Function.update scene.progress i
            (.waiting (Cache.keyLock scene.locks work.identity).1) }
  | entered {i : ι} {lock : Nat} : scene.progress i = .waiting lock → scene.holder lock = none →
      Step work scene .silent
        { scene with
          holder := Function.update scene.holder lock (some i)
          progress := Function.update scene.progress i (.inside lock .entered) }
  | acted {i : ι} {lock : Nat} {stage stage' : Stage} {event : Event ι} {tree : FileTree} :
      scene.progress i = .inside lock stage → work.Act i scene.tree stage event tree stage' →
      Step work scene event
        { scene with tree, progress := Function.update scene.progress i (.inside lock stage') }
  /-- The lock is given back, and the call returns. -/
  | left {i : ι} {lock : Nat} {result : Except Failure Execution} :
      scene.progress i = .inside lock (.decided result) →
      Step work scene (.returned i result)
        { scene with
          holder := Function.update scene.holder lock none
          progress := Function.update scene.progress i (.returned result) }
  | meanwhile {tree : FileTree} {more : List String} :
      work.cache.record? tree work.identity = work.cache.record? scene.tree work.identity →
      work.identity ∉ more →
      Step work scene .silent { scene with tree, locks := scene.locks ++ more }

/-- **Steps one after another**, each with what it brings about and the tree it leaves. -/
inductive Run (work : SharedWork) (start : FileTree) (locks : List String) :
    List (Event ι × FileTree) → Scene ι → Prop
  | start : Run work start locks [] (.fresh start locks)
  | step {trace : List (Event ι × FileTree)} {scene next : Scene ι} {event : Event ι} :
      Run work start locks trace scene → work.Step scene event next →
      Run work start locks (trace ++ [(event, next.tree)]) next

/-! ### A caller that is alone -/

section Alone

variable {start tree next : FileTree} {locks : List String} {caller : ι} {lock : Nat}

/-- A caller **can come** so far, and the tree be this. -/
def Reaches (work : SharedWork) (start : FileTree) (locks : List String) (caller : ι)
    (tree : FileTree) (progress : Progress) : Prop :=
  ∃ trace scene, work.Run start locks trace scene ∧ scene.progress caller = progress ∧
    scene.tree = tree

theorem Reaches.act {stage stage' : Stage} {event : Event ι}
    (h : work.Reaches start locks caller tree (.inside lock stage))
    (hact : work.Act caller tree stage event next stage') :
    work.Reaches start locks caller next (.inside lock stage') := by
  obtain ⟨trace, scene, hrun, hprogress, rfl⟩ := h
  exact ⟨_, _, hrun.step (.acted hprogress hact), Function.update_self .., rfl⟩

theorem Reaches.leave {result : Except Failure Execution}
    (h : work.Reaches start locks caller tree (.inside lock (.decided result))) :
    work.Reaches start locks caller tree (.returned result) := by
  obtain ⟨trace, scene, hrun, hprogress, rfl⟩ := h
  exact ⟨_, _, hrun.step (.left hprogress), Function.update_self .., rfl⟩

theorem reaches_entered (work : SharedWork) (start : FileTree) (locks : List String) (caller : ι) :
    ∃ lock, work.Reaches start locks caller start (.inside lock .entered) := by
  have hfetched : work.Step (.fresh start locks) .silent _ := .fetched (i := caller) rfl
  refine ⟨(Cache.keyLock locks work.identity).1, _, _,
    (Run.start.step hfetched).step (.entered (i := caller) ?_ rfl), Function.update_self .., rfl⟩
  exact Function.update_self ..

/-- **A caller that is alone does what the cache does for it**: its steps lead to the result and the
tree of the call. -/
theorem reaches_execute (work : SharedWork) (locks : List String) (caller : ι)
    (body : Job (List Path)) (session : Session) :
    work.Reaches session.tree locks caller
      (work.cache.execute work.identity work.configuration work.inputs body session).2.tree
      (.returned (work.cache.execute work.identity work.configuration work.inputs body
        session).1) := by
  obtain ⟨lock, hentered⟩ := work.reaches_entered session.tree locks caller
  have hmeasured := hentered.act .measured
  cases hhit : work.cache.hit? session.tree work.identity
      (Fingerprint.compute session.tree work.configuration work.inputs) with
  | some outputs =>
    rw [Cache.execute_of_hit work.enabled hhit]
    exact (hmeasured.act (.reused hhit)).leave
  | none =>
    rw [Cache.execute_of_miss work.enabled hhit, Job.andThen]
    rcases hbody : body session with ⟨failure | outputs, after⟩
    all_goals
      have hwrote : work.Reaches session.tree locks caller after.tree
          (.inside lock (.running _)) := (hmeasured.act (.began hhit)).act .wrote
    · exact (hwrote.act .failed).leave
    · have hproduced : work.Reaches session.tree locks caller after.tree
          (.inside lock (.produced _ outputs)) := hwrote.act .succeeded
      simp only [Job.andThen, Cache.remember]
      rcases hstore : work.cache.store after.tree
          { identity := work.identity
            fingerprint := Fingerprint.compute session.tree work.configuration work.inputs
            outputs, createdAt := after.now } with ⟨error | ⟨⟩, stored⟩
      · exact (hproduced.act (.notKept hstore)).leave
      · exact (hproduced.act (.kept hstore)).leave

end Alone

/-! ### One caller at a time -/

/-- **The lock is in order**: all callers have fetched the same one, and who is inside has it. -/
structure Orderly (work : SharedWork) (scene : Scene ι) : Prop where
  fetched : ∀ i lock, (scene.progress i).lock? = some lock →
    work.identity ∈ scene.locks ∧ lock = scene.locks.idxOf work.identity
  holds : ∀ i lock stage, scene.progress i = .inside lock stage → scene.holder lock = some i

variable {scene next : Scene ι} {event : Event ι}

omit [DecidableEq ι] in
theorem Orderly.exclusive (h : work.Orderly scene) {i j : ι} {lock lock' : Nat}
    {stage stage' : Stage} (hi : scene.progress i = .inside lock stage)
    (hj : scene.progress j = .inside lock' stage') : i = j := by
  obtain ⟨-, hlock⟩ := h.fetched i lock (by rw [hi]; rfl)
  obtain ⟨-, hlock'⟩ := h.fetched j lock' (by rw [hj]; rfl)
  have hholder := h.holds i lock stage hi
  rw [hlock, ← hlock', h.holds j lock' stage' hj] at hholder
  exact (Option.some.inj hholder).symm

omit [DecidableEq ι] in
theorem orderly_fresh (work : SharedWork) (tree : FileTree) (locks : List String) :
    work.Orderly (.fresh tree locks : Scene ι) where
  fetched _ _ h := nomatch h
  holds _ _ _ h := nomatch h

/-- The lock stays in order when **one caller goes on**: its own lock is the right one, it has the
lock if it is inside, and so has whoever was inside before. -/
theorem Orderly.advance (h : work.Orderly scene) {i : ι} {progress : Progress}
    (hprogress : next.progress = Function.update scene.progress i progress)
    (hlocks : ∃ more, next.locks = scene.locks ++ more)
    (hown : ∀ lock, progress.lock? = some lock →
      work.identity ∈ next.locks ∧ lock = next.locks.idxOf work.identity)
    (hinside : ∀ lock stage, progress = .inside lock stage → next.holder lock = some i)
    (hothers : ∀ j lock stage, j ≠ i → scene.progress j = .inside lock stage →
      next.holder lock = some j) : work.Orderly next := by
  obtain ⟨more, hmore⟩ := hlocks
  refine ⟨fun j lock hj => ?_, fun j lock stage hj => ?_⟩
  · by_cases hij : j = i
    · rw [hprogress, hij, Function.update_self] at hj
      exact hown lock hj
    · rw [hprogress, Function.update_of_ne hij] at hj
      obtain ⟨hmem, rfl⟩ := h.fetched j lock hj
      rw [hmore]
      exact ⟨List.mem_append_left _ hmem, by rw [List.idxOf_append, if_pos hmem]⟩
  · by_cases hij : j = i
    · rw [hprogress, hij, Function.update_self] at hj
      exact hij ▸ hinside lock stage hj
    · rw [hprogress, Function.update_of_ne hij] at hj
      exact hothers j lock stage hij hj

/-- **Every step leaves the lock in order.** -/
theorem Orderly.step (h : work.Orderly scene) (hstep : work.Step scene event next) :
    work.Orderly next := by
  cases hstep with
  | @fetched i hi =>
    obtain ⟨hmem, hlock, hmore⟩ := Cache.keyLock_spec scene.locks work.identity
    refine h.advance rfl hmore ?_ (fun _ _ heq => nomatch heq) fun j lock stage _ hj =>
      h.holds j lock stage hj
    rintro lock heq
    obtain rfl := Option.some.inj heq
    exact ⟨hmem, hlock⟩
  | @entered i lock hi hfree =>
    refine h.advance rfl ⟨[], (List.append_nil _).symm⟩ ?_ ?_ fun j lock' stage _ hj => ?_
    · rintro lock' heq
      exact h.fetched i lock' (by rw [hi]; exact heq)
    · rintro lock' stage heq
      obtain ⟨rfl, -⟩ := Progress.inside.inj heq
      exact Function.update_self ..
    · -- nobody else was inside, since the lock was free
      have hother := h.holds j lock' stage hj
      refine (Function.update_of_ne ?_ ..).trans hother
      rintro rfl
      rw [hfree] at hother
      cases hother
  | @acted i lock stage stage' event tree hi hact =>
    refine h.advance rfl ⟨[], (List.append_nil _).symm⟩ ?_ ?_ fun j lock stage _ hj =>
      h.holds j lock stage hj
    · rintro lock' heq
      exact h.fetched i lock' (by rw [hi]; exact heq)
    · rintro lock' stage heq
      obtain ⟨rfl, -⟩ := Progress.inside.inj heq
      exact h.holds i lock _ hi
  | @left i lock result hi =>
    refine h.advance rfl ⟨[], (List.append_nil _).symm⟩ (fun _ heq => nomatch heq)
      (fun _ _ heq => nomatch heq) fun j lock' stage hij hj => ?_
    exact absurd (h.exclusive hj hi) hij
  | meanwhile hrecord hother =>
    refine ⟨fun j lock hj => ?_, h.holds⟩
    obtain ⟨hmem, rfl⟩ := h.fetched j lock hj
    exact ⟨List.mem_append_left _ hmem, by rw [List.idxOf_append, if_pos hmem]⟩

end SharedWork

end BuildMatrix
