import BuildMatrix.Proofs.SharedRuns

/-!
# The first use of shared work, and later ones

Callers ask for work that is not on record, and nobody but the cache writes the record. The first of
them that gets the lock finds nothing and runs its body. If no call fails, this is the only body
that is run: everybody else waits for the lock, finds the work on record and returns what that body
has produced. Callers that ask for work that is on record run no body at all.
-/

namespace BuildMatrix

namespace SharedWork

variable {ι : Type} [DecidableEq ι] {work : SharedWork} {scene next : Scene ι} {event : Event ι}
  {start tree : FileTree} {locks : List String} {trace : List (Event ι × FileTree)} {i : ι}

/-! ### What a trace tells of the callers -/

/-- Whether a body begins. -/
def Event.isBegan : Event ι → Bool
  | .began _ => true
  | _ => false

omit [DecidableEq ι] in
@[simp] theorem Event.isBegan_silent : (silent : Event ι).isBegan = false := rfl

omit [DecidableEq ι] in
@[simp] theorem Event.isBegan_began : (began i).isBegan = true := rfl

omit [DecidableEq ι] in
@[simp] theorem Event.isBegan_succeeded {outputs : List Path} :
    (succeeded i outputs).isBegan = false := rfl

/-- **A call fails**, or is about to. -/
inductive Progress.Fails : Progress → Prop
  | decided {lock : Nat} {failure : Failure} : Fails (.inside lock (.decided (.error failure)))
  | returned {failure : Failure} : Fails (.returned (.error failure))

/-- A call that fails **goes on to fail**. -/
theorem Step.fails (hstep : work.Step scene event next) (h : (scene.progress i).Fails) :
    (next.progress i).Fails := by
  have hstay : ∀ {j progress}, j ≠ i →
      (Function.update scene.progress j progress i).Fails := fun hne => by
    rwa [Function.update_of_ne hne.symm]
  cases hstep with
  | @fetched j hj =>
    refine hstay ?_
    rintro rfl
    rw [hj] at h
    cases h
  | @entered j lock hj hfree =>
    refine hstay ?_
    rintro rfl
    rw [hj] at h
    cases h
  | @acted j lock stage stage' event tree hj hact =>
    refine hstay ?_
    rintro rfl
    rw [hj] at h
    cases h
    cases hact
  | @left j lock result hj =>
    by_cases hne : j = i
    · subst hne
      rw [hj] at h
      cases h
      simp only [Function.update_self]
      exact .returned
    · exact hstay hne
  | meanwhile hrecord hother => exact h

/-- **A body that has failed, and a record that was not kept, make the call fail.** -/
theorem Run.fails (hrun : work.Run start locks trace scene)
    (h : (.failed i, tree) ∈ trace ∨ (.notKept i, tree) ∈ trace) : (scene.progress i).Fails := by
  induction hrun with
  | start => simp at h
  | @step trace scene next event hrun hstep ih =>
    rw [List.mem_append, List.mem_append, List.mem_singleton, List.mem_singleton] at h
    by_cases hold : (.failed i, tree) ∈ trace ∨ (.notKept i, tree) ∈ trace
    · exact hstep.fails (ih hold)
    · have hnew : event = .failed i ∨ event = .notKept i := by
        simp only [Prod.mk.injEq] at h
        tauto
      rcases hnew with rfl | rfl <;>
      · cases hstep with
        | @acted j lock stage stage' event tree hj hact =>
          cases hact
          simp only [Function.update_self]
          exact .decided

/-- **A call that has returned did so in a step.** -/
theorem Run.returned (hrun : work.Run start locks trace scene) {result : Except Failure Execution}
    (h : scene.progress i = .returned result) : ∃ tree, (.returned i result, tree) ∈ trace := by
  induction hrun with
  | start => cases h
  | @step trace scene next event hrun hstep ih =>
    have hold : scene.progress i = .returned result →
        ∃ tree, (.returned i result, tree) ∈ trace ++ [(event, next.tree)] := fun hsame =>
      (ih hsame).imp fun _ => List.mem_append_left _
    cases hstep with
    | meanwhile hrecord hother => exact hold h
    | @fetched j hj | @entered j lock hj hfree | @acted j lock stage stage' event tree hj hact =>
      by_cases hij : i = j
      · simp only [hij, Function.update_self] at h
        cases h
      · simp only [Function.update_of_ne hij] at h
        exact hold h
    | @left j lock other hj =>
      by_cases hij : i = j
      · simp only [hij, Function.update_self] at h
        obtain rfl := Progress.returned.inj h
        subst hij
        exact ⟨_, List.mem_append_right _ (List.mem_singleton_self _)⟩
      · simp only [Function.update_of_ne hij] at h
        exact hold h

/-- A run is **a shorter run and a step**. -/
theorem Run.of_concat {entry : Event ι × FileTree}
    (hrun : work.Run start locks (trace ++ [entry]) scene) :
    ∃ before, work.Run start locks trace before ∧ work.Step before entry.1 scene := by
  generalize hfull : trace ++ [entry] = full at hrun
  cases hrun with
  | start => simp at hfull
  | step hrun hstep =>
    obtain ⟨rfl, heq⟩ := List.append_inj' hfull rfl
    obtain rfl := List.singleton_inj.1 heq
    exact ⟨_, hrun, hstep⟩

/-- **The beginning of a run is a run.** -/
theorem Run.exists_prefix {before after : List (Event ι × FileTree)}
    (hrun : work.Run start locks (before ++ after) scene) :
    ∃ middle, work.Run start locks before middle := by
  induction after using List.reverseRecOn generalizing scene with
  | nil => exact ⟨scene, by simpa using hrun⟩
  | append_singleton after entry ih =>
    rw [← List.append_assoc] at hrun
    obtain ⟨middle, hrun, -⟩ := hrun.of_concat
    exact ih hrun

/-! ### Before a body has succeeded -/

omit [DecidableEq ι] in
/-- The tree that a trace ends with. -/
def lastTree (start : FileTree) (trace : List (Event ι × FileTree)) : FileTree :=
  (trace.map (·.2)).getLastD start

theorem Run.tree_eq (hrun : work.Run start locks trace scene) :
    scene.tree = lastTree start trace := by
  cases hrun with
  | start => rfl
  | step hrun hstep => simp [lastTree]

omit [DecidableEq ι] in
/-- **Nobody but the cache writes the record**: a step that brings nothing about leaves it. -/
def Guarded (work : SharedWork) (start : FileTree) (trace : List (Event ι × FileTree)) : Prop :=
  ∀ before tree after, trace = before ++ (.silent, tree) :: after →
    work.cache.record? tree work.identity =
      work.cache.record? (lastTree start before) work.identity

omit [DecidableEq ι] in
theorem Guarded.of_append {entry : Event ι × FileTree}
    (h : work.Guarded start (trace ++ [entry])) : work.Guarded start trace := by
  rintro before tree after rfl
  exact h before tree (after ++ [entry]) (by simp)

omit [DecidableEq ι] in
/-- A step **guards the record** if it leaves it as it is or brings something about. -/
theorem Guarded.concat (h : work.Guarded start trace)
    (hstep : event = .silent → work.cache.record? tree work.identity =
      work.cache.record? (lastTree start trace) work.identity) :
    work.Guarded start (trace ++ [(event, tree)]) := by
  intro before tree' after hsplit
  rcases List.eq_nil_or_concat after with rfl | ⟨after, entry, rfl⟩
  · obtain ⟨rfl, heq⟩ := List.append_inj' hsplit rfl
    obtain ⟨rfl, rfl⟩ := Prod.mk.inj (List.singleton_inj.1 heq)
    exact hstep rfl
  · rw [List.concat_eq_append, ← List.cons_append, ← List.append_assoc] at hsplit
    obtain ⟨rfl, -⟩ := List.append_inj' hsplit rfl
    exact h before tree' after rfl

/-- How far a caller that has the lock can be **while no body has succeeded or failed**. -/
def Stage.IsEarly : Stage → Prop
  | .entered => True
  | .measured _ => True
  | .running _ => True
  | _ => False

/-- **No body has succeeded or failed so far**: there is no record, no call has returned, and a body
has begun if and only if one is running. -/
structure Unsettled (work : SharedWork) (trace : List (Event ι × FileTree)) (scene : Scene ι) :
    Prop where
  record : work.cache.record? scene.tree work.identity = none
  returned : ∀ entry ∈ trace, ∀ i result, entry.1 ≠ .returned i result
  stages : ∀ i lock stage, scene.progress i = .inside lock stage → stage.IsEarly
  idle : (∀ i, ¬scene.Runs i) → trace.countP (·.1.isBegan) = 0
  busy : ∀ i, scene.Runs i → trace.countP (·.1.isBegan) = 1 ∧ ∃ entry ∈ trace, entry.1 = .began i

omit [DecidableEq ι] in
/-- A step in which **no body begins** and no call returns, and that leaves the record. -/
theorem Unsettled.pass (h : work.Unsettled trace scene)
    (hrecord : work.cache.record? next.tree work.identity =
      work.cache.record? scene.tree work.identity)
    (hbegan : event.isBegan = false) (hreturned : ∀ i result, event ≠ .returned i result)
    (hstages : ∀ i lock stage, next.progress i = .inside lock stage → stage.IsEarly)
    (hruns : ∀ i, next.Runs i ↔ scene.Runs i) :
    work.Unsettled (trace ++ [(event, next.tree)]) next where
  record := hrecord.trans h.record
  returned := List.forall_mem_append.2 ⟨h.returned, by simpa using hreturned⟩
  stages := hstages
  idle hidle := by simp [hbegan, h.idle fun i hi => hidle i ((hruns i).2 hi)]
  busy i hi := by
    obtain ⟨hcount, entry, hmem, hentry⟩ := h.busy i ((hruns i).1 hi)
    exact ⟨by simp [hbegan, hcount], entry, List.mem_append_left _ hmem, hentry⟩

theorem Scene.runs_update {progress : Progress} (hnext : next.progress =
      Function.update scene.progress i progress)
    (hruns : (∃ lock fingerprint, progress = .inside lock (.running fingerprint)) ↔ scene.Runs i)
    (j : ι) : next.Runs j ↔ scene.Runs j := by
  by_cases hij : j = i
  · subst hij
    rw [← hruns, Scene.Runs, hnext, Function.update_self]
  · rw [Scene.Runs, Scene.Runs, hnext, Function.update_of_ne hij]

/-- **As long as no body succeeds or fails**, none returns, and one body begins at most. -/
theorem Unsettled.step (h : work.Unsettled trace scene) (horderly : work.Orderly scene)
    (hstep : work.Step scene event next)
    (hguarded : event = .silent →
      work.cache.record? next.tree work.identity = work.cache.record? scene.tree work.identity)
    (hevent : ∀ i outputs, event ≠ .succeeded i outputs ∧ event ≠ .failed i) :
    work.Unsettled (trace ++ [(event, next.tree)]) next := by
  have hstages : ∀ {i progress}, (∀ lock stage, progress = .inside lock stage → stage.IsEarly) →
      ∀ j lock stage, Function.update scene.progress i progress j = .inside lock stage →
        stage.IsEarly := by
    intro i progress hprogress j lock stage hj
    by_cases hij : j = i
    · rw [hij, Function.update_self] at hj
      exact hprogress lock stage hj
    · rw [Function.update_of_ne hij] at hj
      exact h.stages j lock stage hj
  have hinside : ∀ {stage : Stage} {lock}, stage.IsEarly →
      ∀ lock' stage', Progress.inside lock stage = .inside lock' stage' → stage'.IsEarly := by
    rintro stage lock hearly _ _ ⟨⟩
    exact hearly
  cases hstep with
  | meanwhile hrecord hother =>
    exact h.pass hrecord rfl (by simp) h.stages fun _ => Iff.rfl
  | @fetched i hi =>
    exact h.pass rfl rfl (by simp) (hstages fun _ _ heq => nomatch heq)
      (Scene.runs_update rfl (by simp [Scene.Runs, hi]))
  | @entered i lock hi hfree =>
    exact h.pass rfl rfl (by simp) (hstages (hinside trivial))
      (Scene.runs_update rfl (by simp [Scene.Runs, hi]))
  | @left i lock result hi => exact (h.stages i lock _ hi).elim
  | @acted i lock stage stage' event tree hi hact =>
    have hearly := h.stages i lock stage hi
    cases hact with
    | measured =>
      exact h.pass rfl rfl (by simp) (hstages (hinside trivial))
        (Scene.runs_update rfl (by simp [Scene.Runs, hi]))
    | reused hhit =>
      obtain ⟨record, hrecord, -⟩ := Cache.record?_of_hit? hhit
      rw [h.record] at hrecord
      cases hrecord
    | wrote =>
      exact h.pass (hguarded rfl) rfl (by simp) (hstages (hinside trivial))
        (Scene.runs_update rfl (by simp [Scene.Runs, hi]))
    | succeeded => exact absurd rfl (hevent i _).1
    | failed => exact absurd rfl (hevent i []).2
    | kept _ | notKept _ => exact hearly.elim
    | began hmiss =>
      -- nobody runs its body, since this caller has the lock
      have hidle : ∀ j, ¬scene.Runs j := by
        rintro j ⟨lock', fingerprint, hj⟩
        obtain rfl := horderly.exclusive hi hj
        cases hi.symm.trans hj
      refine ⟨h.record, List.forall_mem_append.2 ⟨h.returned, by simp⟩,
        hstages (hinside trivial), fun hnone => ?_, fun j hj => ?_⟩
      · exact absurd ⟨lock, _, Function.update_self ..⟩ (hnone i)
      · refine ⟨by simp [h.idle hidle], ?_⟩
        have hij : j = i := by
          by_contra hne
          obtain ⟨lock', fingerprint, hinside⟩ := hj
          simp only [Function.update_of_ne hne] at hinside
          exact hidle j ⟨lock', fingerprint, hinside⟩
        exact ⟨_, List.mem_append_right _ (List.mem_singleton_self _), hij ▸ rfl⟩

/-- **Over a run in which no body succeeds or fails.** -/
theorem Run.unsettled (hrun : work.Run start locks trace scene) (h : work.Undisturbed start trace)
    (hguarded : work.Guarded start trace)
    (hnone : work.cache.record? start work.identity = none)
    (hevents : ∀ entry ∈ trace, ∀ i outputs, entry.1 ≠ .succeeded i outputs ∧ entry.1 ≠ .failed i) :
    work.Unsettled trace scene := by
  induction hrun with
  | start =>
    refine ⟨hnone, by simp, fun _ _ _ heq => (nomatch heq), fun _ => rfl, ?_⟩
    rintro i ⟨_, _, heq⟩
    cases heq
  | @step trace scene next event hrun hstep ih =>
    obtain ⟨hevents, hevent⟩ := List.forall_mem_append.1 hevents
    refine (ih h.of_append hguarded.of_append hevents).step (hrun.told h.of_append).1 hstep
      (fun hsilent => ?_) (hevent _ (List.mem_singleton_self _))
    subst hsilent
    rw [hrun.tree_eq]
    exact hguarded trace next.tree [] rfl

/-! ### Whole runs -/

/-- **One body begins for all callers**, if the work is not on record when they arrive, nothing
disturbs them, only the cache writes the record, and no call fails: every call that was made has
returned what that body has produced, as up to date unless it is the call that ran it, and the work
is on record. -/
theorem one_body_begins (hrun : work.Run start locks trace scene)
    (h : work.Undisturbed start trace) (hguarded : work.Guarded start trace)
    (hnone : work.cache.record? start work.identity = none)
    (hdone : ∀ i, scene.progress i = .arrived ∨
      ∃ execution, scene.progress i = .returned (.ok execution))
    (hcalled : ∃ i, scene.progress i ≠ .arrived) :
    ∃ winner outputs tree, trace.countP (·.1.isBegan) = 1 ∧
      (.succeeded winner outputs, tree) ∈ trace ∧
      work.OnRecord scene.tree (work.fingerprint start) outputs ∧
      scene.progress winner ≠ .arrived ∧
      ∀ i, scene.progress i = .arrived ∨ scene.progress i =
        .returned (.ok { outputs, upToDate := decide (i ≠ winner) }) := by
  have hfailed : ∀ entry ∈ trace, ∀ i, entry.1 ≠ .failed i := by
    rintro ⟨event, tree⟩ hmem i rfl
    have hfails := hrun.fails (.inl hmem)
    rcases hdone i with hi | ⟨execution, hi⟩ <;> rw [hi] at hfails <;> cases hfails
  obtain ⟨-, -, htold⟩ := hrun.told h
  rcases htold with hnever | ⟨before, winner, outputs, tree, after, rfl, hbefore, hafter, hwon⟩
  · -- some call has returned, so that a body has succeeded
    obtain ⟨i, hi⟩ := hcalled
    obtain ⟨execution, hreturned⟩ := (hdone i).resolve_left hi
    obtain ⟨tree, hmem⟩ := hrun.returned hreturned
    have hunsettled := hrun.unsettled h hguarded hnone fun entry hentry j outputs =>
      ⟨hnever entry hentry j outputs, hfailed entry hentry j⟩
    exact absurd rfl (hunsettled.returned _ hmem i _)
  -- until then the winner's body was the only one
  obtain ⟨reached, hreached⟩ :=
    Run.exists_prefix (show work.Run start locks
      ((before ++ [(.succeeded winner outputs, tree)]) ++ after) scene by simpa using hrun)
  obtain ⟨middle, hmiddle, hstep⟩ := hreached.of_concat
  have hundisturbed : work.Undisturbed start before := by
    have hearlier : ∀ rest, work.Undisturbed start (before ++ rest) →
        work.Undisturbed start before := fun rest => by
      induction rest using List.reverseRecOn with
      | nil => simp
      | append_singleton rest entry ih =>
        rw [← List.append_assoc]
        exact fun hrest => ih hrest.of_append
    exact hearlier _ h
  have hunsettled := hmiddle.unsettled hundisturbed
    (fun before' tree' after' hsplit => hguarded before' tree'
      (after' ++ (.succeeded winner outputs, tree) :: after) (by simp [hsplit])) hnone
    fun entry hentry i other => ⟨hbefore entry hentry i other, hfailed entry (by simp [hentry]) i⟩
  have hruns : middle.Runs winner := by
    cases hstep with
    | acted hi hact =>
      cases hact with
      | succeeded => exact ⟨_, _, hi⟩
  have hreturns : ∀ i, scene.progress i = .arrived ∨ scene.progress i =
      .returned (.ok { outputs, upToDate := decide (i ≠ winner) }) := by
    intro i
    refine (hdone i).imp_right fun ⟨execution, hi⟩ => ?_
    obtain ⟨tree', hmem⟩ := hrun.returned hi
    rcases List.mem_append.1 hmem with hmem | hmem
    · exact absurd rfl (hunsettled.returned _ hmem i _)
    · rcases List.mem_cons.1 hmem with heq | hmem
      · cases heq
      · rw [hi, show Except.ok execution = _ from hafter _ hmem]
        simp [eq_comm]
  have hwinner : scene.progress winner ≠ .arrived := fun harrived => by
    have hwins := hwon.own winner rfl
    rw [harrived] at hwins
    cases hwins
  refine ⟨winner, outputs, tree, ?_, by simp, ?_, hwinner, hreturns⟩
  · have hnone : after.countP (·.1.isBegan) = 0 := by
      refine List.countP_eq_zero.2 fun entry hentry hbegan => ?_
      have hfollows := hafter entry hentry
      rcases entry with ⟨event, tree'⟩
      cases event <;> first | exact hfollows | cases hbegan
    simp [(hunsettled.busy winner hruns).1, hnone]
  · refine hwon.record.resolve_left ?_
    rintro ⟨j, lock, hj, hproduced⟩
    rcases hreturns j with hi | hi <;> rw [hi] at hproduced <;> cases hproduced

/-- **No body begins for later callers**, if the work is on record when they arrive with all that
was produced, and nothing disturbs them or removes it: every call that has returned found it. -/
theorem no_body_begins {outputs : List Path} (hrun : work.Run start locks trace scene)
    (h : work.Undisturbed start trace)
    (hrecord : work.OnRecord start (work.fingerprint start) outputs)
    (hexist : ∀ tree ∈ start :: trace.map (·.2), ∀ path ∈ outputs, tree.pathExists path = true) :
    trace.countP (·.1.isBegan) = 0 ∧
      ∀ i result, scene.progress i = .returned result →
        result = .ok { outputs, upToDate := true } := by
  have hfollows : (∀ entry ∈ trace, entry.1.Follows none outputs) ∧
      work.Won start none outputs scene := by
    induction hrun with
    | start =>
      exact ⟨by simp, hexist _ List.mem_cons_self, .inr hrecord, nofun,
        fun _ _ _ _ heq => nomatch heq⟩
    | @step trace scene next event hrun hstep ih =>
      obtain ⟨horderly, hsteady, -⟩ := hrun.told h.of_append
      obtain ⟨hbefore, hwon⟩ := ih h.of_append fun tree htree => hexist tree (by
        rcases List.mem_cons.1 htree with rfl | htree
        · exact List.mem_cons_self
        · simp [List.mem_map.1 htree])
      obtain ⟨hevent, hnext⟩ := hwon.step horderly hsteady hstep
        (h.calm (event, next.tree) (by simp)) (hexist _ (by simp))
      exact ⟨List.forall_mem_append.2 ⟨hbefore, by simpa using hevent⟩, hnext⟩
  refine ⟨List.countP_eq_zero.2 fun entry hentry hbegan => ?_, fun i result hi => ?_⟩
  · have hevent := hfollows.1 entry hentry
    rcases entry with ⟨event, tree⟩
    cases event <;> first | exact hevent | cases hbegan
  · obtain ⟨tree, hmem⟩ := hrun.returned hi
    have hresult : result = _ := hfollows.1 _ hmem
    simpa using hresult

end SharedWork

end BuildMatrix
