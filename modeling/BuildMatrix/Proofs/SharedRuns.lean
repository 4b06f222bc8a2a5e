import BuildMatrix.Proofs.RecordReading
import BuildMatrix.Proofs.SharedWork
import BuildMatrix.Proofs.Timestamps

/-!
# One success for all callers

As long as the inputs stay what they are, records can be kept, and what a body has produced stays
there, one body succeeds at most of all callers that ask for the same work. Until then bodies may
fail, one after the other, and they may do to the tree what they like. After it whoever takes the
lock finds the work on record, so that no body begins any more.
-/

namespace BuildMatrix

open FileTree

namespace SharedWork

variable {ι : Type} [DecidableEq ι] {work : SharedWork} {scene next : Scene ι} {event : Event ι}
  {tree stored : FileTree} {trace : List (Event ι × FileTree)} {i : ι} {stage stage' : Stage}
  {lock : Nat}

/-! ### Undisturbed runs -/

/-- A step **disturbs nothing**: it leaves a tidy tree, the inputs have the contents they had at the
start, a record that is to be kept is kept, at a time that there is, and no link is put in the place
of its files. -/
structure Calm (work : SharedWork) (start : FileTree) (event : Event ι) (tree : FileTree) :
    Prop where
  tidy : tree.Tidy
  contents : ∀ path ∈ work.inputs,
    Fingerprint.contentStream tree path = Fingerprint.contentStream start path
  kept : ∀ i, event ≠ .notKept i
  time : ∀ i createdAt, event = .kept i createdAt → createdAt.InRange
  unlinked : work.cache.Unlinked work.identity tree

/-- **A run is undisturbed** if every step is calm, and what a body has produced exists when it
succeeds and is not removed. -/
structure Undisturbed (work : SharedWork) (start : FileTree)
    (trace : List (Event ι × FileTree)) : Prop where
  tidy : start.Tidy
  unlinked : work.cache.Unlinked work.identity start
  calm : ∀ entry ∈ trace, work.Calm start entry.1 entry.2
  outputs : ∀ before after i outputs tree, trace = before ++ (.succeeded i outputs, tree) :: after →
    ∀ entry ∈ (.succeeded i outputs, tree) :: after, ∀ path ∈ outputs,
      entry.2.pathExists path = true

/-- The fingerprint of the work, as its inputs are in a tree. -/
def fingerprint (work : SharedWork) (tree : FileTree) : Fingerprint :=
  Fingerprint.compute tree work.configuration work.inputs

/-- **The work is on record**, with a fingerprint and some outputs. -/
def OnRecord (work : SharedWork) (tree : FileTree) (fingerprint : Fingerprint)
    (outputs : List Path) : Prop :=
  ∃ record, work.cache.record? tree work.identity = some record ∧
    record.fingerprint = fingerprint ∧ record.outputs = outputs

/-- Work whose record was kept, at a time that can be read back, **is on record**. -/
theorem onRecord_of_store {fingerprint : Fingerprint} {outputs : List Path} {createdAt : Timestamp}
    (htidy : tree.Tidy) (hunlinked : work.cache.Unlinked work.identity tree)
    (htime : createdAt.InRange) (hstore : work.cache.store tree
      { identity := work.identity, fingerprint, outputs, createdAt } = (.ok (), stored)) :
    work.OnRecord stored fingerprint outputs := by
  have hreadable : (Timestamp.parse? createdAt.text).isSome = true := by
    rw [Timestamp.parse?_text htime, Option.isSome_some]
  exact (@Cache.record?_of_store work.cache tree stored htidy
    { identity := work.identity, fingerprint, outputs, createdAt } hunlinked hreadable hstore).2

/-- **The tree is steady**: it can be worked on, and the inputs are what they were, so that
everybody takes the same fingerprint. -/
structure Steady (work : SharedWork) (start : FileTree) (scene : Scene ι) : Prop where
  tidy : scene.tree.Tidy
  unlinked : work.cache.Unlinked work.identity scene.tree
  contents : ∀ path ∈ work.inputs,
    Fingerprint.contentStream scene.tree path = Fingerprint.contentStream start path
  measured : ∀ i lock stage fingerprint, scene.progress i = .inside lock stage →
    stage.fingerprint? = some fingerprint → fingerprint = work.fingerprint start

variable {start : FileTree}

omit [DecidableEq ι] in
theorem Undisturbed.steady (h : work.Undisturbed start trace) (locks : List String) :
    work.Steady start (.fresh start locks : Scene ι) where
  tidy := h.tidy
  unlinked := h.unlinked
  contents _ _ := rfl
  measured _ _ _ _ heq := nomatch heq

omit [DecidableEq ι] in
/-- **Everybody takes the same fingerprint**, whatever step a caller takes. -/
theorem Act.fingerprint_eq {next : FileTree} (h : work.Act i tree stage event next stage')
    (hcontents : ∀ path ∈ work.inputs,
      Fingerprint.contentStream tree path = Fingerprint.contentStream start path)
    (hstage : ∀ fingerprint, stage.fingerprint? = some fingerprint →
      fingerprint = work.fingerprint start) :
    ∀ fingerprint, stage'.fingerprint? = some fingerprint →
      fingerprint = work.fingerprint start := by
  cases h with
  | measured =>
    intro fingerprint heq
    rw [← Option.some.inj heq, SharedWork.fingerprint,
      Fingerprint.compute_eq work.configuration hcontents]
  | began _ => exact hstage
  | wrote => exact hstage
  | succeeded => exact hstage
  | reused _ | failed | kept _ | notKept _ => exact fun _ heq => nomatch heq

/-- **The tree stays steady**, whatever step comes next. -/
theorem Steady.step (h : work.Steady start scene) (hstep : work.Step scene event next)
    (hcalm : work.Calm start event next.tree) : work.Steady start next := by
  have hstay : ∀ {i : ι} {progress : Progress},
      (∀ lock stage fingerprint, progress = .inside lock stage →
        stage.fingerprint? = some fingerprint → fingerprint = work.fingerprint start) →
      ∀ j lock stage fingerprint,
        Function.update scene.progress i progress j = .inside lock stage →
        stage.fingerprint? = some fingerprint → fingerprint = work.fingerprint start := by
    intro i progress hprogress j lock stage fingerprint hj
    by_cases hij : j = i
    · rw [hij, Function.update_self] at hj
      exact hprogress lock stage fingerprint hj
    · rw [Function.update_of_ne hij] at hj
      exact h.measured j lock stage fingerprint hj
  cases hstep with
  | fetched hi =>
    exact ⟨h.tidy, h.unlinked, h.contents, hstay fun _ _ _ heq => nomatch heq⟩
  | entered hi hfree =>
    refine ⟨h.tidy, h.unlinked, h.contents, hstay fun _ _ _ heq heq' => ?_⟩
    obtain ⟨-, rfl⟩ := Progress.inside.inj heq
    cases heq'
  | @acted i lock stage stage' event tree hi hact =>
    have hmeasured := hact.fingerprint_eq h.contents
      fun fingerprint => h.measured i lock stage fingerprint hi
    refine ⟨hcalm.tidy, hcalm.unlinked, hcalm.contents, hstay fun _ _ _ heq heq' => ?_⟩
    obtain ⟨-, rfl⟩ := Progress.inside.inj heq
    exact hmeasured _ heq'
  | left hi =>
    exact ⟨h.tidy, h.unlinked, h.contents, hstay fun _ _ _ heq => nomatch heq⟩
  | meanwhile hrecord hother =>
    exact ⟨hcalm.tidy, hcalm.unlinked, hcalm.contents, h.measured⟩

/-! ### After a body has succeeded -/

/-- What a caller that has the lock may be at **when a body of another has succeeded**. -/
def Stage.Follows (outputs : List Path) (stage : Stage) : Prop :=
  stage = .entered ∨ (∃ fingerprint, stage = .measured fingerprint) ∨
    stage = .decided (.ok { outputs, upToDate := true })

/-- How far a caller has come **whose body has succeeded**. -/
inductive Progress.Wins (fingerprint : Fingerprint) (outputs : List Path) : Progress → Prop
  | produced {lock : Nat} : Wins fingerprint outputs (.inside lock (.produced fingerprint outputs))
  | decided {lock : Nat} :
      Wins fingerprint outputs (.inside lock (.decided (.ok { outputs, upToDate := false })))
  | returned : Wins fingerprint outputs (.returned (.ok { outputs, upToDate := false }))

/-- **The work was done**, by the body of a caller or before the callers arrived: what was produced
is there, it is on record unless the caller is about to keep the record, and no other caller runs
its body. -/
structure Won (work : SharedWork) (start : FileTree) (winner : Option ι) (outputs : List Path)
    (scene : Scene ι) : Prop where
  exist : ∀ path ∈ outputs, scene.tree.pathExists path = true
  record : (∃ i lock, winner = some i ∧
      scene.progress i = .inside lock (.produced (work.fingerprint start) outputs)) ∨
    work.OnRecord scene.tree (work.fingerprint start) outputs
  own : ∀ i, winner = some i → (scene.progress i).Wins (work.fingerprint start) outputs
  others : ∀ j lock stage, winner ≠ some j → scene.progress j = .inside lock stage →
    stage.Follows outputs

/-- What may still happen when the work was done: **no body begins or succeeds**, and a call
returns what was produced, as up to date unless it is the call that did the work. -/
def Event.Follows (winner : Option ι) (outputs : List Path) : Event ι → Prop
  | .began _ => False
  | .succeeded _ _ => False
  | .returned i result => result = .ok { outputs, upToDate := decide (winner ≠ some i) }
  | _ => True

variable {winner : Option ι} {outputs : List Path}

/-- **Another caller goes on**, and leaves the tree as it is. -/
theorem Won.advance (h : work.Won start winner outputs scene) {progress : Progress}
    (hi : winner ≠ some i) (hprogress : next.progress = Function.update scene.progress i progress)
    (htree : next.tree = scene.tree)
    (hstage : ∀ lock stage, progress = .inside lock stage → stage.Follows outputs) :
    work.Won start winner outputs next := by
  have hwinner : ∀ j, winner = some j → next.progress j = scene.progress j := by
    rintro j rfl
    rw [hprogress, Function.update_of_ne]
    rintro rfl
    exact hi rfl
  refine ⟨htree ▸ h.exist, ?_, fun j hj => hwinner j hj ▸ h.own j hj,
    fun j lock stage hj hinside => ?_⟩
  · rcases h.record with ⟨j, lock, hj, hproduced⟩ | hrecord
    · exact .inl ⟨j, lock, hj, (hwinner j hj).trans hproduced⟩
    · exact .inr (htree ▸ hrecord)
  · by_cases hij : j = i
    · rw [hprogress, hij, Function.update_self] at hinside
      exact hstage lock stage hinside
    · rw [hprogress, Function.update_of_ne hij] at hinside
      exact h.others j lock stage hj hinside

/-- **The caller that has done the work goes on**, and the work is on record. -/
theorem Won.advance_own (h : work.Won start winner outputs scene) {progress : Progress}
    (hi : winner = some i) (hprogress : next.progress = Function.update scene.progress i progress)
    (hexist : ∀ path ∈ outputs, next.tree.pathExists path = true)
    (hrecord : work.OnRecord next.tree (work.fingerprint start) outputs)
    (hwins : progress.Wins (work.fingerprint start) outputs) :
    work.Won start winner outputs next := by
  refine ⟨hexist, .inr hrecord, fun j hj => ?_, fun j lock stage hj hinside => ?_⟩
  · obtain rfl := Option.some.inj (hi.symm.trans hj)
    rw [hprogress, Function.update_self]
    exact hwins
  · have hij : j ≠ i := fun heq => hj (heq ▸ hi)
    rw [hprogress, Function.update_of_ne hij] at hinside
    exact h.others j lock stage hj hinside

omit [DecidableEq ι] in
/-- Work that is on record, with all that it produced, **is found**. -/
theorem OnRecord.hit? {fingerprint : Fingerprint} (h : work.OnRecord tree fingerprint outputs)
    (hexist : ∀ path ∈ outputs, tree.pathExists path = true) :
    work.cache.hit? tree work.identity fingerprint = some outputs := by
  obtain ⟨record, hrecord, rfl, rfl⟩ := h
  exact Cache.hit?_of_record? hrecord hexist

/-- **The step of another caller that has the lock**: it takes the fingerprint, or finds the work on
record. -/
theorem Won.act (h : work.Won start winner outputs scene) (horderly : work.Orderly scene)
    (hsteady : work.Steady start scene) (hi : scene.progress i = .inside lock stage)
    (hne : winner ≠ some i) (hact : work.Act i scene.tree stage event tree stage') :
    event.Follows winner outputs ∧ tree = scene.tree ∧ stage'.Follows outputs := by
  -- the caller whose body has succeeded is not inside, so it has kept its record
  have hhit : work.cache.hit? scene.tree work.identity (work.fingerprint start) = some outputs := by
    rcases h.record with ⟨j, lock', hj, hproduced⟩ | hrecord
    · exact absurd (horderly.exclusive hproduced hi ▸ hj) hne
    · exact hrecord.hit? h.exist
  rcases h.others i lock stage hne hi with rfl | ⟨fingerprint, rfl⟩ | rfl
  · cases hact with
    | measured => exact ⟨trivial, rfl, .inr (.inl ⟨_, rfl⟩)⟩
  · obtain rfl := hsteady.measured i lock _ fingerprint hi rfl
    cases hact with
    | reused hfound =>
      rw [hhit] at hfound
      obtain rfl := Option.some.inj hfound
      exact ⟨trivial, rfl, .inr (.inr rfl)⟩
    | began hmiss =>
      rw [hhit] at hmiss
      cases hmiss
  · cases hact

/-- **The step of the caller that has done the work**: it keeps the record. -/
theorem Won.act_own (h : work.Won start winner outputs scene) (hsteady : work.Steady start scene)
    (hi : scene.progress i = .inside lock stage) (hwinner : winner = some i)
    (hact : work.Act i scene.tree stage event tree stage') (hcalm : work.Calm start event tree) :
    event.Follows winner outputs ∧ work.OnRecord tree (work.fingerprint start) outputs ∧
      stage' = .decided (.ok { outputs, upToDate := false }) := by
  have hwins := h.own i hwinner
  rw [hi] at hwins
  cases hwins with
  | produced =>
    cases hact with
    | @kept _ _ createdAt _ hstore =>
      have htime := hcalm.time i createdAt rfl
      exact ⟨trivial, onRecord_of_store hsteady.tidy hsteady.unlinked htime hstore, rfl⟩
    | notKept hstore => exact absurd rfl (hcalm.kept i)
  | decided => cases hact

/-- **After the work was done, no body begins**, whatever step comes next, and what was produced is
what calls return. -/
theorem Won.step (h : work.Won start winner outputs scene) (horderly : work.Orderly scene)
    (hsteady : work.Steady start scene) (hstep : work.Step scene event next)
    (hcalm : work.Calm start event next.tree)
    (hexist : ∀ path ∈ outputs, next.tree.pathExists path = true) :
    event.Follows winner outputs ∧ work.Won start winner outputs next := by
  -- a caller that has not got the lock has not done the work
  have hlate : ∀ {i}, (scene.progress i = .arrived ∨ ∃ lock, scene.progress i = .waiting lock) →
      winner ≠ some i := by
    intro i hi hwinner
    have hwins := h.own i hwinner
    rcases hi with hi | ⟨lock, hi⟩ <;> rw [hi] at hwins <;> cases hwins
  cases hstep with
  | @fetched i hi =>
    exact ⟨trivial, h.advance (hlate (.inl hi)) rfl rfl fun _ _ heq => nomatch heq⟩
  | @entered i lock hi hfree =>
    refine ⟨trivial, h.advance (hlate (.inr ⟨lock, hi⟩)) rfl rfl fun lock' stage heq => ?_⟩
    obtain ⟨-, rfl⟩ := Progress.inside.inj heq
    exact .inl rfl
  | @acted i lock stage stage' event tree hi hact =>
    by_cases hwinner : winner = some i
    · obtain ⟨hevent, hrecord, rfl⟩ := h.act_own hsteady hi hwinner hact hcalm
      exact ⟨hevent, h.advance_own hwinner rfl hexist hrecord .decided⟩
    · obtain ⟨hevent, rfl, hstage⟩ := h.act horderly hsteady hi hwinner hact
      refine ⟨hevent, h.advance hwinner rfl rfl fun lock' other heq => ?_⟩
      obtain ⟨-, rfl⟩ := Progress.inside.inj heq
      exact hstage
  | @left i lock result hi =>
    by_cases hwinner : winner = some i
    · have hwins := h.own i hwinner
      rw [hi] at hwins
      cases hwins
      refine ⟨by simp [Event.Follows, hwinner], h.advance_own hwinner rfl hexist ?_ .returned⟩
      rcases h.record with ⟨j, lock', hj, hproduced⟩ | hrecord
      · obtain rfl := Option.some.inj (hwinner.symm.trans hj)
        cases hi.symm.trans hproduced
      · exact hrecord
    · rcases h.others i lock _ hwinner hi with heq | ⟨fingerprint, heq⟩ | heq
      · cases heq
      · cases heq
      · obtain rfl := Stage.decided.inj heq
        exact ⟨by simp [Event.Follows, hwinner],
          h.advance hwinner rfl rfl fun _ _ heq => nomatch heq⟩
  | meanwhile hrecord hother =>
    refine ⟨trivial, hexist, h.record.imp_right fun ⟨record, hfound, hrest⟩ => ?_, h.own,
      h.others⟩
    exact ⟨record, hrecord.trans hfound, hrest⟩

/-- When a body succeeds, **the work was done by its caller**. -/
theorem won_of_succeeded {i : ι} (horderly : work.Orderly scene)
    (hsteady : work.Steady start scene) (hstep : work.Step scene (.succeeded i outputs) next)
    (hexist : ∀ path ∈ outputs, next.tree.pathExists path = true) :
    work.Won start (some i) outputs next := by
  cases hstep with
  | @acted i lock stage stage' event tree hi hact =>
    cases hact with
    | @succeeded fingerprint =>
      obtain rfl := hsteady.measured _ lock _ fingerprint hi rfl
      refine ⟨hexist, .inl ⟨_, lock, rfl, Function.update_self ..⟩, fun j hj => ?_,
        fun j lock' stage hj hinside => ?_⟩
      · obtain rfl := Option.some.inj hj
        simp only [Function.update_self]
        exact .produced
      · have hij : j ≠ _ := fun heq => hj (congrArg some heq.symm)
        simp only [Function.update_of_ne hij] at hinside
        exact absurd (horderly.exclusive hinside hi) hij

/-! ### All runs -/

omit [DecidableEq ι] in
theorem Undisturbed.of_append {entry : Event ι × FileTree}
    (h : work.Undisturbed start (trace ++ [entry])) : work.Undisturbed start trace where
  tidy := h.tidy
  unlinked := h.unlinked
  calm entry' hmem := h.calm entry' (List.mem_append_left _ hmem)
  outputs before after i outputs tree heq entry' hmem :=
    h.outputs before (after ++ [entry]) i outputs tree (by rw [heq]; simp) entry'
      (List.mem_append_left _ hmem)

/-- **What the events of a run tell**: no body has succeeded so far, or one has, none before it, and
only what follows from that came after it. -/
def Told (work : SharedWork) (start : FileTree) (trace : List (Event ι × FileTree))
    (scene : Scene ι) : Prop :=
  (∀ entry ∈ trace, ∀ i outputs, entry.1 ≠ .succeeded i outputs) ∨
  ∃ before winner outputs tree after, trace = before ++ (.succeeded winner outputs, tree) :: after ∧
    (∀ entry ∈ before, ∀ i other, entry.1 ≠ .succeeded i other) ∧
    (∀ entry ∈ after, entry.1.Follows (some winner) outputs) ∧
    work.Won start (some winner) outputs scene

/-- **One more step**, of which an undisturbed run tells no less. -/
theorem Told.step (h : work.Told start trace scene) (horderly : work.Orderly scene)
    (hsteady : work.Steady start scene) (hstep : work.Step scene event next)
    (hundisturbed : work.Undisturbed start (trace ++ [(event, next.tree)])) :
    work.Told start (trace ++ [(event, next.tree)]) next := by
  have hcalm := hundisturbed.calm (event, next.tree) (by simp)
  rcases h with hnone | ⟨before, winner, outputs, tree, after, rfl, hbefore, hafter, hwon⟩
  · by_cases hsuccess : ∃ i outputs, event = .succeeded i outputs
    · obtain ⟨i, outputs, rfl⟩ := hsuccess
      have hexist := hundisturbed.outputs trace [] i outputs next.tree rfl _ List.mem_cons_self
      exact .inr ⟨trace, i, outputs, next.tree, [], rfl, hnone, by simp,
        won_of_succeeded horderly hsteady hstep hexist⟩
    · refine .inl fun entry hmem i outputs heq => ?_
      rcases List.mem_append.1 hmem with hmem | hmem
      · exact hnone entry hmem i outputs heq
      · obtain rfl := List.mem_singleton.1 hmem
        exact hsuccess ⟨i, outputs, heq⟩
  · have hexist := hundisturbed.outputs before (after ++ [(event, next.tree)]) winner outputs tree
      (by simp) (event, next.tree) (by simp)
    obtain ⟨hevent, hnext⟩ := hwon.step horderly hsteady hstep hcalm hexist
    refine .inr ⟨before, winner, outputs, tree, after ++ [(event, next.tree)], by simp, hbefore,
      fun entry hmem => ?_, hnext⟩
    rcases List.mem_append.1 hmem with hmem | hmem
    · exact hafter entry hmem
    · obtain rfl := List.mem_singleton.1 hmem
      exact hevent

/-- **Over an undisturbed run**, the lock is in order, the tree steady, and the events tell of one
success at most. -/
theorem Run.told {locks : List String} (hrun : work.Run start locks trace scene)
    (h : work.Undisturbed start trace) :
    work.Orderly scene ∧ work.Steady start scene ∧ work.Told start trace scene := by
  induction hrun with
  | start => exact ⟨work.orderly_fresh start locks, h.steady locks, .inl (by simp)⟩
  | step hrun hstep ih =>
    obtain ⟨horderly, hsteady, htold⟩ := ih h.of_append
    have hcalm := h.calm (_, _) (List.mem_append_right _ List.mem_cons_self)
    exact ⟨horderly.step hstep, hsteady.step hstep hcalm,
      htold.step horderly hsteady hstep h⟩

/-- **One body succeeds at most**, and bodies never run at the same time. Over every run of callers
that ask for the same work, in any order of their steps and as long as nothing disturbs them: two
callers whose bodies are running are one; and if a body succeeds, no other body does, none begins
after it, and every call that returns after it returns the outputs of that body, as up to date
unless it is the call that ran it. -/
theorem one_body_succeeds {locks : List String} {trace : List (Event ι × FileTree)}
    (hrun : work.Run start locks trace scene) (h : work.Undisturbed start trace) :
    (∀ i j, scene.Runs i → scene.Runs j → i = j) ∧
    ∀ before i outputs tree after, trace = before ++ (.succeeded i outputs, tree) :: after →
      (∀ entry ∈ before ++ after, ∀ j other, entry.1 ≠ .succeeded j other) ∧
      (∀ entry ∈ after, ∀ j, entry.1 ≠ .began j) ∧
      ∀ entry ∈ after, ∀ j result, entry.1 = .returned j result →
        result = .ok { outputs, upToDate := decide (j ≠ i) } := by
  obtain ⟨horderly, -, htold⟩ := hrun.told h
  refine ⟨fun i j ⟨_, _, hi⟩ ⟨_, _, hj⟩ => horderly.exclusive hi hj, ?_⟩
  intro before i outputs tree after htrace
  rcases htold with hnone | ⟨before', winner, outputs', tree', after', htrace', hbefore, hafter, -⟩
  · exact absurd rfl (hnone (.succeeded i outputs, tree) (by simp [htrace]) i outputs)
  -- the success that the run tells of is this one, since there is no other
  have hnotBefore : (Event.succeeded i outputs, tree) ∉ before' := fun hmem =>
    hbefore _ hmem i outputs rfl
  have hnotAfter : (Event.succeeded i outputs, tree) ∉ after' := fun hmem => hafter _ hmem
  obtain ⟨rfl, heq, rfl⟩ :=
    (List.append_cons_inj_of_notMem hnotBefore hnotAfter).1 (htrace'.symm.trans htrace)
  obtain ⟨⟨rfl, rfl⟩, rfl⟩ : (winner = i ∧ outputs' = outputs) ∧ tree' = tree := by
    simpa using heq
  refine ⟨fun entry hmem j other heq => ?_, fun entry hmem j heq => ?_,
    fun entry hmem j result heq => ?_⟩
  · rcases List.mem_append.1 hmem with hmem | hmem
    · exact hbefore entry hmem j other heq
    · have hfollows := hafter entry hmem
      rw [heq] at hfollows
      exact hfollows
  · have hfollows := hafter entry hmem
    rw [heq] at hfollows
    exact hfollows
  · have hfollows := hafter entry hmem
    rw [heq] at hfollows
    simpa [Event.Follows, eq_comm] using hfollows

/-! ### Three callers -/

/-- Work without inputs. -/
def component : SharedWork where
  cache := { dir := ⟨"cache"⟩ }
  enabled := rfl
  identity := "component"
  configuration := .empty
  inputs := []

/-- The tree when a body has written its output. -/
def fetchedTree : FileTree := FileTree.empty.insert ["out"] (.file "fetched".toUTF8)

/-- The record is kept. -/
def keeping : Except CacheError Unit × FileTree :=
  component.cache.store fetchedTree
    { identity := component.identity, fingerprint := component.fingerprint .empty
      outputs := [⟨"out"⟩], createdAt := ⟨0⟩ }

/-- There are no links. -/
def linkless (tree : FileTree) : Bool :=
  tree.entries.all fun e => match e.2 with | .link _ => false | _ => true

theorem unlinked_of_linkless {cache : Cache} {identity : String} (h : linkless tree = true) :
    cache.Unlinked identity tree := by
  refine Cache.unlinked_of_no_link fun location target hentry => ?_
  by_cases hroot : location = []
  · simp [hroot] at hentry
  · rw [entry?_of_ne_nil _ hroot] at hentry
    cases List.all_eq_true.1 h _ (mem_of_find?_eq_some hentry)

theorem exists_keeping_eq : ∃ stored, keeping = (.ok (), stored) ∧ linkless stored = true ∧
    stored.pathExists ⟨"out"⟩ = true ∧
    component.cache.hit? stored component.identity (component.fingerprint stored) =
      some [⟨"out"⟩] :=
  ⟨keeping.2, by decide +kernel⟩

theorem tidy_fetchedTree : FileTree.empty.Tidy ∧ fetchedTree.Tidy := by
  have hempty : FileTree.empty.Tidy :=
    ⟨(Cache.reflects_empty component.cache "").sound, List.Pairwise.nil⟩
  refine ⟨hempty, hempty.insert (by simp) rfl ?_⟩
  rw [entry?_of_ne_nil _ (by simp)]
  exact nofun

theorem hit?_empty :
    component.cache.hit? .empty component.identity (component.fingerprint .empty) = none := by
  decide +kernel

/-- What happens before the second body succeeds: the first fails. -/
def untilSuccess : List (Event Nat × FileTree) :=
  [(.silent, .empty), (.silent, .empty), (.silent, .empty), (.began 0, .empty), (.silent, .empty),
    (.failed 0, .empty), (.returned 0 (.error (.custom "offline")), .empty), (.silent, .empty),
    (.silent, .empty), (.began 1, .empty), (.silent, .empty), (.silent, fetchedTree)]

/-- What happens after it: the record is kept, and the third caller finds it. -/
def afterSuccess (stored : FileTree) : List (Event Nat × FileTree) :=
  [(.kept 1 ⟨0⟩, stored), (.returned 1 (.ok { outputs := [⟨"out"⟩], upToDate := false }), stored),
    (.silent, stored), (.silent, stored), (.silent, stored),
    (.returned 2 (.ok { outputs := [⟨"out"⟩], upToDate := true }), stored)]

/-- **Three callers**: the body of the first fails, that of the second succeeds, and the third finds
what that one has fetched. The others arrive while a body is running. -/
theorem exists_run_component (hkept : keeping = (.ok (), stored))
    (hhit : component.cache.hit? stored component.identity (component.fingerprint stored) =
      some [⟨"out"⟩]) : ∃ scene : Scene Nat,
    component.Run .empty []
      (untilSuccess ++ (.succeeded 1 [⟨"out"⟩], fetchedTree) :: afterSuccess stored) scene := by
  have hstart : component.Run .empty [] [] (.fresh .empty [] : Scene Nat) := .start
  have hfirst := (((((hstart.step (.fetched (i := 0) rfl)).step (.entered (i := 0) rfl rfl)).step
    (.acted (i := 0) rfl .measured)).step (.acted (i := 0) rfl (.began hit?_empty))).step
    (.fetched (i := 1) rfl)).step
    (.acted (i := 0) rfl (@Act.failed _ _ _ _ _ (.custom "offline")))
  have hsecond := ((((((hfirst.step (.left (i := 0) rfl)).step
    (.entered (i := 1) rfl rfl)).step (.acted (i := 1) rfl .measured)).step
    (.acted (i := 1) rfl (.began hit?_empty))).step (.fetched (i := 2) rfl)).step
    (.acted (i := 1) rfl (@Act.wrote _ _ _ _ _ fetchedTree))).step
    (.acted (i := 1) rfl (@Act.succeeded _ _ _ _ _ [⟨"out"⟩]))
  have hthird := (((((hsecond.step (.acted (i := 1) rfl (.kept hkept))).step
    (.left (i := 1) rfl)).step (.entered (i := 2) rfl rfl)).step
    (.acted (i := 2) rfl .measured)).step (.acted (i := 2) rfl (.reused hhit))).step
    (.left (i := 2) rfl)
  exact ⟨_, hthird⟩

theorem calm_component {event : Event Nat} (htidy : tree.Tidy) (hlinkless : linkless tree = true)
    (hevent : (∀ i, event ≠ .notKept i) ∧ ∀ i createdAt, event = .kept i createdAt →
      createdAt = ⟨0⟩) : component.Calm .empty event tree where
  tidy := htidy
  contents _ hpath := nomatch hpath
  kept := hevent.1
  time i createdAt heq := by
    rw [hevent.2 i createdAt heq]
    decide
  unlinked := unlinked_of_linkless hlinkless

/-- Nothing disturbs the three callers. -/
theorem undisturbed_component (htidy : stored.Tidy) (hlinkless : linkless stored = true)
    (hexists : stored.pathExists ⟨"out"⟩ = true) :
    component.Undisturbed .empty
      (untilSuccess ++ (.succeeded 1 [⟨"out"⟩], fetchedTree) :: afterSuccess stored) where
  tidy := tidy_fetchedTree.1
  unlinked := unlinked_of_linkless rfl
  calm := by
    have hempty : linkless .empty = true := rfl
    have hfetched : linkless fetchedTree = true := rfl
    have hquiet : ∀ entry ∈ untilSuccess ++ (.succeeded 1 [⟨"out"⟩], fetchedTree) ::
        afterSuccess stored, entry.2.Tidy ∧ linkless entry.2 = true ∧
          (∀ i, entry.1 ≠ .notKept i) ∧
          ∀ i createdAt, entry.1 = .kept i createdAt → createdAt = ⟨0⟩ := by
      simp [untilSuccess, afterSuccess, hempty, hfetched, hlinkless, htidy, tidy_fetchedTree]
    intro entry hmem
    obtain ⟨htidy, hlinkless, hevent⟩ := hquiet entry hmem
    exact calm_component htidy hlinkless hevent
  outputs := by
    intro before after i outputs tree heq entry hmem path hpath
    have hbefore : (Event.succeeded i outputs, tree) ∉ untilSuccess := by simp [untilSuccess]
    have hafter : (Event.succeeded i outputs, tree) ∉ afterSuccess stored := by simp [afterSuccess]
    obtain ⟨-, hsuccess, rfl⟩ := (List.append_cons_inj_of_notMem hbefore hafter).1 heq
    obtain ⟨⟨-, rfl⟩, rfl⟩ : (1 = i ∧ [⟨"out"⟩] = outputs) ∧ fetchedTree = tree := by
      simpa using hsuccess
    obtain rfl := List.mem_singleton.1 hpath
    have hfetched : fetchedTree.pathExists ⟨"out"⟩ = true := by decide
    rcases List.mem_cons.1 hmem with rfl | hmem
    · exact hfetched
    · have hstored : ∀ entry ∈ afterSuccess stored, entry.2 = stored := by simp [afterSuccess]
      rw [hstored entry hmem]
      exact hexists

/-- **Three callers of one component**: the run is undisturbed, its second body succeeds, and so no
body begins after it and the third call returns what the second has fetched. -/
theorem one_body_succeeds_component :
    ∃ (trace : List (Event Nat × FileTree)) (scene : Scene Nat),
      component.Run .empty [] trace scene ∧ component.Undisturbed .empty trace ∧
      ∃ before tree after, trace = before ++ (.succeeded 1 [⟨"out"⟩], tree) :: after ∧
        (∃ entry ∈ before, entry.1 = .began 0) ∧
        (∀ entry ∈ after, ∀ j, entry.1 ≠ .began j) ∧
        ∃ entry ∈ after, ∃ result, entry.1 = .returned 2 result ∧
          result = .ok { outputs := [⟨"out"⟩], upToDate := true } := by
  obtain ⟨stored, hkept, hlinkless, hexists, hhit⟩ := exists_keeping_eq
  obtain ⟨scene, hrun⟩ := exists_run_component hkept hhit
  obtain ⟨htidy, -⟩ := Cache.record?_of_store tidy_fetchedTree.2
    (unlinked_of_linkless rfl) (by decide +kernel) hkept
  have hundisturbed := undisturbed_component htidy hlinkless hexists
  obtain ⟨-, hbegan, hreturned⟩ :=
    (one_body_succeeds hrun hundisturbed).2 _ 1 [⟨"out"⟩] fetchedTree _ rfl
  have hthird : (Event.returned 2 (.ok { outputs := [⟨"out"⟩], upToDate := true }), stored) ∈
      afterSuccess stored := by simp [afterSuccess]
  exact ⟨_, scene, hrun, hundisturbed, _, _, _, rfl,
    ⟨(.began 0, .empty), by simp [untilSuccess], rfl⟩, hbegan, _, hthird, _, rfl,
    hreturned _ hthird 2 _ rfl⟩

end SharedWork

end BuildMatrix
