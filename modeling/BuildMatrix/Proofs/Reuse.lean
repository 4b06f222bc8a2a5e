import BuildMatrix.Proofs.CacheCalls
import BuildMatrix.Proofs.RecordSlots
import BuildMatrix.Proofs.Timestamps

/-!
# When reused work is right

A piece of work is called for again and again, through a cache that is enabled or not, while other
things happen in between. This module follows such calls and says what a call that finds its work
done can rely on: the work that was last put on record. That is the work that was last *done*
unless, after it, work was done that is not on record, because it failed, or was done without the
cache, or could not be put on record.
-/

namespace BuildMatrix

open FileTree

variable {identity : String} {session : Session} {outputs : List Path} {stored : FileTree}

/-! ### Calls -/

/-- A **call** of the cache for a piece of work. -/
structure Call where
  /-- What happened to the session since the call before. -/
  meanwhile : Session → Session
  enabled : Bool
  configuration : Environment
  inputs : List Path
  body : Job (List Path)

/-- **What came of a call.** -/
structure Visit where
  enabled : Bool
  /-- The fingerprint that the work had when it was called for. -/
  fingerprint : Fingerprint
  /-- How the body ended, if it was invoked. -/
  ended : Option (Except Failure (List Path))
  result : Except Failure Execution

namespace Visit

/-- The fingerprint and the end of a body, if one was invoked. -/
def run? (visit : Visit) : Option (Fingerprint × Except Failure (List Path)) :=
  visit.ended.map fun ended => (visit.fingerprint, ended)

/-- The fingerprint and the outputs that were put on record. -/
def recorded? (visit : Visit) : Option (Fingerprint × List Path) :=
  match visit.enabled, visit.result with
  | true, .ok { outputs, upToDate := false } => some (visit.fingerprint, outputs)
  | _, _ => none

/-- The last run of the body. -/
def lastRun? (visits : List Visit) : Option (Fingerprint × Except Failure (List Path)) :=
  (visits.filterMap run?).getLast?

/-- What was **last put on record**. -/
def lastRecord? (visits : List Visit) : Option (Fingerprint × List Path) :=
  (visits.filterMap recorded?).getLast?

/-- A body was invoked of which nothing is **on record**: it failed, or the cache was not enabled,
or the record could not be kept. -/
def Stray (visit : Visit) : Prop :=
  (∃ failure, visit.ended = some (.error failure)) ∨
  (∃ outputs, visit.ended = some (.ok outputs)) ∧
    (visit.enabled = false ∨ ∃ error, visit.result = .error (.cache error))

/-- A visit that is **faithful to what is known** about the record: work that it finds is the known
one, and a body that it invokes is on record or stray. -/
structure Faithful (known : Option (Fingerprint × List Path)) (visit : Visit) : Prop where
  of_reused : ∀ outputs, visit.result = .ok { outputs, upToDate := true } →
    visit.ended = none ∧ known = some (visit.fingerprint, outputs)
  of_recorded : ∀ fingerprint outputs, visit.recorded? = some (fingerprint, outputs) →
    visit.run? = some (fingerprint, .ok outputs)
  of_not_recorded : visit.recorded? = none → visit.ended = none ∨ visit.Stray

/-- Visits that are faithful, each to what is known by the ones before it. -/
def AllFaithful : Option (Fingerprint × List Path) → List Visit → Prop
  | _, [] => True
  | known, visit :: visits =>
    visit.Faithful known ∧ AllFaithful (visit.recorded?.or known) visits

end Visit

namespace Call

variable (dir : Path) (identity : String)

def cache (call : Call) : Cache := { dir, enabled := call.enabled }

def fingerprint (call : Call) (session : Session) : Fingerprint :=
  Fingerprint.compute session.tree call.configuration call.inputs

/-- Whether the body is **invoked** in a session: unless the work is found in an enabled cache. -/
def invokes (call : Call) (session : Session) : Bool :=
  !call.enabled ||
    ((call.cache dir).hit? session.tree identity (call.fingerprint session)).isNone

/-- A call, after what happened before it. -/
def visit (call : Call) (session : Session) : Visit × Session :=
  let session := call.meanwhile session
  let outcome :=
    (call.cache dir).execute identity call.configuration call.inputs call.body session
  ({ enabled := call.enabled
     fingerprint := call.fingerprint session
     ended := if call.invokes dir identity session then some (call.body session).1 else none
     result := outcome.1 }, outcome.2)

/-- Calls, one after another. -/
def visits : List Call → Session → List Visit × Session
  | [], session => ([], session)
  | call :: calls, session =>
    let first := call.visit dir identity session
    let later := visits calls first.2
    (first.1 :: later.1, later.2)

/-- A change of the tree **leaves the files of the cache alone**: whatever the tree reflected, it
still does. -/
def Respects (before after : FileTree) : Prop :=
  ∀ known, ({ dir } : Cache).Reflects identity known before →
    ({ dir } : Cache).Reflects identity known after

/-- What is done outside the cache, between the calls and by their bodies, **leaves its files
alone**. -/
def Careful : List Call → Session → Prop
  | [], _ => True
  | call :: calls, session =>
    Respects dir identity session.tree (call.meanwhile session).tree ∧
    (call.invokes dir identity (call.meanwhile session) = true →
      Respects dir identity (call.meanwhile session).tree
        (call.body (call.meanwhile session)).2.tree) ∧
    Careful calls (call.visit dir identity session).2

end Call

/-! ### One call -/

/-- **Remembering work**: the tree reflects it if the record could be kept, and what was known
before if it could not. -/
theorem Cache.Reflects.remember {cache : Cache} {known : Option (Fingerprint × List Path)}
    (h : cache.Reflects identity known session.tree) (fingerprint : Fingerprint)
    (outputs : List Path) :
    (∃ after, cache.remember identity fingerprint outputs session = (.ok (), after) ∧
      cache.Reflects identity (some (fingerprint, outputs)) after.tree) ∨
    ∃ error after, cache.remember identity fingerprint outputs session =
      (.error (.cache error), after) ∧ cache.Reflects identity known after.tree := by
  have hstore := @Cache.Reflects.store cache known session.tree
    { identity, fingerprint, outputs, createdAt := session.now } h
  unfold Cache.remember
  dsimp only at hstore ⊢
  generalize cache.store session.tree
    { identity, fingerprint, outputs, createdAt := session.now } = outcome at hstore ⊢
  obtain ⟨error | ⟨⟩, tree⟩ := outcome
  · refine .inr ⟨error, _, rfl, ?_⟩
    exact hstore
  · refine .inl ⟨_, rfl, ?_⟩
    exact hstore

namespace Call

variable {dir : Path} {identity : String} {call : Call} {session : Session}

theorem respects_writeFile (path : Path) {content : ByteArray}
    (hcontent : (Text.decode? content).bind WorkRecord.parse? = none) (session : Session) :
    Respects dir identity session.tree (Job.writeFile path content session).2.tree := by
  intro known h
  rw [Job.writeFile]
  cases hwrite : session.tree.write path content with
  | error error => exact h
  | ok written =>
    obtain ⟨location, hlocate, hdirectory, hlink, rfl⟩ := write_eq_ok hwrite
    have hne : location ≠ [] := by
      rintro rfl
      exact hdirectory (entry?_nil session.tree)
    exact h.insert hne (h.sound.locate hlocate) hdirectory hlink hcontent

theorem visit_of_hit (henabled : call.enabled = true)
    (hhit : (call.cache dir).hit? (call.meanwhile session).tree identity
      (call.fingerprint (call.meanwhile session)) = some outputs) :
    call.visit dir identity session =
      (⟨call.enabled, call.fingerprint (call.meanwhile session), none,
        .ok { outputs, upToDate := true }⟩, call.meanwhile session) := by
  have hon : (call.cache dir).enabled = true := henabled
  have hinvokes : call.invokes dir identity (call.meanwhile session) = false := by
    simp [invokes, henabled, hhit]
  rw [visit]
  simp only [hinvokes, Cache.execute_of_hit hon hhit, Bool.false_eq_true, if_false]

/-- A call whose work is **not found** invokes the body, and puts what it returns on record. -/
theorem visit_of_miss (henabled : call.enabled = true)
    (hmiss : (call.cache dir).hit? (call.meanwhile session).tree identity
      (call.fingerprint (call.meanwhile session)) = none) :
    call.visit dir identity session =
      match call.body (call.meanwhile session) with
      | (.error failure, done) =>
        (⟨call.enabled, call.fingerprint (call.meanwhile session), some (.error failure),
          .error failure⟩, done)
      | (.ok outputs, done) =>
        match (call.cache dir).remember identity (call.fingerprint (call.meanwhile session))
            outputs done with
        | (.error failure, after) =>
          (⟨call.enabled, call.fingerprint (call.meanwhile session), some (.ok outputs),
            .error failure⟩, after)
        | (.ok (), after) =>
          (⟨call.enabled, call.fingerprint (call.meanwhile session), some (.ok outputs),
            .ok { outputs, upToDate := false }⟩, after) := by
  have hon : (call.cache dir).enabled = true := henabled
  have hinvokes : call.invokes dir identity (call.meanwhile session) = true := by
    simp [invokes, hmiss]
  rw [visit]
  simp only [hinvokes, if_true, Cache.execute_of_miss hon hmiss, Job.andThen]
  rcases call.body (call.meanwhile session) with ⟨failure | outputs, done⟩
  · rfl
  simp only [fingerprint]
  generalize (call.cache dir).remember identity _ outputs done = kept
  rcases kept with ⟨failure | ⟨⟩, after⟩ <;> rfl

/-- **What one call does**: it is faithful, and what it puts on record is reflected after it. -/
structure Advances (dir : Path) (identity : String) (known : Option (Fingerprint × List Path))
    (visit : Visit) (after : Session) : Prop where
  faithful : visit.Faithful known
  reflects : ({ dir } : Cache).Reflects identity (visit.recorded?.or known) after.tree

section Step

variable {known : Option (Fingerprint × List Path)}

theorem advances_of_failed {visit : Visit} {after : Session} {failure : Failure}
    (h : ({ dir } : Cache).Reflects identity known after.tree)
    (hended : visit.ended = some (.error failure)) (hresult : visit.result = .error failure) :
    Advances dir identity known visit after := by
  have hnone : visit.recorded? = none := by simp [Visit.recorded?, hresult]
  refine ⟨⟨?_, ?_, fun _ => .inr (.inl ⟨failure, hended⟩)⟩, ?_⟩
  · simp [hresult]
  · simp [hnone]
  · rwa [hnone]

theorem advances_of_disabled (henabled : call.enabled = false)
    (h : ({ dir } : Cache).Reflects identity known (call.body (call.meanwhile session)).2.tree) :
    Advances dir identity known (call.visit dir identity session).1
      (call.visit dir identity session).2 := by
  have hoff : (call.cache dir).enabled = false := henabled
  have hinvokes : call.invokes dir identity (call.meanwhile session) = true := by
    simp [invokes, henabled]
  rw [visit]
  simp only [hinvokes, if_true, Cache.execute_of_disabled hoff, Job.andThen]
  generalize call.body (call.meanwhile session) = outcome at h ⊢
  obtain ⟨failure | outputs, after⟩ := outcome
  · exact advances_of_failed h rfl rfl
  · have hnone : ∀ fingerprint ended result,
        Visit.recorded? ⟨call.enabled, fingerprint, ended, result⟩ = none := by
      simp [Visit.recorded?, henabled]
    refine ⟨⟨?_, ?_, fun _ => .inr (.inr ⟨⟨outputs, rfl⟩, .inl henabled⟩)⟩, ?_⟩
    · simp [Job.done]
    · simp [hnone]
    · rw [hnone]
      exact h

theorem advances_of_hit (henabled : call.enabled = true)
    (hhit : (call.cache dir).hit? (call.meanwhile session).tree identity
      (call.fingerprint (call.meanwhile session)) = some outputs)
    (h : ({ dir } : Cache).Reflects identity known (call.meanwhile session).tree) :
    Advances dir identity known (call.visit dir identity session).1
      (call.visit dir identity session).2 := by
  have hcache : call.cache dir = { dir } := by rw [cache, henabled]
  rw [visit_of_hit henabled hhit]
  rw [hcache] at hhit
  obtain ⟨record, hrecord, hfingerprint, houtputs⟩ := Cache.record?_of_hit? hhit
  have hknown := h.record_eq _ (.refl _) record hrecord
  rw [hfingerprint, houtputs] at hknown
  refine ⟨⟨?_, ?_, fun _ => .inl rfl⟩, ?_⟩
  · intro reused heq
    cases heq
    exact ⟨rfl, hknown⟩
  · simp [Visit.recorded?]
  · simpa [Visit.recorded?] using h

/-- Work that is **not found** is done, and is on record or stray. -/
theorem advances_of_miss (henabled : call.enabled = true)
    (hmiss : (call.cache dir).hit? (call.meanwhile session).tree identity
      (call.fingerprint (call.meanwhile session)) = none)
    (h : ({ dir } : Cache).Reflects identity known (call.body (call.meanwhile session)).2.tree) :
    Advances dir identity known (call.visit dir identity session).1
      (call.visit dir identity session).2 := by
  have hcache : call.cache dir = { dir } := by rw [cache, henabled]
  rw [visit_of_miss henabled hmiss, hcache]
  generalize call.body (call.meanwhile session) = outcome at h ⊢
  obtain ⟨failure | outputs, middle⟩ := outcome
  · exact advances_of_failed h rfl rfl
  rcases h.remember (call.fingerprint (call.meanwhile session)) outputs with
    ⟨after, heq, hafter⟩ | ⟨error, after, heq, hafter⟩
  · simp only [heq, henabled]
    refine ⟨⟨?_, ?_, ?_⟩, hafter⟩
    · simp
    · simp [Visit.recorded?, Visit.run?]
    · simp [Visit.recorded?]
  · simp only [heq, henabled]
    refine ⟨⟨?_, ?_, fun _ => .inr (.inr ⟨⟨outputs, rfl⟩, .inr ⟨error, rfl⟩⟩)⟩, hafter⟩
    · simp
    · simp [Visit.recorded?]

/-- **Every call advances** what is known, if what is done outside the cache leaves its files
alone. -/
theorem advances_visit (h : ({ dir } : Cache).Reflects identity known session.tree)
    (hmeanwhile : Respects dir identity session.tree (call.meanwhile session).tree)
    (hbody : call.invokes dir identity (call.meanwhile session) = true →
      Respects dir identity (call.meanwhile session).tree
        (call.body (call.meanwhile session)).2.tree) :
    Advances dir identity known (call.visit dir identity session).1
      (call.visit dir identity session).2 := by
  have hknown := hmeanwhile known h
  cases henabled : call.enabled with
  | false => exact advances_of_disabled henabled (hbody (by simp [invokes, henabled]) known hknown)
  | true =>
    cases hhit : (call.cache dir).hit? (call.meanwhile session).tree identity
        (call.fingerprint (call.meanwhile session)) with
    | some outputs => exact advances_of_hit henabled hhit hknown
    | none => exact advances_of_miss henabled hhit (hbody (by simp [invokes, hhit]) known hknown)

/-- **Calls, one after another**, are faithful, each to what was put on record before it. -/
theorem Careful.allFaithful {calls : List Call} (hcareful : Careful dir identity calls session)
    (h : ({ dir } : Cache).Reflects identity known session.tree) :
    Visit.AllFaithful known (visits dir identity calls session).1 := by
  induction calls generalizing session known with
  | nil => trivial
  | cons call calls ih =>
    obtain ⟨hmeanwhile, hbody, hlater⟩ := hcareful
    have hcall := advances_visit h hmeanwhile hbody
    exact ⟨hcall.faithful, ih hlater hcall.reflects⟩

end Step

end Call

/-! ### All calls -/

namespace Visit

variable {known : Option (Fingerprint × List Path)} {visits earlier later : List Visit}
  {last : Visit}

theorem lastRecord?_cons (visit : Visit) (visits : List Visit) :
    lastRecord? (visit :: visits) = (lastRecord? visits).or visit.recorded? := by
  simp [lastRecord?, List.findSome?_append]

/-- Every visit is faithful to **what was put on record last** before it, and those before it are
faithful too. -/
theorem AllFaithful.append (h : AllFaithful known (earlier ++ last :: later)) :
    last.Faithful ((lastRecord? earlier).or known) ∧
      ∀ visit ∈ earlier, ∃ known', visit.Faithful known' := by
  induction earlier generalizing known with
  | nil => exact ⟨h.1, by simp⟩
  | cons visit earlier ih =>
    obtain ⟨hvisit, hrest⟩ := h
    obtain ⟨hlast, hearlier⟩ := ih hrest
    rw [lastRecord?_cons, Option.or_assoc]
    exact ⟨hlast, List.forall_mem_cons.2 ⟨⟨known, hvisit⟩, hearlier⟩⟩

theorem exists_of_lastRecord? {record : Fingerprint × List Path}
    (h : lastRecord? visits = some record) :
    ∃ before recorded after, visits = before ++ recorded :: after ∧
      recorded.recorded? = some record ∧ ∀ visit ∈ after, visit.recorded? = none := by
  rw [lastRecord?, List.getLast?_filterMap, List.findSome?_eq_some_iff] at h
  obtain ⟨after, recorded, before, hvisits, hrecorded, hafter⟩ := h
  refine ⟨before.reverse, recorded, after.reverse, ?_, hrecorded, by simpa using hafter⟩
  rw [← List.reverse_inj, hvisits]
  simp

theorem lastRun?_append (before after : List Visit) (visit : Visit)
    {run : Fingerprint × Except Failure (List Path)} (hrun : visit.run? = some run) :
    lastRun? (before ++ visit :: after) = some ((lastRun? after).getD run) := by
  rw [lastRun?, List.filterMap_append, List.filterMap_cons_some hrun, List.getLast?_append,
    List.getLast?_cons, Option.some_or]
  rfl

end Visit

namespace Call

/-- **What reused work rests on.** Suppose there is no record at first, and what is done outside the
cache leaves its files alone. If a call finds its work done, its own body is not invoked, and the
outputs are those of the body that was last put on record, which was invoked for the same
fingerprint and succeeded. No body invoked since is on record: each of them failed, or was invoked
without the cache, or could not be put on record. So the outputs are those of the body invoked last
exactly if no such body was invoked since, or the last one came to the same. -/
theorem reuse_rests_on_last_record {dir : Path} {identity : String} {calls : List Call}
    {session : Session} (hstart : ({ dir } : Cache).Reflects identity none session.tree)
    (hcareful : Careful dir identity calls session) {earlier later : List Visit} {last : Visit}
    (hvisits : (visits dir identity calls session).1 = earlier ++ last :: later)
    {outputs : List Path} (hreused : last.result = .ok { outputs, upToDate := true }) :
    last.ended = none ∧
    ∃ before recorded after, earlier = before ++ recorded :: after ∧
      recorded.run? = some (last.fingerprint, .ok outputs) ∧
      recorded.recorded? = some (last.fingerprint, outputs) ∧
      (∀ visit ∈ after, visit.ended = none ∨ visit.Stray) ∧
      (Visit.lastRun? earlier = some (last.fingerprint, .ok outputs) ↔
        ∀ run, Visit.lastRun? after = some run → run = (last.fingerprint, .ok outputs)) := by
  have hfaithful := hcareful.allFaithful hstart
  rw [hvisits] at hfaithful
  obtain ⟨hlast, hearlier⟩ := hfaithful.append
  obtain ⟨hended, hknown⟩ := hlast.of_reused outputs hreused
  rw [Option.or_none] at hknown
  obtain ⟨before, recorded, after, rfl, hrecorded, hafter⟩ := Visit.exists_of_lastRecord? hknown
  have hmember : ∀ visit ∈ recorded :: after, ∃ known, visit.Faithful known :=
    fun visit hvisit => hearlier visit (List.mem_append_right before hvisit)
  obtain ⟨known, hfirst⟩ := hmember recorded (List.mem_cons_self ..)
  have hrun := hfirst.of_recorded _ _ hrecorded
  refine ⟨hended, before, recorded, after, rfl, hrun, hrecorded, fun visit hvisit => ?_, ?_⟩
  · obtain ⟨known, hvisit'⟩ := hmember visit (List.mem_cons_of_mem recorded hvisit)
    exact hvisit'.of_not_recorded (hafter visit hvisit)
  · rw [Visit.lastRun?_append before after recorded hrun, Option.some.injEq]
    cases Visit.lastRun? after with
    | none => simp
    | some run => simp

/-- A call for work on the file `in`, which was written just before; the body writes `out.txt` and
then ends in a way. -/
def building (input : String) (ending : Except Failure (List Path)) : Call where
  meanwhile session := (Job.writeFile ⟨"in"⟩ input.toUTF8 session).2
  enabled := true
  configuration := .empty
  inputs := [⟨"in"⟩]
  body session := (ending, (Job.writeFile ⟨"out.txt"⟩ ("from " ++ input).toUTF8 session).2)

theorem not_record {text : String} (h : WorkRecord.parse? text = none) :
    (Text.decode? text.toUTF8).bind WorkRecord.parse? = none := by
  rw [Text.decode?_toUTF8, Option.bind_some, h]

theorem careful_building {dir : Path} {steps : List (String × Except Failure (List Path))}
    (hsteps : ∀ step ∈ steps, WorkRecord.parse? step.1 = none ∧
      WorkRecord.parse? ("from " ++ step.1) = none) (session : Session) :
    Careful dir identity (steps.map fun step => building step.1 step.2) session := by
  induction steps generalizing session with
  | nil => trivial
  | cons step steps ih =>
    obtain ⟨⟨hinput, houtput⟩, hlater⟩ := List.forall_mem_cons.1 hsteps
    exact ⟨respects_writeFile _ (not_record hinput) _,
      fun _ => respects_writeFile _ (not_record houtput) _, ih hlater _⟩

/-- Work that succeeds, fails on another input, and is called for again on the first one. -/
def relapse : List Call :=
  [("v1", .ok [⟨"out.txt"⟩]), ("v2", .error (.custom "boom")), ("v1", .ok [⟨"out.txt"⟩])].map
    fun step => building step.1 step.2

/-- An empty tree at time zero. -/
def nowhere : Session := { tree := .empty, now := ⟨0⟩ }

theorem careful_relapse (dir : Path) (identity : String) : Careful dir identity relapse nowhere :=
  careful_building (by decide) nowhere

theorem exists_visits_relapse :
    ∃ first second third failure,
      (visits ⟨"cache"⟩ "t" relapse nowhere).1 = [first, second, third] ∧
      second.ended = some (.error failure) ∧
      third.result = .ok { outputs := [⟨"out.txt"⟩], upToDate := true } := by
  have hends : (visits ⟨"cache"⟩ "t" relapse nowhere).1.map (fun v => (v.ended, v.result)) =
      [(some (.ok [⟨"out.txt"⟩]), .ok { outputs := [⟨"out.txt"⟩], upToDate := false }),
        (some (.error (.custom "boom")), .error (.custom "boom")),
        (none, .ok { outputs := [⟨"out.txt"⟩], upToDate := true })] := by decide +kernel
  simp only [List.map_eq_cons_iff, List.map_eq_nil_iff, Prod.mk.injEq] at hends
  obtain ⟨first, _, hvisits, -, second, _, rfl, ⟨hsecond, -⟩, third, _, rfl, ⟨-, hthird⟩, rfl⟩ :=
    hends
  exact ⟨first, second, third, _, hvisits, hsecond, hthird⟩

/-- **The body invoked last may have failed**: the third call finds its work done, although the body
of the second one failed after it wrote `out.txt`, which still is what that body wrote. -/
theorem reuse_after_failure :
    ∃ first second third, (visits ⟨"cache"⟩ "t" relapse nowhere).1 = [first, second, third] ∧
      third.result = .ok { outputs := [⟨"out.txt"⟩], upToDate := true } ∧
      Visit.lastRun? [first, second] ≠ some (third.fingerprint, .ok [⟨"out.txt"⟩]) ∧
      (match (visits ⟨"cache"⟩ "t" relapse nowhere).2.tree.readText ⟨"out.txt"⟩ with
        | .ok text => text
        | .error _ => none) = some "from v2" := by
  obtain ⟨first, second, third, failure, hvisits, hsecond, hthird⟩ := exists_visits_relapse
  refine ⟨first, second, third, hvisits, hthird, ?_, ?_⟩
  · have hrun : second.run? = some (second.fingerprint, .error failure) := by
      rw [Visit.run?, hsecond]
      rfl
    have hlast := Visit.lastRun?_append [first] [] second hrun
    rw [List.singleton_append] at hlast
    rw [hlast]
    simp [Visit.lastRun?]
  · decide +kernel

/-- What the third call found rests on the first one. -/
theorem reuse_rests_on_last_record_relapse :
    ∃ first second third, (visits ⟨"cache"⟩ "t" relapse nowhere).1 = [first, second, third] ∧
      third.ended = none ∧
      ∃ before recorded after, [first, second] = before ++ recorded :: after ∧
        recorded.run? = some (third.fingerprint, .ok [⟨"out.txt"⟩]) ∧
        recorded.recorded? = some (third.fingerprint, [⟨"out.txt"⟩]) ∧
        (∀ visit ∈ after, visit.ended = none ∨ visit.Stray) ∧
        (Visit.lastRun? [first, second] = some (third.fingerprint, .ok [⟨"out.txt"⟩]) ↔
          ∀ run, Visit.lastRun? after = some run →
            run = (third.fingerprint, .ok [⟨"out.txt"⟩])) := by
  obtain ⟨first, second, third, failure, hvisits, -, hthird⟩ := exists_visits_relapse
  exact ⟨first, second, third, hvisits, reuse_rests_on_last_record (Cache.reflects_empty _ _)
    (careful_relapse _ _) hvisits hthird⟩

end Call

end BuildMatrix
