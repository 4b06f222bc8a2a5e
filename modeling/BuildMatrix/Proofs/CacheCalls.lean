import BuildMatrix.Build

/-!
# The cache calls of a task

A task is up to date if it called the cache, and every call that returned something found it there.
This module says which calls a job makes (`Job.Calls`): pieces of work done through the cache, one
after another, also one within another, and whatever else the job does between them. The session
keeps note of exactly those calls that returned something, so that the note decides.
-/

namespace BuildMatrix

variable {place : Place} {session : Session} {calls : List (Except Failure Execution)}
  {body : Job (List Path)}

/-! ### One call -/

namespace Cache

variable {cache : Cache} {identity : String} {configuration : Environment} {inputs : List Path}
  {body : Job (List Path)} {session : Session}

theorem execute_of_disabled (h : cache.enabled = false) :
    cache.execute identity configuration inputs body session =
      body.andThen (fun outputs => Job.done { outputs, upToDate := false }) session := by
  simp only [execute, h, Bool.not_false, if_true]
  rfl

theorem execute_of_hit {outputs : List Path} (h : cache.enabled = true)
    (hhit : cache.hit? session.tree identity
      (Fingerprint.compute session.tree configuration inputs) = some outputs) :
    cache.execute identity configuration inputs body session =
      (.ok { outputs, upToDate := true }, session) := by
  simp only [execute, h, Bool.not_true, Bool.false_eq_true, if_false, bind, Job.andThen, Job.get,
    hhit]
  rfl

theorem execute_of_miss (h : cache.enabled = true)
    (hmiss : cache.hit? session.tree identity
      (Fingerprint.compute session.tree configuration inputs) = none) :
    cache.execute identity configuration inputs body session =
      body.andThen (fun outputs =>
        (cache.remember identity (Fingerprint.compute session.tree configuration inputs)
          outputs).andThen fun _ => Job.done { outputs, upToDate := false }) session := by
  simp only [execute, h, Bool.not_true, Bool.false_eq_true, if_false, bind, Job.andThen, Job.get,
    hmiss]
  rfl

end Cache

theorem Place.cached_eq (place : Place) (identity : String) (configuration : Environment)
    (inputs : List Path) (body : Job (List Path)) (session : Session) :
    place.cached identity configuration inputs body session =
      match place.cache.execute identity configuration inputs body session with
      | (.error failure, session) => (.error failure, session)
      | (.ok execution, session) =>
        (.ok execution, { session with reuses := session.reuses ++ [execution.upToDate] }) := by
  change Job.andThen _ _ session = _
  rw [Job.andThen]
  rcases place.cache.execute identity configuration inputs body session with ⟨_ | _, _⟩ <;> rfl

namespace Job

/-- The **cache calls** that a job makes from a session on, in order, with what they return. -/
inductive Calls (place : Place) :
    {α : Type} → Job α → Session → List (Except Failure Execution) → Prop
  /-- What leaves the note of calls as it is makes none. -/
  | none {α : Type} {job : Job α} {session : Session} :
      (job session).2.reuses = session.reuses → Calls place job session []
  /-- Work done through the cache is a call, which ends after those of the work itself. -/
  | cached {identity : String} {configuration : Environment} {inputs : List Path}
      {body : Job (List Path)} {session : Session} {calls : List (Except Failure Execution)} :
      Calls place (place.cache.execute identity configuration inputs body) session calls →
      Calls place (place.cached identity configuration inputs body) session
        (calls ++ [(place.cached identity configuration inputs body session).1])
  /-- A job that goes on after another, whether that failed or not. -/
  | after {α β : Type} {first : Job α} {next : Except Failure α → Job β} {job : Job β}
      {session : Session} {calls later : List (Except Failure Execution)} :
      Calls place first session calls →
      Calls place (next (first session).1) (first session).2 later →
      job session = next (first session).1 (first session).2 →
      Calls place job session (calls ++ later)

/-- What is noted of a call: whether the work was found, if the call returned something. -/
def reused? : Except Failure Execution → Option Bool
  | .ok execution => some execution.upToDate
  | .error _ => Option.none

theorem exists_of_reused? {call : Except Failure Execution} {reused : Bool}
    (h : reused? call = some reused) : ∃ execution, call = .ok execution := by
  cases call with
  | error failure => cases h
  | ok execution => exact ⟨execution, rfl⟩

theorem Calls.reuses_eq {α : Type} {job : Job α} (h : Calls place job session calls) :
    (job session).2.reuses = session.reuses ++ calls.filterMap reused? := by
  induction h with
  | none hsame => simpa using hsame
  | @cached identity configuration inputs body session calls _ ih =>
    rw [List.filterMap_append, ← List.append_assoc, ← ih, Place.cached_eq]
    rcases place.cache.execute identity configuration inputs body session with ⟨_ | _, _⟩ <;>
      simp [reused?]
  | after _ _ heq ihfirst ihnext =>
    rw [heq, ihnext, ihfirst, List.filterMap_append, List.append_assoc]

end Job

/-- **When a task is up to date**: it succeeded, at least one of its calls returned something, and
all that did were found in the cache. -/
theorem Session.upToDate_perform_iff {job : Job Output}
    (h : Job.Calls place job { session with lines := [], reuses := [] } calls) :
    (∃ product, (session.perform job).1 = .ok product ∧ product.upToDate = true) ↔
      (∃ product, (session.perform job).1 = .ok product) ∧
      (∃ execution, .ok execution ∈ calls) ∧
      ∀ execution, .ok execution ∈ calls → execution.upToDate = true := by
  have hreuses := h.reuses_eq
  rw [List.nil_append] at hreuses
  rw [perform]
  rcases hresult : job { session with lines := [], reuses := [] } with ⟨failure | output, after⟩
  · simp
  · rw [hresult] at hreuses
    replace hreuses : after.reuses = calls.filterMap Job.reused? := hreuses
    simp only [Except.ok.injEq, exists_eq_left', exists_eq', true_and, isUpToDate, hreuses,
      Bool.and_eq_true, Bool.not_eq_true', List.isEmpty_eq_false_iff_exists_mem, List.all_eq_true,
      List.mem_filterMap, id_eq]
    refine and_congr ⟨?_, ?_⟩ ⟨?_, ?_⟩
    · rintro ⟨reused, call, hcall, hreused⟩
      obtain ⟨execution, rfl⟩ := Job.exists_of_reused? hreused
      exact ⟨execution, hcall⟩
    · rintro ⟨execution, hcall⟩
      exact ⟨execution.upToDate, _, hcall, rfl⟩
    · intro hall execution hcall
      exact hall execution.upToDate ⟨_, hcall, rfl⟩
    · rintro hall reused ⟨call, hcall, hreused⟩
      obtain ⟨execution, rfl⟩ := Job.exists_of_reused? hreused
      exact Option.some.inj hreused ▸ hall execution hcall

end BuildMatrix
