import BuildMatrix.Proofs.InputStreams
import BuildMatrix.Proofs.RecordRemoval
import BuildMatrix.Proofs.Reuse

/-!
# The records of a cache are a map

A cache is used for many pieces of work, one operation after another: work is called for, records
are dropped one by one, by their age or all at once, and other things happen elsewhere. What comes
of an operation is noted as a *deed*. A *ledger* of the deeds says which record each piece of work
has: the one of the last body that was run and succeeded, unless it was dropped since. The file tree
shows the same records, whatever the directory of the cache looks like, as long as nothing else
touches it.
-/

namespace BuildMatrix.Cache

open FileTree

variable {identity : String} {failure : Failure} {folder : Location} {configuration : Environment}
  {inputs : List Path}

/-! ### Operations and deeds -/

/-- Something that is **done with a cache**, or beside it. -/
inductive Operation where
  /-- A piece of work is called for. -/
  | execute (identity : String) (configuration : Environment) (inputs : List Path)
      (body : Job (List Path))
  | invalidate (identity : String)
  | prune (ageSeconds : Nat)
  | clean
  | elsewhere (change : Session → Session)

/-- **What came of** an operation. -/
inductive Deed where
  /-- A body was run, and returned; the record says for what, and when. -/
  | ran (record : WorkRecord)
  | failed
  /-- Work was found, and no body was run. -/
  | reused
  | invalidated (identity : String)
  /-- The records from before a point in time were dropped. -/
  | pruned (cutoff : Timestamp)
  | cleaned
  | elsewhere
  deriving DecidableEq

namespace Deed

variable {known : String → Option WorkRecord}

/-- What came of a call, by the outputs it found and by how its body would end. -/
def ofCall (identity : String) (fingerprint : Fingerprint) :
    Option (List Path) → Except Failure (List Path) × Session → Deed
  | some _, _ => reused
  | none, (.error _, _) => failed
  | none, (.ok outputs, done) => ran ⟨identity, fingerprint, outputs, done.now⟩

/-- The **records of all work** after a deed, by those before it. -/
def note (ledger : String → Option WorkRecord) (deed : Deed) (identity : String) :
    Option WorkRecord :=
  match deed with
  | ran record => if record.identity = identity then some record else ledger identity
  | invalidated dropped => if dropped = identity then none else ledger identity
  | pruned cutoff => (ledger identity).filter (cutoff.nanos ≤ ·.createdAt.nanos)
  | cleaned => none
  | _ => ledger identity

/-- A deed **ends** a record: it brings another one for the same work, or drops it. -/
def Ends (record : WorkRecord) : Deed → Prop
  | ran other => other.identity = record.identity
  | invalidated identity => identity = record.identity
  | pruned cutoff => record.createdAt.nanos < cutoff.nanos
  | cleaned => True
  | _ => False

/-- The record of a body is **standing** after some deeds: the body was run, and no deed since has
ended the record. -/
def Standing (deeds : List Deed) (record : WorkRecord) : Prop :=
  ∃ before later, deeds = before ++ ran record :: later ∧ ∀ deed ∈ later, ¬deed.Ends record

/-- A deed **concerns** a piece of work: it may bring a record for it, or drop the one there is. -/
def Concerns (identity : String) : Deed → Prop
  | ran record => record.identity = identity
  | invalidated dropped => dropped = identity
  | pruned _ => True
  | cleaned => True
  | _ => False

/-- The records after deeds. -/
def ledger (deeds : List Deed) : String → Option WorkRecord := deeds.foldl note fun _ => none

/-- **What is noted** after a deed: the record it brings, or one from before that it does not
end. -/
theorem note_eq_some_iff
    (hknown : ∀ record, known identity = some record → record.identity = identity) (deed : Deed)
    (record : WorkRecord) :
    deed.note known identity = some record ↔
      (deed = ran record ∧ record.identity = identity) ∨
        known identity = some record ∧ ¬deed.Ends record := by
  cases deed with
  | ran other =>
    by_cases hsame : other.identity = identity
    · have hended : ¬(known identity = some record ∧ ¬other.identity = record.identity) :=
        fun hkept => hkept.2 (hsame.trans (hknown record hkept.1).symm)
      simp only [note, Ends, if_pos hsame, Option.some.injEq, ran.injEq, or_iff_left hended]
      exact ⟨fun heq => ⟨heq, heq ▸ hsame⟩, fun h => h.1⟩
    · have hnew : ¬(other = record ∧ record.identity = identity) :=
        fun hnew => hsame (hnew.1 ▸ hnew.2)
      simp only [note, Ends, if_neg hsame, ran.injEq, or_iff_right hnew]
      refine ⟨fun hrecord => ⟨hrecord, fun heq => hsame ?_⟩, fun h => h.1⟩
      exact heq.trans (hknown record hrecord)
  | invalidated dropped =>
    by_cases hsame : dropped = identity
    · have hended : ¬(known identity = some record ∧ ¬dropped = record.identity) :=
        fun hkept => hkept.2 (hsame.trans (hknown record hkept.1).symm)
      simp only [note, Ends, if_pos hsame, reduceCtorEq, false_and, false_or, hended]
    · simp only [note, Ends, if_neg hsame, reduceCtorEq, false_and, false_or]
      refine ⟨fun hrecord => ⟨hrecord, fun heq => hsame ?_⟩, fun h => h.1⟩
      exact heq.trans (hknown record hrecord)
  | pruned cutoff => simp [note, Ends, Option.filter_eq_some_iff]
  | cleaned => simp [note, Ends]
  | failed => simp [note, Ends]
  | reused => simp [note, Ends]
  | elsewhere => simp [note, Ends]

theorem standing_append (deeds : List Deed) (deed : Deed) (record : WorkRecord) :
    Standing (deeds ++ [deed]) record ↔
      deed = ran record ∨ Standing deeds record ∧ ¬deed.Ends record := by
  constructor
  · rintro ⟨before, later, heq, hlater⟩
    rcases List.eq_nil_or_concat later with rfl | ⟨rest, last, rfl⟩
    · exact .inl (List.singleton_inj.1 (List.append_inj' heq rfl).2)
    · rw [List.concat_eq_append] at heq hlater
      have hinit : deeds = before ++ ran record :: rest ∧ [deed] = [last] :=
        List.append_inj' (heq.trans (by simp)) rfl
      obtain ⟨rfl, hlast⟩ := hinit
      rw [List.singleton_inj.1 hlast]
      exact .inr ⟨⟨before, rest, rfl, fun other hother => hlater other (by simp [hother])⟩,
        hlater last (by simp)⟩
  · rintro (rfl | ⟨⟨before, later, rfl, hlater⟩, hdeed⟩)
    · exact ⟨deeds, [], rfl, by simp⟩
    · refine ⟨before, later ++ [deed], by simp, fun other hother => ?_⟩
      rcases List.mem_append.1 hother with hother | hother
      · exact hlater other hother
      · rwa [List.mem_singleton.1 hother]

/-- **The ledger holds what is standing.** -/
theorem ledger_eq_some_iff (deeds : List Deed) (identity : String) (record : WorkRecord) :
    ledger deeds identity = some record ↔ record.identity = identity ∧ Standing deeds record := by
  induction deeds using List.reverseRecOn generalizing record with
  | nil => simp [ledger, Standing]
  | append_singleton deeds deed ih =>
    have hknown : ∀ found, ledger deeds identity = some found → found.identity = identity :=
      fun found hfound => ((ih found).1 hfound).1
    have hnote : ledger (deeds ++ [deed]) = deed.note (ledger deeds) := by
      simp [ledger, List.foldl_append]
    rw [hnote, note_eq_some_iff hknown, ih, standing_append]
    tauto

theorem note_of_not_concerns {deed : Deed} (h : ¬deed.Concerns identity) :
    deed.note known identity = known identity := by
  cases deed with
  | ran record => exact if_neg h
  | invalidated dropped => exact if_neg h
  | pruned cutoff => exact absurd trivial h
  | cleaned => exact absurd trivial h
  | failed => rfl
  | reused => rfl
  | elsewhere => rfl

end Deed

namespace Operation

/-- The piece of work that an operation is about. -/
def identity? : Operation → Option String
  | execute identity _ _ _ => some identity
  | invalidate identity => some identity
  | _ => none

/-- A session with the tree that an operation made, if it succeeded. -/
def settle {α : Type} (session : Session) : Except CacheError (α × FileTree) → Session
  | .ok (_, tree) => { session with tree }
  | .error _ => session

/-- The session after an operation. -/
def after (cache : Cache) (session : Session) : Operation → Session
  | execute identity configuration inputs body =>
    (cache.execute identity configuration inputs body session).2
  | invalidate identity => settle session (cache.invalidate session.tree identity)
  | prune ageSeconds =>
    match cutoff? session.now ageSeconds with
    | none => session
    | some cutoff => settle session (cache.prune session.tree cutoff)
  | clean => settle session (cache.clean session.tree)
  | elsewhere change => change session

/-- What comes of an operation. -/
def deed (cache : Cache) (session : Session) : Operation → Deed
  | execute identity configuration inputs body =>
    let fingerprint := Fingerprint.compute session.tree configuration inputs
    .ofCall identity fingerprint (cache.hit? session.tree identity fingerprint) (body session)
  | invalidate identity => .invalidated identity
  | prune ageSeconds =>
    match cutoff? session.now ageSeconds with
    | none => .elsewhere
    | some cutoff => .pruned cutoff
  | clean => .cleaned
  | elsewhere _ => .elsewhere

end Operation

section Execute

variable {cache : Cache} {session done : Session} {identity : String}
  {configuration : Environment} {inputs outputs : List Path} {body : Job (List Path)}
  (henabled : cache.enabled = true) (hmiss : cache.hit? session.tree identity
    (Fingerprint.compute session.tree configuration inputs) = none)

include henabled hmiss

theorem execute_of_failed (hbody : body session = (.error failure, done)) :
    cache.execute identity configuration inputs body session = (.error failure, done) := by
  rw [execute_of_miss henabled hmiss, Job.andThen, hbody]

theorem exists_store_of_execute (hbody : body session = (.ok outputs, done)) {execution : Execution}
    (hok : (cache.execute identity configuration inputs body session).1 = .ok execution) :
    ∃ stored, cache.store done.tree
        ⟨identity, Fingerprint.compute session.tree configuration inputs, outputs, done.now⟩ =
          (.ok (), stored) ∧
      (cache.execute identity configuration inputs body session).2.tree = stored := by
  have hexecute := @execute_of_miss cache identity configuration inputs body session henabled hmiss
  generalize Fingerprint.compute session.tree configuration inputs = fingerprint at hexecute ⊢
  generalize cache.execute identity configuration inputs body session = outcome at hok hexecute ⊢
  rw [Job.andThen, hbody] at hexecute
  simp only [Job.andThen, remember] at hexecute
  rcases hstore : cache.store done.tree ⟨identity, fingerprint, outputs, done.now⟩ with
    ⟨error | ⟨⟩, stored⟩
  · rw [hstore] at hexecute
    rw [hexecute] at hok
    cases hok
  · rw [hstore] at hexecute
    exact ⟨stored, rfl, by rw [hexecute]; rfl⟩

end Execute

/-- A change of the tree **leaves the directory of the cache alone**: if it is there, it stays where
it is with all that is in it, and if it is missing, it is still missing. -/
structure Spares (cache : Cache) (before after : FileTree) : Prop where
  tidy : after.Tidy
  kept : ∀ folder, before.Enters cache.dir folder → after.Enters cache.dir folder ∧
    ∀ location, folder <+: location → after.entry? location = before.entry? location
  vacant : cache.Vacant before → cache.Vacant after

/-- An operation goes **smoothly**: its file operations succeed, and what is not done by the cache
leaves the directory of the cache alone. -/
def Operation.Smooth (cache : Cache) (session : Session) : Operation → Prop
  | execute identity configuration inputs body =>
    cache.hit? session.tree identity (Fingerprint.compute session.tree configuration inputs) =
      none →
    cache.Spares session.tree (body session).2.tree ∧
      ∀ outputs, (body session).1 = .ok outputs →
        (body session).2.now.InRange ∧
        ∃ execution, (cache.execute identity configuration inputs body session).1 = .ok execution
  | invalidate identity => ∃ result, cache.invalidate session.tree identity = .ok result
  | prune ageSeconds =>
    session.tree.Named ∧ ∃ cutoff result, cutoff? session.now ageSeconds = some cutoff ∧
      cache.prune session.tree cutoff = .ok result
  | clean =>
    (∃ result, cache.clean session.tree = .ok result) ∧
    (∀ location target, session.tree.lookup false cache.dir ≠ .ok (location, .link target)) ∧
    ∀ folder, session.tree.Enters cache.dir folder → ¬folder <+: session.tree.here
  | elsewhere change => cache.Spares session.tree (change session).tree

namespace Operation

/-- Operations, one after another: what comes of them, and what they make of a session. -/
def run (cache : Cache) : List Operation → Session → List Deed × Session
  | [], session => ([], session)
  | operation :: operations, session =>
    let later := run cache operations (operation.after cache session)
    (operation.deed cache session :: later.1, later.2)

/-- All operations go smoothly, one after another. -/
def AllSmooth (cache : Cache) : List Operation → Session → Prop
  | [], _ => True
  | operation :: operations, session =>
    operation.Smooth cache session ∧ AllSmooth cache operations (operation.after cache session)

end Operation

/-! ### What the tree shows -/

/-- A tree **shows the records of a ledger** for some pieces of work: the directory of the cache is
in a place and they can be read there, or it is missing and there are none. -/
def Shows (cache : Cache) (used : List String) (ledger : String → Option WorkRecord)
    (tree : FileTree) : Prop :=
  (∃ folder, cache.Lodged folder tree ∧
    ∀ identity ∈ used, cache.record? tree identity = ledger identity) ∨
  cache.Vacant tree ∧ ∀ identity ∈ used, ledger identity = none

variable {cache : Cache} {used : List String} {known : String → Option WorkRecord}
  {tree other : FileTree} {session : Session}

namespace Spares

theorem lodged (h : cache.Spares tree other) (hlodged : cache.Lodged folder tree) :
    cache.Lodged folder other := by
  obtain ⟨henters, hentry⟩ := h.kept folder hlodged.enters
  refine ⟨⟨h.tidy, henters, fun name target hlink => ?_⟩, fun location target hbelow hlink => ?_⟩
  · rw [hentry _ (List.prefix_append ..)] at hlink
    exact hlodged.no_link name target hlink
  · rw [hentry location hbelow] at hlink
    exact hlodged.no_links location target hbelow hlink

/-- **The same records are shown** if the directory of the cache is left alone. -/
theorem shows (h : cache.Spares tree other) (hshows : cache.Shows used known tree) :
    cache.Shows used known other := by
  rcases hshows with ⟨folder, hlodged, hrecords⟩ | ⟨hvacant, hnone⟩
  · refine .inl ⟨folder, h.lodged hlodged, fun identity hidentity => ?_⟩
    rw [hlodged.toHoused.record?_congr (h.lodged hlodged).toHoused, hrecords identity hidentity]
    exact .of_eq ((h.kept folder hlodged.enters).2 _ (List.prefix_append ..))
  · exact .inr ⟨h.vacant hvacant, hnone⟩

end Spares

namespace Shows

variable (henabled : cache.enabled = true) (hdir : cache.dir.text ≠ "")
  (hseparate : ∀ a ∈ used, ∀ b ∈ used, recordName a = recordName b → a = b)

include hdir

theorem record?_eq (h : cache.Shows used known tree)
    (hidentity : identity ∈ used) : cache.record? tree identity = known identity := by
  rcases h with ⟨folder, hlodged, hrecords⟩ | ⟨hvacant, hnone⟩
  · exact hrecords identity hidentity
  · rw [hvacant.record?_eq_none hdir, hnone identity hidentity]

include hseparate

omit hdir in
/-- **Keeping a record** shows it. -/
theorem store (h : cache.Shows used known tree) {record : WorkRecord}
    (hused : record.identity ∈ used) (htime : record.createdAt.InRange) {stored : FileTree}
    (hstore : cache.store tree record = (.ok (), stored)) :
    cache.Shows used ((Deed.ran record).note known) stored := by
  have hnames : ∀ identity ∈ used, record.identity ≠ identity →
      recordName identity ≠ recordName record.identity :=
    fun identity hidentity hne heq => hne (hseparate _ hidentity _ hused heq).symm
  obtain ⟨folder, hafter, hrecord, hothers⟩ : ∃ folder, cache.Lodged folder stored ∧
      cache.record? stored record.identity = some record ∧ ∀ identity ∈ used,
        record.identity ≠ identity → cache.record? stored identity = known identity := by
    rcases h with ⟨folder, hlodged, hrecords⟩ | ⟨hvacant, hnone⟩
    · obtain ⟨hafter, hrecord, hothers⟩ := hlodged.store htime hstore
      exact ⟨folder, hafter, hrecord, fun identity hidentity hne =>
        (hothers identity (hnames identity hidentity hne)).trans (hrecords identity hidentity)⟩
    · obtain ⟨folder, hafter, hrecord, hothers⟩ := hvacant.store htime hstore
      exact ⟨folder, hafter, hrecord, fun identity hidentity hne =>
        (hothers identity (hnames identity hidentity hne)).trans (hnone identity hidentity).symm⟩
  refine .inl ⟨folder, hafter, fun identity hidentity => ?_⟩
  by_cases hsame : record.identity = identity
  · rw [Deed.note, if_pos hsame, ← hsame, hrecord]
  · rw [Deed.note, if_neg hsame, hothers identity hidentity hsame]

theorem invalidate (h : cache.Shows used known tree) {dropped : String}
    (hused : dropped ∈ used) {was : Bool} (hok : cache.invalidate tree dropped = .ok (was, other)) :
    cache.Shows used ((Deed.invalidated dropped).note known) other := by
  rcases h with ⟨folder, hlodged, hrecords⟩ | ⟨hvacant, hnone⟩
  · obtain ⟨hafter, hgone, hothers⟩ := hlodged.invalidate hok
    refine .inl ⟨folder, hafter, fun identity hidentity => ?_⟩
    by_cases hsame : dropped = identity
    · rw [Deed.note, if_pos hsame, ← hsame, hgone]
    · rw [Deed.note, if_neg hsame, ← hrecords identity hidentity]
      refine hlodged.toHoused.record?_congr hafter.toHoused (.of_eq (hothers _ fun heq => hsame ?_))
      exact (hseparate _ hidentity _ hused (by simpa using heq)).symm
  · rw [hvacant.invalidate hdir hok]
    refine .inr ⟨hvacant, fun identity hidentity => ?_⟩
    rw [Deed.note, hnone identity hidentity, ite_self]

omit hseparate in
/-- **Dropping the records that are too old** shows which ones are left. -/
theorem prune (h : cache.Shows used known tree) (hnamed : tree.Named) {cutoff : Timestamp}
    {pruned : Pruned}
    (hok : cache.prune tree cutoff = .ok (pruned, other)) :
    cache.Shows used ((Deed.pruned cutoff).note known) other := by
  rcases h with ⟨folder, hlodged, hrecords⟩ | ⟨hvacant, hnone⟩
  · obtain ⟨hafter, hleft⟩ := hlodged.prune hdir hnamed hok
    refine .inl ⟨folder, hafter, fun identity hidentity => ?_⟩
    rw [Deed.note, hleft, hrecords identity hidentity]
  · rw [hvacant.prune hok]
    refine .inr ⟨hvacant, fun identity hidentity => ?_⟩
    rw [Deed.note, hnone identity hidentity, Option.filter_none]

omit hseparate in
/-- **Dropping all records** shows that there are none. -/
theorem clean (h : cache.Shows used known tree)
    (hlink : ∀ location target, tree.lookup false cache.dir ≠ .ok (location, .link target))
    (hhere : ∀ folder, tree.Enters cache.dir folder → ¬folder <+: tree.here) {count : Nat}
    (hok : cache.clean tree = .ok (count, other)) :
    cache.Shows used (Deed.cleaned.note known) other := by
  refine .inr ⟨?_, fun _ _ => rfl⟩
  rcases h with ⟨folder, hlodged, -⟩ | ⟨hvacant, -⟩
  · exact hlodged.clean hdir hlink (hhere folder hlodged.enters) hok
  · rwa [hvacant.clean hok]

include henabled

omit hdir in
/-- **A call** shows the record of the body it ran, if that returned. -/
theorem execute (h : cache.Shows used known session.tree) {identity : String}
    (hused : identity ∈ used) {configuration : Environment} {inputs : List Path}
    {body : Job (List Path)}
    (hsmooth : (Operation.execute identity configuration inputs body).Smooth cache session) :
    cache.Shows used
      (((Operation.execute identity configuration inputs body).deed cache session).note known)
      (cache.execute identity configuration inputs body session).2.tree := by
  rw [Operation.deed]
  cases hhit : cache.hit? session.tree identity
      (Fingerprint.compute session.tree configuration inputs) with
  | some outputs =>
    rw [execute_of_hit henabled hhit]
    exact h
  | none =>
    obtain ⟨hspares, hreturned⟩ := hsmooth hhit
    have hafter := hspares.shows h
    rcases hbody : body session with ⟨failure | outputs, done⟩
    · rw [execute_of_failed henabled hhit hbody]
      rw [hbody] at hafter
      exact hafter
    · rw [hbody] at hafter hreturned
      obtain ⟨htime, execution, hok⟩ := hreturned outputs rfl
      obtain ⟨stored, hstore, hexecute⟩ := exists_store_of_execute henabled hhit hbody hok
      rw [hexecute, Deed.ofCall]
      refine hafter.store hseparate ?_ ?_ hstore
      · exact hused
      · exact htime

/-- **Every operation** keeps what is shown in step with the ledger. -/
theorem operate (h : cache.Shows used known session.tree)
    {operation : Operation} (hused : ∀ identity ∈ operation.identity?, identity ∈ used)
    (hsmooth : operation.Smooth cache session) :
    cache.Shows used ((operation.deed cache session).note known)
      (operation.after cache session).tree := by
  cases operation with
  | execute identity configuration inputs body =>
    exact h.execute henabled hseparate (hused identity rfl) hsmooth
  | invalidate dropped =>
    obtain ⟨⟨was, tree⟩, hok⟩ := hsmooth
    rw [Operation.after, hok]
    exact h.invalidate hdir hseparate (hused dropped rfl) hok
  | prune ageSeconds =>
    obtain ⟨hnamed, cutoff, ⟨pruned, tree⟩, hcutoff, hok⟩ := hsmooth
    simp only [Operation.after, Operation.deed, hcutoff, hok]
    exact h.prune hdir hnamed hok
  | clean =>
    obtain ⟨⟨⟨count, tree⟩, hok⟩, hlink, hhere⟩ := hsmooth
    rw [Operation.after, hok]
    exact h.clean hdir hlink hhere hok
  | elsewhere change => exact Spares.shows hsmooth h

/-- **All operations**, one after another, keep what is shown in step with the ledger. -/
theorem run {operations : List Operation} (h : cache.Shows used known session.tree)
    (hused : ∀ operation ∈ operations, ∀ identity ∈ operation.identity?, identity ∈ used)
    (hsmooth : Operation.AllSmooth cache operations session) :
    cache.Shows used ((Operation.run cache operations session).1.foldl Deed.note known)
      (Operation.run cache operations session).2.tree := by
  induction operations generalizing known session with
  | nil => exact h
  | cons operation operations ih =>
    obtain ⟨hfirst, hrest⟩ := List.forall_mem_cons.1 hused
    exact ih (h.operate henabled hdir hseparate hfirst hsmooth.1) hrest hsmooth.2

end Shows

/-! ### All operations -/

/-- A call **skips its body**: whatever the body is, it only returns what it found. -/
def Skips (cache : Cache) (session : Session) (identity : String) (configuration : Environment)
    (inputs : List Path) : Prop :=
  ∀ body, ∃ outputs, cache.execute identity configuration inputs body session =
    (.ok { outputs, upToDate := true }, session)

theorem outputs_of_hit? {fingerprint : Fingerprint} {outputs : List Path}
    (h : cache.hit? tree identity fingerprint = some outputs) :
    ∀ path ∈ outputs, tree.pathExists path = true := by
  unfold hit? at h
  generalize cache.record? tree identity = found at h
  cases found with
  | none => cases h
  | some record =>
    simp only [Option.ite_none_right_eq_some, Option.some.injEq, Bool.and_eq_true] at h
    obtain ⟨⟨-, hexist⟩, rfl⟩ := h
    exact List.all_eq_true.1 hexist

/-- **A call skips its body** exactly if the record has the present fingerprint and all its outputs
are there. -/
theorem skips_iff (henabled : cache.enabled = true) :
    cache.Skips session identity configuration inputs ↔
      ∃ record, cache.record? session.tree identity = some record ∧
        record.fingerprint = Fingerprint.compute session.tree configuration inputs ∧
        ∀ path ∈ record.outputs, session.tree.pathExists path = true := by
  constructor
  · intro hskips
    cases hhit : cache.hit? session.tree identity
        (Fingerprint.compute session.tree configuration inputs) with
    | some outputs =>
      obtain ⟨record, hrecord, hfingerprint, rfl⟩ := record?_of_hit? hhit
      exact ⟨record, hrecord, hfingerprint, outputs_of_hit? hhit⟩
    | none =>
      -- a body that fails would be seen
      obtain ⟨outputs, hreturned⟩ := hskips (Job.failed (.custom ""))
      have hbody : (Job.failed (.custom "") : Job (List Path)) session =
          (.error (.custom ""), session) := rfl
      rw [execute_of_failed henabled hhit hbody] at hreturned
      cases hreturned
  · rintro ⟨record, hrecord, hfingerprint, houtputs⟩ body
    have hhit := hit?_of_record? hrecord houtputs
    rw [hfingerprint] at hhit
    exact ⟨record.outputs, execute_of_hit henabled hhit⟩

theorem execute_of_not_skips (henabled : cache.enabled = true)
    (h : ¬cache.Skips session identity configuration inputs) {body : Job (List Path)}
    {done : Session} (hbody : body session = (.error failure, done)) :
    cache.execute identity configuration inputs body session = (.error failure, done) := by
  refine execute_of_failed henabled (Option.eq_none_iff_forall_ne_some.2 fun outputs hhit => ?_)
    hbody
  exact h fun _ => ⟨outputs, execute_of_hit henabled hhit⟩

/-- **There are no records** of some pieces of work: the directory of the cache is missing, or it is
in a place and holds none of theirs. -/
def Blank (cache : Cache) (used : List String) (tree : FileTree) : Prop :=
  cache.Vacant tree ∨ ∃ folder, cache.Lodged folder tree ∧
    ∀ identity ∈ used, cache.record? tree identity = none

theorem Blank.shows (h : cache.Blank used tree) : cache.Shows used (fun _ => none) tree := by
  rcases h with hvacant | ⟨folder, hlodged, hnone⟩
  · exact .inr ⟨hvacant, fun _ _ => rfl⟩
  · exact .inl ⟨folder, hlodged, hnone⟩

/-- **The records of a cache are a map** from pieces of work to what is known about them. Suppose
there are no records of some pieces of work at first, their digests differ, and operations on these
are done one after another. Then what can be read for a piece of work is the record of the last
body that was run for it and returned, with the fingerprint from before it was run, unless the
record was dropped since; otherwise there is none. A further operation that only runs a body that
fails, or is about other work, leaves it. The next call skips its body exactly if this record has
the present fingerprint and all its outputs are there, and else it runs it.

The path of the directory is not empty, and at first the directory is missing, or in a place with no
link in it. The operations go smoothly: those of the cache return, a body and what is done elsewhere
leave the directory alone, and the clock is in range when a record is made. To clean, the path of
the directory is not itself a link, and the working directory is not inside it. -/
theorem records_are_a_map (henabled : cache.enabled = true) (hdir : cache.dir.text ≠ "")
    (hseparate : ∀ a ∈ used, ∀ b ∈ used,
      Sha256.digest a.toUTF8 = Sha256.digest b.toUTF8 → a = b)
    {start : Session} (hblank : cache.Blank used start.tree) {operations : List Operation}
    (hused : ∀ operation ∈ operations, ∀ identity ∈ operation.identity?, identity ∈ used)
    (hsmooth : Operation.AllSmooth cache operations start) {deeds : List Deed} {session : Session}
    (hrun : Operation.run cache operations start = (deeds, session)) {identity : String}
    (hidentity : identity ∈ used) :
    (∀ record, cache.record? session.tree identity = some record ↔
      record.identity = identity ∧ Deed.Standing deeds record) ∧
    (∀ operation : Operation, (∀ name ∈ operation.identity?, name ∈ used) →
      operation.Smooth cache session → ¬(operation.deed cache session).Concerns identity →
      cache.record? (operation.after cache session).tree identity =
        cache.record? session.tree identity) ∧
    ∀ configuration inputs,
      (cache.Skips session identity configuration inputs ↔
        ∃ record, record.identity = identity ∧ Deed.Standing deeds record ∧
          record.fingerprint = Fingerprint.compute session.tree configuration inputs ∧
          ∀ path ∈ record.outputs, session.tree.pathExists path = true) ∧
      (¬cache.Skips session identity configuration inputs →
        ∀ body failure done, body session = (.error failure, done) →
          cache.execute identity configuration inputs body session = (.error failure, done)) := by
  have hnames : ∀ a ∈ used, ∀ b ∈ used, recordName a = recordName b → a = b := by
    intro a ha b hb heq
    rw [recordName, recordName, String.append_left_inj] at heq
    exact hseparate a ha b hb (Sha256.hex_injective heq)
  have hshows := hblank.shows.run henabled hdir hnames hused hsmooth
  rw [hrun] at hshows
  have hrecord : ∀ record, cache.record? session.tree identity = some record ↔
      record.identity = identity ∧ Deed.Standing deeds record := by
    intro record
    rw [hshows.record?_eq hdir hidentity]
    exact Deed.ledger_eq_some_iff deeds identity record
  refine ⟨hrecord, fun operation hoperation hgoes hother => ?_,
    fun configuration inputs => ⟨?_, ?_⟩⟩
  · have hafter := hshows.operate henabled hdir hnames hoperation hgoes
    rw [hafter.record?_eq hdir hidentity, hshows.record?_eq hdir hidentity]
    exact Deed.note_of_not_concerns hother
  · rw [skips_iff henabled]
    simp only [hrecord, and_assoc]
  · intro hruns body failure done hbody
    exact execute_of_not_skips henabled hruns hbody

/-! ### A first record -/

theorem vacant_empty (dir : Path) (hmissing : empty.pathExists dir = false) :
    ({ dir } : Cache).Vacant empty where
  tidy := tidy_of_entries rfl (by simp [empty]) (by simp [empty])
  missing := hmissing
  fresh grown hgrown folder _ location entry _ hsome := by
    rcases hgrown.entry location with hsame | ⟨-, hmade⟩
    · by_cases hroot : location = []
      · subst hroot
        exact (Option.some.inj hsome).symm
      · rw [hsame, entry?_of_ne_nil _ hroot] at hsome
        cases hsome
    · exact Option.some.inj (hsome.symm.trans hmade)

theorem Spares.refl (htidy : tree.Tidy) : cache.Spares tree tree :=
  ⟨htidy, fun _ henters => ⟨henters, fun _ _ => rfl⟩, id⟩

/-- The tree with one record, in the directory `cache`. -/
def firstTree (record : WorkRecord) : FileTree where
  entries := [(["cache"], .directory),
    (["cache", recordName record.identity], .file record.text.toUTF8)]
  here := []

/-- The record of work that produces nothing, done at the outset. -/
def firstRecord (identity : String) : WorkRecord where
  identity := identity
  fingerprint := Fingerprint.compute empty .empty []
  outputs := []
  createdAt := ⟨0⟩

theorem lodged_firstTree (record : WorkRecord) :
    ({ dir := ⟨"cache"⟩ } : Cache).Lodged ["cache"] (firstTree record) := by
  have hno_link : ∀ location target, entry? (firstTree record) location ≠ some (.link target) := by
    intro location target
    simp only [firstTree, entry?, find?]
    repeat' split
    all_goals simp
  have htidy : (firstTree record).Tidy :=
    tidy_of_entries rfl (by simp [firstTree]) (by simp [firstTree, entry?, find?])
  exact ⟨⟨htidy, rfl, fun _ => hno_link _⟩, fun location target _ => hno_link location target⟩

/-- An empty tree at time zero. -/
def outset : Session := { tree := .empty, now := ⟨0⟩ }

/-- The session once the first record is kept. -/
def kept₁ : Session := { tree := firstTree (firstRecord "lib"), now := ⟨1⟩ }

/-- Work is done, other work fails, and the record of the latter is dropped. -/
def firstOperations : List Operation :=
  [.execute "lib" .empty [] (Job.done []), .execute "app" .empty [] (Job.failed (.custom "boom")),
    .invalidate "app"]

/-- **What the first operations come to**: one record. -/
theorem run_first :
    Operation.run { dir := ⟨"cache"⟩ } firstOperations outset =
        ([.ran (firstRecord "lib"), .failed, .invalidated "app"], kept₁) ∧
      Operation.AllSmooth { dir := ⟨"cache"⟩ } firstOperations outset := by
  have hfirst : (Operation.execute "lib" .empty [] (Job.done [])).after { dir := ⟨"cache"⟩ }
      outset = kept₁ := by decide +kernel
  have hsecond : (Operation.execute "app" .empty [] (Job.failed (.custom "boom"))).after
      { dir := ⟨"cache"⟩ } kept₁ = kept₁ := by decide +kernel
  have hexecute : (({ dir := ⟨"cache"⟩ } : Cache).execute "lib" .empty [] (Job.done []) outset).1 =
      .ok { outputs := [], upToDate := false } := by decide +kernel
  have hinvalidate : ({ dir := ⟨"cache"⟩ } : Cache).invalidate kept₁.tree "app" =
      .ok (false, kept₁.tree) := by decide +kernel
  refine ⟨by decide +kernel, fun _ => ⟨.refl (vacant_empty ⟨"cache"⟩ rfl).tidy,
    fun outputs _ => ⟨by decide, _, hexecute⟩⟩, ?_⟩
  rw [hfirst]
  refine ⟨fun _ => ⟨.refl (lodged_firstTree _).tidy, fun outputs hok => by cases hok⟩, ?_⟩
  rw [hsecond]
  exact ⟨⟨_, hinvalidate⟩, trivial⟩

/-- The first record is read, and its work is not done again. -/
theorem records_are_a_map_first :
    Operation.run { dir := ⟨"cache"⟩ } firstOperations outset =
        ([.ran (firstRecord "lib"), .failed, .invalidated "app"], kept₁) ∧
      ({ dir := ⟨"cache"⟩ } : Cache).record? kept₁.tree "lib" = some (firstRecord "lib") ∧
      ({ dir := ⟨"cache"⟩ } : Cache).record? kept₁.tree "app" = none ∧
      ({ dir := ⟨"cache"⟩ } : Cache).Skips kept₁ "lib" .empty [] := by
  obtain ⟨hrun, hsmooth⟩ := run_first
  have hseparate : ∀ a ∈ ["lib", "app"], ∀ b ∈ ["lib", "app"],
      Sha256.digest a.toUTF8 = Sha256.digest b.toUTF8 → a = b := by
    simp only [List.forall_mem_cons, List.not_mem_nil, false_imp_iff, implies_true, and_true,
      true_and]
    exact ⟨fun heq => absurd heq.symm Sha256.digest_app_ne_lib,
      fun heq => absurd heq Sha256.digest_app_ne_lib⟩
  have hused : ∀ operation ∈ firstOperations, ∀ identity ∈ operation.identity?,
      identity ∈ ["lib", "app"] := by
    simp [firstOperations, Operation.identity?]
  have hmap := @records_are_a_map { dir := ⟨"cache"⟩ } ["lib", "app"] rfl (by decide) hseparate
    outset (.inl (vacant_empty ⟨"cache"⟩ rfl)) firstOperations hused hsmooth _ _ hrun
  have hstanding : Deed.Standing [.ran (firstRecord "lib"), .failed, .invalidated "app"]
      (firstRecord "lib") :=
    ⟨[], [.failed, .invalidated "app"], rfl, by simp [Deed.Ends, firstRecord]⟩
  -- With no inputs, the tree is not read.
  have hsame : (firstRecord "lib").fingerprint = Fingerprint.compute kept₁.tree .empty [] := by
    simp only [firstRecord, Fingerprint.compute, Fingerprint.stream, List.foldl_nil]
  refine ⟨hrun, ((hmap (by simp)).1 _).2 ⟨rfl, hstanding⟩, ?_,
    ((hmap (by simp)).2.2 _ _).1.2 ⟨_, rfl, hstanding, hsame, by simp [firstRecord]⟩⟩
  · refine Option.eq_none_iff_forall_ne_some.2 fun record hrecord => ?_
    obtain ⟨hidentity, before, later, hdeeds, -⟩ := ((hmap (by simp)).1 record).1 hrecord
    have hmem : Deed.ran record ∈ [.ran (firstRecord "lib"), .failed, .invalidated "app"] := by
      rw [hdeeds]
      simp
    simp only [List.mem_cons, Deed.ran.injEq, reduceCtorEq, List.not_mem_nil, or_false] at hmem
    rw [hmem] at hidentity
    exact absurd hidentity (by decide)

end BuildMatrix.Cache
