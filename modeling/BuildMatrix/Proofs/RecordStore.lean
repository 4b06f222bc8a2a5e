import BuildMatrix.Proofs.RecordFiles

/-!
# Keeping records

What the file tree says about the record of a piece of work, before and after a record is kept. The
directory of the cache may be missing, and making it may bring to light what was not to be found
before, so that a tree *reflects* what is known about the record if every record that can be read,
now or once missing directories are made, is the known one.
-/

namespace BuildMatrix.Cache

open FileTree

variable {record : WorkRecord} {location : Location} {content : ByteArray}

/-- A tree **reflects** what is known about the record of a piece of work: whatever record can be
read, now or once missing directories are made, has the known fingerprint and outputs. No link
stands in the place of the temporary file. -/
structure Reflects (cache : Cache) (identity : String) (known : Option (Fingerprint × List Path))
    (tree : FileTree) : Prop where
  sound : tree.Sound
  record_eq : ∀ grown, tree.Grows grown → ∀ record, cache.record? grown identity = some record →
    known = some (record.fingerprint, record.outputs)
  no_link : ∀ grown, tree.Grows grown → ∀ location target,
    grown.lookup false (cache.temporaryPath identity) ≠ .ok (location, .link target)

variable {cache : Cache} {identity : String} {known : Option (Fingerprint × List Path)}
  {tree grown other : FileTree} {place : Nat × Location}

theorem Reflects.grow (h : cache.Reflects identity known tree) (hgrows : tree.Grows grown)
    (hsound : grown.Sound) : cache.Reflects identity known grown :=
  ⟨hsound, fun later hlater => h.record_eq later (hgrows.trans hlater),
    fun later hlater => h.no_link later (hgrows.trans hlater)⟩

/-- A record in a file is read **from its content**. -/
theorem recordAt?_eq_some_iff {path : Path} :
    recordAt? tree path = some record ↔
      ∃ location content, tree.locate true path = .ok location ∧
        tree.entry? location = some (.file content) ∧
        (Text.decode? content).bind WorkRecord.parse? = some record := by
  rw [recordAt?, FileTree.read, lookup]
  constructor
  · intro h
    cases hlocate : tree.locate true path with
    | error error => simp [hlocate] at h
    | ok location =>
      simp only [hlocate] at h
      refine ⟨location, ?_⟩
      cases hentry : tree.entry? location with
      | none => simp [hentry] at h
      | some entry =>
        cases entry with
        | directory => simp [hentry] at h
        | link target => simp [hentry] at h
        | file content =>
          simp only [hentry, WorkRecord.read?_eq] at h
          exact ⟨content, rfl, rfl, h⟩
  · rintro ⟨location, content, hlocate, hentry, hrecord⟩
    simp only [hlocate, hentry, WorkRecord.read?_eq]
    exact hrecord

theorem record?_eq_some_iff :
    cache.record? tree identity = some record ↔
      (∃ location content, tree.locate true (cache.recordPath identity) = .ok location ∧
        tree.entry? location = some (.file content) ∧
        (Text.decode? content).bind WorkRecord.parse? = some record) ∧
      record.identity = identity := by
  rw [← recordAt?_eq_some_iff]
  unfold record?
  generalize recordAt? tree (cache.recordPath identity) = found
  cases found with
  | none => simp
  | some found =>
    simp only [Option.ite_none_right_eq_some, Option.some.injEq]
    constructor
    · rintro ⟨hidentity, rfl⟩
      exact ⟨rfl, hidentity⟩
    · rintro ⟨rfl, hidentity⟩
      exact ⟨hidentity, rfl⟩

theorem record?_of_hit? {fingerprint : Fingerprint} {outputs : List Path}
    (h : cache.hit? tree identity fingerprint = some outputs) :
    ∃ record, cache.record? tree identity = some record ∧ record.fingerprint = fingerprint ∧
      record.outputs = outputs := by
  unfold hit? at h
  generalize cache.record? tree identity = found at h ⊢
  cases found with
  | none => cases h
  | some record =>
    simp only [Option.ite_none_right_eq_some, Option.some.injEq, Bool.and_eq_true,
      decide_eq_true_eq] at h
    exact ⟨record, rfl, h.1.1, h.2⟩

theorem reflects_empty (cache : Cache) (identity : String) :
    cache.Reflects identity none FileTree.empty := by
  have hentry : ∀ grown, FileTree.empty.Grows grown → ∀ location entry,
      grown.entry? location = some entry → entry = .directory := by
    intro grown hgrown location entry hsome
    rcases hgrown.entry location with heq | ⟨-, hmade⟩
    · by_cases hroot : location = []
      · simpa [hroot, eq_comm] using hsome
      · rw [heq, entry?_of_ne_nil _ hroot] at hsome
        cases hsome
    · exact (Option.some.inj (hmade.symm.trans hsome)).symm
  refine ⟨⟨rfl, fun location name hsome => ?_⟩, fun grown hgrown record hrecord => ?_,
    fun grown hgrown location target hlookup => ?_⟩
  · rw [entry?_of_ne_nil _ (by simp)] at hsome
    exact absurd rfl hsome
  · obtain ⟨⟨location, content, -, hfile, -⟩, -⟩ := record?_eq_some_iff.1 hrecord
    cases hentry grown hgrown location _ hfile
  · cases hentry grown hgrown location _ (lookup_eq_ok_iff.1 hlookup).2

/-! ### The directory of the cache -/

/-- Where the directory of a record is. -/
def folder (cache : Cache) (identity : String) (tree : FileTree) :
    Except OsError (Nat × Location) :=
  approach tree maxLinks (tree.startOf (cache.recordPath identity)) cache.dir.stemNames

/-- The place of the record's file, at the end of the way. -/
@[reducible] def recordSlot (identity : String) (place : Nat × Location) : Location :=
  place.2 ++ [recordName identity]

/-- The place of the temporary file, at the end of the way. -/
@[reducible] def temporarySlot (identity : String) (place : Nat × Location) : Location :=
  place.2 ++ [recordName identity ++ ".tmp"]

theorem temporarySlot_ne_recordSlot (place : Nat × Location) :
    temporarySlot identity place ≠ recordSlot identity place := by
  simp

theorem startOf_temporaryPath (tree : FileTree) :
    tree.startOf (cache.temporaryPath identity) = tree.startOf (cache.recordPath identity) := by
  rw [startOf, startOf, isAbsolute_temporaryPath]

theorem folder_of_keeps (h : tree.Keeps other) (hhere : other.here = tree.here)
    (hplace : cache.folder identity tree = .ok place) :
    cache.folder identity other = .ok place := by
  rw [folder, startOf, hhere]
  exact approach_of_keeps h hplace

theorem folder_unique (h : tree.Agree other) (hhere : other.here = tree.here)
    {place' : Nat × Location} (hplace : cache.folder identity tree = .ok place)
    (hplace' : cache.folder identity other = .ok place') : place' = place := by
  rw [folder, startOf, hhere] at hplace'
  exact approach_unique h hplace hplace'

theorem content_of_record?_of_folder {record : WorkRecord}
    (h : cache.record? tree identity = some record)
    (hplace : ∀ place', cache.folder identity tree = .ok place' → place' = place)
    (hlink : ∀ target, tree.entry? (recordSlot identity place) ≠ some (.link target)) :
    ∃ content, tree.entry? (recordSlot identity place) = some (.file content) ∧
      (Text.decode? content).bind WorkRecord.parse? = some record := by
  obtain ⟨⟨location, content, hlocate, hentry, hcontent⟩, -⟩ := record?_eq_some_iff.1 h
  obtain ⟨place', hplace', hlocation⟩ := locate_child_of_no_link
    (cache.parts_recordPath identity) (isName_recordName identity) hlocate
  obtain rfl := hplace place' hplace'
  rw [hlocation hlink] at hentry
  exact ⟨content, hentry, hcontent⟩

theorem entry?_of_lookup_temporary {entry : Entry}
    (h : tree.lookup false (cache.temporaryPath identity) = .ok (location, entry))
    (hplace : ∀ place', cache.folder identity tree = .ok place' → place' = place) :
    tree.entry? (temporarySlot identity place) = some entry := by
  obtain ⟨hlocate, hentry⟩ := lookup_eq_ok_iff.1 h
  obtain ⟨-, place', hplace', rfl⟩ := (locate_child_iff (cache.parts_temporaryPath identity)
    (isName_temporaryName identity)).1 hlocate
  rw [startOf_temporaryPath] at hplace'
  rw [← hplace place' hplace']
  exact hentry

/-! ### Keeping a record -/

theorem getLast?_temporaryPath (cache : Cache) (identity : String) :
    (cache.temporaryPath identity).text.toList.getLast? ≠ some '/' := by
  have hlast : ".tmp".toList.getLast? = some 'p' := by decide
  rw [temporaryPath, suffixed, String.toList_append, List.getLast?_append, hlast, Option.some_or]
  decide

theorem isUsable_recordPath (h : IsUsable (cache.temporaryPath identity)) :
    IsUsable (cache.recordPath identity) where
  ne_empty := by
    intro hempty
    have := length_recordName identity
    rw [text_recordPath] at hempty
    rw [(String.append_eq_empty_iff.1 hempty).2] at this
    cases this
  no_zero := by
    have := h.no_zero
    rw [temporaryPath, suffixed, String.toList_append] at this
    exact fun hzero => this (List.mem_append_left _ hzero)
  size_le := by
    have := h.size_le
    rw [temporaryPath, suffixed, String.utf8ByteSize_append] at this
    omega

/-- A place at which the temporary file **can be written**. -/
structure Writable (cache : Cache) (identity : String) (tree : FileTree)
    (place : Nat × Location) : Prop where
  folder : cache.folder identity tree = .ok place
  directory : tree.entry? place.2 = some .directory
  no_directory : tree.entry? (temporarySlot identity place) ≠ some .directory
  no_link : ∀ target, tree.entry? (temporarySlot identity place) ≠ some (.link target)

/-- The temporary file is written **in the directory of the cache**. -/
theorem Reflects.write (h : cache.Reflects identity known tree) {written : FileTree}
    (hwrite : tree.write (cache.temporaryPath identity) content = .ok written) :
    IsUsable (cache.temporaryPath identity) ∧ ∃ place, cache.Writable identity tree place ∧
      written = tree.insert (temporarySlot identity place) (.file content) := by
  obtain ⟨location, hlocate, hdirectory, -, rfl⟩ := write_eq_ok hwrite
  rw [withoutSlashes_eq (getLast?_temporaryPath cache identity)] at hlocate
  have husable := (locate_eq_ok_iff.1 hlocate).1
  obtain ⟨place, hplace, hlocation⟩ := locate_child_of_no_link
    (cache.parts_temporaryPath identity) (isName_temporaryName identity) hlocate
  have hlocate' : tree.locate false (cache.temporaryPath identity) =
      .ok (temporarySlot identity place) :=
    (locate_child_iff (cache.parts_temporaryPath identity) (isName_temporaryName identity)).2
      ⟨husable, place, hplace, rfl⟩
  have hlink : ∀ target, tree.entry? (temporarySlot identity place) ≠ some (.link target) := by
    intro target hentry
    exact h.no_link tree (.refl tree) _ target (lookup_eq_ok_iff.2 ⟨hlocate', hentry⟩)
  have hparent := h.sound.locate hlocate'
  rw [List.dropLast_concat] at hparent
  obtain rfl := hlocation hlink
  rw [startOf_temporaryPath] at hplace
  exact ⟨husable, place, ⟨hplace, hparent, hdirectory, hlink⟩, rfl⟩

/-- The temporary file gets the name of the record, **unless a directory has it**. -/
theorem rename_temporary (husable : IsUsable (cache.temporaryPath identity))
    (hplace : cache.folder identity tree = .ok place)
    (hfile : tree.entry? (temporarySlot identity place) = some (.file content)) :
    (tree.entry? (recordSlot identity place) = some .directory ∧
      tree.rename (cache.temporaryPath identity) (cache.recordPath identity) =
        .error .isDirectory) ∨
    (tree.entry? (recordSlot identity place) ≠ some .directory ∧
      tree.rename (cache.temporaryPath identity) (cache.recordPath identity) =
        .ok (tree.moveEntries (temporarySlot identity place)
          (recordSlot identity place))) := by
  have hsource : tree.lookup false (cache.temporaryPath identity) =
      .ok (temporarySlot identity place, .file content) := by
    refine lookup_eq_ok_iff.2 ⟨(locate_child_iff (cache.parts_temporaryPath identity)
      (isName_temporaryName identity)).2 ⟨husable, place, ?_, rfl⟩, hfile⟩
    rw [startOf_temporaryPath]
    exact hplace
  have htarget : tree.locate false (cache.recordPath identity) =
      .ok (recordSlot identity place) :=
    (locate_child_iff (cache.parts_recordPath identity) (isName_recordName identity)).2
      ⟨isUsable_recordPath husable, place, hplace, rfl⟩
  unfold FileTree.rename
  simp only [hsource, htarget, if_neg (temporarySlot_ne_recordSlot place)]
  cases tree.entry? (recordSlot identity place) with
  | none => exact .inr ⟨by simp, rfl⟩
  | some entry =>
    cases entry with
    | file content => exact .inr ⟨by simp, rfl⟩
    | directory => exact .inl ⟨rfl, rfl⟩
    | link target => exact .inr ⟨by simp, rfl⟩

namespace Writable

theorem keeps (h : cache.Writable identity tree place) (content : ByteArray) :
    tree.Keeps (tree.insert (temporarySlot identity place) (.file content)) :=
  .insert (by simp) h.no_directory h.no_link _

theorem sound (h : cache.Writable identity tree place) (hsound : tree.Sound)
    (content : ByteArray) : (tree.insert (temporarySlot identity place) (.file content)).Sound := by
  refine hsound.insert (by simp) ?_ h.no_directory
  rw [List.dropLast_concat]
  exact h.directory

theorem entry?_written (content : ByteArray) :
    entry? (tree.insert (temporarySlot identity place) (.file content))
        (temporarySlot identity place) = some (.file content) ∧
      entry? (tree.insert (temporarySlot identity place) (.file content))
        (recordSlot identity place) = tree.entry? (recordSlot identity place) := by
  have hne : temporarySlot identity place ≠ [] := by simp
  rw [entry?_insert tree hne, if_pos rfl, entry?_insert tree hne,
    if_neg (temporarySlot_ne_recordSlot place).symm]
  exact ⟨rfl, rfl⟩

end Writable

/-- **What replacing the record's file does** once its directory is there: nothing, or the temporary
file is written, and then it gets the name of the record unless a directory has it. -/
theorem Reflects.replaceFile_cases (h : cache.Reflects identity known tree) (content : ByteArray) :
    (∃ error, tree.replaceFile (cache.temporaryPath identity) (cache.recordPath identity) content =
      (.error error, tree)) ∨
    ∃ place written, cache.Writable identity tree place ∧
      written = tree.insert (temporarySlot identity place) (.file content) ∧
      ((tree.entry? (recordSlot identity place) = some .directory ∧
        tree.replaceFile (cache.temporaryPath identity) (cache.recordPath identity) content =
          (.error .isDirectory, written)) ∨
      (tree.entry? (recordSlot identity place) ≠ some .directory ∧
        tree.replaceFile (cache.temporaryPath identity) (cache.recordPath identity) content =
          (.ok (), written.moveEntries (temporarySlot identity place)
            (recordSlot identity place)))) := by
  unfold replaceFile
  cases hwrite : tree.write (cache.temporaryPath identity) content with
  | error error => exact .inl ⟨error, rfl⟩
  | ok written =>
    obtain ⟨husable, place, hplace, rfl⟩ := h.write hwrite
    refine .inr ⟨place, _, hplace, rfl, ?_⟩
    obtain ⟨hfile, hrecord⟩ := Writable.entry?_written content
    have hfolder := folder_of_keeps (hplace.keeps content) rfl hplace.folder
    rcases rename_temporary husable hfolder hfile with ⟨hdir, hrename⟩ | ⟨hdir, hrename⟩
    · exact .inl ⟨hrecord ▸ hdir, by simp only [hrename]⟩
    · exact .inr ⟨hrecord ▸ hdir, by simp only [hrename]⟩

/-- A tree with the temporary file written, and a directory in the place of the record, has no
record. -/
theorem Reflects.written (h : cache.Reflects identity known tree)
    (hplace : cache.Writable identity tree place)
    (hrecord : tree.entry? (recordSlot identity place) = some .directory) (content : ByteArray) :
    cache.Reflects identity known
      (tree.insert (temporarySlot identity place) (.file content)) := by
  obtain ⟨hfile, hsame⟩ := Writable.entry?_written content
  have hfolder : ∀ grown, (tree.insert (temporarySlot identity place) (.file content)).Grows grown →
      ∀ place', cache.folder identity grown = .ok place' → place' = place := by
    intro grown hgrown place' hplace'
    have hkept := folder_of_keeps (hplace.keeps content) rfl hplace.folder
    rw [folder_of_keeps hgrown.keeps hgrown.here hkept] at hplace'
    exact (Except.ok.inj hplace').symm
  refine ⟨hplace.sound h.sound content, fun grown hgrown record hsome => ?_,
    fun grown hgrown location target hlookup => ?_⟩
  · have hentry := hgrown.entry?_eq (hsame.trans hrecord)
    obtain ⟨content, hcontent, -⟩ := content_of_record?_of_folder hsome (hfolder grown hgrown)
      (by simp [hentry])
    rw [hentry] at hcontent
    cases hcontent
  · have hentry := entry?_of_lookup_temporary hlookup (hfolder grown hgrown)
    rw [hgrown.entry?_eq hfile] at hentry
    cases hentry

/-- What is found on the way to the cache is not contradicted when the temporary file got the name
of the record: in its place there may have been a link. -/
theorem Writable.agree (hplace : cache.Writable identity tree place)
    (hentry : ∀ location, other.entry? location =
      if location = recordSlot identity place then some (.file content)
      else if location = temporarySlot identity place then none
      else entry? (tree.insert (temporarySlot identity place) (.file content)) location)
    (hgrows : other.Grows grown) : tree.Agree grown := by
  intro location entry entry' htree hfile hgrown hfile'
  have hmoved := hentry location
  split at hmoved
  · rw [hgrows.entry?_eq hmoved] at hgrown
    exact absurd (Option.some.inj hgrown).symm (hfile' content)
  split at hmoved
  · next hslot =>
      subst hslot
      cases entry with
      | file old => exact absurd rfl (hfile old)
      | directory => exact absurd htree hplace.no_directory
      | link target => exact absurd htree (hplace.no_link target)
  · rw [hplace.keeps content _ _ htree hfile] at hmoved
    rw [hgrows.entry?_eq hmoved] at hgrown
    exact Option.some.inj hgrown

theorem eq_of_parse?_text {found : WorkRecord}
    (h : (Text.decode? record.text.toUTF8).bind WorkRecord.parse? = some found) :
    found.fingerprint = record.fingerprint ∧ found.outputs = record.outputs := by
  rw [Text.decode?_toUTF8, Option.bind_some, WorkRecord.parse?_text] at h
  obtain ⟨createdAt, -, rfl⟩ := Option.map_eq_some_iff.1 h
  exact ⟨rfl, rfl⟩

/-- A tree in which the temporary file got the name of the record **reflects the new record**. -/
theorem Reflects.moved (h : cache.Reflects identity known tree)
    (hplace : cache.Writable identity tree place)
    (hrecord : tree.entry? (recordSlot identity place) ≠ some .directory) (record : WorkRecord) :
    cache.Reflects identity (some (record.fingerprint, record.outputs))
      ((tree.insert (temporarySlot identity place) (.file record.text.toUTF8)).moveEntries
        (temporarySlot identity place) (recordSlot identity place)) := by
  obtain ⟨hfile, hsame⟩ := Writable.entry?_written record.text.toUTF8
  have hsound := hplace.sound h.sound record.text.toUTF8
  have hnames : recordName identity ++ ".tmp" ≠ recordName identity := by simp
  have hentry := hsound.entry?_moveEntries hnames hfile (hsame ▸ hrecord)
  have hfolder : ∀ grown, Grows _ grown → ∀ place', cache.folder identity grown = .ok place' →
      place' = place := fun grown hgrown place' hplace' =>
    folder_unique (hplace.agree hentry hgrown) hgrown.here hplace.folder hplace'
  refine ⟨hsound.moveEntries hnames hfile (hsame ▸ hrecord), fun grown hgrown found hfound => ?_,
    fun grown hgrown location target hlookup => ?_⟩
  · have hnew := hgrown.entry?_eq ((hentry (recordSlot identity place)).trans (if_pos rfl))
    obtain ⟨content, hcontent, hparse⟩ := content_of_record?_of_folder hfound
      (hfolder grown hgrown) (by simp [hnew])
    rw [hnew] at hcontent
    cases hcontent
    obtain ⟨hfingerprint, houtputs⟩ := eq_of_parse?_text hparse
    rw [hfingerprint, houtputs]
  · have hold := (hentry (temporarySlot identity place)).trans
      ((if_neg (temporarySlot_ne_recordSlot place)).trans (if_pos rfl))
    have hfound := entry?_of_lookup_temporary hlookup (hfolder grown hgrown)
    rcases hgrown.entry (temporarySlot identity place) with heq | ⟨-, hmade⟩
    · rw [heq, hold] at hfound
      cases hfound
    · rw [hmade] at hfound
      cases hfound

/-- **Keeping a record**: the tree reflects it if it could be kept, and what was known before if it
could not. -/
theorem Reflects.store {record : WorkRecord} (h : cache.Reflects record.identity known tree) :
    cache.Reflects record.identity
      (match (cache.store tree record).1 with
      | .ok () => some (record.fingerprint, record.outputs)
      | .error _ => known) (cache.store tree record).2 := by
  obtain ⟨hgrows, hsound⟩ := h.sound.createAll cache.dir
  have hmade := h.grow hgrows hsound
  unfold Cache.store
  rcases hcreate : tree.createAll cache.dir with ⟨error | ⟨⟩, made⟩
  · rw [hcreate] at hmade
    exact hmade
  · rw [hcreate] at hmade
    simp only
    rcases hmade.replaceFile_cases record.text.toUTF8 with
      ⟨error, heq⟩ | ⟨place, written, hplace, rfl, ⟨hdir, heq⟩ | ⟨hdir, heq⟩⟩
    · rw [heq]
      exact hmade
    · rw [heq]
      exact hmade.written hplace hdir _
    · rw [heq]
      exact hmade.moved hplace hdir record

/-! ### Other files -/

/-- A file that is **no record** changes nothing about what is known, wherever it is written. -/
theorem Reflects.insert (h : cache.Reflects identity known tree) (hne : location ≠ [])
    (hparent : tree.entry? location.dropLast = some .directory)
    (hdirectory : tree.entry? location ≠ some .directory)
    (hlink : ∀ target, tree.entry? location ≠ some (.link target))
    (hcontent : (Text.decode? content).bind WorkRecord.parse? = none) :
    cache.Reflects identity known (tree.insert location (.file content)) := by
  have hfile : ∀ grown, (tree.insert location (.file content)).Grows grown →
      grown.entry? location = some (.file content) := fun grown hgrown =>
    hgrown.entry?_eq (by rw [entry?_insert tree hne, if_pos rfl])
  have hways : ∀ grown, (tree.insert location (.file content)).Grows grown →
      grown.SameWays (grown.withEntryOf tree location) := by
    intro grown hgrown found entry hentry
    rw [entry?_withEntryOf grown tree hne]
    split
    · next heq =>
        subst heq
        rw [hfile grown hgrown]
        cases entry with
        | file content => exact absurd rfl (hentry content)
        | directory => simp [hdirectory]
        | link target => simp [hlink target]
    · rfl
  refine ⟨h.sound.insert hne hparent hdirectory, fun grown hgrown record hrecord => ?_,
    fun grown hgrown found target hlookup => ?_⟩
  · obtain ⟨⟨found, content', hlocate, hentry, hparse⟩, hidentity⟩ :=
      record?_eq_some_iff.1 hrecord
    by_cases hfound : found = location
    · rw [hfound, hfile grown hgrown] at hentry
      cases hentry
      rw [hcontent] at hparse
      cases hparse
    · have hlocate' := (hways grown hgrown).locate (by simp) hlocate
      have hentry' := entry?_withEntryOf grown tree hne found
      rw [if_neg hfound, hentry] at hentry'
      exact h.record_eq _ (hgrown.withEntryOf hne) record
        (record?_eq_some_iff.2 ⟨⟨found, content', hlocate', hentry', hparse⟩, hidentity⟩)
  · obtain ⟨hlocate, hentry⟩ := lookup_eq_ok_iff.1 hlookup
    refine h.no_link _ (hgrown.withEntryOf hne) found target (lookup_eq_ok_iff.2 ⟨?_, ?_⟩)
    · exact (hways grown hgrown).locate (by simp) hlocate
    · rw [entry?_withEntryOf grown tree hne, if_neg, hentry]
      rintro rfl
      rw [hfile grown hgrown] at hentry
      cases hentry

end BuildMatrix.Cache
