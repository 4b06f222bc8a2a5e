import BuildMatrix.Proofs.Contents
import BuildMatrix.Proofs.RecordStore

/-!
# Where records stand

A record that was kept stands in the directory of the cache, under the name of its work, and the
temporary file is gone; everything else is as it was. Whoever finds the file there and can read its
time has the record.
-/

namespace BuildMatrix

namespace FileTree

variable {tree : FileTree} {location : Location}

theorem isUsable_of_child {base : Path} {name : String} (hname : '/' ∉ name.toList)
    (h : IsUsable (base.child name)) : base.text = "" ∨ IsUsable base := by
  by_cases hempty : base.text = ""
  · exact .inl hempty
  have htext : ∃ rest, (base.child name).text = base.text ++ rest := by
    rw [Path.text_child base hname, Path.stem, if_neg hempty]
    split
    · exact ⟨name, rfl⟩
    · exact ⟨"/" ++ name, String.append_assoc⟩
  obtain ⟨rest, hrest⟩ := htext
  refine .inr ⟨hempty, fun hzero => h.no_zero ?_, ?_⟩
  · rw [hrest, String.toList_append]
    exact List.mem_append_left _ hzero
  · have := h.size_le
    rw [hrest, String.utf8ByteSize_append] at this
    omega

/-- Neither a directory nor a link stands at a location. -/
def Clear (tree : FileTree) (location : Location) : Prop :=
  tree.entry? location ≠ some .directory ∧ ∀ target, tree.entry? location ≠ some (.link target)

theorem Clear.cases (h : tree.Clear location) :
    tree.entry? location = none ∨ ∃ content, tree.entry? location = some (.file content) := by
  cases hentry : tree.entry? location with
  | none => exact .inl rfl
  | some entry =>
    cases entry with
    | file content => exact .inr ⟨content, rfl⟩
    | directory => exact absurd hentry h.1
    | link target => exact absurd hentry (h.2 target)

theorem Clear.congr {other : FileTree} (h : tree.Clear location)
    (hsame : other.entry? location = tree.entry? location) : other.Clear location := by
  rwa [Clear, hsame]

end FileTree

namespace Cache

open FileTree

variable {cache : Cache} {identity : String} {tree stored : FileTree} {folder : Location}
  {record : WorkRecord}

/-! ### Keeping a record -/

theorem isUsable_temporaryPath (identity : String) (hzero : '\x00' ∉ cache.dir.stem.toList)
    (hsize : cache.dir.stem.utf8ByteSize + maxName ≤ maxPath) :
    IsUsable (cache.temporaryPath identity) where
  ne_empty := by
    rw [text_temporaryPath]
    simp
  no_zero := by
    rw [text_temporaryPath, String.toList_append, List.mem_append]
    rintro (hstem | hname)
    · exact hzero hstem
    · exact (mem_temporaryName hname).2.2 rfl
  size_le := by
    have := (isName_temporaryName identity).size_le
    rw [text_temporaryPath, String.utf8ByteSize_append]
    omega

theorem startOf_recordPath (tree : FileTree) (cache : Cache) (identity : String) :
    tree.startOf (cache.recordPath identity) = tree.startOf cache.dir := by
  have habsolute : (cache.recordPath identity).isAbsolute = cache.dir.isAbsolute :=
    cache.dir.isAbsolute_child (separator_notMem_recordName identity)
  rw [startOf, startOf, habsolute]

theorem exists_folder_of_enters (hsound : tree.Sound) (henters : tree.Enters cache.dir folder) :
    ∃ left, cache.folder identity tree = .ok (left, folder) := by
  obtain ⟨-, left, happroach⟩ := hsound.enters_iff.1 henters
  refine ⟨left, ?_⟩
  rw [Cache.folder, startOf_recordPath]
  exact happroach

/-- The temporary file is written in the directory of the cache. -/
theorem write_temporary {place : Nat × Location} (hplace : cache.folder identity tree = .ok place)
    (husable : IsUsable (cache.temporaryPath identity))
    (hclear : tree.Clear (temporarySlot identity place)) (content : ByteArray) :
    tree.write (cache.temporaryPath identity) content =
      .ok (tree.insert (temporarySlot identity place) (.file content)) := by
  have hlocate : tree.locate true (withoutSlashes (cache.temporaryPath identity)) =
      .ok (temporarySlot identity place) := by
    rw [withoutSlashes_eq (getLast?_temporaryPath cache identity), locate_eq_ok_iff,
      parts_temporaryPath, startOf_temporaryPath, follow_append]
    rw [Cache.folder] at hplace
    rw [hplace]
    exact ⟨husable, follow_last (isName_temporaryName identity) place.1 place.2 fun _ => hclear.2⟩
  have hasks : asksDirectory (cache.temporaryPath identity) = false := by
    rw [asksDirectory, Path.chars_eq, decide_eq_false_iff_not]
    exact getLast?_temporaryPath cache identity
  rw [FileTree.write, fileSlot, hlocate]
  rcases hclear.cases with hnone | ⟨old, hfile⟩
  · simp only [hnone, hasks]
    rfl
  · simp only [hfile, hasks]
    rfl

/-- A tree in which a **record was kept**: it was written beside its place and moved there. -/
def kept (tree : FileTree) (folder : Location) (record : WorkRecord) : FileTree :=
  (tree.insert (folder ++ [recordName record.identity ++ ".tmp"])
    (.file record.text.toUTF8)).moveEntries (folder ++ [recordName record.identity ++ ".tmp"])
      (folder ++ [recordName record.identity])

theorem store_eq (htidy : tree.Tidy) (henters : tree.Enters cache.dir folder)
    (husable : IsUsable (cache.temporaryPath record.identity))
    (htemporary : tree.Clear (folder ++ [recordName record.identity ++ ".tmp"]))
    (hrecord : tree.Clear (folder ++ [recordName record.identity])) :
    cache.store tree record = (.ok (), kept tree folder record) := by
  obtain ⟨left, hfolder⟩ := exists_folder_of_enters htidy.sound henters
  have hwritable : cache.Writable record.identity tree (left, folder) :=
    ⟨hfolder, htidy.sound.entry?_of_enters henters, htemporary.1, htemporary.2⟩
  have hwrite := write_temporary hfolder husable htemporary record.text.toUTF8
  obtain ⟨hfile, hsame⟩ :=
    @Writable.entry?_written record.identity tree (left, folder) record.text.toUTF8
  have hrename := rename_temporary husable
    (folder_of_keeps (hwritable.keeps record.text.toUTF8) rfl hfolder) hfile
  rw [hsame] at hrename
  obtain ⟨-, hrename⟩ := hrename.resolve_left fun hdirectory => hrecord.1 hdirectory.1
  rw [Cache.store, htidy.sound.createAll_of_enters henters]
  simp only [replaceFile, hwrite, hrename]
  rfl

section Kept

variable (htidy : tree.Tidy) (hdirectory : tree.entry? folder = some .directory)
  (htemporary : tree.Clear (folder ++ [recordName record.identity ++ ".tmp"]))
  (hrecord : tree.Clear (folder ++ [recordName record.identity]))

include htidy hdirectory htemporary hrecord

theorem entry?_kept (location : Location) :
    entry? (kept tree folder record) location =
      if location = folder ++ [recordName record.identity] then some (.file record.text.toUTF8)
      else if location = folder ++ [recordName record.identity ++ ".tmp"] then none
      else tree.entry? location := by
  have hne : recordName record.identity ++ ".tmp" ≠ recordName record.identity := by simp
  have hroot : folder ++ [recordName record.identity ++ ".tmp"] ≠ [] := by simp
  have hsound : (tree.insert (folder ++ [recordName record.identity ++ ".tmp"])
      (.file record.text.toUTF8)).Sound :=
    htidy.sound.insert hroot (by rwa [List.dropLast_concat]) htemporary.1
  rw [kept, hsound.entry?_moveEntries hne]
  · split
    · rfl
    split
    · rfl
    · next htmp => rw [entry?_insert tree hroot, if_neg htmp]
  · rw [entry?_insert tree hroot, if_pos rfl]
  · rw [entry?_insert tree hroot, if_neg]
    · exact hrecord.1
    · simpa using hne.symm

theorem tidy_kept : (kept tree folder record).Tidy := by
  have hne : recordName record.identity ++ ".tmp" ≠ recordName record.identity := by simp
  have hroot : folder ++ [recordName record.identity ++ ".tmp"] ≠ [] := by simp
  refine (htidy.insert hroot (by rwa [List.dropLast_concat]) htemporary.1).moveEntries hne
    (by rw [entry?_insert tree hroot, if_pos rfl]) ?_
  rw [entry?_insert tree hroot, if_neg]
  · exact hrecord.1
  · simpa using hne.symm

theorem keeps_kept : tree.Keeps (kept tree folder record) := by
  intro location entry hentry hfile
  have hclear : ∀ slot, tree.Clear slot → location ≠ slot := by
    rintro slot hslot rfl
    cases entry with
    | file content => exact hfile content rfl
    | directory => exact hslot.1 hentry
    | link target => exact hslot.2 target hentry
  rw [entry?_kept htidy hdirectory htemporary hrecord, if_neg (hclear _ hrecord),
    if_neg (hclear _ htemporary), hentry]

end Kept

theorem store_of_createAll {made : FileTree} (hcreate : tree.createAll cache.dir = (.ok (), made))
    (hsound : made.Sound) (henters : made.Enters cache.dir folder) (record : WorkRecord) :
    cache.store tree record = cache.store made record := by
  rw [Cache.store, hcreate, Cache.store, hsound.createAll_of_enters henters]

/-- **What is known when a record could be kept**: the directory of the cache is there, and the
paths of its files are not too long. -/
theorem exists_of_store_eq_ok (htidy : tree.Tidy) (h : cache.store tree record = (.ok (), stored)) :
    IsUsable (cache.temporaryPath record.identity) ∧
      ∃ made location, tree.createAll cache.dir = (.ok (), made) ∧
        made.Enters cache.dir location ∧ cache.store made record = (.ok (), stored) := by
  rcases hcreate : tree.createAll cache.dir with ⟨error | ⟨⟩, made⟩
  · rw [Cache.store, hcreate] at h
    cases h
  have husable : IsUsable (cache.temporaryPath record.identity) := by
    rw [Cache.store, hcreate] at h
    simp only [ofOs, replaceFile] at h
    cases hwrite : made.write (cache.temporaryPath record.identity) record.text.toUTF8 with
    | error error =>
      rw [hwrite] at h
      cases h
    | ok written =>
      obtain ⟨location, hlocate, -⟩ := write_eq_ok hwrite
      rw [withoutSlashes_eq (getLast?_temporaryPath cache record.identity)] at hlocate
      exact (locate_eq_ok_iff.1 hlocate).1
  have hdir : cache.dir.text = "" ∨ IsUsable cache.dir :=
    isUsable_of_child (separator_notMem_recordName record.identity) (isUsable_recordPath husable)
  obtain ⟨location, henters⟩ := htidy.sound.enters_createAll hcreate fun _ => hdir
  refine ⟨husable, made, location, rfl, henters, ?_⟩
  have hmade : made.Sound := by
    have := (htidy.sound.createAll cache.dir).2
    rwa [hcreate] at this
  rwa [← store_of_createAll hcreate hmade henters]

/-! ### Finding a record -/

theorem exists_slot_of_record? (hsound : tree.Sound)
    (h : cache.record? tree identity = some record) :
    ∃ folder, tree.Enters cache.dir folder ∧
      tree.entry? (folder ++ [recordName identity]) ≠ none := by
  obtain ⟨⟨location, content, hlocate, hentry, -⟩, -⟩ := record?_eq_some_iff.1 h
  obtain ⟨husable, hfollow⟩ := locate_eq_ok_iff.1 hlocate
  have hseparator := separator_notMem_recordName identity
  rw [parts_recordPath, follow_append, startOf_recordPath] at hfollow
  split at hfollow
  · next left folder hfolder =>
      refine ⟨folder, hsound.enters_iff.2 ⟨isUsable_of_child hseparator husable, left, hfolder⟩, ?_⟩
      intro hnone
      have hlast := @follow_last tree true _ (isName_recordName identity) left folder
        fun _ => by simp [hnone]
      obtain rfl : folder ++ [recordName identity] = location :=
        Except.ok.inj (hlast.symm.trans hfollow)
      rw [hnone] at hentry
      cases hentry
  · cases hfollow

theorem hit?_eq_none (hsound : tree.Sound)
    (h : ∀ folder, tree.Enters cache.dir folder →
      tree.entry? (folder ++ [recordName identity]) = none) (fingerprint : Fingerprint) :
    cache.hit? tree identity fingerprint = none := by
  unfold hit?
  cases hrecord : cache.record? tree identity with
  | none => rfl
  | some record =>
    obtain ⟨folder, henters, hentry⟩ := exists_slot_of_record? hsound hrecord
    exact absurd (h folder henters) hentry

variable (hsound : tree.Sound) (henters : tree.Enters cache.dir folder)
  (husable : IsUsable (cache.temporaryPath record.identity))
  (hentry : tree.entry? (folder ++ [recordName record.identity]) =
    some (.file record.text.toUTF8)) (htime : (Timestamp.parse? record.createdAt.text).isSome)

include hsound henters husable hentry htime

theorem record?_of_slot :
    ∃ found, cache.record? tree record.identity = some found ∧
      found.fingerprint = record.fingerprint ∧ found.outputs = record.outputs := by
  obtain ⟨left, hfolder⟩ := @exists_folder_of_enters cache record.identity _ _ hsound henters
  obtain ⟨createdAt, hcreated⟩ := Option.isSome_iff_exists.1 htime
  have hlocate : tree.locate true (cache.recordPath record.identity) =
      .ok (folder ++ [recordName record.identity]) := by
    rw [Cache.folder] at hfolder
    rw [locate_eq_ok_iff, parts_recordPath, follow_append, hfolder]
    exact ⟨isUsable_recordPath husable,
      follow_last (isName_recordName record.identity) left folder (by simp [hentry])⟩
  have hparse : (Text.decode? record.text.toUTF8).bind WorkRecord.parse? =
      some { record with createdAt } := by
    rw [Text.decode?_toUTF8, Option.bind_some, WorkRecord.parse?_text, hcreated, Option.map_some]
  have hfound : cache.record? tree record.identity = some { record with createdAt } := by
    rw [record?_eq_some_iff]
    exact ⟨⟨_, _, hlocate, hentry, hparse⟩, rfl⟩
  exact ⟨_, hfound, rfl, rfl⟩

theorem hit?_of_slot (houtputs : ∀ path ∈ record.outputs, tree.pathExists path = true) :
    cache.hit? tree record.identity record.fingerprint = some record.outputs := by
  obtain ⟨found, hfound, hfingerprint, hsame⟩ :=
    record?_of_slot hsound henters husable hentry htime
  have hexist : found.outputsExist tree = true := by
    rw [WorkRecord.outputsExist, hsame, List.all_eq_true]
    exact houtputs
  unfold hit?
  generalize cache.record? tree record.identity = known at hfound ⊢
  subst hfound
  simp only [hfingerprint, hexist, hsame, decide_true, Bool.and_self, if_true]

end Cache

end BuildMatrix
