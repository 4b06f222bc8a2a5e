import BuildMatrix.Proofs.Lookups
import BuildMatrix.Proofs.RecordReading

/-!
# Watching a record

The directory of the cache is *housed* in a place if the path of the cache leads there and no link
stands in it. Then every record that can be read stands in that place, as a file, and keeping a
record changes two files there and nothing else. So the record of a piece of work stays what it is
while records of other work are kept. And it can be said of one piece of work and one fingerprint
that no record with this fingerprint stands in its place, which stays so until one is kept. What is
on record, and what is not, depends on the file in the place of the record alone.
-/

namespace BuildMatrix

open FileTree

/-! ### Files in their places -/

/-- **The same file** stands in a place of two trees, or none in either. -/
def FileTree.SameFile (tree other : FileTree) (location : Location) : Prop :=
  ∀ content, other.entry? location = some (.file content) ↔
    tree.entry? location = some (.file content)

namespace FileTree.SameFile

variable {tree other last : FileTree} {location : Location}

theorem of_eq (h : other.entry? location = tree.entry? location) : tree.SameFile other location :=
  fun content => by rw [h]

/-- Making directories changes no file. -/
theorem of_grows (h : tree.Grows other) (location : Location) : tree.SameFile other location := by
  intro content
  refine ⟨h.entry?_of_file, fun hfile => ?_⟩
  rcases h.entry location with hsame | ⟨hnone, -⟩
  · exact hsame.trans hfile
  · rw [hnone] at hfile
    cases hfile

theorem trans (h : tree.SameFile other location) (hlast : other.SameFile last location) :
    tree.SameFile last location :=
  fun content => (hlast content).trans (h content)

end FileTree.SameFile

namespace Cache

variable {cache : Cache} {identity : String} {fingerprint : Fingerprint} {folder : Location}
  {tree other : FileTree} {record : WorkRecord}

/-! ### The directory of the cache -/

/-- The directory of the cache is **in a place**, and no link stands in it. -/
structure Housed (cache : Cache) (folder : Location) (tree : FileTree) : Prop where
  tidy : tree.Tidy
  enters : tree.Enters cache.dir folder
  no_link : ∀ name target, tree.entry? (folder ++ [name]) ≠ some (.link target)

namespace Housed

theorem directory (h : cache.Housed folder tree) : tree.entry? folder = some .directory :=
  h.tidy.sound.entry?_of_enters h.enters

theorem of_keeps (h : cache.Housed folder tree) (htidy : other.Tidy) (hkeeps : tree.Keeps other)
    (hhere : other.here = tree.here)
    (hlink : ∀ name target, other.entry? (folder ++ [name]) = some (.link target) →
      tree.entry? (folder ++ [name]) = some (.link target)) : cache.Housed folder other where
  tidy := htidy
  enters := h.tidy.sound.enters_of_keeps htidy.sound hkeeps hhere h.enters
  no_link name target hentry := h.no_link name target (hlink name target hentry)

theorem grow (h : cache.Housed folder tree) (hgrows : tree.Grows other) (htidy : other.Tidy) :
    cache.Housed folder other := by
  refine h.of_keeps htidy hgrows.keeps hgrows.here fun name target hentry => ?_
  rcases hgrows.entry (folder ++ [name]) with heq | ⟨-, hmade⟩
  · exact heq.symm.trans hentry
  · rw [hmade] at hentry
    cases hentry

theorem exists_slot (h : cache.Housed folder tree)
    (hrecord : cache.record? tree identity = some record) :
    ∃ content, tree.entry? (folder ++ [recordName identity]) = some (.file content) ∧
      (Text.decode? content).bind WorkRecord.parse? = some record := by
  obtain ⟨left, hfolder⟩ := @exists_folder_of_enters _ identity _ _ h.tidy.sound h.enters
  exact @content_of_record?_of_folder _ _ _ (left, folder) _ hrecord
    (fun place hplace => Except.ok.inj (hplace.symm.trans hfolder)) (h.no_link _)

/-- There are no links in the places of the files of a piece of work. -/
theorem unlinked (h : cache.Housed folder tree) (identity : String) :
    cache.Unlinked identity tree := by
  obtain ⟨left, hfolder⟩ := @exists_folder_of_enters _ identity _ _ h.tidy.sound h.enters
  intro grown hgrown path hpath location target hlookup
  have hplace := folder_of_keeps hgrown.keeps hgrown.here hfolder
  have hunique : ∀ place, cache.folder identity grown = .ok place → place = (left, folder) :=
    fun place hplace' => Except.ok.inj (hplace'.symm.trans hplace)
  have hslot : ∃ name, grown.entry? (folder ++ [name]) = some (.link target) := by
    simp only [List.mem_cons, List.not_mem_nil, or_false] at hpath
    rcases hpath with rfl | rfl
    · obtain ⟨hlocate, hentry⟩ := lookup_eq_ok_iff.1 hlookup
      obtain ⟨-, place, happroach, rfl⟩ := (locate_child_iff (cache.parts_recordPath identity)
        (isName_recordName identity)).1 hlocate
      rw [hunique place happroach] at hentry
      exact ⟨_, hentry⟩
    · exact ⟨_, entry?_of_lookup_temporary hlookup hunique⟩
  obtain ⟨name, hlink⟩ := hslot
  rcases hgrown.entry (folder ++ [name]) with heq | ⟨-, hmade⟩
  · exact h.no_link name target (heq.symm.trans hlink)
  · rw [hmade] at hlink
    cases hlink

/-- **What keeping a record comes to**: it fails before or after the temporary file is written, or
the record is kept. -/
theorem store_cases (h : cache.Housed folder tree) {kept : Except CacheError Unit}
    {stored : FileTree} (hstore : cache.store tree record = (kept, stored)) :
    (kept ≠ .ok () ∧ (stored = tree ∨
        tree.Clear (folder ++ [recordName record.identity ++ ".tmp"]) ∧
          stored = tree.insert (folder ++ [recordName record.identity ++ ".tmp"])
            (.file record.text.toUTF8))) ∨
      tree.Clear (folder ++ [recordName record.identity ++ ".tmp"]) ∧
        tree.Clear (folder ++ [recordName record.identity]) ∧
        stored = Cache.kept tree folder record := by
  obtain ⟨left, hfolder⟩ := @exists_folder_of_enters _ record.identity _ _ h.tidy.sound h.enters
  obtain ⟨known, hreflects⟩ := (h.unlinked record.identity).exists_reflects h.tidy.sound
  rw [Cache.store, h.tidy.sound.createAll_of_enters h.enters] at hstore
  simp only at hstore
  rcases hreflects.replaceFile_cases record.text.toUTF8 with
    ⟨error, heq⟩ | ⟨place, written, hplace, rfl, ⟨-, heq⟩ | ⟨hdirectory, heq⟩⟩
  · rw [heq] at hstore
    obtain ⟨rfl, rfl⟩ := Prod.mk.inj hstore
    exact .inl ⟨by simp [Except.mapError], .inl rfl⟩
  all_goals
    obtain rfl : place = (left, folder) := Except.ok.inj (hplace.folder.symm.trans hfolder)
    rw [heq] at hstore
    obtain ⟨rfl, rfl⟩ := Prod.mk.inj hstore
  · exact .inl ⟨by simp [Except.mapError], .inr ⟨⟨hplace.no_directory, hplace.no_link⟩, rfl⟩⟩
  · exact .inr ⟨⟨hplace.no_directory, hplace.no_link⟩, ⟨hdirectory, h.no_link _⟩, rfl⟩

/-- **What keeping a record does**: nothing, or it changes the two files of its work, and if the
record could be kept it stands in its place. -/
theorem store (h : cache.Housed folder tree) {record : WorkRecord} {kept : Except CacheError Unit}
    {stored : FileTree} (hstore : cache.store tree record = (kept, stored)) :
    cache.Housed folder stored ∧
      (∀ location, location ≠ folder ++ [recordName record.identity ++ ".tmp"] →
        stored.entry? location = tree.entry? location ∨
          location = folder ++ [recordName record.identity] ∧
            stored.entry? location = some (.file record.text.toUTF8)) ∧
      (kept = .ok () → stored.entry? (folder ++ [recordName record.identity]) =
        some (.file record.text.toUTF8)) := by
  have hroot : folder ++ [recordName record.identity ++ ".tmp"] ≠ [] := by simp
  rcases h.store_cases hstore with ⟨hkept, rfl | ⟨hclear, rfl⟩⟩ | ⟨htemporary, hclear, rfl⟩
  · exact ⟨h, fun location _ => .inl rfl, fun hok => absurd hok hkept⟩
  · -- only the temporary file was written
    refine ⟨h.of_keeps ?_ (Keeps.insert hroot hclear.1 hclear.2 _) rfl fun name target hentry => ?_,
      fun location hne => .inl ?_, fun hok => absurd hok hkept⟩
    · exact h.tidy.insert hroot (by simpa using h.directory) hclear.1
    · rw [entry?_insert tree hroot] at hentry
      split at hentry
      · cases hentry
      · exact hentry
    · rw [entry?_insert tree hroot, if_neg hne]
  · -- and moved to the place of the record
    have hentry := entry?_kept h.tidy h.directory htemporary hclear
    refine ⟨h.of_keeps (tidy_kept h.tidy h.directory htemporary hclear)
      (keeps_kept h.tidy h.directory htemporary hclear) rfl fun name target hlink => ?_,
      fun location hne => ?_, fun _ => ?_⟩
    · rw [hentry] at hlink
      split at hlink
      · cases hlink
      split at hlink
      · cases hlink
      · exact hlink
    · by_cases hslot : location = folder ++ [recordName record.identity]
      · exact .inr ⟨hslot, (hentry location).trans (if_pos hslot)⟩
      · exact .inl ((hentry location).trans ((if_neg hslot).trans (if_neg hne)))
    · exact (hentry _).trans (if_pos rfl)

end Housed

/-! ### What is not on record -/

/-- **No record** of a piece of work with a fingerprint stands in its place. -/
def Lacks (folder : Location) (identity : String) (fingerprint : Fingerprint) (tree : FileTree) :
    Prop :=
  ∀ content record, tree.entry? (folder ++ [recordName identity]) = some (.file content) →
    (Text.decode? content).bind WorkRecord.parse? = some record → record.identity = identity →
    record.fingerprint ≠ fingerprint

theorem lacks_of_slot
    (hentry : tree.entry? (folder ++ [recordName identity]) = some (.file record.text.toUTF8))
    (hother : record.identity = identity → record.fingerprint ≠ fingerprint) :
    Lacks folder identity fingerprint tree := by
  intro content found hentry' hparse hidentity
  obtain rfl : record.text.toUTF8 = content :=
    Entry.file.inj (Option.some.inj (hentry.symm.trans hentry'))
  rw [Text.decode?_toUTF8, Option.bind_some, WorkRecord.parse?_text] at hparse
  obtain ⟨createdAt, -, rfl⟩ := Option.map_eq_some_iff.1 hparse
  exact hother hidentity

namespace Lacks

theorem same (h : Lacks folder identity fingerprint tree)
    (hsame : tree.SameFile other (folder ++ [recordName identity])) :
    Lacks folder identity fingerprint other :=
  fun content record hentry => h content record ((hsame content).1 hentry)

/-- What is lacking stays so **when a record is kept** of other work, or with another
fingerprint. -/
theorem store (h : Lacks folder identity fingerprint tree) (hhoused : cache.Housed folder tree)
    {record : WorkRecord} {kept : Except CacheError Unit} {stored : FileTree}
    (hstore : cache.store tree record = (kept, stored))
    (hother : record.identity = identity → record.fingerprint ≠ fingerprint) :
    Lacks folder identity fingerprint stored := by
  have hne : folder ++ [recordName identity] ≠
      folder ++ [recordName record.identity ++ ".tmp"] := by
    simpa using recordName_ne_temporary identity record.identity
  rcases (hhoused.store hstore).2.1 _ hne with hsame | ⟨hslot, hentry⟩
  · exact h.same (.of_eq hsame)
  · exact lacks_of_slot hentry hother

theorem hit?_eq_none (h : Lacks folder identity fingerprint tree)
    (hhoused : cache.Housed folder tree) : cache.hit? tree identity fingerprint = none := by
  cases hhit : cache.hit? tree identity fingerprint with
  | none => rfl
  | some outputs =>
    obtain ⟨record, hrecord, hfingerprint, -⟩ := record?_of_hit? hhit
    obtain ⟨content, hentry, hparse⟩ := hhoused.exists_slot hrecord
    exact absurd hfingerprint
      (h content record hentry hparse (record?_eq_some_iff.1 hrecord).2)

end Lacks

end Cache

end BuildMatrix
