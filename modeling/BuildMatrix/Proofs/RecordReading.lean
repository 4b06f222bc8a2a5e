import BuildMatrix.Proofs.RecordSlots

/-!
# Records that were kept can be read

A record that could be kept is found by whoever looks for it next. The one thing that could come in
between is a link in the place of the record or of its temporary file: writing goes through a link,
and moving replaces one that the way to the cache may pass. Where there is none, a tree reflects one
state of the record, whatever it is, and keeping a record makes it readable.
-/

namespace BuildMatrix

open FileTree

variable {tree grown : FileTree}

/-- Two trees that grew out of one **agree** on directories and links. -/
theorem FileTree.Grows.agree {other : FileTree} (h : tree.Grows grown) (hother : tree.Grows other) :
    grown.Agree other := by
  intro location entry entry' hentry _ hentry' _
  rcases h.entry location with heq | ⟨hnone, hmade⟩
  · have hkept := hother.entry?_eq (heq.symm.trans hentry)
    exact Option.some.inj (hkept.symm.trans hentry')
  · rcases hother.entry location with heq' | ⟨-, hmade'⟩
    · rw [heq', hnone] at hentry'
      cases hentry'
    · rw [hmade] at hentry
      rw [hmade'] at hentry'
      exact (Option.some.inj hentry).symm.trans (Option.some.inj hentry')

theorem FileTree.Grows.entry?_of_file (h : tree.Grows grown) {location : Location}
    {content : ByteArray} (hfile : grown.entry? location = some (.file content)) :
    tree.entry? location = some (.file content) := by
  rcases h.entry location with heq | ⟨-, hmade⟩
  · exact heq.symm.trans hfile
  · rw [hmade] at hfile
    cases hfile

namespace Cache

variable {cache : Cache} {identity : String} {tree grown stored : FileTree} {record : WorkRecord}

/-- **No link** stands in the place of the record of a piece of work, nor in that of its temporary
file, also once missing directories are made. -/
def Unlinked (cache : Cache) (identity : String) (tree : FileTree) : Prop :=
  ∀ grown, tree.Grows grown → ∀ path ∈ [cache.recordPath identity, cache.temporaryPath identity],
    ∀ location target, grown.lookup false path ≠ .ok (location, .link target)

theorem unlinked_of_no_link (h : ∀ location target, tree.entry? location ≠ some (.link target)) :
    cache.Unlinked identity tree := by
  intro grown hgrown path _ location target hlookup
  have hentry := (lookup_eq_ok_iff.1 hlookup).2
  rcases hgrown.entry location with heq | ⟨-, hmade⟩
  · exact h location target (heq.symm.trans hentry)
  · rw [hmade] at hentry
    cases hentry

namespace Unlinked

theorem grow (h : cache.Unlinked identity tree) (hgrows : tree.Grows grown) :
    cache.Unlinked identity grown :=
  fun later hlater => h later (hgrows.trans hlater)

theorem no_link (h : cache.Unlinked identity tree) (husable : IsUsable (cache.recordPath identity))
    {place : Nat × Location} (hplace : cache.folder identity tree = .ok place) (target : String) :
    tree.entry? (recordSlot identity place) ≠ some (.link target) := by
  intro hentry
  refine h tree (.refl tree) _ List.mem_cons_self (recordSlot identity place) target ?_
  exact lookup_eq_ok_iff.2 ⟨(locate_child_iff (cache.parts_recordPath identity)
    (isName_recordName identity)).2 ⟨husable, place, hplace, rfl⟩, hentry⟩

theorem exists_slot (h : cache.Unlinked identity tree)
    (hrecord : cache.record? tree identity = some record) :
    ∃ place content, cache.folder identity tree = .ok place ∧
      tree.entry? (recordSlot identity place) = some (.file content) ∧
      (Text.decode? content).bind WorkRecord.parse? = some record := by
  obtain ⟨⟨location, content, hlocate, hentry, hparse⟩, -⟩ := record?_eq_some_iff.1 hrecord
  have husable := (locate_eq_ok_iff.1 hlocate).1
  obtain ⟨place, hplace, hlocation⟩ := locate_child_of_no_link (cache.parts_recordPath identity)
    (isName_recordName identity) hlocate
  rw [hlocation (h.no_link husable hplace)] at hentry
  exact ⟨place, content, hplace, hentry, hparse⟩

/-- A sound tree without links in the places of the two files **reflects** some state of the record:
however it grows, there is one record at most that can be read. -/
theorem exists_reflects (h : cache.Unlinked identity tree) (hsound : tree.Sound) :
    ∃ known, cache.Reflects identity known tree := by
  have hno_link : ∀ grown, tree.Grows grown → ∀ location target,
      grown.lookup false (cache.temporaryPath identity) ≠ .ok (location, .link target) :=
    fun grown hgrown => h grown hgrown _ (List.mem_cons_of_mem _ List.mem_cons_self)
  by_cases hsome : ∃ grown record, tree.Grows grown ∧ cache.record? grown identity = some record
  · obtain ⟨grown, record, hgrown, hrecord⟩ := hsome
    refine ⟨some (record.fingerprint, record.outputs), hsound, ?_, hno_link⟩
    intro other hother found hfound
    obtain ⟨place, content, hplace, hfile, hparse⟩ := (h.grow hgrown).exists_slot hrecord
    obtain ⟨place', content', hplace', hfile', hparse'⟩ := (h.grow hother).exists_slot hfound
    obtain rfl : place' = place :=
      folder_unique (hgrown.agree hother) (hother.here.trans hgrown.here.symm) hplace hplace'
    -- both read the file that stood there before anything grew
    have hsame := (hgrown.entry?_of_file hfile).symm.trans (hother.entry?_of_file hfile')
    obtain rfl : content = content' := by simpa using hsame
    rw [Option.some.inj (hparse.symm.trans hparse')]
  · refine ⟨none, hsound, fun grown hgrown record hrecord => ?_, hno_link⟩
    exact absurd ⟨grown, record, hgrown, hrecord⟩ hsome

end Unlinked

/-- **The places of the two files** when a record could be kept, once the directory is there: the
record went to a place that was neither a directory nor a link, past a temporary file that was
neither. -/
theorem clear_of_store (htidy : tree.Tidy) (hunlinked : cache.Unlinked identity tree)
    (hidentity : record.identity = identity) {folder : Location}
    (henters : tree.Enters cache.dir folder) (husable : IsUsable (cache.temporaryPath identity))
    (hstore : cache.store tree record = (.ok (), stored)) :
    tree.Clear (folder ++ [recordName identity ++ ".tmp"]) ∧
      tree.Clear (folder ++ [recordName identity]) := by
  subst hidentity
  obtain ⟨known, hreflects⟩ := hunlinked.exists_reflects htidy.sound
  obtain ⟨left, hfolder⟩ := @exists_folder_of_enters _ record.identity _ _ htidy.sound henters
  rw [Cache.store, htidy.sound.createAll_of_enters henters] at hstore
  simp only at hstore
  rcases hreflects.replaceFile_cases record.text.toUTF8 with
    ⟨error, heq⟩ | ⟨place, written, hplace, -, ⟨-, heq⟩ | ⟨hdirectory, -⟩⟩
  · rw [heq] at hstore
    cases hstore
  · rw [heq] at hstore
    cases hstore
  · obtain rfl : place = (left, folder) := Except.ok.inj (hplace.folder.symm.trans hfolder)
    exact ⟨⟨hplace.no_directory, hplace.no_link⟩,
      ⟨hdirectory, hunlinked.no_link (isUsable_recordPath husable) hfolder⟩⟩

/-- **A record that was kept can be read**, if its time can, and the tree stays tidy. -/
theorem record?_of_store (htidy : tree.Tidy) {record : WorkRecord}
    (hunlinked : cache.Unlinked record.identity tree)
    (htime : (Timestamp.parse? record.createdAt.text).isSome)
    (hstore : cache.store tree record = (.ok (), stored)) :
    stored.Tidy ∧ ∃ found, cache.record? stored record.identity = some found ∧
      found.fingerprint = record.fingerprint ∧ found.outputs = record.outputs := by
  obtain ⟨husable, made, folder, hcreate, henters, hmade⟩ := exists_of_store_eq_ok htidy hstore
  have htidy' := htidy.createAll cache.dir
  have hgrows := (htidy.sound.createAll cache.dir).1
  rw [hcreate] at htidy' hgrows
  obtain ⟨htemporary, hrecord⟩ :=
    clear_of_store htidy' (hunlinked.grow hgrows) rfl henters husable hmade
  obtain rfl : stored = kept made folder record :=
    (Prod.mk.inj (hmade.symm.trans (store_eq htidy' henters husable htemporary hrecord))).2
  have hdirectory := htidy'.sound.entry?_of_enters henters
  have hentry := entry?_kept htidy' hdirectory htemporary hrecord
  have hkept := tidy_kept htidy' hdirectory htemporary hrecord
  -- the way to the cache stays, since neither place was on it
  have hkeeps := keeps_kept htidy' hdirectory htemporary hrecord
  have hslot : entry? (kept made folder record) (folder ++ [recordName record.identity]) =
      some (.file record.text.toUTF8) := by rw [hentry, if_pos rfl]
  have henters' := htidy'.sound.enters_of_keeps hkept.sound hkeeps rfl henters
  exact ⟨hkept, record?_of_slot hkept.sound henters' husable hslot htime⟩

theorem hit?_of_record? (h : cache.record? tree identity = some record)
    (houtputs : ∀ path ∈ record.outputs, tree.pathExists path = true) :
    cache.hit? tree identity record.fingerprint = some record.outputs := by
  have hexist : record.outputsExist tree = true := by
    rw [WorkRecord.outputsExist, List.all_eq_true]
    exact houtputs
  unfold hit?
  generalize cache.record? tree identity = known at h ⊢
  subst h
  simp only [hexist, decide_true, Bool.and_self, if_true]

end Cache

end BuildMatrix
