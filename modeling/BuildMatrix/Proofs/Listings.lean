import BuildMatrix.Proofs.Contents
import BuildMatrix.Proofs.InputStreams
import BuildMatrix.Proofs.Lookups
import Mathlib.Data.String.Basic

/-!
# Listings of directories

The bytes of a directory are put together of entries that are listed in no particular order. Each
entry is kept under a rendering of the names that lead to it, in which what is not UTF-8 is replaced
and a backslash becomes a slash. Of two entries that are rendered alike only the one listed last is
kept. So a file with a backslash in its name hides a file in a directory, or is hidden by it. Where
no file is rendered like another entry, and only there, the order of the entries does not matter and
no change of a file is missed.
-/

namespace BuildMatrix

theorem FileTree.exists_insertIn {location : Location} {old : Entry} :
    ∀ {entries : List (Location × Entry)}, find? location entries = some old →
      ∃ before after, entries = before ++ (location, old) :: after ∧
        ∀ entry, insertIn location entry entries = before ++ (location, entry) :: after
  | [], h => by cases h
  | (key, stored) :: rest, h => by
      rw [find?] at h
      split at h
      · next hkey =>
          obtain rfl := Option.some.inj h
          subst hkey
          exact ⟨[], rest, rfl, fun entry => by simp [insertIn]⟩
      · next hkey =>
          obtain ⟨before, after, hrest, hinsert⟩ := exists_insertIn h
          refine ⟨(key, stored) :: before, after, by rw [hrest, List.cons_append], fun entry => ?_⟩
          rw [insertIn, if_neg hkey, hinsert, List.cons_append]

namespace Fingerprint

/-- What lies below a directory, **as it is listed**: entries and the names that lead to them, which
may be any bytes. -/
abbrev Listing := List (List (List UInt8) × Entry)

variable {entries listing : Listing} {names : List (List UInt8)} {tree : FileTree}
  {location : Location} {name key : String}

/-! ### The bytes of a listing -/

/-- How names are **rendered**: as text, with a slash between them and for every backslash. -/
def rendered (names : List (List UInt8)) : String :=
  (Text.decodeLossy ⟨([47].intercalate names).toArray⟩).map fun c => if c = '\\' then '/' else c

/-- Keep an entry, in place of one that is rendered alike. -/
def keep (kept : List (String × ByteArray)) (e : List (List UInt8) × Entry) :
    List (String × ByteArray) :=
  insertNamed (rendered e.1) (entryMark e.2) kept

/-- The bytes of the entries that are kept. -/
def keptStream (kept : List (String × ByteArray)) : ByteArray :=
  kept.foldl (fun stream (name, mark) => stream ++ name.toUTF8 ++ mark) ByteArray.empty

/-- **The bytes of a listing.** -/
def listedStream (listing : Listing) : ByteArray := keptStream (listing.foldl keep [])

/-- The listing of a tree, the last entry first. -/
def listingOf (tree : FileTree) (location : Location) : Listing :=
  (tree.descendants location).reverse.map fun e => (e.1.map Text.bytes, e.2)

theorem bytes_intercalate : ∀ names : List String,
    Text.bytes ("/".intercalate names) = [47].intercalate (names.map Text.bytes)
  | [] => rfl
  | [name] => by simp [String.intercalate_singleton]
  | name :: next :: rest => by
      have hslash : ("/".toByteArray).data.toList = [47] := by decide
      have hrest := bytes_intercalate (next :: rest)
      simp only [Text.bytes, String.toUTF8_eq_toByteArray, List.map_cons] at hrest ⊢
      rw [String.intercalate_cons_cons, String.toByteArray_append, String.toByteArray_append,
        ByteArray.toList_data_append, ByteArray.toList_data_append, hrest, hslash,
        List.intercalate_cons_cons]

theorem rendered_bytes (names : Location) : rendered (names.map Text.bytes) = entryName names := by
  rw [rendered, ← bytes_intercalate, Text.bytes, Array.toArray_toList, Text.decodeLossy,
    Text.decode?_toUTF8]
  rfl

/-- **The bytes of a directory** are those of a listing. -/
theorem directoryStream_eq (tree : FileTree) (location : Location) :
    directoryStream tree location = listedStream (listingOf tree location) := by
  rw [listedStream, listingOf, List.foldl_map, List.foldl_reverse]
  simp only [keep, rendered_bytes]
  rfl

theorem exists_listingOf_insert {names : Location} {old : Entry} (hne : names ≠ [])
    (hold : tree.entry? (location ++ names) = some old) :
    ∃ rest, (listingOf tree location).Perm ((names.map Text.bytes, old) :: rest) ∧
      ∀ entry, (listingOf (tree.insert (location ++ names) entry) location).Perm
        ((names.map Text.bytes, entry) :: rest) := by
  have hlist : ∀ other : FileTree, (listingOf other location).Perm
      ((FileTree.Tidy.below other location).map fun e => (e.1.map Text.bytes, e.2)) := fun other =>
    ((List.reverse_perm _).trans (FileTree.Tidy.perm_descendants other location)).map _
  rw [FileTree.entry?_of_ne_nil _ (by simp [hne])] at hold
  obtain ⟨before, after, hentries, hinsert⟩ := FileTree.exists_insertIn hold
  have hpos : 0 < names.length := List.length_pos_iff.2 hne
  refine ⟨(FileTree.Tidy.below ⟨before ++ after, tree.here⟩ location).map fun e =>
    (e.1.map Text.bytes, e.2), (hlist _).trans ?_, fun entry => (hlist _).trans ?_⟩
  · rw [FileTree.Tidy.below, hentries]
    simp [FileTree.Tidy.below, hpos, List.perm_middle]
  · rw [FileTree.Tidy.below, FileTree.insert, hinsert]
    simp [FileTree.Tidy.below, hpos, List.perm_middle]

/-! ### Entries that are kept -/

theorem insertNamed_self (name : String) (mark value : ByteArray)
    (kept : List (String × ByteArray)) :
    insertNamed name mark (insertNamed name value kept) = insertNamed name mark kept := by
  induction kept with
  | nil => simp [insertNamed]
  | cons head rest ih =>
    obtain ⟨key, old⟩ := head
    by_cases heq : name = key
    · simp [insertNamed, heq]
    · by_cases hlt : name < key
      · simp [insertNamed, heq, hlt]
      · simp [insertNamed, heq, hlt, ih]

theorem insertNamed_comm (hne : name ≠ key) (mark value : ByteArray)
    (kept : List (String × ByteArray)) :
    insertNamed name mark (insertNamed key value kept) =
      insertNamed key value (insertNamed name mark kept) := by
  induction kept with
  | nil =>
    rcases lt_or_gt_of_ne hne with hlt | hlt
    · simp [insertNamed, hne, hne.symm, hlt, hlt.not_gt]
    · simp [insertNamed, hne, hne.symm, hlt, hlt.not_gt]
  | cons head rest ih =>
    obtain ⟨first, old⟩ := head
    rcases lt_trichotomy name first with hname | rfl | hname
    · grind [insertNamed]
    · grind [insertNamed]
    · grind [insertNamed]

theorem exists_insertNamed (name : String) (kept : List (String × ByteArray)) :
    ∃ before after, ∀ mark, insertNamed name mark kept = before ++ (name, mark) :: after := by
  induction kept with
  | nil => exact ⟨[], [], fun mark => rfl⟩
  | cons head rest ih =>
    obtain ⟨key, old⟩ := head
    by_cases heq : name = key
    · exact ⟨[], rest, fun mark => by simp [insertNamed, heq]⟩
    · by_cases hlt : name < key
      · exact ⟨[], (key, old) :: rest, fun mark => by simp [insertNamed, heq, hlt]⟩
      · obtain ⟨before, after, hrest⟩ := ih
        exact ⟨(key, old) :: before, after, fun mark => by simp [insertNamed, heq, hlt, hrest]⟩

theorem keptStream_append (before after : List (String × ByteArray)) :
    keptStream (before ++ after) = keptStream before ++ keptStream after := by
  have hfold : ∀ (kept : List (String × ByteArray)) (start : ByteArray),
      kept.foldl (fun stream (name, mark) => stream ++ name.toUTF8 ++ mark) start =
        start ++ keptStream kept := by
    intro kept
    induction kept with
    | nil => simp [keptStream]
    | cons head rest ih =>
      intro start
      rw [keptStream, List.foldl_cons, List.foldl_cons, ih, ih (_ ++ _ ++ _)]
      simp [ByteArray.append_assoc]
  rw [keptStream, List.foldl_append, hfold after, ← keptStream]

theorem eq_of_keptStream_insertNamed {mark value : ByteArray} {kept : List (String × ByteArray)}
    (h : keptStream (insertNamed name mark kept) = keptStream (insertNamed name value kept)) :
    mark = value := by
  obtain ⟨before, after, hinsert⟩ := exists_insertNamed name kept
  rw [hinsert, hinsert, keptStream_append, keptStream_append, ByteArray.append_right_inj,
    ← List.singleton_append, ← List.singleton_append (x := (name, value)), keptStream_append,
    keptStream_append, ByteArray.append_left_inj] at h
  simpa [keptStream, ByteArray.append_right_inj] using h

/-! ### Listings that are told by their bytes -/

def IsFile (entry : Entry) : Prop := ∃ content, entry = .file content

/-- Two entries are **apart** unless they are rendered alike and one of them is a file. -/
def Apart (e f : List (List UInt8) × Entry) : Prop :=
  rendered e.1 = rendered f.1 → ¬ IsFile e.2 ∧ ¬ IsFile f.2

/-- A listing is **told by its bytes**: they are the same in every order, and different with another
content of a file. -/
structure Told (entries : Listing) : Prop where
  order : ∀ listing, listing.Perm entries → listedStream listing = listedStream entries
  content : ∀ names old new rest, entries.Perm ((names, .file old) :: rest) →
    digest old ≠ digest new → ∀ changed, changed.Perm ((names, .file new) :: rest) →
      listedStream changed ≠ listedStream entries

theorem Apart.symm {e f : List (List UInt8) × Entry} (h : Apart e f) : Apart f e :=
  fun halike => (h halike.symm).symm

theorem entryMark_of_not_isFile {entry : Entry} (h : ¬ IsFile entry) :
    entryMark entry = "/".toUTF8 := by
  cases entry with
  | file content => exact absurd ⟨content, rfl⟩ h
  | _ => rfl

theorem Apart.keep_comm {e f : List (List UInt8) × Entry} (h : Apart e f)
    (kept : List (String × ByteArray)) : keep (keep kept e) f = keep (keep kept f) e := by
  by_cases halike : rendered e.1 = rendered f.1
  · obtain ⟨he, hf⟩ := h halike
    simp only [keep, halike, entryMark_of_not_isFile he, entryMark_of_not_isFile hf]
  · exact insertNamed_comm (Ne.symm halike) ..

theorem listedStream_perm (hapart : entries.Pairwise Apart) (h : listing.Perm entries) :
    listedStream listing = listedStream entries := by
  let Commute := fun e f : List (List UInt8) × Entry => ∀ kept,
    keep (keep kept e) f = keep (keep kept f) e
  have hsymm : Std.Symm Commute := ⟨fun e f hcomm kept => (hcomm kept).symm⟩
  have hcomm : listing.Pairwise Commute :=
    ((h.pairwise_iff Apart.symm).2 hapart).imp Apart.keep_comm
  have hall := hcomm.forall_of_forall fun e _ kept => rfl
  rw [listedStream, h.foldl_eq' fun e he f hf => hall he hf, listedStream]

theorem listedStream_concat (rest : Listing) (names : List (List UInt8)) (content : ByteArray) :
    listedStream (rest ++ [(names, .file content)]) =
      keptStream (insertNamed (rendered names) (digest content) (rest.foldl keep [])) := by
  rw [listedStream, List.foldl_append]
  rfl

theorem told_of_apart (hapart : entries.Pairwise Apart) : Told entries := by
  refine ⟨fun listing => listedStream_perm hapart, fun names old new rest hold hne changed hnew h =>
    hne ?_⟩
  have hpairs : ((names, Entry.file old) :: rest).Pairwise Apart :=
    (hold.pairwise_iff Apart.symm).1 hapart
  obtain ⟨hfile, hrest⟩ := List.pairwise_cons.1 hpairs
  have hpairs' : ((names, Entry.file new) :: rest).Pairwise Apart :=
    List.pairwise_cons.2 ⟨fun f hf halike => absurd ⟨old, rfl⟩ (hfile f hf halike).1, hrest⟩
  -- In both listings the file can be listed last, after the same entries.
  have hlast : ∀ content, (rest ++ [(names, Entry.file content)]).Perm
      ((names, .file content) :: rest) := fun content => List.perm_append_singleton ..
  rw [listedStream_perm hpairs' hnew, ← listedStream_perm hpairs' (hlast new),
    listedStream_concat, ← listedStream_perm hapart ((hlast old).trans hold.symm),
    listedStream_concat] at h
  exact (eq_of_keptStream_insertNamed h).symm

theorem listedStream_alike {e f : List (List UInt8) × Entry} (halike : rendered e.1 = rendered f.1)
    (rest : Listing) : listedStream (e :: f :: rest) = listedStream (f :: rest) := by
  have hkept : keep (keep [] e) f = keep [] f := by
    rw [keep, keep, halike, insertNamed_self, keep]
  rw [listedStream, List.foldl_cons, List.foldl_cons, hkept, listedStream, List.foldl_cons]

theorem exists_digest_ne (content : ByteArray) : ∃ other, digest content ≠ digest other := by
  by_cases happ : digest content = digest "app".toUTF8
  · exact ⟨"lib".toUTF8, fun hlib => Sha256.digest_app_ne_lib (digest_inj (happ.symm.trans hlib))⟩
  · exact ⟨_, happ⟩

theorem Told.apart (h : Told entries) : entries.Pairwise Apart := by
  have hdirectory : ∀ {e f rest}, entries.Perm (e :: f :: rest) → rendered e.1 = rendered f.1 →
      ¬ IsFile e.2 := by
    rintro ⟨names, _⟩ f rest hperm halike ⟨content, rfl⟩
    obtain ⟨other, hne⟩ := exists_digest_ne content
    refine h.content names content other _ hperm hne _ (.refl _) ?_
    calc listedStream ((names, .file other) :: f :: rest)
      _ = listedStream (f :: rest) :=
        listedStream_alike (e := (names, .file other)) halike rest
      _ = listedStream ((names, .file content) :: f :: rest) :=
        (listedStream_alike halike rest).symm
      _ = listedStream entries := h.order _ hperm.symm
  refine List.pairwise_iff_forall_sublist.2 fun hsub halike => ?_
  obtain ⟨rest, hperm⟩ := hsub.exists_perm_append
  exact ⟨hdirectory hperm halike, hdirectory (hperm.trans (.swap ..)) halike.symm⟩

/-! ### Names that are rendered as they are -/

/-- Names are **plain** if they are texts without slashes and backslashes. -/
def Plain (names : List (List UInt8)) : Prop :=
  ∃ texts : Location, texts ≠ [] ∧ names = texts.map Text.bytes ∧
    ∀ text ∈ texts, '/' ∉ text.toList ∧ '\\' ∉ text.toList

theorem map_intercalate_of_not_mem : ∀ {texts : List (List Char)}, (∀ text ∈ texts, '\\' ∉ text) →
    (['/'].intercalate texts).map (fun c => if c = '\\' then '/' else c) = ['/'].intercalate texts
  | [], _ => rfl
  | text :: rest, h => by
      have htext : text.map (fun c => if c = '\\' then '/' else c) = text := by
        conv => rhs; rw [← List.map_id text]
        refine List.map_congr_left fun c hc => if_neg ?_
        rintro rfl
        exact h text (.head _) hc
      have hrest := map_intercalate_of_not_mem fun t ht => h t (.tail _ ht)
      cases rest with
      | nil => simpa using htext
      | cons next rest => simp [List.intercalate_cons_cons, htext, hrest]

theorem Plain.eq_of_rendered_eq {other : List (List UInt8)} (h : Plain names) (h' : Plain other)
    (halike : rendered names = rendered other) : names = other := by
  obtain ⟨texts, hne, rfl, htexts⟩ := h
  obtain ⟨texts', hne', rfl, htexts'⟩ := h'
  have hsplit : ∀ {texts : Location}, texts ≠ [] →
      (∀ text ∈ texts, '/' ∉ text.toList ∧ '\\' ∉ text.toList) →
      (entryName texts).toList.splitOn '/' = texts.map String.toList := by
    intro texts hne htexts
    rw [entryName, String.toList_map, String.toList_intercalate]
    refine Eq.trans (congrArg _ (map_intercalate_of_not_mem ?_)) (List.splitOn_intercalate _ ?_ ?_)
    · simpa using fun text ht => (htexts text ht).2
    · simpa using fun text ht => (htexts text ht).1
    · simpa using hne
  rw [rendered_bytes, rendered_bytes] at halike
  have hmap := hsplit hne htexts
  rw [halike, hsplit hne' htexts'] at hmap
  rw [List.map_injective_iff.2 (fun a b => String.toList_inj.1) hmap]

theorem apart_of_plain (hnodup : (entries.map (·.1)).Nodup) (hplain : ∀ e ∈ entries, Plain e.1) :
    entries.Pairwise Apart := by
  refine (List.pairwise_map.1 hnodup).imp_of_mem fun he hf hne halike => ?_
  exact absurd ((hplain _ he).eq_of_rendered_eq (hplain _ hf) halike) hne

/-! ### Main results -/

/-- **Which directories are told by their bytes**: the bytes of a listing are the same in every
order and different after every change of a file exactly if no file is rendered like another entry.
So it is with plain names. The bytes of a directory in a tree are those of a listing, and if they
tell it they are different after every change of a file below it. -/
theorem directory_bytes_tell_files_iff_apart (entries : Listing) :
    (Told entries ↔ entries.Pairwise Apart) ∧
    ((entries.map (·.1)).Nodup → (∀ e ∈ entries, Plain e.1) → Told entries) ∧
    ∀ tree location, directoryStream tree location = listedStream (listingOf tree location) ∧
      (Told (listingOf tree location) → ∀ names old new, names ≠ [] →
        tree.entry? (location ++ names) = some (.file old) → digest old ≠ digest new →
        directoryStream (tree.insert (location ++ names) (.file new)) location ≠
          directoryStream tree location) := by
  refine ⟨⟨Told.apart, told_of_apart⟩, fun hnodup hplain => told_of_apart (apart_of_plain hnodup
    hplain), fun tree location => ⟨directoryStream_eq tree location, ?_⟩⟩
  intro htold names old new hne hold hdigest
  obtain ⟨rest, hlisting, hinsert⟩ := exists_listingOf_insert hne hold
  rw [directoryStream_eq, directoryStream_eq]
  exact htold.content _ old new rest hlisting hdigest _ (hinsert _)

theorem plain_directory_is_told :
    Told [(["a"].map Text.bytes, .directory), (["a", "b"].map Text.bytes, .file "lib".toUTF8),
      (["a-b"].map Text.bytes, .file "app".toUTF8)] := by
  refine (directory_bytes_tell_files_iff_apart _).2.1 (by decide) ?_
  simp only [List.forall_mem_cons]
  exact ⟨⟨["a"], by decide, rfl, by decide⟩, ⟨["a", "b"], by decide, rfl, by decide⟩,
    ⟨["a-b"], by decide, rfl, by decide⟩, by simp⟩

/-- A directory with a file in a directory `a`, and one whose name has a backslash in it. -/
def veiled : FileTree where
  entries := [(["d"], .directory), (["d", "a"], .directory), (["d", "a", "b"], .file "lib".toUTF8),
    (["d", "a\\b"], .file "app".toUTF8)]
  here := []

/-- **A backslash hides a file**: its bytes are changed unnoticed, and in another order of the
entries it would be the other file that is hidden. -/
theorem backslash_hides_a_file :
    veiled.Tidy ∧ (∀ e ∈ veiled.entries, ∀ name ∈ e.1, FileTree.IsFileName name) ∧
    veiled.entry? ["d", "a\\b"] = some (.file "app".toUTF8) ∧
    digest "app".toUTF8 ≠ digest "lib".toUTF8 ∧
    directoryStream (veiled.insert ["d", "a\\b"] (.file "lib".toUTF8)) ["d"] =
      directoryStream veiled ["d"] ∧
    ∃ listing, listing.Perm (listingOf veiled ["d"]) ∧
      listedStream listing ≠ directoryStream veiled ["d"] := by
  have hdigest : digest "app".toUTF8 ≠ digest "lib".toUTF8 :=
    fun heq => Sha256.digest_app_ne_lib (digest_inj heq)
  have halike : rendered (["a\\b"].map Text.bytes) = rendered (["a", "b"].map Text.bytes) := by
    rw [rendered_bytes, rendered_bytes, ← String.toList_inj, entryName, entryName,
      String.toList_map, String.toList_map, String.toList_intercalate, String.toList_intercalate]
    decide
  let shown (content : ByteArray) : Listing :=
    [(["a", "b"].map Text.bytes, .file content), (["a"].map Text.bytes, .directory)]
  have hhidden : ∀ content, directoryStream (veiled.insert ["d", "a\\b"] (.file content)) ["d"] =
      listedStream (shown "lib".toUTF8) := by
    intro content
    rw [directoryStream_eq]
    exact listedStream_alike (e := (_, .file content)) halike _
  refine ⟨FileTree.tidy_of_entries rfl (by decide)
    (by simp [veiled, FileTree.entry?, FileTree.find?]), by decide, rfl, hdigest,
    (hhidden _).trans (hhidden _).symm, (["a", "b"].map Text.bytes, .file "lib".toUTF8) ::
      (["a\\b"].map Text.bytes, .file "app".toUTF8) :: [(["a"].map Text.bytes, .directory)],
    .swap .., ?_⟩
  have hplain : ∀ e ∈ shown "lib".toUTF8, Plain e.1 := by
    simp only [shown, List.forall_mem_cons]
    exact ⟨⟨["a", "b"], by decide, rfl, by decide⟩, ⟨["a"], by decide, rfl, by decide⟩, by simp⟩
  -- Listed after the other file, the hidden one would be seen in its place.
  have hrendered : listedStream [(["a\\b"].map Text.bytes, .file "app".toUTF8),
      (["a"].map Text.bytes, .directory)] = listedStream (shown "app".toUTF8) := by
    simp only [shown, listedStream, List.foldl_cons, keep, halike]
  have hother := (told_of_apart (apart_of_plain (by decide) hplain)).content _ _ _ _ (.refl _)
    hdigest.symm _ (.refl _)
  rw [listedStream_alike halike.symm, hrendered]
  exact fun heq => hother (heq.trans (hhidden "app".toUTF8))

end Fingerprint

end BuildMatrix
