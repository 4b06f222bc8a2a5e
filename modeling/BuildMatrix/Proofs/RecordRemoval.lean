import BuildMatrix.Proofs.RecordWatch
import BuildMatrix.Proofs.Timestamps

/-!
# Dropping records

The directory of the cache comes and goes: the first record makes it, and dropping all records drops
it too. It is *lodged* in a place if the path of the cache leads there and no link stands in it, at
whatever depth, and it is *vacant* if it is missing and would hold nothing once it is made. In a
lodged cache, dropping a record drops one file, and dropping the records that are too old drops the
files of those records, of all that are no records, and nothing else. Dropping all records leaves
the cache vacant.
-/

namespace BuildMatrix

variable {name : String} {path : Path}

/-! ### Names of files -/

namespace Path

theorem child_injective (dir : Path) {other : String} (hname : '/' ∉ name.toList)
    (hother : '/' ∉ other.toList) (h : dir.child name = dir.child other) : name = other := by
  have htext := congrArg Path.text h
  rw [text_child dir hname, text_child dir hother] at htext
  exact (String.append_right_inj _).1 htext

/-- The last name of a path is that of its last component. -/
theorem fileName?_of_plainNames {names : List String} (h : path.plainNames = names ++ [name])
    (hparent : name ≠ "..") : path.fileName? = some name := by
  obtain ⟨head, body, hcomponents, hhead, hbody⟩ : ∃ head body : List Component,
      path.components = head ++ body ∧ head.filterMap Component.part? = [] ∧
      ∀ c ∈ body, ∃ part, component? part = some c := by
    refine ⟨_, _, rfl, ?_, fun c hc => ?_⟩
    · split
      · rfl
      · split <;> rfl
    · obtain ⟨part, -, hpart⟩ := List.mem_filterMap.1 hc
      exact ⟨part, hpart⟩
  rw [plainNames_eq, hcomponents, List.filterMap_append, hhead, List.nil_append] at h
  rcases List.eq_nil_or_concat body with rfl | ⟨init, c, rfl⟩
  · simp at h
  rw [List.concat_eq_append] at h hcomponents hbody
  obtain ⟨part, hpart⟩ := hbody c (by simp)
  have hlast : c.part? = some name := by
    cases hc : c.part? with
    | some found =>
      rw [List.filterMap_append, List.filterMap_cons_some hc] at h
      rw [(List.append_inj' h rfl).2 |> List.singleton_inj.1]
    | none =>
      rw [component?.eq_def] at hpart
      split at hpart <;> cases hpart <;> cases hc
  rw [fileName?, hcomponents, ← List.append_assoc, List.getLast?_concat]
  cases c with
  | normal found => exact hlast
  | parent => exact absurd (Option.some.inj hlast).symm hparent
  | root => cases hlast
  | current => cases hlast

theorem fileName?_child (dir : Path) (hname : FileTree.IsFileName name) :
    (dir.child name).fileName? = some name := by
  have hplain : (dir.child name).plainNames = dir.plainNames ++ [name] := by
    rw [plainNames_child dir hname.ne_empty hname.no_separator]
    simp [hname.ne_current]
  exact fileName?_of_plainNames hplain hname.ne_parent

end Path

namespace Cache

theorem isFileName_recordName (identity : String) : FileTree.IsFileName (recordName identity) where
  toIsName := isName_recordName identity
  ne_empty h := by simpa [h] using length_recordName identity
  no_separator := separator_notMem_recordName identity
  no_zero h := (mem_recordName h).2.2 rfl

theorem recordPath_eq (cache : Cache) (identity : String) :
    cache.recordPath identity = cache.dir.child (recordName identity) := by
  rw [recordPath, recordName]

theorem extension?_recordPath (cache : Cache) (identity : String) :
    (cache.recordPath identity).extension? = some "json" := by
  have hne : Sha256.hex (Sha256.digest identity.toUTF8) ≠ "" := by
    intro hempty
    have hlength := Sha256.length_hex (Sha256.digest identity.toUTF8)
    rw [hempty, Sha256.length_digest] at hlength
    cases hlength
  have hreverse : ".json".toList.reverse = ['n', 'o', 's', 'j', '.'] := rfl
  rw [recordPath_eq, Path.extension?, Path.fileName?_child _ (isFileName_recordName identity),
    Option.bind_some, Path.extensionOf?, recordName, String.toList_append, List.reverse_append,
    hreverse]
  simpa [List.takeWhile] using hne

end Cache

/-! ### Dropping entries -/

namespace FileTree

variable {tree : FileTree} {location : Location} {found : Location} {dir : Path}

/-- A tree stays tidy when entries are dropped **with all that is below them**, if the current
directory is left. -/
theorem Tidy.filter (h : tree.Tidy) (keeps : Location → Bool) (hhere : keeps tree.here = true)
    (hup : ∀ found name, keeps (found ++ [name]) = true → keeps found = true) :
    Tidy { tree with entries := tree.entries.filter fun e => keeps e.1 } := by
  refine ⟨⟨?_, fun found name hsome => ?_⟩, (List.filter_sublist.map _).nodup h.nodup⟩
  · rw [entry?_filter]
    exact (if_pos (.inr hhere)).trans h.sound.here
  · rw [entry?_filter] at hsome ⊢
    split at hsome
    · next hkept =>
        rw [if_pos (.inr (hup _ _ (hkept.resolve_left (by simp))))]
        exact h.sound.parent found name hsome
    · exact absurd rfl hsome

/-- **The entries that are left** when those at a location and below it are dropped, but for the
root. -/
theorem entry?_eraseAll_of_ne_nil (tree : FileTree) (location : Location) (hroot : found ≠ []) :
    entry? (tree.eraseAll location) found =
      if location <+: found then none else tree.entry? found := by
  refine (tree.entry?_filter (fun l => !location.isPrefixOf l) found).trans ?_
  by_cases hbelow : location <+: found
  · rw [if_pos hbelow, if_neg (by simp [hroot, hbelow])]
  · refine (if_pos (.inr ?_)).trans (if_neg hbelow).symm
    rwa [Bool.not_eq_true', ← Bool.not_eq_true, List.isPrefixOf_iff_prefix]

theorem entry?_eraseAll (tree : FileTree) (hne : location ≠ []) (found : Location) :
    entry? (tree.eraseAll location) found =
      if location <+: found then none else tree.entry? found := by
  by_cases hroot : found = []
  · subst hroot
    exact (if_neg (by simpa using hne)).symm
  · exact tree.entry?_eraseAll_of_ne_nil location hroot

theorem Tidy.eraseAll (h : tree.Tidy) (hhere : ¬location <+: tree.here) :
    (tree.eraseAll location).Tidy := by
  refine h.filter (fun l => !location.isPrefixOf l) ?_ fun found name hkept => ?_
  · rwa [Bool.not_eq_true', ← Bool.not_eq_true, List.isPrefixOf_iff_prefix]
  · rw [Bool.not_eq_true', ← Bool.not_eq_true, List.isPrefixOf_iff_prefix] at hkept ⊢
    exact fun hbelow => hkept (hbelow.trans (List.prefix_append ..))

theorem entry?_eraseBelow (tree : FileTree) (location found : Location) :
    entry? (tree.eraseBelow location) found =
      if location <+: found ∧ found ≠ location then none else tree.entry? found := by
  refine (tree.entry?_filter (fun l => l = location || !location.isPrefixOf l) found).trans ?_
  by_cases hbelow : location <+: found ∧ found ≠ location
  · have hroot : found ≠ [] := by
      rintro rfl
      exact hbelow.2 (List.prefix_nil.1 hbelow.1).symm
    rw [if_pos hbelow, if_neg (by simp [hroot, hbelow])]
  · refine (if_pos (.inr ?_)).trans (if_neg hbelow).symm
    rw [Bool.or_eq_true, decide_eq_true_eq, Bool.not_eq_true', ← Bool.not_eq_true,
      List.isPrefixOf_iff_prefix]
    exact or_iff_not_imp_left.2 fun hne hnested => hbelow ⟨hnested, hne⟩

theorem Tidy.eraseBelow (h : tree.Tidy) (hhere : ¬location <+: tree.here) :
    (tree.eraseBelow location).Tidy := by
  have hkeeps : ∀ found, (found = location || !location.isPrefixOf found) = true ↔
      found = location ∨ ¬location <+: found := fun found => by
    rw [Bool.or_eq_true, decide_eq_true_eq, Bool.not_eq_true', ← Bool.not_eq_true,
      List.isPrefixOf_iff_prefix]
  refine h.filter (fun l => l = location || !location.isPrefixOf l) ((hkeeps _).2 (.inr hhere))
    fun found name hkept => (hkeeps _).2 (.inr fun hbelow => ?_)
  rcases (hkeeps _).1 hkept with heq | hother
  · have hlength := hbelow.length_le
    rw [← heq, List.length_append] at hlength
    exact absurd hlength (Nat.not_succ_le_self _)
  · exact hother (hbelow.trans (List.prefix_append ..))

/-- A tree in which **a directory was cleared**: what is outside it is left, and of what is inside
at most the directory itself. -/
structure Cleared (tree : FileTree) (folder : Location) (left : FileTree) : Prop where
  here : left.here = tree.here
  outside : ∀ location, ¬folder <+: location → left.entry? location = tree.entry? location
  inside : ∀ location, folder <+: location → left.entry? location = none ∨
    location = folder ∧ left.entry? location = tree.entry? location

theorem cleared_eraseAll (tree : FileTree) (location : Location) :
    tree.Cleared location (tree.eraseAll location) := by
  refine ⟨rfl, fun found hother => ?_, fun found hbelow => ?_⟩ <;> by_cases hroot : found = []
  · subst hroot
    rfl
  · rw [entry?_eraseAll_of_ne_nil _ _ hroot, if_neg hother]
  · subst hroot
    exact .inr ⟨(List.prefix_nil.1 hbelow).symm, rfl⟩
  · rw [entry?_eraseAll_of_ne_nil _ _ hroot, if_pos hbelow]
    exact .inl rfl

theorem cleared_eraseBelow (tree : FileTree) (location : Location) :
    tree.Cleared location (tree.eraseBelow location) where
  here := rfl
  outside found hother := by rw [entry?_eraseBelow, if_neg fun hbelow => hother hbelow.1]
  inside found hbelow := by
    rw [entry?_eraseBelow]
    by_cases heq : found = location
    · exact .inr ⟨heq, if_neg fun hne => hne.2 heq⟩
    · exact .inl (if_pos ⟨hbelow, heq⟩)

section File

variable {content : ByteArray}

theorem Sound.eq_of_prefix (h : tree.Sound) (hfile : tree.entry? location = some (.file content))
    (hbelow : location <+: found) (hsome : tree.entry? found ≠ none) : found = location := by
  obtain ⟨names, rfl⟩ := hbelow
  by_cases hnames : names = []
  · rw [hnames, List.append_nil]
  · exact absurd (h.entry?_append (by simp [hfile]) hnames) hsome

theorem Sound.entry?_eraseAll_file (h : tree.Sound)
    (hfile : tree.entry? location = some (.file content)) (found : Location) :
    entry? (tree.eraseAll location) found =
      if found = location then none else tree.entry? found := by
  rw [entry?_eraseAll tree (ne_nil_of_file hfile)]
  by_cases heq : found = location
  · rw [if_pos heq, if_pos (heq ▸ List.prefix_rfl)]
  · rw [if_neg heq]
    split
    · next hbelow =>
        by_contra hsome
        exact heq (h.eq_of_prefix hfile hbelow (Ne.symm hsome))
    · rfl

theorem Tidy.eraseAll_file (h : tree.Tidy)
    (hfile : tree.entry? location = some (.file content)) : (tree.eraseAll location).Tidy := by
  refine h.eraseAll fun hbelow => ?_
  have hhere := h.sound.here
  rw [h.sound.eq_of_prefix hfile hbelow (by simp [hhere]), hfile] at hhere
  cases hhere

end File

theorem Enters.approach (h : tree.Enters path location) :
    ∃ left, FileTree.approach tree maxLinks (tree.startOf path) path.stemNames =
      .ok (left, location) := by
  rw [← approach_parts]
  rw [Enters] at h
  split at h
  · next hempty =>
      obtain rfl : path = ⟨""⟩ := by
        cases path
        rw [← hempty]
      exact ⟨maxLinks, by rw [h]; rfl⟩
  · obtain ⟨hlocate, hentry⟩ := lookup_eq_ok_iff.1 h
    exact approach_of_follow (locate_eq_ok_iff.1 hlocate).2 hentry

section Last

variable {start : Location} {names : List String} {path : Path} {entry : Entry}

/-- A descent that does not arrive at a link is the same if the last link is followed. -/
theorem descend_true_of_false
    (h : ∀ location, descend tree false start names = .arrived location →
      ∀ target, tree.entry? location ≠ some (.link target)) :
    descend tree true start names = descend tree false start names := by
  fun_induction FileTree.descend tree false start names with
  | case1 start => rfl
  | case2 start rest ih => simpa [descend] using ih h
  | case3 start rest hcurrent ih => simpa [descend] using ih h
  | case4 start name rest hcurrent hparent hlong => simp [descend, hcurrent, hparent, hlong]
  | case5 start name rest hcurrent hparent hlong hentry hrest =>
    simp [descend, hcurrent, hparent, hlong, hentry, hrest]
  | case6 start name rest hcurrent hparent hlong hentry hrest =>
    simp [descend, hcurrent, hparent, hlong, hentry, hrest]
  | case7 start name rest hcurrent hparent hlong hentry ih =>
    simpa [descend, hcurrent, hparent, hlong, hentry] using ih h
  | case8 start name rest hcurrent hparent hlong content hentry hrest =>
    simp [descend, hcurrent, hparent, hlong, hentry, hrest]
  | case9 start name rest hcurrent hparent hlong content hentry hrest =>
    simp [descend, hcurrent, hparent, hlong, hentry, hrest]
  | case10 start name rest hcurrent hparent hlong target hentry hrest =>
    exact absurd hentry (h _ rfl target)
  | case11 start name rest hcurrent hparent hlong target hentry hrest =>
    simp [descend, hcurrent, hparent, hlong, hentry]

theorem follow_true_of_false {links : Nat}
    (h : follow tree false links start names = .ok location)
    (hlink : ∀ target, tree.entry? location ≠ some (.link target)) :
    follow tree true links start names = .ok location := by
  induction links using Nat.strong_induction_on generalizing start names with
  | _ links ih =>
    rcases follow_eq_ok_iff.1 h with harrived | ⟨start', names', less, hredirected, rfl, hrest⟩
    · refine follow_eq_ok_iff.2 (.inl ?_)
      rw [descend_true_of_false, harrived]
      intro found hfound
      rw [harrived] at hfound
      exact Descent.arrived.inj hfound ▸ hlink
    · refine follow_eq_ok_iff.2 (.inr ⟨start', names', less, ?_, rfl,
        ih less (Nat.lt_succ_self less) hrest⟩)
      rw [descend_true_of_false (by simp [hredirected]), hredirected]

theorem lookup_true_of_false (h : tree.lookup false path = .ok (location, entry))
    (hlink : ∀ target, entry ≠ .link target) : tree.lookup true path = .ok (location, entry) := by
  obtain ⟨hlocate, hentry⟩ := lookup_eq_ok_iff.1 h
  obtain ⟨husable, hfollow⟩ := locate_eq_ok_iff.1 hlocate
  refine lookup_eq_ok_iff.2 ⟨locate_eq_ok_iff.2 ⟨husable, follow_true_of_false hfollow ?_⟩, hentry⟩
  intro target hsome
  exact hlink target (Option.some.inj (hentry.symm.trans hsome))

end Last

theorem Sound.locate_child (h : tree.Sound) {folder : Location} (henters : tree.Enters dir folder)
    (hname : IsFileName name) (husable : IsUsable (dir.child name)) {followLast : Bool}
    (hlink : followLast = true → ∀ target, tree.entry? (folder ++ [name]) ≠ some (.link target)) :
    tree.locate followLast (dir.child name) = .ok (folder ++ [name]) := by
  obtain ⟨-, left, happroach⟩ := h.enters_iff.1 henters
  refine locate_eq_ok_iff.2 ⟨husable, ?_⟩
  rw [(inDir_child dir hname.ne_empty hname.no_separator).follow_eq, happroach]
  exact follow_last hname.toIsName left folder hlink

/-- A path to a name in a directory leads to this name in some directory, if a link there is not
followed. -/
theorem exists_of_locate_child (hname : IsFileName name)
    (h : tree.locate false (dir.child name) = .ok location) :
    ∃ folder, location = folder ++ [name] := by
  obtain ⟨-, h⟩ := locate_eq_ok_iff.1 h
  rw [(inDir_child dir hname.ne_empty hname.no_separator).follow_eq] at h
  split at h
  · next left found happroach =>
      rw [follow_last hname.toIsName left found (by simp)] at h
      exact ⟨found, (Except.ok.inj h).symm⟩
  · cases h

theorem getLast?_child (dir : Path) (hname : IsFileName name) :
    (dir.child name).text.toList.getLast? ≠ some '/' := by
  have hne : name.toList ≠ [] := by simpa using hname.ne_empty
  rw [Path.text_child dir hname.no_separator, String.toList_append,
    List.getLast?_append_of_ne_nil _ hne, List.getLast?_eq_some_getLast hne]
  intro hlast
  exact hname.no_separator (Option.some.inj hlast ▸ List.getLast_mem hne)

theorem removeAll_child (hname : IsFileName name)
    (hlookup : tree.lookup false (dir.child name) = .ok (location, .directory)) :
    tree.removeAll (dir.child name) = (.ok (), tree.eraseAll location) := by
  obtain ⟨names, hparts, -⟩ := (inDir_child dir hname.ne_empty hname.no_separator).parts
  have hfault : tree.callFault? (dir.child name) = none := by
    unfold callFault?
    rw [withoutSlashes_eq (getLast?_child dir hname), hlookup, hparts, List.getLast?_concat]
    split
    · next heq => exact absurd (Option.some.inj heq) hname.ne_current
    · next heq => exact absurd (Option.some.inj heq) hname.ne_parent
    · rfl
  simp only [removeAll, hlookup, hfault]

theorem isFileName_temp : IsFileName "temp" :=
  ⟨⟨by decide, by decide, by decide⟩, by decide, by decide, by decide⟩

end FileTree

/-! ### The directory of the cache -/

namespace Cache

open FileTree

variable {cache : Cache} {identity name : String} {folder : Location} {tree other after : FileTree}
  {was : Bool} {pruned : Pruned} {count : Nat}

/-- What a file says as a **record**; no record if there is none. -/
def entryRecord? : Option Entry → Option WorkRecord
  | some (.file content) => (Text.decode? content).bind WorkRecord.parse?
  | _ => none

theorem exists_file_of_entryRecord? {entry : Option Entry} {record : WorkRecord}
    (h : entryRecord? entry = some record) : ∃ content, entry = some (.file content) := by
  rcases entry with _ | content | _ | _
  · cases h
  · exact ⟨content, rfl⟩
  · cases h
  · cases h

theorem entryRecord?_congr {entry other : Option Entry}
    (h : ∀ content, other = some (.file content) ↔ entry = some (.file content)) :
    entryRecord? other = entryRecord? entry := by
  refine Option.ext fun record => ⟨fun hrecord => ?_, fun hrecord => ?_⟩
  · obtain ⟨content, rfl⟩ := exists_file_of_entryRecord? hrecord
    rwa [(h content).1 rfl]
  · obtain ⟨content, rfl⟩ := exists_file_of_entryRecord? hrecord
    rwa [(h content).2 rfl]

theorem Housed.lookup_child (h : cache.Housed folder tree) (hname : IsFileName name)
    (husable : IsUsable (cache.dir.child name)) (followLast : Bool) :
    tree.lookup followLast (cache.dir.child name) =
      match tree.entry? (folder ++ [name]) with
      | some entry => .ok (folder ++ [name], entry)
      | none => .error .notFound := by
  have hlocate : tree.locate followLast (cache.dir.child name) = .ok (folder ++ [name]) :=
    h.tidy.sound.locate_child h.enters hname husable fun _ => h.no_link name
  cases hentry : tree.entry? (folder ++ [name]) with
  | none => simp only [lookup, hlocate, hentry]
  | some entry => simp only [lookup, hlocate, hentry]

theorem Housed.recordAt?_child (h : cache.Housed folder tree) (hname : IsFileName name)
    (husable : IsUsable (cache.dir.child name)) :
    recordAt? tree (cache.dir.child name) = entryRecord? (tree.entry? (folder ++ [name])) := by
  rw [recordAt?, FileTree.read, h.lookup_child hname husable]
  rcases tree.entry? (folder ++ [name]) with _ | content | _ | _
  · rfl
  · exact WorkRecord.read?_eq content
  · rfl
  · rfl

theorem Housed.removeFile_child (h : cache.Housed folder tree) (hname : IsFileName name)
    (husable : IsUsable (cache.dir.child name)) :
    tree.removeFile (cache.dir.child name) =
      match tree.entry? (folder ++ [name]) with
      | some (.file _) => .ok (tree.eraseAll (folder ++ [name]))
      | some _ => .error .isDirectory
      | none => .error .notFound := by
  rw [removeFile, h.lookup_child hname husable]
  rcases hentry : tree.entry? (folder ++ [name]) with _ | content | _ | target
  · rfl
  · rfl
  · rfl
  · exact absurd hentry (h.no_link name target)

theorem Housed.record?_eq (h : cache.Housed folder tree)
    (husable : IsUsable (cache.recordPath identity)) :
    cache.record? tree identity =
      (entryRecord? (tree.entry? (folder ++ [recordName identity]))).filter
        (·.identity = identity) := by
  rw [recordPath_eq] at husable
  have hfile := h.recordAt?_child (isFileName_recordName identity) husable
  unfold record?
  rw [recordPath_eq]
  generalize recordAt? tree (cache.dir.child (recordName identity)) = found at hfile ⊢
  rw [← hfile]
  cases found with
  | none => rfl
  | some record => simp [Option.filter]

theorem record?_eq_none_of_not_usable (h : ¬IsUsable (cache.recordPath identity)) :
    cache.record? tree identity = none := by
  refine Option.eq_none_iff_forall_ne_some.2 fun record hrecord => h ?_
  obtain ⟨⟨location, content, hlocate, -⟩, -⟩ := record?_eq_some_iff.1 hrecord
  exact (locate_eq_ok_iff.1 hlocate).1

/-- **What is on record** depends on the file in the place of the record. -/
theorem Housed.record?_congr (h : cache.Housed folder tree) (hother : cache.Housed folder other)
    (hsame : tree.SameFile other (folder ++ [recordName identity])) :
    cache.record? other identity = cache.record? tree identity := by
  by_cases husable : IsUsable (cache.recordPath identity)
  · rw [h.record?_eq husable, hother.record?_eq husable, entryRecord?_congr hsame]
  · rw [record?_eq_none_of_not_usable husable, record?_eq_none_of_not_usable husable]

/-- The directory of the cache is **in a place**, and no link stands in it at any depth. -/
structure Lodged (cache : Cache) (folder : Location) (tree : FileTree) : Prop extends
    Housed cache folder tree where
  no_links : ∀ location target, folder <+: location → tree.entry? location ≠ some (.link target)

namespace Lodged

theorem of_keeps (h : cache.Lodged folder tree) (htidy : other.Tidy) (hkeeps : tree.Keeps other)
    (hhere : other.here = tree.here)
    (hlinks : ∀ location target, other.entry? location = some (.link target) →
      tree.entry? location = some (.link target)) : cache.Lodged folder other where
  toHoused := h.toHoused.of_keeps htidy hkeeps hhere fun _ target => hlinks _ target
  no_links location target hbelow hlink :=
    h.no_links location target hbelow (hlinks location target hlink)

theorem eraseAll_file (h : cache.Lodged folder tree) {location : Location} {content : ByteArray}
    (hfile : tree.entry? location = some (.file content)) :
    cache.Lodged folder (tree.eraseAll location) := by
  have hentry := h.tidy.sound.entry?_eraseAll_file hfile
  refine h.of_keeps (h.tidy.eraseAll_file hfile) (fun found entry hfound hother => ?_) rfl
    fun found target hlink => (extends_eraseAll tree location).entry found _ hlink
  rw [hentry, if_neg, hfound]
  rintro rfl
  exact hother content (Option.some.inj (hfound.symm.trans hfile))

/-! ### One record -/

/-- **Dropping a record**: its work has none, and all but its file is as it was. -/
theorem invalidate (h : cache.Lodged folder tree)
    (hok : cache.invalidate tree identity = .ok (was, after)) :
    cache.Lodged folder after ∧ cache.record? after identity = none ∧
      ∀ location, location ≠ folder ++ [recordName identity] →
        after.entry? location = tree.entry? location := by
  have hkept : ∀ error, tree.removeFile (cache.recordPath identity) = .error error →
      cache.record? tree identity = none := by
    intro error herror
    refine Option.eq_none_iff_forall_ne_some.2 fun record hrecord => ?_
    obtain ⟨content, hfile, -⟩ := h.exists_slot hrecord
    obtain ⟨⟨location, -, hlocate, -⟩, -⟩ := record?_eq_some_iff.1 hrecord
    have husable := (locate_eq_ok_iff.1 hlocate).1
    rw [recordPath_eq] at husable herror
    rw [h.removeFile_child (isFileName_recordName identity) husable, hfile] at herror
    cases herror
  unfold Cache.invalidate at hok
  split at hok
  · next dropped hremove =>
      obtain ⟨rfl, rfl⟩ := Prod.mk.inj (Except.ok.inj hok)
      have husable : IsUsable (cache.recordPath identity) := by
        rw [removeFile] at hremove
        split at hremove
        · cases hremove
        · cases hremove
        · next hlookup => exact (locate_eq_ok_iff.1 (lookup_eq_ok_iff.1 hlookup).1).1
      rw [recordPath_eq] at husable hremove
      rw [h.removeFile_child (isFileName_recordName identity) husable] at hremove
      split at hremove
      · next content hfile =>
          obtain rfl := Except.ok.inj hremove
          have hentry := h.tidy.sound.entry?_eraseAll_file hfile
          have hlodged := h.eraseAll_file hfile
          refine ⟨hlodged, ?_, fun location hne => by rw [hentry, if_neg hne]⟩
          rw [hlodged.record?_eq (recordPath_eq cache identity ▸ husable), hentry, if_pos rfl]
          rfl
      · cases hremove
      · cases hremove
  · next hremove =>
      obtain ⟨rfl, rfl⟩ := Prod.mk.inj (Except.ok.inj hok)
      exact ⟨h, hkept _ hremove, fun _ _ => rfl⟩
  · cases hok

end Lodged

/-! ### Records that are too old -/

/-- A file is **stale** if its record is older than a point in time, or if it is no record. -/
def Stale (cutoff : Timestamp) (entry : Option Entry) : Prop :=
  (∃ content, entry = some (.file content)) ∧
    ∀ record, entryRecord? entry = some record → record.createdAt.nanos < cutoff.nanos

variable {cutoff : Timestamp} {rest files : List Path}

theorem Housed.pruneFiles_of_stale (h : cache.Housed folder tree) (hname : IsFileName name)
    (husable : IsUsable (cache.dir.child name))
    (hstale : Stale cutoff (tree.entry? (folder ++ [name]))) :
    (pruneFiles cutoff tree (cache.dir.child name :: rest)).2 =
      (pruneFiles cutoff (tree.eraseAll (folder ++ [name])) rest).2 := by
  obtain ⟨⟨content, hfile⟩, hold⟩ := hstale
  have hremove := h.removeFile_child hname husable
  rw [hfile] at hremove
  have hjudge : isStale tree cutoff (cache.dir.child name) = true := by
    rw [isStale, h.recordAt?_child hname husable]
    cases hrecord : entryRecord? (tree.entry? (folder ++ [name])) with
    | none => rfl
    | some record => exact decide_eq_true (hold record hrecord)
  simp only [pruneFiles, hjudge, hremove]

theorem Housed.pruneFiles_of_not_stale (h : cache.Housed folder tree) (hname : IsFileName name)
    (husable : IsUsable (cache.dir.child name))
    (hfresh : ¬Stale cutoff (tree.entry? (folder ++ [name]))) :
    (pruneFiles cutoff tree (cache.dir.child name :: rest)).2 =
      (pruneFiles cutoff tree rest).2 := by
  have hremove := h.removeFile_child hname husable
  rw [pruneFiles]
  split
  · next dropped hjudge hdropped =>
      refine absurd ⟨?_, fun record hrecord => ?_⟩ hfresh
      · rw [hdropped] at hremove
        split at hremove
        · next content hfile => exact ⟨content, hfile⟩
        · cases hremove
        · cases hremove
      · rw [isStale, h.recordAt?_child hname husable, hrecord] at hjudge
        exact of_decide_eq_true hjudge
  · rfl

/-- **Dropping the stale ones among some files** of the directory drops those, and nothing else. -/
theorem Lodged.pruneFiles (h : cache.Lodged folder tree)
    (hfiles : ∀ path ∈ files, ∃ name, path = cache.dir.child name ∧ IsFileName name ∧
      IsUsable path) :
    cache.Lodged folder (pruneFiles cutoff tree files).2 ∧
      ∀ name, IsFileName name → entry? (Cache.pruneFiles cutoff tree files).2 (folder ++ [name]) =
        tree.entry? (folder ++ [name]) ∧ (cache.dir.child name ∈ files →
          ¬Stale cutoff (tree.entry? (folder ++ [name]))) ∨
        entry? (Cache.pruneFiles cutoff tree files).2 (folder ++ [name]) = none ∧
          Stale cutoff (tree.entry? (folder ++ [name])) := by
  induction files generalizing tree with
  | nil => exact ⟨h, fun name _ => .inl ⟨rfl, by simp⟩⟩
  | cons path files ih =>
    obtain ⟨⟨found, rfl, hfound, husable⟩, hrest⟩ := List.forall_mem_cons.1 hfiles
    by_cases hstale : Stale cutoff (tree.entry? (folder ++ [found]))
    · obtain ⟨content, hfile⟩ := hstale.1
      have hentry := h.tidy.sound.entry?_eraseAll_file hfile
      rw [h.pruneFiles_of_stale hfound husable hstale]
      obtain ⟨hlodged, hothers⟩ := ih (h.eraseAll_file hfile) hrest
      refine ⟨hlodged, fun name hname => ?_⟩
      have hother := hothers name hname
      by_cases heq : name = found
      · subst heq
        rw [hentry, if_pos rfl] at hother
        rcases hother with ⟨hnone, -⟩ | ⟨hnone, -⟩
        · exact .inr ⟨hnone, hstale⟩
        · exact .inr ⟨hnone, hstale⟩
      · rw [hentry, if_neg (by simpa using heq)] at hother
        refine hother.imp_left fun ⟨hsame, hfresh⟩ => ⟨hsame, fun hmem => hfresh ?_⟩
        refine (List.mem_cons.1 hmem).resolve_left fun hpath => heq ?_
        exact Path.child_injective _ hname.no_separator hfound.no_separator hpath
    · rw [h.pruneFiles_of_not_stale hfound husable hstale]
      obtain ⟨hlodged, hothers⟩ := ih h hrest
      refine ⟨hlodged, fun name hname => (hothers name hname).imp_left ?_⟩
      rintro ⟨hsame, hfresh⟩
      refine ⟨hsame, fun hmem => ?_⟩
      rcases List.mem_cons.1 hmem with hpath | hmem
      · rwa [Path.child_injective _ hname.no_separator hfound.no_separator hpath]
      · exact hfresh hmem

/-- **The files of the records** are the files of the directory that are told by their extension. -/
theorem recordFiles_of_lookup (hlookup : tree.lookup true cache.dir = .ok (folder, .directory)) :
    ∃ files, cache.recordFiles tree = .ok files ∧ ∀ path, path ∈ files ↔
      (∃ name, tree.entry? (folder ++ [name]) ≠ none ∧ cache.dir.child name = path) ∧
        tree.isFile path = true ∧ path.extension? = some "json" := by
  have hexists : tree.pathExists cache.dir = true := by rw [pathExists, hlookup]
  have hchildren : tree.children cache.dir = .ok (tree.childNames folder) := by
    rw [children, hlookup]
  refine ⟨_, by rw [recordFiles, hexists, hchildren]; rfl, fun path => ?_⟩
  rw [Path.sorted, List.mem_mergeSort, List.mem_filter, List.mem_map]
  simp only [mem_childNames, Bool.and_eq_true, beq_iff_eq]

theorem Housed.lookup_dir (h : cache.Housed folder tree) (hne : cache.dir.text ≠ "") :
    tree.lookup true cache.dir = .ok (folder, .directory) := by
  have henters := h.enters
  rwa [Enters, if_neg hne] at henters

theorem Lodged.exists_recordFiles (h : cache.Lodged folder tree) (hne : cache.dir.text ≠ "")
    (hnamed : tree.Named) : ∃ files, cache.recordFiles tree = .ok files ∧
      (∀ path, path ∈ files ↔
        (∃ name, tree.entry? (folder ++ [name]) ≠ none ∧ cache.dir.child name = path) ∧
          tree.isFile path = true ∧ path.extension? = some "json") ∧
      ∀ path ∈ files, ∃ name, path = cache.dir.child name ∧ IsFileName name ∧ IsUsable path := by
  obtain ⟨files, hrecords, hmem⟩ := recordFiles_of_lookup (h.lookup_dir hne)
  refine ⟨files, hrecords, hmem, fun path hpath => ?_⟩
  obtain ⟨⟨name, hsome, rfl⟩, hfile, -⟩ := (hmem path).1 hpath
  refine ⟨name, rfl, hnamed folder name hsome, ?_⟩
  rw [isFile] at hfile
  split at hfile
  · next hlookup => exact (locate_eq_ok_iff.1 (lookup_eq_ok_iff.1 hlookup).1).1
  · cases hfile

/-- **Dropping the records that are too old**: of each record it is known whether it is still
there. -/
theorem Lodged.prune (h : cache.Lodged folder tree) (hne : cache.dir.text ≠ "")
    (hnamed : tree.Named) (hok : cache.prune tree cutoff = .ok (pruned, after)) :
    cache.Lodged folder after ∧ ∀ identity, cache.record? after identity =
      (cache.record? tree identity).filter (cutoff.nanos ≤ ·.createdAt.nanos) := by
  obtain ⟨files, hrecords, hmem, hfiles⟩ := h.exists_recordFiles hne hnamed
  rw [Cache.prune, hrecords] at hok
  obtain rfl : (Cache.pruneFiles cutoff tree files).2 = after :=
    congrArg Prod.snd (Except.ok.inj hok)
  obtain ⟨hlodged, hentries⟩ := @Lodged.pruneFiles _ _ _ cutoff _ h hfiles
  refine ⟨hlodged, fun identity => ?_⟩
  by_cases husable : IsUsable (cache.recordPath identity)
  · have hlookup := h.lookup_child (isFileName_recordName identity)
      (recordPath_eq cache identity ▸ husable) true
    rw [h.record?_eq husable, hlodged.record?_eq husable]
    rcases hentries _ (isFileName_recordName identity) with ⟨hsame, hfresh⟩ | ⟨hnone, -, hold⟩
    · rw [hsame]
      cases hrecord : entryRecord? (tree.entry? (folder ++ [recordName identity])) with
      | none => rfl
      | some record =>
        obtain ⟨content, hfile⟩ := exists_file_of_entryRecord? hrecord
        rw [hfile] at hlookup
        have hlisted : cache.dir.child (recordName identity) ∈ files := by
          refine (hmem _).2 ⟨⟨_, by simp [hfile], rfl⟩, by rw [isFile, hlookup], ?_⟩
          rw [← recordPath_eq, extension?_recordPath]
        have hyoung : cutoff.nanos ≤ record.createdAt.nanos := by
          by_contra hless
          refine hfresh hlisted ⟨⟨content, hfile⟩, fun found hfound => ?_⟩
          rw [Option.some.inj (hfound.symm.trans hrecord)]
          exact Int.not_le.1 hless
        by_cases hidentity : record.identity = identity <;>
          simp [Option.filter, hidentity, hyoung]
    · rw [hnone]
      cases hrecord : entryRecord? (tree.entry? (folder ++ [recordName identity])) with
      | none => rfl
      | some record =>
        have hless := Int.not_le.2 (hold record hrecord)
        by_cases hidentity : record.identity = identity <;>
          simp [Option.filter, entryRecord?, hidentity, hless]
  · rw [record?_eq_none_of_not_usable husable, record?_eq_none_of_not_usable husable]
    rfl

/-! ### All records -/

/-- The directory of the cache is **missing**, and would hold no files and no links if it were
made. -/
structure Vacant (cache : Cache) (tree : FileTree) : Prop where
  tidy : tree.Tidy
  missing : tree.pathExists cache.dir = false
  fresh : ∀ grown, tree.Grows grown → ∀ folder, grown.Enters cache.dir folder →
    ∀ location entry, folder <+: location → grown.entry? location = some entry → entry = .directory

namespace Vacant

theorem not_enters (h : cache.Vacant tree) (hne : cache.dir.text ≠ "") (folder : Location) :
    ¬tree.Enters cache.dir folder := by
  intro henters
  have hmissing := h.missing
  rw [Enters, if_neg hne] at henters
  rw [pathExists, henters] at hmissing
  cases hmissing

theorem record?_eq_none (h : cache.Vacant tree) (hne : cache.dir.text ≠ "") (identity : String) :
    cache.record? tree identity = none := by
  refine Option.eq_none_iff_forall_ne_some.2 fun record hrecord => ?_
  obtain ⟨folder, henters, -⟩ := exists_slot_of_record? h.tidy.sound hrecord
  exact h.not_enters hne folder henters

theorem recordFiles (h : cache.Vacant tree) : cache.recordFiles tree = .ok [] := by
  rw [Cache.recordFiles, h.missing]
  rfl

theorem invalidate (h : cache.Vacant tree) (hne : cache.dir.text ≠ "")
    (hok : cache.invalidate tree identity = .ok (was, after)) : after = tree := by
  unfold Cache.invalidate at hok
  split at hok
  · next dropped hremove =>
      rw [removeFile] at hremove
      split at hremove
      · cases hremove
      · cases hremove
      · next location entry _ hlookup =>
          obtain ⟨hlocate, -⟩ := lookup_eq_ok_iff.1 hlookup
          obtain ⟨husable, place, happroach, -⟩ := (locate_child_iff
            (cache.parts_recordPath identity) (isName_recordName identity)).1 hlocate
          rw [startOf_recordPath] at happroach
          exact absurd (h.tidy.sound.enters_iff.2
            ⟨isUsable_of_child (separator_notMem_recordName identity) husable, place.1, happroach⟩)
            (h.not_enters hne place.2)
  · exact (congrArg Prod.snd (Except.ok.inj hok)).symm
  · cases hok

theorem prune (h : cache.Vacant tree) (hok : cache.prune tree cutoff = .ok (pruned, after)) :
    after = tree := by
  rw [Cache.prune, h.recordFiles] at hok
  exact (congrArg Prod.snd (Except.ok.inj hok)).symm

theorem clean (h : cache.Vacant tree) (hok : cache.clean tree = .ok (count, after)) :
    after = tree := by
  rw [Cache.clean, Cache.sweep, h.recordFiles, h.missing] at hok
  exact (congrArg Prod.snd (Except.ok.inj hok)).symm

end Vacant

/-- However directories are made once that of the cache was cleared, the ways **agree** with those
before, since no link stood in it. -/
theorem Lodged.agree_of_grows (h : cache.Lodged folder tree) (hcleared : tree.Cleared folder after)
    (hgrown : after.Grows other) : tree.Agree other := by
  intro location entry entry' htree hfile hother _
  by_cases hwithin : folder <+: location
  · rcases hgrown.entry location with hsame | ⟨-, hdirectory⟩
    · rw [hsame] at hother
      rcases hcleared.inside location hwithin with hgone | ⟨-, hleft⟩
      · rw [hgone] at hother
        cases hother
      · exact Option.some.inj (htree.symm.trans (hleft.symm.trans hother))
    · obtain rfl := Option.some.inj (hdirectory.symm.trans hother)
      cases entry with
      | file content => exact absurd rfl (hfile content)
      | directory => rfl
      | link target => exact absurd htree (h.no_links location target hwithin)
  · have hleft := (hcleared.outside location hwithin).trans htree
    exact Option.some.inj ((hgrown.entry?_eq hleft).symm.trans hother)

theorem pathExists_eraseAll (hlookup : tree.lookup true path = .ok (folder, .directory))
    (hroot : folder ≠ []) : pathExists (tree.eraseAll folder) path = false := by
  -- whatever the path led to would be the directory
  rw [pathExists]
  split
  · next found hfound =>
      obtain ⟨location, entry⟩ := found
      have hsame := (extends_eraseAll tree folder).lookup hfound
      obtain ⟨rfl, rfl⟩ := Prod.mk.inj (Except.ok.inj (hlookup.symm.trans hsame))
      have hgone := (lookup_eq_ok_iff.1 hfound).2
      rw [entry?_eraseAll tree hroot, if_pos List.prefix_rfl] at hgone
      cases hgone
  · rfl

/-- **Dropping all records** leaves the cache vacant, if its directory is no link and not where the
current directory lies. -/
theorem Lodged.clean (h : cache.Lodged folder tree) (hne : cache.dir.text ≠ "")
    (hlink : ∀ location target, tree.lookup false cache.dir ≠ .ok (location, .link target))
    (hhere : ¬folder <+: tree.here) (hok : cache.clean tree = .ok (count, after)) :
    cache.Vacant after := by
  have hlookup := h.lookup_dir hne
  have hexists : tree.pathExists cache.dir = true := by rw [pathExists, hlookup]
  obtain ⟨files, hfiles, -⟩ := recordFiles_of_lookup hlookup
  have hroot : folder ≠ [] := by
    rintro rfl
    exact hhere List.nil_prefix
  obtain ⟨hcleared, htidy, hmissing⟩ :
      tree.Cleared folder after ∧ after.Tidy ∧ after.pathExists cache.dir = false := by
    obtain ⟨⟨location, entry⟩, hfound⟩ := exists_lookup_false hlookup
    have hsame := lookup_true_of_false hfound
      fun target htarget => hlink location target (htarget ▸ hfound)
    obtain ⟨rfl, rfl⟩ := Prod.mk.inj (Except.ok.inj (hlookup.symm.trans hsame))
    simp only [Cache.clean, Cache.sweep, hfiles, hexists, if_true, removeAll, hfound] at hok
    cases hfault : tree.callFault? cache.dir with
    | none =>
      simp only [hfault] at hok
      obtain rfl := congrArg Prod.snd (Except.ok.inj hok)
      exact ⟨cleared_eraseAll tree folder, h.tidy.eraseAll hhere,
        pathExists_eraseAll hlookup hroot⟩
    | some fault =>
      simp only [hfault] at hok
      cases hleft : pathExists (tree.eraseBelow folder) cache.dir with
      | true => simp [hleft] at hok
      | false =>
        simp only [hleft, Bool.false_eq_true, if_false] at hok
        obtain rfl := congrArg Prod.snd (Except.ok.inj hok)
        exact ⟨cleared_eraseBelow tree folder, h.tidy.eraseBelow hhere, hleft⟩
  refine ⟨htidy, hmissing, fun grown hgrown found henters location entry hbelow hsome => ?_⟩
  -- the directory would be made where it was, since no link stood in it
  have hagree := h.agree_of_grows hcleared hgrown
  obtain ⟨-, left, happroach⟩ := h.tidy.sound.enters_iff.1 h.enters
  obtain ⟨left', happroach'⟩ := henters.approach
  have hfound := approach_unique hagree happroach
    (by rwa [startOf, hgrown.here, hcleared.here] at happroach')
  obtain ⟨-, rfl⟩ := Prod.mk.inj hfound
  rcases hgrown.entry location with hsame | ⟨-, hdirectory⟩
  · rw [hsame] at hsome
    rcases hcleared.inside location hbelow with hgone | ⟨rfl, hleft⟩
    · rw [hgone] at hsome
      cases hsome
    · rw [hleft, (lookup_eq_ok_iff.1 hlookup).2] at hsome
      exact (Option.some.inj hsome).symm
  · exact Option.some.inj (hsome.symm.trans hdirectory)

/-! ### Keeping a record -/

section Keeping

variable {record : WorkRecord} {stored : FileTree}

theorem entryRecord?_text (htime : record.createdAt.InRange) :
    entryRecord? (some (.file record.text.toUTF8)) = some record := by
  rw [entryRecord?, Text.decode?_toUTF8, Option.bind_some, WorkRecord.parse?_text,
    Timestamp.parse?_text htime]
  rfl

/-- **Keeping a record**: it is the record of its work, and other work has the record it had. -/
theorem Lodged.store (h : cache.Lodged folder tree) (htime : record.createdAt.InRange)
    (hstore : cache.store tree record = (.ok (), stored)) :
    cache.Lodged folder stored ∧ cache.record? stored record.identity = some record ∧
      ∀ identity, recordName identity ≠ recordName record.identity →
        cache.record? stored identity = cache.record? tree identity := by
  obtain ⟨husable, -⟩ := exists_of_store_eq_ok h.tidy hstore
  obtain ⟨htemporary, hclear, rfl⟩ :=
    (h.store_cases hstore).resolve_left fun hfailed => hfailed.1 rfl
  have hentry := entry?_kept h.tidy h.directory htemporary hclear
  have hlodged : cache.Lodged folder (kept tree folder record) := by
    refine h.of_keeps (tidy_kept h.tidy h.directory htemporary hclear)
      (keeps_kept h.tidy h.directory htemporary hclear) rfl fun location target hlink => ?_
    rw [hentry] at hlink
    split at hlink
    · cases hlink
    split at hlink
    · cases hlink
    · exact hlink
  refine ⟨hlodged, ?_, fun identity hne => h.toHoused.record?_congr hlodged.toHoused (.of_eq ?_)⟩
  · rw [hlodged.record?_eq (isUsable_recordPath husable), hentry, if_pos rfl,
      entryRecord?_text htime]
    simp [Option.filter]
  · rw [hentry, if_neg (by simpa using hne), if_neg]
    simpa using recordName_ne_temporary identity record.identity

/-- **The first record** makes the directory, and there is no other one in it. -/
theorem Vacant.store (h : cache.Vacant tree) (htime : record.createdAt.InRange)
    (hstore : cache.store tree record = (.ok (), stored)) :
    ∃ folder, cache.Lodged folder stored ∧
      cache.record? stored record.identity = some record ∧
      ∀ identity, recordName identity ≠ recordName record.identity →
        cache.record? stored identity = none := by
  obtain ⟨-, made, folder, hcreate, henters, hmade⟩ := exists_of_store_eq_ok h.tidy hstore
  have htidy := h.tidy.createAll cache.dir
  have hgrows := (h.tidy.sound.createAll cache.dir).1
  rw [hcreate] at htidy hgrows
  have hempty := h.fresh made hgrows folder henters
  have hlodged : cache.Lodged folder made := by
    refine ⟨⟨htidy, henters, fun name target hlink => ?_⟩, fun location target hbelow hlink => ?_⟩
    · cases hempty _ _ (List.prefix_append folder [name]) hlink
    · cases hempty _ _ hbelow hlink
  obtain ⟨hafter, hrecord, hothers⟩ := hlodged.store htime hmade
  refine ⟨folder, hafter, hrecord, fun identity hne => (hothers identity hne).trans ?_⟩
  refine Option.eq_none_iff_forall_ne_some.2 fun found hfound => ?_
  obtain ⟨content, hfile, -⟩ := hlodged.exists_slot hfound
  cases hempty _ _ (List.prefix_append folder _) hfile

end Keeping

end Cache

end BuildMatrix
