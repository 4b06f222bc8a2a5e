import BuildMatrix.Proofs.RecordSlots

/-!
# What paths find

Three facts about looking up paths. What is found stays found when entries are added. Two spellings
of a path, which have the same components, find the same file: a `.` on the way and separators are
passed over, and only at the end do they ask for a directory. And what is found under a name is in
the directory that the rest of the path leads to.
-/

namespace BuildMatrix

namespace Path

/-! ### Components and names -/

/-- The name that a component stands for in the file tree; none for the root and a `.`. -/
def Component.part? : Component → Option String
  | .parent => some ".."
  | .normal name => some name
  | _ => none

/-- The names of a path but for each `.`, which leads nowhere. -/
def plainNames (path : Path) : List String := path.stemNames.filter (· ≠ ".")

theorem part?_component? (part : List Char) :
    (component? part).bind Component.part? =
      if part = [] ∨ part = ['.'] then none else some (String.ofList part) := by
  rw [component?.eq_def]
  split <;> simp_all [Component.part?]

theorem filter_namesOf (chars : List Char) :
    (namesOf chars).filter (· ≠ ".") =
      ((split '/' chars).filterMap component?).filterMap Component.part? := by
  have hcurrent : ∀ part : List Char, String.ofList part = "." ↔ part = ['.'] := fun part => by
    rw [← String.toList_inj, String.toList_ofList]
    rfl
  rw [namesOf, List.filterMap_filterMap]
  simp only [part?_component?]
  induction split '/' chars with
  | nil => rfl
  | cons part parts ih =>
    by_cases hempty : part = []
    · simpa [hempty] using ih
    by_cases hdot : part = ['.']
    · simpa [hdot, hcurrent] using ih
    · rw [List.filter_cons_of_pos (by simpa using hempty), List.map_cons,
        List.filter_cons_of_pos (by simpa [hcurrent] using hdot), ih]
      exact (List.filterMap_cons_some (by simp [hempty, hdot])).symm

/-- **The names of a path can be read off its components.** -/
theorem plainNames_eq (path : Path) :
    path.plainNames = path.components.filterMap Component.part? := by
  have hroot : [Component.root].filterMap Component.part? = [] := rfl
  have hhere : [Component.current].filterMap Component.part? = [] := rfl
  have hskip : ∀ part rest, component? part = none →
      (part :: rest).filterMap component? = rest.filterMap component? :=
    fun _ _ => List.filterMap_cons_none
  rw [plainNames, stemNames_eq, filter_namesOf, components, chars_eq, List.filterMap_append]
  by_cases habsolute : path.isAbsolute = true
  · obtain ⟨rest, hrest⟩ : ∃ rest, path.text.toList = '/' :: rest := by
      rw [isAbsolute, chars_eq, decide_eq_true_eq] at habsolute
      exact List.head?_eq_some_iff.1 habsolute
    have hsplit : split '/' ('/' :: rest) = [] :: split '/' rest := rfl
    simp [habsolute, headLength, hrest, hsplit, hskip, hroot, component?.eq_def []]
  by_cases hcurrent : path.startsAtCurrent = true
  · simp only [habsolute, hcurrent, headLength, if_true, Bool.false_eq_true, if_false, hhere,
      List.nil_append, Bool.or_true]
    rw [startsAtCurrent.eq_def, chars_eq] at hcurrent
    split at hcurrent
    · next htext => rw [htext]; rfl
    · next rest htext =>
        have hsplit : split '/' ('.' :: '/' :: rest) = ['.'] :: split '/' rest := rfl
        have hslash : split '/' ('/' :: rest) = [] :: split '/' rest := rfl
        rw [htext, hsplit, List.drop_one, List.tail_cons, hslash, hskip _ _ rfl, hskip _ _ rfl]
    · cases hcurrent
  · simp [habsolute, hcurrent, headLength]

theorem plainNames_child (dir : Path) {name : String} (hne : name ≠ "")
    (hname : '/' ∉ name.toList) :
    (dir.child name).plainNames = dir.plainNames ++ [name].filter (· ≠ ".") := by
  have hnil : name.toList ≠ [] := by simpa using hne
  rw [plainNames, stemNames_eq, text_child dir hname, String.toList_append, namesOf,
    split_stem dir hnil hname, List.map_append, List.filter_append]
  simp [plainNames, stemNames]

theorem isAbsolute_eq (path : Path) :
    path.isAbsolute = decide (path.components.head? = some .root) := by
  rw [components]
  by_cases habsolute : path.isAbsolute = true
  · simp [habsolute]
  by_cases hcurrent : path.startsAtCurrent = true
  · simp [habsolute, hcurrent]
  · simp only [habsolute, hcurrent, if_false, List.nil_append, Bool.false_eq_true]
    rw [eq_comm, decide_eq_false_iff_not]
    intro hroot
    obtain ⟨part, -, hpart⟩ := List.mem_filterMap.1 (List.mem_of_head? hroot)
    rw [component?.eq_def] at hpart
    split at hpart <;> cases hpart

theorem eq_of_same {path other : Path} (h : path.same other = true) :
    path.plainNames = other.plainNames ∧ path.isAbsolute = other.isAbsolute := by
  have hcomponents : path.components = other.components := of_decide_eq_true h
  rw [plainNames_eq, plainNames_eq, isAbsolute_eq, isAbsolute_eq, hcomponents]
  exact ⟨rfl, rfl⟩

end Path

namespace FileTree

variable {tree other : FileTree} {followLast : Bool} {path : Path} {location : Location}
  {entry : Entry} {found : Location}

/-! ### More entries -/

/-- Another tree has **all the entries** of a tree. -/
structure Extends (tree other : FileTree) : Prop where
  here : other.here = tree.here
  entry : ∀ location entry, tree.entry? location = some entry →
    other.entry? location = some entry

theorem Grows.extends (h : tree.Grows other) : tree.Extends other :=
  ⟨h.here, fun _ _ => h.entry?_eq⟩

namespace Extends

/-- A descent that goes on, or arrives at something, is the same. -/
theorem descend (h : tree.Extends other) (start : Location) (names : List String)
    (hfailed : ∀ error, FileTree.descend tree followLast start names ≠ .failed error)
    (harrived : ∀ location, FileTree.descend tree followLast start names = .arrived location →
      tree.entry? location ≠ none) :
    FileTree.descend other followLast start names =
      FileTree.descend tree followLast start names := by
  fun_induction FileTree.descend tree followLast start names with
  | case1 start => rfl
  | case2 start rest ih => simpa [FileTree.descend] using ih hfailed harrived
  | case3 start rest hcurrent ih => simpa [FileTree.descend] using ih hfailed harrived
  | case4 | case6 | case9 => exact absurd rfl (hfailed _)
  | case5 start name rest hcurrent hparent hlong hentry hrest =>
    exact absurd hentry (harrived _ rfl)
  | case7 start name rest hcurrent hparent hlong hentry ih =>
    simpa [FileTree.descend, hcurrent, hparent, hlong, h.entry _ _ hentry]
      using ih hfailed harrived
  | case8 start name rest hcurrent hparent hlong content hentry hrest =>
    simp [FileTree.descend, hcurrent, hparent, hlong, h.entry _ _ hentry, hrest]
  | case10 start name rest hcurrent hparent hlong target hentry hrest =>
    simp [FileTree.descend, hcurrent, hparent, hlong, h.entry _ _ hentry, hrest]
  | case11 start name rest hcurrent hparent hlong target hentry hrest =>
    simp [FileTree.descend, hcurrent, hparent, hlong, h.entry _ _ hentry, hrest]

/-- The way to something that is there is the same. -/
theorem follow (h : tree.Extends other) {links : Nat} {start : Location} {names : List String}
    (hfollow : FileTree.follow tree followLast links start names = .ok location)
    (hlocation : tree.entry? location ≠ none) :
    FileTree.follow other followLast links start names = .ok location := by
  induction links using Nat.strongRecOn generalizing start names with
  | ind links ih =>
    rcases follow_eq_ok_iff.1 hfollow with
      harrived | ⟨start', names', less, hredirected, rfl, hrest⟩
    · refine follow_eq_ok_iff.2 (.inl ?_)
      rw [h.descend start names (by simp [harrived]), harrived]
      intro found hfound
      rw [harrived] at hfound
      exact Descent.arrived.inj hfound ▸ hlocation
    · refine follow_eq_ok_iff.2
        (.inr ⟨start', names', less, ?_, rfl, ih less (Nat.lt_succ_self less) hrest⟩)
      rw [h.descend start names (by simp [hredirected]) (by simp [hredirected]), hredirected]

theorem lookup (h : tree.Extends other)
    (hlookup : tree.lookup followLast path = .ok (location, entry)) :
    other.lookup followLast path = .ok (location, entry) := by
  obtain ⟨hlocate, hentry⟩ := lookup_eq_ok_iff.1 hlookup
  obtain ⟨husable, hfollow⟩ := locate_eq_ok_iff.1 hlocate
  have hstart : other.startOf path = tree.startOf path := by rw [startOf, startOf, h.here]
  refine lookup_eq_ok_iff.2 ⟨locate_eq_ok_iff.2 ⟨husable, ?_⟩, h.entry _ _ hentry⟩
  rw [hstart]
  exact h.follow hfollow (by simp [hentry])

end Extends

/-- What is found when links are followed is **there** when the last one is not. -/
theorem exists_lookup_false (h : tree.lookup true path = .ok (location, entry)) :
    ∃ found, tree.lookup false path = .ok found := by
  obtain ⟨hlocate, hentry⟩ := lookup_eq_ok_iff.1 h
  obtain ⟨husable, hfollow⟩ := locate_eq_ok_iff.1 hlocate
  have hfound : ∀ location entry,
      follow tree false maxLinks (tree.startOf path) (parts path) = .ok location →
      tree.entry? location = some entry → ∃ found, tree.lookup false path = .ok found :=
    fun location entry hway hsome =>
      ⟨_, lookup_eq_ok_iff.2 ⟨locate_eq_ok_iff.2 ⟨husable, hway⟩, hsome⟩⟩
  rcases List.eq_nil_or_concat (parts path) with hnil | ⟨names, name, hparts⟩
  · rw [hnil] at hfollow hfound
    exact hfound location entry hfollow hentry
  rw [List.concat_eq_append] at hparts
  rw [hparts, follow_append] at hfollow hfound
  cases happroach : approach tree maxLinks (tree.startOf path) names with
  | error error => simp [happroach] at hfollow
  | ok place =>
    simp only [happroach] at hfollow hfound
    by_cases hcurrent : name = "."
    · rw [hcurrent, follow_current] at hfollow hfound
      exact hfound location entry hfollow hentry
    by_cases hparent : name = ".."
    · have habove : ∀ followLast, follow tree followLast place.1 place.2 [".."] =
          .ok place.2.dropLast := fun _ => follow_eq_ok_iff.2 (.inl rfl)
      rw [hparent, habove] at hfollow hfound
      exact hfound location entry hfollow hentry
    by_cases hlong : maxName < name.utf8ByteSize
    · rcases follow_eq_ok_iff.1 hfollow with harrived | ⟨_, _, _, hredirected, -, -⟩
      · simp [descend, hcurrent, hparent, hlong] at harrived
      · simp [descend, hcurrent, hparent, hlong] at hredirected
    have hname : IsName name := ⟨hcurrent, hparent, Nat.not_lt.1 hlong⟩
    cases hsome : tree.entry? (place.2 ++ [name]) with
    | some found => exact hfound _ _ (follow_last hname place.1 place.2 (by simp)) hsome
    | none =>
      rw [follow_last hname place.1 place.2 (by simp [hsome])] at hfollow
      obtain rfl := Except.ok.inj hfollow
      rw [hsome] at hentry
      cases hentry

theorem entry?_filter (tree : FileTree) (keeps : Location → Bool) (found : Location) :
    entry? { tree with entries := tree.entries.filter fun e => keeps e.1 } found =
      if found = [] ∨ keeps found = true then tree.entry? found else none := by
  by_cases hroot : found = []
  · subst hroot
    exact (if_pos (.inl rfl)).symm
  rw [entry?_of_ne_nil _ hroot, entry?_of_ne_nil _ hroot]
  split
  · next hkept => exact find?_filter (hkept.resolve_left hroot) tree.entries
  · next hdropped =>
      refine find?_eq_none fun e he heq => hdropped (.inr ?_)
      exact heq ▸ (List.mem_filter.1 he).2

theorem extends_filter (tree : FileTree) (keeps : Location → Bool) :
    Extends { tree with entries := tree.entries.filter fun e => keeps e.1 } tree where
  here := rfl
  entry found entry h := by
    rw [entry?_filter] at h
    split at h
    · exact h
    · cases h

theorem extends_eraseAll (tree : FileTree) (location : Location) :
    (tree.eraseAll location).Extends tree :=
  tree.extends_filter fun l => !location.isPrefixOf l

section Edit

variable {old : ByteArray}

theorem ne_nil_of_file (h : tree.entry? location = some (.file old)) : location ≠ [] := by
  rintro rfl
  cases h

theorem sameWays_insert_file (h : tree.entry? location = some (.file old)) (new : ByteArray) :
    tree.SameWays (tree.insert location (.file new)) := by
  intro found entry hfile
  rw [entry?_insert tree (ne_nil_of_file h)]
  split
  · next heq =>
      subst heq
      rw [h, Option.some.injEq, Option.some.injEq]
      exact ⟨fun heq => absurd heq.symm (hfile old), fun heq => absurd heq.symm (hfile new)⟩
  · exact Iff.rfl

theorem lookup_insert_file (h : tree.entry? location = some (.file old)) (new : ByteArray)
    (hlookup : tree.lookup followLast path = .ok (found, entry)) :
    (tree.insert location (.file new)).lookup followLast path =
      .ok (found, if found = location then .file new else entry) := by
  obtain ⟨hlocate, hentry⟩ := lookup_eq_ok_iff.1 hlookup
  refine lookup_eq_ok_iff.2 ⟨(sameWays_insert_file h new).locate rfl hlocate, ?_⟩
  rw [entry?_insert tree (ne_nil_of_file h)]
  split
  · rfl
  · exact hentry

theorem Tidy.insert_file (htidy : tree.Tidy) (h : tree.entry? location = some (.file old))
    (new : ByteArray) : (tree.insert location (.file new)).Tidy := by
  have hne := ne_nil_of_file h
  refine htidy.insert hne ?_ (by simp [h])
  refine htidy.sound.parent location.dropLast (location.getLast hne) ?_
  rw [List.dropLast_append_getLast, h]
  simp

end Edit

/-! ### Spellings -/

theorem filter_parts (path : Path) : (parts path).filter (· ≠ ".") = path.plainNames := by
  rcases parts_cases path with hparts | hparts <;> simp [hparts, Path.plainNames]

theorem directory_of_current (h : tree.Sound)
    (hlookup : tree.lookup followLast path = .ok (location, entry)) {names : List String}
    (hparts : parts path = names ++ ["."]) :
    entry = .directory ∧
      ∃ left, approach tree maxLinks (tree.startOf path) names = .ok (left, location) := by
  obtain ⟨hlocate, hentry⟩ := lookup_eq_ok_iff.1 hlookup
  obtain ⟨-, hfollow⟩ := locate_eq_ok_iff.1 hlocate
  rw [hparts, follow_append] at hfollow
  split at hfollow
  · next left dir happroach =>
      rw [follow_current] at hfollow
      obtain rfl : dir = location := Except.ok.inj hfollow
      have hdirectory := h.approach (h.entry?_startOf path) happroach
      exact ⟨Option.some.inj (hentry.symm.trans hdirectory), left, happroach⟩
  · cases hfollow

theorem exists_last (h : tree.Sound)
    (hlookup : tree.lookup followLast path = .ok (location, entry)) (hentry : entry ≠ .directory) :
    ∃ names name, parts path = names ++ [name] ∧ name ≠ "." := by
  rcases List.eq_nil_or_concat (parts path) with hnil | ⟨names, name, hparts⟩
  · obtain ⟨hlocate, hsome⟩ := lookup_eq_ok_iff.1 hlookup
    obtain ⟨-, hfollow⟩ := locate_eq_ok_iff.1 hlocate
    have hstart : follow tree followLast maxLinks (tree.startOf path) [] =
        .ok (tree.startOf path) := follow_eq_ok_iff.2 (.inl rfl)
    rw [hnil, hstart] at hfollow
    obtain rfl := Except.ok.inj hfollow
    exact absurd (Option.some.inj (hsome.symm.trans (h.entry?_startOf path))) hentry
  · rw [List.concat_eq_append] at hparts
    refine ⟨names, name, hparts, ?_⟩
    rintro rfl
    exact hentry (directory_of_current h hlookup hparts).1

/-- A spelling that **does not end in a `.`** finds what the path finds. -/
theorem lookup_of_spelling {spelling : Path} (hsame : spelling.same path = true)
    (hlookup : tree.lookup true path = .ok (location, entry)) {dirs names : List String}
    {last name : String} (hparts : parts path = dirs ++ [last]) (hlast : last ≠ ".")
    (husable : IsUsable spelling) (hspelled : parts spelling = names ++ [name])
    (hname : name ≠ ".") :
    tree.lookup true spelling = .ok (location, entry) := by
  obtain ⟨hnames, habsolute⟩ := Path.eq_of_same hsame
  obtain ⟨hlocate, hsome⟩ := lookup_eq_ok_iff.1 hlookup
  obtain ⟨-, hfollow⟩ := locate_eq_ok_iff.1 hlocate
  have hplain : names.filter (· ≠ ".") ++ [name] = dirs.filter (· ≠ ".") ++ [last] := by
    have hfilter := filter_parts spelling
    rw [hnames, ← filter_parts, hspelled, hparts, List.filter_append, List.filter_append] at hfilter
    simpa [hname, hlast] using hfilter
  obtain ⟨hdirs, hlasts⟩ := List.append_inj' hplain rfl
  obtain rfl : name = last := List.singleton_inj.1 hlasts
  refine lookup_eq_ok_iff.2 ⟨locate_eq_ok_iff.2 ⟨husable, ?_⟩, hsome⟩
  rw [hparts, follow_append] at hfollow
  rw [hspelled, follow_append, startOf, habsolute, approach_congr _ _ hdirs]
  exact hfollow

/-- **Spellings of a path find the same file**: a path that finds anything at all finds what another
with the same components finds, unless that is a directory. -/
theorem Sound.lookup_of_same (h : tree.Sound) {spelling : Path}
    (hsame : spelling.same path = true) (hlookup : tree.lookup true path = .ok (location, entry))
    (hentry : entry ≠ .directory) {found : Location × Entry}
    (hfound : tree.lookup followLast spelling = .ok found) :
    tree.lookup true spelling = .ok (location, entry) := by
  obtain ⟨dirs, last, hparts, hlast⟩ := exists_last h hlookup hentry
  have husable := (locate_eq_ok_iff.1 (lookup_eq_ok_iff.1 hfound).1).1
  obtain ⟨hnames, habsolute⟩ := Path.eq_of_same hsame
  have hplain : (parts spelling).filter (· ≠ ".") = dirs.filter (· ≠ ".") ++ [last] := by
    rw [filter_parts, hnames, ← filter_parts, hparts, List.filter_append]
    simp [hlast]
  rcases List.eq_nil_or_concat (parts spelling) with hnil | ⟨names, name, hspelled⟩
  · simp [hnil] at hplain
  rw [List.concat_eq_append] at hspelled
  by_cases hname : name = "."
  · -- a `.` at the end asks for a directory, and the way there is the way to the file
    subst hname
    obtain ⟨-, left, happroach⟩ := directory_of_current h hfound hspelled
    have hfilter : names.filter (· ≠ ".") = (dirs ++ [last]).filter (· ≠ ".") := by
      rw [hspelled] at hplain
      simpa [hlast] using hplain
    rw [approach_congr _ _ hfilter, startOf, habsolute] at happroach
    have hdirectory := h.approach (h.entry?_startOf path) happroach
    obtain ⟨hlocate, hsome⟩ := lookup_eq_ok_iff.1 hlookup
    have hway := follow_of_approach happroach
    rw [← startOf, ← hparts, (locate_eq_ok_iff.1 hlocate).2] at hway
    obtain rfl : location = found.1 := Except.ok.inj hway
    exact absurd (Option.some.inj (hsome.symm.trans hdirectory)) hentry
  · exact lookup_of_spelling hsame hlookup hparts hlast husable hspelled hname

/-- A name that a file system takes for an entry. -/
structure IsFileName (name : String) : Prop extends IsName name where
  ne_empty : name ≠ ""
  no_separator : '/' ∉ name.toList
  no_zero : '\x00' ∉ name.toList

instance (name : String) : Decidable (IsFileName name) :=
  decidable_of_iff (IsName name ∧ name ≠ "" ∧ '/' ∉ name.toList ∧ '\x00' ∉ name.toList)
    ⟨fun ⟨hname, hempty, hseparator, hzero⟩ => ⟨hname, hempty, hseparator, hzero⟩,
      fun h => ⟨h.toIsName, h.ne_empty, h.no_separator, h.no_zero⟩⟩

/-- A tree in which everything has **the name of a file**. -/
def Named (tree : FileTree) : Prop :=
  ∀ location name, tree.entry? (location ++ [name]) ≠ none → IsFileName name

theorem mem_keys {entry : Entry} (hne : location ≠ []) (h : tree.entry? location = some entry) :
    location ∈ tree.entries.map (·.1) := by
  rw [entry?_of_ne_nil _ hne] at h
  exact List.mem_map_of_mem (f := (·.1)) (mem_of_find?_eq_some h)

theorem named_of_keys
    (h : ∀ location ∈ tree.entries.map (·.1), ∀ name ∈ location, IsFileName name) :
    tree.Named := by
  intro location name hsome
  obtain ⟨entry, hentry⟩ := Option.ne_none_iff_exists'.1 hsome
  exact h _ (mem_keys (by simp) hentry) name (by simp)

variable {dir inner : Path} {name : String}

/-- A path leads to **a name in a directory**, which is spelled like another path. -/
structure InDir (inner dir : Path) (name : String) : Prop where
  isAbsolute : inner.isAbsolute = dir.isAbsolute
  parts : ∃ names, parts inner = names ++ [name] ∧ names.filter (· ≠ ".") = dir.plainNames

theorem inDir_child (dir : Path) (hne : name ≠ "") (hname : '/' ∉ name.toList) :
    InDir (dir.child name) dir name where
  isAbsolute := Path.isAbsolute_child dir hname
  parts := by
    refine ⟨dir.stemNames, ?_, rfl⟩
    have htext : dir.child name = ⟨dir.stem ++ name⟩ := by rw [← Path.text_child dir hname]
    rw [htext, parts_child dir hne hname]

theorem InDir.follow_eq (h : InDir inner dir name) :
    follow tree followLast maxLinks (tree.startOf inner) (FileTree.parts inner) =
      match approach tree maxLinks (tree.startOf dir) dir.stemNames with
      | .ok (left, found) => follow tree followLast left found [name]
      | .error error => .error error := by
  obtain ⟨names, hparts, hnames⟩ := h.parts
  have hstart : tree.startOf inner = tree.startOf dir := by rw [startOf, startOf, h.isAbsolute]
  rewrite [hparts, follow_append, hstart, approach_congr _ _ hnames]
  rfl

/-- The names in a directory are those under which something stands there. -/
theorem mem_childNames {location : Location} {name : String} :
    name ∈ tree.childNames location ↔ tree.entry? (location ++ [name]) ≠ none := by
  rw [entry?_of_ne_nil tree (by simp), childNames, List.mem_filterMap]
  constructor
  · rintro ⟨⟨key, entry⟩, hmem, hname⟩ hnone
    split at hname
    · next last hlast =>
        split at hname
        · next hdrop =>
            obtain rfl := Option.some.inj hname
            have hkey : key = location ++ [last] := by
              rw [← hdrop]
              exact (List.dropLast_append_getLast? last hlast).symm
            have hfind : ∀ entries : List (Location × Entry), (key, entry) ∈ entries →
                find? key entries ≠ none := by
              intro entries
              induction entries with
              | nil => simp
              | cons first rest ih =>
                intro hmem
                rw [find?]
                split
                · simp
                · next hne =>
                    refine ih ((List.mem_cons.1 hmem).resolve_left ?_)
                    rintro rfl
                    exact hne rfl
            exact hfind tree.entries hmem (hkey ▸ hnone)
        · cases hname
    · cases hname
  · intro hsome
    obtain ⟨entry, hentry⟩ := Option.ne_none_iff_exists'.1 hsome
    exact ⟨(location ++ [name], entry), mem_of_find?_eq_some hentry, by simp⟩

end FileTree

end BuildMatrix
