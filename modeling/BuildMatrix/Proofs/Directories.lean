import BuildMatrix.Proofs.RecordFiles

/-!
# The directories that paths lead into

A path leads into a directory if it is a way through directories, links followed; separators at its
end change nothing, and the empty path leads into the current directory. Such a directory need not
be made again, and after it was made the path leads into it.
-/

namespace BuildMatrix

/-! ### The names of paths -/

namespace Path

/-- The names between slashes. -/
def namesOf (chars : List Char) : List String :=
  ((split '/' chars).filter (· ≠ [])).map String.ofList

theorem namesOf_append (before after : List Char) :
    namesOf (before ++ '/' :: after) = namesOf before ++ namesOf after := by
  rw [namesOf, split, splitAfter_append, List.filter_append, List.map_append]
  rfl

theorem namesOf_append_separators (chars : List Char) {slashes : List Char}
    (h : ∀ c ∈ slashes, c = '/') : namesOf (chars ++ slashes) = namesOf chars := by
  induction slashes generalizing chars with
  | nil => rw [List.append_nil]
  | cons c slashes ih =>
    obtain ⟨rfl, hrest⟩ := List.forall_mem_cons.1 h
    have hnil : namesOf slashes = [] := by
      have := ih [] hrest
      rwa [List.nil_append] at this
    rw [namesOf_append, hnil, List.append_nil]

theorem stemNames_eq (path : Path) : path.stemNames = namesOf path.text.toList := by
  change namesOf path.stem.toList = _
  rw [stem]
  split
  · next hempty => rw [hempty]
  · split
    · rfl
    · rw [String.toList_append]
      exact namesOf_append_separators _ (by simp)

theorem isAbsolute_child (base : Path) {name : String} (hname : '/' ∉ name.toList) :
    (base.child name).isAbsolute = base.isAbsolute := by
  rw [isAbsolute, isAbsolute, chars_eq, chars_eq, text_child base hname, String.toList_append, stem]
  by_cases hempty : base.text = ""
  · have hhead : name.toList.head? ≠ some '/' := fun hhead => hname (List.mem_of_head? hhead)
    simpa [hempty] using hhead
  · have hne : base.text.toList ≠ [] := by simpa using hempty
    rw [if_neg hempty]
    split <;> simp [List.head?_append, List.head?_eq_some_head hne]

end Path

namespace FileTree

variable {tree other : FileTree} {followLast : Bool} {path : Path} {links : Nat}
  {start location : Location} {place : Nat × Location}

theorem parts_cases (path : Path) :
    parts path = path.stemNames ∨ parts path = path.stemNames ++ ["."] := by
  rw [Path.stemNames_eq, parts, Path.chars_eq]
  split
  · exact .inr rfl
  · exact .inl rfl

/-- A path is the path **without separators at its end**, and then separators. -/
theorem exists_withoutSlashes (path : Path) :
    ∃ slashes : List Char, (∀ c ∈ slashes, c = '/') ∧
      path.text.toList = (withoutSlashes path).text.toList ++ slashes ∧
      (path.text ≠ "" → (withoutSlashes path).text ≠ "") := by
  have hsplit : path.text.toList = (path.text.toList.reverse.dropWhile (· = '/')).reverse ++
      (path.text.toList.reverse.takeWhile (· = '/')).reverse := by
    rw [← List.reverse_append, List.takeWhile_append_dropWhile, List.reverse_reverse]
  have hslashes : ∀ c ∈ (path.text.toList.reverse.takeWhile (· = '/')).reverse, c = '/' := by
    intro c hc
    have hall := List.all_takeWhile (p := (· = '/')) (l := path.text.toList.reverse)
    rw [List.all_eq_true] at hall
    exact of_decide_eq_true (hall c (List.mem_reverse.1 hc))
  generalize hkept : (path.text.toList.reverse.dropWhile (· = '/')).reverse = kept at hsplit
  generalize (path.text.toList.reverse.takeWhile (· = '/')).reverse = slashes at hsplit hslashes
  rw [withoutSlashes, Path.chars_eq, hkept]
  split
  · next hempty =>
      -- of a path of separators one is left
      obtain rfl : kept = [] := by simpa using (Bool.and_eq_true_iff.1 hempty).1
      cases slashes with
      | nil => simp [hsplit] at hempty
      | cons c rest =>
        obtain ⟨rfl, hrest⟩ := List.forall_mem_cons.1 hslashes
        exact ⟨rest, hrest, hsplit, fun _ => by decide⟩
  · next hne =>
      refine ⟨slashes, hslashes, by rwa [String.toList_ofList], fun hpath hempty => hne ?_⟩
      have hnil : kept = [] := by simpa using congrArg String.toList hempty
      simpa [hnil] using hpath

theorem stemNames_withoutSlashes (path : Path) :
    (withoutSlashes path).stemNames = path.stemNames := by
  obtain ⟨slashes, hslashes, hchars, -⟩ := exists_withoutSlashes path
  rw [Path.stemNames_eq, Path.stemNames_eq, hchars, Path.namesOf_append_separators _ hslashes]

theorem IsUsable.withoutSlashes (h : IsUsable path) : IsUsable (withoutSlashes path) := by
  obtain ⟨slashes, -, hchars, hne⟩ := exists_withoutSlashes path
  have htext : path.text = (FileTree.withoutSlashes path).text ++ String.ofList slashes := by
    rw [← String.toList_inj, String.toList_append, String.toList_ofList, hchars]
  refine ⟨hne h.ne_empty, fun hzero => h.no_zero ?_, ?_⟩
  · rw [hchars]
    exact List.mem_append_left _ hzero
  · have := h.size_le
    rw [htext, String.utf8ByteSize_append] at this
    omega

theorem startOf_withoutSlashes (path : Path) :
    tree.startOf (withoutSlashes path) = tree.startOf path := by
  obtain ⟨slashes, -, hchars, hne⟩ := exists_withoutSlashes path
  have habsolute : (withoutSlashes path).isAbsolute = path.isAbsolute := by
    rw [Path.isAbsolute, Path.isAbsolute, Path.chars_eq, Path.chars_eq, hchars]
    by_cases hempty : path.text = ""
    · rw [hempty] at hchars
      obtain ⟨hnil, rfl⟩ := List.append_eq_nil_iff.1 hchars.symm
      rw [hnil, List.append_nil]
    · have hnil : (withoutSlashes path).text.toList ≠ [] := by simpa using hne hempty
      rw [List.head?_append, List.head?_eq_some_head hnil, Option.some_or]
  rw [startOf, startOf, habsolute]

/-! ### Ways through directories -/

theorem descend_eq_enterAll (start : Location) (names : List String)
    (hok : ∀ error, enterAll tree start names ≠ .failed error) :
    descend tree true start names = enterAll tree start names := by
  fun_induction enterAll tree start names with
  | case1 start => rfl
  | case2 start rest ih => simpa [descend] using ih hok
  | case3 start rest hcurrent ih => simpa [descend] using ih hok
  | case4 | case5 | case7 => exact absurd rfl (hok _)
  | case6 start name rest hcurrent hparent hlong hentry ih =>
    simpa [descend, hcurrent, hparent, hlong, hentry] using ih hok
  | case8 start name rest hcurrent hparent hlong target hentry =>
    simp [descend, hcurrent, hparent, hlong, hentry]

/-- A descent that arrives at a directory, or has to follow a link, **goes through directories**. -/
theorem enterAll_eq_descend (start : Location) (names : List String)
    (h : match descend tree followLast start names with
      | .arrived location => tree.entry? location = some .directory
      | .redirected .. => True
      | .failed _ => False) :
    enterAll tree start names = descend tree followLast start names := by
  fun_induction enterAll tree start names with
  | case1 start => rfl
  | case2 start rest ih => exact (ih (by simpa [descend] using h)).trans (by simp [descend])
  | case3 start rest _ ih => exact (ih (by simpa [descend] using h)).trans (by simp [descend])
  | case4 start name rest hcurrent hparent hlong =>
    simp [descend, hcurrent, hparent, hlong] at h
  | case5 start name rest hcurrent hparent hlong hentry =>
    cases hrest : rest.isEmpty <;> simp [descend, hcurrent, hparent, hlong, hentry, hrest] at h
  | case6 start name rest hcurrent hparent hlong hentry ih =>
    have heq : descend tree followLast start (name :: rest) =
        descend tree followLast (start ++ [name]) rest := by
      simp [descend, hcurrent, hparent, hlong, hentry]
    rw [heq] at h ⊢
    exact ih h
  | case7 start name rest hcurrent hparent hlong content hentry =>
    cases hrest : rest.isEmpty <;> simp [descend, hcurrent, hparent, hlong, hentry, hrest] at h
  | case8 start name rest hcurrent hparent hlong target hentry =>
    -- a link at the end that is not followed is no directory
    cases hlast : rest.isEmpty && !followLast with
    | true => simp [descend, hcurrent, hparent, hlong, hentry, hlast] at h
    | false => simp [descend, hcurrent, hparent, hlong, hentry, hlast]

theorem follow_of_approach {names : List String} (h : approach tree links start names = .ok place) :
    follow tree true links start names = .ok place.2 := by
  induction links using Nat.strongRecOn generalizing start names with
  | ind links ih =>
    rw [approach_eq_ok_iff] at h
    rw [follow_eq_ok_iff]
    rcases h with ⟨harrived, -⟩ | ⟨start', names', less, hredirected, rfl, h⟩
    · exact .inl ((descend_eq_enterAll _ _ (by simp [harrived])).trans harrived)
    · exact .inr ⟨start', names', less,
        (descend_eq_enterAll _ _ (by simp [hredirected])).trans hredirected, rfl,
        ih less (Nat.lt_succ_self less) h⟩

theorem approach_of_follow {names : List String}
    (h : follow tree true links start names = .ok location)
    (hdirectory : tree.entry? location = some .directory) :
    ∃ left, approach tree links start names = .ok (left, location) := by
  induction links using Nat.strongRecOn generalizing start names with
  | ind links ih =>
    rw [follow_eq_ok_iff] at h
    rcases h with harrived | ⟨start', names', less, hredirected, rfl, h⟩
    · exact ⟨links, approach_eq_ok_iff.2
        (.inl ⟨(enterAll_eq_descend _ _ (by simpa [harrived])).trans harrived, rfl⟩)⟩
    · obtain ⟨left, hleft⟩ := ih less (Nat.lt_succ_self less) h
      exact ⟨left, approach_eq_ok_iff.2 (.inr ⟨start', names', less,
        (enterAll_eq_descend _ _ (by simp [hredirected])).trans hredirected, rfl, hleft⟩)⟩

theorem enterAll_filter (start : Location) (names : List String) :
    match enterAll tree start names with
    | .redirected start' names' => ∃ others,
        enterAll tree start (names.filter (· ≠ ".")) = .redirected start' others ∧
          others.filter (· ≠ ".") = names'.filter (· ≠ ".")
    | descent => enterAll tree start (names.filter (· ≠ ".")) = descent := by
  fun_induction enterAll tree start names with
  | case1 start => rfl
  | case2 start rest ih => simpa using ih
  | case3 start rest hcurrent ih => simpa [enterAll] using ih
  | case4 start name rest hcurrent hparent hlong => simp [enterAll, hcurrent, hparent, hlong]
  | case5 start name rest hcurrent hparent hlong hentry =>
    simp [enterAll, hcurrent, hparent, hlong, hentry]
  | case6 start name rest hcurrent hparent hlong hentry ih =>
    simpa [enterAll, hcurrent, hparent, hlong, hentry] using ih
  | case7 start name rest hcurrent hparent hlong content hentry =>
    simp [enterAll, hcurrent, hparent, hlong, hentry]
  | case8 start name rest hcurrent hparent hlong target hentry =>
    simp [enterAll, hcurrent, hparent, hlong, hentry]

/-- Such descents end alike, or go on from the same place. -/
theorem enterAll_congr (start : Location) {names others : List String}
    (h : others.filter (· ≠ ".") = names.filter (· ≠ ".")) :
    enterAll tree start others = enterAll tree start names ∨
      ∃ start' names' others', enterAll tree start others = .redirected start' others' ∧
        enterAll tree start names = .redirected start' names' ∧
        others'.filter (· ≠ ".") = names'.filter (· ≠ ".") := by
  have hnames := @enterAll_filter tree start names
  have hothers := @enterAll_filter tree start others
  rw [h] at hothers
  cases hleft : enterAll tree start others with
  | redirected start' others' =>
    rw [hleft] at hothers
    obtain ⟨plain, hplain, hsame⟩ := hothers
    cases hright : enterAll tree start names with
    | redirected start'' names' =>
      rw [hright] at hnames
      obtain ⟨plain', hplain', hsame'⟩ := hnames
      obtain ⟨rfl, rfl⟩ := Descent.redirected.inj (hplain.symm.trans hplain')
      exact .inr ⟨start', names', others', rfl, rfl, hsame.symm.trans hsame'⟩
    | arrived | failed =>
      rw [hright] at hnames
      cases hplain.symm.trans hnames
  | arrived | failed =>
    rw [hleft] at hothers
    cases hright : enterAll tree start names with
    | redirected start'' names' =>
      rw [hright] at hnames
      obtain ⟨plain', hplain', -⟩ := hnames
      cases hothers.symm.trans hplain'
    | arrived | failed =>
      rw [hright] at hnames
      exact .inl (hothers.symm.trans hnames)

theorem approach_congr (links : Nat) (start : Location) {names others : List String}
    (h : others.filter (· ≠ ".") = names.filter (· ≠ ".")) :
    approach tree links start others = approach tree links start names := by
  induction links generalizing start names others
  all_goals
    rw [approach, approach]
    rcases @enterAll_congr tree start _ _ h with
      heq | ⟨start', names', others', hleft, hright, hsame⟩
    · rw [heq]
    rw [hleft, hright]
  case succ ih => exact ih start' hsame

theorem approach_parts (links : Nat) (start : Location) (path : Path) :
    approach tree links start (parts path) = approach tree links start path.stemNames := by
  rcases parts_cases path with heq | heq
  · rw [heq]
  · exact heq ▸ approach_congr links start (by simp)

theorem follow_current (links : Nat) (dir : Location) :
    follow tree followLast links dir ["."] = .ok dir :=
  follow_eq_ok_iff.2 (.inl rfl)

namespace Sound

theorem enterAll (h : tree.Sound) (names : List String)
    (hstart : tree.entry? start = some .directory) :
    match FileTree.enterAll tree start names with
    | .arrived location => tree.entry? location = some .directory
    | .redirected start' _ => tree.entry? start' = some .directory
    | .failed _ => True := by
  fun_induction FileTree.enterAll tree start names with
  | case1 start => exact hstart
  | case2 start rest ih => exact ih hstart
  | case3 start rest hcurrent ih => exact ih (h.dropLast hstart)
  | case4 | case5 | case7 => trivial
  | case6 start name rest hcurrent hparent hlong hentry ih => exact ih hentry
  | case8 start name rest hcurrent hparent hlong target hentry =>
    simp only
    split
    · exact entry?_nil tree
    · exact hstart

theorem approach (h : tree.Sound) {names : List String}
    (hstart : tree.entry? start = some .directory)
    (hplace : FileTree.approach tree links start names = .ok place) :
    tree.entry? place.2 = some .directory := by
  induction links using Nat.strongRecOn generalizing start names with
  | ind links ih =>
    have hdescent := h.enterAll names hstart
    rw [approach_eq_ok_iff] at hplace
    rcases hplace with ⟨harrived, -⟩ | ⟨start', names', less, hredirected, rfl, hplace⟩
    · rwa [harrived] at hdescent
    · rw [hredirected] at hdescent
      exact ih less (Nat.lt_succ_self less) hdescent hplace

theorem entry?_startOf (h : tree.Sound) (path : Path) :
    tree.entry? (tree.startOf path) = some .directory := by
  rw [startOf]
  split
  · exact entry?_nil tree
  · exact h.here

end Sound

/-! ### Leading into a directory -/

/-- A path **leads into a directory**; the empty path leads into the current one. -/
def Enters (tree : FileTree) (path : Path) (location : Location) : Prop :=
  if path.text = "" then location = tree.here
  else tree.lookup true path = .ok (location, .directory)

theorem Enters.unique {found : Location} (h : tree.Enters path location)
    (hfound : tree.Enters path found) : found = location := by
  rw [Enters] at h hfound
  split at h
  · next hempty => rw [if_pos hempty] at hfound; rw [h, hfound]
  · next hne =>
      rw [if_neg hne, h] at hfound
      exact (Prod.mk.inj (Except.ok.inj hfound)).1.symm

/-- A path leads into a directory exactly if it is a **way through directories**. -/
theorem Sound.enters_iff (h : tree.Sound) :
    tree.Enters path location ↔ (path.text = "" ∨ IsUsable path) ∧
      ∃ left, FileTree.approach tree maxLinks (tree.startOf path) path.stemNames =
        .ok (left, location) := by
  rw [Enters, ← approach_parts]
  split
  · next hempty =>
      obtain rfl : path = ⟨""⟩ := by
        cases path
        rw [← hempty]
      have happroach : FileTree.approach tree maxLinks (tree.startOf ⟨""⟩) (parts ⟨""⟩) =
          .ok (maxLinks, tree.here) := rfl
      simp [happroach, eq_comm]
  · next hne =>
      simp only [hne, false_or]
      rw [lookup_eq_ok_iff, locate_eq_ok_iff]
      constructor
      · rintro ⟨⟨husable, hfollow⟩, hentry⟩
        exact ⟨husable, approach_of_follow hfollow hentry⟩
      · rintro ⟨husable, left, happroach⟩
        exact ⟨⟨husable, follow_of_approach happroach⟩,
          h.approach (h.entry?_startOf path) happroach⟩

theorem Sound.entry?_of_enters (h : tree.Sound) (henters : tree.Enters path location) :
    tree.entry? location = some .directory := by
  obtain ⟨-, left, happroach⟩ := h.enters_iff.1 henters
  exact h.approach (h.entry?_startOf path) happroach

theorem Sound.enters_of_keeps {other : FileTree} (h : tree.Sound) (hother : other.Sound)
    (hkeeps : tree.Keeps other) (hhere : other.here = tree.here)
    (henters : tree.Enters path location) : other.Enters path location := by
  obtain ⟨husable, left, happroach⟩ := h.enters_iff.1 henters
  refine hother.enters_iff.2 ⟨husable, left, ?_⟩
  rw [startOf, hhere]
  exact approach_of_keeps hkeeps happroach

/-! ### Making directories -/

/-- A descent through directories to a link ends there if the link is not followed. -/
theorem descend_of_enterAll (start : Location) (names : List String) :
    match enterAll tree start names with
    | .arrived location => descend tree false start names = .arrived location
    | .redirected start' names' =>
      descend tree false start names = .redirected start' names' ∨
        ∃ location target, descend tree false start names = .arrived location ∧
          tree.entry? location = some (.link target)
    | .failed _ => True := by
  fun_induction enterAll tree start names with
  | case1 start => rfl
  | case2 start rest ih => simpa [descend] using ih
  | case3 start rest hcurrent ih => simpa [descend] using ih
  | case4 | case5 | case7 => trivial
  | case6 start name rest hcurrent hparent hlong hentry ih =>
    simpa [descend, hcurrent, hparent, hlong, hentry] using ih
  | case8 start name rest hcurrent hparent hlong target hentry =>
    cases rest with
    | nil =>
      refine .inr ⟨start ++ [name], target, ?_, hentry⟩
      simp [descend, hcurrent, hparent, hlong, hentry]
    | cons next rest =>
      refine .inl ?_
      simp [descend, hcurrent, hparent, hlong, hentry]

theorem exists_follow_of_approach {names : List String}
    (h : approach tree links start names = .ok place)
    (hdirectory : tree.entry? place.2 = some .directory) :
    ∃ location, follow tree false links start names = .ok location ∧
      tree.entry? location ≠ none := by
  induction links using Nat.strongRecOn generalizing start names with
  | ind links ih =>
    have hdescent := @descend_of_enterAll tree start names
    rw [approach_eq_ok_iff] at h
    rcases h with ⟨harrived, -⟩ | ⟨start', names', less, hredirected, rfl, h⟩
    · rw [harrived] at hdescent
      exact ⟨place.2, follow_eq_ok_iff.2 (.inl hdescent), by simp [hdirectory]⟩
    · rw [hredirected] at hdescent
      rcases hdescent with hsame | ⟨location, target, harrived, hlink⟩
      · obtain ⟨location, hlocation, hsome⟩ := ih less (Nat.lt_succ_self less) h
        exact ⟨location, follow_eq_ok_iff.2
          (.inr ⟨start', names', less, hsame, rfl, hlocation⟩), hsome⟩
      · exact ⟨location, follow_eq_ok_iff.2 (.inl harrived), by simp [hlink]⟩

/-- A descent to where nothing is leads into the directory that is made there. -/
theorem enterAll_of_made (h : tree.Sound) (hkeeps : tree.Keeps other) {names : List String}
    (hstart : tree.entry? start = some .directory)
    (harrived : descend tree false start names = .arrived location)
    (hnone : tree.entry? location = none) (hmade : other.entry? location = some .directory) :
    enterAll other start names = .arrived location := by
  fun_induction enterAll tree start names with
  | case1 start =>
    cases harrived
    rw [hstart] at hnone
    cases hnone
  | case2 start rest ih =>
    simpa [enterAll] using ih hstart (by simpa [descend] using harrived)
  | case3 start rest hcurrent ih =>
    simpa [enterAll] using ih (h.dropLast hstart) (by simpa [descend] using harrived)
  | case4 start name rest hcurrent hparent hlong =>
    simp [descend, hcurrent, hparent, hlong] at harrived
  | case5 start name rest hcurrent hparent hlong hentry =>
    cases rest with
    | nil =>
      obtain rfl : start ++ [name] = location := by
        simpa [descend, hcurrent, hparent, hlong, hentry] using harrived
      simp [enterAll, hcurrent, hparent, hlong, hmade]
    | cons next rest => simp [descend, hcurrent, hparent, hlong, hentry] at harrived
  | case6 start name rest hcurrent hparent hlong hentry ih =>
    have hkept := hkeeps _ _ hentry (by simp)
    simpa [enterAll, hcurrent, hparent, hlong, hkept] using
      ih hentry (by simpa [descend, hcurrent, hparent, hlong, hentry] using harrived)
  | case7 start name rest hcurrent hparent hlong content hentry =>
    simp only [descend, hcurrent, hparent, hlong, hentry, if_false] at harrived
    split at harrived <;> cases harrived
    simp [hentry] at hnone
  | case8 start name rest hcurrent hparent hlong target hentry =>
    simp only [descend, hcurrent, hparent, hlong, hentry, if_false] at harrived
    split at harrived <;> cases harrived
    simp [hentry] at hnone

theorem approach_of_made (h : tree.Sound) (hkeeps : tree.Keeps other) {names : List String}
    (hstart : tree.entry? start = some .directory)
    (hlocation : follow tree false links start names = .ok location)
    (hnone : tree.entry? location = none) (hmade : other.entry? location = some .directory) :
    ∃ left, approach other links start names = .ok (left, location) := by
  induction links using Nat.strongRecOn generalizing start names with
  | ind links ih =>
    rw [follow_eq_ok_iff] at hlocation
    rcases hlocation with harrived | ⟨start', names', less, hredirected, rfl, hlocation⟩
    · exact ⟨links, approach_eq_ok_iff.2
        (.inl ⟨enterAll_of_made h hkeeps hstart harrived hnone hmade, rfl⟩)⟩
    · have hstart' : (descend tree false start names).InDirectory tree := h.descend names hstart
      rw [hredirected] at hstart'
      obtain ⟨left, hleft⟩ := ih less (Nat.lt_succ_self less) hstart' hlocation
      have hsame := (enterAll_eq_descend _ _ (by simp [hredirected])).trans hredirected
      exact ⟨left, approach_eq_ok_iff.2 (.inr ⟨start', names', less,
        (enterAll_of_keeps hkeeps _ _ (by simp [hsame])).trans hsame, rfl, hleft⟩)⟩

namespace Sound

variable {made : FileTree}

/-- **A directory that is there need not be made.** -/
theorem createAll_of_enters (h : tree.Sound) (henters : tree.Enters path location) :
    tree.createAll path = (.ok (), tree) := by
  by_cases hempty : path.text = ""
  · have hfuel : path.text.length = 0 := by rw [hempty]; rfl
    rw [FileTree.createAll, hfuel, FileTree.createAllWithin, if_pos hempty]
  have hlookup : tree.lookup true path = .ok (location, .directory) := by
    rwa [Enters, if_neg hempty] at henters
  have hdirectory : tree.isDirectory path = true := by rw [isDirectory, hlookup]
  obtain ⟨husable, left, happroach⟩ := h.enters_iff.1 henters
  replace husable := husable.resolve_left hempty
  obtain ⟨found, hfound, hsome⟩ : ∃ found, tree.locate false (withoutSlashes path) = .ok found ∧
      tree.entry? found ≠ none := by
    have hentry := h.approach (h.entry?_startOf path) happroach
    simp only [locate_eq_ok_iff, startOf_withoutSlashes, husable.withoutSlashes, true_and]
    rcases parts_cases (withoutSlashes path) with hparts | hparts <;>
      rw [hparts, stemNames_withoutSlashes]
    · exact exists_follow_of_approach happroach hentry
    · refine ⟨location, ?_, by simp [hentry]⟩
      rw [follow_append, happroach]
      exact follow_current left location
  obtain ⟨entry, hentry⟩ := Option.ne_none_iff_exists'.1 hsome
  have hcreate : tree.createDirectory path = .error .alreadyExists := by
    rw [FileTree.createDirectory, hfound]
    simp only [hentry]
  have hlacks : tree.lacksParent path = false := by rw [lacksParent, hcreate]
  have hensure : tree.ensureDirectory path = (.ok (), tree) := by
    rw [FileTree.ensureDirectory, hcreate]
    simp only [hdirectory, if_true]
  rw [FileTree.createAll]
  cases path.text.length with
  | zero => rw [FileTree.createAllWithin, if_neg hempty, hensure]
  | succ fuel =>
    rw [FileTree.createAllWithin, if_neg hempty, hlacks, hensure]
    rfl

theorem createAllWithin_eq_ok (h : tree.Sound) {fuel : Nat}
    (hmade : FileTree.createAllWithin fuel tree path = (.ok (), made)) (hne : path.text ≠ "") :
    ∃ before : FileTree, before.Sound ∧ before.ensureDirectory path = (.ok (), made) := by
  cases fuel with
  | zero =>
    rw [FileTree.createAllWithin, if_neg hne] at hmade
    exact ⟨tree, h, hmade⟩
  | succ fuel =>
    rw [FileTree.createAllWithin, if_neg hne] at hmade
    split at hmade
    · split at hmade
      · cases hmade
      · next parent _ =>
          have hsound := (h.createAllWithin fuel parent).2
          split at hmade
          · cases hmade
          · next before hbefore =>
              rw [hbefore] at hsound
              exact ⟨before, hsound, hmade⟩
    · exact ⟨tree, h, hmade⟩

/-- A path leads into the directory that was made for it. -/
theorem enters_createDirectory (h : tree.Sound) (hmade : tree.createDirectory path = .ok made)
    (husable : IsUsable path) : ∃ location, made.Enters path location := by
  obtain ⟨hgrows, hsound⟩ := h.createDirectory hmade
  rw [FileTree.createDirectory] at hmade
  split at hmade
  · cases hmade
  next location hlocation =>
  split at hmade
  · cases hmade
  next hnone =>
  have hroot : location ≠ [] := by
    rintro rfl
    simp at hnone
  have hdirectory : made.entry? location = some .directory := by
    rw [← Except.ok.inj hmade, entry?_insert _ hroot, if_pos rfl]
  have hfollow := (locate_eq_ok_iff.1 hlocation).2
  rw [startOf_withoutSlashes] at hfollow
  refine ⟨location, hsound.enters_iff.2 ⟨.inr husable, ?_⟩⟩
  rw [startOf, hgrows.here]
  rcases parts_cases (withoutSlashes path) with hparts | hparts <;>
    rw [hparts, stemNames_withoutSlashes] at hfollow
  · exact approach_of_made h hgrows.keeps (h.entry?_startOf path) hfollow hnone hdirectory
  · -- a path of separators leads to the root, which is there
    cases happroach : FileTree.approach tree maxLinks (tree.startOf path) path.stemNames with
    | error error => simp [follow_append, happroach] at hfollow
    | ok place =>
      have hplace := h.approach (h.entry?_startOf path) happroach
      rw [follow_append, happroach] at hfollow
      obtain rfl : place.2 = location :=
        Except.ok.inj ((follow_current place.1 place.2).symm.trans hfollow)
      rw [hnone] at hplace
      cases hplace

/-- **What was made is a directory**, if separators at its end do not make the path too long. -/
theorem enters_createAll (h : tree.Sound) (hmade : tree.createAll path = (.ok (), made))
    (husable : IsUsable (withoutSlashes path) → path.text = "" ∨ IsUsable path) :
    ∃ location, made.Enters path location := by
  by_cases hempty : path.text = ""
  · exact ⟨made.here, by rw [Enters, if_pos hempty]⟩
  obtain ⟨before, hbefore, hensure⟩ := h.createAllWithin_eq_ok hmade hempty
  rw [FileTree.ensureDirectory] at hensure
  split at hensure
  · next found hcreate =>
      obtain rfl : found = made := (Prod.mk.inj hensure).2
      obtain ⟨location, hlocation⟩ : ∃ location,
          before.locate false (withoutSlashes path) = .ok location := by
        rw [FileTree.createDirectory] at hcreate
        split at hcreate
        · cases hcreate
        · next location hlocation => exact ⟨location, hlocation⟩
      exact hbefore.enters_createDirectory hcreate
        ((husable (locate_eq_ok_iff.1 hlocation).1).resolve_left hempty)
  · next error hcreate =>
      split at hensure
      · next hdirectory =>
          obtain rfl : before = made := (Prod.mk.inj hensure).2
          rw [isDirectory] at hdirectory
          split at hdirectory
          · next location hlookup => exact ⟨location, by rw [Enters, if_neg hempty, hlookup]⟩
          · cases hdirectory
      · cases hensure

end Sound

end FileTree

end BuildMatrix
