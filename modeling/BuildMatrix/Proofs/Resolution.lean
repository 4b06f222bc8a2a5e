import BuildMatrix.Proofs.TreeChanges

/-!
# Where paths lead

The way to something in a directory is the way to the directory and then one more name. The way
through directories, links followed, is computed by `FileTree.approach`; everything about paths
whose last part is a plain name follows from it.
-/

namespace BuildMatrix.FileTree

variable {links : Nat} {start location : Location} {path : Path} {place : Nat × Location}

/-- A name that leads from a directory to something in it. -/
structure IsName (name : String) : Prop where
  ne_current : name ≠ "."
  ne_parent : name ≠ ".."
  size_le : name.utf8ByteSize ≤ maxName

instance (name : String) : Decidable (IsName name) :=
  decidable_of_iff (name ≠ "." ∧ name ≠ ".." ∧ name.utf8ByteSize ≤ maxName)
    ⟨fun ⟨hcurrent, hparent, hsize⟩ => ⟨hcurrent, hparent, hsize⟩,
      fun h => ⟨h.ne_current, h.ne_parent, h.size_le⟩⟩

/-! ### The way through directories -/

/-- Descend along names that all have to be directories, until a link has to be followed. -/
def enterAll (tree : FileTree) (start : Location) : List String → Descent
  | [] => .arrived start
  | name :: rest =>
    if name = "." then enterAll tree start rest
    else if name = ".." then enterAll tree start.dropLast rest
    else if maxName < name.utf8ByteSize then .failed .nameTooLong
    else
      match tree.entry? (start ++ [name]) with
      | none => .failed .notFound
      | some .directory => enterAll tree (start ++ [name]) rest
      | some (.file _) => .failed .notDirectory
      | some (.link target) =>
        .redirected (if target.toList.head? = some '/' then [] else start)
          (parts ⟨target⟩ ++ rest)

/-- **The directory that names lead to**, with the number of links that may still be followed. -/
def approach (tree : FileTree) : Nat → Location → List String → Except OsError (Nat × Location)
  | links, start, names =>
    match enterAll tree start names with
    | .arrived location => .ok (links, location)
    | .failed error => .error error
    | .redirected start names =>
      match links with
      | 0 => .error .tooManyLinks
      | links + 1 => approach tree links start names

variable {tree other : FileTree} {followLast : Bool}

/-- A descent to something in a directory enters the directory first. -/
theorem descend_append (start : Location) (names : List String) (name : String) :
    descend tree followLast start (names ++ [name]) =
      match enterAll tree start names with
      | .arrived dir => descend tree followLast dir [name]
      | .redirected start names => .redirected start (names ++ [name])
      | .failed error => .failed error := by
  induction names generalizing start with
  | nil => rfl
  | cons first names ih =>
    have hrest : (names ++ [name]).isEmpty = false := by simp
    rw [List.cons_append, descend, enterAll]
    by_cases hcurrent : first = "."
    · simp only [hcurrent, if_true, ih]
    by_cases hparent : first = ".."
    · simp only [hparent, if_true, ih]
      rfl
    by_cases hlong : maxName < first.utf8ByteSize
    · simp only [hcurrent, hparent, hlong, if_true, if_false]
    simp only [hcurrent, hparent, hlong, if_false]
    rcases tree.entry? (start ++ [first]) with _ | _ | _ | target
    · simp [hrest]
    · simp [hrest]
    · exact ih _
    · simp [hrest]

/-- **The way to something in a directory** is the way to the directory and one more name. -/
theorem follow_append (links : Nat) (start : Location) (names : List String) (name : String) :
    follow tree followLast links start (names ++ [name]) =
      match approach tree links start names with
      | .ok (left, dir) => follow tree followLast left dir [name]
      | .error error => .error error := by
  induction links generalizing start names with
  | zero =>
    rw [follow, approach, descend_append]
    cases enterAll tree start names with
    | arrived dir =>
      simp only
      rw [follow]
    | redirected start names => rfl
    | failed error => rfl
  | succ links ih =>
    rw [follow, approach, descend_append]
    cases enterAll tree start names with
    | arrived dir =>
      simp only
      rw [follow]
    | redirected start names => exact ih start names
    | failed error => rfl

theorem follow_eq_ok_iff {names : List String} :
    follow tree followLast links start names = .ok location ↔
      descend tree followLast start names = .arrived location ∨
      ∃ start' names' less, descend tree followLast start names = .redirected start' names' ∧
        links = less + 1 ∧ follow tree followLast less start' names' = .ok location := by
  rw [follow.eq_def]
  cases hdescend : descend tree followLast start names with
  | arrived location => simp [hdescend]
  | failed error => simp [hdescend]
  | redirected start' names' => cases links <;> simp [hdescend]

theorem descend_last {name : String} (hname : IsName name) (dir : Location)
    (h : followLast = true → ∀ target, tree.entry? (dir ++ [name]) ≠ some (.link target)) :
    descend tree followLast dir [name] = .arrived (dir ++ [name]) := by
  rw [descend]
  simp only [hname.ne_current, hname.ne_parent, Nat.not_lt.2 hname.size_le, if_false]
  cases hentry : tree.entry? (dir ++ [name]) with
  | none => rfl
  | some entry =>
    cases entry with
    | file content => rfl
    | directory => rfl
    | link target =>
      cases followLast with
      | false => rfl
      | true => exact absurd hentry (h rfl target)

theorem follow_last {name : String} (hname : IsName name) (links : Nat) (dir : Location)
    (h : followLast = true → ∀ target, tree.entry? (dir ++ [name]) ≠ some (.link target)) :
    follow tree followLast links dir [name] = .ok (dir ++ [name]) :=
  follow_eq_ok_iff.2 (.inl (descend_last hname dir h))

/-! ### Paths -/

/-- A path that reaches the operating system and is not too long for it. -/
structure IsUsable (path : Path) : Prop where
  ne_empty : path.text ≠ ""
  no_zero : '\x00' ∉ path.text.toList
  size_le : path.text.utf8ByteSize ≤ maxPath

/-- Where the way of a path starts. -/
def startOf (tree : FileTree) (path : Path) : Location :=
  if path.isAbsolute then [] else tree.here

/-- A usable path leads where its names lead. -/
theorem locate_eq_ok_iff :
    tree.locate followLast path = .ok location ↔
      IsUsable path ∧
        follow tree followLast maxLinks (tree.startOf path) (parts path) = .ok location := by
  rw [locate, Path.chars_eq]
  by_cases hempty : path.text = ""
  · simp only [hempty, if_true, reduceCtorEq, false_iff, not_and]
    exact fun husable => absurd hempty husable.ne_empty
  by_cases hzero : '\x00' ∈ path.text.toList
  · simp only [hempty, if_false]
    rw [if_pos (by simpa using hzero)]
    simp only [reduceCtorEq, false_iff, not_and]
    exact fun husable => absurd hzero husable.no_zero
  by_cases hlong : maxPath < path.text.utf8ByteSize
  · simp only [hempty, if_false, hlong, if_true]
    rw [if_neg (by simpa using hzero)]
    simp only [reduceCtorEq, false_iff, not_and]
    exact fun husable => absurd hlong (Nat.not_lt.2 husable.size_le)
  · simp only [hempty, if_false, hlong]
    rw [if_neg (by simpa using hzero)]
    exact ⟨fun h => ⟨⟨hempty, hzero, Nat.not_lt.1 hlong⟩, h⟩, fun h => h.2⟩

theorem lookup_eq_ok_iff {entry : Entry} :
    tree.lookup followLast path = .ok (location, entry) ↔
      tree.locate followLast path = .ok location ∧ tree.entry? location = some entry := by
  rw [lookup]
  cases tree.locate followLast path with
  | error error => simp
  | ok found =>
    cases hentry : tree.entry? found with
    | none =>
      simp only [hentry, reduceCtorEq, Except.ok.injEq, false_iff, not_and]
      rintro rfl
      simp [hentry]
    | some other =>
      simp only [hentry, Except.ok.injEq, Prod.mk.injEq]
      refine and_congr_right fun heq => ?_
      rw [← heq, hentry, Option.some.injEq]

section Child

variable {path : Path} {names : List String} {name : String}

theorem locate_child_iff (hparts : parts path = names ++ [name]) (hname : IsName name) :
    tree.locate false path = .ok location ↔
      IsUsable path ∧ ∃ place, approach tree maxLinks (tree.startOf path) names = .ok place ∧
        location = place.2 ++ [name] := by
  rw [locate_eq_ok_iff, hparts, follow_append]
  refine and_congr_right fun _ => ?_
  cases approach tree maxLinks (tree.startOf path) names with
  | error error => simp
  | ok place => simp [follow_last hname, eq_comm]

theorem locate_child_of_no_link (hparts : parts path = names ++ [name]) (hname : IsName name)
    (hlocation : tree.locate true path = .ok location) :
    ∃ place, approach tree maxLinks (tree.startOf path) names = .ok place ∧
      ((∀ target, tree.entry? (place.2 ++ [name]) ≠ some (.link target)) →
        location = place.2 ++ [name]) := by
  rw [locate_eq_ok_iff, hparts, follow_append] at hlocation
  cases hplace : approach tree maxLinks (tree.startOf path) names with
  | error error => simp [hplace] at hlocation
  | ok place =>
    refine ⟨place, rfl, fun hlink => ?_⟩
    simp only [hplace, follow_last hname place.1 place.2 fun _ => hlink] at hlocation
    exact (Except.ok.inj hlocation.2).symm

theorem withoutSlashes_eq (h : path.text.toList.getLast? ≠ some '/') :
    withoutSlashes path = path := by
  have hkept : path.text.toList.reverse.dropWhile (· = '/') = path.text.toList.reverse := by
    rw [List.getLast?_eq_head?_reverse] at h
    cases hchars : path.text.toList.reverse with
    | nil => rfl
    | cons c rest =>
      rw [hchars, List.head?_cons] at h
      exact List.dropWhile_cons_of_neg (by simpa using h)
  simp only [withoutSlashes, Path.chars_eq, hkept, List.reverse_reverse, String.ofList_toList]
  rw [if_neg (by simp)]

theorem write_eq_ok {content : ByteArray} {written : FileTree}
    (h : tree.write path content = .ok written) :
    ∃ location, tree.locate true (withoutSlashes path) = .ok location ∧
      tree.entry? location ≠ some .directory ∧
      (∀ target, tree.entry? location ≠ some (.link target)) ∧
      written = tree.insert location (.file content) := by
  rw [write, fileSlot] at h
  cases hlocate : tree.locate true (withoutSlashes path) with
  | error error => simp [hlocate] at h
  | ok location =>
    refine ⟨location, rfl, ?_⟩
    cases hasks : asksDirectory path with
    | true => cases hentry : tree.entry? location <;> grind
    | false =>
      cases hentry : tree.entry? location with
      | none => simpa [hlocate, hentry, hasks, eq_comm] using h
      | some entry =>
        cases entry with
        | file old => simpa [hlocate, hentry, hasks, eq_comm] using h
        | directory => simp [hlocate, hentry] at h
        | link target => simp [hlocate, hentry] at h

end Child

/-! ### The same way in another tree -/

/-- Another tree **keeps** the directories and links of a tree. -/
def Keeps (tree other : FileTree) : Prop :=
  ∀ location entry, tree.entry? location = some entry → (∀ content, entry ≠ .file content) →
    other.entry? location = some entry

/-- Two trees **agree** on directories and links: where both have one, it is the same. -/
def Agree (tree other : FileTree) : Prop :=
  ∀ location entry entry', tree.entry? location = some entry → (∀ content, entry ≠ .file content) →
    other.entry? location = some entry' → (∀ content, entry' ≠ .file content) → entry = entry'

theorem Grows.keeps (h : tree.Grows other) : tree.Keeps other :=
  fun _ _ hentry _ => h.entry?_eq hentry

theorem Keeps.insert (hne : location ≠ []) (hdirectory : tree.entry? location ≠ some .directory)
    (hlink : ∀ target, tree.entry? location ≠ some (.link target)) (entry : Entry) :
    tree.Keeps (tree.insert location entry) := by
  intro other kept hkept hfile
  rw [entry?_insert tree hne, if_neg]
  · exact hkept
  · rintro rfl
    cases kept with
    | file content => exact hfile content rfl
    | directory => exact hdirectory hkept
    | link target => exact hlink target hkept

/-- A descent that does not fail stays the same. -/
theorem enterAll_of_keeps (h : tree.Keeps other) (start : Location) (names : List String)
    (hok : ∀ error, enterAll tree start names ≠ .failed error) :
    enterAll other start names = enterAll tree start names := by
  induction names generalizing start with
  | nil => rfl
  | cons name names ih =>
    simp only [enterAll] at hok ⊢
    split
    · next hcurrent => exact ih _ (by simpa [hcurrent] using hok)
    split
    · next hcurrent hparent => exact ih _ (by simpa [hcurrent, hparent] using hok)
    split
    · rfl
    simp only [*, if_false] at hok
    cases hentry : tree.entry? (start ++ [name]) with
    | none => simp [hentry] at hok
    | some entry =>
      cases entry with
      | file content => simp [hentry] at hok
      | directory =>
        rw [h _ _ hentry (by simp)]
        exact ih _ (by simpa [hentry] using hok)
      | link target => rw [h _ _ hentry (by simp)]

/-- Two descents that do not fail are the same. -/
theorem enterAll_unique (h : tree.Agree other) (start : Location) (names : List String)
    (hok : ∀ error, enterAll tree start names ≠ .failed error)
    (hok' : ∀ error, enterAll other start names ≠ .failed error) :
    enterAll other start names = enterAll tree start names := by
  induction names generalizing start with
  | nil => rfl
  | cons name names ih =>
    simp only [enterAll] at hok hok' ⊢
    split
    · next hcurrent => exact ih _ (by simpa [hcurrent] using hok) (by simpa [hcurrent] using hok')
    split
    · next hcurrent hparent =>
        exact ih _ (by simpa [hcurrent, hparent] using hok)
          (by simpa [hcurrent, hparent] using hok')
    split
    · rfl
    simp only [*, if_false] at hok hok'
    cases hentry : tree.entry? (start ++ [name]) with
    | none => simp [hentry] at hok
    | some entry =>
      cases hentry' : other.entry? (start ++ [name]) with
      | none => simp [hentry'] at hok'
      | some entry' =>
        have hsame := h _ entry entry' hentry
        cases entry with
        | file content => simp [hentry] at hok
        | directory =>
          cases entry' with
          | file content => simp [hentry'] at hok'
          | directory =>
            exact ih _ (by simpa [hentry] using hok) (by simpa [hentry'] using hok')
          | link target => cases hsame (by simp) hentry' (by simp)
        | link target =>
          cases entry' with
          | file content => simp [hentry'] at hok'
          | directory => cases hsame (by simp) hentry' (by simp)
          | link target' => cases hsame (by simp) hentry' (by simp); rfl

theorem approach_eq_ok_iff {names : List String} :
    approach tree links start names = .ok place ↔
      enterAll tree start names = .arrived place.2 ∧ links = place.1 ∨
      ∃ start' names' less, enterAll tree start names = .redirected start' names' ∧
        links = less + 1 ∧ approach tree less start' names' = .ok place := by
  obtain ⟨left, dir⟩ := place
  rw [approach.eq_def]
  cases henter : enterAll tree start names with
  | arrived location => simp [henter, and_comm]
  | failed error => simp [henter]
  | redirected start' names' => cases links <;> simp [henter]

theorem approach_of_keeps (h : tree.Keeps other) {names : List String}
    (hplace : approach tree links start names = .ok place) :
    approach other links start names = .ok place := by
  induction links using Nat.strongRecOn generalizing start names with
  | ind links ih =>
    rw [approach_eq_ok_iff] at hplace ⊢
    rcases hplace with ⟨harrived, hlinks⟩ | ⟨start', names', less, hredirected, rfl, hplace⟩
    · exact .inl ⟨(enterAll_of_keeps h _ _ (by simp [harrived])).trans harrived, hlinks⟩
    · exact .inr ⟨start', names', less,
        (enterAll_of_keeps h _ _ (by simp [hredirected])).trans hredirected, rfl,
        ih less (Nat.lt_succ_self less) hplace⟩

/-- **The way is the same** in two trees that agree, if both have one. -/
theorem approach_unique (h : tree.Agree other) {names : List String} {place' : Nat × Location}
    (hplace : approach tree links start names = .ok place)
    (hplace' : approach other links start names = .ok place') : place' = place := by
  induction links using Nat.strongRecOn generalizing start names with
  | ind links ih =>
    have hsame : enterAll other start names = enterAll tree start names := by
      refine enterAll_unique h _ _ (fun error hfailed => ?_) fun error hfailed => ?_
      · rw [approach_eq_ok_iff] at hplace
        simp [hfailed] at hplace
      · rw [approach_eq_ok_iff] at hplace'
        simp [hfailed] at hplace'
    rw [approach_eq_ok_iff] at hplace hplace'
    rw [hsame] at hplace'
    rcases hplace with ⟨harrived, hlinks⟩ | ⟨start', names', less, hredirected, rfl, hplace⟩
    · simp only [harrived, Descent.arrived.injEq, reduceCtorEq, false_and, exists_const,
        or_false] at hplace'
      exact Prod.ext (hplace'.2.symm.trans hlinks) hplace'.1.symm
    · simp only [hredirected, reduceCtorEq, false_and, Descent.redirected.injEq,
        false_or] at hplace'
      obtain ⟨_, _, _, ⟨rfl, rfl⟩, hless, hplace'⟩ := hplace'
      cases hless
      exact ih less (Nat.lt_succ_self less) hplace hplace'

/-- Two trees have the **same ways** if they have the same directories and links. -/
def SameWays (tree other : FileTree) : Prop :=
  ∀ location entry, (∀ content, entry ≠ .file content) →
    (tree.entry? location = some entry ↔ other.entry? location = some entry)

namespace SameWays

/-- A descent that does not fail is the same along the same ways. -/
theorem descend (h : tree.SameWays other) (start : Location) (names : List String)
    (hok : ∀ error, FileTree.descend tree followLast start names ≠ .failed error) :
    FileTree.descend other followLast start names =
      FileTree.descend tree followLast start names := by
  induction names generalizing start with
  | nil => rfl
  | cons name names ih =>
    by_cases hcurrent : name = "."
    · simp only [FileTree.descend, hcurrent, if_true] at hok ⊢
      exact ih _ hok
    by_cases hparent : name = ".."
    · simp only [FileTree.descend, hparent, if_true] at hok ⊢
      exact ih _ hok
    by_cases hlong : maxName < name.utf8ByteSize
    · simp [FileTree.descend, hcurrent, hparent, hlong] at hok
    have hname : IsName name := ⟨hcurrent, hparent, Nat.not_lt.1 hlong⟩
    -- where one tree has no way, neither has the other, and both descents end
    have hend : (∀ entry, (∀ content, entry ≠ .file content) →
        tree.entry? (start ++ [name]) ≠ some entry) → names = [] →
        FileTree.descend other followLast start (name :: names) =
          FileTree.descend tree followLast start (name :: names) := by
      rintro hdead rfl
      rw [descend_last hname start fun _ target => hdead _ (by simp),
        descend_last hname start fun _ target hlink =>
          hdead _ (by simp) ((h _ _ (by simp)).2 hlink)]
    cases hentry : tree.entry? (start ++ [name]) with
    | none =>
      refine hend (by simp [hentry]) ?_
      by_contra hne
      simp [FileTree.descend, hcurrent, hparent, hlong, hentry, hne] at hok
    | some entry =>
      cases entry with
      | file content =>
        refine hend (fun entry hfile heq => hfile content ?_) ?_
        · exact (Option.some.inj (hentry.symm.trans heq)).symm
        · by_contra hne
          simp [FileTree.descend, hcurrent, hparent, hlong, hentry, hne] at hok
      | directory =>
        have hentry' := (h _ _ (by simp)).1 hentry
        simp only [FileTree.descend, hcurrent, hparent, hlong, hentry, hentry',
          if_false] at hok ⊢
        exact ih _ hok
      | link target =>
        have hentry' := (h _ _ (by simp)).1 hentry
        simp only [FileTree.descend, hcurrent, hparent, hlong, hentry, hentry', if_false]

theorem follow (h : tree.SameWays other) {names : List String}
    (hok : FileTree.follow tree followLast links start names = .ok location) :
    FileTree.follow other followLast links start names = .ok location := by
  induction links using Nat.strongRecOn generalizing start names with
  | ind links ih =>
    rw [follow_eq_ok_iff] at hok ⊢
    rcases hok with harrived | ⟨start', names', less, hredirected, rfl, hok⟩
    · exact .inl ((h.descend _ _ (by simp [harrived])).trans harrived)
    · exact .inr ⟨start', names', less,
        (h.descend _ _ (by simp [hredirected])).trans hredirected, rfl,
        ih less (Nat.lt_succ_self less) hok⟩

theorem locate (h : tree.SameWays other) (hhere : other.here = tree.here)
    (hok : tree.locate followLast path = .ok location) :
    other.locate followLast path = .ok location := by
  rw [locate_eq_ok_iff] at hok ⊢
  rw [startOf, hhere]
  exact ⟨hok.1, h.follow hok.2⟩

end SameWays

/-! ### Directories on the way -/

/-- A descent that goes on, if it does, from a directory, and ends, if it does, in one. -/
def Descent.InDirectory (tree : FileTree) : Descent → Prop
  | .arrived location => tree.entry? location.dropLast = some .directory
  | .redirected start _ => tree.entry? start = some .directory
  | .failed _ => True

namespace Sound

theorem descend (h : tree.Sound) (names : List String)
    (hstart : tree.entry? start = some .directory) :
    (FileTree.descend tree followLast start names).InDirectory tree := by
  induction names generalizing start with
  | nil => exact h.dropLast hstart
  | cons name names ih =>
    have hlast : (Descent.arrived (start ++ [name])).InDirectory tree := by
      rw [Descent.InDirectory, List.dropLast_concat]
      exact hstart
    rw [FileTree.descend]
    split
    · exact ih hstart
    split
    · exact ih (h.dropLast hstart)
    split
    · trivial
    split
    · split
      · exact hlast
      · trivial
    · next hentry => exact ih hentry
    · split
      · exact hlast
      · trivial
    · split
      · exact hlast
      · rw [Descent.InDirectory]
        split
        · exact entry?_nil tree
        · exact hstart

theorem follow (h : tree.Sound) {names : List String} (hstart : tree.entry? start = some .directory)
    (hok : FileTree.follow tree followLast links start names = .ok location) :
    tree.entry? location.dropLast = some .directory := by
  induction links using Nat.strongRecOn generalizing start names with
  | ind links ih =>
    have hdescent : (FileTree.descend tree followLast start names).InDirectory tree :=
      h.descend names hstart
    rw [follow_eq_ok_iff] at hok
    rcases hok with harrived | ⟨start', names', less, hredirected, rfl, hok⟩
    · rwa [harrived] at hdescent
    · rw [hredirected] at hdescent
      exact ih less (Nat.lt_succ_self less) hdescent hok

theorem locate (h : tree.Sound) (hlocation : tree.locate followLast path = .ok location) :
    tree.entry? location.dropLast = some .directory := by
  rw [locate_eq_ok_iff] at hlocation
  refine h.follow ?_ hlocation.2
  rw [startOf]
  split
  · exact entry?_nil tree
  · exact h.here

/-! ### Making directories -/

theorem createDirectory (h : tree.Sound) {grown : FileTree}
    (hok : tree.createDirectory path = .ok grown) : tree.Grows grown ∧ grown.Sound := by
  rw [FileTree.createDirectory] at hok
  split at hok
  · cases hok
  · next location hlocation =>
      split at hok
      · cases hok
      · next hnone =>
          cases hok
          have hne : location ≠ [] := by
            rintro rfl
            simp at hnone
          exact ⟨.insert hnone, h.insert hne (h.locate hlocation) (by simp [hnone])⟩

theorem ensureDirectory (h : tree.Sound) (path : Path) :
    tree.Grows (tree.ensureDirectory path).2 ∧ (tree.ensureDirectory path).2.Sound := by
  rw [FileTree.ensureDirectory]
  split
  · next hmade => exact h.createDirectory hmade
  · split <;> exact ⟨.refl tree, h⟩

/-- Making the directories of a path, level by level, makes the tree grow. -/
theorem createAllWithin (h : tree.Sound) (fuel : Nat) (path : Path) :
    tree.Grows (FileTree.createAllWithin fuel tree path).2 ∧
      (FileTree.createAllWithin fuel tree path).2.Sound := by
  induction fuel generalizing tree path with
  | zero =>
    rw [FileTree.createAllWithin]
    split
    · exact ⟨.refl tree, h⟩
    · exact h.ensureDirectory path
  | succ fuel ih =>
    rw [FileTree.createAllWithin]
    split
    · exact ⟨.refl tree, h⟩
    split
    · split
      · exact ⟨.refl tree, h⟩
      · next parent _ =>
          have hparents := ih h parent
          split
          · next hfailed => rwa [hfailed] at hparents
          · next made hmade =>
              rw [hmade] at hparents
              have hpath := hparents.2.ensureDirectory path
              exact ⟨hparents.1.trans hpath.1, hpath.2⟩
    · exact h.ensureDirectory path

theorem createAll (h : tree.Sound) (path : Path) :
    tree.Grows (tree.createAll path).2 ∧ (tree.createAll path).2.Sound :=
  h.createAllWithin path.text.length path

end Sound

end BuildMatrix.FileTree
