import BuildMatrix.Fingerprint
import BuildMatrix.Proofs.Directories
import Mathlib.Data.List.Sort

/-!
# What the content of a path depends on

A tree is a list of entries, but nothing depends on the order of the list if each location is stored
once (`FileTree.Tidy`): the content of a directory is then decided by what stands below it. Every
change keeps a tree tidy. To find out where a path leads, links followed, only some locations are
looked at: those on its *route*. Two trees with the same entries on the route of a path agree on
where it leads, also if it leads nowhere.
-/

namespace BuildMatrix

variable {location : Location} {entry : Entry} {path : Path}

namespace FileTree

/-! ### The order of locations -/

theorem locationLe_total : ∀ a b : Location, (locationLe a b || locationLe b a) = true
  | [], _ => by simp [locationLe]
  | _ :: _, [] => by simp [locationLe]
  | a :: as, b :: bs => by
      by_cases hab : a = b
      · simpa [locationLe, hab] using locationLe_total as bs
      · simpa [locationLe, hab, Ne.symm hab] using String.le_total a b

/-- What comes before something that comes before a third comes before the third. -/
theorem locationLe_trans : ∀ a b c : Location, locationLe a b = true → locationLe b c = true →
    locationLe a c = true
  | [], _, _, _, _ => by simp [locationLe]
  | _ :: _, [], _, hab, _ => by simp [locationLe] at hab
  | _ :: _, _ :: _, [], _, hbc => by simp [locationLe] at hbc
  | a :: as, b :: bs, c :: cs, hab, hbc => by
      by_cases h : a = b
      · subst h
        by_cases h' : a = c
        · subst h'
          simp only [locationLe, if_true] at hab hbc ⊢
          exact locationLe_trans as bs cs hab hbc
        · simpa [locationLe, h'] using hbc
      · by_cases h' : b = c
        · subst h'
          simpa [locationLe, h] using hab
        · have hle : a ≤ b := by simpa [locationLe, h] using hab
          have hle' : b ≤ c := by simpa [locationLe, h'] using hbc
          have hne : a ≠ c := by
            rintro rfl
            exact h (String.le_antisymm hle hle')
          simpa [locationLe, hne] using String.le_trans hle hle'

theorem locationLe_antisymm : ∀ a b : Location, locationLe a b = true → locationLe b a = true →
    a = b
  | [], [], _, _ => rfl
  | [], _ :: _, _, hba => by simp [locationLe] at hba
  | _ :: _, [], hab, _ => by simp [locationLe] at hab
  | a :: as, b :: bs, hab, hba => by
      by_cases h : a = b
      · subst h
        simp only [locationLe, if_true] at hab hba
        rw [locationLe_antisymm as bs hab hba]
      · have hle : a ≤ b := by simpa [locationLe, h] using hab
        have hle' : b ≤ a := by simpa [locationLe, Ne.symm h] using hba
        exact absurd (String.le_antisymm hle hle') h

/-! ### Tidy trees -/

/-- A sound tree in which **each location is stored once**. -/
structure Tidy (tree : FileTree) : Prop where
  sound : tree.Sound
  nodup : (tree.entries.map (·.1)).Nodup

theorem mem_of_find?_eq_some :
    ∀ {entries : List (Location × Entry)}, find? location entries = some entry →
      (location, entry) ∈ entries
  | [], h => by cases h
  | (key, old) :: rest, h => by
      rw [find?] at h
      split at h
      · next hkey =>
          subst hkey
          exact Option.some.inj h ▸ List.mem_cons_self ..
      · exact List.mem_cons_of_mem _ (mem_of_find?_eq_some h)

theorem find?_eq_some_of_mem :
    ∀ {entries : List (Location × Entry)}, (entries.map (·.1)).Nodup →
      (location, entry) ∈ entries → find? location entries = some entry
  | (key, old) :: rest, hnodup, hmem => by
      obtain ⟨hfresh, hrest⟩ := List.nodup_cons.1 hnodup
      rw [find?]
      rcases List.mem_cons.1 hmem with heq | hmem
      · obtain ⟨rfl, rfl⟩ := Prod.mk.inj heq
        rw [if_pos rfl]
      · rw [if_neg, find?_eq_some_of_mem hrest hmem]
        rintro rfl
        exact hfresh (List.mem_map_of_mem (f := (·.1)) hmem)

theorem tidy_of_entries {tree : FileTree} (hhere : tree.entry? tree.here = some .directory)
    (hnodup : (tree.entries.map (·.1)).Nodup)
    (hparent : ∀ location ∈ tree.entries.map (·.1),
      tree.entry? location.dropLast = some .directory) : tree.Tidy := by
  refine ⟨⟨hhere, fun location name hentry => ?_⟩, hnodup⟩
  have hne : location ++ [name] ≠ [] := by simp
  rw [entry?_of_ne_nil _ hne] at hentry
  obtain ⟨entry, hfound⟩ := Option.ne_none_iff_exists'.1 hentry
  have hmem := List.mem_map_of_mem (f := (·.1)) (mem_of_find?_eq_some hfound)
  simpa using hparent _ hmem

namespace Tidy

variable {tree other : FileTree}

theorem mem_entries_iff (h : tree.Tidy) (hne : location ≠ []) :
    (location, entry) ∈ tree.entries ↔ tree.entry? location = some entry := by
  rw [entry?_of_ne_nil _ hne]
  exact ⟨find?_eq_some_of_mem h.nodup, mem_of_find?_eq_some⟩

/-- The entries below a location, named from it. -/
def below (tree : FileTree) (location : Location) : List (Location × Entry) :=
  tree.entries.filterMap fun e =>
    if location.isPrefixOf e.1 && location.length < e.1.length then
      some (e.1.drop location.length, e.2)
    else none

theorem descendants_eq_insertionSort (tree : FileTree) (location : Location) :
    tree.descendants location = (below tree location).insertionSort
      fun a b : Location × Entry => locationLe a.1 b.1 = true := by
  have hinsert : ∀ (entry : Location × Entry) (ordered : List (Location × Entry)),
      insertOrdered entry ordered =
        ordered.orderedInsert (fun a b => locationLe a.1 b.1 = true) entry := by
    intro entry ordered
    induction ordered with
    | nil => rfl
    | cons other ordered ih => rw [insertOrdered, ih, List.orderedInsert_cons]
  change (below tree location).foldr insertOrdered [] = _
  induction below tree location with
  | nil => rfl
  | cons entry rest ih => rw [List.foldr_cons, List.insertionSort_cons, ih, hinsert]

theorem perm_descendants (tree : FileTree) (location : Location) :
    (tree.descendants location).Perm (below tree location) := by
  rw [descendants_eq_insertionSort]
  exact List.perm_insertionSort ..

theorem pairwise_descendants (tree : FileTree) (location : Location) :
    (tree.descendants location).Pairwise fun a b => locationLe a.1 b.1 = true := by
  have : Std.Total fun a b : Location × Entry => locationLe a.1 b.1 = true :=
    ⟨fun a b => by simpa using locationLe_total a.1 b.1⟩
  have : IsTrans (Location × Entry) fun a b => locationLe a.1 b.1 = true :=
    ⟨fun a b c => locationLe_trans a.1 b.1 c.1⟩
  rw [descendants_eq_insertionSort]
  exact List.pairwise_insertionSort ..

theorem mem_below_iff (h : tree.Tidy) {names : Location} :
    (names, entry) ∈ below tree location ↔
      names ≠ [] ∧ tree.entry? (location ++ names) = some entry := by
  have hstored : (names, entry) ∈ below tree location ↔
      names ≠ [] ∧ (location ++ names, entry) ∈ tree.entries := by
    simp only [below, List.mem_filterMap, Option.ite_none_right_eq_some, Bool.and_eq_true,
      List.isPrefixOf_iff_prefix, decide_eq_true_eq, Option.some.injEq, Prod.mk.injEq]
    constructor
    · rintro ⟨⟨key, entry⟩, hmem, ⟨⟨names, rfl⟩, hlength⟩, hnames, rfl⟩
      rw [List.drop_left] at hnames
      subst hnames
      refine ⟨?_, hmem⟩
      rintro rfl
      simp at hlength
    · rintro ⟨hne, hmem⟩
      refine ⟨_, hmem, ⟨⟨names, rfl⟩, ?_⟩, by simp, rfl⟩
      simpa [Nat.pos_iff_ne_zero] using hne
  rw [hstored]
  refine and_congr_right fun hne => h.mem_entries_iff ?_
  simp [hne]

theorem nodup_below (h : tree.Tidy) (location : Location) : (below tree location).Nodup := by
  refine List.Nodup.filterMap (fun a b c ha hb => ?_) h.nodup.of_map
  simp only [Option.mem_def, Option.ite_none_right_eq_some, Bool.and_eq_true,
    List.isPrefixOf_iff_prefix] at ha hb
  obtain ⟨⟨⟨rest, hrest⟩, -⟩, hc⟩ := ha
  obtain ⟨⟨⟨rest', hrest'⟩, -⟩, hc'⟩ := hb
  rw [← hrest, List.drop_left] at hc
  rw [← hrest', List.drop_left] at hc'
  obtain ⟨hnames, hentry⟩ := Prod.mk.inj (Option.some.inj (hc.trans hc'.symm))
  exact Prod.ext (by rw [← hrest, ← hrest', hnames]) hentry

theorem descendants_eq (h : tree.Tidy) (h' : other.Tidy)
    (hsame : ∀ found, location <+: found → other.entry? found = tree.entry? found) :
    other.descendants location = tree.descendants location := by
  have hperm : (below other location).Perm (below tree location) := by
    refine (List.perm_ext_iff_of_nodup (h'.nodup_below _) (h.nodup_below _)).2 ?_
    rintro ⟨names, entry⟩
    rw [h'.mem_below_iff, h.mem_below_iff, hsame _ (List.prefix_append ..)]
  refine List.Perm.eq_of_pairwise (fun a b ha hb hab hba => ?_)
    (pairwise_descendants other location) (pairwise_descendants tree location) ?_
  · have hnames := locationLe_antisymm _ _ hab hba
    have hother := h'.mem_below_iff.1 ((perm_descendants other location).mem_iff.1 ha)
    have htree := h.mem_below_iff.1 ((perm_descendants tree location).mem_iff.1 hb)
    rw [hnames, hsame _ (List.prefix_append ..), htree.2] at hother
    exact Prod.ext hnames (Option.some.inj hother.2).symm
  · exact (perm_descendants other location).trans
      (hperm.trans (perm_descendants tree location).symm)

end Tidy

/-! ### Changes -/

theorem mem_keys_insertIn {found : Location} {entries : List (Location × Entry)}
    (hfound : found ∈ (insertIn location entry entries).map (·.1)) :
    found = location ∨ found ∈ entries.map (·.1) := by
  induction entries with
  | nil => simpa [insertIn] using hfound
  | cons e entries ih =>
    rw [insertIn] at hfound
    split at hfound
    · rcases List.mem_cons.1 hfound with rfl | hfound
      · exact .inl rfl
      · exact .inr (List.mem_cons_of_mem _ hfound)
    · rcases List.mem_cons.1 hfound with rfl | hfound
      · exact .inr (List.mem_cons_self ..)
      · exact (ih hfound).imp_right (List.mem_cons_of_mem _)

theorem nodup_insertIn (location : Location) (entry : Entry) :
    ∀ {entries : List (Location × Entry)}, (entries.map (·.1)).Nodup →
      ((insertIn location entry entries).map (·.1)).Nodup
  | [], _ => by simp [insertIn]
  | (key, old) :: rest, hnodup => by
      obtain ⟨hfresh, hrest⟩ := List.nodup_cons.1 hnodup
      rw [insertIn]
      split
      · next hkey =>
          subst hkey
          exact List.nodup_cons.2 ⟨hfresh, hrest⟩
      · next hkey =>
          refine List.nodup_cons.2 ⟨fun hfound => ?_, nodup_insertIn location entry hrest⟩
          exact (mem_keys_insertIn hfound).elim hkey hfresh

theorem movedTo_inj {source target a b : Location} (ha : ¬ target <+: a) (hb : ¬ target <+: b)
    (h : movedTo source target a = movedTo source target b) : a = b := by
  rw [movedTo, movedTo] at h
  split at h
  · next hsource =>
      split at h
      · next hsource' =>
          obtain ⟨rest, rfl⟩ := hsource
          obtain ⟨rest', rfl⟩ := hsource'
          rw [List.drop_left, List.drop_left, List.append_cancel_left_eq] at h
          rw [h]
      · exact absurd ⟨_, h⟩ hb
  · split at h
    · exact absurd ⟨_, h.symm⟩ ha
    · exact h

namespace Tidy

variable {tree : FileTree}

theorem insert (h : tree.Tidy) (hne : location ≠ [])
    (hparent : tree.entry? location.dropLast = some .directory)
    (hlocation : tree.entry? location ≠ some .directory) : (tree.insert location entry).Tidy :=
  ⟨h.sound.insert hne hparent hlocation, nodup_insertIn location entry h.nodup⟩

theorem moveEntries (h : tree.Tidy) {dir : Location} {old new : String} {content : ByteArray}
    (hne : old ≠ new) (hold : tree.entry? (dir ++ [old]) = some (.file content))
    (hnew : tree.entry? (dir ++ [new]) ≠ some .directory) :
    (tree.moveEntries (dir ++ [old]) (dir ++ [new])).Tidy := by
  refine ⟨h.sound.moveEntries hne hold hnew, ?_⟩
  rw [entries_moveEntries, List.map_map]
  have hkept : ((tree.entries.filter fun e => decide (¬ dir ++ [new] <+: e.1)).map
      (·.1)).Nodup := (List.filter_sublist.map _).nodup h.nodup
  have hmoved := hkept.map_on (f := movedTo (dir ++ [old]) (dir ++ [new])) fun a ha b hb heq => by
    obtain ⟨e, he, rfl⟩ := List.mem_map.1 ha
    obtain ⟨e', he', rfl⟩ := List.mem_map.1 hb
    exact movedTo_inj (of_decide_eq_true (List.mem_filter.1 he).2)
      (of_decide_eq_true (List.mem_filter.1 he').2) heq
  rwa [List.map_map] at hmoved

theorem createDirectory (h : tree.Tidy) {grown : FileTree}
    (hok : tree.createDirectory path = .ok grown) : grown.Tidy := by
  refine ⟨(h.sound.createDirectory hok).2, ?_⟩
  rw [FileTree.createDirectory] at hok
  split at hok
  · cases hok
  · split at hok
    · cases hok
    · cases hok
      exact nodup_insertIn _ .directory h.nodup

theorem ensureDirectory (h : tree.Tidy) (path : Path) : (tree.ensureDirectory path).2.Tidy := by
  rw [FileTree.ensureDirectory]
  split
  · next hmade => exact h.createDirectory hmade
  · split <;> exact h

theorem createAllWithin (h : tree.Tidy) (fuel : Nat) (path : Path) :
    (FileTree.createAllWithin fuel tree path).2.Tidy := by
  induction fuel generalizing tree path with
  | zero =>
    rw [FileTree.createAllWithin]
    split
    · exact h
    · exact h.ensureDirectory path
  | succ fuel ih =>
    rw [FileTree.createAllWithin]
    split
    · exact h
    split
    · split
      · exact h
      · next parent _ =>
          have hparents := ih h parent
          split
          · next hfailed => rwa [hfailed] at hparents
          · next made hmade =>
              rw [hmade] at hparents
              exact hparents.ensureDirectory path
    · exact h.ensureDirectory path

theorem createAll (h : tree.Tidy) (path : Path) : (tree.createAll path).2.Tidy :=
  h.createAllWithin path.text.length path

end Tidy

/-! ### The route of a path -/

/-- The locations that one descent looks at. -/
def asked (tree : FileTree) (start : Location) : List String → List Location
  | [] => []
  | name :: rest =>
    if name = "." then asked tree start rest
    else if name = ".." then asked tree start.dropLast rest
    else if maxName < name.utf8ByteSize then []
    else
      (start ++ [name]) ::
        match tree.entry? (start ++ [name]) with
        | some .directory => asked tree (start ++ [name]) rest
        | _ => []

/-- The locations that are looked at along names, following at most `links` links. -/
def askedAlong (tree : FileTree) : Nat → Location → List String → List Location
  | links, start, names =>
    asked tree start names ++
      match descend tree true start names with
      | .redirected start' names' =>
        match links with
        | 0 => []
        | links + 1 => askedAlong tree links start' names'
      | _ => []

/-- The **route** of a path: the locations that are looked at to find out where it leads. -/
def route (tree : FileTree) (path : Path) : List Location :=
  askedAlong tree maxLinks (tree.startOf path) (parts path)

section Route

variable {tree other : FileTree}

/-- A descent, and what it looks at, depend on what it looks at. -/
theorem descend_congr (start : Location) (names : List String)
    (h : ∀ location ∈ asked tree start names, other.entry? location = tree.entry? location) :
    descend other true start names = descend tree true start names ∧
      asked other start names = asked tree start names := by
  fun_induction asked tree start names with
  | case1 start => exact ⟨rfl, rfl⟩
  | case2 start rest ih => simpa [descend, asked] using ih h
  | case3 start rest hcurrent ih => simpa [descend, asked] using ih h
  | case4 start name rest hcurrent hparent hlong => simp [descend, asked, hcurrent, hparent, hlong]
  | case5 start name rest hcurrent hparent hlong ih =>
    rw [List.forall_mem_cons] at h
    simp only [descend, asked, hcurrent, hparent, hlong, if_false, h.1]
    cases hentry : tree.entry? (start ++ [name]) with
    | none => exact ⟨rfl, rfl⟩
    | some entry =>
      cases entry with
      | file content => exact ⟨rfl, rfl⟩
      | link target => exact ⟨rfl, rfl⟩
      | directory =>
        rw [hentry] at h
        exact ⟨(ih h.2).1, congrArg _ (ih h.2).2⟩

/-- Where names lead, and what is looked at along them, depend on what is looked at. -/
theorem follow_congr (links : Nat) (start : Location) (names : List String)
    (h : ∀ location ∈ askedAlong tree links start names,
      other.entry? location = tree.entry? location) :
    follow other true links start names = follow tree true links start names ∧
      askedAlong other links start names = askedAlong tree links start names := by
  induction links generalizing start names
  all_goals
    rw [askedAlong, List.forall_mem_append] at h
    obtain ⟨hdescend, hasked⟩ := descend_congr start names h.1
    rw [follow, follow, askedAlong, askedAlong, hdescend, hasked]
  case zero => exact ⟨rfl, rfl⟩
  case succ ih =>
    cases hresult : descend tree true start names with
    | arrived location => exact ⟨rfl, rfl⟩
    | failed error => exact ⟨rfl, rfl⟩
    | redirected start' names' =>
      rw [hresult] at h
      obtain ⟨hfollow, halong⟩ := ih start' names' h.2
      exact ⟨hfollow, congrArg _ halong⟩

theorem locate_congr (hhere : other.here = tree.here)
    (h : ∀ location ∈ tree.route path, other.entry? location = tree.entry? location) :
    other.locate true path = tree.locate true path := by
  have hfollow := (follow_congr maxLinks (tree.startOf path) (parts path) h).1
  rw [startOf] at hfollow
  rw [locate, locate, hhere, hfollow]

theorem route_congr (hhere : other.here = tree.here)
    (h : ∀ location ∈ tree.route path, other.entry? location = tree.entry? location) :
    other.route path = tree.route path := by
  have hasked := (follow_congr maxLinks (tree.startOf path) (parts path) h).2
  rw [startOf] at hasked
  rw [route, route, startOf, startOf, hhere, hasked]

end Route

end FileTree

/-! ### Contents -/

namespace Fingerprint

open FileTree

variable {tree other : FileTree} {inputs : List Path}

theorem contentStream_eq (h : tree.Tidy) (h' : other.Tidy)
    (hlookup : tree.lookup true path = .ok (location, entry))
    (hlookup' : other.lookup true path = .ok (location, entry))
    (hsame : ∀ found, location <+: found → other.entry? found = tree.entry? found) :
    contentStream other path = contentStream tree path := by
  rw [contentStream, contentStream, hlookup, hlookup']
  cases entry with
  | file content => rfl
  | link target => rfl
  | directory =>
    simp only
    rw [directoryStream, directoryStream, h.descendants_eq h' hsame]

theorem stream_eq (configuration : Environment)
    (h : ∀ path ∈ inputs, contentStream other path = contentStream tree path) :
    stream other configuration inputs = stream tree configuration inputs := by
  have hinput : ∀ path ∈ inputs, inputStream other path = inputStream tree path := by
    intro path hpath
    rw [inputStream, inputStream, h path hpath]
  simp only [stream]
  refine List.foldl_ext _ _ _ fun start path hpath => ?_
  rw [hinput path hpath]

theorem compute_eq (configuration : Environment)
    (h : ∀ path ∈ inputs, contentStream other path = contentStream tree path) :
    compute other configuration inputs = compute tree configuration inputs := by
  rw [compute, compute, stream_eq configuration h]

end Fingerprint

end BuildMatrix
