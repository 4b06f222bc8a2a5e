import BuildMatrix.FileTree.Access
import Mathlib.Data.List.Induction
import Mathlib.Tactic.ByContra

/-!
# Changes of the file tree

What stands at each location after a change: a stored entry, and a regular file that was moved to
another name in its directory. In a *sound* tree everything lies in a directory, as in a file
system; a tree *grows* if directories are made where there was nothing.
-/

namespace BuildMatrix.FileTree

variable {location : Location} {entries : List (Location × Entry)} {entry : Entry}

/-! ### Entries -/

theorem find?_insertIn (location other : Location) (entry : Entry)
    (entries : List (Location × Entry)) :
    find? other (insertIn location entry entries) =
      if other = location then some entry else find? other entries := by
  induction entries with
  | nil => simp [insertIn, find?, eq_comm]
  | cons e entries ih =>
    obtain ⟨key, old⟩ := e
    rw [insertIn]
    split
    · next hkey =>
        subst hkey
        by_cases hother : other = key
        · simp [find?, hother]
        · simp [find?, hother, Ne.symm hother]
    · next hkey =>
        rw [find?, ih, find?]
        by_cases hother : key = other
        · subst hother
          simp [hkey]
        · simp [hother]

@[simp] theorem entry?_nil (tree : FileTree) : tree.entry? [] = some .directory := if_pos rfl

theorem entry?_of_ne_nil (tree : FileTree) (h : location ≠ []) :
    tree.entry? location = find? location tree.entries := if_neg h

theorem entry?_insert (tree : FileTree) (hlocation : location ≠ []) (entry : Entry)
    (other : Location) :
    entry? (tree.insert location entry) other =
      if other = location then some entry else tree.entry? other := by
  by_cases hother : other = []
  · subst hother
    simp [Ne.symm hlocation]
  · rw [entry?_of_ne_nil _ hother, entry?_of_ne_nil _ hother, insert, find?_insertIn]

theorem find?_eq_none (h : ∀ e ∈ entries, e.1 ≠ location) : find? location entries = none := by
  induction entries with
  | nil => rfl
  | cons e entries ih =>
    rw [List.forall_mem_cons] at h
    rw [find?, if_neg h.1]
    exact ih h.2

theorem find?_filter {keep : Location → Bool} {location : Location} (h : keep location = true)
    (entries : List (Location × Entry)) :
    find? location (entries.filter fun e => keep e.1) = find? location entries := by
  induction entries with
  | nil => rfl
  | cons e entries ih =>
    obtain ⟨key, entry⟩ := e
    by_cases hkey : key = location
    · subst hkey
      simp [find?, h]
    · rw [List.filter_cons]
      split
      · rw [find?, find?, if_neg hkey, if_neg hkey, ih]
      · rw [find?, if_neg hkey, ih]

theorem find?_map {move : Location → Location} {origin : Location}
    (h : ∀ e ∈ entries, move e.1 = location ↔ e.1 = origin) :
    find? location (entries.map fun e => (move e.1, e.2)) = find? origin entries := by
  induction entries with
  | nil => rfl
  | cons e entries ih =>
    rw [List.forall_mem_cons] at h
    simp only [List.map_cons, find?, h.1, ih h.2]

/-! ### Sound trees -/

/-- A tree in which **everything lies in a directory**, the current directory included. -/
structure Sound (tree : FileTree) : Prop where
  here : tree.entry? tree.here = some .directory
  parent : ∀ location name, tree.entry? (location ++ [name]) ≠ none →
    tree.entry? location = some .directory

namespace Sound

variable {tree : FileTree}

theorem entry?_append (h : tree.Sound) (hlocation : tree.entry? location ≠ some .directory)
    {names : List String} (hne : names ≠ []) : tree.entry? (location ++ names) = none := by
  induction names using List.reverseRecOn with
  | nil => exact absurd rfl hne
  | append_singleton names name ih =>
    by_contra hsome
    rw [← List.append_assoc] at hsome
    have hparent := h.parent _ _ hsome
    by_cases hnames : names = []
    · rw [hnames, List.append_nil] at hparent
      exact hlocation hparent
    · rw [ih hnames] at hparent
      cases hparent

theorem dropLast (h : tree.Sound) (hlocation : tree.entry? location = some .directory) :
    tree.entry? location.dropLast = some .directory := by
  rcases List.eq_nil_or_concat location with rfl | ⟨init, name, rfl⟩
  · simp
  · rw [List.concat_eq_append] at hlocation ⊢
    rw [List.dropLast_concat]
    exact h.parent init name (by simp [hlocation])

/-- A sound tree stays sound if a file or a directory is stored in a directory, in place of nothing
or of a file. -/
theorem insert (h : tree.Sound) (hne : location ≠ [])
    (hparent : tree.entry? location.dropLast = some .directory)
    (hlocation : tree.entry? location ≠ some .directory) : (tree.insert location entry).Sound := by
  have hkept : ∀ other, tree.entry? other = some .directory →
      entry? (tree.insert location entry) other = some .directory := by
    intro other hother
    rw [entry?_insert tree hne, if_neg]
    · exact hother
    · rintro rfl
      exact hlocation hother
  refine ⟨hkept _ h.here, fun other name hsome => hkept _ ?_⟩
  rw [entry?_insert tree hne] at hsome
  split at hsome
  · next hother => rwa [← hother, List.dropLast_concat] at hparent
  · exact h.parent other name hsome

end Sound

/-! ### Moved files -/

section Moved

variable {tree : FileTree} {dir : Location} {old new : String} {content : ByteArray}

theorem not_prefix_sibling (hne : old ≠ new) (names : List String) :
    ¬ dir ++ [new] <+: dir ++ [old] ++ names := by
  rw [List.append_assoc, List.prefix_append_right_inj]
  simpa using Ne.symm hne

/-- The location that something gets when another name is given to what it lies in. -/
def movedTo (source target location : Location) : Location :=
  if source <+: location then target ++ location.drop source.length else location

theorem entries_moveEntries (tree : FileTree) (source target : Location) :
    (tree.moveEntries source target).entries =
      (tree.entries.filter fun e => decide (¬ target <+: e.1)).map fun e =>
        (movedTo source target e.1, e.2) := by
  have hfilter : tree.entries.filter (fun e => !target.isPrefixOf e.1) =
      tree.entries.filter fun e => decide (¬ target <+: e.1) :=
    List.filter_congr fun e _ => by
      rw [Bool.eq_iff_iff, decide_eq_true_iff, ← List.isPrefixOf_iff_prefix, Bool.not_eq_true,
        Bool.not_eq_true']
  rw [moveEntries, eraseAll]
  simp only [hfilter, movedTo, List.isPrefixOf_iff_prefix]
  refine List.map_congr_left fun e _ => ?_
  split <;> rfl

theorem entry?_moveEntries_new (hne : old ≠ new) (names : List String) :
    entry? (tree.moveEntries (dir ++ [old]) (dir ++ [new])) (dir ++ [new] ++ names) =
      tree.entry? (dir ++ [old] ++ names) := by
  rw [entry?_of_ne_nil _ (by simp), entry?_of_ne_nil _ (by simp), entries_moveEntries,
    ← @find?_filter (fun key => decide (¬ dir ++ [new] <+: key)) _
      (decide_eq_true (not_prefix_sibling hne names)) tree.entries]
  refine find?_map fun e he => ?_
  have hkept : ¬ dir ++ [new] <+: e.1 := of_decide_eq_true (List.mem_filter.1 he).2
  rw [movedTo]
  split
  · next hmoved =>
      obtain ⟨rest, hrest⟩ := hmoved
      rw [← hrest, List.drop_left, List.append_cancel_left_eq, List.append_cancel_left_eq]
  · next hstays =>
      constructor
      · exact fun heq => absurd ⟨names, heq.symm⟩ hkept
      · exact fun heq => absurd ⟨names, heq.symm⟩ hstays

theorem entry?_moveEntries_other (hnew : ¬ dir ++ [new] <+: location)
    (hold : ¬ dir ++ [old] <+: location) :
    entry? (tree.moveEntries (dir ++ [old]) (dir ++ [new])) location = tree.entry? location := by
  by_cases hroot : location = []
  · simp [hroot]
  · rw [entry?_of_ne_nil _ hroot, entry?_of_ne_nil _ hroot, entries_moveEntries,
      ← @find?_filter (fun key => decide (¬ dir ++ [new] <+: key)) _
        (decide_eq_true hnew) tree.entries]
    refine find?_map fun e _ => ?_
    rw [movedTo]
    split
    · next hmoved =>
        constructor
        · exact fun heq => absurd ⟨_, heq⟩ hnew
        · exact fun heq => absurd (heq ▸ hmoved) hold
    · rfl

theorem entry?_moveEntries_old (hne : old ≠ new) (names : List String) :
    entry? (tree.moveEntries (dir ++ [old]) (dir ++ [new])) (dir ++ [old] ++ names) = none := by
  rw [entry?_of_ne_nil _ (by simp), entries_moveEntries]
  refine find?_eq_none fun e he heq => ?_
  obtain ⟨origin, -, rfl⟩ := List.mem_map.1 he
  simp only [movedTo] at heq
  split at heq
  · exact not_prefix_sibling hne names ⟨_, heq⟩
  · next hstays => exact hstays ⟨names, heq.symm⟩

/-- **The entries after a file was given another name** in its directory, in place of what is no
directory. -/
theorem Sound.entry?_moveEntries (h : tree.Sound) (hne : old ≠ new)
    (hold : tree.entry? (dir ++ [old]) = some (.file content))
    (hnew : tree.entry? (dir ++ [new]) ≠ some .directory) (location : Location) :
    entry? (tree.moveEntries (dir ++ [old]) (dir ++ [new])) location =
      if location = dir ++ [new] then some (.file content)
      else if location = dir ++ [old] then none
      else tree.entry? location := by
  have hfile : tree.entry? (dir ++ [old]) ≠ some .directory := by simp [hold]
  by_cases hbelow : dir ++ [new] <+: location
  · obtain ⟨names, rfl⟩ := hbelow
    rw [entry?_moveEntries_new hne]
    by_cases hnames : names = []
    · simp [hnames, hold]
    · rw [h.entry?_append hfile hnames, h.entry?_append hnew hnames]
      simp [hnames]
  · rw [if_neg (by rintro rfl; exact hbelow List.prefix_rfl)]
    by_cases hbelow' : dir ++ [old] <+: location
    · obtain ⟨names, rfl⟩ := hbelow'
      rw [entry?_moveEntries_old hne]
      by_cases hnames : names = []
      · simp [hnames]
      · rw [h.entry?_append hfile hnames]
        simp
    · rw [if_neg (by rintro rfl; exact hbelow' List.prefix_rfl),
        entry?_moveEntries_other hbelow hbelow']

/-- A sound tree **stays sound** when a file gets another name. -/
theorem Sound.moveEntries (h : tree.Sound) (hne : old ≠ new)
    (hold : tree.entry? (dir ++ [old]) = some (.file content))
    (hnew : tree.entry? (dir ++ [new]) ≠ some .directory) :
    (tree.moveEntries (dir ++ [old]) (dir ++ [new])).Sound := by
  have hentry := h.entry?_moveEntries hne hold hnew
  have hkept : ∀ location, tree.entry? location = some .directory →
      entry? (tree.moveEntries (dir ++ [old]) (dir ++ [new])) location = some .directory := by
    intro location hlocation
    rw [hentry, if_neg, if_neg, hlocation]
    · rintro rfl
      simp [hold] at hlocation
    · rintro rfl
      exact hnew hlocation
  refine ⟨hkept _ h.here, fun location name hsome => hkept _ ?_⟩
  rw [hentry] at hsome
  split at hsome
  · next heq =>
      rw [List.append_inj_left' heq rfl]
      exact h.parent dir old (by simp [hold])
  · split at hsome
    · exact absurd rfl hsome
    · exact h.parent location name hsome

end Moved

/-! ### Growth -/

/-- A tree **grows** if directories are made where there was nothing. -/
structure Grows (tree grown : FileTree) : Prop where
  here : grown.here = tree.here
  entry : ∀ location, grown.entry? location = tree.entry? location ∨
    tree.entry? location = none ∧ grown.entry? location = some .directory

namespace Grows

variable {tree grown later : FileTree}

theorem refl (tree : FileTree) : tree.Grows tree := ⟨rfl, fun _ => .inl rfl⟩

theorem trans (h : tree.Grows grown) (hlater : grown.Grows later) : tree.Grows later := by
  refine ⟨hlater.here.trans h.here, fun location => ?_⟩
  rcases hlater.entry location with heq | ⟨hnone, hmade⟩
  · rw [heq]
    exact h.entry location
  · rcases h.entry location with heq | ⟨-, hmade'⟩
    · exact .inr ⟨heq ▸ hnone, hmade⟩
    · rw [hnone] at hmade'
      cases hmade'

theorem entry?_eq (h : tree.Grows grown) (hentry : tree.entry? location = some entry) :
    grown.entry? location = some entry := by
  rcases h.entry location with heq | ⟨hnone, -⟩
  · rw [heq, hentry]
  · rw [hnone] at hentry
    cases hentry

theorem insert (hlocation : tree.entry? location = none) :
    tree.Grows (tree.insert location .directory) := by
  have hne : location ≠ [] := by
    rintro rfl
    simp at hlocation
  refine ⟨rfl, fun other => ?_⟩
  rw [entry?_insert tree hne]
  split
  · next heq => exact .inr ⟨heq ▸ hlocation, rfl⟩
  · exact .inl rfl

end Grows

/-- A tree with what **another one has** at a location. -/
def withEntryOf (tree other : FileTree) (location : Location) : FileTree :=
  match other.entry? location with
  | some entry => tree.insert location entry
  | none => { tree with entries := tree.entries.filter fun e => decide (e.1 ≠ location) }

@[simp] theorem here_withEntryOf (tree other : FileTree) (location : Location) :
    (tree.withEntryOf other location).here = tree.here := by
  rw [withEntryOf]
  split <;> rfl

theorem entry?_withEntryOf (tree other : FileTree) (hne : location ≠ []) (found : Location) :
    entry? (tree.withEntryOf other location) found =
      if found = location then other.entry? location else tree.entry? found := by
  rw [withEntryOf]
  cases hother : other.entry? location with
  | some entry => exact entry?_insert tree hne entry found
  | none =>
    by_cases hfound : found = location
    · rw [if_pos hfound, hfound, entry?_of_ne_nil _ hne]
      exact find?_eq_none fun e he => of_decide_eq_true (List.mem_filter.1 he).2
    · rw [if_neg hfound]
      by_cases hroot : found = []
      · simp [hroot]
      · rw [entry?_of_ne_nil _ hroot, entry?_of_ne_nil _ hroot]
        exact @find?_filter (fun key => decide (key ≠ location)) _ (decide_eq_true hfound) _

theorem Grows.withEntryOf {tree grown : FileTree} (h : (tree.insert location entry).Grows grown)
    (hne : location ≠ []) : tree.Grows (grown.withEntryOf tree location) := by
  refine ⟨?_, fun found => ?_⟩
  · rw [here_withEntryOf]
    exact h.here
  · rw [entry?_withEntryOf grown tree hne]
    split
    · next heq => exact .inl (heq ▸ rfl)
    · next hfound =>
        have := h.entry found
        rwa [entry?_insert tree hne, if_neg hfound] at this

end BuildMatrix.FileTree
