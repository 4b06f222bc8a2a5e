import BuildMatrix.Proofs.TaskSteps

/-!
# Plain layouts

A path that has no `.` and no `..` in it and meets no link leads where its names say. If all
directories of a workshop are there and have such paths, they are settled: nothing that builds do
leads such a path anywhere else. Sources that have such paths and stand apart from these directories
lie aside.
-/

namespace BuildMatrix

namespace FileTree

variable {tree : FileTree} {path : Path} {location : Location}

theorem Sound.entry?_of_prefix (h : tree.Sound) {location found : Location}
    (hleads : location <+: found) (hne : location ≠ found) (hfound : tree.entry? found ≠ none) :
    tree.entry? location = some .directory := by
  obtain ⟨rest, rfl⟩ := hleads
  by_contra hnot
  exact hfound (h.entry?_append hnot fun hnil => hne (by rw [hnil, List.append_nil]))

/-- Along names through directories one arrives where the names say, if there is no link. -/
theorem descend_of_directories (start : Location) (names : List String)
    (hnames : ∀ name ∈ names, IsName name)
    (hdirectories : ∀ before, before <+: names → before ≠ names →
      tree.entry? (start ++ before) = some .directory)
    (hlast : ∀ target, tree.entry? (start ++ names) ≠ some (.link target)) :
    descend tree true start names = .arrived (start ++ names) := by
  induction names generalizing start with
  | nil => simp [descend]
  | cons name rest ih =>
    obtain ⟨hname, hrest⟩ := List.forall_mem_cons.1 hnames
    by_cases hnil : rest = []
    · subst hnil
      exact descend_last hname start fun _ => hlast
    · have hdirectory := hdirectories [name] (by simp) (by simpa using Ne.symm hnil)
      have hmore := ih (start ++ [name]) hrest
        (fun before hleads hne => by
          simpa using hdirectories (name :: before) (by simpa using hleads) (by simpa using hne))
        (by simpa using hlast)
      rw [descend]
      simp only [hname.ne_current, hname.ne_parent, Nat.not_lt.2 hname.size_le, if_false,
        hdirectory]
      simpa using hmore

theorem prefix_of_mem_asked (start : Location) (names : List String)
    (hnames : ∀ name ∈ names, IsName name) :
    ∀ found ∈ asked tree start names, found <+: start ++ names := by
  fun_induction asked tree start names with
  | case1 start => simp
  | case2 start rest ih => exact absurd rfl (hnames "." (List.mem_cons_self ..)).ne_current
  | case3 start rest hcurrent ih =>
    exact absurd rfl (hnames ".." (List.mem_cons_self ..)).ne_parent
  | case4 start name rest hcurrent hparent hlong => simp
  | case5 start name rest hcurrent hparent hlong ih =>
    intro found hfound
    rcases List.mem_cons.1 hfound with rfl | hmore
    · exact ⟨rest, by simp⟩
    · split at hmore
      · have hrest := fun other hother => hnames other (List.mem_cons_of_mem _ hother)
        simpa using ih hrest found hmore
      · cases hmore

instance (path : Path) : Decidable (IsUsable path) :=
  decidable_of_iff
    (path.text ≠ "" ∧ '\x00' ∉ path.text.toList ∧ path.text.utf8ByteSize ≤ maxPath)
    ⟨fun ⟨hempty, hzero, hsize⟩ => ⟨hempty, hzero, hsize⟩,
      fun h => ⟨h.ne_empty, h.no_zero, h.size_le⟩⟩

/-- A path leads **straight** to a location: it has only names, and they say where it is. -/
structure Straight (here : Location) (path : Path) (location : Location) : Prop where
  usable : IsUsable path
  parts_eq : parts path = path.stemNames
  names : ∀ name ∈ path.stemNames, IsName name
  location_eq : location = (if path.isAbsolute then [] else here) ++ path.stemNames

instance (here : Location) (path : Path) (location : Location) :
    Decidable (Straight here path location) :=
  decidable_of_iff (IsUsable path ∧ parts path = path.stemNames ∧
      (∀ name ∈ path.stemNames, IsName name) ∧
      location = (if path.isAbsolute then [] else here) ++ path.stemNames)
    ⟨fun ⟨husable, hparts, hnames, hlocation⟩ => ⟨husable, hparts, hnames, hlocation⟩,
      fun h => ⟨h.usable, h.parts_eq, h.names, h.location_eq⟩⟩

namespace Straight

variable (h : Straight tree.here path location) (hsound : tree.Sound)
  {entry : Entry} (hentry : tree.entry? location = some entry)
  (hlink : ∀ target, entry ≠ .link target)

include h hsound hentry hlink

theorem descend_eq :
    descend tree true (tree.startOf path) (parts path) = .arrived location := by
  have hlocation : location = tree.startOf path ++ path.stemNames := h.location_eq
  subst hlocation
  rw [h.parts_eq]
  refine descend_of_directories _ _ h.names (fun before hleads hne => ?_) fun target htarget => ?_
  · refine hsound.entry?_of_prefix ((List.prefix_append_right_inj _).2 hleads) ?_ (by simp [hentry])
    simpa using hne
  · rw [hentry] at htarget
    exact hlink target (Option.some.inj htarget)

theorem lookup_eq : tree.lookup true path = .ok (location, entry) :=
  lookup_eq_ok_iff.2 ⟨locate_eq_ok_iff.2 ⟨h.usable,
    follow_eq_ok_iff.2 (.inl (h.descend_eq hsound hentry hlink))⟩, hentry⟩

theorem prefix_of_mem_route : ∀ found ∈ tree.route path, found <+: location := by
  intro found hfound
  rw [route, askedAlong, h.descend_eq hsound hentry hlink] at hfound
  have hleads := prefix_of_mem_asked (tree.startOf path) (parts path)
    (by rw [h.parts_eq]; exact h.names) found (by simpa using hfound)
  rw [h.parts_eq] at hleads
  rw [h.location_eq]
  exact hleads

end Straight

theorem Straight.enters (h : Straight tree.here path location) (hsound : tree.Sound)
    (hentry : tree.entry? location = some .directory) : tree.Enters path location := by
  rw [Enters, if_neg h.usable.ne_empty]
  exact h.lookup_eq hsound hentry (by simp)

theorem Straight.contentStream_eq {other : FileTree} (h : Straight tree.here path location)
    (hhere : other.here = tree.here) (hsound : tree.Sound) (hother : other.Sound)
    {content : ByteArray} (hentry : tree.entry? location = some (.file content))
    (hsame : other.entry? location = tree.entry? location) :
    Fingerprint.contentStream other path = Fingerprint.contentStream tree path := by
  have h' : Straight other.here path location := hhere ▸ h
  rw [Fingerprint.contentStream, Fingerprint.contentStream, h.lookup_eq hsound hentry (by simp),
    h'.lookup_eq hother (hsame.trans hentry) (by simp)]

end FileTree

open FileTree

namespace Workshop

variable {ω : Type} {shop : Workshop ω} {tree later : FileTree}

/-- A **plain layout**: the directories are there and the sources are files, all on straight
paths. -/
structure Plain (shop : Workshop ω) (tree : FileTree) : Prop where
  tidy : tree.Tidy
  way : ∀ path location, shop.Makes path location →
    Straight tree.here path location ∧ tree.entry? location = some .directory
  source : ∀ task ∈ shop.graph.names, ∀ path ∈ shop.sources task,
    ∃ location content, Straight tree.here path location ∧
      tree.entry? location = some (.file content) ∧ Apart location shop.folder ∧
      ∀ other ∈ shop.graph.names, Apart location (shop.home other)

namespace Plain

theorem drift (h : shop.Plain tree) (hseparate : shop.Separate) (hdrift : shop.Drift tree later) :
    shop.Plain later := by
  obtain ⟨htidy, hhere⟩ := hdrift.tidy h.tidy
  refine ⟨htidy, fun path location hmakes => ?_, fun task htask path hpath => ?_⟩
  · obtain ⟨hstraight, hentry⟩ := h.way path location hmakes
    refine ⟨hhere ▸ hstraight, hdrift.entry?_eq_some h.tidy ?_ hentry⟩
    exact fun hprivate => hseparate.not_prefix hmakes hprivate List.prefix_rfl
  · obtain ⟨location, content, hstraight, hentry, hfolder, hhome⟩ := h.source task htask path hpath
    refine ⟨location, content, hhere ▸ hstraight, hdrift.entry?_eq_some h.tidy ?_ hentry, hfolder,
      hhome⟩
    exact not_private_of_apart hfolder hhome List.prefix_rfl

theorem enters (h : shop.Plain tree) {path : Path} {location : Location}
    (hmakes : shop.Makes path location) : tree.Enters path location :=
  (h.way path location hmakes).1.enters h.tidy.sound (h.way path location hmakes).2

/-- **A build can start in a plain layout.** -/
theorem sited (h : shop.Plain tree) (hseparate : shop.Separate) : shop.Sited tree where
  tidy := h.tidy
  settled path location hmakes := by
    intro later hlater
    have hplain := h.drift hseparate hlater
    refine ⟨fun other => .inl ?_, fun found _ latest hlatest => ?_⟩
    · rw [hplain.tidy.sound.createAll_of_enters (hplain.enters hmakes)]
    · exact (hplain.drift hseparate hlatest).enters hmakes
  sources task htask path hpath := by
    obtain ⟨location, content, hstraight, hentry, hfolder, hhome⟩ := h.source task htask path hpath
    obtain ⟨hlocate, -⟩ := lookup_eq_ok_iff.1 (hstraight.lookup_eq h.tidy.sound hentry (by simp))
    have hroute := hstraight.prefix_of_mem_route h.tidy.sound hentry (by simp)
    have hsame : ∀ found, tree.locate true path = .ok found → found = location :=
      fun found hfound => Except.ok.inj (hfound.symm.trans hlocate)
    refine ⟨fun found hfound => hsame found hfound ▸ hfolder,
      fun found hfound => hsame found hfound ▸ hhome, fun found hfound hprivate => ?_,
      fun found hfound hnone => ?_⟩
    · have hleads := hroute found hfound
      rcases hprivate with ⟨other, hother, hbelow, -⟩ | ⟨other, -, hslot⟩
      · exact (hhome other hother).2 (hbelow.trans hleads)
      · refine hfolder.2 (List.IsPrefix.trans ?_ hleads)
        rcases hslot with rfl | rfl <;> exact List.prefix_append ..
    · have hthere : tree.entry? found ≠ none := by
        by_cases heq : found = location
        · simp [heq, hentry]
        · simp [h.tidy.sound.entry?_of_prefix (hroute found hfound) heq (by simp [hentry])]
      exact absurd hnone hthere

/-- **Nothing is missing in a plain layout**, if the paths of the files of the cache are not too
long. -/
theorem prepared (h : shop.Plain tree) (husable : ∀ task ∈ shop.graph.names,
    IsUsable (shop.place.cache.temporaryPath task.text)) : shop.Prepared tree where
  home _ htask := h.enters (makes_home htask)
  folder := h.enters shop.makes_folder
  usable := husable

/-- **A plain layout stays plain when a file is edited** that stands apart from its directories, and
nothing is done to these. -/
theorem edit (h : shop.Plain tree) {location : Location} {old : ByteArray}
    (hentry : tree.entry? location = some (.file old)) (hfolder : Apart location shop.folder)
    (hhome : ∀ task ∈ shop.graph.names, Apart location (shop.home task)) (new : ByteArray) :
    shop.Plain (tree.insert location (.file new)) ∧
      ∀ task ∈ shop.graph.names, shop.Spares task tree (tree.insert location (.file new)) ∧
        entry? (tree.insert location (.file new)) (shop.temporary task) =
          tree.entry? (shop.temporary task) := by
  have hne : location ≠ [] := by
    rintro rfl
    rw [entry?_nil] at hentry
    cases hentry
  have hother : ∀ found, found ≠ location →
      entry? (tree.insert location (.file new)) found = tree.entry? found := fun found hfound => by
    rw [entry?_insert tree hne, if_neg hfound]
  have hmakes : ∀ path found, shop.Makes path found → found ≠ location := by
    rintro path found (⟨-, rfl⟩ | ⟨task, htask, -, rfl⟩) rfl
    · exact hfolder.1 List.prefix_rfl
    · exact (hhome task htask).1 List.prefix_rfl
  have hparent : tree.entry? location.dropLast = some .directory := by
    refine h.tidy.sound.entry?_of_prefix (List.dropLast_prefix location) (fun heq => ?_)
      (by simp [hentry])
    have hlength := congrArg List.length heq
    have hpositive := List.length_pos_of_ne_nil hne
    rw [List.length_dropLast] at hlength
    omega
  have hplain : shop.Plain (tree.insert location (.file new)) := by
    refine ⟨h.tidy.insert hne hparent (by simp [hentry]), fun path found hfound => ?_,
      fun task htask path hpath => ?_⟩
    · obtain ⟨hstraight, hdirectory⟩ := h.way path found hfound
      exact ⟨hstraight, (hother found (hmakes path found hfound)).trans hdirectory⟩
    · obtain ⟨found, content, hstraight, hcontent, hapart⟩ := h.source task htask path hpath
      by_cases heq : found = location
      · exact ⟨found, new, hstraight, by rw [entry?_insert tree hne, if_pos heq], hapart⟩
      · exact ⟨found, content, hstraight, (hother found heq).trans hcontent, hapart⟩
  have hslot : ∀ name, shop.folder ++ [name] ≠ location := fun name heq =>
    hfolder.2 (heq ▸ List.prefix_append ..)
  refine ⟨hplain, fun task htask => ⟨⟨rfl, fun found hbelow => ?_, hother _ (hslot _), fun _ => ?_,
    fun _ => ?_⟩, hother _ (hslot _)⟩⟩
  · exact hother found fun heq => (hhome task htask).2 (heq ▸ hbelow)
  · exact hplain.enters (makes_home htask)
  · exact hplain.enters shop.makes_folder

end Plain

end Workshop

end BuildMatrix
