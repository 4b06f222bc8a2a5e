import BuildMatrix.Perform
import BuildMatrix.Proofs.RecordSlots
import Mathlib.Logic.Relation

/-!
# The workshop of a build

Each task has a directory of its own, and the cache has one for its records. What a build does to
the file tree happens there: it makes these directories, and changes what is below the directory of
a task or in a file of the cache. Everything else stays, and so does what a path reads that leads
neither into these directories nor to something above them.

A task is *up to date* in a tree if its record stands in its place, with the fingerprint of the
inputs as they are, and if the paths on record lie in its directory. It stays so as long as its
directory and its record are left alone and the inputs read the same.
-/

namespace BuildMatrix

open FileTree

/-! ### Directories of tasks -/

theorem TaskName.dirChar_ne_separator (c : Char) : dirChar c ≠ '/' := by
  rw [dirChar]
  split
  · decide
  · next h =>
      split
      · rintro rfl
        simp at h
      · decide

theorem TaskName.outputDir_spec (name : TaskName) :
    name.outputDir ≠ "" ∧ '/' ∉ name.outputDir.toList := by
  rw [outputDir, dirName]
  split
  · exact ⟨by decide, by decide⟩
  · next h =>
      refine ⟨fun hempty => h ?_, ?_⟩
      · rw [← String.toList_inj, String.toList_ofList] at hempty
        exact hempty
      · rw [String.toList_ofList]
        intro hmem
        obtain ⟨c, -, hc⟩ := List.mem_map.1 hmem
        exact dirChar_ne_separator c hc

theorem Place.withoutSlashes_ownDir (place : Place) (name : TaskName) :
    withoutSlashes (place.ownDir name) = place.ownDir name := by
  obtain ⟨hne, hseparator⟩ := name.outputDir_spec
  refine withoutSlashes_eq ?_
  rw [ownDir, Path.text_child _ hseparator, String.toList_append,
    List.getLast?_append_of_ne_nil _ (by simpa using hne)]
  exact fun hlast => hseparator (List.mem_of_getLast? hlast)

/-! ### The workshop -/

/-- **Neither of two locations leads to the other.** -/
def FileTree.Apart (a b : Location) : Prop := ¬ a <+: b ∧ ¬ b <+: a

instance (a b : Location) : Decidable (FileTree.Apart a b) :=
  inferInstanceAs (Decidable (_ ∧ _))

/-- The tasks of a build, what each of them **asks the cache for**, and **where** the directories of
the tasks and of the cache are. -/
structure Workshop (ω : Type) where
  graph : TaskGraph ω
  place : Place
  configuration : TaskName → Environment
  /-- The inputs of a task besides what its dependencies produce. -/
  sources : TaskName → List Path
  /-- What a task makes of the paths that its work returned. -/
  deliver : TaskName → List Path → Output
  /-- Where the directory of a task is. -/
  home : TaskName → Location
  /-- Where the directory of the cache is. -/
  folder : Location

namespace Workshop

variable {ω : Type} {task a b : TaskName} {location found : Location} {path : Path}

/-- Where the record of a task stands. -/
def record (shop : Workshop ω) (task : TaskName) : Location :=
  shop.folder ++ [Cache.recordName task.text]

/-- Where the record of a task is written first. -/
def temporary (shop : Workshop ω) (task : TaskName) : Location :=
  shop.folder ++ [Cache.recordName task.text ++ ".tmp"]

/-- The locations that builds **change at will**: what is below the directory of a task, and the
files of the cache. -/
def Private (shop : Workshop ω) (location : Location) : Prop :=
  (∃ task ∈ shop.graph.names, shop.home task <+: location ∧ location ≠ shop.home task) ∨
    ∃ task ∈ shop.graph.names, location = shop.record task ∨ location = shop.temporary task

/-- A directory that builds make, and where it is. -/
def Makes (shop : Workshop ω) (path : Path) (location : Location) : Prop :=
  path = shop.place.cache.dir ∧ location = shop.folder ∨
    ∃ task ∈ shop.graph.names, path = shop.place.ownDir task ∧ location = shop.home task

theorem makes_folder (shop : Workshop ω) : shop.Makes shop.place.cache.dir shop.folder :=
  .inl ⟨rfl, rfl⟩

theorem makes_home {shop : Workshop ω} (h : task ∈ shop.graph.names) :
    shop.Makes (shop.place.ownDir task) (shop.home task) :=
  .inr ⟨task, h, rfl, rfl⟩

/-! ### What builds do to a tree -/

/-- **One change** that a build makes to a tree. -/
inductive Move (shop : Workshop ω) (tree : FileTree) : FileTree → Prop
  | make {path : Path} {location : Location} :
      shop.Makes path location → Move shop tree (tree.createAll path).2
  | change {next : FileTree} : next.Tidy → next.here = tree.here →
      (∀ location, ¬shop.Private location → next.entry? location = tree.entry? location) →
      Move shop tree next

/-- **What builds do to a tree**, in any number of changes. -/
def Drift (shop : Workshop ω) : FileTree → FileTree → Prop := Relation.ReflTransGen shop.Move

/-- A directory is **settled**: making it makes directories on the way to it only, and once it is
there the path leads to it, whatever builds do. -/
def Settled (shop : Workshop ω) (tree : FileTree) (path : Path) (location : Location) : Prop :=
  ∀ later, shop.Drift tree later →
    (∀ other, entry? (later.createAll path).2 other = later.entry? other ∨ other <+: location) ∧
    ∀ found, later.Enters path found → ∀ latest, shop.Drift later latest →
      latest.Enters path location

/-- A path lies **aside**: it leads neither into the directories of the tasks or of the cache nor to
something above them, and neither does its route, except through directories that are there. -/
structure Aside (shop : Workshop ω) (tree : FileTree) (path : Path) : Prop where
  folder : ∀ location, tree.locate true path = .ok location → Apart location shop.folder
  home : ∀ location, tree.locate true path = .ok location →
    ∀ task ∈ shop.graph.names, Apart location (shop.home task)
  route : ∀ location ∈ tree.route path, ¬shop.Private location
  missing : ∀ location ∈ tree.route path, tree.entry? location = none →
    ¬ location <+: shop.folder ∧ ∀ task ∈ shop.graph.names, ¬ location <+: shop.home task

/-- **The tasks are out of each other's way**: no directory of a task lies in that of another one,
no file of the cache lies in the directory of a task, and no two tasks share a record. -/
structure Separate (shop : Workshop ω) : Prop where
  homes : ∀ a ∈ shop.graph.names, ∀ b ∈ shop.graph.names, a ≠ b → Apart (shop.home a) (shop.home b)
  records : ∀ a ∈ shop.graph.names, ∀ b ∈ shop.graph.names,
    Apart (shop.home a) (shop.record b) ∧ Apart (shop.home a) (shop.temporary b)
  distinct : ∀ a ∈ shop.graph.names, ∀ b ∈ shop.graph.names,
    Cache.recordName a.text = Cache.recordName b.text → a = b

/-- A tree in which **a build can start**: the directories are settled, and all sources lie
aside. -/
structure Sited (shop : Workshop ω) (tree : FileTree) : Prop where
  tidy : tree.Tidy
  settled : ∀ path location, shop.Makes path location → shop.Settled tree path location
  sources : ∀ task ∈ shop.graph.names, ∀ path ∈ shop.sources task, shop.Aside tree path

variable {shop : Workshop ω} {tree later : FileTree}

/-! ### Locations -/

theorem prefix_concat {dir : Location} {name : String} (h : location <+: dir ++ [name]) :
    location = dir ++ [name] ∨ location <+: dir :=
  List.prefix_concat_iff.mp h

theorem slot_not_prefix (shop : Workshop ω) (task : TaskName) :
    ¬ shop.record task <+: shop.folder ∧ ¬ shop.temporary task <+: shop.folder := by
  refine ⟨fun h => ?_, fun h => ?_⟩ <;>
  · have hlength := h.length_le
    simp only [record, temporary, List.length_append, List.length_singleton] at hlength
    omega

theorem Separate.not_prefix (h : shop.Separate) (hmakes : shop.Makes path location)
    (hfound : shop.Private found) : ¬ found <+: location := by
  rcases hfound with ⟨a, ha, hbelow, hne⟩ | ⟨a, ha, hslot⟩
  · rcases hmakes with ⟨-, rfl⟩ | ⟨b, hb, -, rfl⟩
    · intro hfolder
      exact (h.records a ha a ha).1.1 ((hbelow.trans hfolder).trans (List.prefix_append ..))
    · intro hhome
      by_cases hab : a = b
      · subst hab
        exact hne (hhome.eq_of_length_le hbelow.length_le)
      · exact (h.homes a ha b hb hab).1 (hbelow.trans hhome)
  · rcases hmakes with ⟨-, rfl⟩ | ⟨b, hb, -, rfl⟩
    · rcases hslot with rfl | rfl
      · exact (shop.slot_not_prefix a).1
      · exact (shop.slot_not_prefix a).2
    · rcases hslot with rfl | rfl
      · exact (h.records b hb a ha).1.2
      · exact (h.records b hb a ha).2.2

theorem Separate.not_below (h : shop.Separate) (ha : a ∈ shop.graph.names)
    (hb : b ∈ shop.graph.names) (hab : a ≠ b) (hlocation : shop.home a <+: location) :
    ¬ shop.home b <+: location := by
  intro hother
  rcases List.prefix_or_prefix_of_prefix hlocation hother with hleads | hleads
  · exact (h.homes a ha b hb hab).1 hleads
  · exact (h.homes a ha b hb hab).2 hleads

theorem slots_ne (shop : Workshop ω) (h : Cache.recordName a.text ≠ Cache.recordName b.text) :
    shop.record a ≠ shop.record b ∧ shop.record a ≠ shop.temporary b ∧
      shop.temporary a ≠ shop.record b ∧ shop.temporary a ≠ shop.temporary b := by
  have hlength : ∀ c d : TaskName, Cache.recordName c.text ≠ Cache.recordName d.text ++ ".tmp" := by
    intro c d heq
    have := congrArg (fun text : String => text.toList.length) heq
    simp [Cache.length_recordName] at this
  simp only [record, temporary, ne_eq, List.append_cancel_left_eq, List.cons.injEq, and_true]
  exact ⟨h, hlength a b, fun heq => hlength b a heq.symm,
    fun heq => h ((String.append_left_inj _).1 heq)⟩

theorem Separate.record_ne (h : shop.Separate) (ha : a ∈ shop.graph.names)
    (hb : b ∈ shop.graph.names) (hab : a ≠ b) :
    shop.record a ≠ shop.record b ∧ shop.record a ≠ shop.temporary b ∧
      shop.temporary a ≠ shop.record b ∧ shop.temporary a ≠ shop.temporary b :=
  shop.slots_ne fun heq => hab (h.distinct a ha b hb heq)

/-! ### What stays -/

theorem Drift.tidy (h : shop.Drift tree later) (htidy : tree.Tidy) :
    later.Tidy ∧ later.here = tree.here := by
  induction h with
  | refl => exact ⟨htidy, rfl⟩
  | tail _ hmove ih =>
    cases hmove with
    | make hmakes =>
      exact ⟨ih.1.createAll _, (ih.1.sound.createAll _).1.here.trans ih.2⟩
    | change hnext hhere hsame => exact ⟨hnext, hhere.trans ih.2⟩

theorem Drift.entry?_eq_some (h : shop.Drift tree later) (htidy : tree.Tidy) {entry : Entry}
    (hprivate : ¬shop.Private location) (hentry : tree.entry? location = some entry) :
    later.entry? location = some entry := by
  induction h with
  | refl => exact hentry
  | tail hdrift hmove ih =>
    cases hmove with
    | change _ _ hsame => rw [hsame location hprivate, ih]
    | @make path found _ =>
      rcases ((Drift.tidy hdrift htidy).1.sound.createAll path).1.entry location with
        heq | ⟨hnone, -⟩
      · rw [heq, ih]
      · rw [ih] at hnone
        cases hnone

/-- What lies apart from all directories that builds make is not changed at will, nor is anything
below it. -/
theorem not_private_of_apart (hfolder : Apart location shop.folder)
    (hhome : ∀ task ∈ shop.graph.names, Apart location (shop.home task))
    (hfound : location <+: found) : ¬shop.Private found := by
  rintro (⟨task, htask, hbelow, -⟩ | ⟨task, htask, hslot⟩)
  · rcases List.prefix_or_prefix_of_prefix hfound hbelow with hleads | hleads
    · exact (hhome task htask).1 hleads
    · exact (hhome task htask).2 hleads
  · have hcases : location = found ∨ location <+: shop.folder := by
      rcases hslot with rfl | rfl <;> exact prefix_concat hfound
    rcases hcases with rfl | hleads
    · refine hfolder.2 ?_
      rcases hslot with rfl | rfl <;> exact List.prefix_append ..
    · exact hfolder.1 hleads

namespace Sited

theorem entry?_createAll (h : shop.Sited tree) (hdrift : shop.Drift tree later)
    (hmakes : shop.Makes path location) (other : Location) :
    entry? (later.createAll path).2 other = later.entry? other ∨ other <+: location :=
  (h.settled path location hmakes later hdrift).1 other

theorem enters (h : shop.Sited tree) (hdrift : shop.Drift tree later)
    (hmakes : shop.Makes path location) (henters : later.Enters path found) {latest : FileTree}
    (hlatest : shop.Drift later latest) : latest.Enters path location :=
  (h.settled path location hmakes later hdrift).2 found henters latest hlatest

/-- **What stays in a tree whatever builds do**: all but what they change at will, except that
directories may be made on the way to theirs. -/
theorem entry?_of_drift (h : shop.Sited tree) (hdrift : shop.Drift tree later)
    (hprivate : ¬shop.Private location) :
    later.entry? location = tree.entry? location ∨
      tree.entry? location = none ∧ later.entry? location = some .directory ∧
        ∃ path found, shop.Makes path found ∧ location <+: found := by
  induction hdrift with
  | refl => exact .inl rfl
  | @tail middle _ hdrift hmove ih =>
    cases hmove with
    | change hnext hhere hsame =>
      rw [hsame location hprivate]
      exact ih
    | @make path found hmakes =>
      have hgrows := ((Drift.tidy hdrift h.tidy).1.sound.createAll path).1
      rcases hgrows.entry location with heq | ⟨hnone, hmade⟩
      · rw [heq]
        exact ih
      · rcases ih with heq | ⟨-, hdirectory, -⟩
        · rcases h.entry?_createAll hdrift hmakes location with hsame | hway
          · rw [hsame, hnone] at hmade
            cases hmade
          · exact .inr ⟨heq ▸ hnone, hmade, path, found, hmakes, hway⟩
        · rw [hnone] at hdirectory
          cases hdirectory

theorem entry?_of_route (h : shop.Sited tree) (hdrift : shop.Drift tree later)
    (haside : shop.Aside tree path) (hroute : location ∈ tree.route path) :
    later.entry? location = tree.entry? location := by
  rcases h.entry?_of_drift hdrift (haside.route location hroute) with heq | ⟨hnone, -, made⟩
  · exact heq
  · obtain ⟨path, found, ⟨-, rfl⟩ | ⟨task, htask, -, rfl⟩, hway⟩ := made
    · exact absurd hway (haside.missing location hroute hnone).1
    · exact absurd hway ((haside.missing location hroute hnone).2 task htask)

theorem locate_eq (h : shop.Sited tree) (hdrift : shop.Drift tree later)
    (haside : shop.Aside tree path) : later.locate true path = tree.locate true path :=
  locate_congr (hdrift.tidy h.tidy).2 fun _ => h.entry?_of_route hdrift haside

theorem drift (h : shop.Sited tree) (hdrift : shop.Drift tree later) : shop.Sited later := by
  obtain ⟨htidy, hhere⟩ := hdrift.tidy h.tidy
  refine ⟨htidy, fun path location hmakes latest hlatest => ?_, fun task htask path hpath => ?_⟩
  · exact h.settled path location hmakes latest (Relation.ReflTransGen.trans hdrift hlatest)
  · have haside := h.sources task htask path hpath
    have hroute : later.route path = tree.route path :=
      route_congr hhere fun _ => h.entry?_of_route hdrift haside
    refine ⟨fun location hlocation => haside.folder location ?_,
      fun location hlocation => haside.home location ?_, fun location hmem => ?_,
      fun location hmem hnone => ?_⟩
    · rwa [h.locate_eq hdrift haside] at hlocation
    · rwa [h.locate_eq hdrift haside] at hlocation
    · exact haside.route location (hroute ▸ hmem)
    · rw [hroute] at hmem
      exact haside.missing location hmem (h.entry?_of_route hdrift haside hmem ▸ hnone)

theorem entry?_of_aside (h : shop.Sited tree) (hdrift : shop.Drift tree later)
    (haside : shop.Aside tree path) (hlocation : tree.locate true path = .ok location)
    (hfound : location <+: found) : later.entry? found = tree.entry? found := by
  have hfolder := haside.folder location hlocation
  have hhome := haside.home location hlocation
  have hprivate := not_private_of_apart hfolder hhome hfound
  rcases h.entry?_of_drift hdrift hprivate with heq | ⟨-, -, made⟩
  · exact heq
  · obtain ⟨path, end', ⟨-, rfl⟩ | ⟨task, htask, -, rfl⟩, hway⟩ := made
    · exact absurd (hfound.trans hway) hfolder.1
    · exact absurd (hfound.trans hway) (hhome task htask).1

/-- **A source reads the same whatever builds do.** -/
theorem contentStream_eq (h : shop.Sited tree) (hdrift : shop.Drift tree later)
    (htask : task ∈ shop.graph.names) (hpath : path ∈ shop.sources task) :
    Fingerprint.contentStream later path = Fingerprint.contentStream tree path := by
  have haside := h.sources task htask path hpath
  have hsame := h.locate_eq hdrift haside
  cases hlocate : tree.locate true path with
  | error error =>
    rw [Fingerprint.contentStream, Fingerprint.contentStream, lookup, lookup, hsame, hlocate]
  | ok location =>
    have hbelow := fun found (hfound : location <+: found) =>
      h.entry?_of_aside hdrift haside hlocate hfound
    cases hentry : tree.entry? location with
    | none =>
      have hlater := (hbelow location List.prefix_rfl).trans hentry
      rw [Fingerprint.contentStream, Fingerprint.contentStream, lookup, lookup, hsame, hlocate]
      simp only [hentry, hlater]
    | some entry =>
      have hlater := (hbelow location List.prefix_rfl).trans hentry
      exact Fingerprint.contentStream_eq h.tidy (hdrift.tidy h.tidy).1
        (lookup_eq_ok_iff.2 ⟨hlocate, hentry⟩)
        (lookup_eq_ok_iff.2 ⟨hsame.trans hlocate, hlater⟩) hbelow

end Sited

/-! ### What is up to date -/

/-- What the record of a task **says it produced**; nothing if there is none. -/
def outputs (shop : Workshop ω) (tree : FileTree) (task : TaskName) : List Path :=
  match tree.entry? (shop.record task) with
  | some (.file content) =>
    (((Text.decode? content).bind WorkRecord.parse?).map WorkRecord.outputs).getD []
  | _ => []

/-- What a task that is on record **delivers** to those that depend on it. -/
def delivered (shop : Workshop ω) (tree : FileTree) (task : TaskName) : List Path :=
  (shop.deliver task (shop.outputs tree task)).paths

/-- The **inputs** of a task: its sources and what its dependencies deliver. -/
def inputs (shop : Workshop ω) (tree : FileTree) (task : TaskName) : List Path :=
  shop.sources task ++ (shop.graph.dependenciesOf task).flatMap (shop.delivered tree)

/-- A path **lies in the directory of a task**: it leads to something that is there, and it does so
in every tree in which the directory is the same. -/
def Lies (shop : Workshop ω) (tree : FileTree) (task : TaskName) (path : Path) : Prop :=
  ∃ location entry, tree.lookup true path = .ok (location, entry) ∧
    shop.home task <+: location ∧
    ∀ other : FileTree, other.Tidy → other.here = tree.here →
      other.Enters (shop.place.ownDir task) (shop.home task) →
      (∀ found, shop.home task <+: found → other.entry? found = tree.entry? found) →
      other.lookup true path = .ok (location, entry)

/-- **The work of a task is on record**, with the fingerprint of its inputs as they are. -/
structure UpToDate (shop : Workshop ω) (tree : FileTree) (task : TaskName) : Prop where
  home : tree.Enters (shop.place.ownDir task) (shop.home task)
  folder : tree.Enters shop.place.cache.dir shop.folder
  usable : IsUsable (shop.place.cache.temporaryPath task.text)
  record : ∃ record : WorkRecord,
    tree.entry? (shop.record task) = some (.file record.text.toUTF8) ∧
    record.identity = task.text ∧
    record.fingerprint =
      Fingerprint.compute tree (shop.configuration task) (shop.inputs tree task) ∧
    (Timestamp.parse? record.createdAt.text).isSome
  lies : ∀ path ∈ shop.outputs tree task ++ shop.delivered tree task, shop.Lies tree task path

/-- A change of a tree **spares a task**: its directory and its record are as they were, and the
paths lead there if they did. -/
structure Spares (shop : Workshop ω) (task : TaskName) (tree later : FileTree) : Prop where
  here : later.here = tree.here
  below : ∀ location, shop.home task <+: location →
    later.entry? location = tree.entry? location
  record : later.entry? (shop.record task) = tree.entry? (shop.record task)
  home : tree.Enters (shop.place.ownDir task) (shop.home task) →
    later.Enters (shop.place.ownDir task) (shop.home task)
  folder : tree.Enters shop.place.cache.dir shop.folder →
    later.Enters shop.place.cache.dir shop.folder

theorem outputs_eq {record : WorkRecord}
    (hentry : tree.entry? (shop.record task) = some (.file record.text.toUTF8))
    (htime : (Timestamp.parse? record.createdAt.text).isSome) :
    shop.outputs tree task = record.outputs := by
  obtain ⟨createdAt, hcreated⟩ := Option.isSome_iff_exists.1 htime
  simp only [outputs, hentry]
  rw [Text.decode?_toUTF8, Option.bind_some, WorkRecord.parse?_text, hcreated]
  rfl

theorem lies_ownDir (h : tree.Enters (shop.place.ownDir task) (shop.home task)) :
    shop.Lies tree task (shop.place.ownDir task) := by
  have hne : (shop.place.ownDir task).text ≠ "" := by
    obtain ⟨hname, hseparator⟩ := task.outputDir_spec
    rw [Place.ownDir, Path.text_child _ hseparator]
    exact fun hempty => hname (String.append_eq_empty_iff.1 hempty).2
  have hlookup : ∀ other : FileTree, other.Enters (shop.place.ownDir task) (shop.home task) →
      other.lookup true (shop.place.ownDir task) = .ok (shop.home task, .directory) := by
    intro other hother
    rwa [Enters, if_neg hne] at hother
  exact ⟨shop.home task, .directory, hlookup tree h, List.prefix_rfl,
    fun other _ _ henters _ => hlookup other henters⟩

namespace Lies

variable {task : TaskName} {path : Path}

theorem pathExists (h : shop.Lies tree task path) : tree.pathExists path = true := by
  obtain ⟨location, entry, hlookup, -⟩ := h
  rw [FileTree.pathExists, hlookup]

theorem congr (h : shop.Lies tree task path) (htidy : later.Tidy) (hhere : later.here = tree.here)
    (henters : later.Enters (shop.place.ownDir task) (shop.home task))
    (hbelow : ∀ location, shop.home task <+: location →
      later.entry? location = tree.entry? location) : shop.Lies later task path := by
  obtain ⟨location, entry, -, hlocation, hsame⟩ := h
  refine ⟨location, entry, hsame later htidy hhere henters hbelow, hlocation, ?_⟩
  intro other hother hhere' henters' hentries
  exact hsame other hother (hhere'.trans hhere) henters' fun found hfound =>
    (hentries found hfound).trans (hbelow found hfound)

theorem contentStream_eq (h : shop.Lies tree task path) (hspares : shop.Spares task tree later)
    (htidy : tree.Tidy) (hlater : later.Tidy)
    (hhome : tree.Enters (shop.place.ownDir task) (shop.home task)) :
    Fingerprint.contentStream later path = Fingerprint.contentStream tree path := by
  obtain ⟨location, entry, hlookup, hbelow, hsame⟩ := h
  exact Fingerprint.contentStream_eq htidy hlater hlookup
    (hsame later hlater hspares.here (hspares.home hhome) hspares.below)
    fun found hfound => hspares.below found (hbelow.trans hfound)

end Lies

theorem Spares.outputs_eq (h : shop.Spares task tree later) :
    shop.outputs later task = shop.outputs tree task := by
  rw [outputs, outputs, h.record]

namespace UpToDate

variable {task : TaskName}

theorem hit?_eq (h : shop.UpToDate tree task) (htidy : tree.Tidy) :
    shop.place.cache.hit? tree task.text
      (Fingerprint.compute tree (shop.configuration task) (shop.inputs tree task)) =
        some (shop.outputs tree task) := by
  obtain ⟨record, hentry, hidentity, hfingerprint, htime⟩ := h.record
  have houtputs := outputs_eq hentry htime
  rw [← hfingerprint, ← hidentity, houtputs]
  refine Cache.hit?_of_slot htidy.sound h.folder (hidentity ▸ h.usable) ?_ htime ?_
  · rw [hidentity]
    exact hentry
  · intro path hpath
    exact (h.lies path (List.mem_append_left _ (houtputs ▸ hpath))).pathExists

/-- **What is up to date stays so**, if it is spared and its inputs read the same. -/
theorem spare (h : shop.UpToDate tree task) (hspares : shop.Spares task tree later)
    (hlater : later.Tidy) (hinputs : shop.inputs later task = shop.inputs tree task)
    (hsame : ∀ path ∈ shop.inputs tree task,
      Fingerprint.contentStream later path = Fingerprint.contentStream tree path) :
    shop.UpToDate later task where
  home := hspares.home h.home
  folder := hspares.folder h.folder
  usable := h.usable
  record := by
    obtain ⟨record, hentry, hidentity, hfingerprint, htime⟩ := h.record
    refine ⟨record, hspares.record.trans hentry, hidentity, ?_, htime⟩
    rw [hinputs, Fingerprint.compute_eq _ hsame, hfingerprint]
  lies := by
    intro path hpath
    rw [delivered, hspares.outputs_eq] at hpath
    exact (h.lies path hpath).congr hlater hspares.here (hspares.home h.home) hspares.below

end UpToDate

/-- The inputs of a task **stay and read the same** if its sources do, and what it depends on is up
to date and spared. -/
theorem inputs_same (htidy : tree.Tidy) (hlater : later.Tidy)
    (hup : ∀ d ∈ shop.graph.dependenciesOf task, shop.UpToDate tree d)
    (hspares : ∀ d ∈ shop.graph.dependenciesOf task, shop.Spares d tree later)
    (hsources : ∀ path ∈ shop.sources task,
      Fingerprint.contentStream later path = Fingerprint.contentStream tree path) :
    shop.inputs later task = shop.inputs tree task ∧
      ∀ path ∈ shop.inputs tree task,
        Fingerprint.contentStream later path = Fingerprint.contentStream tree path := by
  refine ⟨?_, fun path hpath => ?_⟩
  · rw [inputs, inputs]
    congr 1
    exact List.flatMap_congr fun d hd => by rw [delivered, delivered, (hspares d hd).outputs_eq]
  · rcases List.mem_append.1 hpath with hsource | houtput
    · exact hsources path hsource
    · obtain ⟨d, hd, hmem⟩ := List.mem_flatMap.1 houtput
      exact ((hup d hd).lies path (List.mem_append_right _ hmem)).contentStream_eq (hspares d hd)
        htidy hlater (hup d hd).home

end Workshop

end BuildMatrix
