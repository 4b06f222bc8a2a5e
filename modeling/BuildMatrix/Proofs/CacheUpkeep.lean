import BuildMatrix.Cli.Caching
import BuildMatrix.Proofs.ProjectBuilds
import BuildMatrix.Proofs.RecordRemoval
import BuildMatrix.Proofs.Registration

/-!
# What the upkeep of the cache spares

A project asks for a directory of its cache, and any path will do: it may be the directory of a
module, or that of the project. Old records are dropped file by file, so that nothing is touched but
files that are told by their extension, directly in the directory. All records are dropped with the
directory, whatever it holds: the project file and the files of the modules are spared exactly if
they are not in it.
-/

namespace BuildMatrix

open FileTree

namespace Cache

variable {cache : Cache} {tree small after : FileTree} {folder location : Location} {name : String}
  {cutoff : Timestamp} {files : List Path} {entry : Entry}

/-! ### Old records -/

/-- A file that is **told to be a record**, by its extension, directly in the directory of the
cache. -/
def IsRecordFile (cache : Cache) (tree : FileTree) (location : Location) : Prop :=
  ∃ folder name, tree.lookup true cache.dir = .ok (folder, .directory) ∧
    location = folder ++ [name] ∧ Path.extensionOf? name = some "json"

/-- A file of the directory is dropped **from the directory**, whatever was dropped before. -/
theorem eq_of_removeFile (hsound : tree.Sound)
    (hcache : tree.lookup true cache.dir = .ok (folder, .directory)) (hsmall : small.Extends tree)
    (hname : IsFileName name) (hremove : small.removeFile (cache.dir.child name) = .ok after) :
    after = small.eraseAll (folder ++ [name]) ∧
      tree.entry? (folder ++ [name]) ≠ some .directory := by
  have hfound : ∃ location entry,
      small.lookup false (cache.dir.child name) = .ok (location, entry) ∧
        entry ≠ .directory ∧ after = small.eraseAll location := by
    rw [removeFile] at hremove
    split at hremove
    · cases hremove
    · cases hremove
    · next location entry hother hlookup =>
      exact ⟨location, entry, hlookup, hother,
        (Except.ok.inj hremove).symm⟩
  obtain ⟨location, entry, hlookup, hentry, rfl⟩ := hfound
  obtain ⟨hlocate, hsome⟩ := lookup_eq_ok_iff.1 (hsmall.lookup hlookup)
  have henters : tree.Enters cache.dir folder := by
    rw [Enters, if_neg (locate_eq_ok_iff.1 (lookup_eq_ok_iff.1 hcache).1).1.ne_empty, hcache]
  have hplace : tree.locate false (cache.dir.child name) = .ok (folder ++ [name]) :=
    hsound.locate_child henters hname (locate_eq_ok_iff.1 hlocate).1 (by simp)
  obtain rfl : folder ++ [name] = location := Except.ok.inj (hplace.symm.trans hlocate)
  exact ⟨rfl, fun hdirectory => hentry (Option.some.inj (hsome.symm.trans hdirectory))⟩

/-- **Dropping some files of the directory** leaves all that is no record. -/
theorem entry?_pruneFiles (hsound : tree.Sound)
    (hcache : tree.lookup true cache.dir = .ok (folder, .directory))
    (hfiles : ∀ path ∈ files, ∃ name, path = cache.dir.child name ∧
      IsFileName name ∧ Path.extensionOf? name = some "json") (hsome : tree.entry? location ≠ none)
    (hother : ¬cache.IsRecordFile tree location) (hsmall : small.Extends tree) :
    entry? (pruneFiles cutoff small files).2 location = small.entry? location := by
  induction files generalizing small with
  | nil => rfl
  | cons path files ih =>
    obtain ⟨⟨name, rfl, hname, hextension⟩, hrest⟩ := List.forall_mem_cons.1 hfiles
    rw [pruneFiles]
    split
    · next dropped hstale hremove =>
      obtain ⟨rfl, hentry⟩ := eq_of_removeFile hsound hcache hsmall hname hremove
      have herase := extends_eraseAll small (folder ++ [name])
      refine (ih hrest ⟨hsmall.here.trans herase.here, fun found entry h =>
        hsmall.entry found entry (herase.entry found entry h)⟩).trans ?_
      rw [entry?_eraseAll small (by simp), if_neg]
      rintro ⟨names, rfl⟩
      by_cases hnames : names = []
      · subst hnames
        exact hother ⟨folder, name, hcache, List.append_nil _, hextension⟩
      · exact hsome (hsound.entry?_append hentry hnames)
    · exact ih hrest hsmall

theorem recordFiles_cases (h : cache.recordFiles tree = .ok files) :
    tree.pathExists cache.dir = false ∧ files = [] ∨
      ∃ folder, tree.lookup true cache.dir = .ok (folder, .directory) := by
  rw [recordFiles] at h
  split at h
  · next hmissing => exact .inl ⟨by simpa using hmissing, (Except.ok.inj h).symm⟩
  · split at h
    · cases h
    · next names hchildren =>
      rw [children] at hchildren
      split at hchildren
      · cases hchildren
      · next folder hlookup => exact .inr ⟨folder, hlookup⟩
      · cases hchildren

/-- **Dropping old records** leaves all that is no record. -/
theorem entry?_prune (hsound : tree.Sound) (hnamed : tree.Named) {pruned : Pruned}
    (hok : cache.prune tree cutoff = .ok (pruned, after)) (hsome : tree.entry? location ≠ none)
    (hother : ¬cache.IsRecordFile tree location) :
    after.entry? location = tree.entry? location := by
  rw [prune] at hok
  split at hok
  · cases hok
  next files hfiles =>
  obtain rfl : (pruneFiles cutoff tree files).2 = after := congrArg (·.2) (Except.ok.inj hok)
  rcases recordFiles_cases hfiles with ⟨-, rfl⟩ | ⟨folder, hcache⟩
  · rfl
  · obtain ⟨found, hfound, hmem⟩ := recordFiles_of_lookup hcache
    obtain rfl : files = found := Except.ok.inj (hfiles.symm.trans hfound)
    refine entry?_pruneFiles hsound hcache (fun path hpath => ?_) hsome hother ⟨rfl, fun _ _ => id⟩
    obtain ⟨⟨name, hentry, rfl⟩, -, hextension⟩ := (hmem path).1 hpath
    have hname := hnamed folder name hentry
    rw [Path.extension?, Path.fileName?_child _ hname] at hextension
    exact ⟨name, rfl, hname, hextension⟩

/-! ### All records -/

/-- What lies **where the path of the cache leads**, if that is a directory. A link at its end is
itself what lies there. -/
def Holds (cache : Cache) (tree : FileTree) (location : Location) : Prop :=
  ∃ base entry folder, tree.lookup false cache.dir = .ok (base, entry) ∧
    tree.lookup true cache.dir = .ok (folder, .directory) ∧ base <+: location

/-- **What dropping a directory leaves** of files and links: what is not in it. -/
theorem entry?_removeAll {path : Path} {base : Location} {found : Entry}
    (hlookup : tree.lookup false path = .ok (base, found))
    (hfound : ∀ content, found ≠ .file content) (hentry : tree.entry? location = some entry)
    (hsolid : entry ≠ .directory) :
    entry? (tree.removeAll path).2 location = if base <+: location then none else some entry := by
  have hroot : location ≠ [] := by
    rintro rfl
    exact hsolid (Option.some.inj (hentry.symm.trans (entry?_nil tree)))
  have hall : entry? (tree.eraseAll base) location =
      if base <+: location then none else some entry := by
    rw [entry?_eraseAll_of_ne_nil _ _ hroot, hentry]
  cases found with
  | file content => exact absurd rfl (hfound content)
  | link target => simpa only [removeAll, hlookup] using hall
  | directory =>
    simp only [removeAll, hlookup]
    split
    · exact hall
    · have hne : location ≠ base := by
        rintro rfl
        exact hsolid (Option.some.inj (hentry.symm.trans (lookup_eq_ok_iff.1 hlookup).2))
      simp only [entry?_eraseBelow, hentry, hne, ne_eq, not_false_eq_true, and_true]

theorem tree_sweep_of_directory
    (hcache : tree.lookup true cache.dir = .ok (folder, .directory)) :
    (cache.sweep tree).2 = (tree.removeAll cache.dir).2 := by
  obtain ⟨files, hfiles, -⟩ := recordFiles_of_lookup hcache
  simp only [sweep, hfiles, pathExists, hcache, if_true]
  split <;> next heq => rw [heq]

theorem tree_sweep_of_not_directory
    (h : ¬∃ folder, tree.lookup true cache.dir = .ok (folder, .directory)) :
    (cache.sweep tree).2 = tree := by
  rw [sweep]
  split
  · rfl
  · next files hfiles =>
    rcases recordFiles_cases hfiles with ⟨hmissing, -⟩ | hfolder
    · rw [hmissing]
      rfl
    · exact absurd hfolder h

/-- **Dropping all records** leaves a file or a link exactly if it is not where the path of the
cache leads. -/
theorem entry?_sweep_iff (hentry : tree.entry? location = some entry)
    (hsolid : entry ≠ .directory) :
    entry? (cache.sweep tree).2 location = some entry ↔ ¬cache.Holds tree location := by
  by_cases hdirectory : ∃ folder, tree.lookup true cache.dir = .ok (folder, .directory)
  · obtain ⟨folder, hcache⟩ := hdirectory
    obtain ⟨⟨base, found⟩, hbase⟩ := exists_lookup_false hcache
    have hfound : ∀ content, found ≠ .file content := by
      rintro content rfl
      cases hcache.symm.trans (lookup_true_of_false hbase (by simp))
    have hholds : cache.Holds tree location ↔ base <+: location := by
      refine ⟨?_, fun hbelow => ⟨base, found, folder, hbase, hcache, hbelow⟩⟩
      rintro ⟨base', found', -, hbase', -, hbelow⟩
      obtain ⟨rfl, -⟩ := Prod.mk.inj (Except.ok.inj (hbase.symm.trans hbase'))
      exact hbelow
    rw [tree_sweep_of_directory hcache, hholds, entry?_removeAll hbase hfound hentry hsolid]
    by_cases hbelow : base <+: location <;> simp [hbelow]
  · rw [tree_sweep_of_not_directory hdirectory]
    exact iff_of_true hentry fun ⟨_, _, folder, _, hcache, _⟩ => hdirectory ⟨folder, hcache⟩

end Cache

/-! ### The files of a project -/

namespace Workspace

variable {workspace : Workspace} {tree : FileTree} {location : Location} {dir : Path}

def cache (workspace : Workspace) : Cache := { dir := workspace.layout.cacheRoot, enabled := true }

/-- What the upkeep of the cache **should spare**: the project file, be it a link or not, and the
files below the directories of the modules, unless they are told to be records. -/
def Protects (workspace : Workspace) (tree : FileTree) (location : Location) : Prop :=
  ¬workspace.cache.IsRecordFile tree location ∧
    ((∃ followLast entry, tree.lookup followLast workspace.configPath = .ok (location, entry)) ∨
      (∃ content, tree.entry? location = some (.file content)) ∧
        ∃ module ∈ workspace.project.modules, ∃ folder,
          tree.lookup true (module.dir workspace.root) = .ok (folder, .directory) ∧
            folder <+: location)

theorem exists_file_of_loadFrom (h : loadFrom tree dir = .ok workspace) :
    ∃ found content, tree.lookup true workspace.configPath = .ok (found, .file content) := by
  have hconfig : ∃ config, Config.load tree workspace.configPath = .ok config := by
    simp only [loadFrom, Config.loadFrom] at h
    split at h
    · cases h
    · next config path hload =>
      split at h
      · cases h
      · obtain rfl := Except.ok.inj h
        split at hload
        · cases hload
        · split at hload
          · cases hload
          · next hfile => exact ⟨_, (Prod.mk.inj (Except.ok.inj hload)).2 ▸ hfile⟩
  obtain ⟨config, hconfig⟩ := hconfig
  simp only [Config.load, Config.readText, FileTree.readText, FileTree.read] at hconfig
  cases hlookup : tree.lookup true workspace.configPath with
  | error error => simp [hlookup] at hconfig
  | ok found =>
    obtain ⟨found, entry⟩ := found
    cases entry with
    | file content => exact ⟨found, content, rfl⟩
    | directory => simp [hlookup] at hconfig
    | link target => simp [hlookup] at hconfig

theorem Protects.exists_entry (h : workspace.Protects tree location)
    (hload : loadFrom tree dir = .ok workspace) :
    ∃ entry, tree.entry? location = some entry ∧ entry ≠ .directory := by
  obtain ⟨-, ⟨followLast, entry, hlookup⟩ | ⟨⟨content, hfile⟩, -⟩⟩ := h
  · refine ⟨entry, (lookup_eq_ok_iff.1 hlookup).2, ?_⟩
    rintro rfl
    obtain ⟨found, content, hfound⟩ := exists_file_of_loadFrom hload
    have hdirectory : tree.lookup true workspace.configPath = .ok (location, .directory) := by
      cases followLast with
      | true => exact hlookup
      | false => exact lookup_true_of_false hlookup (by simp)
    cases hfound.symm.trans hdirectory
  · exact ⟨_, hfile, by simp⟩

section Requests

variable {session : Session}
  (hload : loadFrom session.tree (Cli.currentDirectory session) = .ok workspace)
include hload

theorem tree_cachePrune (line : Cli.CommandLine) (days : Nat) :
    (Cli.cachePrune line days session).session.tree = session.tree ∨
      ∃ cutoff pruned, workspace.cache.prune session.tree cutoff =
        .ok (pruned, (Cli.cachePrune line days session).session.tree) := by
  simp only [Cli.cachePrune, Cli.withCache, Cli.withWorkspace, hload, Cli.Reply.after]
  cases Cache.cutoff? session.now (Cli.secondsOfDays days) with
  | none => exact .inl rfl
  | some cutoff =>
    cases hprune : Cache.prune { dir := workspace.layout.cacheRoot } session.tree cutoff with
    | error error =>
      simp only [hprune]
      exact .inl rfl
    | ok result =>
      simp only [hprune]
      exact .inr ⟨cutoff, result.1, hprune⟩

/-- The request to drop all records drops **the directory of the project's cache**, if it was
confirmed. -/
theorem tree_cacheClean (line : Cli.CommandLine) (yes : Bool) :
    (Cli.cacheClean line yes session).session.tree =
      if yes = true then (workspace.cache.sweep session.tree).2 else session.tree := by
  simp only [Cli.cacheClean, Cli.withCache, Cli.withWorkspace, hload, cache]
  cases hexists : session.tree.pathExists workspace.layout.cacheRoot with
  | false =>
    -- there is nothing to drop, confirmed or not
    cases yes <;> simp [Cache.sweep, Cache.recordFiles, hexists]
  | true =>
    cases yes with
    | false => rfl
    | true =>
      simp only [Bool.not_true, Bool.false_eq_true, if_false, if_true]
      cases Cache.sweep { dir := workspace.layout.cacheRoot } session.tree with
      | mk outcome after => cases outcome <;> rfl

/-- **The files of a project are spared** by dropping old records, and by dropping all records
exactly if they are not where the path of the cache leads, or it was not confirmed. -/
theorem upkeep_spares_iff (hsound : session.tree.Sound) (hnamed : session.tree.Named)
    (line : Cli.CommandLine) (days : Nat) (yes : Bool)
    (hprotected : workspace.Protects session.tree location) :
    entry? (Cli.cachePrune line days session).session.tree location =
        session.tree.entry? location ∧
      (¬(yes = true ∧ workspace.cache.Holds session.tree location) ↔
        entry? (Cli.cacheClean line yes session).session.tree location =
          session.tree.entry? location) := by
  obtain ⟨entry, hentry, hsolid⟩ := hprotected.exists_entry hload
  constructor
  · rcases tree_cachePrune hload line days with hsame | ⟨cutoff, pruned, hprune⟩
    · rw [hsame]
    · exact Cache.entry?_prune hsound hnamed hprune (by simp [hentry]) hprotected.1
  · rw [tree_cacheClean hload, hentry]
    cases yes with
    | false => simpa using hentry
    | true => simpa using (Cache.entry?_sweep_iff hentry hsolid).symm

end Requests

/-- A project whose cache is **the directory of a module**. -/
def cacheInModule : Session where
  tree :=
    { entries := [(["p"], .directory), (["p", "keel.toml"], .file ("[cache]\ndir = \"core\"\n" ++
          "[[modules]]\nname = \"core\"\nplatforms = [\"jvm\"]\n").toUTF8),
        (["p", "core"], .directory), (["p", "core", "a.txt"], .file "1".toUTF8)]
      here := ["p"] }
  now := ⟨0⟩

theorem exists_loadFrom_cacheInModule :
    ∃ workspace, loadFrom cacheInModule.tree (Cli.currentDirectory cacheInModule) = .ok workspace ∧
      workspace.configPath = ⟨"/p/keel.toml"⟩ ∧ workspace.cache.dir = ⟨"/p/core"⟩ ∧
      workspace.project.modules.map (·.dir workspace.root) = [⟨"/p/core"⟩] :=
  exists_eq_ok_of_toOption (by decide +kernel)

theorem lookup_cacheInModule (followLast : Bool) :
    cacheInModule.tree.lookup followLast ⟨"/p/core"⟩ = .ok (["p", "core"], .directory) := by
  cases followLast <;> rfl

/-- In this project, a file is told to be a record **by its extension**, in the directory of the
module. -/
theorem exists_of_isRecordFile_cacheInModule (hcache : workspace.cache.dir = ⟨"/p/core"⟩)
    (h : workspace.cache.IsRecordFile cacheInModule.tree location) :
    ∃ name, location = ["p", "core", name] ∧ Path.extensionOf? name = some "json" := by
  obtain ⟨folder, name, hlookup, rfl, hextension⟩ := h
  rw [hcache, lookup_cacheInModule] at hlookup
  obtain ⟨rfl, -⟩ := Prod.mk.inj (Except.ok.inj hlookup)
  exact ⟨name, rfl, hextension⟩

/-- The project file is beside the directory of the module, and both requests spare it. -/
theorem upkeep_spares_project_file :
    ∃ workspace, loadFrom cacheInModule.tree (Cli.currentDirectory cacheInModule) = .ok workspace ∧
      workspace.Protects cacheInModule.tree ["p", "keel.toml"] ∧ ∀ line,
        entry? (Cli.cachePrune line 0 cacheInModule).session.tree ["p", "keel.toml"] =
            cacheInModule.tree.entry? ["p", "keel.toml"] ∧
          entry? (Cli.cacheClean line true cacheInModule).session.tree ["p", "keel.toml"] =
            cacheInModule.tree.entry? ["p", "keel.toml"] := by
  obtain ⟨workspace, hload, hconfig, hcache, -⟩ := exists_loadFrom_cacheInModule
  have hprotected : workspace.Protects cacheInModule.tree ["p", "keel.toml"] := by
    refine ⟨fun hrecord => ?_, .inl ⟨true, .file _, by rw [hconfig]; rfl⟩⟩
    obtain ⟨name, heq, -⟩ := exists_of_isRecordFile_cacheInModule hcache hrecord
    simp at heq
  have hsound : cacheInModule.tree.Sound := by
    refine (tidy_of_entries rfl (by decide) fun location hmem => ?_).sound
    simp only [cacheInModule, List.map_cons, List.map_nil, List.mem_cons, List.not_mem_nil,
      or_false] at hmem
    rcases hmem with rfl | rfl | rfl | rfl <;> rfl
  have hnamed : cacheInModule.tree.Named := named_of_keys (by decide)
  refine ⟨workspace, hload, hprotected, fun line => ?_⟩
  obtain ⟨hprune, hclean⟩ := upkeep_spares_iff hload hsound hnamed line 0 true hprotected
  refine ⟨hprune, hclean.1 ?_⟩
  rintro ⟨-, base, entry, folder, hlookup, -, hbelow⟩
  rw [hcache, lookup_cacheInModule] at hlookup
  obtain ⟨rfl, -⟩ := Prod.mk.inj (Except.ok.inj hlookup)
  exact absurd hbelow (by decide)

/-- **A file of a module is dropped** with all records, in a project that passes the check: its
cache is where the module is. -/
theorem upkeep_drops_a_module :
    ∃ workspace, loadFrom cacheInModule.tree (Cli.currentDirectory cacheInModule) = .ok workspace ∧
      workspace.Protects cacheInModule.tree ["p", "core", "a.txt"] ∧ ∀ line,
        entry? (Cli.cacheClean line true cacheInModule).session.tree ["p", "core", "a.txt"] =
          none := by
  obtain ⟨workspace, hload, -, hcache, hdirs⟩ := exists_loadFrom_cacheInModule
  refine ⟨workspace, hload, ⟨fun hrecord => ?_, .inr ⟨⟨_, rfl⟩, ?_⟩⟩, fun line => ?_⟩
  · obtain ⟨name, heq, hextension⟩ := exists_of_isRecordFile_cacheInModule hcache hrecord
    obtain rfl : "a.txt" = name := by simpa using heq
    exact absurd hextension (by decide)
  · obtain ⟨module, hmodule, hdir⟩ : ∃ module ∈ workspace.project.modules,
        module.dir workspace.root = ⟨"/p/core"⟩ :=
      List.mem_map.1 (hdirs ▸ List.mem_singleton_self _)
    exact ⟨module, hmodule, _, hdir ▸ lookup_cacheInModule true, by decide⟩
  · have heq : workspace.cache = { dir := ⟨"/p/core"⟩, enabled := true } := by
      rw [← hcache]
      rfl
    rw [tree_cacheClean hload, heq]
    rfl

end Workspace

end BuildMatrix
