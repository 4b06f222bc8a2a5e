import BuildMatrix.Config.Validation
import Mathlib.Data.List.Nodup
import Mathlib.Tactic.MkIffOfInductiveProp

/-!
# What the check of a configuration ensures

A configuration is checked from its options to its actions, up to the first thing that is not
allowed. Where nothing is found, each part of the check has passed, and what a part has passed can
be said without it: names differ, and whatever is named somewhere is declared.
-/

namespace BuildMatrix

variable {α : Type}

/-! ### Names -/

def IsLetterOrDigit (c : Char) : Prop :=
  'A' ≤ c ∧ c ≤ 'Z' ∨ 'a' ≤ c ∧ c ≤ 'z' ∨ '0' ≤ c ∧ c ≤ '9'
  deriving Decidable

/-- A letter or digit, and then letters, digits, dots, underscores and hyphens. -/
def IsName (name : String) : Prop :=
  ∃ c rest, name.toList = c :: rest ∧ IsLetterOrDigit c ∧
    ∀ d ∈ rest, IsLetterOrDigit d ∨ d = '.' ∨ d = '_' ∨ d = '-'

theorem isAlphanum_iff {c : Char} : c.isAlphanum = true ↔ IsLetterOrDigit c := by
  delta Char.isAlphanum Char.isAlpha Char.isUpper Char.isLower Char.isDigit
  simp [IsLetterOrDigit, or_assoc, Char.le_def]

theorem isValidName_iff {name : String} : isValidName name = true ↔ IsName name := by
  rw [isValidName, IsName]
  cases name.toList with
  | nil => simp
  | cons c rest => simp [isNameStart, isNameRest, isAlphanum_iff, or_assoc]

/-- Names that differ from one another and from **those before**. -/
def Fresh (before names : List String) : Prop :=
  names.Nodup ∧ ∀ name ∈ names, name ∉ before

theorem fresh_cons {before names : List String} {name : String} :
    Fresh before (name :: names) ↔ name ∉ before ∧ Fresh (name :: before) names := by
  simp only [Fresh, List.nodup_cons, List.mem_cons, not_or]
  grind

theorem fresh_nil {names : List String} : Fresh [] names ↔ names.Nodup := by simp [Fresh]

/-! ### Modules -/

namespace Project

theorem firstRepeated?_eq_none_iff {seen names : List String} :
    firstRepeated? seen names = none ↔ Fresh seen names := by
  induction names generalizing seen with
  | nil => simp [firstRepeated?, Fresh]
  | cons name rest ih =>
    rw [firstRepeated?, fresh_cons]
    split <;> simp_all

theorem firstUnknown?_eq_none_iff {names : List String} {modules : List Module} :
    firstUnknown? names modules = none ↔
      ∀ module ∈ modules, ∀ dependency ∈ module.dependencies, dependency.module ∈ names := by
  induction modules with
  | nil => simp [firstUnknown?]
  | cons module rest ih =>
    rw [firstUnknown?, List.forall_mem_cons, ← ih]
    split
    · next dependency hfind =>
        have hmem := List.mem_of_find?_eq_some hfind
        have hunknown := List.find?_some hfind
        simp only [reduceCtorEq, false_iff, not_and]
        exact fun hknown => absurd (hknown dependency hmem) (by simpa using hunknown)
    · next hfind => exact (and_iff_right (by simpa using hfind)).symm

theorem checkModules_eq_ok_iff {modules : List Module} :
    checkModules modules = .ok () ↔ (modules.map (·.name)).Nodup ∧
      ∀ module ∈ modules, ∀ dependency ∈ module.dependencies,
        dependency.module ∈ modules.map (·.name) := by
  rw [checkModules, ← fresh_nil, ← firstRepeated?_eq_none_iff, ← firstUnknown?_eq_none_iff]
  split
  · simp [*]
  · split <;> simp [*]

end Project

namespace Config

variable {config : Config} {before listed : List String} {i : Nat} {action : Action}
  {actions : List Action}

theorem checkFrom_eq_ok_iff {check : Nat → α → Except ProjectError Unit} {passes : α → Prop}
    (h : ∀ i item, check i item = .ok () ↔ passes item) {items : List α} :
    checkFrom check i items = .ok () ↔ ∀ item ∈ items, passes item := by
  induction items generalizing i with
  | nil => simp [checkFrom]
  | cons item rest ih =>
    rw [checkFrom, List.forall_mem_cons, ← ih (i := i + 1), ← h i]
    split <;> simp [*]

theorem checkModule_eq_ok_iff (i : Nat) (module : Module) :
    checkModule i module = .ok () ↔ isValidName module.name = true ∧ module.platforms ≠ [] := by
  rw [checkModule]
  split_ifs <;> simp_all [invalid]

theorem checkProject_eq_ok_iff {modules : List Module} :
    checkProject modules = .ok () ↔ Project.checkModules modules = .ok () := by
  rw [checkProject]
  split <;> simp [*]

/-! ### Actions -/

/-- What an action needs **by itself**, apart from a name that is new. -/
@[mk_iff]
structure Sound (action : Action) : Prop where
  name : isValidName action.name = true
  command : action.command.isSome = true ↔ action.output ≠ .classpath
  timeout : action.timeoutSecs ≠ some 0

theorem checkAction_eq_ok_iff :
    checkAction before i action = .ok () ↔ action.name ∉ before ∧ Sound action := by
  rw [checkAction, sound_iff]
  cases hcommand : action.command <;> split_ifs <;> simp_all [invalid]

theorem checkActions_eq_ok_iff :
    checkActions before i actions = .ok () ↔
      Fresh before (actions.map (·.name)) ∧ ∀ action ∈ actions, Sound action := by
  induction actions generalizing before i with
  | nil => simp [checkActions, Fresh]
  | cons action rest ih =>
    rw [checkActions, List.map_cons, fresh_cons, List.forall_mem_cons, and_and_and_comm,
      ← checkAction_eq_ok_iff (i := i), ← ih (i := i + 1)]
    split <;> simp [*]

theorem checkPeers_eq_ok_iff :
    checkPeers actions i action before listed = .ok () ↔
      Fresh before listed ∧ ∀ name ∈ listed, ∃ peer,
        actions.find? (fun a => a.name == name) = some peer ∧
          (peer.buildTypes = true → action.buildTypes = true) := by
  induction listed generalizing before with
  | nil => simp [checkPeers, Fresh]
  | cons name rest ih =>
    rw [checkPeers, fresh_cons, List.forall_mem_cons]
    split
    · simp [*, invalid]
    · split_ifs <;> simp_all [invalid]

theorem checkDependencies_eq_ok_iff (i : Nat) (action : Action) :
    checkDependencies actions i action = .ok () ↔ action.dependsOn.Nodup ∧
      ∀ name ∈ action.dependsOn, ∃ peer, actions.find? (fun a => a.name == name) = some peer ∧
        (peer.buildTypes = true → action.buildTypes = true) := by
  rw [checkDependencies, checkPeers_eq_ok_iff, fresh_nil]

/-! ### The whole check -/

theorem andThen_eq_ok_iff {first next : Except ProjectError Unit} :
    (do first; next) = .ok () ↔ first = .ok () ∧ next = .ok () := by
  cases first with
  | error error => simp [bind, Except.bind]
  | ok => simp [bind, Except.bind]

theorem validate_eq_ok_iff :
    config.validate = .ok () ↔
      checkBuild config.build = .ok () ∧ checkFrom checkModule 0 config.modules = .ok () ∧
      checkProject config.modules = .ok () ∧ checkActions [] 0 config.actions = .ok () ∧
      checkFrom (checkDependencies config.actions) 0 config.actions = .ok () := by
  rw [validate, andThen_eq_ok_iff, andThen_eq_ok_iff, andThen_eq_ok_iff, andThen_eq_ok_iff]

theorem isValidName_of_validate (h : config.validate = .ok ()) :
    ∀ module ∈ config.modules, isValidName module.name = true := fun module hmodule =>
  ((checkFrom_eq_ok_iff checkModule_eq_ok_iff).1 (validate_eq_ok_iff.1 h).2.1 module hmodule).1

theorem colon_notMem_of_isValidName {name : String} (h : isValidName name = true) :
    ':' ∉ name.toList := by
  obtain ⟨c, rest, hname, hstart, hrest⟩ := isValidName_iff.1 h
  rw [hname, List.mem_cons, not_or]
  refine ⟨?_, fun hmem => absurd (hrest _ hmem) (by decide)⟩
  rintro rfl
  exact absurd hstart (by decide)

/-- What the check of a configuration ensures about its **modules and actions**. -/
structure Consistent (config : Config) : Prop where
  colon_notMem : ∀ module ∈ config.modules, ':' ∉ module.name.toList
  checked : Project.checkModules config.modules = .ok ()
  actions_nodup : (config.actions.map (·.name)).Nodup
  /-- What an action depends on is declared, and has build types only if the action has. -/
  peers : ∀ action ∈ config.actions, ∀ name ∈ action.dependsOn,
    ∃ peer, config.actions.find? (fun a => a.name == name) = some peer ∧
      (peer.buildTypes = true → action.buildTypes = true)

theorem consistent_of_validate (h : config.validate = .ok ()) : config.Consistent := by
  obtain ⟨-, -, hproject, hactions, hdependencies⟩ := validate_eq_ok_iff.mp h
  refine ⟨fun module hmodule => ?_, checkProject_eq_ok_iff.1 hproject,
    fresh_nil.1 (checkActions_eq_ok_iff.1 hactions).1, fun action haction => ?_⟩
  · exact colon_notMem_of_isValidName (isValidName_of_validate h module hmodule)
  · exact ((checkFrom_eq_ok_iff checkDependencies_eq_ok_iff).1 hdependencies action haction).2

theorem Consistent.make (h : config.Consistent) (root : Path) :
    Project.make root config.modules = .ok ⟨root, config.modules⟩ := by
  rw [Project.make, h.checked]

theorem find?_name_iff {name : String} {peer : Action} (h : (actions.map (·.name)).Nodup) :
    actions.find? (fun a => a.name == name) = some peer ↔ peer ∈ actions ∧ peer.name = name := by
  constructor
  · exact fun hfind => ⟨List.mem_of_find?_eq_some hfind, by simpa using List.find?_some hfind⟩
  · rintro ⟨hpeer, rfl⟩
    obtain ⟨other, hother⟩ := Option.isSome_iff_exists.1
      (List.find?_isSome (p := fun a => a.name == peer.name).2 ⟨peer, hpeer, by simp⟩)
    rw [hother, List.inj_on_of_nodup_map h (List.mem_of_find?_eq_some hother) hpeer
      (by simpa using List.find?_some hother)]

/-- A configuration that is **well formed**. -/
structure WellFormed (config : Config) : Prop where
  outputDir : config.build.outputDir.text ≠ ""
  timeout : config.build.taskTimeoutSecs ≠ some 0
  module_names : ∀ module ∈ config.modules, IsName module.name
  platforms : ∀ module ∈ config.modules, module.platforms ≠ []
  modules_nodup : (config.modules.map (·.name)).Nodup
  dependencies : ∀ module ∈ config.modules, ∀ dependency ∈ module.dependencies,
    ∃ other ∈ config.modules, other.name = dependency.module
  action_names : ∀ action ∈ config.actions, IsName action.name
  actions_nodup : (config.actions.map (·.name)).Nodup
  commands : ∀ action ∈ config.actions, action.command.isSome = true ↔ action.output ≠ .classpath
  timeouts : ∀ action ∈ config.actions, action.timeoutSecs ≠ some 0
  peers_nodup : ∀ action ∈ config.actions, action.dependsOn.Nodup
  peers : ∀ action ∈ config.actions, ∀ name ∈ action.dependsOn,
    ∃ peer ∈ config.actions, peer.name = name
  build_types : ∀ action ∈ config.actions, ∀ peer ∈ config.actions, peer.name ∈ action.dependsOn →
    peer.buildTypes = true → action.buildTypes = true

/-- **The check accepts exactly the configurations that are well formed.** -/
theorem validate_accepts_well_formed (config : Config) :
    config.validate = .ok () ↔ config.WellFormed := by
  have hbuild : checkBuild config.build = .ok () ↔
      config.build.outputDir.text ≠ "" ∧ config.build.taskTimeoutSecs ≠ some 0 := by
    rw [checkBuild]
    split_ifs <;> simp_all [invalid]
  rw [validate_eq_ok_iff, hbuild, checkFrom_eq_ok_iff checkModule_eq_ok_iff,
    checkProject_eq_ok_iff, Project.checkModules_eq_ok_iff, checkActions_eq_ok_iff, fresh_nil,
    checkFrom_eq_ok_iff checkDependencies_eq_ok_iff]
  constructor
  · rintro ⟨⟨hdir, htimeout⟩, hmodules, ⟨hnodup, hdependencies⟩, ⟨hactions, hsound⟩, hpeers⟩
    refine ⟨hdir, htimeout, fun m hm => isValidName_iff.1 (hmodules m hm).1,
      fun m hm => (hmodules m hm).2, hnodup,
      fun m hm d hd => List.mem_map.1 (hdependencies m hm d hd),
      fun a ha => isValidName_iff.1 (hsound a ha).name, hactions, fun a ha => (hsound a ha).command,
      fun a ha => (hsound a ha).timeout, fun a ha => (hpeers a ha).1, fun a ha name hname => ?_,
      fun a ha peer hpeer hname => ?_⟩
    · obtain ⟨peer, hfind, -⟩ := (hpeers a ha).2 name hname
      exact ⟨peer, (find?_name_iff hactions).1 hfind⟩
    · obtain ⟨peer', hfind, htypes⟩ := (hpeers a ha).2 _ hname
      rw [(find?_name_iff hactions).2 ⟨hpeer, rfl⟩, Option.some_inj] at hfind
      exact hfind ▸ htypes
  · intro h
    refine ⟨⟨h.outputDir, h.timeout⟩,
      fun m hm => ⟨isValidName_iff.2 (h.module_names m hm), h.platforms m hm⟩,
      ⟨h.modules_nodup, fun m hm d hd => List.mem_map.2 (h.dependencies m hm d hd)⟩,
      ⟨h.actions_nodup, fun a ha => ⟨isValidName_iff.2 (h.action_names a ha), h.commands a ha,
        h.timeouts a ha⟩⟩, fun a ha => ⟨h.peers_nodup a ha, fun name hname => ?_⟩⟩
    obtain ⟨peer, hpeer, rfl⟩ := h.peers a ha name hname
    exact ⟨peer, (find?_name_iff h.actions_nodup).2 ⟨hpeer, rfl⟩,
      h.build_types a ha peer hpeer hname⟩

end Config

end BuildMatrix
