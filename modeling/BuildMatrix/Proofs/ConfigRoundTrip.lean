import BuildMatrix.Config.Decode
import BuildMatrix.Config.Encode

/-!
# Configurations that are read back

A configuration is written with all its fields, and what is written is read back as the same
configuration. The fields that have a default may also be missing, in the configuration itself and
in every record of it; each of those that are left out is then read as its default, and all others
as what they were.
-/

namespace BuildMatrix

/-! ### Leaving out fields -/

/-- Which fields of a record are **left out**, by name. -/
abbrev Gaps := String → Bool

/-- The fields that are left out in a module, and in its dependencies by their position. -/
structure ModuleGaps where
  own : Gaps
  dependencies : Nat → Gaps

/-- The fields that are left out in a configuration and in its records; in those of its modules and
actions by their position. -/
structure ConfigGaps where
  own : Gaps
  build : Gaps
  cache : Gaps
  modules : Nat → ModuleGaps
  actions : Nat → Gaps

/-- The same without a field that **has to be there**. -/
def Gaps.except (gaps : Gaps) (name : String) : Gaps := fun other => other ≠ name && gaps other

/-- What is read of a field: its value, or the default if it is left out. -/
def Gaps.fill {α : Type} (gaps : Gaps) (name : String) (default value : α) : α :=
  if gaps name then default else value

namespace Json

/-- An object **without some of its members**. -/
def without (gaps : Gaps) : Json → Json
  | obj members => obj (members.filter fun m => !gaps m.1)
  | value => value

/-- An object in which the value of a member is changed. -/
def onMember (name : String) (change : Json → Json) : Json → Json
  | obj members => obj (members.map fun m => if m.1 = name then (m.1, change m.2) else m)
  | value => value

/-- A list in which the items are changed, each by its position. -/
def onItems (change : Nat → Json → Json) : Json → Json
  | arr items => arr (items.mapIdx change)
  | value => value

end Json

/-- A module as JSON **without some of its fields**. -/
def ModuleGaps.trim (gaps : ModuleGaps) (value : Json) : Json :=
  (value.onMember "dependencies"
    (.onItems fun i => .without ((gaps.dependencies i).except "module")))
    |>.without (gaps.own.except "name")

/-- A configuration as JSON **without some of its fields**. -/
def ConfigGaps.trim (gaps : ConfigGaps) (value : Json) : Json :=
  value.onMember "build" (.without gaps.build)
    |>.onMember "cache" (.without gaps.cache)
    |>.onMember "modules" (.onItems fun i => (gaps.modules i).trim)
    |>.onMember "actions" (.onItems fun i => .without (gaps.actions i))
    |>.without gaps.own

def ModuleDependency.reset (gaps : Gaps) (dependency : ModuleDependency) : ModuleDependency :=
  { dependency with scope := gaps.fill "scope" .all dependency.scope }

def Module.reset (gaps : ModuleGaps) (module : Module) : Module where
  name := module.name
  path := gaps.own.fill "path" none module.path
  productType := gaps.own.fill "type" .lib module.productType
  platforms := gaps.own.fill "platforms" [] module.platforms
  dependencies := gaps.own.fill "dependencies" []
    (module.dependencies.mapIdx fun i => .reset (gaps.dependencies i))

def Action.reset (gaps : Gaps) (action : Action) : Action where
  name := gaps.fill "name" "" action.name
  command := gaps.fill "command" none action.command
  output := gaps.fill "output" .files action.output
  inputs := gaps.fill "inputs" [] action.inputs
  outputs := gaps.fill "outputs" [] action.outputs
  dependsOn := gaps.fill "depends_on" [] action.dependsOn
  moduleDependencies := gaps.fill "module_dependencies" none action.moduleDependencies
  tests := gaps.fill "tests" false action.tests
  buildTypes := gaps.fill "build_types" false action.buildTypes
  platforms := gaps.fill "platforms" [] action.platforms
  moduleTypes := gaps.fill "module_types" [] action.moduleTypes
  env := gaps.fill "env" .empty action.env
  sharedKey := gaps.fill "shared_key" none action.sharedKey
  timeoutSecs := gaps.fill "timeout_secs" none action.timeoutSecs

def BuildOptions.reset (gaps : Gaps) (options : BuildOptions) : BuildOptions where
  concurrency := gaps.fill "concurrency" 0 options.concurrency
  outputDir := gaps.fill "output_dir" ⟨"build"⟩ options.outputDir
  taskTimeoutSecs := gaps.fill "task_timeout_secs" none options.taskTimeoutSecs

def CacheOptions.reset (gaps : Gaps) (options : CacheOptions) : CacheOptions where
  enabled := gaps.fill "enabled" true options.enabled
  dir := gaps.fill "dir" ⟨".keel/cache"⟩ options.dir

/-- A configuration with **the default of every field that is left out**. -/
def Config.reset (gaps : ConfigGaps) (config : Config) : Config where
  name := gaps.own.fill "name" none config.name
  build := gaps.own.fill "build" {} (config.build.reset gaps.build)
  cache := gaps.own.fill "cache" {} (config.cache.reset gaps.cache)
  modules := gaps.own.fill "modules" [] (config.modules.mapIdx fun i => .reset (gaps.modules i))
  actions := gaps.own.fill "actions" [] (config.actions.mapIdx fun i => .reset (gaps.actions i))

/-! ### Reading fields -/

namespace Fields

variable {α : Type} {gaps : Gaps} {position : Nat} {name : String}
  {entries : List (String × Json)} {json : Json} {read : Json → Option α} {default value : α}

theorem valuesOf_without (gaps : Gaps) (name : String) (entries : List (String × Json)) :
    valuesOf name (entries.filter fun e => !gaps e.1) =
      if gaps name then [] else valuesOf name entries := by
  induction entries with
  | nil => simp [valuesOf]
  | cons entry rest ih =>
    obtain ⟨key, json⟩ := entry
    by_cases hkey : key = name
    · subst hkey
      cases hgap : gaps key <;> simp [valuesOf, hgap, ih]
    · cases hgap : gaps key <;> simp [valuesOf, hgap, hkey, ih]

theorem withDefault_named (hvalues : valuesOf name entries = [json])
    (hread : read json = some value) :
    (named entries).withDefault position name default read = some value := by
  rw [withDefault, value?, hvalues]
  exact hread

/-- **A field with a default** is read as what was written, or as the default if it is left out. -/
theorem withDefault_without (hvalues : valuesOf name entries = [json])
    (hread : read json = some value) :
    (named (entries.filter fun e => !gaps e.1)).withDefault position name default read =
      some (gaps.fill name default value) := by
  rw [withDefault, value?, valuesOf_without, hvalues, Gaps.fill]
  cases gaps name with
  | true => rfl
  | false => exact hread

theorem required_without (hvalues : valuesOf name entries = [json])
    (hread : read json = some value) :
    (named (entries.filter fun e => !gaps.except name e.1)).required position name read =
      some value := by
  have hgap : gaps.except name name = false := by simp [Gaps.except]
  rw [required, value?, valuesOf_without, hvalues, hgap]
  exact hread

theorem readOptional_text? {spell : α → String}
    (hread : ∀ value, read (.str (spell value)) = some value) (value : Option α) :
    readOptional read (.text? (value.map spell)) = some value := by
  cases value with
  | none => rfl
  | some value => exact congrArg (Option.map some) (hread value)

theorem readOptional_self (text : Option String) :
    readOptional DataFormat.text? (Json.text? text) = some text := by
  cases text <;> rfl

end Fields

open DataFormat Fields

namespace DataFormat

variable {α β : Type} {read : Json → Option β} {form : α → Json}

theorem listOf?_map {value : α → β} (hread : ∀ item, read (form item) = some (value item))
    (items : List α) : listOf? read (.arr (items.map form)) = some (items.map value) := by
  change (items.map form).mapM read = _
  induction items with
  | nil => rfl
  | cons item rest ih =>
    rw [List.map_cons, List.mapM_cons, hread, ih]
    rfl

theorem listOf?_self {read : Json → Option α} (hread : ∀ item, read (form item) = some item)
    (items : List α) : listOf? read (.arr (items.map form)) = some items := by
  rw [listOf?_map hread, List.map_id']

theorem listOf?_text? (texts : List String) : listOf? text? (Json.texts texts) = some texts :=
  @listOf?_self _ Json.str text? (fun _ => rfl) texts

theorem listOf?_texts {read : Json → Option α} {spell : α → String}
    (hread : ∀ item, read (.str (spell item)) = some item) (items : List α) :
    listOf? read (.texts (items.map spell)) = some items := by
  rw [Json.texts, List.map_map]
  exact listOf?_self hread items

theorem listOf?_onItems {change : Nat → Json → Json} {value : Nat → α → β}
    (hread : ∀ i item, read (change i (form item)) = some (value i item)) (items : List α) :
    listOf? read (.onItems change (.arr (items.map form))) = some (items.mapIdx value) := by
  have hitems := listOf?_map (fun item : α × Nat => hread item.2 item.1) items.zipIdx
  rw [Json.onItems, List.mapIdx_eq_zipIdx_map, List.zipIdx_map, List.map_map,
    List.mapIdx_eq_zipIdx_map]
  exact hitems

theorem word?_nat (value : UInt64) : word? (Json.nat value.toNat) = some value := by
  have hlt : value.toNat < UInt64.size := value.toNat_lt_size
  change Json.word? _ = _
  simp [Json.word?, Json.nat, hlt]

theorem readOptional_wordOrNull (value : Option UInt64) :
    readOptional word? (Json.wordOrNull value) = some value := by
  cases value with
  | none => rfl
  | some value => exact congrArg (Option.map some) (word?_nat value)

end DataFormat

theorem Environment.decode?_bindings (env : Environment) :
    Environment.decode? (Json.obj (env.bindings.map fun b => (b.1, .str b.2))) = some env := by
  have hentries : ∀ bindings : List (String × String),
      (bindings.map fun b => (b.1, Json.str b.2)).mapM
        (fun e => (text? e.2).map fun t => (e.1, t)) = some bindings := by
    intro bindings
    induction bindings with
    | nil => rfl
    | cons binding rest ih =>
      rw [List.map_cons, List.mapM_cons, ih]
      rfl
  change Option.map ofList ((env.bindings.map fun b => (b.1, Json.str b.2)).mapM _) = _
  rw [hentries, Option.map_some, ofList_bindings]

theorem DependencyScope.ofName?_name (scope : DependencyScope) :
    ofName? scope.name = some scope := by
  cases scope <;> rfl

theorem ResolutionScope.ofName?_name (scope : ResolutionScope) :
    ofName? scope.name = some scope := by
  cases scope <;> rfl

theorem ProductType.ofName?_name (type : ProductType) : ofName? type.name = some type := by
  cases type <;> rfl

theorem Platform.ofName?_name (platform : Platform) : ofName? platform.name = some platform := by
  cases platform <;> rfl

theorem OutputKind.ofName?_name (kind : OutputKind) : ofName? kind.name = some kind := by
  cases kind <;> rfl

/-! ### Reading records -/

theorem bind_of_eq_some {α β : Type} {found : Option α} {value : α} {read : α → Option β}
    {result : Option β} (h : found = some value) (hread : read value = result) :
    found.bind read = result :=
  h ▸ hread

theorem CacheOptions.decode?_without (gaps : Gaps) (options : CacheOptions) :
    CacheOptions.decode? (options.toJson.without gaps) = some (options.reset gaps) := by
  simp only [decode?, Option.bind_eq_bind, Option.bind_eq_some_iff]
  exact ⟨_, rfl, _, withDefault_without rfl rfl, _, withDefault_without rfl rfl, rfl⟩

theorem BuildOptions.decode?_without (gaps : Gaps) (options : BuildOptions) :
    BuildOptions.decode? (options.toJson.without gaps) = some (options.reset gaps) := by
  simp only [decode?, Option.bind_eq_bind, Option.bind_eq_some_iff]
  exact ⟨_, rfl, _, withDefault_without rfl (word?_nat _), _, withDefault_without rfl rfl, _,
    withDefault_without rfl (readOptional_wordOrNull _), rfl⟩

theorem ModuleDependency.decode?_without (gaps : Gaps) (dependency : ModuleDependency) :
    ModuleDependency.decode? (dependency.toJson.without (gaps.except "module")) =
      some (dependency.reset gaps) := by
  simp only [decode?, Option.bind_eq_bind, Option.bind_eq_some_iff]
  exact ⟨_, rfl, _, required_without rfl rfl, _,
    withDefault_without rfl (DependencyScope.ofName?_name _), rfl⟩

theorem Module.decode?_trim (gaps : ModuleGaps) (module : Module) :
    Module.decode? (gaps.trim module.toJson) = some (module.reset gaps) := by
  simp only [decode?, Option.bind_eq_bind, Option.bind_eq_some_iff]
  exact ⟨_, rfl, _, required_without rfl rfl, _,
    withDefault_without rfl (readOptional_text? (fun _ => rfl) _), _,
    withDefault_without rfl (ProductType.ofName?_name _), _,
    withDefault_without rfl (listOf?_texts Platform.ofName?_name _), _,
    withDefault_without rfl
      (listOf?_onItems (fun i => ModuleDependency.decode?_without (gaps.dependencies i)) _), rfl⟩

theorem Action.decode?_without (gaps : Gaps) (action : Action) :
    Action.decode? (action.toJson.without gaps) = some (action.reset gaps) := by
  unfold decode?
  exact bind_of_eq_some rfl <| bind_of_eq_some (withDefault_without rfl rfl) <|
    bind_of_eq_some (withDefault_without rfl (readOptional_self _)) <|
    bind_of_eq_some (withDefault_without rfl (OutputKind.ofName?_name _)) <|
    bind_of_eq_some (withDefault_without rfl (listOf?_text? _)) <|
    bind_of_eq_some (withDefault_without rfl (listOf?_text? _)) <|
    bind_of_eq_some (withDefault_without rfl (listOf?_text? _)) <|
    bind_of_eq_some
      (withDefault_without rfl (readOptional_text? ResolutionScope.ofName?_name _)) <|
    bind_of_eq_some (withDefault_without rfl rfl) <|
    bind_of_eq_some (withDefault_without rfl rfl) <|
    bind_of_eq_some (withDefault_without rfl (listOf?_texts Platform.ofName?_name _)) <|
    bind_of_eq_some (withDefault_without rfl (listOf?_texts ProductType.ofName?_name _)) <|
    bind_of_eq_some (withDefault_without rfl (Environment.decode?_bindings _)) <|
    bind_of_eq_some (withDefault_without rfl (readOptional_self _)) <|
    bind_of_eq_some (withDefault_without rfl (readOptional_wordOrNull _)) rfl

theorem Config.decode?_trim (gaps : ConfigGaps) (config : Config) :
    Config.decode? (gaps.trim config.toJson) = some (config.reset gaps) := by
  simp only [decode?, Option.bind_eq_bind, Option.bind_eq_some_iff]
  exact ⟨_, rfl, _, withDefault_without rfl (readOptional_self _), _,
    withDefault_without rfl (BuildOptions.decode?_without _ _), _,
    withDefault_without rfl (CacheOptions.decode?_without _ _), _,
    withDefault_without rfl (listOf?_onItems (fun i => Module.decode?_trim (gaps.modules i)) _), _,
    withDefault_without rfl
      (listOf?_onItems (fun i => Action.decode?_without (gaps.actions i)) _), rfl⟩

/-! ### Reading all fields -/

theorem Module.decode?_toJson (module : Module) : Module.decode? module.toJson = some module := by
  simp only [decode?, Option.bind_eq_bind, Option.bind_eq_some_iff]
  exact ⟨_, rfl, _, rfl, _, withDefault_named rfl (readOptional_text? (fun _ => rfl) _), _,
    withDefault_named rfl (ProductType.ofName?_name _), _,
    withDefault_named rfl (listOf?_texts Platform.ofName?_name _), _,
    withDefault_named rfl (listOf?_self (ModuleDependency.decode?_without fun _ => false) _), rfl⟩

theorem Config.decode?_toJson (config : Config) : Config.decode? config.toJson = some config := by
  simp only [decode?, Option.bind_eq_bind, Option.bind_eq_some_iff]
  exact ⟨_, rfl, _, withDefault_named rfl (readOptional_self _), _,
    withDefault_named rfl (BuildOptions.decode?_without (fun _ => false) _), _,
    withDefault_named rfl (CacheOptions.decode?_without (fun _ => false) _), _,
    withDefault_named rfl (listOf?_self Module.decode?_toJson _), _,
    withDefault_named rfl (listOf?_self (Action.decode?_without fun _ => false) _), rfl⟩

/-- **A configuration is read back from what is written of it**, and if fields that have a default
are left out of that, these are read as their defaults and all others as they were. -/
theorem Config.decoding_reads_back (config : Config) :
    Config.decode? config.toJson = some config ∧
      ∀ gaps : ConfigGaps, Config.decode? (gaps.trim config.toJson) = some (config.reset gaps) :=
  ⟨config.decode?_toJson, fun gaps => config.decode?_trim gaps⟩

end BuildMatrix
