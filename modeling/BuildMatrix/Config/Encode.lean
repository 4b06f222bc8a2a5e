import BuildMatrix.Config.Basic
import BuildMatrix.Json.Format

/-!
# Configurations as JSON values

The JSON form of a configuration, with every field in it and `null` for what is not given.
-/

namespace BuildMatrix

namespace Json

/-- A word of 64 bits as a number, or `null` where there is none. -/
def wordOrNull (value : Option UInt64) : Json :=
  match value with
  | some n => nat n.toNat
  | none => null

end Json

def ModuleDependency.toJson (dependency : ModuleDependency) : Json :=
  .obj [("module", .str dependency.module), ("scope", .str dependency.scope.name)]

def Module.toJson (module : Module) : Json :=
  .obj [
    ("name", .str module.name),
    ("path", .text? (module.path.map (·.text))),
    ("type", .str module.productType.name),
    ("platforms", .texts (module.platforms.map (·.name))),
    ("dependencies", .arr (module.dependencies.map ModuleDependency.toJson))]

def Action.toJson (action : Action) : Json :=
  .obj [
    ("name", .str action.name),
    ("command", .text? action.command),
    ("output", .str action.output.name),
    ("inputs", .texts action.inputs),
    ("outputs", .texts action.outputs),
    ("depends_on", .texts action.dependsOn),
    ("module_dependencies", .text? (action.moduleDependencies.map (·.name))),
    ("tests", .bool action.tests),
    ("build_types", .bool action.buildTypes),
    ("platforms", .texts (action.platforms.map (·.name))),
    ("module_types", .texts (action.moduleTypes.map (·.name))),
    ("env", .obj (action.env.bindings.map fun b => (b.1, .str b.2))),
    ("shared_key", .text? action.sharedKey),
    ("timeout_secs", .wordOrNull action.timeoutSecs)]

def BuildOptions.toJson (options : BuildOptions) : Json :=
  .obj [
    ("concurrency", .nat options.concurrency.toNat),
    ("output_dir", .str options.outputDir.text),
    ("task_timeout_secs", .wordOrNull options.taskTimeoutSecs)]

def CacheOptions.toJson (options : CacheOptions) : Json :=
  .obj [("enabled", .bool options.enabled), ("dir", .str options.dir.text)]

def Config.toJson (config : Config) : Json :=
  .obj [
    ("name", .text? config.name),
    ("build", config.build.toJson),
    ("cache", config.cache.toJson),
    ("modules", .arr (config.modules.map Module.toJson)),
    ("actions", .arr (config.actions.map Action.toJson))]

end BuildMatrix
