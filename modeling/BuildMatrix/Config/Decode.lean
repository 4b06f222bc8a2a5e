import BuildMatrix.Config.Basic
import BuildMatrix.DataFormat

/-!
# Configurations from values

A configuration read from a value of any data format. A field that a record of options, an action
or a configuration does not have takes its default; a module needs a name and a dependency a module,
and everything else in them has a default too. Fields with other names are ignored.
-/

namespace BuildMatrix

open DataFormat

variable {ν : Type} [DataFormat ν]

def Path.decode? (value : ν) : Option Path :=
  (text? value).map Path.mk

def ModuleDependency.decode? (value : ν) : Option ModuleDependency := do
  let fields ← Fields.ofValue? 2 value
  let module ← fields.required 0 "module" text?
  let scope ← fields.withDefault 1 "scope" .all (member? DependencyScope.ofName?)
  pure { module, scope }

def Module.decode? (value : ν) : Option Module := do
  let fields ← Fields.ofValue? 5 value
  let name ← fields.required 0 "name" text?
  let path ← fields.optional 1 "path" Path.decode?
  let productType ← fields.withDefault 2 "type" .lib (member? ProductType.ofName?)
  let platforms ← fields.withDefault 3 "platforms" [] (listOf? (member? Platform.ofName?))
  let dependencies ← fields.withDefault 4 "dependencies" [] (listOf? ModuleDependency.decode?)
  pure { name, path, productType, platforms, dependencies }

def Environment.decode? (value : ν) : Option Environment :=
  (textMap? value).map Environment.ofList

def Action.decode? (value : ν) : Option Action := do
  let fields ← Fields.ofValue? 14 value
  let name ← fields.withDefault 0 "name" "" text?
  let command ← fields.optional 1 "command" text?
  let output ← fields.withDefault 2 "output" .files (member? OutputKind.ofName?)
  let inputs ← fields.withDefault 3 "inputs" [] (listOf? text?)
  let outputs ← fields.withDefault 4 "outputs" [] (listOf? text?)
  let dependsOn ← fields.withDefault 5 "depends_on" [] (listOf? text?)
  let moduleDependencies ←
    fields.optional 6 "module_dependencies" (member? ResolutionScope.ofName?)
  let tests ← fields.withDefault 7 "tests" false flag?
  let buildTypes ← fields.withDefault 8 "build_types" false flag?
  let platforms ← fields.withDefault 9 "platforms" [] (listOf? (member? Platform.ofName?))
  let moduleTypes ← fields.withDefault 10 "module_types" [] (listOf? (member? ProductType.ofName?))
  let env ← fields.withDefault 11 "env" .empty Environment.decode?
  let sharedKey ← fields.optional 12 "shared_key" text?
  let timeoutSecs ← fields.optional 13 "timeout_secs" word?
  pure { name, command, output, inputs, outputs, dependsOn, moduleDependencies, tests, buildTypes,
         platforms, moduleTypes, env, sharedKey, timeoutSecs }

def BuildOptions.decode? (value : ν) : Option BuildOptions := do
  let fields ← Fields.ofValue? 3 value
  let concurrency ← fields.withDefault 0 "concurrency" 0 word?
  let outputDir ← fields.withDefault 1 "output_dir" ⟨"build"⟩ Path.decode?
  let taskTimeoutSecs ← fields.optional 2 "task_timeout_secs" word?
  pure { concurrency, outputDir, taskTimeoutSecs }

def CacheOptions.decode? (value : ν) : Option CacheOptions := do
  let fields ← Fields.ofValue? 2 value
  let enabled ← fields.withDefault 0 "enabled" true flag?
  let dir ← fields.withDefault 1 "dir" ⟨".keel/cache"⟩ Path.decode?
  pure { enabled, dir }

def Config.decode? (value : ν) : Option Config := do
  let fields ← Fields.ofValue? 5 value
  let name ← fields.optional 0 "name" text?
  let build ← fields.withDefault 1 "build" {} BuildOptions.decode?
  let cache ← fields.withDefault 2 "cache" {} CacheOptions.decode?
  let modules ← fields.withDefault 3 "modules" [] (listOf? Module.decode?)
  let actions ← fields.withDefault 4 "actions" [] (listOf? Action.decode?)
  pure { name, build, cache, modules, actions }

end BuildMatrix
