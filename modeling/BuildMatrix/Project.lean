import BuildMatrix.Path
import BuildMatrix.Platform

/-!
# Modules and projects

A project is a root directory with modules; a module is built for the platforms it lists and may
depend on other modules of the project. A project is only made from modules with distinct names
whose dependencies are modules of the project.
-/

namespace BuildMatrix

/-- A dependency of one module on another. -/
structure ModuleDependency where
  module : String
  scope : DependencyScope := .all
  deriving DecidableEq, Inhabited, Repr

/-- A **module**: a directory that is built for some platforms. -/
structure Module where
  name : String
  /-- The directory below the project root; the module's name where none is given. -/
  path : Option Path := none
  productType : ProductType := .lib
  platforms : List Platform := []
  dependencies : List ModuleDependency := []
  deriving DecidableEq, Inhabited, Repr

namespace Module

def dir (module : Module) (root : Path) : Path :=
  root.join (module.path.getD ⟨module.name⟩)

def hasPlatform (module : Module) (platform : Platform) : Bool :=
  module.platforms.contains platform

def withPlatforms (module : Module) (platforms : List Platform) : Module :=
  { module with platforms }

def withDependency (module : Module) (name : String) (scope : DependencyScope) : Module :=
  { module with dependencies := module.dependencies ++ [⟨name, scope⟩] }

def withPath (module : Module) (path : Path) : Module :=
  { module with path := some path }

end Module

/-- What is wrong with the description of a project. -/
inductive ModelError where
  | duplicateModule (name : String)
  | unknownModuleDependency (module dependency : String)
  | unknownPlatform (spelling : String)
  deriving DecidableEq, Inhabited, Repr

def ModelError.message : ModelError → String
  | duplicateModule name => s!"Module '{name}' is declared more than once"
  | unknownModuleDependency module dependency =>
    s!"Module '{module}' depends on unknown module '{dependency}'"
  | unknownPlatform spelling => s!"Unknown platform: {spelling}"

/-- A **project**: modules under a root directory. -/
structure Project where
  root : Path
  modules : List Module
  deriving DecidableEq, Inhabited, Repr

namespace Project

/-- The first name of a list that also stands before it; `seen` holds the names before the list. -/
def firstRepeated? : List String → List String → Option String
  | _, [] => none
  | seen, name :: rest =>
    if seen.contains name then some name else firstRepeated? (name :: seen) rest

/-- The first dependency on a module whose name is not in the list, with its module. -/
def firstUnknown? (names : List String) : List Module → Option (String × String)
  | [] => none
  | module :: rest =>
    match module.dependencies.find? fun d => !names.contains d.module with
    | some dependency => some (module.name, dependency.module)
    | none => firstUnknown? names rest

/-- The check of a list of modules: names are distinct, and then every dependency is declared. -/
def checkModules (modules : List Module) : Except ModelError Unit :=
  let names := modules.map (·.name)
  match firstRepeated? [] names with
  | some name => .error (.duplicateModule name)
  | none =>
    match firstUnknown? names modules with
    | some (module, dependency) => .error (.unknownModuleDependency module dependency)
    | none => .ok ()

/-- A **project from modules** that pass the check. -/
def make (root : Path) (modules : List Module) : Except ModelError Project :=
  match checkModules modules with
  | .error error => .error error
  | .ok () => .ok ⟨root, modules⟩

def module? (project : Project) (name : String) : Option Module :=
  project.modules.find? fun m => m.name == name

end Project

end BuildMatrix
