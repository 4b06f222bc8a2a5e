import BuildMatrix.Environment
import BuildMatrix.Project

/-!
# Project configurations

What a project file says: options of the build and of its cache, the modules, and the actions that
are expanded over the matrix of modules. Numbers in a configuration have 64 bits.
-/

namespace BuildMatrix

/-- One build **action**, expanded over every cell of the matrix it applies to. -/
structure Action where
  name : String := ""
  /-- The shell command; the classpath action has none. -/
  command : Option String := none
  output : OutputKind := .files
  /-- Patterns of input files below the module's directory; all files where there are none. -/
  inputs : List String := []
  /-- Patterns of output files below the task's directory; the directory where there are none. -/
  outputs : List String := []
  /-- Actions of the same cell that have to be done before. -/
  dependsOn : List String := []
  /-- Wait for the same action of the modules depended on in this scope. -/
  moduleDependencies : Option ResolutionScope := none
  /-- Whether the test partition has a task too. -/
  tests : Bool := false
  buildTypes : Bool := false
  /-- Restriction to platforms; none restricts nothing. -/
  platforms : List Platform := []
  /-- Restriction to product types; none restricts nothing. -/
  moduleTypes : List ProductType := []
  env : Environment := .empty
  /-- An identity in the cache that all cells of the action share. -/
  sharedKey : Option String := none
  timeoutSecs : Option UInt64 := none
  deriving DecidableEq, Inhabited

namespace Action

def acceptsType (action : Action) (type : ProductType) : Bool :=
  action.moduleTypes.isEmpty || action.moduleTypes.contains type

def acceptsPlatform (action : Action) (platform : Platform) : Bool :=
  action.platforms.isEmpty || action.platforms.contains platform

end Action

/-- Options of the build. -/
structure BuildOptions where
  /-- How many tasks may run at once; zero for as many as the machine has processors. -/
  concurrency : UInt64 := 0
  outputDir : Path := ⟨"build"⟩
  taskTimeoutSecs : Option UInt64 := none
  deriving DecidableEq, Inhabited, Repr

/-- Options of the cache. -/
structure CacheOptions where
  enabled : Bool := true
  dir : Path := ⟨".keel/cache"⟩
  deriving DecidableEq, Inhabited, Repr

/-- A **configuration**. -/
structure Config where
  name : Option String := none
  build : BuildOptions := {}
  cache : CacheOptions := {}
  modules : List Module := []
  actions : List Action := []
  deriving DecidableEq, Inhabited

end BuildMatrix
