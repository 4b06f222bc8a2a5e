import BuildMatrix.Project

/-!
# The build matrix

The tasks of a project are spread over a matrix: module by platform by partition (main or test) by
build type. A cell is one combination. A selection starts from modules, is expanded over platforms,
and may then be expanded over partitions and build types; at every point modules can be filtered by
product type.
-/

namespace BuildMatrix

/-- One **cell** of the build matrix. -/
structure Cell where
  module : Module
  platform : Platform
  isTest : Bool := false
  /-- Nothing unless the cells were expanded over build types. -/
  buildType : Option BuildType := none
  deriving DecidableEq, Inhabited, Repr

namespace Cell

/-- The cell outside the tests. -/
def mainPartition (cell : Cell) : Cell :=
  { cell with isTest := false }

def withModule (cell : Cell) (module : Module) : Cell :=
  { cell with module }

end Cell

namespace Matrix

def filterModules (accepts : ProductType → Bool) (modules : List Module) : List Module :=
  modules.filter fun m => accepts m.productType

/-- The platforms of a module that a restriction allows; an empty restriction allows all. -/
def platformsOf (only : List Platform) (module : Module) : List Platform :=
  module.platforms.filter fun p => only.isEmpty || only.contains p

/-- The **cells of modules** over the platforms that a restriction allows, in the main partition. -/
def ofModules (only : List Platform) (modules : List Module) : List Cell :=
  modules.flatMap fun m => (platformsOf only m).map fun p => { module := m, platform := p }

def filterCells (accepts : ProductType → Bool) (cells : List Cell) : List Cell :=
  cells.filter fun c => accepts c.module.productType

def withTests (cells : List Cell) : List Cell :=
  cells.flatMap fun c => [c, { c with isTest := true }]

def withBuildTypes (cells : List Cell) : List Cell :=
  cells.flatMap fun c => BuildType.all.map fun b => { c with buildType := some b }

/-- Each cell with each module it depends on in a scope; a module that is not built for the
cell's platform is left out. -/
def dependencyPairs (project : Project) (scope : ResolutionScope) (cells : List Cell) :
    List (Cell × Module) :=
  cells.flatMap fun c =>
    (c.module.dependencies.filter fun d => d.scope.includes scope).filterMap fun d =>
      match project.module? d.module with
      | some m => if m.hasPlatform c.platform then some (c, m) else none
      | none => none

end Matrix

end BuildMatrix
