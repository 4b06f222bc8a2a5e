import BuildMatrix.Command.Basic
import BuildMatrix.Graph.Builder

/-!
# From actions to tasks

Every action becomes one task in each cell of the matrix it applies to. Dependencies are declared by
the names of tasks, which are made in one way for all tasks, so that a task may be registered before
or after those it depends on. A task depends on the tasks of the listed actions in its own cell, a
test task on the main task of its action, and, if the action asks for it, a task on the main task of
its action in the modules that its module depends on.
-/

namespace BuildMatrix

/-- What a task of the pipeline **does**. -/
inductive Work where
  | command (command : Command)
  /-- Collect the classpath from the tasks it depends on. -/
  | classpath

/-- The actions of a **project**, with the timeout of those that have none of their own. -/
structure Pipeline where
  project : Project
  actions : List Action
  timeout : Option Duration := none

namespace Pipeline

/-- The **cells** an action applies to. -/
def cells (pipeline : Pipeline) (action : Action) : List Cell :=
  let cells := Matrix.ofModules action.platforms
    (Matrix.filterModules action.acceptsType pipeline.project.modules)
  let cells := if action.tests then Matrix.withTests cells else cells
  if action.buildTypes then Matrix.withBuildTypes cells else cells

def action? (pipeline : Pipeline) (name : String) : Option Action :=
  pipeline.actions.find? fun a => a.name == name

/-- The build types of an action's tasks that a task with a build type depends on. -/
def peerBuildTypes (peer : Action) (buildType : Option BuildType) : List (Option BuildType) :=
  if peer.buildTypes then
    match buildType with
    | some type => [some type]
    | none => BuildType.all.map some
  else [none]

/-- The tasks of an action that a cell depends on; none where the action does not apply. -/
def peerTasks (peer : Action) (cell : Cell) : List TaskName :=
  if peer.acceptsType cell.module.productType && peer.acceptsPlatform cell.platform then
    (peerBuildTypes peer cell.buildType).map fun buildType =>
      TaskName.ofCell peer.name { cell with isTest := cell.isTest && peer.tests, buildType }
  else []

/-- The tasks of the actions with some names that a cell depends on. -/
def peersOf (pipeline : Pipeline) (action : Action) (cell : Cell) :
    List String → Except GraphError (List TaskName)
  | [] => .ok []
  | name :: rest =>
    match pipeline.action? name with
    | none => .error (.unknownAction action.name name)
    | some peer =>
      match peersOf pipeline action cell rest with
      | .error error => .error error
      | .ok others => .ok (peerTasks peer cell ++ others)

/-- The **tasks of its own cell** that a task depends on. -/
def peers (pipeline : Pipeline) (action : Action) (cell : Cell) :
    Except GraphError (List TaskName) :=
  match pipeline.peersOf action cell action.dependsOn with
  | .error error => .error error
  | .ok names =>
    .ok (if cell.isTest then names ++ [TaskName.ofCell action.name cell.mainPartition] else names)

def task (pipeline : Pipeline) (action : Action) (cell : Cell) : Task Work :=
  let name := TaskName.ofCell action.name cell
  if action.output = .classpath then
    { name, kind := some action.name, description := "assemble runtime classpath",
      work := .classpath }
  else
    let command := Command.ofCell action cell pipeline.project.root pipeline.timeout
    { name, kind := some action.name, description := command.command, work := .command command }

/-- The dependencies of an action's tasks on those of other modules. -/
def moduleEdges (pipeline : Pipeline) (action : Action) : List (TaskName × TaskName) :=
  match action.moduleDependencies with
  | none => []
  | some scope =>
    (Matrix.dependencyPairs pipeline.project scope (pipeline.cells action)).filterMap
      fun (cell, module) =>
        if action.acceptsType module.productType then
          some (TaskName.ofCell action.name cell,
            TaskName.ofCell action.name (cell.withModule module).mainPartition)
        else none

/-- Declarations that were refused, with those that were accepted before. -/
structure Refusal where
  error : GraphError
  builder : GraphBuilder Work

/-- Declare the tasks of some cells of an action, and **count** them. -/
def registerCells (pipeline : Pipeline) (action : Action) :
    Nat → GraphBuilder Work → List Cell → Except Refusal (Nat × GraphBuilder Work)
  | count, builder, [] => .ok (count, builder)
  | count, builder, cell :: rest =>
    match pipeline.peers action cell with
    | .error error => .error ⟨error, builder⟩
    | .ok names =>
      match builder.register (pipeline.task action cell) names with
      | .error error => .error ⟨error, builder⟩
      | .ok builder => registerCells pipeline action (count + 1) builder rest

/-- Declare the tasks and dependencies of some actions, and count the tasks. -/
def registerActions (pipeline : Pipeline) :
    Nat → GraphBuilder Work → List Action → Except Refusal (Nat × GraphBuilder Work)
  | count, builder, [] => .ok (count, builder)
  | count, builder, action :: rest =>
    match pipeline.registerCells action count builder (pipeline.cells action) with
    | .error refusal => .error refusal
    | .ok (count, builder) =>
      let builder := (pipeline.moduleEdges action).foldl
        (fun builder edge => builder.depend edge.1 edge.2) builder
      registerActions pipeline count builder rest

/-- **All declarations** of a project's actions, with the number of tasks. -/
def register (pipeline : Pipeline) : Except Refusal (Nat × GraphBuilder Work) :=
  pipeline.registerActions 0 {} pipeline.actions

end Pipeline

end BuildMatrix
