import BuildMatrix.Graph.Basic
import BuildMatrix.Json.Access
import BuildMatrix.Layout
import BuildMatrix.TaskResult

/-!
# The JSON form of graphs and results
-/

namespace BuildMatrix

def Json.paths (paths : List Path) : Json := .texts (paths.map (·.text))

def Json.pathsField (value : Json) (name : String) : List Path :=
  (value.textsField name).map Path.mk

def Json.tasks (names : List TaskName) : Json := .texts (names.map (·.text))

def Json.tasksField (value : Json) (name : String) : List TaskName :=
  (value.textsField name).map TaskName.mk

/-- A **cell** as a list: module, platform, partition and build type. -/
def Cell.toJson (cell : Cell) : Json :=
  .arr [.str cell.module.name, .str cell.platform.name, .bool cell.isTest,
    .text? (cell.buildType.map (·.name))]

/-- The **directories** of a layout. -/
def Layout.members (layout : Layout) : List (String × Json) := [
  ("project_root", .str layout.projectRoot.text),
  ("build_root", .str layout.buildRoot.text),
  ("tasks_root", .str layout.tasksRoot.text),
  ("logs_root", .str layout.logsRoot.text),
  ("temp_root", .str layout.tempRoot.text),
  ("cache_root", .str layout.cacheRoot.text)]

namespace Output

def members (output : Output) : List (String × Json) :=
  (match output with
    | classpath entries _ => [("entries", .paths entries)]
    | tool name _ => [("name", .str name)]
    | _ => [])
    ++ [("paths", .paths output.paths), ("variant", .str output.variantName)]

/-- An **output**, its members in order. -/
def toJson (output : Output) : Json := .obj output.members

def ofJson (value : Json) : Output :=
  let path : Path := ⟨value.textField "path"⟩
  match value.textField "kind" with
  | "files" => files (value.pathsField "paths")
  | "classes" => classes path
  | "jar" => jar path
  | "classpath" => classpath (value.pathsField "entries") path
  | "tool" => tool (value.textField "name") path
  | _ => none

end Output

/-- A **result**: its output and the tasks it was made from. -/
def TaskResult.toJson (result : TaskResult) : Json :=
  .obj (result.output.members ++ [("deps", .tasks (result.dependencies.map (·.task)))])

def Node.toJson {ω : Type} (node : Node ω) : Json := .obj [
  ("name", .str node.name.text),
  ("deps", .tasks node.dependencies),
  ("dependents", .tasks node.dependents),
  ("wave", .nat node.wave),
  ("kind", .text? node.task.kind),
  ("description", .str node.task.description)]

/-- A **graph**, with its orders and its plan. -/
def TaskGraph.toJson {ω : Type} (graph : TaskGraph ω) : Json := .obj [
  ("len", .nat graph.size),
  ("nodes", .arr (graph.nodes.map Node.toJson)),
  ("waves", .arr (graph.waves.map Json.tasks)),
  ("sorted", .tasks graph.sorted),
  ("plan", .str graph.plan)]

end BuildMatrix
