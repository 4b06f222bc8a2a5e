import BuildMatrix.Config.Basic
import BuildMatrix.Duration
import BuildMatrix.Layout
import BuildMatrix.Output
import BuildMatrix.TaskName
import BuildMatrix.Text.Replace

/-!
# Command tasks

A command task runs the shell command of an action in one cell of the matrix. Placeholders in the
command stand for the cell and its directories. What the task's outputs depend on, besides the
content of its inputs, is its *configuration*: a map from names to values in which two tasks differ
whenever they could produce something different.
-/

namespace BuildMatrix

/-- A **command task**: an action in a cell of the matrix. -/
structure Command where
  name : TaskName
  kind : String
  module : String
  moduleDir : Path
  platform : Platform
  isTest : Bool
  buildType : Option BuildType
  command : String
  inputs : List String
  outputs : List String
  output : OutputKind
  env : Environment
  sharedKey : Option String
  timeout : Option Duration

namespace Command

/-- The task of an action in a cell; the timeout is the action's own, or else the default. -/
def ofCell (action : Action) (cell : Cell) (root : Path) (timeout : Option Duration) : Command where
  name := TaskName.ofCell action.name cell
  kind := action.name
  module := cell.module.name
  moduleDir := cell.module.dir root
  platform := cell.platform
  isTest := cell.isTest
  buildType := cell.buildType
  command := action.command.getD ""
  inputs := action.inputs
  outputs := action.outputs
  output := action.output
  env := action.env
  sharedKey := action.sharedKey
  timeout := match action.timeoutSecs with
    | some seconds => some (.ofSeconds seconds.toNat)
    | none => timeout

/-- The spelling of the cell's build type, empty where it has none. -/
def buildTypeName (task : Command) : String :=
  match task.buildType with
  | some type => type.name
  | none => ""

/-- The placeholders of a command with what they stand for, in the order they are replaced. -/
def placeholders (task : Command) (outputDir : Path) : List (String × String) := [
  ("\x7boutput\x7d", outputDir.text),
  ("\x7bmodule_dir\x7d", task.moduleDir.text),
  ("\x7bmodule\x7d", task.module),
  ("\x7bplatform\x7d", task.platform.name),
  ("\x7bbuild_type\x7d", task.buildTypeName)]

/-- The command **with its placeholders replaced**, one placeholder after the other. -/
def expand (task : Command) (outputDir : Path) : String :=
  (task.placeholders outputDir).foldl (fun text p => Text.replaceAll p.1 p.2 text) task.command

def flagText (flag : Bool) : String := if flag then "true" else "false"

/-- What distinguishes the cell of a task from other cells of its action. -/
def cellConfiguration (task : Command) : List (String × String) := [
  ("platform", task.platform.name),
  ("test", flagText task.isTest),
  ("build_type", task.buildTypeName)]

/-- What the **outputs depend on** besides the inputs. Cells that share a key have to agree on it,
so the cell is only part of it for the others. -/
def configuration (task : Command) (host : Host) : Environment :=
  .ofList <|
    [("command", task.command), ("output", task.output.title)]
      ++ (if task.sharedKey.isNone then task.cellConfiguration else [])
      ++ [("host.os", host.os.systemName), ("host.arch", host.arch.name)]
      ++ task.env.bindings.map fun b => ("env." ++ b.1, b.2)

/-- The directory of a shared key. -/
def sharedDir (layout : Layout) (key : String) : Path :=
  (layout.tasksRoot.child "_shared").child (TaskName.dirName key)

/-- Where the command **writes**: the task's own directory, or the one of its shared key. -/
def outputDir (task : Command) (layout : Layout) (own : Path) : Path :=
  match task.sharedKey with
  | some key => sharedDir layout key
  | none => own

/-- The **output** that the paths a command wrote make up. -/
def toOutput (task : Command) (paths : List Path) (outputDir : Path) : Output :=
  let first := paths.head?.getD outputDir
  match task.output with
  | .files => .files paths
  | .classpath => .files paths
  | .classes => .classes first
  | .jar => .jar ((paths.find? fun p => p.extension? == some "jar").getD first)
  | .tool => .tool task.kind first

end Command

end BuildMatrix
