import BuildMatrix.Form.Report
import BuildMatrix.Json.Printer
import BuildMatrix.Perform

/-!
# Scripted tasks

A build can be rehearsed without running commands: each task follows a script that says what it
writes, what it does through the cache, which output it needs from its dependencies, and how it
ends.
-/

namespace BuildMatrix

/-- A piece of work that a scripted task does **through the cache**: it writes a text and the
content of its inputs to a file. -/
structure ScriptedWork where
  identity : String
  configuration : Environment
  inputs : List Path
  /-- Whether the outputs of the dependencies are inputs too. -/
  usesDependencies : Bool
  failure : Option String
  text : String
  file : String

/-- How a script **ends**. -/
inductive ScriptEnd where
  | success (output : Output)
  | failure (failure : Failure)

/-- What a scripted task **does**, in this order. -/
structure Script where
  lines : List OutputLine
  /-- Whether the task asks the build to stop. -/
  cancels : Bool
  works : List ScriptedWork
  requires : Option Variant
  ending : ScriptEnd

def Environment.ofJson (value : Json) : Environment :=
  .ofList (value.members.filterMap fun (name, value) => match value with
    | .str text => some (name, text)
    | _ => none)

namespace ScriptedWork

def ofJson (name : TaskName) (value : Json) : ScriptedWork where
  identity := (value.textField? "identity").getD name.text
  configuration := .ofJson (value.field "config")
  inputs := value.pathsField "inputs"
  usesDependencies := value.flagField "use_deps"
  failure := value.textField? "fail"
  text := value.textField "text"
  file := (value.textField? "out").getD "out.txt"

def contents (tree : FileTree) (paths : List Path) : ByteArray :=
  paths.foldl (fun content path => match tree.read path with
    | .ok more => content ++ more
    | .error _ => content) ByteArray.empty

def job (work : ScriptedWork) (place : Place) (name : TaskName) (dependencies : List TaskResult) :
    Job Execution := do
  let inputs := work.inputs
    ++ (if work.usesDependencies then TaskResult.outputPaths dependencies else [])
  place.cached work.identity work.configuration inputs do
    Job.emit ("body " ++ work.identity)
    match work.failure with
    | some reason => Job.failed (.custom reason)
    | none =>
      let tree := (← Job.get).tree
      let file := (place.ownDir name).child work.file
      Job.writeFile file (work.text.toUTF8 ++ contents tree inputs)
      return [file]

/-- Pieces of work one after the other, and all they produce. -/
def jobs (place : Place) (name : TaskName) (dependencies : List TaskResult) :
    List ScriptedWork → Job (List Path)
  | [] => return []
  | work :: rest => do
      let execution ← work.job place name dependencies
      let others ← jobs place name dependencies rest
      return execution.outputs ++ others

end ScriptedWork

namespace Script

def endOfJson (value : Json) : ScriptEnd :=
  let message := value.textField "message"
  match value.textField "end" with
  | "fail" => .failure (.custom message)
  | "command_failed" => .failure (.commandFailed (value.intField? "code") message)
  | "cancelled" => .failure .cancelled
  | "panic" => .failure (.panicked message)
  | "panic_str" => .failure (.panicked "static panic text")
  | "panic_other" => .failure (.panicked "unknown panic")
  | _ => .success (.ofJson (value.field "output"))

/-- A line that a script emits. -/
def lineOfJson? : Json → Option OutputLine
  | .arr [.str text, .bool isStderr] => some { text, isStderr }
  | _ => none

def ofJson (name : TaskName) (value : Json) : Script where
  lines := (value.listField "emit").filterMap lineOfJson?
  cancels := value.flagField "cancel"
  works := (value.listField "cached").map (ScriptedWork.ofJson name)
  requires := (value.textField? "require").bind Variant.ofName?
  ending := endOfJson value

def emitAll (lines : List OutputLine) : Job Unit :=
  Job.modify fun session => { session with lines := session.lines ++ lines }

/-- Write which output was found among the dependencies, or why none was. -/
def require (dependencies : List TaskResult) : Option Variant → Job Unit
  | none => return ()
  | some variant =>
    match TaskResult.requireSingle variant dependencies with
    | .ok output => Job.emit output.toJson.compact
    | .error failure => do
        Job.emit failure.toJson.compact
        Job.failed failure

/-- The first line of a script. -/
def opening (name : TaskName) (dependencies : List TaskResult) : String :=
  "run " ++ name.text ++ " deps=" ++ ",".intercalate (dependencies.map (·.task.text))

def job (script : Script) (place : Place) (name : TaskName) (dependencies : List TaskResult) :
    Job Output := do
  Job.emit (opening name dependencies)
  emitAll script.lines
  if script.cancels then Job.modify fun session => { session with isStopping := true }
  let paths ← ScriptedWork.jobs place name dependencies script.works
  require dependencies script.requires
  match script.ending with
  | .failure failure => Job.failed failure
  | .success output => return if paths.isEmpty then output else .files paths

end Script

end BuildMatrix
