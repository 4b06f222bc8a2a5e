import BuildMatrix.TaskName
import BuildMatrix.Text.Escaped

/-!
# Task graphs

A task graph holds tasks and what each depends on. It is only made from declarations that pass
every check, and never changes afterwards. Besides the tasks in the order of their registration it
knows an order in which each task stands after its dependencies, and the *wave* of each task: the
length of the longest chain of dependencies below it.
-/

namespace BuildMatrix

/-- What can be wrong with a **task graph**. -/
inductive GraphError where
  | duplicateTask (name : TaskName)
  /-- A dependency has an end that is no task. -/
  | unresolvedReference (missing dependent dependency : TaskName)
  /-- Each of these tasks depends on the next, and the last one on the first. -/
  | cyclicDependency (cycle : List TaskName)
  | outputDirectoryConflict (first second : TaskName)
  | unknownTask (name : TaskName)
  | unknownAction (action dependency : String)
  deriving DecidableEq, Inhabited, Repr

namespace GraphError

/-- The names of a cycle, the first one again at the end. -/
def cycleText (cycle : List TaskName) : String :=
  " -> ".intercalate ((cycle ++ cycle.take 1).map (·.text))

def message : GraphError → String
  | duplicateTask name => "Task '" ++ name.text ++ "' is registered more than once"
  | unresolvedReference missing dependent dependency =>
    "Dependency " ++ dependent.text ++ " -> " ++ dependency.text
      ++ " references unregistered task '" ++ missing.text ++ "'"
  | cyclicDependency cycle => "Cyclic dependency detected: " ++ cycleText cycle
  | outputDirectoryConflict first second =>
    "Tasks '" ++ first.text ++ "' and '" ++ second.text ++ "' would share an output directory"
  | unknownTask name => "Unknown task '" ++ name.text ++ "'"
  | unknownAction action dependency =>
    s!"Action '{action}' depends on unknown action '{dependency}'"

end GraphError

/-- A **task**; `ω` is the type of its work. -/
structure Task (ω : Type) where
  name : TaskName
  /-- The action it was registered for. -/
  kind : Option String := none
  description : String
  work : ω

/-- A task **in a graph**. -/
structure Node (ω : Type) where
  task : Task ω
  /-- The tasks that have to be done before, in declaration order. -/
  dependencies : List TaskName
  /-- The tasks that wait for this one, in registration order. -/
  dependents : List TaskName
  /-- The length of the longest chain of dependencies. -/
  wave : Nat

namespace Node

variable {ω : Type}

def name (node : Node ω) : TaskName := node.task.name

def namesText (names : List TaskName) : String :=
  "[" ++ ", ".intercalate (names.map fun n => "TaskName(" ++ Text.escaped n.text ++ ")") ++ "]"

def text (node : Node ω) : String :=
  "TaskNode \x7b name: TaskName(" ++ Text.escaped node.name.text ++ "), dependencies: "
    ++ namesText node.dependencies ++ ", dependents: " ++ namesText node.dependents
    ++ ", wave: " ++ toString node.wave ++ " \x7d"

def planLine (node : Node ω) : String :=
  let line := "  " ++ node.name.text ++ " -> " ++ node.task.description
  if node.dependencies.isEmpty then line ++ "\n"
  else line ++ " (after: " ++ ", ".intercalate (node.dependencies.map (·.text)) ++ ")\n"

end Node

/-- A **task graph**. -/
structure TaskGraph (ω : Type) where
  /-- The tasks, in registration order. -/
  nodes : List (Node ω)
  /-- The names of the tasks, each after those of its dependencies. -/
  sorted : List TaskName

namespace TaskGraph

variable {ω : Type}

def names (graph : TaskGraph ω) : List TaskName := graph.nodes.map Node.name

def size (graph : TaskGraph ω) : Nat := graph.nodes.length

def get? (graph : TaskGraph ω) (name : TaskName) : Option (Node ω) :=
  graph.nodes.find? fun n => n.name == name

def contains (graph : TaskGraph ω) (name : TaskName) : Bool := (graph.get? name).isSome

def indexOf? (graph : TaskGraph ω) (name : TaskName) : Option Nat :=
  graph.nodes.findIdx? fun n => n.name == name

def dependenciesOf (graph : TaskGraph ω) (name : TaskName) : List TaskName :=
  match graph.get? name with
  | some node => node.dependencies
  | none => []

/-- The tasks that wait for a task, in registration order. -/
def dependentsOf (graph : TaskGraph ω) (name : TaskName) : List TaskName :=
  match graph.get? name with
  | some node => node.dependents
  | none => []

/-- The names of the tasks of an action, in registration order. -/
def tasksOfKind (graph : TaskGraph ω) (kind : String) : List TaskName :=
  (graph.nodes.filter fun n => n.task.kind == some kind).map Node.name

def waveOf (graph : TaskGraph ω) (name : TaskName) : Nat :=
  match graph.get? name with
  | some node => node.wave
  | none => 0

def waveCount (graph : TaskGraph ω) : Nat :=
  graph.nodes.foldl (fun count node => max count (node.wave + 1)) 0

/-- The tasks of each **wave**, in sorted order. -/
def waves (graph : TaskGraph ω) : List (List TaskName) :=
  (List.range graph.waveCount).map fun wave =>
    graph.sorted.filter fun name => graph.waveOf name == wave

def waveText (graph : TaskGraph ω) (wave : Nat) (names : List TaskName) : String :=
  let count := names.length
  s!"Wave {wave} ({count} tasks):\n"
    ++ String.join ((names.filterMap graph.get?).map Node.planLine)

/-- The **plan** of a build: the tasks by wave, with what they wait for. -/
def plan (graph : TaskGraph ω) : String :=
  String.join ((graph.waves.zipIdx).map fun (names, wave) => graph.waveText wave names)

end TaskGraph

end BuildMatrix
