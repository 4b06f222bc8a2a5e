import BuildMatrix.Graph.Order

/-!
# Building task graphs

Tasks and dependencies are declared in any order; a dependency may name a task that is registered
later. Everything is checked once, when the graph is built: all ends of dependencies are registered,
no two tasks share an output directory, and no task waits for itself.
-/

namespace BuildMatrix

/-- **Declarations** of tasks and of dependencies. -/
structure GraphBuilder (ω : Type) where
  tasks : List (Task ω) := []
  /-- What each name depends on, in declaration order. -/
  edges : Dependencies := []

namespace GraphBuilder

variable {ω : Type}

/-- Names added to a list that does not have them yet, each once. -/
def union (targets : List TaskName) : List TaskName → List TaskName
  | [] => targets
  | name :: rest => union (if targets.contains name then targets else targets ++ [name]) rest

/-- Dependencies with more of them for a name. -/
def addEdges (name : TaskName) (targets : List TaskName) : Dependencies → Dependencies
  | [] => [(name, union [] targets)]
  | (key, old) :: rest =>
    if key = name then (key, union old targets) :: rest
    else (key, old) :: addEdges name targets rest

def contains (builder : GraphBuilder ω) (name : TaskName) : Bool :=
  builder.tasks.any fun t => t.name == name

/-- Declare a **task** with what it depends on; a name is registered only once. -/
def register (builder : GraphBuilder ω) (task : Task ω) (dependsOn : List TaskName) :
    Except GraphError (GraphBuilder ω) :=
  if builder.contains task.name then .error (.duplicateTask task.name)
  else
    .ok { tasks := builder.tasks ++ [task], edges := addEdges task.name dependsOn builder.edges }

/-- Declare a **dependency** of one name on another. -/
def depend (builder : GraphBuilder ω) (name dependsOn : TaskName) : GraphBuilder ω :=
  { builder with edges := addEdges name [dependsOn] builder.edges }

/-! ### Checks -/

/-- The first end of a dependency that is not registered, with the dependency. -/
def unresolved? (names : List TaskName) : Dependencies → Option (TaskName × TaskName × TaskName)
  | [] => none
  | (dependent, targets) :: rest =>
    match targets.findSome? fun target =>
      ([dependent, target].find? fun e => !names.contains e).map fun e => (e, dependent, target)
    with
    | some found => some found
    | none => unresolved? names rest

/-- The first two names that share an output directory; `before` holds the names passed. -/
def conflict? : List TaskName → List TaskName → Option (TaskName × TaskName)
  | _, [] => none
  | before, name :: rest =>
    match before.find? fun other => other.outputDir == name.outputDir with
    | some other => some (other, name)
    | none => conflict? (name :: before) rest

/-! ### Building -/

/-- The graph of tasks with dependencies among them. -/
def assemble (tasks : List (Task ω)) (edges : Dependencies) : Except GraphError (TaskGraph ω) :=
  let deps : Dependencies := tasks.map fun t => (t.name, edges.of t.name)
  let sorted := deps.sort
  if sorted.length = deps.length then
    let table := deps.waveTable sorted
    let node (task : Task ω) : Node ω := {
      task
      dependencies := deps.of task.name
      dependents := deps.dependents task.name
      wave := (table.get? task.name).getD 0 }
    .ok { nodes := tasks.map node, sorted }
  else .error (.cyclicDependency (deps.cycle sorted))

/-- The **graph of the declarations**. -/
def build (builder : GraphBuilder ω) : Except GraphError (TaskGraph ω) :=
  let names := builder.tasks.map (·.name)
  match unresolved? names builder.edges with
  | some (missing, dependent, dependency) =>
    .error (.unresolvedReference missing dependent dependency)
  | none =>
    match conflict? [] names with
    | some (first, second) => .error (.outputDirectoryConflict first second)
    | none => assemble builder.tasks builder.edges

end GraphBuilder

namespace TaskGraph

variable {ω : Type}

/-! ### Parts of a graph -/

/-- The names that can be reached from some names along dependencies; `kept` holds the names passed.
Each step takes one name, and a name's dependencies are added only once, so that the number of names
and dependencies bounds `fuel`. -/
def reach (graph : TaskGraph ω) : Nat → List TaskName → List TaskName → List TaskName
  | 0, kept, _ => kept
  | _ + 1, kept, [] => kept
  | fuel + 1, kept, name :: rest =>
    if kept.contains name then reach graph fuel kept rest
    else reach graph fuel (name :: kept) (graph.dependenciesOf name ++ rest)

def edgeCount (graph : TaskGraph ω) : Nat :=
  graph.nodes.foldl (fun count node => count + node.dependencies.length) 0

/-- The **part of a graph** that some tasks need: they and everything they depend on. -/
def closure (graph : TaskGraph ω) (roots : List TaskName) : Except GraphError (TaskGraph ω) :=
  match roots.find? fun root => !graph.contains root with
  | some root => .error (.unknownTask root)
  | none =>
    let kept := graph.reach (roots.length + graph.edgeCount + 1) [] roots
    let nodes := graph.nodes.filter fun n => kept.contains n.name
    GraphBuilder.assemble (nodes.map (·.task)) (nodes.map fun n => (n.name, n.dependencies))

/-- The tasks that a target stands for: the task of that name, or the tasks of that action. -/
def targetTasks? (graph : TaskGraph ω) (target : String) : Option (List TaskName) :=
  if graph.contains ⟨target⟩ then some [⟨target⟩]
  else
    match graph.tasksOfKind target with
    | [] => none
    | names => some names

/-- The tasks that targets stand for; the first target that stands for none is an error. -/
def targetRoots (graph : TaskGraph ω) : List String → Except GraphError (List TaskName)
  | [] => .ok []
  | target :: rest =>
    match graph.targetTasks? target with
    | none => .error (.unknownTask ⟨target⟩)
    | some names =>
      match graph.targetRoots rest with
      | .error error => .error error
      | .ok others => .ok (names ++ others)

/-- The part of a graph that **targets** ask for; no targets ask for all of it. -/
def select (graph : TaskGraph ω) (targets : List String) : Except GraphError (TaskGraph ω) :=
  if targets.isEmpty then .ok graph
  else
    match graph.targetRoots targets with
    | .error error => .error error
    | .ok roots => graph.closure roots

end TaskGraph

end BuildMatrix
