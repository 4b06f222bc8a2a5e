import BuildMatrix.Build
import BuildMatrix.Cli.CommandLine
import BuildMatrix.Cli.Reply
import BuildMatrix.Form.Graph
import BuildMatrix.Json.Printer
import BuildMatrix.Workspace

/-!
# Requests about tasks

The requests to build tasks, to see the plan of a build, and to list tasks.
-/

namespace BuildMatrix.Cli

def currentDirectory (session : Session) : Path := ⟨FileTree.locationText session.tree.here⟩

/-- Answer a request in the **project** around the current directory. -/
def withWorkspace (session : Session) (answer : Workspace → Reply) : Reply :=
  match Workspace.loadFrom session.tree (currentDirectory session) with
  | .error fault => { conclusion := .failed fault, session }
  | .ok workspace => answer workspace

/-- Answer a request with the **tasks that targets ask for**. -/
def withGraph (session : Session) (targets : List String)
    (answer : Workspace → TaskGraph Work → Reply) :
    Reply :=
  withWorkspace session fun workspace =>
    match workspace.taskGraph with
    | .error fault => { conclusion := .failed fault, session }
    | .ok graph =>
      match graph.select targets with
      | .error error => .failure session (.graph error)
      | .ok graph => answer workspace graph

/-! ### Plans -/

def planJson (graph : TaskGraph Work) : Json :=
  .arr (graph.waves.zipIdx.map fun (names, wave) =>
    .obj [("tasks", .tasks names), ("wave", .nat wave)])

def plan (line : CommandLine) (graph : TaskGraph Work) (session : Session) : Reply :=
  if line.format = .json then { lines := [(planJson graph).pretty], session }
  else if line.quiet then { session }
  else { lines := [graph.plan, "[DRY RUN - no tasks will be executed]"], session }

/-! ### Builds -/

/-- What is said about a task after a build, its members in order. -/
def taskJson (report : Report) (name : TaskName) (status : Status) : Json :=
  let outputs := match report.results.get? name with
    | some result => result.output.paths
    | none => []
  let blocked := match status with
    | .poisoned cause => [("blocked_by", Json.str cause.text)]
    | _ => []
  let failed := match status with
    | .failed reason => [("error", Json.str reason)]
    | _ => []
  .obj (blocked ++ failed
    ++ [("name", .str name.text), ("outputs", .paths outputs), ("status", .str status.label)])

/-- What is said about a **build that is over**, its members in order. -/
def reportJson (report : Report) (duration : Duration) : Json :=
  let tally := report.tally
  .obj [
    ("cancelled", .nat tally.cancelled),
    ("completed", .nat tally.completed),
    ("duration_ms", .nat (duration.nanos / 1000000)),
    ("failed", .nat tally.failed),
    ("poisoned", .nat tally.poisoned),
    ("success", .bool report.isSuccess),
    ("tasks", .arr (report.statuses.map fun s => taskJson report s.1 s.2)),
    ("total", .nat report.statuses.length),
    ("up_to_date", .nat tally.skipped)]

/-- How a build ended, in words. -/
def reportLines (report : Report) : List String :=
  match report.failures with
  | [] =>
    if report.cancelled then [Console.warning "Build cancelled"]
    else ["", Console.success "Build completed successfully!"]
  | failures =>
    ["", "  " ++ Console.error (Console.counted failures.length "task" ++ " failed:")]
      ++ failures.map fun (name, reason) => "    " ++ Console.error (name.text ++ ": " ++ reason)

/-- How long a build took, as its last event says. -/
def durationOf (events : List Event) : Duration :=
  match events.getLast? with
  | some (.allCompleted _ _ duration) => duration
  | _ => ⟨0⟩

/-- How many tasks run at a time if nobody says. -/
def usualLimit : Nat := 4

/-- How many tasks run at a time. -/
def taskLimit (jobs : Option Nat) (config : Config) : Nat :=
  match jobs with
  | some jobs => jobs
  | none => if config.build.concurrency = 0 then usualLimit else config.build.concurrency.toNat

/-- Run a build and say what happens. -/
def execute (system : System) (line : CommandLine) (workspace : Workspace)
    (graph : TaskGraph Work) (limit : Nat) (noCache : Bool) (session : Session) : Reply :=
  let layout := workspace.layout
  let cache : Cache := { dir := layout.cacheRoot, enabled := workspace.cacheEnabled noCache }
  let opening := if line.printsText then
      [Console.info (Console.counted graph.size "task" ++ " in "
        ++ Console.counted graph.waves.length "wave"), ""]
    else []
  let build : Build := { place := { layout, cache, system }, limit }
  match build.run graph session with
  | (.error error, session) => (Reply.failure session (.io error.message)).after opening
  | (.ok (report, events), session) =>
    let progress :=
      if line.printsText then events.flatMap (Event.consoleLines line.verbose) else []
    let closing := if line.format = .json then [(reportJson report (durationOf events)).pretty]
      else if line.quiet then []
      else reportLines report
    let conclusion := match report.error? with
      | some error => .failed { cause := .build error }
      | none => .done
    { lines := opening ++ progress ++ closing, conclusion, session }

/-- The request to **build** tasks. -/
def build (system : System) (line : CommandLine) (targets : List String) (jobs : Option Nat)
    (noCache dryRun : Bool) (session : Session) : Reply :=
  withGraph session targets fun workspace graph =>
    if graph.size = 0 then
      { lines := if line.quiet then [] else [Console.success "No tasks to run."], session }
    else if dryRun then plan line graph session
    else execute system line workspace graph (taskLimit jobs workspace.config) noCache session

/-! ### Lists -/

/-- A task of a list, its members in order. -/
def nodeJson (node : Node Work) : Json := .obj [
  ("action", .text? node.task.kind),
  ("dependencies", .tasks node.dependencies),
  ("description", .str node.task.description),
  ("name", .str node.name.text),
  ("wave", .nat node.wave)]

def nodeLines (verbose : Bool) (node : Node Work) : List String :=
  ["  " ++ node.name.text ++ " wave " ++ toString node.wave]
    ++ (if verbose then [Console.keyValue "runs" node.task.description] else [])
    ++ node.dependencies.map fun name => "    ↳ " ++ name.text

def tasks (line : CommandLine) (targets : List String) (action : Option String)
    (session : Session) :
    Reply :=
  withGraph session targets fun workspace graph =>
    let nodes := graph.nodes.filter fun node => action.isNone || node.task.kind == action
    let lines :=
      if line.format = .json then [(Json.arr (nodes.map nodeJson)).pretty]
      else if line.quiet then nodes.map (·.name.text)
      else
        [(workspace.config.name.getD "tasks") ++ " (" ++ toString nodes.length ++ " tasks)", ""]
          ++ nodes.flatMap (nodeLines line.verbose)
    { lines, session }

end BuildMatrix.Cli
