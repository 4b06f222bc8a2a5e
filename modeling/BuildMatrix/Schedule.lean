import BuildMatrix.Graph.Basic
import BuildMatrix.Report

/-!
# Running task graphs

A task is started when everything it depends on has succeeded, in the order in which tasks become
ready, and while fewer tasks are at work than the limit allows. A running task makes room for others
as soon as its work is done, which may be before its end is noted. How tasks run, when their work is
done, which of them ends next and when the build is asked to stop is left to a *runner*; everything
that a real machine could show is what some runner does.

The first failure stops the starting of tasks and poisons everything that depends on the failed
task; the tasks that are running then may end, but their results are not kept. A request to stop has
the same effect without poisoning anything. Tasks without a status at the end count as cancelled.
-/

namespace BuildMatrix

/-- What a task that succeeded leaves. -/
structure Product where
  output : Output
  /-- Whether the task used the cache and found everything in it. -/
  upToDate : Bool := false
  deriving Inhabited

/-- The **outcome** of a task. -/
abbrev Outcome := Except Failure Product

/-- The **end of a running task**, with the lines it wrote. -/
structure Ending where
  task : TaskName
  outcome : Outcome
  lines : List OutputLine := []
  duration : Duration := ⟨0⟩

/-- A **build under way**. -/
structure Schedule (ω : Type) where
  graph : TaskGraph ω
  /-- How many tasks may run at a time. -/
  limit : Nat
  /-- How many dependencies of each task are not done. -/
  waiting : TaskTable Nat
  /-- The tasks that may start, in order. -/
  ready : List TaskName
  /-- The tasks that are running, in the order they were started. -/
  running : List TaskName := []
  /-- Those of the running tasks that are known to have done their work. -/
  finished : List TaskName := []
  statuses : TaskTable Status := []
  results : TaskTable TaskResult := []
  rootCause : Option (TaskName × Failure) := none
  cancelled : Bool := false
  /-- What was reported, the last event first. -/
  reported : List Event := []

namespace Schedule

variable {ω σ : Type}

/-- The build of a graph before anything is started; at least one task may run at a time. -/
def initial (graph : TaskGraph ω) (limit : Nat) : Schedule ω where
  graph
  limit := max 1 limit
  waiting := graph.nodes.map fun n => (n.name, n.dependencies.length)
  ready := (graph.nodes.filter fun n => n.dependencies.isEmpty).map Node.name

def isStopped (schedule : Schedule ω) : Bool :=
  schedule.rootCause.isSome || schedule.cancelled

/-- The running tasks that are **at work**, as far as is known. -/
def busy (schedule : Schedule ω) : List TaskName :=
  schedule.running.filter fun name => !schedule.finished.contains name

def report (schedule : Schedule ω) (event : Event) : Schedule ω :=
  { schedule with reported := event :: schedule.reported }

/-- The results of a node's dependencies, in declaration order. -/
def dependencyResults (schedule : Schedule ω) (node : Node ω) : List TaskResult :=
  node.dependencies.filterMap fun d => schedule.results.get? d

/-! ### The end of a task -/

/-- Take note that a dependency of a task is done; a task without open dependencies becomes
ready. -/
def release (schedule : Schedule ω) (name : TaskName) : Schedule ω :=
  match schedule.waiting.get? name with
  | none => schedule
  | some count =>
    let schedule := { schedule with waiting := schedule.waiting.set name (count - 1) }
    if count - 1 = 0 && !schedule.statuses.contains name then
      { schedule with ready := schedule.ready ++ [name] }
    else schedule

def conclude (schedule : Schedule ω) (name : TaskName) (status : Status) : Schedule ω :=
  { schedule with statuses := schedule.statuses.set name status }

/-- Poison tasks and everything that depends on them, except those that have a status. Each step
takes one task, and a task's dependents are added only once, so that the number of tasks and
dependencies bounds `fuel`. -/
def poison (cause : TaskName) : Nat → List TaskName → Schedule ω → Schedule ω
  | 0, _, schedule => schedule
  | _ + 1, [], schedule => schedule
  | fuel + 1, name :: queue, schedule =>
    if schedule.statuses.contains name || !schedule.graph.contains name then
      poison cause fuel queue schedule
    else
      poison cause fuel (queue ++ schedule.graph.dependentsOf name)
        ((schedule.conclude name (.poisoned cause)).report (.poisoned name cause))

/-- How many steps poisoning can take. -/
def poisonSteps (graph : TaskGraph ω) : Nat :=
  graph.nodes.foldl (fun count node => count + node.dependents.length + 1) 1

/-- A task **succeeded**: its result is kept unless a task has failed, and the tasks that wait for
it come nearer to their start. -/
def succeed (schedule : Schedule ω) (node : Node ω) (product : Product) (duration : Duration) :
    Schedule ω :=
  let result : TaskResult := {
    task := node.name
    output := product.output
    dependencies := schedule.dependencyResults node }
  let schedule :=
    if schedule.rootCause.isSome then schedule
    else { schedule with results := schedule.results.set node.name result }
  let schedule :=
    if product.upToDate then
      (schedule.conclude node.name .skipped).report (.upToDate node.name duration)
    else (schedule.conclude node.name .completed).report (.completed node.name duration)
  node.dependents.foldl release schedule

/-- A task **failed**: the first failure is the build's root cause. -/
def fail (schedule : Schedule ω) (node : Node ω) (failure : Failure) (duration : Duration) :
    Schedule ω :=
  let schedule := schedule.report (.failed node.name duration failure.message)
  let schedule := schedule.conclude node.name (.failed failure.message)
  let schedule := { schedule with
    rootCause := schedule.rootCause.or (some (node.name, failure)) }
  poison node.name (poisonSteps schedule.graph) node.dependents schedule

/-- A task is **no longer running**; the lines it wrote are reported. -/
def leave (schedule : Schedule ω) (ending : Ending) : Schedule ω :=
  { schedule with
    running := schedule.running.erase ending.task
    finished := schedule.finished.erase ending.task
    reported := ending.lines.foldl
      (fun events line => .output ending.task line.text line.isStderr :: events)
      schedule.reported }

/-- Take note of the **end of a task**; `stopping` says whether the build was asked to stop. A task
that gives up because of that is cancelled and did not fail. -/
def settle (schedule : Schedule ω) (stopping : Bool) (ending : Ending) : Schedule ω :=
  let schedule := schedule.leave ending
  match schedule.graph.get? ending.task with
  | none => schedule
  | some node =>
    match ending.outcome with
    | .ok product => schedule.succeed node product ending.duration
    | .error .cancelled =>
      if stopping then { schedule.conclude node.name .cancelled with cancelled := true }
      else schedule.fail node .cancelled ending.duration
    | .error failure => schedule.fail node failure ending.duration

/-! ### The start of a task -/

/-- Take note that some running tasks have **done their work**. -/
def finish (schedule : Schedule ω) (names : List TaskName) : Schedule ω :=
  { schedule with
    finished := schedule.running.filter fun name =>
      schedule.finished.contains name || names.contains name }

/-- Take note of the **start of a task**. -/
def start (schedule : Schedule ω) (node : Node ω) : Schedule ω :=
  { schedule.report (.started node.name node.task.description) with
    running := schedule.running ++ [node.name] }

/-- Take note of whether the build was **asked to stop**. -/
def look (schedule : Schedule ω) (stopping : Bool) : Schedule ω :=
  { schedule with cancelled := schedule.cancelled || stopping }

/-! ### The whole build -/

/-- How tasks **run**; `σ` is the state of what they work on. -/
structure Runner (ω σ : Type) where
  launch : σ → Task ω → List TaskResult → σ
  /-- Wait until one of the running tasks ends. -/
  await : σ → List TaskName → Ending × σ
  isStopping : σ → Bool
  /-- Which of the running tasks have done their work by now. -/
  finished : σ → List TaskName → List TaskName × σ := fun state _ => ([], state)
  /-- What happens between the end of a task and the next look for tasks to start. -/
  proceed : σ → σ := id

/-- The **next end** of one of the running tasks. -/
def Runner.next (runner : Runner ω σ) (state : σ) (first : TaskName) (rest : List TaskName) :
    Ending × σ :=
  let (ending, state) := runner.await state (first :: rest)
  ({ ending with task := if (first :: rest).contains ending.task then ending.task else first },
    state)

/-- **Start the tasks** that are ready, while the limit allows. -/
def launchReady (runner : Runner ω σ) : List TaskName → Schedule ω → σ → Schedule ω × σ
  | [], schedule, state => ({ schedule with ready := [] }, state)
  | name :: rest, schedule, state =>
    let (names, state) := runner.finished state schedule.running
    let schedule := schedule.finish names
    if schedule.limit ≤ schedule.busy.length then
      ({ schedule with ready := name :: rest }, state)
    else
      match schedule.graph.get? name with
      | none => launchReady runner rest schedule state
      | some node =>
        launchReady runner rest (schedule.start node)
          (runner.launch state node.task (schedule.dependencyResults node))

/-- Look whether the build was asked to stop, and otherwise start what can be started. -/
def advance (runner : Runner ω σ) (schedule : Schedule ω) (state : σ) : Schedule ω × σ :=
  let state := runner.proceed state
  let schedule := schedule.look (runner.isStopping state)
  if schedule.isStopped then (schedule, state)
  else launchReady runner schedule.ready schedule state

/-- Start what can be started, and wait for the end of a task; over and over, until none is running.
Each round ends one task, so that the number of tasks bounds `fuel`. -/
def rounds (runner : Runner ω σ) : Nat → Schedule ω → σ → Schedule ω × σ
  | 0, schedule, state => (schedule, state)
  | fuel + 1, schedule, state =>
    let (schedule, state) := advance runner schedule state
    match schedule.running with
    | [] => (schedule, state)
    | first :: rest =>
      let (ending, state) := runner.next state first rest
      rounds runner fuel (schedule.settle (runner.isStopping state) ending) state

/-- The report of a build in which nothing is running. -/
def toReport (schedule : Schedule ω) : Report where
  statuses := schedule.graph.names.map fun name =>
    (name, (schedule.statuses.get? name).getD .cancelled)
  results := schedule.graph.names.filterMap fun name =>
    (schedule.results.get? name).map fun result => (name, result)
  rootCause := schedule.rootCause
  cancelled := schedule.cancelled

end Schedule

namespace TaskGraph

variable {ω σ : Type}

/-- **Run a whole graph**: the report, everything that was reported on the way, and what the tasks
left behind. -/
def execute (graph : TaskGraph ω) (runner : Schedule.Runner ω σ) (limit : Nat) (state : σ) :
    Report × List Event × σ :=
  let (schedule, state) :=
    Schedule.rounds runner (graph.size + 1) (Schedule.initial graph limit) state
  let report := schedule.toReport
  let last := Event.allCompleted graph.size report.tally ⟨0⟩
  (report, (last :: schedule.reported).reverse, state)

end TaskGraph

end BuildMatrix
