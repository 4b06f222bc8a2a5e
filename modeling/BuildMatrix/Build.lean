import BuildMatrix.Classpath
import BuildMatrix.Command.Run
import BuildMatrix.Pipeline

/-!
# Builds

A build runs the tasks of a graph in a place. A task's work is done when the task starts, and takes
as long as its commands wait; of the tasks that run at a time the one that is done first ends first,
and of those that are done at the same time the one that was started first. The directories of the
layout are made before the build, and its scratch space is dropped afterwards.
-/

namespace BuildMatrix

/-- What a task does, in its place and with what it depends on. -/
def Work.job (work : Work) (name : TaskName) (place : Place) (dependencies : List TaskResult) :
    Job Output :=
  match work with
  | .command task => task.job place dependencies
  | .classpath => Classpath.job name place dependencies

/-- Where a **build** runs, and how many tasks run at a time. -/
structure Build where
  place : Place
  limit : Nat := 1

/-- A task that is running, and when it will be done. -/
structure RunningTask where
  ending : Ending
  doneAt : Timestamp

/-- A build **under way**. -/
structure BuildState where
  session : Session
  running : TaskTable RunningTask := []

namespace Build

/-- Start a task: do its work, and note when it is done. -/
def launch (build : Build) (state : BuildState) (task : Task Work)
    (dependencies : List TaskResult) :
    BuildState :=
  let start := state.session.now
  let job : Job Output := do
    Job.createAll (build.place.ownDir task.name)
    task.work.job task.name build.place dependencies
  let (outcome, lines, session) := state.session.perform job
  let doneAt := session.now
  let duration : Duration := ⟨(doneAt.nanos - start.nanos).toNat⟩
  let ending : Ending := { task := task.name, outcome, lines, duration }
  { session := { session with now := start }
    running := state.running.set task.name { ending, doneAt } }

/-- The running task that is done first; of several the first. -/
def earliest : List RunningTask → Option RunningTask
  | [] => none
  | task :: rest =>
    match earliest rest with
    | none => some task
    | some other => if other.doneAt.nanos < task.doneAt.nanos then some other else some task

/-- Let the task end that is done first. -/
def await (state : BuildState) (running : List TaskName) : Ending × BuildState :=
  match earliest (running.filterMap fun name => state.running.get? name) with
  | none => ({ task := ⟨""⟩, outcome := .error .cancelled }, state)
  | some task =>
    (task.ending,
      { state with session := { state.session with
          now := ⟨max state.session.now.nanos task.doneAt.nanos⟩ } })

/-- The runner of a build. -/
def runner (build : Build) : Schedule.Runner Work BuildState where
  launch := build.launch
  await := await
  isStopping state := state.session.isStopping

/-- A **whole build** of a graph; it fails without a report if the directories cannot be made. -/
def run (build : Build) (graph : TaskGraph Work) (session : Session) :
    Except OsError (Report × List Event) × Session :=
  match build.place.layout.init session.tree with
  | (.error error, tree) => (.error error, { session with tree })
  | (.ok (), tree) =>
    let (report, events, state) :=
      graph.execute build.runner build.limit { session := { session with tree } }
    (.ok (report, events),
      { state.session with tree := build.place.layout.teardown state.session.tree })

end Build

end BuildMatrix
