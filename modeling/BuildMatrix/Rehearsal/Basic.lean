import BuildMatrix.Graph.Builder
import BuildMatrix.Rehearsal.Script

/-!
# Rehearsed builds

A rehearsal decides which of the running tasks ends next: the one that stands first in a given
order, those that are not in it last and by name. A task follows its script when it is about to end.
A rehearsal may also ask the build to stop once a number of tasks have ended.
-/

namespace BuildMatrix

/-- How a build is **rehearsed**. -/
structure Rehearsal where
  place : Place
  /-- The order in which running tasks end. -/
  order : List String := []
  /-- The number of ended tasks after which the build is asked to stop. -/
  cancelAfter : Option Nat := none
  limit : Nat := 1

structure StartedTask where
  task : Task Script
  dependencies : List TaskResult
  /-- Why the task cannot even begin. -/
  refusal : Option Failure := none

/-- A rehearsal **under way**. -/
structure RehearsalState where
  session : Session
  started : TaskTable StartedTask := []
  ended : Nat := 0

namespace Rehearsal

/-- The place of a task in the order of endings. -/
def rank (rehearsal : Rehearsal) (name : TaskName) : Nat :=
  (rehearsal.order.findIdx? (· = name.text)).getD rehearsal.order.length

/-- Which of two tasks ends first. -/
def endsBefore (rehearsal : Rehearsal) (a b : TaskName) : Bool :=
  rehearsal.rank a < rehearsal.rank b || (rehearsal.rank a = rehearsal.rank b && a.text ≤ b.text)

/-- Start a task: make its directory. -/
def launch (rehearsal : Rehearsal) (state : RehearsalState) (task : Task Script)
    (dependencies : List TaskResult) : RehearsalState :=
  let (result, session) := Job.createAll (rehearsal.place.ownDir task.name) state.session
  let refusal := match result with
    | .ok () => none
    | .error failure => some failure
  { state with session, started := state.started.set task.name { task, dependencies, refusal } }

/-- The session just before a task follows its script, which may be asked to stop. -/
def beforeEnd (rehearsal : Rehearsal) (state : RehearsalState) : Session :=
  match rehearsal.cancelAfter with
  | some count =>
    if count ≤ state.ended then { state.session with isStopping := true } else state.session
  | none => state.session

/-- Let one of the running tasks end; one that cannot even begin ends first. -/
def await (rehearsal : Rehearsal) (state : RehearsalState) (running : List TaskName) :
    Ending × RehearsalState :=
  let waiting := running.filterMap fun name => state.started.get? name
  let session := rehearsal.beforeEnd state
  let state := { state with ended := state.ended + 1 }
  match waiting.findSome? fun s => s.refusal.map fun failure => (s.task.name, failure) with
  | some (task, failure) => ({ task, outcome := .error failure }, state)
  | none =>
    let ordered := waiting.mergeSort fun a b => rehearsal.endsBefore a.task.name b.task.name
    match ordered with
    | [] => ({ task := ⟨""⟩, outcome := .error .cancelled }, { state with session })
    | s :: _ =>
      let task := s.task.name
      let (outcome, lines, session) :=
        session.perform (s.task.work.job rehearsal.place task s.dependencies)
      ({ task, outcome, lines }, { state with session })

def runner (rehearsal : Rehearsal) : Schedule.Runner Script RehearsalState where
  launch := rehearsal.launch
  await := rehearsal.await
  isStopping state := state.session.isStopping

/-- The task that a value describes, with the script that stands for its own. -/
def taskOfJson (replacements value : Json) : Task Script :=
  let name := value.textField "task"
  let script := (replacements.member? name).getD value
  { name := ⟨name⟩
    kind := script.textField? "kind"
    description := (script.textField? "description").getD name
    work := .ofJson ⟨name⟩ script }

def graph (tasks : List Json) (replacements : Json) (targets : List String) :
    Except GraphError (TaskGraph Script) := do
  let builder ← tasks.foldlM (fun (builder : GraphBuilder Script) value =>
    builder.register (taskOfJson replacements value) (value.tasksField "deps")) {}
  let graph ← builder.build
  graph.select targets

def run (rehearsal : Rehearsal) (graph : TaskGraph Script) (session : Session) :
    Report × List Event × Session :=
  let (report, events, state) := graph.execute rehearsal.runner rehearsal.limit { session }
  (report, events, state.session)

/-- The rehearsal that a value describes, in a place. -/
def ofJson (layout : Layout) (value : Json) : Rehearsal where
  place := {
    layout
    cache := { dir := layout.cacheRoot, enabled := !value.flagField "no_cache" }
    -- no script runs a command
    system := .idle }
  order := value.textsField "order"
  cancelAfter := value.natField? "cancel_after"
  limit := (value.natField? "concurrency").getD 1

end Rehearsal

end BuildMatrix
