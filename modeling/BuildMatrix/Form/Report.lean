import BuildMatrix.Form.Error
import BuildMatrix.Form.Graph
import BuildMatrix.Report

/-!
# The JSON form of reports and events
-/

namespace BuildMatrix

def Status.toJson (name : TaskName) (status : Status) : Json :=
  .arr ([.str name.text, .str status.label] ++ match status with
    | failed reason => [.str reason]
    | poisoned cause => [.str cause.text]
    | _ => [])

/-- The duration in an object, in seconds and nanoseconds. -/
def Duration.ofJson (value : Json) : Duration :=
  ⟨(value.natField? "secs").getD 0 * perSecond + (value.natField? "nanos").getD 0⟩

namespace Event

/-- An **event** as a list: its name and what it is about. -/
def toJson : Event → Json
  | started task description => .texts ["started", task.text, description]
  | output task line isStderr =>
    .arr [.str "output", .str task.text, .str line, .bool isStderr]
  | completed task _ => .texts ["completed", task.text]
  | upToDate task _ => .texts ["up_to_date", task.text]
  | failed task _ error => .texts ["failed", task.text, error]
  | poisoned task cause => .texts ["poisoned", task.text, cause.text]
  | allCompleted total tally _ =>
    .arr [.str "all_completed", .nat total, .nat tally.completed, .nat tally.skipped,
      .nat tally.failed, .nat tally.poisoned, .nat tally.cancelled]

def ofJson (value : Json) : Event :=
  let task : TaskName := ⟨value.textField "task"⟩
  let count (name : String) : Nat := (value.natField? name).getD 0
  match value.textField "event" with
  | "started" => started task (value.textField "description")
  | "output" => output task (value.textField "line") (value.flagField "is_stderr")
  | "completed" => completed task (.ofJson value)
  | "up_to_date" => upToDate task (.ofJson value)
  | "failed" => failed task (.ofJson value) (value.textField "error")
  | "poisoned" => poisoned task ⟨value.textField "by"⟩
  | _ =>
    allCompleted (count "total")
      { completed := count "completed", skipped := count "skipped", failed := count "failed",
        poisoned := count "poisoned", cancelled := count "cancelled" }
      (.ofJson value)

def isOutput : Event → Bool
  | output _ _ _ => true
  | _ => false

end Event

/-- **Lines** by where they were written. -/
def OutputLine.streams (lines : List OutputLine) : Json :=
  let texts (isStderr : Bool) : Json :=
    .texts ((lines.filter fun line => line.isStderr == isStderr).map (·.text))
  .obj [("stdout", texts false), ("stderr", texts true)]

/-- The lines that **each task wrote**, of those that wrote any. -/
def Event.outputs (events : List Event) : Json :=
  let lines : List (TaskName × OutputLine) := events.filterMap fun
    | .output task text isStderr => some (task, ⟨text, isStderr⟩)
    | _ => none
  .obj ((lines.map (·.1)).eraseDups.map fun task =>
    (task.text, OutputLine.streams ((lines.filter fun line => line.1 == task).map (·.2))))

namespace Report

def rootCauseJson (report : Report) : Json :=
  match report.rootCause with
  | none => .null
  | some (task, failure) => .obj [
      ("task", .str task.text),
      ("kind", .str failure.kind),
      ("message", .str (BuildError.taskFailed task failure).message)]

def resultWord (report : Report) : String :=
  match report.error? with
  | none => "ok"
  | some error => error.kind

def members (report : Report) : List (String × Json) :=
  let tally := report.tally
  [("success", .bool report.isSuccess),
    ("cancelled", .bool report.cancelled),
    ("statuses", .arr (report.statuses.map fun s => s.2.toJson s.1)),
    ("results", .obj (report.results.map fun r => (r.1.text, r.2.toJson))),
    ("counts", .arr [.nat tally.completed, .nat tally.skipped, .nat tally.failed,
      .nat tally.poisoned, .nat tally.cancelled]),
    ("failures", .arr (report.failures.map fun f => .texts [f.1.text, f.2])),
    ("root_cause", report.rootCauseJson),
    ("into_result", .str report.resultWord)]

end Report

end BuildMatrix
