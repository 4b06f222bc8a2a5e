import BuildMatrix.Duration
import BuildMatrix.TaskName

/-!
# What a build reports

While a build runs it reports events: a task starts, writes a line, and ends in one of several ways,
and at last the build is done. Each event can be written as a line of a log.
-/

namespace BuildMatrix

/-- How many tasks ended **in each way**. -/
structure Tally where
  completed : Nat := 0
  skipped : Nat := 0
  failed : Nat := 0
  poisoned : Nat := 0
  cancelled : Nat := 0
  deriving DecidableEq, Inhabited, Repr

/-- A line that a task wrote, to its output or to its errors. -/
structure OutputLine where
  text : String
  isStderr : Bool := false
  deriving DecidableEq, Inhabited, Repr

/-- One **event** of a build. -/
inductive Event where
  | started (task : TaskName) (description : String)
  /-- A task wrote a line, to its output or to its errors. -/
  | output (task : TaskName) (line : String) (isStderr : Bool)
  | completed (task : TaskName) (duration : Duration)
  | upToDate (task : TaskName) (duration : Duration)
  | failed (task : TaskName) (duration : Duration) (error : String)
  /-- A task will not run because a task it depends on failed. -/
  | poisoned (task cause : TaskName)
  | allCompleted (total : Nat) (tally : Tally) (duration : Duration)
  deriving DecidableEq, Inhabited, Repr

/-- How important a line of a log is. -/
inductive LogLevel where
  | error
  | warn
  | info
  | debug
  deriving DecidableEq, Inhabited, Repr

def LogLevel.name : LogLevel → String
  | error => "ERROR"
  | warn => "WARN"
  | info => "INFO"
  | debug => "DEBUG"

/-- A **line of a log**, with named values beside its text. -/
structure LogLine where
  level : LogLevel
  text : String
  fields : List (String × String) := []
  deriving DecidableEq, Inhabited, Repr

namespace Event

def startedTask? : Event → Option TaskName
  | started task _ => some task
  | _ => none

def log : Event → LogLine
  | started task description =>
    { level := .info, text := s!"starting: {description}", fields := [("task", task.text)] }
  | output task line isStderr =>
    { level := if isStderr then .warn else .debug, text := "[" ++ task.text ++ "] " ++ line }
  | completed task duration =>
    { level := .info, text := task.text ++ " completed in " ++ duration.seconds }
  | upToDate task _ => { level := .info, text := task.text ++ " up to date" }
  | failed task duration error =>
    { level := .error,
      text := task.text ++ " failed after " ++ duration.seconds ++ ": " ++ error }
  | poisoned task cause =>
    { level := .warn, text := task.text ++ " not run: dependency " ++ cause.text ++ " failed" }
  | allCompleted total tally duration =>
    { level := .info
      text := "build finished in " ++ duration.seconds
      fields := [
        ("total", toString total),
        ("completed", toString tally.completed),
        ("skipped", toString tally.skipped),
        ("failed", toString tally.failed),
        ("poisoned", toString tally.poisoned),
        ("cancelled", toString tally.cancelled)] }

end Event

end BuildMatrix
