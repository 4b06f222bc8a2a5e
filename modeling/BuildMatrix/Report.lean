import BuildMatrix.Event
import BuildMatrix.TaskResult
import BuildMatrix.TaskTable

/-!
# Reports of builds

A build that is over has a status for each of its tasks and the results that were kept.
-/

namespace BuildMatrix

/-- **How a task ended.** -/
inductive Status where
  | completed
  /-- Everything the task would have done was done before. -/
  | skipped
  | failed (reason : String)
  /-- The task was not run because a task it depends on failed. -/
  | poisoned (cause : TaskName)
  /-- The task was not run, or not to its end, because the build stopped. -/
  | cancelled
  deriving DecidableEq, Inhabited, Repr

namespace Status

def isSuccess : Status → Bool
  | completed => true
  | skipped => true
  | _ => false

def label : Status → String
  | completed => "completed"
  | skipped => "up-to-date"
  | failed _ => "failed"
  | poisoned _ => "poisoned"
  | cancelled => "cancelled"

end Status

namespace Tally

def add (tally : Tally) : Status → Tally
  | .completed => { tally with completed := tally.completed + 1 }
  | .skipped => { tally with skipped := tally.skipped + 1 }
  | .failed _ => { tally with failed := tally.failed + 1 }
  | .poisoned _ => { tally with poisoned := tally.poisoned + 1 }
  | .cancelled => { tally with cancelled := tally.cancelled + 1 }

def ofStatuses (statuses : List Status) : Tally := statuses.foldl add {}

end Tally

/-- **How a build ended.** -/
structure Report where
  /-- The status of every task, in registration order. -/
  statuses : TaskTable Status
  /-- The results of successful tasks. A task that was running when the first one failed has a
  status, but its result is not kept. -/
  results : TaskTable TaskResult
  /-- The first task that failed. -/
  rootCause : Option (TaskName × Failure)
  /-- Whether the build was asked to stop. -/
  cancelled : Bool

namespace Report

def tally (report : Report) : Tally := .ofStatuses (report.statuses.map (·.2))

/-- A build **succeeds** if no task failed and every task is done. -/
def isSuccess (report : Report) : Bool :=
  report.rootCause.isNone && report.statuses.all fun s => s.2.isSuccess

/-- The tasks that failed themselves, with their reasons. -/
def failures (report : Report) : List (TaskName × String) :=
  report.statuses.filterMap fun
    | (name, .failed reason) => some (name, reason)
    | _ => none

/-- **Why** a build is not what it was asked for: a task failed, or it was stopped. -/
def error? (report : Report) : Option BuildError :=
  match report.rootCause with
  | some (task, failure) => some (.taskFailed task failure)
  | none =>
    if report.cancelled || 0 < report.tally.cancelled then some .cancelled else none

end Report

end BuildMatrix
