import BuildMatrix.Event

/-!
# Lines for a reader

What the tool prints while it works and when it is done. Every line starts with a mark that tells at
a glance what it is about.
-/

namespace BuildMatrix

namespace Console

def success (message : String) : String := "✓ " ++ message

def error (message : String) : String := "✗ " ++ message

def warning (message : String) : String := "! " ++ message

def info (message : String) : String := "→ " ++ message

def keyValue (key value : String) : String := s!"  {key}: {value}"

/-- A number of things, with an `s` unless there is one. -/
def counted (count : Nat) (noun : String) : String :=
  toString count ++ " " ++ noun ++ (if count = 1 then "" else "s")

def text (lines : List String) : String := String.join (lines.map (· ++ "\n"))

/-- The last line about a build. -/
def summary (total : Nat) (tally : Tally) (duration : Duration) : String :=
  let mark := if tally.failed = 0 && tally.cancelled = 0 then "✓" else "✗"
  let counts := ", ".intercalate [
    toString tally.completed ++ " ran",
    toString tally.skipped ++ " up to date",
    toString tally.failed ++ " failed",
    toString tally.poisoned ++ " blocked",
    toString tally.cancelled ++ " cancelled"]
  s!"  {mark} {total} tasks: {counts} (" ++ duration.seconds ++ ")"

end Console

/-- What is **printed for an event**; some events are only printed if `verbose`. -/
def Event.consoleLines (verbose : Bool) : Event → List String
  | .started task description =>
    ["  ▸ " ++ task.text ++ " " ++ (if verbose then s!"({description})" else "")]
  | .output task line _ => if verbose then ["    [" ++ task.text ++ "] " ++ line] else []
  | .completed task duration => ["  ✓ " ++ task.text ++ " " ++ duration.seconds]
  | .upToDate task _ => ["  ✓ " ++ task.text ++ " (up to date)"]
  | .failed task duration error =>
    ["  ✗ " ++ task.text ++ " " ++ duration.seconds ++ " " ++ error]
  | .poisoned task cause =>
    if verbose then ["  ○ " ++ task.text ++ " (blocked by " ++ cause.text ++ ")"] else []
  | .allCompleted total tally duration => ["", Console.summary total tally duration]

end BuildMatrix
