import BuildMatrix.Console
import BuildMatrix.Fault
import BuildMatrix.Session

/-!
# Answers of the tool

The tool answers a request with lines for the reader and a conclusion, and leaves a session behind.
-/

namespace BuildMatrix.Cli

/-- **How a request ends.** -/
inductive Conclusion where
  | done
  | failed (fault : Fault)
  /-- The tool cannot go on. -/
  | aborted
  deriving DecidableEq, Inhabited, Repr

/-- The **answer** to a request. -/
structure Reply where
  lines : List String := []
  conclusion : Conclusion := .done
  session : Session

/-- The exit code of a program that broke off. -/
def exitAborted : Nat := 101

namespace Reply

def failure (session : Session) (cause : Cause) (contexts : List String := []) : Reply :=
  { conclusion := .failed { cause, contexts }, session }

/-- A reply with lines before it. -/
def after (lines : List String) (reply : Reply) : Reply :=
  { reply with lines := lines ++ reply.lines }

def exitCode (reply : Reply) : Nat :=
  match reply.conclusion with
  | .done => exitSuccess
  | .failed fault => fault.exitCode
  | .aborted => exitAborted

def stdout (reply : Reply) : String := Console.text reply.lines

/-- What is written about a **failure**; a build that was cancelled ends in silence. -/
def stderr (reply : Reply) : String :=
  match reply.conclusion with
  | .failed fault =>
    if fault.exitCode = exitCancelled then "" else Console.text [Console.error fault.message]
  | _ => ""

end Reply

end BuildMatrix.Cli
