import BuildMatrix.Session
import BuildMatrix.Text.Utf8

/-!
# Commands as jobs

A command line is run in a directory, with an environment and at most for a given time. It reads
nothing; every line it writes is a line of the job. A command that does not end with status zero
fails the job with the last lines of its errors. What a command does is a matter of the *system* it
runs on: the file tree it leaves, the bytes it writes, and how it ends.
-/

namespace BuildMatrix

/-- A **command line** with its surroundings. -/
structure Invocation where
  command : String
  directory : Path
  /-- Of two entries with one name the later one counts. -/
  env : List (String × String) := []
  limit : Option Duration := none

/-- How a command **ends**. -/
inductive Exit where
  | exited (status : Nat)
  | signalled
  /-- It did not end before its time was over. -/
  | stopped
  deriving DecidableEq, Inhabited, Repr

/-- The code that a command ended with; there is none after a signal. -/
def Exit.code? : Exit → Option Int
  | exited status => some status
  | _ => none

/-- What a command **did**. -/
structure Performance where
  exit : Exit
  /-- The bytes it wrote to its two streams. -/
  stdout : ByteArray := .empty
  stderr : ByteArray := .empty
  /-- The file tree that it left. -/
  tree : FileTree
  /-- Nanoseconds until it had ended and its streams were read. -/
  elapsed : Nat := 0

/-- A **system that runs commands**: what a command does in a file tree, or why it cannot be
started there. -/
def System := Invocation → FileTree → Except String Performance

/-- The system on which every command **succeeds at once** and does nothing. -/
def System.idle : System := fun _ tree => .ok { exit := .exited 0, tree }

namespace Invocation

/-- What a command **wrote**, line by line. -/
structure Streams where
  stdout : List String
  stderr : List String
  deriving DecidableEq, Inhabited, Repr

/-- How many lines of its errors the failure of a command has. -/
def tailLength : Nat := 20

/-- The **last lines** of the errors. -/
def Streams.tail (streams : Streams) : String :=
  "\n".intercalate (streams.stderr.drop (streams.stderr.length - tailLength))

/-- The lines with the mark of their stream. -/
def Streams.lines (streams : Streams) : List OutputLine :=
  (streams.stdout.map fun text => ⟨text, false⟩) ++ streams.stderr.map fun text => ⟨text, true⟩

/-- What is **read** of what a command wrote. -/
def streamsOf (performance : Performance) : Streams where
  stdout := Text.linesRead performance.stdout.toList
  stderr := Text.linesRead performance.stderr.toList

/-- Whether a command has to be stopped because its time is over. -/
def isStopped (invocation : Invocation) (performance : Performance) : Bool :=
  match performance.exit, invocation.limit with
  | .stopped, _ => true
  | _, some limit => limit.nanos ≤ performance.elapsed
  | _, none => false

/-- What a command **comes to**: its lines if it ended with status zero in time. -/
def result (invocation : Invocation) (performance : Performance) : Except Failure Streams :=
  let streams := streamsOf performance
  if invocation.isStopped performance then .error (.timeout (invocation.limit.getD ⟨0⟩))
  else
    match performance.exit with
    | .exited 0 => .ok streams
    | exit => .error (.commandFailed exit.code? streams.tail)

/-- **Run** a command. A job that has been asked to stop, or that has no time at all, starts the
command only to stop it at once. -/
def run (invocation : Invocation) (system : System) : Job Streams := fun session =>
  match system invocation session.tree with
  | .error reason => (.error (.spawn invocation.command reason), session)
  | .ok performance =>
    if session.isStopping then (.error .cancelled, session)
    else if invocation.limit = some ⟨0⟩ then (.error (.timeout ⟨0⟩), session)
    else
      (invocation.result performance,
        { session with
          tree := { performance.tree with here := session.tree.here }
          now := ⟨session.now.nanos + performance.elapsed⟩
          lines := session.lines ++ (streamsOf performance).lines })

end Invocation

end BuildMatrix
