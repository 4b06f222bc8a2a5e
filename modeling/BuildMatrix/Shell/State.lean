import BuildMatrix.FileTree.Access
import BuildMatrix.Shell.Grammar

/-!
# The state of a shell

A running shell has a file tree with a current directory, variables, and
descriptors that say where output goes: into a buffer, to the end of a file, or nowhere. The first
two buffers are the output and the errors of the whole script; others hold the output of commands
inside words and pipelines. Time passes only while commands wait, and the shell may have a deadline.
Who reads the output of the script goes away at a line that is no text; a command that writes after
that is ended by it.
-/

namespace BuildMatrix.Shell

/-- Where a descriptor leads. -/
inductive Sink where
  | buffer (index : Nat)
  | file (location : Location)
  | nowhere
  deriving DecidableEq, Inhabited

/-- The value of a variable, and whether commands see it. -/
structure Variable where
  name : String
  value : String
  exported : Bool := false
  deriving DecidableEq, Inhabited, Repr

/-- The **state of a shell**. -/
structure State where
  tree : FileTree
  bindings : List Variable := []
  status : Nat := 0
  buffers : Array ByteArray := #[ByteArray.empty, ByteArray.empty]
  /-- The buffers that nobody reads any more. -/
  closed : List Nat := []
  descriptors : List (Nat × Sink) := [(1, .buffer 0), (2, .buffer 1)]
  input : ByteArray := ByteArray.empty
  /-- Nanoseconds since the start. -/
  elapsed : Nat := 0
  /-- When the last command in the background ends. -/
  backgroundEnd : Nat := 0
  deadline : Option Nat := none
  /-- The line of the script that is being run. -/
  line : Nat := 1
  /-- Whether the shell ends when a command fails. -/
  strict : Bool := false
  /-- Whether the status of the command is looked at, so that a failure is no reason to stop. -/
  tested : Bool := false
  /-- How many loops are around the command. -/
  loops : Nat := 0

/-- What **ends commands early**. -/
inductive Interrupt where
  | exit (status : Nat)
  | signal
  | deadline
  /-- Nobody reads what is written. -/
  | unread
  /-- Leave a number of loops, or go on with the next round of the last of them. -/
  | leave (levels : Nat) (again : Bool)
  deriving DecidableEq, Inhabited, Repr

/-- **Steps of a shell.** -/
def Eval (α : Type) := State → Except Interrupt α × State

namespace Eval

variable {α β : Type}

instance : Monad Eval where
  pure value := fun state => (.ok value, state)
  bind first next := fun state =>
    match first state with
    | (.error interrupt, state) => (.error interrupt, state)
    | (.ok value, state) => next value state

/-- The state. -/
def get : Eval State := fun state => (.ok state, state)

/-- Change the state. -/
def modify (change : State → State) : Eval Unit := fun state => (.ok (), change state)

/-- End commands early. -/
def interrupt (reason : Interrupt) : Eval α := fun state => (.error reason, state)

/-- A step with what ended it. -/
def attempt (step : Eval α) : Eval (Except Interrupt α) := fun state =>
  let (result, state) := step state
  (.ok result, state)

end Eval

namespace State

/-- The value of a variable. -/
def value? (state : State) (name : String) : Option String :=
  (state.bindings.find? fun v => v.name == name).map (·.value)

/-- The value of a variable, empty if it is not set. -/
def value (state : State) (name : String) : String := (state.value? name).getD ""

/-- Variables with another value of one of them. -/
def assignIn (name value : String) (exported : Bool) : List Variable → List Variable
  | [] => [{ name, value, exported }]
  | v :: rest =>
    if v.name = name then { name, value, exported := v.exported || exported } :: rest
    else v :: assignIn name value exported rest

/-- Set a variable. -/
def assign (state : State) (name value : String) (exported : Bool := false) : State :=
  { state with bindings := assignIn name value exported state.bindings }

/-- Drop a variable. -/
def unset (state : State) (name : String) : State :=
  { state with bindings := state.bindings.filter fun v => v.name != name }

/-- Put a variable back. -/
def restore (state : State) (name : String) (before : Option Variable) : State :=
  match before with
  | none => state.unset name
  | some v => { state.unset name with bindings := v :: (state.unset name).bindings }

/-- The variable of a name. -/
def find? (state : State) (name : String) : Option Variable :=
  state.bindings.find? fun v => v.name == name

/-- The working directory. -/
def directory (state : State) : String := FileTree.locationText state.tree.here

/-- Where a descriptor leads. -/
def sink (state : State) (descriptor : Nat) : Sink :=
  match state.descriptors.find? fun d => d.1 == descriptor with
  | some (_, sink) => sink
  | none => .nowhere

/-- Lead a descriptor elsewhere. -/
def redirect (state : State) (descriptor : Nat) (sink : Sink) : State :=
  { state with descriptors := (descriptor, sink) :: state.descriptors }

/-- Write bytes. -/
def write (state : State) (descriptor : Nat) (bytes : ByteArray) : State :=
  match state.sink descriptor with
  | .nowhere => state
  | .buffer index =>
    { state with buffers := state.buffers.modify index fun content => content ++ bytes }
  | .file location =>
    match state.tree.entry? location with
    | some (.file content) =>
      { state with tree := state.tree.insert location (.file (content ++ bytes)) }
    | _ => state

/-- Whether a buffer has a whole **line that is no text**. -/
def isUnreadable (state : State) (index : Nat) : Bool :=
  let content := (state.buffers.getD index ByteArray.empty).toList
  let whole := (content.reverse.dropWhile (· ≠ 10)).reverse
  (Text.linesRead whole).length < (Text.lines whole).length

/-- The state when those who read the output have seen all of it so far. -/
def afterReading (state : State) : State :=
  { state with closed := [0, 1].filter state.isUnreadable }

end State

/-! ### Basic steps -/

/-- The status of a process that is ended because nobody reads what it writes. -/
def unreadStatus : Nat := 141

/-- Write to a descriptor. -/
def emit (descriptor : Nat) (bytes : ByteArray) : Eval Unit := do
  let state ← Eval.get
  match state.sink descriptor with
  | .buffer index =>
    if state.closed.contains index && bytes.size ≠ 0 then Eval.interrupt .unread
  | _ => pure ()
  Eval.modify fun state => state.write descriptor bytes

/-- Print a text. -/
def print (text : String) : Eval Unit := emit 1 text.toUTF8

/-- Print bytes. -/
def printBytes (bytes : ByteArray) : Eval Unit := emit 1 bytes

/-- Print a complaint. -/
def complain (text : String) : Eval Unit := emit 2 (text ++ "\n").toUTF8

/-- A complaint of the shell itself, with the line of the script. -/
def report (text : String) : Eval Unit := do
  let state ← Eval.get
  complain ("sh: " ++ toString state.line ++ ": " ++ text)

/-- Change the file tree, if that can be done. -/
def changeTree (operation : FileTree → Except OsError FileTree) : Eval (Option OsError) :=
  fun state =>
    match operation state.tree with
    | .ok tree => (.ok none, { state with tree })
    | .error error => (.ok (some error), state)

/-- Let time pass. -/
def wait (nanos : Nat) : Eval Unit := do
  if 0 < nanos then Eval.modify State.afterReading
  let state ← Eval.get
  let reached := state.elapsed + nanos
  match state.deadline with
  | some deadline =>
    if deadline ≤ reached then
      Eval.modify fun state => { state with elapsed := deadline }
      Eval.interrupt .deadline
    else Eval.modify fun state => { state with elapsed := reached }
  | none => Eval.modify fun state => { state with elapsed := reached }

end BuildMatrix.Shell
