import BuildMatrix.Shell.Condition
import BuildMatrix.Shell.Expansion
import BuildMatrix.Shell.Parser
import BuildMatrix.Shell.Utilities

/-!
# What the shell can do itself

Commands that the shell does without another program: those that change its own state, such as the
current directory and the variables, and some that are only quicker that way.
-/

namespace BuildMatrix.Shell

/-- The number that stands for the shell itself among the processes. -/
def processNumber : String := "4242"

/-- What separates fields. -/
def State.separators (state : State) : List Char :=
  match state.value? "IFS" with
  | some value => value.toList
  | none => [' ', '\t', '\n']

/-- Only digits. -/
def isNumber (text : String) : Bool := text ≠ "" && text.toList.all Char.isDigit

/-- The number of an argument that has to be one; it is wrong to give another, and the shell
ends. -/
def numberArgument (name text : String) : Eval Nat :=
  match text.toNat? with
  | some n =>
    if isNumber text && n < Nat.pow 2 31 then pure n
    else do
      report (name ++ ": Illegal number: " ++ text)
      Eval.interrupt (.exit 2)
  | none => do
      report (name ++ ": Illegal number: " ++ text)
      Eval.interrupt (.exit 2)

/-- Print words. -/
def echo : Utility := fun arguments => do
  printBytes ⟨(echoBytes arguments).toArray⟩
  pure 0

/-- Print by a format. -/
def printf : Utility := fun arguments =>
  match arguments with
  | [] => do
      report "printf: usage: printf format [arg ...]"
      pure 2
  | format :: arguments => do
      let use := formatted format arguments
      printBytes ⟨use.bytes.toArray⟩
      let _ ← forEach (fun text => do
        report text
        pure 0) use.complaints
      pure (if use.isMalformed then 2 else if use.complaints.isEmpty then 0 else 1)

/-- Look whether a condition holds. -/
def test (name : String) (words : List String) : Eval Nat := do
  let state ← Eval.get
  match condition state.tree words with
  | .ok truth => pure (if truth then 0 else 1)
  | .error problem =>
    report (name ++ ": " ++ problem)
    pure 2

/-- A condition in brackets. -/
def bracket : Utility := fun arguments =>
  if arguments.getLast? = some "]" then test "[" arguments.dropLast
  else do
    report "[: missing ]"
    pure 2

/-- A path without parts that lead back. -/
def plainParts (parts : List String) : List String :=
  parts.foldl (fun before part =>
    if part = "" || part = "." then before
    else if part = ".." then before.dropLast
    else before ++ [part]) []

/-- Enter a directory, as it is written. -/
def cd : Utility := fun arguments => do
  let state ← Eval.get
  let arguments := (splitOptions arguments).2
  let target := match arguments with
    | [] => state.value "HOME"
    | "-" :: _ => state.value "OLDPWD"
    | target :: _ => target
  let start := if target.startsWith "/" then [] else (state.value "PWD").splitOn "/"
  let path := FileTree.locationText (plainParts (start ++ target.splitOn "/"))
  if target = "" then pure 0
  else
    match state.tree.enter ⟨path⟩ with
    | .error _ =>
      report ("cd: can't cd to " ++ target)
      pure 2
    | .ok tree =>
      Eval.modify fun state =>
        ({ state with tree }.assign "OLDPWD" (state.value "PWD")).assign "PWD" path
      if arguments.head? = some "-" then print (path ++ "\n")
      pure 0

/-- Print the working directory. -/
def pwd : Utility := fun arguments => do
  let state ← Eval.get
  print ((if arguments.contains "-P" then state.directory else state.value "PWD") ++ "\n")
  pure 0

/-- End the shell. -/
def exit : Utility := fun arguments => do
  let state ← Eval.get
  match arguments with
  | [] => Eval.interrupt (.exit state.status)
  | text :: _ =>
    let status ← numberArgument "exit" text
    Eval.interrupt (.exit (status % 256))

/-- Leave loops, or go on with the next round. -/
def leave (name : String) (again : Bool) (arguments : List String) : Eval Nat := do
  let state ← Eval.get
  let levels ← match arguments with
    | [] => pure 1
    | text :: _ => numberArgument name text
  if state.loops = 0 then pure 0
  else Eval.interrupt (.leave (min levels state.loops) again)

/-- The name and the value of an argument that may assign one. -/
def splitAssignment (argument : String) : String × Option String :=
  let chars := argument.toList
  let name := chars.takeWhile (· ≠ '=')
  match chars.drop name.length with
  | [] => (argument, none)
  | _ :: value => (String.ofList name, some (String.ofList value))

/-- Let commands see variables. -/
def exportCommand : Utility :=
  forEach fun argument => do
    let (name, value?) := splitAssignment argument
    if !isName name then
      report ("export: " ++ argument ++ ": bad variable name")
      Eval.interrupt (.exit 2)
    else
      Eval.modify fun state =>
        match value?.or (state.value? name) with
        | some value => state.assign name value true
        | none => state
      pure 0

/-- Forget variables. -/
def unsetCommand : Utility :=
  forEach fun name => do
    Eval.modify (·.unset name)
    pure 0

/-- Say whether the shell ends when a command fails. -/
def setCommand : Utility := fun arguments => do
  match arguments with
  | "-e" :: _ => Eval.modify fun state => { state with strict := true }
  | "+e" :: _ => Eval.modify fun state => { state with strict := false }
  | _ => pure ()
  pure 0

/-- The signals that a process survives. -/
def harmlessSignals : List String := ["0", "CHLD", "CONT", "URG", "WINCH", "17", "18", "23", "28"]

/-- Send a signal. -/
def kill : Utility := fun arguments => do
  let (signal, targets) := match arguments with
    | "-s" :: signal :: targets => (signal, targets)
    | first :: targets =>
      if isOption first then (String.ofList (first.toList.drop 1), targets)
      else ("TERM", arguments)
    | [] => ("TERM", [])
  match targets with
  | [] =>
    report "kill: Usage: kill [-s sigspec | -signum | -sigspec] [pid | job]..."
    pure 2
  | target :: _ =>
    if target = processNumber || target = "0" then
      if harmlessSignals.contains signal then pure 0 else Eval.interrupt .signal
    else
      report ("kill: No such process")
      pure 1

/-- Wait until what runs in the background has ended. -/
def waitCommand : Utility := fun _ => do
  let state ← Eval.get
  wait (state.backgroundEnd - state.elapsed)
  pure 0

/-- The **command of the shell** with a name. -/
def builtin? : String → Option Utility
  | ":" => some fun _ => pure 0
  | "true" => some fun _ => pure 0
  | "false" => some fun _ => pure 1
  | "echo" => some echo
  | "printf" => some printf
  | "test" => some (test "test")
  | "[" => some bracket
  | "cd" => some cd
  | "pwd" => some pwd
  | "exit" => some exit
  | "break" => some (leave "break" false)
  | "continue" => some (leave "continue" true)
  | "export" => some exportCommand
  | "unset" => some unsetCommand
  | "set" => some setCommand
  | "kill" => some kill
  | "wait" => some waitCommand
  | "trap" => some fun _ => pure 0
  | _ => none

/-- Commands whose failure **ends the shell**. -/
def isSpecial (name : String) : Bool :=
  [":", "break", "continue", "exec", "exit", "export", "set", "trap", "unset"].contains name

end BuildMatrix.Shell
