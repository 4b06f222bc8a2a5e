import BuildMatrix.Shell.Evaluator

/-!
# The shell as a system that runs commands

A command line is a script that a shell runs in the directory of the command, with its environment.
-/

namespace BuildMatrix.Shell

/-- The value of a variable in the environment of a command. -/
def environmentValue? (invocation : Invocation) (name : String) : Option String :=
  (invocation.env.reverse.find? fun e => e.1 == name).map (·.2)

/-- Whether the shell is found: where the environment says in which directories to look, it has to
be in one of them. -/
def isFound (invocation : Invocation) : Bool :=
  match environmentValue? invocation "PATH" with
  | none => true
  | some path => holdsUtilities path

/-- Why a command cannot be started in a file tree, if it cannot. -/
def obstacle? (invocation : Invocation) (tree : FileTree) : Option String :=
  let texts := invocation.command :: invocation.env.flatMap fun (name, value) => [name, value]
  if texts.any fun text => text.toList.contains '\x00' then some "nul byte found in provided data"
  else
    match tree.enter invocation.directory with
    | .ok _ => if isFound invocation then none else some OsError.notFound.message
    | .error error => some error.message

/-- The variables that the shell sets itself. -/
def ownVariables : List String := ["PWD", "IFS"]

/-- The **shell that a command is started in**. -/
def initial (invocation : Invocation) (tree : FileTree) : State :=
  let tree := match tree.enter invocation.directory with
    | .ok tree => tree
    | .error _ => tree
  let state : State := { tree, deadline := invocation.limit.map (·.nanos) }
  let bindings := invocation.env.map fun (name, value) => splitAssignment (name ++ "=" ++ value)
  let given := bindings.filter fun (name, _) => isName name && !ownVariables.contains name
  let state := given.foldl
    (fun state (name, value) => state.assign name (value.getD "") true) state
  state.assign "PWD" state.directory

/-- When a shell has ended and its streams were read: what it left in the background may hold a
stream open, as long as the stream is read. -/
def endOf (state : State) : Nat :=
  if state.isUnreadable 0 && state.isUnreadable 1 then state.elapsed
  else max state.elapsed state.backgroundEnd

/-- The **system whose commands are scripts**. -/
def system : System := fun invocation tree =>
  match obstacle? invocation tree with
  | some reason => .error reason
  | none =>
    let (exit, state) := run invocation.command (initial invocation tree)
    .ok {
      exit
      stdout := state.buffers.getD 0 ByteArray.empty
      stderr := state.buffers.getD 1 ByteArray.empty
      tree := state.tree
      elapsed := endOf state }

end BuildMatrix.Shell
