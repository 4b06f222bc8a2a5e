import BuildMatrix.Invocation
import BuildMatrix.Shell.Arithmetic
import BuildMatrix.Shell.Builtins

/-!
# Running scripts

The meaning of scripts: a script changes the state of a shell and ends with a status, unless
something ends it early. Commands in parentheses, inside words and in pipelines run in a shell of
their own, of which only the files, the output and the time are kept. Scripts need not end, so that
all of this goes to a given depth only; a script that goes deeper counts as one that waits until its
deadline.
-/

namespace BuildMatrix.Shell

/-! ### Steps around others -/

/-- Run a step in a **shell of its own**. -/
def subshell (step : Eval Nat) : Eval Nat := do
  let before ← Eval.get
  let result ← Eval.attempt step
  Eval.modify fun state =>
    { before with
      tree := { state.tree with here := before.tree.here }
      buffers := state.buffers
      input := state.input
      elapsed := state.elapsed
      backgroundEnd := state.backgroundEnd
      closed := state.closed }
  match result with
  | .ok status => pure status
  | .error (.exit status) => pure status
  | .error (.leave _ _) => pure 0
  | .error .unread => pure unreadStatus
  | .error reason => Eval.interrupt reason

/-- Run a step in a shell of its own and **keep its output** apart. -/
def capture (step : Eval Nat) : Eval (ByteArray × Nat) := do
  let before ← Eval.get
  let index := before.buffers.size
  Eval.modify fun state =>
    { state with buffers := state.buffers.push ByteArray.empty }.redirect 1 (.buffer index)
  let status ← subshell step
  let after ← Eval.get
  Eval.modify fun state =>
    { state with descriptors := before.descriptors, buffers := state.buffers.take index }
  pure (after.buffers.getD index ByteArray.empty, status)

/-- Run a step whose status is looked at. -/
def testing (step : Eval Nat) : Eval Nat := do
  let before ← Eval.get
  Eval.modify fun state => { state with tested := true }
  let status ← step
  Eval.modify fun state => { state with tested := before.tested }
  pure status

/-- A step inside a loop. -/
def inLoop (step : Eval Nat) : Eval Nat := do
  Eval.modify fun state => { state with loops := state.loops + 1 }
  let result ← Eval.attempt step
  Eval.modify fun state => { state with loops := state.loops - 1 }
  match result with
  | .ok status => pure status
  | .error reason => Eval.interrupt reason

/-- Note a status. -/
def note (status : Nat) : Eval Nat := do
  Eval.modify fun state => { state with status }
  pure status

/-- Note the status of a command, and end the shell if it failed and that was asked for. -/
def settle (status : Nat) : Eval Nat := do
  let _ ← note status
  let state ← Eval.get
  if status ≠ 0 && state.strict && !state.tested then Eval.interrupt (.exit status)
  else pure status

/-- End with a complaint. -/
def abort {α : Type} (text : String) : Eval α := do
  report text
  Eval.interrupt (.exit 2)

/-! ### Values -/

/-- The value of a parameter, if it is set; a command has no arguments. -/
def State.parameter? (state : State) (name : String) : Option String :=
  match name with
  | "?" => some (toString state.status)
  | "#" => some "0"
  | "$" => some processNumber
  | "0" => some "sh"
  | name => state.value? name

/-- What a value stands for in a word. -/
def valueFragment (quoted : Bool) (text : String) : Fragment :=
  if quoted then .plain text true else .value text

/-- The output of a command as a value: without the ends of lines at its end. -/
def outputText (content : ByteArray) : String :=
  let chars := (Text.decodeLossy content).toList.filter (· ≠ '\x00')
  String.ofList (chars.reverse.dropWhile (· = '\n')).reverse

/-- The state of a new shell, which sees the variables that commands see. -/
def State.fresh (state : State) : State :=
  { state with
    strict := false
    tested := false
    loops := 0
    bindings := state.bindings.filter fun v => v.exported || v.name == "PWD" }

/-! ### Redirections -/

/-- Why a file cannot be read. -/
def openReason : OsError → String
  | .notFound => "No such file"
  | .notDirectory => "No such file"
  | error => error.reason

/-- Why a file cannot be made. -/
def createReason : OsError → String
  | .notFound => "Directory nonexistent"
  | .notDirectory => "Directory nonexistent"
  | error => error.reason

/-- Let a descriptor lead to a file that is written from its start, or, if `keep`, from its end. -/
def openFile (descriptor : Nat) (path : String) (keep : Bool) : Eval Bool := do
  let state ← Eval.get
  if path = nullPath then
    Eval.modify fun state => state.redirect descriptor .nowhere
    pure true
  else if path = "/dev/stdout" || path = "/dev/stderr" then
    Eval.modify fun state =>
      state.redirect descriptor (state.sink (if path = "/dev/stdout" then 1 else 2))
    pure true
  else
    match state.tree.fileSlot ⟨path⟩ with
    | .error error =>
      report ("cannot create " ++ path ++ ": " ++ createReason error)
      pure false
    | .ok (location, content) =>
      Eval.modify fun state =>
        { state with
          tree := state.tree.insert location
            (.file (if keep then content else ByteArray.empty)) }.redirect
          descriptor (.file location)
      pure true

/-- Lead a descriptor to a target. -/
def openTarget (descriptor : Nat) (kind : RedirectionKind) (target : String) : Eval Bool :=
  match kind with
  | .write => openFile descriptor target false
  | .append => openFile descriptor target true
  | .read => do
      let state ← Eval.get
      if target = nullPath then
        Eval.modify fun state => { state with input := ByteArray.empty }
        pure true
      else
        match state.tree.lookup true ⟨target⟩ with
        | .ok (_, .file content) =>
          Eval.modify fun state => { state with input := content }
          pure true
        | .ok _ =>
          Eval.modify fun state => { state with input := ByteArray.empty }
          pure true
        | .error error =>
          report ("cannot open " ++ target ++ ": " ++ openReason error)
          pure false
  | .duplicate => do
      if target = "-" then
        Eval.modify fun state => state.redirect descriptor .nowhere
        pure true
      else
        match target.toNat? with
        | some 0 => pure true
        | some other => do
            let state ← Eval.get
            if state.descriptors.any fun d => d.1 == other then
              Eval.modify fun state => state.redirect descriptor (state.sink other)
              pure true
            else
              report (toString other ++ ": Bad file descriptor")
              pure false
        | none => abort "Syntax error: Bad fd number"

/-- Whether it is about the input. -/
def Redirection.changesInput : Redirection → Bool
  | .mk _ .read _ => true
  | _ => false

/-- The state with the descriptors of an earlier one. -/
def State.closeTo (state before : State) (redirections : List Redirection) : State :=
  { state with
    descriptors := before.descriptors
    input := if redirections.any (·.changesInput) then before.input else state.input }

/-! ### Commands of other programs -/

/-- Whether the programs of the system are in one of some directories. -/
def holdsUtilities (directories : String) : Bool :=
  (directories.splitOn ":").any fun d => d = "/bin" || d = "/usr/bin"

/-- Whether utilities can be found. -/
def State.findsUtilities (state : State) : Bool :=
  match state.value? "PATH" with
  | some path => holdsUtilities path
  | none => true

/-- The name of a program of the system, without its directory. -/
def systemName? (name : String) : Option String :=
  match name.splitOn "/" with
  | ["", "bin", program] => some program
  | ["", "usr", "bin", program] => some program
  | _ => none

/-- Run a program that is not part of the shell. -/
def runProgram (name : String) (arguments : List String) : Eval Nat := do
  let state ← Eval.get
  let program? := match systemName? name with
    | some program => some program
    | none => if name.toList.contains '/' || !state.findsUtilities then none else some name
  match program?.bind utility? with
  | some utility =>
    match ← Eval.attempt (utility arguments) with
    | .ok status => pure status
    | .error .unread => pure unreadStatus
    | .error reason => Eval.interrupt reason
  | none =>
    if name.toList.contains '/' && state.tree.pathExists ⟨name⟩ then
      report (name ++ ": Permission denied")
      pure 126
    else
      match program?.bind fun program => if program = name then none else builtin? program with
      | some utility => utility arguments
      | none =>
        report (name ++ ": not found")
        pure 127

/-! ### Scripts -/

mutual

/-- Expand a piece. -/
def expandPiece : Nat → Piece → Eval (List Fragment)
  | 0, _ => Eval.interrupt .deadline
  | fuel + 1, piece =>
    match piece with
    | .text value quoted => pure [.plain value quoted]
    | .parameter name otherwise quoted => do
        let state ← Eval.get
        match state.parameter? name, otherwise with
        | some value, some (orEmpty, word) =>
          if orEmpty && value = "" then expandPieces fuel word
          else pure [valueFragment quoted value]
        | none, some (_, word) => expandPieces fuel word
        | value?, none => pure [valueFragment quoted (value?.getD "")]
    | .substitution body quoted => do
        let (content, status) ← capture (runScript fuel body)
        Eval.modify fun state => { state with status }
        pure [valueFragment quoted (outputText content)]
    | .arithmetic expression quoted => do
        let text ← expandText fuel expression
        let state ← Eval.get
        match Arithmetic.parse text with
        | .error error => abort (Arithmetic.Error.message error text)
        | .ok expression =>
          match expression.eval state.value with
          | .error error => abort (Arithmetic.Error.message error text)
          | .ok value => pure [valueFragment quoted (toString value.toInt)]

/-- Expand pieces. -/
def expandPieces : Nat → List Piece → Eval (List Fragment)
  | 0, _ => Eval.interrupt .deadline
  | _ + 1, [] => pure []
  | fuel + 1, piece :: rest => do
      let first ← expandPiece fuel piece
      let others ← expandPieces fuel rest
      pure (first ++ others)

/-- The text of a word that stands for one. -/
def expandText : Nat → List Piece → Eval String
  | 0, _ => Eval.interrupt .deadline
  | fuel + 1, pieces => do
      let fragments ← expandPieces fuel pieces
      pure (fieldText (wholeField fragments))

/-- Expand words to fields. -/
def expandWords : Nat → List (List Piece) → Eval (List String)
  | 0, _ => Eval.interrupt .deadline
  | _ + 1, [] => pure []
  | fuel + 1, word :: rest => do
      let fragments ← expandPieces fuel word
      let state ← Eval.get
      let found := (fields state.separators fragments).flatMap (fileNames state.tree)
      let others ← expandWords fuel rest
      pure (found ++ others)

/-- Assign the values that words stand for, one after the other. -/
def assignAll : Nat → Bool → List (String × List Piece) → Eval Unit
  | 0, _, _ => Eval.interrupt .deadline
  | _ + 1, _, [] => pure ()
  | fuel + 1, exported, (name, word) :: rest => do
      let text ← expandText fuel word
      Eval.modify fun state => state.assign name text exported
      assignAll fuel exported rest

/-- Open what redirections lead to, up to the first that cannot be opened. -/
def openAll : Nat → List Redirection → Eval Bool
  | 0, _ => Eval.interrupt .deadline
  | _ + 1, [] => pure true
  | fuel + 1, .mk descriptor kind target :: rest => do
      let text ← expandText fuel target
      let opened ← openTarget descriptor kind text
      if opened then openAll fuel rest else pure false

/-- Run the command with a name, with its arguments. -/
def runCommand : Nat → String → List String → Eval Nat
  | 0, _, _ => Eval.interrupt .deadline
  | fuel + 1, name, arguments =>
    match name, arguments with
    | "exec", [] => pure 0
    | "exec", program :: arguments => do
        let status ← runCommand fuel program arguments
        Eval.interrupt (.exit status)
    | "sh", "-c" :: text :: _ =>
      subshell do
        Eval.modify State.fresh
        runText fuel (text.toList.count '\n') text.toList
    | name, arguments =>
      match builtin? name with
      | some utility => utility arguments
      | none => runProgram name arguments

/-- Run a command made of assignments, words and redirections. -/
def runSimple : Nat → List (String × List Piece) → List (List Piece) → List Redirection → Eval Nat
  | 0, _, _, _ => Eval.interrupt .deadline
  | fuel + 1, assignments, words, redirections => do
      let argv ← expandWords fuel words
      match argv with
      | [] =>
        Eval.modify fun state => { state with status := 0 }
        let before ← Eval.get
        let opened ← openAll fuel redirections
        Eval.modify fun state => state.closeTo before redirections
        if !opened then settle 2
        else
          assignAll fuel false assignments
          let state ← Eval.get
          settle state.status
      | name :: arguments =>
        let before ← Eval.get
        let opened ← openAll fuel redirections
        if !opened then
          Eval.modify fun state => state.closeTo before redirections
          if isSpecial name then Eval.interrupt (.exit 2) else settle 2
        else
          assignAll fuel true assignments
          let result ← Eval.attempt (runCommand fuel name arguments)
          if !(name = "exec" && arguments.isEmpty) then
            Eval.modify fun state => state.closeTo before redirections
          if !isSpecial name then
            Eval.modify fun state =>
              assignments.foldl
                (fun state (name, _) => state.restore name (before.find? name)) state
          match result with
          | .ok status => settle status
          | .error reason => Eval.interrupt reason

/-- Run a loop. -/
def runLoop : Nat → Bool → Script → Script → Nat → Eval Nat
  | 0, _, _, _, _ => Eval.interrupt .deadline
  | fuel + 1, untilSuccess, test, body, last => do
      let status ← testing (runScript fuel test)
      if (status == 0) == untilSuccess then pure last
      else
        match ← Eval.attempt (runScript fuel body) with
        | .ok last => runLoop fuel untilSuccess test body last
        | .error (.leave levels again) =>
          if 1 < levels then Eval.interrupt (.leave (levels - 1) again)
          else if again then runLoop fuel untilSuccess test body 0
          else pure 0
        | .error reason => Eval.interrupt reason

/-- Run a script once for each value of a variable. -/
def runEach : Nat → String → Script → List String → Nat → Eval Nat
  | 0, _, _, _, _ => Eval.interrupt .deadline
  | _ + 1, _, _, [], last => pure last
  | fuel + 1, name, body, value :: rest, _ => do
      Eval.modify fun state => state.assign name value
      match ← Eval.attempt (runScript fuel body) with
      | .ok last => runEach fuel name body rest last
      | .error (.leave levels again) =>
        if 1 < levels then Eval.interrupt (.leave (levels - 1) again)
        else if again then runEach fuel name body rest 0
        else pure 0
      | .error reason => Eval.interrupt reason

/-- The **meaning of a script**. -/
def runScript : Nat → Script → Eval Nat
  | 0, _ => Eval.interrupt .deadline
  | fuel + 1, script =>
    match script with
    | .nothing => note 0
    | .simple assignments words redirections line => do
        Eval.modify fun state => { state with line }
        runSimple fuel assignments words redirections
    | .redirected body redirections => do
        let before ← Eval.get
        let opened ← openAll fuel redirections
        if !opened then
          Eval.modify fun state => state.closeTo before redirections
          settle 2
        else
          let result ← Eval.attempt (runScript fuel body)
          Eval.modify fun state => state.closeTo before redirections
          match result with
          | .ok status => pure status
          | .error reason => Eval.interrupt reason
    | .subshell body => do
        let status ← subshell (runScript fuel body)
        settle status
    | .pipeline first second => do
        let before ← Eval.get
        let (content, _) ← capture (runScript fuel first)
        let between ← Eval.get
        Eval.modify fun state => { state with input := content, elapsed := before.elapsed }
        let status ← subshell (runScript fuel second)
        Eval.modify fun state =>
          { state with input := before.input, elapsed := max state.elapsed between.elapsed }
        settle status
    | .negated body => do
        let status ← testing (runScript fuel body)
        note (if status = 0 then 1 else 0)
    | .both first second => do
        let status ← testing (runScript fuel first)
        if status = 0 then runScript fuel second else pure status
    | .either first second => do
        let status ← testing (runScript fuel first)
        if status = 0 then pure status else runScript fuel second
    | .sequence first second => do
        let _ ← runScript fuel first
        runScript fuel second
    | .background body => do
        let before ← Eval.get
        let _ ← subshell do
          Eval.modify fun state => { state with input := ByteArray.empty, deadline := none }
          runScript fuel body
        Eval.modify fun state =>
          { state with
            input := before.input
            elapsed := before.elapsed
            backgroundEnd := max state.backgroundEnd state.elapsed }
        settle 0
    | .conditional test body other => do
        let status ← testing (runScript fuel test)
        if status = 0 then runScript fuel body else runScript fuel other
    | .repeated untilSuccess test body => do
        let status ← inLoop (runLoop fuel untilSuccess test body 0)
        note status
    | .each name items body => do
        let values ← expandWords fuel items
        let status ← inLoop (runEach fuel name body values 0)
        note status

/-- The **meaning of a text**, in which `ends` lines end; it is read and run line by line. -/
def runText : Nat → Nat → List Char → Eval Nat
  | 0, _, _ => Eval.interrupt .deadline
  | fuel + 1, ends, text =>
    match readLine ends text with
    | .error error => do
        Eval.modify fun state => { state with line := lineAt ends (skipAll text) }
        abort error.message
    | .ok none => pure 0
    | .ok (some (script, rest)) => do
        let status ← runScript fuel script
        if (skipAll rest).isEmpty then pure status else runText fuel ends rest

end

/-! ### Whole scripts -/

/-- How deep a script may get. -/
def depth : Nat := 20000

/-- **Run** a whole script: how it ends, and the state then. -/
def run (text : String) (state : State) : Exit × State :=
  match runText depth (text.toList.count '\n') text.toList state with
  | (.ok status, state) => (.exited status, state)
  | (.error (.exit status), state) => (.exited status, state)
  | (.error (.leave _ _), state) => (.exited 0, state)
  | (.error .signal, state) => (.signalled, state)
  | (.error .unread, state) => (.signalled, state)
  | (.error .deadline, state) => (.stopped, state)

end BuildMatrix.Shell
