/-!
# Options and operands

How the arguments of a command line are read at one level. An option has a name of several letters,
written after two hyphens, and perhaps one of a single letter, written after one; letters may share
a hyphen. An option with a value takes what follows it, in the same argument or in the next one,
which must not look like an option itself. Two hyphens alone end the options. Every other argument
is an operand, or, at a level that has subcommands, the name of one of them, and then all further
arguments belong to that.
-/

namespace BuildMatrix.Cli

/-- An **option**. -/
structure Opt where
  name : String
  letter : Option Char := none
  /-- The values the option takes, if it takes one. -/
  accepts : Option (String → Bool) := none

/-- How many operands there can be. -/
inductive Capacity where
  | none
  | one
  | many
  deriving DecidableEq, Inhabited, Repr

/-- What can be given at a **level**. -/
structure Level where
  options : List Opt
  operands : Capacity := .none
  acceptsOperand : String → Bool := fun _ => true
  subcommands : List String := []

/-- What **was given** at a level. -/
structure Given where
  /-- The options with their values, which are empty for those that take none. -/
  options : List (String × String) := []
  operands : List String := []
  subcommand : Option (String × List String) := none
  deriving DecidableEq, Inhabited, Repr

/-- Why reading **ends early**. -/
inductive Refusal where
  | help
  | version
  | misuse
  deriving DecidableEq, Inhabited, Repr

namespace Given

def has (given : Given) (name : String) : Bool := given.options.any fun o => o.1 == name

def value? (given : Given) (name : String) : Option String :=
  (given.options.find? fun o => o.1 == name).map (·.2)

/-- Add an option, which must not have been given before, with a value it takes. -/
def add (given : Given) (option : Opt) (value : String) : Except Refusal Given :=
  if given.has option.name then .error .misuse
  else if option.accepts.all fun accepts => accepts value then
    .ok { given with options := given.options ++ [(option.name, value)] }
  else .error .misuse

end Given

/-- A hyphen with something after it. -/
def looksLikeOption (argument : String) : Bool :=
  match argument.toList with
  | '-' :: _ :: _ => true
  | _ => false

/-- A text up to an equals sign, and what stands after it. -/
def splitEquals (text : List Char) : String × Option String :=
  let name := text.takeWhile (· ≠ '=')
  match text.drop name.length with
  | [] => (String.ofList text, none)
  | _ :: value => (String.ofList name, some (String.ofList value))

/-- The value of an option in the next argument, and the arguments after that. -/
def nextValue : List String → Except Refusal (String × List String)
  | value :: rest => if looksLikeOption value then .error .misuse else .ok (value, rest)
  | [] => .error .misuse

namespace Level

/-- Read an option with a name of several letters. -/
def readNamed (level : Level) (given : Given) (text : List Char) (rest : List String) :
    Except Refusal (Given × List String) :=
  let (name, attached) := splitEquals text
  match level.options.find? fun o => o.name == name with
  | some option =>
    match option.accepts, attached with
    | some _, some value => do
        let given ← given.add option value
        pure (given, rest)
    | some _, none => do
        let (value, rest) ← nextValue rest
        let given ← given.add option value
        pure (given, rest)
    | none, none => do
        let given ← given.add option ""
        pure (given, rest)
    | none, some _ => .error .misuse
  | none =>
    if attached.isSome then .error .misuse
    else if name = "help" then .error .help
    else if name = "version" then .error .version
    else .error .misuse

/-- Read options of one letter each, up to the first that takes a value. -/
def readLetters (level : Level) :
    Given → List Char → List String → Except Refusal (Given × List String)
  | given, [], rest => .ok (given, rest)
  | given, letter :: letters, rest =>
    match level.options.find? fun o => o.letter == some letter with
    | some option =>
      match option.accepts with
      | none => do
          let given ← given.add option ""
          readLetters level given letters rest
      | some _ =>
        match letters with
        | [] => do
            let (value, rest) ← nextValue rest
            let given ← given.add option value
            pure (given, rest)
        | '=' :: value => do
            let given ← given.add option (String.ofList value)
            pure (given, rest)
        | value => do
            let given ← given.add option (String.ofList value)
            pure (given, rest)
    | none =>
      if letter = 'h' then .error .help
      else if letter = 'V' then .error .version
      else .error .misuse

/-- Take an operand, if there is room for it and the level takes it. -/
def addOperand (level : Level) (given : Given) (operand : String) : Except Refusal Given :=
  if !level.acceptsOperand operand then .error .misuse
  else
    match level.operands with
    | .many => .ok { given with operands := given.operands ++ [operand] }
    | .one =>
      if given.operands.isEmpty then .ok { given with operands := [operand] } else .error .misuse
    | .none => .error .misuse

/-- Take operands, as many as there is room for. -/
def addOperands (level : Level) : Given → List String → Except Refusal Given
  | given, [] => .ok given
  | given, operand :: rest => do
      let given ← level.addOperand given operand
      addOperands level given rest

/-- Read the arguments of a level after what was given before. Each step takes at least one
argument, so that their number bounds `fuel`. -/
def readFrom (level : Level) : Nat → Given → List String → Except Refusal Given
  | 0, given, _ => .ok given
  | _ + 1, given, [] => .ok given
  | fuel + 1, given, argument :: rest =>
    match argument.toList with
    | ['-', '-'] => level.addOperands given rest
    | '-' :: '-' :: text => do
        let (given, rest) ← level.readNamed given text rest
        readFrom level fuel given rest
    | '-' :: letter :: letters => do
        let (given, rest) ← level.readLetters given (letter :: letters) rest
        readFrom level fuel given rest
    | _ =>
      if level.subcommands.isEmpty then do
        let given ← level.addOperand given argument
        readFrom level fuel given rest
      else if level.subcommands.contains argument then
        .ok { given with subcommand := some (argument, rest) }
      else .error .misuse

def read (level : Level) (arguments : List String) : Except Refusal Given :=
  level.readFrom (arguments.length + 1) {} arguments

end Level

end BuildMatrix.Cli
