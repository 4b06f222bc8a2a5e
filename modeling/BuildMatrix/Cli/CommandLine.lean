import BuildMatrix.Cli.Options
import BuildMatrix.Path

/-!
# The command line of the tool

What can be asked of the tool, and how it is read from arguments. Some options can be given at every
level; the innermost level at which one is given counts.
-/

namespace BuildMatrix.Cli

/-- How answers are written. -/
inductive AnswerFormat where
  | text
  | json
  deriving DecidableEq, Inhabited, Repr

/-- The format of a new project file. -/
inductive FileFormat where
  | toml
  | yaml
  deriving DecidableEq, Inhabited, Repr

def FileFormat.fileName : FileFormat → String
  | toml => "keel.toml"
  | yaml => "keel.yaml"

/-- **What is asked** of the tool. -/
inductive Request where
  | build (targets : List String) (jobs : Option Nat) (noCache dryRun : Bool)
  | tasks (targets : List String) (action : Option String)
  | cacheStatus
  | cachePrune (maxAgeDays : Nat)
  | cacheClean (yes : Bool)
  | init (force : Bool) (format : FileFormat)
  | completions (shell : String) (output : Option Path)
  deriving DecidableEq, Inhabited, Repr

/-- A request with the **options that all requests have**. -/
structure CommandLine where
  verbose : Bool := false
  quiet : Bool := false
  format : AnswerFormat := .text
  directory : Option Path := none
  request : Request
  deriving DecidableEq, Inhabited, Repr

def CommandLine.printsText (line : CommandLine) : Bool := !line.quiet && line.format = .text

/-! ### Values -/

/-- A number with at most 64 bits; a plus sign may stand before it. -/
def number? (text : String) : Option Nat :=
  let digits := match text.toList with
    | '+' :: rest => rest
    | chars => chars
  if digits.isEmpty || !digits.all Char.isDigit then none
  else
    let value := digits.foldl (fun n c => n * 10 + (c.toNat - '0'.toNat)) 0
    if value < UInt64.size then some value else none

def shells : List String := ["bash", "zsh", "fish", "powershell", "elvish"]

/-! ### Levels -/

def globalOptions : List Opt := [
  { name := "verbose", letter := some 'v' },
  { name := "quiet", letter := some 'q' },
  { name := "format", accepts := some fun v => v = "text" || v = "json" },
  { name := "directory", letter := some 'C', accepts := some fun v => v ≠ "" }]

def topLevel : Level where
  options := globalOptions
  subcommands := ["build", "tasks", "cache", "init", "completions", "help"]

def cacheLevel : Level where
  options := globalOptions
  subcommands := ["status", "prune", "clean", "help"]

/-- The level of a request that is not divided any further. -/
def requestLevel (path : List String) : Level :=
  let level (options : List Opt) (operands : Capacity) : Level :=
    { options := options ++ globalOptions, operands }
  match path with
  | ["build"] =>
    level [
      { name := "jobs", letter := some 'j', accepts := some fun v => (number? v).isSome },
      { name := "no-cache" },
      { name := "dry-run" }] .many
  | ["tasks"] => level [{ name := "action", accepts := some fun _ => true }] .many
  | ["cache", "prune"] =>
    level [{ name := "max-age-days", accepts := some fun v => (number? v).isSome }] .none
  | ["cache", "clean"] => level [{ name := "yes", letter := some 'y' }] .none
  | ["init"] =>
    level [
      { name := "force", letter := some 'f' },
      { name := "config-format", accepts := some fun v => v = "toml" || v = "yaml" }] .none
  | ["completions"] =>
    { level [{ name := "output", letter := some 'o', accepts := some fun v => v ≠ "" }] .one with
      acceptsOperand := shells.contains }
  | _ => level [] .none

/-! ### Reading -/

/-- Help on the subcommand that names lead to, if there is one. -/
def helpOn (names : List String) : Refusal :=
  let known := [[], ["build"], ["tasks"], ["cache"], ["cache", "status"], ["cache", "prune"],
    ["cache", "clean"], ["init"], ["completions"], ["help"], ["cache", "help"]]
  if known.contains names then .help else .misuse

/-- The request that was given at a level, if everything that it needs was. -/
def request? (path : List String) (given : Given) : Option Request :=
  match path with
  | ["build"] =>
    some (.build given.operands ((given.value? "jobs").bind number?) (given.has "no-cache")
      (given.has "dry-run"))
  | ["tasks"] => some (.tasks given.operands (given.value? "action"))
  | ["cache", "status"] => some .cacheStatus
  | ["cache", "prune"] => some (.cachePrune (((given.value? "max-age-days").bind number?).getD 7))
  | ["cache", "clean"] => some (.cacheClean (given.has "yes"))
  | ["init"] =>
    some (.init (given.has "force")
      (if given.value? "config-format" = some "yaml" then .yaml else .toml))
  | ["completions"] =>
    match given.operands with
    | [shell] => some (.completions shell ((given.value? "output").map Path.mk))
    | _ => none
  | _ => none

/-- What was given at each level, from the outermost on, and the names of the subcommands. -/
def readLevels (arguments : List String) :
    Except (List String × Refusal) (List Given × List String) := do
  let read (path : List String) (level : Level) (arguments : List String) :
      Except (List String × Refusal) Given :=
    (level.read arguments).mapError fun refusal => (path, refusal)
  let top ← read [] topLevel arguments
  match top.subcommand with
  | none => .error ([], .misuse)
  | some ("help", names) => .error ([], helpOn names)
  | some ("cache", arguments) =>
    let middle ← read ["cache"] cacheLevel arguments
    match middle.subcommand with
    | none => .error (["cache"], .misuse)
    | some ("help", names) => .error (["cache"], helpOn ("cache" :: names))
    | some (name, arguments) =>
      let path := ["cache", name]
      let given ← read path (requestLevel path) arguments
      pure ([top, middle, given], path)
  | some (name, arguments) =>
    let given ← read [name] (requestLevel [name]) arguments
    pure ([top, given], [name])

/-- The value of an option at the innermost level where it was given. -/
def innermost? (levels : List Given) (name : String) : Option String :=
  levels.reverse.findSome? fun given => given.value? name

/-- The **command line** that arguments make up. A refusal comes with the names of the subcommands
up to the place where it arose. -/
def CommandLine.parse (arguments : List String) : Except (List String × Refusal) CommandLine := do
  let (levels, path) ← readLevels arguments
  if levels.any fun given => given.has "verbose" && given.has "quiet" then .error (path, .misuse)
  else
    match levels.getLast?.bind (request? path) with
    | none => .error (path, .misuse)
    | some request => pure {
        verbose := levels.any (·.has "verbose")
        quiet := levels.any (·.has "quiet")
        format := if innermost? levels "format" = some "json" then .json else .text
        directory := (innermost? levels "directory").map Path.mk
        request }

end BuildMatrix.Cli
