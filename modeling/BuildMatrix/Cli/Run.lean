import BuildMatrix.Cli.Caching
import BuildMatrix.Cli.Setup

/-!
# Running the tool

The tool reads its arguments, makes the directory of the logs of the project it is called in, enters
the directory it is asked to work in, and answers the request.
-/

namespace BuildMatrix.Cli

def version : String := "0.1.0"

def usage : String := "Usage: keel [OPTIONS] <COMMAND>"

/-- The directory of the **logs** of the project around a directory, if there is one. -/
def logDirectory? (tree : FileTree) (start : Path) : Option Path :=
  (Config.find? tree start).map fun path =>
    let root := Config.rootOf path
    match Config.load tree path with
    | .ok config => (Layout.ofConfig root config).logsRoot
    | .error _ => (Layout.new root).logsRoot

/-- The session with the directory of the logs. -/
def prepareLogs (line : CommandLine) (session : Session) : Session :=
  match logDirectory? session.tree (line.directory.getD (currentDirectory session)) with
  | none => session
  | some dir => { session with tree := (session.tree.createAll dir).2 }

/-- Answer a request in the current directory. -/
def respond (system : System) (line : CommandLine) (session : Session) : Reply :=
  match line.request with
  | .build targets jobs noCache dryRun => build system line targets jobs noCache dryRun session
  | .tasks targets action => tasks line targets action session
  | .cacheStatus => cacheStatus line session
  | .cachePrune maxAgeDays => cachePrune line maxAgeDays session
  | .cacheClean yes => cacheClean line yes session
  | .init force format => init line force format session
  | .completions shell output => completions line shell output session

/-- **Answer a command line**; the caller's current directory stays what it was. -/
def answer (system : System) (line : CommandLine) (session : Session) : Reply :=
  let session := prepareLogs line session
  let entered : Except OsError FileTree := match line.directory with
    | none => .ok session.tree
    | some dir => session.tree.enter dir
  match entered with
  | .error error => .failure session (.io error.message)
  | .ok tree =>
    let reply := respond system line { session with tree }
    { reply with session := { reply.session with
        tree := { reply.session.tree with here := session.tree.here } } }

/-- What the caller of the tool sees. -/
structure Answer where
  exitCode : Nat
  stdout : String := ""
  stderr : String := ""
  deriving DecidableEq, Inhabited, Repr

/-- **Run** the tool. -/
def run (system : System) (arguments : List String) (session : Session) : Answer × Session :=
  match CommandLine.parse arguments with
  | .error (_, .misuse) => ({ exitCode := exitInvalid, stderr := Console.text [usage] }, session)
  | .error (_, .help) => ({ exitCode := exitSuccess, stdout := Console.text [usage] }, session)
  | .error (path, .version) =>
    let name := "-".intercalate ("keel" :: path)
    ({ exitCode := exitSuccess, stdout := Console.text [name ++ " " ++ version] }, session)
  | .ok line =>
    let reply := answer system line session
    ({ exitCode := reply.exitCode, stdout := reply.stdout, stderr := reply.stderr },
     reply.session)

end BuildMatrix.Cli
