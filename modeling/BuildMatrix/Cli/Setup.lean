import BuildMatrix.Cli.Building
import BuildMatrix.Config.Loading

/-!
# Requests for new files

The requests to write a new project file, and to write what a shell needs to complete the arguments
of the tool.
-/

namespace BuildMatrix.Cli

/-- The text of a **new project file**. -/
def newProjectFile : FileFormat → String
  | .toml => Config.template
  | .yaml =>
    match Config.ofText ⟨"keel.toml"⟩ Config.template with
    | .ok config => "# keel project configuration\n" ++ Yaml.block config.toJson
    | .error _ => Config.template

/-- The project file of a directory itself, if it has one. -/
def ownProjectFile? (tree : FileTree) (dir : Path) : Option Path :=
  (Config.find? tree dir).filter fun path =>
    match path.parent? with
    | some parent => parent.same dir
    | none => false

/-- The request to write a **new project file**. -/
def init (line : CommandLine) (force : Bool) (format : FileFormat) (session : Session) : Reply :=
  let dir := currentDirectory session
  let path := dir.child format.fileName
  match if force then none else ownProjectFile? session.tree dir with
  | some existing =>
    .failure session (.other ("Project file already exists at " ++ existing.text
      ++ ". Use --force to overwrite."))
  | none =>
    match session.tree.write path (newProjectFile format).toUTF8 with
    | .error error => .failure session (.io error.message)
    | .ok tree =>
      let lines := [
        Console.success ("Created project file at " ++ path.text),
        "",
        "Next steps:",
        "  1. Describe your modules and actions in " ++ path.text,
        "  2. Run keel tasks to inspect the task graph",
        "  3. Run keel build to build"]
      { lines := if line.quiet then [] else lines, session := { session with tree } }

/-- What a shell needs to complete the names of requests. -/
def completionScript (shell : String) : String :=
  let names := " ".intercalate topLevel.subcommands
  match shell with
  | "bash" => "complete -W \"" ++ names ++ "\" keel\n"
  | "zsh" => "#compdef keel\n_arguments '1:command:(" ++ names ++ ")'\n"
  | "fish" => "complete -c keel -f -a \"" ++ names ++ "\"\n"
  | "powershell" => "Register-ArgumentCompleter -Native -CommandName keel\n"
  | _ => "edit:completion:arg-completer[keel] = [@words]\n"

def completions (line : CommandLine) (shell : String) (output : Option Path) (session : Session) :
    Reply :=
  let script := completionScript shell
  match output with
  | none => { lines := script.splitOn "\n" |>.dropLast, session }
  | some path =>
    match session.tree.write path script.toUTF8 with
    | .error error => .failure session (.io error.message)
    | .ok tree =>
      { lines := if line.quiet then [] else ["Completions written to " ++ path.text]
        session := { session with tree } }

end BuildMatrix.Cli
