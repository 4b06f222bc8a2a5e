import BuildMatrix.Config.Decode
import BuildMatrix.Config.Defaults
import BuildMatrix.Config.Validation
import BuildMatrix.FileTree.Access
import BuildMatrix.Toml.Document

/-!
# Loading project files

A project file is looked for in a directory and then in the directories above it; the nearest one
wins, and in one directory the first of the names. Its extension decides between YAML and TOML.
-/

namespace BuildMatrix.Config

def isYaml (path : Path) : Bool :=
  path.extension? = some "yaml" || path.extension? = some "yml"

/-- The configuration that a text says, in the format of a file. -/
def ofText (path : Path) (text : String) : Except ConfigError Config :=
  if isYaml path then
    match (Yaml.parse? text).bind decode? with
    | some config => .ok config
    | none => .error .yaml
  else
    match (Toml.parse? text).bind decode? with
    | some config => .ok config
    | none => .error .toml

/-- The text of a file that has to be UTF-8. -/
def readText (tree : FileTree) (path : Path) : Except ConfigError String :=
  match tree.readText path with
  | .error error => .error (.io error.message)
  | .ok none => .error (.io "stream did not contain valid UTF-8")
  | .ok (some text) => .ok text

/-- The checked **configuration of a file**. -/
def load (tree : FileTree) (path : Path) : Except ProjectError Config :=
  match readText tree path with
  | .error error => .error (.config error)
  | .ok text =>
    match ofText path text with
    | .error error => .error (.config error)
    | .ok config =>
      match config.validate with
      | .error error => .error error
      | .ok () => .ok config

def findIn? (tree : FileTree) (dir : Path) : Option Path :=
  (fileNames.map dir.child).find? tree.pathExists

/-- The directories to look in: a path, and the paths without its last components. The length of
the path bounds `fuel`. -/
def searchPath : Nat → Path → List Path
  | 0, dir => [dir]
  | fuel + 1, dir =>
    match dir.parent? with
    | some parent => dir :: searchPath fuel parent
    | none => [dir]

/-- The **nearest project file** of a directory. -/
def find? (tree : FileTree) (start : Path) : Option Path :=
  (searchPath start.text.length start).findSome? (findIn? tree)

/-- The configuration of the nearest project file, and where that is. -/
def loadFrom (tree : FileTree) (dir : Path) : Except ProjectError (Config × Path) :=
  match find? tree dir with
  | none => .error (.config (.notFound dir))
  | some path =>
    match load tree path with
    | .error error => .error error
    | .ok config => .ok (config, path)

/-- The configuration of the nearest project file, or the default one where there is none that
can be used. -/
def loadOrDefault (tree : FileTree) (dir : Path) : Config × Option Path :=
  match loadFrom tree dir with
  | .ok (config, path) => (config, some path)
  | .error _ => ({}, none)

/-- The **root of the project** of a project file: the directory it is in. -/
def rootOf (path : Path) : Path :=
  path.parent?.getD ⟨"."⟩

end BuildMatrix.Config
