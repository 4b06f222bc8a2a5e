import BuildMatrix.Path

/-!
# What tasks produce

A task that is done has an output of one of five variants, or none at all. Other tasks pick the
outputs of the variant they need out of what their dependencies produced.
-/

namespace BuildMatrix

/-- The **variants** of outputs. -/
inductive Variant where
  | files
  | classes
  | jar
  | classpath
  | tool
  deriving DecidableEq, Inhabited, Repr

namespace Variant

def all : List Variant := [files, classes, jar, classpath, tool]

def name : Variant → String
  | files => "FileSet"
  | classes => "CompiledClasses"
  | jar => "JarArtifact"
  | classpath => "RuntimeClasspath"
  | tool => "InstalledTool"

def ofName? (spelling : String) : Option Variant := all.find? fun v => v.name == spelling

end Variant

/-- The **output** of a task. -/
inductive Output where
  | none
  | files (paths : List Path)
  | classes (dir : Path)
  | jar (path : Path)
  /-- A classpath, and the file it is written in. -/
  | classpath (entries : List Path) (file : Path)
  | tool (name : String) (home : Path)
  deriving DecidableEq, Inhabited, Repr

namespace Output

def variant? : Output → Option Variant
  | none => .none
  | files _ => some .files
  | classes _ => some .classes
  | jar _ => some .jar
  | classpath _ _ => some .classpath
  | tool _ _ => some .tool

def variantName (output : Output) : String :=
  match output.variant? with
  | some variant => variant.name
  | .none => "None"

def paths : Output → List Path
  | none => []
  | files paths => paths
  | classes dir => [dir]
  | jar path => [path]
  | classpath _ file => [file]
  | tool _ home => [home]

def isVariant (variant : Variant) (output : Output) : Bool := output.variant? == some variant

end Output

end BuildMatrix
