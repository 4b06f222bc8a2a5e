import BuildMatrix.Matrix

/-!
# Task names

A task is known by its name. The task of an action in a cell of the matrix has a name made of the
module, the action, the platform, and marks for the test partition and the build type. The directory
a task writes to is named after it, with every character that could leave the directory replaced.
-/

namespace BuildMatrix

/-- The **name of a task**. -/
structure TaskName where
  text : String
  deriving DecidableEq, Inhabited, Repr

namespace TaskName

/-- What the name of a cell's task ends in: platform, partition and build type. -/
def variant (platform : Platform) (isTest : Bool) (buildType : Option BuildType) : String :=
  platform.title ++ (if isTest then "Test" else "")
    ++ (match buildType with | some type => type.suffix | none => "")

/-- The name of an **action's task** for a module, a platform, a partition and a build type. -/
def forAction (kind module : String) (platform : Platform) (isTest : Bool)
    (buildType : Option BuildType) : TaskName :=
  ⟨":" ++ module ++ ":" ++ kind ++ variant platform isTest buildType⟩

/-- The name of an action's task in a cell. -/
def ofCell (kind : String) (cell : Cell) : TaskName :=
  forAction kind cell.module.name cell.platform cell.isTest cell.buildType

/-- The character that stands for a character of a task name in the name of its directory. -/
def dirChar (c : Char) : Char :=
  if c = ':' || c = '/' || c = '\\' then '_'
  else if c.isAlphanum || c = '-' || c = '.' || c = '_' then c
  else '-'

/-- A text as the **name of a directory**: without colons at its start, other separators replaced by
underscores and other characters by hyphens. -/
def dirName (text : String) : String :=
  match (text.toList.dropWhile (· = ':')).map dirChar with
  | [] => "_"
  | chars => String.ofList chars

def outputDir (name : TaskName) : String := dirName name.text

end TaskName

end BuildMatrix
