import BuildMatrix.FileTree.Access
import BuildMatrix.Glob.Pattern

/-!
# Paths that match patterns

A pattern of paths is followed part by part through the file tree. A part that only stands for
itself is not looked up in a listing, so that it may also be `.` or `..`; other parts are matched
against the names in a directory, hidden ones included. Two stars stand for the directories below a
directory, at any depth.
-/

namespace BuildMatrix.Glob

/-- A **part** of a pattern of paths. -/
inductive Step where
  | name (text : String)
  | names (tokens : List Token)
  | directories
  deriving DecidableEq, Inhabited, Repr

/-- The step of a part between separators. -/
def stepOf (part : String) : Except Error Step :=
  match tokens part with
  | .error error => .error error
  | .ok tokens =>
    if tokens = [.anyDirectories] then .ok .directories
    else if tokens.all Token.isPlain then .ok (.name part)
    else .ok (.names tokens)

/-- The parts of a text between separators; a separator at the end starts no part. -/
def parts (text : List Char) : List String :=
  let parts := (Path.split '/' text).map String.ofList
  if parts.getLast? = some "" then parts.dropLast else parts

/-- The **steps** of a pattern, from the root or from the current directory. -/
def steps (pattern : String) : Except Error (List Step) :=
  match tokens pattern with
  | .error error => .error error
  | .ok _ =>
    match pattern.toList with
    | ['/'] => .ok [.name ""]
    | '/' :: rest => (parts rest).mapM stepOf
    | chars => (parts chars).mapM stepOf

/-- The path of a name in a directory; the current directory is not written. -/
def below (dir : Path) (name : String) : Path := if dir.text = "." then ⟨name⟩ else dir.child name

/-- Whether there is anything at a path, be it a link that leads nowhere. -/
def isThere (tree : FileTree) (path : Path) : Bool :=
  match tree.lookup false path with
  | .ok _ => true
  | .error _ => false

/-- The names in a directory; none for anything else. -/
def namesIn (tree : FileTree) (dir : Path) : List String :=
  match tree.children dir with
  | .ok names => names.mergeSort fun a b => a ≤ b
  | .error _ => []

/-- The special names of a directory that a pattern stands for, which it only does if it starts with
a dot. -/
def specialNames (tokens : List Token) : List String :=
  if tokens.head? = some (.char '.') then
    [".", ".."].filter fun name => accepts tokens name.toList
  else []

/-- Whether a name is what a step stands for. -/
def Step.acceptsName (step : Step) (name : String) : Bool :=
  match step with
  | .name text => text == name
  | .names tokens => accepts tokens name.toList
  | .directories => true

/-- Steps without leading ones for directories. -/
def dropDirectories : List Step → List Step
  | .directories :: rest => dropDirectories rest
  | steps => steps

/-- The paths that steps lead to from a directory. Each call takes a step or makes the path longer,
and nothing is found at a path that is too long; that bounds `fuel`. -/
def expandFrom (tree : FileTree) : Nat → Path → List Step → List Path
  | _, dir, [] => [dir]
  | 0, _, _ => []
  | fuel + 1, dir, .name text :: rest =>
    let path := below dir text
    let there :=
      if text = "." || text = ".." then tree.isDirectory dir else isThere tree path
    if there then expandFrom tree fuel path rest else []
  | fuel + 1, dir, .names tokens :: rest =>
    if !tree.isDirectory dir then []
    else
      let names := (namesIn tree dir).filter fun name => accepts tokens name.toList
      (names.flatMap fun name => expandFrom tree fuel (below dir name) rest)
        ++ (specialNames tokens).flatMap fun name => expandFrom tree fuel (dir.child name) rest
  | fuel + 1, dir, .directories :: rest =>
    if !tree.isDirectory dir then []
    else
      (namesIn tree dir).flatMap fun name =>
        let path := below dir name
        let deeper :=
          if tree.isDirectory path then expandFrom tree fuel path (.directories :: rest) else []
        let here := match dropDirectories rest with
          | [] => if tree.isDirectory path then [path] else []
          | step :: rest => if step.acceptsName name then expandFrom tree fuel path rest else []
        here ++ deeper

def maxLevels (steps : List Step) : Nat := FileTree.maxPath + steps.length + 1

/-- The **paths that match a pattern**; one that ends in a separator only matches directories. -/
def expand (tree : FileTree) (pattern : String) : Except Error (List Path) :=
  match steps pattern with
  | .error error => .error error
  | .ok steps =>
    let start : Path := if pattern.toList.head? = some '/' then ⟨"/"⟩ else ⟨"."⟩
    let found := expandFrom tree (maxLevels steps) start steps
    .ok (if pattern.toList.getLast? = some '/' then found.filter tree.isDirectory else found)

end BuildMatrix.Glob
