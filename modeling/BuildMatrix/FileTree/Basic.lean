import BuildMatrix.Path
import BuildMatrix.Text.Utf8

/-!
# The file tree

The state of a file system: regular files, directories and symbolic links under one root, and the
directory that relative paths start from. An entry is stored under its *location*, the list of names
that leads to it from the root; the root itself is always a directory. Every access by a path first
finds the location that the path leads to, following links as the operating system does, and the
operations then look at, add or drop entries.
-/

namespace BuildMatrix

/-- What the operating system answers when an operation cannot be done. -/
inductive OsError where
  | notFound
  | alreadyExists
  | notDirectory
  | isDirectory
  | notEmpty
  | tooManyLinks
  | nameTooLong
  | invalidArgument
  /-- A path with a zero byte in it never reaches the operating system. -/
  | zeroByte
  deriving DecidableEq, Inhabited, Repr

namespace OsError

def message : OsError → String
  | notFound => "No such file or directory (os error 2)"
  | alreadyExists => "File exists (os error 17)"
  | notDirectory => "Not a directory (os error 20)"
  | isDirectory => "Is a directory (os error 21)"
  | notEmpty => "Directory not empty (os error 39)"
  | tooManyLinks => "Too many levels of symbolic links (os error 40)"
  | nameTooLong => "File name too long (os error 36)"
  | invalidArgument => "Invalid argument (os error 22)"
  | zeroByte => "file name contained an unexpected NUL byte"

/-- The wording without the number, as commands print it. -/
def reason : OsError → String
  | notFound => "No such file or directory"
  | alreadyExists => "File exists"
  | notDirectory => "Not a directory"
  | isDirectory => "Is a directory"
  | notEmpty => "Directory not empty"
  | tooManyLinks => "Too many levels of symbolic links"
  | nameTooLong => "File name too long"
  | invalidArgument => "Invalid argument"
  | zeroByte => "Invalid argument"

end OsError

-- One comparison of contents, whatever else is imported.
local instance decEqContent : DecidableEq ByteArray := ByteArray.instDecidableEq

/-- What stands at a location. -/
inductive Entry where
  | file (content : ByteArray)
  | directory
  | link (target : String)
  deriving DecidableEq, Inhabited

/-- Names from the root. -/
abbrev Location := List String

/-- The **file tree**: the entries by location, and the current directory. -/
structure FileTree where
  entries : List (Location × Entry)
  here : Location
  deriving DecidableEq, Inhabited

namespace FileTree

/-- The empty tree, with the root as current directory. -/
def empty : FileTree := ⟨[], []⟩

def find? (location : Location) : List (Location × Entry) → Option Entry
  | [] => none
  | (key, entry) :: rest => if key = location then some entry else find? location rest

/-- The entry **at a location**; the root is always a directory. -/
def entry? (tree : FileTree) (location : Location) : Option Entry :=
  if location = [] then some .directory else find? location tree.entries

/-- Without what is at a location or below. -/
def eraseAll (tree : FileTree) (location : Location) : FileTree :=
  { tree with entries := tree.entries.filter fun e => !location.isPrefixOf e.1 }

/-- Without what is below a location. -/
def eraseBelow (tree : FileTree) (location : Location) : FileTree :=
  { tree with entries := tree.entries.filter fun e =>
      e.1 = location || !location.isPrefixOf e.1 }

/-- Store an entry under a location in a list of entries, in place of the one before it. -/
def insertIn (location : Location) (entry : Entry) :
    List (Location × Entry) → List (Location × Entry)
  | [] => [(location, entry)]
  | (key, old) :: rest =>
    if key = location then (location, entry) :: rest
    else (key, old) :: insertIn location entry rest

def insert (tree : FileTree) (location : Location) (entry : Entry) : FileTree :=
  { tree with entries := insertIn location entry tree.entries }

/-! ### Finding locations -/

def maxLinks : Nat := 40

def maxName : Nat := 255

def maxPath : Nat := 4095

/-- The names of a written path; a separator at the end asks for a directory, like a last `.`. -/
def parts (path : Path) : List String :=
  let chars := path.chars
  let names := (Path.split '/' chars).filter (· ≠ []) |>.map String.ofList
  if chars.getLast? = some '/' then names ++ ["."] else names

/-- Where one descent through directories ends. -/
inductive Descent where
  | arrived (location : Location)
  | redirected (start : Location) (names : List String)
  | failed (error : OsError)

/-- Descend from a directory along names until a link has to be followed. The last name need not
exist; a link at the last name is followed only if `followLast`. -/
def descend (tree : FileTree) (followLast : Bool) (start : Location) : List String → Descent
  | [] => .arrived start
  | name :: rest =>
    if name = "." then descend tree followLast start rest
    else if name = ".." then descend tree followLast start.dropLast rest
    else if maxName < name.utf8ByteSize then .failed .nameTooLong
    else
      match tree.entry? (start ++ [name]) with
      | none => if rest.isEmpty then .arrived (start ++ [name]) else .failed .notFound
      | some .directory => descend tree followLast (start ++ [name]) rest
      | some (.file _) =>
        if rest.isEmpty then .arrived (start ++ [name]) else .failed .notDirectory
      | some (.link target) =>
        if rest.isEmpty && !followLast then .arrived (start ++ [name])
        else
          .redirected (if target.toList.head? = some '/' then [] else start)
            (parts ⟨target⟩ ++ rest)

/-- Descend along names, following at most `links` links. -/
def follow (tree : FileTree) (followLast : Bool) :
    Nat → Location → List String → Except OsError Location
  | links, start, names =>
    match descend tree followLast start names with
    | .arrived location => .ok location
    | .failed error => .error error
    | .redirected start names =>
      match links with
      | 0 => .error .tooManyLinks
      | links + 1 => follow tree followLast links start names

/-- The **location** a path leads to, if all but its last name exist. -/
def locate (tree : FileTree) (followLast : Bool) (path : Path) : Except OsError Location :=
  if path.text = "" then .error .notFound
  else if path.chars.any (· = '\x00') then .error .zeroByte
  else if maxPath < path.text.utf8ByteSize then .error .nameTooLong
  else follow tree followLast maxLinks (if path.isAbsolute then [] else tree.here) (parts path)

def lookup (tree : FileTree) (followLast : Bool) (path : Path) :
    Except OsError (Location × Entry) :=
  match tree.locate followLast path with
  | .error error => .error error
  | .ok location =>
    match tree.entry? location with
    | some entry => .ok (location, entry)
    | none => .error .notFound

/-- Whether a path leads to anything, links followed. -/
def pathExists (tree : FileTree) (path : Path) : Bool :=
  match tree.lookup true path with
  | .ok _ => true
  | .error _ => false

/-- Whether a path leads to a regular file, links followed. -/
def isFile (tree : FileTree) (path : Path) : Bool :=
  match tree.lookup true path with
  | .ok (_, .file _) => true
  | _ => false

/-- Whether a path leads to a directory, links followed. -/
def isDirectory (tree : FileTree) (path : Path) : Bool :=
  match tree.lookup true path with
  | .ok (_, .directory) => true
  | _ => false

def locationText (location : Location) : String :=
  if location = [] then "/" else String.join (location.map ("/" ++ ·))

end FileTree

end BuildMatrix
