import BuildMatrix.FileTree.Basic

/-!
# Reading and changing the file tree

The operations on files and directories by path, each with the outcome the operating system gives.
An operation that fails leaves the tree as it was, except for `createAll`, which may have made some
of the directories before it fails, `replaceFile`, which may leave the temporary file, and
`removeAll`, which may have dropped what a directory holds before it turns out that the directory
itself cannot be dropped.
-/

namespace BuildMatrix.FileTree

/-- The content of the regular file a path leads to. -/
def read (tree : FileTree) (path : Path) : Except OsError ByteArray :=
  match tree.lookup true path with
  | .error error => .error error
  | .ok (_, .file content) => .ok content
  | .ok _ => .error .isDirectory

/-- The text of the file a path leads to; the outer error is the operating system's, and a file
that is not UTF-8 gives nothing. -/
def readText (tree : FileTree) (path : Path) : Except OsError (Option String) :=
  match tree.read path with
  | .error error => .error error
  | .ok content => .ok (Text.decode? content)

/-- A slash at the end asks for a directory. -/
def asksDirectory (path : Path) : Bool :=
  path.chars.getLast? = some '/'

/-- A path without the separators at its end. -/
def withoutSlashes (path : Path) : Path :=
  let chars := path.chars
  let kept := (chars.reverse.dropWhile (· = '/')).reverse
  if kept.isEmpty && !chars.isEmpty then ⟨"/"⟩ else ⟨String.ofList kept⟩

/-- Where a regular file can be written for a path: the location and the content there now. -/
def fileSlot (tree : FileTree) (path : Path) : Except OsError (Location × ByteArray) :=
  match tree.locate true (withoutSlashes path) with
  | .error error => .error error
  | .ok location =>
    match tree.entry? location with
    | some (.file content) =>
      if asksDirectory path then .error .notDirectory else .ok (location, content)
    | some _ => .error .isDirectory
    | none => if asksDirectory path then .error .isDirectory else .ok (location, ByteArray.empty)

/-- **Write** a regular file, making it or replacing its content. -/
def write (tree : FileTree) (path : Path) (content : ByteArray) : Except OsError FileTree :=
  match tree.fileSlot path with
  | .error error => .error error
  | .ok (location, _) => .ok (tree.insert location (.file content))

/-- Write at the end of a regular file, making it if needed. -/
def append (tree : FileTree) (path : Path) (content : ByteArray) : Except OsError FileTree :=
  match tree.fileSlot path with
  | .error error => .error error
  | .ok (location, old) => .ok (tree.insert location (.file (old ++ content)))

def createDirectory (tree : FileTree) (path : Path) : Except OsError FileTree :=
  match tree.locate false (withoutSlashes path) with
  | .error error => .error error
  | .ok location =>
    match tree.entry? location with
    | some _ => .error .alreadyExists
    | none => .ok (tree.insert location .directory)

/-- Make one directory, unless it is there. -/
def ensureDirectory (tree : FileTree) (path : Path) : Except OsError Unit × FileTree :=
  match tree.createDirectory path with
  | .ok tree => (.ok (), tree)
  | .error error => if tree.isDirectory path then (.ok (), tree) else (.error error, tree)

/-- Whether a directory cannot be made because the one it would lie in is missing. -/
def lacksParent (tree : FileTree) (path : Path) : Bool :=
  match tree.createDirectory path with
  | .error .notFound => true
  | _ => false

/-- Make a directory and the missing directories above it, going up at most `fuel` levels; the
directories made before a failure stay. -/
def createAllWithin : Nat → FileTree → Path → Except OsError Unit × FileTree
  | 0, tree, path => if path.text = "" then (.ok (), tree) else tree.ensureDirectory path
  | fuel + 1, tree, path =>
    if path.text = "" then (.ok (), tree)
    else if tree.lacksParent path then
      match path.parent? with
      | none => (.error .notFound, tree)
      | some parent =>
        match createAllWithin fuel tree parent with
        | (.error error, tree) => (.error error, tree)
        | (.ok (), tree) => tree.ensureDirectory path
    else tree.ensureDirectory path

/-- Make a directory **and all missing ones above it**. -/
def createAll (tree : FileTree) (path : Path) : Except OsError Unit × FileTree :=
  createAllWithin path.text.length tree path

def removeFile (tree : FileTree) (path : Path) : Except OsError FileTree :=
  match tree.lookup false path with
  | .error error => .error error
  | .ok (_, .directory) => .error .isDirectory
  | .ok (location, _) => .ok (tree.eraseAll location)

/-- The names directly below a location. -/
def childNames (tree : FileTree) (location : Location) : List String :=
  tree.entries.filterMap fun e =>
    match e.1.getLast? with
    | some name => if e.1.dropLast = location then some name else none
    | none => none

/-- What keeps a directory from being dropped under a path: it has to be called by its own name, not
by `.` or `..`, nor by that of a link to it. -/
def callFault? (tree : FileTree) (path : Path) : Option OsError :=
  match (parts (withoutSlashes path)).getLast? with
  | some "." => some .invalidArgument
  | some ".." => some .notEmpty
  | _ =>
    match tree.lookup false (withoutSlashes path) with
    | .ok (_, .link _) => some .notDirectory
    | _ => none

/-- Drop a directory **with everything below it**; of a link, only the link. What is below goes
first, and is gone even if the directory itself cannot be dropped. A path that led through what is
gone has nothing left to drop. -/
def removeAll (tree : FileTree) (path : Path) : Except OsError Unit × FileTree :=
  match tree.lookup false path with
  | .error error => (.error error, tree)
  | .ok (_, .file _) => (.error .notDirectory, tree)
  | .ok (location, .link _) => (.ok (), tree.eraseAll location)
  | .ok (location, .directory) =>
    match tree.callFault? path with
    | none => (.ok (), tree.eraseAll location)
    | some fault =>
      let emptied := tree.eraseBelow location
      (if emptied.pathExists path then .error fault else .ok (), emptied)

/-- Move the entries at a location and below it to another location. -/
def moveEntries (tree : FileTree) (source target : Location) : FileTree :=
  { tree with
    entries := (tree.eraseAll target).entries.map fun e =>
      if source.isPrefixOf e.1 then (target ++ e.1.drop source.length, e.2) else e }

/-- Give an entry another place, in place of a file or an empty directory there. -/
def rename (tree : FileTree) (source target : Path) : Except OsError FileTree :=
  match tree.lookup false source with
  | .error error => .error error
  | .ok (origin, entry) =>
    match tree.locate false target with
    | .error error => .error error
    | .ok destination =>
      if origin = destination then .ok tree
      else
        match entry, tree.entry? destination with
        | .directory, some .directory =>
          if origin.isPrefixOf destination then .error .invalidArgument
          else if (tree.childNames destination).isEmpty then
            .ok (tree.moveEntries origin destination)
          else .error .notEmpty
        | .directory, some _ => .error .notDirectory
        | .directory, none =>
          if origin.isPrefixOf destination then .error .invalidArgument
          else .ok (tree.moveEntries origin destination)
        | _, some .directory => .error .isDirectory
        | _, _ => .ok (tree.moveEntries origin destination)

/-- Write a regular file **by way of a temporary one**, so that a reader sees the content before or
after; the temporary file stays if it cannot be moved. -/
def replaceFile (tree : FileTree) (temporary path : Path) (content : ByteArray) :
    Except OsError Unit × FileTree :=
  match tree.write temporary content with
  | .error error => (.error error, tree)
  | .ok written =>
    match written.rename temporary path with
    | .error error => (.error error, written)
    | .ok moved => (.ok (), moved)

def createLink (tree : FileTree) (path : Path) (target : String) : Except OsError FileTree :=
  match tree.locate false path with
  | .error error => .error error
  | .ok location =>
    match tree.entry? location with
    | some _ => .error .alreadyExists
    | none => .ok (tree.insert location (.link target))

/-- The names in the directory a path leads to. -/
def children (tree : FileTree) (path : Path) : Except OsError (List String) :=
  match tree.lookup true path with
  | .error error => .error error
  | .ok (location, .directory) => .ok (tree.childNames location)
  | .ok _ => .error .notDirectory

/-- The order of locations: name by name, a directory before what it holds. -/
def locationLe : Location → Location → Bool
  | [], _ => true
  | _ :: _, [] => false
  | a :: as, b :: bs => if a = b then locationLe as bs else a ≤ b

/-- Put an entry in its place among entries that are in order. -/
def insertOrdered (entry : Location × Entry) : List (Location × Entry) → List (Location × Entry)
  | [] => [entry]
  | other :: rest =>
    if locationLe entry.1 other.1 then entry :: other :: rest
    else other :: insertOrdered entry rest

/-- The entries below a location, named from it, directories before what they hold and siblings
by name; links are not followed. -/
def descendants (tree : FileTree) (location : Location) : List (Location × Entry) :=
  (tree.entries.filterMap fun e =>
    if location.isPrefixOf e.1 && location.length < e.1.length then
      some (e.1.drop location.length, e.2)
    else none).foldr insertOrdered []

/-- The size of the regular file a path leads to. -/
def size (tree : FileTree) (path : Path) : Except OsError Nat :=
  match tree.lookup true path with
  | .error error => .error error
  | .ok (_, .file content) => .ok content.size
  | .ok _ => .ok 0

/-- Make another directory the current one. -/
def enter (tree : FileTree) (path : Path) : Except OsError FileTree :=
  match tree.lookup true path with
  | .error error => .error error
  | .ok (location, .directory) => .ok { tree with here := location }
  | .ok _ => .error .notDirectory

end BuildMatrix.FileTree
