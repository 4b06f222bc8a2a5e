import BuildMatrix.FileTree.Access
import BuildMatrix.Json.Access

/-!
# File trees from descriptions

A rehearsal takes place in a file tree that is described by JSON values: paths with what is to be
there. The content of a path is a text, or an object: bytes by their hexadecimal digits, a text some
number of times, an empty directory, or a link.
-/

namespace BuildMatrix

/-- The bytes that hexadecimal digits stand for. -/
def Text.ofHex : List Char → List UInt8
  | a :: b :: rest =>
    let value (c : Char) : Nat :=
      if c.isDigit then c.toNat - '0'.toNat else c.toLower.toNat - 'a'.toNat + 10
    UInt8.ofNat (value a * 16 + value b) :: ofHex rest
  | _ => []

namespace FileTree

/-- A tree after an operation, or the tree before it where it fails. -/
def orElse (tree : FileTree) (result : Except OsError FileTree) : FileTree :=
  match result with
  | .ok tree => tree
  | .error _ => tree

/-- A tree with one path as a **description** asks for, the directories above it included. -/
def plant (tree : FileTree) (path : Path) (content : Json) : FileTree :=
  let tree := match path.parent? with
    | some parent => (tree.createAll parent).2
    | none => tree
  match content, content.textField? "hex", content.textField? "link",
      content.natField? "repeat" with
  | .str text, _, _, _ => tree.orElse (tree.write path text.toUTF8)
  | _, some digits, _, _ => tree.orElse (tree.write path ⟨(Text.ofHex digits.toList).toArray⟩)
  | _, _, some target, _ => tree.orElse (tree.createLink path target)
  | _, _, _, some count =>
    let text := String.join (List.replicate count (content.textField "text"))
    tree.orElse (tree.write path text.toUTF8)
  | content, _, _, _ => if content.flagField "dir" then (tree.createAll path).2 else tree

/-- A tree with **all paths** of a description. -/
def plantAll (tree : FileTree) (paths : Json) : FileTree :=
  paths.members.foldl (fun tree (path, content) => tree.plant ⟨path⟩ content) tree

/-- **Everything below** a directory by its path from there, in the order of these paths, without
names that start in some way; links are not followed. -/
def listing (tree : FileTree) (path : Path) (hidden : String) : List String :=
  match tree.lookup true path with
  | .ok (location, .directory) =>
    let shown := (tree.descendants location).filter fun e =>
      !(e.1.getLastD "").startsWith hidden
    let names := shown.map fun (names, entry) => match entry with
      | .directory => "/".intercalate names ++ "/"
      | _ => "/".intercalate names
    names.mergeSort fun a b => a ≤ b
  | _ => []

/-- Drop what is at a path; says whether that could be done. -/
def drop (tree : FileTree) (path : Path) : Bool × FileTree :=
  match tree.lookup false path with
  | .ok (_, .directory) =>
    match tree.removeAll path with
    | (.ok (), tree) => (true, tree)
    | (.error _, tree) => (false, tree)
  | _ =>
    match tree.removeFile path with
    | .ok tree => (true, tree)
    | .error _ => (false, tree)

/-- A **change of a tree or a question** to it: `write`, `remove`, `read` or `ls`. -/
def step? (tree : FileTree) (hidden : String) (step : Json) : Option (Json × FileTree) :=
  match step.member? "write", step.textField? "remove", step.textField? "read",
    step.textField? "ls" with
  | some paths, _, _, _ => some (.str "written", tree.plantAll paths)
  | _, some path, _, _ =>
    let (removed, tree) := tree.drop ⟨path⟩
    some (.obj [("removed", .bool removed)], tree)
  | _, _, some path, _ =>
    let text := match tree.read ⟨path⟩ with
      | .ok content => Json.str (Text.decodeLossy content)
      | .error _ => .null
    some (.obj [("text", text)], tree)
  | _, _, _, some path => some (.obj [("ls", .texts (tree.listing ⟨path⟩ hidden))], tree)
  | _, _, _, _ => none

end FileTree

end BuildMatrix
