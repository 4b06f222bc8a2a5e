import BuildMatrix.Environment
import BuildMatrix.FileTree.Access
import BuildMatrix.Sha256

/-!
# Fingerprints of work

A fingerprint stands for everything that the outcome of a piece of work depends on: its
configuration and the content of its inputs. It is the hash of a *stream* of bytes in which the
configuration comes first, in the order of its names, and then each input with its path and what is
there. A directory is what lies below it: the names, and the content of the regular files.
-/

namespace BuildMatrix

/-- A **fingerprint**, by its hexadecimal digits. -/
structure Fingerprint where
  digits : String
  deriving DecidableEq, Inhabited, Repr

namespace Fingerprint

def digest (content : ByteArray) : ByteArray := ⟨(Sha256.digest content).toArray⟩

/-- The bytes that are hashed of a configuration. -/
def configurationStream (configuration : Environment) : ByteArray :=
  (String.join (configuration.bindings.map fun b => b.1 ++ "=" ++ b.2 ++ "\n")).toUTF8

/-- The name of an entry, with all separators alike. -/
def entryName (names : Location) : String :=
  ("/".intercalate names).map fun c => if c = '\\' then '/' else c

/-- Put a named value among values that are ordered by name, in place of one with its name. -/
def insertNamed (name : String) (value : ByteArray) :
    List (String × ByteArray) → List (String × ByteArray)
  | [] => [(name, value)]
  | (key, old) :: rest =>
    if name = key then (name, value) :: rest
    else if name < key then (name, value) :: (key, old) :: rest
    else (key, old) :: insertNamed name value rest

/-- What an entry of a directory contributes: the hash of a regular file, or else a slash. -/
def entryMark : Entry → ByteArray
  | .file content => digest content
  | _ => "/".toUTF8

/-- The bytes of a directory: its entries in the order of their names; of two entries with the same
name the first counts. -/
def directoryStream (tree : FileTree) (location : Location) : ByteArray :=
  let entries := (tree.descendants location).foldr
    (fun (names, entry) entries => insertNamed (entryName names) (entryMark entry) entries) []
  entries.foldl (fun stream (name, mark) => stream ++ name.toUTF8 ++ mark) ByteArray.empty

/-- The bytes of what a path leads to. -/
def contentStream (tree : FileTree) (path : Path) : ByteArray :=
  match tree.lookup true path with
  | .ok (_, .file content) => "file:".toUTF8 ++ digest content
  | .ok (location, .directory) => "dir:".toUTF8 ++ digest (directoryStream tree location)
  | _ => "missing".toUTF8

/-- The bytes that are hashed of an input. -/
def inputStream (tree : FileTree) (path : Path) : ByteArray :=
  "input:".toUTF8 ++ path.text.toUTF8 ++ "\n".toUTF8 ++ contentStream tree path

/-- **The bytes that are hashed**: the configuration, and then the inputs in the order given. -/
def stream (tree : FileTree) (configuration : Environment) (inputs : List Path) : ByteArray :=
  inputs.foldl (fun stream path => stream ++ inputStream tree path)
    (configurationStream configuration)

def compute (tree : FileTree) (configuration : Environment) (inputs : List Path) : Fingerprint :=
  ⟨Sha256.hex (Sha256.digest (stream tree configuration inputs))⟩

end Fingerprint

end BuildMatrix
