import BuildMatrix.Text.Utf8

/-!
# File paths

A path is kept as it was written, because it is shown as it was written: joining two paths never
normalises them. What a path *denotes* is read off its components, and two spellings with the same
components (`/t/./a` and `/t//a/`) are the same path to every comparison.

Components ignore repeated separators, separators at the end, and a `.` anywhere but at the start
of a relative path. A `..` is kept, since it cannot be resolved without looking at the file tree.
-/

namespace BuildMatrix

/-- A **path** as it was written. -/
structure Path where
  text : String
  deriving DecidableEq, Inhabited, Repr

namespace Path

/-- One part of a path. -/
inductive Component where
  | root
  | current
  | parent
  | normal (name : String)
  deriving DecidableEq, Repr

/-- The parts of a text between separators; `current` holds the unfinished part in reverse. -/
def splitAfter (separator : Char) : List Char → List Char → List (List Char)
  | current, [] => [current.reverse]
  | current, c :: rest =>
    if c = separator then current.reverse :: splitAfter separator [] rest
    else splitAfter separator (c :: current) rest

/-- The parts of a text between separators, empty parts included. -/
def split (separator : Char) (text : List Char) : List (List Char) :=
  splitAfter separator [] text

def chars (path : Path) : List Char := Text.chars path.text

@[simp]
theorem chars_eq (path : Path) : path.chars = path.text.toList := Text.chars_eq path.text

def isAbsolute (path : Path) : Bool :=
  path.chars.head? = some '/'

/-- A relative path whose first part is `.`. -/
def startsAtCurrent (path : Path) : Bool :=
  match path.chars with
  | ['.'] => true
  | '.' :: '/' :: _ => true
  | _ => false

/-- The component that a part between separators stands for; an empty part and a `.` stand for
none. -/
def component? (part : List Char) : Option Component :=
  match part with
  | [] => none
  | ['.'] => none
  | ['.', '.'] => some .parent
  | part => some (.normal (String.ofList part))

/-- How many characters at the start of a path stand for the root or the starting `.`. -/
def headLength (path : Path) : Nat :=
  if path.isAbsolute || path.startsAtCurrent then 1 else 0

def components (path : Path) : List Component :=
  let head :=
    if path.isAbsolute then [Component.root]
    else if path.startsAtCurrent then [Component.current]
    else []
  head ++ (split '/' (path.chars.drop path.headLength)).filterMap component?

/-- Two paths are the **same** if they have the same components. -/
def same (a b : Path) : Bool :=
  a.components = b.components

/-- Position of a component's kind in the order of paths. -/
def Component.rank : Component → Nat
  | .root => 0
  | .current => 1
  | .parent => 2
  | .normal _ => 3

/-- The name of a component; empty for the kinds that have none. -/
def Component.name : Component → String
  | .normal name => name
  | _ => ""

/-- The order of components: by kind, then by the bytes of the name. -/
def Component.le (a b : Component) : Bool :=
  if a.rank = b.rank then a.name ≤ b.name else a.rank ≤ b.rank

/-- The lexicographic order of component lists. -/
def componentsLe : List Component → List Component → Bool
  | [], _ => true
  | _ :: _, [] => false
  | a :: as, b :: bs => if a = b then componentsLe as bs else a.le b

/-- The **order** of paths, by components. -/
def le (a b : Path) : Bool :=
  componentsLe a.components b.components

/-- A path lies **within** another if the other's components start its own. -/
def within (path ancestor : Path) : Bool :=
  ancestor.components.isPrefixOf path.components

/-- One path **below** another: an absolute path replaces the first, and otherwise one separator
stands between the two unless the first is empty or ends in one. -/
def join (base path : Path) : Path :=
  if path.isAbsolute then path
  else if base.text = "" then path
  else if base.chars.getLast? = some '/' then ⟨base.text ++ path.text⟩
  else ⟨base.text ++ "/" ++ path.text⟩

def child (base : Path) (name : String) : Path :=
  base.join ⟨name⟩

/-- Drop the characters of the last part and the separator before it, from a reversed body. -/
def dropPart (reversed : List Char) : List Char :=
  (reversed.dropWhile (· ≠ '/')).drop 1

/-- Drop parts that stand for no component from the end of a body, given in reverse. Each step
drops at least one character, so the body's length bounds `fuel`. -/
def trimEnd : Nat → List Char → List Char
  | 0, reversed => reversed
  | _ + 1, [] => []
  | fuel + 1, c :: rest =>
    match component? ((c :: rest).takeWhile (· ≠ '/')).reverse with
    | none => trimEnd fuel (dropPart (c :: rest))
    | some _ => c :: rest

/-- The path **without its last component**, spelled as in the path; nothing for an empty path
and for the root. -/
def parent? (path : Path) : Option Path :=
  let chars := path.text.toList
  let head := chars.take path.headLength
  let body := (chars.drop path.headLength).reverse
  let trimmed := trimEnd body.length body
  if trimmed.isEmpty then
    if path.startsAtCurrent then some ⟨""⟩ else none
  else
    let rest := dropPart trimmed
    some ⟨String.ofList (head ++ (trimEnd rest.length rest).reverse)⟩

/-- The name of the last component, if it is a name. -/
def fileName? (path : Path) : Option String :=
  match path.components.getLast? with
  | some (.normal name) => some name
  | _ => none

/-- The part of a name after its last dot, if there is a dot after the first character. -/
def extensionOf? (name : String) : Option String :=
  let reversed := name.toList.reverse
  let tail := reversed.takeWhile (· ≠ '.')
  let rest := reversed.drop tail.length
  if rest.length ≤ 1 then none else some (String.ofList tail.reverse)

def extension? (path : Path) : Option String :=
  path.fileName?.bind extensionOf?

/-- Whether one list of paths has a path with the same components. -/
def memSame (path : Path) (paths : List Path) : Bool :=
  paths.any path.same

/-- The paths of a list without repetitions, the first spelling of each kept; `seen` holds the
paths before them. -/
def distinctFrom : List Path → List Path → List Path
  | _, [] => []
  | seen, path :: rest =>
    if path.memSame seen then distinctFrom seen rest
    else path :: distinctFrom (path :: seen) rest

/-- The paths of a list **without repetitions**, the first spelling of each kept. -/
def distinct (paths : List Path) : List Path :=
  distinctFrom [] paths

def sorted (paths : List Path) : List Path :=
  paths.mergeSort le

end Path

end BuildMatrix
