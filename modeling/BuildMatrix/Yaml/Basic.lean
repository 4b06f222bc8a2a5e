import BuildMatrix.DataFormat
import BuildMatrix.Yaml.Event

/-!
# YAML values

The value of a YAML document: the tree of its events, with every alias replaced by the node it
stands for. Reading is lenient about texts and strict about everything else: any scalar is a text,
but only plain scalars (and literal ones with the right tag) are numbers and flags. A node that is
missing is an empty list and an empty map.
-/

namespace BuildMatrix

/-- A **YAML value**. -/
inductive Yaml where
  /-- The value of a stream without a document. -/
  | void
  | scalar (text : String) (style : Yaml.Style) (tag : Option String)
  | sequence (items : List Yaml)
  | mapping (entries : List (Yaml × Yaml))
  /-- An alias inside the node that it stands for. -/
  | endless
  deriving Inhabited, Repr

namespace Yaml

/-! ### Aliases -/

/-- The numbers of anchors by name, and the events from each number's node on. -/
structure Anchors where
  numbers : List (String × Nat) := []
  nodes : List (Nat × List Event) := []

/-- Declare an anchor. A new name takes the next number; a name that is declared again moves to
the number that a new name would take. -/
def Anchors.declare (anchors : Anchors) (name : Option String) (events : List Event) : Anchors :=
  match name with
  | none => anchors
  | some name =>
    let number := anchors.numbers.length
    { numbers := (name, number) :: anchors.numbers.filter (·.1 ≠ name)
      nodes := (number, events) :: anchors.nodes }

/-- The events with the number of its anchor for each alias; an anchor has to stand before its
aliases. -/
def number : Anchors → List Event → Option (List (Event × Nat) × Anchors)
  | anchors, [] => some ([], anchors)
  | anchors, event :: rest => do
      let (here, anchors) ← match event with
        | .alias name => (Json.assoc? name anchors.numbers).map fun n => (n, anchors)
        | .scalar _ _ _ anchor => some (0, anchors.declare anchor (event :: rest))
        | .sequenceStart anchor => some (0, anchors.declare anchor (event :: rest))
        | .mappingStart anchor => some (0, anchors.declare anchor (event :: rest))
        | _ => some (0, anchors)
      let (events, anchors) ← number anchors rest
      pure ((event, here) :: events, anchors)

/-- The value under a number. -/
def numbered {α : Type} (n : Nat) : List (Nat × α) → Option α
  | [] => none
  | (k, v) :: rest => if k = n then some v else numbered n rest

/-! ### Trees -/

/-- Events with their numbers. -/
abbrev Numbered := List (Event × Nat)

/-- Where the node of an anchor number starts, counted from the end of the document. -/
abbrev Starts := List (Nat × Numbered)

mutual

/-- The value of the first node of a list of events, and the events after it. `opened` holds the
numbers of the aliases that are being replaced; at most `budget` of them are replaced in all. -/
def tree (starts : Starts) :
    Nat → List Nat → Nat → Numbered → Option (Yaml × Nat × Numbered)
  | 0, _, _, _ => none
  | _ + 1, _, _, [] => none
  | fuel + 1, opened, budget, (event, n) :: rest =>
    match event with
    | .scalar text style tag _ => some (.scalar text style tag, budget, rest)
    | .alias _ =>
      if opened.contains n then some (.endless, budget, rest)
      else
        match budget, numbered n starts with
        | budget + 1, some events =>
          match tree starts fuel (n :: opened) budget events with
          | some (value, budget, _) => some (value, budget, rest)
          | none => none
        | _, _ => none
    | .sequenceStart _ =>
      match items starts fuel opened budget [] rest with
      | some (values, budget, rest) => some (.sequence values, budget, rest)
      | none => none
    | .mappingStart _ =>
      match entries starts fuel opened budget [] rest with
      | some (values, budget, rest) => some (.mapping values, budget, rest)
      | none => none
    | _ => none

/-- The items of a sequence up to its end. -/
def items (starts : Starts) :
    Nat → List Nat → Nat → List Yaml → Numbered → Option (List Yaml × Nat × Numbered)
  | 0, _, _, _, _ => none
  | _ + 1, _, budget, done, (.sequenceEnd, _) :: rest => some (done.reverse, budget, rest)
  | fuel + 1, opened, budget, done, events =>
    match tree starts fuel opened budget events with
    | some (value, budget, rest) => items starts fuel opened budget (value :: done) rest
    | none => none

/-- The entries of a mapping up to its end. -/
def entries (starts : Starts) :
    Nat → List Nat → Nat → List (Yaml × Yaml) → Numbered →
      Option (List (Yaml × Yaml) × Nat × Numbered)
  | 0, _, _, _, _ => none
  | _ + 1, _, budget, done, (.mappingEnd, _) :: rest => some (done.reverse, budget, rest)
  | fuel + 1, opened, budget, done, events =>
    match tree starts fuel opened budget events with
    | none => none
    | some (key, budget, rest) =>
      match tree starts fuel opened budget rest with
      | some (value, budget, rest) =>
        entries starts fuel opened budget ((key, value) :: done) rest
      | none => none

end

/-- The **value of the document** of a text. -/
def parse? (text : String) : Option Yaml := do
  let events ← events? text
  if events.isEmpty then pure .void
  else do
    let (numbered, anchors) ← number {} events
    let starts : Starts := anchors.nodes.map fun (n, from_) =>
      (n, numbered.drop (numbered.length - from_.length))
    let size := events.length
    let (value, _, _) ← tree starts ((size + 2) * (size + 2)) [] (100 * size) numbered
    pure value

/-! ### Reading -/

def isNull (text : String) : Bool :=
  text = "null" || text = "Null" || text = "NULL" || text = "~"

/-- A tag of the core schema. -/
def coreTag (kind : String) : String := "tag:yaml.org,2002:" ++ kind

/-- Whether a scalar can be more than a text: a plain one, or a literal one with the right tag. -/
def isTyped (kind : String) (style : Style) (tag : Option String) : Bool :=
  style = .plain || (style = .literal && tag = some (coreTag kind))

/-- A flag, in lower case, capitalised or in upper case. -/
def flagOf? (text : String) : Option Bool :=
  if text = "true" || text = "True" || text = "TRUE" then some true
  else if text = "false" || text = "False" || text = "FALSE" then some false
  else none

/-- A word of 64 bits from digits of a base, after an optional `+`. -/
def wordIn? (base : Nat) (text : List Char) : Option UInt64 := do
  let digits := match text with
    | '+' :: rest => rest
    | rest => rest
  if digits.isEmpty then none
  let value ← digits.foldlM (fun n c => do
    let d ← Json.hexDigit? c
    if d < base then some (n * base + d) else none) 0
  if value < UInt64.size then some (UInt64.ofNat value) else none

/-- A text with a sign. -/
def isSigned : List Char → Bool
  | '+' :: _ => true
  | '-' :: _ => true
  | _ => false

/-- A natural number of 64 bits: decimal without leading zeros, or in base 16, 8 or 2 by its
mark. -/
def wordOf? (text : String) : Option UInt64 :=
  let chars := text.toList
  let body := match chars with
    | '+' :: rest => rest
    | rest => rest
  let based (base : Nat) (digits : List Char) : Option UInt64 :=
    if isSigned digits then none else wordIn? base digits
  match body with
  | '0' :: 'x' :: digits => based 16 digits
  | '0' :: 'o' :: digits => based 8 digits
  | '0' :: 'b' :: digits => based 2 digits
  | '0' :: _ :: _ => if body.all Char.isDigit then none else wordIn? 10 body
  | _ => if isSigned body then none else wordIn? 10 body

/-- The name a tag of the document's own stands for. -/
def tagName? (tag : Option String) : Option String :=
  match tag with
  | none => none
  | some tag =>
    match tag.toList with
    | ['!'] => some "!"
    | '!' :: rest => some (String.ofList rest)
    | _ => none

def isMissing : Yaml → Bool
  | void => true
  | scalar text style _ => text = "" && style = .plain
  | _ => false

def textOf? : Yaml → Option String
  | scalar text _ _ => some text
  | _ => none

/-- Whether a value stands for a missing one; a value with the null tag has to be one. -/
def absence : Yaml → Option Bool
  | void => some true
  | scalar text style tag =>
    if style ≠ .plain then some false
    else
      match tag with
      | some tag =>
        if tag = coreTag "null" then (if isNull text then some true else none) else some false
      | none => some (text = "" || isNull text)
  | sequence _ => some false
  | mapping _ => some false
  | endless => none

/-- The name of an alternative: the tag of a missing value, or the text of a scalar without such
a tag. -/
def alternative? : Yaml → Option String
  | scalar text style tag =>
    match tagName? tag with
    | some name => if style = .plain && (text = "" || isNull text) then some name else none
    | none => some text
  | _ => none

instance : DataFormat Yaml where
  text? := textOf?
  flag? := fun
    | scalar text style tag => if isTyped "bool" style tag then flagOf? text else none
    | _ => none
  word? := fun
    | scalar text style tag => if isTyped "int" style tag then wordOf? text else none
    | _ => none
  isAbsent := absence
  list? := fun
    | sequence items => some items
    | value => if isMissing value then some [] else none
  map? := fun
    | mapping entries => entries.mapM fun (key, value) => (textOf? key).map fun k => (k, value)
    | value => if isMissing value then some [] else none
  positions? := fun _ _ => none
  alternative? := alternative?

end Yaml

end BuildMatrix
