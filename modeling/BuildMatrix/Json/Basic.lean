/-!
# JSON values

The values of the JSON data format. An object is the list of its members in writing order, so that
a reader can tell a repeated member from a single one. Numbers keep the distinction that decoding
needs: an integer has a value, any other number is only known by its spelling.
-/

namespace BuildMatrix

/-- A **JSON value**. -/
inductive Json where
  | null
  | bool (value : Bool)
  /-- A number written without fraction and exponent. -/
  | int (value : Int)
  /-- Any other number, by its spelling. -/
  | real (spelling : String)
  | str (value : String)
  | arr (items : List Json)
  | obj (members : List (String × Json))
  deriving Inhabited, Repr

namespace Json

def assoc? {α : Type} (key : String) : List (String × α) → Option α
  | [] => none
  | (k, v) :: rest => if k = key then some v else assoc? key rest

/-- The value of an object's member; nothing for a missing member or another kind of value. -/
def member? (value : Json) (name : String) : Option Json :=
  match value with
  | obj members => assoc? name members
  | _ => none

def nat (n : Nat) : Json := int n

def texts (values : List String) : Json := arr (values.map str)

/-- A text, or `null` where there is none. -/
def text? (value : Option String) : Json :=
  match value with
  | some text => str text
  | none => null

/-- A natural number, or `null` where there is none. -/
def nat? (value : Option Nat) : Json :=
  match value with
  | some n => nat n
  | none => null

end Json

end BuildMatrix
