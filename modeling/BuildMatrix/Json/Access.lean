import BuildMatrix.Json.Basic

/-!
# Looking into JSON objects

The members of an object, each read as what it is expected to be. A member that is missing, or of
another kind, is read as the empty value of the kind.
-/

namespace BuildMatrix.Json

/-- The members of an object; none for another kind of value. -/
def members : Json → List (String × Json)
  | obj members => members
  | _ => []

/-- A **member**, `null` where it is missing. -/
def field (value : Json) (name : String) : Json := (value.member? name).getD null

/-- A member that is a text, if it is one. -/
def textField? (value : Json) (name : String) : Option String :=
  match value.field name with
  | str text => some text
  | _ => none

/-- A member that is a text, empty where it is not. -/
def textField (value : Json) (name : String) : String := (value.textField? name).getD ""

/-- A member that is a flag, false where it is not. -/
def flagField (value : Json) (name : String) : Bool :=
  match value.field name with
  | bool flag => flag
  | _ => false

/-- The items of a member that is a list, none where it is not. -/
def listField (value : Json) (name : String) : List Json :=
  match value.field name with
  | arr items => items
  | _ => []

def textItems (items : List Json) : List String :=
  items.filterMap fun
    | str text => some text
    | _ => none

def textsField (value : Json) (name : String) : List String := textItems (value.listField name)

def intField? (value : Json) (name : String) : Option Int :=
  match value.field name with
  | int n => some n
  | _ => none

def natField? (value : Json) (name : String) : Option Nat :=
  match value.field name with
  | int n => if 0 ≤ n then some n.toNat else none
  | _ => none

end BuildMatrix.Json
