import BuildMatrix.DataFormat

/-!
# TOML values

The values of the TOML data format and their reading. TOML has no missing value. A date-time is
read as a map with one entry, which no record has a field for.
-/

namespace BuildMatrix

/-- A **TOML value**. -/
inductive Toml where
  | str (value : String)
  | int (value : Int)
  /-- A number with a fraction or an exponent, which no field of a configuration takes. -/
  | real
  | flag (value : Bool)
  /-- A date, a time or both, in normal form. -/
  | moment (spelling : String)
  | list (items : List Toml)
  | table (entries : List (String × Toml))
  deriving Inhabited, Repr

namespace Toml

/-- The key of a point in time. -/
def momentKey : String := "$__toml_private_datetime"

def isEmptyValue : Toml → Bool
  | list [] => true
  | table [] => true
  | _ => false

/-- The name of an alternative: a text, or a table with one entry that has nothing in it. -/
def alternative? : Toml → Option String
  | str name => some name
  | table [(name, value)] => if isEmptyValue value then some name else none
  | _ => none

/-- A natural number; TOML integers have at most 63 bits and a sign. -/
def word? : Toml → Option UInt64
  | int value => if 0 ≤ value then some (UInt64.ofNat value.toNat) else none
  | _ => none

instance : DataFormat Toml where
  text? := fun
    | str value => some value
    | _ => none
  flag? := fun
    | flag value => some value
    | _ => none
  word? := word?
  isAbsent := fun _ => some false
  list? := fun
    | list items => some items
    | _ => none
  map? := fun
    | table entries => some entries
    | moment spelling => some [(momentKey, str spelling)]
    | _ => none
  positions? := fun
    | count, list items => some (items.take count)
    | _, _ => none
  alternative? := alternative?

end Toml

end BuildMatrix
