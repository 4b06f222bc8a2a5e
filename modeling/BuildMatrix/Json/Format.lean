import BuildMatrix.DataFormat

/-!
# JSON as a data format

Texts are strings, numbers are non-negative integers of 64 bits, a record may be an array with no
more items than it has fields, and only `null` stands for a missing value.
-/

namespace BuildMatrix.Json

/-- The name of an alternative: a string, or an object with one member that is `null`. -/
def alternative? : Json → Option String
  | str name => some name
  | obj [(name, null)] => some name
  | _ => none

/-- The 64 bit word of a value. -/
def word? : Json → Option UInt64
  | int value =>
    if 0 ≤ value ∧ value.toNat < UInt64.size then some (UInt64.ofNat value.toNat) else none
  | _ => none

instance : DataFormat Json where
  text? := fun
    | str value => some value
    | _ => none
  flag? := fun
    | bool value => some value
    | _ => none
  word? := word?
  isAbsent := fun
    | null => some true
    | _ => some false
  list? := fun
    | arr items => some items
    | _ => none
  map? := fun
    | obj members => some members
    | _ => none
  positions? := fun
    | count, arr items => if items.length ≤ count then some items else none
    | _, _ => none
  alternative? := alternative?

end BuildMatrix.Json
