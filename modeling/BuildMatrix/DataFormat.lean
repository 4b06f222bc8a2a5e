import BuildMatrix.Json.Basic

/-!
# Reading values of a data format

A configuration can be written in several data formats. A format says how its values are read as
texts, flags, numbers, lists, maps and alternatives; what is made of them is the same for all. A
record is read from a map, by the names of its fields, or, in the formats that allow it, from a
list, by their positions.
-/

namespace BuildMatrix

/-- How the values of a data format are read; each reading fails on a value of another kind. -/
class DataFormat (ν : Type) where
  text? : ν → Option String
  flag? : ν → Option Bool
  /-- A natural number of 64 bits. -/
  word? : ν → Option UInt64
  /-- Whether the value stands for a missing one. -/
  isAbsent : ν → Option Bool
  list? : ν → Option (List ν)
  /-- The entries of a map; a key that is no text fails. -/
  map? : ν → Option (List (String × ν))
  /-- The items of a list that stands for a record of a number of fields. -/
  positions? : Nat → ν → Option (List ν)
  /-- The name of an alternative that carries nothing else. -/
  alternative? : ν → Option String

/-- The **fields of a record**. -/
inductive Fields (ν : Type) where
  | named (entries : List (String × ν))
  | positional (items : List ν)

namespace Fields

variable {ν : Type} [DataFormat ν] {α : Type}

/-- The fields of a value that stands for a record of `count` fields. -/
def ofValue? (count : Nat) (value : ν) : Option (Fields ν) :=
  match DataFormat.map? value with
  | some entries => some (.named entries)
  | none => (DataFormat.positions? count value).map .positional

def valuesOf (name : String) : List (String × ν) → List ν
  | [] => []
  | (k, v) :: rest => if k = name then v :: valuesOf name rest else valuesOf name rest

/-- The value of a field, `some none` where the record does not have it; a field that is given
twice fails. -/
def value? (fields : Fields ν) (position : Nat) (name : String) : Option (Option ν) :=
  match fields with
  | named entries =>
    match valuesOf name entries with
    | [] => some none
    | [value] => some (some value)
    | _ => none
  | positional items => some items[position]?

def required (fields : Fields ν) (position : Nat) (name : String) (read : ν → Option α) :
    Option α :=
  match fields.value? position name with
  | some (some value) => read value
  | _ => none

def withDefault (fields : Fields ν) (position : Nat) (name : String) (default : α)
    (read : ν → Option α) : Option α :=
  match fields.value? position name with
  | some (some value) => read value
  | some none => some default
  | none => none

/-- A value that may stand for a missing one. -/
def readOptional (read : ν → Option α) (value : ν) : Option (Option α) :=
  match DataFormat.isAbsent value with
  | some true => some none
  | some false => (read value).map some
  | none => none

/-- A field that may be missing or null. -/
def optional (fields : Fields ν) (position : Nat) (name : String) (read : ν → Option α) :
    Option (Option α) :=
  fields.withDefault position name none (readOptional read)

end Fields

namespace DataFormat

variable {ν : Type} [DataFormat ν] {α : Type}

/-- The items of a list, each read in the same way. -/
def listOf? (read : ν → Option α) (value : ν) : Option (List α) :=
  match list? value with
  | some items => items.mapM read
  | none => none

def textMap? (value : ν) : Option (List (String × String)) :=
  match map? value with
  | some entries => entries.mapM fun e => (text? e.2).map fun t => (e.1, t)
  | none => none

def member? (ofName? : String → Option α) (value : ν) : Option α :=
  match alternative? value with
  | some spelling => ofName? spelling
  | none => none

end DataFormat

end BuildMatrix
