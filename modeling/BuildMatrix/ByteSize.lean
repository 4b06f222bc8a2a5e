import BuildMatrix.Decimal

/-!
# Sizes
-/

namespace BuildMatrix.ByteSize

/-- A number of bytes in a unit of `1024 ^ power` bytes, with one decimal place. -/
def inUnit (power : Nat) (unit : String) (bytes : Nat) : String :=
  ((Double.ofNat bytes).divNat (Nat.pow 1024 power)).tenths ++ " " ++ unit

/-- Whether a number of bytes, as a double, is less than a natural number. -/
def isBelow (bytes bound : Nat) : Bool :=
  let size := Double.ofNat bytes
  size.num < bound * size.den

/-- A number of bytes **for a reader**: in the largest unit of which there is at least one. -/
def text (bytes : Nat) : String :=
  if isBelow bytes 1024 then toString bytes ++ " B"
  else if isBelow bytes (Nat.pow 1024 2) then inUnit 1 "KB" bytes
  else if isBelow bytes (Nat.pow 1024 3) then inUnit 2 "MB" bytes
  else inUnit 3 "GB" bytes

end BuildMatrix.ByteSize
