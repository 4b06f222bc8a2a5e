import BuildMatrix.Decimal

/-!
# Durations

A duration is a number of nanoseconds. It is shown in full with the largest unit that leaves an
integer part, or as seconds with one decimal place.
-/

namespace BuildMatrix

/-- A **duration**. -/
structure Duration where
  nanos : Nat
  deriving DecidableEq, Inhabited, Repr

namespace Duration

def perSecond : Nat := 1000000000

def ofSeconds (seconds : Nat) : Duration := ⟨seconds * perSecond⟩

def ofMillis (millis : Nat) : Duration := ⟨millis * 1000000⟩

/-- The digits of a fraction of `width` places, without zeros at the end. -/
def fractionDigits (width n : Nat) : List Char :=
  let digits := Nat.toDigits 10 n
  let padded := List.replicate (width - digits.length) '0' ++ digits
  (padded.reverse.dropWhile (· = '0')).reverse

/-- A number of nanoseconds in a unit of `10 ^ width` nanoseconds. -/
def inUnit (width : Nat) (unit : String) (nanos : Nat) : String :=
  let whole := toString (nanos / Nat.pow 10 width)
  match fractionDigits width (nanos % Nat.pow 10 width) with
  | [] => whole ++ unit
  | digits => whole ++ "." ++ String.ofList digits ++ unit

/-- A duration **in full**. -/
def text (duration : Duration) : String :=
  let n := duration.nanos
  if perSecond ≤ n then inUnit 9 "s" n
  else if 1000000 ≤ n then inUnit 6 "ms" n
  else if 1000 ≤ n then inUnit 3 "µs" n
  else inUnit 0 "ns" n

/-- A duration as seconds **with one decimal place**. -/
def seconds (duration : Duration) : String :=
  let whole := Double.ofNat (duration.nanos / perSecond)
  let rest := (Double.ofNat (duration.nanos % perSecond)).divNat perSecond
  (whole.add rest).tenths ++ "s"

end Duration

end BuildMatrix
