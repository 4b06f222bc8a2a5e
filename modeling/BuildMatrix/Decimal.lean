/-!
# Numbers with one decimal place

Sizes and times are computed as doubles and shown with one decimal place. Both steps round to the
nearest value and, of two that are equally near, to the even one; the second step rounds the exact
value of the double. Everything here is exact arithmetic on natural numbers, for values that are not
negative and far from the ends of the range of doubles.
-/

namespace BuildMatrix

/-- A quotient rounded to the nearest integer, a tie to the even one. -/
def roundDiv (num den : Nat) : Nat :=
  let quotient := num / den
  let twice := 2 * (num % den)
  if twice < den then quotient
  else if den < twice then quotient + 1
  else if quotient % 2 = 0 then quotient
  else quotient + 1

/-- A **double** that is not negative, as a fraction. -/
structure Double where
  num : Nat
  den : Nat
  deriving DecidableEq, Inhabited, Repr

namespace Double

def precision : Nat := 53

/-- The **nearest double** to a quotient: the quotient is scaled by a power of two until its integer
part has as many bits as a significand, and rounded there. -/
def ofRatio (num den : Nat) : Double :=
  if num = 0 then ⟨0, 1⟩
  else
    -- The integer part of `num / den` scaled by `2 ^ (up - down)` has 53 or 54 bits.
    let up := precision + den.log2 - num.log2
    let down := num.log2 - (precision + den.log2)
    let scaled := num * Nat.pow 2 up / (den * Nat.pow 2 down)
    let down := if scaled < Nat.pow 2 precision then down else down + 1
    ⟨roundDiv (num * Nat.pow 2 up) (den * Nat.pow 2 down) * Nat.pow 2 down, Nat.pow 2 up⟩

/-- The nearest double to a number. -/
def ofNat (n : Nat) : Double := ofRatio n 1

/-- The rounded sum. -/
def add (a b : Double) : Double := ofRatio (a.num * b.den + b.num * a.den) (a.den * b.den)

/-- The rounded quotient. -/
def divNat (a : Double) (n : Nat) : Double := ofRatio a.num (a.den * n)

/-- A double **with one decimal place**. -/
def tenths (a : Double) : String :=
  let n := roundDiv (10 * a.num) a.den
  toString (n / 10) ++ "." ++ toString (n % 10)

end Double

end BuildMatrix
