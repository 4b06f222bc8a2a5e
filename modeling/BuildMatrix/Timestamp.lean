import BuildMatrix.Text.Blank

/-!
# Points in time

A point in time is a number of nanoseconds since the start of 1970, in universal time. It is written
as a date and a time with a `Z`, as in `2020-01-01T12:30:00.500Z`. Reading is more liberal: a blank
may stand for the `T`, numbers need not have leading zeros, blanks may stand before them, and the
time may be given with an offset from universal time.
-/

namespace BuildMatrix

/-- A **point in time**: nanoseconds since the start of 1970. -/
structure Timestamp where
  nanos : Int
  deriving DecidableEq, Inhabited, Repr

namespace Timestamp

/-! ### Dates -/

def isLeap (year : Int) : Bool := (year % 4 == 0 && year % 100 != 0) || year % 400 == 0

def daysInMonth (year : Int) (month : Nat) : Nat :=
  match month with
  | 2 => if isLeap year then 29 else 28
  | 4 => 30
  | 6 => 30
  | 9 => 30
  | 11 => 30
  | _ => 31

/-- Days from the start of 1970 to a date. Years are taken to start in March, so that the day more
of a leap year is the last one of its year, and are counted in eras of 400 years, which all have the
same number of days. -/
def daysOf (year : Int) (month day : Nat) : Int :=
  let year := if month ≤ 2 then year - 1 else year
  let era := year / 400
  let yearOfEra := year % 400
  let monthFromMarch : Int := if month ≤ 2 then month + 9 else month - 3
  let dayOfYear := (153 * monthFromMarch + 2) / 5 + day - 1
  let dayOfEra := yearOfEra * 365 + yearOfEra / 4 - yearOfEra / 100 + dayOfYear
  era * 146097 + dayOfEra - 719468

/-- The year, month and day of a number of days since the start of 1970. -/
def dateOf (days : Int) : Int × Nat × Nat :=
  let shifted := days + 719468
  let era := shifted / 146097
  let dayOfEra := shifted % 146097
  let yearOfEra := (dayOfEra - dayOfEra / 1460 + dayOfEra / 36524 - dayOfEra / 146096) / 365
  let dayOfYear := dayOfEra - (365 * yearOfEra + yearOfEra / 4 - yearOfEra / 100)
  let monthFromMarch := (5 * dayOfYear + 2) / 153
  let day := dayOfYear - (153 * monthFromMarch + 2) / 5 + 1
  let month := if monthFromMarch < 10 then monthFromMarch + 3 else monthFromMarch - 9
  let year := yearOfEra + era * 400
  (if month ≤ 2 then year + 1 else year, month.toNat, day.toNat)

def perSecond : Int := 1000000000

def perDay : Int := 86400

/-- The earliest point in time there is: the start of the year -262143. -/
def earliest : Timestamp := ⟨daysOf (-262143) 1 1 * perDay * perSecond⟩

/-- The milliseconds since the start of 1970. -/
def millis (time : Timestamp) : Int := time.nanos / 1000000

/-! ### Writing -/

/-- A number with at least `width` digits. -/
def padded (width n : Nat) : String :=
  let digits := Nat.toDigits 10 n
  String.ofList (List.replicate (width - digits.length) '0' ++ digits)

/-- A year: four digits, or a sign and more of them. -/
def yearText (year : Int) : String :=
  if 0 ≤ year && year ≤ 9999 then padded 4 year.toNat
  else (if year < 0 then "-" else "+") ++ padded 4 year.natAbs

/-- The fraction of a second, in thousands of steps. -/
def fractionText (nanos : Nat) : String :=
  if nanos = 0 then ""
  else if nanos % 1000000 = 0 then "." ++ padded 3 (nanos / 1000000)
  else if nanos % 1000 = 0 then "." ++ padded 6 (nanos / 1000)
  else "." ++ padded 9 nanos

def text (time : Timestamp) : String :=
  let seconds := time.nanos / perSecond
  let (year, month, day) := dateOf (seconds / perDay)
  let second := (seconds % perDay).toNat
  yearText year ++ "-" ++ padded 2 month ++ "-" ++ padded 2 day ++ "T"
    ++ padded 2 (second / 3600) ++ ":" ++ padded 2 (second / 60 % 60) ++ ":"
    ++ padded 2 (second % 60) ++ fractionText (time.nanos % perSecond).toNat ++ "Z"

/-! ### Reading -/

def digitsValue (digits : List Char) : Nat :=
  digits.foldl (fun n c => n * 10 + (c.toNat - '0'.toNat)) 0

/-- Digits at the start of a text, at most `width` of them, and the rest; at least one digit. -/
def digits? (width : Nat) (text : List Char) : Option (List Char × List Char) :=
  match (text.take width).takeWhile Char.isDigit with
  | [] => none
  | digits => some (digits, text.drop digits.length)

/-- A number of at most `width` digits, after blanks. -/
def number? (width : Nat) (text : List Char) : Option (Nat × List Char) :=
  (digits? width (Text.skipBlanks text)).map fun (digits, rest) => (digitsValue digits, rest)

/-- A year, after blanks: at most four digits, or a sign and any number of them. -/
def year? (text : List Char) : Option (Int × List Char) :=
  match Text.skipBlanks text with
  | '-' :: rest =>
    (digits? rest.length rest).map fun (digits, rest) => (-(digitsValue digits : Int), rest)
  | '+' :: rest =>
    (digits? rest.length rest).map fun (digits, rest) => ((digitsValue digits : Int), rest)
  | text => (digits? 4 text).map fun (digits, rest) => ((digitsValue digits : Int), rest)

/-- The text after a mark, which blanks may precede. -/
def after? (mark : Char) (text : List Char) : Option (List Char) :=
  match Text.skipBlanks text with
  | c :: rest => if c = mark then some rest else none
  | [] => none

/-- A fraction of a second in nanoseconds; digits after the ninth are passed over. -/
def fraction? (text : List Char) : Option (Nat × List Char) :=
  match text with
  | '.' :: rest =>
    (digits? 9 rest).map fun (digits, rest) =>
      (digitsValue digits * Nat.pow 10 (9 - digits.length), rest.dropWhile Char.isDigit)
  | text => some (0, text)

def pair? : List Char → Option (Nat × List Char)
  | a :: b :: rest => if a.isDigit && b.isDigit then some (digitsValue [a, b], rest) else none
  | _ => none

/-- The hours and minutes of an offset in seconds, with blanks and colons between them. -/
def offsetParts? (text : List Char) : Option (Nat × List Char) := do
  let (hours, rest) ← pair? text
  let (minutes, rest) ← pair? (rest.dropWhile fun c => c = ':' || Text.isBlank c)
  if minutes < 60 then some (hours * 3600 + minutes * 60, rest) else none

/-- An offset from universal time in seconds. -/
def offset? (text : List Char) : Option (Int × List Char) :=
  match Text.skipBlanks text with
  | c :: rest =>
    if c = 'Z' || c = 'z' then some (0, rest)
    else if c = '+' then (offsetParts? rest).map fun (s, rest) => ((s : Int), rest)
    else if c = '-' || c = '−' then (offsetParts? rest).map fun (s, rest) => (-(s : Int), rest)
    else
      match c :: rest with
      | u :: t :: k :: rest =>
        if u.toUpper = 'U' && t.toUpper = 'T' && k.toUpper = 'C' then some (0, rest) else none
      | _ => none
  | [] => none

/-- What follows the end of a date. -/
def afterDate? : List Char → Option (List Char)
  | c :: rest => if c = 'T' || c = 't' || c = ' ' then some rest else none
  | [] => none

def lastYear : Int := 262142

/-- A point in time from a **text**. A minute may have a second more, for leap seconds. -/
def parse? (text : String) : Option Timestamp := do
  let (year, rest) ← year? text.toList
  let (month, rest) ← number? 2 (← after? '-' rest)
  let (day, rest) ← number? 2 (← after? '-' rest)
  let (hour, rest) ← number? 2 (← afterDate? rest)
  let (minute, rest) ← number? 2 (← after? ':' rest)
  let (second, rest) ← number? 2 (← after? ':' rest)
  let (nanos, rest) ← fraction? rest
  let (offset, rest) ← offset? rest
  if !(Text.skipBlanks rest).isEmpty then none
  else if !(-lastYear - 1 ≤ year && year ≤ lastYear) then none
  else if !(1 ≤ month && month ≤ 12 && 1 ≤ day && day ≤ daysInMonth year month) then none
  else if !(hour < 24 && minute < 60 && second ≤ 60) then none
  else if 86400 ≤ offset.natAbs then none
  else
    let seconds := daysOf year month day * perDay + hour * 3600 + minute * 60 + second - offset
    some ⟨seconds * perSecond + nanos⟩

end Timestamp

end BuildMatrix
