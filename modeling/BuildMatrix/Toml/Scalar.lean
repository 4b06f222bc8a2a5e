import BuildMatrix.Json.Parser
import BuildMatrix.Toml.Basic

/-!
# TOML scalars

The scalars of a TOML document: the four kinds of strings, integers in four bases, other numbers,
and dates and times. Each reader takes the characters from its first one on and gives the scalar
with the characters after it.
-/

namespace BuildMatrix.Toml

def isBlank (c : Char) : Bool := c = ' ' || c = '\t'

def skipBlanks (text : List Char) : List Char := text.dropWhile isBlank

/-- Characters that may stand in a comment and in literal strings: no control character but the
tab. -/
def isPrintable (c : Char) : Bool :=
  c = '\t' || (0x20 ≤ c.toNat && c.toNat ≠ 0x7F)

/-- The text after a line ending, if it starts with one. -/
def afterNewline? : List Char → Option (List Char)
  | '\n' :: rest => some rest
  | '\r' :: '\n' :: rest => some rest
  | _ => none

/-! ### Strings -/

def hexValue? (digits : List Char) : Option Nat :=
  digits.foldlM (fun n c => (Json.hexDigit? c).map (n * 16 + ·)) 0

/-- The character of a number. -/
def scalarChar? (n : Nat) : Option Char :=
  if n < 0xD800 || (0xDFFF < n && n < 0x110000) then some (Char.ofNat n) else none

/-- The character an escape stands for, after its backslash. -/
def parseEscape : List Char → Option (Char × List Char)
  | 'b' :: rest => some ('\x08', rest)
  | 't' :: rest => some ('\t', rest)
  | 'n' :: rest => some ('\n', rest)
  | 'f' :: rest => some ('\x0c', rest)
  | 'r' :: rest => some ('\r', rest)
  | '"' :: rest => some ('"', rest)
  | '\\' :: rest => some ('\\', rest)
  | 'u' :: rest => do
      if rest.length < 4 then none
      let n ← hexValue? (rest.take 4)
      let c ← scalarChar? n
      pure (c, rest.drop 4)
  | 'U' :: rest => do
      if rest.length < 8 then none
      let n ← hexValue? (rest.take 8)
      let c ← scalarChar? n
      pure (c, rest.drop 8)
  | _ => none

/-- A basic string after its opening quote. -/
def parseBasic : Nat → List Char → List Char → Option (String × List Char)
  | 0, _, _ => none
  | _ + 1, _, [] => none
  | _ + 1, done, '"' :: rest => some (String.ofList done.reverse, rest)
  | fuel + 1, done, '\\' :: rest => do
      let (c, rest) ← parseEscape rest
      parseBasic fuel (c :: done) rest
  | fuel + 1, done, c :: rest => if isPrintable c then parseBasic fuel (c :: done) rest else none

/-- A literal string after its opening quote. -/
def parseLiteral (text : List Char) : Option (String × List Char) :=
  let content := text.takeWhile fun c => c ≠ '\'' && isPrintable c
  match text.drop content.length with
  | '\'' :: rest => some (String.ofList content, rest)
  | _ => none

/-- The text after blanks and line endings. -/
def skipLines : Nat → List Char → List Char
  | 0, text => text
  | fuel + 1, text =>
    match afterNewline? text with
    | some rest => skipLines fuel rest
    | none =>
      match text with
      | c :: rest => if isBlank c then skipLines fuel rest else text
      | [] => []

/-- The quotes a multi-line string ends with: up to two of its own, then three. -/
def closing? (quote : Char) (text : List Char) : Option (Nat × List Char) :=
  let quotes := (text.takeWhile (· = quote)).length
  if 3 ≤ quotes then
    let own := min (quotes - 3) 2
    some (own, text.drop (own + 3))
  else none

/-- A multi-line basic string after its opening quotes. -/
def parseBasicLines : Nat → List Char → List Char → Option (String × List Char)
  | 0, _, _ => none
  | fuel + 1, done, text =>
    match closing? '"' text with
    | some (own, rest) => some (String.ofList (done.reverse ++ List.replicate own '"'), rest)
    | none =>
      match afterNewline? text with
      | some rest => parseBasicLines fuel ('\n' :: done) rest
      | none =>
        match text with
        | [] => none
        | '\\' :: rest =>
          match afterNewline? (skipBlanks rest) with
          | some _ => parseBasicLines fuel done (skipLines rest.length rest)
          | none =>
            match parseEscape rest with
            | some (c, rest) => parseBasicLines fuel (c :: done) rest
            | none => none
        | c :: rest => if isPrintable c then parseBasicLines fuel (c :: done) rest else none

/-- A multi-line literal string after its opening quotes. -/
def parseLiteralLines : Nat → List Char → List Char → Option (String × List Char)
  | 0, _, _ => none
  | fuel + 1, done, text =>
    match closing? '\'' text with
    | some (own, rest) => some (String.ofList (done.reverse ++ List.replicate own '\''), rest)
    | none =>
      match afterNewline? text with
      | some rest => parseLiteralLines fuel ('\n' :: done) rest
      | none =>
        match text with
        | [] => none
        | c :: rest =>
          if isPrintable c then parseLiteralLines fuel (c :: done) rest else none

/-- The text after one line ending, or the text itself. -/
def dropNewline (text : List Char) : List Char :=
  (afterNewline? text).getD text

/-- A **string** of any kind, from its opening quote on. -/
def parseText : List Char → Option (String × List Char)
  | '"' :: '"' :: '"' :: rest => parseBasicLines (rest.length + 1) [] (dropNewline rest)
  | '"' :: rest => parseBasic (rest.length + 1) [] rest
  | '\'' :: '\'' :: '\'' :: rest => parseLiteralLines (rest.length + 1) [] (dropNewline rest)
  | '\'' :: rest => parseLiteral rest
  | _ => none

/-! ### Numbers -/

/-- Digits with single underscores between them, and the text after them. -/
def parseDigits (isDigit : Char → Bool) : List Char → List Char × List Char
  | c :: '_' :: d :: rest =>
    if isDigit c then
      if isDigit d then
        let (digits, rest) := parseDigits isDigit (d :: rest)
        (c :: digits, rest)
      else ([c], '_' :: d :: rest)
    else ([], c :: '_' :: d :: rest)
  | c :: rest =>
    if isDigit c then
      let (digits, rest) := parseDigits isDigit rest
      (c :: digits, rest)
    else ([], c :: rest)
  | [] => ([], [])

def baseValue (base : Nat) (digits : List Char) : Nat :=
  digits.foldl (fun n c => n * base + (Json.hexDigit? c).getD 0) 0

/-- An integer in a base other than ten, after its two-letter mark. -/
def parseBased (base : Nat) (text : List Char) : Option (Toml × List Char) :=
  let (digits, rest) := parseDigits
    (fun c => match Json.hexDigit? c with | some d => d < base | none => false) text
  if digits.isEmpty then none
  else
    let value := baseValue base digits
    if value < Nat.pow 2 63 then some (int value, rest) else none

/-- The digits of an exponent with its sign, and the text after it; `text` starts after the
mark. -/
def parseExponent (text : List Char) : Option (Int × List Char) :=
  let (negative, text) := match text with
    | '+' :: rest => (false, rest)
    | '-' :: rest => (true, rest)
    | _ => (false, text)
  let (digits, rest) := parseDigits Char.isDigit text
  if digits.isEmpty then none
  else
    let value : Int := baseValue 10 digits
    some (if negative then -value else value, rest)

/-- Whether a decimal number is too large for a double: it rounds up to 2^1024. -/
def overflows (digits : List Char) (exponent : Int) : Bool :=
  let mantissa := baseValue 10 digits
  if mantissa = 0 then false
  else
    let size : Int := (Nat.toDigits 10 mantissa).length + exponent
    if size < 309 then false
    else if 310 < size then true
    else
      let limit : Nat := Nat.pow 2 1024 - Nat.pow 2 970
      if 0 ≤ exponent then limit ≤ mantissa * Nat.pow 10 exponent.toNat
      else limit * Nat.pow 10 (-exponent).toNat ≤ mantissa

/-- A decimal number after its sign. -/
def parseDecimal (negative : Bool) (text : List Char) : Option (Toml × List Char) :=
  let (digits, rest) := parseDigits Char.isDigit text
  let (digits, rest) := match digits with
    | '0' :: _ :: _ => (['0'], text.drop 1)
    | _ => (digits, rest)
  if digits.isEmpty then none
  else
    let ending (fraction : List Char) (exponent : Int) (rest : List Char) :=
      if overflows (digits ++ fraction) (exponent - fraction.length) then none
      else some (real, rest)
    let withExponent (fraction : List Char) (rest : List Char) :=
      match rest with
      | 'e' :: tail =>
        match parseExponent tail with
        | some (exponent, rest) => ending fraction exponent rest
        | none => none
      | 'E' :: tail =>
        match parseExponent tail with
        | some (exponent, rest) => ending fraction exponent rest
        | none => none
      | _ => ending fraction 0 rest
    match rest with
    | '.' :: tail =>
      let (fraction, rest) := parseDigits Char.isDigit tail
      if fraction.isEmpty then none else withExponent fraction rest
    | 'e' :: _ => withExponent [] rest
    | 'E' :: _ => withExponent [] rest
    | _ =>
      let value := baseValue 10 digits
      if negative then
        if value ≤ Nat.pow 2 63 then some (int (-value), rest) else none
      else if value < Nat.pow 2 63 then some (int value, rest) else none

/-- Read an infinity or no number. -/
def parseSpecial : List Char → Option (Toml × List Char)
  | 'i' :: 'n' :: 'f' :: rest => some (real, rest)
  | 'n' :: 'a' :: 'n' :: rest => some (real, rest)
  | _ => none

def parseNumber : List Char → Option (Toml × List Char)
  | '0' :: 'x' :: rest => parseBased 16 rest
  | '0' :: 'o' :: rest => parseBased 8 rest
  | '0' :: 'b' :: rest => parseBased 2 rest
  | '+' :: rest => (parseSpecial rest).orElse fun _ => parseDecimal false rest
  | '-' :: rest => (parseSpecial rest).orElse fun _ => parseDecimal true rest
  | text => (parseSpecial text).orElse fun _ => parseDecimal false text

/-! ### Dates and times -/

/-- A number of exactly `count` digits. -/
def fixedDigits (count : Nat) (text : List Char) : Option (Nat × List Char) :=
  let digits := text.take count
  if digits.length = count && digits.all Char.isDigit then
    some (baseValue 10 digits, text.drop count)
  else none

def twoDigits (low high : Nat) (text : List Char) : Option (Nat × List Char) := do
  let (n, rest) ← fixedDigits 2 text
  if low ≤ n && n ≤ high then pure (n, rest) else none

def expect (c : Char) : List Char → Option (List Char)
  | d :: rest => if c = d then some rest else none
  | [] => none

/-- How many days a month has. -/
def daysIn (year month : Nat) : Nat :=
  if month = 2 then
    if (year % 4 = 0 && year % 100 ≠ 0) || year % 400 = 0 then 29 else 28
  else if month = 4 || month = 6 || month = 9 || month = 11 then 30
  else 31

def padded (width n : Nat) : List Char :=
  let digits := Nat.toDigits 10 n
  List.replicate (width - digits.length) '0' ++ digits

def parseDate (text : List Char) : Option (List Char × List Char) := do
  let (year, rest) ← fixedDigits 4 text
  let rest ← expect '-' rest
  let (month, rest) ← twoDigits 1 12 rest
  let rest ← expect '-' rest
  let (day, rest) ← twoDigits 1 (daysIn year month) rest
  pure (padded 4 year ++ ['-'] ++ padded 2 month ++ ['-'] ++ padded 2 day, rest)

/-- The digits of a fraction of a second in normal form: at most nine, no zeros at the end. -/
def fractionText (digits : List Char) : List Char :=
  let kept := ((digits.take 9).reverse.dropWhile (· = '0')).reverse
  if kept.isEmpty then [] else '.' :: kept

def parseTime (text : List Char) : Option (List Char × List Char) := do
  let (hour, rest) ← twoDigits 0 23 text
  let rest ← expect ':' rest
  let (minute, rest) ← twoDigits 0 59 rest
  let rest ← expect ':' rest
  let (second, rest) ← twoDigits 0 60 rest
  let clock := padded 2 hour ++ [':'] ++ padded 2 minute ++ [':'] ++ padded 2 second
  match rest with
  | '.' :: tail =>
    let digits := tail.takeWhile Char.isDigit
    if digits.isEmpty then none
    else pure (clock ++ fractionText digits, tail.drop digits.length)
  | _ => pure (clock, rest)

/-- The offset after a time, if there is one, in normal form. -/
def parseOffset : List Char → Option (List Char × List Char)
  | 'Z' :: rest => some (['Z'], rest)
  | 'z' :: rest => some (['Z'], rest)
  | c :: rest =>
    if c = '+' || c = '-' then do
      let (hour, rest) ← twoDigits 0 23 rest
      let rest ← expect ':' rest
      let (minute, rest) ← twoDigits 0 59 rest
      pure (c :: (padded 2 hour ++ [':'] ++ padded 2 minute), rest)
    else some ([], c :: rest)
  | [] => some ([], [])

/-- Whether a time follows the character that can divide a date from it. -/
def dividesTime (text : List Char) : Bool :=
  match text with
  | c :: d :: _ => c = 'T' || c = 't' || (c = ' ' && d.isDigit)
  | [c] => c = 'T' || c = 't'
  | [] => false

/-- A **date, a time or both**. -/
def parseMoment (text : List Char) : Option (Toml × List Char) :=
  match parseDate text with
  | some (date, rest) =>
    if dividesTime rest then do
      let (time, rest) ← parseTime (rest.drop 1)
      let (offset, rest) ← parseOffset rest
      pure (moment (String.ofList (date ++ ['T'] ++ time ++ offset)), rest)
    else some (moment (String.ofList date), rest)
  | none => do
      let (time, rest) ← parseTime text
      pure (moment (String.ofList time), rest)

/-- Whether a text starts like a date or a time. -/
def looksLikeMoment (text : List Char) : Bool :=
  let digits := (text.takeWhile Char.isDigit).length
  let next := (text.drop digits).head?
  (digits = 4 && next = some '-') || (digits = 2 && next = some ':')

end BuildMatrix.Toml
