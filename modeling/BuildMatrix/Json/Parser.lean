import BuildMatrix.Json.Basic

/-!
# Reading JSON

A strict reader of JSON texts: no comments, no trailing commas, no byte order mark, no control
characters in strings, no lone surrogates, at most 127 levels of nesting, and nothing but blanks
after the value.
-/

namespace BuildMatrix.Json

def isBlank (c : Char) : Bool :=
  c = ' ' || c = '\t' || c = '\n' || c = '\r'

def skipBlanks (text : List Char) : List Char :=
  text.dropWhile isBlank

def hexDigit? (c : Char) : Option Nat :=
  if '0' ≤ c && c ≤ '9' then some (c.toNat - '0'.toNat)
  else if 'a' ≤ c && c ≤ 'f' then some (c.toNat - 'a'.toNat + 10)
  else if 'A' ≤ c && c ≤ 'F' then some (c.toNat - 'A'.toNat + 10)
  else none

def hex4? (a b c d : Char) : Option Nat := do
  let a ← hexDigit? a
  let b ← hexDigit? b
  let c ← hexDigit? c
  let d ← hexDigit? d
  pure (((a * 16 + b) * 16 + c) * 16 + d)

/-- The first of two units that write a character above `U+FFFF`. -/
def isHighSurrogate (n : Nat) : Bool := 0xD800 ≤ n && n ≤ 0xDBFF

/-- The second of two units that write a character above `U+FFFF`. -/
def isLowSurrogate (n : Nat) : Bool := 0xDC00 ≤ n && n ≤ 0xDFFF

/-- The character of a one-letter escape. -/
def simpleEscape? (c : Char) : Option Char :=
  match c with
  | '"' => some '"'
  | '\\' => some '\\'
  | '/' => some '/'
  | 'b' => some '\x08'
  | 'f' => some '\x0c'
  | 'n' => some '\n'
  | 'r' => some '\r'
  | 't' => some '\t'
  | _ => none

/-- The rest of a string after its opening quote: its characters and the text after the closing
quote. Each step consumes at least one character, so the length of the text bounds `fuel`. -/
def parseString : Nat → List Char → List Char → Option (String × List Char)
  | 0, _, _ => none
  | _ + 1, _, [] => none
  | _ + 1, done, '"' :: rest => some (String.ofList done.reverse, rest)
  | fuel + 1, done, '\\' :: 'u' :: a :: b :: c :: d :: rest => do
      let unit ← hex4? a b c d
      if isHighSurrogate unit then
        match rest with
        | '\\' :: 'u' :: e :: f :: g :: h :: rest =>
          let low ← hex4? e f g h
          if isLowSurrogate low then
            parseString fuel
              (Char.ofNat (0x10000 + (unit - 0xD800) * 0x400 + (low - 0xDC00)) :: done) rest
          else none
        | _ => none
      else if isLowSurrogate unit then none
      else parseString fuel (Char.ofNat unit :: done) rest
  | fuel + 1, done, '\\' :: c :: rest => do
      let c ← simpleEscape? c
      parseString fuel (c :: done) rest
  | fuel + 1, done, c :: rest =>
    if c.toNat < 0x20 || c = '\\' then none else parseString fuel (c :: done) rest

def digitsValue (digits : List Char) : Nat :=
  digits.foldl (fun n c => n * 10 + (c.toNat - '0'.toNat)) 0

/-- A number, starting at its first digit. Integers outside the range of 64 bits are no
integers to a reader of fixed width, and a minus zero is none either. -/
def parseNumber (negative : Bool) (text : List Char) : Option (Json × List Char) :=
  let digits := text.takeWhile Char.isDigit
  let rest := text.dropWhile Char.isDigit
  if digits.isEmpty || (digits.length > 1 && digits.head? = some '0') then none
  else
    let fraction := match rest with
      | '.' :: tail => tail.takeWhile Char.isDigit
      | _ => []
    let afterFraction := match rest with
      | '.' :: tail => tail.dropWhile Char.isDigit
      | _ => rest
    if rest.head? = some '.' && fraction.isEmpty then none
    else
      let marked := afterFraction.head? = some 'e' || afterFraction.head? = some 'E'
      let unsigned := match afterFraction.drop 1 with
        | '+' :: tail => tail
        | '-' :: tail => tail
        | tail => tail
      let exponent := if marked then unsigned.takeWhile Char.isDigit else []
      let afterAll := if marked then unsigned.dropWhile Char.isDigit else afterFraction
      if marked && exponent.isEmpty then none
      else
        let value := digitsValue digits
        let whole := rest.head? ≠ some '.' && !marked
        if whole && !negative && value < UInt64.size then some (int value, afterAll)
        else if whole && negative && 0 < value && value ≤ Nat.pow 2 63 then
          some (int (-value), afterAll)
        else
          let used := text.take (text.length - afterAll.length)
          some (real (String.ofList (if negative then '-' :: used else used)), afterAll)

/-- The rest of `text` after a word it starts with. -/
def afterWord? (word : List Char) (text : List Char) : Option (List Char) :=
  if word.isPrefixOf text then some (text.drop word.length) else none

mutual

/-- A value and the text after it, with at most `depth` levels of nesting left. -/
def parseValue : Nat → Nat → List Char → Option (Json × List Char)
  | 0, _, _ => none
  | fuel + 1, depth, text =>
    match skipBlanks text with
    | '"' :: rest => do
        let (value, rest) ← parseString (rest.length + 1) [] rest
        pure (str value, rest)
    | '[' :: rest =>
      match depth with
      | 0 => none
      | depth + 1 =>
        match skipBlanks rest with
        | ']' :: rest => some (arr [], rest)
        | _ => do
            let (items, rest) ← parseItems fuel depth rest
            pure (arr items, rest)
    | '\x7b' :: rest =>
      match depth with
      | 0 => none
      | depth + 1 =>
        match skipBlanks rest with
        | '\x7d' :: rest => some (obj [], rest)
        | _ => do
            let (members, rest) ← parseMembers fuel depth rest
            pure (obj members, rest)
    | '-' :: rest => parseNumber true rest
    | text =>
      match afterWord? ['t', 'r', 'u', 'e'] text with
      | some rest => some (bool true, rest)
      | none =>
        match afterWord? ['f', 'a', 'l', 's', 'e'] text with
        | some rest => some (bool false, rest)
        | none =>
          match afterWord? ['n', 'u', 'l', 'l'] text with
          | some rest => some (null, rest)
          | none => parseNumber false text

/-- The items of an array up to and with the closing bracket. -/
def parseItems : Nat → Nat → List Char → Option (List Json × List Char)
  | 0, _, _ => none
  | fuel + 1, depth, text => do
      let (item, rest) ← parseValue fuel depth text
      match skipBlanks rest with
      | ',' :: rest =>
        let (items, rest) ← parseItems fuel depth rest
        pure (item :: items, rest)
      | ']' :: rest => pure ([item], rest)
      | _ => none

/-- The members of an object up to and with the closing brace. -/
def parseMembers : Nat → Nat → List Char → Option (List (String × Json) × List Char)
  | 0, _, _ => none
  | fuel + 1, depth, text =>
    match skipBlanks text with
    | '"' :: rest => do
        let (name, rest) ← parseString (rest.length + 1) [] rest
        match skipBlanks rest with
        | ':' :: rest =>
          let (value, rest) ← parseValue fuel depth rest
          match skipBlanks rest with
          | ',' :: rest =>
            let (members, rest) ← parseMembers fuel depth rest
            pure ((name, value) :: members, rest)
          | '\x7d' :: rest => pure ([(name, value)], rest)
          | _ => none
        | _ => none
    | _ => none

end

def maxDepth : Nat := 127

/-- The value that characters say, if all of them belong to it. -/
def parseChars? (chars : List Char) : Option Json :=
  match parseValue (2 * chars.length + 2) maxDepth chars with
  | some (value, rest) => if (skipBlanks rest).isEmpty then some value else none
  | none => none

/-- The **value of a JSON text**, if the whole text is one. -/
def parse? (text : String) : Option Json := parseChars? text.toList

end BuildMatrix.Json
