import BuildMatrix.Shell.State

/-!
# Formatted output of the shell

The texts that `echo` and `printf` write. A backslash starts an escape: the usual letters, or up to
three octal digits, which stand for one byte. A format has conversions that take the arguments one
after the other, and is used again as long as arguments are left.
-/

namespace BuildMatrix.Shell

/-- The bytes of a character. -/
def charBytes (c : Char) : List UInt8 := (String.ofList [c]).toUTF8.toList

/-- The bytes of a text. -/
def textBytes (text : String) : List UInt8 := text.toUTF8.toList

/-- An octal digit. -/
def isOctal (c : Char) : Bool := '0' ≤ c && c ≤ '7'

/-- The value of octal digits. -/
def octalValue (digits : List Char) : Nat :=
  digits.foldl (fun n c => n * 8 + (c.toNat - '0'.toNat)) 0

/-- What the characters after a backslash stand for, and the rest; an escape that is none is a
backslash. -/
def escape (text : List Char) : List UInt8 × List Char :=
  match text with
  | '\\' :: rest => ([0x5C], rest)
  | 'a' :: rest => ([7], rest)
  | 'b' :: rest => ([8], rest)
  | 'e' :: rest => ([27], rest)
  | 'f' :: rest => ([12], rest)
  | 'n' :: rest => ([10], rest)
  | 'r' :: rest => ([13], rest)
  | 't' :: rest => ([9], rest)
  | 'v' :: rest => ([11], rest)
  | text =>
    match (text.take 3).takeWhile isOctal with
    | [] => ([0x5C], text)
    | digits => ([UInt8.ofNat (octalValue digits)], text.drop digits.length)

/-- Without a zero before octal digits. -/
def dropZero (text : List Char) : List Char :=
  match text with
  | '0' :: c :: rest => if isOctal c then c :: rest else text
  | text => text

/-- A text with its **escapes replaced**, and whether an escape asks for the end of all output. Each
step takes at least one character, so that the length of the text bounds `fuel`. -/
def unescapeFrom : Nat → List Char → List UInt8 × Bool
  | 0, _ => ([], false)
  | _ + 1, [] => ([], false)
  | _ + 1, '\\' :: 'c' :: _ => ([], true)
  | fuel + 1, '\\' :: rest =>
    let (bytes, rest) := escape (dropZero rest)
    let (others, stop) := unescapeFrom fuel rest
    (bytes ++ others, stop)
  | fuel + 1, c :: rest =>
    let (others, stop) := unescapeFrom fuel rest
    (charBytes c ++ others, stop)

/-- A text with its escapes replaced, and whether output ends there. -/
def unescape (text : String) : List UInt8 × Bool :=
  let chars := text.toList
  unescapeFrom (chars.length + 1) chars

/-- Words with blanks between them; an escape may end everything. -/
def echoWords : List String → List UInt8 × Bool
  | [] => ([], false)
  | [word] => unescape word
  | word :: rest =>
    let (bytes, stop) := unescape word
    if stop then (bytes, true)
    else
      let (others, stop) := echoWords rest
      (bytes ++ 0x20 :: others, stop)

/-- What **`echo`** writes. -/
def echoBytes : List String → List UInt8
  | "-n" :: words => (echoWords words).1
  | words =>
    let (bytes, stop) := echoWords words
    if stop then bytes else bytes ++ [10]

/-! ### Formats -/

/-- A conversion of a format. -/
structure Conversion where
  flags : List Char
  width : Nat
  letter : Char

/-- Bytes with blanks or zeros up to a width. -/
def padTo (conversion : Conversion) (zeros : Bool) (bytes : List UInt8) : List UInt8 :=
  let missing := conversion.width - bytes.length
  if conversion.flags.contains '-' then bytes ++ List.replicate missing 0x20
  else if zeros && conversion.flags.contains '0' then
    match bytes with
    | 0x2D :: digits => 0x2D :: (List.replicate missing 0x30 ++ digits)
    | digits => List.replicate missing 0x30 ++ digits
  else List.replicate missing 0x20 ++ bytes

/-- The number that an argument stands for. -/
def argumentNumber? (text : String) : Option Int :=
  if text = "" then some 0 else text.toInt?

/-- The bytes of a conversion of an argument, and a complaint where it is no number. -/
def convert (conversion : Conversion) (argument : String) : List UInt8 × Option String × Bool :=
  let number (write : Int → String) : List UInt8 × Option String × Bool :=
    match argumentNumber? argument with
    | some n => (padTo conversion true (textBytes (write n)), none, false)
    | none =>
      (padTo conversion true (textBytes (write 0)),
        some ("printf: " ++ argument ++ ": expected numeric value"), false)
  match conversion.letter with
  | 's' => (padTo conversion false (textBytes argument), none, false)
  | 'b' =>
    let (bytes, stop) := unescape argument
    (padTo conversion false bytes, none, stop)
  | _ => number toString

/-- The conversion after a percent sign, and the rest. -/
def conversion? (text : List Char) : Option (Conversion × List Char) :=
  let flags := text.takeWhile fun c => c = '-' || c = '0'
  let text := text.drop flags.length
  let width := text.takeWhile Char.isDigit
  let text := text.drop width.length
  match text with
  | letter :: rest =>
    if ['s', 'b', 'd', 'i'].contains letter then
      some ({ flags, width := (String.ofList width).toNat?.getD 0, letter }, rest)
    else none
  | [] => none

/-- What one use of a format gives. -/
structure FormatUse where
  bytes : List UInt8 := []
  complaints : List String := []
  left : List String
  taken : Bool := false
  stop : Bool := false
  /-- Whether the format itself is wrong. -/
  isMalformed : Bool := false

/-- Use a format once. Each step takes at least one character of it, so that its length bounds
`fuel`. -/
def useFormat : Nat → List Char → FormatUse → FormatUse
  | 0, _, use => use
  | _ + 1, [], use => use
  | fuel + 1, '\\' :: rest, use =>
    let (bytes, rest) := escape rest
    useFormat fuel rest { use with bytes := use.bytes ++ bytes }
  | fuel + 1, '%' :: '%' :: rest, use =>
    useFormat fuel rest { use with bytes := use.bytes ++ [0x25] }
  | fuel + 1, '%' :: rest, use =>
    match conversion? rest with
    | none =>
      let problem := if rest.isEmpty then "missing format character"
        else "%" ++ String.ofList (rest.take 1) ++ ": invalid directive"
      { use with
        complaints := use.complaints ++ ["printf: " ++ problem]
        stop := true
        isMalformed := true }
    | some (conversion, rest) =>
      let (bytes, complaint, stop) := convert conversion (use.left.headD "")
      let use := { use with
        bytes := use.bytes ++ bytes
        complaints := use.complaints ++ complaint.toList
        left := use.left.drop 1
        taken := true
        stop }
      if stop then use else useFormat fuel rest use
  | fuel + 1, c :: rest, use => useFormat fuel rest { use with bytes := use.bytes ++ charBytes c }

/-- Use a format until no arguments are left; each use takes one of them, so that their number
bounds `fuel`. -/
def useFormats (format : List Char) : Nat → FormatUse → FormatUse
  | 0, use => use
  | fuel + 1, use =>
    let next := useFormat (format.length + 1) format { use with taken := false }
    if next.stop || next.left.isEmpty || !next.taken then next else useFormats format fuel next

/-- What **`printf`** writes. -/
def formatted (format : String) (arguments : List String) : FormatUse :=
  useFormats format.toList (arguments.length + 1) { left := arguments }

end BuildMatrix.Shell
