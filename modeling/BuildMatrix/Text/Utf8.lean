/-!
# Text in bytes

Files and process output are byte sequences, and everything the build tool reads out of them is
text. This module reads bytes as UTF-8, either strictly (`decode?`) or with the replacement
character in place of what is not UTF-8 (`decodeLossy`), and cuts a byte stream into lines.

The lossy reading replaces each *maximal malformed group*: a lead byte together with the
continuation bytes that could still have followed it.
-/

namespace BuildMatrix.Text

/-- The character that stands for a malformed group of bytes. -/
def replacement : Char := Char.ofNat 0xFFFD

def bytes (text : String) : List UInt8 :=
  text.toUTF8.data.toList

/-- The text of a well-formed UTF-8 sequence, and nothing for a malformed one. -/
def decode? (content : ByteArray) : Option String :=
  String.fromUTF8? content

/-- The characters of bytes that are **one character each**. -/
def plainChars? (bytes : List UInt8) : Option (List Char) :=
  if bytes.all fun b => b.toNat < 128 then some (bytes.map fun b => Char.ofNat b.toNat) else none

/-- The characters of a text. They are read off its bytes where these are one character each,
which is quicker than to decode them. -/
def chars (text : String) : List Char := (plainChars? (bytes text)).getD text.toList

/-- The characters of a well-formed UTF-8 sequence. -/
def chars? (content : ByteArray) : Option (List Char) :=
  match plainChars? content.data.toList with
  | some chars => some chars
  | none => (decode? content).map String.toList

theorem utf8EncodeChar_ofNat :
    ∀ n < 128, String.utf8EncodeChar (Char.ofNat n) = [UInt8.ofNat n] := by
  decide

theorem bytes_of_plainChars? {units : List UInt8} {chars : List Char}
    (h : plainChars? units = some chars) : units = bytes (String.ofList chars) := by
  have hbytes : bytes (String.ofList chars) = chars.flatMap String.utf8EncodeChar := by
    simp [bytes, List.utf8Encode]
  rw [plainChars?] at h
  split at h
  · next hplain =>
    obtain rfl := Option.some.inj h
    rw [hbytes, List.flatMap_map]
    clear h hbytes
    induction units with
    | nil => rfl
    | cons b units ih =>
      rw [List.all_cons, Bool.and_eq_true] at hplain
      rw [List.flatMap_cons, ← ih hplain.2, utf8EncodeChar_ofNat _ (by simpa using hplain.1),
        UInt8.ofNat_toNat, List.singleton_append]
  · cases h

theorem bytes_injective {a b : String} (h : bytes a = bytes b) : a = b := by
  simpa [bytes, ← String.toByteArray_inj, ByteArray.ext_iff] using h

@[simp]
theorem chars_eq (text : String) : chars text = text.toList := by
  rw [chars]
  cases h : plainChars? (bytes text) with
  | none => rfl
  | some chars =>
    rw [bytes_injective (bytes_of_plainChars? h), String.toList_ofList, Option.getD_some]

theorem decode?_toUTF8 (text : String) : decode? text.toUTF8 = some text := by
  rw [decode?, String.fromUTF8?]
  exact dif_pos text.isValidUTF8

theorem chars?_eq (content : ByteArray) : chars? content = (decode? content).map String.toList := by
  rw [chars?]
  split
  · next chars h =>
    have hcontent : content = (String.ofList chars).toUTF8 :=
      ByteArray.ext (Array.toList_inj.1 (bytes_of_plainChars? h))
    rw [hcontent, decode?_toUTF8, Option.map_some, String.toList_ofList]
  · rfl

/-- A byte inside a character. -/
def isContinuation (b : UInt8) : Bool :=
  0x80 ≤ b && b ≤ 0xBF

/-- The second bytes that may follow the lead byte `a` of a character of three bytes. -/
def secondOfThree (a b : UInt8) : Bool :=
  if a == 0xE0 then 0xA0 ≤ b && b ≤ 0xBF
  else if a == 0xED then 0x80 ≤ b && b ≤ 0x9F
  else isContinuation b

/-- The second bytes that may follow the lead byte `a` of a character of four bytes. -/
def secondOfFour (a b : UInt8) : Bool :=
  if a == 0xF0 then 0x90 ≤ b && b ≤ 0xBF
  else if a == 0xF4 then 0x80 ≤ b && b ≤ 0x8F
  else isContinuation b

/-- How many bytes the character that starts with a lead byte takes; `0` for a byte that starts
none. -/
def leadWidth (a : UInt8) : Nat :=
  if a < 0x80 then 1
  else if 0xC2 ≤ a && a ≤ 0xDF then 2
  else if 0xE0 ≤ a && a ≤ 0xEF then 3
  else if 0xF0 ≤ a && a ≤ 0xF4 then 4
  else 0

/-- The bits of such a byte. -/
def payload (b : UInt8) : Nat :=
  b.toNat % 64

/-- The first character of a byte sequence and how many bytes it takes; a malformed group reads
as `replacement`. -/
def firstChar (a : UInt8) (rest : List UInt8) : Char × Nat :=
  match leadWidth a, rest with
  | 1, _ => (Char.ofNat a.toNat, 1)
  | 2, b :: _ =>
    if isContinuation b then (Char.ofNat (a.toNat % 32 * 64 + payload b), 2) else (replacement, 1)
  | 3, b :: rest =>
    if secondOfThree a b then
      match rest with
      | c :: _ =>
        if isContinuation c then
          (Char.ofNat (a.toNat % 16 * 4096 + payload b * 64 + payload c), 3)
        else (replacement, 2)
      | [] => (replacement, 2)
    else (replacement, 1)
  | 4, b :: rest =>
    if secondOfFour a b then
      match rest with
      | c :: rest =>
        if isContinuation c then
          match rest with
          | d :: _ =>
            if isContinuation d then
              (Char.ofNat (a.toNat % 8 * 262144 + payload b * 4096 + payload c * 64
                + payload d), 4)
            else (replacement, 3)
          | [] => (replacement, 3)
        else (replacement, 2)
      | [] => (replacement, 2)
    else (replacement, 1)
  | _, _ => (replacement, 1)

/-- The characters of a byte sequence, skipping the first `skip` bytes, which a character before
them has used. -/
def lossyChars : Nat → List UInt8 → List Char
  | _, [] => []
  | skip + 1, _ :: rest => lossyChars skip rest
  | 0, a :: rest => (firstChar a rest).1 :: lossyChars ((firstChar a rest).2 - 1) rest

/-- The text of a byte sequence, each malformed group read as `U+FFFD`. -/
def decodeLossy (content : ByteArray) : String :=
  match decode? content with
  | some text => text
  | none => String.ofList (lossyChars 0 content.data.toList)

/-- A line without a return at its end. -/
def dropReturn (line : List UInt8) : List UInt8 :=
  if line.getLast? = some 13 then line.dropLast else line

/-- Cut a byte sequence at its newlines; `current` holds the bytes of the unfinished line in
reverse. -/
def linesAfter : List UInt8 → List UInt8 → List (List UInt8)
  | current, [] => if current.isEmpty then [] else [current.reverse]
  | current, b :: rest =>
    if b = 10 then dropReturn current.reverse :: linesAfter [] rest
    else linesAfter (b :: current) rest

/-- The **lines** of a byte sequence: the segments that end in a newline, without the newline and
a carriage return before it, and a last segment that is not empty. -/
def lines (content : List UInt8) : List (List UInt8) :=
  linesAfter [] content

/-- The decoded lines up to the first line that is not UTF-8. -/
def decodeLines : List (List UInt8) → List String
  | [] => []
  | line :: rest =>
    match decode? ⟨line.toArray⟩ with
    | some text => text :: decodeLines rest
    | none => []

/-- The lines a reader of a process stream sees: reading ends at the first line that is not
UTF-8. -/
def linesRead (content : List UInt8) : List String :=
  decodeLines (lines content)

end BuildMatrix.Text
