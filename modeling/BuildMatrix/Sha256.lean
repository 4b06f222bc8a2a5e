/-!
# SHA-256

The digest that names cache records and stands for file contents: 32 bytes for a byte sequence of
any length. A message is padded to whole blocks of 64 bytes, and each block is mixed into eight
words over 64 rounds. A word is a number below `2 ^ 32`, so that a digest can be evaluated by
arithmetic alone.
-/

namespace BuildMatrix.Sha256

/-- The constant added in each round: the first 32 bits of the fractional parts of the cube roots
of the first 64 primes. -/
def roundConstants : List Nat := [
  0x428a2f98, 0x71374491, 0xb5c0fbcf, 0xe9b5dba5, 0x3956c25b, 0x59f111f1, 0x923f82a4, 0xab1c5ed5,
  0xd807aa98, 0x12835b01, 0x243185be, 0x550c7dc3, 0x72be5d74, 0x80deb1fe, 0x9bdc06a7, 0xc19bf174,
  0xe49b69c1, 0xefbe4786, 0x0fc19dc6, 0x240ca1cc, 0x2de92c6f, 0x4a7484aa, 0x5cb0a9dc, 0x76f988da,
  0x983e5152, 0xa831c66d, 0xb00327c8, 0xbf597fc7, 0xc6e00bf3, 0xd5a79147, 0x06ca6351, 0x14292967,
  0x27b70a85, 0x2e1b2138, 0x4d2c6dfc, 0x53380d13, 0x650a7354, 0x766a0abb, 0x81c2c92e, 0x92722c85,
  0xa2bfe8a1, 0xa81a664b, 0xc24b8b70, 0xc76c51a3, 0xd192e819, 0xd6990624, 0xf40e3585, 0x106aa070,
  0x19a4c116, 0x1e376c08, 0x2748774c, 0x34b0bcb5, 0x391c0cb3, 0x4ed8aa4a, 0x5b9cca4f, 0x682e6ff3,
  0x748f82ee, 0x78a5636f, 0x84c87814, 0x8cc70208, 0x90befffa, 0xa4506ceb, 0xbef9a3f7, 0xc67178f2]

/-- The eight words that are mixed. -/
structure Words where
  a : Nat
  b : Nat
  c : Nat
  d : Nat
  e : Nat
  f : Nat
  g : Nat
  h : Nat

/-- The words before the first block: the first 32 bits of the fractional parts of the square
roots of the first eight primes. -/
def initial : Words :=
  ⟨0x6a09e667, 0xbb67ae85, 0x3c6ef372, 0xa54ff53a, 0x510e527f, 0x9b05688c, 0x1f83d9ab, 0x5be0cd19⟩

def wrap (n : Nat) : Nat := n % 0x100000000

def rotate (word amount : Nat) : Nat :=
  (word >>> amount) ||| wrap (word <<< (32 - amount))

/-- The words of some bytes, four bytes each, high byte first. -/
def wordsOf : List UInt8 → List Nat
  | a :: b :: c :: d :: rest =>
    ((a.toNat <<< 24) ||| (b.toNat <<< 16) ||| (c.toNat <<< 8) ||| d.toNat) :: wordsOf rest
  | _ => []

/-- One more word of a block's schedule, which is held with its last word first. -/
def extend (schedule : List Nat) : List Nat :=
  let w15 := schedule.getD 14 0
  let w2 := schedule.getD 1 0
  let s0 := rotate w15 7 ^^^ rotate w15 18 ^^^ (w15 >>> 3)
  let s1 := rotate w2 17 ^^^ rotate w2 19 ^^^ (w2 >>> 10)
  wrap (schedule.getD 15 0 + s0 + schedule.getD 6 0 + s1) :: schedule

/-- The words of all rounds of a block. -/
def schedule (block : List UInt8) : List Nat :=
  ((List.range 48).foldl (fun words _ => extend words) (wordsOf block).reverse).reverse

def round (words : Words) (constant word : Nat) : Words :=
  let s1 := rotate words.e 6 ^^^ rotate words.e 11 ^^^ rotate words.e 25
  let choice := (words.e &&& words.f) ^^^ ((0xffffffff - words.e) &&& words.g)
  let t1 := words.h + s1 + choice + constant + word
  let s0 := rotate words.a 2 ^^^ rotate words.a 13 ^^^ rotate words.a 22
  let majority := (words.a &&& words.b) ^^^ (words.a &&& words.c) ^^^ (words.b &&& words.c)
  ⟨wrap (t1 + (s0 + majority)), words.a, words.b, words.c, wrap (words.d + t1), words.e, words.f,
    words.g⟩

/-- Mix a block into the words. -/
def compress (words : Words) (block : List UInt8) : Words :=
  let mixed := (roundConstants.zip (schedule block)).foldl
    (fun words (constant, word) => round words constant word) words
  ⟨wrap (words.a + mixed.a), wrap (words.b + mixed.b), wrap (words.c + mixed.c),
    wrap (words.d + mixed.d), wrap (words.e + mixed.e), wrap (words.f + mixed.f),
    wrap (words.g + mixed.g), wrap (words.h + mixed.h)⟩

/-- Mix some blocks, one after another. -/
def compressAll : Nat → List UInt8 → Words → Words
  | 0, _, words => words
  | count + 1, bytes, words => compressAll count (bytes.drop 64) (compress words (bytes.take 64))

def paddingZeros (size : Nat) : Nat :=
  (119 - size % 64) % 64

/-- The bytes of a number, high byte first. -/
def bigEndian : Nat → Nat → List UInt8
  | 0, _ => []
  | count + 1, n => UInt8.ofNat (n / Nat.pow 256 count) :: bigEndian count n

/-- A message filled up to whole blocks: a bit, zeros, and its length in bits. -/
def pad (message : List UInt8) : List UInt8 :=
  message ++ 0x80 :: (List.replicate (paddingZeros message.length) 0
    ++ bigEndian 8 (8 * message.length))

def digest (message : ByteArray) : List UInt8 :=
  let padded := pad message.data.toList
  let words := compressAll (padded.length / 64) padded initial
  [words.a, words.b, words.c, words.d, words.e, words.f, words.g, words.h].flatMap (bigEndian 4)

def hexDigit (n : Nat) : Char :=
  if n < 10 then Char.ofNat ('0'.toNat + n) else Char.ofNat ('a'.toNat + (n - 10))

def hex (bytes : List UInt8) : String :=
  String.ofList (bytes.flatMap fun b => [hexDigit (b.toNat / 16), hexDigit (b.toNat % 16)])

end BuildMatrix.Sha256
