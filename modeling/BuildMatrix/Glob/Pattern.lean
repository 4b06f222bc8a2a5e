/-!
# Patterns of names

A pattern stands for a set of names. `?` stands for any character, `*` for any characters, `[a-c]`
for one of some characters and `[!a-c]` for one of all others; two stars stand for any number of
directories, and have to be a whole part of a path. Every other character stands for itself.
-/

namespace BuildMatrix.Glob

/-- Characters from one to another. -/
structure CharRange where
  first : Char
  last : Char
  deriving DecidableEq, Inhabited, Repr

def CharRange.contains (range : CharRange) (c : Char) : Bool := range.first ≤ c && c ≤ range.last

/-- A **part of a pattern**. -/
inductive Token where
  | char (c : Char)
  | anyChar
  | anySequence
  | anyDirectories
  | within (ranges : List CharRange)
  | except (ranges : List CharRange)
  deriving DecidableEq, Inhabited, Repr

/-- What can be **wrong** with a pattern. -/
inductive Problem where
  | wildcards
  | recursiveWildcards
  | range
  deriving DecidableEq, Inhabited, Repr

def Problem.message : Problem → String
  | wildcards => "wildcards are either regular `*` or recursive `**`"
  | recursiveWildcards => "recursive wildcards must form a single path component"
  | range => "invalid range pattern"

/-- A problem with its **position**. -/
structure Error where
  position : Nat
  problem : Problem
  deriving DecidableEq, Inhabited, Repr

def Error.message (error : Error) : String :=
  "Pattern syntax error near position " ++ toString error.position ++ ": " ++ error.problem.message

/-- The ranges between brackets; a hyphen between two characters makes a range of them. -/
def ranges : List Char → List CharRange
  | a :: '-' :: b :: rest => ⟨a, b⟩ :: ranges rest
  | a :: rest => ⟨a, a⟩ :: ranges rest
  | [] => []

/-- The characters of a set up to its closing bracket, and the text after it; a bracket that stands
first does not close the set. -/
def bracketed? (text : List Char) : Option (List Char × List Char) :=
  match text with
  | [] => none
  | first :: rest =>
    let inside := rest.takeWhile (· ≠ ']')
    match rest.drop inside.length with
    | [] => none
    | _ :: after => some (first :: inside, after)

/-- A set of characters after its opening bracket, and the text after it. -/
def set? (text : List Char) : Option (Token × List Char) :=
  match text with
  | '!' :: rest => (bracketed? rest).map fun (inside, after) => (.except (ranges inside), after)
  | text => (bracketed? text).map fun (inside, after) => (.within (ranges inside), after)

/-- What may stand before a recursive wildcard. -/
def mayPrecede (before : Option Char) : Bool := before.all (· = '/')

/-- The tokens of a text at a position, after a character. Each step takes at least one character,
so that the length of the text bounds `fuel`. -/
def tokensFrom : Nat → Nat → Option Char → List Char → Except Error (List Token)
  | 0, _, _, _ => .ok []
  | _ + 1, _, _, [] => .ok []
  | fuel + 1, position, before, c :: rest =>
    if c = '?' then do
      let others ← tokensFrom fuel (position + 1) (some c) rest
      pure (.anyChar :: others)
    else if c = '*' then
      let stars := 1 + (rest.takeWhile (· = '*')).length
      let after := rest.dropWhile (· = '*')
      if stars = 1 then do
        let others ← tokensFrom fuel (position + 1) (some c) after
        pure (.anySequence :: others)
      else if 2 < stars then .error ⟨position + 2, .wildcards⟩
      else if !mayPrecede before then .error ⟨position - 1, .recursiveWildcards⟩
      else
        match after with
        | [] => .ok [.anyDirectories]
        | '/' :: after => do
            let others ← tokensFrom fuel (position + 3) (some '/') after
            pure (.anyDirectories :: others)
        | _ => .error ⟨position + 2, .recursiveWildcards⟩
    else if c = '[' then
      match set? rest with
      | none => .error ⟨position, .range⟩
      | some (token, after) => do
          let others ←
            tokensFrom fuel (position + 1 + rest.length - after.length) (some ']') after
          pure (token :: others)
    else do
      let others ← tokensFrom fuel (position + 1) (some c) rest
      pure (.char c :: others)

def tokens (pattern : String) : Except Error (List Token) :=
  let chars := pattern.toList
  tokensFrom chars.length 0 none chars

def Token.isPlain : Token → Bool
  | char _ => true
  | _ => false

/-- Whether one character is what a token stands for. -/
def Token.acceptsChar (token : Token) (c : Char) : Bool :=
  match token with
  | char d => c == d
  | anyChar => true
  | within ranges => ranges.any (·.contains c)
  | except ranges => !ranges.any (·.contains c)
  | anySequence => false
  | anyDirectories => false

/-- Whether a **name is in the set** of a pattern. -/
def accepts : List Token → List Char → Bool
  | [], name => name.isEmpty
  | .anySequence :: rest, [] => accepts rest []
  | .anySequence :: rest, c :: name =>
    accepts rest (c :: name) || accepts (.anySequence :: rest) name
  | _ :: _, [] => false
  | token :: rest, c :: name => token.acceptsChar c && accepts rest name
termination_by tokens name => tokens.length + name.length

end BuildMatrix.Glob
