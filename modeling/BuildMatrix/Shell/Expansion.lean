import BuildMatrix.Glob.Pattern
import BuildMatrix.Shell.State

/-!
# Words of the shell

What the pieces of a word stand for is put together to the *fields* that a command gets. The value
of a parameter that is not quoted is split at the separators; a field with wildcards that are not
quoted is replaced by the names of the files it stands for, if there are any.
-/

namespace BuildMatrix.Shell

/-- What a piece of a word **stands for**. -/
inductive Fragment where
  /-- A text of the script itself. -/
  | plain (text : String) (quoted : Bool)
  /-- A value that is split at the separators. -/
  | value (text : String)
  deriving DecidableEq, Inhabited, Repr

/-- A character of a field, and whether it is quoted. -/
structure Letter where
  char : Char
  quoted : Bool
  deriving DecidableEq, Inhabited, Repr

/-- A word of a command, after everything in it has been replaced. -/
abbrev Field := List Letter

/-- The text of a field. -/
def fieldText (field : Field) : String := String.ofList (field.map (·.char))

/-- The letters of a text. -/
def letters (quoted : Bool) (text : String) : Field := text.toList.map fun c => ⟨c, quoted⟩

/-- All fragments in one field, as where a value is assigned. -/
def wholeField (fragments : List Fragment) : Field :=
  fragments.flatMap fun
    | .plain text quoted => letters quoted text
    | .value text => letters false text

/-- Fields on the way: those that are complete, and the one that letters are added to. -/
structure Splitting where
  complete : List Field := []
  current : Option Field := none
  /-- Whether blanks have just ended a field. -/
  afterBlank : Bool := false

namespace Splitting

/-- Add to the field. -/
def add (splitting : Splitting) (field : Field) : Splitting :=
  { splitting with current := some (splitting.current.getD [] ++ field), afterBlank := false }

/-- End the current field, if there is one. -/
def close (splitting : Splitting) : Splitting :=
  match splitting.current with
  | some field => { splitting with complete := splitting.complete ++ [field], current := none }
  | none => splitting

/-- Add a character of a value; separators end fields, and those that are no blanks also make empty
ones. -/
def addSplit (separators : List Char) (splitting : Splitting) (c : Char) : Splitting :=
  if !separators.contains c then splitting.add [⟨c, false⟩]
  else if c = ' ' || c = '\t' || c = '\n' then
    { splitting.close with afterBlank := splitting.afterBlank || splitting.current.isSome }
  else if splitting.current.isNone && splitting.afterBlank then
    { splitting with afterBlank := false }
  else { (splitting.add []).close with afterBlank := false }

/-- Add a fragment. -/
def addFragment (separators : List Char) (splitting : Splitting) : Fragment → Splitting
  | .plain text quoted =>
    if text = "" && !quoted then splitting else splitting.add (letters quoted text)
  | .value text => text.toList.foldl (addSplit separators) splitting

end Splitting

/-- The **fields** that fragments make up. -/
def fields (separators : List Char) (fragments : List Fragment) : List Field :=
  (fragments.foldl (Splitting.addFragment separators) {}).close.complete

/-! ### Patterns -/

/-- The characters of a set up to its closing bracket, and the letters after it. -/
def letterSet? (field : Field) : Option (Glob.Token × Field) :=
  let (negated, rest) := match field with
    | ⟨'!', false⟩ :: rest => (true, rest)
    | ⟨'^', false⟩ :: rest => (true, rest)
    | field => (false, field)
  match rest with
  | [] => none
  | first :: rest =>
    let inside := rest.takeWhile fun l => l.char ≠ ']' || l.quoted
    match rest.drop inside.length with
    | [] => none
    | _ :: after =>
      let ranges := Glob.ranges ((first :: inside).map (·.char))
      some (if negated then .except ranges else .within ranges, after)

/-- The tokens of a field; each step takes at least one letter, so that their number bounds
`fuel`. -/
def patternTokensFrom : Nat → Field → List Glob.Token
  | 0, _ => []
  | _ + 1, [] => []
  | fuel + 1, letter :: rest =>
    if letter.quoted then .char letter.char :: patternTokensFrom fuel rest
    else if letter.char = '*' then .anySequence :: patternTokensFrom fuel rest
    else if letter.char = '?' then .anyChar :: patternTokensFrom fuel rest
    else if letter.char = '[' then
      match letterSet? rest with
      | some (token, after) => token :: patternTokensFrom fuel after
      | none => .char '[' :: patternTokensFrom fuel rest
    else .char letter.char :: patternTokensFrom fuel rest

/-- A field as a pattern. -/
def patternTokens (field : Field) : List Glob.Token := patternTokensFrom field.length field

/-! ### Names of files -/

/-- The parts between slashes. -/
def fieldParts : Field → List Field
  | [] => [[]]
  | letter :: rest =>
    if letter.char = '/' then [] :: fieldParts rest
    else
      match fieldParts rest with
      | part :: parts => (letter :: part) :: parts
      | [] => [[letter]]

/-- Whether there is a wildcard. -/
def hasWildcard (field : Field) : Bool := (patternTokens field).any fun t => !t.isPlain

/-- Whether a name is what a part of a pattern stands for; a dot at its start has to be written. -/
def partAccepts (part : Field) (name : String) : Bool :=
  let tokens := patternTokens part
  (name.toList.head? != some '.' || tokens.head? == some (.char '.'))
    && Glob.accepts tokens name.toList

/-- The names that a list of parts stands for, each after the path before it. -/
def expandParts (tree : FileTree) (before : String) : List Field → List String
  | [] => []
  | [part] =>
    if hasWildcard part then
      (namesIn part).map (before ++ ·)
    else
      let path := before ++ fieldText part
      if tree.pathExists ⟨path⟩ then [path] else []
  | part :: rest =>
    if hasWildcard part then
      ((namesIn part).filter fun name => tree.isDirectory ⟨before ++ name⟩).flatMap fun name =>
        expandParts tree (before ++ name ++ "/") rest
    else expandParts tree (before ++ fieldText part ++ "/") rest
where
  /-- The names in a directory that a part stands for. -/
  namesIn (part : Field) : List String :=
    match tree.children ⟨if before = "" then "." else before⟩ with
    | .ok names => ("." :: ".." :: names).filter (partAccepts part)
    | .error _ => []

/-- The names of the **files** that a field stands for, in order; the field itself if there are
none. -/
def fileNames (tree : FileTree) (field : Field) : List String :=
  if !hasWildcard field then [fieldText field]
  else
    match expandParts tree "" (fieldParts field) with
    | [] => [fieldText field]
    | names => names.mergeSort fun a b => a ≤ b

end BuildMatrix.Shell
