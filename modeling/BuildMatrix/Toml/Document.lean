import BuildMatrix.Toml.Scalar

/-!
# TOML documents

A TOML document is a sequence of lines: headers that open a table, and keys with values that fill
the open one. Tables come to be in three ways, and what may still be added to a table depends on
which it was: by a header of its own, on the way to another table's header, or by a dotted key.
-/

namespace BuildMatrix.Toml

/-! ### Tables under construction -/

/-- How a table came to be. -/
inductive Origin where
  /-- By a header of its own, or as the document itself. -/
  | header
  /-- On the way to another table's header. -/
  | passed
  | dotted
  deriving DecidableEq, Repr

/-- What a key of a table **under construction** leads to. -/
inductive Node where
  | value (value : Toml)
  | table (origin : Origin) (entries : List (String × Node))
  /-- The tables of a repeated header, the open one last. -/
  | tables (items : List (List (String × Node)))

namespace Node

/-- Nodes by key. -/
abbrev Entries := List (String × Node)

def replace (key : String) (node : Node) : Entries → Entries
  | [] => []
  | (k, old) :: rest => if k = key then (k, node) :: rest else (k, old) :: replace key node rest

/-- A change to the table that a path of keys **leads to**, made where it is missing. A dotted key
neither passes a table with a header of its own nor a value; a header passes every table, and the
last one of a repeated header. -/
def modifyAt (dotted : Bool) (change : Origin → Entries → Option (Origin × Entries)) :
    List String → Origin → Entries → Option (Origin × Entries)
  | [], origin, entries => change origin entries
  | key :: path, origin, entries =>
    match Json.assoc? key entries with
    | none => do
        let (made, inner) ←
          modifyAt dotted change path (if dotted then .dotted else .passed) []
        pure (origin, entries ++ [(key, .table made inner)])
    | some (.value _) => none
    | some (.tables items) => do
        let last ← items.getLast?
        let (_, inner) ← modifyAt dotted change path .header last
        pure (origin, replace key (.tables (items.dropLast ++ [inner])) entries)
    | some (.table made inner) =>
      if dotted && made = .header then none
      else do
        let (made, inner) ← modifyAt dotted change path made inner
        pure (origin, replace key (.table made inner) entries)

/-- Put a value under a new key, below the open table by a dotted key. -/
def assign (path : List String) (value : Toml) (origin : Origin) (entries : Entries) :
    Option (Origin × Entries) :=
  match path.getLast? with
  | none => none
  | some key =>
    let parents := path.dropLast
    let put (origin : Origin) (entries : Entries) : Option (Origin × Entries) :=
      if (origin = .dotted) = parents.isEmpty then none
      else
        match Json.assoc? key entries with
        | some _ => none
        | none => some (origin, entries ++ [(key, .value value)])
    modifyAt true put parents origin entries

/-- Open the table of a header: a new one, or one that was only passed before. -/
def openTable (path : List String) (entries : Entries) : Option Entries :=
  match path.getLast? with
  | none => none
  | some key =>
    let put (origin : Origin) (entries : Entries) : Option (Origin × Entries) :=
      match Json.assoc? key entries with
      | none => some (origin, entries ++ [(key, .table .header [])])
      | some (.table .passed inner) => some (origin, replace key (.table .header inner) entries)
      | some _ => none
    (modifyAt false put path.dropLast .header entries).map (·.2)

/-- Open one more table of a repeated header. -/
def openItem (path : List String) (entries : Entries) : Option Entries :=
  match path.getLast? with
  | none => none
  | some key =>
    let put (origin : Origin) (entries : Entries) : Option (Origin × Entries) :=
      match Json.assoc? key entries with
      | none => some (origin, entries ++ [(key, .tables [[]])])
      | some (.tables items) => some (origin, replace key (.tables (items ++ [[]])) entries)
      | some _ => none
    (modifyAt false put path.dropLast .header entries).map (·.2)

/-- Put a value under a new key of the open table, which `opened` leads to. -/
def assignIn (opened path : List String) (value : Toml) (entries : Entries) : Option Entries :=
  (modifyAt false (assign path value) opened .header entries).map (·.2)

mutual

def finish : Node → Toml
  | value v => v
  | table _ entries => Toml.table (finishEntries entries)
  | tables items => Toml.list (finishItems items)

def finishEntries : List (String × Node) → List (String × Toml)
  | [] => []
  | (key, node) :: rest => (key, finish node) :: finishEntries rest

/-- The values of tables in a list. -/
def finishItems : List (List (String × Node)) → List Toml
  | [] => []
  | entries :: rest => Toml.table (finishEntries entries) :: finishItems rest

end

end Node

/-! ### Keys -/

def isBareKey (c : Char) : Bool :=
  c.isAlphanum || c = '-' || c = '_'

def parseSimpleKey : List Char → Option (String × List Char)
  | '"' :: rest => parseBasic (rest.length + 1) [] rest
  | '\'' :: rest => parseLiteral rest
  | text =>
    let key := text.takeWhile isBareKey
    if key.isEmpty then none else some (String.ofList key, text.drop key.length)

/-- A key with dots, and blanks around its parts. -/
def parseKeyParts : Nat → List Char → Option (List String × List Char)
  | 0, _ => none
  | fuel + 1, text => do
      let (key, rest) ← parseSimpleKey (skipBlanks text)
      match skipBlanks rest with
      | '.' :: rest => do
          let (keys, rest) ← parseKeyParts fuel rest
          pure (key :: keys, rest)
      | rest => pure ([key], rest)

/-- How deep keys, arrays and inline tables may go. -/
def depthLimit : Nat := 80

/-- A **key** with fewer than `depthLimit` parts. -/
def parseKey (text : List Char) : Option (List String × List Char) := do
  let (keys, rest) ← parseKeyParts (text.length + 1) text
  if keys.length < depthLimit then pure (keys, rest) else none

/-! ### Values -/

/-- The text after a comment, which starts with `#`; nothing if the comment holds a control
character. -/
def skipComment (text : List Char) : Option (List Char) :=
  match text.dropWhile isPrintable with
  | [] => some []
  | rest => (afterNewline? rest).map fun _ => rest

/-- The text after blanks, line endings and comments. -/
def skipSpace : Nat → List Char → Option (List Char)
  | 0, text => some text
  | fuel + 1, text =>
    match skipBlanks text with
    | '#' :: rest =>
      match skipComment rest with
      | some rest => skipSpace fuel rest
      | none => none
    | text =>
      match afterNewline? text with
      | some rest => skipSpace fuel rest
      | none => some text

/-- The text after a word, if it starts with it. -/
def afterWord? (word : String) (text : List Char) : Option (List Char) :=
  if word.toList.isPrefixOf text then some (text.drop word.length) else none

/-- A value that holds no others. -/
def parseScalar (text : List Char) : Option (Toml × List Char) :=
  match text with
  | '"' :: _ => (parseText text).map fun (value, rest) => (str value, rest)
  | '\'' :: _ => (parseText text).map fun (value, rest) => (str value, rest)
  | 't' :: _ => (afterWord? "true" text).map fun rest => (flag true, rest)
  | 'f' :: _ => (afterWord? "false" text).map fun rest => (flag false, rest)
  | _ => if looksLikeMoment text then parseMoment text else parseNumber text

/-- The table of the entries of an inline table. -/
def inlineTable? (pairs : List (List String × Toml)) : Option Toml :=
  let step (entries : Node.Entries) (pair : List String × Toml) : Option Node.Entries :=
    (Node.assign pair.1 pair.2 .header entries).map (·.2)
  (pairs.foldlM step []).map fun entries => table (Node.finishEntries entries)

mutual

/-- A **value** of any kind, with at most `depth` arrays and inline tables in one another. -/
def parseValue : Nat → Nat → List Char → Option (Toml × List Char)
  | 0, _, _ => none
  | fuel + 1, depth, '[' :: rest =>
    match depth with
    | 0 => none
    | depth + 1 =>
      match parseItems fuel depth rest with
      | some (items, rest) => some (list items, rest)
      | none => none
  | fuel + 1, depth, '\x7b' :: rest =>
    match depth with
    | 0 => none
    | depth + 1 =>
      match skipBlanks rest with
      | '\x7d' :: rest => some (table [], rest)
      | rest =>
        match parsePairs fuel depth rest with
        | some (pairs, rest) => (inlineTable? pairs).map fun value => (value, rest)
        | none => none
  | _ + 1, _, text => parseScalar text

/-- The items of an array up to its closing bracket; a comma may stand before it. -/
def parseItems : Nat → Nat → List Char → Option (List Toml × List Char)
  | 0, _, _ => none
  | fuel + 1, depth, text =>
    match skipSpace text.length text with
    | none => none
    | some (']' :: rest) => some ([], rest)
    | some text =>
      match parseValue fuel depth text with
      | none => none
      | some (item, rest) =>
        match skipSpace rest.length rest with
        | some (']' :: rest) => some ([item], rest)
        | some (',' :: rest) =>
          match parseItems fuel depth rest with
          | some (items, rest) => some (item :: items, rest)
          | none => none
        | _ => none

/-- The entries of an inline table up to its closing brace; no comma may stand before it. -/
def parsePairs : Nat → Nat → List Char → Option (List (List String × Toml) × List Char)
  | 0, _, _ => none
  | fuel + 1, depth, text =>
    match parseKey text with
    | some (key, '=' :: rest) =>
      match parseValue fuel depth (skipBlanks rest) with
      | none => none
      | some (value, rest) =>
        match skipBlanks rest with
        | '\x7d' :: rest => some ([(key, value)], rest)
        | ',' :: rest =>
          match parsePairs fuel depth rest with
          | some (pairs, rest) => some ((key, value) :: pairs, rest)
          | none => none
        | _ => none
    | _ => none

end

/-! ### Documents -/

/-- A document under construction. -/
structure Draft where
  entries : Node.Entries := []
  /-- The key of the open table. -/
  opened : List String := []

/-- The text after the end of a line, which may have a comment. -/
def endLine (text : List Char) : Option (List Char) := do
  let rest ← match skipBlanks text with
    | '#' :: rest => skipComment rest
    | rest => some rest
  match rest with
  | [] => some []
  | rest => afterNewline? rest

/-- A header after its first bracket. -/
def parseHeader (draft : Draft) (text : List Char) : Option (Draft × List Char) :=
  match text with
  | '[' :: rest => do
      let (key, rest) ← parseKey rest
      match rest with
      | ']' :: ']' :: rest => do
          let entries ← Node.openItem key draft.entries
          pure (⟨entries, key⟩, ← endLine rest)
      | _ => none
  | _ => do
      let (key, rest) ← parseKey text
      match rest with
      | ']' :: rest => do
          let entries ← Node.openTable key draft.entries
          pure (⟨entries, key⟩, ← endLine rest)
      | _ => none

/-- A line with a key and its value. -/
def parseAssignment (draft : Draft) (text : List Char) : Option (Draft × List Char) := do
  let (key, rest) ← parseKey text
  match rest with
  | '=' :: rest => do
      let (value, rest) ← parseValue (2 * rest.length + 2) (depthLimit - 1) (skipBlanks rest)
      let rest ← endLine rest
      let entries ← Node.assignIn draft.opened key value draft.entries
      pure ({ draft with entries }, rest)
  | _ => none

/-- The lines of a document, at most `fuel` of them. -/
def parseLines : Nat → Draft → List Char → Option Draft
  | 0, _, _ => none
  | fuel + 1, draft, text =>
    match skipSpace text.length text with
    | none => none
    | some [] => some draft
    | some ('[' :: rest) =>
      match parseHeader draft rest with
      | some (draft, rest) => parseLines fuel draft rest
      | none => none
    | some text =>
      match parseAssignment draft text with
      | some (draft, rest) => parseLines fuel draft rest
      | none => none

/-- The text without a byte order mark at its start. -/
def dropMark : List Char → List Char
  | c :: rest => if c.toNat = 0xFEFF then rest else c :: rest
  | [] => []

/-- The **table of a document**; nothing for a text that is no TOML document. -/
def parse? (text : String) : Option Toml :=
  let chars := dropMark text.toList
  (parseLines (chars.length + 1) {} chars).map fun draft =>
    table (Node.finishEntries draft.entries)

end BuildMatrix.Toml
