import BuildMatrix.Json.Parser
import BuildMatrix.Text.Utf8

/-!
# YAML tokens

The tokens of a YAML stream. Block structure is written by indentation, so the tokens that open and
close block collections are found by comparing columns, and a key of a mapping is only known to be
one when the `:` after it is seen: until then the place where it started is remembered as a *pending
key*.
-/

namespace BuildMatrix.Yaml

/-- How a scalar is written. -/
inductive Style where
  | plain
  | quoted
  | literal
  | folded
  deriving DecidableEq, Inhabited, Repr

/-- A YAML **token**. -/
inductive Token where
  | version (major minor : Nat)
  | tagDirective (handle start : String)
  | documentStart
  | documentEnd
  | blockSequence
  | blockMapping
  | blockEnd
  | flowSequence
  | flowSequenceEnd
  | flowMapping
  | flowMappingEnd
  | blockEntry
  | flowEntry
  | key
  | value
  | alias (name : String)
  | anchor (name : String)
  | tag (handle suffix : String)
  | scalar (text : String) (style : Style)
  deriving DecidableEq, Inhabited, Repr

/-! ### Characters -/

def isBlank (c : Char) : Bool := c = ' ' || c = '\t'

def isBreak (c : Char) : Bool :=
  c = '\n' || c = '\r' || c.toNat = 0x85 || c.toNat = 0x2028 || c.toNat = 0x2029

def isWord (c : Char) : Bool := c.isAlphanum || c = '-' || c = '_'

/-- Characters that may stand in a stream at all. -/
def isAllowed (c : Char) : Bool :=
  let n := c.toNat
  n = 0x09 || n = 0x0A || n = 0x0D || (0x20 ≤ n && n ≤ 0x7E) || n = 0x85
    || (0xA0 ≤ n && n ≤ 0xD7FF) || (0xE000 ≤ n && n ≤ 0xFFFD) || 0x10000 ≤ n

def isMark (c : Char) : Bool := c.toNat = 0xFEFF

/-- Whether a text starts with a blank or a line end, or is at its end. -/
def atGap : List Char → Bool
  | [] => true
  | c :: _ => isBlank c || isBreak c

def atBreak : List Char → Bool
  | [] => true
  | c :: _ => isBreak c

/-! ### The cursor -/

/-- The **text still to be read**, and where it starts. -/
structure Cursor where
  rest : List Char
  index : Nat := 0
  line : Nat := 0
  column : Nat := 0
  deriving Inhabited

namespace Cursor

def skip (cursor : Cursor) : Cursor :=
  { cursor with
    rest := cursor.rest.drop 1, index := cursor.index + 1, column := cursor.column + 1 }

def skipMany (cursor : Cursor) (count : Nat) : Cursor :=
  { cursor with
    rest := cursor.rest.drop count, index := cursor.index + count,
    column := cursor.column + count }

def skipWhile (cursor : Cursor) (test : Char → Bool) : Cursor :=
  cursor.skipMany (cursor.rest.takeWhile test).length

/-- Pass the end of a line, and what it stands for in a scalar: a newline, except for the two
separators of Unicode, which stand for themselves. -/
def readBreak (cursor : Cursor) : List Char × Cursor :=
  let next (count : Nat) : Cursor :=
    { rest := cursor.rest.drop count, index := cursor.index + count, line := cursor.line + 1,
      column := 0 }
  match cursor.rest with
  | '\r' :: '\n' :: _ => (['\n'], next 2)
  | c :: _ =>
    if c.toNat = 0x2028 || c.toNat = 0x2029 then ([c], next 1)
    else if isBreak c then (['\n'], next 1)
    else ([], cursor)
  | [] => ([], cursor)

def skipBreak (cursor : Cursor) : Cursor := cursor.readBreak.2

/-- Whether the cursor is at a document marker: three characters at the start of a line. -/
def atMarker (cursor : Cursor) (c : Char) : Bool :=
  cursor.column = 0 && [c, c, c].isPrefixOf cursor.rest && atGap (cursor.rest.drop 3)

def atDocumentMarker (cursor : Cursor) : Bool :=
  cursor.atMarker '-' || cursor.atMarker '.'

end Cursor

/-! ### Line folding -/

/-- Blanks and line ends between two words of a scalar. -/
structure Gap where
  /-- Blanks before the first line end. -/
  blanks : List Char := []
  /-- Whether a line end was passed. -/
  broken : Bool := false
  first : List Char := []
  others : List Char := []

/-- What a gap stands for: its blanks, or a folded line end. -/
def Gap.text (gap : Gap) : List Char :=
  if gap.broken then
    if gap.first.head? = some '\n' then
      if gap.others.isEmpty then [' '] else gap.others
    else gap.first ++ gap.others
  else gap.blanks

/-- Read blanks and line ends; with `floor`, a tab below that column after a line end fails. -/
def readGap (floor : Option Nat) : Nat → Gap → Cursor → Option (Gap × Cursor)
  | 0, gap, cursor => some (gap, cursor)
  | fuel + 1, gap, cursor =>
    match cursor.rest with
    | [] => some (gap, cursor)
    | c :: _ =>
      if isBlank c then
        if gap.broken then
          if c = '\t' && (match floor with | some n => cursor.column < n | none => false) then
            none
          else readGap floor fuel gap cursor.skip
        else readGap floor fuel { gap with blanks := gap.blanks ++ [c] } cursor.skip
      else if isBreak c then
        let (text, cursor) := cursor.readBreak
        if gap.broken then readGap floor fuel { gap with others := gap.others ++ text } cursor
        else readGap floor fuel { gap with broken := true, blanks := [], first := text } cursor
      else some (gap, cursor)

/-! ### Quoted scalars -/

/-- A code in hexadecimal digits. -/
def hexCode? (count : Nat) (text : List Char) : Option Nat :=
  if text.length < count then none
  else (text.take count).foldlM (fun n c => (Json.hexDigit? c).map (n * 16 + ·)) 0

/-- The character of an escape by number. -/
def numbered? (count : Nat) (text : List Char) : Option (Char × Nat) := do
  let n ← hexCode? count text
  if (0xD800 ≤ n && n ≤ 0xDFFF) || 0x10FFFF < n then none
  else pure (Char.ofNat n, count + 1)

/-- The character that an escape stands for, and how many characters after the backslash it
takes. -/
def escape? : List Char → Option (Char × Nat)
  | [] => none
  | c :: rest =>
    match c with
    | '0' => some ('\x00', 1)
    | 'a' => some ('\x07', 1)
    | 'b' => some ('\x08', 1)
    | 't' => some ('\t', 1)
    | '\t' => some ('\t', 1)
    | 'n' => some ('\n', 1)
    | 'v' => some ('\x0b', 1)
    | 'f' => some ('\x0c', 1)
    | 'r' => some ('\r', 1)
    | 'e' => some ('\x1b', 1)
    | ' ' => some (' ', 1)
    | '"' => some ('"', 1)
    | '/' => some ('/', 1)
    | '\\' => some ('\\', 1)
    | 'N' => some (Char.ofNat 0x85, 1)
    | '_' => some (Char.ofNat 0xA0, 1)
    | 'L' => some (Char.ofNat 0x2028, 1)
    | 'P' => some (Char.ofNat 0x2029, 1)
    | 'x' => numbered? 2 rest
    | 'u' => numbered? 4 rest
    | 'U' => numbered? 8 rest
    | _ => none

/-- A quoted scalar after its opening quote; `done` holds what is read so far, in reverse. -/
def readQuoted (quote : Char) : Nat → List Char → Cursor → Option (String × Cursor)
  | 0, _, _ => none
  | fuel + 1, done, cursor =>
    if cursor.atDocumentMarker then none
    else
      match cursor.rest with
      | [] => none
      | c :: rest =>
        if c = quote then
          if quote = '\'' && rest.head? = some '\'' then
            readQuoted quote fuel ('\'' :: done) (cursor.skipMany 2)
          else some (String.ofList done.reverse, cursor.skip)
        else if c = '\\' && quote = '"' then
          if !rest.isEmpty && atBreak rest then
            match readGap none rest.length { broken := true } cursor.skip.skipBreak with
            | some (gap, cursor) => readQuoted quote fuel (gap.text.reverse ++ done) cursor
            | none => none
          else
            match escape? rest with
            | some (c, count) => readQuoted quote fuel (c :: done) (cursor.skipMany (count + 1))
            | none => none
        else if isBlank c || isBreak c then
          match readGap none cursor.rest.length {} cursor with
          | some (gap, cursor) => readQuoted quote fuel (gap.text.reverse ++ done) cursor
          | none => none
        else readQuoted quote fuel (c :: done) cursor.skip

/-! ### Plain scalars -/

def isFlowMark (c : Char) : Bool :=
  c = ',' || c = '[' || c = ']' || c = '\x7b' || c = '\x7d'

/-- The characters of one word of a plain scalar, up to a gap or an indicator that ends it. -/
def readWord (inFlow : Bool) : List Char → Option (List Char)
  | [] => some []
  | c :: rest =>
    if isBlank c || isBreak c then some []
    else if inFlow && c = ':' && rest.head?.any (fun d => isFlowMark d || d = '?') then none
    else if (c = ':' && atGap rest) || (inFlow && isFlowMark c) then some []
    else (readWord inFlow rest).map (c :: ·)

/-- A plain scalar: words with folded gaps between them. Gives the text, the cursor after the last
gap, and whether that gap passed a line end. -/
def readPlain (inFlow : Bool) (floor : Nat) :
    Nat → List Char → Gap → Cursor → Option (List Char × Cursor × Bool)
  | 0, _, _, _ => none
  | fuel + 1, done, gap, cursor =>
    if cursor.atDocumentMarker || cursor.rest.head? = some '#' then
      some (done, cursor, gap.broken)
    else
      match readWord inFlow cursor.rest with
      | none => none
      | some [] => some (done, cursor, gap.broken)
      | some word =>
        let done := done ++ gap.text ++ word
        let cursor := cursor.skipMany word.length
        match cursor.rest with
        | [] => some (done, cursor, false)
        | c :: _ =>
          if isBlank c || isBreak c then
            match readGap (some floor) cursor.rest.length {} cursor with
            | none => none
            | some (gap, cursor) =>
              if !inFlow && cursor.column < floor then some (done, cursor, gap.broken)
              else readPlain inFlow floor fuel done gap cursor
          else some (done, cursor, false)

/-! ### Block scalars -/

/-- What becomes of the line ends after a block scalar. -/
inductive Chomp where
  | strip
  | clip
  | keep
  deriving DecidableEq

/-- The header of a block scalar after its indicator: what becomes of its last line ends, and its
indentation where it is given. -/
def readBlockHeader (cursor : Cursor) : Option (Chomp × Option Nat × Cursor) :=
  let chomp? (c : Char) : Option Chomp :=
    if c = '+' then some .keep else if c = '-' then some .strip else none
  let digit? (c : Char) : Option (Option Nat) :=
    if c.isDigit then some (if c = '0' then none else some (c.toNat - '0'.toNat)) else none
  match cursor.rest with
  | a :: rest =>
    match chomp? a with
    | some chomp =>
      match rest with
      | b :: _ =>
        match digit? b with
        | some none => none
        | some (some n) => some (chomp, some n, cursor.skipMany 2)
        | none => some (chomp, none, cursor.skip)
      | [] => some (chomp, none, cursor.skip)
    | none =>
      match digit? a with
      | some none => none
      | some (some n) =>
        match rest with
        | b :: _ =>
          match chomp? b with
          | some chomp => some (chomp, some n, cursor.skipMany 2)
          | none => some (.clip, some n, cursor.skip)
        | [] => some (.clip, some n, cursor.skip)
      | none => some (.clip, none, cursor)
  | [] => some (.clip, none, cursor)

/-- Line ends and indentation before a line of a block scalar. With no indentation known yet, it
is the largest one seen, at least `least`. Gives the line ends and the indentation. -/
def readIndentation (least : Nat) :
    Nat → Option Nat → Nat → List Char → Cursor → Option (List Char × Nat × Cursor)
  | 0, indent, largest, breaks, cursor => some (breaks, indent.getD (max largest least), cursor)
  | fuel + 1, indent, largest, breaks, cursor =>
    let spaces := (cursor.rest.takeWhile (· = ' ')).length
    let passed := match indent with
      | some n => min spaces (n - cursor.column)
      | none => spaces
    let cursor := cursor.skipMany passed
    let largest := max largest cursor.column
    let inside := match indent with
      | some n => cursor.column < n
      | none => true
    if inside && cursor.rest.head? = some '\t' then none
    else if !cursor.rest.isEmpty && atBreak cursor.rest then
      let (text, cursor) := cursor.readBreak
      readIndentation least fuel indent largest (breaks ++ text) cursor
    else some (breaks, indent.getD (max largest least), cursor)

/-- The lines of a block scalar. `first` is the line end after the last line and `breaks` those of
the empty lines after it. -/
def readBlockLines (literal : Bool) (indent : Nat) :
    Nat → List Char → List Char → List Char → Bool → Cursor →
      Option (List Char × List Char × List Char × Cursor)
  | 0, done, first, breaks, _, cursor => some (done, first, breaks, cursor)
  | fuel + 1, done, first, breaks, wasBlank, cursor =>
    match cursor.rest with
    | [] => some (done, first, breaks, cursor)
    | c :: _ =>
      if cursor.column ≠ indent then some (done, first, breaks, cursor)
      else
        let isBlankLine := isBlank c
        let joint :=
          if !literal && first.head? = some '\n' && !wasBlank && !isBlankLine then
            if breaks.isEmpty then [' '] else []
          else first
        let content := cursor.rest.takeWhile fun c => !isBreak c
        let cursor := cursor.skipMany content.length
        let (text, cursor) := cursor.readBreak
        match readIndentation 1 cursor.rest.length (some indent) 0 [] cursor with
        | none => none
        | some (next, _, cursor) =>
          readBlockLines literal indent fuel (done ++ joint ++ breaks ++ content) text next
            isBlankLine cursor

/-- A block scalar after its indicator; `floor` is the least column of its content. -/
def readBlock (literal : Bool) (floor : Nat) (cursor : Cursor) : Option (String × Cursor) := do
  let (chomp, given, cursor) ← readBlockHeader cursor
  let cursor := cursor.skipWhile isBlank
  let cursor := if cursor.rest.head? = some '#' then cursor.skipWhile (!isBreak ·) else cursor
  if !atBreak cursor.rest then none
  let cursor := cursor.skipBreak
  let indent := given.map fun n => (floor - 1) + n
  let (breaks, indent, cursor) ←
    readIndentation (max floor 1) (cursor.rest.length + 1) indent 0 [] cursor
  let (done, first, breaks, cursor) ←
    readBlockLines literal indent (cursor.rest.length + 1) [] [] breaks false cursor
  let ending := match chomp with
    | .strip => []
    | .clip => first
    | .keep => first ++ breaks
  pure (String.ofList (done ++ ending), cursor)

/-! ### Tags and directives -/

/-- Characters of a tag; `isUri` also allows the flow indicators among them. -/
def isTagChar (isUri : Bool) (c : Char) : Bool :=
  isWord c || ";/?:@&=+$.%!~*'()".toList.contains c || (isUri && ",[]".toList.contains c)

/-- How many bytes a character has that starts with a byte. -/
def widthOf (byte : Nat) : Nat :=
  if byte < 0x80 then 1
  else if byte / 0x20 = 6 then 2
  else if byte / 0x10 = 14 then 3
  else if byte / 0x08 = 30 then 4
  else 0

/-- One byte written as `%` with two digits. -/
def byte? (text : List Char) : Option Nat :=
  match text with
  | '%' :: rest => hexCode? 2 rest
  | _ => none

/-- The continuation bytes of a character written with `%`. -/
def restBytes? : Nat → List Char → Option (List UInt8)
  | 0, _ => some []
  | count + 1, text => do
      let byte ← byte? text
      if byte / 0x40 ≠ 2 then none
      pure (UInt8.ofNat byte :: (← restBytes? count (text.drop 3)))

/-- The bytes of a tag, `%` resolved. -/
def tagBytes (isUri : Bool) : Nat → List Char → Option (List UInt8 × Nat)
  | 0, _ => some ([], 0)
  | _ + 1, [] => some ([], 0)
  | fuel + 1, c :: rest =>
    if !isTagChar isUri c then some ([], 0)
    else if c = '%' then do
      let byte ← byte? (c :: rest)
      let width := widthOf byte
      if width = 0 then none
      let others ← restBytes? (width - 1) (rest.drop 2)
      let (bytes, count) ← tagBytes isUri fuel (rest.drop (3 * width - 1))
      pure (UInt8.ofNat byte :: (others ++ bytes), count + 3 * width)
    else do
      let (bytes, count) ← tagBytes isUri fuel rest
      pure (Text.bytes (String.singleton c) ++ bytes, count + 1)

/-- The characters of a tag, `%` resolved, and the cursor after them. -/
def readTagText (isUri : Bool) (cursor : Cursor) : Option (String × Cursor) := do
  let (bytes, count) ← tagBytes isUri cursor.rest.length cursor.rest
  pure (Text.decodeLossy ⟨bytes.toArray⟩, cursor.skipMany count)

/-- The handle of a tag, from its `!` on. -/
def readHandle (cursor : Cursor) : Option (String × Cursor) :=
  match cursor.rest with
  | '!' :: rest =>
    let name := rest.takeWhile isWord
    let cursor := cursor.skipMany (name.length + 1)
    if cursor.rest.head? = some '!' then
      some (String.ofList ('!' :: (name ++ ['!'])), cursor.skip)
    else some (String.ofList ('!' :: name), cursor)
  | _ => none

/-- A tag: its handle and the rest of it. -/
def readTag (inFlow : Bool) (cursor : Cursor) : Option (String × String × Cursor) := do
  let (handle, suffix, cursor) ←
    match cursor.rest with
    | '!' :: '<' :: _ => do
        let (suffix, cursor) ← readTagText true (cursor.skipMany 2)
        if suffix = "" then none
        if cursor.rest.head? = some '>' then pure ("", suffix, cursor.skip) else none
    | _ => do
        let (handle, cursor) ← readHandle cursor
        let (suffix, cursor) ← readTagText false cursor
        if 2 ≤ handle.length && handle.toList.getLast? = some '!' then
          if suffix = "" then none else pure (handle, suffix, cursor)
        else
          let suffix := String.ofList (handle.toList.drop 1) ++ suffix
          if suffix = "" then pure ("", "!", cursor) else pure ("!", suffix, cursor)
  if atGap cursor.rest || (inFlow && cursor.rest.head? = some ',') then
    pure (handle, suffix, cursor)
  else none

/-- A number of a version: at most nine digits. -/
def readVersionNumber (cursor : Cursor) : Option (Nat × Cursor) :=
  let digits := cursor.rest.takeWhile Char.isDigit
  if digits.isEmpty || 9 < digits.length then none
  else some (Json.digitsValue digits, cursor.skipMany digits.length)

/-- A directive after its `%`. -/
def readDirective (cursor : Cursor) : Option (Token × Cursor) := do
  let name := String.ofList (cursor.rest.takeWhile isWord)
  let cursor := cursor.skipMany name.length
  if name = "" || !atGap cursor.rest then none
  let cursor := cursor.skipWhile isBlank
  let (token, cursor) ←
    if name = "YAML" then do
      let (major, cursor) ← readVersionNumber cursor
      if cursor.rest.head? ≠ some '.' then none
      let (minor, cursor) ← readVersionNumber cursor.skip
      pure (Token.version major minor, cursor)
    else if name = "TAG" then do
      let (handle, cursor) ← readHandle cursor
      if handle ≠ "!" && handle.toList.getLast? ≠ some '!' then none
      match cursor.rest with
      | c :: _ =>
        if isBlank c then do
          let (start, cursor) ← readTagText true (cursor.skipWhile isBlank)
          if start = "" || !atGap cursor.rest then none
          pure (Token.tagDirective handle start, cursor)
        else none
      | [] => none
    else none
  let cursor := cursor.skipWhile isBlank
  let cursor := if cursor.rest.head? = some '#' then cursor.skipWhile (!isBreak ·) else cursor
  if atBreak cursor.rest then pure (token, cursor.skipBreak) else none

/-- The name of an anchor or an alias, after its indicator. -/
def readName (cursor : Cursor) : Option (String × Cursor) :=
  let name := cursor.rest.takeWhile isWord
  let cursor := cursor.skipMany name.length
  let ends := match cursor.rest with
    | [] => true
    | c :: _ => isBlank c || isBreak c || "?:,]\x7d%@".toList.contains c || c.toNat = 96
  if name.isEmpty || !ends then none else some (String.ofList name, cursor)

/-! ### Division into tokens -/

/-- Where a mapping key may have started. -/
structure PendingKey where
  /-- Whether the text is no YAML unless this turns out to be a key. -/
  required : Bool
  /-- How many tokens there were before it. -/
  place : Nat
  index : Nat
  line : Nat
  column : Nat

/-- The **state** of the division into tokens. -/
structure Scan where
  cursor : Cursor
  tokens : List Token := []
  /-- The columns of the open block collections, the innermost first. -/
  indents : List Nat := []
  /-- A pending key for each open flow collection, the innermost first, and one for the block
  context around them. -/
  pending : List (Option PendingKey) := [none]
  /-- Whether a key may start here. -/
  keyAllowed : Bool := true

namespace Scan

def inFlow (scan : Scan) : Bool := 1 < scan.pending.length

/-- The least column of what belongs to the innermost block collection. -/
def floor (scan : Scan) : Nat :=
  match scan.indents with
  | [] => 0
  | column :: _ => column + 1

def push (scan : Scan) (token : Token) : Scan :=
  { scan with tokens := scan.tokens ++ [token] }

/-- One more token, at a place among the others. -/
def insert (scan : Scan) (place : Nat) (token : Token) : Scan :=
  { scan with tokens := scan.tokens.take place ++ token :: scan.tokens.drop place }

/-- Close the block collections that are indented by more than `floor` allows. -/
def closeBlocks (floor : Nat) : List Nat → List Token → List Nat × List Token
  | [], tokens => ([], tokens)
  | column :: rest, tokens =>
    if floor ≤ column then closeBlocks floor rest (tokens ++ [.blockEnd])
    else (column :: rest, tokens)

/-- Close the block collections from a column on. -/
def unroll (scan : Scan) (floor : Nat) : Scan :=
  if scan.inFlow then scan
  else
    let (indents, tokens) := closeBlocks floor scan.indents scan.tokens
    { scan with indents, tokens }

/-- Open a block collection at a column, if none is open there; its token goes to a place. -/
def roll (scan : Scan) (column place : Nat) (token : Token) : Scan :=
  if scan.inFlow || column < scan.floor then scan
  else { scan.insert place token with indents := column :: scan.indents }

/-- Give up the pending key of the innermost collection; fails if it had to be one. -/
def dropPending (scan : Scan) : Option Scan :=
  match scan.pending with
  | some key :: rest => if key.required then none else some { scan with pending := none :: rest }
  | _ => some scan

/-- Remember that a key may start here. -/
def savePending (scan : Scan) : Option Scan :=
  if scan.keyAllowed then do
    let scan ← scan.dropPending
    let key : PendingKey := {
      required := !scan.inFlow && scan.floor = scan.cursor.column + 1
      place := scan.tokens.length
      index := scan.cursor.index
      line := scan.cursor.line
      column := scan.cursor.column }
    pure { scan with pending := some key :: scan.pending.drop 1 }
  else some scan

/-- Give up the pending keys that started on an earlier line or too far back. -/
def dropStale (scan : Scan) : Option Scan := do
  let pending ← scan.pending.mapM fun entry =>
    match entry with
    | some key =>
      if key.line < scan.cursor.line || key.index + 1024 < scan.cursor.index then
        if key.required then none else some none
      else some (some key)
    | none => some none
  pure { scan with pending }

/-- Pass blanks, comments and line ends. A tab is no blank where a key may start. -/
def skipSpace : Nat → Scan → Scan
  | 0, scan => scan
  | fuel + 1, scan =>
    let cursor := scan.cursor
    let cursor :=
      if cursor.column = 0 && (cursor.rest.head?.map isMark).getD false then cursor.skip
      else cursor
    let tabs := scan.inFlow || !scan.keyAllowed
    let cursor := cursor.skipWhile fun c => c = ' ' || (tabs && c = '\t')
    let cursor := if cursor.rest.head? = some '#' then cursor.skipWhile (!isBreak ·) else cursor
    if !cursor.rest.isEmpty && atBreak cursor.rest then
      skipSpace fuel
        { scan with
          cursor := cursor.skipBreak, keyAllowed := scan.keyAllowed || !scan.inFlow }
    else { scan with cursor }

/-- Take a token that a number of characters of a line stand for. -/
def take (scan : Scan) (count : Nat) (token : Token) : Scan :=
  { scan.push token with cursor := scan.cursor.skipMany count }

/-- Close all blocks, before a directive or a document marker. -/
def endBlocks (scan : Scan) : Option Scan := do
  let scan ← (scan.unroll 0).dropPending
  pure { scan with keyAllowed := false }

def flowStart (scan : Scan) (token : Token) : Option Scan := do
  let scan ← scan.savePending
  pure { scan.take 1 token with pending := none :: scan.pending, keyAllowed := true }

/-- The end of a flow collection. -/
def flowEnd (scan : Scan) (token : Token) : Option Scan := do
  let scan ← scan.dropPending
  let pending := if scan.inFlow then scan.pending.drop 1 else scan.pending
  pure { scan.take 1 token with pending, keyAllowed := false }

def flowEntry (scan : Scan) : Option Scan := do
  let scan ← scan.dropPending
  pure { scan.take 1 .flowEntry with keyAllowed := true }

/-- A `-` before an item of a block sequence. -/
def blockEntry (scan : Scan) : Option Scan := do
  if !scan.inFlow && !scan.keyAllowed then none
  let scan ← (scan.roll scan.cursor.column scan.tokens.length .blockSequence).dropPending
  pure { scan.take 1 .blockEntry with keyAllowed := true }

/-- A `?` before a key. -/
def explicitKey (scan : Scan) : Option Scan := do
  if !scan.inFlow && !scan.keyAllowed then none
  let scan ← (scan.roll scan.cursor.column scan.tokens.length .blockMapping).dropPending
  pure { scan.take 1 .key with keyAllowed := !scan.inFlow }

/-- A `:` before a value; a pending key becomes one. -/
def mappingValue (scan : Scan) : Option Scan :=
  match scan.pending with
  | some key :: rest =>
    let scan := { scan.insert key.place .key with pending := none :: rest }
    let scan := scan.roll key.column key.place .blockMapping
    some { scan.take 1 .value with keyAllowed := false }
  | _ =>
    if !scan.inFlow && !scan.keyAllowed then none
    else
      let scan := scan.roll scan.cursor.column scan.tokens.length .blockMapping
      some { scan.take 1 .value with keyAllowed := !scan.inFlow }

/-- A token that may start a key, given with the cursor after it. -/
def node (scan : Scan) (read : Option (Token × Cursor)) : Option Scan := do
  let scan ← scan.savePending
  let (token, cursor) ← read
  pure { scan.push token with cursor, keyAllowed := false }

def blockScalar (scan : Scan) (literal : Bool) : Option Scan := do
  let scan ← scan.dropPending
  let (text, cursor) ← readBlock literal scan.floor scan.cursor.skip
  pure { scan.push (.scalar text (if literal then .literal else .folded)) with
    cursor, keyAllowed := true }

def quotedScalar (scan : Scan) (quote : Char) : Option Scan :=
  scan.node <| (readQuoted quote (scan.cursor.rest.length + 1) [] scan.cursor.skip).map
    fun (text, cursor) => (.scalar text .quoted, cursor)

/-- A plain scalar; a key may start after it if it ended with a line. -/
def plainScalar (scan : Scan) : Option Scan := do
  let scan ← scan.savePending
  let (text, cursor, broken) ←
    readPlain scan.inFlow scan.floor (scan.cursor.rest.length + 1) [] {} scan.cursor
  pure { scan.push (.scalar (String.ofList text) .plain) with cursor, keyAllowed := broken }

/-- Whether a plain scalar may start with a character before a text. -/
def startsPlain (inFlow : Bool) (c : Char) (rest : List Char) : Bool :=
  let indicator := "-?:,[]\x7b\x7d#&*!|>'\"%@".toList.contains c || c.toNat = 96
  !(isBlank c || isBreak c || indicator)
    || (c = '-' && !(rest.head?.map isBlank).getD false)
    || (!inFlow && (c = '?' || c = ':') && !atGap rest)

def token (scan : Scan) (c : Char) (rest : List Char) : Option Scan :=
  let cursor := scan.cursor
  let inFlow := scan.inFlow
  if cursor.column = 0 && c = '%' then do
    let scan ← scan.endBlocks
    let (token, cursor) ← readDirective cursor.skip
    pure { scan.push token with cursor }
  else if cursor.atMarker '-' then scan.endBlocks.map (·.take 3 .documentStart)
  else if cursor.atMarker '.' then scan.endBlocks.map (·.take 3 .documentEnd)
  else if c = '[' then scan.flowStart .flowSequence
  else if c = '\x7b' then scan.flowStart .flowMapping
  else if c = ']' then scan.flowEnd .flowSequenceEnd
  else if c = '\x7d' then scan.flowEnd .flowMappingEnd
  else if c = ',' then scan.flowEntry
  else if c = '-' && atGap rest then scan.blockEntry
  else if c = '?' && (inFlow || atGap rest) then scan.explicitKey
  else if c = ':' && (inFlow || atGap rest) then scan.mappingValue
  else if c = '*' then scan.node ((readName cursor.skip).map fun (n, k) => (.alias n, k))
  else if c = '&' then scan.node ((readName cursor.skip).map fun (n, k) => (.anchor n, k))
  else if c = '!' then scan.node ((readTag inFlow cursor).map fun (h, s, k) => (.tag h s, k))
  else if c = '|' && !inFlow then scan.blockScalar true
  else if c = '>' && !inFlow then scan.blockScalar false
  else if c = '\'' || c = '"' then scan.quotedScalar c
  else if startsPlain inFlow c rest then scan.plainScalar
  else none

/-- All tokens from the cursor on. -/
def run : Nat → Scan → Option (List Token)
  | 0, _ => none
  | fuel + 1, scan =>
    match (skipSpace (scan.cursor.rest.length + 1) scan).dropStale with
    | none => none
    | some scan =>
      match scan.cursor.rest with
      | [] => scan.endBlocks.map (·.tokens)
      | c :: rest =>
        match (scan.unroll (scan.cursor.column + 1)).token c rest with
        | some scan => run fuel scan
        | none => none

end Scan

/-- The text without a byte order mark at its start. -/
def dropMark : List Char → List Char
  | c :: rest => if isMark c then rest else c :: rest
  | [] => []

/-- **All tokens** of a text; nothing if it cannot be divided into tokens. -/
def tokens? (text : String) : Option (List Token) :=
  let chars := dropMark text.toList
  if chars.all isAllowed then Scan.run (chars.length + 2) { cursor := { rest := chars } } else none

end BuildMatrix.Yaml
