import BuildMatrix.Shell.Grammar

/-!
# Reading the shell language

A script is read one line of commands at a time, so that the commands of a line are done before a
mistake in a later line is seen. The reader looks at the characters once, from left to right; words
are recognised as reserved only where a command can start.
-/

namespace BuildMatrix.Shell

/-- What is **wrong** with a script. -/
inductive SyntaxError where
  | unexpected (token : String) (expected : Option String)
  | unterminatedQuote
  | unterminatedBackquote
  | unterminatedArithmetic
  | badLoopVariable
  | badSubstitution
  | missingBrace
  | tooDeep
  deriving DecidableEq, Inhabited, Repr

/-- An error in words. -/
def SyntaxError.message : SyntaxError → String
  | unexpected token none => "Syntax error: " ++ token ++ " unexpected"
  | unexpected token (some expected) =>
    "Syntax error: " ++ token ++ " unexpected (expecting " ++ expected ++ ")"
  | unterminatedQuote => "Syntax error: Unterminated quoted string"
  | unterminatedBackquote => "Syntax error: EOF in backquote substitution"
  | unterminatedArithmetic => "Syntax error: Missing '))'"
  | badLoopVariable => "Syntax error: Bad for loop variable"
  | badSubstitution => "Bad substitution"
  | missingBrace => "Syntax error: Missing '\x7d'"
  | tooDeep => "Syntax error: nested too deeply"

/-! ### Characters -/

/-- What ends a word. -/
def isMeta (c : Char) : Bool :=
  c = ' ' || c = '\t' || c = '\n' || c = ';' || c = '&' || c = '|' || c = '<' || c = '>'
    || c = '(' || c = ')'

/-- What a name may start with. -/
def isNameStart (c : Char) : Bool := c.isAlpha || c = '_'

/-- A character of a name. -/
def isNameChar (c : Char) : Bool := c.isAlphanum || c = '_'

/-- Whether a text is a name. -/
def isName (text : String) : Bool :=
  match text.toList with
  | [] => false
  | c :: rest => isNameStart c && rest.all isNameChar

/-- A text without the blanks, joined lines and comments at its start. -/
def skipSpace : List Char → List Char
  | ' ' :: rest => skipSpace rest
  | '\t' :: rest => skipSpace rest
  | '\\' :: '\n' :: rest => skipSpace rest
  | '#' :: rest => rest.dropWhile (· ≠ '\n')
  | text => text

/-- A text without the blanks, comments and ends of lines at its start. -/
def skipLines : Nat → List Char → List Char
  | 0, text => text
  | fuel + 1, text =>
    match skipSpace text with
    | '\n' :: rest => skipLines fuel rest
    | text => text

/-- A text without everything at its start that separates commands but is no separator. -/
def skipAll (text : List Char) : List Char := skipLines text.length text

/-- The plain word at the start of a text, if the text starts with one that has nothing else in
it. -/
def plainWord? (text : List Char) : Option (String × List Char) :=
  let word := text.takeWhile fun c => !isMeta c
  let isPlain (c : Char) : Bool := !(c = '\'' || c = '"' || c = '\\' || c = '$' || c = '`')
  if word.isEmpty || !word.all isPlain then none
  else some (String.ofList word, text.drop word.length)

/-- The reserved words. -/
def reservedWords : List String :=
  ["!", "do", "done", "elif", "else", "fi", "for", "if", "in", "then", "until", "while", "\x7b",
    "\x7d"]

/-- Words that end a list. -/
def closingWords : List String := ["do", "done", "elif", "else", "fi", "then", "\x7d"]

/-- A reserved word. -/
def reserved? (text : List Char) : Option (String × List Char) :=
  match plainWord? text with
  | some (word, rest) => if reservedWords.contains word then some (word, rest) else none
  | none => none

/-- The name of the token at the start of a text, for errors. -/
def tokenName (text : List Char) : String :=
  match skipSpace text with
  | [] => "end of file"
  | '\n' :: _ => "newline"
  | ';' :: ';' :: _ => "\";;\""
  | ';' :: _ => "\";\""
  | '&' :: '&' :: _ => "\"&&\""
  | '&' :: _ => "\"&\""
  | '|' :: '|' :: _ => "\"||\""
  | '|' :: _ => "\"|\""
  | '(' :: _ => "\"(\""
  | ')' :: _ => "\")\""
  | '<' :: _ => "redirection"
  | '>' :: _ => "redirection"
  | text =>
    match reserved? text with
    | some (word, _) => "\"" ++ word ++ "\""
    | none => "word"

/-- The error at a token. -/
def unexpectedAt (text : List Char) (expected : Option String) : SyntaxError :=
  .unexpected (tokenName text) expected

/-- Whether a list of commands ends at the start of a text. -/
def closesList (text : List Char) : Bool :=
  match text with
  | [] => true
  | ')' :: _ => true
  | ';' :: ';' :: _ => true
  | text =>
    match reserved? text with
    | some (word, _) => closingWords.contains word
    | none => false

/-- Read a reserved word that has to come next. -/
def expectWord (word : String) (text : List Char) : Except SyntaxError (List Char) :=
  let text := skipAll text
  match reserved? text with
  | some (found, rest) =>
    if found = word then .ok rest else .error (unexpectedAt text (some ("\"" ++ word ++ "\"")))
  | none => .error (unexpectedAt text (some ("\"" ++ word ++ "\"")))

/-- Pieces with a character of plain text before them. -/
def consChar (c : Char) (quoted : Bool) : List Piece → List Piece
  | .text value q :: rest =>
    if q = quoted then .text (String.ofList [c] ++ value) q :: rest
    else .text (String.ofList [c]) quoted :: .text value q :: rest
  | rest => .text (String.ofList [c]) quoted :: rest

/-- A parameter that is no name. -/
def isSpecialParameter (c : Char) : Bool :=
  c = '@' || c = '*' || c = '#' || c = '?' || c = '-' || c = '$' || c = '!' || c.isDigit

/-- Whether a character can follow a `$` to make it more than itself. -/
def startsExpansion : List Char → Bool
  | '(' :: _ => true
  | '\x7b' :: _ => true
  | c :: _ => isNameStart c || isSpecialParameter c
  | [] => false

/-- The text of an old style substitution up to its end, its escapes taken away; the rest after
it. -/
def backquoted (inQuotes : Bool) : List Char → Except SyntaxError (List Char × List Char)
  | [] => .error .unterminatedBackquote
  | '`' :: rest => .ok ([], rest)
  | '\\' :: c :: rest => do
      let (more, rest) ← backquoted inQuotes rest
      if c = '`' || c = '\\' || c = '$' || (inQuotes && c = '"') then pure (c :: more, rest)
      else pure ('\\' :: c :: more, rest)
  | c :: rest => do
      let (more, rest) ← backquoted inQuotes rest
      pure (c :: more, rest)

/-- The name in braces. -/
def bracedName (text : List Char) : Except SyntaxError (String × List Char) :=
  match text with
  | c :: rest =>
    if isNameStart c then
      let name := text.takeWhile isNameChar
      .ok (String.ofList name, text.drop name.length)
    else if c.isDigit then
      let digits := text.takeWhile Char.isDigit
      .ok (String.ofList digits, text.drop digits.length)
    else if isSpecialParameter c then .ok (String.ofList [c], rest)
    else .error .badSubstitution
  | [] => .error .missingBrace

/-- Where a list of pieces ends. -/
inductive PieceEnd where
  | word
  | quote
  /-- At a closing brace; the pieces may be inside double quotes. -/
  | brace (quoted : Bool)
  /-- At two closing parentheses that close nothing else; `depth` counts those that do. -/
  | arithmetic (depth : Nat)
  deriving DecidableEq

/-- Whether pieces are in quotes. -/
def PieceEnd.isQuoted : PieceEnd → Bool
  | word => false
  | quote => true
  | brace quoted => quoted
  | arithmetic _ => true

/-- The number of the descriptor before a redirection, and the rest. -/
def descriptorBefore? (text : List Char) : Option (Nat × List Char) :=
  let digits := text.takeWhile Char.isDigit
  match text.drop digits.length with
  | c :: rest =>
    if c = '<' || c = '>' then
      match digits with
      | [] => some (if c = '<' then 0 else 1, c :: rest)
      | digits => some ((String.ofList digits).toNat?.getD 0, c :: rest)
    else none
  | [] => none

/-- The kind of the redirection at the start of a text, and the rest. -/
def redirectionKind? : List Char → Option (RedirectionKind × List Char)
  | '<' :: rest => some (.read, rest)
  | '>' :: '>' :: rest => some (.append, rest)
  | '>' :: '&' :: rest => some (.duplicate, rest)
  | '>' :: rest => some (.write, rest)
  | _ => none

/-- An assignment that a word starts with: its name and the pieces after the sign. -/
def assignment? : List Piece → Option (String × List Piece)
  | .text value false :: rest =>
    let name := value.toList.takeWhile (· ≠ '=')
    match value.toList.drop name.length with
    | '=' :: after =>
      if isName (String.ofList name) then
        some (String.ofList name,
          if after.isEmpty then rest else .text (String.ofList after) false :: rest)
      else none
    | _ => none
  | _ => none

/-- The line of a script at which a text starts, given how many lines end in the whole script. -/
def lineAt (ends : Nat) (text : List Char) : Nat := 1 + ends - text.count '\n'

/-! ### Words and commands -/

mutual

/-- Read pieces. -/
def readPieces (ends : Nat) :
    Nat → PieceEnd → List Char → Except SyntaxError (List Piece × List Char)
  | 0, _, _ => .error .tooDeep
  | fuel + 1, stop, text =>
    match text with
    | [] =>
      match stop with
      | .word => .ok ([], [])
      | .quote => .error .unterminatedQuote
      | .brace false => .error .missingBrace
      | .brace true => .error .unterminatedQuote
      | .arithmetic _ => .error .unterminatedArithmetic
    | c :: rest =>
      if stop = .word && isMeta c then .ok ([], c :: rest)
      else if stop = .quote && c = '"' then .ok ([], rest)
      else
        match stop, c, rest with
        | .brace _, '\x7d', _ => .ok ([], rest)
        | .arithmetic 0, ')', ')' :: rest => .ok ([], rest)
        | .arithmetic depth, '(', _ => do
            let (pieces, rest) ← readPieces ends fuel (.arithmetic (depth + 1)) rest
            pure (consChar c true pieces, rest)
        | .arithmetic (depth + 1), ')', _ => do
            let (pieces, rest) ← readPieces ends fuel (.arithmetic depth) rest
            pure (consChar c true pieces, rest)
        | _, _, _ => readPiece ends fuel stop c rest

/-- Read a piece and what follows. -/
def readPiece (ends : Nat) :
    Nat → PieceEnd → Char → List Char → Except SyntaxError (List Piece × List Char)
  | 0, _, _, _ => .error .tooDeep
  | fuel + 1, stop, c, rest =>
    let quoted := stop.isQuoted
    if c = '\\' then
      match rest with
      | '\n' :: rest => readPieces ends fuel stop rest
      | d :: after =>
        if !quoted || d = '$' || d = '`' || d = '\\'
            || d = '"' || (d = '\x7d' && stop = .brace true) then do
          let (pieces, rest) ← readPieces ends fuel stop after
          pure (consChar d true pieces, rest)
        else do
          let (pieces, rest) ← readPieces ends fuel stop rest
          pure (consChar c true pieces, rest)
      | [] => .ok ([.text "\\" true], [])
    else if c = '\'' && !quoted then
      let inside := rest.takeWhile (· ≠ '\'')
      match rest.drop inside.length with
      | [] => .error .unterminatedQuote
      | _ :: after => do
          let (pieces, rest) ← readPieces ends fuel stop after
          pure (.text (String.ofList inside) true :: pieces, rest)
    else if c = '"' && (!quoted || stop = .brace true) then do
      let (inside, after) ← readPieces ends fuel .quote rest
      let (pieces, rest) ← readPieces ends fuel stop after
      pure (.text "" true :: inside ++ pieces, rest)
    else if c = '`' then do
      let (inside, after) ← backquoted quoted rest
      let body ← readNested ends fuel inside
      let (pieces, rest) ← readPieces ends fuel stop after
      pure (.substitution body quoted :: pieces, rest)
    else if c = '$' && startsExpansion rest then do
      let (piece, after) ← readExpansion ends fuel quoted rest
      let (pieces, rest) ← readPieces ends fuel stop after
      pure (piece :: pieces, rest)
    else do
      let (pieces, rest) ← readPieces ends fuel stop rest
      pure (consChar c quoted pieces, rest)

/-- What stands after a `$`. -/
def readExpansion (ends : Nat) : Nat → Bool → List Char → Except SyntaxError (Piece × List Char)
  | 0, _, _ => .error .tooDeep
  | fuel + 1, quoted, text =>
    match text with
    | '(' :: '(' :: rest => do
        let (expression, rest) ← readPieces ends fuel (.arithmetic 0) rest
        pure (.arithmetic expression quoted, rest)
    | '(' :: rest => do
        let (body, rest) ← readList ends fuel false (skipAll rest)
        match skipAll rest with
        | ')' :: rest => pure (.substitution body quoted, rest)
        | rest => .error (unexpectedAt rest (some "\")\""))
    | '\x7b' :: rest => readBraced ends fuel quoted rest
    | c :: rest =>
      if isNameStart c then
        let name := text.takeWhile isNameChar
        .ok (.parameter (String.ofList name) none quoted, text.drop name.length)
      else .ok (.parameter (String.ofList [c]) none quoted, rest)
    | [] => .error .badSubstitution

/-- A parameter between braces. -/
def readBraced (ends : Nat) : Nat → Bool → List Char → Except SyntaxError (Piece × List Char)
  | 0, _, _ => .error .tooDeep
  | fuel + 1, quoted, text => do
      let (name, rest) ← bracedName text
      let word (orEmpty : Bool) (rest : List Char) : Except SyntaxError (Piece × List Char) := do
        let (pieces, rest) ← readPieces ends fuel (.brace quoted) rest
        pure (.parameter name (some (orEmpty, pieces)) quoted, rest)
      match rest with
      | '\x7d' :: rest => pure (.parameter name none quoted, rest)
      | ':' :: '-' :: rest => word true rest
      | '-' :: rest => word false rest
      | [] => .error .missingBrace
      | [':'] => .error .missingBrace
      | _ => .error .badSubstitution

/-- The commands of a text that is all of a script of its own. -/
def readNested (ends : Nat) : Nat → List Char → Except SyntaxError Script
  | 0, _ => .error .tooDeep
  | fuel + 1, text => do
      let (body, rest) ← readList ends fuel false (skipAll text)
      match skipAll rest with
      | [] => pure body
      | rest => .error (unexpectedAt rest none)

/-- The redirection at the start of a text, if there is one. -/
def readRedirection (ends : Nat) :
    Nat → List Char → Except SyntaxError (Option Redirection × List Char)
  | 0, _ => .error .tooDeep
  | fuel + 1, text =>
    match descriptorBefore? text with
    | none => .ok (none, text)
    | some (descriptor, after) =>
      match redirectionKind? after with
      | none => .ok (none, text)
      | some (kind, rest) => do
          let (target, rest) ← readPieces ends fuel .word (skipSpace rest)
          if target.isEmpty then .error (unexpectedAt rest none)
          else pure (some (.mk descriptor kind target), rest)

/-- Read redirections. -/
def readRedirections (ends : Nat) :
    Nat → List Char → Except SyntaxError (List Redirection × List Char)
  | 0, _ => .error .tooDeep
  | fuel + 1, text => do
      let (redirection, rest) ← readRedirection ends fuel (skipSpace text)
      match redirection with
      | none => pure ([], rest)
      | some redirection =>
        let (others, rest) ← readRedirections ends fuel rest
        pure (redirection :: others, rest)

/-- The rest of a simple command, after some of its parts. -/
def readSimple (ends : Nat) (line : Nat) :
    Nat → List (String × List Piece) → List (List Piece) → List Redirection → List Char →
      Except SyntaxError (Script × List Char)
  | 0, _, _, _, _ => .error .tooDeep
  | fuel + 1, assignments, words, redirections, text => do
      let (redirection, rest) ← readRedirection ends fuel (skipSpace text)
      match redirection with
      | some redirection =>
        readSimple ends line fuel assignments words (redirections ++ [redirection]) rest
      | none =>
        let (word, rest) ← readPieces ends fuel .word rest
        if word.isEmpty then
          match rest with
          | '(' :: _ => .error (unexpectedAt rest none)
          | rest => pure (.simple assignments words redirections line, rest)
        else
          match words, assignment? word with
          | [], some assignment =>
            readSimple ends line fuel (assignments ++ [assignment]) words redirections rest
          | _, _ => readSimple ends line fuel assignments (words ++ [word]) redirections rest

/-- Read a command. -/
def readCommand (ends : Nat) : Nat → List Char → Except SyntaxError (Script × List Char)
  | 0, _ => .error .tooDeep
  | fuel + 1, text =>
    let text := skipSpace text
    let compound (reading : Except SyntaxError (Script × List Char)) :
          Except SyntaxError (Script × List Char) := do
      let (body, rest) ← reading
      let (redirections, rest) ← readRedirections ends fuel rest
      pure (if redirections.isEmpty then body else .redirected body redirections, rest)
    match text with
    | '(' :: rest => compound do
        let (body, rest) ← readBody ends fuel rest
        match skipAll rest with
        | ')' :: rest => pure (.subshell body, rest)
        | rest => .error (unexpectedAt rest (some "\")\""))
    | text =>
      match reserved? text with
      | some ("\x7b", rest) => compound do
          let (body, rest) ← readBody ends fuel rest
          let rest ← expectWord "\x7d" rest
          pure (body, rest)
      | some ("if", rest) => compound (readConditional ends fuel rest)
      | some ("while", rest) => compound (readLoop ends fuel false rest)
      | some ("until", rest) => compound (readLoop ends fuel true rest)
      | some ("for", rest) => compound (readEach ends fuel rest)
      | some ("in", _) => readSimpleAt ends fuel text
      | some _ => .error (unexpectedAt text none)
      | none => readSimpleAt ends fuel text

/-- A simple command; it has to have something in it. -/
def readSimpleAt (ends : Nat) : Nat → List Char → Except SyntaxError (Script × List Char)
  | 0, _ => .error .tooDeep
  | fuel + 1, text => do
      let (command, rest) ← readSimple ends (lineAt ends text) fuel [] [] [] text
      match command with
      | .simple [] [] [] _ => .error (unexpectedAt rest none)
      | command => pure (command, rest)

/-- The commands of a body, of which there has to be one; where the script ends, what has to come
after the body is missing as well, and the error says that. -/
def readBody (ends : Nat) : Nat → List Char → Except SyntaxError (Script × List Char)
  | 0, _ => .error .tooDeep
  | fuel + 1, text => do
      let text := skipAll text
      if text.isEmpty then pure (.nothing, [])
      else if closesList text then .error (unexpectedAt text none)
      else readList ends fuel false text

/-- A condition with its branches, after `if` or `elif`. -/
def readConditional (ends : Nat) : Nat → List Char → Except SyntaxError (Script × List Char)
  | 0, _ => .error .tooDeep
  | fuel + 1, text => do
      let (test, rest) ← readBody ends fuel text
      let rest ← expectWord "then" rest
      let (body, rest) ← readBody ends fuel rest
      let rest := skipAll rest
      match reserved? rest with
      | some ("fi", rest) => pure (.conditional test body .nothing, rest)
      | some ("elif", rest) =>
        let (other, rest) ← readConditional ends fuel rest
        pure (.conditional test body other, rest)
      | some ("else", rest) =>
        let (other, rest) ← readBody ends fuel rest
        let rest ← expectWord "fi" rest
        pure (.conditional test body other, rest)
      | _ => .error (unexpectedAt rest (some "\"fi\""))

/-- A loop with a test, after its first word. -/
def readLoop (ends : Nat) : Nat → Bool → List Char → Except SyntaxError (Script × List Char)
  | 0, _, _ => .error .tooDeep
  | fuel + 1, untilSuccess, text => do
      let (test, rest) ← readBody ends fuel text
      let rest ← expectWord "do" rest
      let (body, rest) ← readBody ends fuel rest
      let rest ← expectWord "done" rest
      pure (.repeated untilSuccess test body, rest)

/-- Words up to the end of a line or of a command. -/
def readWords (ends : Nat) : Nat → List Char → Except SyntaxError (List (List Piece) × List Char)
  | 0, _ => .error .tooDeep
  | fuel + 1, text => do
      let (word, rest) ← readPieces ends fuel .word (skipSpace text)
      if word.isEmpty then pure ([], rest)
      else
        let (others, rest) ← readWords ends fuel rest
        pure (word :: others, rest)

/-- A loop over words, after its first word. -/
def readEach (ends : Nat) : Nat → List Char → Except SyntaxError (Script × List Char)
  | 0, _ => .error .tooDeep
  | fuel + 1, text => do
      let (name, rest) ← match plainWord? (skipSpace text) with
        | some (name, rest) => if isName name then .ok (name, rest) else .error .badLoopVariable
        | none => .error .badLoopVariable
      let rest := skipAll rest
      let (items, rest) ← match reserved? rest with
        | some ("in", rest) => do
            let (words, rest) ← readWords ends fuel rest
            match rest with
            | ';' :: rest => pure (words, rest)
            | '\n' :: rest => pure (words, rest)
            | rest => .error (unexpectedAt rest none)
        | _ =>
          match rest with
          | ';' :: rest => pure ([], rest)
          | rest => pure ([], rest)
      let rest ← expectWord "do" rest
      let (body, rest) ← readBody ends fuel rest
      let rest ← expectWord "done" rest
      pure (.each name items body, rest)

/-- Commands joined by bars. -/
def readPipeline (ends : Nat) : Nat → List Char → Except SyntaxError (Script × List Char)
  | 0, _ => .error .tooDeep
  | fuel + 1, text => do
      let text := skipSpace text
      match reserved? text with
      | some ("!", rest) =>
        let (body, rest) ← readPipeline ends fuel rest
        pure (.negated body, rest)
      | _ =>
        let (first, rest) ← readCommand ends fuel text
        match skipSpace rest with
        | '|' :: '|' :: _ => pure (first, rest)
        | '|' :: rest =>
          let (second, rest) ← readPipeline ends fuel (skipAll rest)
          pure (.pipeline first second, rest)
        | rest => pure (first, rest)

/-- What follows the first of several pipelines that depend on each other. -/
def readConjunction (ends : Nat) :
    Nat → Script → List Char → Except SyntaxError (Script × List Char)
  | 0, _, _ => .error .tooDeep
  | fuel + 1, first, text =>
    match skipSpace text with
    | '&' :: '&' :: rest => do
        let (second, rest) ← readPipeline ends fuel (skipAll rest)
        readConjunction ends fuel (.both first second) rest
    | '|' :: '|' :: rest => do
        let (second, rest) ← readPipeline ends fuel (skipAll rest)
        readConjunction ends fuel (.either first second) rest
    | rest => .ok (first, rest)

/-- A list of commands, up to what closes it, or, if `oneLine`, to the end of the line. -/
def readList (ends : Nat) : Nat → Bool → List Char → Except SyntaxError (Script × List Char)
  | 0, _, _ => .error .tooDeep
  | fuel + 1, oneLine, text => do
      if closesList text then pure (.nothing, text)
      else
        let (pipeline, rest) ← readPipeline ends fuel text
        let (first, rest) ← readConjunction ends fuel pipeline rest
        let next (first : Script) (rest : List Char) : Except SyntaxError (Script × List Char) := do
          let rest := if oneLine then skipSpace rest else skipAll rest
          match oneLine, rest with
          | true, '\n' :: _ => pure (first, rest)
          | _, _ =>
            if closesList rest then pure (first, rest)
            else
              let (others, rest) ← readList ends fuel oneLine rest
              pure (.sequence first others, rest)
        match skipSpace rest with
        | ';' :: ';' :: rest => pure (first, ';' :: ';' :: rest)
        | ';' :: rest => next first rest
        | '&' :: rest => next (.background first) rest
        | '\n' :: rest => if oneLine then pure (first, '\n' :: rest) else next first rest
        | rest =>
          if closesList rest then pure (first, rest) else .error (unexpectedAt rest none)

end

/-- Enough fuel for a text. -/
def readingDepth (text : List Char) : Nat := 12 * text.length + 64

/-- The commands of the **first line** of a script, and the rest of the script; nothing if there are
none. `ends` is how many lines end in the whole script. -/
def readLine (ends : Nat) (text : List Char) : Except SyntaxError (Option (Script × List Char)) :=
  match skipAll text with
  | [] => .ok none
  | text =>
    match readList ends (readingDepth text) true text with
    | .error error => .error error
    | .ok (script, rest) =>
      match skipSpace rest with
      | [] => .ok (some (script, []))
      | '\n' :: rest => .ok (some (script, rest))
      | rest => .error (unexpectedAt rest none)

end BuildMatrix.Shell
