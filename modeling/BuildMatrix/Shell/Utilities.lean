import BuildMatrix.Shell.Format

/-!
# Utilities

The programs that commands call besides what the shell itself can do: looking at files, making,
copying, moving and dropping them, waiting, and counting and sorting lines. A utility gets arguments
and ends with a status; it goes on with the other arguments after a complaint about one of them.
-/

namespace BuildMatrix.Shell

/-- A **utility**: what it does with its arguments, and its status. -/
abbrev Utility := List String → Eval Nat

/-- A hyphen with something after it. -/
def isOption (argument : String) : Bool := argument.startsWith "-" && argument ≠ "-"

/-- The letters of the options among arguments, and the other arguments. -/
def splitOptions : List String → List Char × List String
  | [] => ([], [])
  | "--" :: rest => ([], rest)
  | argument :: rest =>
    let (options, others) := splitOptions rest
    if isOption argument then (argument.toList.drop 1 ++ options, others)
    else (options, argument :: others)

/-- Do something with each argument; the status is that of the last one that failed. -/
def forEach (act : String → Eval Nat) : List String → Eval Nat
  | [] => pure 0
  | argument :: rest => do
      let status ← act argument
      let others ← forEach act rest
      pure (if others = 0 then status else others)

/-- The file that is always empty. -/
def nullPath : String := "/dev/null"

/-- The content of a file, or of the input where the path is a hyphen. -/
def contentOf (path : String) : Eval (Except OsError ByteArray) := do
  let state ← Eval.get
  if path = "-" then
    Eval.modify fun state => { state with input := ByteArray.empty }
    pure (.ok state.input)
  else if path = nullPath then pure (.ok ByteArray.empty)
  else pure (state.tree.read ⟨path⟩)

/-- Complain about the outcome of a change of the file tree. -/
def changing (operation : FileTree → Except OsError FileTree)
    (complaint : OsError → String) : Eval Nat := do
  match ← changeTree operation with
  | none => pure 0
  | some error =>
    complain (complaint error)
    pure 1

/-- Complain about the outcome of a change of the file tree that may go only part of the way. -/
def changingPartly (operation : FileTree → Except OsError Unit × FileTree)
    (complaint : OsError → String) : Eval Nat := fun state =>
  match operation state.tree with
  | (.ok (), tree) => (.ok 0, { state with tree })
  | (.error error, tree) =>
    (do
      complain (complaint error)
      pure 1 : Eval Nat) { state with tree }

/-- A name in quotes. -/
def inQuotes (name : String) : String := "'" ++ name ++ "'"

/-- Do something with the content of each file, or with the input if there are none. -/
def forContents (name : String) (act : ByteArray → Eval Unit) (paths : List String) : Eval Nat :=
  forEach (fun path => do
    match ← contentOf path with
    | .ok content =>
      act content
      pure 0
    | .error error =>
      complain (name ++ ": " ++ path ++ ": " ++ error.reason)
      pure 1) (if paths.isEmpty then ["-"] else paths)

/-- Print files. -/
def cat : Utility := fun arguments =>
  forContents "cat" printBytes (splitOptions arguments).2

/-- Make directories; with `p`, also those above them. -/
def mkdir : Utility := fun arguments =>
  let (options, paths) := splitOptions arguments
  let complaint (path : String) (error : OsError) : String :=
    "mkdir: cannot create directory " ++ inQuotes path ++ ": " ++ error.reason
  if paths.isEmpty then do
    complain "mkdir: missing operand"
    complain "Try 'mkdir --help' for more information."
    pure 1
  else
    forEach (fun path =>
      if options.contains 'p' then changingPartly (·.createAll ⟨path⟩) (complaint path)
      else changing (·.createDirectory ⟨path⟩) (complaint path)) paths

/-- Whether a path ends in `.` or `..`. -/
def endsInDots (path : String) : Bool :=
  match (FileTree.parts (FileTree.withoutSlashes ⟨path⟩)).getLast? with
  | some name => name = "." || name = ".."
  | none => false

/-- Drop files; with `r`, also directories, and with `f`, without a word about missing ones. -/
def rm : Utility := fun arguments =>
  let (options, paths) := splitOptions arguments
  let force := options.contains 'f'
  let recursive := options.contains 'r' || options.contains 'R'
  let complaint (path : String) (error : OsError) : String :=
    "rm: cannot remove " ++ inQuotes path ++ ": " ++ error.reason
  if paths.isEmpty && !force then do
    complain "rm: missing operand"
    complain "Try 'rm --help' for more information."
    pure 1
  else
    forEach (fun path => do
      let state ← Eval.get
      match state.tree.lookup false ⟨path⟩ with
      | .error error =>
        if force then pure 0
        else
          complain (complaint path error)
          pure 1
      | .ok (_, .directory) =>
        if !recursive then
          complain (complaint path .isDirectory)
          pure 1
        else if endsInDots path then
          complain ("rm: refusing to remove '.' or '..' directory: skipping " ++ inQuotes path)
          pure 1
        else changingPartly (·.removeAll ⟨path⟩) (complaint path)
      | .ok _ => changing (·.removeFile ⟨path⟩) (complaint path)) paths

/-- Make files that are missing. -/
def touch : Utility := fun arguments =>
  forEach (fun path => do
    let state ← Eval.get
    if state.tree.pathExists ⟨path⟩ then pure 0
    else
      changing (·.append ⟨path⟩ ByteArray.empty) fun error =>
        "touch: cannot touch " ++ inQuotes path ++ ": " ++ error.reason) (splitOptions arguments).2

/-- Where an entry goes: into a directory, under its own name, or to the place itself. -/
def destination (tree : FileTree) (source target : String) : String :=
  if tree.isDirectory ⟨target⟩ then
    let name := (Path.fileName? ⟨source⟩).getD source
    if target.endsWith "/" then target ++ name else target ++ "/" ++ name
  else target

/-- The tree with a copy of an entry and everything below it. -/
def copyEntry (tree : FileTree) (source target : Path) : Except OsError FileTree :=
  match tree.lookup true source with
  | .error error => .error error
  | .ok (_, .file content) => tree.write target content
  | .ok (_, .link _) => .error .notFound
  | .ok (location, .directory) => do
      let made ← if tree.isDirectory target then .ok tree else tree.createDirectory target
      let place ← made.locate true target
      pure ((tree.descendants location).foldl (fun tree (below, entry) =>
        match entry, tree.entry? (place ++ below) with
        | .directory, some .directory => tree
        | _, _ => tree.insert (place ++ below) entry) made)

/-- Copy files; with `r`, also directories. -/
def cp : Utility := fun arguments =>
  let (options, paths) := splitOptions arguments
  let recursive := options.any fun c => c = 'r' || c = 'R' || c = 'a'
  match paths.reverse with
  | target :: source :: others =>
    forEach (fun source => do
      let state ← Eval.get
      let place := destination state.tree source target
      match state.tree.lookup true ⟨source⟩ with
      | .error error =>
        complain ("cp: cannot stat " ++ inQuotes source ++ ": " ++ error.reason)
        pure 1
      | .ok (_, .directory) =>
        if recursive then
          changing (copyEntry · ⟨source⟩ ⟨place⟩) fun error =>
            "cp: cannot create directory " ++ inQuotes place ++ ": " ++ error.reason
        else
          complain ("cp: -r not specified; omitting directory " ++ inQuotes source)
          pure 1
      | .ok _ =>
        changing (copyEntry · ⟨source⟩ ⟨place⟩) fun error =>
          "cp: cannot create regular file " ++ inQuotes place ++ ": " ++ error.reason)
      (source :: others).reverse
  | _ => do
      complain "cp: missing file operand"
      complain "Try 'cp --help' for more information."
      pure 1

/-- Move files and directories. -/
def mv : Utility := fun arguments =>
  match (splitOptions arguments).2.reverse with
  | target :: source :: others =>
    forEach (fun source => do
      let state ← Eval.get
      let place := destination state.tree source target
      match state.tree.lookup false ⟨source⟩ with
      | .error error =>
        complain ("mv: cannot stat " ++ inQuotes source ++ ": " ++ error.reason)
        pure 1
      | .ok _ =>
        changing (·.rename ⟨source⟩ ⟨place⟩) fun error =>
          "mv: cannot move " ++ inQuotes source ++ " to " ++ inQuotes place
            ++ ": " ++ error.reason)
      (source :: others).reverse
  | _ => do
      complain "mv: missing file operand"
      complain "Try 'mv --help' for more information."
      pure 1

/-- List directories. -/
def ls : Utility := fun arguments =>
  let (options, paths) := splitOptions arguments
  let all := options.contains 'a' || options.contains 'A'
  let special := if options.contains 'a' then [".", ".."] else []
  let paths := if paths.isEmpty then ["."] else paths
  forEach (fun path => do
    let state ← Eval.get
    match state.tree.lookup true ⟨path⟩ with
    | .error error =>
      complain ("ls: cannot access " ++ inQuotes path ++ ": " ++ error.reason)
      pure 2
    | .ok (location, .directory) =>
      let names := special
        ++ (state.tree.childNames location).filter fun n => all || !n.startsWith "."
      if 1 < paths.length then print (path ++ ":\n")
      print (String.join ((names.mergeSort fun a b => a ≤ b).map (· ++ "\n")))
      pure 0
    | .ok _ =>
      print (path ++ "\n")
      pure 0) paths

/-- The nanoseconds of a written number of seconds, with a unit at its end. -/
def sleepTime? (text : String) : Option Nat :=
  let (number, unit) := match text.toList.reverse with
    | 's' :: rest => (rest.reverse, 1)
    | 'm' :: rest => (rest.reverse, 60)
    | 'h' :: rest => (rest.reverse, 3600)
    | 'd' :: rest => (rest.reverse, 86400)
    | _ => (text.toList, 1)
  let whole := number.takeWhile Char.isDigit
  let value (digits : List Char) : Nat := digits.foldl (fun n c => n * 10 + (c.toNat - '0'.toNat)) 0
  match number.drop whole.length with
  | [] => if whole.isEmpty then none else some (value whole * unit * 1000000000)
  | '.' :: fraction =>
    if fraction.all Char.isDigit && !(whole.isEmpty && fraction.isEmpty) then
      let nine := (fraction ++ List.replicate 9 '0').take 9
      some ((value whole * 1000000000 + value nine) * unit)
    else none
  | _ => none

/-- Wait. -/
def sleep : Utility := fun arguments =>
  match arguments.mapM sleepTime?, arguments with
  | _, [] => do
      complain "sleep: missing operand"
      complain "Try 'sleep --help' for more information."
      pure 1
  | some times, _ => do
      wait (times.foldl (· + ·) 0)
      pure 0
  | none, _ => do
      complain ("sleep: invalid time interval "
        ++ inQuotes ((arguments.find? fun a => (sleepTime? a).isNone).getD ""))
      complain "Try 'sleep --help' for more information."
      pure 1

/-- The lines of a content, each without its end. -/
def contentLines (content : ByteArray) : List String :=
  let lines := (Text.decodeLossy content).splitOn "\n"
  if lines.getLast? = some "" then lines.dropLast else lines

/-- How many lines are asked for, and the other arguments. -/
def lineCount : List String → Nat × List String
  | "-n" :: count :: rest => (count.toNat?.getD 10, rest)
  | first :: rest =>
    if first.startsWith "-n" then ((String.ofList (first.toList.drop 2)).toNat?.getD 10, rest)
    else
      match (String.ofList (first.toList.drop 1)).toNat? with
      | some count => if first.startsWith "-" then (count, rest) else (10, first :: rest)
      | none => (10, first :: rest)
  | [] => (10, [])

/-- Print lines. -/
def printLines (lines : List String) : Eval Unit := print (String.join (lines.map (· ++ "\n")))

/-- Print the first lines of files. -/
def head : Utility := fun arguments =>
  let (count, paths) := lineCount arguments
  forContents "head" (fun content => printLines ((contentLines content).take count)) paths

/-- Print the last lines of files. -/
def tail : Utility := fun arguments =>
  let (count, paths) := lineCount arguments
  forContents "tail" (fun content =>
    let lines := contentLines content
    printLines (lines.drop (lines.length - count))) paths

/-- Lines in order; with `r` in reverse, and with `u` each once. -/
def sort : Utility := fun arguments =>
  let (options, paths) := splitOptions arguments
  forContents "sort" (fun content =>
    let lines := (contentLines content).mergeSort fun a b => a ≤ b
    let lines := if options.contains 'u' then lines.eraseDups else lines
    printLines (if options.contains 'r' then lines.reverse else lines)) paths

/-- The number of lines, words and bytes. -/
def wc : Utility := fun arguments =>
  let (options, paths) := splitOptions arguments
  let count (content : ByteArray) : Nat :=
    if options.contains 'l' then content.toList.count 10
    else if options.contains 'w' then
      ((Text.decodeLossy content).toList.splitBy fun a b => a.isWhitespace == b.isWhitespace).filter
        (fun part => part.any fun c => !c.isWhitespace) |>.length
    else content.size
  match paths with
  | [] => forContents "wc" (fun content => print (toString (count content) ++ "\n")) []
  | paths =>
    forEach (fun path =>
      forContents "wc"
        (fun content => print (toString (count content) ++ " " ++ path ++ "\n")) [path])
      paths

/-- Write the input to files and to the output. -/
def tee : Utility := fun arguments =>
  let (options, paths) := splitOptions arguments
  do
    let content ← contentOf "-"
    match content with
    | .error _ => pure 1
    | .ok content =>
      printBytes content
      forEach (fun path =>
        changing (fun tree =>
            if options.contains 'a' then tree.append ⟨path⟩ content
            else tree.write ⟨path⟩ content)
          fun error => "tee: " ++ path ++ ": " ++ error.reason) paths

/-- Print numbers, from the first in steps up to the last. -/
def seq : Utility := fun arguments => do
  match arguments.mapM String.toNat? with
  | some [last] => printLines ((List.range last).map fun n => toString (n + 1))
  | some [first, last] =>
    printLines ((List.range (last + 1 - first)).map fun n => toString (first + n))
  | some [first, step, last] =>
    if step ≠ 0 then
      printLines
        ((List.range ((last + step - first) / step)).map fun n => toString (first + n * step))
  | _ => complain "seq: missing operand"
  pure 0

/-- The utility of a name. -/
def utility? : String → Option Utility
  | "cat" => some cat
  | "mkdir" => some mkdir
  | "rm" => some rm
  | "touch" => some touch
  | "cp" => some cp
  | "mv" => some mv
  | "ls" => some ls
  | "sleep" => some sleep
  | "head" => some head
  | "tail" => some tail
  | "sort" => some sort
  | "wc" => some wc
  | "tee" => some tee
  | "seq" => some seq
  | _ => none

end BuildMatrix.Shell
