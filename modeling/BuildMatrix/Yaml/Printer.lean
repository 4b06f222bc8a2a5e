import BuildMatrix.Json.Basic
import BuildMatrix.Yaml.Basic

/-!
# Writing YAML

A value as a YAML document in block style: one entry or item a line, two blanks for each level of
mappings, and the items of a sequence at the level of its key. An empty collection is written as a
flow collection. A text is written plainly if it reads back as that text, and in quotes otherwise.
-/

namespace BuildMatrix.Yaml

/-- Texts that a plain scalar would not be read back as: missing values, flags and numbers. -/
def readsAsOther (text : String) : Bool :=
  text = "" || isNull text || (flagOf? text).isSome
    || (text.toList.all fun c => c.isDigit || c = '.' || c = '+' || c = '-' || c = 'e' || c = '_')

/-- What starts something other than a text. -/
def startsOther (c : Char) : Bool :=
  ['#', ',', '[', ']', '\x7b', '\x7d', '&', '*', '!', '|', '>', '\'', '"', '%', '@', '`'].contains c

def isBlankChar (c : Char) : Bool := c = ' ' || c = '\t'

/-- Whether the rest of a scalar can stand without quotes; `afterBlank` says whether a blank stands
before it. A colon must not stand before a blank or at the end, and a hash sign not after a
blank. -/
def isPlainRest (afterBlank : Bool) : List Char → Bool
  | [] => true
  | c :: rest =>
    c.toNat ≥ 32 && c.toNat ≠ 127
      && !(c = ':' && rest.head?.all isBlankChar)
      && !(c = '#' && afterBlank)
      && isPlainRest (isBlankChar c) rest

/-- Texts that are **written without quotes**. -/
def isPlainText (text : String) : Bool :=
  let chars := text.toList
  match chars with
  | [] => false
  | first :: rest =>
    !readsAsOther text
      && !startsOther first && !isBlankChar first && !chars.getLast?.any isBlankChar
      && !((first = '-' || first = '?') && rest.head?.all isBlankChar)
      && !(text.startsWith "---") && !(text.startsWith "...")
      && isPlainRest true chars

/-- A text as a scalar: plain, or in single quotes with inner quotes doubled. -/
def scalarText (text : String) : String :=
  if isPlainText text then text
  else
    "'" ++ String.ofList (text.toList.flatMap fun c => if c = '\'' then ['\'', '\''] else [c])
      ++ "'"

/-- A value that fits on the line of its key. -/
def inline? : Json → Option String
  | .null => some "null"
  | .bool true => some "true"
  | .bool false => some "false"
  | .int value => some (toString value)
  | .real spelling => some spelling
  | .str value => some (scalarText value)
  | .arr [] => some "[]"
  | .obj [] => some "\x7b\x7d"
  | _ => none

def margin (level : Nat) : String := String.ofList (List.replicate (2 * level) ' ')

mutual

def lines (level : Nat) : Json → List String
  | .arr items => itemLines level items
  | .obj members => memberLines level members
  | value => [margin level ++ (inline? value).getD ""]

/-- The lines of the items of a sequence; the mark of an item stands in the margin of its first
line. -/
def itemLines (level : Nat) : List Json → List String
  | [] => []
  | item :: rest =>
    let own := match inline? item with
      | some text => [margin level ++ "- " ++ text]
      | none =>
        match lines (level + 1) item with
        | [] => []
        | first :: others =>
          (margin level ++ "- " ++ String.ofList (first.toList.drop (2 * (level + 1))))
            :: others
    own ++ itemLines level rest

def memberLines (level : Nat) : List (String × Json) → List String
  | [] => []
  | (name, value) :: rest =>
    let key := margin level ++ scalarText name ++ ":"
    let own := match inline? value with
      | some text => [key ++ " " ++ text]
      | none =>
        key :: match value with
          | .arr items => itemLines level items
          | value => lines (level + 1) value
    own ++ memberLines level rest

end

/-- A value **as a document** in block style. -/
def block (value : Json) : String :=
  String.join ((lines 0 value).map (· ++ "\n"))

end BuildMatrix.Yaml
