/-!
# Replacing parts of a text
-/

namespace BuildMatrix.Text

/-- The characters with every occurrence of a pattern replaced, from left to right; the first `skip`
characters belong to an occurrence that is already replaced. -/
def replaceFrom (pattern value : List Char) : Nat → List Char → List Char
  | _, [] => []
  | skip + 1, _ :: rest => replaceFrom pattern value skip rest
  | 0, c :: rest =>
    if pattern.isPrefixOf (c :: rest) then
      value ++ replaceFrom pattern value (pattern.length - 1) rest
    else c :: replaceFrom pattern value 0 rest

/-- The characters with every occurrence of a pattern replaced, from left to right. -/
def replaceChars (pattern value text : List Char) : List Char := replaceFrom pattern value 0 text

/-- A text with **every occurrence of a pattern replaced**, from left to right. -/
def replaceAll (pattern value text : String) : String :=
  String.ofList (replaceChars pattern.toList value.toList text.toList)

end BuildMatrix.Text
