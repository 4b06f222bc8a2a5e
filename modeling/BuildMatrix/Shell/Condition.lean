import BuildMatrix.Shell.State

/-!
# Conditions of the shell

The conditions of `test` and `[`: on files, on texts and on numbers, which may be negated.
-/

namespace BuildMatrix.Shell

/-- The number that a text stands for in a condition. -/
def conditionNumber (text : String) : Except String Int :=
  let digits (chars : List Char) : Option Nat :=
    if !chars.isEmpty && chars.all Char.isDigit then
      some (chars.foldl (fun n c => n * 10 + (c.toNat - '0'.toNat)) 0)
    else none
  let chars := (text.toList.dropWhile (· = ' ')).reverse.dropWhile (· = ' ') |>.reverse
  let value := match chars with
    | '-' :: rest => (digits rest).map fun n => -(n : Int)
    | '+' :: rest => (digits rest).map fun n => (n : Int)
    | chars => (digits chars).map fun n => (n : Int)
  match value with
  | some n => .ok n
  | none => .error ("Illegal number: " ++ text)

/-- The condition that one operator makes of its operand, if it is an operator. -/
def unary? (tree : FileTree) (operator operand : String) : Option Bool :=
  let path : Path := ⟨operand⟩
  match operator with
  | "-n" => some (operand ≠ "")
  | "-z" => some (operand = "")
  | "-e" => some (tree.pathExists path || operand = "/dev/null")
  | "-f" => some (tree.isFile path)
  | "-d" => some (tree.isDirectory path)
  | "-s" => some (match tree.lookup true path with
      | .ok (_, .file content) => content.size ≠ 0
      | .ok (_, .directory) => true
      | _ => false)
  | _ => none

/-- The condition that one operator makes of its operands, if it is an operator. -/
def binary? (left operator right : String) : Option (Except String Bool) :=
  let numbers (compare : Int → Int → Bool) : Except String Bool := do
    let a ← conditionNumber left
    let b ← conditionNumber right
    pure (compare a b)
  match operator with
  | "=" => some (.ok (left = right))
  | "!=" => some (.ok (left ≠ right))
  | "-eq" => some (numbers fun a b => a = b)
  | "-ne" => some (numbers fun a b => a ≠ b)
  | "-lt" => some (numbers fun a b => a < b)
  | "-le" => some (numbers fun a b => a ≤ b)
  | "-gt" => some (numbers fun a b => b < a)
  | "-ge" => some (numbers fun a b => b ≤ a)
  | _ => none

/-- The **truth of a condition**, or what is wrong with it. -/
def condition (tree : FileTree) : List String → Except String Bool
  | [] => .ok false
  | [word] => .ok (word ≠ "")
  | [operator, operand] =>
    if operator = "!" then .ok (operand = "")
    else
      match unary? tree operator operand with
      | some truth => .ok truth
      | none => .error (operator ++ ": unexpected operator")
  | left :: operator :: right :: rest =>
    match rest, binary? left operator right with
    | [], some truth => truth
    | rest, _ =>
      if left = "!" then (condition tree (operator :: right :: rest)).map (!·)
      else .error (left ++ ": unexpected operator")

end BuildMatrix.Shell
