/-!
# Arithmetic of the shell

Integer expressions as in the shell's `$((…))`: numbers, variables, and the usual operators with the
usual precedence. Values have 64 bits and wrap around.
-/

namespace BuildMatrix.Shell.Arithmetic

/-- The operators between two expressions. -/
inductive Operator where
  | or | and | equal | differ | less | greater | lessEqual | greaterEqual
  | add | subtract | multiply | divide | remainder
  deriving DecidableEq, Inhabited, Repr

/-- An **expression**. -/
inductive Expression where
  | number (value : Int64)
  | named (name : String)
  | negate (operand : Expression)
  | not (operand : Expression)
  | binary (operator : Operator) (left right : Expression)
  deriving Inhabited, Repr

/-- What can be **wrong** with an expression. -/
inductive Error where
  | expectingPrimary
  | expectingEnd
  | divisionByZero
  deriving DecidableEq, Inhabited, Repr

/-- An error in words. -/
def Error.message (error : Error) (text : String) : String :=
  let reason := match error with
    | expectingPrimary => "expecting primary"
    | expectingEnd => "expecting EOF"
    | divisionByZero => "division by zero"
  s!"arithmetic expression: {reason}: \"{text}\""

/-! ### Reading -/

/-- Without leading blanks. -/
def skip (text : List Char) : List Char := text.dropWhile fun c => c = ' ' || c = '\t' || c = '\n'

/-- The spellings of the operators with their precedence, longer spellings first. -/
def operators : List (List Char × Operator × Nat) := [
  (['|', '|'], .or, 1), (['&', '&'], .and, 2), (['=', '='], .equal, 6), (['!', '='], .differ, 6),
  (['<', '='], .lessEqual, 7), (['>', '='], .greaterEqual, 7), (['<'], .less, 7),
  (['>'], .greater, 7), (['+'], .add, 9), (['-'], .subtract, 9), (['*'], .multiply, 10),
  (['/'], .divide, 10), (['%'], .remainder, 10)]

/-- The operator at the start with its precedence, and the rest. -/
def operator? (text : List Char) : Option (Operator × Nat × List Char) :=
  operators.findSome? fun (spelling, operator, precedence) =>
    if spelling.isPrefixOf text then some (operator, precedence, text.drop spelling.length)
    else none

/-- The number at the start of a text that starts with a digit. -/
def number (text : List Char) : Int64 × List Char :=
  let digits := text.takeWhile Char.isDigit
  let value := digits.foldl (fun n c => n * 10 + (c.toNat - '0'.toNat)) 0
  (Int64.ofNat value, text.drop digits.length)

mutual

/-- An expression of operators of at least some precedence. -/
def readBinary : Nat → Nat → List Char → Except Error (Expression × List Char)
  | 0, _, _ => .error .expectingPrimary
  | fuel + 1, precedence, text => do
      let (left, rest) ← readUnary fuel text
      readOperators fuel precedence left rest

/-- The operators of at least some precedence after an expression. -/
def readOperators : Nat → Nat → Expression → List Char → Except Error (Expression × List Char)
  | 0, _, _, _ => .error .expectingPrimary
  | fuel + 1, precedence, left, text =>
    match operator? (skip text) with
    | some (operator, level, rest) =>
      if level < precedence then .ok (left, skip text)
      else do
        let (right, rest) ← readBinary fuel (level + 1) rest
        readOperators fuel precedence (.binary operator left right) rest
    | none => .ok (left, skip text)

/-- An expression without operators between others. -/
def readUnary : Nat → List Char → Except Error (Expression × List Char)
  | 0, _ => .error .expectingPrimary
  | fuel + 1, text =>
    match skip text with
    | '-' :: rest => do
        let (operand, rest) ← readUnary fuel rest
        pure (.negate operand, rest)
    | '+' :: rest => readUnary fuel rest
    | '!' :: rest => do
        let (operand, rest) ← readUnary fuel rest
        pure (.not operand, rest)
    | '(' :: rest => do
        let (inner, rest) ← readBinary fuel 1 rest
        match skip rest with
        | ')' :: rest => pure (inner, rest)
        | _ => .error .expectingPrimary
    | c :: rest =>
      if c.isDigit then
        let (value, rest) := number (c :: rest)
        .ok (.number value, rest)
      else if c.isAlpha || c = '_' then
        let name := String.ofList ((c :: rest).takeWhile fun c => c.isAlphanum || c = '_')
        .ok (.named name, (c :: rest).drop name.length)
      else .error .expectingPrimary
    | [] => .error .expectingPrimary

end

/-- The **expression of a text**; an empty text is zero. -/
def parse (text : String) : Except Error Expression :=
  let chars := text.toList
  if (skip chars).isEmpty then .ok (.number 0)
  else do
    let (expression, rest) ← readBinary (4 * chars.length + 8) 1 chars
    if (skip rest).isEmpty then pure expression else .error .expectingEnd

/-! ### Values -/

/-- The number of a truth value. -/
def ofBool (value : Bool) : Int64 := if value then 1 else 0

/-- The value of an operation. -/
def Operator.apply (operator : Operator) (a b : Int64) : Except Error Int64 :=
  match operator with
  | or => .ok (ofBool (a != 0 || b != 0))
  | and => .ok (ofBool (a != 0 && b != 0))
  | equal => .ok (ofBool (a == b))
  | differ => .ok (ofBool (a != b))
  | less => .ok (ofBool (a < b))
  | greater => .ok (ofBool (b < a))
  | lessEqual => .ok (ofBool (a ≤ b))
  | greaterEqual => .ok (ofBool (b ≤ a))
  | add => .ok (a + b)
  | subtract => .ok (a - b)
  | multiply => .ok (a * b)
  | divide => if b = 0 then .error .divisionByZero else .ok (a / b)
  | remainder => if b = 0 then .error .divisionByZero else .ok (a % b)

/-- The value of a variable's text: a number with a sign, zero where it is none. -/
def valueOf (text : String) : Int64 :=
  match skip text.toList with
  | '-' :: rest => -(number rest).1
  | '+' :: rest => (number rest).1
  | chars => (number chars).1

/-- The **value** of an expression; `lookup` gives the values of variables. -/
def Expression.eval (lookup : String → String) : Expression → Except Error Int64
  | number value => .ok value
  | named name => .ok (valueOf (lookup name))
  | negate operand => (operand.eval lookup).map (-·)
  | not operand => (operand.eval lookup).map fun value => ofBool (value == 0)
  | binary operator left right => do
      let a ← left.eval lookup
      if operator = .or && a != 0 then pure 1
      else if operator = .and && a == 0 then pure 0
      else
        let b ← right.eval lookup
        operator.apply a b

end BuildMatrix.Shell.Arithmetic
