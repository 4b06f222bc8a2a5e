/-!
# The shell language

Commands of tasks are written in the shell language, of which this is a part. A command line is made
of words; a word is made of pieces, which are plain text or stand for something else: the value of a
parameter, the output of a command, the value of an arithmetic expression. Whether a piece is quoted
decides if its value is split into several words and used as a pattern of file names.
-/

namespace BuildMatrix.Shell

/-- What a redirection does. -/
inductive RedirectionKind where
  | read
  | write
  | append
  /-- Use another descriptor, by its number. -/
  | duplicate
  deriving DecidableEq, Inhabited, Repr

mutual

/-- A **piece of a word**. -/
inductive Piece where
  | text (value : String) (quoted : Bool)
  /-- The value of a parameter; another word if it is not set, or, with `true`, is empty. -/
  | parameter (name : String) (otherwise : Option (Bool × List Piece)) (quoted : Bool)
  | substitution (body : Script) (quoted : Bool)
  | arithmetic (expression : List Piece) (quoted : Bool)

/-- Where a command **reads from or writes to**. -/
inductive Redirection where
  | mk (descriptor : Nat) (kind : RedirectionKind) (target : List Piece)

/-- **Commands** and how they are combined. -/
inductive Script where
  | nothing
  /-- Assignments, words and redirections, on a line of the script. -/
  | simple (assignments : List (String × List Piece)) (words : List (List Piece))
      (redirections : List Redirection) (line : Nat)
  | redirected (body : Script) (redirections : List Redirection)
  | subshell (body : Script)
  | pipeline (first second : Script)
  | negated (body : Script)
  | both (first second : Script)
  | either (first second : Script)
  | sequence (first second : Script)
  | background (body : Script)
  | conditional (test body other : Script)
  /-- Repeat a body while a test succeeds, or until it does. -/
  | repeated (untilSuccess : Bool) (test body : Script)
  | each (name : String) (items : List (List Piece)) (body : Script)

end

instance : Inhabited Script := ⟨.nothing⟩

end BuildMatrix.Shell
