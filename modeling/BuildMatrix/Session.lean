import BuildMatrix.Event
import BuildMatrix.Failure
import BuildMatrix.FileTree.Access
import BuildMatrix.Timestamp

/-!
# Work in a file tree

What tasks work on: a file tree, the time, what they have written and reused so far, and whether
they have been asked to stop. A *job* is a piece of work that changes these and ends with a value or
a failure; what it did before it failed stays done.
-/

namespace BuildMatrix

/-- What jobs **work on**. -/
structure Session where
  tree : FileTree
  now : Timestamp
  /-- Whether the work has been asked to stop. -/
  isStopping : Bool := false
  /-- The lines written so far. -/
  lines : List OutputLine := []
  /-- For each piece of work that went through the cache, whether it was found there. -/
  reuses : List Bool := []
  deriving DecidableEq

/-- A **piece of work**. -/
abbrev Job (α : Type) := Session → Except Failure α × Session

namespace Job

variable {α β : Type}

def done (value : α) : Job α := fun session => (.ok value, session)

def failed (failure : Failure) : Job α := fun session => (.error failure, session)

/-- One job and then another, which depends on the value of the first; if the first fails, the other
is not done. -/
def andThen (first : Job α) (next : α → Job β) : Job β := fun session =>
  match first session with
  | (.error failure, session) => (.error failure, session)
  | (.ok value, session) => next value session

instance : Monad Job where
  pure := done
  bind := andThen

def get : Job Session := fun session => (.ok session, session)

def modify (change : Session → Session) : Job Unit := fun session => (.ok (), change session)

def emit (text : String) (isStderr : Bool := false) : Job Unit :=
  modify fun session => { session with lines := session.lines ++ [{ text, isStderr }] }

def ofExcept : Except Failure α → Job α
  | .ok value => done value
  | .error failure => failed failure

def writeFile (path : Path) (content : ByteArray) : Job Unit := fun session =>
  match session.tree.write path content with
  | .ok tree => (.ok (), { session with tree })
  | .error error => (.error (.io error.message), session)

/-- Make a directory and the missing ones above it. -/
def createAll (path : Path) : Job Unit := fun session =>
  match session.tree.createAll path with
  | (.ok (), tree) => (.ok (), { session with tree })
  | (.error error, tree) => (.error (.io error.message), { session with tree })

end Job

end BuildMatrix
