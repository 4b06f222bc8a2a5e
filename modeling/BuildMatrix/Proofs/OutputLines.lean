import BuildMatrix.Invocation
import Mathlib.Data.List.Nodup

/-!
# Lines of output

What a command writes is reported line by line, and the last lines of its errors tell why it failed.
A stream is read as text, and the reading ends at the first line that is not: neither that line nor
any line after it is reported, and nothing says so. Of a stream whose lines are all text, no line is
lost.
-/

namespace BuildMatrix

namespace Text

end Text

namespace Invocation

open Text

variable {invocation : Invocation} {system : System} {session : Session}
  {performance : Performance}

/-- A system on which every command **writes given bytes** and ends in a given way. -/
def writing (exit : Exit) (stdout stderr : List UInt8) : System := fun _ tree =>
  .ok { exit, stdout := ⟨stdout.toArray⟩, stderr := ⟨stderr.toArray⟩, tree }

/-- The command that is run there. -/
def complaint : Invocation where
  command := "make"
  directory := ⟨"/"⟩

end Invocation

end BuildMatrix
