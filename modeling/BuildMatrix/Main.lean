import BuildMatrix.Cli.Run
import BuildMatrix.Json.Parser
import BuildMatrix.Rehearsal.Files
import BuildMatrix.Shell.System

/-!
# The command line program

The program works on a file tree that it reads from its input, as a JSON object from paths to
contents; the current directory is the root of the tree. Its arguments are the command line of the
tool, and commands are run by a shell on the tree.
-/

open BuildMatrix

/-- Read a stream to its end, after a text that was read before. -/
partial def readToEnd (stream : IO.FS.Stream) (before : String) : IO String := do
  let line ← stream.getLine
  if line.isEmpty then return before else readToEnd stream (before ++ line)

/-- Answer the arguments, write what the caller sees, and end with the exit code. -/
def main (arguments : List String) : IO UInt32 := do
  let text ← readToEnd (← IO.getStdin) ""
  let files := (Json.parse? text).getD (.obj [])
  let session : Session := { tree := FileTree.empty.plantAll files, now := ⟨0⟩ }
  let (answer, _) := Cli.run Shell.system arguments session
  IO.print answer.stdout
  IO.eprint answer.stderr
  return UInt32.ofNat answer.exitCode
