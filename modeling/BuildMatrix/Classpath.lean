import BuildMatrix.Perform
import BuildMatrix.TaskResult

/-!
# Classpath tasks

A classpath task collects the classes and jars of the tasks below it and writes their paths to a
file, one a line.
-/

namespace BuildMatrix.Classpath

def fileName : String := "classpath.txt"

/-- One entry a line. -/
def text (entries : List Path) : String := "\n".intercalate (entries.map (·.text))

def job (name : TaskName) (place : Place) (dependencies : List TaskResult) : Job Output := do
  let entries := TaskResult.classpath dependencies
  let file := (place.ownDir name).child fileName
  let configuration := Environment.ofList [("entries", text entries)]
  let execution ← place.cached name.text configuration entries do
    Job.writeFile file (text entries).toUTF8
    return [file]
  return .classpath entries (execution.outputs.headD file)

end BuildMatrix.Classpath
