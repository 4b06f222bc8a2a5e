import BuildMatrix.Cache.Basic
import BuildMatrix.Invocation
import BuildMatrix.Layout
import BuildMatrix.Schedule

/-!
# Performing tasks

A task is performed as a job with a directory of its own, which is made before it starts. The task
is up to date if it used the cache and found there everything it asked for.
-/

namespace BuildMatrix

/-- Where a task is **performed**, and what runs its commands. -/
structure Place where
  layout : Layout
  cache : Cache
  system : System

namespace Place

def ownDir (place : Place) (name : TaskName) : Path :=
  place.layout.tasksRoot.child name.outputDir

/-- Do a piece of work **through the cache**, and note whether it was found there. -/
def cached (place : Place) (identity : String) (configuration : Environment) (inputs : List Path)
    (body : Job (List Path)) : Job Execution := do
  let execution ← place.cache.execute identity configuration inputs body
  Job.modify fun session => { session with reuses := session.reuses ++ [execution.upToDate] }
  return execution

end Place

namespace Session

/-- Whether all calls found their record. -/
def isUpToDate (session : Session) : Bool := !session.reuses.isEmpty && session.reuses.all id

/-- **Perform** a job from a fresh start: its outcome and the lines it wrote. -/
def perform (session : Session) (job : Job Output) : Outcome × List OutputLine × Session :=
  match job { session with lines := [], reuses := [] } with
  | (.error failure, session) => (.error failure, session.lines, session)
  | (.ok output, session) =>
    (.ok { output, upToDate := session.isUpToDate }, session.lines, session)

end Session

end BuildMatrix
