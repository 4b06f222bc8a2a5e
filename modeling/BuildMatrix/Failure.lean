import BuildMatrix.Duration
import BuildMatrix.Output
import BuildMatrix.TaskName

/-!
# How tasks fail
-/

namespace BuildMatrix

/-- What can go wrong with the **cache**. -/
inductive CacheError where
  | io (reason : String)
  /-- A record that cannot be written as JSON. -/
  | json
  /-- A directory that cannot be listed. -/
  | walk
  deriving DecidableEq, Inhabited, Repr

namespace CacheError

/-- The **wording** of a cache error. -/
def message : CacheError → String
  | io reason => s!"Cache IO error: {reason}"
  | json => "Cache serialization error"
  | walk => "Cache input walk error"

/-- The error of the operating system **behind** one of the cache. -/
def source? : CacheError → Option String
  | io reason => some reason
  | _ => none

end CacheError

/-- Why a **task failed**. -/
inductive Failure where
  /-- A task needs one output of a variant from its dependencies and found another number. -/
  | unexpectedDependencies (variant : Variant) (found : Nat)
  /-- A command ended with a code, or by a signal, with the last lines of its errors. -/
  | commandFailed (code : Option Int) (stderr : String)
  | timeout (limit : Duration)
  | spawn (command reason : String)
  | io (reason : String)
  | cache (error : CacheError)
  | cancelled
  | panicked (reason : String)
  /-- A failure of another kind, in its own words. -/
  | custom (text : String)
  deriving DecidableEq, Inhabited, Repr

namespace Failure

/-- How a command ended, in words. -/
def exitLabel : Option Int → String
  | some code => s!"code {code}"
  | none => "a signal"

/-- The **wording** of a failure. -/
def message : Failure → String
  | unexpectedDependencies variant found =>
    "expected exactly one " ++ variant.name ++ s!" among dependency results, found {found}"
  | commandFailed code stderr => "command exited with " ++ exitLabel code ++ ": " ++ stderr
  | timeout limit => "command timed out after " ++ limit.text
  | spawn command reason => s!"failed to spawn '{command}': {reason}"
  | io reason => s!"IO error: {reason}"
  | cache error => error.message
  | cancelled => "cancelled"
  | panicked reason => s!"task panicked: {reason}"
  | custom text => text

/-- The error of the operating system **behind** a failure. -/
def source? : Failure → Option String
  | spawn _ reason => some reason
  | io reason => some reason
  | cache error => error.source?
  | _ => none

end Failure

/-- Why a **build** did not succeed. -/
inductive BuildError where
  | cancelled
  | taskFailed (task : TaskName) (failure : Failure)
  deriving DecidableEq, Inhabited, Repr

/-- The **wording** of a build error. -/
def BuildError.message : BuildError → String
  | cancelled => "build cancelled"
  | taskFailed task failure => "task " ++ task.text ++ " failed: " ++ failure.message

end BuildMatrix
