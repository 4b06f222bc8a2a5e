import BuildMatrix.Config.Error
import BuildMatrix.Failure
import BuildMatrix.Graph.Basic

/-!
# Why a command of the tool fails

A command of the tool fails for a cause, which may have causes of its own, and on its way out the
failure may pass places that say what was being done: its *contexts*. Together they are the *chain*
of the failure, from the outside in. The message has the wording of each link, and the exit code is
that of the first link that has one.
-/

namespace BuildMatrix

/-- **What went wrong.** -/
inductive Cause where
  | project (error : ProjectError)
  | config (error : ConfigError)
  | model (error : ModelError)
  | graph (error : GraphError)
  | build (error : BuildError)
  | task (failure : Failure)
  | cache (error : CacheError)
  /-- An error of the operating system. -/
  | io (reason : String)
  /-- An error in its own words. -/
  | other (reason : String)
  deriving DecidableEq, Inhabited, Repr

/-- The exit code for a request that was answered. -/
def exitSuccess : Nat := 0

/-- The exit code for a task that failed, or another failure while running. -/
def exitError : Nat := 1

/-- The exit code for a project file or a task graph that is not valid. -/
def exitInvalid : Nat := 2

/-- The exit code for a build that was asked to stop. -/
def exitCancelled : Nat := 130

namespace Cause

/-- The **wording** of a cause. -/
def message : Cause → String
  | project error => error.message
  | config error => error.message
  | model error => error.message
  | graph error => error.message
  | build error => error.message
  | task failure => failure.message
  | cache error => error.message
  | io reason => reason
  | other reason => reason

/-- The **causes behind** a cause, nearest first. An error that only passes on another one has the
causes behind the other. -/
def sources : Cause → List Cause
  | project (.config error) => error.source?.toList.map io
  | project (.io reason) => [io reason]
  | project (.toml reason) => [other reason]
  | project (.json reason) => [other reason]
  | config error => error.source?.toList.map io
  | build (.taskFailed _ failure) => task failure :: failure.source?.toList.map io
  | task failure => failure.source?.toList.map io
  | cache error => error.source?.toList.map io
  | _ => []

/-- The **exit code that a cause asks for**, by what it is an error of. -/
def exitCode? : Cause → Option Nat
  | build .cancelled => some exitCancelled
  | build (.taskFailed _ _) => some exitError
  | graph _ => some exitInvalid
  | config _ => some exitInvalid
  | model _ => some exitInvalid
  | project (.io _) => none
  | project (.other _) => none
  | project _ => some exitInvalid
  | _ => none

end Cause

/-- A **link** of the chain of a failure. -/
inductive Link where
  /-- What was being done. -/
  | context (text : String)
  | cause (cause : Cause)
  deriving DecidableEq, Inhabited, Repr

namespace Link

/-- The **wording** of a link. -/
def message : Link → String
  | context text => text
  | cause error => error.message

/-- The exit code that a link asks for: contexts ask for none. -/
def exitCode? : Link → Option Nat
  | context _ => none
  | cause error => error.exitCode?

end Link

/-- A cause with its **contexts**, the innermost first. -/
structure Fault where
  cause : Cause
  contexts : List String := []
  deriving DecidableEq, Inhabited, Repr

namespace Fault

/-- A fault in one more **context**. -/
def within (fault : Fault) (context : String) : Fault :=
  { fault with contexts := fault.contexts ++ [context] }

/-- The **chain** of a fault: its contexts from the outside in, its cause, and what is behind it. -/
def chain (fault : Fault) : List Link :=
  fault.contexts.reverse.map .context ++ (fault.cause :: fault.cause.sources).map .cause

/-- The **message**: all links of the chain. -/
def message (fault : Fault) : String :=
  ": ".intercalate (fault.chain.map Link.message)

/-- The **exit code**: that of the first link that asks for one. -/
def exitCode (fault : Fault) : Nat :=
  (fault.chain.findSome? Link.exitCode?).getD exitError

end Fault

end BuildMatrix
