import BuildMatrix.Failure
import BuildMatrix.TaskName

/-!
# Results of tasks

The result of a task is its output together with the results of its dependencies, so that a task
sees everything it was made from. A look-up may be direct, among the results of a task's own
dependencies, or transitive, along the walk over everything below them in which each task is visited
once.
-/

namespace BuildMatrix

/-- The **result of a task**, with the results of its dependencies in declaration order. -/
structure TaskResult where
  task : TaskName
  output : Output
  dependencies : List TaskResult
  deriving Inhabited

namespace TaskResult

/-! ### Direct look-ups -/

/-- The outputs of a variant. -/
def all (variant : Variant) (results : List TaskResult) : List Output :=
  (results.map (·.output)).filter (Output.isVariant variant)

/-- The one output of a variant, or none; several are a failure. -/
def findSingle (variant : Variant) (results : List TaskResult) : Except Failure (Option Output) :=
  match all variant results with
  | [] => .ok none
  | [output] => .ok (some output)
  | outputs => .error (.unexpectedDependencies variant outputs.length)

/-- The one output of a variant; none and several are failures. -/
def requireSingle (variant : Variant) (results : List TaskResult) : Except Failure Output :=
  match all variant results with
  | [output] => .ok output
  | outputs => .error (.unexpectedDependencies variant outputs.length)

def outputPaths (results : List TaskResult) : List Path :=
  results.flatMap fun r => r.output.paths

/-! ### Transitive look-ups -/

mutual

/-- Visit a result and then everything below it, depth first. `seen` holds the results
visited before, the last one first; a task that is among them is not visited again. -/
def visit : TaskResult → List TaskResult → List TaskResult
  | ⟨task, output, dependencies⟩, seen =>
    if seen.any fun r => r.task == task then seen
    else visitAll dependencies (⟨task, output, dependencies⟩ :: seen)

/-- Visit results that were not seen. -/
def visitAll : List TaskResult → List TaskResult → List TaskResult
  | [], seen => seen
  | result :: rest, seen => visitAll rest (visit result seen)

end

/-- The results and everything **below** them, each task once, in the order of the visit. -/
def reachable (results : List TaskResult) : List TaskResult :=
  (visitAll results []).reverse

/-- The outputs of a variant among results and everything below them. -/
def transitive (variant : Variant) (results : List TaskResult) : List Output :=
  all variant (reachable results)

/-- The entries of a **runtime classpath**: the classes of the dependencies, then all jars
below them, each path once. -/
def classpath (results : List TaskResult) : List Path :=
  Path.distinct
    ((all .classes results).flatMap Output.paths ++ (transitive .jar results).flatMap Output.paths)

end TaskResult

end BuildMatrix
