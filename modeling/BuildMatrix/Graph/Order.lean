import BuildMatrix.Graph.Basic
import BuildMatrix.TaskTable

/-!
# Orders of dependencies

Given the tasks in registration order and what each depends on, this module finds an order in which
every task stands after its dependencies, or else a cycle. Tasks without dependencies come first;
each task that is taken lowers the count of open dependencies of the tasks that wait for it, and a
task whose count reaches zero joins the end of the queue.

Where some tasks are never taken, each of those has a dependency that was never taken either, so
that following such dependencies comes back to a task it has passed: a cycle.
-/

namespace BuildMatrix

/-- Names in registration order, each with **what it depends on**. -/
abbrev Dependencies := List (TaskName × List TaskName)

namespace Dependencies

def of (deps : Dependencies) (name : TaskName) : List TaskName :=
  match deps with
  | [] => []
  | (key, targets) :: rest => if key = name then targets else of rest name

/-- The names that depend on a name, in registration order. -/
def dependents (deps : Dependencies) (name : TaskName) : List TaskName :=
  (deps.filter fun e => e.2.contains name).map (·.1)

/-! ### Sorting -/

/-- How many dependencies are left. -/
abbrev Counts := TaskTable Nat

/-- Lower the count of a name by one, and say whether it is now zero. -/
def lower (name : TaskName) : Counts → Counts × Bool
  | [] => ([], false)
  | (key, count) :: rest =>
    if key = name then ((key, count - 1) :: rest, count - 1 == 0)
    else
      let (rest, zero) := lower name rest
      ((key, count) :: rest, zero)

/-- Lower the counts of names; those that reach zero join the end of the queue. -/
def release : List TaskName → Counts → List TaskName → Counts × List TaskName
  | [], counts, queue => (counts, queue)
  | name :: rest, counts, queue =>
    let (counts, zero) := lower name counts
    release rest counts (if zero then queue ++ [name] else queue)

/-- Take names from the queue until it is empty, at most `fuel` of them. -/
def drain (deps : Dependencies) : Nat → Counts → List TaskName → List TaskName
  | 0, _, _ => []
  | _ + 1, _, [] => []
  | fuel + 1, counts, name :: queue =>
    let (counts, queue) := release (deps.dependents name) counts queue
    name :: drain deps fuel counts queue

/-- The **order** of the names that can be taken. -/
def sort (deps : Dependencies) : List TaskName :=
  let counts := deps.map fun e => (e.1, e.2.length)
  let queue := (deps.filter fun e => e.2.isEmpty).map (·.1)
  drain deps deps.length counts queue

/-! ### Cycles -/

/-- Follow dependencies among the names that were left from a name on, until one comes back;
`path` holds the names passed. -/
def follow (deps : Dependencies) (sorted : List TaskName) :
    Nat → List TaskName → TaskName → List TaskName
  | 0, path, _ => path
  | fuel + 1, path, current =>
    if path.contains current then path.dropWhile (· != current)
    else
      match (deps.of current).find? fun d => !sorted.contains d with
      | some next => follow deps sorted fuel (path ++ [current]) next
      | none => path ++ [current]

/-- A **cycle** among the names that are not in an order. -/
def cycle (deps : Dependencies) (sorted : List TaskName) : List TaskName :=
  match (deps.map (·.1)).find? fun name => !sorted.contains name with
  | some start => follow deps sorted (deps.length + 1) [] start
  | none => []

/-! ### Waves -/

/-- The wave of a task whose dependencies are in a table: one more than the largest of theirs. -/
def nextWave (table : TaskTable Nat) (targets : List TaskName) : Nat :=
  (targets.filterMap fun d => table.get? d).foldl (fun wave w => max wave (w + 1)) 0

/-- The **waves** of the names of an order, the last name first. -/
def waveTable (deps : Dependencies) (sorted : List TaskName) : TaskTable Nat :=
  sorted.foldl (fun table name => (name, nextWave table (deps.of name)) :: table) []

end Dependencies

end BuildMatrix
