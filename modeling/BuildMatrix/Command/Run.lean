import BuildMatrix.Command.Basic
import BuildMatrix.Glob.Expansion
import BuildMatrix.Perform

/-!
# Running command tasks

A command task runs its command through the cache. Its inputs are the files its patterns stand for,
or all files of its module, and the outputs of the tasks it depends on; what a build itself writes
is never an input. When the command has ended, the paths that match the declared patterns in the
output directory are its outputs, and there has to be at least one.
-/

namespace BuildMatrix.Command

/-- The regular files **below a directory**, in order, except those within some others; links are
not followed. -/
def moduleFiles (tree : FileTree) (dir : Path) (excluded : List Path) : List Path :=
  match tree.lookup true dir with
  | .ok (location, .directory) =>
    (tree.descendants location).filterMap fun (below, entry) =>
      let path := below.foldl Path.child dir
      match entry with
      | .file _ => if excluded.any path.within then none else some path
      | _ => none
  | _ => []

/-- The paths that patterns stand for from a directory on, before they are put in order. -/
def matching (tree : FileTree) (base : Path) : List String → Except Failure (List Path)
  | [] => .ok []
  | pattern :: rest =>
    match Glob.expand tree (base.join ⟨pattern⟩).text with
    | .error error =>
      .error (.custom ("invalid glob pattern '" ++ pattern ++ "': " ++ error.message))
    | .ok paths =>
      match matching tree base rest with
      | .error failure => .error failure
      | .ok others => .ok (paths ++ others)

/-- The **paths that patterns stand for** from a directory on, in order and each once. -/
def expandPatterns (tree : FileTree) (base : Path) (patterns : List String) :
    Except Failure (List Path) :=
  (matching tree base patterns).map fun paths => Path.distinct (Path.sorted paths)

/-- The **files a task reads**: those its patterns stand for, or all of its module. -/
def inputFiles (task : Command) (tree : FileTree) (layout : Layout) : Except Failure (List Path) :=
  let excluded := [layout.buildRoot, layout.cacheRoot]
  let files := if task.inputs.isEmpty then .ok (moduleFiles tree task.moduleDir excluded)
    else expandPatterns tree task.moduleDir task.inputs
  files.map fun paths => paths.filter fun path => tree.isFile path && !excluded.any path.within

/-- Paths in one text with colons between them; nothing if a path itself has one. -/
def joinedPaths (paths : List Path) : String :=
  if paths.any fun path => path.text.toList.contains ':' then ""
  else ":".intercalate (paths.map (·.text))

/-- The variables that tell a command about its task. -/
def ownVariables (task : Command) (outputDir : Path) (dependencyOutputs : List Path) :
    List (String × String) := [
  ("KEEL_OUTPUT_DIR", outputDir.text),
  ("KEEL_MODULE_DIR", task.moduleDir.text),
  ("KEEL_MODULE", task.module),
  ("KEEL_PLATFORM", task.platform.name),
  ("KEEL_BUILD_TYPE", task.buildTypeName),
  ("KEEL_IS_TEST", flagText task.isTest),
  ("KEEL_DEPENDENCY_OUTPUTS", joinedPaths dependencyOutputs)]

/-- The **command line** of a task, run in the directory of its module or else in that of the
project. -/
def invocation (task : Command) (tree : FileTree) (projectRoot outputDir : Path)
    (dependencyOutputs : List Path) : Invocation where
  command := task.expand outputDir
  directory := if tree.isDirectory task.moduleDir then task.moduleDir else projectRoot
  env := task.env.bindings ++ task.ownVariables outputDir dependencyOutputs
  limit := task.timeout

/-- The **paths a command wrote**: the whole output directory, or what the declared patterns stand
for. -/
def collectOutputs (task : Command) (tree : FileTree) (outputDir : Path) :
    Except Failure (List Path) :=
  if task.outputs.isEmpty then .ok [outputDir]
  else
    match expandPatterns tree outputDir task.outputs with
    | .ok [] =>
      .error (.custom ("command produced none of the declared outputs: "
        ++ ", ".intercalate task.outputs))
    | result => result

/-- The name of the work in the cache. -/
def identity (task : Command) : String := task.sharedKey.getD task.name.text

def job (task : Command) (place : Place) (dependencies : List TaskResult) : Job Output := do
  let layout := place.layout
  let outputDir := task.outputDir layout (place.ownDir task.name)
  if task.sharedKey.isSome then Job.createAll outputDir
  let session ← Job.get
  let dependencyOutputs := TaskResult.outputPaths dependencies
  let files ← Job.ofExcept (task.inputFiles session.tree layout)
  let inputs := if task.sharedKey.isSome then files else files ++ dependencyOutputs
  let invocation := task.invocation session.tree layout.projectRoot outputDir dependencyOutputs
  let execution ← place.cached task.identity (task.configuration layout.host) inputs do
    let _ ← invocation.run place.system
    let session ← Job.get
    Job.ofExcept (task.collectOutputs session.tree outputDir)
  return task.toOutput execution.outputs outputDir

end BuildMatrix.Command
