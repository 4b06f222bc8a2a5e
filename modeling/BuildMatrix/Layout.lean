import BuildMatrix.Config.Basic
import BuildMatrix.FileTree.Access
import BuildMatrix.Host

/-!
# Where a build keeps its files

A build has a root for its products and one for its cache. Below the build root lie the directories
of the tasks, the logs, and scratch space that is dropped after each build.
-/

namespace BuildMatrix

/-- The **roots of a build**. -/
structure Layout where
  projectRoot : Path
  buildRoot : Path
  cacheRoot : Path
  host : Host := {}
  deriving DecidableEq, Inhabited, Repr

namespace Layout

/-- The usual places below a project. -/
def new (projectRoot : Path) : Layout where
  projectRoot
  buildRoot := projectRoot.child "build"
  cacheRoot := (projectRoot.child ".keel").child "cache"

/-- The layout that a **configuration** asks for. -/
def ofConfig (projectRoot : Path) (config : Config) : Layout where
  projectRoot
  buildRoot := projectRoot.join config.build.outputDir
  cacheRoot := projectRoot.join config.cache.dir

def tasksRoot (layout : Layout) : Path := layout.buildRoot.child "tasks"

def logsRoot (layout : Layout) : Path := layout.buildRoot.child "logs"

def tempRoot (layout : Layout) : Path := layout.buildRoot.child "temp"

/-- Make directories up to the first that cannot be made. -/
def createEach : FileTree → List Path → Except OsError Unit × FileTree
  | tree, [] => (.ok (), tree)
  | tree, dir :: rest =>
    match tree.createAll dir with
    | (.error error, tree) => (.error error, tree)
    | (.ok (), tree) => createEach tree rest

/-- Make **every directory** of the layout. -/
def init (layout : Layout) (tree : FileTree) : Except OsError Unit × FileTree :=
  createEach tree
    [layout.buildRoot, layout.tasksRoot, layout.logsRoot, layout.tempRoot, layout.cacheRoot]

/-- Drop the **scratch space**, if that can be done. -/
def teardown (layout : Layout) (tree : FileTree) : FileTree :=
  (tree.removeAll layout.tempRoot).2

end Layout

end BuildMatrix
