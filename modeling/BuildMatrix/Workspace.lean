import BuildMatrix.Config.Loading
import BuildMatrix.Fault
import BuildMatrix.Pipeline

/-!
# Loaded projects

A workspace is a project as it was found in the file tree: the project file, the configuration it
says, and the project made of its modules.
-/

namespace BuildMatrix

/-- A **loaded project**. -/
structure Workspace where
  root : Path
  configPath : Path
  config : Config
  project : Project

namespace Workspace

/-- The **project around a directory**. -/
def loadFrom (tree : FileTree) (dir : Path) : Except Fault Workspace :=
  match Config.loadFrom tree dir with
  | .error error => .error { cause := .project error }
  | .ok (config, configPath) =>
    let root := Config.rootOf configPath
    match Project.make root config.modules with
    | .error error =>
      .error { cause := .model error, contexts := ["invalid modules in " ++ configPath.text] }
    | .ok project => .ok { root, configPath, config, project }

def layout (workspace : Workspace) : Layout := .ofConfig workspace.root workspace.config

/-- Whether the project's tasks **use the cache**. -/
def cacheEnabled (workspace : Workspace) (noCache : Bool) : Bool :=
  !noCache && workspace.config.cache.enabled

def pipeline (workspace : Workspace) : Pipeline where
  project := workspace.project
  actions := workspace.config.actions
  timeout := workspace.config.build.taskTimeoutSecs.map fun s => .ofSeconds s.toNat

/-- The **task graph** of the project. -/
def taskGraph (workspace : Workspace) : Except Fault (TaskGraph Work) :=
  match workspace.pipeline.register with
  | .error refusal =>
    .error { cause := .graph refusal.error, contexts := ["failed to register actions"] }
  | .ok (_, builder) =>
    match builder.build with
    | .error error => .error { cause := .graph error, contexts := ["invalid task graph"] }
    | .ok graph => .ok graph

end Workspace

end BuildMatrix
