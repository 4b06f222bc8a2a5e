import BuildMatrix.Fault
import BuildMatrix.Json.Basic

/-!
# The JSON form of errors

An error is an object with its kind and, for most kinds, its wording. The kinds whose wording comes
from the readers of data formats have none.
-/

namespace BuildMatrix

namespace Json

/-- The form of an error without its text. -/
def errorKind (kind : String) : Json := obj [("error", str kind)]

def error (kind message : String) : Json := obj [("error", str kind), ("message", str message)]

end Json

def ConfigError.kind : ConfigError → String
  | notFound _ => "NotFound"
  | parseError _ => "ParseError"
  | invalidValue _ _ => "InvalidValue"
  | missingField _ => "MissingField"
  | yaml => "YamlError"
  | toml => "TomlError"
  | io _ => "ConfigIo"

def ModelError.kind : ModelError → String
  | duplicateModule _ => "DuplicateModule"
  | unknownModuleDependency _ _ => "UnknownModuleDependency"
  | unknownPlatform _ => "UnknownPlatform"

def ProjectError.kind : ProjectError → String
  | config error => error.kind
  | model error => error.kind
  | io _ => "Io"
  | toml _ => "Toml"
  | json _ => "Json"
  | other _ => "Other"

/-- Whether the text is the program's own. -/
def ProjectError.isWorded : ProjectError → Bool
  | config .yaml => false
  | config .toml => false
  | _ => true

def ProjectError.toJson (error : ProjectError) : Json :=
  if error.isWorded then .error error.kind error.message else .errorKind error.kind

def GraphError.kind : GraphError → String
  | duplicateTask _ => "DuplicateTask"
  | unresolvedReference _ _ _ => "UnresolvedTaskReference"
  | cyclicDependency _ => "CyclicDependency"
  | outputDirectoryConflict _ _ => "OutputDirectoryConflict"
  | unknownTask _ => "UnknownTask"
  | unknownAction _ _ => "UnknownAction"

def GraphError.toJson (error : GraphError) : Json := .error error.kind error.message

/-- A **cache error**; only that of the operating system has a wording. -/
def CacheError.toJson : CacheError → Json
  | io reason => .error "CacheIo" (message (io reason))
  | json => .errorKind "CacheJson"
  | walk => .errorKind "CacheWalk"

def Failure.kind : Failure → String
  | unexpectedDependencies _ _ => "UnexpectedDependencies"
  | commandFailed _ _ => "CommandFailed"
  | timeout _ => "Timeout"
  | spawn _ _ => "Spawn"
  | io _ => "Io"
  | cache _ => "Cache"
  | cancelled => "Cancelled"
  | panicked _ => "Panicked"
  | custom _ => "Message"

def Failure.toJson : Failure → Json
  | cache error => error.toJson
  | failure => .error failure.kind failure.message

def BuildError.kind : BuildError → String
  | cancelled => "Cancelled"
  | taskFailed _ _ => "TaskFailed"

def Cause.kind : Cause → String
  | project error => error.kind
  | config error => error.kind
  | model error => error.kind
  | graph error => error.kind
  | build error => error.kind
  | task failure => failure.kind
  | cache _ => "Cache"
  | io _ => "Io"
  | other _ => "Other"

/-- Whether the text is the program's own. -/
def Cause.isWorded : Cause → Bool
  | project error => error.isWorded
  | config error => (ProjectError.config error).isWorded
  | _ => true

/-- A **fault**, with its exit code. -/
def Fault.toJson (fault : Fault) : Json :=
  .obj ([("error", .str fault.cause.kind)]
    ++ (if fault.cause.isWorded then [("message", .str fault.message)] else [])
    ++ [("exit_code", .nat fault.exitCode)])

end BuildMatrix
