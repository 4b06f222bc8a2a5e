import BuildMatrix.Project

/-!
# What can be wrong with a project file
-/

namespace BuildMatrix

/-- What is wrong with a **project file**. -/
inductive ConfigError where
  /-- No project file in a directory or above it. -/
  | notFound (start : Path)
  | parseError (reason : String)
  | invalidValue (field reason : String)
  | missingField (field : String)
  /-- A text that is no YAML, or no configuration in YAML. -/
  | yaml
  /-- A text that is no TOML, or no configuration in TOML. -/
  | toml
  /-- A file that cannot be read. -/
  | io (reason : String)
  deriving DecidableEq, Inhabited, Repr

namespace ConfigError

/-- The wording of an error in a project file. -/
def message : ConfigError → String
  | notFound start => s!"Configuration file not found at {start.text}"
  | parseError reason => s!"Failed to parse configuration: {reason}"
  | invalidValue field reason => s!"Invalid configuration: {field} - {reason}"
  | missingField field => s!"Missing required configuration field: {field}"
  | yaml => "YAML parsing error"
  | toml => "TOML parsing error"
  | io reason => s!"IO error reading config: {reason}"

/-- The error of the operating system **behind** one in a project file. -/
def source? : ConfigError → Option String
  | io reason => some reason
  | _ => none

end ConfigError

/-- What can go wrong **before a build starts**. -/
inductive ProjectError where
  | config (error : ConfigError)
  | model (error : ModelError)
  | io (reason : String)
  /-- A text that is no TOML, apart from the project file. -/
  | toml (reason : String)
  /-- A text that is no JSON. -/
  | json (reason : String)
  | other (reason : String)
  deriving DecidableEq, Inhabited, Repr

namespace ProjectError

/-- The wording; an error that only **passes on** another one has the other's. -/
def message : ProjectError → String
  | config error => error.message
  | model error => error.message
  | io reason => s!"IO error: {reason}"
  | toml reason => s!"TOML parsing error: {reason}"
  | json reason => s!"JSON parsing error: {reason}"
  | other reason => reason

end ProjectError

end BuildMatrix
