import BuildMatrix.Config.Basic
import BuildMatrix.Config.Error

/-!
# Valid configurations

The check that every configuration passes before anything is made of it. It goes through the
options, the modules and the actions in this order and stops at the first thing that is not allowed.
What an action depends on is only looked at once all actions have passed, so that an action may
depend on a later one.
-/

namespace BuildMatrix

def isNameStart (c : Char) : Bool := c.isAlphanum

def isNameRest (c : Char) : Bool := c.isAlphanum || c = '.' || c = '_' || c = '-'

/-- A **valid name**: a letter or digit, and then letters, digits, dots, underscores and hyphens. -/
def isValidName (name : String) : Bool :=
  match name.toList with
  | [] => false
  | c :: rest => isNameStart c && rest.all isNameRest

namespace Config

def invalid {α : Type} (field reason : String) : Except ProjectError α :=
  .error (.config (.invalidValue field reason))

/-- A check of each item of a list with its position, up to the first that fails. -/
def checkFrom {α : Type} (check : Nat → α → Except ProjectError Unit) :
    Nat → List α → Except ProjectError Unit
  | _, [] => .ok ()
  | i, item :: rest =>
    match check i item with
    | .error error => .error error
    | .ok () => checkFrom check (i + 1) rest

def checkBuild (build : BuildOptions) : Except ProjectError Unit :=
  if build.outputDir.text = "" then invalid "build.output_dir" "output directory cannot be empty"
  else if build.taskTimeoutSecs = some 0 then
    invalid "build.task_timeout_secs" "timeout must be greater than zero"
  else .ok ()

def checkModule (i : Nat) (module : Module) : Except ProjectError Unit :=
  let name := module.name
  if !isValidName name then
    invalid s!"modules[{i}].name" s!"'{name}' is not a valid module name"
  else if module.platforms.isEmpty then
    invalid s!"modules[{i}].platforms" s!"module '{name}' must declare at least one platform"
  else .ok ()

def checkProject (modules : List Module) : Except ProjectError Unit :=
  match Project.checkModules modules with
  | .error error => .error (.model error)
  | .ok () => .ok ()

/-- The check of one action by itself, `before` being the names of those before it. -/
def checkAction (before : List String) (i : Nat) (action : Action) : Except ProjectError Unit :=
  let name := action.name
  if !isValidName name then
    invalid s!"actions[{i}].name" s!"'{name}' is not a valid action name"
  else if before.contains name then
    invalid s!"actions[{i}].name" s!"action '{name}' is declared more than once"
  else if action.output = .classpath && action.command.isSome then
    invalid s!"actions[{i}].command" "classpath actions are built in and take no command"
  else if action.output ≠ .classpath && action.command.isNone then
    .error (.config (.missingField s!"actions[{i}].command"))
  else if action.timeoutSecs = some 0 then
    invalid s!"actions[{i}].timeout_secs" "timeout must be greater than zero"
  else .ok ()

/-- Check actions after those with some names. -/
def checkActions : List String → Nat → List Action → Except ProjectError Unit
  | _, _, [] => .ok ()
  | before, i, action :: rest =>
    match checkAction before i action with
    | .error error => .error error
    | .ok () => checkActions (action.name :: before) (i + 1) rest

/-- The check of what an action depends on, `before` being what it listed before. A cell without a
build type cannot choose one for the action it depends on. -/
def checkPeers (actions : List Action) (i : Nat) (action : Action) :
    List String → List String → Except ProjectError Unit
  | _, [] => .ok ()
  | before, name :: rest =>
    match actions.find? fun a => a.name == name with
    | none => invalid s!"actions[{i}].depends_on" s!"unknown action '{name}'"
    | some peer =>
      let dependent := action.name
      if before.contains name then
        invalid s!"actions[{i}].depends_on" s!"action '{name}' is listed twice"
      else if peer.buildTypes && !action.buildTypes then
        invalid s!"actions[{i}].depends_on"
          s!"'{dependent}' is not expanded over build types but depends on '{name}' which is"
      else checkPeers actions i action (name :: before) rest

def checkDependencies (actions : List Action) (i : Nat) (action : Action) :
    Except ProjectError Unit :=
  checkPeers actions i action [] action.dependsOn

def validate (config : Config) : Except ProjectError Unit := do
  checkBuild config.build
  checkFrom checkModule 0 config.modules
  checkProject config.modules
  checkActions [] 0 config.actions
  checkFrom (checkDependencies config.actions) 0 config.actions

end Config

end BuildMatrix
