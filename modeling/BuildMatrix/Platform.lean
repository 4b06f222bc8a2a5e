/-!
# The vocabulary of a build

The closed sets of words that a project is described in: platforms, build types, product types,
the scopes of dependencies, and the kinds of output an action can have. Each set is an enumeration
with the list of its members in declaration order (`all`) and the spelling of each member (`name`);
`ofName?` reads a spelling back, case included.
-/

namespace BuildMatrix

def findName? {α : Type} (all : List α) (name : α → String) (spelling : String) : Option α :=
  all.find? fun a => name a == spelling

/-! ### Platforms -/

/-- A **platform** that modules are built for. -/
inductive Platform where
  | jvm
  | android
  | iosArm64
  | iosSimulatorArm64
  | iosX64
  | macosArm64
  | macosX64
  | linuxX64
  | mingwX64
  | js
  deriving DecidableEq, Inhabited, Repr

namespace Platform

def all : List Platform :=
  [jvm, android, iosArm64, iosSimulatorArm64, iosX64, macosArm64, macosX64, linuxX64, mingwX64, js]

/-- The spelling of a platform in a project file. -/
def name : Platform → String
  | jvm => "jvm"
  | android => "android"
  | iosArm64 => "iosArm64"
  | iosSimulatorArm64 => "iosSimulatorArm64"
  | iosX64 => "iosX64"
  | macosArm64 => "macosArm64"
  | macosX64 => "macosX64"
  | linuxX64 => "linuxX64"
  | mingwX64 => "mingwX64"
  | js => "js"

/-- The spelling of a platform inside a task name. -/
def title : Platform → String
  | jvm => "Jvm"
  | android => "Android"
  | iosArm64 => "IosArm64"
  | iosSimulatorArm64 => "IosSimulatorArm64"
  | iosX64 => "IosX64"
  | macosArm64 => "MacosArm64"
  | macosX64 => "MacosX64"
  | linuxX64 => "LinuxX64"
  | mingwX64 => "MingwX64"
  | js => "Js"

def ofName? (spelling : String) : Option Platform :=
  findName? all name spelling

def lower (text : String) : List Char :=
  text.toList.map Char.toLower

/-- The platform with this spelling, the case of ASCII letters aside. -/
def parse (spelling : String) : Option Platform :=
  all.find? fun p => lower p.name == lower spelling

end Platform

/-! ### Build types -/

/-- The two **build types** an action can be expanded over. -/
inductive BuildType where
  | debug
  | release
  deriving DecidableEq, Inhabited, Repr

namespace BuildType

def all : List BuildType := [debug, release]

def name : BuildType → String
  | debug => "debug"
  | release => "release"

def suffix : BuildType → String
  | debug => "Debug"
  | release => "Release"

def ofName? (spelling : String) : Option BuildType :=
  findName? all name spelling

end BuildType

/-! ### Product types -/

/-- What a module is built into. -/
inductive ProductType where
  | lib
  | jvmApp
  | androidApp
  | iosApp
  | macosApp
  | linuxApp
  deriving DecidableEq, Inhabited, Repr

namespace ProductType

def all : List ProductType := [lib, jvmApp, androidApp, iosApp, macosApp, linuxApp]

def name : ProductType → String
  | lib => "lib"
  | jvmApp => "jvm-app"
  | androidApp => "android-app"
  | iosApp => "ios-app"
  | macosApp => "macos-app"
  | linuxApp => "linux-app"

def ofName? (spelling : String) : Option ProductType :=
  findName? all name spelling

def isApp (type : ProductType) : Bool :=
  type ≠ lib

end ProductType

/-! ### Scopes -/

/-- Which of a module's dependencies an action asks for. -/
inductive ResolutionScope where
  | compile
  | runtime
  deriving DecidableEq, Inhabited, Repr

namespace ResolutionScope

def all : List ResolutionScope := [compile, runtime]

def name : ResolutionScope → String
  | compile => "compile"
  | runtime => "runtime"

def ofName? (spelling : String) : Option ResolutionScope :=
  findName? all name spelling

end ResolutionScope

/-- When a dependency between modules counts. -/
inductive DependencyScope where
  | all
  | compile
  | runtime
  deriving DecidableEq, Inhabited, Repr

namespace DependencyScope

def every : List DependencyScope := [all, compile, runtime]

def name : DependencyScope → String
  | all => "all"
  | compile => "compile"
  | runtime => "runtime"

def ofName? (spelling : String) : Option DependencyScope :=
  findName? every name spelling

def includes : DependencyScope → ResolutionScope → Bool
  | all, _ => true
  | compile, .compile => true
  | runtime, .runtime => true
  | _, _ => false

end DependencyScope

/-! ### Kinds of output -/

/-- What an action produces. -/
inductive OutputKind where
  | files
  | classes
  | jar
  | classpath
  | tool
  deriving DecidableEq, Inhabited, Repr

namespace OutputKind

def all : List OutputKind := [files, classes, jar, classpath, tool]

def name : OutputKind → String
  | files => "files"
  | classes => "classes"
  | jar => "jar"
  | classpath => "classpath"
  | tool => "tool"

/-- The spelling of a kind of output inside a fingerprint. -/
def title : OutputKind → String
  | files => "Files"
  | classes => "Classes"
  | jar => "Jar"
  | classpath => "Classpath"
  | tool => "Tool"

def ofName? (spelling : String) : Option OutputKind :=
  findName? all name spelling

end OutputKind

end BuildMatrix
