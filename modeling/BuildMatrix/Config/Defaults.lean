import BuildMatrix.Config.Encode
import BuildMatrix.Yaml.Printer

/-!
# Project files

The names a project file may have, and what a new project file says.
-/

namespace BuildMatrix.Config

/-- The **names of project files**, in the order they are looked for. -/
def fileNames : List String :=
  ["keel.toml", "keel.yaml", ".keel.toml", ".keel.yaml"]

/-- A **new project file** in TOML: two modules, with compiling, packaging and a classpath. -/
def template : String :=
  String.join ([
    "# keel project configuration",
    "",
    "name = \"my-project\"",
    "",
    "[build]",
    "# 0 = use all available cores",
    "concurrency = 0",
    "output_dir = \"build\"",
    "",
    "[cache]",
    "enabled = true",
    "dir = \".keel/cache\"",
    "",
    "[[modules]]",
    "name = \"core\"",
    "type = \"lib\"",
    "platforms = [\"jvm\"]",
    "",
    "[[modules]]",
    "name = \"app\"",
    "type = \"jvm-app\"",
    "platforms = [\"jvm\"]",
    "dependencies = [\x7b module = \"core\" \x7d]",
    "",
    "[[actions]]",
    "name = \"compile\"",
    "command = \"javac -d \x7boutput\x7d $(find src -name '*.java')\"",
    "output = \"classes\"",
    "inputs = [\"src/**/*.java\"]",
    "module_dependencies = \"compile\"",
    "tests = true",
    "",
    "[[actions]]",
    "name = \"jar\"",
    "command = \"jar cf \x7boutput\x7d/\x7bmodule\x7d.jar -C $KEEL_DEPENDENCY_OUTPUTS .\"",
    "output = \"jar\"",
    "depends_on = [\"compile\"]",
    "",
    "[[actions]]",
    "name = \"runtimeClasspath\"",
    "output = \"classpath\"",
    "depends_on = [\"jar\"]",
    "module_dependencies = \"runtime\""].map (· ++ "\n"))

def defaultYaml : String := Yaml.block ({} : Config).toJson

end BuildMatrix.Config
