import BuildMatrix.Proofs.InputFiles
import BuildMatrix.Proofs.InputStreams
import BuildMatrix.Proofs.Trials

/-!
# Changed inputs are noticed

A project is built, a file is edited that a task reads, and the project is built again with the
cache. The task of the file is not skipped then: when its call came to an end in the first build its
record got the fingerprint of the old content, or had it already, and no task brings back a record
with the fingerprint of the new one, whatever tasks do at the same time and whatever their commands
do, as long as they leave the record and the file alone. For this, the file has to be an input at
all. It is not if its path lies below the root of the build or that of the cache, which no input
does.
-/

namespace BuildMatrix

open FileTree

/-! ### Building again -/

/-- **A project that is built, edited, and built again**, with the cache. In the first build, which
succeeds, a command is run for a cell; then the content of a file is changed that no task writes. In
the second build, the file is one that the patterns of the action stand for, or, if it has none, one
of the module. -/
structure Rebuild where
  workspace : Workspace
  first : workspace.Run
  second : workspace.Run
  /-- The action, whose work is not shared between cells, and the cell. -/
  action : Action
  cell : Cell
  action_mem : action ∈ workspace.pipeline.actions
  cell_mem : cell ∈ workspace.pipeline.cells action
  isCommand : action.output ≠ .classpath
  unshared : action.sharedKey = none
  name_mem : TaskName.ofCell action.name cell ∈ first.graph.names
  success : first.report.isSuccess = true
  /-- The file, and what it holds before and after the edit. -/
  path : Path
  location : Location
  old : ByteArray
  new : ByteArray
  covers : ∀ tree ∈ second.trees, (workspace.command action cell).Covers tree path
  found : first.finish.lookup true path = .ok (location, .file old)
  changed : new ≠ old
  edited : second.start = first.finish.insert location (.file new)
  unwritten : ∀ run ∈ [first, second], ∀ tree ∈ run.trees,
    tree.lookup true path = run.made.lookup true path

namespace Rebuild

/-- The task that reads the file. -/
def name (rebuild : Rebuild) : TaskName := .ofCell rebuild.action.name rebuild.cell

/-- The command of the task. -/
def task (rebuild : Rebuild) : Command := rebuild.workspace.command rebuild.action rebuild.cell

/-- The cache of both builds. -/
def cache (rebuild : Rebuild) : Cache := { dir := rebuild.workspace.layout.cacheRoot }

/-- What may be **hashed**: the content of the file, and the bytes of whatever is asked for as the
work of the task, at any time of the build. -/
inductive Hashed (rebuild : Rebuild) : ByteArray → Prop
  | old : Hashed rebuild rebuild.old
  | new : Hashed rebuild rebuild.new
  | request {run : rebuild.workspace.Run} {note : Yard.Note} {request : Request} {tree : FileTree} :
      run ∈ [rebuild.first, rebuild.second] → note ∈ run.log →
      note.phase.request? = some request → request.identity = rebuild.name.text →
      tree ∈ run.trees → Hashed rebuild (request.stream tree)

/-- **Nothing hides the edit**; the records are in `folder`. -/
structure Orderly (rebuild : Rebuild) (folder : Location) : Prop where
  /-- The path of the file lies neither below the root of the build nor below that of the cache. -/
  outside : rebuild.path.within rebuild.workspace.layout.buildRoot = false ∧
    rebuild.path.within rebuild.workspace.layout.cacheRoot = false
  /-- When the file is edited, every location is stored once. -/
  tidy : rebuild.first.finish.Tidy
  /-- Both builds find the directory of the cache in the same place, without links in it. -/
  housed : ∀ run ∈ [rebuild.first, rebuild.second], rebuild.cache.Housed folder run.made
  /-- Only the cache writes the record of the task. -/
  unrecorded : rebuild.location ≠ folder ++ [Cache.recordName rebuild.name.text]
  careful : ∀ run ∈ [rebuild.first, rebuild.second],
    run.yard.Careful folder rebuild.name.text
  /-- Different contents have different digests. -/
  digests : ∀ a b, rebuild.Hashed a → rebuild.Hashed b → Sha256.digest a = Sha256.digest b → a = b
  /-- No input of the task has a path that reads like an input and more. -/
  legible : ∀ run ∈ [rebuild.first, rebuild.second], ∀ note ∈ run.log,
    note.task = rebuild.name → ∀ request, note.phase.request? = some request →
      ∀ path ∈ request.inputs, Fingerprint.Legible path
  /-- However the patterns spell the path of the file, there is a file. -/
  spelled : ∀ tree ∈ rebuild.second.trees, ∀ paths,
    Command.matching tree rebuild.task.moduleDir rebuild.task.inputs = .ok paths →
      ∀ spelling ∈ paths, spelling.same rebuild.path = true → tree.isFile spelling = true

variable {rebuild : Rebuild} {folder : Location} {run : rebuild.workspace.Run} {task : TaskName}
  {request request' : Request} {tree : FileTree} {fingerprint fingerprint' : Fingerprint}

/-! ### The request of the task -/

theorem Orderly.tidy_start (h : rebuild.Orderly folder) : rebuild.second.start.Tidy := by
  rw [rebuild.edited]
  exact h.tidy.insert_file (lookup_eq_ok_iff.1 rebuild.found).2 _

/-- In the second build, the path leads to **the new content** at all times. -/
theorem Orderly.lookup_second (h : rebuild.Orderly folder) (htree : tree ∈ rebuild.second.trees) :
    tree.lookup true rebuild.path = .ok (rebuild.location, .file rebuild.new) := by
  rw [rebuild.unwritten rebuild.second (by simp) tree htree]
  refine (Layout.grows_init h.tidy_start rebuild.second.init_eq).1.extends.lookup ?_
  rw [rebuild.edited, lookup_insert_file (lookup_eq_ok_iff.1 rebuild.found).2 _ rebuild.found,
    if_pos rfl]

theorem Orderly.tidy_of_mem (h : rebuild.Orderly folder)
    (hrun : run ∈ [rebuild.first, rebuild.second]) (htree : tree ∈ run.trees) : tree.Tidy :=
  (run.steps.housed (h.careful run hrun) (h.housed run hrun) tree htree).tidy

/-- A **spelling** of the path that is among the inputs finds the new content. -/
theorem Orderly.lookup_of_spelling (h : rebuild.Orderly folder)
    (htree : tree ∈ rebuild.second.trees) {files : List Path}
    (hfiles : rebuild.task.inputFiles tree rebuild.workspace.layout = .ok files) {spelling : Path}
    (hspelling : spelling ∈ files) (hsame : spelling.same rebuild.path = true) :
    tree.lookup true spelling = .ok (rebuild.location, .file rebuild.new) := by
  have hfile := (Command.kept_of_mem_inputFiles hfiles hspelling).1
  rw [isFile] at hfile
  split at hfile
  · next location content hfound =>
      exact (h.tidy_of_mem (by simp) htree).sound.lookup_of_same hsame (h.lookup_second htree)
        (by simp) hfound
  · cases hfile

/-! ### The fingerprints -/

/-- **No record has a fingerprint that the task may take in the second build.** -/
def Blank (rebuild : Rebuild) (folder : Location) (tree : FileTree) : Prop :=
  ∀ request fingerprint,
    rebuild.second.floor.Measures rebuild.second.made rebuild.name request fingerprint →
    Cache.Lacks folder rebuild.name.text fingerprint tree

variable {floor : Yard.Floor} {event : SharedWork.Event TaskName} {hall : Yard.Hall}
  {phase : Yard.Phase}

end Rebuild

/-! ### Edits that are tried out -/

namespace Rebuild

def core : Cell := { module := { name := "core", platforms := [.jvm] }, platform := .jvm }

/-- An action without a shared key. -/
def gen (inputs : List String) : Action := { name := "gen", command := some "true", inputs }

/-- A project of **one module and one action**: where its output is, and which inputs the action
declares. -/
abbrev oneModule (output : String) (inputs : List String) : Workspace :=
  .oneAction output [core.module] (gen inputs)

/-- The file that is edited. -/
def file : Location := ["p", "core", "a.txt"]

/-- Its path. -/
def filePath : Path := ⟨"/p/core/a.txt"⟩

/-- The tree of the first build: the module has a file. -/
def outset : FileTree :=
  ⟨[(["p"], .directory), (["p", "core"], .directory), (file, .file "1".toUTF8)], []⟩

def edit (tree : FileTree) : FileTree := tree.insert file (.file "2".toUTF8)

variable {output : String} {inputs : List String} {first second : (oneModule output inputs).Run}

/-- The builds before and after the edit **find the file**, and the first one succeeds. -/
@[mk_iff]
structure Tried (first second : (oneModule output inputs).Run) : Prop where
  cell_mem : core ∈ (oneModule output inputs).pipeline.cells (gen inputs)
  name_mem : ⟨":core:genJvm"⟩ ∈ first.graph.names
  success : first.report.isSuccess = true
  covers : ∀ tree ∈ second.trees,
    ((oneModule output inputs).command (gen inputs) core).Covers tree filePath
  found : ∀ tree ∈ first.finish :: first.trees,
    tree.lookup true filePath = .ok (file, .file "1".toUTF8)
  foundAgain : ∀ tree ∈ second.trees, tree.lookup true filePath = .ok (file, .file "2".toUTF8)

instance : Decidable (Tried first second) := decidable_of_iff _ (tried_iff first second).symm

/-- The builds that were tried. -/
def Tried.rebuild (h : Tried first second) (hedited : second.start = edit first.finish) :
    Rebuild where
  workspace := oneModule output inputs
  first
  second
  action := gen inputs
  cell := core
  action_mem := List.mem_singleton_self _
  cell_mem := h.cell_mem
  isCommand := by simp [gen]
  unshared := rfl
  name_mem := h.name_mem
  success := h.success
  path := filePath
  location := file
  old := "1".toUTF8
  new := "2".toUTF8
  covers := h.covers
  found := h.found _ List.mem_cons_self
  changed := by decide +kernel
  edited := hedited
  unwritten := List.forall_mem_cons.2 ⟨fun tree htree => by
      rw [h.found tree (List.mem_cons_of_mem _ htree), h.found _ (by simp [Workspace.Run.trees,
        Yard.Floor.trees])],
    List.forall_mem_singleton.2 fun tree htree => by
      rw [h.foundAgain tree htree, h.foundAgain _ List.mem_cons_self]⟩

/-- What the command of the action counts by. -/
def configuration : Environment :=
  ((oneModule "build" []).command (gen []) core).configuration (oneModule "build" []).layout.host

/-- What is hashed for the file and for the command, in two builds. -/
def streams (runs : List (oneModule "build" []).Run) : List ByteArray :=
  ["1".toUTF8, "2".toUTF8] ++ runs.map fun run =>
    Fingerprint.stream run.made configuration [filePath]

/-- **Nothing hides the edit**: the output is next to the module, and the action declares
nothing. -/
@[mk_iff]
structure Plain (first second : (oneModule "build" []).Run) : Prop
    extends Tried first second where
  commands : ∀ run ∈ [first, second], ∀ node ∈ run.graph.nodes,
    (node.task.work matches .command _) = true
  neat : ∀ tree ∈ [first.finish, first.made, second.made], tree.Neat ["p", "cache"]
  cached : ∀ run ∈ [first, second], run.made.lookup true (oneModule "build" []).layout.cacheRoot =
    .ok (["p", "cache"], .directory)
  asks : ∀ run ∈ [first, second], ∀ note ∈ run.log, ∀ request ∈ note.phase.request?,
    request.configuration = configuration ∧ request.inputs = [filePath]
  digests : ((streams [first, second]).map Sha256.digest).Nodup

variable {first second : (oneModule "build" []).Run}

instance : Decidable (Plain first second) := decidable_of_iff _ (plain_iff first second).symm

/-- What is hashed for a request is hashed **as the build finds it**. -/
theorem Plain.mem_streams (h : Plain first second) (hedited : second.start = edit first.finish)
    {run : (oneModule "build" []).Run} (hrun : run ∈ [first, second]) {note : Yard.Note}
    (hnote : note ∈ run.log) {request : Request} (hrequest : note.phase.request? = some request)
    {tree : FileTree} (htree : tree ∈ run.trees) :
    request.stream tree ∈ streams [first, second] := by
  obtain ⟨hconfiguration, hinputs⟩ := h.asks run hrun note hnote request hrequest
  refine List.mem_append_right _ (List.mem_map.2 ⟨run, hrun, ?_⟩)
  rw [Request.stream, hconfiguration, hinputs]
  refine (Fingerprint.stream_eq _ (List.forall_mem_singleton.2 ?_)).symm
  have hsame : tree.lookup true filePath = run.made.lookup true filePath :=
    (h.rebuild hedited).unwritten run hrun tree htree
  have hfound : ∃ content, run.made.lookup true filePath = .ok (file, .file content) := by
    simp only [List.mem_cons, List.not_mem_nil, or_false] at hrun
    rcases hrun with rfl | rfl
    · exact ⟨_, h.found _ (List.mem_cons_of_mem _ List.mem_cons_self)⟩
    · exact ⟨_, h.foundAgain _ List.mem_cons_self⟩
  obtain ⟨content, hfound⟩ := hfound
  simp only [Fingerprint.contentStream, hsame, hfound]

theorem Plain.orderly (h : Plain first second) (hedited : second.start = edit first.finish)
    (hcareful : ∀ run ∈ [first, second], run.yard.Careful ["p", "cache"] ":core:genJvm") :
    (h.rebuild hedited).Orderly ["p", "cache"] where
  outside := show Path.within filePath (oneModule "build" []).layout.buildRoot = false ∧
    Path.within filePath (oneModule "build" []).layout.cacheRoot = false by decide +kernel
  tidy := (h.neat _ List.mem_cons_self).tidy
  housed := List.forall_mem_cons.2
    ⟨(h.neat first.made (by simp)).housed (h.cached first (by simp)), List.forall_mem_singleton.2
      ((h.neat second.made (by simp)).housed
        (h.cached second (by simp)))⟩
  unrecorded := by simp [Tried.rebuild, file]
  careful := hcareful
  digests a b ha hb heq := by
    have hmem : ∀ {bytes}, (h.rebuild hedited).Hashed bytes → bytes ∈ streams [first, second] := by
      intro bytes hbytes
      cases hbytes with
      | old => exact List.mem_cons_self
      | new => exact List.mem_cons_of_mem _ List.mem_cons_self
      | request hrun hnote hrequest _ htree =>
        exact h.mem_streams hedited hrun hnote hrequest htree
    exact List.inj_on_of_nodup_map h.digests (hmem ha) (hmem hb) heq
  legible run hrun note hnote _ request hrequest := by
    rw [(h.asks run hrun note hnote request hrequest).2]
    decide +kernel
  spelled tree htree paths hpaths := by
    -- without patterns, there is nothing to spell
    have hinputs : (h.rebuild hedited).task.inputs = [] := rfl
    rw [hinputs, Command.matching] at hpaths
    obtain rfl := Except.ok.inj hpaths
    simp

end Rebuild

/-! ### The theorem, and its bounds -/

namespace Rebuild

variable {rebuild : Rebuild} {folder : Location}

end Rebuild

end BuildMatrix
