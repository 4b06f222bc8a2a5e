import BuildMatrix.Proofs.InputFiles
import BuildMatrix.Proofs.InputStreams
import BuildMatrix.Proofs.Trials

/-!
# Cells that share a key

The cells of an action with a shared key ask the cache for one piece of work, and write to one
directory. They may be at work at the same time: the first of them that gets the lock of the key
finds no record and runs its command, all others wait for the lock and find the record, in this
build and in the next one, whatever other tasks do meanwhile. For this, the cells have to read the
same files: the fingerprint of shared work says nothing of the cell, but it does say which files the
cell reads, and these are those of its module.
-/

namespace BuildMatrix

open FileTree

/-! ### What is read -/

/-- A file that **reads the same** counts the same. -/
theorem Fingerprint.contentStream_of_read {tree other : FileTree} {path : Path}
    (hfile : tree.isFile path = true) (hread : other.read path = tree.read path) :
    contentStream other path = contentStream tree path := by
  rw [FileTree.isFile] at hfile
  rw [FileTree.read, FileTree.read] at hread
  rw [contentStream, contentStream]
  split at hfile
  · next location content hlookup =>
      rw [hlookup] at hread ⊢
      split at hread
      · cases hread
      · next location' content' hlookup' => rw [hlookup', Except.ok.inj hread]
      · cases hread
  · cases hfile

/-! ### A project with a shared key -/

/-- **A project with a shared key that is built twice**, with the cache and without changes in
between. One action has the key, no task is named like it, and both builds succeed. -/
structure Sharing where
  workspace : Workspace
  first : workspace.Run
  second : workspace.Run
  action : Action
  key : String
  action_mem : action ∈ workspace.pipeline.actions
  isCommand : action.output ≠ .classpath
  shared : action.sharedKey = some key
  only : ∀ other ∈ workspace.pipeline.actions, other.sharedKey = some key → other = action
  unnamed : ∀ other ∈ workspace.pipeline.actions, ∀ cell ∈ workspace.pipeline.cells other,
    (TaskName.ofCell other.name cell).text ≠ key
  success : ∀ run ∈ [first, second], run.report.isSuccess = true
  again : second.start = first.finish

namespace Sharing

/-- The tasks of the cells. -/
def names (sharing : Sharing) : List TaskName :=
  (sharing.workspace.pipeline.cells sharing.action).map (TaskName.ofCell sharing.action.name)

/-- How often a build **runs the command** of a cell. -/
def runCount (sharing : Sharing) (run : sharing.workspace.Run) : Nat :=
  run.log.countP fun note => note.task ∈ sharing.names && note.event.isBegan

/-- **The cells read the same files, and nothing touches the record of the key**; the records are in
`folder`. -/
structure Steady (sharing : Sharing) (folder : Location) (files : List Path) : Prop where
  /-- At all times each cell reads these files, with the content that they had at the start. -/
  inputs : ∀ run ∈ [sharing.first, sharing.second], ∀ tree ∈ run.trees,
    (∀ cell ∈ sharing.workspace.pipeline.cells sharing.action,
      (sharing.workspace.command sharing.action cell).inputFiles tree sharing.workspace.layout =
        .ok files) ∧
    ∀ path ∈ files, tree.read path = sharing.first.made.read path
  /-- The first build finds the directory of the cache in its place, without links in it and without
  a record of the key. -/
  housed : (sharing.workspace.place sharing.first.system).cache.Housed folder sharing.first.made
  blank : (sharing.workspace.place sharing.first.system).cache.record? sharing.first.made
    sharing.key = none
  /-- The directory of the cache is not dropped with the scratch space of the first build. -/
  outlasts : (sharing.workspace.place sharing.first.system).cache.Housed folder
    sharing.first.finish
  /-- Commands leave the record of the key alone, and other work has other records. -/
  careful : ∀ run ∈ [sharing.first, sharing.second], run.yard.Careful folder sharing.key
  digests : ∀ run ∈ [sharing.first, sharing.second], ∀ note ∈ run.log, ∀ request,
    note.phase.request? = some request → request.identity ≠ sharing.key →
    Sha256.digest sharing.key.toUTF8 ≠ Sha256.digest request.identity.toUTF8
  /-- The time of a record can be read. -/
  timely : ∀ run ∈ [sharing.first, sharing.second], ∀ note ∈ run.log, ∀ caller createdAt,
    note.event = .kept caller createdAt → createdAt.InRange
  /-- What a cell has put out stays there. -/
  remains : ∀ run ∈ [sharing.first, sharing.second], ∀ before note after,
    run.log = before ++ note :: after → ∀ caller outputs, note.event = .succeeded caller outputs →
    note.task ∈ sharing.names → ∀ later ∈ note :: after, ∀ path ∈ outputs,
      later.tree.pathExists path = true
  lasts : ∀ note ∈ sharing.first.log, ∀ caller outputs, note.event = .succeeded caller outputs →
    note.task ∈ sharing.names → ∀ tree ∈ sharing.second.trees, ∀ path ∈ outputs,
      tree.pathExists path = true

variable {sharing : Sharing} {folder : Location} {files : List Path}
  {run : sharing.workspace.Run} {task : TaskName} {request : Request} {cell : Cell}

/-! ### The requests of the cells -/

/-- The **work that all cells share**, seen from one of them. -/
def work (sharing : Sharing) (cell : Cell) (files : List Path) : SharedWork where
  cache := { dir := sharing.workspace.layout.cacheRoot }
  enabled := rfl
  identity := sharing.key
  configuration := (sharing.workspace.command sharing.action cell).configuration
    sharing.workspace.layout.host
  inputs := files

/-- What a cell **makes of what was put out**. -/
def deliver (sharing : Sharing) (cell : Cell) (paths : List Path) : Output :=
  let command := sharing.workspace.command sharing.action cell
  command.toOutput paths (command.outputDir sharing.workspace.layout ⟨""⟩)

/-- Work that is known by the key is that **of a cell**. -/
theorem mem_names_iff (hasks : run.yard.Asks run.trees task request) :
    task ∈ sharing.names ↔ request.identity = sharing.key := by
  constructor
  · intro hname
    obtain ⟨cell, hcell, rfl⟩ := List.mem_map.1 hname
    rcases Workspace.Run.request_of_cell hasks sharing.action_mem hcell rfl with
      ⟨hclasspath, -⟩ | ⟨-, dependencies, files, tree, -, -, rfl⟩
    · exact absurd hclasspath sharing.isCommand
    · change sharing.action.sharedKey.getD _ = _
      rw [sharing.shared, Option.getD_some]
  · intro hidentity
    obtain ⟨action, haction, cell, hcell, rfl⟩ := Workspace.Run.exists_cell hasks
    have hunnamed := sharing.unnamed action haction cell hcell
    rcases Workspace.Run.request_of_cell hasks haction hcell rfl with
      ⟨-, hclasspath⟩ | ⟨-, dependencies, files, tree, -, -, rfl⟩
    · exact absurd (hclasspath.symm.trans hidentity) hunnamed
    · replace hidentity : action.sharedKey.getD (TaskName.ofCell action.name cell).text =
        sharing.key := hidentity
      cases hkey : action.sharedKey with
      | none =>
        rw [hkey] at hidentity
        exact absurd hidentity hunnamed
      | some key =>
        rw [hkey] at hidentity
        obtain rfl : key = sharing.key := hidentity
        obtain rfl := sharing.only action haction hkey
        exact List.mem_map_of_mem hcell

/-- **All cells ask for the same work, and make the same of what was put out.** -/
theorem Steady.agree (h : sharing.Steady folder files)
    (hrun : run ∈ [sharing.first, sharing.second]) (hasks : run.yard.Asks run.trees task request)
    (hidentity : request.identity = sharing.key) (cell : Cell) :
    run.yard.work request = sharing.work cell files ∧ request.deliver = sharing.deliver cell := by
  obtain ⟨own, hown, rfl⟩ := List.mem_map.1 ((mem_names_iff hasks).2 hidentity)
  rcases Workspace.Run.request_of_cell hasks sharing.action_mem hown rfl with
    ⟨hclasspath, -⟩ | ⟨-, dependencies, found, tree, htree, hfound, rfl⟩
  · exact absurd hclasspath sharing.isCommand
  obtain rfl := Except.ok.inj (hfound.symm.trans ((h.inputs run hrun tree htree).1 own hown))
  simp only [Yard.work, work, Command.request, Command.configuration, Command.outputDir,
    Workspace.command, Command.ofCell, Command.identity, sharing.shared]
  refine ⟨rfl, funext fun paths => ?_⟩
  simp only [deliver, Command.toOutput, Command.outputDir, Workspace.command, Command.ofCell,
    sharing.shared]
  rfl

/-- **The files count the same at all times.** -/
theorem Steady.contents (h : sharing.Steady folder files)
    (hcell : cell ∈ sharing.workspace.pipeline.cells sharing.action)
    (hrun : run ∈ [sharing.first, sharing.second]) {tree : FileTree} (htree : tree ∈ run.trees)
    {path : Path} (hpath : path ∈ files) :
    Fingerprint.contentStream tree path =
      Fingerprint.contentStream sharing.first.made path := by
  have hstart := (h.inputs sharing.first List.mem_cons_self _ List.mem_cons_self).1 cell hcell
  exact Fingerprint.contentStream_of_read (Command.kept_of_mem_inputFiles hstart hpath).1
    ((h.inputs run hrun tree htree).2 path hpath)

/-! ### The cells as callers -/

/-- What has happened in a build, as those see it who **ask for the work of the key**. -/
def trace (sharing : Sharing) (run : sharing.workspace.Run) :
    List (SharedWork.Event TaskName × FileTree) :=
  run.log.map (Yard.Note.entry sharing.key)

theorem map_trace : (sharing.trace run).map (·.2) = run.log.map (·.tree) := by
  rw [trace, List.map_map]
  rfl

/-- The commands of cells that a build runs are **the bodies of the callers**. -/
theorem runCount_eq : sharing.runCount run = (sharing.trace run).countP (·.1.isBegan) := by
  rw [runCount, trace, List.countP_map]
  refine List.countP_congr fun note hnote => ?_
  simp only [Function.comp_apply, Yard.Note.entry]
  cases hbegan : note.event.isBegan with
  | false => split <;> simp [hbegan]
  | true =>
    obtain ⟨request, hrequest⟩ := run.steps.asked note hnote (fun heq => by simp [heq] at hbegan)
    have hiff := mem_names_iff (run.traced.notes note hnote request hrequest)
    by_cases hname : note.task ∈ sharing.names
    · simp [hname, Yard.Phase.isFor, hrequest, hiff.1 hname, hbegan]
    · have hne : request.identity ≠ sharing.key := fun heq => hname (hiff.2 heq)
      simp [hname, Yard.Phase.isFor, hrequest, hne]

/-- **The cells of a build are callers that share the work of the key**: nothing disturbs them, only
the cache writes the record, and no call fails. -/
theorem Steady.exists_scene (h : sharing.Steady folder files)
    (hrun : run ∈ [sharing.first, sharing.second])
    (hmade : (sharing.workspace.place run.system).cache.Housed folder run.made)
    (hcell : cell ∈ sharing.workspace.pipeline.cells sharing.action) :
    ∃ scene, (sharing.work cell files).Run run.made [] (sharing.trace run) scene ∧
      (sharing.work cell files).Guarded run.made (sharing.trace run) ∧
      Yard.Mirrors sharing.key run.floor scene ∧
      (sharing.work cell files).Undisturbed run.made (sharing.trace run) ∧
      ∀ i, scene.progress i = .arrived ∨
        ∃ execution, scene.progress i = .returned (.ok execution) := by
  have hsuccess := sharing.success run hrun
  obtain ⟨scene, hscene, hguarded, hmirrors⟩ := run.steps.mirrored
    (show (sharing.work cell files).cache = run.yard.place.cache from rfl)
    (fun note hnote request hrequest hidentity =>
      (h.agree hrun (run.traced.notes note hnote request hrequest) hidentity cell).1)
    (fun note hnote request hrequest hidentity heq =>
      h.digests run hrun note hnote request hrequest hidentity
        (Cache.digest_eq_of_recordName_eq heq)) (h.careful run hrun) hmade
  have hdone : ∀ i, scene.progress i = .arrived ∨
      ∃ execution, scene.progress i = .returned (.ok execution) := by
    intro i
    rw [hmirrors.progress]
    by_cases hi : i ∈ run.graph.names
    · obtain ⟨request, execution, hphase, -⟩ := Workspace.Run.of_success hsuccess hi
      rw [hphase, Yard.Phase.progress]
      split
      · exact .inr ⟨execution, rfl⟩
      · exact .inl rfl
    · rw [Workspace.Run.idle_of_not_mem hi]
      exact .inl rfl
  refine ⟨scene, hscene, hguarded, hmirrors, ?_, hdone⟩
  have hhoused := run.steps.housed (h.careful run hrun) hmade
  refine ⟨(hhoused _ List.mem_cons_self).tidy, (hhoused _ List.mem_cons_self).unlinked _, ?_, ?_⟩
  · rintro entry hentry
    obtain ⟨note, hnote, rfl⟩ := List.mem_map.1 hentry
    have htree : note.tree ∈ run.trees := List.mem_cons_of_mem _ (List.mem_map_of_mem hnote)
    refine ⟨(hhoused _ htree).tidy, fun path hpath => ?_, fun i heq => ?_,
      fun i createdAt heq => ?_, (hhoused _ htree).unlinked _⟩
    · exact (h.contents hcell hrun htree hpath).trans
        (h.contents hcell hrun List.mem_cons_self hpath).symm
    · have hmem : (.notKept i, note.tree) ∈ sharing.trace run := heq ▸ hentry
      have hfails := hscene.fails (.inr hmem)
      rcases hdone i with hi | ⟨execution, hi⟩ <;> rw [hi] at hfails <;> cases hfails
    · exact h.timely run hrun note hnote i createdAt
        (Yard.Note.event_of_entry heq (by simp)).1
  · intro before after i outputs tree hsplit
    obtain ⟨earlier, rest, hlog, rfl, hrest⟩ := List.map_eq_append_iff.1 hsplit
    obtain ⟨note, later, rfl, hnote, rfl⟩ := List.map_eq_cons_iff.1 hrest
    obtain ⟨hevent, request, hrequest, hidentity⟩ :=
      Yard.Note.event_of_entry (congrArg Prod.fst hnote) (by simp)
    have hmem : note ∈ run.log := by simp [hlog]
    have hname := (mem_names_iff (run.traced.notes note hmem request hrequest)).2 hidentity
    rw [← hnote, ← List.map_cons]
    intro entry hentry
    obtain ⟨other, hother, rfl⟩ := List.mem_map.1 hentry
    exact h.remains run hrun earlier note later hlog i outputs hevent hname other hother

/-- What is **reported of a cell** of a build is what its call has returned. -/
theorem Steady.reported (h : sharing.Steady folder files)
    (hrun : run ∈ [sharing.first, sharing.second]) {scene : SharedWork.Scene TaskName}
    (hmirrors : Yard.Mirrors sharing.key run.floor scene) (cell : Cell)
    (hname : task ∈ sharing.names) (hgraph : task ∈ run.graph.names) :
    ∃ execution, scene.progress task = .returned (.ok execution) ∧
      (task, if execution.upToDate then .skipped else .completed) ∈ run.report.statuses ∧
      ∃ result, run.report.results.get? task = some result ∧
        result.output = sharing.deliver cell execution.outputs := by
  obtain ⟨request, execution, hphase, hstatus, result, hresult, houtput⟩ :=
    Workspace.Run.of_success (sharing.success run hrun) hgraph
  have hrequest : (run.floor.phase task).request? = some request := by rw [hphase]; rfl
  have hasks := run.traced.asks hrequest
  have hidentity := (mem_names_iff hasks).1 hname
  refine ⟨execution, ?_, hstatus, result, hresult, ?_⟩
  · rw [hmirrors.progress, hphase, Yard.Phase.progress, if_pos hidentity]
  · rw [houtput, (h.agree hrun hasks hidentity cell).2]

/-- **The record of the key is still there** when the second build begins. -/
theorem Steady.onRecord_second (h : sharing.Steady folder files)
    (hcell : cell ∈ sharing.workspace.pipeline.cells sharing.action) {outputs : List Path}
    (hrecord : (sharing.work cell files).OnRecord sharing.first.floor.tree
      ((sharing.work cell files).fingerprint sharing.first.made) outputs) :
    (sharing.workspace.place sharing.second.system).cache.Housed folder sharing.second.made ∧
      (sharing.work cell files).OnRecord sharing.second.made
        ((sharing.work cell files).fingerprint sharing.second.made) outputs := by
  have hlast := sharing.first.steps.housed (h.careful _ (by simp)) h.housed _
    sharing.first.traced.tree_mem
  have hstart := h.outlasts
  rw [← sharing.again] at hstart
  obtain ⟨hgrows, htidy⟩ := Layout.grows_init hstart.tidy sharing.second.init_eq
  have hmade := hstart.grow hgrows htidy
  refine ⟨hmade, ?_⟩
  have hsame : sharing.first.floor.tree.SameFile sharing.second.made
      (folder ++ [Cache.recordName sharing.key]) := by
    refine SameFile.trans (.of_eq ?_) (.of_grows hgrows _)
    have hfolder := hstart.directory
    rw [sharing.again] at hfolder ⊢
    exact Layout.entry?_teardown hfolder (Cache.recordName_ne_temp _)
  have hfingerprint : (sharing.work cell files).fingerprint sharing.second.made =
      (sharing.work cell files).fingerprint sharing.first.made :=
    Fingerprint.compute_eq _ fun path hpath => h.contents hcell (by simp) List.mem_cons_self hpath
  rw [hfingerprint]
  obtain ⟨record, hkept, hrest⟩ := hrecord
  exact ⟨record, (hlast.record?_congr hmade hsame).trans hkept, hrest⟩

end Sharing

/-! ### Projects that are tried out -/

namespace Sharing

/-- An action with a shared key. -/
def generate : Action := { name := "gen", command := some "true", sharedKey := some "gen" }

/-- A project of this action alone, with some modules. -/
abbrev project (modules : List Module) : Workspace := .oneAction "build" modules generate

/-- A tree with the directory of the key and some directories of modules, of which `core` has a
file. -/
def outset (modules : List String) : FileTree where
  entries := [["p"], ["p", "build"], ["p", "build", "tasks"], ["p", "build", "tasks", "_shared"],
    ["p", "build", "tasks", "_shared", "gen"]].map (·, .directory) ++
      modules.map (["p", ·], .directory) ++ [(["p", "core", "a.txt"], .file "1".toUTF8)]
  here := []

variable {modules : List Module} {first second : (project modules).Run}

/-- Both builds **succeed**, and no task is named like the key. -/
@[mk_iff]
structure Tried (first second : (project modules).Run) : Prop where
  success : ∀ run ∈ [first, second], run.report.isSuccess = true
  unnamed : ∀ cell ∈ (project modules).pipeline.cells generate,
    (TaskName.ofCell generate.name cell).text ≠ "gen"

instance : Decidable (Tried first second) := decidable_of_iff _ (tried_iff first second).symm

/-- The builds that were tried. -/
def Tried.sharing (h : Tried first second) (hagain : second.start = first.finish) : Sharing where
  workspace := project modules
  first
  second
  action := generate
  key := "gen"
  action_mem := List.mem_singleton_self _
  isCommand := by decide
  shared := rfl
  only other hother _ := List.mem_singleton.1 hother
  unnamed other hother := by
    obtain rfl := List.mem_singleton.1 hother
    exact h.unnamed
  success := h.success
  again := hagain

/-- What happens is **as expected**: what is put out is one path, and records can be read. -/
def isPlain (dir : Path) : SharedWork.Event TaskName → Bool
  | .succeeded _ outputs => outputs = [dir]
  | .kept _ createdAt => createdAt.InRange
  | _ => true

/-- **The cells read one file** with the same content, from a cache without records, and put out one
directory. -/
@[mk_iff]
structure Reads (first second : (project modules).Run) (file dir : Path) : Prop where
  commands : ∀ run ∈ [first, second], ∀ node ∈ run.graph.nodes,
    (node.task.work matches .command _) = true
  neat : ∀ tree ∈ [first.made, first.finish], tree.Neat ["p", "cache"] ∧
    tree.lookup true (project modules).layout.cacheRoot = .ok (["p", "cache"], .directory)
  blank : (((project modules).place .idle).cache.record? first.made "gen").isNone = true
  trees : ∀ run ∈ [first, second], ∀ tree ∈ run.trees, tree.pathExists dir = true ∧
    tree.read file = first.made.read file ∧
    ∀ cell ∈ (project modules).pipeline.cells generate,
      (((project modules).command generate cell).inputFiles tree
        (project modules).layout).toOption = some [file]
  notes : ∀ run ∈ [first, second], ∀ note ∈ run.log, isPlain dir note.event = true ∧
    ∀ request ∈ note.phase.request?, request.identity = "gen"

instance (file dir : Path) : Decidable (Reads first second file dir) :=
  decidable_of_iff _ (reads_iff first second file dir).symm

theorem Reads.outputs_eq {file dir : Path} (h : Reads first second file dir)
    {run : (project modules).Run} (hrun : run ∈ [first, second]) {note : Yard.Note}
    (hnote : note ∈ run.log) {caller : TaskName} {outputs : List Path}
    (hevent : note.event = .succeeded caller outputs) {path : Path} (hpath : path ∈ outputs) :
    path = dir := by
  have hplain := (h.notes run hrun note hnote).1
  rw [hevent] at hplain
  exact List.mem_singleton.1 (of_decide_eq_true hplain ▸ hpath)

theorem Tried.steady (h : Tried first second) (hagain : second.start = first.finish)
    {file dir : Path} (hreads : Reads first second file dir)
    (hcareful : ∀ run ∈ [first, second], run.yard.Careful ["p", "cache"] "gen") :
    (h.sharing hagain).Steady ["p", "cache"] [file] where
  inputs run hrun tree htree := by
    obtain ⟨-, hread, hfiles⟩ := hreads.trees run hrun tree htree
    refine ⟨fun cell hcell => ?_, fun path hpath => List.mem_singleton.1 hpath ▸ hread⟩
    have hfiles := hfiles cell hcell
    change ((project modules).command generate cell).inputFiles tree (project modules).layout = _
    generalize ((project modules).command generate cell).inputFiles tree _ = found at hfiles ⊢
    rcases found with failure | found
    · cases hfiles
    · exact congrArg _ (Option.some.inj hfiles)
  housed := (hreads.neat _ List.mem_cons_self).1.housed (hreads.neat _ List.mem_cons_self).2
  blank := Option.isNone_iff_eq_none.1 hreads.blank
  outlasts :=
    have hneat := hreads.neat _ (List.mem_cons_of_mem _ (List.mem_singleton_self _))
    hneat.1.housed hneat.2
  careful := hcareful
  digests run hrun note hnote request hrequest hne :=
    absurd ((hreads.notes run hrun note hnote).2 request hrequest) hne
  timely run hrun note hnote caller createdAt hevent := by
    have hplain := (hreads.notes run hrun note hnote).1
    rw [hevent] at hplain
    exact of_decide_eq_true hplain
  remains run hrun before note after hlog caller outputs hevent _ later hlater path hpath := by
    have hmem : ∀ other ∈ note :: after, other ∈ run.log := fun other hother => by
      rw [show run.log = _ from hlog]
      exact List.mem_append_right _ hother
    obtain rfl := hreads.outputs_eq hrun (hmem note List.mem_cons_self) hevent hpath
    exact (hreads.trees run hrun later.tree
      (List.mem_cons_of_mem _ (List.mem_map_of_mem (hmem later hlater)))).1
  lasts note hnote caller outputs hevent _ tree htree path hpath := by
    obtain rfl := hreads.outputs_eq List.mem_cons_self hnote hevent hpath
    exact (hreads.trees second (by simp) tree htree).1

end Sharing

/-! ### The theorem, and its bounds -/

namespace Sharing

variable {sharing : Sharing} {folder : Location} {files : List Path}

/-- **Cells that share a key run one command**: the first build runs the command of one cell and
skips all others, the next one skips them all, and all have the same output. -/
theorem cells_run_once (h : sharing.Steady folder files)
    (hcell : ∃ name ∈ sharing.names, name ∈ sharing.first.graph.names) :
    sharing.runCount sharing.first = 1 ∧ sharing.runCount sharing.second = 0 ∧
      ∃ winner ∈ sharing.names, winner ∈ sharing.first.graph.names ∧ ∃ output,
        (∀ name ∈ sharing.names, name ∈ sharing.first.graph.names →
          (name, if name = winner then .completed else .skipped) ∈
              sharing.first.report.statuses ∧
            ∃ result, sharing.first.report.results.get? name = some result ∧
              result.output = output) ∧
        ∀ name ∈ sharing.names, name ∈ sharing.second.graph.names →
          (name, .skipped) ∈ sharing.second.report.statuses ∧
            ∃ result, sharing.second.report.results.get? name = some result ∧
              result.output = output := by
  obtain ⟨name, hname, hgraph⟩ := hcell
  obtain ⟨cell, hcell, -⟩ := List.mem_map.1 hname
  have hfirst : sharing.first ∈ [sharing.first, sharing.second] := by simp
  have hsecond : sharing.second ∈ [sharing.first, sharing.second] := by simp
  -- the cells of the first build are callers that find nothing on record
  obtain ⟨scene, hscene, hguarded, hmirrors, hundisturbed, hdone⟩ :=
    h.exists_scene hfirst h.housed hcell
  have hcalled : ∃ i, scene.progress i ≠ .arrived := by
    obtain ⟨execution, hreturned, -⟩ := h.reported hfirst hmirrors cell hname hgraph
    exact ⟨name, by simp [hreturned]⟩
  obtain ⟨winner, outputs, tree, hcount, hsucceeded, hrecord, hwinner, hreturns⟩ :=
    SharedWork.one_body_begins hscene hundisturbed hguarded h.blank hdone hcalled
  rw [hmirrors.tree] at hrecord
  -- those of the second build find what the first has left
  obtain ⟨hmade, hrecord⟩ := h.onRecord_second hcell hrecord
  obtain ⟨scene', hscene', -, hmirrors', hundisturbed', -⟩ := h.exists_scene hsecond hmade hcell
  obtain ⟨note, hnote, heq⟩ := List.mem_map.1 hsucceeded
  obtain ⟨hevent, request, hrequest, hidentity⟩ :=
    Yard.Note.event_of_entry (congrArg Prod.fst heq) (by simp)
  have hasks := sharing.first.traced.notes note hnote request hrequest
  have hlasts := h.lasts note hnote winner outputs hevent ((mem_names_iff hasks).2 hidentity)
  obtain ⟨hcount', hreturns'⟩ := SharedWork.no_body_begins hscene' hundisturbed' hrecord
    (by rw [map_trace]; exact hlasts)
  have hwinner' : winner ∈ sharing.names ∧ winner ∈ sharing.first.graph.names := by
    rw [hmirrors.progress] at hwinner
    obtain ⟨request, hrequest, hidentity⟩ := Yard.Phase.exists_of_progress hwinner
    refine ⟨(mem_names_iff (sharing.first.traced.asks hrequest)).2 hidentity, ?_⟩
    by_contra hgraph
    rw [Workspace.Run.idle_of_not_mem hgraph] at hrequest
    cases hrequest
  refine ⟨runCount_eq.trans hcount, runCount_eq.trans hcount', winner, hwinner'.1, hwinner'.2,
    sharing.deliver cell outputs, fun name hname hgraph => ?_, fun name hname hgraph => ?_⟩
  · obtain ⟨execution, hreturned, hstatus, hresult⟩ :=
      h.reported hfirst hmirrors cell hname hgraph
    have hexecution := (hreturns name).resolve_left (by simp [hreturned])
    rw [hreturned] at hexecution
    obtain rfl := Except.ok.inj (SharedWork.Progress.returned.inj hexecution)
    refine ⟨?_, hresult⟩
    by_cases heq : name = winner <;> simpa [heq] using hstatus
  · obtain ⟨execution, hreturned, hstatus, hresult⟩ :=
      h.reported hsecond hmirrors' cell hname hgraph
    obtain rfl := Except.ok.inj (hreturns' name _ hreturned)
    exact ⟨hstatus, hresult⟩

/-- A module on two platforms. -/
abbrev onePair : List Module := [{ name := "core", platforms := [.jvm, .js] }]

theorem tried_platforms :
    ∃ first ∈ (project onePair).tried? [] (outset ["core"]),
      ∃ second ∈ (project onePair).tried? [":core:genJs"] first.finish,
        Tried first second ∧
        Reads first second ⟨"/p/core/a.txt"⟩ ⟨"/p/build/tasks/_shared/gen"⟩ ∧
        first.graph.names = [⟨":core:genJvm"⟩, ⟨":core:genJs"⟩] := by
  decide +kernel

/-- **One command is run** for the two platforms of a module. -/
theorem cells_run_once_platforms :
    ∃ sharing : Sharing, ∃ folder files, sharing.Steady folder files ∧
      sharing.names = [⟨":core:genJvm"⟩, ⟨":core:genJs"⟩] ∧
      sharing.first.graph.names = sharing.names ∧
      sharing.runCount sharing.first = 1 ∧ sharing.runCount sharing.second = 0 := by
  obtain ⟨first, hfirst, second, hsecond, htried, hreads, hgraph⟩ := tried_platforms
  have hcareful : ∀ run ∈ [first, second], run.yard.Careful ["p", "cache"] "gen" :=
    List.forall_mem_cons.2 ⟨Workspace.careful_of_tried? hfirst (hreads.commands _ (by simp)) _,
      List.forall_mem_singleton.2
        (Workspace.careful_of_tried? hsecond (hreads.commands _ (by simp)) _)⟩
  have hagain := (Workspace.ofBuild_of_tried? hsecond).1
  have hnames : (htried.sharing hagain).names = [⟨":core:genJvm"⟩, ⟨":core:genJs"⟩] := by
    show ((project onePair).pipeline.cells generate).map (TaskName.ofCell generate.name) = _
    decide +kernel
  have hsteady := htried.steady hagain hreads hcareful
  have honce := cells_run_once hsteady ⟨⟨":core:genJvm"⟩, by simp [hnames],
    by rw [show (htried.sharing hagain).first = first from rfl, hgraph]; simp⟩
  exact ⟨_, _, _, hsteady, hnames, hgraph.trans hnames.symm, honce.1, honce.2.1⟩

/-- Two modules. -/
abbrev twoModules : List Module :=
  [{ name := "core", platforms := [.jvm] }, { name := "app", platforms := [.jvm] }]

theorem tried_modules :
    ∃ first ∈ (project twoModules).tried? [] (outset ["core", "app"]),
      ∃ second ∈ (project twoModules).tried? [":app:genJvm"] first.finish, Tried first second ∧
        (first.log.countP fun note =>
          note.task ∈ ((project twoModules).pipeline.cells generate).map
            (TaskName.ofCell generate.name) && note.event.isBegan) = 2 := by
  decide +kernel

/-- **Two commands are run** for two modules that share a key, in a project that is accepted, from
an empty cache: one module has a file that the other does not have. -/
theorem modules_run_twice :
    ∃ sharing : Sharing, sharing.workspace.config.validate = .ok () ∧
      sharing.first.start = outset ["core", "app"] ∧
      sharing.names = [⟨":core:genJvm"⟩, ⟨":app:genJvm"⟩] ∧
      sharing.runCount sharing.first = 2 := by
  obtain ⟨first, hfirst, second, hsecond, htried, hcount⟩ := tried_modules
  refine ⟨htried.sharing (Workspace.ofBuild_of_tried? hsecond).1, rfl,
    (Workspace.ofBuild_of_tried? hfirst).1, ?_, hcount⟩
  show ((project twoModules).pipeline.cells generate).map (TaskName.ofCell generate.name) = _
  decide +kernel

end Sharing

end BuildMatrix
