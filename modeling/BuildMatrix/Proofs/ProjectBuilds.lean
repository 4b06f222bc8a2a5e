import BuildMatrix.Proofs.GraphParts
import BuildMatrix.Proofs.Launches
import BuildMatrix.Proofs.RecordRemoval
import BuildMatrix.Workspace

/-!
# Builds of a project

A project is built with the cache: the graph of its tasks is made, the part that some targets ask
for is selected, the directories of the layout are made, and this part is run by a runner whose
tasks work at the same time, in any order of their steps and whatever their commands do to the tree.
In the end the scratch space is dropped. Every task in such a run is an action in a cell. The builds
that a machine does by itself are among these runs.
-/

namespace BuildMatrix

open FileTree

/-! ### The directories of a layout -/

namespace Layout

theorem grows_createEach {tree : FileTree} (htidy : tree.Tidy) (dirs : List Path) :
    tree.Grows (createEach tree dirs).2 ∧ (createEach tree dirs).2.Tidy := by
  induction dirs generalizing tree with
  | nil => exact ⟨.refl tree, htidy⟩
  | cons dir rest ih =>
    have hgrows := (htidy.sound.createAll dir).1
    have hmade := htidy.createAll dir
    rw [createEach]
    generalize tree.createAll dir = made at hgrows hmade
    rcases made with ⟨error | ⟨⟩, made⟩
    · exact ⟨hgrows, hmade⟩
    · exact ⟨hgrows.trans (ih hmade).1, (ih hmade).2⟩

theorem grows_init {layout : Layout} {tree made : FileTree} (htidy : tree.Tidy)
    (hinit : layout.init tree = (.ok (), made)) : tree.Grows made ∧ made.Tidy := by
  have hgrows := grows_createEach htidy
    [layout.buildRoot, layout.tasksRoot, layout.logsRoot, layout.tempRoot, layout.cacheRoot]
  rw [init] at hinit
  rwa [hinit] at hgrows

/-- **A directory that outlives the scratch space** keeps what is in it, but for the scratch space
itself. -/
theorem entry?_teardown {layout : Layout} {tree : FileTree} {folder : Location}
    {name : String} (hfolder : entry? (layout.teardown tree) folder = some .directory)
    (hname : name ≠ "temp") :
    entry? (layout.teardown tree) (folder ++ [name]) = tree.entry? (folder ++ [name]) := by
  have hdropped : ∀ {location : Location}, tree.locate false layout.tempRoot = .ok location →
      entry? (tree.eraseAll location) folder = some .directory →
      entry? (tree.eraseAll location) (folder ++ [name]) = tree.entry? (folder ++ [name]) := by
    intro location hlocate hkept
    obtain ⟨parent, rfl⟩ := exists_of_locate_child isFileName_temp hlocate
    have hne : parent ++ ["temp"] ≠ [] := by simp
    rw [entry?_eraseAll tree hne] at hkept ⊢
    have hbelow : ¬parent ++ ["temp"] <+: folder := fun hbelow => by simp [hbelow] at hkept
    rw [if_neg]
    intro hearlier
    rcases List.prefix_concat_iff.1 hearlier with heq | hearlier
    · exact hname (by simpa using (congrArg List.getLast? heq).symm)
    · exact hbelow hearlier
  rcases hlookup : tree.lookup false layout.tempRoot with error | ⟨location, content | _ | target⟩
  · simp only [teardown, removeAll, hlookup]
  · simp only [teardown, removeAll, hlookup]
  · rw [teardown, tempRoot, removeAll_child isFileName_temp hlookup] at hfolder ⊢
    exact hdropped (lookup_eq_ok_iff.1 hlookup).1 hfolder
  · simp only [teardown, removeAll, hlookup] at hfolder ⊢
    exact hdropped (lookup_eq_ok_iff.1 hlookup).1 hfolder

end Layout

/-! ### Builds of a project -/

namespace Workspace

/-- Where the tasks of a project are performed, **with the cache**. -/
def place (workspace : Workspace) (system : System) : Place where
  layout := workspace.layout
  cache := { dir := workspace.layout.cacheRoot }
  system

/-- The command of an action **in a cell**. -/
def command (workspace : Workspace) (action : Action) (cell : Cell) : Command :=
  .ofCell action cell workspace.pipeline.project.root workspace.pipeline.timeout

/-- A **build of a project**: which targets it is for, what commands may do, the tree it starts
from and the one in which the directories of the layout are made, and the runner whose tasks are at
work there. -/
structure Run (workspace : Workspace) where
  whole : TaskGraph Work
  taskGraph_eq : workspace.taskGraph = .ok whole
  targets : List String
  graph : TaskGraph Work
  select_eq : whole.select targets = .ok graph
  limit : Nat
  system : System
  effect : TaskName → FileTree → FileTree → Prop
  start : FileTree
  made : FileTree
  init_eq : workspace.layout.init start = (.ok (), made)
  σ : Type
  runner : Schedule.Runner Work σ
  crew : Yard.Crew ⟨graph, workspace.place system, rfl, effect⟩ runner
  outset : σ
  valid : crew.Valid outset
  fresh : crew.floor outset = .fresh made

namespace Run

variable {workspace : Workspace} (run : workspace.Run)

/-- The tasks at work. -/
def yard : Yard := ⟨run.graph, workspace.place run.system, rfl, run.effect⟩

def report : Report := (run.graph.execute run.runner run.limit run.outset).1

/-- How far the tasks have come **in the end**, and what has happened. -/
def floor : Yard.Floor :=
  run.crew.floor (run.graph.execute run.runner run.limit run.outset).2.2

/-- What the tasks of a run did. -/
def log : List Yard.Note := run.floor.log

/-- The trees that there were, from the directories of the layout on. -/
def trees : List FileTree := run.floor.trees run.made

/-- The tree that is left, without the scratch space. -/
def finish : FileTree := workspace.layout.teardown run.floor.tree

variable {run} {task : TaskName} {request : Request}

theorem wellFormed : run.graph.WellFormed :=
  (TaskGraph.select_spec (taskGraph_spec run.taskGraph_eq).1 run.select_eq).1

/-- **The history of a run** says how its tasks have ended. -/
theorem follows : (run.crew.view (.fresh run.made)).Follows
    (run.graph.execute run.runner run.limit run.outset).2.2
    (run.graph.history run.runner run.limit run.outset) := by
  refine (run.crew.shows _).follows wellFormed run.limit ⟨run.valid, ?_⟩ fun task => ?_
  · rw [run.fresh]
    exact .refl
  · simp only [Yard.Crew.view, run.fresh]
    rfl

/-- **All that happens is made of steps of the tasks.** -/
theorem steps (run : workspace.Run) : run.yard.Run (.fresh run.made) run.floor := follows.valid.2

theorem traced (run : workspace.Run) : run.yard.Traced run.made run.floor := run.steps.traced

/-- **What a run that succeeds reports of a task is what the task got**: it has asked for its work,
the call has returned, and the report has what was made of it. -/
theorem of_success (hsuccess : run.report.isSuccess = true) (htask : task ∈ run.graph.names) :
    ∃ request execution,
      run.floor.phase task = .asking request (.returned (.ok execution)) ∧
      (task, if execution.upToDate then .skipped else .completed) ∈ run.report.statuses ∧
      ∃ result, run.report.results.get? task = some result ∧
        result.output = request.deliver execution.outputs := by
  obtain ⟨schedule, htracks, hover, hschedule⟩ :=
    run.wellFormed.tracks_execute run.runner run.limit run.outset
  have hreport : run.report = schedule.toReport := hschedule
  rw [hreport] at hsuccess ⊢
  obtain ⟨product, hended, hstatus, result, hresult, houtput⟩ :=
    run.follows.of_success htracks hover hsuccess htask
  obtain ⟨request, execution, hphase, rfl⟩ := Yard.Phase.exists_of_outcome?_eq_ok hended
  exact ⟨request, execution, hphase, hstatus, result, hresult, houtput⟩

/-- **A task that is not in the graph is never started.** -/
theorem idle_of_not_mem (htask : task ∉ run.graph.names) : run.floor.phase task = .idle := by
  obtain ⟨schedule, htracks, -⟩ :=
    run.wellFormed.tracks_execute run.runner run.limit run.outset
  exact (run.follows.idle_iff task).2 fun hmem => htask (htracks.orderly.starts_mem task hmem)

/-! ### What tasks ask for -/

/-- **A task that asks is an action in a cell.** -/
theorem exists_cell (hasks : run.yard.Asks run.trees task request) :
    ∃ action ∈ workspace.pipeline.actions, ∃ cell ∈ workspace.pipeline.cells action,
      task = TaskName.ofCell action.name cell := by
  obtain ⟨node, -, hnode, -⟩ := hasks
  obtain ⟨hwhole, htasks⟩ := taskGraph_spec run.taskGraph_eq
  obtain ⟨whole, hget, -⟩ := (TaskGraph.select_spec hwhole run.select_eq).2 task node hnode
  have hmem : whole.task ∈ run.whole.nodes.map (·.task) :=
    List.mem_map_of_mem (TaskGraph.mem_nodes_of_get?_eq_some hget)
  rw [htasks] at hmem
  obtain ⟨action, haction, hmem⟩ := List.mem_flatMap.1 hmem
  obtain ⟨cell, hcell, htask⟩ := List.mem_map.1 hmem
  refine ⟨action, haction, cell, hcell, ?_⟩
  rw [← Pipeline.name_task, htask]
  exact (TaskGraph.name_of_get?_eq_some hget).symm

/-- **What a cell asks for**: a classpath is known by the name of its task, and a command asks with
the files that it reads in one of the trees. -/
theorem request_of_cell (hasks : run.yard.Asks run.trees task request) {action : Action}
    {cell : Cell} (haction : action ∈ workspace.pipeline.actions)
    (hcell : cell ∈ workspace.pipeline.cells action)
    (hname : task = TaskName.ofCell action.name cell) :
    action.output = .classpath ∧ request.identity = task.text ∨
      action.output ≠ .classpath ∧ ∃ dependencies files, ∃ tree ∈ run.trees,
        (workspace.command action cell).inputFiles tree workspace.layout = .ok files ∧
        request = (workspace.command action cell).request (workspace.place run.system)
          dependencies tree files := by
  obtain ⟨node, dependencies, hnode, tree, htree, hrequest⟩ := hasks
  obtain ⟨hwhole, -⟩ := taskGraph_spec run.taskGraph_eq
  obtain ⟨whole, hget, heq⟩ := (TaskGraph.select_spec hwhole run.select_eq).2 task node hnode
  rw [hname] at hget
  rw [← heq, task_of_get? run.taskGraph_eq haction hcell hget, Pipeline.task] at hrequest
  rcases Work.request_eq_ok hrequest with ⟨hwork, rfl⟩ | ⟨command, files, hwork, hfiles, rfl⟩ <;>
    split at hwork
  · next hclasspath => exact .inl ⟨hclasspath, rfl⟩
  · cases hwork
  · cases hwork
  · next hcommand =>
      obtain rfl := Work.command.inj hwork
      exact .inr ⟨hcommand, dependencies, files, tree, htree, hfiles, rfl⟩

/-! ### Builds that a machine does by itself -/

section OfBuild

variable {whole graph : TaskGraph Work} {targets : List String} {made : FileTree}
  {session : Session}

/-- **A build that a machine does by itself**, as a run of its tasks at work. -/
def ofBuild (hwhole : workspace.taskGraph = .ok whole) (hgraph : whole.select targets = .ok graph)
    (hinit : workspace.layout.init session.tree = (.ok (), made)) (system : System)
    (limit : Nat) : workspace.Run where
  whole
  taskGraph_eq := hwhole
  targets
  graph
  select_eq := hgraph
  limit
  system
  effect := Build.Effect ⟨workspace.place system, limit⟩ graph
  start := session.tree
  made
  init_eq := hinit
  σ := BuildState × Yard.Floor
  runner := Build.watched ⟨workspace.place system, limit⟩
  crew := Build.crew ⟨workspace.place system, limit⟩ graph rfl
  outset := ({ session := { session with tree := made } }, .fresh made)
  valid := Build.watches_fresh _
  fresh := rfl

/-- **What the build reports and leaves** is what the run does. -/
theorem ofBuild_eq (hwhole : workspace.taskGraph = .ok whole)
    (hgraph : whole.select targets = .ok graph)
    (hinit : workspace.layout.init session.tree = (.ok (), made)) (system : System) (limit : Nat) :
    ∃ events after, Build.run ⟨workspace.place system, limit⟩ graph session =
        (.ok ((ofBuild hwhole hgraph hinit system limit).report, events), after) ∧
      after.tree = (ofBuild hwhole hgraph hinit system limit).finish := by
  have hvalid := (ofBuild hwhole hgraph hinit system limit).follows.valid.1
  have hsame := (Build.watched_refines ⟨workspace.place system, limit⟩).execute graph limit
    ({ session := { session with tree := made } }, .fresh made)
  unfold Build.run
  rw [show (⟨workspace.place system, limit⟩ : Build).place.layout.init session.tree =
    (.ok (), made) from hinit]
  simp only [← hsame]
  refine ⟨_, _, rfl, ?_⟩
  exact congrArg workspace.layout.teardown (Build.Watches.tree_eq hvalid).symm

end OfBuild

end Run

end Workspace

end BuildMatrix
