import BuildMatrix.Proofs.PipelineEdges
import BuildMatrix.Workspace
import Mathlib.Algebra.GroupWithZero.Nat

/-!
# Parts of task graphs

The part of a graph that some targets ask for is found by following dependencies, name by name. Each
name that is met for the first time adds its dependencies to those that are still to be looked at;
so the number of the targets and of all dependencies bounds the steps, and what is found is closed
under dependencies. Hence a part of a graph is a graph of the same shape, with the same tasks. The
tasks of a project's graph are those of its actions, one for each cell.
-/

namespace BuildMatrix

variable {pipeline : Pipeline} {action : Action} {cell : Cell}

namespace TaskGraph

variable {ω : Type} {graph part : TaskGraph ω} {nodes : List (Node ω)} {name : TaskName}

/-! ### Following dependencies -/

/-- How many dependencies the nodes have whose names were **not met yet**. -/
def openEdges (kept : List TaskName) (nodes : List (Node ω)) : Nat :=
  (nodes.map fun n => if n.name ∈ kept then 0 else n.dependencies.length).sum

theorem openEdges_cons (kept : List TaskName) (node : Node ω) (rest : List (Node ω)) :
    openEdges kept (node :: rest) =
      (if node.name ∈ kept then 0 else node.dependencies.length) + openEdges kept rest := by
  rw [openEdges, List.map_cons, List.sum_cons, openEdges]

theorem edgeCount_eq (graph : TaskGraph ω) : graph.edgeCount = openEdges [] graph.nodes := by
  have hfoldl : ∀ (nodes : List (Node ω)) (count : Nat),
      nodes.foldl (fun count node => count + node.dependencies.length) count =
        count + openEdges [] nodes := by
    intro nodes
    induction nodes with
    | nil => exact fun count => rfl
    | cons node rest ih =>
      intro count
      rw [List.foldl_cons, ih, openEdges_cons, if_neg List.not_mem_nil, Nat.add_assoc]
  rw [edgeCount, hfoldl, Nat.zero_add]

theorem openEdges_of_notMem (h : name ∉ nodes.map Node.name) (kept : List TaskName) :
    openEdges (name :: kept) nodes = openEdges kept nodes := by
  rw [openEdges, openEdges]
  congr 1
  refine List.map_congr_left fun node hnode => ?_
  have hne : node.name ≠ name := fun heq => h (heq ▸ List.mem_map_of_mem hnode)
  simp [hne]

theorem openEdges_add {kept : List TaskName} (hkept : name ∉ kept)
    (hnodup : (nodes.map Node.name).Nodup) {node : Node ω}
    (h : nodes.find? (fun n => n.name == name) = some node) :
    openEdges (name :: kept) nodes + node.dependencies.length = openEdges kept nodes := by
  induction nodes with
  | nil => cases h
  | cons first rest ih =>
    obtain ⟨hfirst, hrest⟩ := List.nodup_cons.1 hnodup
    rw [openEdges_cons, openEdges_cons]
    by_cases heq : first.name = name
    · obtain rfl : first = node := by simpa [List.find?_cons, heq] using h
      rw [openEdges_of_notMem (heq ▸ hfirst), heq, if_pos List.mem_cons_self, if_neg hkept]
      omega
    · rw [List.find?_cons_of_neg (by simpa using heq)] at h
      have hsame : (first.name ∈ name :: kept) = (first.name ∈ kept) := by simp [heq]
      simp only [hsame]
      have := ih hrest h
      omega

/-- **What is found is closed under dependencies**, if there are enough steps, and holds what was
found before and what was still to be looked at. -/
theorem reach_closed (hnames : graph.names.Nodup) (fuel : Nat) (kept queue : List TaskName)
    (hfuel : queue.length + openEdges kept graph.nodes < fuel)
    (hclosed : ∀ name ∈ kept, ∀ d ∈ graph.dependenciesOf name, d ∈ kept ∨ d ∈ queue) :
    (∀ name, name ∈ kept ∨ name ∈ queue → name ∈ graph.reach fuel kept queue) ∧
      ∀ name ∈ graph.reach fuel kept queue, ∀ d ∈ graph.dependenciesOf name,
        d ∈ graph.reach fuel kept queue := by
  fun_induction reach graph fuel kept queue with
  | case1 kept queue => omega
  | case2 kept fuel =>
    refine ⟨fun name hname => by simpa using hname, fun name hname d hd => ?_⟩
    simpa using hclosed name hname d hd
  | case3 fuel kept name rest hmem ih =>
    have hname : name ∈ kept := List.contains_iff_mem.1 hmem
    rw [List.length_cons] at hfuel
    obtain ⟨hfound, hresult⟩ := ih (by omega) fun other hother d hd => by
      rcases hclosed other hother d hd with hd | hd
      · exact .inl hd
      · rcases List.mem_cons.1 hd with rfl | hd
        · exact .inl hname
        · exact .inr hd
    refine ⟨fun other hother => hfound other ?_, hresult⟩
    rcases hother with hother | hother
    · exact .inl hother
    · rcases List.mem_cons.1 hother with rfl | hother
      · exact .inl hname
      · exact .inr hother
  | case4 fuel kept name rest hmem ih =>
    have hname : name ∉ kept := fun h => hmem (List.contains_iff_mem.2 h)
    rw [List.length_cons] at hfuel
    -- what the name opens is what it adds to the queue
    have hopen : (graph.dependenciesOf name).length + openEdges (name :: kept) graph.nodes =
        openEdges kept graph.nodes := by
      rw [dependenciesOf, get?]
      cases hfind : graph.nodes.find? (fun n => n.name == name) with
      | none =>
        have hnone : name ∉ graph.nodes.map Node.name := by
          simpa [List.find?_eq_none] using hfind
        rw [openEdges_of_notMem hnone]
        simp
      | some node =>
        have := openEdges_add hname hnames hfind
        simp only
        omega
    obtain ⟨hfound, hresult⟩ := ih (by rw [List.length_append]; omega) fun other hother d hd => by
      rcases List.mem_cons.1 hother with rfl | hother
      · exact .inr (List.mem_append_left _ hd)
      · rcases hclosed other hother d hd with hd | hd
        · exact .inl (List.mem_cons_of_mem _ hd)
        · rcases List.mem_cons.1 hd with rfl | hd
          · exact .inl List.mem_cons_self
          · exact .inr (List.mem_append_right _ hd)
    refine ⟨fun other hother => hfound other ?_, hresult⟩
    rcases hother with hother | hother
    · exact .inl (List.mem_cons_of_mem _ hother)
    · rcases List.mem_cons.1 hother with rfl | hother
      · exact .inl List.mem_cons_self
      · exact .inr (List.mem_append_right _ hother)

/-! ### Parts -/

/-- The **part of a graph** that some tasks need is well formed, and its tasks are those of the
graph. -/
theorem closure_spec (hgraph : graph.WellFormed) {roots : List TaskName}
    (h : graph.closure roots = .ok part) :
    part.WellFormed ∧ ∀ name node, part.get? name = some node →
      ∃ whole, graph.get? name = some whole ∧ whole.task = node.task := by
  rw [closure] at h
  split at h
  · cases h
  obtain ⟨-, hclosed⟩ := reach_closed hgraph.names_nodup (roots.length + graph.edgeCount + 1) []
    roots (by rw [edgeCount_eq]; omega) (by simp)
  simp only at h
  generalize graph.reach (roots.length + graph.edgeCount + 1) [] roots = kept at h hclosed
  have hnodes : ∀ {node}, node ∈ graph.nodes.filter (fun n => kept.contains n.name) ↔
      node ∈ graph.nodes ∧ node.name ∈ kept := by simp [List.mem_filter]
  have hof : ∀ name, Dependencies.of ((graph.nodes.filter fun n => kept.contains n.name).map
      fun n => (n.name, n.dependencies)) name = [] ∨ name ∈ kept ∧
        Dependencies.of ((graph.nodes.filter fun n => kept.contains n.name).map
          fun n => (n.name, n.dependencies)) name = graph.dependenciesOf name := by
    intro name
    rcases Dependencies.mem_or_of_eq_nil ((graph.nodes.filter fun n => kept.contains n.name).map
      fun n => (n.name, n.dependencies)) name with hmem | hnil
    · obtain ⟨node, hnode, heq⟩ := List.mem_map.1 hmem
      obtain ⟨rfl, hdependencies⟩ := Prod.mk.inj heq
      obtain ⟨hnode, hkept⟩ := hnodes.1 hnode
      exact .inr ⟨hkept,
        hdependencies.symm.trans (dependenciesOf_eq (hgraph.get?_of_mem hnode)).symm⟩
    · exact .inl hnil
  refine ⟨GraphBuilder.wellFormed_of_assemble ?_ (fun name => ?_) (fun name d hd => ?_) h,
    fun name node hnode => ?_⟩
  · rw [List.map_map]
    exact hgraph.names_nodup.sublist (List.filter_sublist.map _)
  · rcases hof name with hnil | ⟨-, heq⟩
    · rw [hnil]
      exact List.nodup_nil
    · rw [heq]
      exact hgraph.dependencies_nodup name
  · rcases hof name with hnil | ⟨hkept, heq⟩
    · rw [hnil] at hd
      cases hd
    · rw [heq] at hd
      obtain ⟨other, hother⟩ := exists_get?_eq_some (hgraph.mem_names name d hd)
      obtain rfl := name_of_get?_eq_some hother
      rw [List.map_map]
      exact List.mem_map_of_mem (f := Node.name) (hnodes.2
        ⟨mem_nodes_of_get?_eq_some hother, hclosed name hkept _ hd⟩)
  · rw [GraphBuilder.get?_of_assemble h] at hnode
    obtain ⟨task, htask, rfl⟩ := Option.map_eq_some_iff.1 hnode
    obtain ⟨whole, hwhole, rfl⟩ := List.mem_map.1 (List.mem_of_find?_eq_some htask)
    have hname : whole.task.name = name := by simpa using List.find?_some htask
    refine ⟨whole, ?_, rfl⟩
    exact hname ▸ hgraph.get?_of_mem (hnodes.1 hwhole).1

theorem select_spec (hgraph : graph.WellFormed) {targets : List String}
    (h : graph.select targets = .ok part) :
    part.WellFormed ∧ ∀ name node, part.get? name = some node →
      ∃ whole, graph.get? name = some whole ∧ whole.task = node.task := by
  rw [select] at h
  split at h
  · obtain rfl := Except.ok.inj h
    exact ⟨hgraph, fun name node hnode => ⟨node, hnode, rfl⟩⟩
  · split at h
    · cases h
    · exact closure_spec hgraph h

end TaskGraph

/-! ### The graph of a project -/

open Declaration in
theorem Pipeline.registered_declarations {declared : Nat × GraphBuilder Work}
    (h : pipeline.register = .ok declared) :
    registered pipeline.declarations = pipeline.actions.flatMap fun action =>
      (pipeline.cells action).map (pipeline.task action) := by
  obtain ⟨-, -, hcount⟩ := registerActions_spec [] h
  rw [List.nil_append, effective, List.nil_append, ← declarations] at hcount
  rw [registered, hcount, declarations, List.filterMap_flatMap]
  exact List.flatMap_congr fun action _ => pipeline.filterMap_task?_actionDeclarations action

namespace Workspace

variable {workspace : Workspace} {graph : TaskGraph Work}

/-- **The tasks of a project's graph** are those of its actions, one for each cell, and the graph is
well formed. -/
theorem taskGraph_spec (h : workspace.taskGraph = .ok graph) :
    graph.WellFormed ∧ graph.nodes.map (·.task) = workspace.pipeline.actions.flatMap fun action =>
      (workspace.pipeline.cells action).map (workspace.pipeline.task action) := by
  rw [taskGraph] at h
  split at h
  · cases h
  next count builder hregister =>
  split at h
  · cases h
  next built hbuild =>
  obtain rfl := Except.ok.inj h
  obtain ⟨-, rfl, -, -⟩ := Pipeline.register_spec hregister
  refine ⟨(GraphBuilder.declared_declareAll _).wellFormed hbuild, ?_⟩
  obtain ⟨-, hassemble⟩ := GraphBuilder.assemble_of_build_eq_ok hbuild
  obtain ⟨-, rfl⟩ := GraphBuilder.assemble_eq_ok_iff.1 hassemble
  rw [List.map_map, GraphBuilder.tasks_declareAll, ← Pipeline.registered_declarations hregister]
  exact List.map_id _

theorem task_of_get? (h : workspace.taskGraph = .ok graph)
    (haction : action ∈ workspace.pipeline.actions) (hcell : cell ∈ workspace.pipeline.cells action)
    {node : Node Work} (hnode : graph.get? (TaskName.ofCell action.name cell) = some node) :
    node.task = workspace.pipeline.task action cell := by
  obtain ⟨hgraph, htasks⟩ := taskGraph_spec h
  have hmem : workspace.pipeline.task action cell ∈ graph.nodes.map (·.task) := by
    rw [htasks]
    exact List.mem_flatMap.2 ⟨action, haction, List.mem_map_of_mem hcell⟩
  obtain ⟨other, hother, heq⟩ := List.mem_map.1 hmem
  have hname : other.name = TaskName.ofCell action.name cell := by
    rw [Node.name, heq, Pipeline.name_task]
  have hget := hgraph.get?_of_mem hother
  rw [hname, hnode] at hget
  rw [Option.some.inj hget, heq]

end Workspace

end BuildMatrix
