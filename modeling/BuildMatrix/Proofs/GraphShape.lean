import BuildMatrix.Proofs.Declarations
import BuildMatrix.Proofs.Sorting
import Mathlib.Data.List.Induction
import Mathlib.Logic.Relation

/-!
# The shape of task graphs

A graph that is built from declarations has a shape that everything else rests on: each task stands
in it once, depends on tasks of the graph and on none of them twice, is waited for by exactly the
tasks that depend on it, and comes after its dependencies in an order of all tasks. The order makes
the graph well founded, so that statements about tasks can be proved along the dependencies.
-/

namespace BuildMatrix

open Dependencies

variable {ω : Type} {graph : TaskGraph ω} {name : TaskName}

namespace TaskGraph

variable {node : Node ω} {d : TaskName}

/-! ### Look-ups -/

theorem name_of_get?_eq_some (h : graph.get? name = some node) : node.name = name := by
  simpa using List.find?_some h

theorem mem_nodes_of_get?_eq_some (h : graph.get? name = some node) : node ∈ graph.nodes :=
  List.mem_of_find?_eq_some h

theorem isSome_get?_iff : (graph.get? name).isSome ↔ name ∈ graph.names := by
  simp [get?, names, List.find?_isSome]

theorem exists_get?_eq_some (h : name ∈ graph.names) : ∃ node, graph.get? name = some node :=
  Option.isSome_iff_exists.mp (isSome_get?_iff.mpr h)

theorem dependenciesOf_eq (h : graph.get? name = some node) :
    graph.dependenciesOf name = node.dependencies := by
  rw [dependenciesOf, h]

theorem dependentsOf_eq (h : graph.get? name = some node) :
    graph.dependentsOf name = node.dependents := by
  rw [dependentsOf, h]

theorem dependentsOf_eq_nil (h : name ∉ graph.names) : graph.dependentsOf name = [] := by
  rw [dependentsOf]
  cases hget : graph.get? name with
  | none => rfl
  | some node => exact absurd (isSome_get?_iff.mp (hget ▸ rfl)) h

/-! ### Well-formed graphs -/

/-- The **shape** of a graph that was built from declarations. -/
structure WellFormed (graph : TaskGraph ω) : Prop where
  names_nodup : graph.names.Nodup
  dependencies_nodup : ∀ name, (graph.dependenciesOf name).Nodup
  dependents_nodup : ∀ name, (graph.dependentsOf name).Nodup
  mem_names : ∀ name, ∀ d ∈ graph.dependenciesOf name, d ∈ graph.names
  mem_dependentsOf : ∀ name other,
    other ∈ graph.dependentsOf name ↔ name ∈ graph.dependenciesOf other
  sorted_perm : graph.sorted.Perm graph.names
  mem_before : ∀ before name after, graph.sorted = before ++ name :: after →
    ∀ d ∈ graph.dependenciesOf name, d ∈ before

theorem WellFormed.get?_of_mem (h : graph.WellFormed) (hmem : node ∈ graph.nodes) :
    graph.get? node.name = some node := by
  obtain ⟨other, hother⟩ := exists_get?_eq_some (List.mem_map_of_mem (f := Node.name) hmem)
  rw [hother, List.inj_on_of_nodup_map h.names_nodup (mem_nodes_of_get?_eq_some hother) hmem
    (name_of_get?_eq_some hother)]

/-- Everything a task **needs**: its dependencies, theirs, and so on. -/
def Needs (graph : TaskGraph ω) : TaskName → TaskName → Prop :=
  Relation.TransGen fun name d => d ∈ graph.dependenciesOf name

theorem mem_names_of_mem_dependenciesOf (h : d ∈ graph.dependenciesOf name) :
    name ∈ graph.names := by
  rw [← isSome_get?_iff]
  cases hget : graph.get? name with
  | none => simp [dependenciesOf, hget] at h
  | some node => rfl

theorem Needs.mem_names (h : graph.Needs name d) : name ∈ graph.names := by
  obtain ⟨c, hc, -⟩ := Relation.TransGen.head'_iff.mp h
  exact mem_names_of_mem_dependenciesOf hc

/-- **Induction along the dependencies**: what holds of a task whenever it holds of all its
dependencies holds of every task. -/
theorem WellFormed.induction (h : graph.WellFormed) {P : TaskName → Prop}
    (step : ∀ name ∈ graph.names, (∀ d ∈ graph.dependenciesOf name, P d) → P name) :
    ∀ name ∈ graph.names, P name := by
  suffices hall : ∀ before after, graph.sorted = before ++ after → ∀ name ∈ before, P name by
    intro name hname
    exact hall graph.sorted [] (by simp) name (h.sorted_perm.mem_iff.mpr hname)
  intro before
  induction before using List.reverseRecOn with
  | nil => simp
  | append_singleton before name ih =>
    intro after hsorted other hother
    have hsplit : graph.sorted = before ++ name :: after := by simpa using hsorted
    rcases List.mem_append.mp hother with hbefore | hlast
    · exact ih (name :: after) hsplit other hbefore
    · rw [List.mem_singleton.mp hlast]
      have hmem : name ∈ graph.names := h.sorted_perm.mem_iff.mp (by simp [hsplit])
      refine step name hmem fun d hd => ?_
      exact ih (name :: after) hsplit d (h.mem_before before name after hsplit d hd)

end TaskGraph

/-! ### Built graphs -/

namespace GraphBuilder

variable {builder : GraphBuilder ω}

/-- The dependencies of registered tasks. -/
def taskDependencies (tasks : List (Task ω)) (edges : Dependencies) : Dependencies :=
  tasks.map fun t => (t.name, edges.of t.name)

theorem map_fst_taskDependencies (tasks : List (Task ω)) (edges : Dependencies) :
    (taskDependencies tasks edges).map (·.1) = tasks.map (·.name) := by
  simp [taskDependencies]

theorem of_taskDependencies {tasks : List (Task ω)} (edges : Dependencies)
    (hnames : (tasks.map (·.name)).Nodup) (h : name ∈ tasks.map (·.name)) :
    (taskDependencies tasks edges).of name = edges.of name := by
  obtain ⟨t, ht, rfl⟩ := List.mem_map.mp h
  have hkeys := (map_fst_taskDependencies tasks edges).symm ▸ hnames
  exact of_eq_of_mem hkeys (List.mem_map_of_mem ht)

section Assembled

variable {tasks : List (Task ω)} {edges : Dependencies} {graph : TaskGraph ω}

/-- The node that a task becomes. -/
def assembledNode (tasks : List (Task ω)) (edges : Dependencies) (task : Task ω) : Node ω where
  task
  dependencies := (taskDependencies tasks edges).of task.name
  dependents := (taskDependencies tasks edges).dependents task.name
  wave := (((taskDependencies tasks edges).waveTable
    (taskDependencies tasks edges).sort).get? task.name).getD 0

theorem assemble_eq_ok_iff :
    assemble tasks edges = .ok graph ↔
      (taskDependencies tasks edges).sort.length = (taskDependencies tasks edges).length ∧
      graph = ⟨tasks.map (assembledNode tasks edges), (taskDependencies tasks edges).sort⟩ := by
  unfold assemble
  change (if (taskDependencies tasks edges).sort.length = (taskDependencies tasks edges).length
    then _ else _) = _ ↔ _
  split
  · rename_i hlength
    exact ⟨fun h => ⟨hlength, (Except.ok.inj h).symm⟩, fun h => by rw [h.2]; rfl⟩
  · rename_i hlength
    exact ⟨fun h => absurd h (by simp), fun h => absurd h.1 hlength⟩

theorem names_of_assemble (h : assemble tasks edges = .ok graph) :
    graph.names = tasks.map (·.name) := by
  obtain ⟨-, rfl⟩ := assemble_eq_ok_iff.mp h
  simp [TaskGraph.names, Node.name, assembledNode]

theorem get?_of_assemble (h : assemble tasks edges = .ok graph) (name : TaskName) :
    graph.get? name = (tasks.find? fun t => t.name == name).map (assembledNode tasks edges) := by
  obtain ⟨-, rfl⟩ := assemble_eq_ok_iff.mp h
  rw [TaskGraph.get?, List.find?_map]
  rfl

theorem dependenciesOf_of_assemble (h : assemble tasks edges = .ok graph) (name : TaskName) :
    graph.dependenciesOf name = (taskDependencies tasks edges).of name := by
  rw [TaskGraph.dependenciesOf, get?_of_assemble h]
  cases hfind : tasks.find? fun t => t.name == name with
  | some t =>
    have ht : t.name = name := by simpa using List.find?_some hfind
    simp [assembledNode, ht]
  | none =>
    have hout : name ∉ (taskDependencies tasks edges).map (·.1) := by
      rw [map_fst_taskDependencies]
      simpa using List.find?_eq_none.mp hfind
    simp [of_eq_nil hout]

theorem dependentsOf_of_assemble (h : assemble tasks edges = .ok graph)
    (hname : name ∈ graph.names) :
    graph.dependentsOf name = (taskDependencies tasks edges).dependents name := by
  obtain ⟨node, hnode⟩ := TaskGraph.exists_get?_eq_some hname
  have htask := get?_of_assemble h name
  rw [hnode] at htask
  obtain ⟨t, hfind, rfl⟩ := Option.map_eq_some_iff.mp htask.symm
  have ht : t.name = name := by simpa using List.find?_some hfind
  rw [TaskGraph.dependentsOf_eq hnode, assembledNode, ht]

/-- The **shape of a graph** that is put together from tasks and dependencies among them. -/
theorem wellFormed_of_assemble (hnames : (tasks.map (·.name)).Nodup)
    (htargets : ∀ name, (edges.of name).Nodup)
    (hclosed : ∀ name, ∀ d ∈ edges.of name, d ∈ tasks.map (·.name))
    (h : assemble tasks edges = .ok graph) : graph.WellFormed := by
  have hkeys : ((taskDependencies tasks edges).map (·.1)).Nodup :=
    (map_fst_taskDependencies tasks edges).symm ▸ hnames
  have hnodup : ∀ e ∈ taskDependencies tasks edges, e.2.Nodup := by
    intro e he
    obtain ⟨t, -, rfl⟩ := List.mem_map.mp he
    exact htargets t.name
  have hof : ∀ name d, d ∈ graph.dependenciesOf name → d ∈ edges.of name := by
    intro name d hd
    have hname := TaskGraph.mem_names_of_mem_dependenciesOf hd
    rw [names_of_assemble h] at hname
    rwa [dependenciesOf_of_assemble h, of_taskDependencies edges hnames hname] at hd
  have hmem : ∀ name, ∀ d ∈ graph.dependenciesOf name, d ∈ graph.names := by
    intro name d hd
    rw [names_of_assemble h]
    exact hclosed name d (hof name d hd)
  obtain ⟨hlength, hgraph⟩ := assemble_eq_ok_iff.mp h
  have hsorted : graph.sorted = (taskDependencies tasks edges).sort := by rw [hgraph]
  refine ⟨names_of_assemble h ▸ hnames, ?_, ?_, hmem, ?_, ?_, ?_⟩
  · intro name
    rw [dependenciesOf_of_assemble h]
    rcases mem_or_of_eq_nil (taskDependencies tasks edges) name with hd | hnil
    · exact hnodup _ hd
    · exact hnil ▸ List.nodup_nil
  · intro name
    by_cases hname : name ∈ graph.names
    · rw [dependentsOf_of_assemble h hname]
      exact nodup_dependents hkeys name
    · rw [TaskGraph.dependentsOf_eq_nil hname]
      exact List.nodup_nil
  · intro name other
    by_cases hname : name ∈ graph.names
    · rw [dependentsOf_of_assemble h hname, dependenciesOf_of_assemble h]
      exact mem_dependents hkeys
    · rw [TaskGraph.dependentsOf_eq_nil hname]
      exact ⟨fun hother => absurd hother (by simp), fun hd => absurd (hmem other name hd) hname⟩
  · rw [names_of_assemble h, hsorted, ← map_fst_taskDependencies tasks edges]
    exact perm_sort hkeys hnodup hlength
  · intro before name after hsplit d hd
    rw [dependenciesOf_of_assemble h] at hd
    exact mem_before_of_sort hkeys hnodup (hsorted ▸ hsplit) d hd

end Assembled

theorem assemble_of_build_eq_ok (h : builder.build = .ok graph) :
    unresolved? (builder.tasks.map (·.name)) builder.edges = none ∧
      assemble builder.tasks builder.edges = .ok graph := by
  rw [build] at h
  split at h
  · exact absurd h (by simp)
  · rename_i hresolved
    split at h
    · exact absurd h (by simp)
    · exact ⟨hresolved, h⟩

theorem names_of_build (h : builder.build = .ok graph) : graph.names = builder.tasks.map (·.name) :=
  names_of_assemble (assemble_of_build_eq_ok h).2

theorem Declared.dependenciesOf_eq (hdeclared : builder.Declared) (h : builder.build = .ok graph)
    (hname : name ∈ graph.names) : graph.dependenciesOf name = builder.edges.of name := by
  rw [names_of_build h] at hname
  rw [dependenciesOf_of_assemble (assemble_of_build_eq_ok h).2,
    of_taskDependencies builder.edges hdeclared.names_nodup hname]

theorem Declared.nodup_of (hdeclared : builder.Declared) (name : TaskName) :
    (builder.edges.of name).Nodup := by
  rcases mem_or_of_eq_nil builder.edges name with hmem | hnil
  · exact hdeclared.targets_nodup _ hmem
  · rw [hnil]
    exact List.nodup_nil

theorem mem_names_of_unresolved?_eq_none
    (h : unresolved? (builder.tasks.map (·.name)) builder.edges = none) (name : TaskName) :
    ∀ d ∈ builder.edges.of name, d ∈ builder.tasks.map (·.name) := by
  intro d hd
  rcases mem_or_of_eq_nil builder.edges name with hmem | hnil
  · exact (ends_mem_of_unresolved?_eq_none h _ hmem d hd).2
  · simp [hnil] at hd

theorem Declared.wellFormed (hdeclared : builder.Declared) (h : builder.build = .ok graph) :
    graph.WellFormed := by
  obtain ⟨hresolved, hassemble⟩ := assemble_of_build_eq_ok h
  exact wellFormed_of_assemble hdeclared.names_nodup hdeclared.nodup_of
    (mem_names_of_unresolved?_eq_none hresolved) hassemble

end GraphBuilder

end BuildMatrix
