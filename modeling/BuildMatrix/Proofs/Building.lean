import BuildMatrix.Proofs.Cycles
import BuildMatrix.Proofs.GraphShape

/-!
# What is built from declarations

Tasks and dependencies are declared one after another, in any order and any number of times. What
they come to can be said without a builder: a task counts unless its name was registered before, a
dependency counts unless it came with a task that does not, and of what was declared several times
the first time decides the order. This module says so, and shows that the builder, and the graph
that is built from it, are exactly that.
-/

namespace BuildMatrix

/-- One **declaration**. -/
inductive Declaration (ω : Type) where
  | task (task : Task ω) (dependsOn : List TaskName)
  | dependency (name dependsOn : TaskName)

namespace Declaration

variable {ω : Type} {dependsOn : List TaskName}

/-! ### What declarations come to -/

/-- The task that is declared. -/
def task? : Declaration ω → Option (Task ω)
  | task t _ => some t
  | dependency _ _ => none

/-- The dependencies that a declaration declares, each with the name that depends on another. -/
def edges : Declaration ω → List (TaskName × TaskName)
  | task t dependsOn => dependsOn.map fun d => (t.name, d)
  | dependency name dependsOn => [(name, dependsOn)]

/-- A declaration **counts** unless it registers one of some names once more. -/
def counts (names : List TaskName) (declaration : Declaration ω) : Bool :=
  match declaration.task? with
  | some t => t.name ∉ names
  | none => true

/-- The declarations **that count**; `names` are registered before them. -/
def effective (names : List TaskName) : List (Declaration ω) → List (Declaration ω)
  | [] => []
  | declaration :: rest =>
    if declaration.counts names then
      declaration :: effective (names ++ (declaration.task?.map (·.name)).toList) rest
    else effective names rest

/-- The tasks that are **registered**, in the order of their first declarations. -/
def registered (declarations : List (Declaration ω)) : List (Task ω) :=
  (effective [] declarations).filterMap task?

def names (declarations : List (Declaration ω)) : List TaskName :=
  (registered declarations).map (·.name)

/-- The **dependencies** that are declared, in order, as often as they are. -/
def dependencies (declarations : List (Declaration ω)) : List (TaskName × TaskName) :=
  (effective [] declarations).flatMap edges

/-- What a name is declared to **depend on**, in the order of the first declarations. -/
def targets (declarations : List (Declaration ω)) (name : TaskName) : List TaskName :=
  (((dependencies declarations).filter (·.1 = name)).map (·.2)).eraseDups

/-- Both ends of every dependency are **registered**. -/
def Resolved (declarations : List (Declaration ω)) : Prop :=
  ∀ e ∈ dependencies declarations, e.1 ∈ names declarations ∧ e.2 ∈ names declarations

/-- No two tasks share an **output directory**. -/
def Separate (declarations : List (Declaration ω)) : Prop :=
  ((names declarations).map TaskName.outputDir).Nodup

/-- The dependencies have **no cycle**. -/
def Acyclic (declarations : List (Declaration ω)) : Prop :=
  ∀ name, ¬Relation.TransGen (fun a b => (a, b) ∈ dependencies declarations) name name

theorem mem_targets {declarations : List (Declaration ω)} {name d : TaskName} :
    d ∈ targets declarations name ↔ (name, d) ∈ dependencies declarations := by
  simp only [targets, List.mem_eraseDups, List.mem_map, List.mem_filter, decide_eq_true_eq]
  constructor
  · rintro ⟨⟨a, b⟩, ⟨hmem, rfl⟩, rfl⟩
    exact hmem
  · intro hmem
    exact ⟨(name, d), ⟨hmem, rfl⟩, rfl⟩

/-! ### One more declaration -/

theorem effective_append (names : List TaskName) (declarations : List (Declaration ω))
    (declaration : Declaration ω) :
    effective names (declarations ++ [declaration]) =
      effective names declarations ++
        effective (names ++ ((effective names declarations).filterMap task?).map (·.name))
          [declaration] := by
  induction declarations generalizing names with
  | nil => simp [effective]
  | cons first rest ih =>
    rw [List.cons_append, effective, effective]
    split
    · rw [ih]
      cases hfirst : first.task? with
      | none => simp [hfirst]
      | some task => simp [hfirst]
    · exact ih names

variable (declarations : List (Declaration ω))

theorem effective_concat (declaration : Declaration ω) :
    effective [] (declarations ++ [declaration]) =
      effective [] declarations ++
        if declaration.counts (names declarations) then [declaration] else [] := by
  rw [effective_append, List.nil_append]
  rfl

theorem effective_concat_of_mem {task : Task ω} (h : task.name ∈ names declarations) :
    effective [] (declarations ++ [.task task dependsOn]) = effective [] declarations := by
  rw [effective_concat]
  simp [counts, task?, h]

theorem effective_concat_of_notMem {task : Task ω} (h : task.name ∉ names declarations) :
    effective [] (declarations ++ [.task task dependsOn]) =
      effective [] declarations ++ [.task task dependsOn] := by
  rw [effective_concat]
  simp [counts, task?, h]

theorem effective_concat_dependency (name dependsOn : TaskName) :
    effective [] (declarations ++ [.dependency name dependsOn]) =
      effective [] declarations ++ [.dependency name dependsOn] := by
  rw [effective_concat]
  rfl

end Declaration

/-! ### The builder of declarations -/

namespace GraphBuilder

open Declaration

variable {ω : Type} {builder : GraphBuilder ω}

/-- Make **one declaration**; what is refused leaves the builder as it was. -/
def declare (builder : GraphBuilder ω) : Declaration ω → Except GraphError Unit × GraphBuilder ω
  | .task t dependsOn =>
    match builder.register t dependsOn with
    | .ok next => (.ok (), next)
    | .error error => (.error error, builder)
  | .dependency name dependsOn => (.ok (), builder.depend name dependsOn)

/-- The builder after **declarations, one after another**. -/
def declareAll (declarations : List (Declaration ω)) : GraphBuilder ω :=
  declarations.foldl (fun builder declaration => (builder.declare declaration).2) {}

theorem declareAll_concat (declarations : List (Declaration ω)) (declaration : Declaration ω) :
    declareAll (declarations ++ [declaration]) =
      ((declareAll declarations).declare declaration).2 := by
  rw [declareAll, List.foldl_concat]
  rfl

theorem declare_task_of_mem {task : Task ω} (h : task.name ∈ builder.tasks.map (·.name))
    (dependsOn : List TaskName) :
    builder.declare (.task task dependsOn) = (.error (.duplicateTask task.name), builder) := by
  rw [declare, register, if_pos ((contains_iff_mem builder task.name).mpr h)]

theorem declare_task_of_notMem {task : Task ω} (h : task.name ∉ builder.tasks.map (·.name))
    (dependsOn : List TaskName) :
    builder.declare (.task task dependsOn) =
      (.ok (), ⟨builder.tasks ++ [task], addEdges task.name dependsOn builder.edges⟩) := by
  rw [declare, register_eq_ok_iff.mpr ⟨h, rfl⟩]

theorem declared_declareAll (declarations : List (Declaration ω)) :
    (declareAll declarations).Declared := by
  induction declarations using List.reverseRecOn with
  | nil => exact .empty
  | append_singleton declarations declaration ih =>
    rw [declareAll_concat]
    cases declaration with
    | dependency name dependsOn => exact .depend ih
    | task task dependsOn =>
      by_cases h : task.name ∈ (declareAll declarations).tasks.map (·.name)
      · rw [declare_task_of_mem h]
        exact ih
      · rw [declare_task_of_notMem h]
        exact .register ih (register_eq_ok_iff.mpr ⟨h, rfl⟩)

theorem tasks_declareAll (declarations : List (Declaration ω)) :
    (declareAll declarations).tasks = registered declarations := by
  induction declarations using List.reverseRecOn with
  | nil => rfl
  | append_singleton declarations declaration ih =>
    have hnames : (declareAll declarations).tasks.map (·.name) = names declarations := by
      rw [ih, names]
    rw [declareAll_concat, registered]
    cases declaration with
    | dependency name dependsOn =>
      rw [effective_concat_dependency, List.filterMap_append, ← registered, ← ih]
      exact (List.append_nil _).symm
    | task task dependsOn =>
      by_cases h : task.name ∈ names declarations
      · rw [declare_task_of_mem (hnames ▸ h), effective_concat_of_mem _ h]
        exact ih
      · rw [declare_task_of_notMem (hnames ▸ h), effective_concat_of_notMem _ h,
          List.filterMap_append, ← registered, ← ih]
        rfl

/-! ### The dependencies of a builder -/

theorem union_eraseDups (targets names : List TaskName) :
    union targets.eraseDups names = (targets ++ names).eraseDups := by
  induction names generalizing targets with
  | nil => simp [union]
  | cons name rest ih =>
    have hsplit : targets ++ name :: rest = (targets ++ [name]) ++ rest := by simp
    rw [union, hsplit, ← ih (targets ++ [name])]
    congr 1
    rw [List.eraseDups_append]
    by_cases hmem : name ∈ targets
    · simp [List.removeAll, hmem]
    · simp [List.removeAll, hmem, List.eraseDups_cons]

theorem of_addEdges (name other : TaskName) (targets : List TaskName) (edges : Dependencies) :
    (addEdges name targets edges).of other =
      if other = name then union (edges.of name) targets else edges.of other := by
  induction edges with
  | nil =>
    by_cases hother : other = name
    · simp [addEdges, Dependencies.of, hother]
    · simp [addEdges, Dependencies.of, hother, Ne.symm hother]
  | cons head rest ih =>
    obtain ⟨key, old⟩ := head
    by_cases hkey : key = name
    · subst hkey
      by_cases hother : other = key
      · simp [addEdges, Dependencies.of, hother]
      · simp [addEdges, Dependencies.of, hother, Ne.symm hother]
    · rw [addEdges, if_neg hkey]
      by_cases hother : key = other
      · subst hother
        simp [Dependencies.of, hkey]
      · simp only [Dependencies.of, if_neg hother, if_neg hkey, ih]

theorem map_fst_addEdges (name : TaskName) (targets : List TaskName) (edges : Dependencies) :
    (addEdges name targets edges).map (·.1) =
      if name ∈ edges.map (·.1) then edges.map (·.1) else edges.map (·.1) ++ [name] := by
  induction edges with
  | nil => simp [addEdges]
  | cons head rest ih =>
    obtain ⟨key, old⟩ := head
    by_cases hkey : key = name
    · simp [addEdges, hkey]
    · rw [addEdges, if_neg hkey, List.map_cons, ih, List.map_cons]
      by_cases hmem : name ∈ rest.map (·.1)
      · rw [if_pos hmem, if_pos (List.mem_cons_of_mem _ hmem)]
      · rw [if_neg hmem, if_neg (by simpa [Ne.symm hkey] using hmem), List.cons_append]

theorem Declared.keys_nodup (h : builder.Declared) : (builder.edges.map (·.1)).Nodup := by
  have hadd : ∀ (name : TaskName) targets (edges : Dependencies), (edges.map (·.1)).Nodup →
      ((addEdges name targets edges).map (·.1)).Nodup := by
    intro name targets edges hedges
    rw [map_fst_addEdges]
    split
    · exact hedges
    · next hnew =>
        rw [← List.concat_eq_append]
        exact hedges.concat hnew
  induction h with
  | empty => exact List.nodup_nil
  | register _ hreg ih =>
    obtain ⟨-, rfl⟩ := register_eq_ok_iff.mp hreg
    exact hadd _ _ _ ih
  | depend _ ih => exact hadd _ _ _ ih

/-- **What a builder keeps for a name** is what was declared for it, in the order of the first
declarations and without repetitions. -/
theorem of_edges_declareAll (declarations : List (Declaration ω)) (name : TaskName) :
    (declareAll declarations).edges.of name = targets declarations name := by
  induction declarations using List.reverseRecOn with
  | nil => rfl
  | append_singleton declarations declaration ih =>
    have hnames : (declareAll declarations).tasks.map (·.name) = names declarations := by
      rw [tasks_declareAll, names]
    -- whatever counts is added at the end, for the name it is declared for
    have hadd : ∀ owner (added : List TaskName),
        (addEdges owner added (declareAll declarations).edges).of name =
          (((dependencies declarations ++ added.map fun d => (owner, d)).filter
            (·.1 = name)).map (·.2)).eraseDups := by
      intro owner added
      rw [of_addEdges, List.filter_append, List.map_append]
      by_cases howner : name = owner
      · subst howner
        have hall : (added.map fun d => (name, d)).filter (·.1 = name) =
            added.map fun d => (name, d) := by
          simp [List.filter_eq_self]
        rw [if_pos rfl, ih, hall, targets, union_eraseDups, List.map_map]
        simp
      · have hnone : (added.map fun d => (owner, d)).filter (·.1 = name) = [] := by
          simp [List.filter_eq_nil_iff, Ne.symm howner]
        rw [if_neg howner, ih, hnone, targets, List.map_nil, List.append_nil]
    rw [declareAll_concat, targets, dependencies]
    cases declaration with
    | dependency owner dependsOn =>
      rw [effective_concat_dependency, List.flatMap_append]
      exact hadd owner [dependsOn]
    | task task dependsOn =>
      by_cases h : task.name ∈ names declarations
      · rw [declare_task_of_mem (hnames ▸ h), effective_concat_of_mem _ h]
        exact ih
      · rw [declare_task_of_notMem (hnames ▸ h), effective_concat_of_notMem _ h,
          List.flatMap_append, List.flatMap_singleton]
        exact hadd task.name dependsOn

/-! ### The checks -/

theorem unresolved?_eq_none_iff {names : List TaskName} {edges : Dependencies} :
    unresolved? names edges = none ↔ ∀ e ∈ edges, ∀ target ∈ e.2, e.1 ∈ names ∧ target ∈ names := by
  refine ⟨ends_mem_of_unresolved?_eq_none, fun h => ?_⟩
  induction edges with
  | nil => rfl
  | cons head rest ih =>
    obtain ⟨dependent, targets⟩ := head
    rw [List.forall_mem_cons] at h
    have hnone : (targets.findSome? fun target =>
        ([dependent, target].find? fun e => !names.contains e).map
          fun e => (e, dependent, target)) = none := by
      rw [List.findSome?_eq_none_iff]
      intro target htarget
      obtain ⟨hdependent, hmem⟩ := h.1 target htarget
      simp [hdependent, hmem]
    rw [unresolved?, hnone]
    exact ih h.2

/-- The check for shared directories **finds nothing** exactly if all directories are different,
also from those of the names passed. -/
theorem conflict?_eq_none_iff {before names : List TaskName} :
    conflict? before names = none ↔
      (names.map TaskName.outputDir).Nodup ∧
        ∀ name ∈ names, ∀ other ∈ before, other.outputDir ≠ name.outputDir := by
  induction names generalizing before with
  | nil => simp [conflict?]
  | cons name rest ih =>
    rw [conflict?, List.map_cons, List.nodup_cons, List.forall_mem_cons]
    cases hfind : before.find? fun other => other.outputDir == name.outputDir with
    | some other =>
      have hshared : other.outputDir = name.outputDir := by simpa using List.find?_some hfind
      simp only [reduceCtorEq, false_iff, not_and]
      exact fun _ hall => absurd hshared (hall other (List.mem_of_find?_eq_some hfind))
    | none =>
      have hfresh : ∀ other ∈ before, other.outputDir ≠ name.outputDir := by
        simpa using List.find?_eq_none.mp hfind
      simp only [ih, List.mem_cons, forall_eq_or_imp, List.mem_map, not_exists, not_and]
      constructor
      · rintro ⟨hnodup, hrest⟩
        exact ⟨⟨fun other hother => Ne.symm (hrest other hother).1, hnodup⟩, hfresh,
          fun other hother => (hrest other hother).2⟩
      · rintro ⟨⟨hname, hnodup⟩, -, hrest⟩
        exact ⟨hnodup, fun other hother => ⟨Ne.symm (hname other hother), hrest other hother⟩⟩

section Checks

variable (declarations : List (Declaration ω))

theorem names_declareAll :
    (declareAll declarations).tasks.map (·.name) = names declarations := by
  rw [tasks_declareAll, names]

theorem unresolved?_declareAll :
    unresolved? (names declarations) (declareAll declarations).edges = none ↔
      Resolved declarations := by
  have hkeys := (declared_declareAll declarations).keys_nodup
  rw [unresolved?_eq_none_iff]
  constructor
  · rintro h ⟨name, d⟩ hmem
    rw [← mem_targets, ← of_edges_declareAll] at hmem
    rcases Dependencies.mem_or_of_eq_nil (declareAll declarations).edges name with hin | hnil
    · exact h _ hin d hmem
    · simp [hnil] at hmem
  · intro h e he d hd
    rw [← Dependencies.of_eq_of_mem hkeys he, of_edges_declareAll, mem_targets] at hd
    exact h _ hd

theorem conflict?_declareAll :
    conflict? [] (names declarations) = none ↔ Separate declarations := by
  rw [conflict?_eq_none_iff]
  simp [Separate]

/-- All tasks can be sorted exactly if the declarations are **acyclic**. -/
theorem length_sort_declareAll (h : Resolved declarations) :
    (taskDependencies (declareAll declarations).tasks (declareAll declarations).edges).sort.length =
        (taskDependencies (declareAll declarations).tasks (declareAll declarations).edges).length ↔
      Acyclic declarations := by
  have hdeclared := declared_declareAll declarations
  have hof : ∀ a b, b ∈ (taskDependencies (declareAll declarations).tasks
      (declareAll declarations).edges).of a ↔ (a, b) ∈ dependencies declarations := by
    intro a b
    rw [← mem_targets, ← of_edges_declareAll]
    by_cases ha : a ∈ (declareAll declarations).tasks.map (·.name)
    · rw [of_taskDependencies _ hdeclared.names_nodup ha]
    · rw [Dependencies.of_eq_nil (by rwa [map_fst_taskDependencies])]
      refine ⟨fun hnil => absurd hnil (by simp), fun hb => absurd ?_ ha⟩
      rw [of_edges_declareAll, mem_targets] at hb
      rw [names_declareAll]
      exact (h _ hb).1
  rw [Dependencies.length_sort_eq_iff_acyclic]
  · simp only [Dependencies.Acyclic, Acyclic, hof]
  · rw [map_fst_taskDependencies]
    exact hdeclared.names_nodup
  · intro e he
    obtain ⟨t, -, rfl⟩ := List.mem_map.mp he
    rcases Dependencies.mem_or_of_eq_nil (declareAll declarations).edges t.name with hin | hnil
    · exact hdeclared.targets_nodup _ hin
    · simp [hnil]
  · intro e he d hd
    obtain ⟨t, -, rfl⟩ := List.mem_map.mp he
    rw [of_edges_declareAll, mem_targets] at hd
    rw [map_fst_taskDependencies, names_declareAll]
    exact (h _ hd).2

end Checks

/-! ### The outcome -/

/-- What building **comes to**, by the checks in their order. -/
theorem build_declareAll_cases (declarations : List (Declaration ω)) :
    (¬Resolved declarations ∧ ∃ missing dependent dependency,
      (declareAll declarations).build =
        .error (.unresolvedReference missing dependent dependency)) ∨
    (Resolved declarations ∧ ¬Separate declarations ∧ ∃ first second,
      (declareAll declarations).build = .error (.outputDirectoryConflict first second)) ∨
    (Resolved declarations ∧ Separate declarations ∧ ¬Acyclic declarations ∧ ∃ cycle,
      (declareAll declarations).build = .error (.cyclicDependency cycle)) ∨
    (Resolved declarations ∧ Separate declarations ∧ Acyclic declarations ∧ ∃ graph,
      (declareAll declarations).build = .ok graph) := by
  rw [build, names_declareAll]
  by_cases hresolved : Resolved declarations
  · rw [(unresolved?_declareAll declarations).mpr hresolved]
    by_cases hseparate : Separate declarations
    · rw [(conflict?_declareAll declarations).mpr hseparate]
      have hsort := length_sort_declareAll declarations hresolved
      by_cases hacyclic : Acyclic declarations
      · exact .inr (.inr (.inr ⟨hresolved, hseparate, hacyclic, _,
          assemble_eq_ok_iff.mpr ⟨hsort.mpr hacyclic, rfl⟩⟩))
      · refine .inr (.inr (.inl ⟨hresolved, hseparate, hacyclic, _, if_neg ?_⟩))
        exact fun hlength => hacyclic (hsort.mp hlength)
    · cases hconflict : conflict? [] (names declarations) with
      | none => exact absurd ((conflict?_declareAll declarations).mp hconflict) hseparate
      | some pair => exact .inr (.inl ⟨hresolved, hseparate, pair.1, pair.2, rfl⟩)
  · cases hunresolved : unresolved? (names declarations) (declareAll declarations).edges with
    | none => exact absurd ((unresolved?_declareAll declarations).mp hunresolved) hresolved
    | some found => exact .inl ⟨hresolved, found.1, found.2.1, found.2.2, rfl⟩

theorem graph_of_declareAll {declarations : List (Declaration ω)} {graph : TaskGraph ω}
    (h : (declareAll declarations).build = .ok graph) :
    graph.nodes.map (·.task) = registered declarations ∧
      ∀ name ∈ names declarations,
        graph.dependenciesOf name = targets declarations name ∧
        graph.dependentsOf name =
          (names declarations).filter fun other => name ∈ targets declarations other := by
  have hdeclared := declared_declareAll declarations
  have hassemble := (assemble_of_build_eq_ok h).2
  have hnames : graph.names = names declarations := by
    rw [names_of_build h, names_declareAll]
  refine ⟨?_, fun name hname => ⟨?_, ?_⟩⟩
  · obtain ⟨-, rfl⟩ := assemble_eq_ok_iff.mp hassemble
    rw [← tasks_declareAll, List.map_map]
    exact List.map_id _
  · rw [hdeclared.dependenciesOf_eq h (hnames ▸ hname), of_edges_declareAll]
  · rw [dependentsOf_of_assemble hassemble (hnames ▸ hname), Dependencies.dependents,
      taskDependencies, List.filter_map, List.map_map, names, ← tasks_declareAll, List.filter_map]
    refine congrArg (List.map _) (List.filter_congr fun t _ => ?_)
    simp [of_edges_declareAll]

/-- **Building is exact**, whatever was declared before, in whichever order and how often. One more
registration is refused exactly if its name is registered, with that name, and then changes nothing;
a dependency is never refused. A graph is built exactly if all ends of dependencies are registered,
no output directory is shared and there is no cycle, and otherwise the first of these that fails is
the error. The graph holds the registered tasks in order, each depends on what was declared for it,
in the order of the first declarations, and is waited for by the tasks that were declared to depend
on it, in registration order. -/
theorem building_is_exact (declarations : List (Declaration ω)) :
    (∀ task dependsOn,
      (task.name ∈ names declarations ∧
        (declareAll declarations).declare (.task task dependsOn) =
          (.error (.duplicateTask task.name), declareAll declarations)) ∨
      (task.name ∉ names declarations ∧
        ((declareAll declarations).declare (.task task dependsOn)).1 = .ok ())) ∧
    (∀ name dependsOn,
      ((declareAll declarations).declare (.dependency name dependsOn)).1 = .ok ()) ∧
    ((∃ graph, (declareAll declarations).build = .ok graph) ↔
      Resolved declarations ∧ Separate declarations ∧ Acyclic declarations) ∧
    ((∃ missing dependent dependency, (declareAll declarations).build =
        .error (.unresolvedReference missing dependent dependency)) ↔
      ¬Resolved declarations) ∧
    ((∃ first second, (declareAll declarations).build =
        .error (.outputDirectoryConflict first second)) ↔
      Resolved declarations ∧ ¬Separate declarations) ∧
    ((∃ cycle, (declareAll declarations).build = .error (.cyclicDependency cycle)) ↔
      Resolved declarations ∧ Separate declarations ∧ ¬Acyclic declarations) ∧
    ∀ graph, (declareAll declarations).build = .ok graph →
      graph.nodes.map (·.task) = registered declarations ∧
      ∀ name ∈ names declarations,
        graph.dependenciesOf name = targets declarations name ∧
        graph.dependentsOf name =
          (names declarations).filter fun other => name ∈ targets declarations other := by
  refine ⟨fun task dependsOn => ?_, fun _ _ => rfl, ?_, ?_, ?_, ?_,
    fun graph => graph_of_declareAll⟩
  · have hnames := names_declareAll declarations
    by_cases h : task.name ∈ names declarations
    · exact .inl ⟨h, declare_task_of_mem (hnames ▸ h) dependsOn⟩
    · exact .inr ⟨h, by rw [declare_task_of_notMem (hnames ▸ h)]⟩
  all_goals
    rcases build_declareAll_cases declarations with ⟨hresolved, _, _, _, heq⟩ |
      ⟨hresolved, hseparate, _, _, heq⟩ | ⟨hresolved, hseparate, hacyclic, _, heq⟩ |
      ⟨hresolved, hseparate, hacyclic, _, heq⟩
    all_goals simp [*]

end GraphBuilder

end BuildMatrix
