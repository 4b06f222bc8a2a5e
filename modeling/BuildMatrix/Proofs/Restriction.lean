import BuildMatrix.Proofs.GraphParts
import BuildMatrix.Proofs.Guarantees

/-!
# Restrictions of task graphs

The part of a graph that some tasks need is sorted and divided into waves from scratch, as if there
had never been anything else. It comes out as the graph itself with the other tasks removed. The
reason is that the part is closed under dependencies. A task outside of it has no dependent inside,
so that taking it from the queue neither lowers a count of the part nor puts a task of the part into
the queue; the two queues go in step, the one of the whole with more names between.
-/

namespace BuildMatrix

open GraphBuilder

variable {ω : Type} {keep : TaskName → Bool}

theorem openCount_filter {targets : List TaskName} (h : ∀ d ∈ targets, keep d = true)
    (done : List TaskName) : openCount (done.filter keep) targets = openCount done targets := by
  refine congrArg List.length (List.filter_congr fun d hd => ?_)
  simp [h d hd]

namespace Countdown

variable {deps : Dependencies} {done queue : List TaskName} {counts : Dependencies.Counts}

theorem length_le (h : Countdown deps done counts queue) :
    done.length + queue.length ≤ deps.length := by
  have hle := (h.nodup.subperm h.mem_keys).length_le
  rwa [List.length_append, List.length_map] at hle

end Countdown

namespace Dependencies

variable {name : TaskName}

/-! ### The order of a part -/

/-- The dependencies of some names. -/
def restrict (deps : Dependencies) (keep : TaskName → Bool) : Dependencies :=
  deps.filter fun e => keep e.1

/-- What is kept **has its dependencies kept**. -/
def Closes (deps : Dependencies) (keep : TaskName → Bool) : Prop :=
  ∀ e ∈ deps, keep e.1 = true → ∀ d ∈ e.2, keep d = true

variable {deps : Dependencies} {keep : TaskName → Bool}

theorem map_fst_restrict (deps : Dependencies) (keep : TaskName → Bool) :
    (deps.restrict keep).map (·.1) = (deps.map (·.1)).filter keep := by
  rw [restrict, List.filter_map]
  rfl

theorem nodup_map_fst_restrict (hkeys : (deps.map (·.1)).Nodup) :
    ((deps.restrict keep).map (·.1)).Nodup := by
  rw [map_fst_restrict]
  exact hkeys.filter _

theorem nodup_of_mem_restrict (htargets : ∀ e ∈ deps, e.2.Nodup) :
    ∀ e ∈ deps.restrict keep, e.2.Nodup :=
  fun e he => htargets e (List.mem_filter.1 he).1

theorem of_restrict (deps : Dependencies) (hname : keep name = true) :
    (deps.restrict keep).of name = deps.of name := by
  induction deps with
  | nil => rfl
  | cons head rest ih =>
    obtain ⟨key, targets⟩ := head
    rw [restrict, List.filter_cons, of]
    by_cases hkey : key = name
    · subst hkey
      rw [if_pos hname, of, if_pos rfl, if_pos rfl]
    · rw [if_neg hkey, ← ih]
      split
      · rw [of, if_neg hkey, restrict]
      · rfl

theorem Closes.of (h : deps.Closes keep) (hname : keep name = true) :
    ∀ d ∈ deps.of name, keep d = true := by
  intro d hd
  rcases deps.mem_or_of_eq_nil name with hmem | hnil
  · exact h _ hmem hname d hd
  · rw [hnil] at hd
    cases hd

theorem dependents_restrict (deps : Dependencies) (keep : TaskName → Bool) (name : TaskName) :
    (deps.restrict keep).dependents name = (deps.dependents name).filter keep := by
  rw [dependents, dependents, restrict, List.filter_map, List.filter_filter, List.filter_filter]
  refine congrArg _ (List.filter_congr fun e _ => ?_)
  exact Bool.and_comm ..

theorem Closes.keep_eq_false (h : deps.Closes keep) (hname : keep name = false) :
    ∀ other ∈ deps.dependents name, keep other = false := by
  intro other hother
  obtain ⟨e, he, rfl⟩ := List.mem_map.1 hother
  obtain ⟨hmem, htarget⟩ := List.mem_filter.1 he
  by_contra hkeep
  have := h e hmem (by simpa using hkeep) name (List.contains_iff_mem.1 htarget)
  rw [hname] at this
  cases this

section Queues

variable {done queue : List TaskName} {counts fewer : Counts} {name : TaskName}

theorem release_restrict (hkeys : (deps.map (·.1)).Nodup) (hcloses : deps.Closes keep)
    (h : Countdown deps done counts (name :: queue))
    (hpart : Countdown (deps.restrict keep) (done.filter keep) fewer
      ((name :: queue).filter keep)) :
    (release ((deps.restrict keep).dependents name) fewer (queue.filter keep)).2 =
      (release (deps.dependents name) counts queue).2.filter keep := by
  rw [release_snd (nodup_dependents (nodup_map_fst_restrict hkeys) name),
    release_snd (nodup_dependents hkeys name), List.filter_append, dependents_restrict,
    List.filter_filter, List.filter_filter]
  refine congrArg _ (List.filter_congr fun other hother => ?_)
  obtain ⟨e, he, rfl⟩ := List.mem_map.1 hother
  have hmem : e ∈ deps := (List.mem_filter.1 he).1
  by_cases hkeep : keep e.1 = true
  · rw [h.count_eq e hmem, hpart.count_eq e (List.mem_filter.2 ⟨hmem, hkeep⟩),
      openCount_filter (hcloses e hmem hkeep), Bool.and_comm]
  · simp [hkeep]

end Queues

theorem drain_nil (deps : Dependencies) (fuel : Nat) (counts : Counts) :
    drain deps fuel counts [] = [] := by
  cases fuel <;> rfl

theorem drain_cons (deps : Dependencies) (fuel : Nat) (counts : Counts) (name : TaskName)
    (queue : List TaskName) :
    drain deps (fuel + 1) counts (name :: queue) =
      name :: drain deps fuel (release (deps.dependents name) counts queue).1
        (release (deps.dependents name) counts queue).2 := rfl

/-- **The two queues go in step**: what is taken of the part is what is taken of the whole, with the
other names removed. -/
theorem drain_restrict (hkeys : (deps.map (·.1)).Nodup) (htargets : ∀ e ∈ deps, e.2.Nodup)
    (hcloses : deps.Closes keep) (fuel : Nat) {less : Nat} {done queue : List TaskName}
    {counts fewer : Counts} (h : Countdown deps done counts queue)
    (hpart : Countdown (deps.restrict keep) (done.filter keep) fewer (queue.filter keep))
    (hfuel : deps.length ≤ fuel + done.length)
    (hless : (deps.restrict keep).length ≤ less + (done.filter keep).length) :
    drain (deps.restrict keep) less fewer (queue.filter keep) =
      (drain deps fuel counts queue).filter keep := by
  induction fuel generalizing less done queue counts fewer with
  | zero =>
    have hle := h.length_le
    obtain rfl : queue = [] := List.eq_nil_of_length_eq_zero (by omega)
    exact drain_nil ..
  | succ fuel ih =>
    cases queue with
    | nil => rw [List.filter_nil, drain_nil, drain_nil, List.filter_nil]
    | cons name queue =>
      have hnext := h.take hkeys htargets
      have hfuel' : deps.length ≤ fuel + (done ++ [name]).length := by
        rw [List.length_append, List.length_singleton]
        omega
      rw [drain_cons]
      cases hname : keep name with
      | true =>
        have hrelease := release_restrict hkeys hcloses h hpart
        have hdone : (done ++ [name]).filter keep = done.filter keep ++ [name] := by
          simp [hname]
        rw [List.filter_cons_of_pos hname] at hpart ⊢
        have hlt := hpart.length_le
        rw [List.length_cons] at hlt
        obtain ⟨less, rfl⟩ : ∃ fewer, less = fewer + 1 := ⟨less - 1, by omega⟩
        rw [drain_cons, List.filter_cons_of_pos hname, hrelease]
        refine congrArg _ (ih hnext ?_ hfuel' ?_)
        · rw [hdone, ← hrelease]
          exact hpart.take (nodup_map_fst_restrict hkeys) (nodup_of_mem_restrict htargets)
        · rw [hdone, List.length_append, List.length_singleton]
          omega
      | false =>
        -- nothing of the part waits for the name, so that the part's queue stays as it is
        have hqueue : (release (deps.dependents name) counts queue).2.filter keep =
            queue.filter keep := by
          rw [release_snd (nodup_dependents hkeys name), List.filter_append]
          refine List.append_right_eq_self.2 (List.filter_eq_nil_iff.2 fun other hother => ?_)
          simp [hcloses.keep_eq_false hname other (List.mem_filter.1 hother).1]
        have hdone : (done ++ [name]).filter keep = done.filter keep := by simp [hname]
        rw [List.filter_cons_of_neg (by simp [hname])] at hpart ⊢
        rw [List.filter_cons_of_neg (by simp [hname]), ← hqueue]
        refine ih hnext ?_ hfuel' (hdone ▸ hless)
        rw [hqueue, hdone]
        exact hpart

/-- **The order of a part** is the order of the whole, with the other names removed. -/
theorem sort_restrict (hkeys : (deps.map (·.1)).Nodup) (htargets : ∀ e ∈ deps, e.2.Nodup)
    (hcloses : deps.Closes keep) : (deps.restrict keep).sort = deps.sort.filter keep := by
  have hqueue : ((deps.restrict keep).filter fun e => e.2.isEmpty).map (·.1) =
      ((deps.filter fun e => e.2.isEmpty).map (·.1)).filter keep := by
    rw [restrict, List.filter_map, List.filter_filter, List.filter_filter]
    exact congrArg _ (List.filter_congr fun e _ => Bool.and_comm ..)
  have hpart := Countdown.initial
    (nodup_map_fst_restrict hkeys : ((deps.restrict keep).map _).Nodup)
  rw [hqueue] at hpart
  rw [sort, sort, hqueue]
  exact drain_restrict hkeys htargets hcloses _ (.initial hkeys) hpart (Nat.le_add_right ..)
    (Nat.le_add_right ..)

/-! ### The waves of a part -/

theorem waveTable_concat (deps : Dependencies) (sorted : List TaskName) (name : TaskName) :
    waveTable deps (sorted ++ [name]) =
      (name, nextWave (waveTable deps sorted) (deps.of name)) :: waveTable deps sorted := by
  rw [waveTable, List.foldl_concat]
  rfl

/-- **The waves of a part** are those of the whole. -/
theorem get?_waveTable_restrict (hcloses : deps.Closes keep) (sorted : List TaskName)
    (hname : keep name = true) :
    TaskTable.get? name (waveTable (deps.restrict keep) (sorted.filter keep)) =
      TaskTable.get? name (waveTable deps sorted) := by
  induction sorted using List.reverseRecOn generalizing name with
  | nil => rfl
  | append_singleton sorted last ih =>
    rw [waveTable_concat, TaskTable.get?, List.filter_append]
    cases hlast : keep last with
    | true =>
      have hwave : nextWave (waveTable (deps.restrict keep) (sorted.filter keep))
            ((deps.restrict keep).of last) =
          nextWave (waveTable deps sorted) (deps.of last) := by
        rw [of_restrict deps hlast, nextWave, nextWave]
        refine congrArg _ (List.filterMap_congr fun d hd => ?_)
        exact ih (hcloses.of hlast d hd)
      rw [List.filter_cons_of_pos hlast, List.filter_nil, waveTable_concat, TaskTable.get?, hwave,
        ih hname]
    | false =>
      have hne : last ≠ name := fun heq => by
        rw [heq, hname] at hlast
        cases hlast
      rw [List.filter_cons_of_neg (by simp [hlast]), List.filter_nil, List.append_nil, if_neg hne,
        ih hname]

end Dependencies

/-! ### Graphs that are put together of their own parts -/

namespace TaskGraph

variable {graph : TaskGraph ω}

/-- The names of a graph in registration order, each with what it depends on. -/
def table (graph : TaskGraph ω) : Dependencies :=
  graph.nodes.map fun n => (n.name, n.dependencies)

/-- A graph that is **put together of its own tasks and dependencies**. -/
structure Assembled (graph : TaskGraph ω) : Prop where
  wellFormed : graph.WellFormed
  assemble_eq : assemble (graph.nodes.map (·.task)) graph.table = .ok graph

theorem taskDependencies_nodes {nodes : List (Node ω)} (h : (nodes.map Node.name).Nodup) :
    taskDependencies (nodes.map (·.task))
        (nodes.map fun n => (n.name, n.dependencies)) =
      nodes.map fun n => (n.name, n.dependencies) := by
  rw [taskDependencies, List.map_map]
  refine List.map_congr_left fun node hnode => ?_
  have hkeys : ((nodes.map fun n => (n.name, n.dependencies)).map (·.1)).Nodup := by
    rwa [List.map_map]
  exact congrArg (Prod.mk _) (Dependencies.of_eq_of_mem hkeys
    (List.mem_map_of_mem (f := fun n : Node ω => (n.name, n.dependencies)) hnode))

end TaskGraph

namespace GraphBuilder

variable {tasks : List (Task ω)} {edges : Dependencies} {graph : TaskGraph ω}

theorem assemble_congr {others : Dependencies}
    (h : taskDependencies tasks edges = taskDependencies tasks others) :
    assemble tasks edges = assemble tasks others := by
  rw [assemble, assemble, ← taskDependencies, ← taskDependencies, h]

theorem table_of_assemble (h : assemble tasks edges = .ok graph)
    (hnames : (tasks.map (·.name)).Nodup) : graph.table = taskDependencies tasks edges := by
  obtain ⟨-, rfl⟩ := assemble_eq_ok_iff.1 h
  rw [TaskGraph.table, List.map_map, taskDependencies]
  refine List.map_congr_left fun task htask => ?_
  exact congrArg (Prod.mk task.name) (of_taskDependencies edges hnames (List.mem_map_of_mem htask))

theorem assembled_of_assemble (hnames : (tasks.map (·.name)).Nodup)
    (htargets : ∀ name, (edges.of name).Nodup)
    (hclosed : ∀ name, ∀ d ∈ edges.of name, d ∈ tasks.map (·.name))
    (h : assemble tasks edges = .ok graph) : graph.Assembled := by
  have htasks : graph.nodes.map (·.task) = tasks := by
    obtain ⟨-, rfl⟩ := assemble_eq_ok_iff.1 h
    rw [List.map_map]
    exact List.map_id _
  have hgraph := wellFormed_of_assemble hnames htargets hclosed h
  refine ⟨hgraph, ?_⟩
  rw [← h, htasks]
  refine assemble_congr ?_
  rw [← table_of_assemble h hnames, ← htasks]
  exact TaskGraph.taskDependencies_nodes hgraph.names_nodup

theorem Declared.assembled {builder : GraphBuilder ω} (hdeclared : builder.Declared)
    (h : builder.build = .ok graph) : graph.Assembled := by
  obtain ⟨hresolved, hassemble⟩ := assemble_of_build_eq_ok h
  exact assembled_of_assemble hdeclared.names_nodup hdeclared.nodup_of
    (mem_names_of_unresolved?_eq_none hresolved) hassemble

end GraphBuilder

namespace TaskGraph

variable {graph : TaskGraph ω} {roots : List TaskName}

/-- A graph **with names removed**: the nodes that are kept lose the other names among their
dependents, and nothing else changes. -/
def restrict (graph : TaskGraph ω) (keep : TaskName → Bool) : TaskGraph ω where
  nodes := (graph.nodes.filter fun n => keep n.name).map fun n =>
    { n with dependents := n.dependents.filter keep }
  sorted := graph.sorted.filter keep

/-- **Some tasks and everything that they need.** -/
def Required (graph : TaskGraph ω) (roots : List TaskName) (name : TaskName) : Prop :=
  name ∈ roots ∨ ∃ root ∈ roots, graph.Needs root name

/-- What is found is **needed**, apart from what was there before. -/
theorem required_of_mem_reach (fuel : Nat) (kept queue : List TaskName) :
    ∀ name ∈ graph.reach fuel kept queue, name ∈ kept ∨ graph.Required queue name := by
  fun_induction reach graph fuel kept queue with
  | case1 kept queue => exact fun name hname => .inl hname
  | case2 kept fuel => exact fun name hname => .inl hname
  | case3 fuel kept first rest hmem ih =>
    intro name hname
    refine (ih name hname).imp_right ?_
    rintro (hroot | ⟨root, hroot, hneeds⟩)
    · exact .inl (List.mem_cons_of_mem _ hroot)
    · exact .inr ⟨root, List.mem_cons_of_mem _ hroot, hneeds⟩
  | case4 fuel kept first rest hmem ih =>
    intro name hname
    rcases ih name hname with hkept | hroot | ⟨root, hroot, hneeds⟩
    · rcases List.mem_cons.1 hkept with rfl | hkept
      · exact .inr (.inl List.mem_cons_self)
      · exact .inl hkept
    · rcases List.mem_append.1 hroot with hdependency | hrest
      · exact .inr (.inr ⟨first, List.mem_cons_self, .single hdependency⟩)
      · exact .inr (.inl (List.mem_cons_of_mem _ hrest))
    · rcases List.mem_append.1 hroot with hdependency | hrest
      · exact .inr (.inr ⟨first, List.mem_cons_self, .head hdependency hneeds⟩)
      · exact .inr (.inr ⟨root, List.mem_cons_of_mem _ hrest, hneeds⟩)

theorem mem_reach_iff (hnames : graph.names.Nodup) (roots : List TaskName) (name : TaskName) :
    name ∈ graph.reach (roots.length + graph.edgeCount + 1) [] roots ↔
      graph.Required roots name := by
  obtain ⟨hfound, hclosed⟩ := reach_closed hnames (roots.length + graph.edgeCount + 1) [] roots
    (by rw [edgeCount_eq]; omega) (by simp)
  constructor
  · intro hname
    exact (required_of_mem_reach _ _ _ name hname).resolve_left List.not_mem_nil
  · rintro (hroot | ⟨root, hroot, hneeds⟩)
    · exact hfound name (.inr hroot)
    · induction hneeds with
      | single hd => exact hclosed root (hfound root (.inr hroot)) _ hd
      | tail _ hd ih => exact hclosed _ ih _ hd

theorem WellFormed.closes (h : graph.WellFormed)
    (hkeep : ∀ name, keep name = true ↔ graph.Required roots name) : graph.table.Closes keep := by
  intro e he hname d hd
  obtain ⟨node, hnode, rfl⟩ := List.mem_map.1 he
  have hdependency : d ∈ graph.dependenciesOf node.name := by
    rwa [dependenciesOf_eq (h.get?_of_mem hnode)]
  rw [hkeep] at hname ⊢
  rcases hname with hroot | ⟨root, hroot, hneeds⟩
  · exact .inr ⟨_, hroot, .single hdependency⟩
  · exact .inr ⟨root, hroot, hneeds.tail hdependency⟩

theorem find?_eq_none_iff : (roots.find? fun root => !graph.contains root) = none ↔
    ∀ root ∈ roots, root ∈ graph.names := by
  simp only [List.find?_eq_none, contains, Bool.not_eq_true', Bool.not_eq_false, isSome_get?_iff]

theorem find?_eq_some_iff {root : TaskName} :
    (roots.find? fun root => !graph.contains root) = some root ↔
      ∃ before after, roots = before ++ root :: after ∧ (∀ r ∈ before, r ∈ graph.names) ∧
        root ∉ graph.names := by
  simp only [List.find?_eq_some_iff_append, contains, Bool.not_eq_true', Bool.not_not,
    ← Bool.not_eq_true, isSome_get?_iff]
  constructor
  · rintro ⟨hroot, before, after, rfl, hbefore⟩
    exact ⟨before, after, rfl, hbefore, hroot⟩
  · rintro ⟨before, after, rfl, hbefore, hroot⟩
    exact ⟨hroot, before, after, rfl, hbefore⟩

namespace Assembled

theorem spec (h : graph.Assembled) :
    graph.sorted = graph.table.sort ∧
      ∀ node ∈ graph.nodes, node.dependencies = graph.table.of node.name ∧
        node.dependents = graph.table.dependents node.name ∧
        node.wave = ((graph.table.waveTable graph.table.sort).get? node.name).getD 0 := by
  have htable := taskDependencies_nodes h.wellFormed.names_nodup
  obtain ⟨-, hgraph⟩ := assemble_eq_ok_iff.1 h.assemble_eq
  rw [← table] at htable
  have hnodes := congrArg TaskGraph.nodes hgraph
  have hsorted := congrArg TaskGraph.sorted hgraph
  rw [htable] at hsorted
  refine ⟨hsorted, ?_⟩
  rw [List.map_map] at hnodes
  nth_rewrite 1 [← List.map_id graph.nodes] at hnodes
  intro node hnode
  have hnode := List.map_inj_left.1 hnodes node hnode
  rw [Function.comp_apply, assembledNode, htable] at hnode
  exact ⟨congrArg Node.dependencies hnode, congrArg Node.dependents hnode,
    congrArg Node.wave hnode⟩

theorem nodup_table (h : graph.Assembled) :
    (graph.table.map (·.1)).Nodup ∧ ∀ e ∈ graph.table, e.2.Nodup := by
  refine ⟨?_, fun e he => ?_⟩
  · rw [table, List.map_map]
    exact h.wellFormed.names_nodup
  · obtain ⟨node, hnode, rfl⟩ := List.mem_map.1 he
    exact dependenciesOf_eq (h.wellFormed.get?_of_mem hnode) ▸
      h.wellFormed.dependencies_nodup node.name

/-- **What is kept of a graph**, put together from scratch, is its restriction. -/
theorem assemble_restrict (h : graph.Assembled) (hcloses : graph.table.Closes keep) :
    assemble ((graph.nodes.filter fun n => keep n.name).map (·.task))
        ((graph.nodes.filter fun n => keep n.name).map fun n => (n.name, n.dependencies)) =
      .ok (graph.restrict keep) := by
  obtain ⟨hsorted, hspec⟩ := h.spec
  obtain ⟨hkeys, htargets⟩ := h.nodup_table
  have htable : taskDependencies
      ((graph.nodes.filter fun n => keep n.name).map (·.task))
      ((graph.nodes.filter fun n => keep n.name).map fun n => (n.name, n.dependencies)) =
        graph.table.restrict keep := by
    rw [taskDependencies_nodes (h.wellFormed.names_nodup.sublist (List.filter_sublist.map _)),
      Dependencies.restrict, table, List.filter_map]
    rfl
  have hsort := Dependencies.sort_restrict hkeys htargets hcloses
  refine assemble_eq_ok_iff.2 ⟨?_, ?_⟩
  · have hperm : graph.table.sort.Perm (graph.table.map (·.1)) := by
      rw [← hsorted, table, List.map_map]
      exact h.wellFormed.sorted_perm
    rw [htable, hsort, (hperm.filter keep).length_eq, ← Dependencies.map_fst_restrict,
      List.length_map]
  · rw [htable, hsort, ← hsorted, restrict, List.map_map]
    refine congrArg (TaskGraph.mk · _) (List.map_congr_left fun node hnode => ?_)
    obtain ⟨hmem, hkeep⟩ := List.mem_filter.1 hnode
    rw [Function.comp_apply, assembledNode, htable, ← Node.name,
      Dependencies.of_restrict _ hkeep, Dependencies.dependents_restrict, hsort,
      Dependencies.get?_waveTable_restrict hcloses _ hkeep]
    obtain ⟨hdependencies, hdependents, hwave⟩ := hspec node hmem
    rw [← hdependencies, ← hdependents, ← hwave]

/-- **The part of a graph** that some tasks need is its restriction to what is required. -/
theorem closure_eq (h : graph.Assembled) (hroots : ∀ root ∈ roots, root ∈ graph.names) :
    ∃ keep : TaskName → Bool, (∀ name, keep name = true ↔ graph.Required roots name) ∧
      graph.closure roots = .ok (graph.restrict keep) := by
  have hkeep : ∀ name,
      (graph.reach (roots.length + graph.edgeCount + 1) [] roots).contains name = true ↔
        graph.Required roots name := fun name => by
    rw [List.contains_iff_mem, mem_reach_iff h.wellFormed.names_nodup]
  refine ⟨_, hkeep, ?_⟩
  rw [closure, find?_eq_none_iff.2 hroots]
  exact h.assemble_restrict (h.wellFormed.closes hkeep)

end Assembled

/-- **The part of a graph that some tasks need is the graph with everything else removed**: the
tasks, what they depend on, their waves and their order are as before. There is such a part unless
one of the tasks is unknown, and then the first of these is the error. -/
theorem closure_is_the_restriction {builder : GraphBuilder ω} (hdeclared : builder.Declared)
    (hbuild : builder.build = .ok graph) (roots : List TaskName) :
    (∀ error, graph.closure roots = .error error ↔
      ∃ before root after, roots = before ++ root :: after ∧ (∀ r ∈ before, r ∈ graph.names) ∧
        root ∉ graph.names ∧ error = .unknownTask root) ∧
    ((∀ root ∈ roots, root ∈ graph.names) → ∃ keep : TaskName → Bool,
      (∀ name, keep name = true ↔ graph.Required roots name) ∧
        graph.closure roots = .ok (graph.restrict keep)) := by
  have hassembled := hdeclared.assembled hbuild
  refine ⟨fun error => ⟨fun herror => ?_, ?_⟩, hassembled.closure_eq⟩
  · cases hfind : roots.find? fun root => !graph.contains root with
    | none =>
      obtain ⟨keep, -, hok⟩ := hassembled.closure_eq (find?_eq_none_iff.1 hfind)
      cases hok.symm.trans herror
    | some root =>
      obtain ⟨before, after, hsplit, hbefore, hroot⟩ := find?_eq_some_iff.1 hfind
      rw [closure, hfind] at herror
      exact ⟨before, root, after, hsplit, hbefore, hroot, (Except.error.inj herror).symm⟩
  · rintro ⟨before, root, after, hsplit, hbefore, hroot, rfl⟩
    rw [closure, find?_eq_some_iff.2 ⟨before, after, hsplit, hbefore, hroot⟩]

/-- A task and what it depends on, without the task that was sorted **between them**. -/
theorem closure_is_the_restriction_small :
    small.closure [⟨"app"⟩] = .ok
      { nodes := [⟨.plain "lib", [], [⟨"app"⟩], 0⟩, ⟨.plain "app", [⟨"lib"⟩], [], 1⟩]
        sorted := [⟨"lib"⟩, ⟨"app"⟩] } ∧
      ∃ keep : TaskName → Bool, (∀ name, keep name = true ↔ small.Required [⟨"app"⟩] name) ∧
        small.closure [⟨"app"⟩] = .ok (small.restrict keep) :=
  ⟨rfl, (closure_is_the_restriction declared_small build_small
    [⟨"app"⟩]).2 (by decide)⟩

end TaskGraph

end BuildMatrix
