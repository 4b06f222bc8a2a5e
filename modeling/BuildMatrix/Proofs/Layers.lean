import BuildMatrix.Proofs.Building
import BuildMatrix.Proofs.Restriction
import Mathlib.Order.Bounds.Basic

/-!
# The layers of a task graph

The order of a graph comes from a queue, and nothing in the queue knows about waves. Still the order
goes wave by wave. A name joins the queue when the last of its dependencies is taken, so the order
is decided by two numbers: when a name joins, and where it was registered among those that join with
it. A task of a later wave has a dependency in the wave before, which by induction was taken after
all dependencies of a task of an earlier wave; so it joins later. The waves themselves are the
lengths of the longest chains of dependencies, because each task is sorted after what it depends on.
-/

namespace BuildMatrix

/-! ### The least number above others -/

/-- The **least number above** all of some numbers. -/
def above (numbers : List Nat) : Nat := numbers.foldl (fun bound n => max bound (n + 1)) 0

theorem above_le_iff {numbers : List Nat} {bound : Nat} :
    above numbers ≤ bound ↔ ∀ n ∈ numbers, n < bound := by
  have hfoldl : ∀ start, numbers.foldl (fun bound n => max bound (n + 1)) start ≤ bound ↔
      start ≤ bound ∧ ∀ n ∈ numbers, n < bound := by
    induction numbers with
    | nil => simp
    | cons n rest ih =>
      intro start
      rw [List.foldl_cons, ih, List.forall_mem_cons, max_le_iff, Nat.succ_le_iff, and_assoc]
  rw [above, hfoldl]
  exact and_iff_right (Nat.zero_le _)

theorem lt_above {numbers : List Nat} {n : Nat} (h : n ∈ numbers) : n < above numbers :=
  above_le_iff.1 (Nat.le_refl _) n h

theorem mem_of_above_eq_succ {numbers : List Nat} {n : Nat} (h : above numbers = n + 1) :
    n ∈ numbers := by
  by_contra hmem
  have hle : above numbers ≤ n := above_le_iff.2 fun m hm => by
    have hlt := lt_above hm
    have hne : m ≠ n := fun heq => hmem (heq ▸ hm)
    omega
  omega

theorem pairwise_idxOf {names : List TaskName} (h : names.Nodup) :
    names.Pairwise fun a b => names.idxOf a < names.idxOf b := by
  refine List.pairwise_iff_getElem.2 fun i j hi hj hlt => ?_
  rwa [h.idxOf_getElem, h.idxOf_getElem]

/-! ### When names join the queue -/

namespace Dependencies

variable {deps : Dependencies} {done queue : List TaskName} {counts : Counts} {name : TaskName}

/-- When a name **joins the queue**: how many names are taken when its last dependency is. -/
def joinTime (deps : Dependencies) (taken : List TaskName) (name : TaskName) : Nat :=
  above ((deps.of name).map fun d => taken.idxOf d)

theorem joinTime_append (h : ∀ d ∈ deps.of name, d ∈ done) (later : List TaskName) :
    joinTime deps (done ++ later) name = joinTime deps done name := by
  refine congrArg above (List.map_congr_left fun d hd => ?_)
  exact List.idxOf_append_of_mem (h d hd)

theorem joinTime_le (h : ∀ d ∈ deps.of name, d ∈ done) : joinTime deps done name ≤ done.length := by
  refine above_le_iff.2 fun n hn => ?_
  obtain ⟨d, hd, rfl⟩ := List.mem_map.1 hn
  exact List.idxOf_lt_length_iff.2 (h d hd)

/-- A name comes **before another** if it joins earlier, or with it and was registered earlier. -/
def JoinsBefore (deps : Dependencies) (taken : List TaskName) (a b : TaskName) : Prop :=
  joinTime deps taken a < joinTime deps taken b ∨
    joinTime deps taken a = joinTime deps taken b ∧
      (deps.map (·.1)).idxOf a < (deps.map (·.1)).idxOf b

theorem pairwise_joinsBefore (hkeys : (deps.map (·.1)).Nodup) {taken names : List TaskName}
    (hnames : names.Sublist (deps.map (·.1))) (time : Nat)
    (htime : ∀ name ∈ names, joinTime deps taken name = time) :
    names.Pairwise (JoinsBefore deps taken) := by
  refine ((pairwise_idxOf hkeys).sublist hnames).imp_of_mem fun ha hb hlt => .inr ⟨?_, hlt⟩
  rw [htime _ ha, htime _ hb]

end Dependencies

namespace Countdown

open Dependencies

variable {deps : Dependencies} {done queue : List TaskName} {counts : Counts} {name : TaskName}

theorem of_mem_done (h : Countdown deps done counts queue) (hkeys : (deps.map (·.1)).Nodup)
    (hname : name ∈ done ++ queue) : ∀ d ∈ deps.of name, d ∈ done := by
  obtain ⟨e, he, rfl⟩ := List.mem_map.1 (h.mem_keys name hname)
  rw [of_eq_of_mem hkeys he]
  exact (h.mem_iff e he).1 hname

/-- **Taking a name keeps the order**: what joins the queue now joins after everything before. -/
theorem joinsBefore_take (h : Countdown deps done counts (name :: queue))
    (hkeys : (deps.map (·.1)).Nodup) (htargets : ∀ e ∈ deps, e.2.Nodup)
    (hordered : (done ++ name :: queue).Pairwise (JoinsBefore deps done)) :
    (done ++ [name] ++ (release (deps.dependents name) counts queue).2).Pairwise
      (JoinsBefore deps (done ++ [name])) := by
  have hnext := h.take hkeys htargets
  rw [release_snd (nodup_dependents hkeys name)] at hnext ⊢
  have hopen : name ∉ done := fun hmem =>
    (List.nodup_append.1 h.nodup).2.2 name hmem name List.mem_cons_self rfl
  have hold : ∀ other ∈ done ++ name :: queue,
      joinTime deps (done ++ [name]) other = joinTime deps done other ∧
        joinTime deps done other ≤ done.length := fun other hother =>
    ⟨joinTime_append (h.of_mem_done hkeys hother) _, joinTime_le (h.of_mem_done hkeys hother)⟩
  have hnew : ∀ other ∈ (deps.dependents name).filter
      (fun n => (TaskTable.get? n counts).any (· - 1 == 0)),
      joinTime deps (done ++ [name]) other = done.length + 1 := by
    intro other hother
    have hle := joinTime_le (hnext.of_mem_done hkeys
      (List.mem_append_right _ (List.mem_append_right _ hother)))
    have hlt : done.length < joinTime deps (done ++ [name]) other := by
      refine lt_above (List.mem_map.2
        ⟨name, (mem_dependents hkeys).1 (List.mem_filter.1 hother).1, ?_⟩)
      rw [List.idxOf_append_of_notMem hopen, List.idxOf_cons_self, Nat.add_zero]
    rw [List.length_append, List.length_singleton] at hle
    omega
  rw [← List.append_assoc, List.append_assoc done, List.singleton_append]
  refine List.pairwise_append.2 ⟨?_, ?_, fun a ha b hb => .inl ?_⟩
  · refine hordered.imp_of_mem fun {a b} ha hb hbefore => ?_
    rwa [JoinsBefore, (hold a ha).1, (hold b hb).1]
  · refine pairwise_joinsBefore hkeys ?_ _ hnew
    exact List.filter_sublist.trans (List.filter_sublist.map _)
  · rw [hnew b hb, (hold a ha).1]
    exact Nat.lt_succ_of_le (hold a ha).2

end Countdown

namespace Dependencies

variable {deps : Dependencies} {done queue : List TaskName} {counts : Counts} {name : TaskName}

theorem pairwise_drain (hkeys : (deps.map (·.1)).Nodup) (htargets : ∀ e ∈ deps, e.2.Nodup)
    (fuel : Nat) (h : Countdown deps done counts queue)
    (hordered : (done ++ queue).Pairwise (JoinsBefore deps done)) :
    (done ++ drain deps fuel counts queue).Pairwise
      (JoinsBefore deps (done ++ drain deps fuel counts queue)) := by
  induction fuel generalizing done counts queue with
  | zero =>
    rw [drain, List.append_nil]
    exact hordered.sublist (List.sublist_append_left ..)
  | succ fuel ih =>
    cases queue with
    | nil =>
      rw [drain_nil, List.append_nil]
      exact hordered.sublist (List.sublist_append_left ..)
    | cons name queue =>
      have hrest := ih (h.take hkeys htargets) (h.joinsBefore_take hkeys htargets hordered)
      rwa [drain_cons, ← List.singleton_append, ← List.append_assoc]

/-- **The order of the names**: by the time at which they join the queue, and then by
registration. -/
theorem pairwise_sort (hkeys : (deps.map (·.1)).Nodup) (htargets : ∀ e ∈ deps, e.2.Nodup) :
    deps.sort.Pairwise (JoinsBefore deps deps.sort) := by
  refine pairwise_drain hkeys htargets deps.length (.initial hkeys) ?_
  refine pairwise_joinsBefore hkeys (List.filter_sublist.map _) 0 fun name hname => ?_
  obtain ⟨e, he, rfl⟩ := List.mem_map.1 hname
  obtain ⟨hmem, hempty⟩ := List.mem_filter.1 he
  rw [joinTime, of_eq_of_mem hkeys hmem, List.isEmpty_iff.1 hempty]
  rfl

/-! ### Waves of names -/

theorem get?_waveTable_append (before : List TaskName) {after : List TaskName}
    (h : name ∉ after) : TaskTable.get? name (waveTable deps (before ++ after)) =
      TaskTable.get? name (waveTable deps before) := by
  induction after using List.reverseRecOn with
  | nil => rw [List.append_nil]
  | append_singleton after last ih =>
    rw [List.mem_append, List.mem_singleton, not_or] at h
    rw [← List.append_assoc, waveTable_concat, TaskTable.get?, if_neg (Ne.symm h.2), ih h.1]

theorem get?_waveTable {before after : List TaskName} (h : name ∉ after) :
    TaskTable.get? name (waveTable deps (before ++ name :: after)) =
      some (nextWave (waveTable deps before) (deps.of name)) := by
  rw [← List.singleton_append, ← List.append_assoc, get?_waveTable_append _ h, waveTable_concat,
    TaskTable.get?, if_pos rfl]

theorem nextWave_eq (table : TaskTable Nat) (targets : List TaskName) :
    nextWave table targets = above (targets.filterMap fun d => table.get? d) := rfl

end Dependencies

namespace TaskGraph

open Dependencies

variable {ω : Type} {graph part : TaskGraph ω} {name d : TaskName} {before after : List TaskName}

/-! ### Graphs that are made -/

/-- The graphs that **building, and taking parts of graphs,** lead to. -/
inductive Made : TaskGraph ω → Prop
  | built {builder : GraphBuilder ω} {graph : TaskGraph ω} :
      builder.Declared → builder.build = .ok graph → Made graph
  | part {graph part : TaskGraph ω} {roots : List TaskName} :
      Made graph → graph.closure roots = .ok part → Made part

theorem mem_names_of_closure {roots : List TaskName} (h : graph.closure roots = .ok part) :
    ∀ root ∈ roots, root ∈ graph.names := by
  rw [closure] at h
  split at h
  · cases h
  · next hfind => exact find?_eq_none_iff.1 hfind

/-- A part of a graph is **put together of its own tasks** as well. -/
theorem Assembled.closure (h : graph.Assembled) {roots : List TaskName}
    (hpart : graph.closure roots = .ok part) : part.Assembled := by
  obtain ⟨keep, hkeep, hclosure⟩ := h.closure_eq (mem_names_of_closure hpart)
  obtain rfl := Except.ok.inj (hpart.symm.trans hclosure)
  refine ⟨(closure_spec h.wellFormed hpart).1, ?_⟩
  rw [← h.assemble_restrict (h.wellFormed.closes hkeep), table, restrict, List.map_map,
    List.map_map]
  rfl

theorem Made.assembled (h : graph.Made) : graph.Assembled := by
  induction h with
  | built hdeclared hbuild => exact hdeclared.assembled hbuild
  | part _ hpart ih => exact ih.closure hpart

theorem WellFormed.sorted_nodup (h : graph.WellFormed) : graph.sorted.Nodup :=
  h.sorted_perm.nodup_iff.2 h.names_nodup

theorem WellFormed.mem_sorted_iff (h : graph.WellFormed) :
    name ∈ graph.sorted ↔ name ∈ graph.names :=
  h.sorted_perm.mem_iff

/-! ### Waves of tasks -/

namespace Assembled

theorem of_table (h : graph.Assembled) (hname : name ∈ graph.names) :
    graph.table.of name = graph.dependenciesOf name := by
  obtain ⟨node, hnode⟩ := exists_get?_eq_some hname
  have hdependencies := (h.spec.2 node (mem_nodes_of_get?_eq_some hnode)).1
  rw [name_of_get?_eq_some hnode] at hdependencies
  rw [dependenciesOf_eq hnode, hdependencies]

theorem waveOf_eq_getD (h : graph.Assembled) (hname : name ∈ graph.names) :
    graph.waveOf name = (TaskTable.get? name (graph.table.waveTable graph.sorted)).getD 0 := by
  obtain ⟨node, hnode⟩ := exists_get?_eq_some hname
  obtain ⟨hsorted, hspec⟩ := h.spec
  have hwave := (hspec node (mem_nodes_of_get?_eq_some hnode)).2.2
  rw [name_of_get?_eq_some hnode, ← hsorted] at hwave
  rw [waveOf, hnode]
  exact hwave

/-- **The wave of a task** is the least number above the waves of its dependencies. -/
theorem waveOf_eq (h : graph.Assembled) (hname : name ∈ graph.names) :
    graph.waveOf name = above ((graph.dependenciesOf name).map graph.waveOf) := by
  have hnodup := h.wellFormed.sorted_nodup
  have hwave : ∀ other ∈ graph.names, ∀ before after, graph.sorted = before ++ other :: after →
      TaskTable.get? other (graph.table.waveTable graph.sorted) =
        some (nextWave (graph.table.waveTable before) (graph.dependenciesOf other)) := by
    intro other hother before after hsplit
    rw [hsplit, List.nodup_append] at hnodup
    rw [hsplit, get?_waveTable (List.nodup_cons.1 hnodup.2.1).1, h.of_table hother]
  obtain ⟨before, after, hsplit⟩ := List.append_of_mem (h.wellFormed.mem_sorted_iff.2 hname)
  rw [h.waveOf_eq_getD hname, hwave name hname before after hsplit, Option.getD_some, nextWave_eq,
    ← List.filterMap_eq_map]
  refine congrArg above (List.filterMap_congr fun d hd => ?_)
  -- the dependency was sorted before, and its wave has not changed since
  have hbefore := h.wellFormed.mem_before before name after hsplit d hd
  have hafter : d ∉ name :: after := fun hmem => by
    rw [hsplit, List.nodup_append] at hnodup
    exact hnodup.2.2 d hbefore d hmem rfl
  have hmem := h.wellFormed.mem_names name d hd
  obtain ⟨before', after', hsplit'⟩ :=
    List.append_of_mem (h.wellFormed.mem_sorted_iff.2 hmem)
  have hfound := hwave d hmem before' after' hsplit'
  rw [Function.comp_apply, h.waveOf_eq_getD hmem, hfound, Option.getD_some, ← hfound, hsplit,
    get?_waveTable_append before hafter]

theorem waveOf_lt (h : graph.Assembled) (hd : d ∈ graph.dependenciesOf name) :
    graph.waveOf d < graph.waveOf name := by
  rw [h.waveOf_eq (mem_names_of_mem_dependenciesOf hd)]
  exact lt_above (List.mem_map_of_mem hd)

theorem mem_names_of_waveOf (hwave : 0 < graph.waveOf name) : name ∈ graph.names := by
  rw [← isSome_get?_iff]
  rw [waveOf] at hwave
  split at hwave
  · next hnode => rw [hnode]; rfl
  · cases hwave

theorem exists_waveOf_eq (h : graph.Assembled) {wave : Nat} (hwave : graph.waveOf name = wave + 1) :
    ∃ d ∈ graph.dependenciesOf name, graph.waveOf d = wave := by
  rw [h.waveOf_eq (mem_names_of_waveOf (by omega))] at hwave
  exact List.mem_map.1 (mem_of_above_eq_succ hwave)

theorem dependenciesOf_eq_nil (h : graph.Assembled) (hwave : graph.waveOf name = 0) :
    graph.dependenciesOf name = [] :=
  List.eq_nil_iff_forall_not_mem.2 fun d hd => by
    have := h.waveOf_lt hd
    omega

end Assembled

/-- A **chain of dependencies** below a task, from one to the next. -/
def ChainBelow (graph : TaskGraph ω) (name : TaskName) (chain : List TaskName) : Prop :=
  (name :: chain).IsChain fun a b => b ∈ graph.dependenciesOf a

theorem Assembled.isGreatest_waveOf (h : graph.Assembled) (name : TaskName) :
    IsGreatest {n | ∃ chain, graph.ChainBelow name chain ∧ chain.length = n}
      (graph.waveOf name) := by
  constructor
  · generalize hwave : graph.waveOf name = wave
    induction wave generalizing name with
    | zero => exact ⟨[], .singleton name, rfl⟩
    | succ wave ih =>
      obtain ⟨d, hd, heq⟩ := h.exists_waveOf_eq hwave
      obtain ⟨chain, hchain, rfl⟩ := ih d heq
      exact ⟨d :: chain, .cons_cons hd hchain, rfl⟩
  · rintro n ⟨chain, hchain, rfl⟩
    induction chain generalizing name with
    | nil => exact Nat.zero_le _
    | cons d chain ih =>
      obtain ⟨hd, hrest⟩ := List.isChain_cons_cons.1 hchain
      exact Nat.succ_le_of_lt (Nat.lt_of_le_of_lt (ih d hrest) (h.waveOf_lt hd))

theorem waveCount_eq (graph : TaskGraph ω) :
    graph.waveCount = above (graph.nodes.map (·.wave)) := by
  rw [above, List.foldl_map]
  rfl

theorem waves_getElem? (graph : TaskGraph ω) (wave : Nat) :
    graph.waves[wave]? = if wave < graph.waveCount then
      some (graph.sorted.filter fun name => graph.waveOf name == wave) else none := by
  rw [waves, List.getElem?_map]
  split
  · next hlt => rw [List.getElem?_range hlt]; rfl
  · next hle => rw [List.getElem?_eq_none (by simpa using hle)]; rfl

theorem WellFormed.waveOf_node (h : graph.WellFormed) {node : Node ω} (hnode : node ∈ graph.nodes) :
    graph.waveOf node.name = node.wave := by
  rw [waveOf, h.get?_of_mem hnode]

theorem WellFormed.waveOf_lt_waveCount (h : graph.WellFormed) (hname : name ∈ graph.names) :
    graph.waveOf name < graph.waveCount := by
  obtain ⟨node, hnode, rfl⟩ := List.mem_map.1 hname
  rw [h.waveOf_node hnode, waveCount_eq]
  exact lt_above (List.mem_map_of_mem hnode)

theorem Assembled.exists_mem_wave (h : graph.Assembled) {wave : Nat}
    (hwave : wave < graph.waveCount) : ∃ name ∈ graph.names, graph.waveOf name = wave := by
  -- going down from a task of the last wave, every wave is passed
  have hdown : ∀ {top name}, name ∈ graph.names → graph.waveOf name = top → wave ≤ top →
      ∃ name ∈ graph.names, graph.waveOf name = wave := by
    intro top
    induction top with
    | zero => exact fun hname htop hle => ⟨_, hname, htop.trans (Nat.le_zero.1 hle).symm⟩
    | succ top ih =>
      intro name hname htop hle
      rcases Nat.lt_or_eq_of_le hle with hlt | rfl
      · obtain ⟨d, hd, heq⟩ := h.exists_waveOf_eq htop
        exact ih (h.wellFormed.mem_names name d hd) heq (Nat.le_of_lt_succ hlt)
      · exact ⟨name, hname, htop⟩
  obtain ⟨last, hlast⟩ : ∃ last, graph.waveCount = last + 1 := ⟨graph.waveCount - 1, by omega⟩
  rw [waveCount_eq] at hlast
  obtain ⟨node, hnode, heq⟩ := List.mem_map.1 (mem_of_above_eq_succ hlast)
  refine hdown (List.mem_map_of_mem hnode) ((h.wellFormed.waveOf_node hnode).trans heq) ?_
  rw [waveCount_eq] at hwave
  omega

theorem Assembled.mem_waves_iff (h : graph.Assembled) {wave : Nat} :
    (∃ names, graph.waves[wave]? = some names ∧ name ∈ names) ↔
      ∃ node ∈ graph.nodes, node.name = name ∧ node.wave = wave := by
  rw [waves_getElem?]
  constructor
  · rintro ⟨names, hnames, hname⟩
    split at hnames
    · obtain rfl := Option.some.inj hnames
      obtain ⟨hmem, hwave⟩ := List.mem_filter.1 hname
      obtain ⟨node, hnode, rfl⟩ := List.mem_map.1 (h.wellFormed.mem_sorted_iff.1 hmem)
      rw [h.wellFormed.waveOf_node hnode] at hwave
      exact ⟨node, hnode, rfl, beq_iff_eq.1 hwave⟩
    · cases hnames
  · rintro ⟨node, hnode, rfl, rfl⟩
    have hname : node.name ∈ graph.names := List.mem_map_of_mem hnode
    have hlt := h.wellFormed.waveOf_lt_waveCount hname
    rw [h.wellFormed.waveOf_node hnode] at hlt
    refine ⟨_, if_pos hlt, List.mem_filter.2 ⟨h.wellFormed.mem_sorted_iff.2 hname, ?_⟩⟩
    rw [h.wellFormed.waveOf_node hnode, beq_self_eq_true]

/-- **The order and the waves of a graph**, of every one that was built and of every part: all tasks
are sorted once, each after its dependencies; the wave of a task is the length of the longest chain
of dependencies below it; and what is listed for a wave is its tasks, once each, and never
nothing. -/
theorem order_and_waves_are_exact (h : graph.Made) :
    (graph.sorted.Nodup ∧ ∀ name, name ∈ graph.sorted ↔ name ∈ graph.names) ∧
    (∀ before name after, graph.sorted = before ++ name :: after →
      ∀ d ∈ graph.dependenciesOf name, d ∈ before) ∧
    (∀ node ∈ graph.nodes,
      IsGreatest {n | ∃ chain, graph.ChainBelow node.name chain ∧ chain.length = n} node.wave) ∧
    (∀ wave name, (∃ names, graph.waves[wave]? = some names ∧ name ∈ names) ↔
      ∃ node ∈ graph.nodes, node.name = name ∧ node.wave = wave) ∧
    ∀ names ∈ graph.waves, names.Nodup ∧ names ≠ [] := by
  have hassembled := h.assembled
  have hgraph := hassembled.wellFormed
  refine ⟨⟨hgraph.sorted_nodup, fun name => hgraph.mem_sorted_iff⟩, hgraph.mem_before,
    fun node hnode => ?_, fun wave name => hassembled.mem_waves_iff, fun names hnames => ?_⟩
  · rw [← hgraph.waveOf_node hnode]
    exact hassembled.isGreatest_waveOf node.name
  · obtain ⟨wave, hwave, rfl⟩ := List.mem_map.1 hnames
    refine ⟨hgraph.sorted_nodup.filter _, ?_⟩
    obtain ⟨name, hname, heq⟩ := hassembled.exists_mem_wave (List.mem_range.1 hwave)
    refine List.ne_nil_of_mem (List.mem_filter.2 ⟨hgraph.mem_sorted_iff.2 hname, ?_⟩)
    rw [heq, beq_self_eq_true]

/-- Tasks that are registered before what they depend on; the first two join the order crosswise. -/
def crossed : List (Declaration Unit) :=
  [.task ⟨⟨"pack"⟩, some "ship", "", ()⟩ [⟨"lint"⟩, ⟨"link"⟩],
    .task ⟨⟨"lint"⟩, some "check", "", ()⟩ [⟨"tool"⟩],
    .task ⟨⟨"link"⟩, none, "", ()⟩ [⟨"core"⟩], .task ⟨⟨"core"⟩, some "check", "", ()⟩ [],
    .task ⟨⟨"tool"⟩, none, "", ()⟩ []]

theorem waves_of_part_of_crossed : ∃ graph part : TaskGraph Unit,
    (GraphBuilder.declareAll crossed).build = .ok graph ∧
    graph.closure [⟨"link"⟩, ⟨"lint"⟩] = .ok part ∧
    part.sorted = [⟨"core"⟩, ⟨"tool"⟩, ⟨"link"⟩, ⟨"lint"⟩] ∧
    ∀ node ∈ part.nodes,
      IsGreatest {n | ∃ chain, part.ChainBelow node.name chain ∧ chain.length = n} node.wave := by
  refine ⟨_, _, rfl, rfl, rfl, ?_⟩
  exact (order_and_waves_are_exact (.part (.built (GraphBuilder.declared_declareAll crossed) rfl)
    (show closure _ [⟨"link"⟩, ⟨"lint"⟩] = _ from rfl))).2.2.1

/-! ### The order within waves -/

/-- The dependency of a task that is **sorted last**. -/
def LastDependency (graph : TaskGraph ω) (name d : TaskName) : Prop :=
  d ∈ graph.dependenciesOf name ∧
    ∀ other ∈ graph.dependenciesOf name, graph.sorted.idxOf other ≤ graph.sorted.idxOf d

namespace Assembled

variable {a b : TaskName}

theorem pairwise_sorted (h : graph.Assembled) :
    graph.sorted.Pairwise (JoinsBefore graph.table graph.sorted) := by
  obtain ⟨hkeys, htargets⟩ := h.nodup_table
  rw [h.spec.1]
  exact pairwise_sort hkeys htargets

theorem idxOf_lt_of_joinsBefore (h : graph.Assembled) (ha : a ∈ graph.sorted)
    (hb : b ∈ graph.sorted) (hjoins : JoinsBefore graph.table graph.sorted a b) :
    graph.sorted.idxOf a < graph.sorted.idxOf b := by
  by_contra hle
  rw [JoinsBefore] at hjoins
  rcases Nat.lt_or_eq_of_le (Nat.le_of_not_lt hle) with hlt | heq
  · have hother := List.pairwise_iff_getElem.1 h.pairwise_sorted _ _
      (List.idxOf_lt_length_iff.2 hb) (List.idxOf_lt_length_iff.2 ha) hlt
    rw [List.getElem_idxOf, List.getElem_idxOf, JoinsBefore] at hother
    omega
  · rw [(List.idxOf_inj hb).1 heq] at hjoins
    omega

theorem joinTime_eq (h : graph.Assembled) (hname : name ∈ graph.names) :
    joinTime graph.table graph.sorted name =
      above ((graph.dependenciesOf name).map fun d => graph.sorted.idxOf d) := by
  rw [joinTime, h.of_table hname]

theorem exists_lastDependency (h : graph.Assembled) (hwave : 0 < graph.waveOf name) :
    ∃ d, graph.LastDependency name d ∧
      joinTime graph.table graph.sorted name = graph.sorted.idxOf d + 1 := by
  obtain ⟨wave, hsucc⟩ : ∃ wave, graph.waveOf name = wave + 1 := ⟨graph.waveOf name - 1, by omega⟩
  obtain ⟨first, hfirst, -⟩ := h.exists_waveOf_eq hsucc
  have htime := h.joinTime_eq (mem_names_of_waveOf hwave)
  have hlt : ∀ d ∈ graph.dependenciesOf name,
      graph.sorted.idxOf d < joinTime graph.table graph.sorted name := fun d hd => by
    rw [htime]
    exact lt_above (List.mem_map_of_mem hd)
  obtain ⟨time, heq⟩ : ∃ time, joinTime graph.table graph.sorted name = time + 1 :=
    ⟨joinTime graph.table graph.sorted name - 1, by have := hlt first hfirst; omega⟩
  obtain ⟨d, hd, rfl⟩ := List.mem_map.1 (mem_of_above_eq_succ (htime.symm.trans heq))
  refine ⟨d, ⟨hd, fun other hother => ?_⟩, heq⟩
  have := hlt other hother
  omega

/-- **A task of an earlier wave is sorted before** one of a later wave. -/
theorem idxOf_lt_of_waveOf_lt (h : graph.Assembled) (ha : a ∈ graph.sorted) (hb : b ∈ graph.sorted)
    (hlt : graph.waveOf a < graph.waveOf b) : graph.sorted.idxOf a < graph.sorted.idxOf b := by
  -- along the dependencies of the earlier one: its last dependency is in an earlier wave again
  induction hwave : graph.waveOf a using Nat.strong_induction_on generalizing a b with
  | _ wave ih =>
    have hmem : ∀ {name}, name ∈ graph.sorted ↔ name ∈ graph.names := h.wellFormed.mem_sorted_iff
    obtain ⟨top, htop⟩ : ∃ top, graph.waveOf b = top + 1 := ⟨graph.waveOf b - 1, by omega⟩
    obtain ⟨d, hd, hbelow⟩ := h.exists_waveOf_eq htop
    have hb' : graph.sorted.idxOf d < joinTime graph.table graph.sorted b := by
      rw [h.joinTime_eq (hmem.1 hb)]
      exact lt_above (List.mem_map_of_mem hd)
    refine h.idxOf_lt_of_joinsBefore ha hb (.inl ?_)
    rcases Nat.eq_zero_or_pos (graph.waveOf a) with hzero | hpos
    · rw [h.joinTime_eq (hmem.1 ha), h.dependenciesOf_eq_nil hzero]
      exact Nat.lt_of_le_of_lt (Nat.zero_le _) hb'
    · obtain ⟨c, ⟨hc, -⟩, htime⟩ := h.exists_lastDependency hpos
      have hlower := h.waveOf_lt hc
      have hbefore := ih (graph.waveOf c) (by omega)
        (hmem.2 (h.wellFormed.mem_names a c hc)) (hmem.2 (h.wellFormed.mem_names b d hd))
        (by omega) rfl
      omega

end Assembled

/-- Sorted by a number that is below a bound, a list is **put together of its layers**. -/
theorem flatten_layers {names : List TaskName} {rank : TaskName → Nat} {bound : Nat}
    (hsorted : names.Pairwise fun a b => rank a ≤ rank b)
    (hbound : ∀ name ∈ names, rank name < bound) :
    ((List.range bound).map fun n => names.filter fun name => rank name == n).flatten = names := by
  induction bound generalizing names with
  | zero =>
    rw [List.eq_nil_iff_forall_not_mem.2 fun name hname => Nat.not_lt_zero _ (hbound name hname)]
    rfl
  | succ bound ih =>
    -- the names of the last layer stand at the end
    have hsplit : (names.filter fun name => rank name < bound) ++
        names.filter (fun name => rank name == bound) = names := by
      clear ih
      induction names with
      | nil => rfl
      | cons name rest ih =>
        obtain ⟨hfirst, hrest⟩ := List.pairwise_cons.1 hsorted
        obtain ⟨hle, hbound⟩ := List.forall_mem_cons.1 hbound
        rcases Nat.lt_or_eq_of_le (Nat.le_of_lt_succ hle) with hlt | heq
        · rw [List.filter_cons_of_pos (by simpa using hlt), List.filter_cons_of_neg
            (by simpa using Nat.ne_of_lt hlt), List.cons_append, ih hrest hbound]
        · have hall : ∀ other ∈ rest, rank other = bound := fun other hother => by
            have := hfirst other hother
            have := hbound other hother
            omega
          rw [List.filter_eq_nil_iff.2, List.nil_append, List.filter_eq_self]
          · simpa [heq] using hall
          · simp only [List.mem_cons, forall_eq_or_imp, heq]
            exact ⟨by simp, fun other hother => by simp [hall other hother]⟩
    have hlower := ih (hsorted.sublist (List.filter_sublist (p := fun name => rank name < bound)))
      fun name hname => by simpa using (List.mem_filter.1 hname).2
    rw [List.range_succ, List.map_append, List.flatten_append, List.map_singleton,
      List.flatten_singleton]
    nth_rewrite 3 [← hsplit]
    rw [← hlower]
    refine congrArg (· ++ _) (congrArg List.flatten (List.map_congr_left fun n hn => ?_))
    rw [List.filter_filter]
    refine List.filter_congr fun name _ => ?_
    rw [List.mem_range] at hn
    by_cases heq : rank name = n
    · simp [heq, hn]
    · simp [heq]

theorem Assembled.sorted_eq_flatten (h : graph.Assembled) : graph.sorted = graph.waves.flatten := by
  refine (flatten_layers ?_ fun name hname => ?_).symm
  · refine (pairwise_idxOf h.wellFormed.sorted_nodup).imp_of_mem fun {a b} ha hb hlt => ?_
    by_contra hgt
    have := h.idxOf_lt_of_waveOf_lt hb ha (Nat.lt_of_not_le hgt)
    omega
  · exact h.wellFormed.waveOf_lt_waveCount (h.wellFormed.mem_sorted_iff.1 hname)

/-- **The order of a graph goes wave by wave**, of every one that was built and of every part. The
tasks of the first wave stand in the order of registration; those of a later wave by the place of
the dependency that is sorted last, and by registration where that is the same. -/
theorem order_goes_wave_by_wave (h : graph.Made) :
    graph.sorted = graph.waves.flatten ∧
    (∀ names, graph.waves[0]? = some names →
      names.Pairwise fun a b => graph.names.idxOf a < graph.names.idxOf b) ∧
    ∀ wave names, graph.waves[wave + 1]? = some names → names.Pairwise fun a b =>
      ∃ c d, graph.LastDependency a c ∧ graph.LastDependency b d ∧
        (graph.sorted.idxOf c < graph.sorted.idxOf d ∨
          c = d ∧ graph.names.idxOf a < graph.names.idxOf b) := by
  have hassembled := h.assembled
  have hkeys : graph.table.map (·.1) = graph.names := by rw [table, List.map_map]; rfl
  have hlisted : ∀ wave names, graph.waves[wave]? = some names →
      names = graph.sorted.filter fun name => graph.waveOf name == wave := by
    intro wave names hnames
    rw [waves_getElem?] at hnames
    split at hnames
    · exact (Option.some.inj hnames).symm
    · cases hnames
  have hordered : ∀ wave, (graph.sorted.filter fun name => graph.waveOf name == wave).Pairwise
      fun a b => graph.waveOf a = wave ∧ graph.waveOf b = wave ∧ a ∈ graph.sorted ∧
        b ∈ graph.sorted ∧ JoinsBefore graph.table graph.sorted a b := by
    intro wave
    refine (hassembled.pairwise_sorted.sublist List.filter_sublist).imp_of_mem
      fun {a b} ha hb hjoins => ?_
    obtain ⟨hmem, hwave⟩ := List.mem_filter.1 ha
    obtain ⟨hmem', hwave'⟩ := List.mem_filter.1 hb
    exact ⟨beq_iff_eq.1 hwave, beq_iff_eq.1 hwave', hmem, hmem', hjoins⟩
  refine ⟨hassembled.sorted_eq_flatten, fun names hnames => ?_, fun wave names hnames => ?_⟩
  · rw [hlisted _ _ hnames]
    refine (hordered 0).imp fun {a b} hab => ?_
    obtain ⟨hwave, hwave', ha, hb, hjoins⟩ := hab
    have hmem : ∀ {name}, name ∈ graph.sorted ↔ name ∈ graph.names :=
      hassembled.wellFormed.mem_sorted_iff
    rw [JoinsBefore, hkeys, hassembled.joinTime_eq (hmem.1 ha), hassembled.joinTime_eq (hmem.1 hb),
      hassembled.dependenciesOf_eq_nil hwave, hassembled.dependenciesOf_eq_nil hwave'] at hjoins
    exact (hjoins.resolve_left (Nat.lt_irrefl _)).2
  · rw [hlisted _ _ hnames]
    refine (hordered (wave + 1)).imp fun {a b} hab => ?_
    obtain ⟨hwave, hwave', -, -, hjoins⟩ := hab
    obtain ⟨c, hc, htime⟩ := hassembled.exists_lastDependency (by omega : 0 < graph.waveOf a)
    obtain ⟨d, hd, htime'⟩ := hassembled.exists_lastDependency (by omega : 0 < graph.waveOf b)
    refine ⟨c, d, hc, hd, ?_⟩
    rw [JoinsBefore, hkeys, htime, htime'] at hjoins
    rcases hjoins with hlt | ⟨heq, hlt⟩
    · exact .inl (Nat.lt_of_succ_lt_succ hlt)
    · have hsorted : c ∈ graph.sorted := hassembled.wellFormed.mem_sorted_iff.2
        (hassembled.wellFormed.mem_names a c hc.1)
      exact .inr ⟨(List.idxOf_inj hsorted).1 (Nat.succ.inj heq), hlt⟩

theorem order_of_crossed : ∃ graph : TaskGraph Unit,
    (GraphBuilder.declareAll crossed).build = .ok graph ∧
    graph.waves = [[⟨"core"⟩, ⟨"tool"⟩], [⟨"link"⟩, ⟨"lint"⟩], [⟨"pack"⟩]] ∧
    graph.sorted = graph.waves.flatten ∧
    ∃ c d, graph.LastDependency ⟨"link"⟩ c ∧ graph.LastDependency ⟨"lint"⟩ d ∧
      (graph.sorted.idxOf c < graph.sorted.idxOf d ∨
        c = d ∧ graph.names.idxOf ⟨"link"⟩ < graph.names.idxOf ⟨"lint"⟩) := by
  refine ⟨_, rfl, rfl, ?_⟩
  obtain ⟨hflatten, -, hlater⟩ :=
    order_goes_wave_by_wave (.built (GraphBuilder.declared_declareAll crossed) rfl)
  exact ⟨hflatten, List.pairwise_pair.1 (hlater 0 [⟨"link"⟩, ⟨"lint"⟩] rfl)⟩

end TaskGraph

end BuildMatrix
