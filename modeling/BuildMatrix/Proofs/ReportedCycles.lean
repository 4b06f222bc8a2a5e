import BuildMatrix.Proofs.Building

/-!
# Reported cycles

Where names are left over, the first of them is picked, and from there the first dependency that is
left over too is followed, and so on, until a name comes that was passed before. The names from its
first passing on are reported as a cycle.

The walk has no end in sight of its own: nothing counts down, and it may begin outside of any cycle.
It ends because each name that is left over has a dependency that is left over, so that there always
is a next name, and because there are only finitely many names, so that one of them comes again.
-/

namespace BuildMatrix

namespace Dependencies

variable {cycle path : List TaskName} {current : TaskName}

/-- **A cycle**: different names, each of which depends on the next one, and the last one on the
first. -/
structure IsCycle (depends : TaskName → TaskName → Prop) (cycle : List TaskName) : Prop where
  ne_nil : cycle ≠ []
  nodup : cycle.Nodup
  chain : (cycle ++ cycle.take 1).IsChain depends

theorem IsCycle.imp {depends others : TaskName → TaskName → Prop} (h : IsCycle depends cycle)
    (himp : ∀ a b, depends a b → others a b) : IsCycle others cycle :=
  ⟨h.ne_nil, h.nodup, h.chain.imp himp⟩

/-- The first dependency of a name that is **left over**. -/
def nextLeft? (deps : Dependencies) (sorted : List TaskName) (name : TaskName) : Option TaskName :=
  (deps.of name).find? fun d => !sorted.contains d

/-- **The walk to a name that was passed before**, however long it is: `path` holds the names passed
so far, and `cycle` those from the first passing of that name on. There is no rule for a name
without a dependency that is left over. -/
inductive ComesBack (deps : Dependencies) (sorted : List TaskName) :
    List TaskName → TaskName → List TaskName → Prop
  | back {path : List TaskName} {current : TaskName} :
      current ∈ path → ComesBack deps sorted path current (path.dropWhile (· != current))
  | onward {path cycle : List TaskName} {current next : TaskName} :
      current ∉ path → deps.nextLeft? sorted current = some next →
      ComesBack deps sorted (path ++ [current]) next cycle →
      ComesBack deps sorted path current cycle

variable {deps : Dependencies}

/-- What holds **at every step of the walk**: the names passed are different and left over, and each
of them depends on the one that comes after it. -/
structure Trail (deps : Dependencies) (path : List TaskName) (current : TaskName) : Prop where
  nodup : path.Nodup
  mem_keys : ∀ name ∈ path ++ [current], name ∈ deps.map (·.1)
  left : ∀ name ∈ path ++ [current], name ∉ deps.sort
  chain : (path ++ [current]).IsChain fun a b => b ∈ deps.of a

theorem Trail.start {name : TaskName} (hname : name ∈ deps.map (·.1)) (hleft : name ∉ deps.sort) :
    Trail deps [] name := by
  refine ⟨List.nodup_nil, ?_, ?_, .singleton _⟩
  all_goals
    intro other hother
    rwa [List.mem_singleton.1 hother]

theorem exists_nextLeft? (hkeys : (deps.map (·.1)).Nodup) (htargets : ∀ e ∈ deps, e.2.Nodup)
    {name : TaskName} (hname : name ∈ deps.map (·.1)) (hleft : name ∉ deps.sort) :
    ∃ next, deps.nextLeft? deps.sort name = some next := by
  obtain ⟨e, he, rfl⟩ := List.mem_map.1 hname
  by_contra hnone
  refine hleft (mem_sort_of_forall_mem hkeys htargets he fun d hd => ?_)
  have hfind : deps.nextLeft? deps.sort e.1 = none := by
    simpa [Option.eq_none_iff_forall_ne_some] using hnone
  rw [nextLeft?, of_eq_of_mem hkeys he] at hfind
  simpa using List.find?_eq_none.1 hfind d hd

/-- **One step of the walk.** -/
theorem Trail.onward (hkeys : (deps.map (·.1)).Nodup)
    (hclosed : ∀ e ∈ deps, ∀ d ∈ e.2, d ∈ deps.map (·.1)) {next : TaskName}
    (h : Trail deps path current) (hfresh : current ∉ path)
    (hnext : deps.nextLeft? deps.sort current = some next) :
    Trail deps (path ++ [current]) next := by
  have hdepends : next ∈ deps.of current := List.mem_of_find?_eq_some hnext
  have hleft : next ∉ deps.sort := by simpa using List.find?_some hnext
  have hmem : next ∈ deps.map (·.1) := by
    obtain ⟨e, he, rfl⟩ := List.mem_map.1 (h.mem_keys current (by simp))
    rw [of_eq_of_mem hkeys he] at hdepends
    exact hclosed e he next hdepends
  refine ⟨?_, ?_, ?_, ?_⟩
  · rw [← List.concat_eq_append]
    exact h.nodup.concat hfresh
  · intro name hname
    rcases List.mem_append.1 hname with hold | hnew
    · exact h.mem_keys name hold
    · exact List.mem_singleton.1 hnew ▸ hmem
  · intro name hname
    rcases List.mem_append.1 hname with hold | hnew
    · exact h.left name hold
    · exact List.mem_singleton.1 hnew ▸ hleft
  · refine h.chain.append (.singleton _) ?_
    intro a ha b hb
    simp only [List.getLast?_concat, Option.mem_some_iff, List.head?_cons] at ha hb
    exact ha ▸ hb ▸ hdepends

/-- From every step of the walk, **a name that was passed comes back**: there always is a next name,
and the names passed are different, so that there are no more of them than names. -/
theorem Trail.comesBack (hkeys : (deps.map (·.1)).Nodup) (htargets : ∀ e ∈ deps, e.2.Nodup)
    (hclosed : ∀ e ∈ deps, ∀ d ∈ e.2, d ∈ deps.map (·.1)) (fuel : Nat) (h : Trail deps path current)
    (hfuel : deps.length < fuel + path.length) :
    ComesBack deps deps.sort path current (follow deps deps.sort fuel path current) := by
  induction fuel generalizing path current with
  | zero =>
    have hsub : path.Subperm (deps.map (·.1)) :=
      h.nodup.subperm fun name hname => h.mem_keys name (List.mem_append_left _ hname)
    have hle := hsub.length_le
    rw [List.length_map] at hle
    omega
  | succ fuel ih =>
    rw [follow]
    by_cases hpassed : current ∈ path
    · rw [if_pos (List.contains_iff_mem.2 hpassed)]
      exact .back hpassed
    · rw [if_neg (by simpa using hpassed)]
      obtain ⟨next, hnext⟩ := exists_nextLeft? hkeys htargets (h.mem_keys current (by simp))
        (h.left current (by simp))
      have hfind := hnext
      rw [nextLeft?] at hfind
      rw [hfind]
      refine .onward hpassed hnext (ih (h.onward hkeys hclosed hpassed hnext) ?_)
      rw [List.length_append, List.length_singleton]
      omega

/-- **The names from the first passing on are a cycle.** -/
theorem ComesBack.isCycle (hkeys : (deps.map (·.1)).Nodup)
    (hclosed : ∀ e ∈ deps, ∀ d ∈ e.2, d ∈ deps.map (·.1))
    (h : ComesBack deps deps.sort path current cycle) (htrail : Trail deps path current) :
    IsCycle (fun a b => b ∈ deps.of a) cycle ∧ ∀ name ∈ cycle, name ∈ deps.map (·.1) := by
  induction h with
  | @back path current hpassed =>
    -- the names before the first passing are cut off
    obtain ⟨before, rest, hpath⟩ := List.append_of_mem hpassed
    obtain ⟨-, hsuffix, hapart⟩ := List.nodup_append.1 (hpath ▸ htrail.nodup)
    have hbefore : ∀ name ∈ before, (name != current) = true := by
      intro name hname
      simpa using hapart name hname current List.mem_cons_self
    have hcycle : path.dropWhile (· != current) = current :: rest := by
      rw [hpath, List.dropWhile_append_of_pos hbefore, List.dropWhile_cons_of_neg (by simp)]
    have hsplit : path ++ [current] = before ++ (current :: rest ++ [current]) := by simp [hpath]
    rw [hcycle]
    refine ⟨⟨List.cons_ne_nil _ _, hsuffix, ?_⟩, fun name hname => htrail.mem_keys name ?_⟩
    · have hchain := htrail.chain
      rw [hsplit] at hchain
      exact hchain.right_of_append
    · rw [hsplit]
      exact List.mem_append_right _ (List.mem_append_left _ hname)
  | onward hfresh hnext _ ih => exact ih (htrail.onward hkeys hclosed hfresh hnext)

/-- Where names are left over, the walk **begins at one of them**, and comes back to what is
reported. -/
theorem cycle_spec (hkeys : (deps.map (·.1)).Nodup) (htargets : ∀ e ∈ deps, e.2.Nodup)
    (hclosed : ∀ e ∈ deps, ∀ d ∈ e.2, d ∈ deps.map (·.1))
    (hlength : deps.sort.length ≠ deps.length) :
    ∃ start, (deps.map (·.1)).find? (fun name => !deps.sort.contains name) = some start ∧
      Trail deps [] start ∧ ComesBack deps deps.sort [] start (deps.cycle deps.sort) := by
  cases hstart : (deps.map (·.1)).find? fun name => !deps.sort.contains name with
  | none =>
    have hall : ∀ name ∈ deps.map (·.1), name ∈ deps.sort := by
      simpa using List.find?_eq_none.1 hstart
    have hge := (hkeys.subperm hall).length_le
    have hle := ((nodup_sort hkeys htargets).subperm
      (mem_keys_of_mem_sort hkeys htargets)).length_le
    rw [List.length_map] at hge hle
    omega
  | some start =>
    have htrail : Trail deps [] start :=
      .start (List.mem_of_find?_eq_some hstart) (by simpa using List.find?_some hstart)
    refine ⟨start, rfl, htrail, ?_⟩
    rw [cycle, hstart]
    exact htrail.comesBack hkeys htargets hclosed _ (by simp)

end Dependencies

namespace Declaration

variable {ω : Type} (declarations : List (Declaration ω))

/-- The registered names, each with what it is declared to depend on. -/
def table : Dependencies :=
  (names declarations).map fun name => (name, targets declarations name)

theorem map_fst_table : (table declarations).map (·.1) = names declarations := by
  rw [table, List.map_map]
  exact List.map_id _

theorem nodup_names : (names declarations).Nodup := by
  rw [← GraphBuilder.names_declareAll]
  exact (GraphBuilder.declared_declareAll declarations).names_nodup

theorem nodup_targets (name : TaskName) : (targets declarations name).Nodup := by
  rw [← GraphBuilder.of_edges_declareAll]
  rcases (GraphBuilder.declareAll declarations).edges.mem_or_of_eq_nil name with hmem | hnil
  · exact (GraphBuilder.declared_declareAll declarations).targets_nodup _ hmem
  · rw [hnil]
    exact List.nodup_nil

theorem mem_dependencies_of_mem_table {a b : TaskName} (h : b ∈ (table declarations).of a) :
    (a, b) ∈ dependencies declarations := by
  rcases (table declarations).mem_or_of_eq_nil a with hmem | hnil
  · obtain ⟨name, -, heq⟩ := List.mem_map.1 hmem
    obtain ⟨rfl, htargets⟩ := Prod.mk.inj heq
    exact mem_targets.1 (htargets ▸ h)
  · rw [hnil] at h
    cases h

end Declaration

namespace GraphBuilder

open Declaration

variable {ω : Type}

theorem taskDependencies_declareAll (declarations : List (Declaration ω)) :
    taskDependencies (declareAll declarations).tasks (declareAll declarations).edges =
      table declarations := by
  rw [taskDependencies, table, names, List.map_map, tasks_declareAll]
  exact List.map_congr_left fun task _ => by simp [of_edges_declareAll]

theorem build_eq_assemble {declarations : List (Declaration ω)} (hresolved : Resolved declarations)
    (hseparate : Separate declarations) :
    (declareAll declarations).build =
      assemble (declareAll declarations).tasks (declareAll declarations).edges := by
  rw [build, names_declareAll, (unresolved?_declareAll declarations).2 hresolved,
    (conflict?_declareAll declarations).2 hseparate]

/-- **The reported cycle is real.** Declarations whose ends are registered, whose output directories
are different and which have a cycle lead to the error that names one: different registered names,
each declared to depend on the next, and the last one on the first. It is found by a walk that
begins at a name that is left over, and from each name it comes to, there is a dependency to
follow. -/
theorem reported_cycle_is_real (declarations : List (Declaration ω))
    (hresolved : Resolved declarations) (hseparate : Separate declarations)
    (hcyclic : ¬Acyclic declarations) :
    ∃ cycle, (declareAll declarations).build = .error (.cyclicDependency cycle) ∧
      Dependencies.IsCycle (fun a b => (a, b) ∈ dependencies declarations) cycle ∧
      (∀ name ∈ cycle, name ∈ names declarations) ∧
      ∃ start, (names declarations).find? (· ∉ (table declarations).sort) = some start ∧
        (table declarations).ComesBack (table declarations).sort [] start cycle := by
  have hkeys : ((table declarations).map (·.1)).Nodup := by
    rw [map_fst_table]
    exact nodup_names declarations
  have htargets : ∀ e ∈ table declarations, e.2.Nodup := by
    intro e he
    obtain ⟨name, -, rfl⟩ := List.mem_map.1 he
    exact nodup_targets declarations name
  have hclosed : ∀ e ∈ table declarations, ∀ d ∈ e.2, d ∈ (table declarations).map (·.1) := by
    intro e he d hd
    obtain ⟨name, -, rfl⟩ := List.mem_map.1 he
    rw [map_fst_table]
    exact (hresolved _ (mem_targets.1 hd)).2
  have hlength := mt (length_sort_declareAll declarations hresolved).1 hcyclic
  have herror := build_eq_assemble hresolved hseparate
  rw [assemble, ← taskDependencies, taskDependencies_declareAll] at herror
  rw [taskDependencies_declareAll] at hlength
  obtain ⟨start, hstart, htrail, hback⟩ := Dependencies.cycle_spec hkeys htargets hclosed hlength
  obtain ⟨hcycle, hmem⟩ := hback.isCycle hkeys hclosed htrail
  rw [map_fst_table] at hstart hmem
  refine ⟨_, herror.trans (if_neg hlength), ?_, hmem, start, ?_, hback⟩
  · exact hcycle.imp fun a b => mem_dependencies_of_mem_table declarations
  · simpa using hstart

/-- Declarations with a cycle between two names, and one name that leads to it. -/
def tangled : List (Declaration Unit) :=
  [.task { name := ⟨"docs"⟩, description := "", work := () } [⟨"lib"⟩],
    .task { name := ⟨"lib"⟩, description := "", work := () } [⟨"core"⟩],
    .task { name := ⟨"core"⟩, description := "", work := () } [],
    .dependency ⟨"core"⟩ ⟨"lib"⟩]

/-- The walk begins at a name **outside of the cycle**, and reports the two names on it. -/
theorem reported_cycle_is_real_tangled :
    (declareAll tangled).build = .error (.cyclicDependency [⟨"lib"⟩, ⟨"core"⟩]) ∧
      ∃ cycle, (declareAll tangled).build = .error (.cyclicDependency cycle) ∧
        Dependencies.IsCycle (fun a b => (a, b) ∈ dependencies tangled) cycle ∧
        (∀ name ∈ cycle, name ∈ names tangled) ∧
        ∃ start, (names tangled).find? (· ∉ (table tangled).sort) = some start ∧
          (table tangled).ComesBack (table tangled).sort [] start cycle := by
  have hresolved : Resolved tangled := by
    rw [Resolved]
    decide
  have hseparate : Separate tangled := by
    rw [Separate]
    decide
  have hcyclic : ¬Acyclic tangled := by
    intro h
    have hlib : (⟨"lib"⟩, ⟨"core"⟩) ∈ dependencies tangled := by decide
    have hcore : (⟨"core"⟩, ⟨"lib"⟩) ∈ dependencies tangled := by decide
    exact h ⟨"lib"⟩ (.head hlib (.single hcore))
  exact ⟨by rfl, reported_cycle_is_real tangled hresolved hseparate hcyclic⟩

end GraphBuilder

end BuildMatrix
