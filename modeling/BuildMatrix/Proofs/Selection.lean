import BuildMatrix.Proofs.Layers

/-!
# Selecting targets

Targets are looked up one by one, and the tasks that they stand for are followed from a stack, so
that two spellings of one wish visit the tasks in different orders. What comes out is the same: the
part of a graph is decided by the set of the tasks that are asked for. Asked again of the part, the
targets stand for the same tasks as before, and these need all of it.
-/

namespace BuildMatrix.TaskGraph

variable {ω : Type} {graph part : TaskGraph ω} {name : TaskName} {roots others : List TaskName}
  {keep : TaskName → Bool} {target : String} {targets : List String}

/-! ### Parts of parts -/

/-- **The part that tasks need** is decided by the set of them. -/
theorem Assembled.closure_congr (h : graph.Assembled) (hroots : ∀ root ∈ roots, root ∈ graph.names)
    (hsame : ∀ name, name ∈ roots ↔ name ∈ others) :
    graph.closure roots = graph.closure others := by
  obtain ⟨keep, hkeep, hclosure⟩ := h.closure_eq hroots
  obtain ⟨keep', hkeep', hclosure'⟩ :=
    h.closure_eq fun root hroot => hroots root ((hsame root).2 hroot)
  have heq : keep = keep' := funext fun name => by
    rw [Bool.eq_iff_iff, hkeep, hkeep', Required, Required, hsame]
    simp only [hsame]
  rw [hclosure, hclosure', heq]

theorem names_restrict (graph : TaskGraph ω) (keep : TaskName → Bool) :
    (graph.restrict keep).names = graph.names.filter keep := by
  rw [names, restrict, List.map_map, names, List.filter_map]
  rfl

theorem Assembled.dependenciesOf_restrict (h : graph.Assembled)
    (hpart : (graph.restrict keep).Assembled) (hname : name ∈ graph.names)
    (hkept : keep name = true) :
    (graph.restrict keep).dependenciesOf name = graph.dependenciesOf name := by
  have htable : (graph.restrict keep).table = graph.table.restrict keep := by
    rw [table, restrict, List.map_map, Dependencies.restrict, table, List.filter_map]
    rfl
  have hname' : name ∈ (graph.restrict keep).names := by
    rw [names_restrict, List.mem_filter]
    exact ⟨hname, hkept⟩
  rw [← hpart.of_table hname', ← h.of_table hname, htable, Dependencies.of_restrict _ hkept]

theorem WellFormed.restrict_eq_self (h : graph.WellFormed)
    (hkeep : ∀ name ∈ graph.names, keep name = true) : graph.restrict keep = graph := by
  have hnodes : graph.nodes.filter (fun n => keep n.name) = graph.nodes :=
    List.filter_eq_self.2 fun node hnode => hkeep _ (List.mem_map_of_mem hnode)
  have hsorted : graph.sorted.filter keep = graph.sorted :=
    List.filter_eq_self.2 fun name hname => hkeep name (h.mem_sorted_iff.1 hname)
  have hmap : (graph.nodes.map fun n => { n with dependents := n.dependents.filter keep }) =
      graph.nodes := by
    refine (List.map_congr_left fun node hnode => ?_).trans (List.map_id _)
    have hdependents : node.dependents.filter keep = node.dependents := by
      refine List.filter_eq_self.2 fun other hother => hkeep other ?_
      rw [← dependentsOf_eq (h.get?_of_mem hnode), h.mem_dependentsOf] at hother
      exact mem_names_of_mem_dependenciesOf hother
    rw [hdependents]
    rfl
  rw [restrict, hnodes, hsorted, hmap]

/-- **The part of a part** for the same tasks is the part. -/
theorem Assembled.closure_closure (h : graph.Assembled) (hpart : graph.closure roots = .ok part) :
    part.closure roots = .ok part := by
  have hassembled := h.closure hpart
  obtain ⟨keep, hkeep, hclosure⟩ := h.closure_eq (mem_names_of_closure hpart)
  obtain rfl := Except.ok.inj (hpart.symm.trans hclosure)
  -- what is needed in the graph is needed in the part, along the same dependencies
  have hstep : ∀ {name d}, graph.Required roots name → d ∈ graph.dependenciesOf name →
      d ∈ (graph.restrict keep).dependenciesOf name := fun hname hd => by
    rwa [h.dependenciesOf_restrict hassembled (mem_names_of_mem_dependenciesOf hd)
      ((hkeep _).2 hname)]
  have hrequired : ∀ name, graph.Required roots name →
      (graph.restrict keep).Required roots name := by
    rintro name (hroot | ⟨root, hroot, hneeds⟩)
    · exact .inl hroot
    · refine .inr ⟨root, hroot, ?_⟩
      induction hneeds with
      | single hd => exact .single (hstep (.inl hroot) hd)
      | tail hneeds hd ih => exact ih.tail (hstep (.inr ⟨root, hroot, hneeds⟩) hd)
  have hroots : ∀ root ∈ roots, root ∈ (graph.restrict keep).names := fun root hroot => by
    rw [names_restrict, List.mem_filter]
    exact ⟨mem_names_of_closure hpart root hroot, (hkeep root).2 (.inl hroot)⟩
  obtain ⟨keep', hkeep', hclosure'⟩ := hassembled.closure_eq hroots
  rw [hclosure', hassembled.wellFormed.restrict_eq_self fun name hname => ?_]
  rw [names_restrict, List.mem_filter, hkeep] at hname
  exact (hkeep' name).2 (hrequired name hname.2)

/-! ### Targets -/

/-- A target is **known** if it is the name of a task or the action of one. -/
def Knows (graph : TaskGraph ω) (target : String) : Prop :=
  ⟨target⟩ ∈ graph.names ∨ ∃ node ∈ graph.nodes, node.task.kind = some target

instance : Decidable (graph.Knows target) := inferInstanceAs (Decidable (_ ∨ _))

/-- What a target **stands for**: the task of that name, or else all tasks of that action. -/
def tasksFor (graph : TaskGraph ω) (target : String) : List TaskName :=
  if ⟨target⟩ ∈ graph.names then [⟨target⟩] else graph.tasksOfKind target

theorem tasksFor_ne_nil_iff : graph.tasksFor target ≠ [] ↔ graph.Knows target := by
  rw [tasksFor, Knows]
  split
  · next hname => simp [hname]
  · next hname => simp [hname, tasksOfKind]

theorem targetTasks?_eq (graph : TaskGraph ω) (target : String) :
    graph.targetTasks? target =
      if graph.tasksFor target = [] then none else some (graph.tasksFor target) := by
  rw [targetTasks?, tasksFor, contains]
  by_cases hname : ⟨target⟩ ∈ graph.names
  · rw [if_pos (isSome_get?_iff.2 hname), if_pos hname, if_neg (by simp)]
  · rw [if_neg (mt isSome_get?_iff.1 hname), if_neg hname]
    cases graph.tasksOfKind target <;> rfl

theorem targetRoots_eq_ok (h : ∀ target ∈ targets, graph.Knows target) :
    graph.targetRoots targets = .ok (targets.flatMap graph.tasksFor) := by
  induction targets with
  | nil => rfl
  | cons target rest ih =>
    obtain ⟨htarget, hrest⟩ := List.forall_mem_cons.1 h
    rw [targetRoots, targetTasks?_eq, if_neg (tasksFor_ne_nil_iff.2 htarget), ih hrest]
    rfl

theorem targetRoots_eq_error {before : List String} (hbefore : ∀ t ∈ before, graph.Knows t)
    (htarget : ¬graph.Knows target) (after : List String) :
    graph.targetRoots (before ++ target :: after) = .error (.unknownTask ⟨target⟩) := by
  induction before with
  | nil =>
    rw [List.nil_append, targetRoots, targetTasks?_eq,
      if_pos (not_not.1 (mt tasksFor_ne_nil_iff.1 htarget))]
  | cons first rest ih =>
    obtain ⟨hfirst, hrest⟩ := List.forall_mem_cons.1 hbefore
    rw [List.cons_append, targetRoots, targetTasks?_eq, if_neg (tasksFor_ne_nil_iff.2 hfirst),
      ih hrest]

theorem mem_names_of_mem_tasksFor (h : name ∈ graph.tasksFor target) : name ∈ graph.names := by
  rw [tasksFor] at h
  split at h
  · next hname => exact List.mem_singleton.1 h ▸ hname
  · exact (List.filter_sublist.map Node.name).subset h

theorem tasksFor_restrict (hkeep : ∀ name ∈ graph.tasksFor target, keep name = true) :
    (graph.restrict keep).tasksFor target = graph.tasksFor target := by
  have hkind : (graph.restrict keep).tasksOfKind target =
      (graph.tasksOfKind target).filter keep := by
    simp only [tasksOfKind, restrict, List.filter_map, List.map_map, List.filter_filter]
    refine congrArg _ (List.filter_congr fun node _ => ?_)
    exact Bool.and_comm ..
  rw [tasksFor, names_restrict, hkind]
  by_cases hname : ⟨target⟩ ∈ graph.names
  · have hsame : graph.tasksFor target = [⟨target⟩] := if_pos hname
    rw [hsame] at hkeep ⊢
    exact if_pos (List.mem_filter.2 ⟨hname, hkeep _ List.mem_cons_self⟩)
  · have hsame : graph.tasksFor target = graph.tasksOfKind target := if_neg hname
    rw [hsame] at hkeep ⊢
    rw [if_neg fun hmem => hname (List.mem_filter.1 hmem).1, List.filter_eq_self.2 hkeep]

/-- **What targets ask for is decided by the set of them.** In every graph that was built, and in
every part of one, targets that are all known select the part that the tasks they stand for need;
other targets with the same elements select the same part, and of that part the targets select all.
If some target is unknown, the first of these is the error. -/
theorem selection_is_by_the_set (h : graph.Made) :
    (∀ targets, targets ≠ [] → (∀ target ∈ targets, graph.Knows target) →
      ∃ keep : TaskName → Bool,
        (∀ name, keep name = true ↔ graph.Required (targets.flatMap graph.tasksFor) name) ∧
        (∀ others, (∀ target, target ∈ others ↔ target ∈ targets) →
          graph.select others = .ok (graph.restrict keep)) ∧
        (graph.restrict keep).select targets = .ok (graph.restrict keep)) ∧
    ∀ before target after, (∀ t ∈ before, graph.Knows t) → ¬graph.Knows target →
      graph.select (before ++ target :: after) = .error (.unknownTask ⟨target⟩) := by
  have hassembled := h.assembled
  have hselect : ∀ {graph : TaskGraph ω} {targets}, targets ≠ [] →
      (∀ target ∈ targets, graph.Knows target) →
      graph.select targets = graph.closure (targets.flatMap graph.tasksFor) := by
    intro graph targets hne hknown
    rw [select, if_neg (by simpa using hne), targetRoots_eq_ok hknown]
  refine ⟨fun targets hne hknown => ?_, fun before target after hbefore htarget => ?_⟩
  · have hroots : ∀ root ∈ targets.flatMap graph.tasksFor, root ∈ graph.names := by
      intro root hroot
      obtain ⟨target, -, hmem⟩ := List.mem_flatMap.1 hroot
      exact mem_names_of_mem_tasksFor hmem
    obtain ⟨keep, hkeep, hclosure⟩ := hassembled.closure_eq hroots
    refine ⟨keep, hkeep, fun others hsame => ?_, ?_⟩
    · have hne' : others ≠ [] := by
        rintro rfl
        obtain ⟨target, htarget⟩ := List.exists_mem_of_ne_nil _ hne
        cases (hsame target).2 htarget
      rw [hselect hne' fun target htarget => hknown target ((hsame target).1 htarget), ← hclosure]
      refine (hassembled.closure_congr hroots fun name => ?_).symm
      simp only [List.mem_flatMap, hsame]
    · -- the part keeps what the targets stand for
      have hfor : ∀ target ∈ targets,
          (graph.restrict keep).tasksFor target = graph.tasksFor target := by
        refine fun target htarget => tasksFor_restrict fun name hname => (hkeep name).2 (.inl ?_)
        exact List.mem_flatMap.2 ⟨target, htarget, hname⟩
      rw [hselect hne fun target htarget => ?_, List.flatMap_congr hfor]
      · exact hassembled.closure_closure hclosure
      · rw [← tasksFor_ne_nil_iff, hfor target htarget]
        exact tasksFor_ne_nil_iff.2 (hknown target htarget)
  · rw [select, if_neg (by simp), targetRoots_eq_error hbefore htarget]

theorem selection_from_crossed : ∃ graph part : TaskGraph Unit,
    (GraphBuilder.declareAll crossed).build = .ok graph ∧
    graph.select ["check", "link"] = .ok part ∧
    part.sorted = [⟨"core"⟩, ⟨"tool"⟩, ⟨"link"⟩, ⟨"lint"⟩] ∧
    graph.select ["link", "check", "link"] = .ok part ∧
    part.select ["check", "link"] = .ok part ∧
    graph.select ["check", "deploy", "link"] = .error (.unknownTask ⟨"deploy"⟩) := by
  obtain ⟨hknown, hunknown⟩ :=
    selection_is_by_the_set (.built (GraphBuilder.declared_declareAll crossed) rfl)
  obtain ⟨keep, -, hselect, hagain⟩ := hknown ["check", "link"] (by decide) (by decide)
  have hpart := hselect ["check", "link"] fun _ => Iff.rfl
  refine ⟨_, _, rfl, hpart, ?_, hselect _ fun target => ?_, hagain,
    hunknown ["check"] "deploy" ["link"] (by decide) (by decide)⟩
  · exact Except.ok.inj (congrArg (Except.map TaskGraph.sorted) hpart).symm
  · simp only [List.mem_cons, List.not_mem_nil]
    tauto

end BuildMatrix.TaskGraph
