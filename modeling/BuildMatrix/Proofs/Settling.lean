import BuildMatrix.Proofs.Poisoning
import BuildMatrix.Proofs.Tracking

/-!
# The end of a task

Taking note of the end of a task keeps track of the history. A success lowers the counts of the
tasks that wait for it, and makes those ready that waited for nothing else. A failure poisons what
needs the failed task: the walk stops at tasks with a status, but those are poisoned already, and so
is what needs them, since no task that has been started needs one that has not succeeded.
-/

namespace BuildMatrix

open History TaskTable

namespace Schedule

variable {ω : Type} {graph : TaskGraph ω} {task : TaskName} {node : Node ω} {schedule : Schedule ω}

/-! ### What the functions change -/

/-- Whether a task becomes **ready** when its count is lowered. -/
def isNext (schedule : Schedule ω) (name : TaskName) : Bool :=
  (schedule.waiting.get? name).any (· ≤ 1) && !schedule.statuses.contains name

theorem release_eq (schedule : Schedule ω) (name : TaskName) :
    ∃ waiting, schedule.release name = { schedule with
        waiting
        ready := schedule.ready ++ [name].filter schedule.isNext } ∧
      ∀ other, waiting.get? other =
        if name = other then (schedule.waiting.get? other).map (· - 1)
        else schedule.waiting.get? other := by
  cases hcount : schedule.waiting.get? name with
  | none =>
    refine ⟨schedule.waiting, by simp [release, hcount, isNext], fun other => ?_⟩
    split
    · rename_i heq
      rw [← heq, hcount, Option.map_none]
    · rfl
  | some count =>
    refine ⟨schedule.waiting.set name (count - 1), ?_, fun other => ?_⟩
    · by_cases hlow : count ≤ 1 <;> by_cases hstatus : schedule.statuses.contains name = true <;>
        simp [release, hcount, isNext, hlow, hstatus, Nat.sub_eq_zero_iff_le]
    · rw [get?_set]
      split
      · rename_i heq
        rw [← heq, hcount, Option.map_some]
      · rfl

/-- What **lowering counts** does: each of them goes down by one, and the tasks for which it is then
zero and that have no status are ready. -/
theorem foldl_release {names : List TaskName} (hnodup : names.Nodup) (schedule : Schedule ω) :
    ∃ waiting, names.foldl release schedule = { schedule with
        waiting
        ready := schedule.ready ++ names.filter schedule.isNext } ∧
      ∀ other, waiting.get? other =
        if other ∈ names then (schedule.waiting.get? other).map (· - 1)
        else schedule.waiting.get? other := by
  induction names generalizing schedule with
  | nil => exact ⟨schedule.waiting, by simp, by simp⟩
  | cons name rest ih =>
    obtain ⟨hname, hrest⟩ := List.nodup_cons.mp hnodup
    obtain ⟨first, hfirst, hget⟩ := schedule.release_eq name
    obtain ⟨waiting, hfold, hwaiting⟩ := ih hrest (schedule.release name)
    rw [hfirst] at hfold hwaiting
    refine ⟨waiting, ?_, fun other => ?_⟩
    · have hnext : ∀ other ∈ rest, isNext { schedule with
          waiting := first
          ready := schedule.ready ++ [name].filter schedule.isNext } other =
          schedule.isNext other := by
        intro other hother
        have hne : name ≠ other := fun heq => hname (heq ▸ hother)
        simp only [isNext, hget, if_neg hne]
      rw [List.foldl_cons, hfirst, hfold, List.filter_congr hnext]
      simp only [List.append_assoc, ← List.filter_append, List.singleton_append]
    · rw [hwaiting, hget]
      by_cases heq : name = other
      · subst heq
        simp [hname]
      · simp [heq, Ne.symm heq]

theorem succeed_eq (hgraph : graph.WellFormed) (schedule : Schedule ω)
    (hnode : graph.get? task = some node) (product : Product) (duration : Duration) :
    ∃ waiting reported, schedule.succeed node product duration = { schedule with
        waiting
        reported
        ready := schedule.ready ++ (graph.dependentsOf task).filter
          (schedule.conclude task (Verdict.succeeded product).status).isNext
        statuses := schedule.statuses.set task (Verdict.succeeded product).status
        results := if schedule.rootCause.isSome then schedule.results
          else schedule.results.set task
            { task, output := product.output, dependencies := schedule.dependencyResults node } } ∧
      ∀ other, waiting.get? other =
        if other ∈ graph.dependentsOf task then (schedule.waiting.get? other).map (· - 1)
        else schedule.waiting.get? other := by
  obtain rfl := TaskGraph.name_of_get?_eq_some hnode
  have hnodup := hgraph.dependents_nodup node.name
  rw [TaskGraph.dependentsOf_eq hnode] at hnodup ⊢
  -- The two choices (keep the result, up to date or not) are made before the counts are lowered.
  cases hroot : schedule.rootCause.isSome <;> cases hfresh : product.upToDate <;>
    simp only [succeed, hroot, hfresh, Verdict.status, if_true, Bool.false_eq_true, if_false] <;>
    exact (foldl_release hnodup _).imp fun waiting h => ⟨_, h⟩

theorem fail_eq (hgraph : graph.WellFormed) (hsame : schedule.graph = graph)
    (hnode : graph.get? task = some node) (hnone : schedule.statuses.get? task = none)
    (failure : Failure) (duration : Duration) :
    ∃ statuses reported, schedule.fail node failure duration = { schedule with
        statuses
        reported
        rootCause := schedule.rootCause.or (some (task, failure)) } ∧
      Spread graph task (graph.dependentsOf task)
        (schedule.statuses.set task (Verdict.failed failure).status) statuses := by
  obtain rfl := TaskGraph.name_of_get?_eq_some hnode
  obtain ⟨statuses, reported, hpoison⟩ := poison_frame node.name (poisonSteps schedule.graph)
    node.dependents { (schedule.report (.failed node.name duration failure.message)).conclude
      node.name (.failed failure.message) with
        rootCause := schedule.rootCause.or (some (node.name, failure)) }
  refine ⟨statuses, reported, hpoison, ?_⟩
  have hspread := poison_spread hgraph node.name (poisonSteps schedule.graph) node.dependents
    { (schedule.report (.failed node.name duration failure.message)).conclude
      node.name (.failed failure.message) with
        rootCause := schedule.rootCause.or (some (node.name, failure)) } hsame ?_
  · rw [hpoison] at hspread
    rw [TaskGraph.dependentsOf_eq hnode]
    exact hspread
  · have hpaid := openWaits_set (.failed failure.message) hgraph.names_nodup
      (TaskGraph.mem_nodes_of_get?_eq_some hnode) hnone
    have hsteps := openWaits_le_poisonSteps schedule.statuses graph
    change node.dependents.length +
      openWaits (schedule.statuses.set node.name (.failed failure.message)) graph.nodes ≤ _
    rw [hsame]
    omega

theorem settle_eq {ending : Ending} (hnode : schedule.graph.get? ending.task = some node)
    (stopping : Bool) :
    schedule.settle stopping ending =
      match ending.verdict stopping with
      | .succeeded product => (schedule.leave ending).succeed node product ending.duration
      | .failed failure => (schedule.leave ending).fail node failure ending.duration
      | .stopped =>
        { (schedule.leave ending).conclude node.name .cancelled with cancelled := true } := by
  have hget : (schedule.leave ending).graph.get? ending.task = some node := hnode
  simp only [settle, Ending.verdict, hget]
  cases ending.outcome with
  | ok product => rfl
  | error failure => cases failure <;> cases stopping <;> rfl

/-! ### What stays in order -/

theorem Roster.leave {starts ended running finished : List TaskName}
    (h : Roster starts ended running finished) (task : TaskName) :
    Roster starts (ended ++ [task]) (running.erase task) (finished.erase task) where
  nodup := h.nodup.erase task
  mem_iff other := by
    rw [h.nodup.mem_erase_iff, h.mem_iff, List.mem_append, List.mem_singleton, not_or]
    tauto
  finished_sublist := h.finished_sublist.erase task

theorem busy_leave (hnodup : schedule.running.Nodup) (ending : Ending) :
    (schedule.leave ending).busy = schedule.busy.erase ending.task := by
  simp only [busy, leave]
  rw [hnodup.erase_eq_filter, List.Nodup.erase_eq_filter (hnodup.filter _), List.filter_filter,
    List.filter_filter]
  refine List.filter_congr fun task _ => ?_
  by_cases heq : task = ending.task
  · simp [heq]
  · simp [List.mem_erase_of_ne heq, Bool.and_comm]

section Parts

variable {graph : TaskGraph ω} {history : History} {task : TaskName} {schedule : Schedule ω}
  {statuses : TaskTable Status} {verdicts : TaskTable Verdict} {kept : List TaskName}

/-- A task has **no status** before its end if everything it depends on was started and has not
failed. -/
theorem Statuses.get?_eq_none
    (h : Statuses graph history.verdicts history.failures statuses) (ho : history.Orderly graph)
    (hopen : task ∉ history.verdicts.map (·.1))
    (hdeps : ∀ d ∈ graph.dependenciesOf task,
      d ∈ history.starts ∧ ∀ failure, (d, .failed failure) ∉ history.verdicts) :
    statuses.get? task = none := by
  cases hget : statuses.get? task with
  | none => rfl
  | some status =>
    obtain ⟨cause, -, before, failure, after, hfailures, hneeds, -⟩ :=
      h.culprit task status hopen hget
    have hfailed : (cause, .failed failure) ∈ history.verdicts :=
      mem_failures.mp (by simp [hfailures])
    obtain ⟨d, hd, hrest⟩ := Relation.TransGen.head'_iff.mp hneeds
    rcases Relation.reflTransGen_iff_eq_or_transGen.mp hrest with rfl | hneeds
    · exact absurd hfailed ((hdeps _ hd).2 failure)
    · exact absurd hfailed (ho.not_failed (ho.mem_successes_of_needs hneeds (hdeps d hd).1) _)

/-- Which tasks become **ready** when a task succeeds: those whose last open dependency it was. -/
theorem isNext_conclude_iff (hgraph : graph.WellFormed) (ho : history.Orderly graph)
    (hc : Counts graph history.starts history.successes schedule.waiting schedule.ready)
    (hs : Statuses graph history.verdicts history.failures schedule.statuses)
    (hstarted : task ∈ history.starts) (hopen : task ∉ history.verdicts.map (·.1))
    (status : Status) {other : TaskName} (hother : task ∈ graph.dependenciesOf other) :
    (schedule.conclude task status).isNext other = true ↔
      ∀ d ∈ graph.dependenciesOf other, d ∈ history.successes ++ [task] := by
  have htask : task ∉ history.successes := notMem_successes hopen
  have hfresh : other ∉ history.starts := fun hmem => htask (ho.starts_after other hmem task hother)
  have hcount := openCount_append_of_mem (hgraph.dependencies_nodup other) hother htask
  have hwaiting := hc.waiting_eq other (TaskGraph.mem_names_of_mem_dependenciesOf hother)
  simp only [isNext, conclude, hwaiting, Option.any_some, Bool.and_eq_true, decide_eq_true_eq,
    Bool.not_eq_true', ← openCount_eq_zero_iff]
  refine ⟨fun h => by omega, fun hzero => ⟨by omega, ?_⟩⟩
  have hdone := openCount_eq_zero_iff.mp hzero
  have hne : task ≠ other := fun heq => hfresh (heq ▸ hstarted)
  have hnone : schedule.statuses.get? other = none := by
    refine hs.get?_eq_none ho (fun hmem => hfresh (ho.verdicts_started other hmem)) fun d hd => ?_
    rcases List.mem_append.mp (hdone d hd) with hsuccess | hlast
    · exact ⟨ho.mem_starts_of_mem_successes hsuccess, ho.not_failed hsuccess⟩
    · obtain rfl := List.mem_singleton.mp hlast
      exact ⟨hstarted, fun failure hmem => hopen (List.mem_map_of_mem (f := (·.1)) hmem)⟩
  rw [contains, get?_set, if_neg hne, hnone]
  rfl

/-- The counts stay **exact** when a task succeeds. -/
theorem Counts.succeed (hgraph : graph.WellFormed) (ho : history.Orderly graph)
    (hc : Counts graph history.starts history.successes schedule.waiting schedule.ready)
    (hs : Statuses graph history.verdicts history.failures schedule.statuses)
    (hstarted : task ∈ history.starts) (hopen : task ∉ history.verdicts.map (·.1))
    (status : Status) {waiting : TaskTable Nat}
    (hwaiting : ∀ other, waiting.get? other =
      if other ∈ graph.dependentsOf task then (schedule.waiting.get? other).map (· - 1)
      else schedule.waiting.get? other) :
    Counts graph history.starts (history.successes ++ [task]) waiting
      (schedule.ready ++
        (graph.dependentsOf task).filter (schedule.conclude task status).isNext) := by
  have htask : task ∉ history.successes := notMem_successes hopen
  refine ⟨?_, ?_, ?_⟩
  · intro other hother
    rw [hwaiting, hc.waiting_eq other hother]
    by_cases hmem : task ∈ graph.dependenciesOf other
    · have hcount := openCount_append_of_mem (hgraph.dependencies_nodup other) hmem htask
      rw [if_pos ((hgraph.mem_dependentsOf task other).mpr hmem), Option.map_some, ← hcount,
        Nat.add_sub_cancel]
    · rw [if_neg (mt (hgraph.mem_dependentsOf task other).mp hmem),
        openCount_append_of_notMem hmem]
  · refine List.nodup_append'.mpr
      ⟨hc.ready_nodup, (hgraph.dependents_nodup task).filter _, fun other hready hnext => ?_⟩
    have hmem := (hgraph.mem_dependentsOf task other).mp (List.mem_of_mem_filter hnext)
    exact htask (((hc.mem_ready other).mp hready).2.2 task hmem)
  · intro other
    rw [List.mem_append, List.mem_filter, hgraph.mem_dependentsOf, hc.mem_ready]
    constructor
    · rintro (⟨hmem, hfresh, hdone⟩ | ⟨hmem, hnext⟩)
      · exact ⟨hmem, hfresh, fun d hd => List.mem_append_left _ (hdone d hd)⟩
      · exact ⟨TaskGraph.mem_names_of_mem_dependenciesOf hmem,
          fun hfresh => htask (ho.starts_after other hfresh task hmem),
          (isNext_conclude_iff hgraph ho hc hs hstarted hopen status hmem).mp hnext⟩
    · rintro ⟨hmem, hfresh, hdone⟩
      by_cases hwaits : task ∈ graph.dependenciesOf other
      · exact .inr ⟨hwaits,
          (isNext_conclude_iff hgraph ho hc hs hstarted hopen status hwaits).mpr hdone⟩
      · refine .inl ⟨hmem, hfresh, fun d hd => ?_⟩
        rcases List.mem_append.mp (hdone d hd) with hsuccess | hlast
        · exact hsuccess
        · exact absurd (List.mem_singleton.mp hlast ▸ hd) hwaits

/-- The statuses when a task ends **without failing**. -/
theorem Statuses.conclude {failures : List (TaskName × Failure)}
    (h : Statuses graph verdicts failures statuses) (hopen : task ∉ verdicts.map (·.1))
    (verdict : Verdict) :
    Statuses graph (verdicts ++ [(task, verdict)]) failures
      (statuses.set task verdict.status) := by
  refine ⟨?_, ?_, ?_⟩
  · intro other v hmem
    rw [get?_set]
    rcases List.mem_append.mp hmem with hold | hnew
    · have hne : task ≠ other := fun heq => hopen (heq ▸ List.mem_map_of_mem (f := (·.1)) hold)
      rw [if_neg hne, h.of_verdict other v hold]
    · obtain ⟨rfl, rfl⟩ := Prod.mk.inj (List.mem_singleton.mp hnew)
      rw [if_pos rfl]
  · intro other status hother hget
    rw [List.map_append, List.mem_append, not_or] at hother
    have hne : task ≠ other := fun heq => hother.2 (by simp [heq])
    rw [get?_set, if_neg hne] at hget
    exact h.culprit other status hother.1 hget
  · intro other f hf hneeds
    rw [get?_set]
    split
    · rfl
    · exact h.of_needs other f hf hneeds

/-- The statuses when a task **fails**: what needs it is poisoned, unless it was poisoned
before. -/
theorem Statuses.fail (h : Statuses graph history.verdicts history.failures statuses)
    (hgraph : graph.WellFormed) (ho : history.Orderly graph) (hstarted : task ∈ history.starts)
    (hopen : task ∉ history.verdicts.map (·.1)) (failure : Failure) {after : TaskTable Status}
    (hspread : Spread graph task (graph.dependentsOf task)
      (statuses.set task (Verdict.failed failure).status) after) :
    Statuses graph (history.verdicts ++ [(task, .failed failure)])
      (history.failures ++ [(task, failure)]) after := by
  have hbefore := h.conclude hopen (.failed failure)
  -- No task that needs this one was started, so that it has a status only if it is poisoned.
  have hunstarted : ∀ other, graph.Needs other task → other ∉ history.starts :=
    fun other hneeds hmem =>
      notMem_successes hopen (ho.mem_successes_of_needs hneeds hmem)
  refine ⟨?_, ?_, ?_⟩
  · intro other v hmem
    exact hspread.keeps other _ (hbefore.of_verdict other v hmem)
  · intro other status hother hget
    cases hold : (statuses.set task (Verdict.failed failure).status).get? other with
    | some old =>
      rw [hspread.keeps other old hold] at hget
      obtain rfl := Option.some.inj hget
      obtain ⟨cause, hstatus, before, f, rest, hfailures, hneeds, hfirst⟩ :=
        hbefore.culprit other old hother hold
      exact ⟨cause, hstatus, before, f, rest ++ [(task, failure)], by simp [hfailures],
        hneeds, hfirst⟩
    | none =>
      obtain ⟨hstatus, source, hsource, hfrom⟩ := hspread.marks other status hold hget
      have hwaits := (hgraph.mem_dependentsOf task source).mp hsource
      refine ⟨task, hstatus, history.failures, failure, [], rfl, ?_, fun f hf hneeds => ?_⟩
      · rcases hfrom with rfl | hfrom
        · exact .single hwaits
        · exact .tail hfrom hwaits
      · have hsome := hbefore.of_needs other f hf hneeds
        rw [hold] at hsome
        cases hsome
  · intro other f hf hneeds
    rcases List.mem_append.mp hf with hold | hnew
    · exact hspread.isSome (hbefore.of_needs other f hold hneeds)
    · rw [List.mem_singleton.mp hnew] at hneeds
      refine hspread.isSome_of_needs hgraph (fun next old hrest hget waiting hd => ?_) hneeds
      have hnext := hunstarted next hrest
      have hended : next ∉ (history.verdicts ++ [(task, Verdict.failed failure)]).map (·.1) := by
        rw [List.map_append, List.mem_append]
        rintro (hmem | hmem)
        · exact hnext (ho.verdicts_started next hmem)
        · exact hnext (List.mem_singleton.mp hmem ▸ hstarted)
      obtain ⟨cause, -, before, f, rest, hfailures, hcause, -⟩ :=
        hbefore.culprit next old hended hget
      exact hbefore.of_needs waiting (cause, f) (by simp [hfailures]) (.head hd hcause)

/-- The results when a task ends whose result is **not kept**. -/
theorem Results.keep {results : TaskTable TaskResult} (h : Results graph verdicts kept results)
    (entry : TaskName × Verdict) : Results graph (verdicts ++ [entry]) kept results := by
  refine ⟨h.mem_iff, fun other result hget => ?_⟩
  obtain ⟨htask, ⟨product, hverdict, houtput⟩, hdeps⟩ := h.result other result hget
  exact ⟨htask, ⟨product, List.mem_append_left _ hverdict, houtput⟩, hdeps⟩

/-- The results when a task **succeeds**, and its result is kept. -/
theorem Results.succeed (h : Results graph verdicts kept schedule.results)
    (hnode : graph.get? task = some node) (hopen : task ∉ kept)
    (hdeps : ∀ d ∈ graph.dependenciesOf task, d ∈ kept) (product : Product) :
    Results graph (verdicts ++ [(task, .succeeded product)]) (kept ++ [task])
      (schedule.results.set task
        { task, output := product.output, dependencies := schedule.dependencyResults node }) := by
  -- The results of the dependencies of a task with a result are not touched.
  have hsame : ∀ l : List TaskName, (∀ d ∈ l, d ∈ kept) → ∀ result,
      l.map (schedule.results.set task result).get? = l.map schedule.results.get? := by
    intro l hl result
    refine List.map_congr_left fun d hd => ?_
    have hne : task ≠ d := fun heq => hopen (heq ▸ hl d hd)
    rw [get?_set, if_neg hne]
  refine ⟨fun other => ?_, fun other result hget => ?_⟩
  · rw [get?_set, List.mem_append, List.mem_singleton, ← h.mem_iff]
    split
    · rename_i heq
      simp [heq]
    · rename_i hne
      simp [Ne.symm hne]
  · rw [get?_set] at hget
    split at hget
    · rename_i heq
      subst heq
      obtain rfl := Option.some.inj hget
      refine ⟨rfl, ⟨product, by simp, rfl⟩, ?_⟩
      rw [hsame _ hdeps, dependencyResults, ← TaskGraph.dependenciesOf_eq hnode,
        List.map_filterMap_some_eq_filter_map_isSome, List.filter_eq_self.mpr]
      intro found hfound
      obtain ⟨d, hd, rfl⟩ := List.mem_map.mp hfound
      exact (h.mem_iff d).mpr (hdeps d hd)
    · obtain ⟨htask, ⟨p, hverdict, houtput⟩, hd⟩ := h.result other result hget
      refine ⟨htask, ⟨p, List.mem_append_left _ hverdict, houtput⟩, ?_⟩
      refine (hsame _ (fun d hmem => ?_) _).trans hd
      have hfound := List.mem_map_of_mem (f := schedule.results.get?) hmem
      rw [hd] at hfound
      obtain ⟨r, -, hr⟩ := List.mem_map.mp hfound
      exact (h.mem_iff d).mp (hr ▸ rfl)

end Parts

/-! ### The whole step -/

section Step

variable {graph : TaskGraph ω} {limit : Nat} {schedule after : Schedule ω} {history : History}
  {ending : Ending} {stopping : Bool} {node : Node ω}

/-- What is the same for **every verdict** on a task that ends: it is no longer running. -/
theorem Tracks.ended (h : Tracks graph limit schedule history)
    (hrunning : ending.task ∈ schedule.running) (hgraph : after.graph = schedule.graph)
    (hlimit : after.limit = schedule.limit)
    (hleft : after.running = (schedule.leave ending).running)
    (hfinished : after.finished = (schedule.leave ending).finished)
    (hcounts : Counts graph history.starts
      (successes (history ++ [.ended ending stopping])) after.waiting after.ready)
    (hstatuses : Statuses graph (history.verdicts ++ [(ending.task, ending.verdict stopping)])
      (failures (history ++ [.ended ending stopping])) after.statuses)
    (hresults : Results graph (history.verdicts ++ [(ending.task, ending.verdict stopping)])
      (kept (history ++ [.ended ending stopping])) after.results)
    (hroot : after.rootCause = (failures (history ++ [.ended ending stopping])).head?)
    (hcancelled : after.cancelled = true ↔
      StopSeen (history ++ [.ended ending stopping])) :
    Tracks graph limit after (history ++ [.ended ending stopping]) := by
  obtain ⟨hstarted, hopen⟩ := (h.roster.mem_iff ending.task).mp hrunning
  refine ⟨hgraph.trans h.graph_eq, hlimit.trans h.limit_eq,
    h.orderly.settle hstarted hopen stopping, ?_, by simpa using hcounts, by simpa using hstatuses,
    by simpa using hresults, hroot, hcancelled, ?_, ?_, ?_⟩
  · rw [hleft, hfinished]
    simpa [leave] using h.roster.leave ending.task
  · have hbusy : after.busy = (schedule.leave ending).busy := by rw [busy, hleft, hfinished, busy]
    rw [hbusy, busy_leave h.roster.nodup, h.busy_eq, working_append, Moment.work_ended]
  · refine h.bounded_append (Nat.le_trans ?_ (h.bounded history List.prefix_rfl))
    exact List.length_erase_le ..
  · exact h.safe_append (by simp)

theorem Tracks.succeed (hgraph : graph.WellFormed) (h : Tracks graph limit schedule history)
    (hrunning : ending.task ∈ schedule.running) (hnode : graph.get? ending.task = some node)
    {product : Product} (hverdict : ending.verdict stopping = .succeeded product) :
    Tracks graph limit ((schedule.leave ending).succeed node product ending.duration)
      (history ++ [.ended ending stopping]) := by
  obtain ⟨hstarted, hopen⟩ := (h.roster.mem_iff ending.task).mp hrunning
  obtain ⟨waiting, reported, heq, hwaiting⟩ := succeed_eq hgraph (schedule.leave ending) hnode
    product ending.duration
  rw [heq]
  refine h.ended hrunning rfl rfl rfl rfl ?_ ?_ ?_ ?_ ?_
  · rw [successes_append, Moment.verdict?_ended, hverdict]
    exact h.counts.succeed hgraph h.orderly h.statuses hstarted hopen _ hwaiting
  · rw [failures_append, Moment.verdict?_ended, hverdict, List.append_nil]
    exact h.statuses.conclude hopen (.succeeded product)
  · rw [hverdict]
    change Results graph _ _ (if schedule.rootCause.isSome = true then _ else _)
    by_cases hfailures : history.failures = []
    · have hroot : schedule.rootCause = none := by rw [h.rootCause_eq, hfailures, List.head?_nil]
      have hkept := kept_eq_successes hfailures
      have hkept' : kept (history ++ [.ended ending stopping]) =
          history.kept ++ [ending.task] := by
        rw [kept_eq_successes (by simp [hfailures, hverdict]), hkept]
        simp [hverdict]
      rw [hkept', hroot]
      exact h.results.succeed hnode (hkept ▸ notMem_successes hopen)
        (hkept ▸ h.orderly.starts_after _ hstarted) product
    · have hroot : schedule.rootCause.isSome = true := by
        rw [h.rootCause_eq]
        simpa using hfailures
      rw [if_pos hroot, kept_append_of_failures _ _ hfailures]
      exact h.results.keep _
  · simpa [hverdict, leave] using h.rootCause_eq
  · simpa [hverdict, leave] using h.cancelled_iff

theorem Tracks.fail (hgraph : graph.WellFormed) (h : Tracks graph limit schedule history)
    (hrunning : ending.task ∈ schedule.running) (hnode : graph.get? ending.task = some node)
    {failure : Failure} (hverdict : ending.verdict stopping = .failed failure) :
    Tracks graph limit ((schedule.leave ending).fail node failure ending.duration)
      (history ++ [.ended ending stopping]) := by
  obtain ⟨hstarted, hopen⟩ := (h.roster.mem_iff ending.task).mp hrunning
  have hnone : schedule.statuses.get? ending.task = none :=
    h.statuses.get?_eq_none h.orderly hopen fun d hd =>
      have hsuccess := h.orderly.starts_after _ hstarted d hd
      ⟨h.orderly.mem_starts_of_mem_successes hsuccess, h.orderly.not_failed hsuccess⟩
  have hsame : (schedule.leave ending).graph = graph := h.graph_eq
  obtain ⟨statuses, reported, heq, hspread⟩ := fail_eq hgraph hsame hnode hnone failure
    ending.duration
  rw [heq]
  refine h.ended hrunning rfl rfl rfl rfl ?_ ?_ ?_ ?_ ?_
  · simpa [hverdict, leave] using h.counts
  · rw [failures_append, Moment.verdict?_ended, hverdict]
    exact h.statuses.fail hgraph h.orderly hstarted hopen failure hspread
  · rw [kept_append_of_not_succeeded _ _ (by simp [hverdict])]
    exact h.results.keep _
  · simp [hverdict, leave, h.rootCause_eq, List.head?_append]
  · simpa [hverdict, leave] using h.cancelled_iff

theorem Tracks.giveUp (h : Tracks graph limit schedule history)
    (hrunning : ending.task ∈ schedule.running) (hnode : graph.get? ending.task = some node)
    (hverdict : ending.verdict stopping = .stopped) :
    Tracks graph limit
      { (schedule.leave ending).conclude node.name .cancelled with cancelled := true }
      (history ++ [.ended ending stopping]) := by
  obtain ⟨hstarted, hopen⟩ := (h.roster.mem_iff ending.task).mp hrunning
  refine h.ended hrunning rfl rfl rfl rfl ?_ ?_ ?_ ?_ ?_
  · simpa [hverdict, leave, conclude] using h.counts
  · rw [failures_append, Moment.verdict?_ended, hverdict, List.append_nil,
      TaskGraph.name_of_get?_eq_some hnode]
    exact h.statuses.conclude hopen .stopped
  · rw [kept_append_of_not_succeeded _ _ (by simp [hverdict])]
    exact h.results.keep _
  · simpa [hverdict, leave, conclude] using h.rootCause_eq
  · simp [hverdict]

theorem Tracks.settle (hgraph : graph.WellFormed) (h : Tracks graph limit schedule history)
    (hrunning : ending.task ∈ schedule.running) (stopping : Bool) :
    Tracks graph limit (schedule.settle stopping ending)
      (history ++ [.ended ending stopping]) := by
  have hstarted := ((h.roster.mem_iff ending.task).mp hrunning).1
  obtain ⟨node, hnode⟩ := TaskGraph.exists_get?_eq_some (h.orderly.starts_mem _ hstarted)
  rw [settle_eq (h.graph_eq ▸ hnode)]
  cases hverdict : ending.verdict stopping with
  | succeeded product => exact h.succeed hgraph hrunning hnode hverdict
  | failed failure => exact h.fail hgraph hrunning hnode hverdict
  | stopped => exact h.giveUp hrunning hnode hverdict

end Step

end Schedule

end BuildMatrix
