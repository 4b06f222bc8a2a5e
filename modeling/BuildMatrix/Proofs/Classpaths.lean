import BuildMatrix.Proofs.Rounds
import BuildMatrix.Proofs.InputFiles
import BuildMatrix.Proofs.Reports
import BuildMatrix.Proofs.Requests

/-!
# Classpaths

A task that collects a classpath looks at the results it was started with: the classes of its own
dependencies, and the jars of everything below them. The latter are found by a walk over nested
results that visits each task once, so that what hangs below a task is looked at only the first time
the task is met. Nothing is lost by that: the results of a build are coherent, there is one for each
task, and so what was met before was the same result and leads on to all that is below it.
-/

namespace BuildMatrix

/-! ### Each path once -/

namespace Path

/-- What is kept is none of the paths before, and no two of it are **the same**. -/
theorem pairwise_distinctFrom (seen paths : List Path) :
    (distinctFrom seen paths).Pairwise (fun path other => path.same other = false) ∧
      ∀ path ∈ distinctFrom seen paths, path.memSame seen = false := by
  induction paths generalizing seen with
  | nil => exact ⟨.nil, fun path hmem => by cases hmem⟩
  | cons first rest ih =>
    rw [distinctFrom]
    split
    · exact ih seen
    · next hfirst =>
        obtain ⟨hpairwise, hfresh⟩ := ih (first :: seen)
        have hsplit : ∀ path ∈ distinctFrom (first :: seen) rest,
            path.same first = false ∧ path.memSame seen = false := by
          intro path hmem
          simpa [memSame] using hfresh path hmem
        refine ⟨List.pairwise_cons.mpr ⟨fun path hmem => ?_, hpairwise⟩,
          List.forall_mem_cons.mpr
            ⟨Bool.eq_false_iff.mpr hfirst, fun path hmem => (hsplit path hmem).2⟩⟩
        rw [Bool.eq_false_iff, Ne, same_iff]
        intro heq
        exact Bool.eq_false_iff.mp (hsplit path hmem).1 (same_iff.mpr heq.symm)

theorem exists_distinctFrom_append (seen paths more : List Path) :
    ∃ back, distinctFrom seen (paths ++ more) = distinctFrom seen paths ++ back ∧
      ∀ path ∈ back, path ∈ more := by
  induction paths generalizing seen with
  | nil => exact ⟨distinctFrom seen more, rfl, fun path => mem_of_mem_distinctFrom⟩
  | cons first rest ih =>
    rw [List.cons_append, distinctFrom, distinctFrom]
    split
    · exact ih seen
    · obtain ⟨back, heq, hback⟩ := ih (first :: seen)
      exact ⟨back, by rw [heq, List.cons_append], hback⟩

/-- **Each path is kept where it is first**: of two lists, all of the first, and then what of the
second is not the same as any of the first. -/
theorem exists_distinct_append (paths more : List Path) :
    ∃ front back, distinct (paths ++ more) = front ++ back ∧
      (∀ path ∈ front, path ∈ paths) ∧
      (∀ path ∈ paths, ∃ kept ∈ front, kept.same path = true) ∧
      ∀ path ∈ back, path ∈ more ∧ ∀ other ∈ paths, path.same other = false := by
  obtain ⟨back, heq, hback⟩ := exists_distinctFrom_append [] paths more
  have hpairwise := (pairwise_distinctFrom [] (paths ++ more)).1
  rw [heq, List.pairwise_append] at hpairwise
  have hkept : ∀ path ∈ paths, ∃ kept ∈ distinctFrom [] paths, kept.same path = true :=
    fun path hmem => mem_distinctFrom hmem rfl
  refine ⟨distinctFrom [] paths, back, heq, fun path => mem_of_mem_distinctFrom, hkept,
    fun path hmem => ⟨hback path hmem, fun other hother => ?_⟩⟩
  obtain ⟨kept, hfront, hsame⟩ := hkept other hother
  rw [Bool.eq_false_iff, Ne, same_iff]
  intro hpath
  refine Bool.eq_false_iff.mp (hpairwise.2.2 kept hfront path hmem) ?_
  exact same_iff.mpr ((same_iff.mp hsame).trans hpath.symm)

end Path

/-! ### The walk over nested results -/

namespace TaskResult

/-- A result is **below** another, or is that one. -/
def Below : TaskResult → TaskResult → Prop :=
  Relation.ReflTransGen fun above below => below ∈ above.dependencies

/-- Results are **coherent** if there is one for each task and all below them are among them. -/
structure Coherent (known : TaskResult → Prop) : Prop where
  eq_of_task : ∀ result other, known result → known other → result.task = other.task →
    result = other
  dependency : ∀ result, known result → ∀ below ∈ result.dependencies, known below

theorem Coherent.below {known : TaskResult → Prop} (h : Coherent known)
    {result below : TaskResult} (hresult : known result) (hbelow : result.Below below) :
    known below := by
  induction hbelow with
  | refl => exact hresult
  | tail _ hdependency ih => exact h.dependency _ ih _ hdependency

mutual

/-- The **full walk**: a result and all that is below it, depth first, as often as it is met. -/
def unfolded : TaskResult → List TaskResult
  | ⟨task, output, dependencies⟩ => ⟨task, output, dependencies⟩ :: unfoldedAll dependencies

/-- All results with what is below them. -/
def unfoldedAll : List TaskResult → List TaskResult
  | [] => []
  | result :: rest => unfolded result ++ unfoldedAll rest

end

mutual

theorem mem_unfolded : ∀ result below : TaskResult, below ∈ unfolded result ↔ result.Below below
  | ⟨task, output, dependencies⟩, below => by
      rw [unfolded, List.mem_cons, mem_unfoldedAll dependencies, Below,
        Relation.ReflTransGen.cases_head_iff, eq_comm]

theorem mem_unfoldedAll : ∀ (results : List TaskResult) (below : TaskResult),
    below ∈ unfoldedAll results ↔ ∃ start ∈ results, start.Below below
  | [], _ => by simp [unfoldedAll]
  | result :: rest, below => by
      simp [unfoldedAll, mem_unfolded result, mem_unfoldedAll rest]

end

/-- Keep a result, in front of those kept before, unless there is one of its task. -/
def keep (kept : List TaskResult) (result : TaskResult) : List TaskResult :=
  if kept.any fun r => r.task == result.task then kept else result :: kept

/-- The **first** result of each task. -/
def firsts (results : List TaskResult) : List TaskResult := (results.foldl keep []).reverse

theorem nodup_foldl_keep (results : List TaskResult) {kept : List TaskResult}
    (h : (kept.map (·.task)).Nodup) : ((results.foldl keep kept).map (·.task)).Nodup := by
  induction results generalizing kept with
  | nil => exact h
  | cons result rest ih =>
    refine ih ?_
    rw [keep]
    split
    · exact h
    · next hnew =>
        refine List.nodup_cons.mpr ⟨fun hmem => hnew ?_, h⟩
        obtain ⟨other, hother, htask⟩ := List.mem_map.mp hmem
        exact List.any_eq_true.mpr ⟨other, hother, beq_iff_eq.mpr htask⟩

theorem foldl_keep_of_subset {results kept : List TaskResult} (h : ∀ r ∈ results, r ∈ kept) :
    results.foldl keep kept = kept := by
  induction results with
  | nil => rfl
  | cons result rest ih =>
    obtain ⟨hresult, hrest⟩ := List.forall_mem_cons.mp h
    have hmet : (kept.any fun r => r.task == result.task) = true :=
      List.any_eq_true.mpr ⟨result, hresult, beq_self_eq_true result.task⟩
    rw [List.foldl_cons, keep, if_pos hmet, ih hrest]

section Walk

variable {known : TaskResult → Prop} {results rest kept seen : List TaskResult}
  {result : TaskResult}

/-- What was met under a name is the very result of that name. -/
theorem Coherent.mem_of_any (hknown : Coherent known) (hresult : known result)
    (hkept : ∀ r ∈ kept, known r) (h : (kept.any fun r => r.task == result.task) = true) :
    result ∈ kept := by
  obtain ⟨other, hother, htask⟩ := List.any_eq_true.mp h
  obtain rfl := hknown.eq_of_task other _ (hkept other hother) hresult (eq_of_beq htask)
  exact hother

theorem mem_foldl_keep (hknown : Coherent known) (hresults : ∀ r ∈ results, known r)
    (hkept : ∀ r ∈ kept, known r) : result ∈ results.foldl keep kept ↔
      result ∈ kept ∨ result ∈ results := by
  induction results generalizing kept with
  | nil => simp
  | cons first rest ih =>
    obtain ⟨hfirst, hrest⟩ := List.forall_mem_cons.mp hresults
    have hstep : ∀ r, r ∈ keep kept first ↔ r ∈ kept ∨ r = first := by
      intro r
      rw [keep]
      split
      · next hmet =>
          exact (or_iff_left_of_imp fun h => h ▸ hknown.mem_of_any hfirst hkept hmet).symm
      · rw [List.mem_cons, or_comm]
    have hnext : ∀ r ∈ keep kept first, known r := fun r hr =>
      ((hstep r).mp hr).elim (hkept r) fun h => h ▸ hfirst
    rw [List.foldl_cons, ih hrest hnext, hstep, or_assoc, List.mem_cons]

/-- What was **seen** leads to nothing that was not, except for those that are being visited: they
are larger than what comes next. -/
def Settled (next seen : List TaskResult) : Prop :=
  ∀ r ∈ seen, (∀ below, r.Below below → below ∈ seen) ∨ ∀ n ∈ next, sizeOf n < sizeOf r

theorem Settled.enter (h : Settled [result] seen) :
    Settled result.dependencies (result :: seen) := by
  have hsmaller : ∀ d ∈ result.dependencies, sizeOf d < sizeOf result := by
    intro d hd
    have hlt := List.sizeOf_lt_of_mem hd
    cases result
    simp only [mk.sizeOf_spec] at hlt ⊢
    omega
  refine List.forall_mem_cons.mpr ⟨.inr hsmaller, fun r hr => ?_⟩
  rcases h r hr with hbelow | hlarge
  · exact .inl fun below hb => List.mem_cons_of_mem _ (hbelow below hb)
  · exact .inr fun d hd => (hsmaller d hd).trans (hlarge result (List.mem_singleton_self _))

theorem Settled.leave (hknown : Coherent known) (hresult : known result)
    (hseen : ∀ r ∈ seen, known r) (h : Settled (result :: rest) seen) :
    Settled rest ((unfolded result).foldl keep seen) := by
  have hmem : ∀ r, r ∈ (unfolded result).foldl keep seen ↔ r ∈ seen ∨ result.Below r := by
    intro r
    rw [mem_foldl_keep hknown (fun r hr => hknown.below hresult ((mem_unfolded _ _).mp hr)) hseen,
      mem_unfolded]
  intro r hr
  rcases (hmem r).mp hr with hold | hnew
  · rcases h r hold with hbelow | hlarge
    · exact .inl fun below hb => (hmem below).mpr (.inl (hbelow below hb))
    · exact .inr fun n hn => hlarge n (List.mem_cons_of_mem _ hn)
  · exact .inl fun below hb => (hmem below).mpr (.inr (hnew.trans hb))

mutual

/-- A visit that **skips what it has seen** finds what the full walk does: below a task that was
seen there is nothing new. -/
theorem visit_eq (hknown : Coherent known) :
    ∀ (result : TaskResult) (seen : List TaskResult), known result → (∀ r ∈ seen, known r) →
      Settled [result] seen → visit result seen = (unfolded result).foldl keep seen
  | ⟨task, output, dependencies⟩, seen, hresult, hseen, hsettled => by
      rw [visit]
      split
      · next hmet =>
          have hmem := hknown.mem_of_any hresult hseen hmet
          have hbelow := (hsettled _ hmem).resolve_right fun h =>
            (h _ (List.mem_singleton_self _)).false
          exact (foldl_keep_of_subset fun r hr => hbelow r ((mem_unfolded _ _).mp hr)).symm
      · next hnew =>
          rw [unfolded, List.foldl_cons, keep, if_neg hnew]
          exact visitAll_eq hknown dependencies _ (hknown.dependency _ hresult)
            (List.forall_mem_cons.mpr ⟨hresult, hseen⟩) hsettled.enter

theorem visitAll_eq (hknown : Coherent known) :
    ∀ (results seen : List TaskResult), (∀ r ∈ results, known r) → (∀ r ∈ seen, known r) →
      Settled results seen → visitAll results seen = (unfoldedAll results).foldl keep seen
  | [], _, _, _, _ => rfl
  | result :: rest, seen, hresults, hseen, hsettled => by
      obtain ⟨hresult, hrest⟩ := List.forall_mem_cons.mp hresults
      have hone : Settled [result] seen := fun r hr =>
        (hsettled r hr).imp_right fun h => List.forall_mem_singleton.mpr (h _ List.mem_cons_self)
      have hunfolded : ∀ r ∈ unfolded result, known r := fun r hr =>
        hknown.below hresult ((mem_unfolded _ _).mp hr)
      rw [visitAll, unfoldedAll, List.foldl_append, visit_eq hknown result seen hresult hseen hone]
      exact visitAll_eq hknown rest _ hrest
        (fun r hr => ((mem_foldl_keep hknown hunfolded hseen).mp hr).elim (hseen r) (hunfolded r))
        (hsettled.leave hknown hresult hseen)

end

theorem reachable_eq (hknown : Coherent known) (hresults : ∀ r ∈ results, known r) :
    reachable results = firsts (unfoldedAll results) := by
  rw [reachable, firsts, visitAll_eq hknown results [] hresults (by simp) (by simp [Settled])]

/-- **The walk meets exactly what is below** the results it starts from. -/
theorem mem_reachable (hknown : Coherent known) (hresults : ∀ r ∈ results, known r) :
    result ∈ reachable results ↔ ∃ start ∈ results, start.Below result := by
  have hunfolded : ∀ r ∈ unfoldedAll results, known r := by
    intro r hr
    obtain ⟨start, hstart, hbelow⟩ := (mem_unfoldedAll _ _).mp hr
    exact hknown.below (hresults start hstart) hbelow
  rw [reachable_eq hknown hresults, firsts, List.mem_reverse,
    mem_foldl_keep hknown hunfolded (by simp), mem_unfoldedAll]
  simp

end Walk

/-- **A transitive look-up gives what the full walk finds**, each task where it is first met. So
every task below that has an output of the variant is there, and no task is there twice. -/
theorem transitive_eq_full_walk {results : List TaskResult}
    (hsame : ∀ a ∈ unfoldedAll results, ∀ b ∈ unfoldedAll results, a.task = b.task → a = b)
    (variant : Variant) :
    transitive variant results = all variant (firsts (unfoldedAll results)) ∧
      (∀ result ∈ unfoldedAll results, result ∈ firsts (unfoldedAll results)) ∧
        ((firsts (unfoldedAll results)).map (·.task)).Nodup := by
  have hknown : Coherent (· ∈ unfoldedAll results) := by
    refine ⟨fun a b ha hb => hsame a ha b hb, fun a ha b hb => ?_⟩
    obtain ⟨start, hstart, hbelow⟩ := (mem_unfoldedAll _ _).mp ha
    exact (mem_unfoldedAll _ _).mpr ⟨start, hstart, hbelow.tail hb⟩
  have hresults : ∀ r ∈ results, r ∈ unfoldedAll results := fun r hr =>
    (mem_unfoldedAll _ _).mpr ⟨r, hr, .refl⟩
  refine ⟨?_, fun result hresult => ?_, ?_⟩
  · rw [transitive, reachable_eq hknown hresults]
  · rw [firsts, List.mem_reverse, mem_foldl_keep hknown (fun _ h => h) (by simp)]
    exact .inr hresult
  · rw [firsts, List.map_reverse, List.nodup_reverse]
    exact nodup_foldl_keep _ List.nodup_nil

/-- Two tasks that have the same dependency. -/
def diamond : List TaskResult :=
  let base : TaskResult := ⟨⟨":base"⟩, .jar ⟨"base.jar"⟩, []⟩
  [⟨⟨":left"⟩, .none, [base]⟩, ⟨⟨":right"⟩, .jar ⟨"right.jar"⟩, [base]⟩]

theorem transitive_diamond_eq_full_walk : (unfoldedAll diamond).length = 4 ∧
    transitive .jar diamond = all .jar (firsts (unfoldedAll diamond)) ∧
      transitive .jar diamond = [.jar ⟨"base.jar"⟩, .jar ⟨"right.jar"⟩] :=
  ⟨rfl, (transitive_eq_full_walk (by simp [diamond, unfoldedAll, unfolded]) .jar).1,
    by decide +kernel⟩

/-! ### The outputs of results -/

theorem mem_paths_all {variant : Variant} {kind : Path → Output}
    (hkind : ∀ output : Output, output.isVariant variant = true ↔ ∃ path, output = kind path)
    (hpaths : ∀ path, (kind path).paths = [path]) {results : List TaskResult} {path : Path} :
    path ∈ (all variant results).flatMap Output.paths ↔
      ∃ result ∈ results, result.output = kind path := by
  simp only [all, List.mem_flatMap, List.mem_filter, List.mem_map]
  constructor
  · rintro ⟨_, ⟨⟨result, hmem, rfl⟩, hvariant⟩, hpath⟩
    obtain ⟨other, houtput⟩ := (hkind _).mp hvariant
    rw [houtput, hpaths, List.mem_singleton] at hpath
    exact ⟨result, hmem, hpath ▸ houtput⟩
  · rintro ⟨result, hmem, houtput⟩
    refine ⟨_, ⟨⟨result, hmem, rfl⟩, (hkind _).mpr ⟨path, houtput⟩⟩, ?_⟩
    rw [houtput, hpaths]
    exact List.mem_singleton_self path

theorem isVariant_classes_iff (output : Output) :
    output.isVariant .classes = true ↔ ∃ dir, output = .classes dir := by
  cases output <;> simp [Output.isVariant, Output.variant?]

theorem isVariant_jar_iff (output : Output) :
    output.isVariant .jar = true ↔ ∃ path, output = .jar path := by
  cases output <;> simp [Output.isVariant, Output.variant?]

end TaskResult

/-! ### The results of a build -/

/-- A task has produced an output. -/
def History.Produced (history : History) (task : TaskName) (output : Output) : Prop :=
  ∃ product stopping, history.Returned task (.ok product) stopping ∧ product.output = output

namespace Schedule

variable {ω : Type} {graph : TaskGraph ω} {limit : Nat} {schedule : Schedule ω}
  {history : History}

/-- A result is the one that is kept. -/
def Holds (schedule : Schedule ω) (result : TaskResult) : Prop :=
  schedule.results.get? result.task = some result

theorem Tracks.mem_iff_of_map_eq (h : Tracks graph limit schedule history)
    {names : List TaskName} {results : List TaskResult}
    (hmap : names.map schedule.results.get? = results.map some) (result : TaskResult) :
    result ∈ results ↔ schedule.Holds result ∧ result.task ∈ names := by
  have hfound : result ∈ results ↔ some result ∈ names.map schedule.results.get? := by
    rw [hmap, List.mem_map_of_injective (Option.some_injective _)]
  rw [hfound, List.mem_map]
  constructor
  · rintro ⟨name, hname, hget⟩
    have htask := (h.results.result name result hget).1
    subst htask
    exact ⟨hget, hname⟩
  · rintro ⟨hholds, hname⟩
    exact ⟨result.task, hname, hholds⟩

theorem Tracks.exists_of_map_eq (h : Tracks graph limit schedule history) {names : List TaskName}
    {results : List TaskResult} (hmap : names.map schedule.results.get? = results.map some)
    {name : TaskName} (hname : name ∈ names) : ∃ result ∈ results, result.task = name := by
  have hmem := List.mem_map_of_mem (f := schedule.results.get?) hname
  rw [hmap] at hmem
  obtain ⟨result, hresult, hget⟩ := List.mem_map.mp hmem
  exact ⟨result, hresult, (h.results.result name result hget.symm).1⟩

theorem Tracks.coherent (h : Tracks graph limit schedule history) :
    TaskResult.Coherent schedule.Holds where
  eq_of_task result other hresult hother htask := by
    rw [Holds, htask] at hresult
    exact Option.some.inj (hresult.symm.trans hother)
  dependency result hholds below hbelow :=
    ((h.mem_iff_of_map_eq (h.results.result _ _ hholds).2.2 below).mp hbelow).1

theorem Tracks.produced_iff (h : Tracks graph limit schedule history) {result : TaskResult}
    (hholds : schedule.Holds result) (output : Output) :
    history.Produced result.task output ↔ result.output = output := by
  obtain ⟨-, ⟨product, hverdict, houtput⟩, -⟩ := h.results.result _ _ hholds
  constructor
  · rintro ⟨other, stopping, hreturned, rfl⟩
    have hsame := h.orderly.verdict_unique hverdict
      (History.succeeded_mem_verdicts.mpr ⟨stopping, hreturned⟩)
    rw [houtput, Verdict.succeeded.inj hsame]
  · rintro rfl
    obtain ⟨stopping, hreturned⟩ := History.succeeded_mem_verdicts.mp hverdict
    exact ⟨product, stopping, hreturned, houtput.symm⟩

/-- **What is below the results that a task was started with** are the results of all that the task
needs. -/
theorem Tracks.needs_iff (h : Tracks graph limit schedule history) {task : TaskName}
    {given : List TaskResult}
    (hgiven : (graph.dependenciesOf task).map schedule.results.get? = given.map some)
    (d : TaskName) :
    graph.Needs task d ↔ ∃ start ∈ given, ∃ result, start.Below result ∧ result.task = d := by
  have hholds : ∀ start ∈ given, ∀ {result}, start.Below result → schedule.Holds result :=
    fun start hstart _ hbelow =>
      h.coherent.below ((h.mem_iff_of_map_eq hgiven start).mp hstart).1 hbelow
  have hdependencies := fun {result : TaskResult} (hknown : schedule.Holds result) =>
    (h.results.result _ _ hknown).2.2
  constructor
  · intro hneeds
    induction hneeds with
    | single hd =>
      obtain ⟨start, hstart, htask⟩ := h.exists_of_map_eq hgiven hd
      exact ⟨start, hstart, start, .refl, htask⟩
    | tail _ hd ih =>
      obtain ⟨start, hstart, result, hbelow, rfl⟩ := ih
      obtain ⟨next, hnext, htask⟩ :=
        h.exists_of_map_eq (hdependencies (hholds start hstart hbelow)) hd
      exact ⟨start, hstart, next, hbelow.tail hnext, htask⟩
  · rintro ⟨start, hstart, result, hbelow, rfl⟩
    induction hbelow with
    | refl => exact .single ((h.mem_iff_of_map_eq hgiven start).mp hstart).2
    | @tail above result hbelow hdependency ih =>
      refine .tail ih ?_
      exact ((h.mem_iff_of_map_eq (hdependencies (hholds start hstart hbelow)) result).mp
        hdependency).2

end Schedule

/-! ### Classpaths -/

/-- What the **classpath** of a task consists of, by what was produced in a build. -/
structure History.RuntimeClasspath {ω : Type} (graph : TaskGraph ω) (history : History)
    (task : TaskName) (entries : List Path) : Prop where
  /-- No two entries are the same path. -/
  distinct : entries.Pairwise fun entry other => entry.same other = false
  /-- The jars of everything that the task needs are among the entries. -/
  jars : ∀ d path, graph.Needs task d → history.Produced d (.jar path) →
    ∃ entry ∈ entries, entry.same path = true
  /-- The entries are classes, those of all the dependencies, and then jars that are none of
  these. -/
  order : ∃ front back, entries = front ++ back ∧
    (∀ d dir, d ∈ graph.dependenciesOf task → history.Produced d (.classes dir) →
      ∃ entry ∈ front, entry.same dir = true) ∧
    (∀ entry ∈ front, ∃ d ∈ graph.dependenciesOf task, history.Produced d (.classes entry)) ∧
    ∀ entry ∈ back, (∃ d, graph.Needs task d ∧ history.Produced d (.jar entry)) ∧
      ∀ d dir, d ∈ graph.dependenciesOf task → history.Produced d (.classes dir) →
        entry.same dir = false

/-- **The classpath of the results that a task was started with.** -/
theorem Schedule.Tracks.runtimeClasspath {ω : Type} {graph : TaskGraph ω} {limit : Nat}
    {schedule : Schedule ω} {history : History} (h : Tracks graph limit schedule history)
    {task : TaskName} {given : List TaskResult}
    (hgiven : (graph.dependenciesOf task).map schedule.results.get? = given.map some) :
    history.RuntimeClasspath graph task (TaskResult.classpath given) := by
  have hholds : ∀ result ∈ given, schedule.Holds result :=
    fun result hmem => ((h.mem_iff_of_map_eq hgiven result).mp hmem).1
  have hclasses : ∀ dir, dir ∈ (TaskResult.all .classes given).flatMap Output.paths ↔
      ∃ d ∈ graph.dependenciesOf task, history.Produced d (.classes dir) := by
    intro dir
    rw [TaskResult.mem_paths_all TaskResult.isVariant_classes_iff fun _ => rfl]
    constructor
    · rintro ⟨result, hmem, houtput⟩
      exact ⟨result.task, ((h.mem_iff_of_map_eq hgiven result).mp hmem).2,
        (h.produced_iff (hholds result hmem) _).mpr houtput⟩
    · rintro ⟨d, hd, hproduced⟩
      obtain ⟨result, hmem, rfl⟩ := h.exists_of_map_eq hgiven hd
      exact ⟨result, hmem, (h.produced_iff (hholds result hmem) _).mp hproduced⟩
  have hjars : ∀ path, path ∈ (TaskResult.transitive .jar given).flatMap Output.paths ↔
      ∃ d, graph.Needs task d ∧ history.Produced d (.jar path) := by
    intro path
    rw [TaskResult.transitive,
      TaskResult.mem_paths_all TaskResult.isVariant_jar_iff fun _ => rfl]
    simp only [TaskResult.mem_reachable h.coherent hholds, h.needs_iff hgiven]
    constructor
    · rintro ⟨result, ⟨start, hstart, hbelow⟩, houtput⟩
      have hknown := h.coherent.below (hholds start hstart) hbelow
      exact ⟨result.task, ⟨start, hstart, result, hbelow, rfl⟩,
        (h.produced_iff hknown _).mpr houtput⟩
    · rintro ⟨_, ⟨start, hstart, result, hbelow, rfl⟩, hproduced⟩
      have hknown := h.coherent.below (hholds start hstart) hbelow
      exact ⟨result, ⟨start, hstart, hbelow⟩, (h.produced_iff hknown _).mp hproduced⟩
  obtain ⟨front, back, hentries, hfront, hall, hback⟩ := Path.exists_distinct_append
    ((TaskResult.all .classes given).flatMap Output.paths)
    ((TaskResult.transitive .jar given).flatMap Output.paths)
  refine ⟨(Path.pairwise_distinctFrom [] _).1, fun d path hneeds hproduced => ?_,
    front, back, hentries, fun d dir hd hproduced => ?_, fun entry hmem => ?_,
    fun entry hmem => ⟨?_, fun d dir hd hproduced => ?_⟩⟩
  · exact Path.mem_distinctFrom
      (List.mem_append_right _ ((hjars path).mpr ⟨d, hneeds, hproduced⟩)) rfl
  · exact hall dir ((hclasses dir).mpr ⟨d, hd, hproduced⟩)
  · exact (hclasses entry).mp (hfront entry hmem)
  · exact (hjars entry).mp (hback entry hmem).1
  · exact (hback entry hmem).2 dir ((hclasses dir).mpr ⟨d, hd, hproduced⟩)

theorem Session.exists_of_perform {session : Session} {job : Job Output} {product : Product}
    (h : (session.perform job).1 = .ok product) :
    ∃ after, job { session with lines := [], reuses := [] } = (.ok product.output, after) := by
  unfold perform at h
  split at h
  · cases h
  · next output after hjob =>
      obtain rfl := Except.ok.inj h
      exact ⟨after, hjob⟩

theorem Launch.output_of_classpath {launch : Launch} {place : Place} {product : Product}
    (hwork : launch.task.work = .classpath) (h : launch.outcome place = .ok product) :
    ∃ file, product.output = .classpath (TaskResult.classpath launch.dependencies) file := by
  obtain ⟨after, hjob⟩ := Session.exists_of_perform h
  rw [launch.job_eq place] at hjob
  split at hjob
  · cases hjob
  · next request tree hask =>
      obtain ⟨-, rfl⟩ | ⟨task, files, hcommand, -⟩ := Work.request_eq_ok (request_of_ask hask)
      · rw [place.fulfil_eq] at hjob
        split at hjob
        · cases hjob
        · exact ⟨_, (Except.ok.inj (Prod.mk.inj hjob).1).symm⟩
      · rw [hwork] at hcommand
        cases hcommand

namespace TaskGraph

variable {ω σ : Type}

/-- **Classpaths are complete and free of repetitions**, for every task that is started in any build
of a graph made from declarations. A classpath task that is started with some results and returns
something returns the classpath of these. -/
theorem classpath_is_complete {builder : GraphBuilder ω} (hdeclared : builder.Declared)
    {graph : TaskGraph ω} (hbuild : builder.build = .ok graph) (runner : Schedule.Runner ω σ)
    (limit : Nat) (state : σ) {task : TaskName} {given : List TaskResult}
    (hstarted : .started task given ∈ graph.history runner limit state) :
    (graph.history runner limit state).RuntimeClasspath graph task (TaskResult.classpath given) ∧
      ∀ (launch : Launch) (place : Place) (product : Product),
        launch.task.work = .classpath → launch.dependencies = given →
        launch.outcome place = .ok product →
        ∃ file, product.output = .classpath (TaskResult.classpath given) file := by
  have hgraph := hdeclared.wellFormed hbuild
  obtain ⟨schedule, hreached, -, -⟩ := hgraph.reached_execute runner limit state
  refine ⟨(hreached.tracks hgraph).runtimeClasspath (hreached.handed hgraph hstarted), ?_⟩
  rintro launch place product hwork rfl houtcome
  exact launch.output_of_classpath hwork houtcome

end TaskGraph

/-! ### A diamond -/

/-- Four tasks: one that two others depend on, and one that depends on these two. -/
def GraphBuilder.diamond : GraphBuilder Unit where
  tasks := [.plain "base", .plain "left", .plain "right", .plain "top"]
  edges := [(⟨"base"⟩, []), (⟨"left"⟩, [⟨"base"⟩]), (⟨"right"⟩, [⟨"base"⟩]),
    (⟨"top"⟩, [⟨"left"⟩, ⟨"right"⟩])]

theorem GraphBuilder.declared_diamond : diamond.Declared := by
  have hbase : Declared ⟨[.plain "base"], [(⟨"base"⟩, [])]⟩ :=
    .register .empty (show register {} (.plain "base") [] = _ from rfl)
  have hleft : Declared ⟨[.plain "base", .plain "left"],
      [(⟨"base"⟩, []), (⟨"left"⟩, [⟨"base"⟩])]⟩ :=
    .register hbase (show register _ (.plain "left") [⟨"base"⟩] = _ from rfl)
  have hright : Declared ⟨[.plain "base", .plain "left", .plain "right"],
      [(⟨"base"⟩, []), (⟨"left"⟩, [⟨"base"⟩]), (⟨"right"⟩, [⟨"base"⟩])]⟩ :=
    .register hleft (show register _ (.plain "right") [⟨"base"⟩] = _ from rfl)
  exact .register hright (show register _ (.plain "top") [⟨"left"⟩, ⟨"right"⟩] = _ from rfl)

namespace TaskGraph

/-- Two ways from the top to the base. -/
def diamond : TaskGraph Unit where
  nodes := [⟨.plain "base", [], [⟨"left"⟩, ⟨"right"⟩], 0⟩,
    ⟨.plain "left", [⟨"base"⟩], [⟨"top"⟩], 1⟩, ⟨.plain "right", [⟨"base"⟩], [⟨"top"⟩], 1⟩,
    ⟨.plain "top", [⟨"left"⟩, ⟨"right"⟩], [], 2⟩]
  sorted := [⟨"base"⟩, ⟨"left"⟩, ⟨"right"⟩, ⟨"top"⟩]

/-- What the four tasks produce: the jar below is spelled in two ways, and one of the tasks above it
has classes. -/
def diamondOutcome (task : TaskName) : Outcome :=
  .ok { output :=
    if task.text = "base" then .jar ⟨"out/base.jar"⟩
    else if task.text = "left" then .classes ⟨"out/left"⟩
    else if task.text = "right" then .jar ⟨"out//base.jar"⟩
    else .none }

/-- The results with which the task at the top of the diamond is started. -/
def diamondResults : List TaskResult :=
  let base : TaskResult := ⟨⟨"base"⟩, .jar ⟨"out/base.jar"⟩, []⟩
  [⟨⟨"left"⟩, .classes ⟨"out/left"⟩, [base]⟩, ⟨⟨"right"⟩, .jar ⟨"out//base.jar"⟩, [base]⟩]

/-- The diamond: the jar at its bottom is reached in two ways and stands in the classpath once, in
the spelling met first, after the classes. -/
theorem classpath_is_complete_diamond :
    .started ⟨"top"⟩ diamondResults ∈ diamond.history (.inOrder diamondOutcome) 2 () ∧
      TaskResult.classpath diamondResults = [⟨"out/left"⟩, ⟨"out/base.jar"⟩] ∧
      (diamond.history (.inOrder diamondOutcome) 2 ()).RuntimeClasspath diamond ⟨"top"⟩
        (TaskResult.classpath diamondResults) := by
  have hstarted : .started ⟨"top"⟩ diamondResults ∈
      diamond.history (.inOrder diamondOutcome) 2 () := List.mem_of_getElem? (i := 14) rfl
  exact ⟨hstarted, by decide, (classpath_is_complete GraphBuilder.declared_diamond rfl
    (.inOrder diamondOutcome) 2 () hstarted).1⟩

end TaskGraph

end BuildMatrix
