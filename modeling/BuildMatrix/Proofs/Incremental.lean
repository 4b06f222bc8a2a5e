import BuildMatrix.Proofs.Guarantees
import BuildMatrix.Proofs.PlainLayouts
import BuildMatrix.Proofs.SoloBuilds

/-!
# Building again

After a build in which every task succeeded, everything is on record. Whatever is edited then, as
long as the directories of the tasks and of the cache are left alone, the next build finds the work
of every task whose own sources, and those of everything it needs, still read the same: the task is
skipped, its work is not done, and it delivers what it did before.
-/

namespace BuildMatrix

open FileTree

variable {tree : FileTree} {task : TaskName}

/-- The **work of a task was done**, or is being done. -/
def World.Invoked (world : World) (task : TaskName) : Prop :=
  (∃ inputs fingerprint, world.stage task = .working inputs fingerprint) ∨
    ∃ outcome, world.stage task = .ended true outcome

namespace Workshop

variable {ω σ : Type} {shop : Workshop ω}

/-- An edit **leaves the workshop alone**: the directories of the tasks and the files of the cache
are as they were. -/
def Untouched (shop : Workshop ω) (tree edited : FileTree) : Prop :=
  ∀ task ∈ shop.graph.names, shop.Spares task tree edited ∧
    edited.entry? (shop.temporary task) = tree.entry? (shop.temporary task)

/-- The sources of a task and of everything it needs **read the same** in two trees. -/
def Unaffected (shop : Workshop ω) (tree edited : FileTree) (task : TaskName) : Prop :=
  ∀ needed, needed = task ∨ shop.graph.Needs task needed → ∀ source ∈ shop.sources needed,
    Fingerprint.contentStream edited source = Fingerprint.contentStream tree source

theorem Unaffected.dependency {edited : FileTree} {d : TaskName}
    (h : shop.Unaffected tree edited task) (hd : d ∈ shop.graph.dependenciesOf task) :
    shop.Unaffected tree edited d := by
  rintro needed (rfl | hneeds)
  · exact h needed (.inr (.single hd))
  · exact h needed (.inr (.head hd hneeds))

/-- If no task of a crew can be seen to have failed, **the history has no failures**. -/
theorem Crew.failures_eq_nil {runner : Schedule.Runner ω σ} {crew : shop.Crew runner}
    {start : World} {state : σ} {history : History} (h : (crew.view start).Follows state history)
    (hsound : ∀ task, ¬((crew.world state).stage task).Failed) : history.failures = [] := by
  rw [List.eq_nil_iff_forall_not_mem]
  rintro ⟨task, failure⟩ hfailure
  obtain ⟨stopping, ⟨ending, hmem, rfl, houtcome⟩, -⟩ :=
    History.failed_mem_verdicts.1 (History.mem_failures.1 hfailure)
  obtain ⟨invoked, hended⟩ := h.ended ending stopping hmem
  exact hsound ending.task ⟨invoked, failure, houtcome ▸ hended⟩

end Workshop

/-! ### Two builds -/

namespace Workshop

variable {ω σ : Type} {shop : Workshop ω} {tree edited : FileTree} {runner : Schedule.Runner ω σ}
  {state : σ}

/-- **A build succeeds if all is prepared** and it is not asked to stop; the invariant holds to its
end. -/
theorem Crew.succeeds_of_prepared {followed : TaskName → Prop} (hgraph : shop.graph.WellFormed)
    (hplan : shop.Plan tree followed) (hgood : shop.Good tree followed (.fresh tree))
    (hprepared : shop.Prepared tree) (crew : shop.Crew runner) (limit : Nat)
    (hvalid : crew.Valid state) (hfresh : crew.world state = .fresh tree)
    (hgo : (shop.graph.execute runner limit state).1.cancelled = false) :
    shop.Good tree followed (crew.world (shop.graph.execute runner limit state).2.2) ∧
      (shop.graph.execute runner limit state).1.isSuccess = true ∧
      ∀ task ∈ shop.graph.names, ∃ product invoked,
        (task, if product.upToDate then .skipped else .completed) ∈
          (shop.graph.execute runner limit state).1.statuses ∧
        (crew.world (shop.graph.execute runner limit state).2.2).stage task =
          .ended invoked (.ok product) ∧
        ∃ result, (shop.graph.execute runner limit state).1.results.get? task = some result ∧
          result.output = product.output := by
  have hfollows := crew.follows hgraph limit hvalid hfresh
  have hlast := hgood.run_of_prepared hplan hprepared hfollows.valid.2
  obtain ⟨schedule, htracks, hover, hreport⟩ := hgraph.tracks_execute runner limit state
  rw [hreport] at hgo ⊢
  obtain ⟨hsuccess, hended⟩ :=
    htracks.success hgraph hover (Crew.failures_eq_nil hfollows hlast.sound) hgo
  refine ⟨hlast, hsuccess, fun task htask => ?_⟩
  obtain ⟨product, hverdict, hstatus, hresult⟩ := hended task htask
  obtain ⟨invoked, hstage⟩ := hfollows.ended_of_succeeded hverdict
  exact ⟨product, invoked, hstatus, hstage, hresult⟩

/-- **After a build that succeeds everything is on record**, and the results are those of the
records. -/
theorem Crew.good_of_success (hgraph : shop.graph.WellFormed) (hseparate : shop.Separate)
    (crew : shop.Crew runner) (limit : Nat) (hvalid : crew.Valid state)
    (hfresh : crew.world state = .fresh tree) (hsited : shop.Sited tree)
    (hempty : ∀ task ∈ shop.graph.names,
      tree.entry? (shop.record task) = none ∧ tree.entry? (shop.temporary task) = none)
    (hsuccess : (shop.graph.execute runner limit state).1.isSuccess = true) :
    shop.Good tree (· ∈ shop.graph.names) (crew.world (shop.graph.execute runner limit state).2.2) ∧
      ∀ task ∈ shop.graph.names,
        shop.Made (crew.world (shop.graph.execute runner limit state).2.2).tree task ∧
        ∃ result, (shop.graph.execute runner limit state).1.results.get? task = some result ∧
          result.output = shop.deliver task
            (shop.outputs (crew.world (shop.graph.execute runner limit state).2.2).tree task) := by
  have hplan : shop.Plan tree (· ∈ shop.graph.names) :=
    ⟨hseparate, hsited, fun _ => id, fun task _ => hgraph.mem_names task⟩
  have hfollows := crew.follows hgraph limit hvalid hfresh
  obtain ⟨schedule, htracks, hover, hreport⟩ := hgraph.tracks_execute runner limit state
  rw [hreport] at hsuccess ⊢
  generalize (shop.graph.execute runner limit state).2.2 = after at hfollows ⊢
  generalize shop.graph.history runner limit state = history at hfollows htracks
  have hended : ∀ task ∈ shop.graph.names, ∃ product invoked,
      (task, .succeeded product) ∈ history.verdicts ∧
        (crew.world after).stage task = .ended invoked (.ok product) := by
    intro task htask
    obtain ⟨product, hverdict⟩ := htracks.exists_product hover hsuccess htask
    obtain ⟨invoked, hended⟩ := hfollows.ended_of_succeeded hverdict
    exact ⟨product, invoked, hverdict, hended⟩
  have hinitial : shop.Good tree (· ∈ shop.graph.names) (.fresh tree) := by
    refine good_fresh (fun task htask => ?_) fun task htask hmade => ?_
    · obtain ⟨hrecord, htemporary⟩ := hempty task htask
      exact ⟨by simp [Clear, hrecord], by simp [Clear, htemporary]⟩
    · exact absurd (hempty task htask).1 hmade
  have hgood : shop.Good tree (· ∈ shop.graph.names) (crew.world after) := by
    rcases hinitial.run hplan hfollows.valid.2 with hgood | ⟨task, invoked, failure, hfailed⟩
    · exact hgood
    have hstarted : task ∈ history.starts := by
      by_contra hnot
      rw [(hfollows.idle_iff task).2 hnot] at hfailed
      cases hfailed
    obtain ⟨product, invoked', -, hok⟩ := hended task (htracks.orderly.starts_mem task hstarted)
    rw [hfailed] at hok
    cases hok
  refine ⟨hgood, fun task htask => ?_⟩
  obtain ⟨product, invoked, hverdict, hstage⟩ := hended task htask
  obtain ⟨hmade, houtput, -⟩ := hgood.of_ended htask hstage
  obtain ⟨result, hresult, hsame⟩ :=
    htracks.exists_result (Crew.failures_eq_nil hfollows hgood.sound) hverdict
  exact ⟨hmade, result, hresult, hsame.trans houtput⟩

section Again

variable {world : World}

theorem plan_unaffected (hgraph : shop.graph.WellFormed) (hseparate : shop.Separate)
    (hsited : shop.Sited edited) (tree : FileTree) :
    shop.Plan edited fun task => task ∈ shop.graph.names ∧ shop.Unaffected tree edited task where
  separate := hseparate
  sited := hsited
  mem _ h := h.1
  closed task h d hd := ⟨hgraph.mem_names task d hd, h.2.dependency hd⟩

theorem Good.fresh_edited (h : shop.Good tree (· ∈ shop.graph.names) world) (htidy : tree.Tidy)
    (hgraph : shop.graph.WellFormed) (hmade : ∀ task ∈ shop.graph.names, shop.Made world.tree task)
    (hedited : edited.Tidy) (huntouched : shop.Untouched world.tree edited) :
    shop.Good edited
      (fun task => task ∈ shop.graph.names ∧ shop.Unaffected world.tree edited task)
      (.fresh edited) := by
  have hworld := (h.drift.tidy htidy).1
  refine good_fresh (fun task htask => ?_) fun task htask _ => ⟨?_, fun d hd => ?_⟩
  · obtain ⟨hspares, htemporary⟩ := huntouched task htask
    exact ⟨(h.clear task htask).1.congr hspares.record, (h.clear task htask).2.congr htemporary⟩
  · have hmem := hgraph.mem_names task
    obtain ⟨hinputs, hreads⟩ := inputs_same hworld hedited
      (fun d hd => (h.upToDate d (hmem d hd) (hmade d (hmem d hd))).1)
      (fun d hd => (huntouched d (hmem d hd)).1) (htask.2 task (.inl rfl))
    exact (h.upToDate task htask.1 (hmade task htask.1)).1.spare (huntouched task htask.1).1 hedited
      hinputs hreads
  · have hmem := hgraph.mem_names task d hd
    exact (huntouched d hmem).1.made_iff.2 (hmade d hmem)

theorem Good.prepared (h : shop.Good tree (· ∈ shop.graph.names) world)
    (hmade : ∀ task ∈ shop.graph.names, shop.Made world.tree task)
    (huntouched : shop.Untouched world.tree edited) (htask : task ∈ shop.graph.names) :
    shop.Prepared edited where
  home other hother :=
    (huntouched other hother).1.home (h.upToDate other hother (hmade other hother)).1.home
  folder := (huntouched task htask).1.folder (h.upToDate task htask (hmade task htask)).1.folder
  usable other hother := (h.upToDate other hother (hmade other hother)).1.usable

end Again

/-- **Building again does only what is affected.** The first build succeeds, from a tree in which no
task is on record; then nothing is edited, or anything except for the directories of the tasks and
the files of the cache, and the second build is not asked to stop. Each of them may run on any
runner that has a crew, with any limit. A task such that its sources and those of everything it
needs still read the same is skipped by the second build, its work is not done, and it delivers what
it did in the first. -/
theorem unaffected_tasks_are_skipped {σ' : Type} {builder : GraphBuilder ω}
    (hdeclared : builder.Declared) (hbuild : builder.build = .ok shop.graph)
    (hseparate : shop.Separate)
    {runner : Schedule.Runner ω σ} (crew : shop.Crew runner) (limit : Nat) {state : σ}
    (hvalid : crew.Valid state) (hfresh : crew.world state = .fresh tree)
    (hsited : shop.Sited tree)
    (hempty : ∀ task ∈ shop.graph.names,
      tree.entry? (shop.record task) = none ∧ tree.entry? (shop.temporary task) = none)
    (hsuccess : (shop.graph.execute runner limit state).1.isSuccess = true)
    {runner' : Schedule.Runner ω σ'} (crew' : shop.Crew runner') (limit' : Nat) {state' : σ'}
    (huntouched : shop.Untouched (crew.world (shop.graph.execute runner limit state).2.2).tree
      edited)
    (hvalid' : crew'.Valid state') (hfresh' : crew'.world state' = .fresh edited)
    (hedited : edited ≠ (crew.world (shop.graph.execute runner limit state).2.2).tree →
      shop.Sited edited)
    (hgo : (shop.graph.execute runner' limit' state').1.cancelled = false)
    {task : TaskName} (htask : task ∈ shop.graph.names)
    (hunaffected : shop.Unaffected
      (crew.world (shop.graph.execute runner limit state).2.2).tree edited task) :
    (task, .skipped) ∈ (shop.graph.execute runner' limit' state').1.statuses ∧
      ¬(crew'.world (shop.graph.execute runner' limit' state').2.2).Invoked task ∧
      ∃ result result',
        (shop.graph.execute runner limit state).1.results.get? task = some result ∧
        (shop.graph.execute runner' limit' state').1.results.get? task = some result' ∧
        result'.output = result.output := by
  have hgraph := hdeclared.wellFormed hbuild
  obtain ⟨hfirst, hresults⟩ :=
    crew.good_of_success hgraph hseparate limit hvalid hfresh hsited hempty hsuccess
  obtain ⟨-, result, hresult, houtput⟩ := hresults task htask
  have hmade := fun task htask => (hresults task htask).1
  generalize (crew.world (shop.graph.execute runner limit state).2.2) = world at *
  have hsited' : shop.Sited edited := by
    by_cases hsame : edited = world.tree
    · exact hsame ▸ hsited.drift hfirst.drift
    · exact hedited hsame
  obtain ⟨hgood, -, hended⟩ := crew'.succeeds_of_prepared hgraph
    (plan_unaffected hgraph hseparate hsited' world.tree)
    (hfirst.fresh_edited hsited.tidy hgraph hmade hsited'.tidy huntouched)
    (hfirst.prepared hmade huntouched htask) limit' hvalid' hfresh' hgo
  obtain ⟨product, invoked, hstatus, hstage, result', hresult', houtput'⟩ := hended task htask
  obtain ⟨-, hdelivered, hmine⟩ := hgood.of_ended ⟨htask, hunaffected⟩ hstage
  have hspares := (huntouched task htask).1
  have hstart := hspares.made_iff.2 (hmade task htask)
  obtain ⟨rfl, hupToDate⟩ := hmine hstart
  rw [hupToDate, if_pos rfl] at hstatus
  refine ⟨hstatus, ?_, result, result', hresult, hresult', ?_⟩
  · rintro (⟨inputs, fingerprint, hother⟩ | ⟨outcome, hother⟩)
    · cases hstage.symm.trans hother
    · cases hstage.symm.trans hother
  · have hsame := hgood.origin task ⟨htask, hunaffected⟩ hstart
    rw [houtput', hdelivered, houtput, outputs, hsame, hspares.record, ← outputs]

/-! ### A small workshop -/

/-- A workshop for three tasks, each with one source. -/
def small : Workshop Unit where
  graph := .small
  place := {
    layout := { projectRoot := ⟨"."⟩, buildRoot := ⟨"build"⟩, cacheRoot := ⟨"cache"⟩ }
    cache := { dir := ⟨"cache"⟩ }
    system := .idle }
  configuration _ := .empty
  sources task := [⟨task.text ++ ".txt"⟩]
  deliver _ paths := .files paths
  home task := ["build", "tasks", task.outputDir]
  folder := ["cache"]

/-- A tree for the three tasks: their directories, that of the cache, and the sources. -/
def smallTree : FileTree where
  entries := [(["build"], .directory), (["build", "tasks"], .directory),
    (["build", "tasks", "lib"], .directory), (["build", "tasks", "app"], .directory),
    (["build", "tasks", "docs"], .directory), (["cache"], .directory),
    (["lib.txt"], .file "lib".toUTF8), (["app.txt"], .file "app".toUTF8),
    (["docs.txt"], .file "docs".toUTF8)]
  here := []

theorem separate_small : small.Separate where
  homes := by decide +kernel
  records a _ b _ := by simp [Apart, small, record, temporary]
  distinct := by
    have hnodup : (small.graph.names.map fun task => Cache.recordName task.text).Nodup := by
      decide +kernel
    exact fun a ha b hb heq => List.inj_on_of_nodup_map hnodup ha hb heq

theorem mem_names_small (h : task ∈ small.graph.names) :
    task = ⟨"lib"⟩ ∨ task = ⟨"app"⟩ ∨ task = ⟨"docs"⟩ := by
  simpa using (show task ∈ [⟨"lib"⟩, ⟨"app"⟩, ⟨"docs"⟩] from h)

theorem apart_small : ∀ task ∈ small.graph.names,
    Apart [task.text ++ ".txt"] small.folder ∧
      ∀ other ∈ small.graph.names, Apart [task.text ++ ".txt"] (small.home other) := by
  decide +kernel

theorem straight_small : ∀ task ∈ small.graph.names,
    Straight [] ⟨task.text ++ ".txt"⟩ [task.text ++ ".txt"] := by
  decide +kernel

theorem plain_smallTree : small.Plain smallTree where
  tidy := tidy_of_entries rfl (by decide) (by simp [smallTree, entry?, find?])
  way := by
    have hways : Straight [] small.place.cache.dir small.folder ∧
        ∀ task ∈ small.graph.names,
          Straight [] (small.place.ownDir task) (small.home task) := by decide +kernel
    rintro path location (⟨rfl, rfl⟩ | ⟨task, htask, rfl, rfl⟩)
    · exact ⟨hways.1, rfl⟩
    · refine ⟨hways.2 task htask, ?_⟩
      rcases mem_names_small htask with rfl | rfl | rfl <;> rfl
  source := by
    intro task htask path hpath
    obtain rfl := List.mem_singleton.1 hpath
    refine ⟨[task.text ++ ".txt"], task.text.toUTF8, straight_small task htask, ?_,
      apart_small task htask⟩
    rcases mem_names_small htask with rfl | rfl | rfl <;> rfl

theorem prepared_small (h : small.Plain tree) : small.Prepared tree :=
  h.prepared fun task _ => Cache.isUsable_temporaryPath task.text (by decide) (by decide)

/-- The crew of the three tasks, for builds that start in a tree with a plain layout. -/
def smallCrew {tree : FileTree} (h : small.Plain tree)
    (hclear : ∀ task ∈ small.graph.names,
      tree.Clear (small.record task) ∧ tree.Clear (small.temporary task)) :
    small.Crew (small.solo (small.work small.withFile)) :=
  separateCrew (small.work small.withFile) rfl separate_small (h.sited separate_small)
    (prepared_small h) hclear
    fun _ _ results _ htidy henters => behaves_withFile results (fun _ => rfl) htidy henters

theorem world_smallCrew (h : small.Plain tree) (hclear : ∀ task ∈ small.graph.names,
      tree.Clear (small.record task) ∧ tree.Clear (small.temporary task)) (state : Solo) :
    (smallCrew h hclear).world state = state.world :=
  rfl

/-- A first build. -/
def smallFirst : Report × List Event × Solo :=
  small.graph.execute (small.solo (small.work small.withFile)) 2
    { session := { tree := smallTree, now := ⟨0⟩ } }

/-- The tree when the source of one task was edited after the first build. -/
def smallEdited : FileTree :=
  smallFirst.2.2.world.tree.insert ["lib.txt"] (.file "changed".toUTF8)

/-- The same build again. -/
def smallSecond : Report × List Event × Solo :=
  small.graph.execute (small.solo (small.work small.withFile)) 1
    { session := { tree := smallEdited, now := ⟨0⟩ } }

theorem empty_smallTree (task : TaskName) : smallTree.entry? (small.record task) = none ∧
    smallTree.entry? (small.temporary task) = none := by
  simp [smallTree, entry?, find?, record, temporary, small]

theorem clear_smallTree (task : TaskName) (_ : task ∈ small.graph.names) :
    smallTree.Clear (small.record task) ∧ smallTree.Clear (small.temporary task) :=
  ⟨by simp [Clear, (empty_smallTree task).1],
    by simp [Clear, (empty_smallTree task).2]⟩

theorem wellFormed_small : small.graph.WellFormed :=
  GraphBuilder.declared_small.wellFormed GraphBuilder.build_small

theorem cancelled_small (limit : Nat) (state : Solo) :
    (small.graph.execute (small.solo (small.work small.withFile)) limit state).1.cancelled =
      false :=
  Schedule.Runner.cancelled_eq_false (fun _ => rfl) wellFormed_small limit state

theorem success_smallFirst :
    small.Good smallTree (fun _ => False) smallFirst.2.2.world ∧ smallFirst.1.isSuccess = true := by
  have hvalid : (smallCrew plain_smallTree clear_smallTree).Valid
      { session := { tree := smallTree, now := ⟨0⟩ } } :=
    show small.Run (.fresh smallTree) (.fresh smallTree) from .refl
  obtain ⟨hgood, hsuccess, -⟩ :=
    (smallCrew plain_smallTree clear_smallTree).succeeds_of_prepared wellFormed_small
      ⟨separate_small, plain_smallTree.sited separate_small, fun _ => False.elim,
        fun _ => False.elim⟩
      (good_fresh clear_smallTree fun _ => False.elim) (prepared_small plain_smallTree) 2 hvalid rfl
      (cancelled_small 2 _)
  rw [world_smallCrew] at hgood
  rw [smallFirst]
  exact ⟨hgood, hsuccess⟩

theorem plain_smallFirst : small.Plain smallFirst.2.2.world.tree ∧
    smallFirst.2.2.world.tree.here = [] ∧
    ∀ task ∈ small.graph.names, smallFirst.2.2.world.tree.entry? [task.text ++ ".txt"] =
      some (.file task.text.toUTF8) := by
  refine ⟨plain_smallTree.drift separate_small success_smallFirst.1.drift, ?_⟩
  decide +kernel

/-- Editing one source keeps the layout plain and leaves the workshop alone. It does not affect a
task that has another source and needs no other task. -/
theorem plain_smallEdited : small.Plain smallEdited ∧
    small.Untouched smallFirst.2.2.world.tree smallEdited ∧
    small.Unaffected smallFirst.2.2.world.tree smallEdited ⟨"docs"⟩ := by
  obtain ⟨hplain, hhere, hsource⟩ := plain_smallFirst
  rw [smallEdited]
  generalize smallFirst.2.2.world.tree = tree at hplain hhere hsource ⊢
  have hlib : (⟨"lib"⟩ : TaskName) ∈ small.graph.names := by decide
  have hdocs : (⟨"docs"⟩ : TaskName) ∈ small.graph.names := by decide
  obtain ⟨hfolder, hhome⟩ := apart_small _ hlib
  obtain ⟨hplain', huntouched⟩ := hplain.edit (hsource _ hlib) hfolder hhome "changed".toUTF8
  refine ⟨hplain', huntouched, ?_⟩
  rintro needed (rfl | hneeds) path hpath
  · obtain rfl := List.mem_singleton.1 hpath
    have hstraight : Straight tree.here ⟨"docs.txt"⟩ ["docs.txt"] := by
      rw [hhere]
      exact straight_small _ hdocs
    refine hstraight.contentStream_eq rfl hplain.tidy.sound hplain'.tidy.sound (hsource _ hdocs) ?_
    rw [entry?_insert _ (by simp), if_neg (by decide)]
  · obtain ⟨first, hfirst, -⟩ := Relation.TransGen.head'_iff.1 hneeds
    cases hfirst

theorem clear_smallEdited (task : TaskName) (htask : task ∈ small.graph.names) :
    smallEdited.Clear (small.record task) ∧ smallEdited.Clear (small.temporary task) := by
  obtain ⟨hspares, htemporary⟩ := plain_smallEdited.2.1 task htask
  obtain ⟨hrecord, hother⟩ := success_smallFirst.1.clear task htask
  exact ⟨hrecord.congr hspares.record, hother.congr htemporary⟩

theorem docs_is_skipped_small :
    smallFirst.1.isSuccess = true ∧ (⟨"docs"⟩, .skipped) ∈ smallSecond.1.statuses ∧
      ¬smallSecond.2.2.world.Invoked ⟨"docs"⟩ ∧
      ∃ result result', smallFirst.1.results.get? ⟨"docs"⟩ = some result ∧
        smallSecond.1.results.get? ⟨"docs"⟩ = some result' ∧ result'.output = result.output := by
  have hvalid : (smallCrew plain_smallTree clear_smallTree).Valid
      { session := { tree := smallTree, now := ⟨0⟩ } } :=
    show small.Run (.fresh smallTree) (.fresh smallTree) from .refl
  have hvalid' : (smallCrew plain_smallEdited.1 clear_smallEdited).Valid
      { session := { tree := smallEdited, now := ⟨0⟩ } } :=
    show small.Run (.fresh smallEdited) (.fresh smallEdited) from .refl
  have hdocs : (⟨"docs"⟩ : TaskName) ∈ small.graph.names := by decide
  have hworld : (smallCrew plain_smallTree clear_smallTree).world
      (small.graph.execute (small.solo (small.work small.withFile)) 2
        { session := { tree := smallTree, now := ⟨0⟩ } }).2.2 = smallFirst.2.2.world := by
    rw [world_smallCrew, smallFirst]
  have hskipped := unaffected_tasks_are_skipped GraphBuilder.declared_small
    GraphBuilder.build_small separate_small (smallCrew plain_smallTree clear_smallTree) 2 hvalid rfl
    (plain_smallTree.sited separate_small) (fun task _ => empty_smallTree task)
    success_smallFirst.2 (smallCrew plain_smallEdited.1 clear_smallEdited) 1
    (by rw [hworld]; exact plain_smallEdited.2.1) hvalid' rfl
    (fun _ => plain_smallEdited.1.sited separate_small) (cancelled_small 1 _) hdocs
    (by rw [hworld]; exact plain_smallEdited.2.2)
  rw [world_smallCrew, ← smallFirst, ← smallSecond] at hskipped
  exact ⟨success_smallFirst.2, hskipped⟩

end Workshop

end BuildMatrix
