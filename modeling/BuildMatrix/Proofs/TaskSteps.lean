import BuildMatrix.Proofs.Workshop

/-!
# Tasks at work, step by step

A task that does one piece of work through the cache makes its directory, takes the fingerprint of
its inputs, looks for its record, and if there is none that fits does its work and keeps a record of
it. Each of these is one step, and so is every change that the work makes below the directory of the
task. Tasks that run at the same time take their steps in any order, on one tree.

If the tasks are out of each other's way, a task whose work is on record stays up to date whatever
the others do, and finds its record when it looks.
-/

namespace BuildMatrix

open FileTree

/-- **How far a task has come.** -/
inductive Stage where
  | idle
  | started (inputs : List Path)
  | opened (inputs : List Path)
  | measured (inputs : List Path) (fingerprint : Fingerprint)
  /-- The work was not found in the cache and is being done. -/
  | working (inputs : List Path) (fingerprint : Fingerprint)
  /-- The task is done; `invoked` says whether its work was. -/
  | ended (invoked : Bool) (outcome : Outcome)

def Stage.Failed (stage : Stage) : Prop :=
  ∃ invoked failure, stage = .ended invoked (.error failure)

/-- The **tree that tasks work on**, and how far each of them has come. -/
structure World where
  tree : FileTree
  stage : TaskName → Stage

namespace World

/-- The world when no task was started. -/
def fresh (tree : FileTree) : World := ⟨tree, fun _ => .idle⟩

/-- The world after a task has made a step. -/
def become (world : World) (task : TaskName) (tree : FileTree) (stage : Stage) : World where
  tree
  stage other := if other = task then stage else world.stage other

@[simp] theorem tree_become (world : World) (task : TaskName) (tree : FileTree) (stage : Stage) :
    (world.become task tree stage).tree = tree := rfl

@[simp] theorem stage_become (world : World) (task other : TaskName) (tree : FileTree)
    (stage : Stage) : (world.become task tree stage).stage other =
      if other = task then stage else world.stage other := rfl

end World

namespace Workshop

variable {ω : Type} {location : Location} {stage stage' : Stage}

/-! ### Steps -/

/-- **The steps of one task**, each with the tree and the stage before and after it. -/
inductive Act (shop : Workshop ω) (task : TaskName) (tree : FileTree) :
    Stage → FileTree → Stage → Prop
  | opened {inputs : List Path} {made : FileTree} :
      tree.createAll (shop.place.ownDir task) = (.ok (), made) →
      Act shop task tree (.started inputs) made (.opened inputs)
  | notOpened {inputs : List Path} {error : OsError} {made : FileTree} :
      tree.createAll (shop.place.ownDir task) = (.error error, made) →
      Act shop task tree (.started inputs) made (.ended false (.error (.io error.message)))
  | measured {inputs : List Path} :
      Act shop task tree (.opened inputs) tree
        (.measured inputs (Fingerprint.compute tree (shop.configuration task) inputs))
  | reused {inputs : List Path} {fingerprint : Fingerprint} {outputs : List Path} :
      shop.place.cache.hit? tree task.text fingerprint = some outputs →
      Act shop task tree (.measured inputs fingerprint) tree
        (.ended false (.ok { output := shop.deliver task outputs, upToDate := true }))
  | invoked {inputs : List Path} {fingerprint : Fingerprint} :
      shop.place.cache.hit? tree task.text fingerprint = none →
      Act shop task tree (.measured inputs fingerprint) tree (.working inputs fingerprint)
  /-- The work changes something below the directory of the task. -/
  | wrote {inputs : List Path} {fingerprint : Fingerprint} {next : FileTree} :
      next.Tidy → next.here = tree.here →
      (∀ location, ¬(shop.home task <+: location ∧ location ≠ shop.home task) →
        next.entry? location = tree.entry? location) →
      Act shop task tree (.working inputs fingerprint) next (.working inputs fingerprint)
  /-- The work is done, and a record of it is kept. -/
  | finished {inputs : List Path} {fingerprint : Fingerprint} {outputs : List Path}
      {createdAt : Timestamp} {stored : FileTree} :
      (∀ path ∈ outputs ++ (shop.deliver task outputs).paths, shop.Lies tree task path) →
      (Timestamp.parse? createdAt.text).isSome →
      shop.place.cache.store tree
        { identity := task.text, fingerprint, outputs, createdAt } = (.ok (), stored) →
      Act shop task tree (.working inputs fingerprint) stored
        (.ended true (.ok { output := shop.deliver task outputs, upToDate := false }))
  | notStored {inputs : List Path} {fingerprint : Fingerprint} {outputs : List Path}
      {createdAt : Timestamp} {error : CacheError} {stored : FileTree} :
      shop.place.cache.store tree
        { identity := task.text, fingerprint, outputs, createdAt } = (.error error, stored) →
      Act shop task tree (.working inputs fingerprint) stored
        (.ended true (.error (.cache error)))

/-- **A step of some task**, while all others stay where they are. -/
def Step (shop : Workshop ω) (world next : World) : Prop :=
  ∃ task tree stage, shop.Act task world.tree (world.stage task) tree stage ∧
    next = world.become task tree stage

/-! ### What a step leaves alone -/

/-- The locations that a step of a task may change. -/
def Reaches (shop : Workshop ω) (task : TaskName) (location : Location) : Prop :=
  location <+: shop.home task ∨ location <+: shop.folder ∨ shop.home task <+: location ∨
    location = shop.record task ∨ location = shop.temporary task

/-- A change of a tree **within the reach of a task**. -/
structure Frame (shop : Workshop ω) (task : TaskName) (tree next : FileTree) : Prop where
  drift : shop.Drift tree next
  same : ∀ location, ¬shop.Reaches task location → next.entry? location = tree.entry? location

variable {shop : Workshop ω} {start tree next : FileTree} {task other : TaskName}

namespace Separate

theorem not_reaches_below (h : shop.Separate) (htask : task ∈ shop.graph.names)
    (hother : other ∈ shop.graph.names) (hne : other ≠ task)
    (hbelow : shop.home other <+: location) :
    ¬shop.Reaches task location := by
  rintro (hhome | hfolder | habove | rfl | rfl)
  · exact (h.homes other hother task htask hne).1 (hbelow.trans hhome)
  · exact (h.records other hother other hother).1.1
      ((hbelow.trans hfolder).trans (List.prefix_append ..))
  · exact h.not_below hother htask hne hbelow habove
  · exact (h.records other hother task htask).1.1 hbelow
  · exact (h.records other hother task htask).2.1 hbelow

/-- No step of another task reaches the files of a task in the cache. -/
theorem not_reaches_slot (h : shop.Separate) (htask : task ∈ shop.graph.names)
    (hother : other ∈ shop.graph.names) (hne : other ≠ task) {location : Location}
    (hslot : location = shop.record other ∨ location = shop.temporary other) :
    ¬shop.Reaches task location := by
  have happart : Apart (shop.home task) location := by
    rcases hslot with rfl | rfl
    · exact (h.records task htask other hother).1
    · exact (h.records task htask other hother).2
  obtain ⟨hrecord, hcross, hcross', htemporary⟩ := h.record_ne hother htask hne
  rintro (hhome | hfolder | habove | heq | heq)
  · exact happart.2 hhome
  · rcases hslot with rfl | rfl
    · exact (shop.slot_not_prefix other).1 hfolder
    · exact (shop.slot_not_prefix other).2 hfolder
  · exact happart.1 habove
  · rcases hslot with rfl | rfl
    · exact hrecord heq
    · exact hcross' heq
  · rcases hslot with rfl | rfl
    · exact hcross heq
    · exact htemporary heq

end Separate

/-- **A step of another task spares a task.** -/
theorem Frame.spares (h : shop.Frame task tree next) (hseparate : shop.Separate)
    (hsited : shop.Sited start) (hdrift : shop.Drift start tree)
    (htask : task ∈ shop.graph.names) (hother : other ∈ shop.graph.names) (hne : other ≠ task) :
    shop.Spares other tree next where
  here := (h.drift.tidy (hdrift.tidy hsited.tidy).1).2
  below _ hbelow := h.same _ (hseparate.not_reaches_below htask hother hne hbelow)
  record := h.same _ (hseparate.not_reaches_slot htask hother hne (.inl rfl))
  home henters := hsited.enters hdrift (makes_home hother) henters h.drift
  folder henters := hsited.enters hdrift shop.makes_folder henters h.drift

theorem Sited.frame_createAll (task : TaskName) (hsited : shop.Sited start)
    (hdrift : shop.Drift start tree) {path : Path} (hmakes : shop.Makes path location)
    (hlocation : location = shop.home task ∨ location = shop.folder) :
    shop.Frame task tree (tree.createAll path).2 where
  drift := .single (.make hmakes)
  same found hfound := by
    rcases hsited.entry?_createAll hdrift hmakes found with hsame | hway
    · exact hsame
    · rcases hlocation with rfl | rfl
      · exact absurd (.inl hway) hfound
      · exact absurd (.inr (.inl hway)) hfound

theorem Frame.trans {later : FileTree} (h : shop.Frame task tree next)
    (h' : shop.Frame task next later) : shop.Frame task tree later where
  drift := Relation.ReflTransGen.trans h.drift h'.drift
  same location hlocation := (h'.same location hlocation).trans (h.same location hlocation)

/-- **Keeping a record** where the directory of the cache is: only the files of the task change. -/
theorem Sited.kept (hsited : shop.Sited start) (hdrift : shop.Drift start tree)
    (htask : task ∈ shop.graph.names) (henters : tree.Enters shop.place.cache.dir shop.folder)
    (hrecord : tree.Clear (shop.record task)) (htemporary : tree.Clear (shop.temporary task))
    (work : WorkRecord) (hidentity : work.identity = task.text)
    (husable : IsUsable (shop.place.cache.temporaryPath task.text)) :
    ∃ stored, shop.place.cache.store tree work = (.ok (), stored) ∧
      shop.Frame task tree stored ∧
      ∀ location, stored.entry? location =
        if location = shop.record task then some (.file work.text.toUTF8)
        else if location = shop.temporary task then none else tree.entry? location := by
  have htidy := (hdrift.tidy hsited.tidy).1
  have hdirectory := htidy.sound.entry?_of_enters henters
  rw [record, ← hidentity] at hrecord
  rw [temporary, ← hidentity] at htemporary
  have hentry : ∀ location, entry? (Cache.kept tree shop.folder work) location =
      if location = shop.record task then some (.file work.text.toUTF8)
      else if location = shop.temporary task then none else tree.entry? location := by
    intro location
    rw [Cache.entry?_kept htidy hdirectory htemporary hrecord, hidentity]
    rfl
  refine ⟨_, Cache.store_eq htidy henters (hidentity ▸ husable) htemporary hrecord,
    ⟨.single (.change ?_ rfl fun location hprivate => ?_), fun location hreach => ?_⟩, hentry⟩
  · exact Cache.tidy_kept htidy hdirectory htemporary hrecord
  · rw [hentry, if_neg, if_neg]
    · exact fun heq => hprivate (.inr ⟨task, htask, .inr heq⟩)
    · exact fun heq => hprivate (.inr ⟨task, htask, .inl heq⟩)
  · rw [hentry, if_neg, if_neg]
    · exact fun heq => hreach (.inr (.inr (.inr (.inr heq))))
    · exact fun heq => hreach (.inr (.inr (.inr (.inl heq))))

/-- **A record that could be kept stands in its place**, and only its task reached for anything. -/
theorem Sited.stored (hsited : shop.Sited start) (hseparate : shop.Separate)
    (hdrift : shop.Drift start tree) (htask : task ∈ shop.graph.names)
    (hrecord : tree.Clear (shop.record task)) (htemporary : tree.Clear (shop.temporary task))
    {work : WorkRecord} (hidentity : work.identity = task.text)
    (hstore : shop.place.cache.store tree work = (.ok (), next)) :
    IsUsable (shop.place.cache.temporaryPath task.text) ∧
      next.Enters shop.place.cache.dir shop.folder ∧ shop.Frame task tree next ∧
      next.entry? (shop.record task) = some (.file work.text.toUTF8) ∧
      next.entry? (shop.temporary task) = none ∧
      ∀ location, shop.home task <+: location →
        next.entry? location = tree.entry? location := by
  obtain ⟨husable, made, found, hcreate, hfound, hstored⟩ :=
    Cache.exists_of_store_eq_ok (hdrift.tidy hsited.tidy).1 hstore
  rw [hidentity] at husable
  have hframe := hsited.frame_createAll task hdrift shop.makes_folder (.inr rfl)
  have hway := hsited.entry?_createAll hdrift shop.makes_folder
  rw [hcreate] at hframe hway
  have hmade : shop.Drift start made := Relation.ReflTransGen.trans hdrift hframe.drift
  have henters := hsited.enters hmade shop.makes_folder hfound .refl
  obtain ⟨stored, hkeep, hkept, hentry⟩ := hsited.kept hmade htask henters
    (hrecord.congr ((hway _).resolve_right (shop.slot_not_prefix task).1))
    (htemporary.congr ((hway _).resolve_right (shop.slot_not_prefix task).2)) work hidentity husable
  obtain rfl : stored = next := (Prod.mk.inj (hkeep.symm.trans hstored)).2
  have happart := hseparate.records task htask task htask
  refine ⟨husable, hsited.enters hmade shop.makes_folder henters hkept.drift, hframe.trans hkept,
    ?_, ?_, fun location hbelow => ?_⟩
  · rw [hentry, if_pos rfl]
  · rw [hentry, if_neg (by simp [record, temporary]), if_pos rfl]
  · rw [hentry, if_neg, if_neg]
    · refine (hway location).resolve_right fun hfolder => happart.1.1 ?_
      exact (hbelow.trans hfolder).trans (List.prefix_append ..)
    · exact fun heq => happart.2.1 (heq ▸ hbelow)
    · exact fun heq => happart.1.1 (heq ▸ hbelow)

/-- **What a step leaves alone**, unless it is a failure; the files of the task in the cache stay
files. -/
theorem Act.frame (h : shop.Act task tree stage next stage') (hok : ¬stage'.Failed)
    (hsited : shop.Sited start) (hseparate : shop.Separate) (hdrift : shop.Drift start tree)
    (htask : task ∈ shop.graph.names) (hrecord : tree.Clear (shop.record task))
    (htemporary : tree.Clear (shop.temporary task)) :
    shop.Frame task tree next ∧ next.Clear (shop.record task) ∧
      next.Clear (shop.temporary task) := by
  have hstay : shop.Frame task tree tree := ⟨.refl, fun _ _ => rfl⟩
  have happart := hseparate.records task htask task htask
  cases h with
  | @opened inputs made hcreate =>
    have hframe := hsited.frame_createAll task hdrift (makes_home htask) (.inl rfl)
    have hentry := hsited.entry?_createAll hdrift (makes_home htask)
    rw [hcreate] at hframe hentry
    exact ⟨hframe, hrecord.congr ((hentry _).resolve_right happart.1.2),
      htemporary.congr ((hentry _).resolve_right happart.2.2)⟩
  | notOpened hcreate => exact absurd ⟨_, _, rfl⟩ hok
  | measured => exact ⟨hstay, hrecord, htemporary⟩
  | reused hhit => exact ⟨hstay, hrecord, htemporary⟩
  | invoked hhit => exact ⟨hstay, hrecord, htemporary⟩
  | wrote htidy hhere hentry =>
    refine ⟨⟨.single (.change htidy hhere fun location hprivate => ?_),
      fun location hreach => ?_⟩, hrecord.congr (hentry _ ?_), htemporary.congr (hentry _ ?_)⟩
    · exact hentry location fun hbelow => hprivate (.inl ⟨task, htask, hbelow⟩)
    · exact hentry location fun hbelow => hreach (.inr (.inr (.inl hbelow.1)))
    · exact fun hbelow => happart.1.1 hbelow.1
    · exact fun hbelow => happart.2.1 hbelow.1
  | finished hlies htime hstore =>
    obtain ⟨-, -, hframe, hentry, hnone, -⟩ :=
      hsited.stored hseparate hdrift htask hrecord htemporary rfl hstore
    exact ⟨hframe, by simp [Clear, hentry], by simp [Clear, hnone]⟩
  | notStored hstore => exact absurd ⟨_, _, rfl⟩ hok

/-! ### The invariant -/

/-- The record of a task is there. -/
def Made (shop : Workshop ω) (tree : FileTree) (task : TaskName) : Prop :=
  tree.entry? (shop.record task) ≠ none

/-- Everything that a task depends on is on record, and these are the inputs of the task. -/
def Ready (shop : Workshop ω) (tree : FileTree) (task : TaskName) (inputs : List Path) : Prop :=
  inputs = shop.inputs tree task ∧ ∀ d ∈ shop.graph.dependenciesOf task, shop.Made tree d

/-- **What is known of a task at a stage**; `start` is the tree in which the build started. -/
def Fits (shop : Workshop ω) (start tree : FileTree) (task : TaskName) : Stage → Prop
  | .idle => True
  | .started inputs => shop.Ready tree task inputs
  | .opened inputs =>
    shop.Ready tree task inputs ∧ tree.Enters (shop.place.ownDir task) (shop.home task)
  | .measured inputs fingerprint =>
    shop.Ready tree task inputs ∧ tree.Enters (shop.place.ownDir task) (shop.home task) ∧
      fingerprint = Fingerprint.compute tree (shop.configuration task) inputs
  | .working inputs fingerprint =>
    shop.Ready tree task inputs ∧ tree.Enters (shop.place.ownDir task) (shop.home task) ∧
      fingerprint = Fingerprint.compute tree (shop.configuration task) inputs ∧
      ¬shop.Made tree task
  | .ended invoked (.ok product) =>
    shop.Made tree task ∧ product.output = shop.deliver task (shop.outputs tree task) ∧
      (shop.Made start task → invoked = false ∧ product.upToDate = true)
  | .ended _ (.error _) => False

/-- The tasks of a build that are **followed**: everything they depend on is followed too. -/
structure Plan (shop : Workshop ω) (start : FileTree) (followed : TaskName → Prop) : Prop where
  separate : shop.Separate
  sited : shop.Sited start
  mem : ∀ task, followed task → task ∈ shop.graph.names
  closed : ∀ task, followed task → ∀ d ∈ shop.graph.dependenciesOf task, followed d

/-- **The invariant of a build**: no task has failed, and the tasks that are followed are up to date
as soon as they are on record. -/
structure Good (shop : Workshop ω) (start : FileTree) (followed : TaskName → Prop)
    (world : World) : Prop where
  drift : shop.Drift start world.tree
  mem : ∀ task, world.stage task ≠ .idle → task ∈ shop.graph.names
  clear : ∀ task ∈ shop.graph.names,
    world.tree.Clear (shop.record task) ∧ world.tree.Clear (shop.temporary task)
  sound : ∀ task, ¬(world.stage task).Failed
  upToDate : ∀ task, followed task → shop.Made world.tree task →
    shop.UpToDate world.tree task ∧
      ∀ d ∈ shop.graph.dependenciesOf task, shop.Made world.tree d
  origin : ∀ task, followed task → shop.Made start task →
    world.tree.entry? (shop.record task) = start.entry? (shop.record task)
  fits : ∀ task, followed task → shop.Fits start world.tree task (world.stage task)

section Invariant

variable {followed : TaskName → Prop} {world : World} {fingerprint : Fingerprint}
  {outputs : List Path} {after : World}

theorem Sited.made_of_hit (hsited : shop.Sited start) (hdrift : shop.Drift start tree)
    (h : shop.place.cache.hit? tree task.text fingerprint = some outputs) :
    shop.Made tree task := by
  intro hnone
  rw [Cache.hit?_eq_none (hdrift.tidy hsited.tidy).1.sound ?_] at h
  · cases h
  · intro folder henters
    rw [(hsited.enters hdrift shop.makes_folder henters .refl).unique henters]
    exact hnone

theorem Spares.made_iff (h : shop.Spares task tree next) :
    shop.Made next task ↔ shop.Made tree task := by
  rw [Made, Made, h.record]

theorem spares_refl (shop : Workshop ω) (task : TaskName) (tree : FileTree) :
    shop.Spares task tree tree where
  here := rfl
  below _ _ := rfl
  record := rfl
  home := id
  folder := id

theorem Sited.enters_home (hsited : shop.Sited start) (hdrift : shop.Drift start next)
    (htask : task ∈ shop.graph.names) {before : FileTree} (hbefore : before.Sound)
    (hcreate : before.createAll (shop.place.ownDir task) = (.ok (), next)) :
    next.Enters (shop.place.ownDir task) (shop.home task) := by
  obtain ⟨found, hfound⟩ := hbefore.enters_createAll hcreate fun husable =>
    .inr (shop.place.withoutSlashes_ownDir task ▸ husable)
  exact hsited.enters hdrift (makes_home htask) hfound .refl

namespace Good

variable (h : shop.Good start followed world) (hplan : shop.Plan start followed)

include h hplan

section Spared

variable (hdrift : shop.Drift world.tree next)
  (hspares : ∀ other, followed other → shop.Made world.tree other →
    shop.Spares other world.tree next) (htask : followed task)

include hdrift hspares htask

theorem reads_same
    (hmade : ∀ d ∈ shop.graph.dependenciesOf task, shop.Made world.tree d) :
    shop.inputs next task = shop.inputs world.tree task ∧
      ∀ path ∈ shop.inputs world.tree task,
        Fingerprint.contentStream next path = Fingerprint.contentStream world.tree path := by
  have htidy := (h.drift.tidy hplan.sited.tidy).1
  have hclosed := hplan.closed task htask
  refine inputs_same htidy (hdrift.tidy htidy).1
    (fun d hd => (h.upToDate d (hclosed d hd) (hmade d hd)).1)
    (fun d hd => hspares d (hclosed d hd) (hmade d hd)) fun path hpath => ?_
  rw [hplan.sited.contentStream_eq (Relation.ReflTransGen.trans h.drift hdrift)
    (hplan.mem task htask) hpath,
    hplan.sited.contentStream_eq h.drift (hplan.mem task htask) hpath]

/-- What is known of a task **stays** while it and what is on record are spared. -/
theorem fits_keep
    (hrecord : next.entry? (shop.record task) = world.tree.entry? (shop.record task)) :
    shop.Fits start next task (world.stage task) := by
  have hmade : shop.Made next task ↔ shop.Made world.tree task := by rw [Made, Made, hrecord]
  have houtputs : shop.outputs next task = shop.outputs world.tree task := by
    rw [outputs, outputs, hrecord]
  have henters : world.tree.Enters (shop.place.ownDir task) (shop.home task) →
      next.Enters (shop.place.ownDir task) (shop.home task) := fun henters =>
    hplan.sited.enters h.drift (makes_home (hplan.mem task htask)) henters hdrift
  have hready : ∀ {inputs}, shop.Ready world.tree task inputs →
      shop.Ready next task inputs ∧
        Fingerprint.compute next (shop.configuration task) inputs =
          Fingerprint.compute world.tree (shop.configuration task) inputs := by
    rintro inputs ⟨rfl, hdeps⟩
    obtain ⟨hinputs, hreads⟩ := h.reads_same hplan hdrift hspares htask hdeps
    refine ⟨⟨hinputs.symm, fun d hd => ?_⟩, Fingerprint.compute_eq _ hreads⟩
    exact (hspares d (hplan.closed task htask d hd) (hdeps d hd)).made_iff.2 (hdeps d hd)
  have hfits := h.fits task htask
  cases hstage : world.stage task with
  | idle => trivial
  | started inputs =>
    rw [hstage] at hfits
    exact (hready hfits).1
  | opened inputs =>
    rw [hstage] at hfits
    exact ⟨(hready hfits.1).1, henters hfits.2⟩
  | measured inputs fingerprint =>
    rw [hstage] at hfits
    obtain ⟨hfirst, hhome, hfingerprint⟩ := hfits
    exact ⟨(hready hfirst).1, henters hhome, hfingerprint.trans (hready hfirst).2.symm⟩
  | working inputs fingerprint =>
    rw [hstage] at hfits
    obtain ⟨hfirst, hhome, hfingerprint, hnew⟩ := hfits
    exact ⟨(hready hfirst).1, henters hhome, hfingerprint.trans (hready hfirst).2.symm,
      fun hmade' => hnew (hmade.1 hmade')⟩
  | ended invoked outcome =>
    rw [hstage] at hfits
    cases outcome with
    | error failure => exact hfits
    | ok product => exact ⟨hmade.2 hfits.1, houtputs ▸ hfits.2.1, hfits.2.2⟩

end Spared

/-- **What has to be known of a step** for it to keep the invariant. -/
theorem advance (htask : task ∈ shop.graph.names) (hstage : ¬stage.Failed)
    (hframe : shop.Frame task world.tree next)
    (hclear : next.Clear (shop.record task) ∧ next.Clear (shop.temporary task))
    (hspared : followed task → shop.Made world.tree task → shop.Spares task world.tree next)
    (hnew : followed task → ¬shop.Made world.tree task → shop.Made next task →
      shop.UpToDate next task ∧ ∀ d ∈ shop.graph.dependenciesOf task, shop.Made next d)
    (hfits : followed task → shop.Fits start next task stage) :
    shop.Good start followed (world.become task next stage) := by
  have htidy := (h.drift.tidy hplan.sited.tidy).1
  have hothers := fun other (hother : other ∈ shop.graph.names) (hne : other ≠ task) =>
    hframe.spares hplan.separate hplan.sited h.drift htask hother hne
  have hspares : ∀ other, followed other → shop.Made world.tree other →
      shop.Spares other world.tree next := by
    intro other hother hmade
    by_cases heq : other = task
    · subst heq
      exact hspared hother hmade
    · exact hothers other (hplan.mem other hother) heq
  refine ⟨Relation.ReflTransGen.trans h.drift hframe.drift, ?mem, ?clear, ?sound, ?upToDate,
    ?origin, ?fits⟩
  case mem =>
    intro other hother
    by_cases heq : other = task
    · subst heq
      exact htask
    · rw [World.stage_become, if_neg heq] at hother
      exact h.mem other hother
  case clear =>
    intro other hother
    by_cases heq : other = task
    · subst heq
      exact hclear
    · have hreach := fun location =>
        @Separate.not_reaches_slot _ _ _ _ hplan.separate htask hother heq location
      exact ⟨(h.clear other hother).1.congr (hframe.same _ (hreach _ (.inl rfl))),
        (h.clear other hother).2.congr (hframe.same _ (hreach _ (.inr rfl)))⟩
  case sound =>
    intro other
    rw [World.stage_become]
    split
    · exact hstage
    · exact h.sound other
  case upToDate =>
    intro other hother hmade
    by_cases hbefore : shop.Made world.tree other
    · obtain ⟨hup, hdeps⟩ := h.upToDate other hother hbefore
      obtain ⟨hinputs, hreads⟩ := h.reads_same hplan hframe.drift hspares hother hdeps
      refine ⟨hup.spare (hspares other hother hbefore) (hframe.drift.tidy htidy).1 hinputs hreads,
        fun d hd => ?_⟩
      exact (hspares d (hplan.closed other hother d hd) (hdeps d hd)).made_iff.2 (hdeps d hd)
    · by_cases heq : other = task
      · subst heq
        exact hnew hother hbefore hmade
      · exact absurd ((hothers other (hplan.mem other hother) heq).made_iff.1 hmade) hbefore
  case origin =>
    intro other hother hmade
    have hsame := h.origin other hother hmade
    have hbefore : shop.Made world.tree other := by rwa [Made, hsame]
    exact (hspares other hother hbefore).record.trans hsame
  case fits =>
    intro other hother
    rw [World.stage_become]
    split
    · next heq =>
        subst heq
        exact hfits hother
    · next hne =>
        exact h.fits_keep hplan hframe.drift hspares hother
          (hothers other (hplan.mem other hother) hne).record

theorem upToDate_of_finished (htask : followed task) {inputs : List Path} {createdAt : Timestamp}
    (hfits : shop.Fits start world.tree task (.working inputs fingerprint))
    (hlies : ∀ path ∈ outputs ++ (shop.deliver task outputs).paths,
      shop.Lies world.tree task path) (htime : (Timestamp.parse? createdAt.text).isSome)
    (hstore : shop.place.cache.store world.tree
      { identity := task.text, fingerprint, outputs, createdAt } = (.ok (), next)) :
    shop.UpToDate next task ∧ shop.outputs next task = outputs ∧
      ∀ d ∈ shop.graph.dependenciesOf task, shop.Made next d := by
  have hmem := hplan.mem task htask
  obtain ⟨⟨rfl, hdeps⟩, hhome, rfl, hnew⟩ := hfits
  obtain ⟨husable, hfolder, hframe, hentry, -, hbelow⟩ :=
    hplan.sited.stored hplan.separate h.drift hmem (h.clear task hmem).1 (h.clear task hmem).2 rfl
      hstore
  have hspares : ∀ other, followed other → shop.Made world.tree other →
      shop.Spares other world.tree next := by
    intro other hother hmade
    refine hframe.spares hplan.separate hplan.sited h.drift hmem (hplan.mem other hother) ?_
    rintro rfl
    exact hnew hmade
  obtain ⟨hinputs, hreads⟩ := h.reads_same hplan hframe.drift hspares htask hdeps
  have henters := hplan.sited.enters h.drift (makes_home hmem) hhome hframe.drift
  have houtputs : shop.outputs next task = outputs := outputs_eq hentry htime
  have htidy := hframe.drift.tidy (h.drift.tidy hplan.sited.tidy).1
  refine ⟨⟨henters, hfolder, husable, ⟨_, hentry, rfl, ?_, htime⟩, fun path hpath => ?_⟩, houtputs,
    fun d hd => ?_⟩
  · rw [hinputs, Fingerprint.compute_eq _ hreads]
  · rw [delivered, houtputs] at hpath
    exact (hlies path hpath).congr htidy.1 htidy.2 henters hbelow
  · exact (hspares d (hplan.closed task htask d hd) (hdeps d hd)).made_iff.2 (hdeps d hd)

/-- **Every step of a task keeps what is known of it.** -/
theorem act (htask : followed task)
    (hact : shop.Act task world.tree (world.stage task) next stage) (hok : ¬stage.Failed)
    (hframe : shop.Frame task world.tree next) :
    (shop.Made world.tree task → shop.Spares task world.tree next) ∧
      (¬shop.Made world.tree task → shop.Made next task →
        shop.UpToDate next task ∧ ∀ d ∈ shop.graph.dependenciesOf task, shop.Made next d) ∧
      shop.Fits start next task stage := by
  have hmem := hplan.mem task htask
  have htidy := (h.drift.tidy hplan.sited.tidy).1
  have hapart := hplan.separate.records task hmem task hmem
  have hfits := h.fits task htask
  -- What is known of the task so far stays known, if its record does not change.
  have hkeep : (shop.Made world.tree task → shop.Spares task world.tree next) →
      next.entry? (shop.record task) = world.tree.entry? (shop.record task) →
      (¬shop.Made world.tree task → shop.Made next task → False) ∧
        shop.Fits start next task (world.stage task) := by
    intro hspared hrecord
    refine ⟨fun hnot hmade => hnot (by rwa [Made, ← hrecord]),
      h.fits_keep hplan hframe.drift (fun other hother hmade => ?_) htask hrecord⟩
    by_cases heq : other = task
    · subst heq
      exact hspared hmade
    · exact hframe.spares hplan.separate hplan.sited h.drift hmem (hplan.mem other hother) heq
  have hstay : next = world.tree → shop.Made world.tree task →
      shop.Spares task world.tree next := by
    rintro rfl -
    exact shop.spares_refl task _
  generalize hstage : world.stage task = before at hact hfits hkeep
  cases hact with
  | @opened inputs made hcreate =>
    have hspared : shop.Made world.tree task → shop.Spares task world.tree next := by
      intro hmade
      refine hstay ?_ hmade
      have hsame := htidy.sound.createAll_of_enters (h.upToDate task htask hmade).1.home
      exact (Prod.mk.inj (hcreate.symm.trans hsame)).2
    have hentry := hplan.sited.entry?_createAll h.drift (makes_home hmem) (shop.record task)
    rw [hcreate] at hentry
    obtain ⟨hnew, hready⟩ := hkeep hspared (hentry.resolve_right hapart.1.2)
    refine ⟨hspared, fun hnot hmade => (hnew hnot hmade).elim, hready, ?_⟩
    exact hplan.sited.enters_home (Relation.ReflTransGen.trans h.drift hframe.drift) hmem
      htidy.sound hcreate
  | notOpened hcreate => exact absurd ⟨_, _, rfl⟩ hok
  | measured =>
    exact ⟨hstay rfl, fun hnot hmade => absurd hmade hnot, hfits.1, hfits.2, rfl⟩
  | reused hhit =>
    have hmade := hplan.sited.made_of_hit h.drift hhit
    obtain ⟨⟨rfl, -⟩, -, rfl⟩ := hfits
    rw [(h.upToDate task htask hmade).1.hit?_eq htidy] at hhit
    exact ⟨hstay rfl, fun hnot _ => absurd hmade hnot, hmade, by rw [Option.some.inj hhit],
      fun _ => ⟨rfl, rfl⟩⟩
  | invoked hhit =>
    refine ⟨hstay rfl, fun hnot hmade => absurd hmade hnot, hfits.1, hfits.2.1, hfits.2.2, ?_⟩
    intro hmade
    obtain ⟨⟨rfl, -⟩, -, rfl⟩ := hfits
    rw [(h.upToDate task htask hmade).1.hit?_eq htidy] at hhit
    cases hhit
  | wrote _ _ hentry =>
    have hspared : shop.Made world.tree task → shop.Spares task world.tree next :=
      fun hmade => absurd hmade hfits.2.2.2
    obtain ⟨hnew, hready⟩ := hkeep hspared (hentry _ fun hbelow => hapart.1.1 hbelow.1)
    exact ⟨hspared, fun hnot hmade => (hnew hnot hmade).elim, hready⟩
  | finished hlies htime hstore =>
    obtain ⟨hup, houtputs, hdeps⟩ := h.upToDate_of_finished hplan htask hfits hlies htime hstore
    have hnew := hfits.2.2.2
    refine ⟨fun hmade => absurd hmade hnew, fun _ _ => ⟨hup, hdeps⟩, ?_, by rw [houtputs], ?_⟩
    · obtain ⟨record, hentry, -⟩ := hup.record
      rw [Made, hentry]
      simp
    · intro hmade
      refine absurd ?_ hnew
      rwa [Made, h.origin task htask hmade]
  | notStored hstore => exact absurd ⟨_, _, rfl⟩ hok

/-- **Every step keeps the invariant, or is a failure.** -/
theorem step (hstep : shop.Step world after) :
    shop.Good start followed after ∨ ∃ task, (after.stage task).Failed := by
  obtain ⟨task, next, stage, hact, rfl⟩ := hstep
  by_cases hok : stage.Failed
  · refine .inr ⟨task, ?_⟩
    rwa [World.stage_become, if_pos rfl]
  have hmem : task ∈ shop.graph.names := by
    refine h.mem task fun hidle => ?_
    rw [hidle] at hact
    cases hact
  obtain ⟨hrecord, htemporary⟩ := h.clear task hmem
  obtain ⟨hframe, hclear⟩ :=
    hact.frame hok hplan.sited hplan.separate h.drift hmem hrecord htemporary
  refine .inl (h.advance hplan hmem hok hframe hclear (fun htask => ?_) (fun htask => ?_)
    fun htask => ?_)
  · exact (h.act hplan htask hact hok hframe).1
  · exact (h.act hplan htask hact hok hframe).2.1
  · exact (h.act hplan htask hact hok hframe).2.2

end Good

/-! ### Without failures -/

/-- **All directories are there**, and the paths of the files of the cache are not too long. -/
structure Prepared (shop : Workshop ω) (tree : FileTree) : Prop where
  home : ∀ task ∈ shop.graph.names, tree.Enters (shop.place.ownDir task) (shop.home task)
  folder : tree.Enters shop.place.cache.dir shop.folder
  usable : ∀ task ∈ shop.graph.names, IsUsable (shop.place.cache.temporaryPath task.text)

theorem Prepared.drift (h : shop.Prepared start) (hsited : shop.Sited start)
    (hdrift : shop.Drift start tree) : shop.Prepared tree where
  home task htask := hsited.enters .refl (makes_home htask) (h.home task htask) hdrift
  folder := hsited.enters .refl shop.makes_folder h.folder hdrift
  usable := h.usable

theorem Prepared.not_failed (h : shop.Prepared tree) (hsited : shop.Sited start)
    (hdrift : shop.Drift start tree) (htask : task ∈ shop.graph.names)
    (hrecord : tree.Clear (shop.record task)) (htemporary : tree.Clear (shop.temporary task))
    (hact : shop.Act task tree stage next stage') : ¬stage'.Failed := by
  rintro ⟨invoked, failure, rfl⟩
  cases hact with
  | notOpened hcreate =>
    have hsame := (hdrift.tidy hsited.tidy).1.sound.createAll_of_enters (h.home task htask)
    cases hcreate.symm.trans hsame
  | @notStored inputs fingerprint outputs createdAt error _ hstore =>
    obtain ⟨stored, hkeep, -⟩ := hsited.kept hdrift htask h.folder hrecord htemporary
      { identity := task.text, fingerprint, outputs, createdAt } rfl (h.usable task htask)
    cases hstore.symm.trans hkeep

theorem Good.step_of_prepared (h : shop.Good start followed world)
    (hplan : shop.Plan start followed) (hprepared : shop.Prepared start)
    (hstep : shop.Step world after) : shop.Good start followed after := by
  rcases h.step hplan hstep with hgood | ⟨task, hfailed⟩
  · exact hgood
  obtain ⟨other, next, stage, hact, rfl⟩ := hstep
  rw [World.stage_become] at hfailed
  split at hfailed
  · have hmem : other ∈ shop.graph.names := by
      refine h.mem other fun hidle => ?_
      rw [hidle] at hact
      cases hact
    have hnot := (hprepared.drift hplan.sited h.drift).not_failed hplan.sited h.drift hmem
      (h.clear other hmem).1 (h.clear other hmem).2 hact
    exact absurd hfailed hnot
  · exact absurd hfailed (h.sound task)

end Invariant

end Workshop

end BuildMatrix
