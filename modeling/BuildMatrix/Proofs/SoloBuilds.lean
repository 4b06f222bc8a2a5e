import BuildMatrix.Proofs.CacheCalls
import BuildMatrix.Proofs.Crews

/-!
# One task at a time

The simplest runner does the whole work of a task when the task starts, and lets the tasks end in
the order of their starts. The work is a job that makes the directory of the task and then goes
through the cache; such a job takes the steps of a task, one after another. So the runner has a
crew, wherever all directories are there and the tasks keep to their own.
-/

namespace BuildMatrix

theorem World.become_become (world : World) (task : TaskName) (tree tree' : FileTree)
    (stage stage' : Stage) :
    (world.become task tree stage).become task tree' stage' = world.become task tree' stage' := by
  simp only [become]
  congr 1
  funext other
  split <;> rfl

theorem World.become_self (world : World) (task : TaskName) :
    world.become task world.tree (world.stage task) = world := by
  simp only [become]
  congr 1
  funext other
  split
  · next heq => rw [heq]
  · rfl

/-- A build in which each task is done when it is started: the session, and how the tasks ended. -/
structure Solo where
  session : Session
  /-- Whether the work of a task was done, and its outcome. -/
  ended : TaskTable (Bool × Outcome) := []

/-- The tree of such a build, and how far its tasks have come. -/
def Solo.world (state : Solo) : World where
  tree := state.session.tree
  stage task :=
    match state.ended.get? task with
    | some (invoked, outcome) => .ended invoked outcome
    | none => .idle

open FileTree

namespace Workshop

variable {ω : Type} {shop : Workshop ω} {task : TaskName} {tree made : FileTree}
  {outputs : List Path}

/-! ### Jobs -/

/-- Steps of one task. -/
def Acts (shop : Workshop ω) (task : TaskName) : FileTree × Stage → FileTree × Stage → Prop :=
  Relation.ReflTransGen fun before after => shop.Act task before.1 before.2 after.1 after.2

theorem Act.head {tree next : FileTree} {stage stage' : Stage} {after : FileTree × Stage}
    (h : shop.Act task tree stage next stage') (hrest : shop.Acts task (next, stage') after) :
    shop.Acts task (tree, stage) after :=
  Relation.ReflTransGen.head (b := (next, stage')) h hrest

theorem Acts.steps {world : World} {after : FileTree × Stage}
    (h : shop.Acts task (world.tree, world.stage task) after) :
    shop.Steps world (world.become task after.1 after.2) := by
  induction h with
  | refl =>
    rw [World.become_self]
    exact .refl
  | @tail middle after _ hact ih =>
    refine ih.tail ⟨task, after.1, after.2, ?_, ?_⟩
    · simpa using hact
    · rw [World.become_become]

theorem Acts.steps_started {world : World} {results : List TaskResult} {stage : Stage}
    (h : shop.Acts task
      (world.tree, .started (shop.sources task ++ TaskResult.outputPaths results)) (tree, stage)) :
    shop.Steps (shop.started world task results) (world.become task tree stage) := by
  have hstage : (shop.started world task results).stage task =
      .started (shop.sources task ++ TaskResult.outputPaths results) := if_pos rfl
  rw [← hstage] at h
  have hsteps := @Acts.steps _ shop task (shop.started world task results) _ h
  rwa [started, World.become_become] at hsteps

/-- The **job of a task**: its directory is made, and its work is done through the cache. -/
def job (shop : Workshop ω) (body : TaskName → List TaskResult → Job (List Path))
    (task : TaskName) (results : List TaskResult) : Job Output := do
  Job.createAll (shop.place.ownDir task)
  let execution ← shop.place.cached task.text (shop.configuration task)
    (shop.sources task ++ TaskResult.outputPaths results) (body task results)
  return shop.deliver task execution.outputs

/-- The work of a task **keeps to the directory of the task**: it says that it is done, succeeds,
changes nothing else, and returns what lies there. -/
def Behaves (shop : Workshop ω) (task : TaskName) (work : Job (List Path)) (session : Session) :
    Prop :=
  ∃ outputs after, work session = (.ok outputs, after) ∧ after.lines ≠ [] ∧
    after.tree.Tidy ∧ after.tree.here = session.tree.here ∧
    (∀ location, ¬(shop.home task <+: location ∧ location ≠ shop.home task) →
      after.tree.entry? location = session.tree.entry? location) ∧
    (∀ path ∈ outputs ++ (shop.deliver task outputs).paths, shop.Lies after.tree task path) ∧
    (Timestamp.parse? after.now.text).isSome

variable {body : TaskName → List TaskResult → Job (List Path)} {results : List TaskResult}
  {session : Session}

theorem job_of_opened {made : FileTree}
    (hcreate : session.tree.createAll (shop.place.ownDir task) = (.ok (), made)) :
    shop.job body task results session =
      Job.andThen (shop.place.cached task.text (shop.configuration task)
        (shop.sources task ++ TaskResult.outputPaths results) (body task results))
        (fun execution => Job.done (shop.deliver task execution.outputs))
        { session with tree := made } := by
  simp only [job, bind, Job.andThen, Job.createAll, hcreate]
  rfl

theorem perform_of_hit (henabled : shop.place.cache.enabled = true)
    (hcreate : session.tree.createAll (shop.place.ownDir task) = (.ok (), made))
    (hhit : shop.place.cache.hit? made task.text (Fingerprint.compute made
      (shop.configuration task) (shop.sources task ++ TaskResult.outputPaths results)) =
        some outputs) :
    session.perform (shop.job body task results) =
      (.ok { output := shop.deliver task outputs, upToDate := true }, [],
        { session with tree := made, lines := [], reuses := [true] }) := by
  have hjob := @job_of_opened _ shop task body results { session with lines := [], reuses := [] }
    made hcreate
  have hexecute := @Cache.execute_of_hit _ _ _ _ (body task results)
    { session with tree := made, lines := [], reuses := [] } _ henabled hhit
  rw [Job.andThen, Place.cached_eq, hexecute] at hjob
  simp only [Session.perform, hjob]
  rfl

/-- **Performing a job whose work is not found** and succeeds, and of which a record is kept. -/
theorem perform_of_miss (henabled : shop.place.cache.enabled = true)
    (hcreate : session.tree.createAll (shop.place.ownDir task) = (.ok (), made))
    (hhit : shop.place.cache.hit? made task.text (Fingerprint.compute made
      (shop.configuration task) (shop.sources task ++ TaskResult.outputPaths results)) = none)
    {after : Session}
    (hwork : body task results { session with tree := made, lines := [], reuses := [] } =
      (.ok outputs, after)) {stored : FileTree} (hstore : shop.place.cache.store after.tree
      { identity := task.text
        fingerprint := Fingerprint.compute made (shop.configuration task)
          (shop.sources task ++ TaskResult.outputPaths results)
        outputs, createdAt := after.now } = (.ok (), stored)) :
    session.perform (shop.job body task results) =
      (.ok { output := shop.deliver task outputs, upToDate := false }, after.lines,
        { after with
          tree := stored, now := ⟨after.now.nanos + 1⟩, reuses := after.reuses ++ [false] }) := by
  have hjob := @job_of_opened _ shop task body results { session with lines := [], reuses := [] }
    made hcreate
  have hexecute := @Cache.execute_of_miss _ _ _ _ (body task results)
    { session with tree := made, lines := [], reuses := [] } henabled hhit
  rw [Job.andThen, Place.cached_eq, hexecute, Job.andThen, hwork] at hjob
  simp only [Job.andThen, Job.done, Cache.remember, hstore] at hjob
  have hfresh : (!(after.reuses ++ [false]).isEmpty && (after.reuses ++ [false]).all id) =
      false := by simp
  simp only [Session.perform, hjob, Session.isUpToDate, hfresh]

/-- **A job takes the steps of its task**, one after another. -/
theorem acts_job (henabled : shop.place.cache.enabled = true)
    (hbody : ∀ made, session.tree.createAll (shop.place.ownDir task) = (.ok (), made) →
      shop.Behaves task (body task results)
        { session with tree := made, lines := [], reuses := [] }) :
    shop.Acts task
      (session.tree, .started (shop.sources task ++ TaskResult.outputPaths results))
      ((session.perform (shop.job body task results)).2.2.tree,
        .ended (!(session.perform (shop.job body task results)).2.1.isEmpty)
          (session.perform (shop.job body task results)).1) := by
  rcases hcreate : session.tree.createAll (shop.place.ownDir task) with ⟨error | ⟨⟩, made⟩
  · have hjob : shop.job body task results { session with lines := [], reuses := [] } =
        (.error (.io error.message), { session with tree := made, lines := [], reuses := [] }) := by
      simp only [job, bind, Job.andThen, Job.createAll, hcreate]
    simp only [Session.perform, hjob]
    exact Act.head (.notOpened hcreate) .refl
  · refine Act.head (.opened hcreate) (Act.head .measured ?_)
    cases hhit : shop.place.cache.hit? made task.text (Fingerprint.compute made
        (shop.configuration task) (shop.sources task ++ TaskResult.outputPaths results)) with
    | some outputs =>
      rw [perform_of_hit henabled hcreate hhit]
      exact Act.head (.reused hhit) .refl
    | none =>
      obtain ⟨outputs, after, hwork, hlines, htidy, hhere, hsame, hlies, htime⟩ :=
        hbody made hcreate
      refine Act.head (.invoked hhit) (Act.head (.wrote htidy hhere hsame) ?_)
      have hinvoked : (!after.lines.isEmpty) = true := by simpa using hlines
      rcases hstore : shop.place.cache.store after.tree
        { identity := task.text
          fingerprint := Fingerprint.compute made (shop.configuration task)
            (shop.sources task ++ TaskResult.outputPaths results)
          outputs, createdAt := after.now } with ⟨error | ⟨⟩, stored⟩
      · have hjob := @job_of_opened _ shop task body results
          { session with lines := [], reuses := [] } made hcreate
        have hexecute := @Cache.execute_of_miss _ _ _ _ (body task results)
          { session with tree := made, lines := [], reuses := [] } henabled hhit
        rw [Job.andThen, Place.cached_eq, hexecute, Job.andThen, hwork] at hjob
        simp only [Job.andThen, Cache.remember, hstore] at hjob
        simp only [Session.perform, hjob, hinvoked]
        exact Act.head (.notStored hstore) .refl
      · rw [perform_of_miss henabled hcreate hhit hwork hstore]
        simp only [hinvoked]
        exact Act.head (.finished hlies htime hstore) .refl

/-! ### Simple work -/

/-- **Simple work**: a task changes something in its directory, and returns the directory. -/
def work (shop : Workshop ω) (change : TaskName → FileTree → FileTree) (task : TaskName)
    (_ : List TaskResult) : Job (List Path) :=
  fun session =>
    (.ok [shop.place.ownDir task],
      { session with
        tree := change task session.tree
        now := ⟨0⟩
        lines := session.lines ++ [{ text := "working" }] })

/-- **Simple work keeps to the directory of its task** if its change does, and if the directory is
all that the task makes of it. -/
theorem behaves_work {change : TaskName → FileTree → FileTree} (results : List TaskResult)
    (hdeliver : ∀ paths, (shop.deliver task paths).paths = paths)
    (htidy : (change task session.tree).Tidy)
    (hhere : (change task session.tree).here = session.tree.here)
    (henters : (change task session.tree).Enters (shop.place.ownDir task) (shop.home task))
    (hsame : ∀ location, ¬(shop.home task <+: location ∧ location ≠ shop.home task) →
      entry? (change task session.tree) location = session.tree.entry? location) :
    shop.Behaves task (shop.work change task results) session := by
  have htime : (Timestamp.parse? (⟨0⟩ : Timestamp).text).isSome = true := by decide +kernel
  refine ⟨_, _, rfl, by simp, htidy, hhere, hsame, fun path hpath => ?_, htime⟩
  rw [hdeliver] at hpath
  obtain rfl : path = shop.place.ownDir task := by simpa using hpath
  exact lies_ownDir henters

/-- A tree with a file in the directory of a task, unless a directory or a link is in its way. -/
def withFile (shop : Workshop ω) (task : TaskName) (tree : FileTree) : FileTree :=
  match tree.entry? (shop.home task ++ ["out"]) with
  | some .directory => tree
  | some (.link _) => tree
  | _ => tree.insert (shop.home task ++ ["out"]) (.file task.text.toUTF8)

theorem entry?_withFile (shop : Workshop ω) (task : TaskName) (tree : FileTree)
    {location : Location} (h : location ≠ shop.home task ++ ["out"]) :
    entry? (shop.withFile task tree) location = tree.entry? location := by
  rw [withFile]
  split
  · rfl
  · rfl
  · rw [entry?_insert tree (by simp), if_neg h]

/-- A tree with one more file in the directory of a task is tidy, and the paths of directories lead
there as before. -/
theorem tidy_withFile (htidy : tree.Tidy) (hhome : tree.entry? (shop.home task) = some .directory) :
    (shop.withFile task tree).Tidy ∧ (shop.withFile task tree).here = tree.here ∧
      ∀ path location, tree.Enters path location →
        (shop.withFile task tree).Enters path location := by
  rw [withFile]
  split
  · exact ⟨htidy, rfl, fun _ _ => id⟩
  · exact ⟨htidy, rfl, fun _ _ => id⟩
  · next hdirectory hlink =>
      have hne : shop.home task ++ ["out"] ≠ [] := by simp
      have hnext : (tree.insert (shop.home task ++ ["out"]) (.file task.text.toUTF8)).Tidy :=
        htidy.insert hne (by simpa using hhome) hdirectory
      have hkeeps := Keeps.insert hne hdirectory hlink (.file task.text.toUTF8)
      exact ⟨hnext, rfl, fun _ _ => htidy.sound.enters_of_keeps hnext.sound hkeeps rfl⟩

theorem behaves_withFile (results : List TaskResult)
    (hdeliver : ∀ paths, (shop.deliver task paths).paths = paths) (htidy : session.tree.Tidy)
    (henters : session.tree.Enters (shop.place.ownDir task) (shop.home task)) :
    shop.Behaves task (shop.work shop.withFile task results) session := by
  obtain ⟨hnext, hhere, hpaths⟩ := tidy_withFile htidy (htidy.sound.entry?_of_enters henters)
  refine behaves_work results hdeliver hnext hhere (hpaths _ _ henters) fun location hlocation => ?_
  refine shop.entry?_withFile task session.tree fun heq => hlocation ?_
  rw [heq]
  exact ⟨List.prefix_append .., by simp⟩

/-! ### The runner -/

/-- The runner that does **one task at a time**, when it is started. -/
def solo (shop : Workshop ω) (body : TaskName → List TaskResult → Job (List Path)) :
    Schedule.Runner ω Solo where
  launch state task results :=
    let (outcome, lines, session) := state.session.perform (shop.job body task.name results)
    { session, ended := state.ended.set task.name (!lines.isEmpty, outcome) }
  await state running :=
    let task := running.headD ⟨""⟩
    ({ task, outcome := ((state.ended.get? task).map (·.2)).getD (.error .cancelled) }, state)
  isStopping _ := false

theorem world_launch (shop : Workshop ω) (body : TaskName → List TaskResult → Job (List Path))
    (state : Solo) (task : Task ω) (results : List TaskResult) :
    ((shop.solo body).launch state task results).world =
      state.world.become task.name
        (state.session.perform (shop.job body task.name results)).2.2.tree
        (.ended (!(state.session.perform (shop.job body task.name results)).2.1.isEmpty)
          (state.session.perform (shop.job body task.name results)).1) := by
  simp only [Solo.world, World.become, solo, TaskTable.get?_set]
  congr 1
  funext other
  by_cases heq : other = task.name
  · simp [heq]
  · simp [heq, Ne.symm heq]

theorem steps_launch (henabled : shop.place.cache.enabled = true) {state : Solo} {task : Task ω}
    (hbody : ∀ made, state.session.tree.createAll (shop.place.ownDir task.name) = (.ok (), made) →
      shop.Behaves task.name (body task.name results)
        { state.session with tree := made, lines := [], reuses := [] }) :
    shop.Steps (shop.started state.world task.name results)
      ((shop.solo body).launch state task results).world := by
  have hacts := acts_job henabled hbody
  rw [world_launch]
  generalize state.session.perform (shop.job body task.name results) = result at hacts
  exact hacts.steps_started

/-- **The crew** of the runner, for states in which the work of a task that is started keeps to its
directory. -/
def soloCrew (body : TaskName → List TaskResult → Job (List Path))
    (henabled : shop.place.cache.enabled = true) (Valid : Solo → Prop)
    (hlaunch : ∀ state task results, Valid state → shop.Start state.world task.name results →
      Valid ((shop.solo body).launch state task results) ∧
        shop.Steps (shop.started state.world task.name results)
          ((shop.solo body).launch state task results).world) :
    shop.Crew (shop.solo body) where
  world := Solo.world
  Valid := Valid
  enabled := henabled
  launch := hlaunch
  finished state running hvalid := ⟨hvalid, .refl⟩
  proceed state hvalid := ⟨hvalid, .refl⟩
  await state first rest hvalid hstarted := by
    refine ⟨hvalid, .refl, List.mem_cons_self .., ?_⟩
    have hfirst := hstarted first (List.mem_cons_self ..)
    cases hended : state.ended.get? first with
    | none => exact absurd (by simp [Solo.world, hended]) hfirst
    | some ending => exact ⟨ending.1, by simp [solo, Solo.world, hended]⟩

/-- **The crew for separate tasks**, for builds that start in a tree where all is prepared, if the
work of every task keeps to its directory. -/
def separateCrew {start : FileTree} (body : TaskName → List TaskResult → Job (List Path))
    (henabled : shop.place.cache.enabled = true) (hseparate : shop.Separate)
    (hsited : shop.Sited start) (hprepared : shop.Prepared start)
    (hclear : ∀ task ∈ shop.graph.names,
      start.Clear (shop.record task) ∧ start.Clear (shop.temporary task))
    (hbody : ∀ task ∈ shop.graph.names, ∀ results session, session.tree.Tidy →
      session.tree.Enters (shop.place.ownDir task) (shop.home task) →
      shop.Behaves task (body task results) session) :
    shop.Crew (shop.solo body) :=
  soloCrew body henabled (fun state => shop.Run (.fresh start) state.world)
    fun state task results hvalid hstart => by
      -- No task has to be followed for the tree to stay tidy.
      have hplan : shop.Plan start fun _ => False := ⟨hseparate, hsited, by simp, by simp⟩
      have hgood : shop.Good start (fun _ => False) (.fresh start) := good_fresh hclear (by simp)
      have hdrift := (hgood.run_of_prepared hplan hprepared hvalid).drift
      have htidy : state.session.tree.Tidy := (hdrift.tidy hsited.tidy).1
      have hhome := (hprepared.drift hsited hdrift).home task.name hstart.mem
      have hsteps := @steps_launch _ shop body results henabled state task fun made hcreate => by
        obtain rfl : made = state.session.tree :=
          (Prod.mk.inj (hcreate.symm.trans (htidy.sound.createAll_of_enters hhome))).2
        exact hbody task.name hstart.mem results _ htidy hhome
      exact ⟨Run.steps (hvalid.tail (.inl ⟨task.name, results, hstart, rfl⟩)) hsteps, hsteps⟩

end Workshop

end BuildMatrix
