import BuildMatrix.Proofs.CacheCalls
import BuildMatrix.Proofs.Contents

/-!
# What tasks ask the cache for

A task that is started makes its directories, finds out which files it reads, and asks the cache for
one piece of work. So there is a *request*, unless something fails before, and what comes of the
start depends on the request, on the session in which it is made, and on the cache alone.
-/

namespace BuildMatrix

variable {α β : Type} {session : Session}

/-! ### Requests -/

/-- What a task **asks the cache for**, and what it makes of the paths that the work returns. -/
structure Request where
  identity : String
  configuration : Environment
  inputs : List Path
  body : Job (List Path)
  deliver : List Path → Output

/-- The bytes that the fingerprint of a request is made from. -/
def Request.stream (request : Request) (tree : FileTree) : ByteArray :=
  Fingerprint.stream tree request.configuration request.inputs

/-- The fingerprint of what is asked for, as the inputs are in a tree. -/
def Request.fingerprint (request : Request) (tree : FileTree) : Fingerprint :=
  Fingerprint.compute tree request.configuration request.inputs

/-- The request of a **command**, once the files it reads are known. -/
def Command.request (task : Command) (place : Place) (dependencies : List TaskResult)
    (tree : FileTree) (files : List Path) : Request :=
  let outputDir := task.outputDir place.layout (place.ownDir task.name)
  let dependencyOutputs := TaskResult.outputPaths dependencies
  let invocation := task.invocation tree place.layout.projectRoot outputDir dependencyOutputs
  { identity := task.identity
    configuration := task.configuration place.layout.host
    inputs := if task.sharedKey.isSome then files else files ++ dependencyOutputs
    body := do
      let _ ← invocation.run place.system
      let session ← Job.get
      Job.ofExcept (task.collectOutputs session.tree outputDir)
    deliver := fun paths => task.toOutput paths outputDir }

/-- The request of a **classpath task**: the file with the paths that it has collected. -/
def Classpath.request (name : TaskName) (place : Place) (dependencies : List TaskResult) :
    Request :=
  let entries := TaskResult.classpath dependencies
  let file := (place.ownDir name).child fileName
  { identity := name.text
    configuration := Environment.ofList [("entries", text entries)]
    inputs := entries
    body := do
      Job.writeFile file (text entries).toUTF8
      return [file]
    deliver := fun paths => .classpath entries (paths.headD file) }

/-- The **directories** that a task makes before it asks: its own, and the one it shares. -/
def Work.dirs (work : Work) (name : TaskName) (place : Place) : List Path :=
  place.ownDir name ::
    match work with
    | .command task =>
      if task.sharedKey.isSome then [task.outputDir place.layout (place.ownDir task.name)] else []
    | .classpath => []

/-- **What a task asks for** in a tree, unless the files it reads cannot be found out. -/
def Work.request (work : Work) (name : TaskName) (place : Place) (dependencies : List TaskResult)
    (tree : FileTree) : Except Failure Request :=
  match work with
  | .command task =>
    (task.inputFiles tree place.layout).map fun files => task.request place dependencies tree files
  | .classpath => .ok (Classpath.request name place dependencies)

/-- The request of a classpath task, or that of a command **with the files it reads**. -/
theorem Work.request_eq_ok {work : Work} {name : TaskName} {place : Place}
    {dependencies : List TaskResult} {tree : FileTree} {request : Request}
    (h : work.request name place dependencies tree = .ok request) :
    work = .classpath ∧ request = Classpath.request name place dependencies ∨
      ∃ task files, work = .command task ∧ task.inputFiles tree place.layout = .ok files ∧
        request = task.request place dependencies tree files := by
  cases work with
  | classpath => exact .inl ⟨rfl, (Except.ok.inj h).symm⟩
  | command task =>
    rw [Work.request] at h
    cases hfiles : task.inputFiles tree place.layout with
    | error failure =>
      rw [hfiles] at h
      cases h
    | ok files =>
      rw [hfiles] at h
      exact .inr ⟨task, files, rfl, hfiles, (Except.ok.inj h).symm⟩

/-- A task **from its request on**. -/
def Place.fulfil (place : Place) (request : Request) : Job Output := do
  let execution ← place.cached request.identity request.configuration request.inputs request.body
  return request.deliver execution.outputs

/-- What becomes of a request is **what the cache does**, and a note of whether it was found. -/
theorem Place.fulfil_eq (place : Place) (request : Request) (session : Session) :
    place.fulfil request session =
      match place.cache.execute request.identity request.configuration request.inputs request.body
          session with
      | (.error failure, session) => (.error failure, session)
      | (.ok execution, session) =>
        (.ok (request.deliver execution.outputs),
          { session with reuses := session.reuses ++ [execution.upToDate] }) := by
  simp only [fulfil, bind, pure, Job.andThen, Job.done, cached_eq]
  generalize place.cache.execute request.identity _ _ _ _ = executed
  rcases executed with ⟨failure | execution, after⟩ <;> rfl

/-! ### The start of a task -/

/-- **The start of a task** in a session, with the results of its dependencies. -/
structure Launch where
  task : Task Work
  dependencies : List TaskResult
  session : Session

namespace Launch

variable {place : Place} {launch : Launch} {asked : Except Failure Request} {tree : FileTree}
  {request : Request}

/-- What a start **asks for**, and the tree then; its directories are made before. -/
def ask (launch : Launch) (place : Place) : Except Failure Request × FileTree :=
  match Layout.createEach launch.session.tree
      (launch.task.work.dirs launch.task.name place) with
  | (.error error, tree) => (.error (.io error.message), tree)
  | (.ok (), tree) =>
    (launch.task.work.request launch.task.name place launch.dependencies tree, tree)

/-- The session in which a start asks, once the directories are made. -/
def opened (launch : Launch) (tree : FileTree) : Session :=
  { launch.session with tree, lines := [], reuses := [] }

/-- What is asked for is **the request of the task's work**, in the tree with its directories. -/
theorem request_of_ask (h : launch.ask place = (.ok request, tree)) :
    launch.task.work.request launch.task.name place launch.dependencies tree = .ok request := by
  unfold ask at h
  generalize Layout.createEach launch.session.tree _ = made at h
  rcases made with ⟨error | ⟨⟩, made⟩
  · cases h
  · obtain ⟨hrequest, rfl⟩ := Prod.mk.inj h
    exact hrequest

/-- All that a start does. -/
def job (launch : Launch) (place : Place) : Job Output := do
  Job.createAll (place.ownDir launch.task.name)
  launch.task.work.job launch.task.name place launch.dependencies

/-- What **comes of a start**. -/
def outcome (launch : Launch) (place : Place) : Outcome :=
  (launch.session.perform (launch.job place)).1

/-- The session that a start leaves. -/
def after (launch : Launch) (place : Place) : Session :=
  (launch.session.perform (launch.job place)).2.2

/-- **A start asks, and then goes on from its request.** -/
theorem job_eq (launch : Launch) (place : Place) :
    launch.job place { launch.session with lines := [], reuses := [] } =
      match launch.ask place with
      | (.error failure, tree) => (.error failure, launch.opened tree)
      | (.ok request, tree) => place.fulfil request (launch.opened tree) := by
  unfold job ask Work.dirs
  simp only [bind, Job.andThen, Job.createAll, Layout.createEach]
  generalize launch.session.tree.createAll (place.ownDir launch.task.name) = made
  rcases made with ⟨error | ⟨⟩, made⟩
  · rfl
  generalize launch.task.work = work
  cases work with
  | classpath => rfl
  | command task =>
    simp only [Work.job, Command.job, Work.request, bind, pure]
    -- a task with a shared key makes one more directory
    cases hshared : task.sharedKey.isSome with
    | false =>
      simp only [Bool.false_eq_true, if_false, Layout.createEach, Job.andThen, Job.get, opened]
      cases task.inputFiles made place.layout with
      | error failure => rfl
      | ok files =>
        simp only [Job.ofExcept, Job.done, Except.map, Command.request, hshared,
          Bool.false_eq_true, if_false, Place.fulfil, bind, pure, Job.andThen]
    | true =>
      simp only [if_true, Layout.createEach, Job.andThen, Job.createAll, Job.get, opened]
      generalize made.createAll _ = made
      rcases made with ⟨error | ⟨⟩, made⟩
      · rfl
      simp only
      cases task.inputFiles made place.layout with
      | error failure => rfl
      | ok files =>
        simp only [Job.ofExcept, Job.done, Except.map, Command.request, hshared, if_true,
          Place.fulfil, bind, pure, Job.andThen]

/-- **What can come of a start**: the outcome, and the tree that it leaves. -/
inductive Course (launch : Launch) (place : Place) : Outcome → FileTree → Prop
  | refused {failure : Failure} {tree : FileTree} : launch.ask place = (.error failure, tree) →
      Course launch place (.error failure) tree
  | found {request : Request} {tree : FileTree} {outputs : List Path} :
      launch.ask place = (.ok request, tree) →
      place.cache.hit? tree request.identity (request.fingerprint tree) = some outputs →
      Course launch place (.ok { output := request.deliver outputs, upToDate := true }) tree
  | failed {request : Request} {tree : FileTree} {done : Session} {failure : Failure} :
      launch.ask place = (.ok request, tree) →
      place.cache.hit? tree request.identity (request.fingerprint tree) = none →
      request.body (launch.opened tree) = (.error failure, done) →
      Course launch place (.error failure) done.tree
  /-- The work was not found and is done; a record of it is kept or not. -/
  | stored {request : Request} {tree : FileTree} {done : Session} {outputs : List Path}
      {kept : Except CacheError Unit} {stored : FileTree} :
      launch.ask place = (.ok request, tree) →
      place.cache.hit? tree request.identity (request.fingerprint tree) = none →
      request.body (launch.opened tree) = (.ok outputs, done) →
      place.cache.store done.tree
        { identity := request.identity, fingerprint := request.fingerprint tree, outputs,
          createdAt := done.now } = (kept, stored) →
      Course launch place
        (match kept with
          | .ok () => .ok { output := request.deliver outputs, upToDate := false }
          | .error error => .error (.cache error)) stored

theorem course_of_job {result : Except Failure Output} {done : Session} {stored : FileTree}
    (hjob : launch.job place { launch.session with lines := [], reuses := [] } = (result, done))
    (htree : done.tree = stored)
    (hcourse : launch.Course place
      (result.map fun output => { output, upToDate := done.isUpToDate }) stored) :
    launch.Course place (launch.outcome place) (launch.after place).tree := by
  rw [outcome, after, Session.perform, hjob]
  subst htree
  cases result <;> exact hcourse

/-- **What comes of a start**, with a cache that is enabled. -/
theorem course (launch : Launch) (henabled : place.cache.enabled = true) :
    launch.Course place (launch.outcome place) (launch.after place).tree := by
  have hjob := launch.job_eq place
  rcases hask : launch.ask place with ⟨failure | request, tree⟩
  · rw [hask] at hjob
    exact course_of_job hjob rfl (.refused hask)
  rw [hask] at hjob
  simp only [place.fulfil_eq] at hjob
  -- the look-up is the one that the cache makes in the session
  have hfingerprint : Fingerprint.compute (launch.opened tree).tree request.configuration
      request.inputs = request.fingerprint tree := rfl
  cases hhit : place.cache.hit? (launch.opened tree).tree request.identity
      (Fingerprint.compute (launch.opened tree).tree request.configuration request.inputs) with
  | some outputs =>
    rw [Cache.execute_of_hit henabled hhit] at hjob
    exact course_of_job hjob rfl (.found hask hhit)
  | none =>
    rw [Cache.execute_of_miss henabled hhit, Job.andThen, hfingerprint] at hjob
    rcases hbody : request.body (launch.opened tree) with ⟨failure | outputs, done⟩
    · rw [hbody] at hjob
      exact course_of_job hjob rfl (.failed hask hhit hbody)
    rcases hstore : place.cache.store done.tree
        { identity := request.identity, fingerprint := request.fingerprint tree, outputs,
          createdAt := done.now } with ⟨kept, stored⟩
    have hcourse := Course.stored hask hhit hbody hstore
    rw [hbody] at hjob
    rcases kept with error | ⟨⟩
    · simp only [Job.andThen, Cache.remember, hstore] at hjob
      exact course_of_job hjob rfl hcourse
    · simp only [Job.andThen, Cache.remember, hstore, Job.done] at hjob
      exact course_of_job hjob rfl (by simpa [Except.map, Session.isUpToDate] using hcourse)

end Launch

/-! ### Jobs and stopping -/

namespace Job

/-- A job that leaves **whether the work is to stop** as it is. -/
def Quiet (job : Job α) : Prop :=
  ∀ session, (job session).2.isStopping = session.isStopping

theorem Quiet.andThen {first : Job α} {next : α → Job β} (hfirst : first.Quiet)
    (hnext : ∀ value, (next value).Quiet) : (first.andThen next).Quiet := by
  intro session
  have hsame := hfirst session
  rw [Job.andThen]
  rcases hresult : first session with ⟨failure | value, middle⟩
  · rw [hresult] at hsame
    exact hsame
  · rw [hresult] at hsame
    exact (hnext value middle).trans hsame

theorem quiet_done (value : α) : (done value).Quiet := fun _ => rfl

theorem quiet_ofExcept (result : Except Failure α) : (ofExcept result).Quiet := by
  intro session
  cases result <;> rfl

theorem quiet_writeFile (path : Path) (content : ByteArray) : (writeFile path content).Quiet := by
  intro session
  rw [writeFile]
  split <;> rfl

/-- **No command asks its build to stop**, whatever it does. -/
theorem quiet_run (invocation : Invocation) (system : System) :
    (invocation.run system).Quiet := by
  intro session
  unfold Invocation.run
  split
  · rfl
  · split
    · rfl
    · split
      · rfl
      · rfl

end Job

/-- Neither does **the cache**, if the work does not. -/
theorem Cache.quiet_execute (cache : Cache) (identity : String) (configuration : Environment)
    (inputs : List Path) {body : Job (List Path)} (hbody : body.Quiet) :
    (cache.execute identity configuration inputs body).Quiet := by
  intro session
  cases henabled : cache.enabled with
  | false =>
    rw [execute_of_disabled henabled]
    exact hbody.andThen (fun _ => Job.quiet_done _) session
  | true =>
    cases hhit : cache.hit? session.tree identity
        (Fingerprint.compute session.tree configuration inputs) with
    | some outputs => rw [execute_of_hit henabled hhit]
    | none =>
      rw [execute_of_miss henabled hhit]
      refine hbody.andThen (fun _ => Job.Quiet.andThen ?_ fun _ => Job.quiet_done _) session
      intro session
      rw [remember]
      split <;> rfl

theorem Work.quiet_body {work : Work} {name : TaskName} {place : Place}
    {dependencies : List TaskResult} {tree : FileTree} {request : Request}
    (h : work.request name place dependencies tree = .ok request) : request.body.Quiet := by
  rcases request_eq_ok h with ⟨-, rfl⟩ | ⟨task, files, -, -, rfl⟩
  · simp only [Classpath.request, bind, pure]
    exact (Job.quiet_writeFile _ _).andThen fun _ => Job.quiet_done _
  · simp only [Command.request, bind]
    exact (Job.quiet_run _ _).andThen fun _ => Job.Quiet.andThen (fun _ => rfl) fun _ =>
      Job.quiet_ofExcept _

end BuildMatrix
