import BuildMatrix.Cli.Building
import BuildMatrix.Proofs.GraphParts
import BuildMatrix.Proofs.Launches
import BuildMatrix.Proofs.Reports
import BuildMatrix.Proofs.RunnerInvariants
import BuildMatrix.Shell.System

/-!
# The exit codes of builds

The request to build says by its exit code how it ended. What has to go well before a task is
started is *prepared*: the project file is found, read and valid, and gives a project, a graph and
the part of the graph that the targets ask for. If anything of this fails, the code is 2 and nothing
was done. After that the code is that of the report, 1 if a task failed and 0 if all are done.
-/

namespace BuildMatrix

/-! ### Tasks and stopping -/

/-- **No task asks its build to stop.** -/
theorem Launch.isStopping_after (launch : Launch) (place : Place) :
    (launch.after place).isStopping = launch.session.isStopping := by
  have hjob := launch.job_eq place
  unfold after Session.perform
  rcases hask : launch.ask place with ⟨failure | request, tree⟩
  all_goals
    rw [hask] at hjob
    simp only at hjob
    rw [hjob]
  · rfl
  · have hexecute := place.cache.quiet_execute request.identity request.configuration
      request.inputs (Work.quiet_body (request_of_ask hask)) (launch.opened tree)
    rw [place.fulfil_eq]
    generalize place.cache.execute _ _ _ _ (launch.opened tree) = executed at hexecute ⊢
    rcases executed with ⟨failure | execution, after⟩ <;> exact hexecute

theorem Build.goes_runner (build : Build) :
    build.runner.Goes fun state => state.session.isStopping = false where
  isStopping _ := id
  proceed _ := id
  finished _ _ := id
  launch state task results hgoing := by
    obtain ⟨ending, -, -, hlaunch⟩ := build.launch_eq state task results
    have hsame := Launch.isStopping_after ⟨task, results, state.session⟩ build.place
    generalize Launch.after _ _ = after at hlaunch hsame
    rw [show build.runner.launch state task results = _ from hlaunch]
    exact hsame.trans hgoing
  await state running hgoing := by
    rw [show build.runner.await state running = await state running from rfl, await]
    split <;> exact hgoing

/-! ### Contexts -/

namespace Fault

/-- A context is **one more link** in front of the chain. -/
theorem chain_within (fault : Fault) (context : String) :
    (fault.within context).chain = .context context :: fault.chain := by
  simp [chain, within]

/-- The search for an exit code **passes over contexts**. -/
theorem exitCode_within (fault : Fault) (context : String) :
    (fault.within context).exitCode = fault.exitCode := by
  rw [exitCode, exitCode, chain_within, List.findSome?_cons_of_isNone rfl]

end Fault

/-! ### Reports -/

/-- Some task **failed**. -/
def Report.SomeFailed (report : Report) : Prop :=
  ∃ name reason, (name, .failed reason) ∈ report.statuses

/-- All of these tasks are **completed or skipped**. -/
def Report.AllDone (report : Report) (names : List TaskName) : Prop :=
  ∀ name ∈ names, (name, .completed) ∈ report.statuses ∨ (name, .skipped) ∈ report.statuses

/-- **How a build ends** that is not asked to stop: all tasks are done, or one has failed. -/
def Report.Settled (report : Report) (names : List TaskName) : Prop :=
  report.error? = none ∧ ¬report.SomeFailed ∧ report.AllDone names ∨
    (∃ task failure, report.error? = some (.taskFailed task failure)) ∧ report.SomeFailed ∧
      ¬report.AllDone names

/-- The **exit code for a report**: that of its error, if it has one. -/
def Report.exitCode (report : Report) : Nat :=
  match report.error? with
  | some error => Fault.exitCode { cause := .build error }
  | none => exitSuccess

theorem Report.Settled.exitCode_iff {report : Report} {names : List TaskName}
    (h : report.Settled names) :
    (report.exitCode = 1 ↔ report.SomeFailed) ∧ (report.exitCode = 0 ↔ report.AllDone names) ∧
      report.exitCode ≠ 2 := by
  unfold Report.exitCode
  rcases h with ⟨herror, hnone, hdone⟩ | ⟨⟨task, failure, herror⟩, hfailed, hnot⟩ <;> rw [herror]
  · exact ⟨iff_of_false (by decide) hnone, iff_of_true rfl hdone, by decide⟩
  · exact ⟨iff_of_true rfl hfailed, iff_of_false nofun hnot, nofun⟩

theorem TaskGraph.WellFormed.settled {ω σ : Type} {graph : TaskGraph ω} (hgraph : graph.WellFormed)
    {runner : Schedule.Runner ω σ} {limit : Nat} {state : σ}
    (hgo : (graph.execute runner limit state).1.cancelled = false) :
    (graph.execute runner limit state).1.Settled graph.names := by
  obtain ⟨schedule, htracks, hover, hreport⟩ := hgraph.tracks_execute runner limit state
  rw [hreport] at hgo ⊢
  cases hcause : schedule.toReport.rootCause with
  | none =>
    have hfailures : (graph.history runner limit state).failures = [] := by
      rw [← List.head?_eq_none_iff, ← htracks.rootCause_eq]
      exact hcause
    have hstop : ¬(graph.history runner limit state).StopSeen := fun hseen => by
      have hcancelled : schedule.toReport.cancelled = true := htracks.cancelled_iff.2 hseen
      rw [hgo] at hcancelled
      cases hcancelled
    have hall := htracks.mem_successes hgraph hover hfailures hstop
    refine .inl ⟨(htracks.error?_eq_none_iff hgraph hover).2
      ⟨(htracks.isSuccess_iff hover).2 hall, hstop⟩, ?_, fun name hname => ?_⟩
    · rintro ⟨name, reason, hstatus⟩
      obtain ⟨failure, hmem⟩ := (htracks.exists_failure_iff hover).2 ⟨reason, hstatus⟩
      rw [hfailures] at hmem
      cases hmem
    · have hstatus := (Schedule.mem_statuses_toReport htracks).2 ⟨hname, rfl⟩
      rcases (htracks.done_iff hover hstatus).2 (History.mem_successes.1 (hall name hname)) with
        hdone | hdone
      · exact .inl (hdone ▸ hstatus)
      · exact .inr (hdone ▸ hstatus)
  | some cause =>
    have hmem : cause ∈ (graph.history runner limit state).failures := by
      refine List.mem_of_head? ?_
      rw [← htracks.rootCause_eq]
      exact hcause
    obtain ⟨reason, hstatus⟩ := (htracks.exists_failure_iff hover).1 ⟨cause.2, hmem⟩
    obtain ⟨hname, heq⟩ := (Schedule.mem_statuses_toReport htracks).1 hstatus
    refine .inr ⟨⟨cause.1, cause.2, by rw [Report.error?, hcause]⟩, ⟨cause.1, reason, hstatus⟩,
      fun hall => ?_⟩
    -- a task has one status
    rcases hall cause.1 hname with hdone | hdone
    · cases ((Schedule.mem_statuses_toReport htracks).1 hdone).2.trans heq.symm
    · cases ((Schedule.mem_statuses_toReport htracks).1 hdone).2.trans heq.symm

/-! ### Refusals -/

namespace Config

/-- A check that fails only with an error **of the configuration**, or of the project it says. -/
def Refuses (result : Except ProjectError Unit) : Prop :=
  ∀ error, result = .error error → Fault.exitCode { cause := .project error } = 2

theorem refuses_ok : Refuses (.ok ()) := fun _ h => by cases h

theorem refuses_invalid (field reason : String) : Refuses (invalid field reason) :=
  fun _ h => Except.error.inj h ▸ rfl

theorem Refuses.bind {first second : Except ProjectError Unit} (hfirst : Refuses first)
    (hsecond : Refuses second) : Refuses (first >>= fun _ => second) := by
  cases first with
  | error error => exact hfirst
  | ok => exact hsecond

theorem refuses_checkFrom {α : Type} {check : Nat → α → Except ProjectError Unit}
    (hcheck : ∀ i item, Refuses (check i item)) (i : Nat) (items : List α) :
    Refuses (checkFrom check i items) := by
  induction items generalizing i with
  | nil => exact refuses_ok
  | cons item rest ih =>
    have hitem := hcheck i item
    rw [checkFrom]
    generalize check i item = result at hitem ⊢
    cases result with
    | error error => exact hitem
    | ok => exact ih (i + 1)

theorem Refuses.ite {condition : Prop} [Decidable condition]
    {first second : Except ProjectError Unit} (hfirst : Refuses first) (hsecond : Refuses second) :
    Refuses (if condition then first else second) := by
  split
  · exact hfirst
  · exact hsecond

theorem refuses_checkAction (before : List String) (i : Nat) (action : Action) :
    Refuses (checkAction before i action) :=
  .ite (refuses_invalid _ _) <| .ite (refuses_invalid _ _) <| .ite (refuses_invalid _ _) <|
    .ite (fun _ h => Except.error.inj h ▸ rfl) <| .ite (refuses_invalid _ _) refuses_ok

theorem refuses_checkActions (before : List String) (i : Nat) (actions : List Action) :
    Refuses (checkActions before i actions) := by
  induction actions generalizing before i with
  | nil => exact refuses_ok
  | cons action rest ih =>
    have haction := refuses_checkAction before i action
    rw [checkActions]
    generalize checkAction before i action = result at haction ⊢
    cases result with
    | error error => exact haction
    | ok => exact ih _ _

theorem refuses_checkPeers (actions : List Action) (i : Nat) (action : Action)
    (before names : List String) : Refuses (checkPeers actions i action before names) := by
  induction names generalizing before with
  | nil => exact refuses_ok
  | cons name rest ih =>
    rw [checkPeers]
    split
    · exact refuses_invalid _ _
    · exact .ite (refuses_invalid _ _) (.ite (refuses_invalid _ _) (ih _))

/-- **What a configuration is refused for** is an error of the configuration. -/
theorem refuses_validate (config : Config) : Refuses config.validate := by
  refine .bind ?_ (.bind (refuses_checkFrom (fun i module => ?_) 0 _) (.bind ?_
    (.bind (refuses_checkActions _ _ _)
      (refuses_checkFrom (fun i action => refuses_checkPeers _ i action _ _) 0 _))))
  · exact .ite (refuses_invalid _ _) (.ite (refuses_invalid _ _) refuses_ok)
  · exact .ite (refuses_invalid _ _) (.ite (refuses_invalid _ _) refuses_ok)
  · rw [checkProject]
    split
    · exact fun _ h => Except.error.inj h ▸ rfl
    · exact refuses_ok

end Config

namespace Workspace

/-- **A project that is loaded**: its project file is found, read and valid, and the modules it says
make a project. -/
structure Loaded (tree : FileTree) (dir : Path) (workspace : Workspace) : Prop where
  found : Config.find? tree dir = some workspace.configPath
  read : ∃ text, Config.readText tree workspace.configPath = .ok text ∧
    Config.ofText workspace.configPath text = .ok workspace.config
  valid : workspace.config.validate = .ok ()
  root : workspace.root = Config.rootOf workspace.configPath
  model : Project.make workspace.root workspace.config.modules = .ok workspace.project

variable {tree : FileTree} {dir : Path} {workspace : Workspace}

theorem Loaded.loadFrom_eq (h : Loaded tree dir workspace) :
    loadFrom tree dir = .ok workspace := by
  obtain ⟨text, hread, htext⟩ := h.read
  simp only [loadFrom, Config.loadFrom, Config.load, h.found, hread, htext, h.valid, ← h.root,
    h.model]

/-- If a project is not loaded, this is an error **of the project file or of the project**. -/
theorem loaded_or_refused (tree : FileTree) (dir : Path) :
    (∃ workspace, Loaded tree dir workspace) ∨
      ∃ fault, loadFrom tree dir = .error fault ∧ fault.exitCode = 2 := by
  cases hfound : Config.find? tree dir with
  | none =>
    refine .inr ⟨{ cause := .project (.config (.notFound dir)) }, ?_, rfl⟩
    simp only [loadFrom, Config.loadFrom, hfound]
  | some path =>
    cases hread : Config.readText tree path with
    | error error =>
      refine .inr ⟨{ cause := .project (.config error) }, ?_, rfl⟩
      simp only [loadFrom, Config.loadFrom, Config.load, hfound, hread]
    | ok text =>
      cases htext : Config.ofText path text with
      | error error =>
        refine .inr ⟨{ cause := .project (.config error) }, ?_, rfl⟩
        simp only [loadFrom, Config.loadFrom, Config.load, hfound, hread, htext]
      | ok config =>
        cases hvalid : config.validate with
        | error error =>
          refine .inr ⟨{ cause := .project error }, ?_, config.refuses_validate error hvalid⟩
          simp only [loadFrom, Config.loadFrom, Config.load, hfound, hread, htext, hvalid]
        | ok =>
          cases hmodel : Project.make (Config.rootOf path) config.modules with
          | error error =>
            refine .inr ⟨⟨.model error, ["invalid modules in " ++ path.text]⟩, ?_, rfl⟩
            simp only [loadFrom, Config.loadFrom, Config.load, hfound, hread, htext, hvalid, hmodel]
          | ok project =>
            exact .inl ⟨⟨Config.rootOf path, path, config, project⟩, hfound, ⟨text, hread, htext⟩,
              hvalid, rfl, hmodel⟩

end Workspace

namespace Cli

variable {session : Session} {targets : List String} {workspace : Workspace}
  {graph : TaskGraph Work}

/-- **What has to go well before a build**: the project is loaded, its tasks are registered and make
a graph, and the targets select a part of this graph. -/
structure Prepared (session : Session) (targets : List String) (workspace : Workspace)
    (graph : TaskGraph Work) : Prop where
  load : workspace.Loaded session.tree (currentDirectory session)
  select : ∃ count builder whole, workspace.pipeline.register = .ok (count, builder) ∧
    builder.build = .ok whole ∧ whole.select targets = .ok graph

theorem Prepared.withGraph_eq (h : Prepared session targets workspace graph)
    (answer : Workspace → TaskGraph Work → Reply) :
    withGraph session targets answer = answer workspace graph := by
  obtain ⟨count, builder, whole, hregister, hbuild, hselect⟩ := h.select
  simp only [withGraph, withWorkspace, h.load.loadFrom_eq, Workspace.taskGraph, hregister, hbuild,
    hselect]

/-- Where it does not go well, **nothing is done**, and the exit code is 2. -/
theorem prepared_or_refused (session : Session) (targets : List String) :
    (∃ workspace graph, Prepared session targets workspace graph) ∨
      ∃ fault : Fault, fault.exitCode = 2 ∧ ∀ answer,
        withGraph session targets answer = { conclusion := .failed fault, session } := by
  rcases Workspace.loaded_or_refused session.tree (currentDirectory session) with
    ⟨workspace, hload⟩ | ⟨fault, hload, hcode⟩
  · cases hregister : workspace.pipeline.register with
    | error refusal =>
      refine .inr ⟨⟨.graph refusal.error, ["failed to register actions"]⟩, rfl, fun _ => ?_⟩
      simp only [withGraph, withWorkspace, hload.loadFrom_eq, Workspace.taskGraph, hregister]
    | ok registered =>
      obtain ⟨count, builder⟩ := registered
      cases hbuild : builder.build with
      | error error =>
        refine .inr ⟨⟨.graph error, ["invalid task graph"]⟩, rfl, fun _ => ?_⟩
        simp only [withGraph, withWorkspace, hload.loadFrom_eq, Workspace.taskGraph, hregister,
          hbuild]
      | ok whole =>
        cases hselect : whole.select targets with
        | error error =>
          refine .inr ⟨{ cause := .graph error }, rfl, fun _ => ?_⟩
          simp only [withGraph, withWorkspace, hload.loadFrom_eq, Workspace.taskGraph, hregister,
            hbuild, hselect, Reply.failure]
        | ok graph =>
          exact .inl ⟨workspace, graph, hload, count, builder, whole, hregister, hbuild, hselect⟩
  · refine .inr ⟨fault, hcode, fun _ => ?_⟩
    simp only [withGraph, withWorkspace, hload]

theorem Prepared.wellFormed (h : Prepared session targets workspace graph) : graph.WellFormed := by
  obtain ⟨count, builder, whole, hregister, hbuild, hselect⟩ := h.select
  have hwhole : workspace.taskGraph = .ok whole := by
    simp only [Workspace.taskGraph, hregister, hbuild]
  exact (TaskGraph.select_spec (Workspace.taskGraph_spec hwhole).1 hselect).1

/-- The **report** of a build. -/
def reportOf (system : System) (workspace : Workspace) (graph : TaskGraph Work) (jobs : Option Nat)
    (noCache : Bool) (session : Session) : Report :=
  let cache : Cache :=
    { dir := workspace.layout.cacheRoot, enabled := workspace.cacheEnabled noCache }
  let build : Build :=
    { place := { layout := workspace.layout, cache, system }
      limit := taskLimit jobs workspace.config }
  (graph.execute build.runner build.limit
    { session := { session with tree := (workspace.layout.init session.tree).2 } }).1

theorem exitCode_execute (system : System) (line : CommandLine) (workspace : Workspace)
    (graph : TaskGraph Work) (jobs : Option Nat) (noCache : Bool) (session : Session)
    (hdirs : (workspace.layout.init session.tree).1 = .ok ()) :
    (execute system line workspace graph (taskLimit jobs workspace.config) noCache
      session).exitCode = (reportOf system workspace graph jobs noCache session).exitCode := by
  obtain ⟨events, after, hrun⟩ : ∃ events after, Build.run ⟨⟨workspace.layout,
      ⟨workspace.layout.cacheRoot, workspace.cacheEnabled noCache⟩, system⟩,
        taskLimit jobs workspace.config⟩ graph session =
      (.ok (reportOf system workspace graph jobs noCache session, events), after) := by
    rw [Build.run]
    rcases hmade : workspace.layout.init session.tree with ⟨result, made⟩
    obtain rfl : result = .ok () := by rw [hmade] at hdirs; exact hdirs
    rw [reportOf, hmade]
    exact ⟨_, _, rfl⟩
  cases herror : (reportOf system workspace graph jobs noCache session).error? <;>
    simp only [Reply.exitCode, Report.exitCode, execute, hrun, herror]

/-- **How a build ends** that is prepared and not asked to stop. -/
theorem Prepared.exitCode_build (h : Prepared session targets workspace graph)
    (system : System) (line : CommandLine) (jobs : Option Nat) (noCache : Bool)
    (hgo : session.isStopping = false)
    (hdirs : (workspace.layout.init session.tree).1 = .ok ()) :
    let report := reportOf system workspace graph jobs noCache session
    (build system line targets jobs noCache false session).exitCode = report.exitCode ∧
      report.Settled graph.names := by
  have hsettled : (reportOf system workspace graph jobs noCache session).Settled graph.names :=
    h.wellFormed.settled ((Build.goes_runner _).cancelled_eq_false h.wellFormed _ hgo)
  refine ⟨?_, hsettled⟩
  simp only [build, h.withGraph_eq]
  by_cases hsize : graph.size = 0
  · rw [if_pos hsize]
    refine (hsettled.exitCode_iff.2.1.2 fun name hname => ?_).symm
    rw [TaskGraph.names, List.length_eq_zero_iff.1 hsize] at hname
    cases hname
  · rw [if_neg hsize, if_neg Bool.false_ne_true]
    exact exitCode_execute system line workspace graph jobs noCache session hdirs

/-- **The exit code of a build** tells how it ended. After the preparations it is the code for the
report, and this code tells how the tasks ended, whatever each of them comes to and whatever its
command does. -/
theorem exit_code_tells_the_ending (system : System) (line : CommandLine) (targets : List String)
    (jobs : Option Nat) (noCache : Bool) (session : Session) (hgo : session.isStopping = false)
    (hdirs : ∀ workspace graph, Prepared session targets workspace graph →
      (workspace.layout.init session.tree).1 = .ok ()) :
    let reply := build system line targets jobs noCache false session
    (reply.exitCode = 2 ↔ ¬∃ workspace graph, Prepared session targets workspace graph) ∧
      (reply.exitCode = 2 → reply.session = session ∧ reply.lines = []) ∧
      (reply.exitCode = 1 ↔ ∃ workspace graph, Prepared session targets workspace graph ∧
        (reportOf system workspace graph jobs noCache session).SomeFailed) ∧
      (reply.exitCode = 0 ↔ ∃ workspace graph, Prepared session targets workspace graph ∧
        (reportOf system workspace graph jobs noCache session).AllDone graph.names) ∧
      (∀ workspace graph, Prepared session targets workspace graph →
        reply.exitCode = (reportOf system workspace graph jobs noCache session).exitCode ∧
        ∀ (σ : Type) (runner : Schedule.Runner Work σ) (limit : Nat) (state : σ),
          let report := (graph.execute runner limit state).1
          report.cancelled = false → (report.exitCode = 1 ↔ report.SomeFailed) ∧
            (report.exitCode = 0 ↔ report.AllDone graph.names)) ∧
      ∀ (fault : Fault) (contexts : List String),
        (contexts.foldl Fault.within fault).exitCode = fault.exitCode := by
  intro reply
  have hending := fun workspace graph (h : Prepared session targets workspace graph) =>
    h.exitCode_build system line jobs noCache hgo (hdirs workspace graph h)
  have hcodes : ∀ workspace graph, Prepared session targets workspace graph →
      let report := reportOf system workspace graph jobs noCache session
      (reply.exitCode = 1 ↔ report.SomeFailed) ∧ (reply.exitCode = 0 ↔ report.AllDone graph.names) ∧
        reply.exitCode ≠ 2 := by
    intro workspace graph h
    obtain ⟨hcode, hsettled⟩ := hending workspace graph h
    exact hcode ▸ hsettled.exitCode_iff
  have hstart : (∃ workspace graph, Prepared session targets workspace graph) ∨
      reply.exitCode = 2 ∧ reply.session = session ∧ reply.lines = [] := by
    refine (prepared_or_refused session targets).imp_right ?_
    rintro ⟨fault, hcode, hrefused⟩
    have hreply : reply = { conclusion := .failed fault, session } := hrefused _
    exact hreply ▸ ⟨hcode, rfl, rfl⟩
  refine ⟨⟨?_, fun hnone => (hstart.resolve_left hnone).1⟩, fun hcode => ?_, ⟨fun hcode => ?_, ?_⟩,
    ⟨fun hcode => ?_, ?_⟩, fun workspace graph h => ⟨(hending workspace graph h).1, ?_⟩, ?_⟩
  · rintro hcode ⟨workspace, graph, h⟩
    exact (hcodes workspace graph h).2.2 hcode
  · rcases hstart with ⟨workspace, graph, h⟩ | ⟨-, hsame⟩
    · exact absurd hcode (hcodes workspace graph h).2.2
    · exact hsame
  · obtain ⟨workspace, graph, h⟩ := hstart.resolve_right fun hrefused => by omega
    exact ⟨workspace, graph, h, (hcodes workspace graph h).1.1 hcode⟩
  · rintro ⟨workspace, graph, h, hfailed⟩
    exact (hcodes workspace graph h).1.2 hfailed
  · obtain ⟨workspace, graph, h⟩ := hstart.resolve_right fun hrefused => by omega
    exact ⟨workspace, graph, h, (hcodes workspace graph h).2.1.1 hcode⟩
  · rintro ⟨workspace, graph, h, hdone⟩
    exact (hcodes workspace graph h).2.1.2 hdone
  · intro σ runner limit state report hcancelled
    obtain ⟨hone, hzero, -⟩ := (h.wellFormed.settled hcancelled).exitCode_iff
    exact ⟨hone, hzero⟩
  · intro fault contexts
    induction contexts generalizing fault with
    | nil => rfl
    | cons context rest ih =>
      exact (ih (fault.within context)).trans (fault.exitCode_within context)

/-- A project with one task, whose command fails. -/
def failing : Session where
  tree :=
    { entries := [(["core"], .directory), (["keel.toml"], .file
        ("modules = [\x7b name = \"core\", platforms = [\"jvm\"] \x7d]\n" ++
          "actions = [\x7b name = \"lint\", command = \"false\" \x7d]\n").toUTF8)]
      here := [] }
  now := ⟨0⟩

/-- The task of that project failed, since the exit code is 1; and an unknown target asks for 2 in
whatever context. -/
theorem exit_code_tells_of_failing :
    (∃ workspace graph, Prepared failing [] workspace graph ∧
      (reportOf Shell.system workspace graph none true failing).SomeFailed) ∧
    (["selecting", "building"].foldl Fault.within
      { cause := .graph (.unknownTask ⟨"lint"⟩) }).exitCode = 2 := by
  have htells := exit_code_tells_the_ending Shell.system { request := .build [] none true false } []
    none true failing rfl fun workspace _ h => ?_
  · exact ⟨htells.2.2.1.1 (by decide +kernel), htells.2.2.2.2.2 _ _⟩
  have heval : ((Workspace.loadFrom failing.tree (currentDirectory failing)).toOption.all
      fun workspace => (workspace.layout.init failing.tree).1.isOk) = true := by decide +kernel
  rw [h.load.loadFrom_eq] at heval
  cases hmade : (workspace.layout.init failing.tree).1 with
  | error error => simp [Except.toOption, hmade, Except.isOk, Except.toBool] at heval
  | ok => rfl

end Cli

end BuildMatrix
