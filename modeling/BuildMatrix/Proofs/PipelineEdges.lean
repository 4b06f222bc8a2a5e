import BuildMatrix.Pipeline
import BuildMatrix.Proofs.Building

/-!
# The dependencies of a pipeline

An action's task is registered in every cell of the action's matrix. The other end of a dependency
is only ever a name: the name of a cell that is made from the cell at hand by leaving the test
partition, by adding or dropping a build type, or by going to another module. Each of these ways
decides by itself whether there is such a cell. This module shows that they agree with the matrix,
so that a name that is made is always the name of a task.
-/

namespace BuildMatrix

theorem eq_ok_of_toOption_eq_some {ε α : Type} {x : Except ε α} {a : α}
    (h : x.toOption = some a) : x = .ok a := by
  cases x with
  | error e => cases h
  | ok b => exact congrArg _ (Option.some.inj h)

theorem exists_eq_ok_of_toOption {ε α : Type} {x : Except ε α} {p : α → Prop}
    (h : ∃ a ∈ x.toOption, p a) : ∃ a, x = .ok a ∧ p a := by
  obtain ⟨a, ha, hp⟩ := h
  exact ⟨a, eq_ok_of_toOption_eq_some ha, hp⟩

/-! ### Expansions of cells -/

namespace Matrix

variable {cells : List Cell} {cell : Cell}

theorem mem_ofModules {only : List Platform} {modules : List Module} :
    cell ∈ ofModules only modules ↔
      cell.module ∈ modules ∧ cell.platform ∈ cell.module.platforms ∧
      (only.isEmpty || only.contains cell.platform) = true ∧
      cell.isTest = false ∧ cell.buildType = none := by
  simp only [ofModules, platformsOf, List.mem_flatMap, List.mem_map, List.mem_filter]
  constructor
  · rintro ⟨m, hm, p, ⟨hp, hallowed⟩, rfl⟩
    exact ⟨hm, hp, hallowed, rfl, rfl⟩
  · obtain ⟨m, p, isTest, buildType⟩ := cell
    rintro ⟨hm, hp, hallowed, rfl, rfl⟩
    exact ⟨m, hm, p, ⟨hp, hallowed⟩, rfl⟩

/-- Cells of the main partition, expanded over partitions if there are **tests**. -/
theorem mem_ite_withTests (hmain : ∀ c ∈ cells, c.isTest = false) (tests : Bool) :
    cell ∈ (if tests then withTests cells else cells) ↔
      cell.mainPartition ∈ cells ∧ (cell.isTest = true → tests = true) := by
  obtain ⟨m, p, isTest, buildType⟩ := cell
  cases tests with
  | false =>
    constructor
    · intro hc
      obtain rfl : isTest = false := hmain _ hc
      exact ⟨hc, fun h => h⟩
    · rintro ⟨hc, himp⟩
      obtain rfl : isTest = false := Bool.eq_false_iff.mpr fun h => Bool.false_ne_true (himp h)
      exact hc
  | true =>
    simp only [if_true, withTests, List.mem_flatMap, List.mem_cons, List.not_mem_nil, or_false,
      implies_true, and_true]
    constructor
    · rintro ⟨c, hc, rfl | heq⟩
      · rwa [show isTest = false from hmain _ hc] at hc
      · obtain ⟨m', p', isTest', buildType'⟩ := c
        obtain rfl : isTest' = false := hmain _ hc
        cases heq
        exact hc
    · intro hc
      refine ⟨_, hc, ?_⟩
      cases isTest with
      | false => exact .inl rfl
      | true => exact .inr rfl

/-- Cells without a build type, expanded over build types if there are **build types**. -/
theorem mem_ite_withBuildTypes (hnone : ∀ c ∈ cells, c.buildType = none) (buildTypes : Bool) :
    cell ∈ (if buildTypes then withBuildTypes cells else cells) ↔
      { cell with buildType := none } ∈ cells ∧ cell.buildType.isSome = buildTypes := by
  obtain ⟨m, p, isTest, buildType⟩ := cell
  cases buildTypes with
  | false =>
    constructor
    · intro hc
      obtain rfl : buildType = none := hnone _ hc
      exact ⟨hc, rfl⟩
    · rintro ⟨hc, hsome⟩
      obtain rfl : buildType = none := by simpa using hsome
      exact hc
  | true =>
    simp only [if_true, withBuildTypes, List.mem_flatMap, List.mem_map]
    constructor
    · rintro ⟨c, hc, type, -, heq⟩
      obtain ⟨m', p', isTest', buildType'⟩ := c
      obtain rfl : buildType' = none := hnone _ hc
      cases heq
      exact ⟨hc, rfl⟩
    · rintro ⟨hc, hsome⟩
      obtain ⟨type, rfl⟩ := Option.isSome_iff_exists.mp hsome
      refine ⟨_, hc, type, ?_, rfl⟩
      cases type <;> decide

end Matrix

namespace Pipeline

variable {pipeline : Pipeline} {action peer : Action} {cell : Cell} {buildType : Option BuildType}
  {a b : TaskName} {next : GraphBuilder Work}

/-! ### The cells of an action -/

/-- **Which cells an action applies to**: those of the project's modules of an accepted type, on the
module's own platforms as far as the action allows them, in the test partition only if the action
has tests, and with a build type exactly if the action has build types. -/
theorem mem_cells :
    cell ∈ pipeline.cells action ↔
      cell.module ∈ pipeline.project.modules ∧
      action.acceptsType cell.module.productType = true ∧
      cell.platform ∈ cell.module.platforms ∧
      action.acceptsPlatform cell.platform = true ∧
      (cell.isTest = true → action.tests = true) ∧
      cell.buildType.isSome = action.buildTypes := by
  have hplain : ∀ c, c ∈ Matrix.ofModules action.platforms
      (Matrix.filterModules action.acceptsType pipeline.project.modules) ↔
        (c.module ∈ pipeline.project.modules ∧
          action.acceptsType c.module.productType = true) ∧
        c.platform ∈ c.module.platforms ∧ action.acceptsPlatform c.platform = true ∧
        c.isTest = false ∧ c.buildType = none := by
    intro c
    rw [Matrix.mem_ofModules, Matrix.filterModules, List.mem_filter]
    rfl
  have hmain := fun c hc => ((hplain c).mp hc).2.2.2.1
  rw [cells, Matrix.mem_ite_withBuildTypes, Matrix.mem_ite_withTests hmain, hplain]
  · simp only [Cell.mainPartition, and_true, and_assoc]
  · intro c hc
    rw [Matrix.mem_ite_withTests hmain, hplain] at hc
    exact hc.1.2.2.2.2

theorem isSome_of_mem_peerBuildTypes {asked : Option BuildType}
    (h : buildType ∈ peerBuildTypes peer asked) : buildType.isSome = peer.buildTypes := by
  unfold peerBuildTypes at h
  cases hpeer : peer.buildTypes with
  | false =>
    simp only [hpeer, Bool.false_eq_true, if_false, List.mem_singleton] at h
    rw [h]
    rfl
  | true =>
    cases asked with
    | some type =>
      simp only [hpeer, if_true, List.mem_singleton] at h
      rw [h]
      rfl
    | none =>
      simp only [hpeer, if_true, List.mem_map] at h
      obtain ⟨type, -, rfl⟩ := h
      rfl

/-- The **peer** of a cell is a cell of the peer's action: where that action applies at all, it
applies to the partition and the build types that are asked for. -/
theorem peer_mem_cells (hcell : cell ∈ pipeline.cells action)
    (htype : peer.acceptsType cell.module.productType = true)
    (hplatform : peer.acceptsPlatform cell.platform = true)
    (hbuild : buildType ∈ peerBuildTypes peer cell.buildType) :
    { cell with isTest := cell.isTest && peer.tests, buildType } ∈ pipeline.cells peer := by
  obtain ⟨hmodule, -, hin, -, -, -⟩ := mem_cells.mp hcell
  refine mem_cells.mpr ⟨hmodule, htype, hin, hplatform, fun h => ?_, ?_⟩
  · exact (Bool.and_eq_true_iff.mp h).2
  · exact isSome_of_mem_peerBuildTypes hbuild

theorem mainPartition_mem_cells (hcell : cell ∈ pipeline.cells action) :
    cell.mainPartition ∈ pipeline.cells action := by
  obtain ⟨hmodule, htype, hin, hplatform, -, hbuild⟩ := mem_cells.mp hcell
  exact mem_cells.mpr ⟨hmodule, htype, hin, hplatform, fun h => absurd h Bool.false_ne_true, hbuild⟩

/-- A cell **of another module** of the project that is built for the same platform and has an
accepted type is a cell of the same action. -/
theorem withModule_mem_cells (hcell : cell ∈ pipeline.cells action) {module : Module}
    (hmodule : module ∈ pipeline.project.modules)
    (hin : module.hasPlatform cell.platform = true)
    (htype : action.acceptsType module.productType = true) :
    cell.withModule module ∈ pipeline.cells action := by
  obtain ⟨-, -, -, hplatform, htests, hbuild⟩ := mem_cells.mp hcell
  exact mem_cells.mpr ⟨hmodule, htype, List.contains_iff_mem.mp hin, hplatform, htests, hbuild⟩

/-! ### The dependencies -/

/-- One name **depends on another** by the actions of a pipeline. -/
inductive Declares (pipeline : Pipeline) : TaskName → TaskName → Prop
  /-- On the tasks of a listed action in the same cell, where that action applies. -/
  | peer {action peer : Action} {cell : Cell} {name : String} {buildType : Option BuildType} :
      action ∈ pipeline.actions → cell ∈ pipeline.cells action →
      name ∈ action.dependsOn → pipeline.action? name = some peer →
      peer.acceptsType cell.module.productType = true →
      peer.acceptsPlatform cell.platform = true →
      buildType ∈ peerBuildTypes peer cell.buildType →
      Declares pipeline (TaskName.ofCell action.name cell)
        (TaskName.ofCell peer.name { cell with isTest := cell.isTest && peer.tests, buildType })
  /-- In the test partition, on the same action in the main partition. -/
  | main {action : Action} {cell : Cell} :
      action ∈ pipeline.actions → cell ∈ pipeline.cells action → cell.isTest = true →
      Declares pipeline (TaskName.ofCell action.name cell)
        (TaskName.ofCell action.name cell.mainPartition)
  /-- On the same action in the main partition of a module that the cell's module depends on, where
  the action applies to it. -/
  | module {action : Action} {cell : Cell} {scope : ResolutionScope}
      {dependency : ModuleDependency} {module : Module} :
      action ∈ pipeline.actions → cell ∈ pipeline.cells action →
      action.moduleDependencies = some scope →
      dependency ∈ cell.module.dependencies → dependency.scope.includes scope = true →
      pipeline.project.module? dependency.module = some module →
      module.hasPlatform cell.platform = true → action.acceptsType module.productType = true →
      Declares pipeline (TaskName.ofCell action.name cell)
        (TaskName.ofCell action.name (cell.withModule module).mainPartition)

/-- The names of the tasks of all actions, in the order of registration. -/
def taskNames (pipeline : Pipeline) : List TaskName :=
  pipeline.actions.flatMap fun action =>
    (pipeline.cells action).map (TaskName.ofCell action.name)

theorem mem_taskNames (haction : action ∈ pipeline.actions)
    (hcell : cell ∈ pipeline.cells action) :
    TaskName.ofCell action.name cell ∈ pipeline.taskNames :=
  List.mem_flatMap.mpr ⟨action, haction, List.mem_map_of_mem hcell⟩

/-- **Both ends** of a dependency are names of tasks. -/
theorem Declares.ends (h : pipeline.Declares a b) :
    a ∈ pipeline.taskNames ∧ b ∈ pipeline.taskNames := by
  cases h with
  | peer haction hcell _ hpeer htype hplatform hbuild =>
    exact ⟨mem_taskNames haction hcell, mem_taskNames (List.mem_of_find?_eq_some hpeer)
      (peer_mem_cells hcell htype hplatform hbuild)⟩
  | main haction hcell _ =>
    exact ⟨mem_taskNames haction hcell, mem_taskNames haction (mainPartition_mem_cells hcell)⟩
  | module haction hcell _ _ _ hmodule hin htype =>
    have hmem := List.mem_of_find?_eq_some hmodule
    exact ⟨mem_taskNames haction hcell, mem_taskNames haction
      (mainPartition_mem_cells (withModule_mem_cells hcell hmem hin htype))⟩

/-- A name is that of a **peer** of a cell: a task of a listed action in the same cell. -/
def IsPeer (pipeline : Pipeline) (cell : Cell) (listed : List String) (b : TaskName) : Prop :=
  ∃ name ∈ listed, ∃ peer, pipeline.action? name = some peer ∧
    peer.acceptsType cell.module.productType = true ∧
    peer.acceptsPlatform cell.platform = true ∧
    ∃ buildType ∈ peerBuildTypes peer cell.buildType,
      b = TaskName.ofCell peer.name { cell with isTest := cell.isTest && peer.tests, buildType }

/-- What a cell depends on by listed actions are its peers. -/
theorem mem_peersOf {listed : List String} {names : List TaskName}
    (h : pipeline.peersOf action cell listed = .ok names) :
    b ∈ names ↔ pipeline.IsPeer cell listed b := by
  induction listed generalizing names with
  | nil =>
    cases h
    simp [IsPeer]
  | cons name rest ih =>
    rw [peersOf] at h
    cases hpeer : pipeline.action? name with
    | none => simp [hpeer] at h
    | some peer =>
      cases hrest : pipeline.peersOf action cell rest with
      | error error => simp [hpeer, hrest] at h
      | ok others =>
        simp only [hpeer, hrest, Except.ok.injEq] at h
        subst h
        rw [List.mem_append, ih hrest, IsPeer, IsPeer, List.exists_mem_cons_iff]
        refine or_congr ?_ Iff.rfl
        rw [peerTasks]
        simp only [hpeer, Option.some.injEq, exists_eq_left']
        split
        · next happlies =>
            obtain ⟨htype, hplatform⟩ := Bool.and_eq_true_iff.mp happlies
            simp [htype, hplatform, eq_comm]
        · next happlies =>
            simp only [List.not_mem_nil, false_iff, not_and]
            intro htype hplatform
            simp [htype, hplatform] at happlies

/-- What a cell depends on **within its own module**: its peers and, in the test partition, the main
partition. -/
theorem mem_peers {names : List TaskName} (h : pipeline.peers action cell = .ok names) :
    b ∈ names ↔ pipeline.IsPeer cell action.dependsOn b ∨
      (cell.isTest = true ∧ b = TaskName.ofCell action.name cell.mainPartition) := by
  rw [peers] at h
  cases hpeers : pipeline.peersOf action cell action.dependsOn with
  | error error => simp [hpeers] at h
  | ok listed =>
    simp only [hpeers, Except.ok.injEq] at h
    subst h
    rw [← mem_peersOf hpeers]
    cases htest : cell.isTest with
    | false => simp
    | true => simp

/-- What an action's tasks depend on **in other modules**. -/
theorem mem_moduleEdges :
    (a, b) ∈ pipeline.moduleEdges action ↔
      ∃ scope cell dependency module, action.moduleDependencies = some scope ∧
        cell ∈ pipeline.cells action ∧ dependency ∈ cell.module.dependencies ∧
        dependency.scope.includes scope = true ∧
        pipeline.project.module? dependency.module = some module ∧
        module.hasPlatform cell.platform = true ∧ action.acceptsType module.productType = true ∧
        a = TaskName.ofCell action.name cell ∧
        b = TaskName.ofCell action.name (cell.withModule module).mainPartition := by
  rw [moduleEdges]
  cases hscope : action.moduleDependencies with
  | none => simp
  | some scope =>
    simp only [List.mem_filterMap, Matrix.dependencyPairs, List.mem_flatMap, List.mem_filter]
    constructor
    · rintro ⟨⟨c, m⟩, ⟨cell, hcell, d, ⟨hd, hincludes⟩, hpair⟩, hedge⟩
      split at hpair
      · next module hmodule =>
          split at hpair
          · next hin =>
              cases hpair
              split at hedge
              · next htype =>
                  cases hedge
                  exact ⟨scope, c, d, m, rfl, hcell, hd, hincludes, hmodule, hin, htype, rfl, rfl⟩
              · cases hedge
          · cases hpair
      · cases hpair
    · rintro ⟨_, cell, d, m, hsome, hcell, hd, hincludes, hmodule, hin, htype, rfl, rfl⟩
      cases hsome
      exact ⟨(cell, m), ⟨cell, hcell, d, ⟨hd, hincludes⟩, by simp [hmodule, hin]⟩,
        by simp [htype]⟩

/-! ### What is registered -/

open GraphBuilder Declaration

/-- The declaration of a task in a cell. -/
def cellDeclaration (pipeline : Pipeline) (action : Action) (cell : Cell) : Declaration Work :=
  .task (pipeline.task action cell) ((pipeline.peers action cell).toOption.getD [])

/-- The **declarations** of an action: its tasks, and then the dependencies between modules. -/
def actionDeclarations (pipeline : Pipeline) (action : Action) : List (Declaration Work) :=
  (pipeline.cells action).map (pipeline.cellDeclaration action) ++
    (pipeline.moduleEdges action).map fun edge => .dependency edge.1 edge.2

theorem name_task (pipeline : Pipeline) (action : Action) (cell : Cell) :
    (pipeline.task action cell).name = TaskName.ofCell action.name cell := by
  rw [task]
  split <;> rfl

/-- What is registered for **some cells**: each declaration counts. -/
theorem registerCells_spec {count : Nat} {before : List (Declaration Work)} {cells : List Cell}
    {next : Nat × GraphBuilder Work}
    (h : pipeline.registerCells action count (declareAll before) cells = .ok next) :
    (∀ cell ∈ cells, ∃ names, pipeline.peers action cell = .ok names) ∧
    next = (count + cells.length,
      declareAll (before ++ cells.map (pipeline.cellDeclaration action))) ∧
    effective [] (before ++ cells.map (pipeline.cellDeclaration action)) =
      effective [] before ++ cells.map (pipeline.cellDeclaration action) := by
  induction cells generalizing count before with
  | nil =>
    cases h
    simp
  | cons cell rest ih =>
    rw [registerCells] at h
    cases hpeers : pipeline.peers action cell with
    | error error => simp [hpeers] at h
    | ok names =>
      have hdeclaration : pipeline.cellDeclaration action cell =
          .task (pipeline.task action cell) names := by
        rw [cellDeclaration, hpeers]
        rfl
      cases hregister : (declareAll before).register (pipeline.task action cell) names with
      | error error => simp [hpeers, hregister] at h
      | ok builder =>
        simp only [hpeers, hregister] at h
        obtain ⟨hnew, hnext⟩ := register_eq_ok_iff.mp hregister
        have hbuilder :
            builder = declareAll (before ++ [pipeline.cellDeclaration action cell]) := by
          rw [declareAll_concat, hdeclaration, declare_task_of_notMem hnew, hnext]
        rw [hbuilder] at h
        obtain ⟨hrest, rfl, heffective⟩ := ih h
        rw [names_declareAll] at hnew
        rw [hdeclaration, effective_concat_of_notMem before hnew, ← hdeclaration,
          List.append_assoc, List.append_assoc] at heffective
        exact ⟨List.forall_mem_cons.mpr ⟨⟨names, hpeers⟩, hrest⟩,
          by rw [List.append_assoc, Nat.add_right_comm]; rfl, heffective⟩

theorem foldl_depend_spec (before : List (Declaration Work)) (edges : List (TaskName × TaskName)) :
    edges.foldl (fun builder edge => builder.depend edge.1 edge.2) (declareAll before) =
      declareAll (before ++ edges.map fun edge => .dependency edge.1 edge.2) ∧
    effective [] (before ++ edges.map fun edge => .dependency edge.1 edge.2) =
      effective [] before ++ edges.map fun edge => .dependency edge.1 edge.2 := by
  induction edges generalizing before with
  | nil => simp
  | cons edge rest ih =>
    obtain ⟨hfold, heffective⟩ := ih (before ++ [.dependency edge.1 edge.2])
    rw [declareAll_concat, List.append_assoc] at hfold
    rw [effective_concat_dependency, List.append_assoc, List.append_assoc] at heffective
    exact ⟨hfold, heffective⟩

/-- What is registered for **some actions**: each declaration counts. -/
theorem registerActions_spec {count : Nat} (before : List (Declaration Work))
    {actions : List Action} {next : Nat × GraphBuilder Work}
    (h : pipeline.registerActions count (declareAll before) actions = .ok next) :
    (∀ action ∈ actions, ∀ cell ∈ pipeline.cells action,
      ∃ names, pipeline.peers action cell = .ok names) ∧
    next = (count + (actions.flatMap pipeline.cells).length,
      declareAll (before ++ actions.flatMap pipeline.actionDeclarations)) ∧
    effective [] (before ++ actions.flatMap pipeline.actionDeclarations) =
      effective [] before ++ actions.flatMap pipeline.actionDeclarations := by
  induction actions generalizing count before with
  | nil =>
    cases h
    simp
  | cons action rest ih =>
    rw [registerActions] at h
    cases hcells : pipeline.registerCells action count (declareAll before)
      (pipeline.cells action) with
    | error refusal => simp [hcells] at h
    | ok registered =>
      simp only [hcells] at h
      obtain ⟨hpeers, rfl, hcount⟩ := registerCells_spec hcells
      simp only at h
      obtain ⟨hfold, hmore⟩ := foldl_depend_spec
        (before ++ (pipeline.cells action).map (pipeline.cellDeclaration action))
        (pipeline.moduleEdges action)
      rw [hfold] at h
      obtain ⟨hrest, rfl, heffective⟩ := ih _ h
      rw [hmore, hcount] at heffective
      refine ⟨List.forall_mem_cons.mpr ⟨hpeers, hrest⟩, ?_, ?_⟩
      · simp [actionDeclarations, Nat.add_assoc]
      · simpa [actionDeclarations] using heffective

/-- The declarations of a pipeline. -/
def declarations (pipeline : Pipeline) : List (Declaration Work) :=
  pipeline.actions.flatMap pipeline.actionDeclarations

theorem filterMap_task?_actionDeclarations (pipeline : Pipeline) (action : Action) :
    (pipeline.actionDeclarations action).filterMap task? =
      (pipeline.cells action).map (pipeline.task action) := by
  have hcells : ((pipeline.cells action).map (pipeline.cellDeclaration action)).filterMap task? =
      (pipeline.cells action).map (pipeline.task action) := by
    rw [List.filterMap_map, ← List.filterMap_eq_map]
    rfl
  have hedges : ((pipeline.moduleEdges action).map fun edge =>
      (Declaration.dependency edge.1 edge.2 : Declaration Work)).filterMap task? = [] := by
    simp [task?]
  rw [actionDeclarations, List.filterMap_append, hcells, hedges, List.append_nil]

/-- The dependencies of an action's declarations are those of its cells and those between
modules. -/
theorem mem_edges_actionDeclarations
    (hpeers : ∀ cell ∈ pipeline.cells action, ∃ names, pipeline.peers action cell = .ok names) :
    (a, b) ∈ (pipeline.actionDeclarations action).flatMap Declaration.edges ↔
      (∃ cell ∈ pipeline.cells action, a = TaskName.ofCell action.name cell ∧
        ∃ names, pipeline.peers action cell = .ok names ∧ b ∈ names) ∨
      (a, b) ∈ pipeline.moduleEdges action := by
  rw [actionDeclarations, List.flatMap_append, List.mem_append]
  refine or_congr ?_ ?_
  · rw [List.flatMap_map, List.mem_flatMap]
    refine exists_congr fun cell => and_congr_right fun hcell => ?_
    obtain ⟨names, hnames⟩ := hpeers cell hcell
    have hedges : (pipeline.cellDeclaration action cell).edges =
        names.map fun d => (TaskName.ofCell action.name cell, d) := by
      rw [cellDeclaration, hnames, Declaration.edges, name_task]
      rfl
    simp only [hedges, hnames, List.mem_map, Prod.mk.injEq, Except.ok.injEq, exists_eq_left']
    constructor
    · rintro ⟨d, hd, rfl, rfl⟩
      exact ⟨rfl, hd⟩
    · rintro ⟨rfl, hb⟩
      exact ⟨b, hb, rfl, rfl⟩
  · simp [Declaration.edges]

/-- **The tasks and the dependencies that a pipeline declares**: a task for each cell of each
action, and between them what the actions say. -/
theorem register_spec {count : Nat} {builder : GraphBuilder Work}
    (h : pipeline.register = .ok (count, builder)) :
    count = pipeline.taskNames.length ∧ builder = declareAll pipeline.declarations ∧
    names pipeline.declarations = pipeline.taskNames ∧
    ∀ a b, (a, b) ∈ dependencies pipeline.declarations ↔ pipeline.Declares a b := by
  have hspec := registerActions_spec [] h
  rw [List.nil_append, ← declarations] at hspec
  obtain ⟨hpeers, hbuilder, hcount⟩ := hspec
  rw [effective, List.nil_append] at hcount
  obtain ⟨rfl, rfl⟩ := Prod.mk.inj hbuilder
  refine ⟨by simp [taskNames, List.length_flatMap], rfl, ?_, fun a b => ?_⟩
  · rw [names, registered, hcount, declarations, List.filterMap_flatMap, List.map_flatMap,
      taskNames]
    refine List.flatMap_congr fun action _ => ?_
    rw [filterMap_task?_actionDeclarations, List.map_map]
    exact List.map_congr_left fun cell _ => name_task pipeline action cell
  · rw [dependencies, hcount, declarations, List.flatMap_assoc, List.mem_flatMap]
    constructor
    · rintro ⟨action, haction, hmem⟩
      rcases (mem_edges_actionDeclarations (hpeers action haction)).mp hmem with
        ⟨cell, hcell, rfl, names, hnames, hb⟩ | hedge
      · rcases (mem_peers hnames).mp hb with hpeer | ⟨htest, rfl⟩
        · obtain ⟨name, hname, peer, hpeer, htype, hplatform, buildType, hbuild, rfl⟩ := hpeer
          exact .peer haction hcell hname hpeer htype hplatform hbuild
        · exact .main haction hcell htest
      · obtain ⟨scope, cell, d, module, hscope, hcell, hd, hincludes, hmodule, hin, htype, rfl,
          rfl⟩ := mem_moduleEdges.mp hedge
        exact .module haction hcell hscope hd hincludes hmodule hin htype
    · intro hdeclares
      -- a dependency within the module is one that was looked up when its cell was registered
      have hown : ∀ {action cell b}, action ∈ pipeline.actions → cell ∈ pipeline.cells action →
          (pipeline.IsPeer cell action.dependsOn b ∨
            cell.isTest = true ∧ b = TaskName.ofCell action.name cell.mainPartition) →
          ∃ owner ∈ pipeline.actions, (TaskName.ofCell action.name cell, b) ∈
            (pipeline.actionDeclarations owner).flatMap Declaration.edges := by
        intro action cell b haction hcell hb
        obtain ⟨names, hnames⟩ := hpeers action haction cell hcell
        exact ⟨action, haction, (mem_edges_actionDeclarations (hpeers action haction)).mpr
          (.inl ⟨cell, hcell, rfl, names, hnames, (mem_peers hnames).mpr hb⟩)⟩
      cases hdeclares with
      | peer haction hcell hname hpeer htype hplatform hbuild =>
        exact hown haction hcell
          (.inl ⟨_, hname, _, hpeer, htype, hplatform, _, hbuild, rfl⟩)
      | main haction hcell htest => exact hown haction hcell (.inr ⟨htest, rfl⟩)
      | module haction hcell hscope hd hincludes hmodule hin htype =>
        exact ⟨_, haction, (mem_edges_actionDeclarations (hpeers _ haction)).mpr
          (.inr (mem_moduleEdges.mpr
            ⟨_, _, _, _, hscope, hcell, hd, hincludes, hmodule, hin, htype, rfl, rfl⟩))⟩

/-- **Every dependency of a pipeline resolves**, whatever the project and its actions. If everything
could be registered, there is a task for each cell of each action, the dependencies are exactly
those that the actions declare, both ends of each of them are registered, and so building the graph
never finds an end that is missing. -/
theorem every_edge_resolves (pipeline : Pipeline) {count : Nat} {builder : GraphBuilder Work}
    (h : pipeline.register = .ok (count, builder)) :
    builder.tasks.map (·.name) = pipeline.taskNames ∧
    (∀ a b, b ∈ builder.edges.of a ↔ pipeline.Declares a b) ∧
    (∀ a b, pipeline.Declares a b →
      a ∈ builder.tasks.map (·.name) ∧ b ∈ builder.tasks.map (·.name)) ∧
    ∀ missing dependent dependency,
      builder.build ≠ .error (.unresolvedReference missing dependent dependency) := by
  obtain ⟨-, rfl, hnames, hdependencies⟩ := register_spec h
  have hresolved : Resolved pipeline.declarations := by
    rintro ⟨a, b⟩ hmem
    rw [hnames]
    exact ((hdependencies a b).mp hmem).ends
  rw [names_declareAll, hnames]
  refine ⟨rfl, fun a b => ?_, fun a b => Declares.ends, fun missing dependent dependency => ?_⟩
  · rw [of_edges_declareAll, mem_targets, hdependencies]
  · intro hbuild
    rcases build_declareAll_cases pipeline.declarations with ⟨hnot, -⟩ | ⟨-, -, _, _, heq⟩ |
      ⟨-, -, -, _, heq⟩ | ⟨-, -, -, _, heq⟩
    · exact hnot hresolved
    all_goals simp [heq] at hbuild

/-- An **application on top of a library**: both are compiled for tests and build types, and what is
compiled is checked once, whatever its build type. -/
def apps : Pipeline where
  project := {
    root := ⟨"/work"⟩
    modules := [
      { name := "core", platforms := [.jvm, .js] },
      { name := "app", productType := .jvmApp, platforms := [.jvm],
        dependencies := [{ module := "core" }] }] }
  actions := [
    { name := "check", dependsOn := ["compile"] },
    { name := "compile", platforms := [.jvm], tests := true, buildTypes := true,
      moduleDependencies := some .compile }]

theorem isSome_register_apps : apps.register.toOption.isSome = true := by decide +kernel

/-- All tasks of the application and the library can be registered, and their dependencies resolve,
among them those of checks on tasks that are registered after them. -/
theorem every_edge_resolves_apps : ∃ count builder, apps.register = .ok (count, builder) ∧
    builder.tasks.map (·.name.text) =
      [":core:checkJvm", ":core:checkJs", ":app:checkJvm",
        ":core:compileJvmDebug", ":core:compileJvmRelease",
        ":core:compileJvmTestDebug", ":core:compileJvmTestRelease",
        ":app:compileJvmDebug", ":app:compileJvmRelease",
        ":app:compileJvmTestDebug", ":app:compileJvmTestRelease"] ∧
    builder.edges.of ⟨":app:checkJvm"⟩ = [⟨":app:compileJvmDebug"⟩, ⟨":app:compileJvmRelease"⟩] ∧
    builder.edges.of ⟨":app:compileJvmTestDebug"⟩ =
      [⟨":app:compileJvmDebug"⟩, ⟨":core:compileJvmDebug"⟩] ∧
    ∀ missing dependent dependency,
      builder.build ≠ .error (.unresolvedReference missing dependent dependency) := by
  have hregister := eq_ok_of_toOption_eq_some (Option.some_get isSome_register_apps).symm
  exact ⟨_, _, hregister, by decide +kernel, by decide +kernel, by decide +kernel,
    (every_edge_resolves apps hregister).2.2.2⟩

end Pipeline

end BuildMatrix
