import BuildMatrix.Proofs.Registration
import Mathlib.Data.Prod.Basic

/-!
# Along the dependencies of a pipeline

A dependency of a pipeline leads from a slot to another action in the same cell, from the test
partition to the main one, or to the same action in another module. What each of these three does to
the slot is said once; everything else about the dependencies of a pipeline, however long the way,
follows from it.

The way never comes back if neither actions nor modules depend on themselves: each dependency goes
on to a module that is depended on, or else to such an action, or else leaves the test partition.
And it never changes the platform, enters the test partition, or takes up a build type, so that the
variants of a project are kept apart.
-/

namespace BuildMatrix

variable {name : String}

/-- By some actions, one **name of an action** depends on another. -/
def Action.DependsOn (actions : List Action) (name other : String) : Prop :=
  ∃ action ∈ actions, action.name = name ∧ other ∈ action.dependsOn

/-- By some modules, one **name of a module** depends on another. -/
def Module.DependsOn (modules : List Module) (name other : String) : Prop :=
  ∃ module ∈ modules, module.name = name ∧ ∃ d ∈ module.dependencies, d.module = other

theorem Project.name_of_module?_eq_some {project : Project} {module : Module}
    (h : project.module? name = some module) : module.name = name := by
  simpa using List.find?_some h

namespace Pipeline

variable {pipeline : Pipeline} {slot next : Slot} {action : Action} {a b : TaskName}

/-! ### What a dependency does -/

theorem name_of_action?_eq_some (h : pipeline.action? name = some action) : action.name = name := by
  simpa using List.find?_some h

/-- What a dependency of a pipeline **does to a slot**. -/
inductive Leads (pipeline : Pipeline) : Slot → Slot → Prop
  /-- It goes to an action that is listed, in the same cell as far as that action has it. -/
  | peer {action peer : Action} {cell : Cell} {buildType : Option BuildType} :
      ⟨action, cell⟩ ∈ pipeline.slots → peer.name ∈ action.dependsOn →
      pipeline.action? peer.name = some peer → buildType ∈ peerBuildTypes peer cell.buildType →
      Leads pipeline ⟨action, cell⟩
        ⟨peer, { cell with isTest := cell.isTest && peer.tests, buildType }⟩
  /-- It leaves the test partition. -/
  | main {action : Action} {cell : Cell} :
      ⟨action, cell⟩ ∈ pipeline.slots → cell.isTest = true →
      Leads pipeline ⟨action, cell⟩ ⟨action, cell.mainPartition⟩
  /-- It goes to the main partition of a module that is depended on. -/
  | module {action : Action} {cell : Cell} {dependency : ModuleDependency} {module : Module} :
      ⟨action, cell⟩ ∈ pipeline.slots → dependency ∈ cell.module.dependencies →
      module.name = dependency.module →
      Leads pipeline ⟨action, cell⟩ ⟨action, (cell.withModule module).mainPartition⟩

theorem mk_mem_slots {cell : Cell} (haction : action ∈ pipeline.actions)
    (hcell : cell ∈ pipeline.cells action) : ⟨action, cell⟩ ∈ pipeline.slots :=
  mem_slots.mpr ⟨haction, hcell⟩

theorem Declares.exists_leads (h : pipeline.Declares a b) :
    ∃ slot next, slot ∈ pipeline.slots ∧ next ∈ pipeline.slots ∧ slot.name = a ∧ next.name = b ∧
      pipeline.Leads slot next := by
  cases h with
  | peer haction hcell hname hpeer htype hplatform hbuild =>
    have hslot := mk_mem_slots haction hcell
    have hnext := mk_mem_slots (List.mem_of_find?_eq_some hpeer)
      (peer_mem_cells hcell htype hplatform hbuild)
    obtain rfl := name_of_action?_eq_some hpeer
    exact ⟨_, _, hslot, hnext, rfl, rfl, .peer hslot hname hpeer hbuild⟩
  | main haction hcell htest =>
    have hslot := mk_mem_slots haction hcell
    have hnext := mk_mem_slots haction (mainPartition_mem_cells hcell)
    exact ⟨_, _, hslot, hnext, rfl, rfl, .main hslot htest⟩
  | module haction hcell hscope hd hincludes hmodule hin htype =>
    have hslot := mk_mem_slots haction hcell
    have hnext := mk_mem_slots haction (mainPartition_mem_cells
      (withModule_mem_cells hcell (List.mem_of_find?_eq_some hmodule) hin htype))
    have hname := Project.name_of_module?_eq_some hmodule
    exact ⟨_, _, hslot, hnext, rfl, rfl, .module hslot hd hname⟩

/-- **A chain of dependencies between names is a way between slots**, where different slots have
different names: whatever a name leads to, it leads there from its one slot. -/
theorem exists_path (hnodup : (pipeline.slots.map Slot.name).Nodup)
    (h : Relation.TransGen pipeline.Declares a b) :
    ∃ slot next, slot ∈ pipeline.slots ∧ next ∈ pipeline.slots ∧ slot.name = a ∧ next.name = b ∧
      Relation.TransGen pipeline.Leads slot next := by
  induction h with
  | single hdeclares =>
    obtain ⟨slot, next, hslot, hnext, hname, hother, hleads⟩ := hdeclares.exists_leads
    exact ⟨slot, next, hslot, hnext, hname, hother, .single hleads⟩
  | tail _ hdeclares ih =>
    obtain ⟨slot, middle, hslot, hmiddle, hname, rfl, hpath⟩ := ih
    obtain ⟨other, next, hother, hnext, hsame, hlast, hleads⟩ := hdeclares.exists_leads
    obtain rfl := List.inj_on_of_nodup_map hnodup hother hmiddle hsame
    exact ⟨slot, next, hslot, hnext, hname, hlast, hpath.tail hleads⟩

/-! ### Nothing comes back -/

/-- What **goes down** along every dependency: the module, then the action, then the partition. -/
def Slot.rank (slot : Slot) : String × String × Bool :=
  (slot.cell.module.name, slot.action.name, slot.cell.isTest)

/-- One rank is **below** another: the module is depended on, or else the action is, or else it is
the main partition instead of the test partition. -/
def Below (pipeline : Pipeline) : String × String × Bool → String × String × Bool → Prop :=
  Prod.Lex (fun m m' => Relation.TransGen (Module.DependsOn pipeline.project.modules) m' m)
    (Prod.Lex (fun a a' => Relation.TransGen (Action.DependsOn pipeline.actions) a' a) (· < ·))

/-- **Every dependency goes down.** -/
theorem Leads.below (h : pipeline.Leads slot next) : pipeline.Below next.rank slot.rank := by
  cases h with
  | peer hslot hlisted _ _ =>
    exact .right _ (.left _ _ (.single ⟨_, (mem_slots.mp hslot).1, rfl, hlisted⟩))
  | main hslot htest =>
    refine .right _ (.right _ ?_)
    simp [Cell.mainPartition, htest]
  | module hslot hd hname =>
    have hmodule := (mem_cells.mp (mem_slots.mp hslot).2).1
    exact .left _ _ (.single ⟨_, hmodule, rfl, _, hd, hname.symm⟩)

theorem below_of_path (h : Relation.TransGen pipeline.Leads slot next) :
    pipeline.Below next.rank slot.rank := by
  have : IsTrans String fun m m' =>
      Relation.TransGen (Module.DependsOn pipeline.project.modules) m' m :=
    ⟨fun _ _ _ hab hbc => hbc.trans hab⟩
  have : IsTrans String fun a a' =>
      Relation.TransGen (Action.DependsOn pipeline.actions) a' a :=
    ⟨fun _ _ _ hab hbc => hbc.trans hab⟩
  have htrans : IsTrans _ pipeline.Below := inferInstanceAs (IsTrans _ (Prod.Lex _ _))
  induction h with
  | single hleads => exact hleads.below
  | tail _ hleads ih => exact htrans.trans _ _ _ hleads.below ih

/-- A pipeline whose actions and modules do not depend on themselves declares **no cycle**: a way
back to its own slot would go down to where it started. -/
theorem acyclic_declares (hnodup : (pipeline.slots.map Slot.name).Nodup)
    (hactions : ∀ name, ¬Relation.TransGen (Action.DependsOn pipeline.actions) name name)
    (hmodules : ∀ name, ¬Relation.TransGen (Module.DependsOn pipeline.project.modules) name name)
    (name : TaskName) : ¬Relation.TransGen pipeline.Declares name name := by
  intro hcycle
  have : Std.Irrefl fun m m' =>
      Relation.TransGen (Module.DependsOn pipeline.project.modules) m' m := ⟨hmodules⟩
  have : Std.Irrefl fun a a' =>
      Relation.TransGen (Action.DependsOn pipeline.actions) a' a := ⟨hactions⟩
  have hirrefl : Std.Irrefl pipeline.Below := inferInstanceAs (Std.Irrefl (Prod.Lex _ _))
  obtain ⟨slot, next, hslot, hnext, rfl, hname, hpath⟩ := exists_path hnodup hcycle
  obtain rfl := List.inj_on_of_nodup_map hnodup hnext hslot hname
  exact hirrefl.irrefl _ (below_of_path hpath)

/-- **Declarations without cycles make no cycle.** If everything could be registered, and neither
actions nor modules depend on themselves, directly or not, then building the graph never finds a
cycle, whatever the actions apply to and ask for: if it does not succeed, two tasks share an output
directory. -/
theorem acyclic_declarations_build (pipeline : Pipeline) {count : Nat}
    {builder : GraphBuilder Work} (h : pipeline.register = .ok (count, builder))
    (hactions : ∀ name, ¬Relation.TransGen (Action.DependsOn pipeline.actions) name name)
    (hmodules : ∀ name, ¬Relation.TransGen (Module.DependsOn pipeline.project.modules) name name) :
    (∀ cycle, builder.build ≠ .error (.cyclicDependency cycle)) ∧
    ((∃ graph, builder.build = .ok graph) ∨
      ∃ first second, builder.build = .error (.outputDirectoryConflict first second)) := by
  have hnodup := nodup_map_name_slots h
  obtain ⟨-, rfl, hnames, hdeclares⟩ := register_spec h
  have hresolved : Declaration.Resolved pipeline.declarations := fun ⟨a, b⟩ hedge =>
    hnames ▸ ((hdeclares a b).mp hedge).ends
  have hacyclic : Declaration.Acyclic pipeline.declarations := by
    simp only [Declaration.Acyclic, hdeclares]
    exact acyclic_declares hnodup hactions hmodules
  rcases GraphBuilder.build_declareAll_cases pipeline.declarations with ⟨hnot, -⟩ |
    ⟨-, -, first, second, hconflict⟩ | ⟨-, -, hnot, -⟩ | ⟨-, -, -, graph, hgraph⟩
  · exact absurd hresolved hnot
  · exact ⟨by simp [hconflict], .inr ⟨first, second, hconflict⟩⟩
  · exact absurd hacyclic hnot
  · exact ⟨by simp [hgraph], .inl ⟨graph, hgraph⟩⟩

theorem not_transGen_of_edge {α : Type} {r : α → α → Prop} {first last : α} (hne : first ≠ last)
    (h : ∀ a b, r a b → a = first ∧ b = last) (a : α) : ¬Relation.TransGen r a a := by
  intro hcycle
  obtain ⟨b, hab, -⟩ := Relation.TransGen.head'_iff.mp hcycle
  obtain ⟨c, -, hca⟩ := Relation.TransGen.tail'_iff.mp hcycle
  exact hne ((h a b hab).1.symm.trans (h c a hca).2)

/-- The library and the application, compiled for tests and build types and across modules, make a
graph. -/
theorem acyclic_declarations_build_layered :
    (∀ name, ¬Relation.TransGen (Action.DependsOn Config.layered.actions) name name) ∧
    (∀ name, ¬Relation.TransGen (Module.DependsOn Config.layered.modules) name name) ∧
    ∃ count builder, (Config.layered.pipeline ⟨"/work"⟩ none).register = .ok (count, builder) ∧
      ∀ cycle, builder.build ≠ .error (.cyclicDependency cycle) := by
  have hactions : ∀ name,
      ¬Relation.TransGen (Action.DependsOn Config.layered.actions) name name := by
    refine not_transGen_of_edge (show "pack" ≠ "compile" by decide) fun a b h => ?_
    obtain ⟨action, haction, rfl, hb⟩ := h
    simp only [Config.layered, List.mem_cons, List.not_mem_nil, or_false] at haction
    rcases haction with rfl | rfl
    · exact ⟨rfl, List.mem_singleton.mp hb⟩
    · cases hb
  have hmodules : ∀ name,
      ¬Relation.TransGen (Module.DependsOn Config.layered.modules) name name := by
    refine not_transGen_of_edge (show "app" ≠ "core" by decide) fun a b h => ?_
    obtain ⟨module, hmodule, rfl, d, hd, rfl⟩ := h
    simp only [Config.layered, List.mem_cons, List.not_mem_nil, or_false] at hmodule
    rcases hmodule with rfl | rfl
    · cases hd
    · exact ⟨rfl, by rw [List.mem_singleton.mp hd]⟩
  obtain ⟨⟨count, builder⟩, hbuilder, -⟩ := Config.register_layered
  exact ⟨hactions, hmodules, count, builder, hbuilder,
    (acyclic_declarations_build _ hbuilder hactions hmodules).1⟩

/-! ### Variants are kept apart -/

/-- The second slot **belongs to the variant** of the first: it has the platform, and of the
partition, the build type and the module nothing that the first is apart from. -/
structure Slot.Isolated (modules : List Module) (slot next : Slot) : Prop where
  platform : next.cell.platform = slot.cell.platform
  main : slot.cell.isTest = false → next.cell.isTest = false
  untyped : slot.cell.buildType = none → next.cell.buildType = none
  typed : ∀ type, slot.cell.buildType = some type →
    next.cell.buildType = none ∨ next.cell.buildType = some type
  module : next.cell.module = slot.cell.module ∨
    Relation.TransGen (Module.DependsOn modules) slot.cell.module.name next.cell.module.name

theorem Slot.Isolated.trans {modules : List Module} {slot middle next : Slot}
    (h : slot.Isolated modules middle) (hnext : middle.Isolated modules next) :
    slot.Isolated modules next := by
  refine ⟨hnext.platform.trans h.platform, fun hmain => hnext.main (h.main hmain),
    fun hnone => hnext.untyped (h.untyped hnone), fun type htype => ?_, ?_⟩
  · rcases h.typed type htype with hnone | hsome
    · exact .inl (hnext.untyped hnone)
    · exact hnext.typed type hsome
  · rcases h.module with hsame | hpath <;> rcases hnext.module with hsame' | hpath'
    · exact .inl (hsame'.trans hsame)
    · exact .inr (hsame ▸ hpath')
    · exact .inr (hsame' ▸ hpath)
    · exact .inr (hpath.trans hpath')

/-- **Every dependency keeps to the variant**, where an action with build types is asked for only by
actions with build types: a cell without one never meets an action that would take all of them. -/
theorem Leads.isolated
    (hpeers : ∀ action ∈ pipeline.actions, ∀ name ∈ action.dependsOn, ∀ peer,
      pipeline.action? name = some peer → peer.buildTypes = true → action.buildTypes = true)
    (h : pipeline.Leads slot next) : slot.Isolated pipeline.project.modules next := by
  cases h with
  | @peer action peer cell buildType hslot hlisted hpeer hbuild =>
    obtain ⟨haction, hcell⟩ := mem_slots.mp hslot
    have hasked : cell.buildType.isSome = action.buildTypes :=
      (mem_cells.mp hcell).2.2.2.2.2
    have hallowed := hpeers action haction _ hlisted peer hpeer
    refine ⟨rfl, fun hmain => ?_, fun hnone => ?_, fun type htype => ?_, .inl rfl⟩
    · simp only at hmain
      simp [hmain]
    · have hplain : action.buildTypes = false := by
        simp only at hnone
        rw [← hasked, hnone, Option.isSome_none]
      have hpeer' : peer.buildTypes = false := by
        cases hb : peer.buildTypes with
        | false => rfl
        | true =>
          rw [hallowed hb] at hplain
          cases hplain
      simpa [peerBuildTypes, hpeer'] using hbuild
    · simp only at htype
      simp only [peerBuildTypes, htype] at hbuild
      split at hbuild
      · exact .inr (List.mem_singleton.mp hbuild)
      · exact .inl (List.mem_singleton.mp hbuild)
  | main _ _ => exact ⟨rfl, fun _ => rfl, id, fun _ htype => .inr htype, .inl rfl⟩
  | module hslot hd hname =>
    have hmodule := (mem_cells.mp (mem_slots.mp hslot).2).1
    exact ⟨rfl, fun _ => rfl, id, fun _ htype => .inr htype,
      .inr (.single ⟨_, hmodule, rfl, _, hd, hname.symm⟩)⟩

theorem isolated_of_path
    (hpeers : ∀ action ∈ pipeline.actions, ∀ name ∈ action.dependsOn, ∀ peer,
      pipeline.action? name = some peer → peer.buildTypes = true → action.buildTypes = true)
    (h : Relation.TransGen pipeline.Leads slot next) :
    slot.Isolated pipeline.project.modules next := by
  induction h with
  | single hleads => exact hleads.isolated hpeers
  | tail _ hleads ih => exact ih.trans (hleads.isolated hpeers)

theorem declares_of_needs {count : Nat} {builder : GraphBuilder Work} {graph : TaskGraph Work}
    (h : pipeline.register = .ok (count, builder)) (hbuild : builder.build = .ok graph)
    (hneeds : graph.Needs a b) : Relation.TransGen pipeline.Declares a b := by
  obtain ⟨-, rfl, -, hdeclares⟩ := register_spec h
  refine Relation.TransGen.mono (fun name d hd => ?_) _ _ hneeds
  have hname := TaskGraph.mem_names_of_mem_dependenciesOf hd
  rw [(GraphBuilder.declared_declareAll _).dependenciesOf_eq hbuild hname,
    GraphBuilder.of_edges_declareAll, Declaration.mem_targets] at hd
  exact (hdeclares name d).mp hd

end Pipeline

namespace Config

variable {config : Config}

open Pipeline (Slot)

/-- **A task needs nothing outside of its variant**, for every configuration that passes the check
and whose graph builds. Every task is that of one slot; and whatever the task of a slot needs,
directly or not, has the same platform, is in the main partition if the slot is, has no build type
if the slot has none and otherwise none or the same, and is for the slot's module or one that this
depends on. -/
theorem variants_are_isolated (hvalid : config.validate = .ok ()) (root : Path)
    (timeout : Option Duration) {count : Nat} {builder : GraphBuilder Work} {graph : TaskGraph Work}
    (hregister : (config.pipeline root timeout).register = .ok (count, builder))
    (hbuild : builder.build = .ok graph) :
    (∀ name, name ∈ graph.names ↔
      ∃! slot : Slot, (config.pipeline root timeout).Allows slot ∧ slot.name = name) ∧
    ∀ slot next : Slot, (config.pipeline root timeout).Allows slot →
      (config.pipeline root timeout).Allows next → graph.Needs slot.name next.name →
      slot.Isolated config.modules next := by
  have hconsistent := consistent_of_validate hvalid
  have hnodup := Pipeline.nodup_map_name_slots hregister
  simp only [← Pipeline.mem_slots_iff_allows]
  refine ⟨fun name => ?_, fun slot next hslot hnext hneeds => ?_⟩
  · have hnames : graph.names = (config.pipeline root timeout).slots.map Slot.name := by
      rw [GraphBuilder.names_of_build hbuild, Pipeline.tasks_of_register hregister, List.map_map]
      exact List.map_congr_left fun slot _ => Pipeline.name_task _ slot.action slot.cell
    rw [hnames, List.mem_map]
    refine ⟨fun ⟨slot, hslot, hname⟩ => ⟨slot, ⟨hslot, hname⟩, ?_⟩, fun hunique => hunique.exists⟩
    rintro other ⟨hother, rfl⟩
    exact List.inj_on_of_nodup_map hnodup hother hslot hname.symm
  · have hdeclares := Pipeline.declares_of_needs hregister hbuild hneeds
    obtain ⟨first, last, hfirst, hlast, hname, hname', hpath⟩ :=
      Pipeline.exists_path hnodup hdeclares
    obtain rfl := List.inj_on_of_nodup_map hnodup hfirst hslot hname
    obtain rfl := List.inj_on_of_nodup_map hnodup hlast hnext hname'
    refine Pipeline.isolated_of_path (fun action haction name hlisted peer hpeer => ?_) hpath
    obtain ⟨other, hother, hallowed⟩ := hconsistent.peers action haction name hlisted
    obtain rfl : other = peer := Option.some.inj (hother.symm.trans hpeer)
    exact hallowed

/-- The graph of the library and the application: packing the application needs what is compiled of
it, and so what is compiled of the library. -/
theorem build_layered :
    ∃ count builder graph, (layered.pipeline ⟨"/work"⟩ none).register = .ok (count, builder) ∧
      builder.build = .ok graph ∧
      graph.dependenciesOf ⟨":app:packJvmDebug"⟩ = [⟨":app:compileJvmDebug"⟩] ∧
      graph.dependenciesOf ⟨":app:compileJvmDebug"⟩ = [⟨":core:compileJvmDebug"⟩] := by
  have heval : ((layered.pipeline ⟨"/work"⟩ none).register.toOption.bind fun registered =>
      registered.2.build.toOption).map (fun graph =>
        (graph.dependenciesOf ⟨":app:packJvmDebug"⟩, graph.dependenciesOf ⟨":app:compileJvmDebug"⟩))
      = some ([⟨":app:compileJvmDebug"⟩], [⟨":core:compileJvmDebug"⟩]) := by decide +kernel
  obtain ⟨graph, hgraph, hdependencies⟩ := Option.map_eq_some_iff.mp heval
  obtain ⟨⟨count, builder⟩, hbuilder, hbuild⟩ := Option.bind_eq_some_iff.mp hgraph
  exact ⟨count, builder, graph, eq_ok_of_toOption_eq_some hbuilder,
    eq_ok_of_toOption_eq_some hbuild, congrArg Prod.fst hdependencies,
    congrArg Prod.snd hdependencies⟩

/-- Packing the application for debugging needs the library compiled for debugging. -/
theorem variants_are_isolated_layered :
    layered.validate = .ok () ∧
    ∃ count builder graph, (layered.pipeline ⟨"/work"⟩ none).register = .ok (count, builder) ∧
      builder.build = .ok graph ∧
      ∃ slot next : Slot, slot.name = ⟨":app:packJvmDebug"⟩ ∧
        next.name = ⟨":core:compileJvmDebug"⟩ ∧ graph.Needs slot.name next.name ∧
        slot.Isolated layered.modules next := by
  have hvalid : layered.validate = .ok () := by decide +kernel
  obtain ⟨count, builder, graph, hregister, hbuild, hpack, hcompile⟩ := build_layered
  have hneeds : graph.Needs ⟨":app:packJvmDebug"⟩ ⟨":core:compileJvmDebug"⟩ :=
    .tail (.single (hpack ▸ List.mem_singleton_self _)) (hcompile ▸ List.mem_singleton_self _)
  obtain ⟨slot, next, hslot, hnext, hname, hother, -⟩ := Pipeline.exists_path
    (Pipeline.nodup_map_name_slots hregister)
    (Pipeline.declares_of_needs hregister hbuild hneeds)
  rw [← hname, ← hother] at hneeds
  exact ⟨hvalid, count, builder, graph, hregister, hbuild, slot, next, hname, hother, hneeds,
    (variants_are_isolated hvalid ⟨"/work"⟩ none hregister hbuild).2 slot next
      (Pipeline.mem_slots_iff_allows.mp hslot) (Pipeline.mem_slots_iff_allows.mp hnext) hneeds⟩

end Config

end BuildMatrix
