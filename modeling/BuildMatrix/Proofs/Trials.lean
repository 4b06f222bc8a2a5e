import BuildMatrix.Proofs.ProjectBuilds
import BuildMatrix.Proofs.YardRecords
import Mathlib

/-!
# Builds that are tried out

A build of a concrete project can be evaluated in a proof, as all that it does is computed, step by
step. What is assumed of builds can often be checked then: that the trees are neat, and that
commands leave them as they are. Here all commands are run on the system on which they do nothing.
-/

namespace BuildMatrix

open FileTree

/-! ### What can be checked -/

/-- A tree of which every location is known, with **no links in a directory**. -/
@[mk_iff]
structure FileTree.Neat (tree : FileTree) (folder : Location) : Prop where
  here : tree.here = []
  nodup : (tree.entries.map (·.1)).Nodup
  keys : ∀ location ∈ tree.entries.map (·.1), tree.entry? location.dropLast = some .directory
  slots : ∀ e ∈ tree.entries, e.1.dropLast = folder → (e.2 matches .link _) = false

instance (tree : FileTree) (folder : Location) : Decidable (tree.Neat folder) :=
  decidable_of_iff _ (neat_iff tree folder).symm

namespace FileTree.Neat

variable {tree : FileTree} {folder : Location}

theorem tidy (h : tree.Neat folder) : tree.Tidy :=
  tidy_of_entries (by rw [h.here]; rfl) h.nodup h.keys

theorem housed (h : tree.Neat folder) {cache : Cache}
    (hcache : tree.lookup true cache.dir = .ok (folder, .directory)) :
    cache.Housed folder tree := by
  refine ⟨h.tidy, ?_, fun name target hentry => ?_⟩
  · rw [Enters, if_neg (locate_eq_ok_iff.1 (lookup_eq_ok_iff.1 hcache).1).1.ne_empty]
    exact hcache
  · rw [entry?_of_ne_nil _ (by simp)] at hentry
    cases h.slots _ (mem_of_find?_eq_some hentry) List.dropLast_concat

end FileTree.Neat

/-! ### Commands that do nothing -/

theorem Invocation.tree_run_idle (invocation : Invocation) (session : Session) :
    (invocation.run .idle session).2.tree = session.tree := by
  unfold run System.idle
  simp only
  split
  · rfl
  · split <;> rfl

/-- **A command that does nothing has no effect.** -/
theorem Build.Effect.eq_of_idle {place : Place} {limit : Nat} {graph : TaskGraph Work}
    {task : TaskName} {before after : FileTree} (hidle : place.system = .idle)
    (hcommands : ∀ node ∈ graph.nodes, (node.task.work matches .command _) = true)
    (h : Build.Effect ⟨place, limit⟩ graph task before after) : after = before := by
  obtain ⟨node, dependencies, tree, request, session, hnode, hrequest, rfl, rfl⟩ := h
  have hcommand := hcommands node (TaskGraph.mem_nodes_of_get?_eq_some hnode)
  rcases Work.request_eq_ok hrequest with ⟨hwork, -⟩ | ⟨command, files, -, -, rfl⟩
  · rw [hwork] at hcommand
    cases hcommand
  · have hidle : place.system = .idle := hidle
    simp only [Command.request, hidle, bind]
    generalize Command.invocation _ _ _ _ _ = invocation
    have htree := invocation.tree_run_idle session
    unfold Job.andThen
    generalize invocation.run .idle session = result at htree ⊢
    rcases result with ⟨failure | streams, done⟩
    · exact htree
    · simp only [Job.get]
      generalize Command.collectOutputs _ _ _ = outputs
      cases outputs <;> exact htree

namespace Workspace

variable {workspace : Workspace} {targets : List String} {start : FileTree} {run : workspace.Run}
  {folder : Location}

/-- **Try out** the build of some targets from a tree, with room for one task. -/
def tried? (workspace : Workspace) (targets : List String) (start : FileTree) :
    Option workspace.Run :=
  match hwhole : workspace.taskGraph with
  | .error _ => none
  | .ok whole =>
    match hgraph : whole.select targets with
    | .error _ => none
    | .ok _ =>
      match hinit : workspace.layout.init start with
      | (.error _, _) => none
      | (.ok (), made) =>
        have hinit : workspace.layout.init (Session.mk start ⟨0⟩ false [] []).tree =
          (.ok (), made) := hinit
        some (.ofBuild hwhole hgraph hinit .idle 1)

/-- A build that is tried out is **a build that a machine does by itself**, on the system on which
commands do nothing. -/
theorem ofBuild_of_tried? (h : run ∈ workspace.tried? targets start) :
    run.start = start ∧ run.effect = Build.Effect ⟨workspace.place .idle, 1⟩ run.graph := by
  unfold tried? at h
  split at h
  · cases h
  split at h
  · cases h
  split at h
  · cases h
  obtain rfl := Option.some.inj h
  exact ⟨rfl, rfl⟩

/-- **No command changes anything** in a build that is tried out, so that records are left
alone. -/
theorem careful_of_tried? (h : run ∈ workspace.tried? targets start)
    (hcommands : ∀ node ∈ run.graph.nodes, (node.task.work matches .command _) = true)
    (identity : String) : run.yard.Careful folder identity := by
  intro task before after heffect hhoused
  have heffect : run.effect task before after := heffect
  rw [(ofBuild_of_tried? h).2] at heffect
  obtain rfl := heffect.eq_of_idle rfl hcommands
  exact ⟨hhoused, .of_eq rfl⟩

/-- A project in `/p` with some modules and **one action**; its records are in `/p/cache`. -/
def oneAction (output : String) (modules : List Module) (action : Action) : Workspace where
  root := ⟨"/p"⟩
  configPath := ⟨"/p/keel.toml"⟩
  config :=
    { build := { outputDir := ⟨output⟩ }
      cache := { dir := ⟨"cache"⟩ }
      modules
      actions := [action] }
  project := { root := ⟨"/p"⟩, modules }

end Workspace

end BuildMatrix
