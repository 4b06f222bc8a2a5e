import BuildMatrix.Proofs.RecordRemoval
import BuildMatrix.Proofs.SharedUses
import BuildMatrix.Proofs.Yards

/-!
# Records while tasks are at work

Tasks that are at work leave the directory of the cache in its place and the record of a piece of
work as it is, if their commands do, until one of them keeps a record of this work. So whatever the
other tasks do in between, the tasks that ask for one piece of work are callers that share it: their
steps are the steps of such callers, and the steps of all others go on meanwhile.
-/

namespace BuildMatrix

open FileTree

namespace Yard

variable {yard : Yard} {folder : Location} {identity : String} {task : TaskName}
  {hall hall' : Hall} {phase phase' : Phase} {event : SharedWork.Event TaskName} {floor : Floor}
  {made : FileTree}

/-! ### What steps do to a record -/

/-- **Commands leave a record alone**: the directory of the cache stays in its place without links
in it, and the file of the record is what it was. -/
def Careful (yard : Yard) (folder : Location) (identity : String) : Prop :=
  ∀ task before after, yard.effect task before after → yard.place.cache.Housed folder before →
    yard.place.cache.Housed folder after ∧
      before.SameFile after (folder ++ [Cache.recordName identity])

/-- **What a step can do to a record**: it leaves it alone, or keeps a record of what was asked
for. -/
theorem Act.record_cases (h : yard.Act task hall phase event hall' phase')
    (hcareful : yard.Careful folder identity)
    (hhoused : yard.place.cache.Housed folder hall.tree) :
    yard.place.cache.Housed folder hall'.tree ∧
      (hall.tree.SameFile hall'.tree (folder ++ [Cache.recordName identity]) ∨
        yard.Stores event phase hall.tree hall'.tree) := by
  rcases h.tree_cases with hsame | ⟨dir, hmade⟩ | heffect | hstores
  · rw [hsame]
    exact ⟨hhoused, .inl (.of_eq rfl)⟩
  · rw [hmade]
    have hgrows := (hhoused.tidy.sound.createAll dir).1
    exact ⟨hhoused.grow hgrows (hhoused.tidy.createAll dir), .inl (.of_grows hgrows _)⟩
  · obtain ⟨hafter, hsame⟩ := hcareful _ _ _ heffect hhoused
    exact ⟨hafter, .inl hsame⟩
  · have ⟨_, _, _, _, _, _, _, _, hstore⟩ := hstores
    exact ⟨(hhoused.store hstore).1, .inr hstores⟩

/-- **The directory of the cache stays in its place** over a whole run. -/
theorem Run.housed (hrun : yard.Run (.fresh made) floor) (hcareful : yard.Careful folder identity)
    (hmade : yard.place.cache.Housed folder made) :
    ∀ tree ∈ floor.trees made, yard.place.cache.Housed folder tree := by
  induction hrun with
  | refl => simpa [Floor.trees, Floor.fresh] using hmade
  | @tail floor next hrun hstep ih =>
    obtain ⟨task, event, hall, phase, hact, rfl⟩ := hstep
    have hnext := (hact.record_cases hcareful (ih _ (Run.traced hrun).tree_mem)).1
    intro tree htree
    simp only [Floor.trees, Floor.become, List.map_append, ← List.cons_append,
      List.mem_append] at htree
    rcases htree with htree | htree
    · exact ih tree htree
    · obtain rfl : tree = hall.tree := by simpa using htree
      exact hnext

/-! ### Callers among the tasks -/

/-- Whether a task has asked for a piece of work. -/
def Phase.isFor (identity : String) (phase : Phase) : Bool :=
  phase.request?.any (·.identity = identity)

/-- How far a task has come **as a caller** that asks for a piece of work. -/
def Phase.progress (identity : String) : Phase → SharedWork.Progress
  | .asking request progress => if request.identity = identity then progress else .arrived
  | _ => .arrived

theorem Phase.exists_of_progress (h : phase.progress identity ≠ .arrived) :
    ∃ request, phase.request? = some request ∧ request.identity = identity := by
  unfold progress at h
  split at h
  · next request progress =>
      by_cases hidentity : request.identity = identity
      · exact ⟨request, rfl, hidentity⟩
      · exact absurd (if_neg hidentity) h
  · exact absurd rfl h

/-- What is seen of a step **by those who ask for a piece of work**. -/
def Note.entry (identity : String) (note : Note) : SharedWork.Event TaskName × FileTree :=
  (if note.phase.isFor identity then note.event else .silent, note.tree)

theorem Note.entry_of_eq {request : Request} (hidentity : request.identity = identity)
    {progress : SharedWork.Progress} {tree : FileTree} :
    (Note.entry identity ⟨task, event, .asking request progress, tree⟩).1 = event := by
  simp [entry, Phase.isFor, Phase.request?, hidentity]

theorem Note.entry_of_ne {request : Request} (hidentity : request.identity ≠ identity)
    {progress : SharedWork.Progress} {tree : FileTree} :
    (Note.entry identity ⟨task, event, .asking request progress, tree⟩).1 = .silent := by
  simp [entry, Phase.isFor, Phase.request?, hidentity]

/-- What is **brought about** for a piece of work is done by a task that asked for it. -/
theorem Note.event_of_entry {note : Note} (hentry : (note.entry identity).1 = event)
    (hevent : event ≠ .silent) : note.event = event ∧
      ∃ request, note.phase.request? = some request ∧ request.identity = identity := by
  unfold entry at hentry
  simp only at hentry
  split at hentry
  · next hfor =>
      rw [Phase.isFor, Option.any_eq_true_iff_get] at hfor
      obtain ⟨hsome, hidentity⟩ := hfor
      exact ⟨hentry, _, (Option.some_get hsome).symm, by simpa using hidentity⟩
  · exact absurd hentry.symm hevent

/-- A step that **brings nothing about for a piece of work** leaves its record, if other work has
other records. -/
theorem Act.record?_eq (h : yard.Act task hall phase event hall' phase')
    (hcareful : yard.Careful folder identity)
    (hhoused : yard.place.cache.Housed folder hall.tree)
    (hother : ∀ request, phase.request? = some request → request.identity ≠ identity →
      Cache.recordName identity ≠ Cache.recordName request.identity)
    (hsilent : (Note.entry identity ⟨task, event, phase', hall'.tree⟩).1 = .silent) :
    yard.place.cache.record? hall'.tree identity =
      yard.place.cache.record? hall.tree identity := by
  obtain ⟨hhoused', hsame | ⟨request, lock, fingerprint, outputs, createdAt, kept, hevent, rfl,
    hstore⟩⟩ := h.record_cases hcareful hhoused
  · exact hhoused.record?_congr hhoused' hsame
  · have hne : request.identity ≠ identity := by
      rintro rfl
      cases h with
      | acted hact _ => exact hevent ((Note.entry_of_eq rfl).symm.trans hsilent)
    refine hhoused.record?_congr hhoused' ?_
    rcases (hhoused.store hstore).2.1 (folder ++ [Cache.recordName identity])
      (by simpa using Cache.recordName_ne_temporary identity request.identity) with
      hsame | ⟨hslot, -⟩
    · exact .of_eq hsame
    · exact absurd (by simpa using hslot) (hother request rfl hne)

/-- **The tasks on a floor are the callers in a scene**, as far as they have asked for a piece of
work. -/
structure Mirrors (identity : String) (floor : Floor) (scene : SharedWork.Scene TaskName) :
    Prop where
  tree : scene.tree = floor.tree
  locks : scene.locks = floor.locks
  progress : ∀ task, scene.progress task = (floor.phase task).progress identity
  holder : ∀ lock task, scene.holder lock = some task →
    ∃ stage, scene.progress task = .inside lock stage

section Mirrors

variable {work : SharedWork} {scene : SharedWork.Scene TaskName}

/-- Nobody has a lock in the scene that is **free on the floor**. -/
theorem Mirrors.free (h : Mirrors identity floor scene) (htraced : yard.Traced made floor)
    {lock : Nat} (hfree : floor.holder lock = none) : scene.holder lock = none := by
  refine Option.eq_none_iff_forall_ne_some.2 fun task hholder => ?_
  obtain ⟨stage, hinside⟩ := h.holder lock task hholder
  rw [h.progress] at hinside
  have hlock : (floor.phase task).lock? = some lock := by
    unfold Phase.progress at hinside
    split at hinside
    · split at hinside
      · next hphase _ => rw [hphase, hinside, Phase.lock?]
      · cases hinside
    · cases hinside
  rw [(htraced.holder lock task).2 hlock] at hfree
  cases hfree

/-- A step that is **none of the callers'** goes on meanwhile. -/
theorem Mirrors.pass (h : Mirrors work.identity floor scene) {more : List String}
    (hlocks : hall.locks = floor.locks ++ more) (hmore : work.identity ∉ more)
    (hphase : phase.progress work.identity = (floor.phase task).progress work.identity)
    (hsilent : (Note.entry work.identity ⟨task, event, phase, hall.tree⟩).1 = .silent)
    (hrecord : work.cache.record? hall.tree work.identity =
      work.cache.record? floor.tree work.identity) :
    ∃ next, work.Step scene (Note.entry work.identity ⟨task, event, phase, hall.tree⟩).1 next ∧
      Mirrors work.identity (floor.become task event hall phase) next := by
  rw [hsilent]
  refine ⟨_, .meanwhile (h.tree ▸ hrecord) hmore, rfl, ?_, fun other => ?_, h.holder⟩
  · exact (congrArg (· ++ more) h.locks).trans hlocks.symm
  · rw [Floor.phase_become]
    split
    · next heq => rw [hphase, ← heq]; exact h.progress other
    · exact h.progress other

/-- A step **of a caller** is a step in the scene. -/
theorem Mirrors.own (h : Mirrors work.identity floor scene) {next : SharedWork.Scene TaskName}
    (hprogress : next.progress =
      Function.update scene.progress task (phase.progress work.identity))
    (htree : next.tree = hall.tree) (hlocks : next.locks = hall.locks)
    (hholder : ∀ lock other, next.holder lock = some other →
      ∃ stage, next.progress other = .inside lock stage) :
    Mirrors work.identity (floor.become task event hall phase) next := by
  refine ⟨htree, hlocks, fun other => ?_, hholder⟩
  rw [hprogress, Floor.phase_become]
  by_cases heq : other = task
  · rw [heq, Function.update_self, if_pos rfl]
  · rw [Function.update_of_ne heq, if_neg heq, h.progress]

/-- A lock that somebody has is still **held from inside** after a step of a caller that leaves the
locks as they are. -/
theorem Mirrors.held (h : Mirrors identity floor scene) {progress : SharedWork.Progress}
    (hstay : ∀ lock stage, scene.progress task = .inside lock stage →
      ∃ stage', progress = .inside lock stage') :
    ∀ lock other, scene.holder lock = some other →
      ∃ stage, Function.update scene.progress task progress other = .inside lock stage := by
  intro lock other hholder
  obtain ⟨stage, hinside⟩ := h.holder lock other hholder
  by_cases heq : other = task
  · subst heq
    obtain ⟨stage', hprogress⟩ := hstay lock stage hinside
    exact ⟨stage', by rw [Function.update_self, hprogress]⟩
  · exact ⟨stage, by rw [Function.update_of_ne heq, hinside]⟩

/-- **Every step is one of the callers', or goes on meanwhile.** -/
theorem Mirrors.step (h : Mirrors work.identity floor scene) (htraced : yard.Traced made floor)
    (hact : yard.Act task floor.toHall (floor.phase task) event hall phase)
    (hwork : ∀ request, phase.request? = some request → request.identity = work.identity →
      yard.work request = work)
    (hrecord : (Note.entry work.identity ⟨task, event, phase, hall.tree⟩).1 = .silent →
      work.cache.record? hall.tree work.identity =
        work.cache.record? floor.tree work.identity) :
    ∃ next, work.Step scene (Note.entry work.identity ⟨task, event, phase, hall.tree⟩).1 next ∧
      Mirrors work.identity (floor.become task event hall phase) next := by
  have hprogress := h.progress task
  have hmeanwhile := fun more hlocks hmore hphase hsilent =>
    @Mirrors.pass task hall phase event floor work scene h more hlocks hmore hphase hsilent
      (hrecord hsilent)
  have hstay := fun (hlocks : hall.locks = floor.locks) =>
    hmeanwhile [] (by simp [hlocks]) List.not_mem_nil
  generalize floor.phase task = before at hact hmeanwhile hstay hprogress
  cases hact with
  | started | opened | notOpened | notAsked =>
    exact hstay rfl rfl rfl
  | asked => exact hstay rfl (ite_self _) (ite_self _)
  | @fetched request =>
    by_cases hidentity : request.identity = work.identity
    · rw [Phase.progress, if_pos hidentity] at hprogress
      rw [Note.entry_of_eq hidentity]
      refine ⟨_, .fetched hprogress, h.own ?_ h.tree ?_ (h.held fun lock stage hinside => ?_)⟩
      · rw [Phase.progress, if_pos hidentity, hidentity, h.locks]
      · simp only [hidentity, h.locks]
      · cases hprogress.symm.trans hinside
    · obtain ⟨-, -, more, hmore⟩ := Cache.keyLock_spec floor.locks request.identity
      refine hmeanwhile more hmore (fun hmem => hidentity ?_)
        (by rw [Phase.progress, Phase.progress, if_neg hidentity, if_neg hidentity])
        (Note.entry_of_ne hidentity)
      have hadded := hmore
      rw [Cache.keyLock] at hadded
      split at hadded
      · rw [List.self_eq_append_right] at hadded
        cases hadded ▸ hmem
      · rw [← List.append_cancel_left hadded] at hmem
        exact (List.mem_singleton.1 hmem).symm
  | @entered request lock hfree =>
    by_cases hidentity : request.identity = work.identity
    · rw [Phase.progress, if_pos hidentity] at hprogress
      rw [Note.entry_of_eq hidentity]
      refine ⟨_, .entered hprogress (h.free htraced hfree),
        h.own ?_ h.tree h.locks fun lock' other hholder => ?_⟩
      · rw [Phase.progress, if_pos hidentity]
      · by_cases hlock : lock' = lock
        · subst hlock
          simp only [Function.update_self, Option.some.injEq] at hholder
          subst hholder
          exact ⟨_, Function.update_self ..⟩
        · simp only [Function.update_of_ne hlock] at hholder
          refine h.held (fun _ _ hinside => ?_) lock' other hholder
          cases hprogress.symm.trans hinside
    · exact hstay rfl (by simp [Phase.progress, hidentity]) (Note.entry_of_ne hidentity)
  | @acted request lock stage stage' event tree hact heffect =>
    by_cases hidentity : request.identity = work.identity
    · rw [Phase.progress, if_pos hidentity] at hprogress
      rw [Note.entry_of_eq hidentity]
      rw [hwork request rfl hidentity] at hact
      refine ⟨_, .acted hprogress (h.tree ▸ hact), h.own ?_ rfl h.locks
        (h.held fun lock' stage hinside => ?_)⟩
      · rw [Phase.progress, if_pos hidentity]
      · obtain ⟨rfl, -⟩ := SharedWork.Progress.inside.inj (hprogress.symm.trans hinside)
        exact ⟨stage', rfl⟩
    · exact hstay rfl (by simp [Phase.progress, hidentity]) (Note.entry_of_ne hidentity)
  | @left request lock result =>
    by_cases hidentity : request.identity = work.identity
    · rw [Phase.progress, if_pos hidentity] at hprogress
      rw [Note.entry_of_eq hidentity]
      refine ⟨_, .left hprogress, h.own ?_ h.tree h.locks fun lock' other hholder => ?_⟩
      · rw [Phase.progress, if_pos hidentity]
      · by_cases hlock : lock' = lock
        · simp [hlock] at hholder
        · simp only [Function.update_of_ne hlock] at hholder
          obtain ⟨stage, hinside⟩ := h.holder lock' other hholder
          refine ⟨stage, (Function.update_of_ne ?_ ..).trans hinside⟩
          rintro rfl
          exact hlock (SharedWork.Progress.inside.inj (hinside.symm.trans hprogress)).1
    · exact hstay rfl (by simp [Phase.progress, hidentity]) (Note.entry_of_ne hidentity)

/-- **The tasks that ask for the same work are callers that share it**, over a whole run: the other
tasks leave its record alone, and so does every step that brings nothing about. -/
theorem Run.mirrored (hrun : yard.Run (.fresh made) floor) (hcache : work.cache = yard.place.cache)
    (hwork : ∀ note ∈ floor.log, ∀ request, note.phase.request? = some request →
      request.identity = work.identity → yard.work request = work)
    (hother : ∀ note ∈ floor.log, ∀ request, note.phase.request? = some request →
      request.identity ≠ work.identity →
      Cache.recordName work.identity ≠ Cache.recordName request.identity)
    (hcareful : yard.Careful folder work.identity)
    (hmade : yard.place.cache.Housed folder made) :
    ∃ scene, work.Run made [] (floor.log.map (Note.entry work.identity)) scene ∧
      work.Guarded made (floor.log.map (Note.entry work.identity)) ∧
      Mirrors work.identity floor scene := by
  induction hrun with
  | refl =>
    exact ⟨_, .start, fun before tree after hsplit => by simp [Floor.fresh] at hsplit,
      rfl, rfl, fun _ => rfl, fun _ _ hholder => nomatch hholder⟩
  | @tail floor next hrun hstep ih =>
    obtain ⟨task, event, hall, phase, hact, rfl⟩ := hstep
    obtain ⟨hwork, hwork'⟩ := List.forall_mem_append.1 hwork
    obtain ⟨hother, -⟩ := List.forall_mem_append.1 hother
    obtain ⟨scene, hscene, hguarded, hmirrors⟩ := ih hwork hother
    have htraced := Run.traced hrun
    have hrecord : (Note.entry work.identity ⟨task, event, phase, hall.tree⟩).1 = .silent →
        work.cache.record? hall.tree work.identity =
          work.cache.record? floor.tree work.identity := by
      rw [hcache]
      refine hact.record?_eq hcareful (Run.housed hrun hcareful hmade _ htraced.tree_mem)
        fun request hrequest => ?_
      obtain ⟨note, hnote, -, hasked⟩ := htraced.asking task request hrequest
      exact hother note hnote request hasked
    obtain ⟨next, hstep, hnext⟩ := hmirrors.step htraced hact
      (hwork' _ (List.mem_singleton_self _)) hrecord
    have htree : next.tree = hall.tree := hnext.tree
    simp only [Floor.become, List.map_append, List.map_singleton]
    rw [show Note.entry work.identity ⟨task, event, phase, hall.tree⟩ =
      ((Note.entry work.identity ⟨task, event, phase, hall.tree⟩).1, next.tree) by
        rw [htree]; rfl]
    refine ⟨next, hscene.step hstep, hguarded.concat fun hsilent => ?_, hnext⟩
    rw [← hscene.tree_eq, hmirrors.tree, htree]
    exact hrecord hsilent

end Mirrors

end Yard

end BuildMatrix
