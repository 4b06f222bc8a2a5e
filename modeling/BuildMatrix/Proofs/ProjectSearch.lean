import BuildMatrix.Config.Loading
import BuildMatrix.Proofs.RecordFiles

/-!
# The search for a project file

The directories above a path are found by cutting its text at separators, which skips parts that
stand for no component. Each step removes the last component, so the search ends at the root or at
the empty path, after as many steps as there are components to remove.
-/

namespace BuildMatrix

namespace Path

variable {path parent dir : Path} {reversed rest : List Char}

/-! ### Texts that are cut at separators -/

/-- What is left of a text, in reverse, after **cutting it at a separator**. -/
def Cut (rest reversed : List Char) : Prop :=
  rest = [] ∨ ∃ front, reversed = front ++ '/' :: rest

theorem Cut.trans {middle : List Char} (h : Cut rest middle) (h' : Cut middle reversed) :
    Cut rest reversed := by
  rcases h with rfl | ⟨front, rfl⟩
  · exact .inl rfl
  · obtain ⟨front', rfl⟩ := h'.resolve_left (by simp)
    exact .inr ⟨front' ++ '/' :: front, by simp⟩

theorem Cut.length_lt (h : Cut rest reversed) (hne : reversed ≠ []) :
    rest.length < reversed.length := by
  rcases h with rfl | ⟨front, rfl⟩
  · exact List.length_pos_iff.2 hne
  · simp only [List.length_append, List.length_cons]
    omega

/-- The **last part** and what is before it. -/
theorem dropPart_cases (reversed : List Char) :
    dropPart reversed = [] ∧ reversed.takeWhile (· ≠ '/') = reversed ∨
      reversed = reversed.takeWhile (· ≠ '/') ++ '/' :: dropPart reversed := by
  induction reversed with
  | nil => exact .inl ⟨rfl, rfl⟩
  | cons c rest ih =>
    by_cases hc : c = '/'
    · exact .inr (by simp [dropPart, hc])
    · refine ih.imp (fun h => ?_) fun h => ?_ <;>
        simp only [dropPart, ne_eq, hc, not_false_eq_true, decide_true, List.takeWhile_cons_of_pos,
          List.dropWhile_cons_of_pos, List.cons_append] at h ⊢
      · exact ⟨h.1, by rw [h.2]⟩
      · rw [← h]

theorem dropPart_cut (reversed : List Char) : Cut (dropPart reversed) reversed :=
  (dropPart_cases reversed).imp And.left fun h => ⟨_, h⟩

/-- The components of a text, given in reverse, that has no head. -/
def bodyComponents (reversed : List Char) : List Component :=
  (split '/' reversed.reverse).filterMap component?

theorem bodyComponents_eq (reversed : List Char) : bodyComponents reversed =
    bodyComponents (dropPart reversed) ++
      (component? (reversed.takeWhile (· ≠ '/')).reverse).toList := by
  have hfree : '/' ∉ (reversed.takeWhile (· ≠ '/')).reverse := fun h => by
    simpa using List.all_eq_true.1 List.all_takeWhile _ (List.mem_reverse.1 h)
  have hpart : (split '/' (reversed.takeWhile (· ≠ '/')).reverse).filterMap component? =
      (component? (reversed.takeWhile (· ≠ '/')).reverse).toList := by
    rw [split, splitAfter_eq_singleton hfree, List.reverse_nil, List.nil_append,
      List.filterMap_cons, List.filterMap_nil]
    cases component? (reversed.takeWhile (· ≠ '/')).reverse <;> rfl
  rcases dropPart_cases reversed with ⟨hdrop, htake⟩ | h
  · rw [hdrop, ← hpart, htake]
    rfl
  · conv_lhs => rw [h, bodyComponents, List.reverse_append, List.reverse_cons, List.append_assoc,
      List.singleton_append, split, splitAfter_append, List.filterMap_append, hpart]
    rfl

/-- **What is trimmed** stands for no component, and then there is a last one or nothing. -/
theorem trimEnd_spec {fuel : Nat} (h : reversed.length ≤ fuel) :
    (trimEnd fuel reversed = reversed ∨ Cut (trimEnd fuel reversed) reversed) ∧
      bodyComponents (trimEnd fuel reversed) = bodyComponents reversed ∧
      (trimEnd fuel reversed ≠ [] → ∃ last ≠ Component.root, bodyComponents reversed =
        bodyComponents (dropPart (trimEnd fuel reversed)) ++ [last]) := by
  induction fuel generalizing reversed with
  | zero =>
    obtain rfl := List.length_eq_zero_iff.1 (Nat.le_zero.1 h)
    exact ⟨.inl rfl, rfl, fun hne => absurd rfl hne⟩
  | succ fuel ih =>
    match reversed with
    | [] => exact ⟨.inl rfl, rfl, fun hne => absurd rfl hne⟩
    | c :: rest =>
      have hcut := dropPart_cut (c :: rest)
      have heq := bodyComponents_eq (c :: rest)
      rw [trimEnd]
      cases hlast : component? ((c :: rest).takeWhile (· ≠ '/')).reverse with
      | none =>
        rw [hlast, Option.toList_none, List.append_nil] at heq
        rw [heq]
        have hlt : (dropPart (c :: rest)).length ≤ fuel := by
          have := hcut.length_lt (by simp)
          omega
        obtain ⟨htrim, hih⟩ := ih hlt
        refine ⟨.inr ?_, hih⟩
        exact htrim.elim (fun heq => by simpa only [heq] using hcut) (·.trans hcut)
      | some last =>
        refine ⟨.inl rfl, rfl, fun _ => ⟨last, ?_, by rw [heq, hlast]; rfl⟩⟩
        rintro rfl
        rw [component?.eq_def] at hlast
        split at hlast <;> cases hlast

/-! ### The path above -/

/-- How a path **starts** and what follows; a part that is cut off leaves the start as it is. -/
structure Starts (path : Path) (start : List Component) (head body : List Char) : Prop where
  text : path.text.toList = head ++ body
  kind : start = [] ∨ start = [.root] ∨ start = [.current]
  cut : ∀ {cut}, cut = body ∨ cut = [] ∨ (∃ back, body = cut ++ '/' :: back) →
    headLength ⟨String.ofList (head ++ cut)⟩ = head.length ∧
      startsAtCurrent ⟨String.ofList (head ++ cut)⟩ = decide (start = [.current]) ∧
      components ⟨String.ofList (head ++ cut)⟩ = start ++ bodyComponents cut.reverse

theorem exists_starts (path : Path) : ∃ start head body, path.Starts start head body := by
  by_cases habsolute : path.isAbsolute = true
  · obtain ⟨body, htext⟩ := List.head?_eq_some_iff.1 (of_decide_eq_true habsolute)
    rw [chars_eq] at htext
    refine ⟨[.root], ['/'], body, htext, by simp, fun _ => ?_⟩
    simp [headLength, components, bodyComponents, isAbsolute, startsAtCurrent]
  by_cases hcurrent : path.startsAtCurrent = true
  · obtain ⟨body, htext, hbody⟩ : ∃ body, path.text.toList = '.' :: body ∧
        (body = [] ∨ ∃ rest, body = '/' :: rest) := by
      rw [startsAtCurrent.eq_def, chars_eq] at hcurrent
      split at hcurrent
      · next htext => exact ⟨_, htext, .inl rfl⟩
      · next htext => exact ⟨_, htext, .inr ⟨_, rfl⟩⟩
      · cases hcurrent
    refine ⟨[.current], ['.'], body, htext, by simp, fun {cut} hcut => ?_⟩
    have hshape : cut = [] ∨ ∃ rest, cut = '/' :: rest := by
      rcases cut with - | ⟨c, cut⟩ <;> grind
    rcases hshape with rfl | ⟨rest, rfl⟩ <;>
      simp [headLength, components, bodyComponents, isAbsolute, startsAtCurrent]
  · refine ⟨[], [], path.text.toList, rfl, by simp, fun {cut} hcut => ?_⟩
    have habsolute' : isAbsolute ⟨String.ofList cut⟩ = false := by
      rw [isAbsolute, chars_eq] at habsolute ⊢
      rw [String.toList_ofList]
      rcases cut with - | ⟨c, cut⟩ <;> grind
    have hcurrent' : startsAtCurrent ⟨String.ofList cut⟩ = false := by
      rw [startsAtCurrent.eq_def, chars_eq] at hcurrent ⊢
      rw [String.toList_ofList]
      rcases cut with - | ⟨c, - | ⟨d, cut⟩⟩ <;> grind
    simp [headLength, components, bodyComponents, habsolute', hcurrent']

/-- **The path above** is shorter and has all components but the last one; there is none above the
root and the empty path. -/
theorem parent?_cases (path : Path) :
    path.parent? = none ∧ (path.components = [] ∨ path.components = [.root]) ∨
      ∃ parent last, path.parent? = some parent ∧ last ≠ .root ∧
        path.components = parent.components ++ [last] ∧ parent.text.length < path.text.length := by
  obtain ⟨start, head, body, h⟩ := path.exists_starts
  obtain ⟨hlength, hcurrent, hcomponents⟩ := h.cut (.inl rfl)
  have hpath : path = ⟨String.ofList (head ++ body)⟩ := by rw [← h.text, String.ofList_toList]
  rw [← hpath] at hlength hcurrent hcomponents
  obtain ⟨htrimmed, hsame, hlast⟩ := trimEnd_spec (Nat.le_refl body.reverse.length)
  simp only [parent?, h.text, hlength, List.take_left, List.drop_left, hcurrent]
  generalize trimEnd body.reverse.length body.reverse = trimmed at htrimmed hsame hlast
  by_cases hempty : trimmed = []
  · have hbody : bodyComponents body.reverse = [] := by rw [← hsame, hempty]; rfl
    rw [hbody, List.append_nil] at hcomponents
    rcases h.kind with rfl | rfl | rfl
    · exact .inl ⟨by simp [hempty], .inl hcomponents⟩
    · exact .inl ⟨by simp [hempty], .inr hcomponents⟩
    · refine .inr ⟨⟨""⟩, .current, by simp [hempty], by decide, hcomponents, ?_⟩
      have hhead : head.length = 1 := by rw [← hlength, headLength]; simp [hcurrent]
      rw [← String.length_toList (s := path.text), h.text, List.length_append, hhead]
      exact Nat.lt_add_right _ Nat.one_pos
  · obtain ⟨last, hne, hbody⟩ := hlast hempty
    obtain ⟨hrest, hsame', -⟩ := trimEnd_spec (Nat.le_refl (dropPart trimmed).length)
    have hcut : Cut (trimEnd (dropPart trimmed).length (dropPart trimmed)) body.reverse := by
      have hdrop : Cut (dropPart trimmed) body.reverse :=
        htrimmed.elim (fun heq => heq ▸ dropPart_cut trimmed) (dropPart_cut trimmed).trans
      exact hrest.elim (fun heq => by rwa [heq]) (·.trans hdrop)
    generalize trimEnd (dropPart trimmed).length (dropPart trimmed) = rest at hsame' hcut ⊢
    have hbodyne : body.reverse ≠ [] := fun heq => hempty (by simpa [heq, Cut] using htrimmed)
    refine .inr ⟨_, last, if_neg (by simpa using hempty), hne, ?_, ?_⟩
    · rw [(h.cut (.inr (hcut.imp (by simp) fun ⟨front, hfront⟩ => ⟨front.reverse, ?_⟩))).2.2,
        List.reverse_reverse, hsame', List.append_assoc, ← hbody, hcomponents]
      simpa using congrArg List.reverse hfront
    · have hlt := hcut.length_lt hbodyne
      rw [← String.length_toList (s := path.text), h.text]
      simpa using hlt

/-- The path after its last component has been **removed some times**. -/
def up : Nat → Path → Option Path
  | 0, path => some path
  | n + 1, path => path.parent?.bind (up n)

/-- A component is removed at each step, until only the root is left or nothing. -/
theorem up_spec (n : Nat) (path : Path) :
    (∀ dir, up n path = some dir → dir.components = path.components.take
      (path.components.length - n)) ∧
      ((up n path).isSome ↔ n ≤ (path.components.filter (· ≠ .root)).length) := by
  induction n generalizing path with
  | zero => simp [up]
  | succ n ih =>
    rw [up]
    rcases path.parent?_cases with ⟨hnone, hpath⟩ | ⟨parent, last, hsome, hne, hpath, -⟩
    · rw [hnone]
      rcases hpath with hpath | hpath <;> simp [hpath]
    · rw [hsome, Option.bind_some, hpath]
      obtain ⟨htake, hsteps⟩ := ih parent
      refine ⟨fun dir hdir => ?_, hsteps.trans ?_⟩
      · rw [htake dir hdir, List.length_append, List.length_singleton, Nat.add_sub_add_right,
          List.take_append_of_le_length (Nat.sub_le _ _)]
      · simp [List.filter_append, hne]

end Path

namespace Config

open BuildMatrix.Path

/-- The search looks in **a path and all paths above it**, nearest first. -/
theorem getElem?_searchPath {fuel : Nat} {path : Path} (h : path.text.length ≤ fuel) (n : Nat) :
    (searchPath fuel path)[n]? = up n path := by
  induction fuel generalizing path n with
  | zero =>
    have hempty : path = ⟨""⟩ := by
      obtain ⟨text⟩ := path
      simpa using h
    subst hempty
    cases n <;> rfl
  | succ fuel ih =>
    rw [searchPath]
    rcases path.parent?_cases with ⟨hnone, -⟩ | ⟨parent, -, hsome, -, -, hlt⟩
    · cases n <;> simp [hnone, up]
    · cases n with
      | zero => simp [hsome, up]
      | succ n =>
        have hless : parent.text.length ≤ fuel := by omega
        simp [hsome, up, ih hless]

/-- In one directory the **first name** that exists is taken. -/
theorem findIn?_eq_some_iff {tree : FileTree} {dir path : Path} :
    findIn? tree dir = some path ↔ ∃ before name after, fileNames = before ++ name :: after ∧
      (∀ other ∈ before, tree.pathExists (dir.child other) = false) ∧
      tree.pathExists (dir.child name) = true ∧ path = dir.child name := by
  rw [findIn?, List.find?_map, Option.map_eq_some_iff]
  simp only [List.find?_eq_some_iff_append, Function.comp_apply, Bool.not_eq_true']
  constructor
  · rintro ⟨name, ⟨hname, before, after, hnames, hbefore⟩, rfl⟩
    exact ⟨before, name, after, hnames, hbefore, hname, rfl⟩
  · rintro ⟨before, name, after, hnames, hbefore, hname, rfl⟩
    exact ⟨name, ⟨hname, before, after, hnames, hbefore⟩, rfl⟩

/-- **The nearest project file wins**, and in one directory the first of the four names; there is
none exactly if no path above has one. The paths above have one component less after each step, down
to the root or the empty path. -/
theorem nearest_project_file_wins (tree : FileTree) (start : Path) :
    fileNames = ["keel.toml", "keel.yaml", ".keel.toml", ".keel.yaml"] ∧
    (find? tree start = none ↔ ∀ n dir, up n start = some dir →
      ∀ name ∈ fileNames, tree.pathExists (dir.child name) = false) ∧
    (∀ path, find? tree start = some path ↔ ∃ n dir, up n start = some dir ∧
      (∀ m < n, ∀ nearer, up m start = some nearer →
        ∀ name ∈ fileNames, tree.pathExists (nearer.child name) = false) ∧
      ∃ before name after, fileNames = before ++ name :: after ∧
        (∀ other ∈ before, tree.pathExists (dir.child other) = false) ∧
        tree.pathExists (dir.child name) = true ∧ path = dir.child name) ∧
    ∀ n, (∀ dir, up n start = some dir →
        dir.components = start.components.take (start.components.length - n)) ∧
      ((up n start).isSome ↔ n ≤ (start.components.filter (· ≠ .root)).length) := by
  have hlist := getElem?_searchPath (Nat.le_refl start.text.length)
  have hnone : ∀ dir, findIn? tree dir = none ↔
      ∀ name ∈ fileNames, tree.pathExists (dir.child name) = false := fun dir => by simp [findIn?]
  refine ⟨rfl, ?_, fun path => ?_, fun n => up_spec n start⟩
  · rw [find?, List.findSome?_eq_none_iff]
    simp only [hnone, List.mem_iff_getElem?, hlist]
    exact ⟨fun h n dir hdir => h dir ⟨n, hdir⟩, fun h dir ⟨n, hdir⟩ => h n dir hdir⟩
  · rw [find?, List.findSome?_eq_some_iff]
    simp only [← findIn?_eq_some_iff, ← hnone]
    constructor
    · rintro ⟨nearer, dir, further, hsplit, hfound, hlacks⟩
      rw [hsplit] at hlist
      refine ⟨nearer.length, dir, by simp [← hlist], fun m hm other hother => hlacks other ?_,
        hfound⟩
      rw [← hlist, List.getElem?_append_left hm] at hother
      exact List.mem_of_getElem? hother
    · rintro ⟨n, dir, hdir, hlacks, hfound⟩
      rw [← hlist] at hdir
      obtain ⟨hn, hdir⟩ := List.getElem?_eq_some_iff.1 hdir
      refine ⟨(searchPath start.text.length start).take n, dir,
        (searchPath start.text.length start).drop (n + 1), ?_, hfound, fun other hother => ?_⟩
      · rw [← hdir, List.getElem_cons_drop, List.take_append_drop]
      · obtain ⟨m, hm⟩ := List.mem_iff_getElem?.1 hother
        rw [List.getElem?_take] at hm
        split at hm
        · next hlt => exact hlacks m hlt other (hlist m ▸ hm)
        · cases hm

/-- A project with a TOML file beside a YAML file, inside a project with a TOML file. -/
def nestedProjects : FileTree where
  entries := [(["w"], .directory), (["w", "keel.toml"], .file .empty), (["w", "app"], .directory),
    (["w", "app", ".keel.toml"], .file .empty), (["w", "app", "keel.yaml"], .file .empty),
    (["w", "app", "src"], .directory)]
  here := ["w"]

/-- From a directory of the inner project its `keel.yaml` is found: it is nearer than the outer
`keel.toml` and comes before the hidden TOML file beside it. -/
theorem nearest_project_file_wins_nested :
    find? nestedProjects ⟨"/w/app/src"⟩ = some ⟨"/w/app/keel.yaml"⟩ ∧
      nestedProjects.pathExists ⟨"/w/keel.toml"⟩ = true ∧
      nestedProjects.pathExists ⟨"/w/app/.keel.toml"⟩ = true := by
  refine ⟨(((nearest_project_file_wins nestedProjects ⟨"/w/app/src"⟩).2.2.1 _).2
    ⟨1, ⟨"/w/app"⟩, by decide +kernel, ?_, ["keel.toml"], "keel.yaml", _, rfl, by decide +kernel,
      by decide +kernel, by decide +kernel⟩), by decide +kernel, by decide +kernel⟩
  intro m hm nearer hnearer
  obtain rfl : m = 0 := by omega
  obtain rfl : ⟨"/w/app/src"⟩ = nearer := Option.some.inj hnearer
  decide +kernel

end Config

end BuildMatrix
