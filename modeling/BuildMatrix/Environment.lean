/-!
# Environments

The variables an action sets for its command: a finite map from names to values, kept as its
bindings in the order of the names. Since the order is part of the type, two environments with the
same bindings are equal.
-/

namespace BuildMatrix

def Increasing (bindings : List (String × String)) : Prop :=
  bindings.Pairwise fun a b => a.1 < b.1

/-- An **environment**: values by name. -/
structure Environment where
  bindings : List (String × String)
  increasing : Increasing bindings

instance : DecidableEq Environment := fun a b =>
  match a, b with
  | ⟨as, _⟩, ⟨bs, _⟩ =>
    if h : as = bs then .isTrue (by subst h; rfl)
    else .isFalse (by intro e; injection e; contradiction)

namespace Environment

def empty : Environment := ⟨[], .nil⟩

instance : Inhabited Environment := ⟨empty⟩

/-- A binding put among ordered bindings, in place of one with its name. -/
def insertIn (name value : String) : List (String × String) → List (String × String)
  | [] => [(name, value)]
  | (k, v) :: rest =>
    if name = k then (name, value) :: rest
    else if name < k then (name, value) :: (k, v) :: rest
    else (k, v) :: insertIn name value rest

/-- The names after an insertion: the new one and those before. -/
theorem mem_insertIn {name value : String} {b : String × String} :
    {bindings : List (String × String)} → b ∈ insertIn name value bindings →
      b = (name, value) ∨ b ∈ bindings
  | [], h => by simp [insertIn] at h; exact .inl h
  | (k, v) :: rest, h => by
      simp only [insertIn] at h
      split at h
      · rcases List.mem_cons.1 h with h | h
        · exact .inl h
        · exact .inr (List.mem_cons_of_mem _ h)
      · split at h
        · rcases List.mem_cons.1 h with h | h
          · exact .inl h
          · exact .inr h
        · rcases List.mem_cons.1 h with h | h
          · exact .inr (h ▸ List.mem_cons_self)
          · rcases mem_insertIn h with h | h
            · exact .inl h
            · exact .inr (List.mem_cons_of_mem _ h)

/-- Of two names that are neither equal nor in one order, the other order holds. -/
theorem lt_of_not {a b : String} (ne : a ≠ b) (not : ¬ a < b) : b < a := by
  rcases Std.le_total (a := a) (b := b) with h | h
  · exact absurd (Std.lt_of_le_of_ne h ne) not
  · exact Std.lt_of_le_of_ne h (Ne.symm ne)

theorem increasing_insertIn (name value : String) :
    (bindings : List (String × String)) → Increasing bindings →
      Increasing (insertIn name value bindings)
  | [], _ => List.pairwise_singleton _ _
  | (k, v) :: rest, h => by
      obtain ⟨first, tail⟩ := List.pairwise_cons.1 h
      simp only [insertIn]
      split
      · rename_i eq
        exact List.pairwise_cons.2 ⟨fun b hb => by subst eq; exact first b hb, tail⟩
      · split
        · rename_i lt
          refine List.pairwise_cons.2 ⟨fun b hb => ?_, h⟩
          rcases List.mem_cons.1 hb with rfl | hb
          · exact lt
          · exact Std.lt_trans lt (first b hb)
        · rename_i ne not
          refine List.pairwise_cons.2 ⟨fun b hb => ?_, increasing_insertIn name value rest tail⟩
          rcases mem_insertIn hb with rfl | hb
          · exact lt_of_not ne not
          · exact first b hb

/-- The environment with one more variable, or another value of it. -/
def insert (env : Environment) (name value : String) : Environment :=
  ⟨insertIn name value env.bindings, increasing_insertIn name value _ env.increasing⟩

/-- The environment of a list of bindings, the last value of a name winning. -/
def ofList (bindings : List (String × String)) : Environment :=
  bindings.foldl (fun env b => env.insert b.1 b.2) empty

/-- A binding above all others goes last. -/
theorem insertIn_append (name value : String) :
    (bindings : List (String × String)) → (∀ b ∈ bindings, b.1 < name) →
      insertIn name value bindings = bindings ++ [(name, value)]
  | [], _ => rfl
  | (k, v) :: rest, h => by
      have lt : k < name := h (k, v) List.mem_cons_self
      have ne : name ≠ k := fun e => Std.lt_irrefl (e ▸ lt)
      have not : ¬ name < k := fun other => Std.lt_irrefl (Std.lt_trans lt other)
      simp only [insertIn, ne, not, if_false, List.cons_append]
      rw [insertIn_append name value rest fun b hb => h b (List.mem_cons_of_mem _ hb)]

/-- Inserting ordered bindings, all above those of an environment, appends them. -/
theorem bindings_foldl_insert :
    (bindings : List (String × String)) → (env : Environment) →
      Increasing (env.bindings ++ bindings) →
      (bindings.foldl (fun env b => env.insert b.1 b.2) env).bindings = env.bindings ++ bindings
  | [], env, _ => by simp
  | b :: rest, env, h => by
      have step : (env.insert b.1 b.2).bindings = env.bindings ++ [b] :=
        insertIn_append b.1 b.2 env.bindings fun a ha =>
          (List.pairwise_append.1 h).2.2 a ha b List.mem_cons_self
      have next := bindings_foldl_insert rest (env.insert b.1 b.2)
        (by rw [step, List.append_assoc]; exact h)
      rw [List.foldl_cons, next, step, List.append_assoc]; rfl

/-- An environment **is rebuilt** from its own bindings. -/
theorem ofList_bindings (env : Environment) : ofList env.bindings = env := by
  have h := bindings_foldl_insert env.bindings empty (by simpa [empty] using env.increasing)
  cases env with
  | mk bindings increasing =>
    simp only [ofList] at h ⊢
    cases hfold : bindings.foldl (fun env b => env.insert b.1 b.2) empty with
    | mk got _ =>
      rw [hfold] at h
      simp only [empty, List.nil_append] at h
      subst h
      rfl

end Environment

end BuildMatrix
