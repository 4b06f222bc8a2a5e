import BuildMatrix.Fingerprint
import Mathlib.Data.List.Basic

/-!
# Reading a configuration back from its stream

A fingerprint is made of bytes: first a line for each value of the configuration, with its name, and
then the inputs. Nothing marks the end of a value but a line break, and nothing keeps a value from
having line breaks of its own. This module says what can be told from equal streams all the same:
where a value has no line break it ends at the first one, and where it may have some it ends at the
first that is followed by a name which stands in no value.
-/

namespace BuildMatrix

/-! ### Ordered bindings -/

namespace Environment

variable {bindings l : List (String × String)} {b : String × String}

theorem mem_insertIn_of_new {name value : String} (hnew : name ∉ bindings.map (·.1)) :
    b ∈ insertIn name value bindings ↔ b = (name, value) ∨ b ∈ bindings := by
  induction bindings with
  | nil => simp [insertIn]
  | cons first rest ih =>
    obtain ⟨key, old⟩ := first
    rw [List.map_cons, List.mem_cons, not_or] at hnew
    rw [insertIn, if_neg hnew.1]
    by_cases hlt : name < key
    · rw [if_pos hlt, List.mem_cons]
    · rw [if_neg hlt, List.mem_cons, ih hnew.2, List.mem_cons]
      tauto

theorem mem_foldl_insert {env : Environment} (hnodup : (l.map (·.1)).Nodup)
    (hnew : ∀ b ∈ l, b.1 ∉ env.bindings.map (·.1)) :
    b ∈ (l.foldl (fun env b => env.insert b.1 b.2) env).bindings ↔ b ∈ env.bindings ∨ b ∈ l := by
  induction l generalizing env with
  | nil => simp
  | cons first rest ih =>
    obtain ⟨hfirst, hrest⟩ := List.nodup_cons.mp hnodup
    obtain ⟨hhead, htail⟩ := List.forall_mem_cons.mp hnew
    have hmem : ∀ b, b ∈ (env.insert first.1 first.2).bindings ↔ b = first ∨ b ∈ env.bindings :=
      fun b => mem_insertIn_of_new hhead
    rw [List.foldl_cons, ih hrest, hmem, List.mem_cons]
    · tauto
    · intro c hc hin
      obtain ⟨d, hd, hkey⟩ := List.mem_map.mp hin
      rcases (hmem d).mp hd with rfl | hd
      · exact hfirst (List.mem_map.mpr ⟨c, hc, hkey.symm⟩)
      · exact htail c hc (List.mem_map.mpr ⟨d, hd, hkey⟩)

theorem nodup_of_increasing (h : Increasing bindings) : bindings.Nodup := by
  refine List.Pairwise.imp ?_ h
  rintro a b hlt rfl
  exact Std.lt_irrefl hlt

/-- **The bindings of a list** without repeated names are its members in the order of the names. -/
theorem bindings_ofList {sorted : List (String × String)} (hnodup : (l.map (·.1)).Nodup)
    (hsorted : Increasing sorted) (hmem : ∀ b, b ∈ l ↔ b ∈ sorted) :
    (ofList l).bindings = sorted := by
  have hperm : (ofList l).bindings.Perm sorted := by
    rw [List.perm_ext_iff_of_nodup (nodup_of_increasing (ofList l).increasing)
      (nodup_of_increasing hsorted)]
    intro b
    rw [ofList, mem_foldl_insert hnodup (by simp [empty]), hmem]
    simp [empty]
  refine hperm.eq_of_pairwise (fun a b _ _ hab hba => ?_) (ofList l).increasing hsorted
  exact absurd (Std.lt_trans hab hba) Std.lt_irrefl

end Environment

namespace Fingerprint

variable {r₁ r₂ : List Char} {key value₁ value₂ : String}

/-! ### Bytes of texts -/

/-- Of two texts whose bytes are followed by others to the same end, one **starts with the other**:
no character's bytes are the start of another's. -/
theorem prefix_of_utf8Encode_append {l₁ l₂ : List Char} {r₁ r₂ : ByteArray}
    (h : l₁.utf8Encode ++ r₁ = l₂.utf8Encode ++ r₂) : l₁ <+: l₂ ∨ l₂ <+: l₁ := by
  induction l₁ generalizing l₂ with
  | nil => exact .inl List.nil_prefix
  | cons c₁ l₁ ih =>
    cases l₂ with
    | nil => exact .inr List.nil_prefix
    | cons c₂ l₂ =>
      rw [List.utf8Encode_cons, @List.utf8Encode_cons c₂, ByteArray.append_assoc,
        ByteArray.append_assoc] at h
      have hfirst := congrArg (fun bytes => bytes.utf8DecodeChar? 0) h
      simp only [List.utf8DecodeChar?_utf8Encode_singleton_append, Option.some.injEq] at hfirst
      subst hfirst
      rcases ih ((ByteArray.append_right_inj _).mp h) with hearlier | hearlier
      · exact .inl ((List.cons_prefix_cons).mpr ⟨rfl, hearlier⟩)
      · exact .inr ((List.cons_prefix_cons).mpr ⟨rfl, hearlier⟩)

/-! ### Lines -/

/-- The **line** of a value with its name. -/
def line (key value : String) : List Char :=
  key.toList ++ '=' :: (value.toList ++ ['\n'])

/-- The lines of bindings. -/
def text (bindings : List (String × String)) : List Char :=
  bindings.flatMap fun b => line b.1 b.2

theorem configurationStream_eq (configuration : Environment) :
    configurationStream configuration = (text configuration.bindings).utf8Encode := by
  have htext : (String.join (configuration.bindings.map fun b =>
      b.1 ++ "=" ++ b.2 ++ "\n")).toList = text configuration.bindings := by
    rw [String.toList_join, List.flatMap_map, text]
    refine List.flatMap_congr fun b _ => ?_
    simp [line]
  rw [configurationStream, ← htext, String.utf8Encode_toList]
  rfl

theorem exists_stream_eq (tree : FileTree) (configuration : Environment) (inputs : List Path) :
    ∃ rest, stream tree configuration inputs = configurationStream configuration ++ rest := by
  rw [stream]
  generalize configurationStream configuration = start
  induction inputs generalizing start with
  | nil => exact ⟨ByteArray.empty, by simp⟩
  | cons path inputs ih =>
    obtain ⟨rest, hrest⟩ := ih (start ++ inputStream tree path)
    exact ⟨inputStream tree path ++ rest, by rw [List.foldl_cons, hrest, ByteArray.append_assoc]⟩

theorem text_prefix_of_stream_eq {tree₁ tree₂ : FileTree}
    {configuration₁ configuration₂ : Environment} {inputs₁ inputs₂ : List Path}
    (h : stream tree₁ configuration₁ inputs₁ = stream tree₂ configuration₂ inputs₂) :
    ∃ rest₁ rest₂,
      text configuration₁.bindings ++ rest₁ = text configuration₂.bindings ++ rest₂ := by
  obtain ⟨bytes₁, h₁⟩ := exists_stream_eq tree₁ configuration₁ inputs₁
  obtain ⟨bytes₂, h₂⟩ := exists_stream_eq tree₂ configuration₂ inputs₂
  rw [h₁, h₂, configurationStream_eq, configurationStream_eq] at h
  rcases prefix_of_utf8Encode_append h with ⟨rest, hrest⟩ | ⟨rest, hrest⟩
  · exact ⟨rest, [], by rw [hrest, List.append_nil]⟩
  · exact ⟨[], rest, by rw [hrest, List.append_nil]⟩

/-! ### Where a value ends -/

theorem cut_at {c : Char} {x₁ x₂ : List Char} (h₁ : c ∉ x₁) (h₂ : c ∉ x₂)
    (h : x₁ ++ c :: r₁ = x₂ ++ c :: r₂) : x₁ = x₂ ∧ r₁ = r₂ := by
  rcases List.append_eq_append_iff.mp h with ⟨x, rfl, hrest⟩ | ⟨x, rfl, hrest⟩
  · cases x with
    | nil => simpa using hrest
    | cons d x =>
      obtain ⟨rfl, -⟩ := List.cons.inj hrest
      exact absurd (by simp) h₂
  · cases x with
    | nil => simpa [eq_comm] using hrest
    | cons d x =>
      obtain ⟨rfl, -⟩ := List.cons.inj hrest
      exact absurd (by simp) h₁

theorem line_cut (h₁ : '\n' ∉ value₁.toList) (h₂ : '\n' ∉ value₂.toList)
    (h : line key value₁ ++ r₁ = line key value₂ ++ r₂) : value₁ = value₂ ∧ r₁ = r₂ := by
  simp only [line, List.append_assoc, List.cons_append, List.append_cancel_left_eq,
    List.cons.injEq, true_and, List.nil_append] at h
  obtain ⟨hvalue, hrest⟩ := cut_at h₁ h₂ h
  exact ⟨String.toList_inj.mp hvalue, hrest⟩

variable {marks : List (List Char)}

/-- A text in which no line **starts with a mark**, its first line apart. -/
def Clear (marks : List (List Char)) (text : List Char) : Prop :=
  ∀ mark ∈ marks, ¬('\n' :: mark) <:+: text

instance (marks : List (List Char)) (text : List Char) : Decidable (Clear marks text) :=
  inferInstanceAs (Decidable (∀ mark ∈ marks, ¬('\n' :: mark) <:+: text))

/-- What **starts with a mark**. -/
def Marked (marks : List (List Char)) (rest : List Char) : Prop :=
  ∃ mark ∈ marks, mark <+: rest

theorem eq_nil_of_marked (hmarks : ∀ mark ∈ marks, '\n' ∉ mark) {x y : List Char}
    (hclear : Clear marks (x ++ y)) (hmarked : Marked marks r₁) (h : '\n' :: r₁ = y ++ '\n' :: r₂) :
    y = [] := by
  cases y with
  | nil => rfl
  | cons c y =>
    obtain ⟨rfl, rfl⟩ := List.cons.inj h
    obtain ⟨mark, hmark, t, ht⟩ := hmarked
    exfalso
    rcases List.append_eq_append_iff.mp ht with ⟨z, rfl, -⟩ | ⟨z, rfl, hz⟩
    · exact hclear mark hmark ⟨x, z, by simp⟩
    · cases z with
      | nil => exact hclear _ hmark ⟨x, [], by simp⟩
      | cons d z =>
        obtain ⟨rfl, -⟩ := List.cons.inj hz
        exact hmarks _ hmark (by simp)

/-- A value **in which no line starts with a mark** ends at the first line break that a mark
follows. -/
theorem marked_cut (hmarks : ∀ mark ∈ marks, '\n' ∉ mark) (h₁ : Clear marks value₁.toList)
    (h₂ : Clear marks value₂.toList) (hr₁ : Marked marks r₁) (hr₂ : Marked marks r₂)
    (h : line key value₁ ++ r₁ = line key value₂ ++ r₂) : value₁ = value₂ ∧ r₁ = r₂ := by
  simp only [line, List.append_assoc, List.cons_append, List.append_cancel_left_eq,
    List.cons.injEq, true_and, List.nil_append] at h
  rcases List.append_eq_append_iff.mp h with ⟨y, hy, hrest⟩ | ⟨y, hy, hrest⟩
  · obtain rfl := eq_nil_of_marked hmarks (hy ▸ h₂) hr₁ hrest
    rw [List.append_nil] at hy
    exact ⟨(String.toList_inj.mp hy).symm, (List.cons.inj hrest).2⟩
  · obtain rfl := eq_nil_of_marked hmarks (hy ▸ h₁) hr₂ hrest
    rw [List.append_nil] at hy
    exact ⟨String.toList_inj.mp hy, (List.cons.inj hrest).2.symm⟩

end Fingerprint

end BuildMatrix
