import BuildMatrix.Proofs.ConfigurationStream

/-!
# Which configurations share their bytes

The inputs that follow a configuration in the stream are the same for every configuration, so
streams tell configurations apart exactly where their texts do. A text is a line `name=value` for
each value, and neither names nor values are escaped. So a value can hold what looks like the next
line, and a name what looks like the start of a value: nearly every configuration shares its text
with another. Two configurations are told apart where no name has an equals sign or a line break and
no value of one has a line that looks like a line of the other.
-/

namespace BuildMatrix

namespace Environment

theorem eq_of_bindings_eq {a b : Environment} (h : a.bindings = b.bindings) : a = b := by
  cases a
  cases b
  subst h
  rfl

/-- A configuration with one value. -/
def single (name value : String) : Environment := ⟨[(name, value)], List.pairwise_singleton _ _⟩

end Environment

namespace Fingerprint

variable {c₁ c₂ : Environment} {bindings : List (String × String)} {value name : String}

/-! ### The bytes and the text -/

/-- The bytes of all inputs. -/
def inputsStream (tree : FileTree) (inputs : List Path) : ByteArray :=
  inputs.foldr (fun path rest => inputStream tree path ++ rest) ByteArray.empty

theorem stream_eq_append (tree : FileTree) (configuration : Environment) (inputs : List Path) :
    stream tree configuration inputs =
      (text configuration.bindings).utf8Encode ++ inputsStream tree inputs := by
  rw [stream, ← configurationStream_eq]
  generalize configurationStream configuration = start
  induction inputs generalizing start with
  | nil => exact ByteArray.append_empty.symm
  | cons path inputs ih =>
    rw [List.foldl_cons, ih, ByteArray.append_assoc]
    rfl

theorem utf8Encode_injective {l₁ l₂ : List Char} (h : l₁.utf8Encode = l₂.utf8Encode) : l₁ = l₂ := by
  have hstring : String.ofList l₁ = String.ofList l₂ :=
    String.toByteArray_inj.mp (by simpa using h)
  simpa using congrArg String.toList hstring

/-- The streams of two configurations with the same inputs are equal **exactly if their texts
are**. -/
theorem stream_eq_iff {tree : FileTree} {inputs : List Path} :
    stream tree c₁ inputs = stream tree c₂ inputs ↔ text c₁.bindings = text c₂.bindings := by
  rw [stream_eq_append, stream_eq_append, ByteArray.append_left_inj]
  exact ⟨utf8Encode_injective, congrArg _⟩

theorem text_eq_nil (h : text bindings = []) : bindings = [] := by
  cases bindings with
  | nil => rfl
  | cons b rest => simp [text, line] at h

/-! ### Reading lines back -/

/-- The **names** of a configuration are plain: no equals sign, no line break. -/
def PlainNames (configuration : Environment) : Prop :=
  ∀ b ∈ configuration.bindings, '=' ∉ b.1.toList ∧ '\n' ∉ b.1.toList

/-- What the lines of values start with. -/
def lineStarts (configuration : Environment) : List (List Char) :=
  configuration.bindings.map fun b => b.1.toList ++ ['=']

/-- **No value** of a configuration has a further line that starts as a line of another does. -/
def ClearOf (other configuration : Environment) : Prop :=
  ∀ b ∈ configuration.bindings, Clear (lineStarts other) b.2.toList

instance (configuration : Environment) : Decidable (PlainNames configuration) :=
  inferInstanceAs (Decidable (∀ b ∈ configuration.bindings, '=' ∉ b.1.toList ∧ '\n' ∉ b.1.toList))

instance (other configuration : Environment) : Decidable (ClearOf other configuration) :=
  inferInstanceAs (Decidable (∀ b ∈ configuration.bindings, Clear (lineStarts other) b.2.toList))

/-- A value in which no line starts as those that follow **does not go on** past its line break. -/
theorem eq_nil_of_lines {marks : List (List Char)} (hmarks : ∀ mark ∈ marks, '\n' ∉ mark)
    {rest : List (String × String)} (hrest : ∀ b ∈ rest, b.1.toList ++ ['='] ∈ marks)
    {x y r : List Char} (hclear : Clear marks (x ++ y)) (h : '\n' :: text rest = y ++ '\n' :: r) :
    y = [] := by
  cases rest with
  | nil =>
    -- nothing follows, and the line break is all there is
    cases y with
    | nil => rfl
    | cons c y => simp [text] at h
  | cons b rest =>
    refine eq_nil_of_marked hmarks hclear ⟨_, hrest b List.mem_cons_self, ?_⟩ h
    exact ⟨b.2.toList ++ ['\n'] ++ text rest, by simp [text, line]⟩

/-- Lines with plain names and clear values are **read back** from their text. Each name ends at its
equals sign, and each value at the first line break after which a line of the other text starts. -/
theorem bindings_eq_of_text_eq {marks₁ marks₂ : List (List Char)}
    (hmarks₁ : ∀ mark ∈ marks₁, '\n' ∉ mark) (hmarks₂ : ∀ mark ∈ marks₂, '\n' ∉ mark)
    {l₁ l₂ : List (String × String)}
    (h₁ : ∀ b ∈ l₁, '=' ∉ b.1.toList ∧ b.1.toList ++ ['='] ∈ marks₁ ∧ Clear marks₂ b.2.toList)
    (h₂ : ∀ b ∈ l₂, '=' ∉ b.1.toList ∧ b.1.toList ++ ['='] ∈ marks₂ ∧ Clear marks₁ b.2.toList)
    (h : text l₁ = text l₂) : l₁ = l₂ := by
  induction l₁ generalizing l₂ with
  | nil => exact (text_eq_nil h.symm).symm
  | cons b₁ r₁ ih =>
    cases l₂ with
    | nil => exact text_eq_nil h
    | cons b₂ r₂ =>
      obtain ⟨⟨hname₁, -, hvalue₁⟩, hr₁⟩ := List.forall_mem_cons.mp h₁
      obtain ⟨⟨hname₂, -, hvalue₂⟩, hr₂⟩ := List.forall_mem_cons.mp h₂
      simp only [text, List.flatMap_cons, line, List.append_assoc, List.cons_append] at h
      obtain ⟨hname, hrest⟩ := cut_at hname₁ hname₂ h
      -- the longer of the two values would hold a line of the other text
      have hvalue : b₁.2.toList = b₂.2.toList ∧ text r₁ = text r₂ := by
        rcases List.append_eq_append_iff.mp hrest with ⟨y, hy, hlines⟩ | ⟨y, hy, hlines⟩
        · obtain rfl := eq_nil_of_lines hmarks₁ (fun b hb => (hr₁ b hb).2.1) (hy ▸ hvalue₂)
            hlines
          exact ⟨by simpa using hy.symm, (List.cons.inj hlines).2⟩
        · obtain rfl := eq_nil_of_lines hmarks₂ (fun b hb => (hr₂ b hb).2.1) (hy ▸ hvalue₁)
            hlines
          exact ⟨by simpa using hy, (List.cons.inj hlines).2.symm⟩
      rw [ih hr₁ hr₂ hvalue.2]
      congr 1
      exact Prod.ext (String.toList_inj.mp hname) (String.toList_inj.mp hvalue.1)

/-- Configurations that are plain and clear of each other are **told apart** by their texts. -/
theorem eq_of_text_eq (hplain₁ : PlainNames c₁) (hplain₂ : PlainNames c₂) (hclear₁ : ClearOf c₂ c₁)
    (hclear₂ : ClearOf c₁ c₂) (h : text c₁.bindings = text c₂.bindings) : c₁ = c₂ := by
  have hmarks : ∀ c : Environment, PlainNames c → ∀ mark ∈ lineStarts c, '\n' ∉ mark := by
    intro c hplain mark hmark
    obtain ⟨b, hb, rfl⟩ := List.mem_map.mp hmark
    simp [(hplain b hb).2]
  have hmem : ∀ c : Environment, ∀ b ∈ c.bindings, b.1.toList ++ ['='] ∈ lineStarts c :=
    fun c b hb => List.mem_map.mpr ⟨b, hb, rfl⟩
  refine Environment.eq_of_bindings_eq ?_
  exact bindings_eq_of_text_eq (hmarks c₁ hplain₁) (hmarks c₂ hplain₂)
    (fun b hb => ⟨(hplain₁ b hb).1, hmem c₁ b hb, hclear₁ b hb⟩)
    (fun b hb => ⟨(hplain₂ b hb).1, hmem c₂ b hb, hclear₂ b hb⟩) h

/-! ### Configurations that share their text -/

theorem length_le_count_text (bindings : List (String × String)) :
    bindings.length ≤ (text bindings).count '=' := by
  induction bindings with
  | nil => exact Nat.zero_le _
  | cons b rest ih =>
    have hline : 1 ≤ (line b.1 b.2).count '=' := by
      rw [line, List.count_append, List.count_cons_self]
      omega
    rw [text, List.flatMap_cons, List.count_append, List.length_cons]
    rw [text] at ih
    omega

theorem exists_text_eq (h : bindings ≠ []) : ∃ body, text bindings = body ++ ['\n'] := by
  induction bindings with
  | nil => exact absurd rfl h
  | cons b rest ih =>
    cases rest with
    | nil => exact ⟨b.1.toList ++ '=' :: b.2.toList, by simp [text, line]⟩
    | cons b' rest =>
      obtain ⟨body, hbody⟩ := ih (List.cons_ne_nil _ _)
      refine ⟨line b.1 b.2 ++ body, ?_⟩
      rw [text, List.flatMap_cons, List.append_assoc, ← hbody, text]

/-- A text can be cut **at any of its equals signs** into the name and the value of a
configuration. -/
theorem text_single (x y : List Char) :
    text (Environment.single (String.ofList x) (String.ofList y)).bindings =
      x ++ '=' :: (y ++ ['\n']) := by
  simp [Environment.single, text, line]

/-- A configuration with **more than one value** shares its text with one that has a single value:
the first, with all further lines in it. -/
theorem exists_single_of_cons (b b' : String × String) (rest : List (String × String)) :
    ∃ name value, text (Environment.single name value).bindings = text (b :: b' :: rest) := by
  obtain ⟨body, hbody⟩ := exists_text_eq (List.cons_ne_nil b' rest)
  refine ⟨String.ofList b.1.toList, String.ofList (b.2.toList ++ '\n' :: body), ?_⟩
  rw [text_single, text, List.flatMap_cons]
  change _ = _ ++ text (b' :: rest)
  rw [hbody]
  simp [line]

theorem exists_of_mem_value (name : String) (h : '=' ∈ value.toList) :
    ∃ other : Environment, other.bindings ≠ [(name, value)] ∧
      text other.bindings = text [(name, value)] := by
  obtain ⟨x, y, hvalue⟩ := List.append_of_mem h
  refine ⟨.single (String.ofList (name.toList ++ '=' :: x)) (String.ofList y), ?_, ?_⟩
  · intro heq
    have hname := congrArg (fun l : List (String × String) => l.map (·.1.toList.length)) heq
    simp [Environment.single] at hname
  · rw [text_single]
    simp [text, line, hvalue]

theorem exists_of_mem_name (value : String) (h : '=' ∈ name.toList) :
    ∃ other : Environment, other.bindings ≠ [(name, value)] ∧
      text other.bindings = text [(name, value)] := by
  obtain ⟨x, y, hname⟩ := List.append_of_mem h
  refine ⟨.single (String.ofList x) (String.ofList (y ++ '=' :: value.toList)), ?_, ?_⟩
  · intro heq
    have hvalue := congrArg (fun l : List (String × String) => l.map (·.2.toList.length)) heq
    simp [Environment.single] at hvalue
    omega
  · rw [text_single]
    simp [text, line, hname]

theorem bindings_eq_of_text_eq_single (hname : '=' ∉ name.toList) (hvalue : '=' ∉ value.toList)
    (h : text bindings = text [(name, value)]) : bindings = [(name, value)] := by
  have hcount : (text [(name, value)]).count '=' = 1 := by
    simp [text, line, List.count_eq_zero_of_not_mem hname, List.count_eq_zero_of_not_mem hvalue]
  have hlength := length_le_count_text bindings
  rw [h, hcount] at hlength
  rcases bindings with - | ⟨b, - | ⟨c, rest⟩⟩
  · exact (text_eq_nil h.symm).symm
  · have hb : '=' ∉ b.1.toList := by
      intro hmem
      have hpos := List.count_pos_iff.mpr hmem
      have htwo : (text [b]).count '=' = b.1.toList.count '=' + (b.2.toList.count '=' + 1) := by
        simp [text, line]
      rw [h, hcount] at htwo
      omega
    simp only [text, line, List.flatMap_cons, List.flatMap_nil, List.append_nil] at h
    obtain ⟨hkey, hrest⟩ := cut_at hb hname h
    have hval := List.append_cancel_right hrest
    rw [← String.toList_inj.mp hkey, ← String.toList_inj.mp hval]
  · simp at hlength

/-! ### When a configuration is told by its bytes -/

/-- **When the bytes tell the configuration**, whatever the inputs are. Of two configurations with
plain names, neither of which has a value with a further line that starts as a line of the other
does, the bytes tell which it is. On its own, a configuration is told from all others only if it is
empty or has a single value, without an equals sign in it or its name. -/
theorem configuration_is_told (tree : FileTree) (inputs : List Path) :
    (∀ c₁ c₂ : Environment, PlainNames c₁ → PlainNames c₂ → ClearOf c₂ c₁ → ClearOf c₁ c₂ →
      stream tree c₁ inputs = stream tree c₂ inputs → c₁ = c₂) ∧
    ∀ c : Environment,
      (∀ other, stream tree other inputs = stream tree c inputs → other = c) ↔
        c.bindings = [] ∨
          ∃ name value, c.bindings = [(name, value)] ∧ '=' ∉ name.toList ∧ '=' ∉ value.toList := by
  refine ⟨fun c₁ c₂ hplain₁ hplain₂ hclear₁ hclear₂ h =>
    eq_of_text_eq hplain₁ hplain₂ hclear₁ hclear₂ (stream_eq_iff.mp h), fun c => ⟨?_, ?_⟩⟩
  · intro htold
    match hc : c.bindings with
    | [] => exact .inl rfl
    | [(name, value)] =>
      refine .inr ⟨name, value, rfl, fun hmem => ?_, fun hmem => ?_⟩
      · obtain ⟨other, hne, htext⟩ := exists_of_mem_name value hmem
        exact hne (htold other (stream_eq_iff.mpr (htext.trans (by rw [hc]))) ▸ hc)
      · obtain ⟨other, hne, htext⟩ := exists_of_mem_value name hmem
        exact hne (htold other (stream_eq_iff.mpr (htext.trans (by rw [hc]))) ▸ hc)
    | b :: b' :: rest =>
      obtain ⟨name, value, htext⟩ := exists_single_of_cons b b' rest
      have heq := htold _ (stream_eq_iff.mpr (htext.trans (by rw [hc])))
      rw [← heq] at hc
      exact absurd (congrArg List.length hc) (by simp [Environment.single])
  · rintro hc other h
    have htext := stream_eq_iff.mp h
    refine Environment.eq_of_bindings_eq ?_
    rcases hc with hc | ⟨name, value, hc, hname, hvalue⟩
    · rw [hc] at htext ⊢
      exact text_eq_nil htext
    · rw [hc] at htext ⊢
      exact bindings_eq_of_text_eq_single hname hvalue htext

/-- The same two values given in two orders, one of them with a line break: told by their bytes from
what they might be mistaken for; and a single value that no other configuration is mistaken for. -/
theorem configuration_is_told_small :
    PlainNames (.ofList [("b", "2"), ("a", "1\nc=2")]) ∧
    ClearOf (.ofList [("a", "1\nc=2"), ("b", "2")]) (.ofList [("b", "2"), ("a", "1\nc=2")]) ∧
    Environment.ofList [("b", "2"), ("a", "1\nc=2")] =
      Environment.ofList [("a", "1\nc=2"), ("b", "2")] ∧
    ∀ other, stream .empty other [] = stream .empty (.single "a" "1\nb") [] →
      other = .single "a" "1\nb" := by
  obtain ⟨htold, honly⟩ := configuration_is_told .empty []
  refine ⟨by decide, by decide, ?_, ?_⟩
  · exact htold _ _ (by decide) (by decide) (by decide) (by decide) (stream_eq_iff.mpr (by decide))
  · exact (honly (.single "a" "1\nb")).mpr (.inr ⟨"a", "1\nb", rfl, by decide, by decide⟩)

/-- **Two configurations with the same bytes**, whatever the inputs are: a value with a line break
in it stands for a value of the other and the line that follows it. -/
theorem line_break_hides_a_value :
    Environment.ofList [("a", "1\nb=2")] ≠ Environment.ofList [("a", "1"), ("b", "2")] ∧
    ∀ tree inputs, stream tree (.ofList [("a", "1\nb=2")]) inputs =
      stream tree (.ofList [("a", "1"), ("b", "2")]) inputs :=
  ⟨by decide, fun _ _ => stream_eq_iff.mpr (by decide)⟩

end Fingerprint

end BuildMatrix
