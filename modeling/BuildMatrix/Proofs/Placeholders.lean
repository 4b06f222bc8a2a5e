import Mathlib.Data.List.Infix
import BuildMatrix.Command.Basic

/-!
# Placeholders

The placeholders of a command are replaced one after the other, each of them in the text that the
replacements before it have left. A value is therefore read again for the placeholders that come
later, alone and together with the text around it. This is the same as one pass over the command
as long as no value meets a later placeholder, whatever the command is, and also as long as no value
opens a brace and the command opens none inside another.
-/

namespace BuildMatrix

namespace Text

/-- The characters after **one pass from left to right** that puts in, wherever a pattern of the
table starts, its value; the first `skip` characters belong to an occurrence that is already
replaced. -/
def passFrom (table : List (List Char × List Char)) : Nat → List Char → List Char
  | _, [] => []
  | skip + 1, _ :: rest => passFrom table skip rest
  | 0, c :: rest =>
    match table.find? fun entry => entry.1.isPrefixOf (c :: rest) with
    | some entry => entry.2 ++ passFrom table (entry.1.length - 1) rest
    | none => c :: passFrom table 0 rest

/-- A table in characters. -/
def charsOf (table : List (String × String)) : List (List Char × List Char) :=
  table.map fun e => (e.1.toList, e.2.toList)

/-- A text with the patterns of a table **replaced all at once**. -/
def substitute (table : List (String × String)) (text : String) : String :=
  .ofList (passFrom (charsOf table) 0 text.toList)

/-- **The pattern starts inside the word** and follows it to the end of one of the two. -/
def Enters (word pattern : List Char) : Prop :=
  ∃ start ∈ word.tails, start ≠ [] ∧ (pattern <+: start ∨ start <+: pattern)

instance (word pattern : List Char) : Decidable (Enters word pattern) :=
  inferInstanceAs (Decidable (∃ start ∈ word.tails, _))

/-- Two words **meet** if in some text an occurrence of one overlaps an occurrence of the other. -/
def Meets (word pattern : List Char) : Prop := Enters word pattern ∨ Enters pattern word

instance (word pattern : List Char) : Decidable (Meets word pattern) :=
  inferInstanceAs (Decidable (_ ∨ _))

/-- **No brace is opened inside another**: after an opening brace the next brace closes it. -/
def isFlat : Bool → List Char → Bool
  | _, [] => true
  | opened, c :: rest =>
    if c = '\x7b' then !opened && isFlat true rest else isFlat (opened && c ≠ '\x7d') rest

variable {table : List (List Char × List Char)} {entry : List Char × List Char}
variable {text rest word pattern name : List Char} {opened : Bool}

theorem passFrom_eq_drop (skip : Nat) (text : List Char) :
    passFrom table skip text = passFrom table 0 (text.drop skip) := by
  induction skip generalizing text with
  | zero => rfl
  | succ skip ih => cases text <;> simp [passFrom, ih]

theorem drop_of_append_eq {c : Char} (hne : word ≠ []) (h : word ++ rest = c :: text) :
    text.drop (word.length - 1) = rest := by
  obtain ⟨d, tail, rfl⟩ := List.exists_cons_of_ne_nil hne
  obtain ⟨-, rfl⟩ := List.cons.inj h
  simp

theorem replaceFrom_eq_passFrom (pattern value : List Char) (skip : Nat) (text : List Char) :
    replaceFrom pattern value skip text = passFrom [(pattern, value)] skip text := by
  fun_induction replaceFrom pattern value skip text <;> simp_all [passFrom]

theorem passFrom_cons_of_none {c : Char} (h : ∀ e ∈ table, ¬e.1 <+: c :: rest) :
    passFrom table 0 (c :: rest) = c :: passFrom table 0 rest := by
  have hnone : table.find? (fun e => e.1.isPrefixOf (c :: rest)) = none := by
    simpa [List.find?_eq_none] using fun p v he => h (p, v) he
  rw [passFrom, hnone]

theorem passFrom_append_of_find (hne : entry.1 ≠ [])
    (h : table.find? (fun e => e.1.isPrefixOf (entry.1 ++ rest)) = some entry) :
    passFrom table 0 (entry.1 ++ rest) = entry.2 ++ passFrom table 0 rest := by
  obtain ⟨pattern, value⟩ := entry
  obtain ⟨c, tail, rfl⟩ := List.exists_cons_of_ne_nil hne
  rw [List.cons_append] at h ⊢
  rw [passFrom, h]
  simp [passFrom_eq_drop tail.length]

theorem Enters.cons {c : Char} (h : Enters word pattern) :
    Enters (c :: word) pattern := by
  obtain ⟨start, hstart, hne, hpattern⟩ := h
  exact ⟨start, by simp [hstart], hne, hpattern⟩

theorem enters_of_starts (hne : word ≠ []) (hword : word <+: text)
    (hpattern : pattern <+: text) : Enters word pattern :=
  ⟨word, by simp, hne, List.prefix_or_prefix_of_prefix hpattern hword⟩

/-- A pass leaves a word alone that none of its patterns starts in. -/
theorem passFrom_append_of_not_enters (h : ∀ e ∈ table, ¬Enters word e.1) :
    passFrom table 0 (word ++ rest) = word ++ passFrom table 0 rest := by
  induction word with
  | nil => rfl
  | cons c word ih =>
    rw [List.cons_append, passFrom_cons_of_none, ih, List.cons_append]
    · exact fun e he hin => h e he hin.cons
    · exact fun e he hin => h e he (enters_of_starts (by simp) (List.prefix_append _ rest) hin)

/-- A name in braces. -/
def placeholder (name : List Char) : List Char := '\x7b' :: name ++ ['\x7d']

/-- A name **without braces**. -/
def Unbraced (name : List Char) : Prop := '\x7b' ∉ name ∧ '\x7d' ∉ name

instance (name : List Char) : Decidable (Unbraced name) := inferInstanceAs (Decidable (_ ∧ _))

/-- Placeholders **told apart** by the text at any place: no two of them meet. -/
structure Apart (table : List (List Char × List Char)) : Prop where
  shape : ∀ e ∈ table, ∃ name, Unbraced name ∧ e.1 = placeholder name
  pairwise : table.Pairwise fun e f => ¬Meets e.1 f.1

theorem Apart.tail (h : Apart (entry :: table)) : Apart table :=
  ⟨fun e he => h.shape e (by simp [he]), h.pairwise.of_cons⟩

theorem Apart.ne_nil (h : Apart table) (hentry : entry ∈ table) : entry.1 ≠ [] := by
  obtain ⟨name, -, hname⟩ := h.shape entry hentry
  simp [hname, placeholder]

theorem Apart.find?_eq (h : Apart table) (hentry : entry ∈ table) (hin : entry.1 <+: text) :
    table.find? (fun e => e.1.isPrefixOf text) = some entry := by
  induction table with
  | nil => simp at hentry
  | cons first table ih =>
    rcases List.mem_cons.1 hentry with rfl | hentry
    · exact List.find?_cons_of_pos (by simpa using hin)
    · have hfirst : ¬first.1 <+: text := fun hfirst =>
        List.rel_of_pairwise_cons h.pairwise hentry
          (.inl (enters_of_starts (h.ne_nil (List.mem_cons_self ..)) hfirst hin))
      rw [List.find?_cons_of_neg (by simpa using hfirst)]
      exact ih h.tail hentry

/-- In a text, **no value completes a pattern** that the text before it has begun. -/
def Uncompleted (entry : List Char × List Char) (pattern text : List Char) : Prop :=
  ∀ begun missing, begun ≠ [] → missing ≠ [] → pattern = begun ++ missing →
    entry.2 <+: missing ∨ missing <+: entry.2 → ¬begun ++ entry.1 <:+: text

theorem Uncompleted.of_suffix (h : Uncompleted entry pattern text)
    (hrest : rest <:+ text) : Uncompleted entry pattern rest :=
  fun begun missing hbegun hmissing heq hvalue hin =>
    h begun missing hbegun hmissing heq hvalue (hin.trans hrest.isInfix)

theorem uncompleted_of_not_meets (h : ¬Meets entry.2 pattern) :
    Uncompleted entry pattern text := by
  rintro begun missing - hmissing rfl hvalue -
  exact h (.inr ⟨missing, by simp, hmissing, hvalue⟩)

/-- What starts before the first replaced place of a text stood there before. -/
theorem prefix_of_prefix_passFrom (hne : entry.1 ≠ []) (hword : word ≠ [])
    (h : Uncompleted entry pattern (word ++ text))
    (hin : pattern <+: word ++ passFrom [entry] 0 text) : pattern <+: word ++ text := by
  induction text generalizing word with
  | nil => exact hin
  | cons c text ih =>
    by_cases hentry : entry.1 <+: c :: text
    · obtain ⟨rest, hrest⟩ := hentry
      rw [← hrest, passFrom_append_of_find hne (by simp), ← List.append_assoc] at hin
      -- Either the pattern ends in the word, or the value goes on with it.
      rcases List.prefix_or_prefix_of_prefix hin ((List.prefix_append word entry.2).trans
        (List.prefix_append _ _)) with hshort | ⟨missing, rfl⟩
      · exact hshort.trans (List.prefix_append _ _)
      · rw [List.append_assoc, List.prefix_append_right_inj] at hin
        rcases eq_or_ne missing [] with rfl | hmissing
        · simp
        · refine (h word missing hword hmissing rfl ?_ ?_).elim
          · exact (List.prefix_or_prefix_of_prefix hin (List.prefix_append _ _)).symm
          · exact ⟨[], rest, by simp [hrest]⟩
    · rw [passFrom_cons_of_none (by simpa using hentry)] at hin
      simpa using @ih (word ++ [c]) (by simp) (by simpa using h) (by simpa using hin)

/-- **One pass less**: an entry that is replaced in a pass of its own, before the others. -/
theorem passFrom_cons (hapart : Apart (entry :: table))
    (hvalue : ∀ e ∈ table, ¬Enters entry.2 e.1) (skip : Nat) (text : List Char)
    (h : ∀ e ∈ table, Uncompleted entry e.1 text) :
    passFrom (entry :: table) skip text = passFrom table 0 (passFrom [entry] skip text) := by
  have hne := hapart.ne_nil (List.mem_cons_self ..)
  fun_induction passFrom (entry :: table) skip text with
  | case1 => simp [passFrom]
  | case2 skip c text ih =>
    rw [ih fun e he => (h e he).of_suffix (List.suffix_cons c text)]
    rfl
  | case3 c text found hfound ih =>
    specialize ih fun e he => (h e he).of_suffix (List.suffix_cons c text)
    by_cases hentry : entry.1 <+: c :: text
    · obtain rfl : entry = found := by
        simpa [List.find?_cons, List.isPrefixOf_iff_prefix.2 hentry] using hfound
      rw [ih, ← passFrom_append_of_not_enters hvalue, passFrom]
      simp [List.isPrefixOf_iff_prefix.2 hentry]
    · rw [List.find?_cons_of_neg (by simpa using hentry)] at hfound
      have hmem := List.mem_of_find?_eq_some hfound
      have hin : found.1 <+: c :: text := by simpa using List.find?_some hfound
      obtain ⟨rest, hrest⟩ := hin
      have hnil := hapart.tail.ne_nil hmem
      rw [ih, passFrom_eq_drop (found.1.length - 1), drop_of_append_eq hnil hrest, ← hrest,
        passFrom_append_of_not_enters, passFrom_append_of_find hnil
          (hapart.tail.find?_eq hmem (List.prefix_append _ _))]
      simpa using fun hin => List.rel_of_pairwise_cons hapart.pairwise hmem (.inr hin)
  | case4 c text hnone ih =>
    specialize ih fun e he => (h e he).of_suffix (List.suffix_cons c text)
    simp only [List.find?_eq_none, List.mem_cons, forall_eq_or_imp,
      List.isPrefixOf_iff_prefix] at hnone
    rw [ih, passFrom_cons_of_none (by simpa using hnone.1), passFrom_cons_of_none]
    intro e he hin
    exact hnone.2 e he (prefix_of_prefix_passFrom hne (List.cons_ne_nil c []) (h e he) hin)

theorem isFlat_append (hopen : '\x7b' ∉ word) (hclose : opened = true → '\x7d' ∉ word) :
    isFlat opened (word ++ rest) = isFlat opened rest := by
  induction word with
  | nil => rfl
  | cons c word ih =>
    simp only [List.mem_cons, not_or] at hopen hclose
    have hsame : (opened && c ≠ '\x7d') = opened := by
      cases opened <;> simp_all [eq_comm]
    rw [List.cons_append, isFlat, if_neg (Ne.symm hopen.1), hsame]
    exact ih hopen.2 fun h => (hclose h).2

theorem isFlat_placeholder (h : Unbraced name) :
    isFlat opened (placeholder name ++ rest) = (!opened && isFlat false rest) := by
  simp [placeholder, isFlat, isFlat_append h.1 fun _ => h.2]

theorem exists_isFlat_of_suffix (h : isFlat opened text = true)
    (hrest : rest <:+ text) : ∃ opened', isFlat opened' rest = true := by
  induction text generalizing opened with
  | nil => exact ⟨opened, by simp_all⟩
  | cons c text ih =>
    rcases List.suffix_cons_iff.1 hrest with rfl | hrest
    · exact ⟨opened, h⟩
    · rw [isFlat] at h
      split at h
      · exact ih (Bool.and_eq_true_iff.1 h).2 hrest
      · exact ih h hrest

/-- Where no brace is opened inside another, no placeholder stands in one that is begun. -/
theorem uncompleted_of_isFlat (hname : Unbraced name)
    (hentry : ∃ own, entry.1 = placeholder own) (h : isFlat opened text = true) :
    Uncompleted entry (placeholder name) text := by
  rintro begun missing hbegun hmissing heq - ⟨before, after, rfl⟩
  obtain ⟨own, hown⟩ := hentry
  obtain ⟨c, word, rfl⟩ := List.exists_cons_of_ne_nil hbegun
  obtain ⟨rfl, htail⟩ := List.cons.inj heq
  have hstarts : word <+: name := by
    obtain ⟨init, last, rfl⟩ := (List.eq_nil_or_concat' missing).resolve_left hmissing
    exact ⟨init, (List.append_inj' (htail.trans (List.append_assoc ..).symm) rfl).1.symm⟩
  have hopen : '\x7b' ∉ word := fun h => hname.1 (hstarts.mem h)
  have hclose : '\x7d' ∉ word := fun h => hname.2 (hstarts.mem h)
  have hsuffix : '\x7b' :: word ++ entry.1 ++ after <:+
      before ++ ('\x7b' :: word ++ entry.1) ++ after := ⟨before, by simp⟩
  obtain ⟨opened', hflat⟩ := exists_isFlat_of_suffix h hsuffix
  simp [isFlat, hown, placeholder, isFlat_append hopen fun _ => hclose] at hflat

theorem not_enters_placeholder (h : '\x7b' ∉ word) :
    ¬Enters word (placeholder name) := by
  rintro ⟨start, hstart, hne, hin⟩
  obtain ⟨c, start, rfl⟩ := List.exists_cons_of_ne_nil hne
  rw [List.mem_tails] at hstart
  obtain rfl : '\x7b' = c := by
    rcases hin with hin | hin
    · exact (List.cons_prefix_cons.1 hin).1
    · exact (List.cons_prefix_cons.1 hin).1.symm
  exact h (hstart.mem (by simp))

theorem isFlat_passFrom (hname : Unbraced name)
    (hentry : entry.1 = placeholder name) (hvalue : '\x7b' ∉ entry.2) (skip : Nat)
    (h : isFlat opened (text.drop skip) = true) :
    isFlat opened (passFrom [entry] skip text) = true := by
  fun_induction passFrom [entry] skip text generalizing opened with
  | case1 => rfl
  | case2 skip c text ih => exact ih h
  | case3 c text found hfound ih =>
    obtain rfl : found = entry := by simpa using List.mem_of_find?_eq_some hfound
    have hin : found.1 <+: c :: text := by simpa using List.find?_some hfound
    obtain ⟨rest, hrest⟩ := hin
    rw [List.drop_zero, ← hrest, hentry, isFlat_placeholder hname] at h
    obtain ⟨rfl, h⟩ : opened = false ∧ isFlat false rest = true := by simpa using h
    rw [isFlat_append hvalue fun h => absurd h Bool.false_ne_true]
    exact ih (by rwa [drop_of_append_eq (by simp [hentry, placeholder]) hrest])
  | case4 c text hnone ih =>
    simp only [List.drop_zero, isFlat] at h ih ⊢
    split_ifs at h ⊢
    · exact Bool.and_eq_true_iff.2 ⟨(Bool.and_eq_true_iff.1 h).1, ih (Bool.and_eq_true_iff.1 h).2⟩
    · exact ih h

/-- **Replacing one after the other** is one pass, if no value meets a later pattern, or if no value
opens a brace and the text opens none inside another. -/
theorem foldl_passFrom (hapart : Apart table)
    (h : (table.Pairwise fun e f => ¬Meets e.2 f.1) ∨
      isFlat false text = true ∧ ∀ e ∈ table, '\x7b' ∉ e.2) :
    table.foldl (fun text e => passFrom [e] 0 text) text = passFrom table 0 text := by
  induction table generalizing text with
  | nil => simpa [passFrom] using (@passFrom_append_of_not_enters [] [] text (by simp)).symm
  | cons entry table ih =>
    obtain ⟨own, hown, hentry⟩ := hapart.shape entry (by simp)
    rw [List.foldl_cons]
    rcases h with h | ⟨hflat, hvalues⟩
    · rw [ih hapart.tail (.inl h.of_cons), passFrom_cons hapart]
      · exact fun e he hin => List.rel_of_pairwise_cons h he (.inl hin)
      · exact fun e he => uncompleted_of_not_meets (List.rel_of_pairwise_cons h he)
    · rw [ih hapart.tail (.inr ⟨isFlat_passFrom hown hentry (hvalues entry (by simp)) 0 hflat,
        fun e he => hvalues e (by simp [he])⟩), passFrom_cons hapart]
      · intro e he
        obtain ⟨name, -, hname⟩ := hapart.tail.shape e he
        exact hname ▸ not_enters_placeholder (hvalues entry (by simp))
      · intro e he
        obtain ⟨name, hfree, hname⟩ := hapart.tail.shape e he
        exact hname ▸ uncompleted_of_isFlat hfree ⟨own, hentry⟩ hflat

theorem toList_foldl_replaceAll (table : List (String × String)) (text : String) :
    (table.foldl (fun text e => replaceAll e.1 e.2 text) text).toList =
      (charsOf table).foldl (fun text e => passFrom [e] 0 text) text.toList := by
  induction table generalizing text with
  | nil => rfl
  | cons e table ih =>
    rw [List.foldl_cons, ih, replaceAll, String.toList_ofList, replaceChars,
      replaceFrom_eq_passFrom]
    rfl

end Text

namespace Command

open Text

/-- The names of placeholders, in order. -/
def placeholderNames : List String := ["output", "module_dir", "module", "platform", "build_type"]

theorem apart_placeholders (task : Command) (outputDir : Path) :
    Apart (charsOf (task.placeholders outputDir)) := by
  have hpatterns : (charsOf (task.placeholders outputDir)).map Prod.fst =
      placeholderNames.map fun name => placeholder name.toList := by
    simp [charsOf, placeholders, placeholderNames, placeholder]
  constructor
  · intro e he
    have hmem := hpatterns ▸ List.mem_map_of_mem he
    obtain ⟨name, hname, heq⟩ := List.mem_map.1 hmem
    have hnames : ∀ name ∈ placeholderNames, Unbraced name.toList := by decide
    exact ⟨name.toList, hnames name hname, heq.symm⟩
  · have hpairs : (placeholderNames.map fun name => placeholder name.toList).Pairwise
        fun a b => ¬Meets a b := by decide +kernel
    exact List.pairwise_map.1 (hpatterns ▸ hpairs)

/-- **Placeholders are replaced as in one pass** over the command, from left to right, if no value
meets a later placeholder, or if no value opens a brace and the command opens none inside another.
-/
theorem expand_is_one_pass (task : Command) (outputDir : Path)
    (h : ((task.placeholders outputDir).Pairwise fun e f => ¬Meets e.2.toList f.1.toList) ∨
      isFlat false task.command.toList = true ∧
        ∀ e ∈ task.placeholders outputDir, '\x7b' ∉ e.2.toList) :
    task.expand outputDir = substitute (task.placeholders outputDir) task.command := by
  rw [substitute, ← foldl_passFrom (task.apart_placeholders outputDir), ← toList_foldl_replaceAll,
    String.ofList_toList, expand]
  rwa [charsOf, List.pairwise_map, List.forall_mem_map]

/-- A command of a module on one platform. -/
def listing (module command : String) : Command :=
  ofCell { name := "gen", command := some command }
    { module := { name := module, platforms := [.jvm] }, platform := .jvm } ⟨"/p"⟩ none

theorem expand_listing_of_platform :
    (listing "platform" "ls \x7bmodule\x7d \x7boutput\x7d/\x7bplatform\x7d").expand ⟨"/w"⟩ =
        "ls platform /w/jvm" ∧
      (listing "core" "ls $\x7bHOME:-\x7bmodule\x7d\x7d").expand ⟨"/w"⟩ =
        "ls $\x7bHOME:-core\x7d" := by
  rw [expand_is_one_pass _ _ (.inr (by decide +kernel)),
    expand_is_one_pass _ _ (.inl (by decide +kernel))]
  decide +kernel

/-- **A value is read again**: of an output directory that is called like a placeholder, another one
is listed. -/
theorem output_directory_is_read_again :
    (listing "core" "ls \x7boutput\x7d").expand ⟨"/w/\x7bplatform\x7d/out"⟩ = "ls /w/jvm/out" ∧
      substitute ((listing "core" "ls \x7boutput\x7d").placeholders ⟨"/w/\x7bplatform\x7d/out"⟩)
        "ls \x7boutput\x7d" = "ls /w/\x7bplatform\x7d/out" := by
  decide +kernel

end Command

end BuildMatrix
