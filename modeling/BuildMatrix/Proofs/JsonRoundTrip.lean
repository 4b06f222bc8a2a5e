import BuildMatrix.Json.Parser
import BuildMatrix.Json.Printer

/-!
# Reading back what was written

A JSON value that was written with one member or item a line is read back as it was, as long as it
has no numbers and is not nested too deeply. Each reader is shown to stop exactly where the printed
part ends, whatever comes after it.
-/

namespace BuildMatrix.Json

variable {level fuel depth : Nat} {c : Char} {text after rest more : List Char} {item value : Json}
  {items : List Json}

/-! ### Strings -/

theorem hex4?_control : ∀ n < 0x20,
    hex4? '0' '0' (hexChar (n / 16)) (hexChar (n % 16)) = some n := by
  decide

theorem not_surrogate {n : Nat} (h : n < 0x20) :
    isHighSurrogate n = false ∧ isLowSurrogate n = false := by
  simp only [isHighSurrogate, isLowSurrogate, Bool.and_eq_false_iff, decide_eq_false_iff_not]
  omega

theorem parseString_escapedChar (fuel : Nat) (done rest : List Char) (c : Char) :
    parseString (fuel + 1) done (escapedChar c ++ rest) = parseString fuel (c :: done) rest := by
  unfold escapedChar
  split
  case h_8 c hquote hslash _ _ _ _ _ =>
    split
    · next hcontrol =>
        obtain ⟨hhigh, hlow⟩ := not_surrogate hcontrol
        simp only [List.cons_append, List.nil_append, parseString, hex4?_control _ hcontrol,
          Option.bind_eq_bind, Option.bind_some, hhigh, hlow, Bool.false_eq_true, if_false,
          Char.ofNat_toNat]
    · next hcontrol =>
        rw [List.singleton_append, parseString]
        · rw [if_neg]
          simpa [hcontrol] using hslash
        · exact hquote
        · exact fun _ _ _ _ _ h _ => hslash h
        · exact fun _ _ h _ => hslash h
  all_goals rfl

theorem parseString_escaped (text : List Char) (rest : List Char) :
    ∀ (fuel : Nat) (done : List Char), text.length < fuel →
      parseString fuel done (text.flatMap escapedChar ++ '"' :: rest) =
        some (String.ofList (done.reverse ++ text), rest) := by
  induction text with
  | nil =>
    intro fuel done hfuel
    obtain ⟨fuel, rfl⟩ := Nat.exists_eq_add_of_lt hfuel
    simp [parseString]
  | cons c text ih =>
    intro fuel done hfuel
    obtain ⟨fuel, rfl⟩ : ∃ less, fuel = less + 1 := ⟨fuel - 1, by omega⟩
    rw [List.flatMap_cons, List.append_assoc, parseString_escapedChar,
      ih _ _ (by simpa using hfuel)]
    simp

theorem one_le_length_escapedChar (c : Char) : 1 ≤ (escapedChar c).length := by
  unfold escapedChar
  split
  case h_8 => split <;> simp
  all_goals simp

theorem length_le_length_escaped (text : List Char) :
    text.length ≤ (text.flatMap escapedChar).length := by
  induction text with
  | nil => simp
  | cons c text ih =>
    have := one_le_length_escapedChar c
    rw [List.flatMap_cons, List.length_append, List.length_cons]
    omega

theorem parseString_quoted (text : String) (rest : List Char) :
    ∃ chars, (quoted text).toList = '"' :: chars ∧
      parseString ((chars ++ rest).length + 1) [] (chars ++ rest) = some (text, rest) := by
  refine ⟨text.toList.flatMap escapedChar ++ ['"'], by simp [quoted], ?_⟩
  have hlength := length_le_length_escaped text.toList
  rw [List.append_assoc, List.singleton_append,
    parseString_escaped _ _ _ _ (by rw [List.length_append]; omega)]
  simp

/-! ### Layout -/

/-- The characters before a line at a level. -/
def lineStart (level : Nat) : List Char := '\n' :: List.replicate (2 * level) ' '

theorem skipBlanks_append {blanks : List Char} (hblanks : ∀ c ∈ blanks, isBlank c = true)
    (text : List Char) : skipBlanks (blanks ++ text) = skipBlanks text := by
  induction blanks with
  | nil => rfl
  | cons c blanks ih =>
    rw [List.forall_mem_cons] at hblanks
    rw [skipBlanks, List.cons_append, List.dropWhile_cons_of_pos hblanks.1]
    exact ih hblanks.2

theorem isBlank_of_mem_lineStart (h : c ∈ lineStart level) : isBlank c = true := by
  rw [lineStart, List.mem_cons, List.mem_replicate] at h
  rcases h with rfl | ⟨-, rfl⟩ <;> rfl

@[simp] theorem skipBlanks_lineStart (level : Nat) (text : List Char) :
    skipBlanks (lineStart level ++ text) = skipBlanks text :=
  skipBlanks_append (fun _ => isBlank_of_mem_lineStart) text

theorem skipBlanks_cons (h : isBlank c = false) (text : List Char) :
    skipBlanks (c :: text) = c :: text :=
  List.dropWhile_cons_of_neg (by simp [h])

/-- The parts of a block after its first one, each with the comma before it. -/
def laterParts (level : Nat) (parts : List String) : List Char :=
  parts.flatMap fun part => ',' :: (lineStart (level + 1) ++ part.toList)

theorem laterParts_cons (level : Nat) (part : String) (parts : List String) :
    laterParts level (part :: parts) =
      ',' :: (lineStart (level + 1) ++ (part.toList ++ laterParts level parts)) := by
  simp [laterParts]

theorem toList_block (opening closing : String) (level : Nat) (part : String)
    (parts : List String) :
    (block opening closing level (part :: parts)).toList =
      opening.toList ++ (lineStart (level + 1) ++ (part.toList ++ (laterParts level parts ++
        (lineStart level ++ closing.toList)))) := by
  have hparts : ∀ part : String,
      (("," ++ ("\n" ++ margin (level + 1))).intercalate (part :: parts)).toList =
        part.toList ++ laterParts level parts := by
    induction parts with
    | nil => simp [laterParts]
    | cons next parts ih =>
      intro part
      rw [String.intercalate_cons_cons, String.toList_append, String.toList_append, ih next]
      simp [laterParts, lineStart, margin]
  rw [block, if_neg (by simp)]
  simp only [String.toList_append, hparts]
  simp [lineStart, margin]

/-! ### Values -/

/-- A value is **read back** wherever it stands: after blanks, at any level, and with any text after
it, if the fuel suffices for its length. -/
def ReadsBack (depth : Nat) (value : Json) : Prop :=
  ∀ (level fuel : Nat) (blanks rest : List Char), (∀ c ∈ blanks, isBlank c = true) →
    2 * (prettyAt level value).toList.length ≤ fuel + 1 →
    parseValue fuel depth (blanks ++ ((prettyAt level value).toList ++ rest)) = some (value, rest)

theorem parseItems_last {fuel depth : Nat} {text after rest : List Char} {item : Json}
    (hitem : parseValue fuel depth text = some (item, after))
    (hafter : skipBlanks after = ']' :: rest) :
    parseItems (fuel + 1) depth text = some ([item], rest) := by
  simp [parseItems, hitem, hafter]

theorem parseItems_more (hitem : parseValue fuel depth text = some (item, after))
    (hafter : skipBlanks after = ',' :: more)
    (hmore : parseItems fuel depth more = some (items, rest)) :
    parseItems (fuel + 1) depth text = some (item :: items, rest) := by
  simp [parseItems, hitem, hafter, hmore]

theorem parseItems_closed {fuel depth : Nat} {text rest : List Char}
    (h : skipBlanks text = ']' :: rest) : parseItems fuel depth text = none := by
  have hnone : ∀ fuel, parseValue fuel depth text = none := by
    intro fuel
    cases fuel with
    | zero => rfl
    | succ fuel => simp [parseValue, h, afterWord?, parseNumber, Char.isDigit]
  cases fuel with
  | zero => rfl
  | succ fuel => simp [parseItems, hnone]

theorem parseValue_arr {fuel depth : Nat} {text rest more : List Char} {items : List Json}
    (htext : skipBlanks text = '[' :: rest) (h : parseItems fuel depth rest = some (items, more)) :
    parseValue (fuel + 1) (depth + 1) text = some (arr items, more) := by
  have hopen : ∀ after, skipBlanks rest ≠ ']' :: after := by
    intro after hclosed
    rw [parseItems_closed hclosed] at h
    cases h
  rw [parseValue, htext]
  simp only
  rw [h]
  rfl

/-- The **items** of an array are read back if each of them is. -/
theorem parseItems_pretty (level : Nat) (rest : List Char) (items : List Json) :
    ∀ (item : Json) (fuel : Nat), (∀ value ∈ item :: items, ReadsBack depth value) →
      2 * ((prettyAt (level + 1) item).toList ++
        laterParts level (prettyItems level items)).length < fuel →
      parseItems fuel depth (lineStart (level + 1) ++ ((prettyAt (level + 1) item).toList ++
          (laterParts level (prettyItems level items) ++ (lineStart level ++ ']' :: rest)))) =
        some (item :: items, rest) := by
  induction items with
  | nil =>
    intro item fuel hitems hfuel
    obtain ⟨fuel, rfl⟩ : ∃ less, fuel = less + 1 := ⟨fuel - 1, by omega⟩
    rw [List.length_append] at hfuel
    refine parseItems_last (hitems item (by simp) _ _ _ _ (fun _ => isBlank_of_mem_lineStart)
      (by omega)) ?_
    rw [prettyItems, laterParts, List.flatMap_nil, List.nil_append, skipBlanks_lineStart,
      skipBlanks_cons rfl]
  | cons next items ih =>
    intro item fuel hitems hfuel
    obtain ⟨fuel, rfl⟩ : ∃ less, fuel = less + 1 := ⟨fuel - 1, by omega⟩
    rw [List.forall_mem_cons] at hitems
    simp only [prettyItems, laterParts_cons, List.length_append, List.length_cons] at hfuel
    refine parseItems_more (hitems.1 _ _ _ _ (fun _ => isBlank_of_mem_lineStart) (by omega)) ?_
      (ih next fuel hitems.2 (by rw [List.length_append]; omega))
    rw [prettyItems, laterParts_cons, List.cons_append, skipBlanks_cons rfl]
    simp only [List.append_assoc]

def prettyMember (level : Nat) (member : String × Json) : String :=
  quoted member.1 ++ ": " ++ prettyAt (level + 1) member.2

theorem prettyMembers_cons (level : Nat) (member : String × Json)
    (members : List (String × Json)) :
    prettyMembers level (member :: members) =
      prettyMember level member :: prettyMembers level members := by
  rw [prettyMembers, prettyMember]

/-- A **member** is read back if its value is, and what comes after it decides. -/
theorem parseMembers_prettyMember {member : String × Json} (after : List Char)
    (hvalue : ReadsBack depth member.2)
    (hfuel : 2 * (prettyMember level member).toList.length ≤ fuel + 1) :
    parseMembers (fuel + 1) depth
        (lineStart (level + 1) ++ ((prettyMember level member).toList ++ after)) =
      match skipBlanks after with
      | ',' :: more =>
        (parseMembers fuel depth more).bind fun (members, rest) =>
          some (member :: members, rest)
      | '\x7d' :: rest => some ([member], rest)
      | _ => none := by
  have hmember : (prettyMember level member).toList ++ after = (quoted member.1).toList ++
      ':' :: ([' '] ++ ((prettyAt (level + 1) member.2).toList ++ after)) := by
    simp [prettyMember]
  obtain ⟨chars, hchars, hname⟩ := parseString_quoted member.1
    (':' :: ([' '] ++ ((prettyAt (level + 1) member.2).toList ++ after)))
  have hvalue := hvalue (level + 1) fuel [' '] after (by simp [isBlank]) (by
    rw [prettyMember, String.toList_append, List.length_append] at hfuel
    omega)
  rw [parseMembers, skipBlanks_lineStart, hmember, hchars, List.cons_append, skipBlanks_cons rfl]
  simp only [hname, skipBlanks_cons (show isBlank ':' = false from rfl), hvalue,
    Option.bind_eq_bind, Option.bind_some]
  rfl

theorem parseValue_obj {members : List (String × Json)} (htext : skipBlanks text = '\x7b' :: rest)
    (h : parseMembers fuel depth rest = some (members, more)) :
    parseValue (fuel + 1) (depth + 1) text = some (obj members, more) := by
  have hopen : ∀ after, skipBlanks rest ≠ '\x7d' :: after := by
    intro after hclosed
    cases fuel with
    | zero => cases h
    | succ fuel => simp [parseMembers, hclosed] at h
  rw [parseValue, htext]
  simp only
  rw [h]
  rfl

/-- The **members** of an object are read back if their values are. -/
theorem parseMembers_pretty (level : Nat) (rest : List Char) (members : List (String × Json)) :
    ∀ (member : String × Json) (fuel : Nat),
      (∀ entry ∈ member :: members, ReadsBack depth entry.2) →
      2 * ((prettyMember level member).toList ++
        laterParts level (prettyMembers level members)).length < fuel →
      parseMembers fuel depth (lineStart (level + 1) ++ ((prettyMember level member).toList ++
          (laterParts level (prettyMembers level members) ++
            (lineStart level ++ '\x7d' :: rest)))) =
        some (member :: members, rest) := by
  induction members with
  | nil =>
    intro member fuel hmembers hfuel
    obtain ⟨fuel, rfl⟩ : ∃ less, fuel = less + 1 := ⟨fuel - 1, by omega⟩
    rw [List.length_append] at hfuel
    rw [parseMembers_prettyMember _ (hmembers member (by simp)) (by omega), prettyMembers,
      laterParts, List.flatMap_nil, List.nil_append, skipBlanks_lineStart, skipBlanks_cons rfl]
    rfl
  | cons next members ih =>
    intro member fuel hmembers hfuel
    obtain ⟨fuel, rfl⟩ : ∃ less, fuel = less + 1 := ⟨fuel - 1, by omega⟩
    rw [List.forall_mem_cons] at hmembers
    simp only [prettyMembers_cons, laterParts_cons, List.length_append, List.length_cons] at hfuel
    have hrest := ih next fuel hmembers.2 (by rw [List.length_append]; omega)
    rw [parseMembers_prettyMember _ hmembers.1 (by omega), prettyMembers_cons, laterParts_cons,
      List.cons_append, skipBlanks_cons rfl]
    simp only [List.append_assoc, hrest, Option.bind_some]

/-- Values **without numbers**, nested at most so deeply. -/
inductive Textual : Nat → Json → Prop
  | null {depth : Nat} : Textual depth null
  | bool {depth : Nat} (value : Bool) : Textual depth (bool value)
  | str {depth : Nat} (value : String) : Textual depth (str value)
  | arr {depth : Nat} {items : List Json} :
      (∀ item ∈ items, Textual depth item) → Textual (depth + 1) (arr items)
  | obj {depth : Nat} {members : List (String × Json)} :
      (∀ member ∈ members, Textual depth member.2) → Textual (depth + 1) (obj members)

theorem one_le_length_block {opening : String} (hopening : 1 ≤ opening.toList.length)
    (closing : String) (level : Nat) (parts : List String) :
    1 ≤ (block opening closing level parts).toList.length := by
  rw [block]
  split <;> simp only [String.toList_append, List.length_append] <;> omega

theorem Textual.exists_fuel (h : Textual depth value)
    (hfuel : 2 * (prettyAt level value).toList.length ≤ fuel + 1) : ∃ less, fuel = less + 1 := by
  have hlength : 1 ≤ (prettyAt level value).toList.length := by
    cases h with
    | null => simp [prettyAt]
    | bool value => cases value <;> simp [prettyAt]
    | str value =>
      obtain ⟨chars, hchars, -⟩ := parseString_quoted value []
      simp [prettyAt, hchars]
    | arr => exact one_le_length_block (by simp) ..
    | obj => exact one_le_length_block (by simp) ..
  exact ⟨fuel - 1, by omega⟩

/-- **A value is read back** as it was written. -/
theorem Textual.readsBack (h : Textual depth value) : ReadsBack depth value := by
  induction h with
  | @null depth =>
    intro level fuel blanks rest hblanks hfuel
    obtain ⟨fuel, rfl⟩ := (@Textual.null depth).exists_fuel hfuel
    rw [parseValue, skipBlanks_append hblanks]
    simp [prettyAt, skipBlanks, isBlank, afterWord?]
  | @bool depth value =>
    intro level fuel blanks rest hblanks hfuel
    obtain ⟨fuel, rfl⟩ := (@Textual.bool depth value).exists_fuel hfuel
    rw [parseValue, skipBlanks_append hblanks]
    cases value <;> simp [prettyAt, skipBlanks, isBlank, afterWord?]
  | @str depth value =>
    intro level fuel blanks rest hblanks hfuel
    obtain ⟨fuel, rfl⟩ := (@Textual.str depth value).exists_fuel hfuel
    obtain ⟨chars, hchars, hparse⟩ := parseString_quoted value rest
    rw [prettyAt, hchars, parseValue, skipBlanks_append hblanks, List.cons_append,
      skipBlanks_cons rfl]
    simp only [hparse, Option.bind_eq_bind, Option.bind_some]
    rfl
  | @arr depth items hitems ih =>
    intro level fuel blanks rest hblanks hfuel
    obtain ⟨fuel, rfl⟩ := (Textual.arr hitems).exists_fuel hfuel
    cases items with
    | nil =>
      rw [parseValue, skipBlanks_append hblanks]
      simp [prettyAt, prettyItems, block, skipBlanks, isBlank]
    | cons item items =>
      rw [prettyAt, prettyItems, toList_block] at hfuel ⊢
      refine parseValue_arr ?_ (parseItems_pretty level rest items item fuel ih ?_)
      · rw [skipBlanks_append hblanks]
        simp [skipBlanks, isBlank]
      · rw [List.length_append]
        simp [lineStart] at hfuel
        omega
  | @obj depth members hmembers ih =>
    intro level fuel blanks rest hblanks hfuel
    obtain ⟨fuel, rfl⟩ := (Textual.obj hmembers).exists_fuel hfuel
    cases members with
    | nil =>
      rw [parseValue, skipBlanks_append hblanks]
      simp [prettyAt, prettyMembers, block, skipBlanks, isBlank]
    | cons member members =>
      rw [prettyAt, prettyMembers_cons, toList_block] at hfuel ⊢
      refine parseValue_obj ?_ (parseMembers_pretty level rest members member fuel ih ?_)
      · rw [skipBlanks_append hblanks]
        simp [skipBlanks, isBlank]
      · rw [List.length_append]
        simp [lineStart] at hfuel
        omega

theorem Textual.parse?_pretty (h : Textual maxDepth value) : parse? value.pretty = some value := by
  have hread := h.readsBack 0 (2 * value.pretty.toList.length + 2) [] [] (by simp)
    (by rw [pretty]; omega)
  rw [List.nil_append, List.append_nil] at hread
  rw [parse?, parseChars?]
  simp only [pretty] at hread ⊢
  simp [hread, skipBlanks]

end BuildMatrix.Json
