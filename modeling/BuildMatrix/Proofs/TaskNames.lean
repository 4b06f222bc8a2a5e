import BuildMatrix.Proofs.CommandFingerprint

/-!
# Reading a task name back

The name of an action's task is the module, the action, the platform, the mark of the test partition
and the build type, one after the other. Two colons enclose the module, and nothing separates the
rest: an action may well be called `genJvmTest` or `linkRelease`. The name is read back from the
right all the same. Its last character tells the build type, then the last character of what is left
tells the partition, and the spelling of a platform ends in that of no other.
-/

namespace BuildMatrix

/-! ### Codes that are read from the right -/

/-- Texts for some values, **none of which ends in another**. -/
def SuffixCode {α : Type} (code : α → List Char) : Prop :=
  ∀ a b, code a <:+ code b → a = b

namespace SuffixCode

variable {α β : Type} {code : α → List Char} {mark : β → List Char}

/-- Whatever stands before it, a text of such a code is **read back**, and what stands before it. -/
theorem read (hcode : SuffixCode code) {x y : List Char} {a b : α} (h : x ++ code a = y ++ code b) :
    x = y ∧ a = b := by
  have hab : a = b := by
    rcases List.append_eq_append_iff.mp h with ⟨z, -, hz⟩ | ⟨z, -, hz⟩
    · exact (hcode b a ⟨z, hz.symm⟩).symm
    · exact hcode a b ⟨z, hz.symm⟩
  subst hab
  exact ⟨List.append_cancel_right h, rfl⟩

/-- A **mark** after the texts of such a code makes another, where the last character tells the
mark. -/
theorem append (hcode : SuffixCode code) (hne : ∀ a, code a ≠ [])
    (hlast : ∀ a b a' b', (code a ++ mark b).getLast? = (code a' ++ mark b').getLast? → b = b') :
    SuffixCode fun w : α × β => code w.1 ++ mark w.2 := by
  rintro ⟨a, b⟩ ⟨a', b'⟩ ⟨z, hz⟩
  simp only at hz
  have hword : code a ++ mark b ≠ [] := fun h => hne a (List.append_eq_nil_iff.mp h).1
  obtain rfl : b = b' := by
    refine hlast a b a' b' ?_
    rw [← hz, List.getLast?_append_of_ne_nil _ hword]
  -- the marks being equal, what is left of the one word ends what is left of the other
  rw [← List.append_assoc] at hz
  rw [hcode a a' ⟨z, List.append_cancel_right hz⟩]

end SuffixCode

/-! ### The end of a task name -/

namespace TaskName

theorem suffixCode_title : SuffixCode fun platform : Platform => platform.title.toList := by
  intro p q
  cases p <;> cases q <;> decide

theorem getLast?_title (platform : Platform) :
    ∃ c ∈ ['m', 'd', '4', 's'], platform.title.toList.getLast? = some c := by
  cases platform <;> exact ⟨_, by decide, rfl⟩

/-- The mark of the tests in a name. -/
def partitionMark (isTest : Bool) : List Char :=
  if isTest then "Test".toList else []

/-- The mark of a build type in a name. -/
def buildTypeMark : Option BuildType → List Char
  | some type => type.suffix.toList
  | none => []

/-- A platform with the mark of tests. -/
def partitionCode (w : Platform × Bool) : List Char :=
  w.1.title.toList ++ partitionMark w.2

theorem toList_variant (platform : Platform) (isTest : Bool) (buildType : Option BuildType) :
    (variant platform isTest buildType).toList =
      partitionCode (platform, isTest) ++ buildTypeMark buildType := by
  cases buildType <;> cases isTest <;> simp [variant, partitionCode, partitionMark, buildTypeMark]

theorem getLast?_partitionCode (platform : Platform) (isTest : Bool) :
    ∃ c ∈ ['m', 'd', '4', 's', 't'], (partitionCode (platform, isTest)).getLast? = some c ∧
      (isTest = true ↔ c = 't') := by
  cases isTest with
  | false =>
    obtain ⟨c, hc, hlast⟩ := getLast?_title platform
    refine ⟨c, List.mem_append_left ['t'] hc, ?_, ?_⟩
    · rw [partitionCode, partitionMark, if_neg Bool.false_ne_true, List.append_nil, hlast]
    · simp only [Bool.false_eq_true, false_iff]
      rintro rfl
      exact absurd hc (by decide)
  | true =>
    refine ⟨'t', by decide, ?_, by decide⟩
    exact List.getLast?_append_of_ne_nil _ (show partitionMark true ≠ [] by decide)

theorem suffixCode_partitionCode : SuffixCode partitionCode := by
  refine suffixCode_title.append (fun p => by cases p <;> decide) ?_
  intro p isTest p' isTest' h
  obtain ⟨c, -, hlast, htest⟩ := getLast?_partitionCode p isTest
  obtain ⟨c', -, hlast', htest'⟩ := getLast?_partitionCode p' isTest'
  obtain rfl : c = c' := Option.some.inj (hlast.symm.trans (h.trans hlast'))
  exact Bool.eq_iff_iff.mpr (htest.trans htest'.symm)

/-- The character that a build type ends the name in. -/
def buildTypeEnd : BuildType → Char
  | .debug => 'g'
  | .release => 'e'

theorem getLast?_variant (w : Platform × Bool) (buildType : Option BuildType) :
    ∃ c, (partitionCode w ++ buildTypeMark buildType).getLast? = some c ∧
      ∀ type, buildType = some type ↔ c = buildTypeEnd type := by
  cases buildType with
  | none =>
    obtain ⟨c, hc, hlast, -⟩ := getLast?_partitionCode w.1 w.2
    refine ⟨c, by rw [buildTypeMark, List.append_nil, hlast], fun type => ?_⟩
    simp only [reduceCtorEq, false_iff]
    rintro rfl
    cases type <;> exact absurd hc (by decide)
  | some type =>
    refine ⟨buildTypeEnd type, ?_, fun type' => ?_⟩
    · cases type <;> exact List.getLast?_append_of_ne_nil _ (by decide)
    · cases type <;> cases type' <;> decide

/-- **The ends of task names** are read back from the right: platform, partition and build type. -/
theorem suffixCode_variant :
    SuffixCode fun w : (Platform × Bool) × Option BuildType =>
      (variant w.1.1 w.1.2 w.2).toList := by
  have hcode : SuffixCode fun w : (Platform × Bool) × Option BuildType =>
      partitionCode w.1 ++ buildTypeMark w.2 := by
    refine suffixCode_partitionCode.append (fun w => ?_) ?_
    · obtain ⟨c, -, hlast, -⟩ := getLast?_partitionCode w.1 w.2
      rintro hnil
      rw [hnil] at hlast
      cases hlast
    · intro w type w' type' h
      obtain ⟨c, hlast, htype⟩ := getLast?_variant w type
      obtain ⟨c', hlast', htype'⟩ := getLast?_variant w' type'
      obtain rfl : c = c' := Option.some.inj (hlast.symm.trans (h.trans hlast'))
      exact Option.ext fun t => (htype t).trans (htype' t).symm
  intro w w' h
  simp only [toList_variant] at h
  exact hcode w w' h

/-! ### The whole name -/

/-- Different actions and cells have **different task names**: where the modules have no colon in
their names, as no module of a valid configuration has, the name tells the action, the module, the
platform, the partition and the build type. The action may be any text. -/
theorem forAction_injective :
    (∀ name, isValidName name = true → ':' ∉ name.toList) ∧
    ∀ (kind₁ kind₂ module₁ module₂ : String) (platform₁ platform₂ : Platform)
      (isTest₁ isTest₂ : Bool) (buildType₁ buildType₂ : Option BuildType),
      ':' ∉ module₁.toList → ':' ∉ module₂.toList →
      forAction kind₁ module₁ platform₁ isTest₁ buildType₁ =
        forAction kind₂ module₂ platform₂ isTest₂ buildType₂ →
      kind₁ = kind₂ ∧ module₁ = module₂ ∧ platform₁ = platform₂ ∧ isTest₁ = isTest₂ ∧
        buildType₁ = buildType₂ := by
  refine ⟨fun _ => Config.colon_notMem_of_isValidName, ?_⟩
  intro kind₁ kind₂ module₁ module₂ platform₁ platform₂ isTest₁ isTest₂ buildType₁ buildType₂
    hcolon₁ hcolon₂ h
  have htext := congrArg (fun name : TaskName => name.text.toList) h
  simp only [forAction, String.toList_append, List.append_assoc] at htext
  -- the module ends at the second colon
  obtain ⟨hmodule, hrest⟩ := Fingerprint.cut_at hcolon₁ hcolon₂ (List.cons.inj htext).2
  -- and the rest is read from the right
  obtain ⟨hkind, hcell⟩ := suffixCode_variant.read
    (a := ((platform₁, isTest₁), buildType₁)) (b := ((platform₂, isTest₂), buildType₂)) hrest
  obtain ⟨⟨hplatform, htest⟩, htype⟩ : ((_ ∧ _) ∧ _) := by simpa only [Prod.mk.injEq] using hcell
  exact ⟨String.toList_inj.mp hkind, String.toList_inj.mp hmodule, hplatform, htest, htype⟩

/-- Actions whose own names look like marks: equal names come from equal actions, the task of `gen`
in the test partition is not that of `genTest`, nor the task of `genJvmTest` for a release that of
`gen`. -/
theorem forAction_injective_lookalikes :
    isValidName "core" = true ∧ ':' ∉ "core".toList ∧
    (forAction "genTest" "core" .jvm true none = forAction ("gen" ++ "Test") "core" .jvm true none ∧
      "genTest" = "gen" ++ "Test") ∧
    forAction "gen" "core" .jvm true none ≠ forAction "genTest" "core" .jvm false none ∧
    forAction "genJvmTest" "core" .jvm false (some .release) ≠
      forAction "gen" "core" .jvm true (some .release) := by
  obtain ⟨hvalid, hread⟩ := forAction_injective
  have hcolon : ':' ∉ "core".toList := hvalid "core" (by decide)
  have hname : forAction "genTest" "core" .jvm true none =
      forAction ("gen" ++ "Test") "core" .jvm true none := by decide
  refine ⟨by decide, hcolon, ⟨hname, ?_⟩, fun h => ?_, fun h => ?_⟩
  · exact (hread _ _ _ _ _ _ _ _ _ _ hcolon hcolon hname).1
  · exact absurd (hread _ _ _ _ _ _ _ _ _ _ hcolon hcolon h).1 (by decide)
  · exact absurd (hread _ _ _ _ _ _ _ _ _ _ hcolon hcolon h).1 (by decide)

/-! The colons do enclose the module: with one in a module's name, two names can be the same. -/

example : forAction "c" "a:b" .jvm false none = forAction "b:c" "a" .jvm false none := by decide

end TaskName

end BuildMatrix
