import BuildMatrix.Cache.Basic
import BuildMatrix.Proofs.JsonRoundTrip
import BuildMatrix.Proofs.Resolution

/-!
# The files of records

What is in the file of a record, and where it is. A record is read back from its text, except for
the time it was made, which goes through its own spelling. The file has a plain name in the
directory of the cache, and the temporary file beside it the same name with more at its end.
-/

namespace BuildMatrix

/-! ### Texts -/

namespace WorkRecord

theorem textual_toJson (record : WorkRecord) : Json.Textual Json.maxDepth record.toJson := by
  refine .obj fun member hmember => ?_
  simp only [List.mem_cons, List.not_mem_nil, or_false] at hmember
  rcases hmember with rfl | rfl | rfl | rfl
  · exact .str _
  · exact .str _
  · refine .arr fun item hitem => ?_
    obtain ⟨text, -, rfl⟩ := List.mem_map.1 hitem
    exact .str text
  · exact .str _

theorem decode?_outputs (outputs : List Path) :
    DataFormat.listOf? Path.decode? (Json.texts (outputs.map (·.text))) = some outputs := by
  change ((outputs.map (·.text)).map Json.str).mapM Path.decode? = some outputs
  induction outputs with
  | nil => rfl
  | cons path outputs ih =>
    have hpath : Path.decode? (Json.str path.text) = some path := rfl
    simp only [List.map_cons, List.mapM_cons, hpath, ih]
    rfl

theorem decode?_toJson (record : WorkRecord) :
    decode? record.toJson =
      (Timestamp.parse? record.createdAt.text).map fun createdAt => { record with createdAt } := by
  simp only [decode?, toJson, Fields.ofValue?, DataFormat.map?, Fields.required, Fields.value?,
    Fields.valuesOf, DataFormat.text?, decode?_outputs, reduceIte, String.reduceEq,
    Option.bind_eq_bind, Option.bind_some]
  cases Timestamp.parse? record.createdAt.text <;> rfl

theorem parse?_text (record : WorkRecord) :
    parse? record.text =
      (Timestamp.parse? record.createdAt.text).map fun createdAt => { record with createdAt } := by
  rw [parse?, text, (textual_toJson record).parse?_pretty, Option.bind_some, decode?_toJson]

end WorkRecord

/-! ### Names -/

theorem utf8ByteSize_ofList_le {chars : List Char} (h : ∀ c ∈ chars, c.utf8Size ≤ 1) :
    (String.ofList chars).utf8ByteSize ≤ chars.length := by
  induction chars with
  | nil => simp
  | cons c chars ih =>
    rw [List.forall_mem_cons] at h
    have := ih h.2
    rw [String.ofList_cons, String.utf8ByteSize_append, String.utf8ByteSize_singleton,
      List.length_cons]
    omega

namespace Sha256

theorem hexDigit_props : ∀ n < 16, (hexDigit n).utf8Size ≤ 1 ∧ hexDigit n ≠ '/' ∧
    hexDigit n ≠ '\x00' := by
  decide

theorem mem_hex {bytes : List UInt8} {c : Char} (h : c ∈ (hex bytes).toList) :
    c.utf8Size ≤ 1 ∧ c ≠ '/' ∧ c ≠ '\x00' := by
  rw [hex, String.toList_ofList, List.mem_flatMap] at h
  obtain ⟨byte, -, hc⟩ := h
  have hbyte := byte.toNat_lt
  simp only [List.mem_cons, List.not_mem_nil, or_false] at hc
  rcases hc with rfl | rfl
  · exact hexDigit_props _ (by omega)
  · exact hexDigit_props _ (by omega)

theorem length_bigEndian (count n : Nat) : (bigEndian count n).length = count := by
  induction count with
  | zero => rfl
  | succ count ih => rw [bigEndian, List.length_cons, ih]

theorem length_digest (message : ByteArray) : (digest message).length = 32 := by
  simp [digest, length_bigEndian]

theorem length_hex (bytes : List UInt8) : (hex bytes).toList.length = 2 * bytes.length := by
  rw [hex, String.toList_ofList]
  induction bytes with
  | nil => rfl
  | cons byte bytes ih =>
    rw [List.flatMap_cons, List.length_append, ih]
    simp only [List.length_cons, List.length_nil]
    omega

end Sha256

/-! ### Paths -/

namespace Path

/-- What stands before the name in the path of something in a directory. -/
def stem (base : Path) : String :=
  if base.text = "" then ""
  else if base.text.toList.getLast? = some '/' then base.text
  else base.text ++ "/"

theorem text_child (base : Path) {name : String} (hname : '/' ∉ name.toList) :
    (base.child name).text = base.stem ++ name := by
  have hrelative : isAbsolute ⟨name⟩ = false := by
    rw [isAbsolute, chars_eq, decide_eq_false_iff_not]
    exact fun hhead => hname (List.mem_of_head? hhead)
  rw [child, join, hrelative, chars_eq, stem]
  simp only [Bool.false_eq_true, if_false]
  split
  · exact String.empty_append.symm
  · split <;> rfl

theorem splitAfter_eq_singleton {separator : Char} {text : List Char} (h : separator ∉ text) :
    ∀ current, splitAfter separator current text = [current.reverse ++ text] := by
  induction text with
  | nil => simp [splitAfter]
  | cons c text ih =>
    intro current
    rw [List.mem_cons, not_or] at h
    rw [splitAfter, if_neg (Ne.symm h.1), ih h.2]
    simp

theorem splitAfter_append (separator : Char) (before after : List Char) :
    ∀ current, splitAfter separator current (before ++ separator :: after) =
      splitAfter separator current before ++ split separator after := by
  induction before with
  | nil => simp [splitAfter, split]
  | cons c before ih =>
    intro current
    rw [List.cons_append, splitAfter, splitAfter]
    split
    · rw [ih, List.cons_append]
    · rw [ih]

theorem stem_cases (base : Path) :
    base.stem.toList = [] ∨ ∃ before, base.stem.toList = before ++ ['/'] := by
  rw [stem]
  split
  · exact .inl rfl
  · right
    split
    · next hlast => exact List.getLast?_eq_some_iff.1 hlast
    · exact ⟨base.text.toList, by rw [String.toList_append]; rfl⟩

def stemNames (base : Path) : List String :=
  ((split '/' base.stem.toList).filter (· ≠ [])).map String.ofList

theorem split_stem (base : Path) {name : List Char} (hne : name ≠ []) (hname : '/' ∉ name) :
    (split '/' (base.stem.toList ++ name)).filter (· ≠ []) =
      (split '/' base.stem.toList).filter (· ≠ []) ++ [name] := by
  have hsplit : split '/' name = [name] := by
    rw [split, splitAfter_eq_singleton hname, List.reverse_nil, List.nil_append]
  rcases base.stem_cases with hstem | ⟨before, hstem⟩
  · rw [hstem, List.nil_append, hsplit]
    simp [split, splitAfter, hne]
  · rw [hstem, List.append_assoc, List.singleton_append, split, splitAfter_append, hsplit, split,
      splitAfter_append]
    simp [split, splitAfter, hne]

end Path

theorem FileTree.parts_child (base : Path) {name : String} (hne : name ≠ "")
    (hname : '/' ∉ name.toList) : parts ⟨base.stem ++ name⟩ = base.stemNames ++ [name] := by
  have hnil : name.toList ≠ [] := by simpa using hne
  have hlast : ¬ (base.stem.toList ++ name.toList).getLast? = some '/' := by
    rw [List.getLast?_append, List.getLast?_eq_some_getLast hnil, Option.some_or]
    exact fun hlast => hname (Option.some.inj hlast ▸ List.getLast_mem hnil)
  rw [parts, Path.chars_eq, String.toList_append, Path.split_stem base hnil hname]
  simp only [hlast, if_false, Path.stemNames, List.map_append, List.map_cons, List.map_nil,
    String.ofList_toList]

namespace Cache

def recordName (identity : String) : String :=
  Sha256.hex (Sha256.digest identity.toUTF8) ++ ".json"

theorem mem_temporaryName {identity : String} {c : Char}
    (hc : c ∈ (recordName identity ++ ".tmp").toList) : c.utf8Size ≤ 1 ∧ c ≠ '/' ∧ c ≠ '\x00' := by
  have hfixed : ∀ c ∈ ".json".toList ++ ".tmp".toList, c.utf8Size ≤ 1 ∧ c ≠ '/' ∧ c ≠ '\x00' := by
    simp [Char.utf8Size]
  rw [recordName, String.toList_append, String.toList_append, List.append_assoc,
    List.mem_append] at hc
  rcases hc with hc | hc
  · exact Sha256.mem_hex hc
  · exact hfixed c hc

theorem mem_recordName {identity : String} {c : Char} (hc : c ∈ (recordName identity).toList) :
    c.utf8Size ≤ 1 ∧ c ≠ '/' ∧ c ≠ '\x00' := by
  have hmem : c ∈ (recordName identity ++ ".tmp").toList := by
    rw [String.toList_append]
    exact List.mem_append_left _ hc
  exact mem_temporaryName hmem

theorem length_recordName (identity : String) : (recordName identity).toList.length = 69 := by
  rw [recordName, String.toList_append, List.length_append, Sha256.length_hex,
    Sha256.length_digest]
  rfl

theorem recordName_ne_temporary (identity other : String) :
    recordName identity ≠ recordName other ++ ".tmp" := by
  intro h
  have hlength := congrArg (fun name => name.toList.length) h
  simp only [String.toList_append, List.length_append, length_recordName] at hlength
  exact absurd hlength (by decide)

theorem recordName_ne_temp (identity : String) : recordName identity ≠ "temp" := by
  intro h
  have hlength := congrArg (fun name => name.toList.length) h
  simp only [length_recordName] at hlength
  exact absurd hlength (by decide)

theorem isName_of_length {name : String} (hshort : name.toList.length ≤ FileTree.maxName)
    (hlong : 2 < name.toList.length) (hchars : ∀ c ∈ name.toList, c.utf8Size ≤ 1) :
    FileTree.IsName name where
  ne_current := by rintro rfl; revert hlong; decide
  ne_parent := by rintro rfl; revert hlong; decide
  size_le := by
    have := utf8ByteSize_ofList_le hchars
    rw [String.ofList_toList] at this
    omega

theorem isName_recordName (identity : String) : FileTree.IsName (recordName identity) := by
  exact isName_of_length (by rw [length_recordName]; decide) (by rw [length_recordName]; decide)
    fun c hc => (mem_recordName hc).1

theorem isName_temporaryName (identity : String) :
    FileTree.IsName (recordName identity ++ ".tmp") := by
  have hlength : (recordName identity ++ ".tmp").toList.length = 73 := by
    rw [String.toList_append, List.length_append, length_recordName]
    rfl
  exact isName_of_length (by rw [hlength]; decide) (by rw [hlength]; decide)
    fun c hc => (mem_temporaryName hc).1

variable (cache : Cache) (identity : String)

theorem separator_notMem_recordName : '/' ∉ (recordName identity).toList :=
  fun h => (mem_recordName h).2.1 rfl

theorem text_recordPath :
    (cache.recordPath identity).text = cache.dir.stem ++ recordName identity :=
  Path.text_child cache.dir (separator_notMem_recordName identity)

theorem text_temporaryPath :
    (cache.temporaryPath identity).text = cache.dir.stem ++ (recordName identity ++ ".tmp") := by
  rw [temporaryPath, suffixed, text_recordPath, String.append_assoc]

theorem parts_recordPath : FileTree.parts (cache.recordPath identity) =
    cache.dir.stemNames ++ [recordName identity] := by
  have hne : recordName identity ≠ "" := by
    intro h
    have := length_recordName identity
    rw [h] at this
    cases this
  rw [← FileTree.parts_child cache.dir hne (separator_notMem_recordName identity),
    ← text_recordPath]

theorem parts_temporaryPath : FileTree.parts (cache.temporaryPath identity) =
    cache.dir.stemNames ++ [recordName identity ++ ".tmp"] := by
  rw [← FileTree.parts_child cache.dir, ← text_temporaryPath]
  · simp
  · exact fun h => (mem_temporaryName h).2.1 rfl

theorem isAbsolute_temporaryPath :
    (cache.temporaryPath identity).isAbsolute = (cache.recordPath identity).isAbsolute := by
  have hne : (cache.recordPath identity).text.toList ≠ [] := by
    intro h
    have := congrArg List.length h
    rw [text_recordPath, String.toList_append, List.length_append, length_recordName] at this
    cases this
  rw [Path.isAbsolute, Path.isAbsolute, Path.chars_eq, Path.chars_eq, temporaryPath, suffixed,
    String.toList_append, List.head?_append, List.head?_eq_some_head hne, Option.some_or]

end Cache

end BuildMatrix
