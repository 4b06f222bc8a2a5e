import BuildMatrix.Config.Decode
import BuildMatrix.Fingerprint
import BuildMatrix.Json.Format
import BuildMatrix.Json.Parser
import BuildMatrix.Json.Printer
import BuildMatrix.Timestamp

/-!
# Records of work

A record says that a piece of work was done: what it was, the fingerprint it had, what it produced
and when. Records are kept as JSON texts.
-/

namespace BuildMatrix

/-- A **record** of a piece of work that was done. -/
structure WorkRecord where
  /-- What the work is known by. -/
  identity : String
  fingerprint : Fingerprint
  outputs : List Path
  createdAt : Timestamp
  deriving DecidableEq, Inhabited, Repr

namespace WorkRecord

def toJson (record : WorkRecord) : Json := .obj [
  ("identity", .str record.identity),
  ("fingerprint", .str record.fingerprint.digits),
  ("output_paths", .texts (record.outputs.map (·.text))),
  ("created_at", .str record.createdAt.text)]

def text (record : WorkRecord) : String := record.toJson.pretty

def decode? {ν : Type} [DataFormat ν] (value : ν) : Option WorkRecord := do
  let fields ← Fields.ofValue? 4 value
  let identity ← fields.required 0 "identity" DataFormat.text?
  let digits ← fields.required 1 "fingerprint" DataFormat.text?
  let outputs ← fields.required 2 "output_paths" (DataFormat.listOf? Path.decode?)
  let createdAt ← fields.required 3 "created_at" fun v =>
    (DataFormat.text? v).bind Timestamp.parse?
  pure { identity, fingerprint := ⟨digits⟩, outputs, createdAt }

def parse? (text : String) : Option WorkRecord := (Json.parse? text).bind decode?

/-- The record that **bytes** say. -/
def read? (content : ByteArray) : Option WorkRecord :=
  (Text.chars? content).bind fun chars => (Json.parseChars? chars).bind decode?

theorem read?_eq (content : ByteArray) : read? content = (Text.decode? content).bind parse? := by
  rw [read?, Text.chars?_eq, Option.bind_map]
  rfl

def outputsExist (record : WorkRecord) (tree : FileTree) : Bool :=
  record.outputs.all tree.pathExists

end WorkRecord

end BuildMatrix
