import BuildMatrix.Cache.Record
import BuildMatrix.Session

/-!
# The cache of work

The cache has one record for each piece of work that was done, in a file named after the hash of
what the work is known by. Work is not done again if its fingerprint is the one on record and
everything it produced is still there. A file that is not a record, or a record of something else,
counts as no record.
-/

namespace BuildMatrix

/-- A **cache** of work. -/
structure Cache where
  dir : Path
  /-- A cache that is not enabled neither uses nor keeps records. -/
  enabled : Bool := true
  deriving DecidableEq, Inhabited, Repr

/-- What came of a piece of work. -/
structure Execution where
  outputs : List Path
  /-- The work was on record and was not done again. -/
  upToDate : Bool
  deriving DecidableEq, Inhabited, Repr

namespace Cache

/-! ### One record -/

/-- The file of a record, named after the digest of the work. -/
def recordPath (cache : Cache) (identity : String) : Path :=
  cache.dir.child (Sha256.hex (Sha256.digest identity.toUTF8) ++ ".json")

def recordAt? (tree : FileTree) (path : Path) : Option WorkRecord :=
  match tree.read path with
  | .ok content => WorkRecord.read? content
  | .error _ => none

def record? (cache : Cache) (tree : FileTree) (identity : String) : Option WorkRecord :=
  match recordAt? tree (cache.recordPath identity) with
  | some record => if record.identity = identity then some record else none
  | none => none

def suffixed (path : Path) (suffix : String) : Path := ⟨path.text ++ suffix⟩

/-- The file that a record is first written to. -/
def temporaryPath (cache : Cache) (identity : String) : Path :=
  suffixed (cache.recordPath identity) ".tmp"

/-- An outcome of the file system as one of the cache. -/
def ofOs (outcome : Except OsError Unit × FileTree) : Except CacheError Unit × FileTree :=
  (outcome.1.mapError fun error => .io error.message, outcome.2)

/-- **Keep a record**, in place of the one before it; a reader sees the one or the other. What was
made before a failure stays. -/
def store (cache : Cache) (tree : FileTree) (record : WorkRecord) :
    Except CacheError Unit × FileTree :=
  match tree.createAll cache.dir with
  | (.error error, tree) => ofOs (.error error, tree)
  | (.ok (), tree) =>
    ofOs (tree.replaceFile (cache.temporaryPath record.identity)
      (cache.recordPath record.identity) record.text.toUTF8)

/-- Drop the record of a piece of work; says whether there was one. -/
def invalidate (cache : Cache) (tree : FileTree) (identity : String) :
    Except CacheError (Bool × FileTree) :=
  match tree.removeFile (cache.recordPath identity) with
  | .ok tree => .ok (true, tree)
  | .error .notFound => .ok (false, tree)
  | .error error => .error (.io error.message)

/-! ### Work -/

/-- The outputs on record for a piece of work with a fingerprint, if they are all there. -/
def hit? (cache : Cache) (tree : FileTree) (identity : String) (fingerprint : Fingerprint) :
    Option (List Path) :=
  match cache.record? tree identity with
  | some record =>
    if record.fingerprint = fingerprint && record.outputsExist tree then some record.outputs
    else none
  | none => none

/-- Keep a record of work that was done just now; the clock goes on. -/
def remember (cache : Cache) (identity : String) (fingerprint : Fingerprint) (outputs : List Path) :
    Job Unit := fun session =>
  let record : WorkRecord := { identity, fingerprint, outputs, createdAt := session.now }
  let session := { session with now := ⟨session.now.nanos + 1⟩ }
  match cache.store session.tree record with
  | (.ok (), tree) => (.ok (), { session with tree })
  | (.error error, tree) => (.error (.cache error), { session with tree })

/-- **Do a piece of work unless it was done before.** The fingerprint is the one before the work;
work that fails leaves the record as it was. -/
def execute (cache : Cache) (identity : String) (configuration : Environment)
    (inputs : List Path) (body : Job (List Path)) : Job Execution := do
  if !cache.enabled then
    let outputs ← body
    return { outputs, upToDate := false }
  let tree := (← Job.get).tree
  let fingerprint := Fingerprint.compute tree configuration inputs
  match cache.hit? tree identity fingerprint with
  | some outputs => return { outputs, upToDate := true }
  | none =>
    let outputs ← body
    cache.remember identity fingerprint outputs
    return { outputs, upToDate := false }

/-! ### All records -/

/-- The files of the records, in order: regular files in the directory whose name ends in
`.json`. -/
def recordFiles (cache : Cache) (tree : FileTree) : Except CacheError (List Path) :=
  if !tree.pathExists cache.dir then .ok []
  else
    match tree.children cache.dir with
    | .error error => .error (.io error.message)
    | .ok names =>
      .ok <| Path.sorted <| (names.map cache.dir.child).filter fun path =>
        tree.isFile path && path.extension? == some "json"

/-- What pruning did. -/
structure Pruned where
  total : Nat := 0
  removed : Nat := 0
  kept : Nat := 0
  deriving DecidableEq, Inhabited, Repr

/-- Whether the record in a file is older than a point in time; what is no record is too. -/
def isStale (tree : FileTree) (cutoff : Timestamp) (path : Path) : Bool :=
  match recordAt? tree path with
  | some record => record.createdAt.nanos < cutoff.nanos
  | none => true

/-- Drop the stale files among some. -/
def pruneFiles (cutoff : Timestamp) : FileTree → List Path → Pruned × FileTree
  | tree, [] => ({}, tree)
  | tree, path :: rest =>
    match isStale tree cutoff path, tree.removeFile path with
    | true, .ok tree =>
      let (pruned, tree) := pruneFiles cutoff tree rest
      ({ pruned with total := pruned.total + 1, removed := pruned.removed + 1 }, tree)
    | _, _ =>
      let (pruned, tree) := pruneFiles cutoff tree rest
      ({ pruned with total := pruned.total + 1, kept := pruned.kept + 1 }, tree)

/-- The longest age that can be computed with. -/
def maxAgeSeconds : Nat := 9223372036854775

/-- The point in time an age before another; an age that is too long counts as none, and one that
leads before the earliest point in time has no answer. -/
def cutoff? (now : Timestamp) (ageSeconds : Nat) : Option Timestamp :=
  let age := if ageSeconds ≤ maxAgeSeconds then ageSeconds else 0
  let nanos := now.nanos - age * Timestamp.perSecond
  if nanos < Timestamp.earliest.nanos then none else some ⟨nanos⟩

/-- Drop the records that are **older than an age**. -/
def prune (cache : Cache) (tree : FileTree) (cutoff : Timestamp) :
    Except CacheError (Pruned × FileTree) :=
  match cache.recordFiles tree with
  | .error error => .error error
  | .ok files => .ok (pruneFiles cutoff tree files)

/-- Drop the directory of the records, **with all that is in it**; says how many records there were.
What was dropped before a failure is gone. -/
def sweep (cache : Cache) (tree : FileTree) : Except CacheError Nat × FileTree :=
  match cache.recordFiles tree with
  | .error error => (.error error, tree)
  | .ok files =>
    if tree.pathExists cache.dir then
      match tree.removeAll cache.dir with
      | (.error error, tree) => (.error (.io error.message), tree)
      | (.ok (), tree) => (.ok files.length, tree)
    else (.ok files.length, tree)

/-- Drop **all records**, if that can be done. -/
def clean (cache : Cache) (tree : FileTree) : Except CacheError (Nat × FileTree) :=
  match cache.sweep tree with
  | (.error error, _) => .error error
  | (.ok count, tree) => .ok (count, tree)

/-- How many records there are, and how large they are together. -/
structure Stats where
  entries : Nat := 0
  totalSize : Nat := 0
  deriving DecidableEq, Inhabited, Repr

/-- The **number and size** of the records. -/
def stats (cache : Cache) (tree : FileTree) : Except CacheError Stats :=
  match cache.recordFiles tree with
  | .error error => .error error
  | .ok files =>
    .ok {
      entries := files.length
      totalSize := files.foldl
        (fun size path => size + match tree.size path with | .ok n => n | .error _ => 0) 0 }

end Cache

end BuildMatrix
