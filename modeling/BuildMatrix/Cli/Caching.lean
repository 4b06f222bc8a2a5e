import BuildMatrix.ByteSize
import BuildMatrix.Cli.Building

/-!
# Requests about the cache

The requests to look at the cache of a project and to drop records from it.
-/

namespace BuildMatrix.Cli

def withCache (session : Session) (answer : Cache → Reply) : Reply :=
  withWorkspace session fun workspace =>
    answer { dir := workspace.layout.cacheRoot, enabled := true }

/-- Lines for a reader, or a value; nothing for a reader who wants to see nothing. -/
def shown (line : CommandLine) (value : Json) (lines : List String) : List String :=
  if line.format = .json then [value.pretty] else if line.quiet then [] else lines

def cacheStatus (line : CommandLine) (session : Session) : Reply :=
  withCache session fun cache =>
    match cache.stats session.tree with
    | .error error => .failure session (.cache error)
    | .ok stats =>
      let size := ByteSize.text stats.totalSize
      let value := Json.obj [
        ("cache_dir", .str cache.dir.text),
        ("entries", .nat stats.entries),
        ("total_size", .nat stats.totalSize),
        ("total_size_formatted", .str size)]
      { lines := shown line value [
          "Task Cache Status",
          "",
          "  Location: " ++ cache.dir.text,
          "  Entries:  " ++ toString stats.entries,
          "  Size:     " ++ size]
        session }

def secondsPerDay : UInt64 := 86400

/-- Days in seconds, which may wrap around. -/
def secondsOfDays (days : Nat) : Nat := (UInt64.ofNat days * secondsPerDay).toNat

/-- The request to **drop old records**. -/
def cachePrune (line : CommandLine) (maxAgeDays : Nat) (session : Session) : Reply :=
  withCache session fun cache =>
    let opening := if line.printsText then
        [Console.info ("Pruning cache records older than " ++ toString maxAgeDays ++ " days...")]
      else []
    Reply.after opening <|
      match Cache.cutoff? session.now (secondsOfDays maxAgeDays) with
      | none => { conclusion := .aborted, session }
      | some cutoff =>
        match cache.prune session.tree cutoff with
        | .error error => .failure session (.cache error)
        | .ok (pruned, tree) =>
          let value := Json.obj [
            ("kept", .nat pruned.kept),
            ("removed", .nat pruned.removed),
            ("total", .nat pruned.total)]
          { lines := shown line value [Console.success (
              "Removed " ++ toString pruned.removed ++ " of " ++ toString pruned.total
                ++ " records (" ++ toString pruned.kept ++ " kept)")]
            session := { session with tree } }

/-- The request to **drop all records**; without a terminal it cannot be confirmed, and has to be
sure. -/
def cacheClean (line : CommandLine) (yes : Bool) (session : Session) : Reply :=
  withCache session fun cache =>
    if !session.tree.pathExists cache.dir then
      { lines := if line.quiet then []
                else [Console.success "Cache directory does not exist."], session }
    else if !yes then .failure session (.io "not a terminal") ["IO error: not a terminal"]
    else
      match cache.sweep session.tree with
      | (.error error, tree) => .failure { session with tree } (.cache error)
      | (.ok count, tree) =>
        let lines := if line.format = .json then [(Json.obj [("removed", .nat count)]).compact]
          else if line.quiet then []
          else [Console.success
            ("Removed " ++ toString count ++ " records from " ++ cache.dir.text)]
        { lines, session := { session with tree } }

end BuildMatrix.Cli
