import BuildMatrix.Proofs.Ledger

/-!
# Records by their age

Records that are older than an age are dropped. The point in time that lies an age back is found
from the clock, within two limits. An age too long to be computed with counts as none at all, so
that every record is dropped; and an age that leads back before the earliest point in time ends the
program. Within the limits a longer age drops no more than a shorter one.
-/

namespace BuildMatrix.Cache

open FileTree

variable {cache : Cache} {folder : Location} {tree : FileTree} {now : Timestamp}

/-- How far back an age **reaches**. -/
def reach (age : Nat) : Int :=
  (if age ≤ maxAgeSeconds then age else 0 : Nat) * Timestamp.perSecond

/-- Pruning by an age comes to an end, and **drops** what is at a location. -/
def Drops (cache : Cache) (tree : FileTree) (now : Timestamp) (age : Nat) (location : Location) :
    Prop :=
  ∃ cutoff, cutoff? now age = some cutoff ∧
    ∃ outcome, cache.prune tree cutoff = .ok outcome ∧ entry? outcome.2 location = none

theorem cutoff?_eq_some_iff {age : Nat} {cutoff : Timestamp} : cutoff? now age = some cutoff ↔
    Timestamp.earliest.nanos ≤ now.nanos - reach age ∧ ⟨now.nanos - reach age⟩ = cutoff := by
  have hcutoff : cutoff? now age = if now.nanos - reach age < Timestamp.earliest.nanos then none
    else some ⟨now.nanos - reach age⟩ := rfl
  rw [hcutoff]
  split
  · next hless => simp [Int.not_le.2 hless]
  · next hreached => simp [Int.not_lt.1 hreached]

section RecordFile

variable (h : cache.Lodged folder tree) (hne : cache.dir.text ≠ "") (hnamed : tree.Named)
  {name : String} (hname : IsFileName name) (hfile : tree.isFile (cache.dir.child name) = true)
  (hjson : (cache.dir.child name).extension? = some "json")

include h hne hnamed hname hfile hjson

/-- A file of a record is dropped exactly if it is stale at the point in time that the age leads
back to. -/
theorem Lodged.drops_iff (age : Nat) : cache.Drops tree now age (folder ++ [name]) ↔
    ∃ cutoff, cutoff? now age = some cutoff ∧ Stale cutoff (tree.entry? (folder ++ [name])) := by
  obtain ⟨files, hrecords, hmem, hfiles⟩ := h.exists_recordFiles hne hnamed
  have hsome : tree.entry? (folder ++ [name]) ≠ none := by
    intro hnone
    rw [isFile] at hfile
    split at hfile
    · next hlookup =>
        have husable := (locate_eq_ok_iff.1 (lookup_eq_ok_iff.1 hlookup).1).1
        rw [h.lookup_child hname husable, hnone] at hlookup
        cases hlookup
    · cases hfile
  refine exists_congr fun cutoff => and_congr_right fun _ => ?_
  simp only [Cache.prune, hrecords, Except.ok.injEq, exists_eq_left']
  rcases (@Lodged.pruneFiles _ _ _ cutoff _ h hfiles).2 name hname with
    ⟨hsame, hfresh⟩ | ⟨hnone, hstale⟩
  · exact iff_of_false (hsame ▸ hsome) (hfresh ((hmem _).2 ⟨⟨name, hsome, rfl⟩, hfile, hjson⟩))
  · exact iff_of_true hnone hstale

/-- A record is dropped exactly if it is older than the age reaches. -/
theorem Lodged.drops_iff_of_record {age : Nat} {record : WorkRecord}
    (hrecord : entryRecord? (tree.entry? (folder ++ [name])) = some record)
    (hsome : cutoff? now age ≠ none) :
    cache.Drops tree now age (folder ++ [name]) ↔
      record.createdAt.nanos < now.nanos - reach age := by
  rw [h.drops_iff hne hnamed hname hfile hjson]
  obtain ⟨cutoff, hcutoff⟩ := Option.ne_none_iff_exists'.1 hsome
  obtain ⟨-, rfl⟩ := cutoff?_eq_some_iff.1 hcutoff
  rw [hcutoff]
  constructor
  · rintro ⟨cutoff, hsame, -, hold⟩
    obtain rfl := Option.some.inj hsame
    exact hold record hrecord
  · refine fun hless => ⟨_, rfl, exists_file_of_entryRecord? hrecord, fun other hother => ?_⟩
    exact Option.some.inj (hrecord.symm.trans hother) ▸ hless

end RecordFile

/-- **Within its reach, pruning is monotone**: an age that can be computed with ends the program
only if it leads back too far; otherwise the files of records are read, and a longer age drops none
that a shorter one keeps. A record is dropped exactly if it is older than the age reaches. -/
theorem pruning_is_monotone_within_reach (h : cache.Lodged folder tree)
    (hne : cache.dir.text ≠ "") (hnamed : tree.Named)
    (hnow : Timestamp.earliest.nanos ≤ now.nanos) :
    (∀ age, cutoff? now age = none ↔ age ≤ maxAgeSeconds ∧
      now.nanos - age * Timestamp.perSecond < Timestamp.earliest.nanos) ∧
    (∀ cutoff, ∃ outcome, cache.prune tree cutoff = .ok outcome) ∧
    ∀ name, IsFileName name → tree.isFile (cache.dir.child name) = true →
      (cache.dir.child name).extension? = some "json" →
      (∀ short long, short ≤ long → long ≤ maxAgeSeconds →
        cache.Drops tree now long (folder ++ [name]) →
        cache.Drops tree now short (folder ++ [name])) ∧
      ∀ age record, entryRecord? (tree.entry? (folder ++ [name])) = some record →
        cutoff? now age ≠ none → (cache.Drops tree now age (folder ++ [name]) ↔
          record.createdAt.nanos < now.nanos - reach age) := by
  refine ⟨fun age => ?_, fun cutoff => ?_, fun name hname hfile hjson => ⟨?_, ?_⟩⟩
  · rw [Option.eq_none_iff_forall_ne_some]
    simp only [ne_eq, cutoff?_eq_some_iff, not_and, reach]
    split
    · next hage => simp [hage]
    · next hage => simpa [hage] using hnow
  · obtain ⟨files, hrecords, -⟩ := h.exists_recordFiles hne hnamed
    exact ⟨_, by rw [Cache.prune, hrecords]⟩
  · intro short long hle hlong
    rw [h.drops_iff hne hnamed hname hfile hjson, h.drops_iff hne hnamed hname hfile hjson]
    rintro ⟨cutoff, hcutoff, hcontent, hold⟩
    obtain ⟨hreached, rfl⟩ := cutoff?_eq_some_iff.1 hcutoff
    have hreach : reach short ≤ reach long := by
      rw [reach, reach, if_pos hlong, if_pos (hle.trans hlong), Timestamp.perSecond]
      omega
    refine ⟨_, cutoff?_eq_some_iff.2 ⟨by omega, rfl⟩, hcontent, fun record hrecord => ?_⟩
    exact (hold record hrecord).trans_le (Int.sub_le_sub_left hreach _)
  · exact fun age _ hrecord hsome =>
      h.drops_iff_of_record hne hnamed hname hfile hjson hrecord hsome

/-- In the first tree the record of `lib`, made at time zero, is at its slot. -/
theorem entryRecord?_firstTree : entryRecord? ( entry? (firstTree (firstRecord "lib"))
    (["cache"] ++ [recordName "lib"])) = some (firstRecord "lib") := by
  rw [← @entryRecord?_text (firstRecord "lib") (by decide)]
  simp [firstTree, entry?, find?, firstRecord]

/-- A record that is ten seconds old, with an age of five and one of twenty. -/
theorem lib_is_dropped_by_age :
    ({ dir := ⟨"cache"⟩ } : Cache).Drops (firstTree (firstRecord "lib")) ⟨10000000000⟩ 5
        (["cache"] ++ [recordName "lib"]) ∧
      ¬({ dir := ⟨"cache"⟩ } : Cache).Drops (firstTree (firstRecord "lib")) ⟨10000000000⟩ 20
        (["cache"] ++ [recordName "lib"]) := by
  have hnamed : (firstTree (firstRecord "lib")).Named := named_of_keys (by decide +kernel)
  obtain ⟨-, -, hnames⟩ := @pruning_is_monotone_within_reach _ _ _ ⟨10000000000⟩
    (lodged_firstTree (firstRecord "lib")) (by decide) hnamed (by decide)
  obtain ⟨-, hages⟩ := hnames (recordName "lib") (isFileName_recordName _) (by decide +kernel)
    (extension?_recordPath { dir := ⟨"cache"⟩ } "lib")
  exact ⟨(hages 5 _ entryRecord?_firstTree (by decide)).2 (by decide),
    mt (hages 20 _ entryRecord?_firstTree (by decide)).1 (by decide)⟩

/-- **An age that is too long reaches nowhere**: a record that is ten seconds old is kept with an
age of an hour, and dropped with one of hundreds of millions of years. An age that is not so long
ends the program, before the record is looked at. -/
theorem long_age_reaches_nowhere :
    ¬({ dir := ⟨"cache"⟩ } : Cache).Drops (firstTree (firstRecord "lib")) ⟨10000000000⟩ 3600
        (["cache"] ++ [recordName "lib"]) ∧
      ({ dir := ⟨"cache"⟩ } : Cache).Drops (firstTree (firstRecord "lib")) ⟨10000000000⟩
        9300000000000000 (["cache"] ++ [recordName "lib"]) ∧
      cutoff? ⟨10000000000⟩ 9000000000000 = none := by
  have hnamed : (firstTree (firstRecord "lib")).Named := named_of_keys (by decide +kernel)
  have hages (age : Nat) (hsome : cutoff? ⟨10000000000⟩ age ≠ none) :=
    (lodged_firstTree (firstRecord "lib")).drops_iff_of_record (by decide) hnamed
      (isFileName_recordName "lib") (by decide +kernel)
      (extension?_recordPath { dir := ⟨"cache"⟩ } "lib") entryRecord?_firstTree hsome
  exact ⟨mt (hages 3600 (by decide)).1 (by decide),
    (hages 9300000000000000 (by decide)).2 (by decide), by decide⟩

end BuildMatrix.Cache
