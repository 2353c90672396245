import Mathlib
import BlockRules.Proofs.SigHash.Legacy
import BlockRules.Proofs.SigHash.Witness

/-!
# The time of a transaction and its signatures

On a proof-of-stake network a transaction has a time, and both of its names depend on it. Whether
a signature does depends on the version:

* **legacy** — the summary starts with the version and the time (`Transaction.encodeHead`), so
  requests that differ in the time have different summaries, whatever their hash type says;
* **witnesses** — the summary has no place for the time. A signature stays good when somebody else
  changes the time of the transaction, and with it the transaction's names
  (`Request.witnessSummary?_atTime`).

`Request.summary?` is the summary for either version, as far as there is one.
-/

namespace BlockRules

namespace SigHash

namespace Request

variable {r : Request} {v : SigVersion} {a b : UInt32} {s : Bytes} {shared : Option SharedHashes}

/-- The request with another time of the transaction. -/
def atTime (r : Request) (time : UInt32) : Request :=
  { r with tx := { r.tx with time := some time } }

/-- The byte string that is hashed. There is none if the signed input, or an output that the legacy
version signs alone, is missing. -/
def summary? (r : Request) : SigVersion → Option Bytes
  | .legacy => if hasLegacyPreimage r.tx r.index r.type then some r.legacySummary else none
  | .witnessV0 => r.witnessSummary?

theorem summary?_legacy_eq_some_iff :
    r.summary? .legacy = some s ↔
      hasLegacyPreimage r.tx r.index r.type = true ∧ r.legacySummary = s := by
  rw [summary?, Option.ite_none_right_eq_some, Option.some.injEq]

/-- The hash is that of the summary. -/
theorem hash_of_summary? (summary : r.summary? v = some s)
    (own : shared = none ∨ shared = some (.ofTransaction r.tx)) :
    r.hash v shared = .ok (doubleSha256 s) := by
  cases v with
  | legacy =>
    obtain ⟨hashes, rfl⟩ := summary?_legacy_eq_some_iff.1 summary
    exact hash_legacy hashes
  | witnessV0 =>
    obtain ⟨input, there, rfl⟩ := Option.map_eq_some_iff.1 summary
    exact hash_witnessV0 there own

/-- Whether there is a summary does not depend on the time. -/
theorem isSome_summary?_atTime : ((r.atTime a).summary? v).isSome = (r.summary? v).isSome := by
  cases v with
  | legacy =>
    have same : hasLegacyPreimage (r.atTime a).tx (r.atTime a).index (r.atTime a).type =
        hasLegacyPreimage r.tx r.index r.type := rfl
    rw [summary?, summary?, same]
    split <;> rfl
  | witnessV0 =>
    rw [summary?, summary?, witnessSummary?, witnessSummary?, Option.isSome_map, Option.isSome_map]
    rfl

/-- Legacy summaries show the time. -/
theorem eq_of_legacySummary_atTime
    (same : (r.atTime a).legacySummary = (r.atTime b).legacySummary) :
    a = b := by
  rw [legacySummary, legacySummary, legacyPreimage_eq, legacyPreimage_eq] at same
  have timed : (r.atTime a).tx.time.isSome = (r.atTime b).tx.time.isSome := rfl
  obtain ⟨-, time, -⟩ := encodeHead_append_inj timed same
  exact Option.some.inj time

/-- Summaries for witnesses do not. -/
theorem witnessSummary?_atTime : (r.atTime a).witnessSummary? = r.witnessSummary? := by
  rw [witnessSummary?, witnessSummary?]
  rfl

/-- **Only legacy signatures commit to the time.** Take a request that has a summary, and two times.
If the hash function tells the two summaries with these times apart when they are different, then
the request has different hashes at the two times in the legacy version, and the same hash in the
version for witnesses. -/
theorem hash_atTime_ne_iff (different : a ≠ b) (summary : (r.summary? v).isSome = true)
    (own : shared = none ∨ shared = some (.ofTransaction r.tx))
    (apart : ∀ s ∈ (r.atTime a).summary? v, ∀ s' ∈ (r.atTime b).summary? v,
      doubleSha256 s = doubleSha256 s' → s = s') :
    (r.atTime a).hash v shared ≠ (r.atTime b).hash v shared ↔ v = .legacy := by
  have there : ∀ time, ∃ s, (r.atTime time).summary? v = some s := fun time =>
    Option.isSome_iff_exists.1 (isSome_summary?_atTime.trans summary)
  obtain ⟨s, first⟩ := there a
  obtain ⟨s', second⟩ := there b
  rw [hash_of_summary? first own, hash_of_summary? second own]
  cases v with
  | legacy =>
    refine iff_of_true (fun same => ?_) rfl
    obtain ⟨-, summary⟩ := summary?_legacy_eq_some_iff.1 first
    obtain ⟨-, summary'⟩ := summary?_legacy_eq_some_iff.1 second
    have equal : s = s' := apart s first s' second (Except.ok.inj same)
    rw [← summary, ← summary'] at equal
    exact different (eq_of_legacySummary_atTime equal)
  | witnessV0 =>
    have equal : some s = some s' := by
      rw [← first, ← second, summary?, summary?, witnessSummary?_atTime, witnessSummary?_atTime]
    rw [Option.some.inj equal]
    exact iff_of_false (fun other => other rfl) nofun

theorem hash_legacySummary_alone_ne :
    doubleSha256 (alone.atTime 1).legacySummary ≠ doubleSha256
      (alone.atTime 2).legacySummary := by
  decide +kernel

/-- One request at two times: its hashes differ in the legacy version only. -/
theorem alone_at_two_times :
    (alone.atTime 1).hash .legacy none ≠ (alone.atTime 2).hash .legacy none ∧
      (alone.atTime 1).hash .witnessV0 none = (alone.atTime 2).hash .witnessV0 none := by
  have apart :
    ∀ s ∈ (alone.atTime 1).summary? .legacy, ∀ s' ∈ (alone.atTime 2).summary? .legacy,
      doubleSha256 s = doubleSha256 s' → s = s' := by
    intro s first s' second same
    obtain ⟨-, rfl⟩ := summary?_legacy_eq_some_iff.1 first
    obtain ⟨-, rfl⟩ := summary?_legacy_eq_some_iff.1 second
    exact absurd same hash_legacySummary_alone_ne
  have single :
    ∀ s ∈ (alone.atTime 1).summary? .witnessV0, ∀ s' ∈ (alone.atTime 2).summary? .witnessV0,
      doubleSha256 s = doubleSha256 s' → s = s' := by
    intro s first s' second _
    rw [Option.mem_def, summary?, witnessSummary?_atTime] at first second
    exact Option.some.inj (first.symm.trans second)
  refine ⟨(hash_atTime_ne_iff (by decide) (by decide) (.inl rfl) apart).2 rfl, ?_⟩
  by_contra other
  exact nomatch (hash_atTime_ne_iff (by decide) (by decide) (.inl rfl) single).1 other

/-- The byte strings that are hashed for a witness do not show the time. -/
theorem hashed_atTime : (r.atTime a).hashed = r.hashed := by
  rw [hashed, hashed, witnessSummary?_atTime]
  rfl

/-- Two transactions that differ in the time alone, and have one hash for a signature in a witness,
although the hash function tells all byte strings apart that are hashed for it. -/
theorem one_witness_hash_at_two_times :
    (alone.atTime 1).tx.time = some 1 ∧ (alone.atTime 2).tx.time = some 2 ∧
      (alone.summary? .witnessV0).isSome = true ∧
      (∀ s ∈ (alone.atTime 1).hashed ++ (alone.atTime 2).hashed,
        ∀ s' ∈ (alone.atTime 1).hashed ++ (alone.atTime 2).hashed,
          doubleSha256 s = doubleSha256 s' → s = s') ∧
      ∃ digest, (alone.atTime 1).hash .witnessV0 none = .ok digest ∧
        (alone.atTime 2).hash .witnessV0 none = .ok digest := by
  have distinct : (alone.hashed.map doubleSha256).Nodup := by
    rw [map_hash_hashed_alone]
    decide +kernel
  have summary {time : UInt32} : (alone.atTime time).summary? .witnessV0 = alone.witnessSummary? :=
    witnessSummary?_atTime
  refine ⟨rfl, rfl, by decide, ?_, _, hash_of_summary? summary (.inl rfl),
    hash_of_summary? summary (.inl rfl)⟩
  simp only [hashed_atTime, List.mem_append, or_self]
  intro s mem s' mem' equal
  exact List.inj_on_of_nodup_map distinct mem mem' equal

end Request

end SigHash

end BlockRules
