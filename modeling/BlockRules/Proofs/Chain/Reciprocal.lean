import Mathlib
import BlockRules.Target.Lemmas

/-!
# Targets and the hashes that meet them

A target is looked at in three ways: whether proof of work has a meaning for it, as a word that
hashes are compared with, and as a number that says how much work a hash below it proves. They agree
on one set of hashes, `Target.hashes`.

* `Wide.ncard_toNat_le` — words are numbers, so there are `k + 1` of them up to `k`;
* `Target.hashes_of_inRange`, `Target.hashes_of_not_inRange` — the hashes are those up to the
  value of the target, or there are none;
* `Target.blockProof_eq_div_ncard` — the proof of a target is the number of all hashes divided by
  the number of those that meet it, so that a target that more hashes meet proves less.
-/

namespace BlockRules

/-- There are as many words up to a number as there are numbers up to it. -/
theorem Wide.ncard_toNat_le {n k : Nat} (fits : k < (2 ^ 32) ^ n) :
    {x : Wide n | x.toNat ≤ k}.ncard = k + 1 := by
  have numbers : Wide.toNat '' {x : Wide n | x.toNat ≤ k} = Set.Iic k := by
    ext v
    constructor
    · rintro ⟨x, below, rfl⟩
      exact below
    · intro below
      have word : (Wide.ofNat v : Wide n).toNat = v := by
        rw [Wide.toNat_ofNat, Nat.mod_eq_of_lt (lt_of_le_of_lt below fits)]
      exact ⟨Wide.ofNat v, word.le.trans below, word⟩
  rw [← Set.ncard_image_of_injective _ Wide.toNat_injective, numbers, ← Finset.coe_Iic,
    Set.ncard_coe_finset, Nat.card_Iic]

namespace Target

variable {s t : Target}

/-- The hashes that meet a target. -/
def hashes (t : Target) : Set UInt256 := {h | t.isMetBy h = true}

theorem hashes_of_inRange (range : t.inRange = true) :
    t.hashes = {h | h.toNat ≤ t.toInt.natAbs} := by
  obtain ⟨positive, bounded⟩ := inRange_iff.1 range
  ext h
  rw [hashes, Set.mem_ofPred_eq, isMetBy_iff, Set.mem_ofPred_eq]
  omega

theorem hashes_of_not_inRange (range : t.inRange = false) : t.hashes = ∅ := by
  ext h
  rw [hashes, Set.mem_ofPred_eq, isMetBy, range]
  exact iff_of_false Bool.false_ne_true (Set.notMem_empty h)

/-- The value of a target in range counts its hashes, but for the one that is zero. -/
theorem ncard_hashes (range : t.inRange = true) : t.hashes.ncard = t.toInt.natAbs + 1 := by
  obtain ⟨positive, bounded⟩ := inRange_iff.1 range
  have fits : t.toInt.natAbs < (2 ^ 32) ^ 8 := by omega
  rw [hashes_of_inRange range, Wide.ncard_toNat_le fits]

theorem finite_hashes (t : Target) : t.hashes.Finite := by
  rcases range : t.inRange with _ | _
  · rw [hashes_of_not_inRange range]
    exact Set.finite_empty
  · refine Set.finite_of_ncard_pos ?_
    rw [ncard_hashes range]
    exact Nat.succ_pos _

theorem zero_mem_hashes (range : t.inRange = true) : Wide.zero ∈ t.hashes := by
  rw [hashes_of_inRange range]
  exact Nat.zero_le _

/-- Some hash meets a target exactly if its value is in range. -/
theorem hashes_nonempty_iff : t.hashes.Nonempty ↔ t.inRange = true := by
  constructor
  · rintro ⟨h, met⟩
    rw [inRange_iff]
    obtain ⟨positive, bounded, -⟩ := isMetBy_iff.1 met
    exact ⟨positive, bounded⟩
  · exact fun range => ⟨Wide.zero, zero_mem_hashes range⟩

/-- The value of a target in range is that of a word. -/
theorem toUInt256?_of_inRange (range : t.inRange = true) :
    ∃ limit, t.toUInt256? = .ok limit ∧ (limit.toNat : Int) = t.toInt := by
  obtain ⟨positive, bounded⟩ := inRange_iff.1 range
  have held : Wide.ofNat? t.toInt.natAbs = .ok (Wide.ofNat t.toInt.natAbs : UInt256) :=
    Wide.ofNat?_eq_ok_iff.2 ⟨by omega, rfl⟩
  refine ⟨Wide.ofNat t.toInt.natAbs, ?_, ?_⟩
  · rw [toUInt256?, if_neg (by omega), held]
  · rw [Wide.toNat_of_ofNat? held]
    omega

/-- The proof of a target is the number of all hashes divided by the number of those that meet
it. -/
theorem blockProof_eq_div_ncard (t : Target) : t.blockProof = 2 ^ 256 / t.hashes.ncard := by
  rcases range : t.inRange with _ | _
  · rw [hashes_of_not_inRange range, Set.ncard_empty, Nat.div_zero, blockProof, range]
    rfl
  · rw [ncard_hashes range, blockProof_of_inRange range]

/-- Every target in range proves something: no more hashes meet it than there are. -/
theorem blockProof_pos (range : t.inRange = true) : 1 ≤ t.blockProof := by
  obtain ⟨positive, bounded⟩ := inRange_iff.1 range
  rw [blockProof_of_inRange range]
  exact Nat.div_pos (by omega) (Nat.succ_pos _)

/-- **Work is reciprocal to the chance of a hash.** Take any compact target.

* If its value is strictly between zero and `2 ^ 256`, the hashes up to the value meet it, otherwise
  none. The value is read as a word only where it is in range, and there it is one.
* Its proof is the number of all hashes divided by the number of those that meet it, rounded down,
  and zero exactly if none does.
* If some hash meets it, and whatever does meets another target as well, then the other target
  proves something, but no more than it. -/
theorem work_is_reciprocal (t : Target) :
    t.hashes =
      (if 0 < t.toInt ∧ t.toInt < 2 ^ 256 then {h | (h.toNat : Int) ≤ t.toInt} else ∅) ∧
    (t.inRange = true → ∃ limit, t.toUInt256? = .ok limit ∧ (limit.toNat : Int) = t.toInt) ∧
    (t.hashes.Nonempty → t.hashes.Finite ∧ t.blockProof = 2 ^ 256 / t.hashes.ncard) ∧
    (t.hashes = ∅ ↔ t.blockProof = 0) ∧
    ∀ easier : Target, t.hashes ⊆ easier.hashes → t.hashes.Nonempty →
      1 ≤ easier.blockProof ∧ easier.blockProof ≤ t.blockProof := by
  refine ⟨?_, toUInt256?_of_inRange, ?_, ?_, ?_⟩
  · split
    next bounds =>
      rw [hashes_of_inRange (inRange_iff.2 bounds)]
      ext h
      rw [Set.mem_ofPred_eq, Set.mem_ofPred_eq]
      omega
    next bounds =>
      exact hashes_of_not_inRange (Bool.eq_false_iff.2 fun range => bounds (inRange_iff.1 range))
  · exact fun _ => ⟨finite_hashes t, blockProof_eq_div_ncard t⟩
  · rw [← Set.not_nonempty_iff_eq_empty, hashes_nonempty_iff]
    constructor
    · exact fun range => if_neg range
    · intro nothing range
      have some := blockProof_pos range
      omega
  · intro easier more some
    have range := hashes_nonempty_iff.1 some
    have range' := hashes_nonempty_iff.1 (some.mono more)
    refine ⟨blockProof_pos range', ?_⟩
    rw [blockProof_eq_div_ncard, blockProof_eq_div_ncard]
    refine Nat.div_le_div_left (Set.ncard_le_ncard more (finite_hashes easier)) ?_
    rw [ncard_hashes range]
    exact Nat.succ_pos _

/-- The target of difficulty one is met by more hashes than one with a smaller exponent. -/
theorem difficultyOne_proves_less :
    let harder : Target := ⟨0x1c00ffff⟩
    harder.hashes ⊆ difficultyOne.hashes ∧ harder.hashes.Nonempty ∧ harder.hashes.Finite ∧
      (∃ limit, harder.toUInt256? = .ok limit ∧ (limit.toNat : Int) = 0xffff * 2 ^ 200) ∧
      1 ≤ difficultyOne.blockProof ∧ difficultyOne.blockProof ≤ harder.blockProof := by
  intro harder
  have value : harder.toInt = 0xffff * 2 ^ 200 := by decide +kernel
  have value' : difficultyOne.toInt = 0xffff * 2 ^ 208 := by decide +kernel
  have range : harder.inRange = true := inRange_iff.2 (by rw [value]; norm_num)
  have some : harder.hashes.Nonempty := hashes_nonempty_iff.2 range
  have more : harder.hashes ⊆ difficultyOne.hashes := by
    intro h met
    obtain ⟨-, -, below⟩ := isMetBy_iff.1 met
    refine isMetBy_iff.2 ?_
    omega
  obtain ⟨-, word, size, -, compared⟩ := work_is_reciprocal harder
  refine ⟨more, some, (size some).1, ?_, compared difficultyOne more some⟩
  rw [← value]
  exact word range

end Target

end BlockRules
