import Mathlib
import BlockRules.Proofs.Script.Composites
import BlockRules.Proofs.Script.Cuts
import BlockRules.Proofs.Script.ScriptHash

/-!
# Templates are instructions

The shapes of output scripts are recognised by the number of bytes and by bytes at fixed places,
with no script being cut into instructions. This module says that the bytes are looked for where the
instructions stand.

* **whole scripts** — the scripts that given instructions use up are the bytes of these
  instructions, if they fit (`Script.parse_eq_iff`);
* **witness programs** — a number from 0 to 16 by an opcode of its own (`Instruction.small`) and a
  direct push (`Script.witnessProgram?_iff_parse`);
* **script hashes** — a direct push of 20 bytes between two opcodes
  (`Script.isPayToScriptHash_iff_parse`).

`Script.templates_match_instructions` puts these together.
-/

namespace BlockRules

/-! ## Numbers -/

theorem Opcode.smallInt?_eq_some_iff {op : UInt8} {v : Nat} :
    smallInt? op = some v ↔ v ≤ 16 ∧ op = ofSmallInt v := by
  have small : ∀ v ≤ 16, smallInt? (ofSmallInt v) = some v := by decide
  constructor
  · intro number
    rw [smallInt?] at number
    split at number
    next zero =>
      obtain rfl := Option.some.inj number
      exact ⟨by decide, zero⟩
    next =>
      split at number
      next inside =>
        obtain rfl := Option.some.inj number
        obtain ⟨low, high⟩ := inside
        rw [UInt8.le_iff_toNat_le] at low high
        have low : 0x51 ≤ op.toNat := low
        have high : op.toNat ≤ 0x60 := high
        refine ⟨by omega, ?_⟩
        rw [ofSmallInt, if_neg (by omega), Nat.add_sub_cancel' (by omega), UInt8.ofNat_toNat]
      next => cases number
  · rintro ⟨high, rfl⟩
    exact small v high

/-- A number from 0 to 16 is written as its opcode. -/
theorem Instruction.written_small {v : Nat} (high : v ≤ 16) :
    Written (small v) [Opcode.ofSmallInt v] := by
  rcases Nat.eq_zero_or_pos v with rfl | low
  · exact .direct (by decide) rfl
  · have above : ∀ v ≤ 16, 0 < v → 0x4e < Opcode.ofSmallInt v := by decide
    rw [small, if_neg low.ne']
    exact .operation (above v high low)

namespace Script

variable {s program : Bytes} {is : List Instruction} {v : Nat}

/-- A script is used up by instructions exactly if it is their bytes. -/
theorem parse_eq_iff : parse s = (is, []) ↔ (∀ i ∈ is, i.Fits) ∧ s = bytes is := by
  constructor
  · intro whole
    have same : instructions s = is := congrArg Prod.fst whole
    have used : tail s = [] := congrArg Prod.snd whole
    have spelled := bytes_parse s
    rw [same, used, List.append_nil] at spelled
    exact ⟨fun i mem => fits_of_mem_instructions (same.symm ▸ mem), spelled.symm⟩
  · rintro ⟨fits, rfl⟩
    have read := parse_bytes_append fits (show Instruction.read? [] = none from rfl)
    rwa [List.append_nil] at read

theorem bytes_pair (i j : Instruction) : bytes [i, j] = i.bytes ++ j.bytes := by
  rw [bytes_cons, bytes_cons]
  exact congrArg (i.bytes ++ ·) (List.append_nil _)

/-- A script is used up by two instructions exactly if it is what they are written as. -/
theorem parse_eq_pair_iff {i j : Instruction} {first second : Bytes} (written : i.Written first)
    (written' : j.Written second) : parse s = ([i, j], []) ↔ s = first ++ second := by
  obtain ⟨fits, rfl⟩ := Instruction.written_iff.1 written
  obtain ⟨fits', rfl⟩ := Instruction.written_iff.1 written'
  rw [parse_eq_iff, bytes_pair, and_iff_right]
  simp [fits, fits']

/-! ## Witness programs -/

/-- A witness program by its bytes: version, size and 2 to 40 bytes more. -/
theorem witnessProgram?_eq_some_iff : witnessProgram? s = some (v, program) ↔
    ∃ version size, s = version :: size :: program ∧ Opcode.smallInt? version = some v ∧
      2 ≤ program.length ∧ program.length ≤ 40 ∧ size.toNat = program.length := by
  constructor
  · intro found
    rcases s with _ | ⟨version, _ | ⟨size, rest⟩⟩
    · cases found
    · cases found
    · rw [witnessProgram?, Option.ite_none_right_eq_some, Option.map_eq_some_iff] at found
      obtain ⟨sizes, w, number, same⟩ := found
      obtain ⟨rfl, rfl⟩ := Prod.mk.inj same
      exact ⟨version, size, rfl, number, sizes⟩
  · rintro ⟨version, size, rfl, number, sizes⟩
    rw [witnessProgram?, if_pos sizes, number]
    rfl

theorem witnessProgram?_iff_parse : witnessProgram? s = some (v, program) ↔
    v ≤ 16 ∧ 2 ≤ program.length ∧ program.length ≤ 40 ∧
      ∃ size, size.toNat = program.length ∧
        parse s = ([.small v, ⟨size, some program⟩], []) := by
  -- a size of at most 40 is the opcode of a direct push, and so the two bytes in front are where
  -- instructions begin
  have pushed : ∀ {size : UInt8}, size.toNat = program.length → program.length ≤ 40 →
      Instruction.Written ⟨size, some program⟩ (size :: program) := by
    intro size direct high
    refine .direct ?_ direct.symm
    rw [UInt8.le_iff_toNat_le, direct]
    exact high.trans (by decide)
  rw [witnessProgram?_eq_some_iff]
  constructor
  · rintro ⟨version, size, rfl, number, low, high, direct⟩
    obtain ⟨small, rfl⟩ := Opcode.smallInt?_eq_some_iff.1 number
    refine ⟨small, low, high, size, direct, ?_⟩
    exact (parse_eq_pair_iff (Instruction.written_small small) (pushed direct high)).2 rfl
  · rintro ⟨small, low, high, size, direct, whole⟩
    refine ⟨Opcode.ofSmallInt v, size, ?_, Opcode.smallInt?_eq_some_iff.2 ⟨small, rfl⟩, low,
      high, direct⟩
    exact (parse_eq_pair_iff (Instruction.written_small small) (pushed direct high)).1 whole

/-! ## Script hashes -/

theorem isPayToScriptHash_iff_parse : isPayToScriptHash s = true ↔
    ∃ data : Bytes, data.length = 20 ∧
      parse s =
        ([⟨Opcode.hash160, none⟩, ⟨0x14, some data⟩, ⟨Opcode.equal, none⟩], []) := by
  rw [isPayToScriptHash_iff]
  constructor
  · rintro ⟨hash, rfl⟩
    exact ⟨hash.bytesLE, hash.length_bytesLE, parse_payToScriptHash hash⟩
  · rintro ⟨data, long, whole⟩
    have written : Instruction.Written ⟨0x14, some data⟩ (0x14 :: data) :=
      .direct (by decide) long
    obtain ⟨-, pushed⟩ := Instruction.written_iff.1 written
    refine ⟨Wide.ofBytesLE data, ?_⟩
    rw [(parse_eq_iff.1 whole).2, payToScriptHash_eq, Wide.bytesLE_ofBytesLE long, bytes_cons,
      bytes_pair, ← pushed]
    rfl

/-- **Templates are instructions.** A witness program of a version is a script that two instructions
use up, one that pushes the version by an opcode of its own and one that pushes the program
directly, of 2 to 40 bytes. A script asks for another one by its hash exactly if it is
`payToScriptHash` of some hash, and that is if three instructions use it up, a direct push of 20
bytes between two opcodes. No script is both. -/
theorem templates_match_instructions (s : Bytes) :
    (∀ v program, witnessProgram? s = some (v, program) ↔
      v ≤ 16 ∧ 2 ≤ program.length ∧ program.length ≤ 40 ∧
        ∃ size, size.toNat = program.length ∧
          parse s = ([.small v, ⟨size, some program⟩], [])) ∧
    (isPayToScriptHash s = true ↔ ∃ hash, s = payToScriptHash hash) ∧
    (isPayToScriptHash s = true ↔ ∃ data : Bytes, data.length = 20 ∧
      parse s =
        ([⟨Opcode.hash160, none⟩, ⟨0x14, some data⟩, ⟨Opcode.equal, none⟩], [])) ∧
    ¬(isPayToScriptHash s = true ∧ (witnessProgram? s).isSome = true) := by
  refine ⟨fun v program => witnessProgram?_iff_parse, isPayToScriptHash_iff,
    isPayToScriptHash_iff_parse, ?_⟩
  rintro ⟨shape, found⟩
  obtain ⟨hash, rfl⟩ := isPayToScriptHash_iff.1 shape
  rw [witnessProgram?_payToScriptHash] at found
  cases found

/-- A push of a stated length is no direct one, even if the bytes are as many. -/
example : witnessProgram? [0x00, 0x4c, 0x02, 0xaa, 0xbb] = none ∧
    witnessProgram? [0x00, 0x02, 0xaa, 0xbb] = some (0, [0xaa, 0xbb]) := by decide +kernel

end Script

end BlockRules
