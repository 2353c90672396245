import Mathlib
import BlockRules.Bytes.Lemmas
import BlockRules.Script.Build

/-!
# Scripts put together

An instruction shows where it ends, so what follows it has no part in reading it
(`Instruction.read?_append`). A script that is used up by its instructions can therefore be
continued by any other one, and the instructions of the two follow one another
(`Script.parse_append`).

* **which instructions** — those that are read are the ones whose data are as long as their
  opcode says (`Instruction.Fits`), and these are read back from their bytes
  (`Instruction.read?_bytes`);
* **a push** — `Script.pushData` prints one of them, so it adds one instruction to a script
  (`Script.instructions_append_pushData`) and leaves a script of pushes one
  (`Script.isPushOnly_append_pushData`). Its opcode is the shortest one unless the data are a
  single byte that has an opcode of its own (`Script.isMinimalPush_forLength`).
-/

namespace BlockRules

namespace Instruction

variable {i : Instruction} {s rest : Bytes}

/-- The data are there if the opcode says so, and as long as it says or can say. -/
def Fits (i : Instruction) : Prop :=
  match i.data with
  | none => Opcode.pushLength? i.opcode = none
  | some data => Opcode.pushLength? i.opcode = some (.direct data.length) ∨
      ∃ width, Opcode.pushLength? i.opcode = some (.stated width) ∧ data.length < 256 ^ width

/-- Instructions that are read fit. -/
theorem fits_of_read? (h : read? s = some (i, rest)) : i.Fits := by
  rcases s with _ | ⟨op, s⟩
  · cases h
  · rw [read?] at h
    rcases kind : Opcode.pushLength? op with _ | count | width <;> simp only [kind] at h
    · obtain ⟨rfl, -⟩ := Prod.mk.inj (Option.some.inj h)
      exact kind
    · rcases split : Bytes.split? count s with _ | ⟨data, behind⟩ <;> simp only [split] at h
      · cases h
      · obtain ⟨rfl, -⟩ := Prod.mk.inj (Option.some.inj h)
        obtain ⟨rfl, -⟩ := Bytes.split?_eq_some_iff.1 split
        exact .inl kind
    · rcases size : Bytes.split? width s with _ | ⟨count, behind⟩ <;> simp only [size] at h
      · cases h
      · rcases split : Bytes.split? (Bytes.toNat count) behind with _ | ⟨data, behind'⟩ <;>
          simp only [split] at h
        · cases h
        · obtain ⟨rfl, -⟩ := Prod.mk.inj (Option.some.inj h)
          obtain ⟨rfl, -⟩ := Bytes.split?_eq_some_iff.1 size
          obtain ⟨long, -⟩ := Bytes.split?_eq_some_iff.1 split
          exact .inr ⟨_, kind, long ▸ Bytes.toNat_lt count⟩

/-- Instructions that fit are read back, whatever follows them. -/
theorem read?_bytes (fits : i.Fits) (rest : Bytes) : read? (i.bytes ++ rest) = some (i, rest) := by
  rcases i with ⟨op, _ | data⟩
  · have kind : Opcode.pushLength? op = none := fits
    rw [bytes, List.singleton_append, read?, kind]
  · have here : Bytes.split? data.length (data ++ rest) = some (data, rest) :=
      Bytes.split?_eq_some_iff.2 ⟨rfl, rfl⟩
    rw [bytes, List.cons_append, List.append_assoc, read?]
    rcases fits with kind | ⟨width, kind, short⟩ <;> dsimp only at kind
    · rw [lengthBytes, kind]
      dsimp only
      rw [List.nil_append, here]
    · have size : Bytes.split? width (Bytes.ofNat width data.length ++ (data ++ rest)) =
          some (Bytes.ofNat width data.length, data ++ rest) :=
        Bytes.split?_eq_some_iff.2 ⟨Bytes.length_ofNat .., rfl⟩
      have length : Bytes.toNat (Bytes.ofNat width data.length) = data.length := by
        rw [Bytes.toNat_ofNat, Nat.mod_eq_of_lt short]
      rw [lengthBytes, kind]
      dsimp only
      rw [size]
      dsimp only
      rw [length, here]

/-- An instruction is read in the same way whatever follows it. -/
theorem read?_append (h : read? s = some (i, rest)) (more : Bytes) :
    read? (s ++ more) = some (i, rest ++ more) := by
  rw [bytes_read? h, List.append_assoc, read?_bytes (fits_of_read? h)]

end Instruction

/-! ## A push -/

namespace Opcode

/-- What the opcode for a push says about its length. -/
theorem pushLength?_forLength (count : Nat) : pushLength? (forLength count) =
    some (if count < 0x4c then .direct count
      else if count ≤ 0xff then .stated 1
      else if count ≤ 0xffff then .stated 2
      else .stated 4) := by
  rw [forLength]
  split
  next small =>
    have value : (UInt8.ofNat count).toNat = count := by
      rw [UInt8.toNat_ofNat']
      omega
    have direct : UInt8.ofNat count < pushData1 := by
      rw [UInt8.lt_iff_toNat_lt, value]
      exact small
    rw [pushLength?, if_pos direct, value]
  next =>
    split
    next => rfl
    next => split <;> rfl

/-- The opcode for a push is a push. -/
theorem isPush_forLength (count : Nat) : isPush (forLength count) = true := by
  rw [forLength]
  split
  next small =>
    rw [isPush, decide_eq_true_iff, UInt8.le_iff_toNat_le, UInt8.toNat_ofNat']
    exact (Nat.mod_le ..).trans (small.le.trans (by decide))
  next =>
    split
    next => rfl
    next => split <;> rfl

/-- Pushes are allowed. -/
theorem isDisabled_of_isPush {op : UInt8} (push : isPush op = true) : isDisabled op = false := by
  rw [isPush, decide_eq_true_iff] at push
  have above :
      ∀ {a b : UInt8}, sixteen < a → (decide (a ≤ op) && decide (op ≤ b)) = false := by
    intro a b high
    rw [decide_eq_false (UInt8.not_le.2 (UInt8.lt_of_le_of_lt push high)), Bool.false_and]
  have other : ∀ {a : UInt8}, sixteen < a → (op == a) = false := by
    intro a high
    exact beq_eq_false_iff_ne.2 (UInt8.ne_of_lt (UInt8.lt_of_le_of_lt push high))
  rw [isDisabled, above (by decide), above (by decide), other (by decide), other (by decide),
    above (by decide)]
  rfl

end Opcode

/-- The instruction that pushes a byte string fits, if the length can be stated. -/
theorem Instruction.fits_push {data : Bytes} (short : data.length < 2 ^ 32) : (push data).Fits := by
  have length := Opcode.pushLength?_forLength data.length
  rw [push, Fits]
  dsimp only
  split at length
  next => exact .inl length
  next =>
    split at length
    next small => exact .inr ⟨1, length, by omega⟩
    next =>
      split at length
      next small => exact .inr ⟨2, length, by omega⟩
      next => exact .inr ⟨4, length, short⟩

namespace Script

variable {script more data : Bytes}

theorem instructions_nil : instructions [] = [] := by
  rw [instructions, parse_of_read?_none rfl]

theorem instructions_of_read? {i : Instruction} {rest : Bytes}
    (first : Instruction.read? script = some (i, rest)) :
    instructions script = i :: instructions rest := by
  rw [instructions, parse_of_read?_some first]
  rfl

theorem tail_of_read? {i : Instruction} {rest : Bytes}
    (first : Instruction.read? script = some (i, rest)) : tail script = tail rest := by
  rw [tail, parse_of_read?_some first]
  rfl

/-- A script that is used up by its instructions is continued by those of another one. -/
theorem parse_append {script : Bytes} (whole : tail script = []) (more : Bytes) :
    parse (script ++ more) = (instructions script ++ instructions more, tail more) := by
  match first : Instruction.read? script with
  | none =>
    have empty : script = [] := by
      rw [tail, parse_of_read?_none first] at whole
      exact whole
    subst empty
    rw [instructions, parse_of_read?_none first]
    rfl
  | some (i, rest) =>
    have shorter := Instruction.length_lt_of_read? first
    rw [tail_of_read? first] at whole
    rw [parse_of_read?_some (Instruction.read?_append first more), parse_append whole more,
      instructions_of_read? first]
    rfl
termination_by script.length

/-- Behind a script that is parsed whole, parsing starts afresh. -/
theorem instructions_append (whole : tail script = []) :
    instructions (script ++ more) = instructions script ++ instructions more := by
  rw [instructions, parse_append whole]

theorem tail_append (whole : tail script = []) : tail (script ++ more) = tail more := by
  rw [tail, parse_append whole]

/-- A push is one instruction. -/
theorem parse_pushData (short : data.length < 2 ^ 32) :
    parse (pushData data) = ([.push data], []) := by
  have first : Instruction.read? (pushData data) = some (.push data, []) := by
    rw [← List.append_nil (pushData data), pushData,
      Instruction.read?_bytes (Instruction.fits_push short)]
  rw [parse_of_read?_some first, parse_of_read?_none rfl]

/-- Up to 75 bytes are pushed behind a single byte. -/
theorem pushData_of_length_lt (short : data.length < 0x4c) :
    pushData data = UInt8.ofNat data.length :: data := by
  have direct : Instruction.lengthBytes (Opcode.forLength data.length) data.length = [] := by
    rw [Instruction.lengthBytes, Opcode.pushLength?_forLength, if_pos short]
  have opcode : Opcode.forLength data.length = UInt8.ofNat data.length := if_pos short
  rw [opcode] at direct
  rw [pushData, Instruction.push, opcode, Instruction.bytes]
  dsimp only
  rw [direct, List.nil_append]

/-- A push is its data behind five bytes at most. -/
theorem length_pushData_le (data : Bytes) : (pushData data).length ≤ data.length + 5 := by
  have stated :
      (Instruction.lengthBytes (Opcode.forLength data.length) data.length).length ≤ 4 := by
    rw [Instruction.lengthBytes, Opcode.pushLength?_forLength]
    split_ifs <;> simp
  rw [pushData, Instruction.bytes, Instruction.push]
  dsimp only
  rw [List.length_cons, List.length_append]
  omega

/-- A push adds one instruction to a script. -/
theorem instructions_append_pushData (whole : tail script = []) (short : data.length < 2 ^ 32) :
    instructions (script ++ pushData data) = instructions script ++ [.push data] := by
  rw [instructions_append whole, instructions, instructions, parse_pushData short]

theorem isPushOnly_iff : isPushOnly script = true ↔
    tail script = [] ∧ (instructions script).all Instruction.isPush = true := by
  rw [isPushOnly, Bool.and_eq_true, List.isEmpty_iff]

theorem isPushOnly_nil : isPushOnly [] = true := by
  refine isPushOnly_iff.2 ⟨?_, ?_⟩
  · rw [tail, parse_of_read?_none rfl]
  · rw [instructions_nil]
    rfl

/-- A script of pushes and a push are a script of pushes. -/
theorem isPushOnly_append_pushData (push : isPushOnly script = true)
    (short : data.length < 2 ^ 32) :
    isPushOnly (script ++ pushData data) = true := by
  obtain ⟨whole, pushes⟩ := isPushOnly_iff.1 push
  have last : Instruction.isPush (.push data) = true := Opcode.isPush_forLength data.length
  refine isPushOnly_iff.2 ⟨?_, ?_⟩
  · rw [tail_append whole, tail, parse_pushData short]
  · rw [instructions_append_pushData whole short, List.all_append, pushes, List.all_cons, last]
    rfl

/-- For several bytes, an opcode is the shortest way to push them if it can state their number and
no shorter one can. -/
theorem isMinimalPush_of_two_le {op : UInt8} (several : 2 ≤ data.length) :
    isMinimalPush op data =
      if data.length ≤ 75 then op.toNat == data.length
      else if data.length ≤ 255 then op == Opcode.pushData1
      else if data.length ≤ 65535 then op == Opcode.pushData2
      else true := by
  match data with
  | a :: b :: data => rfl

/-- The opcode for a push is the shortest one, unless the data are a number with an opcode of its
own. -/
theorem isMinimalPush_forLength
    (plain : ∀ b, data = [b] → ¬(1 ≤ b ∧ b ≤ 16) ∧ b ≠ 0x81) :
    isMinimalPush (Opcode.forLength data.length) data = true := by
  match data with
  | [] => rfl
  | [b] =>
    obtain ⟨number, negative⟩ := plain b rfl
    have number : (1 ≤ b && b ≤ 16) = false := by
      rw [Bool.and_eq_false_iff, decide_eq_false_iff_not, decide_eq_false_iff_not, ← not_and_or]
      exact number
    rw [isMinimalPush, number, bne_iff_ne.2 negative]
    rfl
  | a :: b :: data =>
    have several : 2 ≤ (a :: b :: data).length := Nat.le_add_left 2 data.length
    rw [isMinimalPush_of_two_le several, Opcode.forLength]
    generalize (a :: b :: data).length = count
    by_cases direct : count < 0x4c
    · rw [if_pos (by omega), if_pos direct, beq_iff_eq, UInt8.toNat_ofNat']
      omega
    · rw [if_neg (by omega), if_neg direct]
      split
      next => rfl
      next => split <;> rfl

/-- So it is if there are no data or several bytes of them. -/
theorem isMinimalPush_of_length_ne_one (several : data.length ≠ 1) :
    isMinimalPush (Opcode.forLength data.length) data = true := by
  refine isMinimalPush_forLength fun b single => absurd ?_ several
  rw [single, List.length_singleton]

end Script

end BlockRules
