import Mathlib
import BlockRules.Proofs.Script.Pushes
import BlockRules.Script.Verify
import BlockRules.Wide.Lemmas

/-!
# Outputs that ask for a script by its hash

The shape that `Script.isPayToScriptHash` looks for, by four bytes at fixed places, is that of
`Script.payToScriptHash` and no other (`Script.isPayToScriptHash_iff`). Such a script compares
the hash of the top item with the one it holds (`Script.evaluate_payToScriptHash`), and is not
a witness program.
-/

namespace BlockRules.Script

theorem payToScriptHash_eq (hash : UInt160) :
    payToScriptHash hash = Opcode.hash160 :: 0x14 :: (hash.bytesLE ++ [Opcode.equal]) := by
  have length : hash.bytesLE.length = 20 := hash.length_bytesLE
  rw [payToScriptHash, pushData, Instruction.push, Instruction.bytes]
  simp only [length]
  rfl

/-- The shape is that of `payToScriptHash`. -/
theorem isPayToScriptHash_iff {script : Bytes} :
    isPayToScriptHash script = true ↔ ∃ hash, script = payToScriptHash hash := by
  constructor
  · intro shape
    rcases script with _ | ⟨a, _ | ⟨b, rest⟩⟩
    · simp [isPayToScriptHash] at shape
    · simp [isPayToScriptHash] at shape
    · simp only [isPayToScriptHash, List.length_cons, List.getElem?_cons_zero,
        List.getElem?_cons_succ, Bool.and_eq_true, beq_iff_eq, Option.some.injEq] at shape
      obtain ⟨⟨⟨long, rfl⟩, rfl⟩, last⟩ := shape
      have count : rest.length - 1 = 20 := by omega
      rw [← count, ← List.getLast?_eq_getElem?, List.getLast?_eq_some_iff] at last
      obtain ⟨front, rfl⟩ := last
      have twenty : front.length = 4 * 5 := by
        rw [List.length_append, List.length_singleton] at long
        omega
      refine ⟨Wide.ofBytesLE front, ?_⟩
      rw [payToScriptHash_eq, Wide.bytesLE_ofBytesLE twenty]
  · rintro ⟨hash, rfl⟩
    have length : hash.bytesLE.length = 20 := hash.length_bytesLE
    rw [payToScriptHash_eq, isPayToScriptHash]
    simp [length]

/-- A payment to a script hash is not a witness program itself. -/
theorem witnessProgram?_payToScriptHash (hash : UInt160) :
    witnessProgram? (payToScriptHash hash) = none := by
  have length : hash.bytesLE.length = 20 := hash.length_bytesLE
  rw [payToScriptHash_eq, witnessProgram?]
  simp [length]

theorem parse_payToScriptHash (hash : UInt160) : parse (payToScriptHash hash) =
    ([⟨Opcode.hash160, none⟩, ⟨0x14, some hash.bytesLE⟩, ⟨Opcode.equal, none⟩],
      []) := by
  have length : hash.bytesLE.length = 20 := hash.length_bytesLE
  have first : Instruction.read? (payToScriptHash hash) =
      some (⟨Opcode.hash160, none⟩, 0x14 :: (hash.bytesLE ++ [Opcode.equal])) := by
    rw [payToScriptHash_eq]
    rfl
  have second : Instruction.read? (0x14 :: (hash.bytesLE ++ [Opcode.equal])) =
      some (⟨0x14, some hash.bytesLE⟩, [Opcode.equal]) := by
    have direct : Opcode.pushLength? 0x14 = some (.direct 20) := by decide
    have taken : Bytes.split? 20 (hash.bytesLE ++ [Opcode.equal]) =
        some (hash.bytesLE, [Opcode.equal]) := Bytes.split?_eq_some_iff.2 ⟨length, rfl⟩
    rw [Instruction.read?]
    simp only [direct, taken]
  have third : Instruction.read? [Opcode.equal] = some (⟨Opcode.equal, none⟩, []) := rfl
  rw [parse_of_read?_some first, parse_of_read?_some second, parse_of_read?_some third,
    parse_of_read?_none rfl]

theorem instructions_payToScriptHash (hash : UInt160) :
    instructions (payToScriptHash hash) =
      [⟨Opcode.hash160, none⟩, ⟨0x14, some hash.bytesLE⟩, ⟨Opcode.equal, none⟩] := by
  rw [instructions, parse_payToScriptHash]

/-- An output script of this shape puts in the place of the top item whether the hash of that item
is the one it holds, and asks nothing. -/
theorem evaluate_payToScriptHash {flags : Flags} {checker : Checker} {version : SigVersion}
    {hash : UInt160} {stack : Stack Bytes} {journal : Journal} {m : Machine}
    (ran : evaluate flags checker version (payToScriptHash hash) stack journal = .running m) :
    ∃ item below, stack = item :: below ∧
      m.stack = boolItem ((hash160 item).bytesLE == hash.bytesLE) :: below ∧
      m.journal = journal := by
  obtain ⟨steps, -, -⟩ := evaluate_inv ran
  rw [instructions_payToScriptHash] at steps
  obtain ⟨hashed, first, steps⟩ := Machine.run_cons_inv steps
  have first := Machine.step_operation rfl rfl first
  rcases stack with _ | ⟨item, below⟩
  · cases first
  · obtain rfl := Outcome.running.inj first
    obtain ⟨pushed, second, steps⟩ := Machine.run_cons_inv steps
    obtain ⟨data, own, rfl⟩ := Machine.step_push rfl rfl second
    obtain rfl := Option.some.inj own
    obtain ⟨compared, third, steps⟩ := Machine.run_cons_inv steps
    have third := Machine.step_operation rfl rfl third
    obtain rfl := Outcome.running.inj third
    obtain rfl := Outcome.running.inj steps
    exact ⟨item, below, rfl, rfl, rfl⟩

/-- It runs through on any item, if there is room for the hash beside it. -/
theorem evaluate_payToScriptHash_of_room {flags : Flags} {checker : Checker} {version : SigVersion}
    {hash : UInt160} {item : Bytes} {below : Stack Bytes} {journal : Journal}
    (room : below.length + 2 ≤ Limit.stackItems) :
    ∃ m, evaluate flags checker version (payToScriptHash hash) (item :: below) journal =
      .running m := by
  have length : hash.bytesLE.length = 20 := hash.length_bytesLE
  have size : (payToScriptHash hash).length ≤ Limit.scriptSize := by
    rw [payToScriptHash_eq, List.length_cons, List.length_cons, List.length_append, length]
    decide
  have minimal : isMinimalPush (Opcode.forLength hash.bytesLE.length) hash.bytesLE = true :=
    isMinimalPush_of_length_ne_one (by omega)
  have data : Instruction.push hash.bytesLE = ⟨0x14, some hash.bytesLE⟩ := by
    rw [Instruction.push, length]
    rfl
  let env : Env := { flags, checker, version, script := payToScriptHash hash }
  -- the three instructions one by one; only the pushed hash takes up more room
  let start : Machine := { stack := item :: below, journal }
  let hashed : Machine :=
    { start.count ⟨Opcode.hash160, none⟩ with stack := (hash160 item).bytesLE :: below }
  let pushed : Machine := (hashed.count ⟨0x14, some hash.bytesLE⟩).push hash.bytesLE
  let compared : Machine :=
    { pushed.count ⟨Opcode.equal, none⟩ with
      stack := boolItem ((hash160 item).bytesLE == hash.bytesLE) :: below }
  have first : start.step env ⟨Opcode.hash160, none⟩ = .running hashed :=
    Machine.step_of_perform rfl rfl (show 0 < 201 by decide) rfl rfl (Nat.le_of_succ_le room)
  have second : hashed.step env ⟨0x14, some hash.bytesLE⟩ = .running pushed := by
    have short : hash.bytesLE.length ≤ Limit.pushSize := by
      rw [length]
      decide
    have stepped := @Machine.step_pushData env hashed _ short (fun _ => minimal) rfl room
    rw [data] at stepped
    exact stepped
  have third : pushed.step env ⟨Opcode.equal, none⟩ = .running compared :=
    Machine.step_of_perform rfl rfl (show 1 < 201 by decide) rfl rfl (Nat.le_of_succ_le room)
  have whole : tail (payToScriptHash hash) = [] := by rw [tail, parse_payToScriptHash]
  refine ⟨compared, evaluate_of_run size ?_ whole rfl⟩
  rw [instructions_payToScriptHash, Machine.run_cons_of_step first, Machine.run_cons_of_step second,
    Machine.run_singleton, third]

end BlockRules.Script
