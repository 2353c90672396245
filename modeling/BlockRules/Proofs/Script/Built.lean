import Mathlib
import BlockRules.Proofs.Script.Cuts
import BlockRules.Proofs.Script.PushForms
import BlockRules.Proofs.Script.SignMagnitude

/-!
# Scripts that are built

`Script.build` puts the bytes of its steps one behind the other and knows nothing of instructions.
Here they are read again.

* **a step** — `Script.Piece.Adds` says for every step which instruction it stands for, and for a
  number this depends on the number. The bytes of the step are those of the instruction
  (`Script.Piece.Adds.bytes_eq`), and they are read as this instruction unless the step is none that
  can be read (`Script.Piece.Sound`);
* **a number** — its instruction is the shortest one that pushes it
  (`Script.Piece.Adds.eq_shortest`), which an evaluation carries out whether or not it asks for the
  shortest one.

Hence building, reading and evaluating agree (`Script.built_read_back`).
-/

namespace BlockRules

/-- The shortest push is its item behind five bytes at most. -/
theorem Instruction.length_shortest_le (item : Bytes) :
    (shortest item).bytes.length ≤ item.length + 5 := by
  rcases shortest_cases item with ⟨op, form, -⟩ | ⟨form, -⟩ <;> rw [form]
  · exact Nat.le_add_left 1 (item.length + 4)
  · exact Script.length_pushData_le item

namespace Script

namespace Piece

variable {p : Piece} {i : Instruction} {v : Int}

/-- A step that can be read back: an opcode behind which no data are expected, a number of 64 bits,
or data whose length can be stated. -/
def Sound : Piece → Prop
  | .opcode op => op = 0 ∨ 0x4e < op
  | .number v => -2 ^ 63 ≤ v ∧ v < 2 ^ 63
  | .data bs => bs.length < 2 ^ 32

/-- The instruction that a step adds to a script. -/
inductive Adds : Piece → Instruction → Prop
  | operation {op : UInt8} : 0x4e < op → Adds (.opcode op) ⟨op, none⟩
  | empty : Adds (.opcode 0x00) ⟨0x00, some []⟩
  | data {bs : Bytes} : Adds (.data bs) (.push bs)
  | negativeOne : Adds (.number (-1)) ⟨0x4f, none⟩
  | zero : Adds (.number 0) ⟨0x00, some []⟩
  | small {n : Nat} : 1 ≤ n → n ≤ 16 → Adds (.number n) ⟨UInt8.ofNat (0x50 + n), none⟩
  | large {v : Int} : v < -1 ∨ 16 < v → Adds (.number v) (.push (ScriptNum.encode v))

theorem exists_adds (sound : p.Sound) : ∃ i, p.Adds i := by
  rcases p with op | v | bs
  · rcases sound with rfl | high
    · exact ⟨_, .empty⟩
    · exact ⟨_, .operation high⟩
  · by_cases low : v < -1
    · exact ⟨_, .large (.inl low)⟩
    by_cases high : 16 < v
    · exact ⟨_, .large (.inr high)⟩
    rcases v with n | n
    · rcases n with _ | n
      · exact ⟨_, .zero⟩
      · have few : n + 1 ≤ 16 := by
          rw [Int.ofNat_eq_natCast] at high
          omega
        exact ⟨_, .small (Nat.le_add_left 1 n) few⟩
    · obtain rfl : n = 0 := by omega
      exact ⟨_, .negativeOne⟩
  · exact ⟨_, .data⟩

/-- A number of 64 bits takes nine bytes at most. -/
theorem length_encode_le_of_sound (sound : (number v).Sound) :
    (ScriptNum.encode v).length ≤ 9 := by
  obtain ⟨low, high⟩ := sound
  exact ScriptNum.length_encode_le_iff.2 (by omega)

namespace Adds

/-- A step is written as the instruction that it adds. -/
theorem bytes_eq (adds : p.Adds i) : p.bytes = i.bytes := by
  cases adds with
  | operation => rfl
  | empty => rfl
  | data => rfl
  | negativeOne => rfl
  | zero => rfl
  | small one few =>
    rw [Piece.bytes, pushInt, if_neg (by omega), if_pos (by omega), Int.toNat_natCast,
      Opcode.ofSmallInt, if_neg (by omega)]
    rfl
  | large other => rw [Piece.bytes, pushInt, if_neg (by omega), if_neg (by omega), pushData]

theorem fits (adds : p.Adds i) (sound : p.Sound) : i.Fits := by
  cases adds with
  | operation high => exact Opcode.pushLength?_eq_none_iff.2 high
  | empty => exact .inl rfl
  | data => exact Instruction.fits_push sound
  | negativeOne => rfl
  | zero => exact .inl rfl
  | @small n one few =>
    have value : (UInt8.ofNat (0x50 + n)).toNat = 0x50 + n :=
      UInt8.toNat_ofNat_of_lt' (by rw [UInt8.size]; omega)
    refine Opcode.pushLength?_eq_none_iff.2 ?_
    rw [UInt8.lt_iff_toNat_lt, value]
    exact Nat.lt_add_right n (by decide)
  | large => exact Instruction.fits_push ((length_encode_le_of_sound sound).trans_lt (by decide))

/-- A number is pushed in the shortest form there is. -/
theorem eq_shortest (adds : (number v).Adds i) : i = .shortest (ScriptNum.encode v) := by
  cases adds with
  | negativeOne => decide +kernel
  | zero => decide +kernel
  | @small n one few =>
    have each : ∀ n < 17, 1 ≤ n →
        (⟨UInt8.ofNat (0x50 + n), none⟩ : Instruction) = .shortest (ScriptNum.encode n) := by
          decide +kernel
    exact each n (by omega) one
  | large other =>
    have value := ScriptNum.value_encode v
    rcases written : ScriptNum.encode v with _ | ⟨b, _ | ⟨c, rest⟩⟩
    · rfl
    · -- the bytes that have an opcode of their own stand for numbers that have one
      have small : ∀ b : UInt8, 1 ≤ b ∧ b ≤ 16 → 1 ≤ ScriptNum.value [b] ∧
          ScriptNum.value [b] ≤ 16 := by
        decide +kernel
      have negative : ScriptNum.value [0x81] = -1 := by decide +kernel
      rw [written] at value
      rw [Instruction.shortest, if_neg, if_neg]
      · rintro rfl
        omega
      · intro number
        have range := small b number
        omega
    · rfl

end Adds

end Piece

variable {pieces : List Piece} {is : List Instruction} {v : Int}

/-- A script is the bytes of the instructions that its steps add. -/
theorem build_eq_bytes (adds : List.Forall₂ Piece.Adds pieces is) : build pieces = bytes is := by
  induction adds with
  | nil => rfl
  | cons first _ ih =>
    rw [build] at ih ⊢
    rw [List.flatMap_cons, ih, first.bytes_eq, bytes_cons]

/-- Every step adds an instruction that can be read. -/
theorem exists_adds (sound : ∀ p ∈ pieces, p.Sound) :
    ∃ is : List Instruction, List.Forall₂ Piece.Adds pieces is ∧ ∀ i ∈ is, i.Fits := by
  induction pieces with
  | nil => exact ⟨[], .nil, by simp⟩
  | cons p pieces ih =>
    rw [List.forall_mem_cons] at sound
    obtain ⟨i, adds⟩ := Piece.exists_adds sound.1
    obtain ⟨is, rest, fits⟩ := ih sound.2
    exact ⟨i :: is, .cons adds rest, List.forall_mem_cons.2 ⟨adds.fits sound.1, fits⟩⟩

/-- The script of one number leaves that number, in its shortest form. -/
theorem evaluate_number (sound : (Piece.number v).Sound) (flags : Flags) (checker : Checker)
    (version : SigVersion) (journal : Journal) :
    ∃ m, evaluate flags checker version (build [.number v]) [] journal = .running m ∧
      m.stack = [ScriptNum.encode v] ∧ m.journal = journal := by
  obtain ⟨i, adds⟩ := Piece.exists_adds sound
  have short := Piece.length_encode_le_of_sound sound
  have built : build [.number v] = bytes ([ScriptNum.encode v].map .shortest) := by
    rw [build_eq_bytes (.cons adds .nil), adds.eq_shortest]
    rfl
  have limit : ∀ item ∈ [ScriptNum.encode v], item.length ≤ Limit.pushSize := by
    rw [List.forall_mem_singleton]
    exact short.trans (by decide)
  have size : (bytes ([ScriptNum.encode v].map .shortest)).length ≤ Limit.scriptSize := by
    have length := Instruction.length_shortest_le (ScriptNum.encode v)
    have single :
        bytes ([ScriptNum.encode v].map .shortest) =
          (Instruction.shortest (ScriptNum.encode v)).bytes :=
      List.append_nil _
    rw [single]
    exact (length.trans (Nat.add_le_add_right short 5)).trans (by decide)
  have room : ([] : Stack Bytes).length + [ScriptNum.encode v].length ≤ Limit.stackItems := by
    rw [List.length_nil, List.length_singleton]
    decide
  obtain ⟨push, m, ran, left⟩ :=
    @evaluate_of_shortest flags checker version [] journal _ limit size room
  rw [← built] at ran push
  obtain ⟨-, -, -, asked⟩ := evaluate_pushes push ran
  exact ⟨m, ran, left, asked⟩

/-- **Building, reading and evaluating agree.** A script is read as one instruction for each of the
steps that it is built in, in their order: the opcode of a step, its data, or the instruction for
its number. Under all flags, the script of one number of 64 bits is evaluated to the number in its
shortest form. -/
theorem built_read_back (sound : ∀ p ∈ pieces, p.Sound) :
    (∃ is, parse (build pieces) = (is, []) ∧ List.Forall₂ Piece.Adds pieces is) ∧
    ∀ v : Int, -2 ^ 63 ≤ v → v < 2 ^ 63 → ∀ flags checker version journal,
      ∃ m, evaluate flags checker version (build [.number v]) [] journal = .running m ∧
        m.stack = [ScriptNum.encode v] ∧ m.journal = journal := by
  constructor
  · obtain ⟨is, adds, fits⟩ := exists_adds sound
    have parsed := @parse_bytes_append [] is fits rfl
    rw [List.append_nil, ← build_eq_bytes adds] at parsed
    exact ⟨is, parsed, adds⟩
  · intro v low high flags checker version journal
    exact evaluate_number ⟨low, high⟩ flags checker version journal

/-- Data of 76 bytes, the opcode of the empty push, and the numbers on both sides of those that have
an opcode of their own are six instructions; and the least number of 64 bits is evaluated to nine
bytes. -/
theorem numbers_built_and_read :
    let pieces : List Piece :=
      [.data (List.replicate 76 7), .opcode 0x00, .number (-2), .number (-1),
        .number 16, .number 17]
    (∀ p ∈ pieces, p.Sound) ∧
      (∃ is, parse (build pieces) = (is, []) ∧ List.Forall₂ Piece.Adds pieces is ∧
        is.length = 6) ∧
      ∃ m, evaluate (.single .minimalData) .base .legacy (build [.number (-2 ^ 63)]) [] {} =
        .running m ∧
        m.stack = [[0, 0, 0, 0, 0, 0, 0, 0x80, 0x80]] := by
  intro pieces
  have sound : ∀ p ∈ pieces, p.Sound := by simp [pieces, Piece.Sound]
  obtain ⟨⟨is, parsed, adds⟩, numbers⟩ := built_read_back sound
  obtain ⟨m, ran, left, -⟩ :=
    numbers (-2 ^ 63) le_rfl (by decide) (.single .minimalData) .base .legacy {}
  have written : ScriptNum.encode (-2 ^ 63) = [0, 0, 0, 0, 0, 0, 0, 0x80, 0x80] := by decide +kernel
  rw [written] at left
  exact ⟨sound, ⟨is, parsed, adds, adds.length_eq.symm⟩, m, ran, left⟩

end Script

end BlockRules
