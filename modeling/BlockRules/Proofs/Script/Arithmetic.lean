import Mathlib
import BlockRules.Proofs.Script.Numbers
import BlockRules.Proofs.Script.Pushes
import BlockRules.Proofs.Script.Soundness
import BlockRules.Proofs.Script.SignMagnitude

/-!
# Calculations are exact

The opcodes that calculate read up to three operands off the stack, as numbers of at most four
bytes, and leave one item. What they should give is a function on the integers, and this module says
that they give it, whatever the operands are: no result leaves the word it is calculated in, and
none is cut to the four bytes of an operand.

* `Calculates` — the functions, opcode by opcode, with the operands from the deepest one to the
  top. A result takes at most one byte more than the operands (`Calculates.natAbs_le`);
* **one family at a time** — an operation with one, two or three operands fails if one of them is
  rejected, and replaces them otherwise (`Machine.unary_eq_ite`, `Machine.binary_eq_ite`,
  `Machine.within_eq_ite`);
* `Machine.perform_of_calculates` — the opcodes are these operations. The result is written in its
  one minimal form (`ScriptNum.encode_value`), and `Machine.numeric_opcodes_exact` says so of a
  whole step.
-/

namespace BlockRules

/-- A truth value as a number. -/
def truthNumber (p : Prop) [Decidable p] : Int := if p then 1 else 0

theorem natAbs_truthNumber_le (p : Prop) [Decidable p] : (truthNumber p).natAbs ≤ 1 := by
  rw [truthNumber]
  split <;> decide

/-- What the opcodes that calculate give for their operands, as functions on the integers. The
operands are listed from the deepest one to the top. -/
inductive Calculates : UInt8 → List Int → Int → Prop
  /-- `OP_1ADD` -/
  | increment (n : Int) : Calculates 0x8b [n] (n + 1)
  /-- `OP_1SUB` -/
  | decrement (n : Int) : Calculates 0x8c [n] (n - 1)
  /-- `OP_NEGATE` -/
  | negate (n : Int) : Calculates 0x8f [n] (-n)
  /-- `OP_ABS` -/
  | abs (n : Int) : Calculates 0x90 [n] |n|
  /-- `OP_NOT` -/
  | not (n : Int) : Calculates 0x91 [n] (truthNumber (n = 0))
  /-- `OP_0NOTEQUAL` -/
  | notZero (n : Int) : Calculates 0x92 [n] (truthNumber (n ≠ 0))
  /-- `OP_ADD` -/
  | add (a b : Int) : Calculates 0x93 [a, b] (a + b)
  /-- `OP_SUB` -/
  | sub (a b : Int) : Calculates 0x94 [a, b] (a - b)
  /-- `OP_BOOLAND` -/
  | and (a b : Int) : Calculates 0x9a [a, b] (truthNumber (a ≠ 0 ∧ b ≠ 0))
  /-- `OP_BOOLOR` -/
  | or (a b : Int) : Calculates 0x9b [a, b] (truthNumber (a ≠ 0 ∨ b ≠ 0))
  /-- `OP_NUMEQUAL` -/
  | equal (a b : Int) : Calculates 0x9c [a, b] (truthNumber (a = b))
  /-- `OP_NUMNOTEQUAL` -/
  | notEqual (a b : Int) : Calculates 0x9e [a, b] (truthNumber (a ≠ b))
  /-- `OP_LESSTHAN` -/
  | less (a b : Int) : Calculates 0x9f [a, b] (truthNumber (a < b))
  /-- `OP_GREATERTHAN` -/
  | greater (a b : Int) : Calculates 0xa0 [a, b] (truthNumber (a > b))
  /-- `OP_LESSTHANOREQUAL` -/
  | lessOrEqual (a b : Int) : Calculates 0xa1 [a, b] (truthNumber (a ≤ b))
  /-- `OP_GREATERTHANOREQUAL` -/
  | greaterOrEqual (a b : Int) : Calculates 0xa2 [a, b] (truthNumber (a ≥ b))
  /-- `OP_MIN` -/
  | min (a b : Int) : Calculates 0xa3 [a, b] (min a b)
  /-- `OP_MAX` -/
  | max (a b : Int) : Calculates 0xa4 [a, b] (max a b)
  /-- `OP_WITHIN` -/
  | within (x low high : Int) :
    Calculates 0xa5 [x, low, high] (truthNumber (low ≤ x ∧ x < high))

namespace Calculates

variable {op : UInt8} {operands : List Int} {result : Int}

/-- A calculation with numbers of four bytes gives no number of more than five. -/
theorem natAbs_le (calculates : Calculates op operands result)
    (small : ∀ n ∈ operands, n.natAbs < 2 ^ 31) :
    result.natAbs ≤ 2 ^ 32 := by
  have truth : ∀ (p : Prop) [Decidable p], (truthNumber p).natAbs ≤ 2 ^ 32 := fun p _ =>
    (natAbs_truthNumber_le p).trans (by norm_num)
  cases calculates <;> simp only [List.forall_mem_cons, List.not_mem_nil, false_implies,
    implies_true, and_true] at small
  case increment | decrement | negate => omega
  case abs n =>
    rw [Int.natAbs_abs]
    omega
  case add | sub | min | max => omega
  all_goals exact truth _

theorem isDisabled (calculates : Calculates op operands result) : Opcode.isDisabled op = false := by
  cases calculates <;> decide

end Calculates

/-- An operand of a calculation is rejected for its length, or for a byte that it does not need. -/
theorem Operand.not_isRejected_ofItem_iff {flags : Flags} {item : Bytes} :
    ¬IsRejected flags (.ofItem item) ↔
      item.length ≤ 4 ∧
      (flags.has .minimalData = true → ScriptNum.isMinimal item = true) := by
  rw [IsRejected, not_or, not_and, Bool.not_eq_false]
  exact and_congr_left' Nat.not_lt

namespace Machine

variable {env : Env} {m : Machine} {a b c : Bytes} {rest : List Bytes}

/-- A calculation with one operand. -/
theorem unary_eq_ite (f : Unary) (items : m.stack = a :: rest) :
    m.unary env f =
      if Operand.IsRejected env.flags (.ofItem a) then m.fail .unknownError
      else .running { m with stack := ScriptNum.encode (f.apply (ScriptNum.value a)) :: rest } := by
  simp only [unary, items]
  by_cases bad : Operand.IsRejected env.flags (.ofItem a)
  · rw [Flags.readNumber_of_rejected bad, if_pos bad]
    rfl
  rw [Flags.readNumber_of_accepted (by decide) bad, if_neg bad]
  dsimp only
  rw [f.signed64_apply (natAbs_value_lt_of_accepted bad)]

/-- A calculation with two operands. -/
theorem binary_eq_ite (f : Binary) (items : m.stack = b :: a :: rest) :
    m.binary env f false =
      if Operand.IsRejected env.flags (.ofItem a) ∨ Operand.IsRejected env.flags (.ofItem b) then
        m.fail .unknownError
      else .running { m with
        stack := ScriptNum.encode (f.apply (ScriptNum.value a) (ScriptNum.value b)) :: rest } := by
  simp only [binary, items]
  by_cases badA : Operand.IsRejected env.flags (.ofItem a)
  · rw [Flags.readNumber_of_rejected badA, if_pos (.inl badA)]
    rfl
  rw [Flags.readNumber_of_accepted (by decide) badA]
  dsimp only
  by_cases badB : Operand.IsRejected env.flags (.ofItem b)
  · rw [Flags.readNumber_of_rejected badB, if_pos (.inr badB)]
    rfl
  rw [Flags.readNumber_of_accepted (by decide) badB, if_neg (not_or.2 ⟨badA, badB⟩)]
  dsimp only
  rw [f.signed64_apply (natAbs_value_lt_of_accepted badA) (natAbs_value_lt_of_accepted badB)]
  rfl

/-- The one calculation with three operands. -/
theorem within_eq_ite (items : m.stack = c :: b :: a :: rest) :
    m.within env =
      if Operand.IsRejected env.flags (.ofItem a) ∨ Operand.IsRejected env.flags (.ofItem b) ∨
          Operand.IsRejected env.flags (.ofItem c) then m.fail .unknownError
      else .running { m with
        stack :=
          boolItem (ScriptNum.value b ≤ ScriptNum.value a &&
            ScriptNum.value a < ScriptNum.value c) :: rest } := by
  simp only [within, items]
  by_cases badA : Operand.IsRejected env.flags (.ofItem a)
  · rw [Flags.readNumber_of_rejected badA, if_pos (.inl badA)]
    rfl
  rw [Flags.readNumber_of_accepted (by decide) badA]
  dsimp only
  by_cases badB : Operand.IsRejected env.flags (.ofItem b)
  · rw [Flags.readNumber_of_rejected badB, if_pos (.inr (.inl badB))]
    rfl
  rw [Flags.readNumber_of_accepted (by decide) badB]
  dsimp only
  by_cases badC : Operand.IsRejected env.flags (.ofItem c)
  · rw [Flags.readNumber_of_rejected badC, if_pos (.inr (.inr badC))]
    rfl
  rw [Flags.readNumber_of_accepted (by decide) badC,
    if_neg (not_or.2 ⟨badA, not_or.2 ⟨badB, badC⟩⟩)]
  rfl

/-- A truth value is the encoding of 1 or 0. -/
theorem boolItem_eq (p : Prop) [Decidable p] :
    boolItem (decide p) = ScriptNum.encode (truthNumber p) := by
  rw [truthNumber]
  split
  next yes =>
    rw [decide_eq_true yes]
    decide
  next no =>
    rw [decide_eq_false no]
    rfl

/-- What an opcode that calculates does to its operands. -/
theorem perform_of_calculates {op : UInt8} {items : List Bytes} {r : Int}
    (calculates : Calculates op (items.map ScriptNum.value) r)
    (stack : m.stack = items.reverse ++ rest) :
    m.perform env (.ofOpcode op) =
      if ∃ item ∈ items, Operand.IsRejected env.flags (.ofItem item) then m.fail .unknownError
      else .running { m with stack := ScriptNum.encode r :: rest } := by
  -- by the number of operands, as each number has one lemma for all of its opcodes
  rcases items with _ | ⟨a, _ | ⟨b, _ | ⟨c, _ | ⟨d, items⟩⟩⟩⟩
  · cases calculates
  · have one : ∀ f : Unary, m.perform env (.unary f) = _ := fun f => unary_eq_ite f stack
    simp only [List.mem_singleton, exists_eq_left]
    cases calculates
    case increment => exact one .increment
    case decrement => exact one .decrement
    case negate => exact one .negate
    case abs =>
      rw [← Int.natCast_natAbs]
      exact one .abs
    case not => exact one .isZero
    case notZero => exact one .isNonzero
  · have two : ∀ f : Binary, m.perform env (.binary f false) = _ :=
      fun f => binary_eq_ite f stack
    simp only [List.mem_cons, List.not_mem_nil, or_false, exists_eq_or_imp, exists_eq_left]
    cases calculates
    case add => exact two .add
    case sub => exact two .sub
    case and => exact two .boolAnd
    case or => exact two .boolOr
    case equal => exact two .equal
    case notEqual => exact two .notEqual
    case less => exact two .less
    case greater => exact two .greater
    case lessOrEqual => exact two .lessOrEqual
    case greaterOrEqual => exact two .greaterOrEqual
    case min => exact two .min
    case max => exact two .max
  · simp only [List.mem_cons, List.not_mem_nil, or_false, exists_eq_or_imp, exists_eq_left]
    cases calculates
    rw [← boolItem_eq, Bool.decide_and]
    exact within_eq_ite stack
  · cases calculates

/-- **Calculations are exact.** Take any branch that is executed, with operations left to count, and
on top of the stack the operands of an opcode that calculates.

* If each of them has at most four bytes, and is minimal where flags ask for it, they are replaced
  by one item of at most five bytes: the minimal one that stands for what the integers give. Nothing
  else changes but the counts, and a stack that was not too large runs on.
* Otherwise the script fails with `unknownError`, and nothing has changed but the counts. -/
theorem numeric_opcodes_exact {op : UInt8} {items : List Bytes} {r : Int}
    (executing : m.executing = true) (few : m.opCount < Limit.operations)
    (stack : m.stack = items.reverse ++ rest)
    (calculates : Calculates op (items.map ScriptNum.value) r) :
    let i : Instruction := ⟨op, none⟩
    let accepted := ∀ item ∈ items,
      item.length ≤ 4 ∧ (env.flags.has .minimalData = true → ScriptNum.isMinimal item = true)
    (accepted → ∃ result,
      (result.length ≤ 5 ∧ ScriptNum.isMinimal result = true ∧ ScriptNum.value result = r) ∧
      m.step env i = checkStackSize (.running { m.count i with stack := result :: rest }) ∧
      (m.stack.length + m.alt.length ≤ Limit.stackItems →
        m.step env i = .running { m.count i with stack := result :: rest })) ∧
    (¬accepted → m.step env i = (m.count i).fail .unknownError) := by
  intro i accepted
  have performed : m.step env i = checkStackSize
    (if ∃ item ∈ items, Operand.IsRejected env.flags (.ofItem item)
      then (m.count i).fail .unknownError
      else .running { m.count i with stack := ScriptNum.encode r :: rest }) :=
    (step_eq_perform (i := i) rfl executing few calculates.isDisabled).trans
      (congrArg checkStackSize (perform_of_calculates calculates stack))
  have acceptedIff : accepted ↔
      ¬∃ item ∈ items, Operand.IsRejected env.flags (.ofItem item) := by
    rw [not_exists]
    refine forall_congr' fun item => ?_
    rw [not_and, Operand.not_isRejected_ofItem_iff]
  rw [performed]
  constructor
  · intro fine
    -- operands of four bytes give at most twice as much, which fits five
    have small : ∀ n ∈ items.map ScriptNum.value, n.natAbs < 2 ^ 31 := by
      intro n read
      obtain ⟨item, member, rfl⟩ := List.mem_map.1 read
      exact ScriptNum.natAbs_value_lt_of_short (fine item member).1
    have size := calculates.natAbs_le small
    rw [if_neg (acceptedIff.1 fine)]
    have short : (ScriptNum.encode r).length ≤ 5 := ScriptNum.length_encode_le_iff.2 (by omega)
    refine ⟨ScriptNum.encode r,
      ⟨short, ScriptNum.isMinimal_encode r, ScriptNum.value_encode r⟩, rfl, fun room => ?_⟩
    -- at least one operand is taken off for the result, so the stack does not grow
    have operands : items ≠ [] := by
      rintro rfl
      cases calculates
    have fewer : rest.length + 1 ≤ m.stack.length := by
      have some := List.length_pos_iff.2 operands
      rw [stack, List.length_append, List.length_reverse]
      omega
    rw [checkStackSize, if_neg (Nat.not_lt.2 ?_)]
    change rest.length + 1 + m.alt.length ≤ Limit.stackItems
    omega
  · intro refused
    rw [if_pos (not_not.1 (mt acceptedIff.2 refused))]
    rfl

/-- The difference of the least and the greatest number of four bytes takes five, and a number of
five bytes is no operand. -/
theorem difference_takes_five_bytes :
    let env : Env := ⟨.single .minimalData, .listed [] false false none none, .legacy, [0x94]⟩
    let m : Machine := { stack := [[0xff, 0xff, 0xff, 0x7f], [0xff, 0xff, 0xff, 0xff], [0x07]] }
    let m' : Machine := { stack := [[0x01], [0x00, 0x00, 0x00, 0x00, 0x01], [0x07]] }
    m.executing = true ∧ m.opCount < Limit.operations ∧
      m'.executing = true ∧ m'.opCount < Limit.operations ∧
      Calculates 0x94 [-0x7fffffff, 0x7fffffff] (-0xfffffffe) ∧
      Calculates 0x94 [0x100000000, 1] 0xffffffff ∧
      m.step env ⟨0x94, none⟩ = .running
        { m.count ⟨0x94, none⟩ with stack := [[0xfe, 0xff, 0xff, 0xff, 0x80], [0x07]] } ∧
      m'.step env ⟨0x94, none⟩ = (m'.count ⟨0x94, none⟩).fail .unknownError := by
  intro env m m'
  have fits : Calculates 0x94 [-0x7fffffff, 0x7fffffff] (-0xfffffffe) := .sub _ _
  have wide : Calculates 0x94 [0x100000000, 1] 0xffffffff := .sub _ _
  obtain ⟨result, ⟨-, minimal, value⟩, -, runs⟩ :=
    (@numeric_opcodes_exact env m [[0x07]] 0x94
    [[0xff, 0xff, 0xff, 0xff], [0xff, 0xff, 0xff, 0x7f]] _ rfl (by decide) rfl fits).1 (by decide)
  have fails := (@numeric_opcodes_exact env m' [[0x07]] 0x94
    [[0x00, 0x00, 0x00, 0x00, 0x01], [0x01]] _ rfl (by decide) rfl wide).2 (by decide)
  have written : ScriptNum.encode (-0xfffffffe) = [0xfe, 0xff, 0xff, 0xff, 0x80] := by
    decide +kernel
  obtain rfl : result = [0xfe, 0xff, 0xff, 0xff, 0x80] :=
    (ScriptNum.encode_value minimal).symm.trans ((congrArg ScriptNum.encode value).trans written)
  exact ⟨rfl, by decide, rfl, by decide, fits, wide, runs (by decide), fails⟩

end Machine

end BlockRules
