import Mathlib
import BlockRules.Proofs.Script.Deletion
import BlockRules.Script.Error

/-!
# The one cut of a script

Every rule about scripts looks at instructions, and a script is only bytes. This module says that
there is no choice in between: a script can be cut into instructions in one way, and a reader that
moves over it finds that way.

* `Instruction.Written` — the three forms in which instructions are written, by ranges of opcodes;
* `Script.CutShort` — the bytes at which no instruction can be read are the beginnings of pushes,
  and nothing else (`Script.cutShort_iff`);
* `Script.Cut` — instructions that stand one behind the other in a script, from one offset up to
  another. A cut is the front part of what is parsed where it starts (`Script.Cut.parse_eq`), so two
  of them differ only in where they stop;
* `Script.Reader` — a place in a script that moves on by one instruction at a time, and fails
  where none can be read. What it comes to is what `Script.parse` finds from its place on
  (`Script.Reader.results_eq`).

`Script.cut_uniquely` puts these together.
-/

namespace BlockRules

/-! ## How an instruction is written -/

namespace Opcode

variable {op : UInt8} {count width : Nat}

theorem pushLength?_eq_none_iff : ∀ {op : UInt8}, pushLength? op = none ↔ 0x4e < op := by
  decide +kernel

theorem pushLength?_eq_direct_iff : pushLength? op = some (.direct count) ↔
    op ≤ 0x4b ∧ count = op.toNat := by
  have low : op < pushData1 ↔ op ≤ 0x4b := by
    rw [UInt8.lt_iff_toNat_lt, UInt8.le_iff_toNat_le]
    exact Nat.lt_succ_iff
  rw [pushLength?, ← low]
  by_cases direct : op < pushData1
  · simp [direct, eq_comm]
  · rw [if_neg direct]
    split_ifs <;> simp [direct]

theorem pushLength?_eq_stated_iff :
    pushLength? op = some (.stated width) ↔
      (op, width) ∈ [(0x4c, 1), (0x4d, 2), (0x4e, 4)] := by
  rw [pushLength?, pushData1, pushData2, pushData4]
  split_ifs with direct one two four
  · have other : ∀ b : UInt8, 0x4c ≤ b → op ≠ b :=
      fun b high => UInt8.ne_of_lt (UInt8.lt_of_lt_of_le direct high)
    simp [other]
  all_goals simp_all [eq_comm]

end Opcode

namespace Instruction

variable {i : Instruction} {range : Bytes}

/-- The bytes that an instruction is written in: an opcode that pushes no data, an opcode that is
the number of the data behind it, or an opcode behind which this number stands in one, two or four
bytes. -/
inductive Written : Instruction → Bytes → Prop
  | operation {op : UInt8} : 0x4e < op → Written ⟨op, none⟩ [op]
  | direct {op : UInt8} {data : Bytes} :
    op ≤ 0x4b → data.length = op.toNat → Written ⟨op, some data⟩ (op :: data)
  | stated {op : UInt8} {count data : Bytes} :
    (op, count.length) ∈ [(0x4c, 1), (0x4d, 2), (0x4e, 4)] →
      data.length = Bytes.toNat count → Written ⟨op, some data⟩ (op :: (count ++ data))

/-- Instructions that fit are written as their bytes, and others are not written at all. -/
theorem written_iff : i.Written range ↔ i.Fits ∧ range = i.bytes := by
  constructor
  · rintro (high | ⟨low, long⟩ | ⟨marked, long⟩)
    · exact ⟨Opcode.pushLength?_eq_none_iff.2 high, rfl⟩
    · have kind := Opcode.pushLength?_eq_direct_iff.2 ⟨low, long⟩
      refine ⟨.inl kind, ?_⟩
      simp [bytes, lengthBytes, kind]
    · next op count data =>
      have kind := Opcode.pushLength?_eq_stated_iff.2 marked
      refine ⟨.inr ⟨_, kind, long ▸ Bytes.toNat_lt count⟩, ?_⟩
      simp [bytes, lengthBytes, kind, long, Bytes.ofNat_toNat]
  · rintro ⟨fits, rfl⟩
    rcases i with ⟨op, _ | data⟩
    · exact .operation (Opcode.pushLength?_eq_none_iff.1 fits)
    · rcases fits with kind | ⟨width, kind, short⟩ <;> dsimp only at kind
      · obtain ⟨low, long⟩ := Opcode.pushLength?_eq_direct_iff.1 kind
        have form : bytes ⟨op, some data⟩ = op :: data := by simp [bytes, lengthBytes, kind]
        exact form ▸ .direct low long
      · have form : bytes ⟨op, some data⟩ = op :: (Bytes.ofNat width data.length ++ data) := by
          simp [bytes, lengthBytes, kind]
        rw [form]
        refine .stated ?_ ?_
        · rw [Bytes.length_ofNat]
          exact Opcode.pushLength?_eq_stated_iff.1 kind
        · rw [Bytes.toNat_ofNat, Nat.mod_eq_of_lt short]

end Instruction

/-! ## A push that is cut short -/

/-- Bytes can be continued to any greater length. -/
theorem Bytes.exists_append {bs : Bytes} {size : Nat} (short : bs.length < size) :
    ∃ more : Bytes, more ≠ [] ∧ (bs ++ more).length = size := by
  refine ⟨List.replicate (size - bs.length) 0, ?_, ?_⟩
  · rw [ne_eq, List.replicate_eq_nil_iff]
    omega
  · rw [List.length_append, List.length_replicate]
    omega

namespace Script

/-- The bytes are the beginning of a push that goes on behind them. -/
def CutShort (bs : Bytes) : Prop :=
  bs ≠ [] ∧ ∃ (op : UInt8) (data more : Bytes), more ≠ [] ∧
    Instruction.Written ⟨op, some data⟩ (bs ++ more)

/-- Bytes at which no instruction can be read are the beginning of a push. -/
theorem cutShort_iff {bs : Bytes} : CutShort bs ↔ bs ≠ [] ∧ Instruction.read? bs = none := by
  refine and_congr_right fun occupied => ⟨?_, ?_⟩
  · rintro ⟨op, data, more, ne, written⟩
    obtain ⟨fits, form⟩ := Instruction.written_iff.1 written
    rcases read : Instruction.read? bs with _ | ⟨i, rest⟩
    · rfl
    · -- an instruction at the front would leave the rest of the push behind it
      have first := Instruction.read?_append read more
      have whole := Instruction.read?_bytes fits []
      rw [List.append_nil, ← form, first] at whole
      have behind := (Prod.mk.inj (Option.some.inj whole)).2
      exact absurd (List.append_eq_nil_iff.1 behind).2 ne
  · intro stuck
    obtain ⟨op, rest, rfl⟩ := List.exists_cons_of_ne_nil occupied
    rw [Instruction.read?] at stuck
    rcases kind : Opcode.pushLength? op with _ | count | width <;> simp only [kind] at stuck
    · cases stuck
    · obtain ⟨low, rfl⟩ := Opcode.pushLength?_eq_direct_iff.1 kind
      split at stuck
      next short =>
        obtain ⟨more, ne, long⟩ := Bytes.exists_append (Bytes.split?_eq_none_iff.1 short)
        exact ⟨op, rest ++ more, more, ne, .direct low long⟩
      next => cases stuck
    · have marked := Opcode.pushLength?_eq_stated_iff.1 kind
      split at stuck
      next short =>
        obtain ⟨more, ne, long⟩ := Bytes.exists_append (Bytes.split?_eq_none_iff.1 short)
        obtain ⟨data, filled⟩ : ∃ data : Bytes, data.length = Bytes.toNat (rest ++ more) :=
          ⟨List.replicate _ 0, List.length_replicate⟩
        have written := Instruction.Written.stated (long ▸ marked) filled
        rw [List.append_assoc] at written
        exact ⟨op, data, more ++ data,
          fun none' => ne (List.append_eq_nil_iff.1 none').1, written⟩
      next count behind counted =>
        obtain ⟨rfl, rfl⟩ := Bytes.split?_eq_some_iff.1 counted
        split at stuck
        next short =>
          obtain ⟨more, ne, long⟩ := Bytes.exists_append (Bytes.split?_eq_none_iff.1 short)
          have written := Instruction.Written.stated marked long
          rw [← List.append_assoc] at written
          exact ⟨op, behind ++ more, more, ne, written⟩
        next => cases stuck

/-- What is left behind the last instruction is cut short, unless it is empty. -/
theorem cutShort_tail_iff {s : Bytes} : CutShort (tail s) ↔ tail s ≠ [] := by
  rw [cutShort_iff, and_iff_left (read?_tail s)]

/-! ## Cuts -/

/-- Instructions that stand one behind the other in a script, each with the offset of its first
byte: the first one stands at a given offset, and behind the last one is another given offset. -/
inductive Cut (s : Bytes) : Nat → List (Nat × Instruction) → Nat → Prop
  | done {stop : Nat} : stop ≤ s.length → Cut s stop [] stop
  | next {first stop : Nat} {i : Instruction} {range : Bytes} {found : List (Nat × Instruction)} :
      i.Written range → range <+: s.drop first → Cut s (first + range.length) found stop →
      Cut s first ((first, i) :: found) stop

/-- The offset behind the last instruction of a script. -/
def stop (s : Bytes) : Nat := (bytes (instructions s)).length

variable {s : Bytes} {first last : Nat} {is js : List Instruction}
  {found : List (Nat × Instruction)}

theorem drop_stop (s : Bytes) : s.drop (stop s) = tail s := by
  calc
    s.drop (stop s) = (bytes (instructions s) ++ tail s).drop (stop s) := by rw [bytes_parse]
    _ = tail s := List.drop_left

theorem stop_add_length_tail (s : Bytes) : stop s + (tail s).length = s.length := by
  rw [stop, ← List.length_append, bytes_parse]

theorem bytes_cons (i : Instruction) (is : List Instruction) :
    bytes (i :: is) = i.bytes ++ bytes is :=
  List.flatMap_cons

/-- The second part of a script is placed where the first one ends. -/
theorem placed_append :
    placed first (is ++ js) = placed first is ++ placed (first + (bytes is).length) js := by
  induction is generalizing first with
  | nil => rfl
  | cons i is ih =>
    rw [List.cons_append, placed, ih, placed, bytes_cons, List.length_append, Nat.add_assoc]
    rfl

theorem map_snd_placed : (placed first is).map Prod.snd = is := by
  induction is generalizing first with
  | nil => rfl
  | cons i is ih => rw [placed, List.map_cons, ih]

/-- A cut is the front part of what is parsed where it starts. -/
theorem Cut.parse_eq (cut : Cut s first found last) :
    ∃ is, found = placed first is ∧ last = first + (bytes is).length ∧ last ≤ s.length ∧
      parse (s.drop first) = (is ++ instructions (s.drop last), tail (s.drop last)) := by
  induction cut with
  | done inside => exact ⟨[], rfl, rfl, inside, rfl⟩
  | @next first last i range found written there _ ih =>
    obtain ⟨fits, rfl⟩ := Instruction.written_iff.1 written
    obtain ⟨rest, here⟩ := there
    obtain ⟨is, rfl, rfl, inside, parsed⟩ := ih
    have read : Instruction.read? (s.drop first) = some (i, rest) :=
      here ▸ Instruction.read?_bytes fits rest
    have behind := drop_add_of_read?_drop read
    refine ⟨i :: is, rfl, ?_, inside, ?_⟩
    · rw [bytes_cons, List.length_append, Nat.add_assoc]
    · rw [parse_of_read?_some read, ← behind, parsed]
      rfl

/-- What is parsed from an offset on is a cut. -/
theorem cut_placed (s : Bytes) (first : Nat) (inside : first ≤ s.length) :
    Cut s first (placed first (instructions (s.drop first))) (first + stop (s.drop first)) := by
  match read : Instruction.read? (s.drop first) with
  | none =>
    rw [stop, instructions, parse_of_read?_none read]
    exact .done inside
  | some (i, rest) =>
    obtain ⟨_, inside'⟩ := add_le_of_read?_drop read
    have written := Instruction.written_iff.2 ⟨Instruction.fits_of_read? read, rfl⟩
    have cut := cut_placed s (first + i.bytes.length) inside'
    rw [drop_add_of_read?_drop read] at cut
    rw [stop, instructions_of_read? read, placed, bytes_cons, List.length_append, ← Nat.add_assoc]
    exact .next written ⟨rest, (Instruction.bytes_read? read).symm⟩ cut
termination_by s.length - first
decreasing_by
  have pos := List.length_pos_iff.2 i.bytes_ne_nil
  omega

/-! ## A reader -/

/-- A place in a script from which instructions are read. -/
structure Reader where
  script : Bytes
  /-- the offset behind the last instruction that was read -/
  position : Nat := 0
  /-- no instruction could be read -/
  failed : Bool := false

namespace Reader

/-- What a reader comes to next, and the reader behind it: an instruction with its offset or, once,
an error. -/
def next? (r : Reader) : Option (Except ScriptError (Nat × Instruction) × Reader) :=
  if r.failed ∨ r.script.length ≤ r.position then none
  else
    match Instruction.read? (r.script.drop r.position) with
    | some (i, _) => some (.ok (r.position, i), { r with position := r.position + i.bytes.length })
    | none => some (.error .badOpCode, { r with position := r.script.length, failed := true })

/-- Every step of the reader gets nearer to the end. -/
theorem remaining_lt_of_next? {r r' : Reader} {item : Except ScriptError (Nat × Instruction)}
    (read : r.next? = some (item, r')) :
    r'.script.length - r'.position < r.script.length - r.position := by
  rw [next?] at read
  split at read
  next => cases read
  next inside =>
    split at read <;> obtain ⟨-, rfl⟩ := Prod.mk.inj (Option.some.inj read) <;> dsimp only
    next i _ _ =>
      have pos := List.length_pos_iff.2 i.bytes_ne_nil
      omega
    next => omega

/-- All that a reader comes to. -/
def results (r : Reader) : List (Except ScriptError (Nat × Instruction)) :=
  match _h : r.next? with
  | none => []
  | some (result, r') => result :: r'.results
termination_by r.script.length - r.position
decreasing_by exact remaining_lt_of_next? _h

theorem results_of_next?_none {r : Reader} (read : r.next? = none) : r.results = [] := by
  rw [results]
  split
  next => rfl
  next other => cases read.symm.trans other

theorem results_of_next?_some {r r' : Reader} {result : Except ScriptError (Nat × Instruction)}
    (read : r.next? = some (result, r')) : r.results = result :: r'.results := by
  rw [results]
  split
  next other => cases read.symm.trans other
  next other =>
    obtain ⟨rfl, rfl⟩ := Prod.mk.inj (Option.some.inj (read.symm.trans other))
    rfl

theorem results_of_failed {r : Reader} (failed : r.failed = true) : r.results = [] :=
  results_of_next?_none (by rw [next?, if_pos (.inl failed)])

/-- A reader comes to what is parsed from its place on, and to an error if a push is cut short
there. -/
theorem results_eq (s : Bytes) (position : Nat) :
    results { script := s, position } =
      (placed position (instructions (s.drop position))).map .ok ++
      if tail (s.drop position) = [] then [] else [.error .badOpCode] := by
  by_cases inside : position < s.length
  · have on : ¬(false = true ∨ s.length ≤ position) := by simpa using inside
    have occupied : s.drop position ≠ [] := by
      rw [ne_eq, List.drop_eq_nil_iff]
      omega
    -- by recursion on what is left: the reader goes on behind the instruction that it has read
    match read : Instruction.read? (s.drop position) with
    | none =>
      have next : next? { script := s, position } =
          some (.error .badOpCode, { script := s, position := s.length, failed := true }) := by
        rw [next?, if_neg on, read]
      rw [results_of_next?_some next, results_of_failed rfl, instructions, tail,
        parse_of_read?_none read, if_neg occupied]
      rfl
    | some (i, rest) =>
      have next : next? { script := s, position } =
          some (.ok (position, i), { script := s, position := position + i.bytes.length }) := by
        rw [next?, if_neg on, read]
      rw [results_of_next?_some next, results_eq s (position + i.bytes.length),
        drop_add_of_read?_drop read, instructions_of_read? read, tail_of_read? read]
      rfl
  · have none' : s.drop position = [] := List.drop_eq_nil_iff.2 (Nat.le_of_not_lt inside)
    rw [none', instructions, tail, parse_of_read?_none rfl, if_pos rfl]
    refine results_of_next?_none ?_
    rw [next?, if_pos (.inr (Nat.le_of_not_lt inside))]
termination_by s.length - position
decreasing_by
  have pos := List.length_pos_iff.2 i.bytes_ne_nil
  omega

end Reader

/-! ## The one cut -/

/-- **A script is cut into instructions in one way.** A reader that starts at the front of a script
comes to instructions that stand one behind the other from there on, and behind them to an error
unless they reach the end of the script: this is so exactly if what is left is the beginning of a
push. Every other cut that reaches the end, or leaves the beginning of a push, is the same one. From
behind any instructions that are cut off, a reader comes to the rest of the same list. -/
theorem cut_uniquely (s : Bytes) :
    (Cut s 0 (placed 0 (instructions s)) (stop s) ∧ s.drop (stop s) = tail s) ∧
    Reader.results { script := s } =
      (placed 0 (instructions s)).map .ok ++
        (if stop s = s.length then [] else [.error .badOpCode]) ∧
    (stop s ≠ s.length ↔ CutShort (s.drop (stop s))) ∧
    (∀ found last, Cut s 0 found last → last = s.length ∨ CutShort (s.drop last) →
      found = placed 0 (instructions s) ∧ last = stop s) ∧
    ∀ taken position, Cut s 0 taken position →
      ∃ left, placed 0 (instructions s) = taken ++ left ∧
        parse (s.drop position) = (left.map Prod.snd, tail s) ∧
        Reader.results { script := s, position } =
          left.map .ok ++ (if stop s = s.length then [] else [.error .badOpCode]) := by
  have used : stop s = s.length ↔ tail s = [] := by
    have whole := stop_add_length_tail s
    rw [← List.length_eq_zero_iff]
    omega
  have front := cut_placed s 0 (Nat.zero_le _)
  have read := Reader.results_eq s 0
  rw [List.drop_zero] at front read
  rw [Nat.zero_add] at front
  simp only [used]
  refine ⟨⟨front, drop_stop s⟩, read, ?_, ?_, ?_⟩
  · rw [drop_stop, cutShort_tail_iff, ne_eq, used]
  · intro found last cut ends
    obtain ⟨is, rfl, rfl, -, parsed⟩ := cut.parse_eq
    -- no instruction is left where a cut ends
    have stuck : Instruction.read? (s.drop (0 + (bytes is).length)) = none := by
      rcases ends with ends | short
      · rw [ends, List.drop_length]
        rfl
      · exact (cutShort_iff.1 short).2
    rw [List.drop_zero, instructions, parse_of_read?_none stuck, List.append_nil] at parsed
    have same : instructions s = is := congrArg Prod.fst parsed
    rw [stop, same, Nat.zero_add]
    exact ⟨rfl, rfl⟩
  · intro taken position cut
    obtain ⟨is, rfl, place, -, parsed⟩ := cut.parse_eq
    rw [List.drop_zero] at parsed
    have same : instructions s = is ++ instructions (s.drop position) := congrArg Prod.fst parsed
    have rest : tail s = tail (s.drop position) := by rw [tail, parsed]
    refine ⟨placed position (instructions (s.drop position)), ?_, ?_, ?_⟩
    · rw [same, placed_append, ← place]
    · rw [map_snd_placed, rest]
      rfl
    · rw [Reader.results_eq, rest]

/-- Five bytes are announced and two are there. -/
example :
    Reader.results { script := [0x76, 0x05, 1, 2] } = [.ok (0, ⟨0x76, none⟩),
      .error .badOpCode] := by
  decide +kernel

end Script

end BlockRules
