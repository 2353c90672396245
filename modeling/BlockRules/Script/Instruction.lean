import BlockRules.Bytes
import BlockRules.Script.Opcode

/-!
# Instructions

A script is a byte string, and this module cuts it into instructions: an opcode alone,
or an opcode that pushes data together with those data.

* **printing** — `Instruction.bytes` gives the bytes of one instruction back;
* **reading** — `Instruction.read?` takes one instruction off the front, `Script.parse`
  as many as there are, up to a tail that is no instruction. `Script.bytes_parse` says
  that nothing is lost: the instructions and the tail together are the script.
-/

namespace BlockRules

/-- How an opcode states the number of bytes it pushes. -/
inductive PushLength where
  /-- the opcode is the number -/
  | direct (count : Nat)
  /-- the number stands behind the opcode, in this many bytes -/
  | stated (width : Nat)
  deriving DecidableEq, Repr

/-- What an opcode says about the length of its push; nothing for an operation. -/
def Opcode.pushLength? (op : UInt8) : Option PushLength :=
  if op < Opcode.pushData1 then some (.direct op.toNat)
  else if op = Opcode.pushData1 then some (.stated 1)
  else if op = Opcode.pushData2 then some (.stated 2)
  else if op = Opcode.pushData4 then some (.stated 4)
  else none

/-- One element of a script. -/
structure Instruction where
  opcode : UInt8
  /-- the pushed bytes, for an opcode that pushes data -/
  data : Option Bytes
  deriving DecidableEq, Repr

namespace Instruction

/-- The length bytes between an opcode and the data it pushes. -/
def lengthBytes (op : UInt8) (count : Nat) : Bytes :=
  match Opcode.pushLength? op with
  | some (.stated width) => Bytes.ofNat width count
  | _ => []

/-- The bytes of an instruction. -/
def bytes (i : Instruction) : Bytes :=
  match i.data with
  | none => [i.opcode]
  | some data => i.opcode :: (lengthBytes i.opcode data.length ++ data)

/-- The instruction pushes something and does not count as an operation. -/
def isPush (i : Instruction) : Bool := Opcode.isPush i.opcode

/-- The instruction at the front of a script and what follows it. -/
def read? : Bytes → Option (Instruction × Bytes)
  | [] => none
  | op :: rest =>
    match Opcode.pushLength? op with
    | none => some (⟨op, none⟩, rest)
    | some (.direct count) =>
      match Bytes.split? count rest with
      | none => none
      | some (data, rest) => some (⟨op, some data⟩, rest)
    | some (.stated width) =>
      match Bytes.split? width rest with
      | none => none
      | some (size, rest) =>
        match Bytes.split? (Bytes.toNat size) rest with
        | none => none
        | some (data, rest) => some (⟨op, some data⟩, rest)

/-- An instruction that is read is what the script starts with. -/
theorem bytes_read? {s rest : Bytes} {i : Instruction} (h : read? s = some (i, rest)) :
    s = i.bytes ++ rest := by
  cases s with
  | nil => simp [read?] at h
  | cons op s =>
    simp only [read?] at h
    split at h
    · obtain ⟨rfl, rfl⟩ := by simpa using h
      rfl
    · next count hlen =>
      split at h
      · simp at h
      · next data rest' hsplit =>
        obtain ⟨rfl, rfl⟩ := by simpa using h
        obtain ⟨_, rfl⟩ := Bytes.split?_eq_some_iff.1 hsplit
        simp [bytes, lengthBytes, hlen]
    · next width hlen =>
      split at h
      · simp at h
      · next size rest' hsize =>
        split at h
        · simp at h
        · next data rest'' hdata =>
          obtain ⟨rfl, rfl⟩ := by simpa using h
          obtain ⟨hcount, rfl⟩ := Bytes.split?_eq_some_iff.1 hsize
          obtain ⟨hdata', rfl⟩ := Bytes.split?_eq_some_iff.1 hdata
          -- the stated length is written back in as many bytes as it was read from
          have back : Bytes.ofNat width data.length = size := by
            rw [hdata', ← hcount, Bytes.ofNat_toNat]
          simp [bytes, lengthBytes, hlen, back]

theorem bytes_ne_nil (i : Instruction) : i.bytes ≠ [] := by
  unfold bytes
  split <;> simp

/-- Reading an instruction leaves less than there was, so reading on ends. -/
theorem length_lt_of_read? {s rest : Bytes} {i : Instruction} (h : read? s = some (i, rest)) :
    rest.length < s.length := by
  have pos : 0 < i.bytes.length := List.length_pos_iff.2 i.bytes_ne_nil
  rw [bytes_read? h, List.length_append]
  omega

end Instruction

namespace Script

/-- The instructions of a script and the tail at which there is no further one: empty,
or a push that the script's end cuts short. -/
def parse (script : Bytes) : List Instruction × Bytes :=
  match _h : Instruction.read? script with
  | none => ([], script)
  | some (i, rest) =>
    let (is, tail) := parse rest
    (i :: is, tail)
termination_by script.length
decreasing_by exact Instruction.length_lt_of_read? _h

/-- The bytes of a list of instructions. -/
def bytes (is : List Instruction) : Bytes := is.flatMap Instruction.bytes

/-- The instructions of a script, up to a push that is cut short. -/
def instructions (script : Bytes) : List Instruction := (parse script).1

/-- What is left of a script where a push is cut short. -/
def tail (script : Bytes) : Bytes := (parse script).2

theorem parse_of_read?_none {script : Bytes} (h : Instruction.read? script = none) :
    parse script = ([], script) := by
  rw [parse]
  split
  · rfl
  · next h' => rw [h] at h'; simp at h'

theorem parse_of_read?_some {script rest : Bytes} {i : Instruction}
    (h : Instruction.read? script = some (i, rest)) :
    parse script = (i :: (parse rest).1, (parse rest).2) := by
  rw [parse]
  split
  · next h' => rw [h] at h'; simp at h'
  · next h' =>
    rw [h] at h'
    obtain ⟨rfl, rfl⟩ := by simpa using h'
    rfl

/-- The instructions of a script and its tail are the whole script. -/
theorem bytes_parse (script : Bytes) : bytes (instructions script) ++ tail script = script := by
  unfold instructions tail
  match h : Instruction.read? script with
  | none => simp [parse_of_read?_none h, bytes]
  | some (i, rest) =>
    have shorter := Instruction.length_lt_of_read? h
    have ih := bytes_parse rest
    rw [parse_of_read?_some h]
    show (i :: (parse rest).1).flatMap Instruction.bytes ++ (parse rest).2 = script
    rw [List.flatMap_cons, List.append_assoc]
    show i.bytes ++ (bytes (instructions rest) ++ tail rest) = script
    rw [ih, ← Instruction.bytes_read? h]
termination_by script.length

/-- Only pushes, and none of them cut short. -/
def isPushOnly (script : Bytes) : Bool :=
  (tail script).isEmpty && (instructions script).all Instruction.isPush

/-- Each instruction with the offset of its first byte. -/
def placed : Nat → List Instruction → List (Nat × Instruction)
  | _, [] => []
  | offset, i :: is => (offset, i) :: placed (offset + i.bytes.length) is

end Script

end BlockRules
