import Mathlib
import BlockRules.Proofs.Script.Deletion
import BlockRules.Proofs.Script.Separators

/-!
# The code that is signed

A question about a signature states the code that is signed. Each such question that is asked while
a script is evaluated is traced back here to the instruction at which it is asked, and with that its
code is known.

* `Machine.asked_at` — the questions of a run are asked one after another, so each of them is
  asked at one step, from a machine that the run has come to;
* `Machine.code_of_signedCode` — the code of a machine: all that stands behind the start of the
  signed part and, in the legacy version, none of the signatures that are checked;
* `Script.instructions_drop` — that start lies between two instructions;
* `Script.signed_code` — the code of every question, from the last code separator on.
-/

namespace BlockRules

namespace Machine

variable {env : Env} {m start : Machine} {is : List Instruction} {q : Query}
  {earlier later : List Query}
  {sigs : List Bytes} {code : Bytes}

/-! ## Questions of a run -/

/-- A step only appends to the queries asked before. -/
theorem step_calls_prefix (env : Env) (i : Instruction) (m : Machine) :
    m.journal.calls <+: (m.step env i).machine.journal.calls := by
  obtain ⟨asked, calls, -⟩ := step_adds env i m
  exact ⟨asked, calls.symm⟩

/-- A run only adds questions. -/
theorem run_calls_prefix : start.journal.calls <+: (run env is start).machine.journal.calls := by
  induction is generalizing start with
  | nil => exact List.prefix_rfl
  | cons i is ih =>
    have first := step_calls_prefix env i start
    rw [run]
    rcases stepped : start.step env i with next | ⟨stop, halted⟩ <;> rw [stepped] at first
    · exact first.trans ih
    · exact first

/-- A question that is asked in the course of a run is asked at one of its steps. By induction on
the instructions: the first step asks it, or it is asked later on. -/
theorem asked_at (calls : (run env is start).machine.journal.calls = earlier ++ q :: later)
    (new : start.journal.calls.length ≤ earlier.length) :
    ∃ before i behind m, is = before ++ i :: behind ∧ run env before start = .running m ∧
      m.journal.calls <+: earlier ∧ earlier ++ [q] <+: (m.step env i).machine.journal.calls := by
  have whole : earlier ++ [q] <+: earlier ++ q :: later := ⟨later, by simp⟩
  induction is generalizing start with
  | nil =>
    have size := congrArg List.length calls
    rw [run, Outcome.machine, List.length_append, List.length_cons] at size
    omega
  | cons i is ih =>
    have first := step_calls_prefix env i start
    have rest : (start.step env i).machine.journal.calls <+: earlier ++ q :: later := by
      rw [← calls, run]
      rcases start.step env i with next | ⟨stop, halted⟩
      · exact run_calls_prefix
      · exact List.prefix_rfl
    by_cases here : earlier.length < (start.step env i).machine.journal.calls.length
    · refine ⟨[], i, is, start, rfl, rfl, ?_, ?_⟩
      · exact List.prefix_of_prefix_length_le (first.trans rest) (List.prefix_append ..) new
      · refine List.prefix_of_prefix_length_le whole rest ?_
        rw [List.length_append, List.length_singleton]
        exact here
    · rw [run] at calls
      rcases stepped : start.step env i with next | ⟨stop, halted⟩ <;>
        rw [stepped] at calls here
      · obtain ⟨before, j, behind, m, rfl, ran, found⟩ := ih calls (Nat.le_of_not_lt here)
        refine ⟨i :: before, j, behind, m, rfl, ?_, found⟩
        rw [run, stepped]
        exact ran
      · have size := congrArg List.length calls
        rw [List.length_append, List.length_cons] at size
        rw [Outcome.machine] at size here
        omega

/-- At that step, it is a question that may be asked there. -/
theorem mayAsk_of_asked {i : Instruction} (before : m.journal.calls <+: earlier)
    (after : earlier ++ [q] <+: (m.step env i).machine.journal.calls) :
    m.MayAsk env (.ofOpcode i.opcode) q := by
  obtain ⟨asked, calls, may⟩ := step_adds env i m
  obtain ⟨others, rfl⟩ := before
  rw [calls, List.append_assoc, List.prefix_append_right_inj] at after
  exact may q (after.subset (List.mem_append_right others (List.mem_singleton_self q)))

theorem finish_machine (tail : Bytes) (o : Outcome) : (finish tail o).machine = o.machine := by
  rcases o with m | ⟨stop, m⟩
  · rw [finish]
    split
    next => rfl
    next => split <;> rfl
  · rfl

/-! ## The code of a machine -/

/-- The code behind the start of the signed part; in the legacy version without the pushes of the
signatures. -/
theorem code_of_signedCode (short : env.script.length < 2 ^ 32)
    (signed : m.signedCode env sigs = .ok code) :
    code = match env.version with
      | .witnessV0 => env.script.drop m.codeStart
      | .legacy => Script.keep (fun i => sigs.all fun sig => Script.isOther sig i)
          (env.script.drop m.codeStart) := by
  rw [signedCode] at signed
  split at signed
  next => cases signed
  next =>
    have shorter : (env.script.drop m.codeStart).length < 2 ^ 32 := by
      rw [List.length_drop]
      omega
    cases version : env.version <;> simp only [version] at signed ⊢
    · rw [← Script.foldl_findAndDelete fun sig _ =>
        (Nat.lt_or_ge sig.length (2 ^ 32)).imp_right shorter.trans_le]
      exact (Except.ok.inj signed).symm
    · exact (Except.ok.inj signed).symm

end Machine

namespace Script

variable {script : Bytes} {taken rest : List Instruction}

/-- A script from behind some of its instructions on is read as the others and the same tail. -/
theorem parse_drop (split : taken ++ rest = instructions script) :
    parse (script.drop (bytes taken).length) = (rest, tail script) := by
  have whole : script = bytes taken ++ (bytes rest ++ tail script) := by
    conv_lhs => rw [← bytes_parse script, ← split, bytes, List.flatMap_append,
      List.append_assoc]
    rfl
  have behind : script.drop (bytes taken).length = bytes rest ++ tail script := by
    conv_lhs => rw [whole]
    exact List.drop_left
  have inside : ∀ i ∈ rest, i ∈ instructions script := by
    intro i mem
    rw [← split]
    exact List.mem_append_right taken mem
  rw [behind]
  exact parse_bytes_append (fun i mem => fits_of_mem_instructions (inside i mem))
    (read?_tail script)

/-- The signed part starts between two instructions, so that it is read as the last ones of them. -/
theorem suffix_of_isLastSeparator {env : Env} {start : Machine} {p : Nat}
    (front : taken <+: instructions script) (h : Machine.IsLastSeparator env start taken p) :
    instructions (script.drop p) <:+ instructions script ∧
    tail (script.drop p) = tail script := by
  rcases h.own with rfl | ⟨before, behind, -, rfl, -, -, rfl⟩
  · exact ⟨List.suffix_rfl, rfl⟩
  · obtain ⟨rest, split⟩ := front
    have cut : (before ++ [.separator]) ++ (behind ++ rest) = instructions script := by
      rw [← split]
      simp
    have read := parse_drop cut
    rw [instructions, tail, read]
    exact ⟨⟨before ++ [.separator], cut⟩, rfl⟩

variable {flags : Flags} {checker : Checker} {version version' : SigVersion} {stack : Stack Bytes}
  {journal : Journal} {earlier later : List Query} {sig key code : Bytes}

/-- A question that is asked during an evaluation is asked at an instruction of the script, from a
machine that the evaluation comes to. -/
theorem asked_at {q : Query}
    (calls : (evaluate flags checker version script stack journal).machine.journal.calls =
      earlier ++ q :: later)
    (new : journal.calls.length ≤ earlier.length) :
    let env : Env := ⟨flags, checker, version, script⟩
    ∃ before i m, Reaches env stack journal before m ∧ before ++ [i] <+: instructions script ∧
      m.journal.calls <+: earlier ∧ earlier ++ [q] <+: (m.step env i).machine.journal.calls := by
  intro env
  rw [evaluate] at calls
  split at calls
  next =>
    have size := congrArg List.length calls
    rw [List.length_append, List.length_cons] at size
    change journal.calls.length = _ at size
    omega
  next size =>
    dsimp only at calls
    rw [Machine.finish_machine] at calls
    obtain ⟨before, i, behind, m, split, ran, asked⟩ := Machine.asked_at calls new
    rw [split]
    refine ⟨before, i, m, ⟨Nat.le_of_not_lt size, ?_, ran⟩, ⟨behind, by simp⟩, asked⟩
    exact ⟨i :: behind, split.symm⟩

/-- **The signed code.** Take any flags, checker, version and script, and any stack. A question
about a signature that is asked during the evaluation is asked at an instruction `i`, from a machine
`m`, and `sig` is among the signatures that are checked there. Let `p` be the end of the last code
separator that has been executed, or 0. The script from `p` on is read as the last instructions of
the script and the same tail.

For the witness version, that is the code. For the legacy version, the code is made up of those of
the instructions whose bytes are not the push of any of the signatures, in order, and the tail; none
of its instructions is a push of `sig`. -/
theorem signed_code
    (calls : (evaluate flags checker version script stack journal).machine.journal.calls =
      earlier ++ .signature sig key code version' :: later)
    (new : journal.calls.length ≤ earlier.length) :
    let env : Env := ⟨flags, checker, version, script⟩
    version' = version ∧ ∃ before i m p,
      (Reaches env stack journal before m ∧ before ++ [i] <+: instructions script ∧
        m.journal.calls <+: earlier ∧
        earlier ++ [.signature sig key code version'] <+: (m.step env i).machine.journal.calls) ∧
      Machine.IsLastSeparator env { stack, journal } before p ∧
      (instructions (script.drop p) <:+ instructions script ∧
        tail (script.drop p) = tail script) ∧
      sig ∈ m.signatures env (.ofOpcode i.opcode) ∧
      (version = .witnessV0 → code = script.drop p) ∧
      (version = .legacy →
        code = bytes ((instructions (script.drop p)).filter fun j =>
            (m.signatures env (.ofOpcode i.opcode)).all fun s => j.bytes != pushData s)
          ++ tail (script.drop p) ∧
        ∀ j ∈ instructions code, j.bytes ≠ pushData sig) := by
  intro env
  obtain ⟨before, i, m, reached, there, old, asked⟩ := asked_at calls new
  obtain ⟨own, signed, rfl⟩ := Machine.mayAsk_of_asked old asked
  have short : env.script.length < 2 ^ 32 := reached.size.trans_lt (by decide)
  have made := Machine.code_of_signedCode short signed
  have last := reached.isLastSeparator
  refine ⟨rfl, before, i, m, m.codeStart, ⟨reached, there, old, asked⟩, last,
    suffix_of_isLastSeparator reached.front last, own, ?_, ?_⟩
  · rintro rfl
    exact made
  · rintro rfl
    refine ⟨made, fun j mem => ?_⟩
    -- what is left passes the filter, that of this signature among others
    change code = keep (fun j => (m.signatures env (.ofOpcode i.opcode)).all fun s => isOther s j)
      (script.drop m.codeStart) at made
    rw [made, instructions_keep, List.mem_filter, List.all_eq_true] at mem
    have other := mem.2 sig own
    rwa [isOther, bne_iff_ne] at other

/-- A signature that is pushed behind a code separator, and is not part of what it signs. -/
theorem pushed_signature_not_signed :
    let script : Bytes := [0xab, 0x01, 0xaa, 0x75, 0xac]
    let env : Env := ⟨⟨0⟩, .base, .legacy, script⟩
    (evaluate ⟨0⟩ .base .legacy script [[0xbb], [0xaa]] {}).machine.journal.calls =
      [.signature [0xaa] [0xbb] [0x75, 0xac] .legacy] ∧
    ∃ before m p, ∃ i : Instruction, Reaches env [[0xbb], [0xaa]] {} before m ∧
      Machine.IsLastSeparator env { stack := [[0xbb], [0xaa]], journal := {} } before p ∧
      [0xaa] ∈ m.signatures env (.ofOpcode i.opcode) ∧
      [0x75, 0xac] = bytes ((instructions (script.drop p)).filter fun j =>
          (m.signatures env (.ofOpcode i.opcode)).all fun s => j.bytes != pushData s)
        ++ tail (script.drop p) ∧
      ∀ j ∈ instructions [0x75, 0xac], j.bytes ≠ pushData [0xaa] := by
  intro script env
  have calls : (evaluate ⟨0⟩ .base .legacy script [[0xbb], [0xaa]] {}).machine.journal.calls =
      [] ++ .signature [0xaa] [0xbb] [0x75, 0xac] .legacy :: [] := by decide +kernel
  obtain ⟨-, before, i, m, p, ⟨reached, -⟩, last, -, own, -, legacy⟩ :=
    signed_code calls (by decide)
  exact ⟨calls, before, m, p, i, reached, last, own, legacy rfl⟩

end Script

end BlockRules
