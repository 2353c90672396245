import Mathlib
import BlockRules.Proofs.Script.Frames
import BlockRules.Proofs.Script.Soundness

/-!
# The start of the signed part

Signatures sign a script from its start on or, if code separators have been executed, from behind
the last one of them. The machine keeps that place as an offset into the script
(`Machine.codeStart`), which each separator sets to the offset that the machine stands at.

* `Script.Reaches` — the machines that an evaluation comes to, each with the instructions up to
  there;
* `Machine.Separates` — the offsets behind the separators that a run has executed. A separator in
  a branch that is skipped is none of them;
* `Script.Reaches.isLastSeparator` — at every one of these machines, the signed part starts behind
  the last executed separator, by induction on the run.
-/

namespace BlockRules

namespace Machine

variable {env : Env} {m n start : Machine} {i : Instruction} {is : List Instruction} {p : Nat}

/-- The place behind a code separator that is executed in the course of a run. -/
def Separates (env : Env) (start : Machine) (is : List Instruction) (p : Nat) : Prop :=
  ∃ before behind m, is = before ++ .separator :: behind ∧ run env before start = .running m ∧
    m.executing = true ∧ p = (Script.bytes (before ++ [.separator])).length

/-- The place behind the last code separator that is executed in the course of a run, or the start
of the script if none is. -/
structure IsLastSeparator (env : Env) (start : Machine) (is : List Instruction)
    (p : Nat) : Prop where
  own : p = 0 ∨ Separates env start is p
  last : ∀ p', Separates env start is p' → p' ≤ p

/-- One more instruction adds a place only if it is a separator and is executed. -/
theorem separates_concat_iff (ran : run env is start = .running n) :
    Separates env start (is ++ [i]) p ↔
      Separates env start is p ∨
        (n.executing = true ∧ i = .separator) ∧ p = (Script.bytes (is ++ [i])).length := by
  constructor
  · rintro ⟨before, behind, m, split, front, active, rfl⟩
    rcases List.eq_nil_or_concat behind with rfl | ⟨behind, last, rfl⟩
    · obtain ⟨rfl, same⟩ := List.append_inj' split rfl
      obtain rfl := Outcome.running.inj (ran.symm.trans front)
      obtain rfl := List.singleton_inj.1 same
      exact .inr ⟨⟨active, rfl⟩, rfl⟩
    · rw [List.concat_eq_append, ← List.cons_append, ← List.append_assoc] at split
      obtain ⟨rfl, -⟩ := List.append_inj' split rfl
      exact .inl ⟨before, behind, m, rfl, front, active, rfl⟩
  · rintro (⟨before, behind, m, rfl, front, active, rfl⟩ | ⟨⟨active, rfl⟩, rfl⟩)
    · exact ⟨before, behind ++ [i], m, by rw [List.append_assoc, List.cons_append], front,
        active, rfl⟩
    · exact ⟨is, [], n, rfl, ran, active, rfl⟩

end Machine

namespace Script

open Machine (IsLastSeparator Separates)

/-- An evaluation gets as far as a machine: the script is not too long, and some of its instructions
from the first one on have run. -/
structure Reaches (env : Env) (stack : Stack Bytes) (journal : Journal) (taken : List Instruction)
    (m : Machine) : Prop where
  size : env.script.length ≤ Limit.scriptSize
  front : taken <+: instructions env.script
  ran : Machine.run env taken { stack, journal } = .running m

/-- An evaluation that ends well has come to its last machine. -/
theorem reaches_of_evaluate {flags : Flags} {checker : Checker} {version : SigVersion}
    {script : Bytes}
    {stack : Stack Bytes} {journal : Journal} {m : Machine}
    (ran : evaluate flags checker version script stack journal = .running m) :
    Reaches ⟨flags, checker, version, script⟩ stack journal (instructions script) m := by
  refine ⟨?_, List.prefix_rfl, (evaluate_inv ran).1⟩
  rw [evaluate] at ran
  split at ran
  next => cases ran
  next size => exact Nat.le_of_not_lt size

namespace Reaches

variable {env : Env} {stack : Stack Bytes} {journal : Journal} {taken : List Instruction}
  {i : Instruction} {m : Machine}

/-- An evaluation has come to a machine before its last step. -/
theorem concat_inv (h : Reaches env stack journal (taken ++ [i]) m) :
    ∃ n, Reaches env stack journal taken n ∧ n.step env i = .running m := by
  obtain ⟨n, ran, stepped⟩ := Machine.run_append_inv h.ran
  rw [Machine.run_singleton] at stepped
  exact ⟨n, ⟨h.size, (List.prefix_append taken [i]).trans h.front, ran⟩, stepped⟩

/-- The evaluation goes on from there with the other instructions. -/
theorem evaluate_eq (h : Reaches env stack journal taken m) :
    ∃ rest, taken ++ rest = instructions env.script ∧
      evaluate env.flags env.checker env.version env.script stack journal =
        Machine.finish (tail env.script) (Machine.run env rest m) := by
  obtain ⟨rest, split⟩ := h.front
  have whole :
      Machine.run env (instructions env.script) { stack, journal } = Machine.run env rest m := by
    rw [← split, Machine.run_append, h.ran]
    rfl
  refine ⟨rest, split, ?_⟩
  rw [evaluate, if_neg (Nat.not_lt.2 h.size)]
  exact congrArg (Machine.finish (tail env.script)) whole

/-- What has run ends inside of the script. -/
theorem length_bytes_le (h : Reaches env stack journal taken m) :
    (bytes taken).length ≤ env.script.length := by
  obtain ⟨rest, split⟩ := h.front
  have inside := zero_add_length_instructions_le env.script
  rw [← split, bytes, List.flatMap_append, List.length_append] at inside
  rw [bytes]
  omega

/-- The machine stands behind what has run. -/
theorem at_length (h : Reaches env stack journal taken m) : m.At (bytes taken).length := by
  have inside : 0 + (bytes taken).length ≤ env.script.length := by
    rw [Nat.zero_add]
    exact h.length_bytes_le
  have sound := Machine.run_sound (Machine.start_at stack journal) inside
  rw [h.ran, Nat.zero_add] at sound
  exact sound.1

/-- **The start of the signed part.** Wherever an evaluation comes to, signatures sign the script
from behind the last code separator that has been executed, or all of it. -/
theorem isLastSeparator (h : Reaches env stack journal taken m) :
    IsLastSeparator env { stack, journal } taken m.codeStart := by
  induction taken using List.reverseRecOn generalizing m with
  | nil =>
    obtain rfl := Outcome.running.inj h.ran
    refine ⟨.inl rfl, ?_⟩
    rintro p' ⟨before, behind, m, split, -⟩
    exact absurd split.symm (List.append_ne_nil_of_right_ne_nil before (List.cons_ne_nil _ behind))
  | append_singleton taken i ih =>
    obtain ⟨n, earlier, stepped⟩ := h.concat_inv
    obtain ⟨own, last⟩ := ih earlier
    have places (p : Nat) := @Machine.separates_concat_iff env n _ i taken p earlier.ran
    have behind : n.position + i.bytes.length = (bytes (taken ++ [i])).length := by
      rw [earlier.at_length.1, bytes, bytes, List.flatMap_append, List.flatMap_singleton,
        List.length_append]
    have moved := Machine.step_codeStart stepped
    rw [behind] at moved
    by_cases separates : n.executing = true ∧ i = .separator
    · rw [if_pos separates] at moved
      rw [moved]
      refine ⟨.inr ((places _).2 (.inr ⟨separates, rfl⟩)), fun p' place => ?_⟩
      rcases (places p').1 place with old | ⟨-, rfl⟩
      · -- an earlier separator ends where the machine stood then, or before
        exact (last p' old).trans
          (earlier.at_length.2.1.trans (by rw [← behind, earlier.at_length.1]; omega))
      · exact Nat.le_refl _
    · rw [if_neg separates] at moved
      rw [moved]
      refine ⟨own.imp_right fun place => (places _).2 (.inl place), fun p' place => ?_⟩
      rcases (places p').1 place with old | ⟨new, -⟩
      · exact last p' old
      · exact absurd new separates

end Reaches

end Script

end BlockRules
