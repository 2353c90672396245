import Mathlib
import BlockRules.Proofs.SigHash.Legacy

/-!
# What names of transactions tell apart

The two names of a transaction are hashes of its two encodings, so they are as good as the encodings
are at telling transactions apart.

* **without witnesses** — the stripped encoding has no marks, and everything but the witnesses can
  be read off it in order. It tells apart all transactions, also those that no decoder accepts
  because they have outputs and no inputs (`Transaction.encodeStripped_eq_iff`);
* **with witnesses** — the full encoding adds the witnesses and nothing else
  (`Transaction.encode_eq_iff`). Here outputs without inputs must be excluded: the count of no
  inputs is the mark of a witness encoding.

Whether a transaction has a time cannot be seen from its bytes, so transactions of one kind of
network are compared. Counts and lengths are words (`Transaction.Addressable`).
-/

namespace BlockRules

namespace Transaction

variable {tx tx' : Transaction}

/-- The inputs as the encodings show them, with words for their lengths. -/
theorem Addressable.bareInputs (words : tx.Addressable) :
    (tx.inputs.map TxInput.bare).length < 2 ^ 64 ∧
      ∀ i ∈ tx.inputs.map TxInput.bare, i.scriptSig.length < 2 ^ 64 ∧ i.witness = [] := by
  refine ⟨by rw [List.length_map]; exact words.inputs, ?_⟩
  intro i mem
  obtain ⟨whole, there, rfl⟩ := List.mem_map.1 mem
  exact ⟨words.scripts whole there, rfl⟩

/-- The parts of the stripped encoding. -/
theorem encodeStripped_eq (tx : Transaction) :
    tx.encodeStripped =
      tx.encodeHead ++ (Wire.list TxInput.encode (tx.inputs.map TxInput.bare) ++
        (Wire.list TxOutput.encode tx.outputs ++ Wire.uint32 tx.lockTime)) := by
  simp [encodeStripped, encodeWith, list_encode_bare]

/-- The stripped encoding shows everything but the witnesses, however many inputs and outputs there
are. -/
theorem encodeStripped_eq_iff (timed : tx.time.isSome = tx'.time.isSome) (words : tx.Addressable)
    (words' : tx'.Addressable) :
    tx.encodeStripped = tx'.encodeStripped ↔
      tx.version = tx'.version ∧ tx.time = tx'.time ∧
        tx.inputs.map TxInput.bare = tx'.inputs.map TxInput.bare ∧ tx.outputs = tx'.outputs ∧
        tx.lockTime = tx'.lockTime := by
  rw [encodeStripped_eq, encodeStripped_eq]
  constructor
  · intro same
    obtain ⟨version, time, same⟩ := SigHash.encodeHead_append_inj timed same
    obtain ⟨inputs, same⟩ :=
      Decoder.inputs_exact.append_inj words.bareInputs words'.bareInputs same
    obtain ⟨outputs, same⟩ := Decoder.outputs_exact.append_inj ⟨words.outputs, words.guards⟩
      ⟨words'.outputs, words'.guards⟩ same
    exact ⟨version, time, inputs, outputs, Decoder.uint32_exact.inj trivial trivial same⟩
  · rintro ⟨version, time, inputs, outputs, lockTime⟩
    rw [encodeHead, encodeHead, version, time, inputs, outputs, lockTime]

/-- An input is what is shown without its witness, and the witness. -/
theorem bare_witness_injective : Function.Injective fun i : TxInput => (i.bare, i.witness) := by
  rintro ⟨prevout, scriptSig, sequence, witness⟩ ⟨prevout', scriptSig', sequence',
    witness'⟩ same
  obtain ⟨bare, rfl⟩ := Prod.mk.inj same
  obtain ⟨rfl, rfl, rfl, -⟩ := TxInput.mk.inj bare
  rfl

/-- Inputs are told by what they are without witness and by their witnesses. -/
theorem inputs_eq_of_bare {inputs inputs' : List TxInput}
    (bare : inputs.map TxInput.bare = inputs'.map TxInput.bare)
    (witness : inputs.map TxInput.witness = inputs'.map TxInput.witness) : inputs = inputs' := by
  refine List.map_injective_iff.2 bare_witness_injective ?_
  rw [← List.zip_map', ← List.zip_map', bare, witness]

/-- The full encoding shows all of a transaction but the mark, unless there are outputs and no
inputs. -/
theorem eq_of_encode (timed : tx.time.isSome = tx'.time.isSome) (words : tx.Addressable)
    (words' : tx'.Addressable) (shape : tx.inputs ≠ [] ∨ tx.outputs = [])
    (shape' : tx'.inputs ≠ [] ∨ tx'.outputs = []) (same : tx.encode = tx'.encode) :
    ({ tx with coldStake := false } : Transaction) = { tx' with coldStake := false } := by
  obtain ⟨network, kind⟩ : ∃ network : Network, tx.time.isSome = network.hasTime := by
    rcases tx.time with _ | time
    · exact ⟨.proofOfWork, rfl⟩
    · exact ⟨.proofOfStake, rfl⟩
  refine (Decoder.transaction_exact network).inj ?_ ?_ same
  · exact ⟨⟨kind, rfl, shape⟩, { words with }⟩
  · exact ⟨⟨timed.symm.trans kind, rfl, shape'⟩, { words' with }⟩

/-- The full encoding shows the witnesses besides, unless there are outputs and no inputs. -/
theorem encode_eq_iff (timed : tx.time.isSome = tx'.time.isSome) (words : tx.Addressable)
    (words' : tx'.Addressable) (shape : tx.inputs ≠ [] ∨ tx.outputs = [])
    (shape' : tx'.inputs ≠ [] ∨ tx'.outputs = []) :
    tx.encode = tx'.encode ↔ tx.encodeStripped = tx'.encodeStripped ∧
      tx.inputs.map TxInput.witness = tx'.inputs.map TxInput.witness := by
  constructor
  · intro same
    have all := eq_of_encode timed words words' shape shape' same
    obtain ⟨version, time, inputs, outputs, lockTime, -⟩ := Transaction.mk.inj all
    refine ⟨?_, by rw [inputs]⟩
    exact (encodeStripped_eq_iff timed words words').2 ⟨version, time, by rw [inputs],
      outputs, lockTime⟩
  · rintro ⟨same, witness⟩
    obtain ⟨version, time, bare, outputs, lockTime⟩ :=
      (encodeStripped_eq_iff timed words words').1 same
    have inputs := inputs_eq_of_bare bare witness
    rw [Decoder.encode_eq, Decoder.encode_eq, version, time, inputs, outputs, lockTime]

/-- **The encodings tell transactions apart.** Two transactions of one kind of network

* have the same stripped encoding exactly if they agree in version, time and lock time, in outpoint,
  script and sequence of every input, and in every output, however many of these there are;
* have the same full encoding exactly if they have the same stripped one and their witnesses agree
  too, unless one of them has outputs and no inputs. -/
theorem encodings_tell_apart (timed : tx.time.isSome = tx'.time.isSome) (words : tx.Addressable)
    (words' : tx'.Addressable) :
    (tx.encodeStripped = tx'.encodeStripped ↔
      tx.version = tx'.version ∧ tx.time = tx'.time ∧
        tx.inputs.map TxInput.bare = tx'.inputs.map TxInput.bare ∧ tx.outputs = tx'.outputs ∧
        tx.lockTime = tx'.lockTime) ∧
    ((tx.inputs ≠ [] ∨ tx.outputs = []) → (tx'.inputs ≠ [] ∨ tx'.outputs = []) →
      (tx.encode = tx'.encode ↔ tx.encodeStripped = tx'.encodeStripped ∧
        tx.inputs.map TxInput.witness = tx'.inputs.map TxInput.witness)) := by
  refine ⟨encodeStripped_eq_iff timed words words', ?_⟩
  intro shape shape'
  exact encode_eq_iff timed words words' shape shape'

/-- The transaction with one input, with another witness. -/
def witnessedOtherwise : Transaction :=
  { witnessedTransaction with
    inputs :=
      [{ prevout := ⟨Wide.one, 7⟩, scriptSig := [], sequence := 0xffffffff,
         witness := [[1], [2]] }] }

/-- With another witness only the full encoding is another one. -/
theorem witnessed_otherwise_told_apart :
    witnessedTransaction.Addressable ∧ witnessedOtherwise.Addressable ∧
      witnessedTransaction.encodeStripped = witnessedOtherwise.encodeStripped ∧
      witnessedTransaction.encode ≠ witnessedOtherwise.encode := by
  have words : witnessedTransaction.Addressable := addressable_of_length_encode (by decide +kernel)
  have words' : witnessedOtherwise.Addressable := addressable_of_length_encode (by decide +kernel)
  have timed : witnessedTransaction.time.isSome = witnessedOtherwise.time.isSome := rfl
  obtain ⟨stripped, full⟩ := encodings_tell_apart timed words words'
  refine ⟨words, words', stripped.2 ⟨rfl, rfl, rfl, rfl, rfl⟩, ?_⟩
  intro same
  have witness := ((full (.inl (List.cons_ne_nil _ _)) (.inl (List.cons_ne_nil _ _))).1 same).2
  exact absurd witness (by decide)

/-- Has an output and no inputs. -/
def onlyOutput : Transaction where
  version := 1
  inputs := []
  outputs := [⟨1, List.replicate 34 0 ++ [1, 0]⟩]
  lockTime := 0

/-- Has an input with a witness and no outputs. -/
def onlyInput : Transaction where
  version := 1
  inputs := [⟨⟨Wide.ofNat 0x2400000000000000, 0⟩, [], 0, [[]]⟩]
  outputs := []
  lockTime := 0

-- outputs without inputs can be taken for a witness encoding
example : onlyOutput.encode = onlyInput.encode ∧
    onlyOutput.encodeStripped ≠ onlyInput.encodeStripped := by
  decide +kernel

end Transaction

end BlockRules
