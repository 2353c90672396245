import Mathlib
import BlockRules.Proofs.Script.Indices
import BlockRules.Proofs.SigHash.Request
import BlockRules.Proofs.Wire.Transactions

/-!
# Legacy signature hashes bind what they sign

The legacy summary has no tags and its parts have no fixed places. What it leaves out depends on
the hash type at its very end, and things that are left out are blanked rather than skipped.
Nevertheless it shows everything that is signed:

* **parts** — a head, a list of inputs and a list of outputs, which decoders take off one after
  the other (`legacyPreimage_inj`);
* **inputs** — which one is signed can be seen from the blanked list, as it is the only one
  with a script (`index_eq_of_blankedInputs`);
* **outputs** — one that is signed alone is the last one shown (`singleOutput_eq`).

Lengths are words. A summary of `2 ^ 64` bytes or more could not be written down, and its counts
would not determine what follows them.
-/

namespace BlockRules

namespace SigHash

variable {code code' : Bytes} {tx tx' : Transaction} {i i' : Nat} {t t' : HashType}

/-! ## The summary -/

/-- The inputs that the legacy summary shows. -/
def shownInputs (code : Bytes) (tx : Transaction) (i : Nat) (t : HashType) : List TxInput :=
  if t.anyoneCanPay then ((blankedInputs code tx i t).drop i).take 1 else blankedInputs code tx i t

/-- The preimage as one concatenation of its parts. -/
theorem legacyPreimage_eq (code : Bytes) (tx : Transaction) (i : Nat) (t : HashType) :
    legacyPreimage code tx i t =
      tx.encodeHead ++
        (Wire.list TxInput.encode (shownInputs (Script.removeCodeSeparators code) tx i t) ++
        (Wire.list TxOutput.encode (blankedOutputs tx i t) ++
          (Wire.uint32 tx.lockTime ++ Wire.uint32 t.raw))) := by
  simp only [legacyPreimage, shownInputs, List.append_assoc]

/-- Version and time can be read off the front of a transaction, if it is known whether there is a
time. -/
theorem encodeHead_append_inj {rest rest' : Bytes} (timed : tx.time.isSome = tx'.time.isSome)
    (same : tx.encodeHead ++ rest = tx'.encodeHead ++ rest') :
    tx.version = tx'.version ∧ tx.time = tx'.time ∧ rest = rest' := by
  rw [Transaction.encodeHead, Transaction.encodeHead, List.append_assoc, List.append_assoc] at same
  obtain ⟨version, same⟩ := Decoder.int32_exact.append_inj trivial trivial same
  rcases time : tx.time with _ | a <;> rcases time' : tx'.time with _ | b <;>
    rw [time, time'] at timed same
  · exact ⟨version, rfl, same⟩
  · cases timed
  · cases timed
  · have timed : Wire.uint32 a ++ rest = Wire.uint32 b ++ rest' := same
    obtain ⟨time, behind⟩ := Decoder.uint32_exact.append_inj trivial trivial timed
    exact ⟨version, congrArg some time, behind⟩

/-- Inputs can be read off the front of a byte string, but for their witnesses. -/
theorem inputs_append_inj {inputs inputs' : List TxInput} {rest rest' : Bytes}
    (small : (Wire.list TxInput.encode inputs).length < 2 ^ 64)
    (small' : (Wire.list TxInput.encode inputs').length < 2 ^ 64)
    (same : Wire.list TxInput.encode inputs ++ rest = Wire.list TxInput.encode inputs' ++ rest') :
    inputs.map TxInput.bare = inputs'.map TxInput.bare ∧ rest = rest' := by
  have inside : ∀ {inputs : List TxInput}, (Wire.list TxInput.encode inputs).length < 2 ^ 64 →
      (inputs.map TxInput.bare).length < 2 ^ 64 ∧
        ∀ i ∈ inputs.map TxInput.bare, i.scriptSig.length < 2 ^ 64 ∧ i.witness = [] := by
    intro inputs small
    obtain ⟨count, scripts⟩ := inputs_short_of_length small
    refine ⟨by rw [List.length_map]; exact count, ?_⟩
    intro i hi
    obtain ⟨j, hj, rfl⟩ := List.mem_map.1 hi
    exact ⟨scripts j hj, rfl⟩
  rw [← list_encode_bare inputs, ← list_encode_bare inputs'] at same
  exact Decoder.inputs_exact.append_inj (inside small) (inside small') same

/-- The parts of a legacy summary can be read off it. -/
theorem legacyPreimage_inj (timed : tx.time.isSome = tx'.time.isSome)
    (small : (legacyPreimage code tx i t).length < 2 ^ 64)
    (small' : (legacyPreimage code' tx' i' t').length < 2 ^ 64)
    (same : legacyPreimage code tx i t = legacyPreimage code' tx' i' t') :
    t = t' ∧ tx.version = tx'.version ∧ tx.time = tx'.time ∧ tx.lockTime = tx'.lockTime ∧
      (shownInputs (Script.removeCodeSeparators code) tx i t).map TxInput.bare =
        (shownInputs (Script.removeCodeSeparators code') tx' i' t').map TxInput.bare ∧
      blankedOutputs tx i t = blankedOutputs tx' i' t' := by
  rw [legacyPreimage_eq] at small small' same
  rw [legacyPreimage_eq] at same
  simp only [List.length_append] at small small'
  obtain ⟨version, time, same⟩ := encodeHead_append_inj timed same
  obtain ⟨inputs, same⟩ := inputs_append_inj (by omega) (by omega) same
  obtain ⟨outputs, same⟩ :=
    Decoder.outputs_exact.append_inj (outputs_short_of_length (by omega))
    (outputs_short_of_length (by omega)) same
  obtain ⟨lockTime, same⟩ := Decoder.uint32_exact.append_inj trivial trivial same
  have raw : t.raw = t'.raw := Decoder.uint32_exact.inj trivial trivial same
  exact ⟨congrArg HashType.mk raw, version, time, lockTime, inputs, outputs⟩

/-! ## Blanked inputs -/

/-- The signed input as the legacy summary shows it. -/
theorem blankedInputs_signed {input : TxInput} (there : tx.inputs[i]? = some input) :
    (blankedInputs code tx i t)[i]? = some { input with scriptSig := code } := by
  rw [blankedInputs, List.getElem?_mapIdx, there, Option.map_some, if_pos rfl]

/-- No other input is shown with a script. -/
theorem eq_of_scriptSig_ne_nil {j : Nat} {input : TxInput}
    (shown : (blankedInputs code tx i t)[j]? = some input)
    (scripted : input.scriptSig ≠ []) : j = i := by
  rw [blankedInputs, List.getElem?_mapIdx, Option.map_eq_some_iff] at shown
  obtain ⟨whole, -, rfl⟩ := shown
  by_contra other
  rw [if_neg other] at scripted
  exact scripted rfl

theorem map_prevout_blankedInputs :
    (blankedInputs code tx i t).map TxInput.prevout = tx.inputs.map TxInput.prevout := by
  apply List.ext_getElem?
  intro j
  rw [List.getElem?_map, List.getElem?_map, blankedInputs, List.getElem?_mapIdx, Option.map_map]
  congr 1
  funext input
  by_cases signed : j = i
  · simp only [Function.comp, if_pos signed]
  · simp only [Function.comp, if_neg signed]

/-- If all outputs are signed, all sequences are shown. -/
theorem map_sequence_blankedInputs (none : t.isNone = false) (single : t.isSingle = false) :
    (blankedInputs code tx i t).map TxInput.sequence = tx.inputs.map TxInput.sequence := by
  apply List.ext_getElem?
  intro j
  rw [List.getElem?_map, List.getElem?_map, blankedInputs, List.getElem?_mapIdx, Option.map_map]
  congr 1
  funext input
  by_cases signed : j = i
  · simp only [Function.comp, if_pos signed]
  · simp only [Function.comp, if_neg signed, none, single, Bool.or_self,
      Bool.false_eq_true, if_false]

/-- An input that is signed alone is the only one shown. -/
theorem shownInputs_of_anyoneCanPay {input : TxInput} (alone : t.anyoneCanPay = true)
    (there : tx.inputs[i]? = some input) :
    shownInputs code tx i t = [{ input with scriptSig := code }] := by
  obtain ⟨inside, signed⟩ :=
    List.getElem?_eq_some_iff.1 (@blankedInputs_signed code tx i t input there)
  rw [shownInputs, if_pos alone, List.drop_eq_getElem_cons inside, List.take_succ_cons,
    List.take_zero, signed]

/-- Inputs that are shown alike have the signed one at the same place. -/
theorem index_eq_of_blankedInputs (there : i < tx.inputs.length) (scripted : code ≠ [])
    (same : (blankedInputs code tx i t).map TxInput.bare =
      (blankedInputs code' tx' i' t').map TxInput.bare) : i = i' := by
  have signed := @blankedInputs_signed code tx i t _ (List.getElem?_eq_getElem there)
  have shown : ((blankedInputs code' tx' i' t').map TxInput.bare)[i]? =
      some (TxInput.bare { tx.inputs[i] with scriptSig := code }) := by
    rw [← same, List.getElem?_map, signed, Option.map_some]
  rw [List.getElem?_map, Option.map_eq_some_iff] at shown
  obtain ⟨input, shown, alike⟩ := shown
  have script : input.scriptSig = code := congrArg TxInput.scriptSig alike
  exact eq_of_scriptSig_ne_nil shown (script ▸ scripted)

/-- Inputs that are shown alike have the same signed one, and if all are shown, at the same
place. -/
theorem signed_eq_of_shownInputs {input input' : TxInput} (there : tx.inputs[i]? = some input)
    (there' : tx'.inputs[i']? = some input') (scripted : code ≠ [])
    (same : (shownInputs code tx i t).map TxInput.bare =
      (shownInputs code' tx' i' t).map TxInput.bare) :
    (input.prevout = input'.prevout ∧ code = code' ∧ input.sequence = input'.sequence) ∧
      (t.anyoneCanPay = false → i = i') := by
  have alike : TxInput.bare { input with scriptSig := code } =
        TxInput.bare { input' with scriptSig := code' } ∧
          (t.anyoneCanPay = false → i = i') := by
    rcases alone : t.anyoneCanPay with _ | _
    · rw [shownInputs, shownInputs, alone, if_neg Bool.false_ne_true,
        if_neg Bool.false_ne_true] at same
      obtain ⟨inside, -⟩ := List.getElem?_eq_some_iff.1 there
      obtain rfl := index_eq_of_blankedInputs inside scripted same
      have here := congrArg (·[i]?) same
      simp only [List.getElem?_map, blankedInputs_signed there, blankedInputs_signed there',
        Option.map_some, Option.some.injEq] at here
      exact ⟨here, fun _ => rfl⟩
    · rw [shownInputs_of_anyoneCanPay alone there,
        shownInputs_of_anyoneCanPay alone there'] at same
      exact ⟨(List.cons.inj same).1, nofun⟩
  obtain ⟨alike, place⟩ := alike
  obtain ⟨prevout, script, sequence, -⟩ := TxInput.mk.inj alike
  exact ⟨⟨prevout, script, sequence⟩, place⟩

/-- If all inputs are shown, what their bare forms have in common the inputs have in common. -/
theorem map_eq_of_shownInputs {α : Type} {f : TxInput → α}
    (bare : ∀ input, f input.bare = f input) (all : t.anyoneCanPay = false)
    (kept : (blankedInputs code tx i t).map f = tx.inputs.map f)
    (kept' : (blankedInputs code' tx' i' t).map f = tx'.inputs.map f)
    (same : (shownInputs code tx i t).map TxInput.bare =
      (shownInputs code' tx' i' t).map TxInput.bare) :
    tx.inputs.map f = tx'.inputs.map f := by
  rw [shownInputs, shownInputs, all, if_neg Bool.false_ne_true, if_neg Bool.false_ne_true] at same
  have alike := congrArg (List.map f) same
  have through : f ∘ TxInput.bare = f := funext bare
  rw [List.map_map, List.map_map, through, kept, kept'] at alike
  exact alike

/-! ## Blanked outputs -/

/-- An output that is signed alone stands behind as many blank ones as its index says. -/
theorem blankedOutputs_of_single {output : TxOutput} (single : t.isSingle = true)
    (there : tx.outputs[i]? = some output) :
    blankedOutputs tx i t = List.replicate i blankOutput ++ [output] := by
  obtain ⟨inside, own⟩ := List.getElem?_eq_some_iff.1 there
  rw [blankedOutputs, isNone_eq_false_of_isSingle single, if_neg Bool.false_ne_true, if_pos single,
    List.drop_eq_getElem_cons inside, List.take_succ_cons, List.take_zero, own]

/-- Outputs that are shown alike have the same one signed alone, at the same place. -/
theorem singleOutput_eq {output output' : TxOutput} (single : t.isSingle = true)
    (there : tx.outputs[i]? = some output) (there' : tx'.outputs[i']? = some output')
    (same : blankedOutputs tx i t = blankedOutputs tx' i' t) : i = i' ∧ output = output' := by
  rw [blankedOutputs_of_single single there, blankedOutputs_of_single single there'] at same
  have place : i = i' := by
    have count := congrArg List.length same
    simp only [List.length_append, List.length_replicate, List.length_singleton] at count
    omega
  subst place
  exact ⟨rfl, List.singleton_inj.1 (List.append_cancel_left same)⟩

/-- If all outputs are signed, all are shown. -/
theorem blankedOutputs_of_all (none : t.isNone = false) (single : t.isSingle = false) :
    blankedOutputs tx i t = tx.outputs := by
  rw [blankedOutputs, none, single, if_neg Bool.false_ne_true, if_neg Bool.false_ne_true]

/-! ## Hashes -/

namespace Request

variable {r r' : Request} {shared shared' : Option SharedHashes}

/-- The legacy summary. -/
def legacySummary (r : Request) : Bytes := legacyPreimage r.code r.tx r.index r.type

/-- The digest hashes the summary whenever the type has a preimage at this index. -/
theorem hash_legacy (hashes : hasLegacyPreimage r.tx r.index r.type = true) :
    r.hash .legacy shared = .ok (doubleSha256 r.legacySummary) := by
  rw [hash, signatureHash, legacy, if_pos hashes]
  rfl

/-- The signed input is there. -/
theorem exists_input_of_hashes (hashes : hasLegacyPreimage r.tx r.index r.type = true) :
    ∃ input, r.tx.inputs[r.index]? = some input := by
  rw [hasLegacyPreimage, Bool.and_eq_true, decide_eq_true_eq] at hashes
  exact ⟨_, List.getElem?_eq_getElem hashes.1⟩

/-- So is an output that is signed alone. -/
theorem exists_output_of_hashes (hashes : hasLegacyPreimage r.tx r.index r.type = true)
    (single : r.type.isSingle = true) : ∃ output, r.tx.outputs[r.index]? = some output := by
  rw [hasLegacyPreimage, Bool.and_eq_true, single, Bool.true_and, Bool.not_eq_true',
    decide_eq_false_iff_not, Nat.not_le] at hashes
  exact ⟨_, List.getElem?_eq_getElem hashes.2⟩

/-- **Legacy signatures bind what they sign.** Two requests that have the same hash, and no
collision of the hash function between their summaries, agree on everything that their hash type
asks for.

The requests are of one kind of network, the inputs to sign are there, so are outputs to be signed
alone, and there is a script to sign with the input: without it the signed input would look like
any other. -/
theorem legacy_hash_binds (timed : r.tx.time.isSome = r'.tx.time.isSome)
    (hashes : hasLegacyPreimage r.tx r.index r.type = true)
    (hashes' : hasLegacyPreimage r'.tx r'.index r'.type = true)
    (scripted : Script.removeCodeSeparators r.code ≠ [])
    (small : r.legacySummary.length < 2 ^ 64) (small' : r'.legacySummary.length < 2 ^ 64)
    (apart : doubleSha256 r.legacySummary = doubleSha256 r'.legacySummary →
      r.legacySummary = r'.legacySummary)
    (same : r.hash .legacy shared = r'.hash .legacy shared') : r.AgreeLegacy r' := by
  -- equal hashes are equal summaries, which are cut into the parts that were joined
  rw [hash_legacy hashes, hash_legacy hashes'] at same
  obtain ⟨type, version, time, lockTime, inputs, outputs⟩ :=
    legacyPreimage_inj timed small small' (apart (Except.ok.inj same))
  rw [← type] at inputs outputs
  obtain ⟨input, there⟩ := exists_input_of_hashes hashes
  obtain ⟨input', there'⟩ := exists_input_of_hashes hashes'
  -- of the inputs shown, the one with a script is the signed one
  obtain ⟨⟨prevout, code, sequence⟩, place⟩ :=
    signed_eq_of_shownInputs there there' scripted inputs
  have alone : r.type.isSingle = true → r.index = r'.index ∧
      ∃ output, r.tx.outputs[r.index]? = some output ∧
        r'.tx.outputs[r'.index]? = some output := by
    intro single
    obtain ⟨output, own⟩ := exists_output_of_hashes hashes single
    obtain ⟨output', own'⟩ := exists_output_of_hashes hashes' (type ▸ single)
    obtain ⟨place, rfl⟩ := singleOutput_eq single own own' outputs
    exact ⟨place, output, own, own'⟩
  exact
    { type, version, time, lockTime, code
      input := ⟨input, input', there, there', prevout, sequence⟩
      index := fun signed => signed.elim place fun single => (alone single).1
      output := fun single => (alone single).2
      prevouts := fun all => map_eq_of_shownInputs (fun _ => rfl) all map_prevout_blankedInputs
        map_prevout_blankedInputs inputs
      sequences := by
        intro all signs
        obtain ⟨single, none⟩ := signsAll_iff.1 signs
        exact map_eq_of_shownInputs (fun _ => rfl) all (map_sequence_blankedInputs none single)
          (map_sequence_blankedInputs none single) inputs
      outputs := by
        intro signs
        obtain ⟨single, none⟩ := signsAll_iff.1 signs
        rw [blankedOutputs_of_all none single, blankedOutputs_of_all none single] at outputs
        exact outputs }

/-- Signs the second of two outputs. -/
def second : Request :=
  { code := [0x51, 0xab]
    tx :=
      { version := 2
        time := some 1600000000
        inputs :=
          [{ prevout := ⟨Wide.one, 0⟩, scriptSig := [0x51], sequence := 7 },
            { prevout := ⟨Wide.one, 1⟩, scriptSig := [], sequence := 0xfffffffe }]
        outputs := [⟨1, [0x51]⟩, ⟨5000, [0x52]⟩]
        lockTime := 500 }
    index := 1
    type := ⟨3⟩
    amount := 6000 }

/-- Signs the same, with everything else changed. -/
def secondOfOthers : Request :=
  { code := [0xab, 0x51]
    tx :=
      { version := 2
        time := some 1600000000
        inputs :=
          [{ prevout := ⟨Wide.one, 0⟩, scriptSig := [], sequence := 8, witness := [[]] },
            { prevout := ⟨Wide.one, 1⟩, scriptSig := [0x00], sequence := 0xfffffffe }]
        outputs := [⟨2, []⟩, ⟨5000, [0x52]⟩, ⟨3, [0x51]⟩]
        lockTime := 500 }
    index := 1
    type := ⟨3⟩
    amount := 0 }

/-- Both have the same hash, and agree on what it is over. -/
theorem second_of_others_signed_alike :
    second.legacySummary.length < 2 ^ 64 ∧ secondOfOthers.legacySummary.length < 2 ^ 64 ∧
      second.hash .legacy none = secondOfOthers.hash .legacy none ∧
      second.AgreeLegacy secondOfOthers := by
  have alike : second.legacySummary = secondOfOthers.legacySummary := by decide +kernel
  have small : second.legacySummary.length < 2 ^ 64 := by decide +kernel
  have hashes : hasLegacyPreimage second.tx second.index second.type = true := by decide
  have hashes' :
      hasLegacyPreimage secondOfOthers.tx secondOfOthers.index secondOfOthers.type = true := by
    decide
  have same : second.hash .legacy none = secondOfOthers.hash .legacy none := by
    rw [hash_legacy hashes, hash_legacy hashes', alike]
  exact ⟨small, alike ▸ small, same,
    legacy_hash_binds rfl hashes hashes' (by decide +kernel) small (alike ▸ small)
    (fun _ => alike) same⟩

end Request

end SigHash

end BlockRules
