import Mathlib
import BlockRules.Proofs.SigHash.Legacy
import BlockRules.Proofs.SigHash.Witness

/-!
# Signature hashes depend on nothing but what is signed

That a hash binds what is signed is one half of what a hash type means. The other half is freedom:
whoever signs one input alone wants others to be able to add theirs, and nobody may invalidate a
signature by filling in a script. So two requests that have the signed parts in common
(`Request.SignAlike`) must have the same hash, whatever the rest of their transactions looks like.

* **legacy** — the summaries show the same inputs but for their witnesses, which are not encoded
  (`map_bare_shownInputs_congr`), and the same outputs (`blankedOutputs_congr`). A single output
  that does not exist is missing on both sides (`hasLegacyPreimage_congr`);
* **witnesses** — every place of the summaries is the same (`prevoutsPart_congr`,
  `sequencesPart_congr`, `outputsPart_congr`).

No property of the hash function is used.
-/

namespace BlockRules

namespace SigHash

variable {code : Bytes} {tx tx' : Transaction} {i : Nat} {t : HashType} {input input' : TxInput}

/-! ## The legacy summary -/

/-- The input at a place as the legacy summary shows it, its witness left out. -/
def shownInput (code : Bytes) (i : Nat) (t : HashType) (j : Nat) (input : TxInput) : TxInput :=
  if j = i then { prevout := input.prevout, scriptSig := code, sequence := input.sequence }
  else
    { prevout := input.prevout
      scriptSig := []
      sequence := if t.isNone || t.isSingle then 0 else input.sequence }

/-- What is shown of one input does not depend on the other inputs. -/
theorem getElem?_map_bare_blankedInputs (j : Nat) :
    ((blankedInputs code tx i t).map TxInput.bare)[j]? =
      tx.inputs[j]?.map (shownInput code i t j) := by
  rw [List.getElem?_map, blankedInputs, List.getElem?_mapIdx, Option.map_map]
  congr 1
  funext input
  rw [Function.comp, shownInput]
  split <;> rfl

/-- What is shown of an input is its outpoint, and its sequence if it is the signed one or all
outputs are signed. -/
theorem shownInput_congr {j : Nat} (prevout : input.prevout = input'.prevout)
    (sequence : j = i ∨ t.isNone = false ∧ t.isSingle = false →
      input.sequence = input'.sequence) :
    shownInput code i t j input = shownInput code i t j input' := by
  rw [shownInput, shownInput, prevout]
  split
  next signed => rw [sequence (.inl signed)]
  next =>
    split
    next => rfl
    next all => rw [sequence (.inr (Bool.or_eq_false_iff.1 (Bool.eq_false_iff.2 all)))]

/-- The legacy summary shows the same inputs if their outpoints and sequences agree as far as they
are signed. -/
theorem map_bare_shownInputs_congr (there : tx.inputs[i]? = some input)
    (there' : tx'.inputs[i]? = some input') (prevout : input.prevout = input'.prevout)
    (sequence : input.sequence = input'.sequence)
    (prevouts : t.anyoneCanPay = false →
      tx.inputs.map TxInput.prevout = tx'.inputs.map TxInput.prevout)
    (sequences : t.anyoneCanPay = false → t.isNone = false ∧ t.isSingle = false →
      tx.inputs.map TxInput.sequence = tx'.inputs.map TxInput.sequence) :
    (shownInputs code tx i t).map TxInput.bare = (shownInputs code tx' i t).map TxInput.bare := by
  rcases alone : t.anyoneCanPay with _ | _
  · rw [shownInputs, shownInputs, alone, if_neg Bool.false_ne_true, if_neg Bool.false_ne_true]
    apply List.ext_getElem?
    intro j
    rw [getElem?_map_bare_blankedInputs, getElem?_map_bare_blankedInputs]
    -- the two inputs at a place are both there or both missing, because their outpoints are
    have names : tx.inputs[j]?.map TxInput.prevout = tx'.inputs[j]?.map TxInput.prevout := by
      rw [← List.getElem?_map, ← List.getElem?_map, prevouts alone]
    rcases here : tx.inputs[j]? with _ | other
    · rw [here, Option.map_none, eq_comm, Option.map_eq_none_iff] at names
      rw [names]
    · rw [here, Option.map_some, eq_comm, Option.map_eq_some_iff] at names
      obtain ⟨other', here', named⟩ := names
      rw [here', Option.map_some, Option.map_some]
      refine congrArg some (shownInput_congr named.symm ?_)
      rintro (rfl | all)
      · obtain rfl := Option.some.inj (here.symm.trans there)
        obtain rfl := Option.some.inj (here'.symm.trans there')
        exact sequence
      · have delays := congrArg (·[j]?) (sequences alone all)
        simp only [List.getElem?_map, here, here', Option.map_some, Option.some.injEq] at delays
        exact delays
  · rw [shownInputs_of_anyoneCanPay alone there, shownInputs_of_anyoneCanPay alone there']
    simp only [List.map_cons, List.map_nil, TxInput.bare, prevout, sequence]

/-- It shows the same outputs if those agree that are signed. -/
theorem blankedOutputs_congr
    (outputs : t.isSingle = false → t.isNone = false → tx.outputs = tx'.outputs)
    (output : t.isSingle = true → tx.outputs[i]? = tx'.outputs[i]?) :
    blankedOutputs tx i t = blankedOutputs tx' i t := by
  rw [blankedOutputs, blankedOutputs]
  split
  next => rfl
  next some =>
    split
    next single =>
      rw [List.take_one, List.take_one, List.head?_drop, List.head?_drop, output single]
    next all => exact outputs (Bool.eq_false_iff.2 all) (Bool.eq_false_iff.2 some)

/-- There is a summary on both sides or on neither. -/
theorem hasLegacyPreimage_congr (there : tx.inputs[i]? = some input)
    (there' : tx'.inputs[i]? = some input')
    (output : t.isSingle = true → tx.outputs[i]? = tx'.outputs[i]?) :
    hasLegacyPreimage tx i t = hasLegacyPreimage tx' i t := by
  obtain ⟨inside, -⟩ := List.getElem?_eq_some_iff.1 there
  obtain ⟨inside', -⟩ := List.getElem?_eq_some_iff.1 there'
  rw [hasLegacyPreimage, hasLegacyPreimage, decide_eq_true inside, decide_eq_true inside']
  rcases single : t.isSingle with _ | _
  · rfl
  · have missing : tx.outputs.length ≤ i ↔ tx'.outputs.length ≤ i := by
      rw [← List.getElem?_eq_none_iff, ← List.getElem?_eq_none_iff, output single]
    rw [decide_eq_decide.2 missing]

/-! ## The summary for witnesses -/

/-- The outpoints enter the hash unless anyone can pay. -/
theorem prevoutsPart_congr
    (prevouts : t.anyoneCanPay = false →
      tx.inputs.map TxInput.prevout = tx'.inputs.map TxInput.prevout) :
    prevoutsPart tx t = prevoutsPart tx' t := by
  rw [prevoutsPart, prevoutsPart]
  split
  next => rfl
  next all =>
    have same := congrArg (List.flatMap OutPoint.encode) (prevouts (Bool.eq_false_iff.2 all))
    rw [List.flatMap_map, List.flatMap_map] at same
    exact congrArg some same

/-- The sequences enter the hash only when all inputs and all outputs are signed. -/
theorem sequencesPart_congr
    (sequences : t.anyoneCanPay = false → t.isNone = false ∧ t.isSingle = false →
      tx.inputs.map TxInput.sequence = tx'.inputs.map TxInput.sequence) :
    sequencesPart tx t = sequencesPart tx' t := by
  rw [sequencesPart, sequencesPart]
  split
  next => rfl
  next all =>
    simp only [Bool.not_eq_true, Bool.or_eq_false_iff] at all
    have same := congrArg (List.flatMap Wire.uint32) (sequences all.1.1 ⟨all.2, all.1.2⟩)
    rw [List.flatMap_map, List.flatMap_map] at same
    exact congrArg some same

/-- Of the outputs, all enter the hash, or the one at the index, or none. -/
theorem outputsPart_congr
    (outputs : t.isSingle = false → t.isNone = false → tx.outputs = tx'.outputs)
    (output : t.isSingle = true → tx.outputs[i]? = tx'.outputs[i]?) :
    outputsPart tx i t = outputsPart tx' i t := by
  rw [outputsPart, outputsPart]
  split
  next => rfl
  next some =>
    split
    next single => rw [output single]
    next all => rw [outputs (Bool.eq_false_iff.2 all) (Bool.eq_false_iff.2 some)]

/-! ## Hashes -/

namespace Request

/-- What two requests have in common if their signatures are over the same: everything that the
hash type signs, at the same place, and the amount if the version signs it. -/
structure SignAlike (v : SigVersion) (r r' : Request) : Prop extends Agree r r' where
  time : r.tx.time = r'.tx.time
  code : r.code = r'.code
  index : r.index = r'.index
  /-- an output that is signed alone is the same, or there is none on either side -/
  output : r.type.isSingle = true → r.tx.outputs[r.index]? = r'.tx.outputs[r'.index]?
  amount : v = .witnessV0 → r.amount = r'.amount

variable {v : SigVersion} {r r' : Request}

theorem hash_legacy_congr (alike : r.SignAlike .legacy r') :
    r.hash .legacy none = r'.hash .legacy none := by
  obtain ⟨input, input', there, there', prevout, sequence⟩ := alike.input
  have output := alike.output
  rw [← alike.index] at there' output
  have inputs := @map_bare_shownInputs_congr (Script.removeCodeSeparators r.code) r.tx r'.tx r.index
    r.type input input' there there' prevout sequence alike.prevouts
    fun all signs => alike.sequences all (signsAll_iff.2 signs.symm)
  have outputs := @blankedOutputs_congr r.tx r'.tx r.index r.type
    (fun single none => alike.outputs (signsAll_iff.2 ⟨single, none⟩)) output
  have head : r.tx.encodeHead = r'.tx.encodeHead := by
    rw [Transaction.encodeHead, Transaction.encodeHead, alike.version, alike.time]
  have summary : legacyPreimage r.code r.tx r.index r.type =
      legacyPreimage r.code r'.tx r.index r.type := by
    rw [legacyPreimage_eq, legacyPreimage_eq, head, ← list_encode_bare, inputs,
      list_encode_bare, outputs, alike.lockTime]
  rw [hash, hash, signatureHash, signatureHash, ← alike.type, ← alike.code, ← alike.index,
    legacy, legacy, hasLegacyPreimage_congr there there' output, summary]

theorem hash_witnessV0_congr (alike : r.SignAlike .witnessV0 r') :
    r.hash .witnessV0 none = r'.hash .witnessV0 none := by
  obtain ⟨input, input', there, there', prevout, sequence⟩ := alike.input
  have output := alike.output
  rw [← alike.index] at output
  have outpoints : prevoutsPart r.tx r.type = prevoutsPart r'.tx r.type :=
    prevoutsPart_congr alike.prevouts
  have delays : sequencesPart r.tx r.type = sequencesPart r'.tx r.type :=
    sequencesPart_congr fun all signs => alike.sequences all (signsAll_iff.2 signs.symm)
  have paid : outputsPart r.tx r.index r.type = outputsPart r'.tx r.index r.type :=
    outputsPart_congr (fun single none => alike.outputs (signsAll_iff.2 ⟨single, none⟩)) output
  have summary : witnessPreimage (.ofTransaction r.tx) r.code r.tx r.index input r.type r.amount =
      witnessPreimage (.ofTransaction r'.tx) r.code r'.tx r.index input' r.type r.amount := by
    rw [witnessPreimage_eq, witnessPreimage_eq, alike.version, alike.lockTime, prevout,
      sequence, outpoints, delays, paid]
  rw [hash_witnessV0 there (.inl rfl), hash_witnessV0 there' (.inl rfl), summary,
    alike.type, alike.code, alike.index, alike.amount rfl]

/-- Requests that sign the same have the same hash. -/
theorem SignAlike.hash_eq (alike : r.SignAlike v r') : r.hash v none = r'.hash v none := by
  cases v with
  | legacy => exact hash_legacy_congr alike
  | witnessV0 => exact hash_witnessV0_congr alike

/-- Every request whose signed input is there has a hash. -/
theorem exists_hash (inside : r.index < r.tx.inputs.length) :
    ∃ digest, r.hash v none = .ok digest := by
  cases v with
  | legacy => exact ⟨_, rfl⟩
  | witnessV0 => exact ⟨_, hash_witnessV0 (List.getElem?_eq_getElem inside) (.inl rfl)⟩

/-! ## What may change -/

/-- Inputs and outputs may change as far as they are not signed. -/
theorem signAlike_of_parts {inputs : List TxInput} {outputs : List TxOutput}
    {input input' : TxInput}
    (there : r.tx.inputs[r.index]? = some input) (there' : inputs[r.index]? = some input')
    (prevout : input.prevout = input'.prevout) (sequence : input.sequence = input'.sequence)
    (prevouts : r.type.anyoneCanPay = false →
      r.tx.inputs.map TxInput.prevout = inputs.map TxInput.prevout)
    (sequences : r.type.anyoneCanPay = false →
      r.tx.inputs.map TxInput.sequence = inputs.map TxInput.sequence)
    (paid : r.type.isNone = false → r.tx.outputs = outputs) :
    r.SignAlike v { r with tx := { r.tx with inputs, outputs } } where
  type := rfl
  version := rfl
  lockTime := rfl
  time := rfl
  code := rfl
  index := rfl
  amount _ := rfl
  input := ⟨input, input', there, there', prevout, sequence⟩
  prevouts := prevouts
  sequences all _ := sequences all
  outputs signs := paid (signsAll_iff.1 signs).2
  output single := congrArg (·[r.index]?) (paid (isNone_eq_false_of_isSingle single))

/-- The scripts and witnesses of inputs are not signed. -/
theorem signAlike_of_scripts {inputs : List TxInput} (inside : r.index < r.tx.inputs.length)
    (prevouts : inputs.map TxInput.prevout = r.tx.inputs.map TxInput.prevout)
    (sequences : inputs.map TxInput.sequence = r.tx.inputs.map TxInput.sequence) :
    r.SignAlike v { r with tx := { r.tx with inputs } } := by
  have count := congrArg List.length prevouts
  rw [List.length_map, List.length_map] at count
  have inside' : r.index < inputs.length := count ▸ inside
  have prevout := congrArg (·[r.index]?) prevouts
  have sequence := congrArg (·[r.index]?) sequences
  simp only [List.getElem?_map, List.getElem?_eq_getElem inside, List.getElem?_eq_getElem inside',
    Option.map_some, Option.some.injEq] at prevout sequence
  exact signAlike_of_parts (List.getElem?_eq_getElem inside) (List.getElem?_eq_getElem inside')
    prevout.symm sequence.symm (fun _ => prevouts.symm) (fun _ => sequences.symm) fun _ => rfl

/-- **Signatures depend on nothing but what they sign.** A request whose signed input is there has a
hash in either version, and whatever signs the same has the same one. So the hash is not changed by

* other scripts or witnesses of the inputs,
* other outputs, if none is signed,
* other inputs than the signed one, if that is signed alone,
* another amount, in the legacy version. -/
theorem hash_only_of_signed (inside : r.index < r.tx.inputs.length) :
    ∃ digest, r.hash v none = .ok digest ∧
      (∀ r' : Request, r.SignAlike v r' → r'.hash v none = .ok digest) ∧
      (∀ inputs : List TxInput, inputs.map TxInput.prevout = r.tx.inputs.map TxInput.prevout →
        inputs.map TxInput.sequence = r.tx.inputs.map TxInput.sequence →
        ({ r with tx := { r.tx with inputs } } : Request).hash v none = .ok digest) ∧
      (r.type.isNone = true → ∀ outputs : List TxOutput,
        ({ r with tx := { r.tx with outputs } } : Request).hash v none = .ok digest) ∧
      (r.type.anyoneCanPay = true → ∀ inputs : List TxInput,
        inputs[r.index]? = r.tx.inputs[r.index]? →
        ({ r with tx := { r.tx with inputs } } : Request).hash v none = .ok digest) ∧
      (v = .legacy →
        ∀ amount : Int64, ({ r with amount } : Request).hash v none = .ok digest) := by
  obtain ⟨digest, own⟩ : ∃ digest, r.hash v none = .ok digest := exists_hash inside
  have there := List.getElem?_eq_getElem inside
  -- each part that may be changed is one that is not signed
  have same : ∀ r' : Request, r.SignAlike v r' → r'.hash v none = .ok digest := by
    intro r' alike
    rw [← alike.hash_eq, own]
  refine ⟨digest, own, same, ?_, ?_, ?_, ?_⟩
  · intro inputs prevouts sequences
    exact same _ (signAlike_of_scripts inside prevouts sequences)
  · intro none outputs
    refine same _ (signAlike_of_parts there there rfl rfl (fun _ => rfl) (fun _ => rfl) ?_)
    intro some
    cases none.symm.trans some
  · intro alone inputs kept
    refine same _ (signAlike_of_parts there (kept.trans there) rfl rfl ?_ ?_ fun _ => rfl)
    · intro all
      cases alone.symm.trans all
    · intro all
      cases alone.symm.trans all
  · rintro rfl amount
    exact own

/-- An input that signs the second of two outputs alone, with the first one and the amount
changed. -/
theorem second_signed_whatever_else :
    second.index < second.tx.inputs.length ∧ ∃ digest, second.hash .legacy none = .ok digest ∧
      ({ second with tx := secondOfOthers.tx, amount := 0 } : Request).hash .legacy none =
        .ok digest := by
  have inside : second.index < second.tx.inputs.length := by decide
  obtain ⟨digest, own, same, -⟩ := @hash_only_of_signed .legacy second inside
  refine ⟨inside, digest, own, same _ ?_⟩
  exact
    { type := rfl, version := rfl, lockTime := rfl, time := rfl, code := rfl, index := rfl
      input := ⟨_, _, rfl, rfl, rfl, rfl⟩
      prevouts := fun _ => rfl
      sequences := fun _ all => absurd all (by decide)
      outputs := fun all => absurd all (by decide)
      output := fun _ => rfl
      amount := nofun }

end Request

end SigHash

end BlockRules
