import Mathlib
import BlockRules.Proofs.Script.Indices
import BlockRules.Proofs.SigHash.Request
import BlockRules.Proofs.Wire.Transactions

/-!
# Signature hashes for witnesses bind what they sign

The summary for witnesses has places of fixed width around one byte string, and can be read off
place by place (`witnessPreimage_inj`). Three of the places do not hold a part of the transaction
but its hash, or zero if the part is not signed (`hashOfPart`). The parts are lists without
counts; they can be told apart because their elements show where they end.

* `prevoutsPart`, `sequencesPart`, `outputsPart` — the parts, as far as they are signed;
* `Request.hashed` — the byte strings that are hashed on the way, which the hash function must
  tell apart from each other and from no part at all.
-/

namespace BlockRules

namespace SigHash

variable {code code' : Bytes} {tx tx' : Transaction} {i i' : Nat} {t t' : HashType}

/-! ## The summary -/

/-- The place of a part: its hash, or zero if it is not signed. -/
def hashOfPart (part : Option Bytes) : UInt256 := part.elim Wide.zero doubleSha256

/-- All outpoints, unless only the signed input is signed. -/
def prevoutsPart (tx : Transaction) (t : HashType) : Option Bytes :=
  if t.anyoneCanPay then none else some (tx.inputs.flatMap fun input => input.prevout.encode)

/-- All sequences, if all inputs and outputs are signed. -/
def sequencesPart (tx : Transaction) (t : HashType) : Option Bytes :=
  if t.anyoneCanPay || t.isSingle || t.isNone then none
  else some (tx.inputs.flatMap fun input => Wire.uint32 input.sequence)

/-- The outputs that are signed. -/
def outputsPart (tx : Transaction) (i : Nat) (t : HashType) : Option Bytes :=
  if t.isNone then none
  else if t.isSingle then tx.outputs[i]?.map TxOutput.encode
  else some (tx.outputs.flatMap TxOutput.encode)

variable {input input' : TxInput} {amount amount' : Int64}

theorem witnessPreimage_eq (code : Bytes) (tx : Transaction) (i : Nat) (input : TxInput)
    (t : HashType) (amount : Int64) :
    witnessPreimage (.ofTransaction tx) code tx i input t amount =
      Wire.int32 tx.version ++ (Wire.uint256 (hashOfPart (prevoutsPart tx t)) ++
        (Wire.uint256 (hashOfPart (sequencesPart tx t)) ++ (input.prevout.encode ++
          (Wire.varBytes code ++ (Wire.int64 amount ++ (Wire.uint32 input.sequence ++
            (Wire.uint256 (hashOfPart (outputsPart tx i t)) ++
              (Wire.uint32 tx.lockTime ++ Wire.uint32 t.raw)))))))) := by
  have prevouts : (if t.anyoneCanPay then Wide.zero else (SharedHashes.ofTransaction tx).prevouts) =
      hashOfPart (prevoutsPart tx t) := by
    rw [prevoutsPart]
    split <;> rfl
  have sequences : (if !(t.anyoneCanPay || t.isSingle || t.isNone) then
      (SharedHashes.ofTransaction tx).sequences
      else Wide.zero) = hashOfPart (sequencesPart tx t) := by
    rw [sequencesPart]
    cases t.anyoneCanPay || t.isSingle || t.isNone <;> rfl
  have outputs : witnessOutputs (.ofTransaction tx) tx i t = hashOfPart (outputsPart tx i t) := by
    rw [witnessOutputs, outputsPart]
    split
    next => rfl
    next =>
      split
      next => rcases tx.outputs[i]? with _ | output <;> rfl
      next => rfl
  simp only [witnessPreimage, prevouts, sequences, outputs, List.append_assoc]

/-- All places but the script have fixed widths. -/
theorem length_witnessPreimage :
    (witnessPreimage (.ofTransaction tx) code tx i input t amount).length =
      156 + (Wire.varBytes code).length := by
  have wide : ∀ v : UInt256, (Wire.uint256 v).length = 32 := fun v => v.length_bytesLE
  rw [witnessPreimage_eq, OutPoint.encode]
  simp only [List.length_append, wide, Wire.int32, Wire.int64, Wire.uint32, Wire.uint64,
    Bytes.length_ofNat]
  omega

/-- The places of a summary for witnesses can be read off it. -/
theorem witnessPreimage_inj
    (small : (witnessPreimage (.ofTransaction tx) code tx i input t amount).length < 2 ^ 64)
    (small' : (witnessPreimage (.ofTransaction tx') code' tx' i' input' t' amount').length < 2 ^ 64)
    (same : witnessPreimage (.ofTransaction tx) code tx i input t amount =
      witnessPreimage (.ofTransaction tx') code' tx' i' input' t' amount') :
    t = t' ∧ tx.version = tx'.version ∧ tx.lockTime = tx'.lockTime ∧ code = code' ∧
    amount = amount' ∧
      input.prevout = input'.prevout ∧ input.sequence = input'.sequence ∧
      hashOfPart (prevoutsPart tx t) = hashOfPart (prevoutsPart tx' t') ∧
      hashOfPart (sequencesPart tx t) = hashOfPart (sequencesPart tx' t') ∧
      hashOfPart (outputsPart tx i t) = hashOfPart (outputsPart tx' i' t') := by
  rw [witnessPreimage_eq] at small small' same
  rw [witnessPreimage_eq] at same
  have short := length_le_length_varBytes code
  have short' := length_le_length_varBytes code'
  simp only [List.length_append] at small small'
  obtain ⟨version, same⟩ := Decoder.int32_exact.append_inj trivial trivial same
  obtain ⟨prevouts, same⟩ := Decoder.uint256_exact.append_inj trivial trivial same
  obtain ⟨sequences, same⟩ := Decoder.uint256_exact.append_inj trivial trivial same
  obtain ⟨prevout, same⟩ := Decoder.outPoint_exact.append_inj trivial trivial same
  obtain ⟨code, same⟩ := Decoder.varBytes_exact.append_inj (by omega) (by omega) same
  obtain ⟨amount, same⟩ := Decoder.int64_exact.append_inj trivial trivial same
  obtain ⟨sequence, same⟩ := Decoder.uint32_exact.append_inj trivial trivial same
  obtain ⟨outputs, same⟩ := Decoder.uint256_exact.append_inj trivial trivial same
  obtain ⟨lockTime, same⟩ := Decoder.uint32_exact.append_inj trivial trivial same
  have raw : t.raw = t'.raw := Decoder.uint32_exact.inj trivial trivial same
  exact ⟨congrArg HashType.mk raw, version, lockTime, code, amount, prevout, sequence, prevouts,
    sequences, outputs⟩

/-! ## Parts -/

/-- A place shows which part it is the place of, and whether it is signed. -/
theorem hashOfPart_inj {part part' : Option Bytes}
    (apart : ∀ s ∈ part, ∀ s' ∈ part', doubleSha256 s = doubleSha256 s' → s = s')
    (nonzero : ∀ s ∈ part, doubleSha256 s ≠ Wide.zero)
    (nonzero' : ∀ s ∈ part', doubleSha256 s ≠ Wide.zero)
    (same : hashOfPart part = hashOfPart part') : part = part' := by
  rcases part with _ | s <;> rcases part' with _ | s'
  · rfl
  · exact absurd same.symm (nonzero' s' rfl)
  · exact absurd same (nonzero s rfl)
  · rw [apart s rfl s' rfl same]

/-- The outpoints can be read off their part. -/
theorem prevouts_eq_of_part (all : t.anyoneCanPay = false)
    (same : prevoutsPart tx t = prevoutsPart tx' t) :
    tx.inputs.map TxInput.prevout = tx'.inputs.map TxInput.prevout := by
  rw [prevoutsPart, prevoutsPart, all, if_neg Bool.false_ne_true, if_neg Bool.false_ne_true] at same
  have strings : (tx.inputs.map TxInput.prevout).flatMap OutPoint.encode =
      (tx'.inputs.map TxInput.prevout).flatMap OutPoint.encode := by
    rw [List.flatMap_map, List.flatMap_map]
    exact Option.some.inj same
  exact Decoder.outPoint_exact.flatMap_inj OutPoint.encode_ne_nil (fun _ _ => trivial)
    (fun _ _ => trivial) strings

/-- So can the sequences. -/
theorem sequences_eq_of_part (all : t.anyoneCanPay = false) (single : t.isSingle = false)
    (none : t.isNone = false) (same : sequencesPart tx t = sequencesPart tx' t) :
    tx.inputs.map TxInput.sequence = tx'.inputs.map TxInput.sequence := by
  simp only [sequencesPart, all, single, none, Bool.or_self, Bool.false_eq_true, if_false] at same
  have strings : (tx.inputs.map TxInput.sequence).flatMap Wire.uint32 =
      (tx'.inputs.map TxInput.sequence).flatMap Wire.uint32 := by
    rw [List.flatMap_map, List.flatMap_map]
    exact Option.some.inj same
  have occupies : ∀ n, Wire.uint32 n ≠ [] := fun n => List.cons_ne_nil _ _
  exact Decoder.uint32_exact.flatMap_inj occupies (fun _ _ => trivial) (fun _ _ => trivial) strings

/-- If all outputs are signed, they can be read off their part. -/
theorem outputs_eq_of_part (single : t.isSingle = false) (none : t.isNone = false)
    (small : ∀ s ∈ outputsPart tx i t, s.length < 2 ^ 64)
    (small' : ∀ s ∈ outputsPart tx' i' t, s.length < 2 ^ 64)
    (same : outputsPart tx i t = outputsPart tx' i' t) : tx.outputs = tx'.outputs := by
  rw [outputsPart, none, single, if_neg Bool.false_ne_true, if_neg Bool.false_ne_true]
    at small small' same
  rw [outputsPart, none, single, if_neg Bool.false_ne_true, if_neg Bool.false_ne_true] at same
  exact Decoder.txOutput_exact.flatMap_inj TxOutput.encode_ne_nil
    (outputScripts_short_of_length (small _ rfl))
    (outputScripts_short_of_length (small' _ rfl)) (Option.some.inj same)

/-- An output that is signed alone can be read off its part, or that there is none. -/
theorem output_eq_of_part (single : t.isSingle = true)
    (small : ∀ s ∈ outputsPart tx i t, s.length < 2 ^ 64)
    (small' : ∀ s ∈ outputsPart tx' i' t, s.length < 2 ^ 64)
    (same : outputsPart tx i t = outputsPart tx' i' t) : tx.outputs[i]? = tx'.outputs[i']? := by
  rw [outputsPart, isNone_eq_false_of_isSingle single, if_neg Bool.false_ne_true, if_pos single]
    at small small' same
  rw [outputsPart, isNone_eq_false_of_isSingle single, if_neg Bool.false_ne_true,
    if_pos single] at same
  rcases own : tx.outputs[i]? with _ | output <;> rcases own' : tx'.outputs[i']? with _ | output'
  · rfl
  · rw [own, own'] at same
    cases same
  · rw [own, own'] at same
    cases same
  · rw [own, own'] at same
    have short := lt_of_le_of_lt output.length_scriptPubkey_le (small _ (by rw [own]; rfl))
    have short' := lt_of_le_of_lt output'.length_scriptPubkey_le (small' _ (by rw [own']; rfl))
    rw [Decoder.txOutput_exact.inj short short' (Option.some.inj same)]

/-! ## Hashes -/

namespace Request

variable {r r' : Request} {shared shared' : Option SharedHashes}

/-- The summary for witnesses, if the signed input is there. -/
def witnessSummary? (r : Request) : Option Bytes :=
  r.tx.inputs[r.index]?.map fun input =>
    witnessPreimage (.ofTransaction r.tx) r.code r.tx r.index input r.type r.amount

/-- The byte strings whose hashes the hash for a witness is made of, and the summary itself. -/
def hashed (r : Request) : List Bytes :=
  (prevoutsPart r.tx r.type).toList ++ (sequencesPart r.tx r.type).toList
    ++ (outputsPart r.tx r.index r.type).toList ++ r.witnessSummary?.toList

/-- What is hashed on the way to a digest: three shared parts and the preimage itself. -/
theorem mem_hashed_iff {s : Bytes} :
    s ∈ r.hashed ↔ s ∈ prevoutsPart r.tx r.type ∨ s ∈ sequencesPart r.tx r.type ∨
      s ∈ outputsPart r.tx r.index r.type ∨ s ∈ r.witnessSummary? := by
  simp only [hashed, List.mem_append, Option.mem_toList, Option.mem_def, or_assoc]

theorem mem_hashed_of_prevouts : ∀ s ∈ prevoutsPart r.tx r.type, s ∈ r.hashed :=
  fun _ h => mem_hashed_iff.2 (.inl h)

theorem mem_hashed_of_sequences : ∀ s ∈ sequencesPart r.tx r.type, s ∈ r.hashed :=
  fun _ h => mem_hashed_iff.2 (.inr (.inl h))

theorem mem_hashed_of_outputs : ∀ s ∈ outputsPart r.tx r.index r.type, s ∈ r.hashed :=
  fun _ h => mem_hashed_iff.2 (.inr (.inr (.inl h)))

theorem summary_mem_hashed {input : TxInput} (there : r.tx.inputs[r.index]? = some input) :
    witnessPreimage (.ofTransaction r.tx) r.code r.tx r.index input r.type r.amount ∈
      r.hashed := by
  refine mem_hashed_iff.2 (.inr (.inr (.inr ?_)))
  rw [witnessSummary?, there]
  rfl

/-- Hashes of the transaction itself that are computed beforehand change nothing. -/
theorem hash_witnessV0 {input : TxInput} (there : r.tx.inputs[r.index]? = some input)
    (own : shared = none ∨ shared = some (.ofTransaction r.tx)) :
    r.hash .witnessV0 shared =
      .ok (doubleSha256
        (witnessPreimage (.ofTransaction r.tx) r.code r.tx r.index input r.type r.amount)) := by
  simp only [hash, signatureHash, there]
  rcases own with rfl | rfl <;> rfl

/-- **Signatures for witnesses bind what they sign.** Two requests that have the same hash agree on
everything that their hash type asks for, provided that on the byte strings that are hashed for
them the hash function has no collision and never the value zero, which stands for a part that
is not signed.

The inputs to sign are there, and the hashes of the whole transactions are computed on the spot or
have been computed beforehand from the same transactions. -/
theorem witness_hash_binds (inside : r.index < r.tx.inputs.length)
    (inside' : r'.index < r'.tx.inputs.length)
    (own : shared = none ∨ shared = some (.ofTransaction r.tx))
    (own' : shared' = none ∨ shared' = some (.ofTransaction r'.tx))
    (small : ∀ s ∈ r.hashed ++ r'.hashed, s.length < 2 ^ 64)
    (apart : ∀ s ∈ r.hashed ++ r'.hashed, ∀ s' ∈ r.hashed ++ r'.hashed,
      doubleSha256 s = doubleSha256 s' → s = s')
    (nonzero : ∀ s ∈ r.hashed ++ r'.hashed, doubleSha256 s ≠ Wide.zero)
    (same : r.hash .witnessV0 shared = r'.hash .witnessV0 shared') : r.AgreeWitness r' := by
  obtain ⟨input, there⟩ : ∃ input, r.tx.inputs[r.index]? = some input :=
    ⟨_, List.getElem?_eq_getElem inside⟩
  obtain ⟨input', there'⟩ : ∃ input, r'.tx.inputs[r'.index]? = some input :=
    ⟨_, List.getElem?_eq_getElem inside'⟩
  rw [hash_witnessV0 there own, hash_witnessV0 there' own'] at same
  have left : ∀ {s}, s ∈ r.hashed → s ∈ r.hashed ++ r'.hashed := List.mem_append_left _
  have right : ∀ {s}, s ∈ r'.hashed → s ∈ r.hashed ++ r'.hashed := List.mem_append_right _
  -- equal hashes mean equal summaries, and equal places in them mean equal parts
  have summary := left (summary_mem_hashed there)
  have summary' := right (summary_mem_hashed there')
  obtain ⟨type, version, lockTime, code, amount, prevout, sequence, prevouts, sequences,
      outputs⟩ :=
    witnessPreimage_inj (small _ summary) (small _ summary')
      (apart _ summary _ summary' (Except.ok.inj same))
  have part :
    ∀ {p p' : Option Bytes}, (∀ s ∈ p, s ∈ r.hashed) → (∀ s ∈ p', s ∈ r'.hashed) →
      hashOfPart p = hashOfPart p' → p = p' := by
    intro p p' mem mem' equal
    refine hashOfPart_inj ?_ ?_ ?_ equal
    · intro s hs s' hs'
      exact apart s (left (mem s hs)) s' (right (mem' s' hs'))
    · intro s hs
      exact nonzero s (left (mem s hs))
    · intro s hs
      exact nonzero s (right (mem' s hs))
  replace prevouts := part mem_hashed_of_prevouts mem_hashed_of_prevouts prevouts
  replace sequences := part mem_hashed_of_sequences mem_hashed_of_sequences sequences
  replace outputs := part mem_hashed_of_outputs mem_hashed_of_outputs outputs
  have short : ∀ s ∈ outputsPart r.tx r.index r.type, s.length < 2 ^ 64 := fun s h =>
    small s (left (mem_hashed_of_outputs s h))
  have short' : ∀ s ∈ outputsPart r'.tx r'.index r'.type, s.length < 2 ^ 64 := fun s h =>
    small s (right (mem_hashed_of_outputs s h))
  rw [← type] at prevouts sequences outputs short'
  exact
    { type, version, lockTime, amount, code
      input := ⟨input, input', there, there', prevout, sequence⟩
      prevouts := fun all => prevouts_eq_of_part all prevouts
      sequences := by
        intro all signs
        obtain ⟨single, none⟩ := signsAll_iff.1 signs
        exact sequences_eq_of_part all single none sequences
      outputs := by
        intro signs
        obtain ⟨single, none⟩ := signsAll_iff.1 signs
        exact outputs_eq_of_part single none short short' outputs
      output := fun single => output_eq_of_part single short short' outputs }

/-- Signs one input and one output, whatever is added. -/
def alone : Request :=
  { code := [0xac]
    tx :=
      { version := 2
        inputs := [{ prevout := ⟨Wide.one, 7⟩, scriptSig := [0x51], sequence := 0xfffffffe }]
        outputs := [⟨5000, [0x51]⟩]
        lockTime := 500 }
    index := 0
    type := ⟨0x83⟩
    amount := 6000 }

/-- Has the same input and output at another place. -/
def joined : Request :=
  { code := [0xac]
    tx :=
      { version := 2
        inputs :=
          [{ prevout := ⟨Wide.one, 8⟩, scriptSig := [], sequence := 0 },
            { prevout := ⟨Wide.one, 7⟩, scriptSig := [], sequence := 0xfffffffe,
              witness := [[0x01]] }]
        outputs := [⟨1, []⟩, ⟨5000, [0x51]⟩, ⟨2, [0x51]⟩]
        lockTime := 500 }
    index := 1
    type := ⟨0x83⟩
    amount := 6000 }

/-- Both have the same summary. -/
theorem witnessSummary?_joined : joined.witnessSummary? = alone.witnessSummary? := by
  have outputs : outputsPart joined.tx joined.index joined.type =
      outputsPart alone.tx alone.index alone.type := rfl
  refine congrArg some ?_
  dsimp only
  rw [witnessPreimage_eq, witnessPreimage_eq, outputs]
  rfl

/-- The hashes of the output and of the summary. -/
theorem map_hash_hashed_alone : alone.hashed.map doubleSha256 =
    [Wide.ofNat 0x5017bb3084b19c4ae77433189a048a2c5a1afc67f5fabb7f5d5a3cfd0d86438a,
      Wide.ofNat 0xa18897ae1c2055e6a5788b265c3e74164b7e12da155af12126c4238e0eb91bf3] := by
  decide +kernel

/-- Both have the same hash, and agree on what it is over. -/
theorem joined_signed_alike :
    alone.hash .witnessV0 none = joined.hash .witnessV0 (some (.ofTransaction joined.tx)) ∧
      alone.AgreeWitness joined := by
  have alike : joined.hashed = alone.hashed := by
    rw [hashed, hashed, witnessSummary?_joined]
    rfl
  -- what is hashed for the one request is hashed for the other, so one list has all the strings
  have strings : ∀ s ∈ alone.hashed ++ joined.hashed, s ∈ alone.hashed := by
    intro s mem
    rw [alike] at mem
    exact (List.mem_append.1 mem).elim id id
  -- no two of their hashes are alike
  have distinct : (alone.hashed.map doubleSha256).Nodup := by
    rw [map_hash_hashed_alone]
    decide +kernel
  have nonzero : Wide.zero ∉ alone.hashed.map doubleSha256 := by
    rw [map_hash_hashed_alone]
    decide +kernel
  have small : ∀ s ∈ alone.hashed, s.length < 2 ^ 64 := by
    intro s mem
    rcases mem_hashed_iff.1 mem with part | part | part | part
    · cases part
    · cases part
    · obtain rfl := Option.some.inj part
      decide
    · obtain rfl := Option.some.inj part
      dsimp only
      rw [length_witnessPreimage]
      decide
  have same :
      alone.hash .witnessV0 none = joined.hash .witnessV0 (some (.ofTransaction joined.tx)) := by
    rw [@hash_witnessV0 alone none _ rfl (.inl rfl), @hash_witnessV0 joined _ _ rfl (.inr rfl)]
    exact congrArg (fun summary => Except.ok (doubleSha256 summary))
      (Option.some.inj witnessSummary?_joined).symm
  refine ⟨same, witness_hash_binds (by decide) (by decide) (.inl rfl) (.inr rfl) ?_ ?_ ?_ same⟩
  · intro s mem
    exact small s (strings s mem)
  · intro s mem s' mem' equal
    exact List.inj_on_of_nodup_map distinct (strings s mem) (strings s' mem') equal
  · intro s mem zero
    exact nonzero (List.mem_map.2 ⟨s, strings s mem, zero⟩)

end Request

end SigHash

end BlockRules
