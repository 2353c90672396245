import Mathlib
import BlockRules.Proofs.Wire.Exact
import BlockRules.Transaction.Decode

/-!
# The transaction codec

Decoding a transaction accepts exactly what encoding writes, on both kinds of network. The
format is ambiguous at one place: an input count of zero is also the mark of a witness
encoding, and the flag byte behind it is also an output count. The domain on which
encoding can be undone leaves that place unambiguous:

* `Transaction.Encodable` — the transaction has a time where the network has one, no mark,
  and no outputs without inputs;
* `Transaction.Addressable` — all counts and lengths are words of 64 bits. That is no
  condition on a transaction whose encoding is a string of fewer than `2 ^ 64` bytes
  (`Transaction.addressable_of_length_encode`).

The parts are exact one by one (`txInput_exact`, `txOutput_exact`, `witnesses_eq_ok_iff`),
then the ambiguous middle (`txBody_exact`), then the whole (`transaction_exact`).
-/

namespace BlockRules

/-! ## Domains -/

/-- The input as it stands before the outputs: without its witness. -/
def TxInput.bare (i : TxInput) : TxInput := { i with witness := [] }

/-- The lengths of a witness are words. -/
def TxInput.AddressableWitness (i : TxInput) : Prop :=
  i.witness.length < 2 ^ 64 ∧ ∀ item ∈ i.witness, item.length < 2 ^ 64

namespace Transaction

/-- The counts and lengths of a transaction are words. -/
structure Addressable (tx : Transaction) : Prop where
  inputs : tx.inputs.length < 2 ^ 64
  scripts : ∀ i ∈ tx.inputs, i.scriptSig.length < 2 ^ 64
  witnesses : ∀ i ∈ tx.inputs, i.AddressableWitness
  outputs : tx.outputs.length < 2 ^ 64
  guards : ∀ o ∈ tx.outputs, o.scriptPubkey.length < 2 ^ 64

/-- A transaction of a network that its encoding shows completely. -/
structure Encodable (network : Network) (tx : Transaction) : Prop where
  time : tx.time.isSome = network.hasTime
  unmarked : tx.coldStake = false
  shape : tx.inputs ≠ [] ∨ tx.outputs = []

end Transaction

/-! ## Parts -/

theorem OutPoint.encode_ne_nil (o : OutPoint) : o.encode ≠ [] := by
  intro empty
  have := congrArg List.length empty
  rw [OutPoint.encode, Wire.uint256, List.length_append, o.hash.length_bytesLE] at this
  simp at this

theorem TxInput.encode_ne_nil (i : TxInput) : i.encode ≠ [] := by
  intro empty
  rw [TxInput.encode, List.append_assoc, List.append_eq_nil_iff] at empty
  exact i.prevout.encode_ne_nil empty.1

theorem Wire.compactSize_ne_nil (n : Nat) : Wire.compactSize n ≠ [] := by
  rw [Wire.compactSize]
  split
  · exact List.cons_ne_nil _ _
  · split
    · exact List.cons_ne_nil _ _
    · split <;> exact List.cons_ne_nil _ _

theorem Wire.varBytes_ne_nil (bs : Bytes) : Wire.varBytes bs ≠ [] := by
  intro empty
  exact Wire.compactSize_ne_nil _ (List.append_eq_nil_iff.1 empty).1

theorem TxOutput.encode_ne_nil (o : TxOutput) : o.encode ≠ [] := by
  intro empty
  exact Wire.varBytes_ne_nil _ (List.append_eq_nil_iff.1 empty).2

/-- The encodings of inputs do not show their witnesses. -/
theorem list_encode_bare (inputs : List TxInput) :
    Wire.list TxInput.encode (inputs.map TxInput.bare) = Wire.list TxInput.encode inputs := by
  rw [Wire.list, Wire.list, List.length_map, List.flatMap_map]
  rfl

namespace Decoder

theorem outPoint_exact : Exact outPoint OutPoint.encode (fun _ => True) := by
  intro c c' o
  rw [outPoint]
  rw [bind_eq_ok_iff]
  refine ⟨?_, ?_⟩
  · rintro ⟨hash, m, hhash, rest⟩
    obtain ⟨index, m', hindex, hpure⟩ := bind_eq_ok_iff.1 rest
    obtain ⟨rfl, rfl⟩ := pure_eq_ok_iff.1 hpure
    exact ⟨trivial, ((uint256_exact _ _ _).1 hhash).2.append ((uint32_exact _ _ _).1 hindex).2⟩
  · rintro ⟨-, past⟩
    obtain ⟨m, hhash, hindex⟩ := Cursor.past_append.1 past
    refine ⟨o.hash, m, (uint256_exact _ _ _).2 ⟨trivial, hhash⟩, ?_⟩
    exact bind_eq_ok_iff.2 ⟨o.index, c', (uint32_exact _ _ _).2 ⟨trivial, hindex⟩, rfl⟩

/-- Inputs without their witnesses, which stand apart in the encoding. -/
theorem txInput_exact :
    Exact txInput TxInput.encode (fun i => i.scriptSig.length < 2 ^ 64 ∧ i.witness = []) := by
  intro c c' i
  rw [txInput]
  rw [bind_eq_ok_iff]
  refine ⟨?_, ?_⟩
  · rintro ⟨prevout, m, hprevout, rest⟩
    obtain ⟨scriptSig, m', hscript, rest⟩ := bind_eq_ok_iff.1 rest
    obtain ⟨sequence, m'', hsequence, hpure⟩ := bind_eq_ok_iff.1 rest
    obtain ⟨rfl, rfl⟩ := pure_eq_ok_iff.1 hpure
    obtain ⟨small, script⟩ := (varBytes_exact _ _ _).1 hscript
    exact ⟨⟨small, rfl⟩, (((outPoint_exact _ _ _).1 hprevout).2.append script).append
      ((uint32_exact _ _ _).1 hsequence).2⟩
  · rintro ⟨⟨small, bare⟩, past⟩
    obtain ⟨m', past', hsequence⟩ := Cursor.past_append.1 past
    obtain ⟨m, hprevout, hscript⟩ := Cursor.past_append.1 past'
    refine ⟨i.prevout, m, (outPoint_exact _ _ _).2 ⟨trivial, hprevout⟩, ?_⟩
    refine bind_eq_ok_iff.2 ⟨i.scriptSig, m', (varBytes_exact _ _ _).2 ⟨small, hscript⟩, ?_⟩
    refine bind_eq_ok_iff.2
      ⟨i.sequence, c', (uint32_exact _ _ _).2 ⟨trivial, hsequence⟩, ?_⟩
    rw [pure_eq_ok_iff]
    cases i
    simp_all

theorem txOutput_exact :
    Exact txOutput TxOutput.encode (fun o => o.scriptPubkey.length < 2 ^ 64) := by
  intro c c' o
  rw [txOutput]
  rw [bind_eq_ok_iff]
  refine ⟨?_, ?_⟩
  · rintro ⟨value, m, hvalue, rest⟩
    obtain ⟨scriptPubkey, m', hscript, hpure⟩ := bind_eq_ok_iff.1 rest
    obtain ⟨rfl, rfl⟩ := pure_eq_ok_iff.1 hpure
    obtain ⟨small, script⟩ := (varBytes_exact _ _ _).1 hscript
    exact ⟨small, ((int64_exact _ _ _).1 hvalue).2.append script⟩
  · rintro ⟨small, past⟩
    obtain ⟨m, hvalue, hscript⟩ := Cursor.past_append.1 past
    refine ⟨o.value, m, (int64_exact _ _ _).2 ⟨trivial, hvalue⟩, ?_⟩
    exact bind_eq_ok_iff.2
      ⟨o.scriptPubkey, c', (varBytes_exact _ _ _).2 ⟨small, hscript⟩, rfl⟩

/-- The witnesses that are read for some inputs complete these inputs. -/
theorem witnesses_eq_ok_iff {bare inputs : List TxInput} {c c' : Cursor}
    (empty : ∀ i ∈ bare, i.witness = []) :
    witnesses bare c = (.ok inputs, c') ↔
      inputs.map TxInput.bare = bare ∧ (∀ i ∈ inputs, i.AddressableWitness) ∧
        c.Past (inputs.flatMap TxInput.encodeWitness) c' := by
  -- by induction on the inputs that were read before, each of which takes one witness
  induction bare generalizing c inputs with
  | nil =>
    rw [witnesses, pure_eq_ok_iff, List.map_eq_nil_iff]
    refine ⟨?_, ?_⟩
    · rintro ⟨rfl, rfl⟩
      exact ⟨rfl, by simp, Cursor.past_nil.2 rfl⟩
    · rintro ⟨rfl, -, past⟩
      exact ⟨rfl, Cursor.past_nil.1 past⟩
  | cons i bare ih =>
    obtain ⟨emptyHead, emptyTail⟩ := List.forall_mem_cons.1 empty
    have items := list_exact varBytes_exact Wire.varBytes_ne_nil
    rw [witnesses, bind_eq_ok_iff]
    refine ⟨?_, ?_⟩
    -- what was read for the first input, and by induction for the others
    · rintro ⟨witness, m, hwitness, rest⟩
      obtain ⟨inputs', m', hinputs, hpure⟩ := bind_eq_ok_iff.1 rest
      obtain ⟨rfl, rfl⟩ := pure_eq_ok_iff.1 hpure
      obtain ⟨addressable, past⟩ := (items _ _ _).1 hwitness
      obtain ⟨rfl, addressables, past'⟩ := (ih emptyTail).1 hinputs
      refine ⟨?_, List.forall_mem_cons.2 ⟨addressable, addressables⟩, ?_⟩
      · cases i
        simp_all [TxInput.bare]
      · rw [List.flatMap_cons]
        exact past.append past'
    -- the other way round, the inputs are given with their witnesses; without them they are the
    -- bare ones, so there are as many
    · rintro ⟨hbare, addressables, past⟩
      rcases inputs with _ | ⟨j, inputs⟩
      · cases hbare
      · obtain ⟨rfl, rfl⟩ := List.cons_eq_cons.1 hbare
        obtain ⟨addressable, addressables⟩ := List.forall_mem_cons.1 addressables
        rw [List.flatMap_cons] at past
        obtain ⟨m, hwitness, hinputs⟩ := Cursor.past_append.1 past
        refine ⟨j.witness, m, (items _ _ _).2 ⟨addressable, hwitness⟩, ?_⟩
        exact bind_eq_ok_iff.2
          ⟨inputs, c', (ih emptyTail).2 ⟨rfl, addressables, hinputs⟩, rfl⟩

/-! ## The ambiguous middle -/

/-- What stands between the time and the lock time of a transaction. -/
def bodyBytes (inputs : List TxInput) (outputs : List TxOutput) : Bytes :=
  let shown := inputs.any fun i => !i.witness.isEmpty
  (if shown then [0x00, 0x01] else [])
    ++ Wire.list TxInput.encode inputs
    ++ Wire.list TxOutput.encode outputs
    ++ (if shown then inputs.flatMap TxInput.encodeWitness else [])

theorem any_witness_eq_false_iff {inputs : List TxInput} :
    (inputs.any fun i => !i.witness.isEmpty) = false ↔ ∀ i ∈ inputs, i.witness = [] := by
  simp [List.any_eq_false]

/-- Without any witness, the body is the inputs and the outputs. -/
theorem bodyBytes_of_no_witness {inputs : List TxInput} {outputs : List TxOutput}
    (empty : ∀ i ∈ inputs, i.witness = []) :
    bodyBytes inputs outputs =
      Wire.list TxInput.encode inputs ++ Wire.list TxOutput.encode outputs := by
  simp [bodyBytes, any_witness_eq_false_iff.2 empty]

/-- With some witness, the inputs are shown without their witnesses behind mark and flag, and
the witnesses behind the outputs. -/
theorem bodyBytes_of_witness {inputs : List TxInput} {outputs : List TxOutput}
    (shown : (inputs.any fun i => !i.witness.isEmpty) = true) :
    bodyBytes inputs outputs =
      [0x00] ++ ([0x01] ++ (Wire.list TxInput.encode (inputs.map TxInput.bare) ++
        (Wire.list TxOutput.encode outputs ++ inputs.flatMap TxInput.encodeWitness))) := by
  simp [bodyBytes, shown, list_encode_bare]

theorem inputs_exact :
    Exact (list txInput) (Wire.list TxInput.encode)
      (fun is => is.length < 2 ^ 64 ∧ ∀ i ∈ is, i.scriptSig.length < 2 ^ 64 ∧
        i.witness = []) :=
  list_exact txInput_exact TxInput.encode_ne_nil

theorem outputs_exact :
    Exact (list txOutput) (Wire.list TxOutput.encode)
      (fun os => os.length < 2 ^ 64 ∧ ∀ o ∈ os, o.scriptPubkey.length < 2 ^ 64) :=
  list_exact txOutput_exact TxOutput.encode_ne_nil

/-- Optional data are accepted if the flag byte is one and some witness is there. -/
theorem optionalData_eq_ok_iff {flags : UInt8} {bare inputs : List TxInput} {c c' : Cursor}
    (empty : ∀ i ∈ bare, i.witness = []) :
    optionalData flags bare c = (.ok inputs, c') ↔
      flags = 1 ∧ (inputs.any fun i => !i.witness.isEmpty) = true ∧
      inputs.map TxInput.bare = bare ∧
        (∀ i ∈ inputs, i.AddressableWitness) ∧
        c.Past (inputs.flatMap TxInput.encodeWitness) c' := by
  rw [optionalData]
  refine ⟨?_, ?_⟩
  · intro h
    split at h
    · exact absurd h fail_ne_ok
    · obtain ⟨inputs', m, hwitnesses, rest⟩ := bind_eq_ok_iff.1 h
      split at rest
      · exact absurd rest fail_ne_ok
      · next superfluous =>
        split at rest
        · exact absurd rest fail_ne_ok
        · next one =>
          obtain ⟨rfl, rfl⟩ := pure_eq_ok_iff.1 rest
          have shown : (inputs.any fun i => !i.witness.isEmpty) = true := by
            simpa using superfluous
          exact ⟨not_not.1 one, shown, (witnesses_eq_ok_iff empty).1 hwitnesses⟩
  · rintro ⟨rfl, shown, hwitnesses⟩
    have superfluous : ¬ (inputs.all fun i => i.witness.isEmpty) = true := by
      simpa using shown
    rw [if_neg (by decide)]
    refine bind_eq_ok_iff.2 ⟨inputs, c', (witnesses_eq_ok_iff empty).2 hwitnesses, ?_⟩
    rw [if_neg superfluous, if_neg (not_not_intro rfl)]
    rfl

/-- What follows inputs that are there: the outputs, and no witnesses. -/
def plainBody (inputs : List TxInput) : Decoder (List TxInput × List TxOutput) := do
  let outputs ← list txOutput
  return (inputs, outputs)

/-- What follows a flag byte that is not zero: inputs, outputs and what the byte announces. -/
def announcedBody (flags : UInt8) : Decoder (List TxInput × List TxOutput) := do
  let inputs ← list txInput
  let outputs ← list txOutput
  let inputs ← optionalData flags inputs
  return (inputs, outputs)

/-- What follows no inputs: no outputs either, or what the byte that stands there announces. -/
def markedBody : Decoder (List TxInput × List TxOutput) := do
  let flags ← byte
  if flags = 0 then return ([], []) else announcedBody flags

/-- An empty list of inputs marks what follows; any other list is plain. -/
theorem txBody_eq : txBody = list txInput >>= fun inputs =>
    if inputs.isEmpty then markedBody else plainBody inputs := rfl

theorem plainBody_eq_ok_iff {first inputs : List TxInput} {outputs : List TxOutput}
    {c c' : Cursor} :
    plainBody first c = (.ok (inputs, outputs), c') ↔
      inputs = first ∧
      (outputs.length < 2 ^ 64 ∧ ∀ o ∈ outputs, o.scriptPubkey.length < 2 ^ 64) ∧
        c.Past (Wire.list TxOutput.encode outputs) c' := by
  rw [plainBody, bind_eq_ok_iff]
  constructor
  · rintro ⟨outputs', m, houtputs, rest⟩
    obtain ⟨hpair, rfl⟩ := pure_eq_ok_iff.1 rest
    obtain ⟨rfl, rfl⟩ := Prod.mk.inj hpair
    exact ⟨rfl, (outputs_exact _ _ _).1 houtputs⟩
  · rintro ⟨rfl, well, past⟩
    exact ⟨outputs, c', (outputs_exact _ _ _).2 ⟨well, past⟩, rfl⟩

theorem announcedBody_eq_ok_iff {flags : UInt8} {inputs : List TxInput} {outputs : List TxOutput}
    {c c' : Cursor} :
    announcedBody flags c = (.ok (inputs, outputs), c') ↔
      flags = 1 ∧ (inputs.any fun i => !i.witness.isEmpty) = true ∧
        (inputs.length < 2 ^ 64 ∧ ∀ i ∈ inputs, i.scriptSig.length < 2 ^ 64) ∧
        (∀ i ∈ inputs, i.AddressableWitness) ∧
        (outputs.length < 2 ^ 64 ∧ ∀ o ∈ outputs, o.scriptPubkey.length < 2 ^ 64) ∧
        c.Past (Wire.list TxInput.encode (inputs.map TxInput.bare) ++
          (Wire.list TxOutput.encode outputs ++ inputs.flatMap TxInput.encodeWitness)) c' := by
  rw [announcedBody, bind_eq_ok_iff]
  constructor
  · rintro ⟨bare, m, hbare, rest⟩
    obtain ⟨outputs', m', houtputs, rest⟩ := bind_eq_ok_iff.1 rest
    obtain ⟨inputs', m'', hoptional, rest⟩ := bind_eq_ok_iff.1 rest
    obtain ⟨hpair, rfl⟩ := pure_eq_ok_iff.1 rest
    obtain ⟨rfl, rfl⟩ := Prod.mk.inj hpair
    obtain ⟨⟨count, well⟩, past⟩ := (inputs_exact _ _ _).1 hbare
    obtain ⟨wellOut, pastOut⟩ := (outputs_exact _ _ _).1 houtputs
    obtain ⟨one, shown, rfl, witnessed, pastWitness⟩ :=
      (optionalData_eq_ok_iff fun i hi => (well i hi).2).1 hoptional
    rw [List.length_map] at count
    have scripts : ∀ i ∈ inputs, i.scriptSig.length < 2 ^ 64 := fun i hi =>
      (well i.bare (List.mem_map_of_mem hi)).1
    exact ⟨one, shown, ⟨count, scripts⟩, witnessed, wellOut,
      past.append (pastOut.append pastWitness)⟩
  · rintro ⟨one, shown, ⟨count, scripts⟩, witnessed, wellOut, past⟩
    obtain ⟨m, hin, past⟩ := Cursor.past_append.1 past
    obtain ⟨m', hout, hwitness⟩ := Cursor.past_append.1 past
    -- the inputs as they stand there have no witnesses yet
    have bare : ∀ i ∈ inputs.map TxInput.bare, i.witness = [] := by
      intro i hi
      obtain ⟨j, -, rfl⟩ := List.mem_map.1 hi
      rfl
    have well : ∀ i ∈ inputs.map TxInput.bare, i.scriptSig.length < 2 ^ 64 ∧
        i.witness = [] := by
      intro i hi
      refine ⟨?_, bare i hi⟩
      obtain ⟨j, hj, rfl⟩ := List.mem_map.1 hi
      exact scripts j hj
    rw [← List.length_map TxInput.bare] at count
    refine ⟨inputs.map TxInput.bare, m, (inputs_exact _ _ _).2 ⟨⟨count, well⟩, hin⟩, ?_⟩
    refine bind_eq_ok_iff.2 ⟨outputs, m', (outputs_exact _ _ _).2 ⟨wellOut, hout⟩, ?_⟩
    exact bind_eq_ok_iff.2 ⟨inputs, c',
      (optionalData_eq_ok_iff bare).2 ⟨one, shown, rfl, witnessed, hwitness⟩, rfl⟩

/-- Behind no inputs stands the count of no outputs, or a flag byte that is one. -/
theorem markedBody_eq_ok_iff {inputs : List TxInput} {outputs : List TxOutput} {c c' : Cursor} :
    markedBody c = (.ok (inputs, outputs), c') ↔
      (inputs = [] ∧ outputs = [] ∧ c.Past [0x00] c') ∨
      ∃ m, c.Past [0x01] m ∧ announcedBody 1 m = (.ok (inputs, outputs), c') := by
  rw [markedBody, bind_eq_ok_iff]
  constructor
  · rintro ⟨flags, m, hflags, rest⟩
    obtain ⟨-, flag⟩ := (byte_exact _ _ _).1 hflags
    split at rest
    next zero =>
      obtain ⟨hpair, rfl⟩ := pure_eq_ok_iff.1 rest
      obtain ⟨rfl, rfl⟩ := Prod.mk.inj hpair
      exact .inl ⟨rfl, rfl, zero ▸ flag⟩
    next =>
      obtain ⟨rfl, -⟩ := announcedBody_eq_ok_iff.1 rest
      exact .inr ⟨m, flag, rest⟩
  · rintro (⟨rfl, rfl, flag⟩ | ⟨m, flag, rest⟩)
    · exact ⟨0, c', (byte_exact _ _ _).2 ⟨trivial, flag⟩, rfl⟩
    · refine ⟨1, m, (byte_exact _ _ _).2 ⟨trivial, flag⟩, ?_⟩
      rwa [if_neg (by decide)]

/-- The middle of a transaction is read exactly, unless there are outputs and no inputs. -/
theorem txBody_eq_ok_iff {inputs : List TxInput} {outputs : List TxOutput} {c c' : Cursor} :
    txBody c = (.ok (inputs, outputs), c') ↔
      (inputs ≠ [] ∨ outputs = []) ∧
        (inputs.length < 2 ^ 64 ∧ ∀ i ∈ inputs, i.scriptSig.length < 2 ^ 64) ∧
        (∀ i ∈ inputs, i.AddressableWitness) ∧
        (outputs.length < 2 ^ 64 ∧ ∀ o ∈ outputs, o.scriptPubkey.length < 2 ^ 64) ∧
        c.Past (bodyBytes inputs outputs) c' := by
  rw [txBody_eq, bind_eq_ok_iff]
  constructor
  · rintro ⟨first, m, hfirst, rest⟩
    obtain ⟨⟨count, well⟩, past⟩ := (inputs_exact _ _ _).1 hfirst
    split at rest
    next noInputs =>
      -- what stands here is the mark of a witness encoding, or no transaction data
      obtain rfl := List.isEmpty_iff.1 noInputs
      rcases markedBody_eq_ok_iff.1 rest with ⟨rfl, rfl, flag⟩ | ⟨m', flag, announced⟩
      · refine ⟨.inr rfl, by simp, by simp, by simp, ?_⟩
        rw [bodyBytes_of_no_witness (by simp)]
        exact past.append flag
      · obtain ⟨-, shown, wellIn, witnessed, wellOut, pastRest⟩ :=
          announcedBody_eq_ok_iff.1 announced
        refine ⟨.inl ?_, wellIn, witnessed, wellOut, ?_⟩
        · rintro rfl
          cases shown
        · rw [bodyBytes_of_witness shown]
          exact past.append (flag.append pastRest)
    next nonempty =>
      obtain ⟨rfl, wellOut, pastOut⟩ := plainBody_eq_ok_iff.1 rest
      refine ⟨.inl ?_, ⟨count, fun i hi => (well i hi).1⟩, ?_, wellOut, ?_⟩
      · rintro rfl
        exact nonempty rfl
      · intro i hi
        rw [TxInput.AddressableWitness, (well i hi).2]
        simp
      · rw [bodyBytes_of_no_witness fun i hi => (well i hi).2]
        exact past.append pastOut
  · rintro ⟨shape, ⟨count, scripts⟩, witnessed, wellOut, past⟩
    by_cases shown : (inputs.any fun i => !i.witness.isEmpty) = true
    · rw [bodyBytes_of_witness shown] at past
      obtain ⟨m, hmark, past⟩ := Cursor.past_append.1 past
      obtain ⟨m', hflag, past⟩ := Cursor.past_append.1 past
      refine ⟨[], m, (inputs_exact _ _ _).2 ⟨by simp, hmark⟩, ?_⟩
      exact markedBody_eq_ok_iff.2 (.inr ⟨m', hflag, announcedBody_eq_ok_iff.2
        ⟨rfl, shown, ⟨count, scripts⟩, witnessed, wellOut, past⟩⟩)
    · have empty := any_witness_eq_false_iff.1 (Bool.not_eq_true _ ▸ shown)
      rw [bodyBytes_of_no_witness empty] at past
      obtain ⟨m, hin, hout⟩ := Cursor.past_append.1 past
      refine ⟨inputs, m, (inputs_exact _ _ _).2
        ⟨⟨count, fun i hi => ⟨scripts i hi, empty i hi⟩⟩, hin⟩, ?_⟩
      rcases inputs with _ | ⟨i, is⟩
      · obtain rfl := shape.resolve_left (not_not_intro rfl)
        exact markedBody_eq_ok_iff.2 (.inl ⟨rfl, rfl, hout⟩)
      · exact plainBody_eq_ok_iff.2 ⟨rfl, wellOut, hout⟩

/-! ## Whole transactions -/

/-- The time of a transaction as it stands behind the version. -/
def timeBytes : Option UInt32 → Bytes
  | some t => Wire.uint32 t
  | none => []

theorem txTime_eq_ok_iff {network : Network} {time : Option UInt32} {c c' : Cursor} :
    txTime network c = (.ok time, c') ↔
      time.isSome = network.hasTime ∧ c.Past (timeBytes time) c' := by
  cases network with
  | proofOfWork =>
    refine Iff.trans pure_eq_ok_iff ?_
    rcases time with _ | t
    · refine ⟨?_, ?_⟩
      · rintro ⟨-, rfl⟩
        exact ⟨rfl, Cursor.past_nil.2 rfl⟩
      · rintro ⟨-, past⟩
        exact ⟨rfl, Cursor.past_nil.1 past⟩
    · simp [Network.hasTime]
  | proofOfStake =>
    refine Iff.trans bind_eq_ok_iff ?_
    refine ⟨?_, ?_⟩
    · rintro ⟨t, m, ht, hpure⟩
      obtain ⟨rfl, rfl⟩ := pure_eq_ok_iff.1 hpure
      exact ⟨rfl, ((uint32_exact _ _ _).1 ht).2⟩
    · rintro ⟨present, past⟩
      rcases time with _ | t
      · cases present
      · exact ⟨t, c', (uint32_exact _ _ _).2 ⟨trivial, past⟩, rfl⟩

/-- The encoding as version, time, body and lock time. -/
theorem encode_eq (tx : Transaction) :
    tx.encode =
      Wire.int32 tx.version ++ (timeBytes tx.time ++ (bodyBytes tx.inputs tx.outputs
        ++ Wire.uint32 tx.lockTime)) := by
  rcases h : tx.time with _ | t <;>
    simp [Transaction.encode, Transaction.encodeWith, Transaction.encodeHead,
      Transaction.hasWitness, bodyBytes, timeBytes, h]

/-- The decoder of transactions reads exactly the encodings of the transactions that have one
of their own. -/
theorem transaction_exact (network : Network) :
    Exact (transaction network) Transaction.encode
      (fun tx => tx.Encodable network ∧ tx.Addressable) := by
  intro c c' tx
  rw [transaction, bind_eq_ok_iff, encode_eq]
  refine ⟨?_, ?_⟩
  -- each part was read exactly, so the parts in a row are the encoding
  · rintro ⟨version, m₁, hversion, rest⟩
    obtain ⟨time, m₂, htime, rest⟩ := bind_eq_ok_iff.1 rest
    obtain ⟨⟨inputs, outputs⟩, m₃, hbody, rest⟩ := bind_eq_ok_iff.1 rest
    obtain ⟨lockTime, m₄, hlock, rest⟩ := bind_eq_ok_iff.1 rest
    obtain ⟨rfl, rfl⟩ := pure_eq_ok_iff.1 rest
    obtain ⟨present, pastTime⟩ := txTime_eq_ok_iff.1 htime
    obtain ⟨shape, ⟨countIn, scripts⟩, witnessed, ⟨countOut, guards⟩, pastBody⟩ :=
      txBody_eq_ok_iff.1 hbody
    refine ⟨⟨⟨present, rfl, shape⟩, ⟨countIn, scripts, witnessed, countOut, guards⟩⟩,
      ?_⟩
    exact ((int32_exact _ _ _).1 hversion).2.append
      (pastTime.append (pastBody.append ((uint32_exact _ _ _).1 hlock).2))
  -- the encoding is cut into its parts, and each of them is read
  · rintro ⟨⟨encodable, addressable⟩, past⟩
    obtain ⟨m₁, hversion, past⟩ := Cursor.past_append.1 past
    obtain ⟨m₂, htime, past⟩ := Cursor.past_append.1 past
    obtain ⟨m₃, hbody, hlock⟩ := Cursor.past_append.1 past
    have body := txBody_eq_ok_iff.2
      ⟨encodable.shape, ⟨addressable.inputs, addressable.scripts⟩, addressable.witnesses,
        ⟨addressable.outputs, addressable.guards⟩, hbody⟩
    refine ⟨tx.version, m₁, (int32_exact _ _ _).2 ⟨trivial, hversion⟩, ?_⟩
    refine bind_eq_ok_iff.2 ⟨tx.time, m₂, txTime_eq_ok_iff.2 ⟨encodable.time, htime⟩, ?_⟩
    refine bind_eq_ok_iff.2 ⟨(tx.inputs, tx.outputs), m₃, body, ?_⟩
    refine bind_eq_ok_iff.2 ⟨tx.lockTime, c', (uint32_exact _ _ _).2 ⟨trivial, hlock⟩, ?_⟩
    rw [pure_eq_ok_iff]
    -- what is read has no mark of a cold stake, and neither has the transaction
    have unmarked := encodable.unmarked
    cases tx
    simp_all

/-- The value of a whole byte string, and what its decoder leaves behind it. -/
theorem exactly_eq_ok_iff {α : Type} {d : Decoder α} {bs : Bytes} {a : α} :
    exactly d bs = .ok a ↔ ∃ c', d { rest := bs } = (.ok a, c') ∧ c'.rest = [] := by
  rw [exactly]
  rcases d { rest := bs } with ⟨e | b, c⟩
  · simp
  · by_cases atEnd : c.rest.isEmpty
    · simp_all [List.isEmpty_iff]
    · simp_all [List.isEmpty_iff]

end Decoder

/-! ## Sizes -/

theorem length_le_length_varBytes (bs : Bytes) : bs.length ≤ (Wire.varBytes bs).length := by
  rw [Wire.varBytes, List.length_append]
  exact Nat.le_add_left _ _

theorem length_encode_le_flatMap {α : Type} {encode : α → Bytes} {x : α} {xs : List α}
    (mem : x ∈ xs) :
    (encode x).length ≤ (xs.flatMap encode).length := by
  rw [List.length_flatMap]
  exact List.le_sum_of_mem (List.mem_map_of_mem mem)

theorem length_flatMap_le_length_list {α : Type} {encode : α → Bytes} (xs : List α) :
    (xs.flatMap encode).length ≤ (Wire.list encode xs).length := by
  rw [Wire.list, List.length_append]
  exact Nat.le_add_left _ _

theorem length_encode_le_of_mem {α : Type} {encode : α → Bytes} {x : α} {xs : List α}
    (mem : x ∈ xs) :
    (encode x).length ≤ (Wire.list encode xs).length :=
  (length_encode_le_flatMap mem).trans (length_flatMap_le_length_list xs)

theorem length_le_length_list {α : Type} {encode : α → Bytes} (occupies : ∀ x, encode x ≠ [])
    (xs : List α) : xs.length ≤ (Wire.list encode xs).length :=
  (Decoder.length_le_length_flatMap occupies xs).trans (length_flatMap_le_length_list xs)

/-- A list of inputs that is encoded in fewer than `2 ^ 64` bytes has words for its count and for
the lengths of the scripts. -/
theorem inputs_short_of_length {inputs : List TxInput}
    (small : (Wire.list TxInput.encode inputs).length < 2 ^ 64) :
    inputs.length < 2 ^ 64 ∧ ∀ i ∈ inputs, i.scriptSig.length < 2 ^ 64 := by
  refine ⟨lt_of_le_of_lt (length_le_length_list TxInput.encode_ne_nil _) small, ?_⟩
  intro i hi
  have part : i.encode.length ≤ (Wire.list TxInput.encode inputs).length :=
    length_encode_le_of_mem hi
  have script := length_le_length_varBytes i.scriptSig
  rw [TxInput.encode, List.length_append, List.length_append] at part
  omega

/-- The script of an output is no longer than the encoding of the output. -/
theorem TxOutput.length_scriptPubkey_le (o : TxOutput) :
    o.scriptPubkey.length ≤ o.encode.length := by
  have script := length_le_length_varBytes o.scriptPubkey
  rw [TxOutput.encode, List.length_append]
  omega

/-- Outputs that are encoded in fewer than `2 ^ 64` bytes have words for the lengths of their
scripts. -/
theorem outputScripts_short_of_length {outputs : List TxOutput}
    (small : (outputs.flatMap TxOutput.encode).length < 2 ^ 64) :
    ∀ o ∈ outputs, o.scriptPubkey.length < 2 ^ 64 := by
  intro o ho
  have part : o.encode.length ≤ (outputs.flatMap TxOutput.encode).length :=
    length_encode_le_flatMap ho
  exact lt_of_le_of_lt (o.length_scriptPubkey_le.trans part) small

/-- A list of outputs has one for its count as well. -/
theorem outputs_short_of_length {outputs : List TxOutput}
    (small : (Wire.list TxOutput.encode outputs).length < 2 ^ 64) :
    outputs.length < 2 ^ 64 ∧ ∀ o ∈ outputs, o.scriptPubkey.length < 2 ^ 64 :=
  ⟨lt_of_le_of_lt (length_le_length_list TxOutput.encode_ne_nil _) small,
    outputScripts_short_of_length (lt_of_le_of_lt (length_flatMap_le_length_list _) small)⟩

/-- A transaction whose encoding has fewer than `2 ^ 64` bytes has no count or length beyond a
word. -/
theorem Transaction.addressable_of_length_encode {tx : Transaction}
    (small : tx.encode.length < 2 ^ 64) :
    tx.Addressable := by
  rw [Decoder.encode_eq] at small
  simp only [List.length_append, Decoder.bodyBytes] at small
  have inputs : (Wire.list TxInput.encode tx.inputs).length < 2 ^ 64 := by omega
  have outputs : (Wire.list TxOutput.encode tx.outputs).length < 2 ^ 64 := by omega
  obtain ⟨countIn, scripts⟩ := inputs_short_of_length inputs
  obtain ⟨countOut, guards⟩ := outputs_short_of_length outputs
  refine ⟨countIn, scripts, ?_, countOut, guards⟩
  intro i hi
  by_cases empty : i.witness = []
  · rw [TxInput.AddressableWitness, empty]
    simp
  · have shown : (tx.inputs.any fun i => !i.witness.isEmpty) = true :=
      List.any_eq_true.2 ⟨i, hi, by simpa using empty⟩
    rw [if_pos shown, if_pos shown] at small
    have part : i.encodeWitness.length ≤ (tx.inputs.flatMap TxInput.encodeWitness).length :=
      length_encode_le_flatMap hi
    have witness : (Wire.list Wire.varBytes i.witness).length < 2 ^ 64 := by
      rw [TxInput.encodeWitness] at part
      omega
    refine ⟨lt_of_le_of_lt (length_le_length_list Wire.varBytes_ne_nil _) witness, ?_⟩
    intro item hitem
    have inside : (Wire.varBytes item).length ≤ (Wire.list Wire.varBytes i.witness).length :=
      length_encode_le_of_mem hitem
    have := length_le_length_varBytes item
    omega

/-! ## The codec -/

/-- **Decoding and encoding transactions are inverse to each other.** On either network,
from a cursor in front of any bytes, a transaction is read and the cursor moved if and only
if the bytes passed are its encoding and it is encodable, with words for lengths. So an
encodable transaction whose encoding fits into an address space is read back, whatever
follows it, and two byte strings are never read as one transaction. -/
theorem transaction_codec (network : Network) :
    (∀ (c c' : Cursor) (tx : Transaction),
      Decoder.transaction network c = (.ok tx, c') ↔
        (tx.Encodable network ∧ tx.Addressable) ∧
          c.rest = tx.encode ++ c'.rest ∧ c'.offset = c.offset + tx.encode.length) ∧
    (∀ (tx : Transaction) (rest : Bytes) (offset : Nat),
      tx.Encodable network → tx.encode.length < 2 ^ 64 →
        Decoder.transaction network ⟨tx.encode ++ rest, offset⟩ =
          (.ok tx, ⟨rest, offset + tx.encode.length⟩)) ∧
    (∀ (bs bs' : Bytes) (tx : Transaction),
      Transaction.decode? network bs = .ok tx → Transaction.decode? network bs' = .ok tx →
      bs = bs') := by
  have reads := Decoder.transaction_exact network
  refine ⟨reads, ?_, ?_⟩
  · intro tx rest offset encodable small
    exact (reads _ _ _).2
      ⟨⟨encodable, Transaction.addressable_of_length_encode small⟩, rfl, rfl⟩
  · intro bs bs' tx h h'
    -- a whole byte string that is read is the encoding
    have whole : ∀ {bs : Bytes}, Transaction.decode? network bs = .ok tx → bs = tx.encode := by
      intro bs hbs
      obtain ⟨c', hc', atEnd⟩ := Decoder.exactly_eq_ok_iff.1 hbs
      obtain ⟨-, hrest, -⟩ := (reads _ _ _).1 hc'
      rw [atEnd, List.append_nil] at hrest
      exact hrest
    rw [whole h, whole h']

/-- A transaction with one input, whose witness is a single empty item. -/
def witnessedTransaction : Transaction :=
  { version := 2
    inputs :=
      [{ prevout := ⟨Wide.one, 7⟩, scriptSig := [], sequence := 0xffffffff, witness := [[]] }]
    outputs := [{ value := 5000, scriptPubkey := [0x51] }]
    lockTime := 0 }

/-- A transaction with a witness is read back in front of other bytes. -/
theorem witnessed_transaction_read_back :
    witnessedTransaction.Encodable .proofOfWork ∧ witnessedTransaction.encode.length < 2 ^ 64 ∧
      Decoder.transaction .proofOfWork ⟨witnessedTransaction.encode ++ [0xde, 0xad], 3⟩ =
        (.ok witnessedTransaction, ⟨[0xde, 0xad], 3 + witnessedTransaction.encode.length⟩) := by
  have encodable : witnessedTransaction.Encodable .proofOfWork :=
    ⟨rfl, rfl, .inl (List.cons_ne_nil _ _)⟩
  have small : witnessedTransaction.encode.length < 2 ^ 64 := by decide +kernel
  exact ⟨encodable, small, (transaction_codec .proofOfWork).2.1 _ _ _ encodable small⟩

end BlockRules
