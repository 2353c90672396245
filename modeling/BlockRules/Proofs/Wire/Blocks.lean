import Mathlib
import BlockRules.Block
import BlockRules.Proofs.Wire.Transactions

/-!
# The codec of headers and blocks

Decoding a header or a block accepts exactly what encoding writes. Nothing in the bytes says
which kind of header stands there: the network does, and with it whether the transactions have a
time and whether evidence of the stake follows the 80 bytes. So the domains name the network:

* `Header.Encodable` — the header is of the network's kind, and the evidence in it holds a
  coinstake that is encodable itself. The decoder checks that it is one, after it has read it;
* `Block.Encodable` — so is the header, and so are all transactions;
* `Header.Addressable`, `Block.Addressable` — counts and lengths are words of 64 bits, which is no
  condition on what is encoded in fewer than `2 ^ 64` bytes.

From the parts (`blockHeader_exact`, `stakeEvidence_exact`) to the whole (`block_exact`), exactness
goes up as it does for transactions. A header is named by the hash of its first 80 bytes
whatever stands behind them (`Header.hash_eq`).
-/

namespace BlockRules

/-! ## Domains -/

/-- Evidence that a network's decoder accepts and its encoding shows completely. -/
structure StakeEvidence.Encodable (network : Network) (e : StakeEvidence) : Prop where
  coinstake : e.coinstake.Encodable network
  stakes : e.coinstake.isCoinstake = true

/-- The lengths of the evidence, and those in its transaction, are words. -/
structure StakeEvidence.Addressable (e : StakeEvidence) : Prop where
  merkleProof : e.merkleProof.length < 2 ^ 64
  signature : e.signature.length < 2 ^ 64
  coinstake : e.coinstake.Addressable

namespace Header

/-- A header of the kind of the network, with evidence where that asks for it. -/
def Encodable (network : Network) : Header → Prop
  | .plain _ => network = .proofOfWork
  | .proven _ evidence => network = .proofOfStake ∧ evidence.Encodable network

/-- The lengths behind the 80 bytes are words. -/
def Addressable : Header → Prop
  | .plain _ => True
  | .proven _ evidence => evidence.Addressable

end Header

namespace Block

/-- The header and the transactions are of the network, and encodable. -/
structure Encodable (network : Network) (b : Block) : Prop where
  header : b.header.Encodable network
  transactions : ∀ tx ∈ b.transactions, tx.Encodable network

/-- The counts and lengths of a block are words. -/
structure Addressable (b : Block) : Prop where
  header : b.header.Addressable
  count : b.transactions.length < 2 ^ 64
  transactions : ∀ tx ∈ b.transactions, tx.Addressable

end Block

theorem Transaction.encode_ne_nil (tx : Transaction) : tx.encode ≠ [] := by
  intro empty
  rw [Decoder.encode_eq] at empty
  have front : (Wire.int32 tx.version).length = 4 := Bytes.length_ofNat 4 _
  rw [(List.append_eq_nil_iff.1 empty).1] at front
  cases front

namespace Decoder

/-! ## Headers -/

/-- Every 80 bytes are a header. -/
theorem blockHeader_exact : Exact blockHeader BlockHeader.encode (fun _ => True) := by
  intro c c' h
  rw [blockHeader, bind_eq_ok_iff]
  refine ⟨?_, ?_⟩
  · rintro ⟨version, m₁, hversion, rest⟩
    obtain ⟨previous, m₂, hprevious, rest⟩ := bind_eq_ok_iff.1 rest
    obtain ⟨merkleRoot, m₃, hroot, rest⟩ := bind_eq_ok_iff.1 rest
    obtain ⟨time, m₄, htime, rest⟩ := bind_eq_ok_iff.1 rest
    obtain ⟨bits, m₅, hbits, rest⟩ := bind_eq_ok_iff.1 rest
    obtain ⟨nonce, m₆, hnonce, rest⟩ := bind_eq_ok_iff.1 rest
    obtain ⟨rfl, rfl⟩ := pure_eq_ok_iff.1 rest
    have front := ((int32_exact _ _ _).1 hversion).2.append ((uint256_exact _ _ _).1 hprevious).2
    have middle := (front.append ((uint256_exact _ _ _).1 hroot).2).append
      ((uint32_exact _ _ _).1 htime).2
    exact ⟨trivial, (middle.append ((uint32_exact _ _ _).1 hbits).2).append
      ((uint32_exact _ _ _).1 hnonce).2⟩
  -- the bytes are cut from the back, where each field has its own length
  · rintro ⟨-, past⟩
    obtain ⟨m₅, past, hnonce⟩ := Cursor.past_append.1 past
    obtain ⟨m₄, past, hbits⟩ := Cursor.past_append.1 past
    obtain ⟨m₃, past, htime⟩ := Cursor.past_append.1 past
    obtain ⟨m₂, past, hroot⟩ := Cursor.past_append.1 past
    obtain ⟨m₁, hversion, hprevious⟩ := Cursor.past_append.1 past
    refine ⟨h.version, m₁, (int32_exact _ _ _).2 ⟨trivial, hversion⟩, ?_⟩
    refine bind_eq_ok_iff.2
      ⟨h.previous, m₂, (uint256_exact _ _ _).2 ⟨trivial, hprevious⟩, ?_⟩
    refine bind_eq_ok_iff.2
      ⟨h.merkleRoot, m₃, (uint256_exact _ _ _).2 ⟨trivial, hroot⟩, ?_⟩
    refine bind_eq_ok_iff.2 ⟨h.time, m₄, (uint32_exact _ _ _).2 ⟨trivial, htime⟩, ?_⟩
    refine bind_eq_ok_iff.2
      ⟨h.bits.compact, m₅, (uint32_exact _ _ _).2 ⟨trivial, hbits⟩, ?_⟩
    exact bind_eq_ok_iff.2 ⟨h.nonce, c', (uint32_exact _ _ _).2 ⟨trivial, hnonce⟩, rfl⟩

/-- Evidence is read if its transaction is read and is a coinstake. Which header it belongs to
matters to the wording of an error only. -/
theorem stakeEvidence_exact (network : Network) (base : BlockHeader) :
    Exact (stakeEvidence network base) StakeEvidence.encode
      (fun e => e.Encodable network ∧ e.Addressable) := by
  intro c c' e
  rw [stakeEvidence, bind_eq_ok_iff]
  refine ⟨?_, ?_⟩
  · rintro ⟨merkleProof, m₁, hproof, rest⟩
    obtain ⟨signature, m₂, hsignature, rest⟩ := bind_eq_ok_iff.1 rest
    obtain ⟨coinstake, m₃, hcoinstake, rest⟩ := bind_eq_ok_iff.1 rest
    split at rest
    next stakes =>
      obtain ⟨rfl, rfl⟩ := pure_eq_ok_iff.1 rest
      obtain ⟨smallProof, pastProof⟩ := (varBytes_exact _ _ _).1 hproof
      obtain ⟨smallSignature, pastSignature⟩ := (varBytes_exact _ _ _).1 hsignature
      obtain ⟨⟨encodable, addressable⟩, past⟩ :=
        (transaction_exact network _ _ _).1 hcoinstake
      exact ⟨⟨⟨encodable, stakes⟩, smallProof, smallSignature, addressable⟩,
        (pastProof.append pastSignature).append past⟩
    -- a transaction that is no coinstake is refused
    next => exact absurd rest fail_ne_ok
  · rintro ⟨⟨encodable, addressable⟩, past⟩
    obtain ⟨m₂, past, hcoinstake⟩ := Cursor.past_append.1 past
    obtain ⟨m₁, hproof, hsignature⟩ := Cursor.past_append.1 past
    have read := (transaction_exact network _ _ _).2
      ⟨⟨encodable.coinstake, addressable.coinstake⟩, hcoinstake⟩
    refine ⟨e.merkleProof, m₁,
      (varBytes_exact _ _ _).2 ⟨addressable.merkleProof, hproof⟩, ?_⟩
    refine bind_eq_ok_iff.2
      ⟨e.signature, m₂, (varBytes_exact _ _ _).2 ⟨addressable.signature, hsignature⟩, ?_⟩
    refine bind_eq_ok_iff.2 ⟨e.coinstake, c', read, ?_⟩
    rw [if_pos encodable.stakes]
    rfl

/-- Headers with their extension, as far as the network has one. -/
theorem header_exact (network : Network) :
    Exact (header network) Header.encode (fun h => h.Encodable network ∧ h.Addressable) := by
  intro c c' h
  rw [header, bind_eq_ok_iff]
  refine ⟨?_, ?_⟩
  · rintro ⟨base, m, hbase, rest⟩
    obtain ⟨-, past⟩ := (blockHeader_exact _ _ _).1 hbase
    -- the network says which kind is read; the kind of a header says of which network it is
    cases network with
    | proofOfWork =>
      obtain ⟨rfl, rfl⟩ := pure_eq_ok_iff.1 rest
      exact ⟨⟨rfl, trivial⟩, past⟩
    | proofOfStake =>
      obtain ⟨evidence, m', hevidence, rest⟩ := bind_eq_ok_iff.1 rest
      obtain ⟨rfl, rfl⟩ := pure_eq_ok_iff.1 rest
      obtain ⟨⟨encodable, addressable⟩, past'⟩ :=
        (stakeEvidence_exact _ base _ _ _).1 hevidence
      exact ⟨⟨⟨rfl, encodable⟩, addressable⟩, past.append past'⟩
  · rintro ⟨⟨encodable, addressable⟩, past⟩
    cases h with
    | plain base =>
      obtain rfl : network = .proofOfWork := encodable
      exact ⟨base, c', (blockHeader_exact _ _ _).2 ⟨trivial, past⟩, rfl⟩
    | proven base evidence =>
      obtain ⟨rfl, encodable⟩ := encodable
      obtain ⟨m, hbase, hevidence⟩ := Cursor.past_append.1 past
      have read :=
        (stakeEvidence_exact _ base _ _ _).2 ⟨⟨encodable, addressable⟩, hevidence⟩
      exact ⟨base, m, (blockHeader_exact _ _ _).2 ⟨trivial, hbase⟩,
        bind_eq_ok_iff.2 ⟨evidence, c', read, rfl⟩⟩

/-! ## Blocks -/

theorem transactions_exact (network : Network) :
    Exact (list (transaction network)) (Wire.list Transaction.encode)
      (fun txs => txs.length < 2 ^ 64 ∧ ∀ tx ∈ txs, tx.Encodable network ∧
        tx.Addressable) :=
  list_exact (transaction_exact network) Transaction.encode_ne_nil

theorem block_exact (network : Network) :
    Exact (block network) Block.encode (fun b => b.Encodable network ∧ b.Addressable) := by
  intro c c' b
  rw [block, bind_eq_ok_iff]
  refine ⟨?_, ?_⟩
  · rintro ⟨header, m, hheader, rest⟩
    obtain ⟨transactions, m', htransactions, rest⟩ := bind_eq_ok_iff.1 rest
    obtain ⟨rfl, rfl⟩ := pure_eq_ok_iff.1 rest
    obtain ⟨⟨encodable, addressable⟩, past⟩ := (header_exact network _ _ _).1 hheader
    obtain ⟨⟨count, inside⟩, past'⟩ := (transactions_exact network _ _ _).1 htransactions
    exact ⟨⟨⟨encodable, fun tx mem => (inside tx mem).1⟩,
      addressable, count, fun tx mem => (inside tx mem).2⟩, past.append past'⟩
  · rintro ⟨⟨encodable, addressable⟩, past⟩
    obtain ⟨m, hheader, htransactions⟩ := Cursor.past_append.1 past
    have inside : ∀ tx ∈ b.transactions, tx.Encodable network ∧ tx.Addressable := fun tx mem =>
      ⟨encodable.transactions tx mem, addressable.transactions tx mem⟩
    refine ⟨b.header, m,
      (header_exact network _ _ _).2 ⟨⟨encodable.header, addressable.header⟩, hheader⟩,
      ?_⟩
    exact bind_eq_ok_iff.2 ⟨b.transactions, c',
      (transactions_exact network _ _ _).2 ⟨⟨addressable.count, inside⟩, htransactions⟩,
      rfl⟩

end Decoder

/-! ## Names -/

theorem BlockHeader.length_encode (h : BlockHeader) : h.encode.length = 80 := by
  have wide : ∀ v : UInt256, (Wire.uint256 v).length = 32 := fun v => v.length_bytesLE
  rw [BlockHeader.encode]
  simp only [List.length_append, wide, Wire.int32, Wire.uint32, Bytes.length_ofNat]

namespace Header

/-- The encodings of both kinds of header start with the same 80 bytes. -/
theorem base_encode_prefix (h : Header) : h.base.encode <+: h.encode := by
  cases h with
  | plain base => exact List.prefix_rfl
  | proven base evidence => exact List.prefix_append _ _

theorem le_length_encode (h : Header) : 80 ≤ h.encode.length := by
  rw [← h.base.length_encode]
  exact h.base_encode_prefix.length_le

/-- The name of a header is the hash of its first 80 bytes. -/
theorem hash_eq (h : Header) (rest : Bytes) :
    h.hash = doubleSha256 ((h.encode ++ rest).take 80) := by
  have front : h.base.encode <+: h.encode ++ rest :=
    h.base_encode_prefix.trans (List.prefix_append _ _)
  rw [hash, BlockHeader.hash, ← h.base.length_encode, ← List.prefix_iff_eq_take.1 front]

end Header

/-! ## Sizes -/

/-- Evidence that is encoded in fewer than `2 ^ 64` bytes has words for its lengths. -/
theorem StakeEvidence.addressable_of_length_encode {e : StakeEvidence}
    (small : e.encode.length < 2 ^ 64) : e.Addressable := by
  have proof := length_le_length_varBytes e.merkleProof
  have signature := length_le_length_varBytes e.signature
  rw [StakeEvidence.encode, List.length_append, List.length_append] at small
  exact ⟨by omega, by omega, Transaction.addressable_of_length_encode (by omega)⟩

/-- A header whose encoding fits into memory has parts that do. -/
theorem Header.addressable_of_length_encode {h : Header} (small : h.encode.length < 2 ^ 64) :
    h.Addressable := by
  cases h with
  | plain base => exact trivial
  | proven base evidence =>
    rw [Header.encode, List.length_append] at small
    exact StakeEvidence.addressable_of_length_encode (by omega)

theorem Block.addressable_of_length_encode {b : Block} (small : b.encode.length < 2 ^ 64) :
    b.Addressable := by
  rw [Block.encode, List.length_append] at small
  have count := length_le_length_list Transaction.encode_ne_nil b.transactions
  refine ⟨Header.addressable_of_length_encode (by omega), by omega, ?_⟩
  intro tx mem
  have part : tx.encode.length ≤ (Wire.list Transaction.encode b.transactions).length :=
    length_encode_le_of_mem mem
  exact Transaction.addressable_of_length_encode (by omega)

/-! ## The codec -/

/-- **Decoding and encoding blocks are inverse to each other, and so for headers.** On either
network, from a cursor in front of any bytes, a block is read and the cursor moved if and only if
the bytes passed are its encoding and it is encodable on the network, with words for lengths. The
same holds for headers, and the name of a header that is read is the hash of the first 80 of
the bytes passed.

The lengths are words in every block and every header that is encoded in fewer than `2 ^ 64`
bytes. -/
theorem block_codec (network : Network) :
    (∀ (c c' : Cursor) (b : Block),
      Decoder.block network c = (.ok b, c') ↔
        (b.Encodable network ∧ b.Addressable) ∧
          c.rest = b.encode ++ c'.rest ∧ c'.offset = c.offset + b.encode.length) ∧
    (∀ (c c' : Cursor) (h : Header),
      Decoder.header network c = (.ok h, c') ↔
        (h.Encodable network ∧ h.Addressable) ∧
          c.rest = h.encode ++ c'.rest ∧ c'.offset = c.offset + h.encode.length) ∧
    (∀ (c c' : Cursor) (h : Header), Decoder.header network c = (.ok h, c') →
      c.offset + 80 ≤ c'.offset ∧ h.hash = doubleSha256 (c.rest.take 80)) ∧
    (∀ b : Block, b.encode.length < 2 ^ 64 → b.Addressable) ∧
    (∀ h : Header, h.encode.length < 2 ^ 64 → h.Addressable) := by
  have headers := Decoder.header_exact network
  refine ⟨Decoder.block_exact network, headers, ?_, fun _ => Block.addressable_of_length_encode,
    fun _ => Header.addressable_of_length_encode⟩
  intro c c' h read
  obtain ⟨-, hrest, hoffset⟩ := (headers c c' h).1 read
  refine ⟨?_, ?_⟩
  · rw [hoffset]
    exact Nat.add_le_add_left h.le_length_encode _
  · rw [hrest]
    exact h.hash_eq c'.rest

/-- A coinstake: it spends an output and leaves its first output empty. -/
def stake : Transaction :=
  { version := 1
    time := some 1600000000
    inputs :=
      [{ prevout := ⟨Wide.one, 1⟩, scriptSig := [0x51], sequence := 0xffffffff,
         witness := [[0x02]] }]
    outputs := [⟨0, []⟩, ⟨100, [0x51]⟩]
    lockTime := 0 }

/-- A block of a proof-of-stake network, whose only transaction is the coinstake. -/
def stakedBlock : Block :=
  { header := .proven
      { version := 1, previous := Wide.one, merkleRoot := Wide.zero, time := 1600000000,
        bits := ⟨0x1d00ffff⟩, nonce := 7 }
      { merkleProof := [1, 2, 3], signature := [0x30, 0x06], coinstake := stake }
    transactions := [stake] }

/-- The block is read back in front of other bytes. So is its header, under the name that its first
80 bytes give it. -/
theorem staked_block_read_back :
    stakedBlock.Encodable .proofOfStake ∧ stakedBlock.Addressable ∧
      Decoder.block .proofOfStake ⟨stakedBlock.encode ++ [0xde, 0xad], 3⟩ =
        (.ok stakedBlock, ⟨[0xde, 0xad], 3 + stakedBlock.encode.length⟩) ∧
      Decoder.header .proofOfStake ⟨stakedBlock.header.encode ++ [0xbe], 5⟩ =
        (.ok stakedBlock.header, ⟨[0xbe], 5 + stakedBlock.header.encode.length⟩) ∧
      stakedBlock.header.hash = doubleSha256 ((stakedBlock.header.encode ++ [0xbe]).take 80) := by
  obtain ⟨blocks, headers, names, small, -⟩ := block_codec .proofOfStake
  have coinstake : stake.Encodable .proofOfStake := ⟨rfl, rfl, .inl (List.cons_ne_nil _ _)⟩
  have encodable : stakedBlock.Encodable .proofOfStake := by
    refine ⟨⟨rfl, coinstake, by decide +kernel⟩, fun tx mem => ?_⟩
    rw [List.mem_singleton.1 mem]
    exact coinstake
  have addressable : stakedBlock.Addressable := small stakedBlock (by decide +kernel)
  have front : ∀ (h : Header) (rest : Bytes) (offset : Nat), h.Encodable .proofOfStake →
    h.Addressable →
      Decoder.header .proofOfStake ⟨h.encode ++ rest, offset⟩ = (.ok h,
        ⟨rest, offset + h.encode.length⟩) :=
    fun h rest offset inside words => (headers _ _ _).2 ⟨⟨inside, words⟩, rfl, rfl⟩
  have whole : ∀ (b : Block) (rest : Bytes) (offset : Nat), b.Encodable .proofOfStake →
    b.Addressable →
      Decoder.block .proofOfStake ⟨b.encode ++ rest, offset⟩ = (.ok b,
        ⟨rest, offset + b.encode.length⟩) :=
    fun b rest offset inside words => (blocks _ _ _).2 ⟨⟨inside, words⟩, rfl, rfl⟩
  have named := front stakedBlock.header [0xbe] 5 encodable.header addressable.header
  exact ⟨encodable, addressable, whole _ _ _ encodable addressable, named,
    (names _ _ _ named).2⟩

end BlockRules
