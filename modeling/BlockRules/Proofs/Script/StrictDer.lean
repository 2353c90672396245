import Mathlib
import BlockRules.Bytes.Lemmas
import BlockRules.Proofs.Script.Forms

/-!
# The grammar of strict signatures

A signature on the stack is a DER sequence of two integers with the byte of the hash type behind it.
The strict check (`Curve.isStrictDer`) reads bytes at places that it calculates from the lengths an
item states, and compares. What it accepts can be said without places:

* `Curve.StrictParts` — the item is put together from two integers in their shortest form
  (`Curve.IsDerInteger`) and a byte, with the lengths that they have;
* **an item cut at its lengths** — on such an item the check comes to these conditions
  (`Curve.isStrictDer_joined_iff`), for an integer on the bytes that stand at its place
  (`Curve.isStrictInteger_iff`). The lengths tell where the item was cut (`Curve.joined_inj`);
* **any other item** — what passes can be cut at its lengths
  (`Curve.exists_joined_of_isStrictDer`).

That the check stays inside of the item is known already (`Curve.isStrictDer_answers`).
-/

namespace BlockRules.Curve

/-! ## The grammar -/

/-- A number in the shortest form, and not negative: the top bit of the first byte is the sign, and
a zero comes before another byte only to keep it clear. -/
def IsDerInteger : Bytes → Prop
  | [] => False
  | [b] => b.toNat < 128
  | b :: c :: _ => b.toNat < 128 ∧ (b = 0 → 128 ≤ c.toNat)

/-- An item is a sequence of two integers, each behind its length, and the byte of a hash type. The
length of the sequence leaves out its own head and the last byte. -/
structure StrictParts (sig r s : Bytes) (hashType : UInt8) : Prop where
  cut : sig = [0x30, UInt8.ofNat (sig.length - 3), 0x02, UInt8.ofNat r.length] ++ r ++
    [0x02, UInt8.ofNat s.length] ++ s ++ [hashType]
  least : 9 ≤ sig.length
  most : sig.length ≤ 73
  first : IsDerInteger r
  second : IsDerInteger s

/-! ## The check -/

variable {α : Type} {x : Except Fault Bool} {sig r s rest : Bytes} {place i : Nat} {b c t : UInt8}

theorem unless_eq_true_iff {c : Prop} [Decidable c] :
    (if c then pure false else x) = .ok true ↔ ¬c ∧ x = .ok true := by
  split
  next refused => exact iff_of_false nofun fun ⟨passed, _⟩ => passed refused
  next passed => exact (and_iff_right passed).symm

theorem bind_eq_true_iff {y : Except Fault α} {a : α} {f : α → Except Fault Bool}
    (value : y = .ok a) :
    (y >>= f) = .ok true ↔ f a = .ok true := by
  rw [value]
  rfl

/-- A check before the others: all have to pass. -/
theorem bind_unless_eq_true_iff {y : Except Fault Bool} :
    (y >>= fun passed => if (!passed) = true then pure false else x) = .ok true ↔
      y = .ok true ∧ x = .ok true := by
  rcases y with fault | _ | _
  · exact iff_of_false nofun nofun
  · exact iff_of_false nofun nofun
  · exact (and_iff_right rfl).symm

theorem byteAt_of_drop (there : sig.drop i = b :: rest) : byteAt sig i = .ok b := by
  rw [byteAt, ← List.head?_drop, there]
  rfl

/-- An integer passes that is in the shortest form. -/
theorem isStrictInteger_iff (there : sig.drop place = r ++ rest) :
    isStrictInteger sig place r.length = .ok true ↔ IsDerInteger r := by
  have positive : ∀ {b : UInt8}, ¬b &&& 0x80 ≠ 0 ↔ b.toNat < 128 := fun {b} =>
    Bytes.and_topBit_ne_zero_iff.not.trans Nat.not_le
  rcases r with _ | ⟨b, _ | ⟨c, r⟩⟩
  · exact iff_of_false nofun id
  · have narrow : ¬(1 < [b].length ∧ b = 0x00) := fun wide => Nat.lt_irrefl 1 wide.1
    rw [isStrictInteger, unless_eq_true_iff, and_iff_right (by simp),
      bind_eq_true_iff (byteAt_of_drop there), unless_eq_true_iff, if_neg narrow, positive]
    exact and_iff_left rfl
  · have next : sig.drop (place + 1) = c :: (r ++ rest) := by
      rw [← List.drop_drop, there]
      rfl
    have wide : 1 < (b :: c :: r).length := by simp
    rw [isStrictInteger, unless_eq_true_iff, and_iff_right (by simp),
      bind_eq_true_iff (byteAt_of_drop there), unless_eq_true_iff, positive, IsDerInteger]
    refine and_congr_right' ?_
    by_cases zero : b = 0
    · have large : (c &&& 0x80 != 0) = true ↔ 128 ≤ c.toNat := by
        rw [bne_iff_ne, ← not_iff_not, positive, Nat.not_le]
      rw [if_pos ⟨wide, zero⟩, bind_eq_true_iff (byteAt_of_drop next), ← large]
      exact ⟨fun passed _ => Except.ok.inj passed,
        fun passed => congrArg Except.ok (passed zero)⟩
    · rw [if_neg fun both => zero both.2]
      exact iff_of_true rfl fun same => absurd same zero

/-- An item that is cut at its lengths. -/
def joined (a₀ a₁ a₂ b₀ : UInt8) (r s : Bytes) (t : UInt8) : Bytes :=
  [a₀, a₁, a₂, UInt8.ofNat r.length] ++ r ++ [b₀, UInt8.ofNat s.length] ++ s ++ [t]

theorem length_joined (a₀ a₁ a₂ b₀ : UInt8) (r s : Bytes) (t : UInt8) :
    (joined a₀ a₁ a₂ b₀ r s t).length = r.length + s.length + 7 := by
  simp only [joined, List.length_append, List.length_cons, List.length_nil]
  omega

/-- There is one way to cut an item. -/
theorem joined_inj {a₀ a₁ a₂ b₀ a₀' a₁' a₂' b₀' : UInt8} {r' s' : Bytes} {t' : UInt8}
    (short : r.length + s.length < 256) (short' : r'.length + s'.length < 256)
    (same : joined a₀ a₁ a₂ b₀ r s t = joined a₀' a₁' a₂' b₀' r' s' t') :
    r = r' ∧ s = s' ∧ t = t' := by
  have byte : ∀ {m n : Nat}, m < 256 → n < 256 → UInt8.ofNat m = UInt8.ofNat n → m = n := by
    intro m n small small' bytes
    rw [← UInt8.toNat_ofNat_of_lt' small, bytes, UInt8.toNat_ofNat_of_lt' small']
  simp only [joined, List.append_assoc, List.cons_append, List.nil_append, List.cons.injEq] at same
  obtain ⟨-, -, -, sizeR, same⟩ := same
  obtain ⟨rfl, behindR⟩ := List.append_inj same (byte (by omega) (by omega) sizeR)
  rw [List.cons.injEq, List.cons.injEq] at behindR
  obtain ⟨-, sizeS, fromS⟩ := behindR
  obtain ⟨rfl, last⟩ := List.append_inj fromS (byte (by omega) (by omega) sizeS)
  exact ⟨rfl, rfl, List.singleton_inj.1 last⟩

/-- An item that its lengths cover can be cut there. -/
theorem exists_joined {m n : UInt8} (first : sig[3]? = some m) (second : sig[5 + m.toNat]? = some n)
    (covers : m.toNat + n.toNat + 7 = sig.length) :
    ∃ a₀ a₁ a₂ b₀ r s t, sig = joined a₀ a₁ a₂ b₀ r s t := by
  obtain ⟨a₀, a₁, a₂, rest, rfl⟩ :
      ∃ a₀ a₁ a₂ rest, sig = a₀ :: a₁ :: a₂ :: m :: rest := by
    match sig, first with
    | a₀ :: a₁ :: a₂ :: _ :: rest, rfl => exact ⟨a₀, a₁, a₂, rest, rfl⟩
  obtain ⟨inside, -⟩ := List.getElem?_eq_some_iff.1 second
  change 5 + m.toNat < rest.length + 4 at inside
  -- the first integer is taken by its length; what is behind it starts with the second length
  obtain ⟨r, rest, rfl, sizeR⟩ : ∃ r rest', rest = r ++ rest' ∧ r.length = m.toNat :=
    ⟨rest.take m.toNat, rest.drop m.toNat, (List.take_append_drop _ _).symm,
      List.length_take_of_le (by omega)⟩
  have behindR : (a₀ :: a₁ :: a₂ :: m :: (r ++ rest))[5 + m.toNat]? = rest[1]? := by
    rw [← sizeR, Nat.add_comm 5, ← List.head?_drop, ← List.head?_drop,
      ← Nat.add_assoc r.length 4 1, ← List.drop_drop, Nat.add_comm r.length, ← List.drop_drop]
    change (((r ++ rest).drop r.length).drop 1).head? = (rest.drop 1).head?
    rw [List.drop_left]
  obtain ⟨b₀, rest, rfl⟩ : ∃ b₀ rest', rest = b₀ :: n :: rest' := by
    match rest, behindR.symm.trans second with
    | b₀ :: _ :: rest, rfl => exact ⟨b₀, rest, rfl⟩
  have sizeS : rest.length = n.toNat + 1 := by
    simp only [List.length_cons, List.length_append] at covers
    omega
  -- one byte is left behind the second integer
  rcases List.eq_nil_or_concat' rest with rfl | ⟨s, t, rfl⟩
  · cases sizeS
  · have size : s.length = n.toNat := by
      rw [List.length_append, List.length_singleton] at sizeS
      exact Nat.succ.inj sizeS
    refine ⟨a₀, a₁, a₂, b₀, r, s, t, ?_⟩
    rw [joined, sizeR, size, UInt8.ofNat_toNat, UInt8.ofNat_toNat]
    simp only [List.cons_append, List.nil_append, List.append_assoc]

/-- What the check comes to on an item that is cut at its lengths. -/
theorem isStrictDer_joined_iff {a₀ a₁ a₂ b₀ : UInt8} (short : r.length + s.length < 256) :
    isStrictDer (joined a₀ a₁ a₂ b₀ r s t) = .ok true ↔
      (9 ≤ r.length + s.length + 7 ∧ r.length + s.length + 7 ≤ 73) ∧ a₀ = 0x30 ∧
        a₁.toNat = r.length + s.length + 4 ∧ a₂ = 0x02 ∧ IsDerInteger r ∧ b₀ = 0x02 ∧
        IsDerInteger s := by
  have size := length_joined a₀ a₁ a₂ b₀ r s t
  have byteR : (UInt8.ofNat r.length).toNat = r.length :=
    UInt8.toNat_ofNat_of_lt' (by rw [UInt8.size]; omega)
  have byteS : (UInt8.ofNat s.length).toNat = s.length :=
    UInt8.toNat_ofNat_of_lt' (by rw [UInt8.size]; omega)
  -- what the check finds at each of its addresses
  have fromR :
      (joined a₀ a₁ a₂ b₀ r s t).drop 4 = r ++
        (b₀ :: UInt8.ofNat s.length :: (s ++ [t])) := by
    simp [joined]
  have behindR : (joined a₀ a₁ a₂ b₀ r s t).drop (r.length + 4) =
      b₀ :: UInt8.ofNat s.length :: (s ++ [t]) := by
    rw [Nat.add_comm, ← List.drop_drop, fromR, List.drop_left]
  have sizeS : (joined a₀ a₁ a₂ b₀ r s t).drop (5 + r.length) =
      UInt8.ofNat s.length :: (s ++ [t]) := by
    rw [Nat.add_comm, ← Nat.add_assoc r.length 4 1, ← List.drop_drop, behindR]
    rfl
  have fromS : (joined a₀ a₁ a₂ b₀ r s t).drop (r.length + 6) = s ++ [t] := by
    rw [← Nat.add_assoc r.length 4 2, ← List.drop_drop, behindR]
    rfl
  have byte₀ : byteAt (joined a₀ a₁ a₂ b₀ r s t) 0 = .ok a₀ := rfl
  have byte₁ : byteAt (joined a₀ a₁ a₂ b₀ r s t) 1 = .ok a₁ := rfl
  have byte₂ : byteAt (joined a₀ a₁ a₂ b₀ r s t) 2 = .ok a₂ := rfl
  have byte₃ : byteAt (joined a₀ a₁ a₂ b₀ r s t) 3 = .ok (UInt8.ofNat r.length) := rfl
  rw [isStrictDer, unless_eq_true_iff, size, bind_eq_true_iff byte₀, unless_eq_true_iff,
    bind_eq_true_iff byte₁, unless_eq_true_iff, bind_eq_true_iff byte₃, byteR]
  dsimp only
  -- the two tests of lengths hold by the way the item is joined
  have inside : ¬r.length + s.length + 7 ≤ 5 + r.length := by omega
  have behind : r.length + s.length + 7 - 3 = r.length + s.length + 4 := by omega
  rw [unless_eq_true_iff, bind_eq_true_iff (byteAt_of_drop sizeS), byteS, unless_eq_true_iff,
    bind_eq_true_iff byte₂, unless_eq_true_iff, bind_unless_eq_true_iff,
    isStrictInteger_iff fromR, bind_eq_true_iff (byteAt_of_drop behindR), unless_eq_true_iff,
    isStrictInteger_iff fromS, and_iff_right inside, and_iff_right (not_not_intro rfl), behind]
  simp only [not_or, not_lt, not_not, ne_eq]

/-- An item that passes can be cut at its lengths. -/
theorem exists_joined_of_isStrictDer (passed : isStrictDer sig = .ok true) :
    sig.length ≤ 73 ∧
    ∃ a₀ a₁ a₂ b₀ r s t, sig = joined a₀ a₁ a₂ b₀ r s t := by
  rw [isStrictDer, unless_eq_true_iff] at passed
  obtain ⟨size, passed⟩ := passed
  have long : 9 ≤ sig.length := by omega
  rw [bind_eq_true_iff (byteAt_of_lt (by omega)), unless_eq_true_iff] at passed
  rw [bind_eq_true_iff (byteAt_of_lt (by omega)), unless_eq_true_iff] at passed
  rw [bind_eq_true_iff (byteAt_of_lt (by omega)), unless_eq_true_iff] at passed
  obtain ⟨-, -, inside, passed⟩ := passed
  rw [bind_eq_true_iff (byteAt_of_lt (by omega)), unless_eq_true_iff] at passed
  exact ⟨by omega,
    exists_joined (List.getElem?_eq_getElem _) (List.getElem?_eq_getElem _) (not_not.1 passed.1)⟩

/-! ## The decomposition -/

namespace StrictParts

theorem eq_joined (parts : StrictParts sig r s t) :
    sig = joined 0x30 (UInt8.ofNat (sig.length - 3)) 0x02 0x02 r s t := parts.cut

theorem length_eq (parts : StrictParts sig r s t) : sig.length = r.length + s.length + 7 := by
  rw [parts.eq_joined, length_joined]

theorem short (parts : StrictParts sig r s t) : r.length + s.length < 256 := by
  have size := parts.length_eq
  have most := parts.most
  omega

/-- An item has one decomposition. -/
theorem unique {r' s' : Bytes} {t' : UInt8} (parts : StrictParts sig r s t)
    (parts' : StrictParts sig r' s' t') :
    r = r' ∧ s = s' ∧ t = t' :=
  joined_inj parts.short parts'.short (parts.eq_joined.symm.trans parts'.eq_joined)

end StrictParts

/-- The checks pass exactly on what has the parts of the grammar. -/
theorem isStrictDer_iff : isStrictDer sig = .ok true ↔ ∃ r s t, StrictParts sig r s t := by
  constructor
  · intro passed
    obtain ⟨most, a₀, a₁, a₂, b₀, r, s, t, rfl⟩ := exists_joined_of_isStrictDer passed
    have size := length_joined a₀ a₁ a₂ b₀ r s t
    obtain ⟨sizes, rfl, stated, rfl, first, rfl, second⟩ :=
      (isStrictDer_joined_iff (by omega)).1 passed
    refine ⟨r, s, t, ?_, size ▸ sizes.1, most, first, second⟩
    have byte : a₁ = UInt8.ofNat ((joined 0x30 a₁ 0x02 0x02 r s t).length - 3) := by
      rw [size, ← UInt8.ofNat_toNat (x := a₁), stated]
      rfl
    rw [← byte]
    rfl
  · rintro ⟨r, s, t, parts⟩
    have size := parts.length_eq
    have least := parts.least
    have most := parts.most
    refine (congrArg isStrictDer parts.eq_joined).trans ((isStrictDer_joined_iff parts.short).2 ?_)
    refine ⟨⟨by omega, by omega⟩, rfl, ?_, rfl, parts.first, rfl, parts.second⟩
    rw [UInt8.toNat_ofNat_of_lt' (by rw [UInt8.size]; omega), size]
    rfl

/-- **Strict signatures.** The check reads no byte outside of the item, so that it comes to an
answer on every item. It passes exactly the items that are put together as `30 L 02 |r| r 02 |s| s
t`, of 9 to 73 bytes, where `L` counts what follows it but `t`, and `r` and `s` are numbers in the
shortest form that are not negative. There is no second way to cut an item like this. -/
theorem strict_der_grammar (sig : Bytes) :
    (isStrictDer sig = .ok true ∨ isStrictDer sig = .ok false) ∧
    (isStrictDer sig = .ok true ↔ ∃ r s t, StrictParts sig r s t) ∧
    ∀ r s t r' s' t', StrictParts sig r s t → StrictParts sig r' s' t' →
      r = r' ∧ s = s' ∧ t = t' := by
  refine ⟨?_, isStrictDer_iff, fun _ _ _ _ _ _ parts parts' => parts.unique parts'⟩
  obtain ⟨_ | _, answer⟩ := isStrictDer_answers sig
  · exact .inr answer
  · exact .inl answer

/-- A number whose top bit is kept clear by a zero, and a zero alone. -/
theorem padded_signature_passes :
    let sig : Bytes := [0x30, 0x07, 0x02, 0x02, 0x00, 0x80, 0x02, 0x01, 0x00, 0x01]
    StrictParts sig [0x00, 0x80] [0x00] 0x01 ∧ isStrictDer sig = .ok true ∧
      ∀ r s t, StrictParts sig r s t → r = [0x00, 0x80] ∧ s = [0x00] ∧ t = 0x01 := by
  intro sig
  have parts : StrictParts sig [0x00, 0x80] [0x00] 0x01 :=
    ⟨by decide, by decide, by decide, ⟨by decide, fun _ => by decide⟩, Nat.zero_lt_succ _⟩
  obtain ⟨-, passes, unique⟩ := strict_der_grammar sig
  exact ⟨parts, passes.2 ⟨_, _, _, parts⟩,
    fun r s t other => unique _ _ _ _ _ _ other parts⟩

end BlockRules.Curve
