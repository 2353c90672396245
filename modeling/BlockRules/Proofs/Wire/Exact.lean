import Mathlib
import BlockRules.Bytes.Lemmas
import BlockRules.Wide.Lemmas
import BlockRules.Wire.Decode

/-!
# Exact decoders

A decoder is exact for an encoding if it accepts nothing but what the encoding writes, and
all of that: it gives a value and moves past some bytes if and only if the bytes are the
encoding of the value and the value lies in a domain.

* **cursors** — `Cursor.Past c bs c'`: the cursor `c'` stands right behind the bytes `bs`
  that the cursor `c` stands in front of;
* **sequencing** — `bind_eq_ok_iff` takes a decoder that succeeded apart at every `←`;
* **exactness** — `Exact d encode domain`, for integers of fixed width, compact sizes,
  byte strings and lists. Only the last two have to look at what remains, and what they
  demand of it holds behind every encoding;
* **one form** — what is read at the front of bytes is an encoding (`Exact.front_iff`), so that
  counts and byte strings are written in one way (`counts_have_one_form`);
* **injectivity** — an encoding with an exact decoder determines its value even in front
  of other bytes (`Exact.append_inj`), and so does a list of encodings without a count
  (`Exact.flatMap_inj`).

A count has no form of nine bytes from `2 ^ 64` on, so this is where domains come from.
-/

namespace BlockRules

/-! ## Cursors -/

/-- The second cursor stands right behind some bytes, and the first one in front of them. -/
def Cursor.Past (c : Cursor) (bs : Bytes) (c' : Cursor) : Prop :=
  c.rest = bs ++ c'.rest ∧ c'.offset = c.offset + bs.length

namespace Cursor

theorem past_nil {c c' : Cursor} : c.Past [] c' ↔ c' = c := by
  cases c
  cases c'
  simp [Past, eq_comm]

/-- Moving past two pieces is moving past one and then the other. -/
theorem past_append {c c' : Cursor} {front back : Bytes} :
    c.Past (front ++ back) c' ↔ ∃ m, c.Past front m ∧ m.Past back c' := by
  refine ⟨?_, ?_⟩
  · rintro ⟨hrest, hoffset⟩
    refine ⟨⟨back ++ c'.rest, c.offset + front.length⟩, ⟨?_, rfl⟩, rfl, ?_⟩
    · rw [hrest, List.append_assoc]
    · rw [hoffset, List.length_append, Nat.add_assoc]
  · rintro ⟨m, ⟨hrest, hoffset⟩, hrest', hoffset'⟩
    refine ⟨?_, ?_⟩
    · rw [hrest, hrest', List.append_assoc]
    · rw [hoffset', hoffset, List.length_append, Nat.add_assoc]

theorem Past.append {c m c' : Cursor} {front back : Bytes} (first : c.Past front m)
    (second : m.Past back c') : c.Past (front ++ back) c' := past_append.2 ⟨m, first, second⟩

/-- Bytes determine where a cursor gets past them. -/
theorem Past.unique {c m m' : Cursor} {bs : Bytes} (first : c.Past bs m) (second : c.Past bs m') :
    m = m' := by
  obtain ⟨hrest, hoffset⟩ := first
  obtain ⟨hrest', hoffset'⟩ := second
  rw [hrest] at hrest'
  cases m
  cases m'
  simp_all

/-- There are as many bytes as there are behind the bytes and in them. -/
theorem Past.length {c c' : Cursor} {bs : Bytes} (past : c.Past bs c') :
    c.rest.length = bs.length + c'.rest.length := by
  rw [past.1, List.length_append]

end Cursor

namespace Decoder

variable {α β : Type}

/-! ## Sequencing -/

/-- A sequence succeeds if and only if both parts do, one behind the other. -/
theorem bind_eq_ok_iff {d : Decoder α} {next : α → Decoder β} {c c' : Cursor} {b : β} :
    (d >>= next) c = (.ok b, c') ↔ ∃ a m, d c = (.ok a, m) ∧ next a m = (.ok b, c') := by
  rcases h : d c with ⟨e | a, m⟩
  · rw [bind_error h]
    refine ⟨nofun, ?_⟩
    rintro ⟨a, m', hd, -⟩
    cases hd
  · rw [bind_ok h]
    refine ⟨?_, ?_⟩
    · intro hnext
      exact ⟨a, m, rfl, hnext⟩
    · rintro ⟨a', m', hd, hnext⟩
      cases hd
      exact hnext

theorem pure_eq_ok_iff {a b : α} {c c' : Cursor} :
    (pure a : Decoder α) c = (.ok b, c') ↔ b = a ∧ c' = c := by
  rw [pure_apply, Prod.mk.injEq, Except.ok.injEq, eq_comm, @eq_comm _ c c']

theorem fail_ne_ok {e : DecodeError} {c c' : Cursor} {a : α} :
    (fail e : Decoder α) c ≠ (.ok a, c') := nofun

/-! ## Exactness -/

/-- The decoder reads exactly the encodings of the values of a domain. -/
def Exact (d : Decoder α) (encode : α → Bytes) (domain : α → Prop) : Prop :=
  ∀ c c' a, d c = (.ok a, c') ↔ domain a ∧ c.Past (encode a) c'

/-- Exactness survives a change of the type that loses nothing on the domain. -/
theorem Exact.map {d : Decoder α} {encode : α → Bytes} {domain : α → Prop}
    (exact : Exact d encode domain)
    {f : α → β} {g : β → α} {domain' : β → Prop} (back : ∀ a, domain a → g (f a) = a)
    (forth : ∀ b, domain' b → f (g b) = b) (inside : ∀ b, domain' b → domain (g b))
    (onto : ∀ a, domain a → domain' (f a)) :
    Exact (do return f (← d)) (fun b => encode (g b)) domain' := by
  intro c c' b
  rw [bind_eq_ok_iff]
  refine ⟨?_, ?_⟩
  · rintro ⟨a, m, hd, hpure⟩
    obtain ⟨rfl, rfl⟩ := pure_eq_ok_iff.1 hpure
    obtain ⟨ha, hpast⟩ := (exact _ _ _).1 hd
    refine ⟨onto a ha, ?_⟩
    show c.Past (encode (g (f a))) c'
    rw [back a ha]
    exact hpast
  · rintro ⟨hb, hpast⟩
    refine ⟨g b, c', (exact _ _ _).2 ⟨inside b hb, hpast⟩, ?_⟩
    rw [forth b hb]
    rfl

/-- Encodings of values of the domain differ even in front of other bytes. -/
theorem Exact.append_inj {d : Decoder α} {encode : α → Bytes} {domain : α → Prop}
    (exact : Exact d encode domain) {a b : α} {rest rest' : Bytes} (ha : domain a) (hb : domain b)
    (same : encode a ++ rest = encode b ++ rest') : a = b ∧ rest = rest' := by
  have first : d ⟨encode a ++ rest, 0⟩ = (.ok a, ⟨rest, 0 + (encode a).length⟩) :=
    (exact _ _ _).2 ⟨ha, rfl, rfl⟩
  have second : d ⟨encode b ++ rest', 0⟩ = (.ok b, ⟨rest', 0 + (encode b).length⟩) :=
    (exact _ _ _).2 ⟨hb, rfl, rfl⟩
  rw [same, second] at first
  obtain ⟨value, behind⟩ := Prod.mk.inj first
  exact ⟨(Except.ok.inj value).symm, (congrArg Cursor.rest behind).symm⟩

/-- At the front of bytes, an exact decoder reads encodings and nothing else, and leaves what is
behind them. -/
theorem Exact.front_iff {d : Decoder α} {encode : α → Bytes} {domain : α → Prop}
    (exact : Exact d encode domain) {front behind : Bytes} {offset : Nat} {a : α} :
    d ⟨front ++ behind, offset⟩ = (.ok a, ⟨behind, offset + front.length⟩) ↔
      domain a ∧ front = encode a := by
  refine (exact _ _ _).trans (and_congr_right fun _ => ⟨?_, ?_⟩)
  · rintro ⟨same, -⟩
    exact List.append_cancel_right same
  · rintro rfl
    exact ⟨rfl, rfl⟩

/-- It has always moved past some bytes when it succeeds. -/
theorem Exact.exists_front {d : Decoder α} {encode : α → Bytes} {domain : α → Prop}
    (exact : Exact d encode domain) {c c' : Cursor} {a : α} (read : d c = (.ok a, c')) :
    ∃ front, c.Past front c' :=
  ⟨encode a, ((exact c c' a).1 read).2⟩

/-- What is decoded exactly is encoded injectively. -/
theorem Exact.inj {d : Decoder α} {encode : α → Bytes} {domain : α → Prop}
    (exact : Exact d encode domain) {a b : α} (ha : domain a) (hb : domain b)
    (same : encode a = encode b) : a = b := by
  have behind : encode a ++ [] = encode b ++ [] := by rw [same]
  exact (exact.append_inj ha hb behind).1

/-- Lists of values that take at least one byte each can be told apart even without their counts. -/
theorem Exact.flatMap_inj {d : Decoder α} {encode : α → Bytes} {domain : α → Prop}
    (exact : Exact d encode domain) (occupies : ∀ x, encode x ≠ []) {xs ys : List α}
    (hxs : ∀ x ∈ xs, domain x) (hys : ∀ y ∈ ys, domain y)
    (same : xs.flatMap encode = ys.flatMap encode) : xs = ys := by
  induction xs generalizing ys with
  | nil =>
    rcases ys with _ | ⟨y, ys⟩
    · rfl
    · rw [List.flatMap_nil, List.flatMap_cons] at same
      exact absurd (List.append_eq_nil_iff.1 same.symm).1 (occupies y)
  | cons x xs ih =>
    rcases ys with _ | ⟨y, ys⟩
    · rw [List.flatMap_nil, List.flatMap_cons] at same
      exact absurd (List.append_eq_nil_iff.1 same).1 (occupies x)
    · rw [List.flatMap_cons, List.flatMap_cons] at same
      rw [List.forall_mem_cons] at hxs hys
      obtain ⟨rfl, rest⟩ := exact.append_inj hxs.1 hys.1 same
      rw [ih hxs.2 hys.2 rest]

theorem take_exact (n : Nat) : Exact (take n) (fun bs => bs) (fun bs => bs.length = n) := by
  intro c c' bs
  rw [take]
  rcases split : Bytes.split? n c.rest with _ | ⟨front, rest⟩
  · refine ⟨nofun, ?_⟩
    rintro ⟨rfl, past⟩
    have short := Bytes.split?_eq_none_iff.1 split
    rw [past.length] at short
    exact absurd short (Nat.not_lt_of_le (Nat.le_add_right _ _))
  · obtain ⟨hfront, hrest⟩ := Bytes.split?_eq_some_iff.1 split
    simp only [Prod.mk.injEq, Except.ok.injEq]
    refine ⟨?_, ?_⟩
    · rintro ⟨rfl, rfl⟩
      refine ⟨hfront, hrest, ?_⟩
      rw [hfront]
    · rintro ⟨hlen, hpast, hoffset⟩
      rw [hrest] at hpast
      obtain ⟨rfl, hrest'⟩ := List.append_inj hpast (by rw [hfront, hlen])
      refine ⟨rfl, ?_⟩
      cases c'
      simp_all

/-! ### Integers of fixed width -/

theorem number_exact (n : Nat) : Exact (number n) (Bytes.ofNat n) (fun v => v < 256 ^ n) := by
  apply (take_exact n).map
  · intro bs hbs
    rw [← hbs, Bytes.ofNat_toNat]
  · intro v small
    rw [Bytes.toNat_ofNat, Nat.mod_eq_of_lt small]
  · intro v _
    exact Bytes.length_ofNat n v
  · intro bs hbs
    rw [← hbs]
    exact Bytes.toNat_lt bs

theorem byte_exact : Exact byte Wire.byte (fun _ => True) := by
  have written : Exact byte (fun b => Bytes.ofNat 1 b.toNat) (fun _ => True) := by
    apply (number_exact 1).map
    · intro v small
      exact UInt8.toNat_ofNat_of_lt' small
    · intro b _
      exact UInt8.ofNat_toNat
    · intro b _
      exact b.toNat_lt
    · intro v _
      trivial
  have single : (fun b : UInt8 => Bytes.ofNat 1 b.toNat) = Wire.byte := by
    funext b
    rw [Bytes.ofNat_succ, Bytes.ofNat_zero, Nat.mod_eq_of_lt b.toNat_lt, UInt8.ofNat_toNat]
    rfl
  rw [single] at written
  exact written

theorem uint32_exact : Exact uint32 Wire.uint32 (fun _ => True) := by
  apply (number_exact 4).map
  · intro v small
    exact UInt32.toNat_ofNat_of_lt' small
  · intro w _
    exact UInt32.ofNat_toNat
  · intro w _
    exact w.toNat_lt
  · intro v _
    trivial

theorem uint64_exact : Exact uint64 Wire.uint64 (fun _ => True) := by
  apply (number_exact 8).map
  · intro v small
    exact UInt64.toNat_ofNat_of_lt' small
  · intro w _
    exact UInt64.ofNat_toNat
  · intro w _
    exact w.toNat_lt
  · intro v _
    trivial

theorem int32_exact : Exact int32 Wire.int32 (fun _ => True) :=
  uint32_exact.map (fun w _ => w.toUInt32_toInt32) (fun v _ => v.toInt32_toUInt32)
    (fun _ _ => trivial) (fun _ _ => trivial)

theorem int64_exact : Exact int64 Wire.int64 (fun _ => True) :=
  uint64_exact.map (fun w _ => w.toUInt64_toInt64) (fun v _ => v.toInt64_toUInt64)
    (fun _ _ => trivial) (fun _ _ => trivial)

theorem uint256_exact : Exact uint256 Wire.uint256 (fun _ => True) :=
  (take_exact 32).map (fun _ long => Wide.bytesLE_ofBytesLE long) (fun x _ => x.ofBytesLE_bytesLE)
    (fun x _ => x.length_bytesLE) (fun _ _ => trivial)

/-! ### Counts -/

theorem atLeast_eq_ok_iff {least v : Nat} {d : Decoder Nat} {c c' : Cursor} :
    atLeast least d c = (.ok v, c') ↔ d c = (.ok v, c') ∧ least ≤ v := by
  rw [atLeast]
  rw [bind_eq_ok_iff]
  refine ⟨?_, ?_⟩
  · rintro ⟨w, m, hd, hnext⟩
    split at hnext
    · exact absurd hnext fail_ne_ok
    · next enough =>
      obtain ⟨rfl, rfl⟩ := pure_eq_ok_iff.1 hnext
      exact ⟨hd, Nat.le_of_not_lt enough⟩
  · rintro ⟨hd, enough⟩
    refine ⟨v, c', hd, ?_⟩
    rw [if_neg (Nat.not_lt_of_le enough)]
    rfl

/-- The longer forms of a count: a mark, and then a number that no shorter form holds. -/
theorem marked_exact {mark : UInt8} {least width : Nat} {c m c' : Cursor} {v : Nat}
    (marked : c.Past [mark] m) :
    atLeast least (number width) m = (.ok v, c') ↔
      least ≤ v ∧ v < 256 ^ width ∧ c.Past (mark :: Bytes.ofNat width v) c' := by
  rw [atLeast_eq_ok_iff, number_exact width m c' v]
  refine ⟨?_, ?_⟩
  · rintro ⟨⟨small, past⟩, enough⟩
    exact ⟨enough, small, marked.append past⟩
  · rintro ⟨enough, small, past⟩
    obtain ⟨m', hmark, past'⟩ :=
      Cursor.past_append.1 (show c.Past ([mark] ++ Bytes.ofNat width v) c' from past)
    rw [hmark.unique marked] at past'
    exact ⟨⟨small, past'⟩, enough⟩

/-- A byte that is none of the three marks is a count by itself. -/
theorem toNat_lt_of_unmarked {b : UInt8} (h1 : b ≠ 0xfd) (h2 : b ≠ 0xfe) (h3 : b ≠ 0xff) :
    b.toNat < 0xfd := by
  have small := b.toNat_lt
  rw [ne_eq, ← UInt8.toNat_inj] at h1 h2 h3
  have e1 : (0xfd : UInt8).toNat = 0xfd := rfl
  have e2 : (0xfe : UInt8).toNat = 0xfe := rfl
  have e3 : (0xff : UInt8).toNat = 0xff := rfl
  omega

/-- A count is read in its shortest form only. -/
theorem compactSize_exact : Exact compactSize Wire.compactSize (fun n => n < 2 ^ 64) := by
  intro c c' n
  rw [compactSize]
  rw [bind_eq_ok_iff]
  refine ⟨?_, ?_⟩
  · rintro ⟨first, m, hfirst, hrest⟩
    obtain ⟨-, mark⟩ := (byte_exact _ _ _).1 hfirst
    -- the first byte announces the form, and each form excludes the counts of the shorter ones
    split at hrest
    · next h =>
      subst h
      obtain ⟨enough, small, past⟩ := (marked_exact mark).1 hrest
      refine ⟨by omega, ?_⟩
      rw [Wire.compactSize, if_neg (by omega), if_pos (by omega)]
      exact past
    · split at hrest
      · next h =>
        subst h
        obtain ⟨enough, small, past⟩ := (marked_exact mark).1 hrest
        refine ⟨by omega, ?_⟩
        rw [Wire.compactSize, if_neg (by omega), if_neg (by omega), if_pos (by omega)]
        exact past
      · split at hrest
        · next h =>
          subst h
          obtain ⟨enough, small, past⟩ := (marked_exact mark).1 hrest
          refine ⟨by omega, ?_⟩
          rw [Wire.compactSize, if_neg (by omega), if_neg (by omega), if_neg (by omega)]
          exact past
        · next h1 h2 h3 =>
          obtain ⟨rfl, rfl⟩ := pure_eq_ok_iff.1 hrest
          have single : first.toNat < 0xfd := toNat_lt_of_unmarked h1 h2 h3
          refine ⟨by omega, ?_⟩
          rw [Wire.compactSize, if_pos single, UInt8.ofNat_toNat]
          exact mark
  · rintro ⟨small, past⟩
    -- the ranges of the forms cover all counts below `2 ^ 64`
    rw [Wire.compactSize] at past
    split at past
    · next single =>
      have same : (UInt8.ofNat n).toNat = n :=
        UInt8.toNat_ofNat_of_lt' (lt_trans single (by decide))
      refine ⟨UInt8.ofNat n, c', (byte_exact _ _ _).2 ⟨trivial, past⟩, ?_⟩
      have unmarked : ∀ b : UInt8, 0xfd ≤ b.toNat → UInt8.ofNat n ≠ b := by
        rintro b hb rfl
        omega
      rw [if_neg (unmarked 0xfd (by decide)), if_neg (unmarked 0xfe (by decide)),
        if_neg (unmarked 0xff (by decide)), same]
      rfl
    · split at past
      · obtain ⟨m, hmark, -⟩ := Cursor.past_append.1
          (show c.Past ([0xfd] ++ Bytes.ofNat 2 n) c' from past)
        refine ⟨0xfd, m, (byte_exact _ _ _).2 ⟨trivial, hmark⟩, ?_⟩
        rw [if_pos rfl]
        exact (marked_exact hmark).2 ⟨by omega, by omega, past⟩
      · split at past
        · obtain ⟨m, hmark, -⟩ := Cursor.past_append.1
            (show c.Past ([0xfe] ++ Bytes.ofNat 4 n) c' from past)
          refine ⟨0xfe, m, (byte_exact _ _ _).2 ⟨trivial, hmark⟩, ?_⟩
          rw [if_neg (by decide), if_pos rfl]
          exact (marked_exact hmark).2 ⟨by omega, by omega, past⟩
        · obtain ⟨m, hmark, -⟩ := Cursor.past_append.1
            (show c.Past ([0xff] ++ Bytes.ofNat 8 n) c' from past)
          refine ⟨0xff, m, (byte_exact _ _ _).2 ⟨trivial, hmark⟩, ?_⟩
          rw [if_neg (by decide), if_neg (by decide), if_pos rfl]
          exact (marked_exact hmark).2 ⟨by omega, by omega, past⟩

/-- A length is a count that what remains behind it could hold. -/
theorem length_eq_ok_iff {c c' : Cursor} {n : Nat} :
    length c = (.ok n, c') ↔
      n < 2 ^ 64 ∧ c.Past (Wire.compactSize n) c' ∧ n ≤ c'.rest.length := by
  refine Iff.trans bind_eq_ok_iff ?_
  refine ⟨?_, ?_⟩
  · rintro ⟨declared, m, hsize, hrest⟩
    obtain ⟨small, past⟩ := (compactSize_exact _ _ _).1 hsize
    split at hrest
    · cases hrest
    · next room =>
      cases hrest
      exact ⟨small, past, Nat.le_of_not_lt room⟩
  · rintro ⟨small, past, room⟩
    refine ⟨n, c', (compactSize_exact _ _ _).2 ⟨small, past⟩, ?_⟩
    rw [if_neg (Nat.not_lt_of_le room)]

/-! ### Byte strings and lists -/

/-- Bytes with their count in front. -/
theorem varBytes_exact : Exact varBytes Wire.varBytes (fun bs => bs.length < 2 ^ 64) := by
  intro c c' bs
  rw [varBytes]
  rw [bind_eq_ok_iff]
  refine ⟨?_, ?_⟩
  · rintro ⟨n, m, hlength, htake⟩
    obtain ⟨small, past, -⟩ := length_eq_ok_iff.1 hlength
    obtain ⟨rfl, past'⟩ := (take_exact _ _ _ _).1 htake
    exact ⟨small, past.append past'⟩
  · rintro ⟨small, past⟩
    obtain ⟨m, hlength, past'⟩ := Cursor.past_append.1 past
    have room : bs.length ≤ m.rest.length := by
      rw [past'.length]
      exact Nat.le_add_right _ _
    exact ⟨bs.length, m, length_eq_ok_iff.2 ⟨small, hlength, room⟩,
      (take_exact _ _ _ _).2 ⟨rfl, past'⟩⟩

/-- **Counts and byte strings have one form.** What is written for a count of 64 bits is read back
in front of any bytes. A count is read from some bytes, and those behind them are left, exactly if
they are what is written for it; so are byte strings. -/
theorem counts_have_one_form :
    (∀ (v : UInt64) (behind : Bytes) (offset : Nat),
      compactSize ⟨Wire.compactSize v.toNat ++ behind, offset⟩ =
        (.ok v.toNat, ⟨behind, offset + (Wire.compactSize v.toNat).length⟩)) ∧
    (∀ (front behind : Bytes) (offset n : Nat),
      compactSize ⟨front ++ behind, offset⟩ = (.ok n, ⟨behind, offset + front.length⟩) ↔
        n < 2 ^ 64 ∧ front = Wire.compactSize n) ∧
    (∀ (front behind data : Bytes) (offset : Nat),
      varBytes ⟨front ++ behind, offset⟩ = (.ok data, ⟨behind, offset + front.length⟩) ↔
        data.length < 2 ^ 64 ∧ front = Wire.varBytes data) ∧
    (∀ c c' n, compactSize c = (.ok n, c') → ∃ front, c.Past front c') ∧
    ∀ c c' data, varBytes c = (.ok data, c') → ∃ front, c.Past front c' := by
  refine ⟨fun v behind offset => ?_, fun front behind offset n => compactSize_exact.front_iff,
    fun front behind data offset => varBytes_exact.front_iff,
    fun c c' n => compactSize_exact.exists_front, fun c c' data => varBytes_exact.exists_front⟩
  exact compactSize_exact.front_iff.2 ⟨v.toNat_lt, rfl⟩

/-- The first count with a mark: read in its form, and refused in the next longer one. -/
example : compactSize ⟨[0xfd, 0xfd, 0x00, 7], 0⟩ = (.ok 0xfd, ⟨[7], 3⟩) ∧
    compactSize ⟨[0xfe, 0xfd, 0x00, 0x00, 0x00, 7], 0⟩ = (.error (.nonCanonicalSize 0xfd),
      ⟨[7], 5⟩) := by
  decide

/-- A fixed number of items in a row; the induction is on their number. -/
theorem times_eq_ok_iff {d : Decoder α} {encode : α → Bytes} {domain : α → Prop}
    (exact : Exact d encode domain) {n : Nat} {c c' : Cursor} {xs : List α} :
    times d n c = (.ok xs, c') ↔
      xs.length = n ∧ (∀ x ∈ xs, domain x) ∧ c.Past (xs.flatMap encode) c' := by
  -- by induction on the count; the first value is cut off the front, whichever way it goes
  induction n generalizing c xs with
  | zero =>
    rw [times, pure_eq_ok_iff, List.length_eq_zero_iff]
    refine ⟨?_, ?_⟩
    · rintro ⟨rfl, rfl⟩
      exact ⟨rfl, by simp, Cursor.past_nil.2 rfl⟩
    · rintro ⟨rfl, -, past⟩
      exact ⟨rfl, Cursor.past_nil.1 past⟩
  | succ n ih =>
    rw [times, bind_eq_ok_iff]
    refine ⟨?_, ?_⟩
    · rintro ⟨x, m, hx, hrest⟩
      obtain ⟨xs', m', hxs, hpure⟩ := bind_eq_ok_iff.1 hrest
      obtain ⟨rfl, rfl⟩ := pure_eq_ok_iff.1 hpure
      obtain ⟨inside, past⟩ := (exact _ _ _).1 hx
      obtain ⟨count, insides, past'⟩ := ih.1 hxs
      refine ⟨by rw [List.length_cons, count], ?_, ?_⟩
      · exact List.forall_mem_cons.2 ⟨inside, insides⟩
      · rw [List.flatMap_cons]
        exact past.append past'
    · rintro ⟨count, insides, past⟩
      rcases xs with _ | ⟨x, xs⟩
      · cases count
      · obtain ⟨inside, insides⟩ := List.forall_mem_cons.1 insides
        rw [List.flatMap_cons] at past
        obtain ⟨m, hx, hxs⟩ := Cursor.past_append.1 past
        refine ⟨x, m, (exact _ _ _).2 ⟨inside, hx⟩, ?_⟩
        have rest := ih.2 ⟨Nat.succ.inj count, insides, hxs⟩
        exact bind_eq_ok_iff.2 ⟨xs, c', rest, rfl⟩

/-- Items that take at least a byte each are no more than the bytes. -/
theorem length_le_length_flatMap {encode : α → Bytes} (occupies : ∀ x, encode x ≠ [])
    (xs : List α) :
    xs.length ≤ (xs.flatMap encode).length := by
  induction xs with
  | nil => exact Nat.zero_le _
  | cons x xs ih =>
    have pos := List.length_pos_iff.2 (occupies x)
    rw [List.flatMap_cons, List.length_append, List.length_cons]
    omega

/-- A list of values that take at least one byte each fits behind its length. -/
theorem list_exact {d : Decoder α} {encode : α → Bytes} {domain : α → Prop}
    (exact : Exact d encode domain) (occupies : ∀ x, encode x ≠ []) :
    Exact (list d) (Wire.list encode)
      (fun xs => xs.length < 2 ^ 64 ∧ ∀ x ∈ xs, domain x) := by
  intro c c' xs
  rw [list]
  rw [bind_eq_ok_iff]
  refine ⟨?_, ?_⟩
  · rintro ⟨n, m, hlength, htimes⟩
    obtain ⟨small, past, -⟩ := length_eq_ok_iff.1 hlength
    obtain ⟨rfl, insides, past'⟩ := (times_eq_ok_iff exact).1 htimes
    exact ⟨⟨small, insides⟩, past.append past'⟩
  · rintro ⟨⟨small, insides⟩, past⟩
    obtain ⟨m, hlength, past'⟩ := Cursor.past_append.1 past
    have room : xs.length ≤ m.rest.length := by
      have := length_le_length_flatMap occupies xs
      rw [past'.length]
      omega
    exact ⟨xs.length, m, length_eq_ok_iff.2 ⟨small, hlength, room⟩,
      (times_eq_ok_iff exact).2 ⟨rfl, insides, past'⟩⟩

end Decoder

end BlockRules
