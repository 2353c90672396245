import Mathlib
import BlockRules.Wide.Lemmas

/-!
# Values as text

A value is shown by as many hexadecimal digits as it has half bytes, and is read from digits of
either case, with blanks around them and one radix mark in front. Here the texts that are read are
described by their characters.

* **digits** — a digit is one of sixteen, and its value is its place among them
  (`Hex.digitValue`). Reading goes over UTF-8 bytes, of which those of other than ASCII characters
  are never digits (`Hex.map_value?_utf8`), and takes them in pairs. It gives the bytes whose halves
  the digits are (`Hex.decode_utf8_iff`);
* **around the digits** — trimming and taking the mark off find the one place of the digits in a
  text (`Wide.Surrounds.stripRadix_trim`);
* **values** — the bytes, most significant first, are the digits of the number in base 256, so
  that the characters are its digits in base sixteen (`Hex.number_eq_toNat`).

`Wide.text_exact` puts these together.
-/

namespace BlockRules

/-! ## Digits -/

namespace Hex

/-- The digits in lower case, in the order of their values. -/
def lowerDigits : List Char :=
  ['0', '1', '2', '3', '4', '5', '6', '7', '8', '9', 'a', 'b', 'c', 'd', 'e', 'f']

/-- A digit of either case. -/
def IsDigit (c : Char) : Prop := c.toLower ∈ lowerDigits

instance : DecidablePred IsDigit := fun c => inferInstanceAs (Decidable (c.toLower ∈ lowerDigits))

/-- The value of a digit: its place among the digits. -/
def digitValue (c : Char) : Nat := lowerDigits.idxOf c.toLower

/-- The number that digits stand for, the most significant one first. -/
def number (ds : List Char) : Nat := Nat.ofDigits 16 (ds.map digitValue).reverse

/-- The two halves of a byte, the higher one first. -/
def halves (b : UInt8) : List Nat := [b.toNat / 16, b.toNat % 16]

variable {c : Char} {cs ds : List Char} {bs : Bytes} {ns : List Nat}

theorem lowerDigits_eq : lowerDigits = (List.range 16).map digit := by decide

/-- A digit is one of sixteen characters, in either case. -/
theorem isDigit_iff : IsDigit c ↔ ∃ n < 16, c.toLower = digit n := by
  rw [IsDigit, lowerDigits_eq, List.mem_map]
  simp only [List.mem_range, eq_comm]

/-- The digits that are written are read as what they were written for. -/
theorem digit_spec : ∀ {n : Nat}, n < 16 →
    IsDigit (digit n) ∧ digitValue (digit n) = n ∧ (digit n).toLower = digit n := by
  have each : ∀ n < 16, IsDigit (digit n) ∧ digitValue (digit n) = n ∧
      (digit n).toLower = digit n := by
    decide +kernel
  exact fun {n} => each n

/-- In lower case, a digit is the one that is written for its value. -/
theorem toLower_eq_digit (isDigit : IsDigit c) : c.toLower = digit (digitValue c) := by
  obtain ⟨n, small, same⟩ := isDigit_iff.1 isDigit
  obtain ⟨-, value, lower⟩ := digit_spec small
  rw [digitValue, same]
  rw [digitValue, lower] at value
  rw [value]

theorem digitValue_lt (isDigit : IsDigit c) : digitValue c < 16 :=
  List.idxOf_lt_length_of_mem isDigit

/-- Digits are ASCII characters. -/
theorem toNat_lt_of_isDigit (isDigit : IsDigit c) : c.toNat < 128 := by
  have each : ∀ n < 16, (digit n).toNat < 128 := by decide +kernel
  by_cases upper : c.val ≥ 'A'.val ∧ c.val ≤ 'Z'.val
  · exact (UInt32.le_iff_toNat_le.1 upper.2).trans_lt (by decide)
  · obtain ⟨n, small, same⟩ := isDigit_iff.1 isDigit
    have kept : c.toLower = c := dif_neg upper
    rw [← kept, same]
    exact each n small

/-- An ASCII character is one byte, which has a value if it is a digit. -/
theorem value?_ascii (ascii : c.toNat < 128) :
    value? (UInt8.ofNat c.toNat) = if IsDigit c then some (digitValue c) else none := by
  have each : ∀ n < 128, value? (UInt8.ofNat n) =
      if IsDigit (Char.ofNat n) then some (digitValue (Char.ofNat n)) else none := by decide +kernel
  have here := each c.toNat ascii
  rwa [Char.ofNat_toNat] at here

theorem utf8EncodeChar_ascii (ascii : c.toNat < 128) :
    String.utf8EncodeChar c = [UInt8.ofNat c.toNat] := by
  have low : c.val.toNat ≤ 127 := Nat.le_of_lt_succ ascii
  rw [String.utf8EncodeChar, if_pos low]
  rfl

/-- The first byte of any other character has no value. -/
theorem utf8EncodeChar_other (other : ¬c.toNat < 128) :
    ∃ b rest, String.utf8EncodeChar c = b :: rest ∧ value? b = none := by
  have high : ¬c.val.toNat ≤ 127 := by
    intro low
    exact other (Nat.lt_succ_of_le low)
  have none' : ∀ b : UInt8, 192 ≤ b.toNat → value? b = none := by decide +kernel
  rw [String.utf8EncodeChar, if_neg high]
  by_cases two : c.val.toNat ≤ 2047
  · rw [if_pos two]
    refine ⟨_, _, rfl, none' _ ?_⟩
    rw [UInt8.toNat_ofNat']
    omega
  rw [if_neg two]
  by_cases three : c.val.toNat ≤ 65535
  · rw [if_pos three]
    refine ⟨_, _, rfl, none' _ ?_⟩
    rw [UInt8.toNat_ofNat']
    omega
  · rw [if_neg three]
    refine ⟨_, _, rfl, none' _ ?_⟩
    rw [UInt8.toNat_ofNat']
    omega

/-- The bytes of a text have values if its characters are digits, and then the same ones. -/
theorem map_value?_utf8 : (utf8 cs).map value? = ns.map some ↔
    (∀ c ∈ cs, IsDigit c) ∧ cs.map digitValue = ns := by
  induction cs generalizing ns with
  | nil => cases ns <;> simp [utf8]
  | cons c cs ih =>
    rw [utf8, List.flatMap_cons, List.forall_mem_cons]
    by_cases ascii : c.toNat < 128
    · rw [utf8EncodeChar_ascii ascii, List.singleton_append, List.map_cons, value?_ascii ascii]
      rcases ns with _ | ⟨n, ns⟩
      · simp
      · rw [List.map_cons, List.map_cons, List.cons.injEq, List.cons.injEq, ← utf8, ih]
        by_cases isDigit : IsDigit c <;> simp [isDigit, and_left_comm]
    · obtain ⟨b, rest, bytes, none'⟩ := utf8EncodeChar_other ascii
      have letter : ¬IsDigit c := mt toNat_lt_of_isDigit ascii
      rw [bytes, List.cons_append, List.map_cons, none']
      rcases ns with _ | ⟨n, ns⟩ <;> simp [letter]

/-! ## Pairs of digits -/

/-- A byte is told by its two halves. -/
theorem ofNat_halves_iff {h l : Nat} {b : UInt8} (high : h < 16) (low : l < 16) :
    UInt8.ofNat (16 * h + l) = b ↔ h = b.toNat / 16 ∧ l = b.toNat % 16 := by
  rw [← UInt8.toNat_inj, UInt8.toNat_ofNat_of_lt' (by rw [UInt8.size]; omega)]
  omega

theorem value?_lt {b : UInt8} {n : Nat} (read : value? b = some n) : n < 16 := by
  have each : ∀ b : UInt8, ∀ n ∈ value? b, n < 16 := by decide +kernel
  exact each b n read

theorem length_flatMap_halves (bs : Bytes) : (bs.flatMap halves).length = 2 * bs.length := by
  induction bs with
  | nil => rfl
  | cons b bs ih =>
    rw [List.flatMap_cons, List.length_append, ih, List.length_cons]
    exact (Nat.add_comm ..).trans (Nat.mul_succ 2 bs.length).symm

/-- Pairs of digits are read as the bytes whose halves their values are. -/
theorem readPairs_eq_ok_iff {position : Nat} {text : Bytes} :
    readPairs position text = .ok bs ↔ text.map value? = (bs.flatMap halves).map some := by
  -- along the cases of the reader: no text, an odd digit, a character that is none in either place
  -- of the pair, and a pair in front of what is read or refused
  fun_induction readPairs position text generalizing bs with
  | case1 position => cases bs <;> simp [halves]
  | case2 position b =>
    refine iff_of_false nofun fun pairs => ?_
    have size := congrArg List.length pairs
    rw [List.length_map, List.length_map, length_flatMap_halves, List.length_singleton] at size
    omega
  | case3 position high low rest none' =>
    refine iff_of_false nofun ?_
    cases bs <;> simp [halves, none']
  | case4 position high low rest h none' =>
    refine iff_of_false nofun ?_
    cases bs <;> simp [halves, none']
  | case5 position high low rest h l atLow atHigh bs' read ih =>
    rcases bs with _ | ⟨b, bs⟩
    · simp
    · have behind : bs' = bs ↔ rest.map value? = (bs.flatMap halves).map some := by
        rw [← ih, read, Except.ok.injEq]
      rw [Except.ok.injEq, List.cons.injEq,
        ofNat_halves_iff (value?_lt atHigh) (value?_lt atLow), behind]
      simp [halves, atHigh, atLow, and_assoc]
  | case6 position high low rest h l atLow atHigh e read ih =>
    refine iff_of_false nofun ?_
    rcases bs with _ | ⟨b, bs⟩
    · simp
    · have behind : ¬rest.map value? = (bs.flatMap halves).map some := by
        rw [← ih, read]
        nofun
      simp [halves, behind]

/-- A text is read as bytes if its characters are the digits of their halves. -/
theorem decode_utf8_iff :
    decode (utf8 cs) = .ok bs ↔
      (∀ c ∈ cs, IsDigit c) ∧ cs.map digitValue = bs.flatMap halves := by
  rw [← map_value?_utf8, decode]
  split
  next odd =>
    refine iff_of_false nofun fun pairs => ?_
    have size := congrArg List.length pairs
    rw [List.length_map, List.length_map, length_flatMap_halves] at size
    omega
  next => exact readPairs_eq_ok_iff

/-- Digits in pairs are those of the halves of bytes. -/
theorem exists_halves {count : Nat} (digits : ∀ c ∈ ds, IsDigit c)
    (pairs : ds.length = 2 * count) :
    ∃ bs : Bytes, bs.length = count ∧ ds.map digitValue = bs.flatMap halves := by
  induction count generalizing ds with
  | zero =>
    obtain rfl := List.eq_nil_of_length_eq_zero pairs
    exact ⟨[], rfl, rfl⟩
  | succ count ih =>
    obtain ⟨high, low, rest, rfl⟩ : ∃ high low rest, ds = high :: low :: rest := by
      match ds with
      | high :: low :: rest => exact ⟨high, low, rest, rfl⟩
    rw [List.forall_mem_cons, List.forall_mem_cons] at digits
    obtain ⟨atHigh, atLow, digits⟩ := digits
    rw [List.length_cons, List.length_cons] at pairs
    obtain ⟨bs, count, values⟩ := ih digits (by omega)
    have byte := (ofNat_halves_iff (digitValue_lt atHigh) (digitValue_lt atLow)).1 rfl
    refine ⟨UInt8.ofNat (16 * digitValue high + digitValue low) :: bs,
      by rw [List.length_cons, count], ?_⟩
    rw [List.map_cons, List.map_cons, values, List.flatMap_cons, halves, ← byte.1, ← byte.2]
    rfl

/-- The digits of the halves of bytes stand for the number of the bytes, the most significant one
first. -/
theorem number_eq_toNat (values : ds.map digitValue = bs.flatMap halves) :
    number ds = Bytes.toNat bs.reverse := by
  rw [number, values]
  clear values
  induction bs with
  | nil => rfl
  | cons b bs ih =>
    have base : 16 ^ (bs.flatMap halves).length = 256 ^ bs.length := by
      rw [length_flatMap_halves, Nat.pow_mul]
    rw [List.flatMap_cons, List.reverse_append, Nat.ofDigits_append, ih, List.length_reverse, base,
      List.reverse_cons, Bytes.toNat_append, List.length_reverse]
    congr 2
    simp only [halves, List.reverse_cons, List.reverse_nil, List.nil_append, List.singleton_append,
      Nat.ofDigits_cons, Nat.ofDigits_nil, Bytes.toNat_cons, Bytes.toNat_nil]
    omega

theorem chars_eq (bs : Bytes) : chars bs = (bs.flatMap halves).map digit := by
  rw [chars, List.map_flatMap]
  rfl

/-- In lower case, they are what is written for the bytes. -/
theorem map_toLower_eq_chars (digits : ∀ c ∈ ds, IsDigit c)
    (values : ds.map digitValue = bs.flatMap halves) :
    ds.map Char.toLower = chars bs := by
  rw [chars_eq, ← values, List.map_map]
  exact List.map_congr_left fun c mem => toLower_eq_digit (digits c mem)

/-- What is written for bytes are the digits of their halves. -/
theorem digits_chars (bs : Bytes) :
    (∀ c ∈ chars bs, IsDigit c) ∧ (chars bs).map digitValue = bs.flatMap halves := by
  have small : ∀ n ∈ bs.flatMap halves, n < 16 := by
    intro n mem
    obtain ⟨b, -, half⟩ := List.mem_flatMap.1 mem
    have byte := b.toNat_lt
    rcases List.mem_pair.1 half with rfl | rfl <;> omega
  rw [chars_eq, List.map_map]
  constructor
  · exact List.forall_mem_map.2 fun n mem => (digit_spec (small n mem)).1
  · conv_rhs => rw [← List.map_id (bs.flatMap halves)]
    exact List.map_congr_left fun n mem => (digit_spec (small n mem)).2.1

/-- No digit is blank. -/
theorem isBlank_of_isDigit (isDigit : IsDigit c) : Text.isBlank c = false := by
  have each : ∀ n < 128, IsDigit (Char.ofNat n) → Text.isBlank (Char.ofNat n) = false := by
    decide +kernel
  have here := each c.toNat (toNat_lt_of_isDigit isDigit)
  rw [Char.ofNat_toNat] at here
  exact here isDigit

end Hex

/-! ## Around the digits -/

namespace Text

variable {lead core trail : List Char}

/-- What trimming takes away is blank. -/
theorem exists_trim (cs : List Char) : ∃ lead trail, cs = lead ++ trim cs ++ trail ∧
    (∀ c ∈ lead, isBlank c = true) ∧ ∀ c ∈ trail, isBlank c = true := by
  refine ⟨cs.takeWhile isBlank, ((cs.dropWhile isBlank).reverse.takeWhile isBlank).reverse,
    ?_, ?_, ?_⟩
  · rw [List.append_assoc, trim, ← List.reverse_append, List.takeWhile_append_dropWhile,
      List.reverse_reverse, List.takeWhile_append_dropWhile]
  · exact fun c mem => List.mem_takeWhile_imp mem
  · exact fun c mem => List.mem_takeWhile_imp (List.mem_reverse.1 mem)

/-- Trimming takes away all that is blank around other characters. -/
theorem trim_append (blankLead : ∀ c ∈ lead, isBlank c = true)
    (blankTrail : ∀ c ∈ trail, isBlank c = true)
    (shown : ∀ c ∈ core, isBlank c = false) : trim (lead ++ core ++ trail) = core := by
  have blankTrail' : ∀ c ∈ trail.reverse, isBlank c = true :=
    fun c mem => blankTrail c (List.mem_reverse.1 mem)
  have stays : ∀ {cs : List Char}, (∀ c ∈ cs.head?, isBlank c = false) →
      cs.dropWhile isBlank = cs := by
    intro cs first
    rcases cs with _ | ⟨c, cs⟩
    · rfl
    · exact List.dropWhile_cons_of_neg (by rw [first c rfl]; exact Bool.false_ne_true)
  rw [trim, List.append_assoc, List.dropWhile_append_of_pos blankLead]
  rcases core with _ | ⟨c, core⟩
  · have none' : trail.dropWhile isBlank = [] := List.dropWhile_eq_nil_iff.2 blankTrail
    rw [List.nil_append, none']
    rfl
  · have front : ((c :: core) ++ trail).dropWhile isBlank = (c :: core) ++ trail :=
      stays fun d first => shown d (Option.some.inj first ▸ List.mem_cons_self)
    have back : (c :: core).reverse.dropWhile isBlank = (c :: core).reverse :=
      stays fun d first => shown d (List.mem_reverse.1 (List.mem_of_mem_head? first))
    rw [front, List.reverse_append, List.dropWhile_append_of_pos blankTrail', back,
      List.reverse_reverse]

end Text

namespace Wide

variable {n : Nat} {x : Wide n} {cs ds : List Char} {bs : Bytes}

/-- What may stand right before the digits. -/
def radixMarks : List (List Char) := [[], ['0', 'x'], ['0', 'X']]

/-- A text is made of some characters, with blanks around them and at most one radix mark in
front. -/
def Surrounds (cs ds : List Char) : Prop :=
  ∃ lead mark trail, cs = lead ++ (mark ++ ds) ++ trail ∧
    (∀ c ∈ lead, Text.isBlank c = true) ∧ (∀ c ∈ trail, Text.isBlank c = true) ∧
      mark ∈ radixMarks

/-- What is stripped in front is one of the marks, possibly the empty one. -/
theorem exists_mark (cs : List Char) : ∃ mark ∈ radixMarks, cs = mark ++ stripRadix cs := by
  fun_cases stripRadix cs with
  | case1 rest => exact ⟨['0', 'x'], by simp [radixMarks], rfl⟩
  | case2 rest => exact ⟨['0', 'X'], by simp [radixMarks], rfl⟩
  | case3 => exact ⟨[], by simp [radixMarks], rfl⟩

/-- Every text is made of what is left of it. -/
theorem surrounds_stripRadix_trim (cs : List Char) : Surrounds cs (stripRadix (Text.trim cs)) := by
  obtain ⟨lead, trail, whole, blankLead, blankTrail⟩ := Text.exists_trim cs
  obtain ⟨mark, known, shown⟩ := exists_mark (Text.trim cs)
  exact ⟨lead, mark, trail, shown ▸ whole, blankLead, blankTrail, known⟩

/-- A text that is made of digits is cut down to them. -/
theorem Surrounds.stripRadix_trim (surrounds : Surrounds cs ds)
    (digits : ∀ c ∈ ds, Hex.IsDigit c) :
    stripRadix (Text.trim cs) = ds := by
  obtain ⟨lead, mark, trail, rfl, blankLead, blankTrail, known⟩ := surrounds
  have marks : ∀ c ∈ mark, Text.isBlank c = false := by
    have each : Text.isBlank '0' = false ∧ Text.isBlank 'x' = false ∧
        Text.isBlank 'X' = false := by decide
    rcases List.mem_cons.1 known with rfl | known
    · simp
    · rcases List.mem_pair.1 known with rfl | rfl <;> simp [each]
  have shown : ∀ c ∈ mark ++ ds, Text.isBlank c = false := by
    intro c mem
    rcases List.mem_append.1 mem with inMark | inDigits
    · exact marks c inMark
    · exact Hex.isBlank_of_isDigit (digits c inDigits)
  rw [Text.trim_append blankLead blankTrail shown]
  rcases List.mem_cons.1 known with rfl | known
  · rw [List.nil_append]
    fun_cases stripRadix ds with
    | case1 rest => exact absurd (digits 'x' (by simp)) (by decide)
    | case2 rest => exact absurd (digits 'X' (by simp)) (by decide)
    | case3 => rfl
  · rcases List.mem_pair.1 known with rfl | rfl <;> rfl

/-! ## Values -/

/-- The bytes of a value are the digits of its number. -/
theorem toNat_bytesLE (x : Wide n) : Bytes.toNat x.bytesLE = x.toNat := by
  rw [bytesLE, toNat]
  induction x.words with
  | nil => rfl
  | cons w ws ih =>
    have word : Bytes.toNat (Bytes.ofNat 4 w.toNat) = w.toNat := by
      rw [Bytes.toNat_ofNat]
      exact Nat.mod_eq_of_lt w.toNat_lt
    rw [List.flatMap_cons, Bytes.toNat_append, word, ih, Bytes.length_ofNat]
    rfl

/-- Bytes are read exactly if they have the right length, and then written back the same. -/
theorem ofBytes?_eq_ok_iff {littleEndian : Bool} :
    ofBytes? littleEndian bs = .ok x ↔ bs.length = 4 * n ∧ x.toBytes littleEndian = bs := by
  rw [ofBytes?]
  constructor
  · intro read
    split at read
    next long =>
      obtain rfl := Except.ok.inj read
      refine ⟨long, ?_⟩
      cases littleEndian
      · exact (congrArg List.reverse
          (bytesLE_ofBytesLE ((List.length_reverse ..).trans long))).trans bs.reverse_reverse
      · exact bytesLE_ofBytesLE long
    next => cases read
  · rintro ⟨long, rfl⟩
    rw [if_pos long]
    cases littleEndian
    · exact congrArg Except.ok
        ((congrArg ofBytesLE x.bytesLE.reverse_reverse).trans x.ofBytesLE_bytesLE)
    · exact congrArg Except.ok x.ofBytesLE_bytesLE

theorem length_toBytes (littleEndian : Bool) (x : Wide n) :
    (x.toBytes littleEndian).length = 4 * n := by
  cases littleEndian
  · exact (List.length_reverse ..).trans x.length_bytesLE
  · exact x.length_bytesLE

/-- The words of a value start at the byte that is shown last. -/
theorem reverse_toBytes (x : Wide n) : (x.toBytes false).reverse = x.bytesLE := by
  rw [toBytes, if_neg Bool.false_ne_true, List.reverse_reverse]

theorem toList_toHex (x : Wide n) : x.toHex.toList = Hex.chars (x.toBytes false) :=
  String.toList_ofList

/-- A text displays a value of `n` words: it is made of digits, eight for each word. -/
structure Displays (n : Nat) (text : String) (ds : List Char) : Prop where
  surrounds : Surrounds text.toList ds
  digits : ∀ c ∈ ds, Hex.IsDigit c
  count : ds.length = 8 * n

variable {text : String}

/-- What is displayed is read, and shown again in lower case. -/
theorem Displays.exists_ofHex? (displays : Displays n text ds) :
    ∃ x : Wide n, ofHex? text = .ok x ∧ x.toNat = Hex.number ds ∧
      x.toHex = String.ofList (ds.map Char.toLower) := by
  obtain ⟨surrounds, digits, count⟩ := displays
  have pairs : ds.length = 2 * (4 * n) := by rw [count, ← Nat.mul_assoc]
  obtain ⟨bs, long, values⟩ := Hex.exists_halves digits pairs
  have read : (ofHex? text : Except FormatError (Wide n)) = ofBytes? false bs := by
    rw [ofHex?, surrounds.stripRadix_trim digits, Hex.decode_utf8_iff.2 ⟨digits, values⟩]
  obtain ⟨x, given⟩ : ∃ x : Wide n, ofBytes? false bs = .ok x := ⟨_, if_pos long⟩
  obtain ⟨-, bytes⟩ := ofBytes?_eq_ok_iff.1 given
  refine ⟨x, read.trans given, ?_, ?_⟩
  · rw [← toNat_bytesLE, ← reverse_toBytes, bytes, Hex.number_eq_toNat values]
  · rw [toHex, bytes, Hex.encode, Hex.map_toLower_eq_chars digits values]

/-- What is read is displayed. -/
theorem exists_displays (read : ofHex? text = .ok x) : ∃ ds, Displays n text ds := by
  rw [ofHex?] at read
  split at read
  next bs decoded =>
    obtain ⟨digits, values⟩ := Hex.decode_utf8_iff.1 decoded
    obtain ⟨long, -⟩ := ofBytes?_eq_ok_iff.1 read
    have size := congrArg List.length values
    rw [List.length_map, Hex.length_flatMap_halves, long] at size
    exact ⟨_, surrounds_stripRadix_trim _, digits, size.trans (Nat.mul_assoc 2 4 n).symm⟩
  next => cases read

/-- A text that is not read is no sequence of pairs of digits, or one of another length. -/
theorem ofHex?_error {e : FormatError}
    (refused : (ofHex? text : Except FormatError (Wide n)) = .error e) :
    (∃ cause, e = .hex text cause) ∨ ∃ got, got ≠ 4 * n ∧
      e = .byteCount (32 * n) got := by
  rw [ofHex?] at refused
  split at refused
  next bs _ =>
    rw [ofBytes?] at refused
    split at refused
    next => cases refused
    next other => exact .inr ⟨bs.length, other, (Except.error.inj refused).symm⟩
  next cause _ => exact .inl ⟨cause, (Except.error.inj refused).symm⟩

/-- The display form displays its value. -/
theorem displays_toHex (x : Wide n) : Displays n x.toHex x.toHex.toList := by
  obtain ⟨digits, values⟩ := Hex.digits_chars (x.toBytes false)
  have size := congrArg List.length values
  rw [List.length_map, Hex.length_flatMap_halves, length_toBytes] at size
  refine ⟨⟨[], [], [], by simp, by simp, by simp, by simp [radixMarks]⟩,
    toList_toHex x ▸ digits, ?_⟩
  rw [toList_toHex, size, ← Nat.mul_assoc]

/-- The written digits stand for the number. -/
theorem number_toHex (x : Wide n) : Hex.number x.toHex.toList = x.toNat := by
  rw [toList_toHex, Hex.number_eq_toNat (Hex.digits_chars _).2, reverse_toBytes, toNat_bytesLE]

/-- **Text and bytes of a value.** A text is read as a value exactly if it is made of eight
hexadecimal digits of either case for each word, with blanks around them and at most one radix mark
in front. The value is the number that the digits stand for, and is shown by these digits in lower
case. Other texts are refused for their form or their length. What is shown is read back, and so are
the bytes of a value, and the value of bytes, in both orders. -/
theorem text_exact (n : Nat) :
    (∀ text, (∃ x : Wide n, ofHex? text = .ok x) ↔ ∃ ds, Displays n text ds) ∧
    (∀ text ds (x : Wide n), Displays n text ds → ofHex? text = .ok x →
      x.toNat = Hex.number ds ∧ x.toHex = String.ofList (ds.map Char.toLower)) ∧
    (∀ text, (¬∃ ds, Displays n text ds) →
      ∃ e, (ofHex? text : Except FormatError (Wide n)) = .error e ∧
        ((∃ cause, e = .hex text cause) ∨ ∃ got, got ≠ 4 * n ∧ e = .byteCount (32 * n) got)) ∧
    (∀ x : Wide n, ofHex? x.toHex = .ok x) ∧
    (∀ (x : Wide n) littleEndian, ofBytes? littleEndian (x.toBytes littleEndian) = .ok x) ∧
    ∀ littleEndian bs, bs.length = 4 * n →
      ∃ x : Wide n, ofBytes? littleEndian bs = .ok x ∧ x.toBytes littleEndian = bs := by
  refine ⟨fun text => ⟨?_, ?_⟩, ?_, ?_, ?_, ?_, ?_⟩
  · rintro ⟨x, read⟩
    exact exists_displays read
  · rintro ⟨ds, displays⟩
    obtain ⟨x, read, -⟩ := displays.exists_ofHex?
    exact ⟨x, read⟩
  · intro text ds x displays read
    obtain ⟨y, read', shown⟩ := displays.exists_ofHex?
    obtain rfl := Except.ok.inj (read'.symm.trans read)
    exact shown
  · intro text other
    rcases read : (ofHex? text : Except FormatError (Wide n)) with e | x
    · exact ⟨e, rfl, ofHex?_error read⟩
    · exact absurd (exists_displays read) other
  · intro x
    obtain ⟨y, read, number, -⟩ := (displays_toHex x).exists_ofHex?
    obtain rfl := toNat_injective (number.trans (number_toHex x))
    exact read
  · exact fun x littleEndian => ofBytes?_eq_ok_iff.2 ⟨length_toBytes littleEndian x, rfl⟩
  · intro littleEndian bs long
    exact ⟨_, if_pos long, (ofBytes?_eq_ok_iff.1 (if_pos long)).2⟩

/-- An ideographic space, a mark and digits of both cases. -/
example :
    (ofHex? "\u3000 0XdeadBEEF\n" : Except FormatError (Wide 1)) = .ok (ofNat 0xdeadbeef) := by
  decide +kernel

end Wide

end BlockRules
