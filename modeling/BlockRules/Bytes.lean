/-!
# Bytes

Everything that goes over the wire, onto the script stack or into a hash is a
list of bytes. This module holds the two conversions the whole library is built
on:

* **write** — `Bytes.ofNat w n` is the number `n` as exactly `w` bytes, least
  significant first;
* **read** — `Bytes.toNat bs` is the number such bytes stand for.

Writing undoes reading on lists of `w` bytes (`Bytes.ofNat_toNat`). Big-endian forms
are the reversed lists and get no definition of their own. `Bytes.split?` is the one
way this library takes bytes off the front of a list that may be too short.
-/

namespace BlockRules

/-- A string of bytes, first byte first. -/
abbrev Bytes := List UInt8

namespace Bytes

/-- The `width` low bytes of a number, least significant first. -/
def ofNat : Nat → Nat → Bytes
  | 0, _ => []
  | width + 1, n => UInt8.ofNat (n % 256) :: ofNat width (n / 256)

/-- The number whose bytes, least significant first, are the given ones. -/
def toNat : Bytes → Nat
  | [] => 0
  | b :: bs => b.toNat + 256 * toNat bs

@[simp] theorem ofNat_zero (n : Nat) : ofNat 0 n = [] := rfl

@[simp] theorem ofNat_succ (width n : Nat) :
    ofNat (width + 1) n = UInt8.ofNat (n % 256) :: ofNat width (n / 256) := rfl

@[simp] theorem toNat_nil : toNat [] = 0 := rfl

@[simp] theorem toNat_cons (b : UInt8) (bs : Bytes) :
    toNat (b :: bs) = b.toNat + 256 * toNat bs := rfl

@[simp] theorem length_ofNat (width n : Nat) : (ofNat width n).length = width := by
  induction width generalizing n with
  | zero => rfl
  | succ width ih => simp [ih]

/-- Bytes are recovered from the number they stand for and their count. -/
theorem ofNat_toNat (bs : Bytes) : ofNat bs.length (toNat bs) = bs := by
  induction bs with
  | nil => rfl
  | cons b bs ih =>
    have small : b.toNat < 256 := b.toNat_lt
    have low : (b.toNat + 256 * toNat bs) % 256 = b.toNat := by omega
    have high : (b.toNat + 256 * toNat bs) / 256 = toNat bs := by omega
    simp [low, high, ih]

/-- The first `n` bytes and the rest, if there are that many. -/
def split? : Nat → Bytes → Option (Bytes × Bytes)
  | 0, bs => some ([], bs)
  | _ + 1, [] => none
  | n + 1, b :: bs => (split? n bs).map fun (front, rest) => (b :: front, rest)

/-- Cutting succeeds exactly on what is a front part of the asked length and a rest. -/
theorem split?_eq_some_iff {n : Nat} {bs front rest : Bytes} :
    split? n bs = some (front, rest) ↔ front.length = n ∧ bs = front ++ rest := by
  induction n generalizing bs front with
  | zero =>
    cases front <;> simp [split?, eq_comm]
  | succ n ih =>
    cases bs with
    | nil => cases front <;> simp [split?]
    | cons b bs =>
      cases front with
      | nil => simp [split?]
      | cons c front =>
        simp only [split?, Option.map_eq_some_iff, Prod.exists, Prod.mk.injEq, List.cons.injEq,
          List.length_cons, List.cons_append, Nat.add_right_cancel_iff]
        constructor
        · rintro ⟨x, y, hxy, ⟨rfl, rfl⟩, rfl⟩
          have := ih.1 hxy
          exact ⟨this.1, rfl, this.2⟩
        · rintro ⟨hlen, rfl, rfl⟩
          exact ⟨front, rest, ih.2 ⟨hlen, rfl⟩, ⟨rfl, rfl⟩, rfl⟩

theorem split?_eq_none_iff {n : Nat} {bs : Bytes} : split? n bs = none ↔ bs.length < n := by
  induction n generalizing bs with
  | zero => simp [split?]
  | succ n ih => cases bs <;> simp [split?, ih]

end Bytes

end BlockRules
