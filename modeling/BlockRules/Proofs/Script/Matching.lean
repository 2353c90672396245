import Mathlib
import BlockRules.Proofs.Script.SoftFork

/-!
# Signatures and keys, matched in order

A multi-signature check tries each key on the first signature that is left, and never goes back.
That this decides whether all signatures can be given keys at all is the subject of this module.

* `Assignable` — each signature has a key that it is good for, and later signatures have later
  keys. A signature may be good for many keys, and a key for many signatures;
* **exchange** — if the first key is good for the first signature, nothing is lost by giving it
  away (`Assignable.cons_cons_iff_of_good`): whatever the signature got instead comes later, and can
  be left out;
* **early exit** — fewer keys than signatures are never enough (`Assignable.length_le`);
* `matchKeys_iff_assignable` — hence the result of the walk, and `checkMultiSig_of_holds` carries
  it to the whole operation.
-/

namespace BlockRules

/-! ## Assignments -/

/-- Every signature can be given a key that it is good for, in the order of the keys. -/
def Assignable (good : Bytes → Bytes → Prop) (sigs keys : List Bytes) : Prop :=
  ∃ place : Fin sigs.length → Fin keys.length,
    StrictMono place ∧ ∀ i, good (sigs.get i) (keys.get (place i))

namespace Assignable

variable {good : Bytes → Bytes → Prop} {sig key : Bytes} {sigs keys : List Bytes}

/-- The keys that are given away, in their order, are some of the keys. -/
theorem iff_sublistForall₂ : Assignable good sigs keys ↔ sigs.SublistForall₂ good keys := by
  rw [List.sublistForall₂_iff]
  constructor
  · rintro ⟨place, increasing, fits⟩
    -- the keys that are given away, one for each signature
    refine ⟨List.ofFn (keys.get ∘ place),
      List.forall₂_iff_get.2 ⟨by simp, fun i hi _ => ?_⟩, ?_⟩
    · simpa using fits ⟨i, hi⟩
    · refine List.sublist_iff_exists_fin_orderEmbedding_get_eq.2
        ⟨(Fin.castOrderIso (by simp)).toOrderEmbedding.trans
          (OrderEmbedding.ofStrictMono place increasing),
          fun i => ?_⟩
      exact List.get_ofFn (keys.get ∘ place) i
  · rintro ⟨given, fits, chosen⟩
    obtain ⟨place, same⟩ := List.sublist_iff_exists_fin_orderEmbedding_get_eq.1 chosen
    obtain ⟨sameLength, fits⟩ := List.forall₂_iff_get.1 fits
    refine ⟨fun i => place (i.cast sameLength), fun i j before => place.strictMono before,
      fun i => ?_⟩
    rw [← same]
    exact fits i i.2 (sameLength ▸ i.2)

theorem nil : Assignable good [] keys := iff_sublistForall₂.2 .nil

/-- There are at least as many keys as signatures that can be given one. -/
theorem length_le (h : Assignable good sigs keys) : sigs.length ≤ keys.length := by
  obtain ⟨place, increasing, -⟩ := h
  simpa using Fintype.card_le_of_injective place increasing.injective

/-- Keys that are enough for all signatures are enough for all but the first. -/
theorem tail (h : Assignable good (sig :: sigs) keys) : Assignable good sigs keys := by
  rw [iff_sublistForall₂] at h ⊢
  generalize whole : sig :: sigs = all at h
  induction h with
  | nil => cases whole
  | cons _ rest _ =>
    cases whole
    exact .cons_right rest
  | cons_right _ ih => exact .cons_right (ih whole)

/-- A first key that is good for the first signature may as well be given to it. -/
theorem cons_cons_iff_of_good (fits : good sig key) :
    Assignable good (sig :: sigs) (key :: keys) ↔ Assignable good sigs keys := by
  constructor
  · intro h
    rcases iff_sublistForall₂.1 h with _ | ⟨_, rest⟩ | kept
    · exact iff_sublistForall₂.2 rest
    -- the signature got a later key, which is now left over
    · exact tail (iff_sublistForall₂.2 kept)
  · exact fun h => iff_sublistForall₂.2 (.cons fits (iff_sublistForall₂.1 h))

/-- A first key that is not good for the first signature is of no use. -/
theorem cons_cons_iff_of_not (unfit : ¬good sig key) :
    Assignable good (sig :: sigs) (key :: keys) ↔ Assignable good (sig :: sigs) keys := by
  constructor
  · intro h
    rcases iff_sublistForall₂.1 h with _ | ⟨fits, _⟩ | kept
    · exact absurd fits unfit
    · exact iff_sublistForall₂.2 kept
  · exact fun h => iff_sublistForall₂.2 (.cons_right (iff_sublistForall₂.1 h))

/-- There is no assignment with more signatures than keys. -/
theorem not_of_length_lt (few : keys.length < sigs.length) : ¬Assignable good sigs keys :=
  fun h => absurd h.length_le (by omega)

end Assignable

/-! ## The walk -/

/-- A checker whose answers about signatures are those of a predicate. -/
def Checker.Decides (c : Checker)
    (check : Bytes → Bytes → Bytes → SigVersion → Bool) : Prop :=
  ∀ before sig key code version,
    c.respond before (.signature sig key code version) = .ofBool (check sig key code version)

namespace Reply

variable {b : Bool}

theorem yes_eq_ofBool : Reply.yes = .ofBool b ↔ b = true := by cases b <;> simp [ofBool]

theorem no_eq_ofBool : Reply.no = .ofBool b ↔ b = false := by cases b <;> simp [ofBool]

end Reply

/-- No form is asked of signatures and keys. -/
def Flags.AsksNoForm (flags : Flags) : Prop :=
  ∀ f ∈ [Flag.derSig, .lowS, .strictEnc, .witnessPubkeyType], flags.has f = false

instance (flags : Flags) : Decidable flags.AsksNoForm :=
  inferInstanceAs (Decidable (∀ _ ∈ _, _))

/-- Where no form is asked, every signature and every key will do. -/
theorem Flags.AsksNoForm.checkForms {flags : Flags} (free : flags.AsksNoForm) (version : SigVersion)
    (sig key : Bytes) : flags.checkForms version sig key = .ok () := by
  have derSig := free .derSig (by simp)
  have lowS := free .lowS (by simp)
  have strictEnc := free .strictEnc (by simp)
  have witnessPubkeyType := free .witnessPubkeyType (by simp)
  refine checkForms_eq_ok_iff.2 ⟨checkSignatureForm_eq_ok_iff.2 fun hashType _ => ?_,
    checkKeyForm_eq_ok_iff.2 ?_⟩
  · constructor <;> simp [asksStrictDer, derSig, lowS, strictEnc]
  · constructor <;> simp [strictEnc, witnessPubkeyType]

namespace Machine

variable {env : Env} {m : Machine} {check : Bytes → Bytes → Bytes → SigVersion → Bool}
  {code : Bytes}
  {sigs keys below : List Bytes} {journal after : Journal}

/-- The reply to a question about a signature, read back. -/
theorem check_of_asked (decides : env.checker.Decides check) {sig key : Bytes}
    {before next : Journal} {reply : Reply}
    (asked : before.ask env.checker (.signature sig key code env.version) = (reply, next)) :
    reply = .ofBool (check sig key code env.version) :=
  (congrArg Prod.fst asked).symm.trans (decides ..)

/-- **The walk decides whether the signatures can be given keys in order.** -/
theorem matchKeys_iff_assignable (decides : env.checker.Decides check) {success : Bool}
    (ended : matchKeys env code sigs keys journal = (.ok success, after)) :
    success = true ↔ Assignable (check · · code env.version) sigs keys := by
  -- a good pair is given away at once, as whoever else takes the key can wait for none; otherwise
  -- no signature can have the key
  fun_induction matchKeys env code sigs keys journal with
  | case1 =>
    cases ended
    exact iff_of_true rfl .nil
  | case2 =>
    cases ended
    exact iff_of_false Bool.false_ne_true (Assignable.not_of_length_lt (by simp))
  | case3 => cases ended
  | case4 => cases ended
  | case5 sig sigs key keys journal _ _ asked few =>
    cases ended
    have fits := Reply.yes_eq_ofBool.1 (check_of_asked decides asked)
    rw [Assignable.cons_cons_iff_of_good fits]
    exact iff_of_false Bool.false_ne_true (Assignable.not_of_length_lt few)
  | case6 sig sigs key keys journal _ _ asked _ ih =>
    have fits := Reply.yes_eq_ofBool.1 (check_of_asked decides asked)
    rw [Assignable.cons_cons_iff_of_good fits]
    exact ih ended
  | case7 sig sigs key keys journal _ _ asked few =>
    cases ended
    have unfit := Reply.no_eq_ofBool.1 (check_of_asked decides asked)
    rw [Assignable.cons_cons_iff_of_not (Bool.not_eq_true _ ▸ unfit)]
    exact iff_of_false Bool.false_ne_true (Assignable.not_of_length_lt few)
  | case8 sig sigs key keys journal _ _ asked _ ih =>
    have unfit := Reply.no_eq_ofBool.1 (check_of_asked decides asked)
    rw [Assignable.cons_cons_iff_of_not (Bool.not_eq_true _ ▸ unfit)]
    exact ih ended

/-- The walk ends early only at a signature or a key that is not written as the flags ask. -/
theorem matchKeys_malformed (decides : env.checker.Decides check) {stop : Stop}
    (ended : matchKeys env code sigs keys journal = (.error stop, after)) :
    ∃ sig ∈ sigs, ∃ key ∈ keys, env.flags.checkForms env.version sig key = .error stop := by
  fun_induction matchKeys env code sigs keys journal with
  | case1 => cases ended
  | case2 => cases ended
  | case3 sig sigs key keys _ _ refused =>
    cases ended
    exact ⟨sig, List.mem_cons_self, key, List.mem_cons_self, refused⟩
  | case4 sig sigs key keys _ _ _ _ asked =>
    have answer := check_of_asked decides asked
    cases value : check sig key code env.version <;> rw [value] at answer <;> cases answer
  | case5 => cases ended
  | case6 _ _ _ _ _ _ _ _ _ ih =>
    obtain ⟨sig, sigThere, key, keyThere, refused⟩ := ih ended
    exact ⟨sig, List.mem_cons_of_mem _ sigThere, key, List.mem_cons_of_mem _ keyThere, refused⟩
  | case7 => cases ended
  | case8 _ _ _ _ _ _ _ _ _ ih =>
    obtain ⟨sig, sigThere, key, keyThere, refused⟩ := ih ended
    exact ⟨sig, sigThere, key, List.mem_cons_of_mem _ keyThere, refused⟩

/-! ## The operation -/

/-- The stack holds a multi-signature check, from the top: a number of keys, the keys, a number of
signatures, the signatures, and more. All of it is within the limits. -/
structure HoldsMultiSig (env : Env) (m : Machine) (sigs keys below : List Bytes) : Prop where
  items : ∃ keyCount sigCount, m.stack = keyCount :: (keys ++ sigCount :: (sigs ++ below)) ∧
    env.flags.readNumber Limit.number keyCount = .ok keys.length ∧
    env.flags.readNumber Limit.number sigCount = .ok sigs.length
  extra : below ≠ []
  fewKeys : keys.length ≤ Limit.keys
  fewSigs : sigs.length ≤ keys.length
  fewOperations : m.opCount + keys.length ≤ Limit.operations
  inside : m.codeStart ≤ env.script.length

theorem readCount_of_readNumber {bound n : Nat} {item : Bytes} (small : bound ≤ Limit.keys)
    (inRange : n ≤ bound) (read : env.flags.readNumber Limit.number item = .ok n) :
    readCount env bound item = .ok (some n) := by
  have same : ScriptNum.clamp32 n = n := by
    simp only [ScriptNum.clamp32, Limit.keys] at small ⊢
    omega
  have fits : ¬((n : Int) < 0 ∨ (bound : Int) < n) := by omega
  simp only [readCount, read, same, if_neg fits, Int.toNat_natCast]

/-- A check within the limits comes down to the walk over its signatures and keys. -/
theorem checkMultiSig_of_holds (verify : Bool) (there : m.HoldsMultiSig env sigs keys below)
    (signed : m.signedCode env sigs = .ok code) : m.checkMultiSig env verify =
      match matchKeys env code sigs keys m.journal with
      | (.error stop, journal) =>
        ({ m with opCount := m.opCount + keys.length, journal } : Machine).halt stop
      | (.ok success, journal) =>
        settleMultiSig env verify (keys.length + sigs.length + 2) sigs success
          { m with opCount := m.opCount + keys.length, journal } := by
  obtain ⟨keyCount, sigCount, items, readKeys, readSigs⟩ := there.items
  have countKeys := readCount_of_readNumber le_rfl there.fewKeys readKeys
  have countSigs := readCount_of_readNumber there.fewKeys there.fewSigs readSigs
  have within : ¬Limit.operations < m.opCount + keys.length := by
    have := there.fewOperations
    omega
  have enough : ¬(sigs ++ below).length < sigs.length + 1 := by
    have := List.length_pos_iff.2 there.extra
    rw [List.length_append]
    omega
  have signed' : ({ m with opCount := m.opCount + keys.length } : Machine).signedCode env sigs =
      .ok code := signed
  rw [checkMultiSig]
  simp only [items, countKeys, if_neg within, List.drop_left, countSigs, if_neg enough,
    List.take_left]
  -- what is left is the walk, over the stack as it was
  rw [← items]
  rcases ended : matchKeys env code sigs keys m.journal with ⟨_ | _, _⟩ <;>
    simp only [signed', ended]

/-- **A multi-signature check decides whether its signatures can be given keys in order.** It asks
the checker about the signed part of the script. Only a signature or a key that is not written as
the flags ask can keep it from an answer. -/
theorem checkMultiSig_decides_assignable (verify : Bool) (decides : env.checker.Decides check)
    (there : m.HoldsMultiSig env sigs keys below) :
    ∃ code, m.signedCode env sigs = .ok code ∧
      ((∃ success journal, matchKeys env code sigs keys m.journal = (.ok success, journal) ∧
        (success = true ↔ Assignable (check · · code env.version) sigs keys) ∧
        m.checkMultiSig env verify =
          settleMultiSig env verify (keys.length + sigs.length + 2) sigs success
            { m with opCount := m.opCount + keys.length, journal }) ∨
      ¬env.flags.AsksNoForm ∧
        ∃ stop journal, matchKeys env code sigs keys m.journal = (.error stop, journal) ∧
          (∃ sig ∈ sigs, ∃ key ∈ keys,
            env.flags.checkForms env.version sig key = .error stop) ∧
          m.checkMultiSig env verify =
            ({ m with opCount := m.opCount + keys.length, journal } : Machine).halt stop) := by
  obtain ⟨code, signed⟩ := signedCode_of_inside there.inside sigs
  have whole := checkMultiSig_of_holds verify there signed
  refine ⟨code, signed, ?_⟩
  rcases ended : matchKeys env code sigs keys m.journal with ⟨stop | success, journal⟩ <;>
    rw [ended] at whole
  · obtain ⟨sig, sigThere, key, keyThere, refused⟩ := matchKeys_malformed decides ended
    refine .inr ⟨fun free => ?_, stop, journal, rfl,
      ⟨sig, sigThere, key, keyThere, refused⟩, whole⟩
    rw [free.checkForms] at refused
    cases refused
  · exact .inl ⟨success, journal, rfl, matchKeys_iff_assignable decides ended, whole⟩

/-- Pairs of signature and key: either signature is good for the second key. -/
def contestedPairs : List (Bytes × Bytes) := [([1], [1]), ([1], [2]), ([2], [2])]

/-- A script whose checker knows these pairs and accepts no other signature. -/
def contested : Env where
  flags := ⟨0⟩
  version := .legacy
  script := []
  checker := .listed contestedPairs false false none none

/-- A check of two signatures against three keys. -/
def contesting (sigs : List Bytes) : Machine where
  stack := [3] :: ([[1], [2], [3]] ++ [2] :: (sigs ++ [[]]))
  journal := {}

/-- One signature takes the first key and leaves the second key to the other. The other way round,
no key is left for it. -/
theorem contested_key_assigned :
    Assignable (fun sig key => contestedPairs.contains (sig, key)) [[1], [2]] [[1], [2], [3]] ∧
      ¬Assignable (fun sig key => contestedPairs.contains (sig, key)) [[2], [1]]
        [[1], [2], [3]] := by
  have decides : contested.checker.Decides fun sig key _ _ => contestedPairs.contains (sig, key) :=
    fun _ _ _ _ _ => rfl
  have holds (sigs : List Bytes) (two : sigs.length = 2) :
      (contesting sigs).HoldsMultiSig contested sigs [[1], [2], [3]] [[]] :=
    { items := ⟨[3], [2], rfl, rfl, by rw [two]; rfl⟩
      extra := by simp
      fewKeys := by decide
      fewSigs := by rw [two]; decide
      fewOperations := show 0 + 3 ≤ 201 by decide
      inside := le_rfl }
  have free : contested.flags.AsksNoForm := by decide
  constructor
  · obtain ⟨code, -, ⟨success, journal, ended, matched, -⟩ | ⟨asks, -⟩⟩ :=
      checkMultiSig_decides_assignable false decides (holds [[1], [2]] rfl)
    · exact matched.1 (Except.ok.inj (congrArg Prod.fst ended)).symm
    · exact absurd free asks
  · obtain ⟨code, -, ⟨success, journal, ended, matched, -⟩ | ⟨asks, -⟩⟩ :=
      checkMultiSig_decides_assignable false decides (holds [[2], [1]] rfl)
    · refine matched.not.1 fun yes => Bool.false_ne_true ?_
      exact (Except.ok.inj (congrArg Prod.fst ended)).trans yes
    · exact absurd free asks

end Machine

end BlockRules
