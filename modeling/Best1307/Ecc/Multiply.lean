import Best1307.Ecc.ModP

/-!
# Products modulo the prime

`ecc_p256.c`: the product of two numbers is worked out whole. Nine of its words are then reduced, from the first one
that is not zero on, and the others brought in one at a time, each with a reduction of its own.
-/

namespace Best1307.Ecc

open Words (Number leadingZeros)

structure VeryBigHex256 where
  num : Number radix (elements + elements)
  len : Nat
  sign : Bool

namespace VeryBigHex256

def veryBigHexP256 : VeryBigHex256 := ⟨⟨List.replicate elements 0 ++ BigHex256.bigHexP256.num.words, rfl⟩, 8, false⟩

/-- `isVeryBigHexGreaterThanOrEqual256` -/
def isGreaterThanOrEqual256 (a b : VeryBigHex256) : Bool := Number.compareFrom true a.num a.len b.num b.len

/-- The words of the number as they lie in memory, with its length and its sign behind them. -/
def memory (a : VeryBigHex256) : List Word := a.num.words ++ [Fin.ofNat radix a.len, if a.sign then 1 else 0]

end VeryBigHex256

namespace BigHex256

variable {a b : BigHex256}

/-- The first block of `MultiplyBigHexModP256`: the whole product. -/
def multiplyBigHex256 (a b : BigHex256) : VeryBigHex256 :=
  let num := a.num.mul b.num
  ⟨num, num.sigLength, a.sign != b.sign⟩

/-- A turn of the loop on the words behind the first nine. -/
def nextWord (a : BigHex256) (w : Word) : BigHex256 :=
  let a := specialModP256 a
  setBigNumberLength256 { a with num := a.num.shiftIn w }

/-- The index from which the second block copies nine words. -/
def firstIndex (tmpResult : VeryBigHex256) : Nat :=
  let i := leadingZeros (tmpResult.num.words.take elements)
  if tmpResult.isGreaterThanOrEqual256 .veryBigHexP256 then i + leadingZeros (tmpResult.num.words.drop i) else i

/-- The second block of `MultiplyBigHexModP256`: the product is reduced. -/
def modP256 (tmpResult : VeryBigHex256) : BigHex256 :=
  let i := firstIndex tmpResult
  let tmpResult2 := setBigNumberLength256 ⟨Number.ofMemory tmpResult.memory i, 0, tmpResult.sign⟩
  specialModP256 ((tmpResult.num.words.drop (i + elements)).foldl nextWord tmpResult2)

def multiplyBigHexModP256 (a b : BigHex256) : BigHex256 := modP256 (multiplyBigHex256 a b)

/-- The first block of `MultiplyBigHexByUint32_256`: the product, without the carry out of the first word. -/
def multiplyByUint32 (a : BigHex256) (numB : Word) : BigHex256 :=
  setBigNumberLength256 ⟨a.num.mulWord numB, 0, a.sign⟩

def multiplyBigHexByUint32_256 (a : BigHex256) (numB : Word) : BigHex256 := specialModP256 (a.multiplyByUint32 numB)

/-! ### The words taken first -/

theorem hasLength_veryBigHexP256 :
    VeryBigHex256.veryBigHexP256.num.HasLength VeryBigHex256.veryBigHexP256.len := .inl (by decide)

theorem firstIndex_eq {t : VeryBigHex256} (hlen : t.num.HasLength t.len) :
    firstIndex t =
      if p256 ≤ t.num.value then leadingZeros t.num.words else min elements (leadingZeros t.num.words) := by
  have hprime : VeryBigHex256.veryBigHexP256.num.value = p256 := by decide
  have hpos : 0 < t.num.value ∨ 0 < VeryBigHex256.veryBigHexP256.num.value := .inr (by decide)
  have hge : t.isGreaterThanOrEqual256 .veryBigHexP256 = true ↔ p256 ≤ t.num.value := by
    rw [VeryBigHex256.isGreaterThanOrEqual256, Number.compareFrom_iff hlen hasLength_veryBigHexP256 hpos, hprime,
      Nat.le_iff_lt_or_eq]
    exact ⟨fun h => h.imp_right And.left, fun h => h.imp_right (⟨·, rfl⟩)⟩
  rw [firstIndex, Words.leadingZeros_take]
  by_cases hp : p256 ≤ t.num.value
  · rw [if_pos hp, if_pos (hge.mpr hp), Words.leadingZeros_drop (Nat.min_le_right _ _)]
  · rw [if_neg hp, if_neg (mt hge.mp hp)]

/-- The nine words from an index up to nine on are words of the product. -/
theorem ofMemory_words_of_le {t : VeryBigHex256} {i : Nat} (hi : i ≤ 9) :
    (Number.ofMemory t.memory i : Number radix elements).words = (t.num.words.drop i).take elements := by
  have hlength : t.num.words.length = 18 := t.num.length
  have hmemory : t.memory.length = 20 := by
    rw [VeryBigHex256.memory, List.length_append, hlength]
    rfl
  have hnine : i + elements ≤ 18 := Nat.add_le_add_right hi 9
  rw [Number.ofMemory_words (by omega), VeryBigHex256.memory, List.drop_append_of_le_length (by omega),
    List.take_append_of_le_length (by rw [List.length_drop]; omega)]

/-- From the tenth index on, the last of the nine words is the length. -/
theorem ofMemory_words_ten {t : VeryBigHex256} :
    (Number.ofMemory t.memory 10 : Number radix elements).words = t.num.words.drop 10 ++ [Fin.ofNat radix t.len] := by
  have hlength : t.num.words.length = 18 := t.num.length
  have hmemory : t.memory.length = 20 := by
    rw [VeryBigHex256.memory, List.length_append, hlength]
    rfl
  rw [Number.ofMemory_words (Nat.le_of_lt (hmemory ▸ Nat.lt_succ_self 19)), VeryBigHex256.memory,
    List.drop_append_of_le_length (by omega), List.take_append, List.length_drop, hlength,
    List.take_of_length_le (by rw [List.length_drop, hlength]; decide)]
  rfl

/-! ### The words brought in -/

theorem nextWord_spec (ha : a.HasLength) (hsign : a.sign = false) (w : Word) :
    (nextWord a w).value = a.value % p256 * radix + w ∧ (nextWord a w).sign = false ∧ (nextWord a w).HasLength := by
  obtain ⟨hvalue, hsign', -⟩ := specialModP256_of_sign_eq_false ha hsign
  have hlt : (specialModP256 a).value < radix ^ 8 := by
    rw [hvalue]
    exact Nat.lt_trans (Nat.mod_lt _ (by decide)) p256_lt
  have hshift : ((specialModP256 a).num.shiftIn w).value = (specialModP256 a).value * radix + w :=
    Number.value_shiftIn hlt w
  rw [hvalue] at hshift
  exact ⟨hshift, hsign', hasLength_setBigNumberLength256 _⟩

/-- What the words brought in make of a number has the remainder of the whole number. -/
theorem foldl_nextWord (ws : List Word) (ha : a.HasLength) (hsign : a.sign = false) :
    (ws.foldl nextWord a).value % p256 = (a.value * radix ^ ws.length + Words.value ws) % p256 ∧
      (ws.foldl nextWord a).sign = false ∧ (ws.foldl nextWord a).HasLength := by
  induction ws generalizing a with
  | nil =>
      rw [List.foldl_nil, List.length_nil, pow_zero, Nat.mul_one, Words.value_nil, Nat.add_zero]
      exact ⟨rfl, hsign, ha⟩
  | cons w ws ih =>
      obtain ⟨hvalue, hsign', hlength⟩ := nextWord_spec ha hsign w
      obtain ⟨hrest, hsignRest, hlengthRest⟩ := ih hlength hsign'
      refine ⟨?_, hsignRest, hlengthRest⟩
      have hmod : (a.value % p256 * radix + w) % p256 = (a.value * radix + w) % p256 := by
        rw [Nat.add_mod, Nat.mod_mul_mod, ← Nat.add_mod]
      rw [List.foldl_cons, hrest, hvalue, Words.value_cons, List.length_cons, pow_succ, Nat.add_mod, Nat.mul_mod, hmod,
        ← Nat.mul_mod, ← Nat.add_mod]
      congr 1
      ring

/-! ### The product reduced -/

/-- From an index up to nine that no significant word lies before, the whole number is reduced. -/
theorem modP256_of_le {t : VeryBigHex256} (hsign : t.sign = false) (hnine : firstIndex t ≤ 9)
    (hzeros : firstIndex t ≤ leadingZeros t.num.words) :
    (modP256 t).value = t.num.value % p256 ∧ (modP256 t).sign = false ∧ (modP256 t).HasLength := by
  obtain ⟨i, hi⟩ : ∃ i, i = firstIndex t := ⟨_, rfl⟩
  rw [← hi] at hnine hzeros
  obtain ⟨first, hfirst⟩ : ∃ first : BigHex256,
      first = setBigNumberLength256 ⟨Number.ofMemory t.memory i, 0, t.sign⟩ := ⟨_, rfl⟩
  have hwords : first.num.words = (t.num.words.drop i).take elements := hfirst ▸ ofMemory_words_of_le hnine
  have hlength : first.HasLength := hfirst ▸ hasLength_setBigNumberLength256 _
  have hfirstSign : first.sign = false := hfirst ▸ hsign
  -- the words before the index are zero
  have hwhole : Words.value (t.num.words.drop i) = t.num.value := by
    have hsig := Words.leadingZeros_add_sigLength t.num.words
    rw [t.num.length] at hsig
    have hlt := Words.sigLength_le_iff.mp (show Words.sigLength t.num.words ≤ elements + elements - i by omega)
    have hdrop := Words.value_drop hlt
    have hindex : elements + elements - (elements + elements - i) = i :=
      Nat.sub_sub_self (Nat.le_trans hnine (by decide))
    rwa [t.num.length, hindex] at hdrop
  have hsplit : t.num.value =
      first.value * radix ^ (t.num.words.drop (i + elements)).length +
        Words.value (t.num.words.drop (i + elements)) := by
    have hparts := Words.value_append ((t.num.words.drop i).take elements) ((t.num.words.drop i).drop elements)
    rw [List.take_append_drop, hwhole, List.drop_drop, ← hwords] at hparts
    rw [hparts, Nat.add_comm, Nat.mul_comm]
    rfl
  obtain ⟨hmod, hfoldSign, hfoldLength⟩ := foldl_nextWord (t.num.words.drop (i + elements)) hlength hfirstSign
  rw [← hsplit, hfirst] at hmod
  rw [hfirst] at hfoldSign hfoldLength
  rw [modP256, ← hi, ← hmod]
  exact specialModP256_of_sign_eq_false hfoldLength hfoldSign

/-- From the tenth index on, the length comes in as the last word. -/
theorem modP256_of_ten {t : VeryBigHex256} (hsign : t.sign = false) (hten : firstIndex t = 10)
    (hlt : t.num.value < radix ^ 8) (hlen : t.len = 8) :
    (modP256 t).value = (t.num.value * radix + 8) % p256 ∧ (modP256 t).sign = false := by
  have hdrop := Words.value_drop hlt
  rw [t.num.length] at hdrop
  have hvalue : (setBigNumberLength256 ⟨Number.ofMemory t.memory 10, 0, t.sign⟩).value = t.num.value * radix + 8 := by
    show Words.value (Number.ofMemory t.memory 10 : Number radix elements).words = _
    rw [ofMemory_words_ten, Words.value_append, hlen]
    show 8 + radix ^ 1 * Words.value (t.num.words.drop (elements + elements - 8)) = _
    rw [hdrop, pow_one, Nat.add_comm, Nat.mul_comm]
    rfl
  have hrest : t.num.words.drop (10 + elements) = [] := List.drop_eq_nil_of_le (by rw [t.num.length]; decide)
  have hreduced := specialModP256_of_sign_eq_false (hasLength_setBigNumberLength256 _)
    (show (setBigNumberLength256 ⟨Number.ofMemory t.memory 10, 0, t.sign⟩).sign = false from hsign)
  rw [hvalue] at hreduced
  rw [modP256, hten, hrest]
  exact ⟨hreduced.1, hreduced.2.1⟩

/-! ### Products of field elements -/

/-- The number is one of the field: it is not negative and less than the prime. -/
structure IsFieldElement (a : BigHex256) : Prop where
  sign : a.sign = false
  lt : a.value < p256

/-- The product of two field elements is the element of the field that it should be. -/
structure IsProduct (a b result : BigHex256) : Prop where
  value : result.value = a.value * b.value % p256
  isFieldElement : IsFieldElement result

theorem multiplyBigHex256_spec (ha : IsFieldElement a) (hb : IsFieldElement b) :
    (multiplyBigHex256 a b).num.value = a.value * b.value ∧ (multiplyBigHex256 a b).sign = false := by
  have hradix : b.value * radix < radix ^ elements :=
    Nat.mul_lt_mul_of_pos_right (Nat.lt_trans hb.lt p256_lt) (by decide)
  refine ⟨Number.value_mul hradix, ?_⟩
  rw [multiplyBigHex256, ha.sign, hb.sign]
  rfl

/-- `MultiplyBigHexModP256` where the product is less than the prime or has a word more than it. -/
theorem multiplyBigHexModP256_of_not_between (ha : IsFieldElement a) (hb : IsFieldElement b)
    (h : a.value * b.value < p256 ∨ 2 ^ 256 ≤ a.value * b.value) :
    IsProduct a b (multiplyBigHexModP256 a b) ∧ (multiplyBigHexModP256 a b).HasLength := by
  obtain ⟨hvalue, hsign⟩ := multiplyBigHex256_spec ha hb
  have hindex := firstIndex_eq (t := multiplyBigHex256 a b) (.inl rfl)
  have hsig := Words.leadingZeros_add_sigLength (multiplyBigHex256 a b).num.words
  have hlength : (multiplyBigHex256 a b).num.words.length = 18 := (multiplyBigHex256 a b).num.length
  have hle : firstIndex (multiplyBigHex256 a b) ≤ 9 ∧
      firstIndex (multiplyBigHex256 a b) ≤ leadingZeros (multiplyBigHex256 a b).num.words := by
    rw [hindex, hvalue]
    split
    case isTrue hp =>
      have hlong : ¬ Words.value (multiplyBigHex256 a b).num.words < radix ^ 8 := by
        have hwords : Words.value (multiplyBigHex256 a b).num.words = a.value * b.value := hvalue
        rw [hwords]
        exact Nat.not_lt_of_le (h.resolve_left (Nat.not_lt_of_le hp))
      have := mt Words.sigLength_le_iff.mp hlong
      exact ⟨by omega, Nat.le_refl _⟩
    case isFalse => exact ⟨Nat.min_le_left _ _, Nat.min_le_right _ _⟩
  obtain ⟨hmod, hmodSign, hmodLength⟩ := modP256_of_le hsign hle.1 hle.2
  rw [hvalue] at hmod
  exact ⟨⟨hmod, hmodSign, hmod ▸ Nat.mod_lt _ (by decide)⟩, hmodLength⟩

/-- Between the prime and the word after it, the length of the product is taken for its last word. -/
theorem multiplyBigHexModP256_of_between (ha : IsFieldElement a) (hb : IsFieldElement b)
    (hge : p256 ≤ a.value * b.value) (hlt : a.value * b.value < 2 ^ 256) :
    (multiplyBigHexModP256 a b).value = (a.value * b.value * radix + 8) % p256 := by
  obtain ⟨hvalue, hsign⟩ := multiplyBigHex256_spec ha hb
  have hwords : Words.value (multiplyBigHex256 a b).num.words = a.value * b.value := hvalue
  have hsigle : Words.sigLength (multiplyBigHex256 a b).num.words ≤ 8 := Words.sigLength_le_iff.mpr (hwords ▸ hlt)
  have hsiglt : ¬ Words.sigLength (multiplyBigHex256 a b).num.words ≤ 7 := by
    rw [Words.sigLength_le_iff, hwords]
    exact Nat.not_lt_of_le (Nat.le_trans (by decide) hge)
  have hsig := Words.leadingZeros_add_sigLength (multiplyBigHex256 a b).num.words
  have hlength : (multiplyBigHex256 a b).num.words.length = 18 := (multiplyBigHex256 a b).num.length
  have hindex : firstIndex (multiplyBigHex256 a b) = 10 := by
    rw [firstIndex_eq (.inl rfl), hvalue, if_pos hge]
    omega
  have hlen : (multiplyBigHex256 a b).len = 8 := Nat.le_antisymm hsigle (by
    show 8 ≤ Words.sigLength (multiplyBigHex256 a b).num.words
    omega)
  have hreduced := (modP256_of_ten hsign hindex (hvalue ▸ hlt) hlen).1
  rwa [hvalue] at hreduced

/-- A number that is no less than the prime, but has no word more, is not what it becomes with its length behind. -/
theorem shifted_mod_ne {v : Nat} (hge : p256 ≤ v) (hlt : v < 2 ^ 256) : (v * radix + 8) % p256 ≠ v % p256 := by
  intro heq
  obtain ⟨d, rfl⟩ := Nat.exists_eq_add_of_le hge
  have hd : d ≤ 2 ^ 224 - 2 ^ 192 := by
    have hsum : 2 ^ 256 ≤ p256 + (2 ^ 224 - 2 ^ 192) := by decide
    omega
  have hshifted : d * radix + 8 < p256 :=
    Nat.lt_of_le_of_lt (Nat.add_le_add_right (Nat.mul_le_mul_right radix hd) 8) (by decide)
  have hsmall : d < p256 := Nat.lt_of_le_of_lt hd (by decide)
  rw [Nat.add_mul, Nat.add_assoc, Nat.mul_add_mod, Nat.add_mod_left, Nat.mod_eq_of_lt hshifted,
    Nat.mod_eq_of_lt hsmall] at heq
  have hle := Nat.le_mul_of_pos_right d (show 0 < radix by decide)
  omega

/-- `MultiplyBigHexModP256` gives the product of two field elements exactly where it does not lie between the prime and
the numbers of a word more. -/
theorem multiplyBigHexModP256_iff (ha : IsFieldElement a) (hb : IsFieldElement b) :
    IsProduct a b (multiplyBigHexModP256 a b) ↔ a.value * b.value < p256 ∨ 2 ^ 256 ≤ a.value * b.value := by
  constructor
  · intro hproduct
    by_contra hbetween
    obtain ⟨hge, hlt⟩ := not_or.mp hbetween
    have hvalue := multiplyBigHexModP256_of_between ha hb (Nat.le_of_not_lt hge) (Nat.lt_of_not_le hlt)
    exact shifted_mod_ne (Nat.le_of_not_lt hge) (Nat.lt_of_not_le hlt) (hvalue.symm.trans hproduct.value)
  · intro h
    exact (multiplyBigHexModP256_of_not_between ha hb h).1

def twoPow128 : BigHex256 := ⟨⟨[0, 0, 0, 0, 1, 0, 0, 0, 0], rfl⟩, 5, false⟩

def twoPow128Pred : BigHex256 :=
  ⟨⟨[0, 0, 0, 0, 0, 0xFFFFFFFF, 0xFFFFFFFF, 0xFFFFFFFF, 0xFFFFFFFF], rfl⟩, 4, false⟩

theorem isProduct_twoPow128 : IsProduct twoPow128 twoPow128 (multiplyBigHexModP256 twoPow128 twoPow128) :=
  (multiplyBigHexModP256_iff ⟨rfl, by decide⟩ ⟨rfl, by decide⟩).mpr (.inr (by decide))

/-- The product is 2 ^ 256 - 2 ^ 128. -/
theorem not_isProduct_twoPow128Pred :
    ¬ IsProduct twoPow128 twoPow128Pred (multiplyBigHexModP256 twoPow128 twoPow128Pred) :=
  fun h => absurd h.value (by decide)

end BigHex256

end Best1307.Ecc
