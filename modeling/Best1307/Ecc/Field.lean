import Mathlib.Algebra.Field.ZMod
import Best1307.Ecc.Multiply
import Best1307.Ecc.Prime

/-!
# The field of the curve

`ecc_p256.c`: numbers less than the prime are elements of the field, and the operations modulo the prime those of the
field; of the products only those that do not lie between the prime and the numbers of a word more.
-/

namespace Best1307.Ecc

open Words (Number)

instance : Fact p256.Prime := ⟨prime_p256⟩

instance : NeZero p256 := ⟨prime_p256.ne_zero⟩

/-- The product is less than the prime or has a word more. -/
def IsWhole (x y : ZMod p256) : Prop := x.val * y.val < p256 ∨ 2 ^ 256 ≤ x.val * y.val

instance (x y : ZMod p256) : Decidable (IsWhole x y) := inferInstanceAs (Decidable (_ ∨ _))

namespace BigHex256

/-- The number stands for an element of the field, and its length is that of its words. -/
structure Denotes (a : BigHex256) (x : ZMod p256) : Prop where
  isFieldElement : IsFieldElement a
  value : (a.value : ZMod p256) = x
  len : a.len = a.num.sigLength

/-- A number as the operations leave it: less than the prime, with its own length -/
def IsNormal (a : BigHex256) : Prop := a.sign = false ∧ a.value < p256 ∧ a.len = a.num.sigLength

instance (a : BigHex256) : Decidable a.IsNormal := inferInstanceAs (Decidable (_ ∧ _))

variable {a b : BigHex256} {x y : ZMod p256}

theorem IsNormal.denotes (ha : a.IsNormal) : a.Denotes a.value := ⟨⟨ha.1, ha.2.1⟩, rfl, ha.2.2⟩

theorem Denotes.hasLength (ha : Denotes a x) : a.HasLength := .inl ha.len

theorem Denotes.val (ha : Denotes a x) : x.val = a.value := by
  rw [← ha.value]
  exact ZMod.val_natCast_of_lt ha.isFieldElement.lt

theorem Denotes.num_eq_iff (ha : Denotes a x) (hb : Denotes b y) : a.num = b.num ↔ x = y := by
  constructor
  · intro hnum
    rw [← ha.value, ← hb.value, BigHex256.value, BigHex256.value, hnum]
  · intro hxy
    have hval := congrArg ZMod.val hxy
    rw [ha.val, hb.val] at hval
    exact Number.value_injective hval

/-! ### Lengths -/

theorem len_subtractFromSelfBigHexSign256 (a b : BigHex256) :
    (subtractFromSelfBigHexSign256 a b).len = (subtractFromSelfBigHexSign256 a b).num.sigLength := by
  rw [subtractFromSelfBigHexSign256]
  split
  · split
    · split <;> rfl
    · rfl
  · split
    · rfl
    · split <;> rfl

theorem len_specialModP256 (h : a.len = a.num.sigLength) :
    (specialModP256 a).len = (specialModP256 a).num.sigLength := by
  have hmultiple : a.subtractNModP.len = a.subtractNModP.num.sigLength := by
    rw [subtractNModP]
    split
    · split <;> exact len_subtractFromSelfBigHexSign256 _ _
    · exact h
  rw [specialModP256]
  split
  · dsimp only
    split
    · split <;> rfl
    · exact hmultiple
  · exact h

theorem len_multiplyBigHexModP256 (a b : BigHex256) :
    (multiplyBigHexModP256 a b).len = (multiplyBigHexModP256 a b).num.sigLength := by
  have hfold : ∀ (ws : List Word) (c : BigHex256), c.len = c.num.sigLength →
      (ws.foldl nextWord c).len = (ws.foldl nextWord c).num.sigLength := by
    intro ws
    induction ws with
    | nil => exact fun c hc => hc
    | cons w ws ih => exact fun c _ => ih (nextWord c w) rfl
  rw [multiplyBigHexModP256, modP256]
  apply len_specialModP256
  exact hfold _ _ rfl

/-! ### The operations -/

theorem Denotes.of_mod {v : Nat} (hsign : a.sign = false) (hvalue : a.value = v % p256)
    (hlen : a.len = a.num.sigLength) (h : (v : ZMod p256) = x) : Denotes a x := by
  refine ⟨⟨hsign, ?_⟩, ?_, hlen⟩
  · rw [hvalue]
    exact Nat.mod_lt _ (Nat.pos_of_neZero p256)
  · rw [hvalue, ZMod.natCast_mod, h]

theorem Denotes.multiply (ha : Denotes a x) (hb : Denotes b y) (h : IsWhole x y) :
    Denotes (multiplyBigHexModP256 a b) (x * y) := by
  rw [IsWhole, ha.val, hb.val] at h
  obtain ⟨hproduct, -⟩ := multiplyBigHexModP256_of_not_between ha.isFieldElement hb.isFieldElement h
  apply Denotes.of_mod hproduct.isFieldElement.sign hproduct.value (len_multiplyBigHexModP256 a b)
  rw [Nat.cast_mul, ha.value, hb.value]

theorem Denotes.multiplyByUint32 (ha : Denotes a x) {w : Word} (n : Nat) (hw : w.val = n) (hn : n ≤ 8) :
    Denotes (multiplyBigHexByUint32_256 a w) (n * x) := by
  have hroom : w * a.num.value < radix ^ elements := by
    have hle : w.val * a.num.value ≤ 8 * p256 :=
      Nat.mul_le_mul (hw.symm ▸ hn) (Nat.le_of_lt ha.isFieldElement.lt)
    exact Nat.lt_of_le_of_lt hle (by decide)
  have hvalue : (a.multiplyByUint32 w).value = w * a.value := Number.value_mulWord hroom
  obtain ⟨hmod, hsign, -⟩ := @specialModP256_of_sign_eq_false (a.multiplyByUint32 w) (.inl rfl) ha.isFieldElement.sign
  rw [hvalue] at hmod
  apply Denotes.of_mod hsign hmod (len_specialModP256 rfl)
  rw [Nat.cast_mul, ha.value, hw]

theorem Denotes.add (ha : Denotes a x) (hb : Denotes b y) : Denotes (addBigHexModP256 a b) (x + y) := by
  have hlta := ha.isFieldElement.lt
  have hltb := hb.isFieldElement.lt
  have hsum : (addBigHex256 a b).value = a.value + b.value := by
    apply value_addBigHex256
    have hbound : 2 * p256 < radix ^ 9 := by decide
    omega
  have hge : isGreaterThanOrEqual256 (addBigHex256 a b) bigHexP256 = true ↔ p256 ≤ a.value + b.value := by
    have hpos : 0 < (addBigHex256 a b).value ∨ 0 < bigHexP256.value := .inr (by decide)
    rw [isGreaterThanOrEqual256_iff (.inl rfl) hasLength_bigHexP256 hpos, value_bigHexP256, hsum]
  have hcast : ((a.value + b.value : Nat) : ZMod p256) = x + y := by rw [Nat.cast_add, ha.value, hb.value]
  have hresult : addBigHexModP256 a b = if isGreaterThanOrEqual256 (addBigHex256 a b) bigHexP256 then
      subtractFromSelfBigHex256 (addBigHex256 a b) bigHexP256 else addBigHex256 a b := rfl
  rw [hresult]
  by_cases hle : p256 ≤ a.value + b.value
  · rw [if_pos (hge.mpr hle)]
    refine Denotes.of_mod rfl ?_ rfl hcast
    rw [value_subtractFromSelfBigHex256 (by rw [value_bigHexP256, hsum]; exact hle), value_bigHexP256, hsum,
      Nat.mod_eq_sub_mod hle, Nat.mod_eq_of_lt (by omega)]
  · rw [if_neg (mt hge.mp hle)]
    refine Denotes.of_mod rfl ?_ rfl hcast
    rw [hsum, Nat.mod_eq_of_lt (Nat.not_le.mp hle)]

/-- The lengths do not mislead a comparison, not even one of two zeros. -/
theorem Denotes.isGreaterThanOrEqual256_iff (ha : Denotes a x) (hb : Denotes b y) :
    isGreaterThanOrEqual256 a b = true ↔ b.value ≤ a.value := by
  by_cases hpos : 0 < a.value ∨ 0 < b.value
  · exact BigHex256.isGreaterThanOrEqual256_iff ha.hasLength hb.hasLength hpos
  · have hvalues : a.value = b.value := by omega
    have hnum : a.num = b.num := Number.value_injective hvalues
    have hlen : a.len = b.len := by rw [ha.len, hb.len, hnum]
    refine iff_of_true ?_ (Nat.le_of_eq hvalues.symm)
    rw [BigHex256.isGreaterThanOrEqual256, Number.compareFrom, hnum, hlen, if_neg (Nat.lt_irrefl _),
      if_neg (Nat.lt_irrefl _)]
    exact (Words.greaterFrom_iff rfl).mpr (.inr ⟨rfl, rfl⟩)

theorem Denotes.subtract (ha : Denotes a x) (hb : Denotes b y) : Denotes (subtractBigHexMod256 a b) (x - y) := by
  have hlta := ha.isFieldElement.lt
  have hltb := hb.isFieldElement.lt
  have hsigned : subtractBigHexSign256 a b =
      if isGreaterThanOrEqual256 a b then subtractBigHex256 a b false else subtractBigHex256 b a true := by
    rw [subtractBigHexSign256, if_pos ha.isFieldElement.sign, if_pos hb.isFieldElement.sign]
  by_cases hle : b.value ≤ a.value
  · have hdiff : (subtractBigHex256 a b false).value = a.value - b.value := value_subtractBigHex256 hle
    have hsmall : isGreaterThanOrEqual256 (subtractBigHex256 a b false) bigHexP256 = false := by
      have hpos : 0 < (subtractBigHex256 a b false).value ∨ 0 < bigHexP256.value := .inr (by decide)
      rw [Bool.eq_false_iff, ne_eq, BigHex256.isGreaterThanOrEqual256_iff (.inl rfl) hasLength_bigHexP256 hpos,
        value_bigHexP256, hdiff]
      omega
    have hresult : subtractBigHexMod256 a b = subtractBigHex256 a b false := by
      have hsign : (subtractBigHex256 a b false).sign = false := rfl
      rw [subtractBigHexMod256, hsigned, if_pos ((ha.isGreaterThanOrEqual256_iff hb).mpr hle), if_pos hsign, hsmall,
        if_neg Bool.false_ne_true]
    rw [hresult]
    apply Denotes.of_mod rfl _ rfl
    · rw [Nat.cast_sub hle, ha.value, hb.value]
    · rw [hdiff, Nat.mod_eq_of_lt (by omega)]
  · have hlt : a.value ≤ b.value := Nat.le_of_not_le hle
    have hdiff : (subtractBigHex256 b a true).value = b.value - a.value := value_subtractBigHex256 hlt
    have hresult : subtractBigHexMod256 a b = addP256 (subtractBigHex256 b a true) := by
      rw [subtractBigHexMod256, hsigned, if_neg (mt (ha.isGreaterThanOrEqual256_iff hb).mp hle)]
      rfl
    have hroom : b.value - a.value ≤ p256 := by omega
    rw [hresult]
    apply Denotes.of_mod rfl _ rfl
    · have hcast : ((p256 - (b.value - a.value) : Nat) : ZMod p256) = x - y := by
        rw [Nat.cast_sub hroom, Nat.cast_sub hlt, ZMod.natCast_self, ha.value, hb.value]
        ring
      exact hcast
    · rw [value_addP256 (by rw [hdiff]; exact hroom), hdiff, Nat.mod_eq_of_lt (by omega)]

end BigHex256

end Best1307.Ecc
