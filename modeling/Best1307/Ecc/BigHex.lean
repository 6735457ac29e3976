import Best1307.Lib.Words

/-!
# Signed numbers of nine words

`ecc_p256.c`, in the configuration with words of 32 bits: numbers are kept in one word more than they need, with the
number of their significant words and a sign beside them.
-/

namespace Best1307.Ecc

open Words (Number)

abbrev radix : Nat := 4294967296

instance : NeZero radix := ⟨Nat.succ_ne_zero 4294967295⟩

abbrev Word : Type := Fin radix

/-- `ELEMENTS_BIG_HEX256` -/
abbrev elements : Nat := 9

structure BigHex256 where
  num : Number radix elements
  len : Nat
  sign : Bool
  deriving DecidableEq

namespace BigHex256

def value (a : BigHex256) : Nat := a.num.value

def toInt (a : BigHex256) : Int := if a.sign then -a.value else a.value

/-- `initBigNumber256` -/
def init : BigHex256 := ⟨Number.zero, 0, false⟩

def setBigNumberLength256 (a : BigHex256) : BigHex256 := { a with len := a.num.sigLength }

/-! ### Comparisons -/

def isGreaterThan256 (a b : BigHex256) : Bool := Number.compareFrom false a.num a.len b.num b.len

def isGreaterThanOrEqual256 (a b : BigHex256) : Bool := Number.compareFrom true a.num a.len b.num b.len

/-! ### Sums, differences and halves without a sign -/

def addBigHex256 (a b : BigHex256) : BigHex256 := setBigNumberLength256 ⟨a.num.add b.num, 0, false⟩

def add2SelfBigHex256 (a b : BigHex256) : BigHex256 := setBigNumberLength256 { a with num := a.num.add b.num }

/-- `SubtractBigHex256`, with the sign that its callers give to the result. -/
def subtractBigHex256 (a b : BigHex256) (sign : Bool) : BigHex256 := setBigNumberLength256 ⟨a.num.sub b.num, 0, sign⟩

def subtractFromSelfBigHex256 (a b : BigHex256) : BigHex256 := setBigNumberLength256 { a with num := a.num.sub b.num }

def divideByTwo256 (a : BigHex256) : BigHex256 := setBigNumberLength256 { a with num := a.num.half }

/-- `ISBIGHEXEVEN256` -/
def isEven (a : BigHex256) : Bool := (a.num.words.getLastD 0).val % 2 == 0

/-! ### The prime -/

def bigHexP256 : BigHex256 :=
  ⟨⟨[0x00000000, 0xFFFFFFFF, 0x00000001, 0x00000000, 0x00000000, 0x00000000, 0xFFFFFFFF, 0xFFFFFFFF, 0xFFFFFFFF],
    rfl⟩, 8, false⟩

/-- `AddP256`: the sign of `a` is taken to be negative, and `a` to be no greater than the prime. -/
def addP256 (a : BigHex256) : BigHex256 := subtractBigHex256 bigHexP256 a false

def addPdiv2_256 (a : BigHex256) : BigHex256 :=
  if a.sign = false then divideByTwo256 { a with num := a.num.add bigHexP256.num }
  else if isGreaterThan256 a bigHexP256 then divideByTwo256 { a with num := a.num.sub bigHexP256.num }
  else divideByTwo256 (subtractBigHex256 bigHexP256 a false)

/-! ### Differences with a sign -/

def subtractFromSelfBigHexSign256 (a b : BigHex256) : BigHex256 :=
  if a.sign = false then
    if b.sign = false then
      if isGreaterThanOrEqual256 a b then subtractFromSelfBigHex256 a b else subtractBigHex256 b a true
    else add2SelfBigHex256 a b
  else
    if b.sign = false then add2SelfBigHex256 a b
    else if isGreaterThanOrEqual256 b a then subtractBigHex256 b a false else subtractFromSelfBigHex256 a b

end BigHex256

def p256 : Nat := 2 ^ 256 - 2 ^ 224 + 2 ^ 192 + 2 ^ 96 - 1

namespace BigHex256

variable {a b : BigHex256}

theorem value_bigHexP256 : bigHexP256.value = p256 := by decide

theorem p256_lt : p256 < radix ^ 8 := by decide

theorem p256_odd : p256 % 2 = 1 := by decide

theorem value_lt (a : BigHex256) : a.value < radix ^ 9 := a.num.value_lt

theorem isEven_iff : a.isEven = true ↔ a.value % 2 = 0 := by
  have hmod := Words.value_mod_of_dvd (β := radix) (d := 2) ⟨2147483648, rfl⟩ a.num.words
  rw [isEven, beq_iff_eq, ← hmod]
  rfl

/-! ### The length -/

def HasLength (a : BigHex256) : Prop := a.num.HasLength a.len

theorem hasLength_setBigNumberLength256 (a : BigHex256) : a.setBigNumberLength256.HasLength := .inl rfl

theorem HasLength.value_lt (h : a.HasLength) : a.value < radix ^ a.len := Number.HasLength.value_lt h

theorem hasLength_bigHexP256 : bigHexP256.HasLength := .inl (by decide)

theorem isGreaterThanOrEqual256_iff (ha : a.HasLength) (hb : b.HasLength) (hpos : 0 < a.value ∨ 0 < b.value) :
    isGreaterThanOrEqual256 a b = true ↔ b.value ≤ a.value := by
  rw [isGreaterThanOrEqual256, Number.compareFrom_iff ha hb hpos, Nat.le_iff_lt_or_eq]
  exact ⟨fun h => h.imp_right And.left, fun h => h.imp_right (⟨·, rfl⟩)⟩

theorem isGreaterThan256_iff (ha : a.HasLength) (hb : b.HasLength) (hpos : 0 < a.value ∨ 0 < b.value) :
    isGreaterThan256 a b = true ↔ b.value < a.value := by
  rw [isGreaterThan256, Number.compareFrom_iff ha hb hpos]
  exact ⟨fun h => h.resolve_right fun heq => Bool.false_ne_true heq.2, .inl⟩

/-! ### The operations on the values -/

theorem toInt_of_sign_eq_false (h : a.sign = false) : a.toInt = a.value := by
  rw [toInt, h]
  rfl

theorem toInt_of_sign_eq_true (h : a.sign = true) : a.toInt = -a.value := by
  rw [toInt, h]
  rfl

theorem natAbs_toInt (a : BigHex256) : a.toInt.natAbs = a.value := by
  cases h : a.sign with
  | false => rw [toInt_of_sign_eq_false h, Int.natAbs_natCast]
  | true => rw [toInt_of_sign_eq_true h, Int.natAbs_neg, Int.natAbs_natCast]

theorem value_addBigHex256 (h : a.value + b.value < radix ^ 9) : (addBigHex256 a b).value = a.value + b.value :=
  Number.value_add h

theorem value_add2SelfBigHex256 (h : a.value + b.value < radix ^ 9) :
    (add2SelfBigHex256 a b).value = a.value + b.value :=
  Number.value_add h

theorem value_subtractBigHex256 {sign : Bool} (h : b.value ≤ a.value) :
    (subtractBigHex256 a b sign).value = a.value - b.value :=
  Number.value_sub h

theorem value_subtractFromSelfBigHex256 (h : b.value ≤ a.value) :
    (subtractFromSelfBigHex256 a b).value = a.value - b.value :=
  Number.value_sub h

@[simp] theorem value_divideByTwo256 (a : BigHex256) : (divideByTwo256 a).value = a.value / 2 := a.num.value_half

/-- A number that is greater than the prime takes `AddP256` below zero, where the borrow is lost. -/
theorem value_addP256_of_lt (h : p256 < a.value) : (addP256 a).value + a.value = p256 + radix ^ 9 := by
  rw [← value_bigHexP256] at h ⊢
  exact Number.value_sub_of_lt h

theorem value_addP256 (h : a.value ≤ p256) : (addP256 a).value = p256 - a.value := by
  rw [← value_bigHexP256] at h ⊢
  exact value_subtractBigHex256 h

theorem toInt_divideByTwo256 (h : a.value % 2 = 0) : 2 * (divideByTwo256 a).toInt = a.toInt := by
  have hvalue := a.value_divideByTwo256
  cases hsign : a.sign with
  | false =>
      have hhalf : (divideByTwo256 a).toInt = (divideByTwo256 a).value := toInt_of_sign_eq_false hsign
      rw [hhalf, hvalue, toInt_of_sign_eq_false hsign]
      omega
  | true =>
      have hhalf : (divideByTwo256 a).toInt = -(divideByTwo256 a).value := toInt_of_sign_eq_true hsign
      rw [hhalf, hvalue, toInt_of_sign_eq_true hsign]
      omega

theorem toInt_addPdiv2_256 (ha : a.HasLength) (hodd : a.value % 2 = 1) (hlt : a.value + p256 < radix ^ 9) :
    2 * (addPdiv2_256 a).toInt = a.toInt + p256 := by
  have hp := p256_odd
  have hpos : 0 < a.value := by omega
  have hgreater := isGreaterThan256_iff ha hasLength_bigHexP256 (.inl hpos)
  rw [value_bigHexP256] at hgreater
  rw [addPdiv2_256]
  split
  case isTrue hsign =>
    obtain ⟨sum, hsum⟩ : ∃ sum : BigHex256, sum = { a with num := a.num.add bigHexP256.num } := ⟨_, rfl⟩
    have hvalue : sum.value = a.value + p256 := by
      rw [← value_bigHexP256] at hlt ⊢
      exact hsum ▸ Number.value_add hlt
    have hint : sum.toInt = sum.value := toInt_of_sign_eq_false (hsum ▸ hsign)
    rw [← hsum, toInt_divideByTwo256 (by omega), hint, hvalue, toInt_of_sign_eq_false hsign, Nat.cast_add]
  case isFalse hsign =>
    have hneg : a.sign = true := Bool.eq_true_of_not_eq_false hsign
    split
    case isTrue hgt =>
      have hlt := hgreater.mp hgt
      obtain ⟨diff, hdiff⟩ : ∃ diff : BigHex256, diff = { a with num := a.num.sub bigHexP256.num } := ⟨_, rfl⟩
      have hvalue : diff.value = a.value - p256 := by
        rw [← value_bigHexP256] at hlt ⊢
        exact hdiff ▸ Number.value_sub (Nat.le_of_lt hlt)
      have hint : diff.toInt = -diff.value := toInt_of_sign_eq_true (hdiff ▸ hneg)
      rw [← hdiff, toInt_divideByTwo256 (by omega), hint, hvalue, toInt_of_sign_eq_true hneg]
      omega
    case isFalse hle =>
      have hle : a.value ≤ p256 := Nat.le_of_not_lt (mt hgreater.mpr hle)
      have hvalue : (subtractBigHex256 bigHexP256 a false).value = p256 - a.value := value_addP256 hle
      have hint : (subtractBigHex256 bigHexP256 a false).toInt = (subtractBigHex256 bigHexP256 a false).value :=
        toInt_of_sign_eq_false rfl
      rw [toInt_divideByTwo256 (by omega), hint, hvalue, toInt_of_sign_eq_true hneg]
      omega

theorem hasLength_addPdiv2_256 (a : BigHex256) : (addPdiv2_256 a).HasLength := by
  rw [addPdiv2_256]
  split
  · exact hasLength_setBigNumberLength256 _
  · split <;> exact hasLength_setBigNumberLength256 _

theorem hasLength_subtractFromSelfBigHexSign256 (a b : BigHex256) :
    (subtractFromSelfBigHexSign256 a b).HasLength := by
  rw [subtractFromSelfBigHexSign256]
  split <;> split
  · split <;> exact hasLength_setBigNumberLength256 _
  · exact hasLength_setBigNumberLength256 _
  · exact hasLength_setBigNumberLength256 _
  · split <;> exact hasLength_setBigNumberLength256 _

/-- Where the comparison of two zeros is misled by a length, either difference is zero. -/
theorem isGreaterThanOrEqual256_cases (ha : a.HasLength) (hb : b.HasLength) :
    isGreaterThanOrEqual256 a b = true ∧ b.value ≤ a.value ∨
      isGreaterThanOrEqual256 a b = false ∧ a.value ≤ b.value := by
  by_cases hpos : 0 < a.value ∨ 0 < b.value
  · have hiff := isGreaterThanOrEqual256_iff ha hb hpos
    cases hge : isGreaterThanOrEqual256 a b with
    | true => exact .inl ⟨rfl, hiff.mp hge⟩
    | false => exact .inr ⟨rfl, Nat.le_of_not_le fun hle => Bool.false_ne_true (hge.symm.trans (hiff.mpr hle))⟩
  · cases isGreaterThanOrEqual256 a b with
    | true => exact .inl ⟨rfl, by omega⟩
    | false => exact .inr ⟨rfl, by omega⟩

theorem toInt_subtractFromSelfBigHexSign256 (ha : a.HasLength) (hb : b.HasLength)
    (hlt : a.value + b.value < radix ^ 9) :
    (subtractFromSelfBigHexSign256 a b).toInt = a.toInt - b.toInt := by
  have hsum := value_add2SelfBigHex256 hlt
  have hsumSign : (add2SelfBigHex256 a b).sign = a.sign := rfl
  have hselfSign : (subtractFromSelfBigHex256 a b).sign = a.sign := rfl
  rw [subtractFromSelfBigHexSign256]
  split
  case isTrue hsignA =>
    split
    case isTrue hsignB =>
      rw [toInt_of_sign_eq_false hsignA, toInt_of_sign_eq_false hsignB]
      obtain ⟨hge, hle⟩ | ⟨hge, hle⟩ := isGreaterThanOrEqual256_cases ha hb
      · rw [if_pos hge, toInt_of_sign_eq_false (hselfSign.trans hsignA), value_subtractFromSelfBigHex256 hle]
        omega
      · rw [hge, if_neg Bool.false_ne_true, toInt_of_sign_eq_true rfl, value_subtractBigHex256 hle]
        omega
    case isFalse hsignB =>
      have hnegB : b.sign = true := Bool.eq_true_of_not_eq_false hsignB
      rw [toInt_of_sign_eq_false hsignA, toInt_of_sign_eq_true hnegB,
        toInt_of_sign_eq_false (hsumSign.trans hsignA), hsum]
      omega
  case isFalse hsignA =>
    have hnegA : a.sign = true := Bool.eq_true_of_not_eq_false hsignA
    split
    case isTrue hsignB =>
      rw [toInt_of_sign_eq_true hnegA, toInt_of_sign_eq_false hsignB, toInt_of_sign_eq_true (hsumSign.trans hnegA),
        hsum]
      omega
    case isFalse hsignB =>
      have hnegB : b.sign = true := Bool.eq_true_of_not_eq_false hsignB
      rw [toInt_of_sign_eq_true hnegA, toInt_of_sign_eq_true hnegB]
      obtain ⟨hge, hle⟩ | ⟨hge, hle⟩ := isGreaterThanOrEqual256_cases hb ha
      · rw [if_pos hge, toInt_of_sign_eq_false rfl, value_subtractBigHex256 hle]
        omega
      · rw [hge, if_neg Bool.false_ne_true, toInt_of_sign_eq_true (hselfSign.trans hnegA),
          value_subtractFromSelfBigHex256 hle]
        omega

end BigHex256

end Best1307.Ecc
