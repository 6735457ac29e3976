import Best1307.Ecc.BigHex

/-!
# Numbers modulo the prime

`ecc_p256.c`: sums, differences and nine words that are reduced to less than the prime. Of a number that has a ninth
word, the multiple of the prime that this word tells is taken away first.
-/

namespace Best1307.Ecc

open Words (Number)

namespace BigHex256

/-! ### The reduction of nine words -/

/-- `MultiplyByU32ModP256`: the multiple of the prime, written down word by word. -/
def multiplyByU32ModP256 (N : Word) : BigHex256 :=
  let tempVal : Word := (0xFFFFFFFF - N) + 1
  { num := ⟨[N - 1, tempVal, N, 0x00, 0x00, N - 1, 0xFFFFFFFF, 0xFFFFFFFF, tempVal], rfl⟩
    sign := false
    len := if N - 1 ≠ 0 then 0x9 else 0x8 }

/-- `GETMOSTSIGNIGICANTU32_256` -/
def getMostSignificantU32_256 (a : BigHex256) : Word := a.num.words.getD (elements - a.len) 0

def needsModP (a : BigHex256) : Prop :=
  a.sign = false ∧ isGreaterThanOrEqual256 a bigHexP256 = true ∨ a.sign = true

instance (a : BigHex256) : Decidable a.needsModP := inferInstanceAs (Decidable (_ ∨ _))

/-- The first part of `specialModP256`: a number of more words than the prime loses a multiple of it. -/
def subtractNModP (a : BigHex256) : BigHex256 :=
  if bigHexP256.len < a.len then
    let NModP := multiplyByU32ModP256 a.getMostSignificantU32_256
    if a.sign = false then subtractFromSelfBigHexSign256 a NModP
    else { subtractFromSelfBigHexSign256 { a with sign := false } NModP with sign := true }
  else a

def specialModP256 (a : BigHex256) : BigHex256 :=
  if a.needsModP then
    let a := a.subtractNModP
    if a.needsModP then
      if a.sign = true then addP256 a else subtractFromSelfBigHex256 a bigHexP256
    else a
  else a

/-! ### Sums and differences -/

def addBigHexModP256 (a b : BigHex256) : BigHex256 :=
  let result := addBigHex256 a b
  if result.sign = false then
    if isGreaterThanOrEqual256 result bigHexP256 then subtractFromSelfBigHex256 result bigHexP256 else result
  else addP256 result

/-- The difference before it is reduced. -/
def subtractBigHexSign256 (a b : BigHex256) : BigHex256 :=
  if a.sign = false then
    if b.sign = false then
      if isGreaterThanOrEqual256 a b then subtractBigHex256 a b false else subtractBigHex256 b a true
    else { addBigHex256 a b with sign := false }
  else
    if b.sign = false then { addBigHex256 a b with sign := true }
    else if isGreaterThanOrEqual256 b a then subtractBigHex256 b a false else subtractBigHex256 a b true

def subtractBigHexMod256 (a b : BigHex256) : BigHex256 :=
  let result := subtractBigHexSign256 a b
  if result.sign = false then
    if isGreaterThanOrEqual256 result bigHexP256 then subtractFromSelfBigHex256 result bigHexP256 else result
  else addP256 result

variable {a b : BigHex256}

/-! ### The multiples of the prime -/

theorem val_sub_one {N : Word} (hN : 0 < N.val) : (N - 1).val = N.val - 1 := by
  have hone : (1 : Word) ≤ N := hN
  exact Fin.sub_val_of_le hone

theorem val_tempVal {N : Word} (hN : 0 < N.val) : (0xFFFFFFFF - N + 1 : Word).val = 4294967296 - N.val := by
  have hle : N ≤ (0xFFFFFFFF : Word) := Nat.le_of_lt_succ N.isLt
  have hsub : (0xFFFFFFFF - N : Word).val = 4294967295 - N.val := Fin.sub_val_of_le hle
  have hlt : N.val < 4294967296 := N.isLt
  have hsum : (0xFFFFFFFF - N + 1 : Word).val = ((0xFFFFFFFF - N : Word).val + 1) % 4294967296 := rfl
  rw [hsum, hsub, Nat.mod_eq_of_lt (by omega)]
  omega

theorem value_multiplyByU32ModP256 {N : Word} (hN : 0 < N.val) : (multiplyByU32ModP256 N).value = N * p256 := by
  have hlt : N.val < 4294967296 := N.isLt
  have hsub := val_sub_one hN
  have htemp := val_tempVal hN
  have hwords : (multiplyByU32ModP256 N).value =
      Words.value [N - 1, 0xFFFFFFFF - N + 1, N, 0x00, 0x00, N - 1, 0xFFFFFFFF, 0xFFFFFFFF, 0xFFFFFFFF - N + 1] := rfl
  rw [hwords]
  simp only [Words.value_cons, Words.value_nil, List.length_cons, List.length_nil, hsub, htemp, p256]
  norm_num
  omega

theorem hasLength_multiplyByU32ModP256 {N : Word} (hN : 0 < N.val) : (multiplyByU32ModP256 N).HasLength := by
  have hvalue : (multiplyByU32ModP256 N).num.value = N * p256 := value_multiplyByU32ModP256 hN
  have hlow : radix ^ 7 ≤ p256 ∧ radix ^ 8 ≤ 2 * p256 ∧ p256 < radix ^ 8 := by decide
  have hsub := val_sub_one hN
  have hsig {n : Nat} : (multiplyByU32ModP256 N).num.sigLength ≤ n ↔ N * p256 < radix ^ n := by
    rw [Number.sigLength_le_iff, hvalue]
  refine .inl ?_
  by_cases hone : N.val = 1
  · have hlen : (multiplyByU32ModP256 N).len = 8 := if_neg (by rw [not_not]; exact Fin.ext (by rw [hsub, hone]; rfl))
    have hle := (hsig (n := 8)).mpr (by rw [hone, Nat.one_mul]; exact hlow.2.2)
    have hgt := mt (hsig (n := 7)).mp (by rw [hone, Nat.one_mul]; exact Nat.not_lt_of_le hlow.1)
    omega
  · have hne : N - 1 ≠ 0 := fun hzero => by
      have := congrArg Fin.val hzero
      rw [hsub, Fin.val_zero] at this
      omega
    have hlen : (multiplyByU32ModP256 N).len = 9 := if_pos hne
    have hle : (multiplyByU32ModP256 N).num.sigLength ≤ 9 := (multiplyByU32ModP256 N).num.sigLength_le
    have htwo := Nat.mul_le_mul_right p256 (Nat.succ_le_of_lt (Nat.lt_of_le_of_ne hN (Ne.symm hone)))
    have hgt := mt (hsig (n := 8)).mp (Nat.not_lt_of_le (Nat.le_trans hlow.2.1 htwo))
    omega

/-! ### The reduction -/

/-- The multiple of the prime that the first word tells leaves less than twice the prime. -/
theorem sub_mul_p256_lt {v : Nat} (h : v < radix ^ 9) :
    v / radix ^ 8 * p256 ≤ v ∧ v - v / radix ^ 8 * p256 < 2 * p256 := by
  have hpow : radix ^ 8 = 2 ^ 256 := by decide
  have htop : v / radix ^ 8 < 4294967296 := Nat.div_lt_of_lt_mul h
  rw [hpow] at htop ⊢
  obtain ⟨top, hdiv⟩ : ∃ top, top = v / 2 ^ 256 := ⟨_, rfl⟩
  rw [← hdiv] at htop ⊢
  rw [p256]
  omega

theorem needsModP_iff (ha : a.HasLength) : a.needsModP ↔ a.sign = true ∨ p256 ≤ a.value := by
  have hpos : 0 < a.value ∨ 0 < bigHexP256.value := .inr (by decide)
  rw [needsModP, isGreaterThanOrEqual256_iff ha hasLength_bigHexP256 hpos, value_bigHexP256]
  cases a.sign <;> simp

theorem subtractFromSelfBigHexSign256_of_le (ha : a.HasLength) (hb : b.HasLength) (hsignA : a.sign = false)
    (hsignB : b.sign = false) (hpos : 0 < a.value) (hle : b.value ≤ a.value) :
    subtractFromSelfBigHexSign256 a b = subtractFromSelfBigHex256 a b := by
  rw [subtractFromSelfBigHexSign256, if_pos hsignA, if_pos hsignB,
    if_pos ((isGreaterThanOrEqual256_iff ha hb (.inl hpos)).mpr hle)]

theorem val_getMostSignificantU32_256 (ha : a.HasLength) (hlen : 8 < a.len) :
    a.getMostSignificantU32_256.val = a.value / radix ^ 8 ∧ 0 < a.value / radix ^ 8 := by
  have hnine : a.num.sigLength ≤ 9 := a.num.sigLength_le
  have hsig : a.len = a.num.sigLength := ha.resolve_right fun hone => by omega
  have hfirst : elements - a.len = 0 := Nat.sub_eq_zero_of_le (Nat.succ_le_of_lt hlen)
  have hge : ¬ a.value < radix ^ 8 := mt Number.sigLength_le_iff.mpr (by omega)
  rw [getMostSignificantU32_256, hfirst]
  exact ⟨a.num.val_first, Nat.div_pos (Nat.le_of_not_lt hge) (by decide)⟩

theorem subtractNModP_spec (ha : a.HasLength) :
    a.subtractNModP.value = a.value - a.value / radix ^ 8 * p256 ∧ a.subtractNModP.sign = a.sign ∧
      a.subtractNModP.HasLength := by
  rw [subtractNModP]
  split
  case isTrue hlen =>
    obtain ⟨htop, hpos⟩ := val_getMostSignificantU32_256 ha hlen
    have hmultiple := value_multiplyByU32ModP256 (htop ▸ hpos)
    have hlength := hasLength_multiplyByU32ModP256 (htop ▸ hpos)
    rw [htop] at hmultiple
    have hle := (sub_mul_p256_lt a.value_lt).1
    rw [← hmultiple] at hle ⊢
    have hvalue : 0 < a.value := Nat.lt_of_lt_of_le hpos (Nat.div_le_self _ _)
    split
    case isTrue hsign =>
      rw [subtractFromSelfBigHexSign256_of_le ha hlength hsign rfl hvalue hle]
      exact ⟨value_subtractFromSelfBigHex256 hle, rfl, hasLength_setBigNumberLength256 _⟩
    case isFalse hsign =>
      have hneg : a.sign = true := Bool.eq_true_of_not_eq_false hsign
      have ha' : ({ a with sign := false } : BigHex256).HasLength := ha
      dsimp only
      rw [subtractFromSelfBigHexSign256_of_le ha' hlength rfl rfl hvalue hle]
      exact ⟨value_subtractFromSelfBigHex256 hle, hneg.symm, hasLength_setBigNumberLength256 _⟩
  case isFalse hlen =>
    have hlt : a.value < radix ^ 8 :=
      Nat.lt_of_lt_of_le ha.value_lt (Nat.pow_le_pow_right (by decide) (Nat.le_of_not_lt hlen))
    rw [Nat.div_eq_of_lt hlt, Nat.zero_mul, Nat.sub_zero]
    exact ⟨rfl, rfl, ha⟩

theorem specialModP256_of_sign_eq_false (ha : a.HasLength) (hsign : a.sign = false) :
    (specialModP256 a).value = a.value % p256 ∧ (specialModP256 a).sign = false ∧ (specialModP256 a).HasLength := by
  have hneeds := needsModP_iff ha
  rw [specialModP256]
  split
  case isTrue =>
    obtain ⟨hvalue, hsign', hlength⟩ := subtractNModP_spec ha
    obtain ⟨hle, hlt⟩ := sub_mul_p256_lt a.value_lt
    rw [hsign] at hsign'
    have hmod : a.subtractNModP.value % p256 = a.value % p256 := by
      rw [Nat.mul_comm] at hvalue hle
      rw [hvalue, Nat.sub_mul_mod hle]
    rw [← hvalue] at hlt
    dsimp only
    split
    case isTrue hneeds' =>
      rw [if_neg (Bool.eq_false_iff.mp hsign')]
      have hge := ((needsModP_iff hlength).mp hneeds').resolve_left (by rw [hsign']; exact Bool.false_ne_true)
      rw [← value_bigHexP256] at hge
      have hdiff := value_subtractFromSelfBigHex256 hge
      rw [value_bigHexP256] at hge hdiff
      rw [hdiff, ← hmod, Nat.mod_eq_sub_mod hge, Nat.mod_eq_of_lt (by omega)]
      exact ⟨rfl, hsign', hasLength_setBigNumberLength256 _⟩
    case isFalse hneeds' =>
      have hlt' : a.subtractNModP.value < p256 :=
        Nat.lt_of_not_le fun hge => hneeds' ((needsModP_iff hlength).mpr (.inr hge))
      rw [← hmod, Nat.mod_eq_of_lt hlt']
      exact ⟨rfl, hsign', hlength⟩
  case isFalse hnot =>
    have hlt : a.value < p256 := Nat.lt_of_not_le fun hge => hnot (hneeds.mpr (.inr hge))
    rw [Nat.mod_eq_of_lt hlt]
    exact ⟨rfl, hsign, ha⟩

/-- Of a negative number, what is left of it is taken from the prime. -/
theorem specialModP256_of_sign_eq_true (hsign : a.sign = true) (ha : a.HasLength) :
    specialModP256 a = addP256 a.subtractNModP := by
  obtain ⟨-, hsign', -⟩ := subtractNModP_spec ha
  rw [hsign] at hsign'
  rw [specialModP256, if_pos (.inr hsign)]
  dsimp only
  rw [if_pos (.inr hsign'), if_pos hsign']

/-! ### Words without a sign -/

/-- The reduction of a number that is not negative, with every difference exact: none leaves a borrow behind. -/
structure Reduces (a : BigHex256) : Prop where
  multiple_eq : 8 < a.len → (multiplyByU32ModP256 a.getMostSignificantU32_256).value = a.value / radix ^ 8 * p256
  folded_add : a.subtractNModP.value + a.value / radix ^ 8 * p256 = a.value
  folded_lt : a.subtractNModP.value < 2 * p256
  corrected : (specialModP256 a).value = a.subtractNModP.value ∨
    (specialModP256 a).value + p256 = a.subtractNModP.value
  value_eq : (specialModP256 a).value = a.value % p256
  value_lt : (specialModP256 a).value < p256
  sign_eq : (specialModP256 a).sign = false

/-- What is congruent to a number below twice the prime is that number, or the prime less. -/
theorem eq_or_add_eq_of_lt_two_mul {v w : Nat} (hw : w < 2 * p256) (hv : v = w % p256) : v = w ∨ v + p256 = w := by
  rcases Nat.lt_or_ge w p256 with hlt | hge
  · exact .inl (hv.trans (Nat.mod_eq_of_lt hlt))
  · rw [Nat.mod_eq_sub_mod hge, Nat.mod_eq_of_lt (by omega)] at hv
    exact .inr (by omega)

theorem specialModP256_reduces (ha : a.HasLength) (hsign : a.sign = false) : a.Reduces := by
  obtain ⟨hvalue, hsign', -⟩ := specialModP256_of_sign_eq_false ha hsign
  obtain ⟨hfolded, -, -⟩ := subtractNModP_spec ha
  obtain ⟨hle, hlt⟩ := sub_mul_p256_lt a.value_lt
  have hpos : 0 < p256 := by decide
  have hmod : (specialModP256 a).value = a.subtractNModP.value % p256 := by
    rw [hvalue, hfolded, Nat.mul_comm, Nat.sub_mul_mod (Nat.mul_comm p256 _ ▸ hle)]
  rw [← hfolded] at hlt
  exact {
    multiple_eq := fun hlen => by
      obtain ⟨htop, htopPos⟩ := val_getMostSignificantU32_256 ha hlen
      rw [value_multiplyByU32ModP256 (htop ▸ htopPos), htop]
    folded_add := by rw [hfolded, Nat.sub_add_cancel hle]
    folded_lt := hlt
    corrected := eq_or_add_eq_of_lt_two_mul hlt hmod
    value_eq := hvalue
    value_lt := hvalue ▸ Nat.mod_lt _ hpos
    sign_eq := hsign' }

/-- The greatest number that nine words hold. -/
def allOnes : BigHex256 :=
  ⟨⟨[0xFFFFFFFF, 0xFFFFFFFF, 0xFFFFFFFF, 0xFFFFFFFF, 0xFFFFFFFF, 0xFFFFFFFF, 0xFFFFFFFF, 0xFFFFFFFF, 0xFFFFFFFF],
    rfl⟩, 9, false⟩

theorem allOnes_reduces : allOnes.Reduces := specialModP256_reduces (.inl (by decide)) rfl

end BigHex256

end Best1307.Ecc
