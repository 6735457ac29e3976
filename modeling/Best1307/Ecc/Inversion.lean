import Best1307.Ecc.ModP
import Best1307.Ecc.Prime
import Best1307.Lib.BinaryEuclid
import Best1307.Lib.While

/-!
# Inverses modulo the prime

`ecc_p256.c`: the inverse is worked out with halves and differences of signed numbers. In the end the coefficient is
reduced. A negative one is taken from the prime, once a multiple of the prime has been added that its ninth word tells.
-/

namespace Best1307.Ecc

open Words (Number)
open BinaryEuclid (strip subtract coefficient halfMod Bounded Ahead Tells)

namespace BigHex256

/-- `u` with `A`, or `v` with `C` -/
structure Side where
  number : BigHex256
  coeff : BigHex256

/-- The variables of `bigHexInversion256`: `u` and `A`, `v` and `C`. -/
structure Registers where
  uA : Side
  vC : Side

/-- The body of the loops of the steps 2.1 and 2.2 -/
def halve (x : Side) : Side :=
  { number := divideByTwo256 x.number
    coeff := if x.coeff.isEven then divideByTwo256 x.coeff else addPdiv2_256 x.coeff }

/-- Step 2.3 -/
def subtractSmaller (s : Registers) : Registers :=
  if isGreaterThanOrEqual256 s.uA.number s.vC.number then
    { s with
      uA := { number := subtractFromSelfBigHex256 s.uA.number s.vC.number
              coeff := subtractFromSelfBigHexSign256 s.uA.coeff s.vC.coeff } }
  else
    { s with
      vC := { number := subtractFromSelfBigHex256 s.vC.number s.uA.number
              coeff := subtractFromSelfBigHexSign256 s.vC.coeff s.uA.coeff } }

def Side.isEven (x : Side) : Bool := x.number.isEven

/-- Steps 2.1 and 2.2 -/
def halveWhileEven (fuel : Nat) (x : Side) : Option Side := whileLoop Side.isEven (fun x => some (halve x)) fuel x

/-- The body of the loop of step 2 -/
def turn (fuel : Nat) (s : Registers) : Option Registers :=
  (halveWhileEven fuel s.uA).bind fun uA => (halveWhileEven fuel s.vC).map fun vC => subtractSmaller ⟨uA, vC⟩

/-- `u` is not zero. -/
def Registers.isRunning (s : Registers) : Bool := s.uA.number.len != 0

def ofWord (w : Word) : BigHex256 := ⟨⟨[0, 0, 0, 0, 0, 0, 0, 0, w], rfl⟩, 1, false⟩

/-- Step 1 -/
def start (a : BigHex256) : Registers := ⟨⟨{ a with sign := false }, ofWord 1⟩, ⟨bigHexP256, ofWord 0⟩⟩

/-- Step 3 -/
def reduce (C : BigHex256) : BigHex256 :=
  if C.sign = false then if isGreaterThan256 bigHexP256 C then C else specialModP256 C else specialModP256 C

/-- `bigHexInversion256`, if none of its loops takes more than `fuel` turns. -/
def bigHexInversion256 (fuel : Nat) (a : BigHex256) : Option BigHex256 :=
  (whileLoop Registers.isRunning (turn fuel) fuel (start a)).map fun s => reduce s.vC.coeff

/-- What the inversion of `a` should yield. -/
def IsInverse (r a : BigHex256) : Prop := r.sign = false ∧ r.value < p256 ∧ r.value * a.value % p256 = 1

instance (r a : BigHex256) : Decidable (r.IsInverse a) := inferInstanceAs (Decidable (_ ∧ _))

end BigHex256

/-- A negative coefficient that is below the negative of the prime even when the multiple is added. -/
def Spoiled (C : Int) : Prop := C < 0 ∧ p256 < C.natAbs - C.natAbs / 2 ^ 256 * p256

namespace BigHex256

/-! ### The number of turns -/

theorem halveWhileEven_mono {fuel fuel' : Nat} (hfuel : fuel ≤ fuel') {x y : Side}
    (h : halveWhileEven fuel x = some y) : halveWhileEven fuel' x = some y :=
  whileLoop_mono (fun _ _ h => h) hfuel h

theorem turn_mono {fuel fuel' : Nat} (hfuel : fuel ≤ fuel') {s t : Registers} (h : turn fuel s = some t) :
    turn fuel' s = some t := by
  obtain ⟨uA, huA, hrest⟩ := Option.bind_eq_some_iff.mp h
  obtain ⟨vC, hvC, ht⟩ := Option.map_eq_some_iff.mp hrest
  rw [turn, halveWhileEven_mono hfuel huA, Option.bind_some, halveWhileEven_mono hfuel hvC, Option.map_some, ht]

theorem bigHexInversion256_mono {fuel fuel' : Nat} (hfuel : fuel ≤ fuel') {a r : BigHex256}
    (h : bigHexInversion256 fuel a = some r) : bigHexInversion256 fuel' a = some r := by
  obtain ⟨s, hs, hr⟩ := Option.map_eq_some_iff.mp h
  rw [bigHexInversion256, whileLoop_mono (fun _ _ => turn_mono hfuel) hfuel hs, Option.map_some, hr]

/-! ### What the variables stand for -/

/-- The number and the coefficient are these. -/
structure Side.Stands (x : Side) (p : Nat × Int) : Prop where
  number : x.number.value = p.1
  coeff : x.coeff.toInt = p.2
  numberLen : x.number.len = x.number.num.sigLength
  coeffLen : x.coeff.HasLength

variable {x y : Side} {p q : Nat × Int}

theorem Side.Stands.hasLength (hx : x.Stands p) : x.number.HasLength := .inl hx.numberLen

theorem Side.Stands.coeff_value (hx : x.Stands p) : x.coeff.value = p.2.natAbs := by
  rw [← hx.coeff, natAbs_toInt]

theorem isEven_number (hx : x.Stands p) : x.isEven = true ↔ p.1 % 2 = 0 := by
  rw [Side.isEven, isEven_iff, hx.number]

theorem isEven_coeff (hx : x.Stands p) : x.coeff.isEven = true ↔ p.2 % 2 = 0 := by
  rw [isEven_iff, hx.coeff_value]
  omega

theorem isRunning_iff {s : Registers} (hx : s.uA.Stands p) : s.isRunning = true ↔ p.1 ≠ 0 := by
  have hsig := @Number.sigLength_le_iff radix elements _ s.uA.number.num 0
  have hvalue : s.uA.number.num.value = p.1 := hx.number
  rw [hvalue, pow_zero] at hsig
  rw [Registers.isRunning, bne_iff_ne, hx.numberLen]
  omega

theorem two_mul_p256_lt : 2 * p256 < radix ^ 9 := by decide

/-- The coefficients stay within nine words. -/
theorem Side.Stands.halve (hx : x.Stands p) (hsmall : 2 * p.2.natAbs ≤ radix ^ 9) :
    (halve x).Stands (p.1 / 2, halfMod p256 p.2) := by
  have hnumber : (divideByTwo256 x.number).value = p.1 / 2 := by rw [value_divideByTwo256, hx.number]
  have hcoeff : (BigHex256.halve x).coeff.toInt = halfMod p256 p.2 ∧ (BigHex256.halve x).coeff.HasLength := by
    rw [BigHex256.halve]
    dsimp only
    have hvalue := hx.coeff_value
    by_cases hcoeff : p.2 % 2 = 0
    · rw [if_pos ((isEven_coeff hx).mpr hcoeff), halfMod, if_pos hcoeff]
      have hhalf := @toInt_divideByTwo256 x.coeff (by omega)
      rw [hx.coeff] at hhalf
      exact ⟨by omega, hasLength_setBigNumberLength256 _⟩
    · rw [if_neg (mt (isEven_coeff hx).mp hcoeff), halfMod, if_neg hcoeff]
      have hroom : x.coeff.value + p256 < radix ^ 9 := by
        have hbound := two_mul_p256_lt
        omega
      have hhalf := toInt_addPdiv2_256 hx.coeffLen (by omega) hroom
      rw [hx.coeff] at hhalf
      exact ⟨by omega, hasLength_addPdiv2_256 _⟩
  exact ⟨hnumber, hcoeff.1, rfl, hcoeff.2⟩

theorem halveWhileEven_stands {fuel : Nat} (hx : x.Stands p) (hpos : p.1 ≠ 0) (hfuel : p.1 < 2 ^ fuel)
    (hsmall : 2 * p.2.natAbs ≤ radix ^ 9) :
    ∃ x', halveWhileEven fuel x = some x' ∧ x'.Stands (strip p256 p) := by
  have hguard := isEven_number hx
  induction fuel generalizing x p with
  | zero => exact absurd (Nat.lt_one_iff.mp hfuel) hpos
  | succ fuel ih =>
      by_cases heven : p.1 % 2 = 0
      · have hhalf := hx.halve hsmall
        have hnext : 2 * (halfMod p256 p.2).natAbs ≤ radix ^ 9 := by
          have hle := BinaryEuclid.natAbs_halfMod_le p256_odd p.2
          have hbound := two_mul_p256_lt
          omega
        rw [pow_succ] at hfuel
        rw [halveWhileEven, @whileLoop_of_true _ _ (fun x => some (halve x)) _ _ _ (hguard.mpr heven) rfl,
          BinaryEuclid.strip_of_even hpos heven]
        apply ih hhalf _ _ hnext (isEven_number hhalf)
        · show p.1 / 2 ≠ 0
          omega
        · show p.1 / 2 < 2 ^ fuel
          omega
      · have hodd : x.isEven = false := Bool.eq_false_iff.mpr (mt hguard.mp heven)
        rw [halveWhileEven, whileLoop_of_false hodd, BinaryEuclid.strip_of_odd (by omega)]
        exact ⟨x, rfl, hx⟩

theorem subtractSmaller_stands (hx : x.Stands p) (hy : y.Stands q) (hpos : p.1 ≠ 0)
    (hsmall : p.2.natAbs + q.2.natAbs < radix ^ 9) :
    (subtractSmaller ⟨x, y⟩).uA.Stands (subtract p q).1 ∧ (subtractSmaller ⟨x, y⟩).vC.Stands (subtract p q).2 := by
  have hge : isGreaterThanOrEqual256 x.number y.number = true ↔ q.1 ≤ p.1 := by
    rw [isGreaterThanOrEqual256_iff hx.hasLength hy.hasLength (.inl (by rw [hx.number]; omega)), hx.number, hy.number]
  rw [← hx.coeff_value, ← hy.coeff_value] at hsmall
  rw [subtractSmaller, subtract]
  by_cases hle : q.1 ≤ p.1
  · rw [if_pos (hge.mpr hle), if_pos hle]
    refine ⟨⟨?_, ?_, rfl, hasLength_subtractFromSelfBigHexSign256 _ _⟩, hy⟩
    · rw [← hx.number, ← hy.number] at hle ⊢
      exact value_subtractFromSelfBigHex256 hle
    · rw [← hx.coeff, ← hy.coeff]
      exact toInt_subtractFromSelfBigHexSign256 hx.coeffLen hy.coeffLen hsmall
  · rw [if_neg (mt hge.mp hle), if_neg hle]
    refine ⟨hx, ⟨?_, ?_, rfl, hasLength_subtractFromSelfBigHexSign256 _ _⟩⟩
    · rw [← hx.number, ← hy.number] at hle ⊢
      exact value_subtractFromSelfBigHex256 (Nat.le_of_not_le hle)
    · rw [← hx.coeff, ← hy.coeff]
      exact toInt_subtractFromSelfBigHexSign256 hy.coeffLen hx.coeffLen (Nat.add_comm _ _ ▸ hsmall)

/-! ### The loop -/

/-- As many turns as there may be, and some more. -/
theorem coeff_lt {n : Nat} (hn : n ≤ 2 ^ 20) : 2 * (n * p256) < radix ^ 9 := by
  apply Nat.lt_of_le_of_lt (Nat.mul_le_mul_left 2 (Nat.mul_le_mul_right p256 hn))
  decide

theorem two_mul_natAbs_le {n : Nat} (h : Bounded p256 n p) (hn : n ≤ 2 ^ 20) : 2 * p.2.natAbs ≤ radix ^ 9 := by
  have hlt := coeff_lt hn
  rcases h with ⟨-, hle⟩ | ⟨-, hle⟩ <;> omega

theorem turn_stands {fuel n k : Nat} {s : Registers} (hx : s.uA.Stands p) (hy : s.vC.Stands q)
    (hahead : Ahead p256 k n p q) (hpos : p.1 ≠ 0) (hn : 1 ≤ n) (hlt : n < 2 ^ 20) (hp : p.1 < 2 ^ fuel)
    (hq : q.1 < 2 ^ fuel) :
    ∃ s', turn fuel s = some s' ∧ s'.uA.Stands (subtract (strip p256 p) (strip p256 q)).1 ∧
      s'.vC.Stands (subtract (strip p256 p) (strip p256 q)).2 := by
  obtain ⟨x', hx', hstandsx⟩ := halveWhileEven_stands hx hpos hp (two_mul_natAbs_le hahead.fst (Nat.le_of_lt hlt))
  obtain ⟨y', hy', hstandsy⟩ :=
    halveWhileEven_stands hy hahead.pos hq (two_mul_natAbs_le hahead.snd (Nat.le_of_lt hlt))
  refine ⟨subtractSmaller ⟨x', y'⟩, ?_, ?_⟩
  · rw [turn, hx', Option.bind_some, hy', Option.map_some]
  · have hodd := @BinaryEuclid.strip_odd p256 p hpos
    have hcoeffx := hahead.fst.strip p256_odd hn hpos
    have hcoeffy := hahead.snd.strip p256_odd hn hahead.pos
    have hbound := @coeff_lt (n + 1) hlt
    apply subtractSmaller_stands hstandsx hstandsy
    · omega
    · omega

theorem whileLoop_ended {fuel k : Nat} {s : Registers} (hx : s.uA.Stands p) (hy : s.vC.Stands q) (hzero : p.1 = 0) :
    ∃ s', whileLoop Registers.isRunning (turn fuel) k s = some s' ∧
      s'.vC.coeff.toInt = coefficient p256 p q ∧ s'.vC.coeff.HasLength := by
  have hended : s.isRunning = false := Bool.eq_false_iff.mpr fun hrunning => (isRunning_iff hx).mp hrunning hzero
  rw [whileLoop_of_false hended, BinaryEuclid.coefficient_of_zero hzero]
  exact ⟨s, rfl, hy.coeff, hy.coeffLen⟩

/-- The loop ends with the coefficient of the algorithm in `C`. -/
theorem whileLoop_turn {fuel k n : Nat} {s : Registers} (hx : s.uA.Stands p) (hy : s.vC.Stands q)
    (hahead : Ahead p256 k n p q) (hn : 1 ≤ n) (hlt : n + k < 2 ^ 20) (hp : p.1 < 2 ^ fuel) (hq : q.1 < 2 ^ fuel) :
    ∃ s', whileLoop Registers.isRunning (turn fuel) k s = some s' ∧
      s'.vC.coeff.toInt = coefficient p256 p q ∧ s'.vC.coeff.HasLength := by
  induction k generalizing s p q n with
  | zero => exact whileLoop_ended hx hy hahead.not_zero
  | succ k ih =>
      by_cases hzero : p.1 = 0
      · exact whileLoop_ended hx hy hzero
      · obtain ⟨s', hs', hx', hy'⟩ := turn_stands hx hy hahead hzero hn (by omega) hp hq
        have hle := BinaryEuclid.subtract_le p256 hzero hahead.pos
        have hrunning := (isRunning_iff hx).mpr hzero
        rw [@whileLoop_of_true _ _ (turn fuel) _ _ _ hrunning hs',
          BinaryEuclid.coefficient_of_pos hzero hahead.pos]
        exact ih hx' hy' (hahead.subtract p256_odd hn hzero) (Nat.le_add_left 1 n) (by omega)
          (Nat.lt_of_le_of_lt hle.1 hp) (Nat.lt_of_le_of_lt hle.2 hq)

/-! ### The reduction at the end -/

theorem mul_mod_eq_one {r a : Nat} (h : (p256 : Int) ∣ (r : Int) * a - 1) : r * a % p256 = 1 := by
  have hcast : (p256 : Int) ∣ ((r * a : Nat) : Int) - ((1 : Nat) : Int) := by
    rw [Nat.cast_mul, Nat.cast_one]
    exact h
  have hmod : 1 % p256 = r * a % p256 := Nat.modEq_iff_dvd.mpr hcast
  rw [← hmod]
  decide

theorem not_spoiled_of_nonneg {C : Int} (h : 0 ≤ C) : ¬Spoiled C := fun hspoiled => absurd hspoiled.1 (Int.not_lt.mpr h)

theorem reduce_of_sign_eq_false {C a : BigHex256} (hlen : C.HasLength) (hsign : C.sign = false)
    (hone : (p256 : Int) ∣ C.toInt * a.value - 1) : (reduce C).IsInverse a := by
  rw [toInt_of_sign_eq_false hsign] at hone
  have hmod := mul_mod_eq_one hone
  have hgreater : isGreaterThan256 bigHexP256 C = true ↔ C.value < p256 := by
    rw [isGreaterThan256_iff hasLength_bigHexP256 hlen (.inl (by decide)), value_bigHexP256]
  rw [reduce, if_pos hsign]
  by_cases hlt : C.value < p256
  · rw [if_pos (hgreater.mpr hlt)]
    exact ⟨hsign, hlt, hmod⟩
  · rw [if_neg (mt hgreater.mp hlt)]
    obtain ⟨hvalue, hsign', -⟩ := specialModP256_of_sign_eq_false hlen hsign
    refine ⟨hsign', ?_, ?_⟩
    · rw [hvalue]
      exact Nat.mod_lt _ (by decide)
    · rw [hvalue, Nat.mod_mul_mod, hmod]

/-- Of a negative coefficient, what is left when multiples of the prime are added is taken from the prime. -/
theorem reduce_of_sign_eq_true {C a : BigHex256} (hlen : C.HasLength) (hsign : C.sign = true)
    (hone : (p256 : Int) ∣ C.toInt * a.value - 1) :
    (reduce C).IsInverse a ↔ C.value - C.value / radix ^ 8 * p256 ≤ p256 := by
  obtain ⟨hvalue, -, -⟩ := subtractNModP_spec hlen
  obtain ⟨hle, hlt⟩ := sub_mul_p256_lt C.value_lt
  rw [toInt_of_sign_eq_true hsign] at hone
  have hreduce : reduce C = addP256 C.subtractNModP := by
    rw [reduce, if_neg (by rw [hsign]; exact Bool.false_ne_true.symm), specialModP256_of_sign_eq_true hsign hlen]
  rw [hreduce]
  constructor
  · intro hinverse
    -- else the borrow is lost, and the result is almost as large as nine words can be
    by_contra hgt
    have hsum := @value_addP256_of_lt C.subtractNModP (by rw [hvalue]; exact Nat.not_le.mp hgt)
    have hbound := two_mul_p256_lt
    have hsmall := hinverse.2.1
    rw [hvalue] at hsum
    omega
  · intro hle'
    have hresult : (addP256 C.subtractNModP).value = p256 - (C.value - C.value / radix ^ 8 * p256) := by
      rw [value_addP256 (by rw [hvalue]; exact hle'), hvalue]
    have hcast : ((p256 - (C.value - C.value / radix ^ 8 * p256) : Nat) : Int) =
        -C.value + (1 + (C.value / radix ^ 8 : Nat)) * p256 := by
      rw [Nat.cast_sub hle', Nat.cast_sub hle, Nat.cast_mul]
      ring
    have hdvd : (p256 : Int) ∣ ((p256 - (C.value - C.value / radix ^ 8 * p256) : Nat) : Int) * a.value - 1 := by
      rw [hcast, add_mul, add_sub_right_comm]
      apply dvd_add hone
      rw [mul_assoc, mul_left_comm]
      exact dvd_mul_right _ _
    refine ⟨rfl, ?_, ?_⟩
    · rw [hresult]
      apply Nat.lt_of_le_of_ne (Nat.sub_le _ _)
      intro hall
      rw [hall] at hdvd
      have hunit : (p256 : Int) ∣ 1 := (dvd_sub_right (dvd_mul_right _ _)).mp hdvd
      exact absurd (Int.natCast_dvd_natCast.mp hunit) (by decide)
    · rw [hresult]
      exact mul_mod_eq_one hdvd

/-- A coefficient whose product with `a` is congruent to one is reduced to an inverse, unless it is spoiled. -/
theorem reduce_isInverse_iff {C a : BigHex256} (hlen : C.HasLength) (hone : (p256 : Int) ∣ C.toInt * a.value - 1) :
    (reduce C).IsInverse a ↔ ¬Spoiled C.toInt := by
  cases hsign : C.sign with
  | false =>
      refine iff_of_true (reduce_of_sign_eq_false hlen hsign hone) (not_spoiled_of_nonneg ?_)
      rw [toInt_of_sign_eq_false hsign]
      exact Int.natCast_nonneg _
  | true =>
      rw [reduce_of_sign_eq_true hlen hsign hone, Spoiled, natAbs_toInt, ← Nat.not_lt, not_iff_not]
      have hpow : radix ^ 8 = 2 ^ 256 := by decide
      rw [hpow]
      refine (and_iff_right_of_imp fun hlt => ?_).symm
      rw [toInt_of_sign_eq_true hsign]
      omega

theorem start_stands {a : BigHex256} (hlen : a.HasLength) (hpos : 0 < a.value) :
    (start a).uA.Stands (a.value, 1) ∧ (start a).vC.Stands (p256, 0) := by
  have hsig : a.len = a.num.sigLength := hlen.resolve_right fun hzero => absurd hzero.1 (Nat.ne_of_gt hpos)
  have hA : (ofWord 1).toInt = 1 ∧ (ofWord 1).len = (ofWord 1).num.sigLength := by decide
  have hv : bigHexP256.len = bigHexP256.num.sigLength := by decide
  have hC : (ofWord 0).toInt = 0 ∧ (ofWord 0).num.value = 0 := by decide
  exact ⟨⟨rfl, hA.1, hsig, .inl hA.2⟩, ⟨value_bigHexP256, hC.1, hv, .inr ⟨hC.2, rfl⟩⟩⟩

theorem start_ahead {a k : Nat} (hlt : a < p256) (hk : p256 < 2 ^ k) : Ahead p256 (k + 1) 2 (a, 1) (p256, 0) := by
  have hodd := p256_odd
  have hone : 1 ≤ 2 * p256 ∧ 2 * 1 ≤ 2 * p256 := by decide
  refine ⟨by decide, ?_, .inl ⟨hodd, Nat.zero_le _⟩, fun hpos => ?_⟩
  · rcases Nat.mod_two_eq_zero_or_one a with heven | hodd'
    · exact .inr ⟨heven, hone.1⟩
    · exact .inl ⟨hodd', hone.2⟩
  · have hle : (strip p256 (a, 1)).1 ≤ a := BinaryEuclid.strip_le hpos
    rw [@BinaryEuclid.strip_of_odd p256 (p256, 0) hodd, pow_succ]
    show (strip p256 (a, 1)).1 + p256 < 2 ^ k * 2
    omega

/-- Whatever number is to be inverted, the loops end, with the coefficient of the algorithm. -/
theorem bigHexInversion256_eq_reduce (a : BigHex256) (hlen : a.HasLength) (hpos : 0 < a.value) (hlt : a.value < p256) :
    ∃ C : BigHex256, (∀ fuel, 257 ≤ fuel → bigHexInversion256 fuel a = some (reduce C)) ∧
      ((reduce C).IsInverse a ↔ ¬Spoiled C.toInt) ∧ C.toInt = coefficient p256 (a.value, 1) (p256, 0) := by
  have hcoprime : Nat.Coprime a.value p256 := by
    apply Nat.Coprime.symm
    rw [prime_p256.coprime_iff_not_dvd]
    exact fun hdvd => absurd (Nat.le_of_dvd hpos hdvd) (Nat.not_le.mpr hlt)
  have hone := @BinaryEuclid.coefficient_mul p256 a.value (a.value, 1) (p256, 0) p256_odd (by decide) hcoprime
    ⟨0, by ring⟩ ⟨-1, by ring⟩
  have hstart := start_stands hlen hpos
  have hahead : Ahead p256 257 2 (a.value, 1) (p256, 0) := start_ahead hlt (by decide)
  have hword : p256 < 2 ^ 256 := by decide
  have hbound : p256 < 2 ^ 257 := Nat.lt_trans hword (Nat.pow_lt_pow_right (by decide) (Nat.lt_succ_self 256))
  obtain ⟨s, hs, hC, hlenC⟩ := whileLoop_turn hstart.1 hstart.2 hahead (by decide) (by decide)
    (Nat.lt_trans hlt hbound) hbound
  refine ⟨s.vC.coeff, fun fuel hfuel => bigHexInversion256_mono hfuel ?_, ?_, hC⟩
  · rw [bigHexInversion256, hs, Option.map_some]
  · rw [← hC] at hone
    exact reduce_isInverse_iff hlenC hone

/-- Whatever number is to be inverted, the loops end, and the result is its inverse exactly if the coefficient of the
algorithm is not spoiled. -/
theorem bigHexInversion256_isInverse_iff (a : BigHex256) (hlen : a.HasLength) (hpos : 0 < a.value)
    (hlt : a.value < p256) :
    ∃ r, (∀ fuel, 257 ≤ fuel → bigHexInversion256 fuel a = some r) ∧
      (r.IsInverse a ↔ ¬Spoiled (coefficient p256 (a.value, 1) (p256, 0))) := by
  obtain ⟨C, hC, hinverse, hcoefficient⟩ := bigHexInversion256_eq_reduce a hlen hpos hlt
  exact ⟨reduce C, hC, hcoefficient ▸ hinverse⟩

theorem bigHexInversion256_ofWord_seven : ∃ r, (∀ fuel, 257 ≤ fuel → bigHexInversion256 fuel (ofWord 7) = some r) ∧
    r.IsInverse (ofWord 7) := by
  have hlen : (ofWord 7).HasLength := .inl (by decide)
  obtain ⟨r, hr, -⟩ := bigHexInversion256_isInverse_iff (ofWord 7) hlen (by decide) (by decide)
  have hinverse : (bigHexInversion256 257 (ofWord 7)).all (·.IsInverse (ofWord 7)) = true := by decide +kernel
  rw [hr 257 (Nat.le_refl _)] at hinverse
  exact ⟨r, hr, of_decide_eq_true hinverse⟩

/-- The coefficient of this number is less than the negative of the prime, but not of the ninth word. -/
def spoiling : BigHex256 :=
  ⟨⟨[0x00000000, 0x24de41e4, 0x1282871e, 0x041835da, 0x9c8cc3d3, 0x7bb427a9, 0x28f6b252, 0xf2cc1725, 0xce8b1535], rfl⟩,
    8, false⟩

theorem not_isInverse_spoiling : ¬∃ fuel r, bigHexInversion256 fuel spoiling = some r ∧ r.IsInverse spoiling := by
  intro ⟨fuel, r, hr, hinverse⟩
  have hwrong : (bigHexInversion256 257 spoiling).any (¬·.IsInverse spoiling) = true := by decide +kernel
  obtain ⟨r', hr', hwrong'⟩ := (Option.any_eq_true _ _).mp hwrong
  have hsame := bigHexInversion256_mono (Nat.le_max_left fuel 257) hr
  rw [bigHexInversion256_mono (Nat.le_max_right fuel 257) hr'] at hsame
  exact of_decide_eq_true hwrong' (Option.some.inj hsame ▸ hinverse)

end BigHex256

end Best1307.Ecc
