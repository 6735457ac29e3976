import Best1307.Lib.Homogeneous

/-!
# Multiples of points, evaluated

Over the field of a prime the coordinates of a point are kept as numbers, and every operation ends with a remainder, so
that multiples of points can be worked out. The formulas leave out the special cases; where one would apply there is no
result.
-/

namespace Best1307.Homogeneous

section

variable (p : Nat)

def subMod (a b : Nat) : Nat := (a + (p - b % p)) % p

def doubleMod (c : Homogeneous Nat) : Homogeneous Nat :=
  let W := 3 * ((c.X + c.Z) * subMod p c.X c.Z) % p
  let S := c.Y * c.Z % p
  let B := c.X * (c.Y * S) % p
  let H := subMod p (W ^ 2) (8 * B)
  ⟨2 * (H * S) % p, subMod p (W * subMod p (4 * B) H) (8 * (c.Y ^ 2 * S ^ 2)), 8 * S ^ 3 % p⟩

/-- The sum of two points that do not have the same `x` -/
def addMod (c d : Homogeneous Nat) : Homogeneous Nat :=
  let U := subMod p (d.Y * c.Z) (c.Y * d.Z)
  let V := subMod p (d.X * c.Z) (c.X * d.Z)
  let T := V ^ 2 * (c.X * d.Z) % p
  let A := subMod p (subMod p (U ^ 2 * (c.Z * d.Z)) (V ^ 3)) (2 * T)
  ⟨V * A % p, subMod p (U * subMod p T A) (V ^ 3 * (c.Y * d.Z)), V ^ 3 * (c.Z * d.Z) % p⟩

def sameXMod (c d : Homogeneous Nat) : Bool := d.X * c.Z % p == c.X * d.Z % p

def sameMod (c d : Homogeneous Nat) : Bool :=
  d.Z % p != 0 && sameXMod p c d && d.Y * c.Z % p == c.Y * d.Z % p

/-- For every bit the point is doubled, and `base` added if the bit is set. -/
def ladderMod (base : Homogeneous Nat) : (bits : List Bool) → Homogeneous Nat → Option (Homogeneous Nat)
  | [], c => some c
  | bit :: bits, c =>
      if c.Y % p = 0 then none
      else if bit then
        if sameXMod p (doubleMod p c) base then none
        else ladderMod base bits (addMod p (doubleMod p c) base)
      else ladderMod base bits (doubleMod p c)

end

/-- The number whose digits follow those of `m` -/
def ofBits (m : Nat) (bits : List Bool) : Nat := bits.foldl (fun m bit => 2 * m + bit.toNat) m

/-! ### The field -/

variable {F : Type*} [Field F] {p : Nat}

def toField (F : Type*) [Field F] (c : Homogeneous Nat) : Homogeneous F := ⟨c.X, c.Y, c.Z⟩

variable [CharP F p]

theorem cast_mod (n : Nat) : ((n % p : Nat) : F) = n := (CharP.cast_eq_mod F p n).symm

theorem cast_eq_iff (F : Type*) [Field F] (p : Nat) [CharP F p] {a b : Nat} : (a : F) = b ↔ a % p = b % p :=
  CharP.natCast_eq_natCast F p

theorem cast_subMod (hp : 0 < p) (a b : Nat) : ((subMod p a b : Nat) : F) = a - b := by
  have hle : b % p ≤ p := Nat.le_of_lt (Nat.mod_lt b hp)
  rw [subMod, cast_mod, Nat.cast_add, Nat.cast_sub hle, CharP.cast_eq_zero F p, cast_mod, zero_sub, sub_eq_add_neg]

theorem toField_doubleMod (hp : 0 < p) (c : Homogeneous Nat) :
    toField F (doubleMod p c) = double (toField F c) := by
  simp only [toField, doubleMod, double, doubleH, doubleB, doubleS, doubleW, cast_mod, cast_subMod hp, Nat.cast_mul,
    Nat.cast_add, Nat.cast_pow, Nat.cast_ofNat]

theorem toField_addMod (hp : 0 < p) (c d : Homogeneous Nat) :
    toField F (addMod p c d) = add (toField F c) (toField F d) := by
  simp only [toField, addMod, add, addA, addU, addV, cast_mod, cast_subMod hp, Nat.cast_mul, Nat.cast_pow,
    Nat.cast_ofNat]

/-! ### The points -/

variable {c d : Homogeneous Nat}

theorem sameXMod_iff (F : Type*) [Field F] [CharP F p] : sameXMod p c d = true ↔
    (toField F d).X * (toField F c).Z = (toField F c).X * (toField F d).Z := by
  rw [sameXMod, beq_iff_eq, toField, toField, ← Nat.cast_mul, ← Nat.cast_mul, cast_eq_iff F p]

theorem cast_ne_zero_of_mod (F : Type*) [Field F] [CharP F p] {a : Nat} (h : a % p ≠ 0) : (a : F) ≠ 0 := by
  rw [ne_eq, CharP.cast_eq_zero_iff F p, Nat.dvd_iff_mod_eq_zero]
  exact h

variable {b : F} {P Q : (curve b).Point}

theorem represents_sameMod (hc : (toField F c).Represents b P) (hsame : sameMod p c d = true) :
    (toField F d).Represents b P := by
  rw [sameMod, Bool.and_eq_true, Bool.and_eq_true, bne_iff_ne, beq_iff_eq] at hsame
  obtain ⟨⟨hz, hx⟩, hy⟩ := hsame
  have hz' := cast_ne_zero_of_mod F hz
  cases P with
  | zero => exact hc.elim
  | some x y h =>
      have hof : (toField F c).Of x y := hc
      have hxField := (sameXMod_iff F).mp hx
      have hyField : (d.Y : F) * c.Z = c.Y * d.Z := by
        rw [← Nat.cast_mul, ← Nat.cast_mul, cast_eq_iff F p, hy]
      refine ⟨hz', ?_, ?_⟩
      · apply mul_right_cancel₀ hof.z_ne_zero
        rw [hxField, hof.x_eq, mul_right_comm]
      · apply mul_right_cancel₀ hof.z_ne_zero
        rw [show (toField F d).Y * (toField F c).Z = (toField F c).Y * (toField F d).Z from hyField, hof.y_eq,
          mul_right_comm]

variable [DecidableEq F]

theorem represents_doubleMod (hp : 0 < p) (htwo : (2 : F) ≠ 0) (hc : (toField F c).Represents b P)
    (hy : c.Y % p ≠ 0) : (toField F (doubleMod p c)).Represents b (P + P) := by
  have hy' := cast_ne_zero_of_mod F hy
  cases P with
  | zero => exact hc.elim
  | some x y h =>
      have hof : (toField F c).Of x y := hc
      rw [toField_doubleMod hp]
      apply double_represents hof htwo
      rintro rfl
      exact hy' (hof.y_eq.trans (zero_mul _))

theorem represents_addMod (hp : 0 < p) (hc : (toField F c).Represents b P) (hd : (toField F d).Represents b Q)
    (hx : sameXMod p c d = false) : (toField F (addMod p c d)).Represents b (P + Q) := by
  cases P with
  | zero => exact hc.elim
  | some x₁ y₁ h₁ =>
      cases Q with
      | zero => exact hd.elim
      | some x₂ y₂ h₂ =>
          have hofC : (toField F c).Of x₁ y₁ := hc
          have hofD : (toField F d).Of x₂ y₂ := hd
          rw [toField_addMod hp]
          apply add_represents hofC hofD
          intro hsame
          have hequal := (sameXMod_iff F).mpr ((hofC.eq_iff_x hofD).mpr hsame)
          rw [hx] at hequal
          exact Bool.false_ne_true hequal

theorem represents_ladderMod (hp : 0 < p) (htwo : (2 : F) ≠ 0) {base c' : Homogeneous Nat} {bits : List Bool}
    {m : Nat} (hbase : (toField F base).Represents b P) (hc : (toField F c).Represents b (m • P))
    (h : ladderMod p base bits c = some c') : (toField F c').Represents b (ofBits m bits • P) := by
  induction bits generalizing c m with
  | nil => exact Option.some.inj h ▸ hc
  | cons bit bits ih =>
      rw [ladderMod] at h
      obtain ⟨hy, hrest⟩ := Option.ite_none_left_eq_some.mp h
      have hdouble := represents_doubleMod hp htwo hc hy
      rw [← two_nsmul, ← mul_nsmul'] at hdouble
      cases bit with
      | false => exact ih hdouble hrest
      | true =>
          rw [if_pos rfl] at hrest
          obtain ⟨hx, hrest⟩ := Option.ite_none_left_eq_some.mp hrest
          have hadd := represents_addMod hp hdouble hbase (Bool.eq_false_iff.mpr hx)
          rw [← succ_nsmul] at hadd
          exact ih hadd hrest

end Best1307.Homogeneous
