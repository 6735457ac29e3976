import Mathlib.Data.Nat.Size
import Mathlib.FieldTheory.Finite.Basic
import Mathlib.Tactic.LinearCombination

/-!
# Cubics without a root

An element of the field of a prime is its own power by that prime. The power, worked out modulo a cubic `x³ = a x + c`,
is a polynomial of degree two at most; if it differs from `x` by something with an inverse, the cubic has no root.
-/

namespace Best1307.Cubic

/-- A polynomial, by its coefficients from the constant on -/
structure Residue where
  c₀ : Nat
  c₁ : Nat
  c₂ : Nat
  deriving DecidableEq

section

variable (p a c : Nat)

def mulMod (u v : Residue) : Residue :=
  let third := u.c₁ * v.c₂ + u.c₂ * v.c₁
  let fourth := u.c₂ * v.c₂
  ⟨(u.c₀ * v.c₀ + c * third) % p, (u.c₀ * v.c₁ + u.c₁ * v.c₀ + a * third + c * fourth) % p,
    (u.c₀ * v.c₂ + u.c₁ * v.c₁ + u.c₂ * v.c₀ + a * fourth) % p⟩

/-- The power of `x`, by squaring, for an exponent of at most so many bits -/
def powMod : (bits e : Nat) → Residue
  | 0, _ => ⟨1, 0, 0⟩
  | bits + 1, e =>
      let root := powMod bits (e / 2)
      if e % 2 = 0 then mulMod p a c root root else mulMod p a c (mulMod p a c root root) ⟨0, 1, 0⟩

/-- The power by `p`, less `x` -/
def frobeniusMod : Residue :=
  let power := powMod p a c p.size p
  { power with c₁ := power.c₁ + (p - 1) }

end

/-! ### The values -/

variable {p : Nat} [Fact p.Prime]

def Residue.eval (u : Residue) (x : ZMod p) : ZMod p := u.c₀ + u.c₁ * x + u.c₂ * x ^ 2

variable {a c : Nat} {x : ZMod p}

theorem eval_mulMod (hx : x ^ 3 = a * x + c) (u v : Residue) :
    (mulMod p a c u v).eval x = u.eval x * v.eval x := by
  simp only [Residue.eval, mulMod, ZMod.natCast_mod, Nat.cast_add, Nat.cast_mul]
  linear_combination -(u.c₁ * v.c₂ + u.c₂ * v.c₁ + u.c₂ * v.c₂ * x : ZMod p) * hx

theorem eval_powMod (hx : x ^ 3 = a * x + c) {bits e : Nat} (he : e < 2 ^ bits) :
    (powMod p a c bits e).eval x = x ^ e := by
  induction bits generalizing e with
  | zero =>
      rw [Nat.lt_one_iff.mp he, pow_zero, powMod, Residue.eval]
      simp only [Nat.cast_one, Nat.cast_zero, zero_mul, add_zero]
  | succ bits ih =>
      have hroot := @ih (e / 2) (by rw [pow_succ] at he; omega)
      have hself : (⟨0, 1, 0⟩ : Residue).eval x = x := by
        simp only [Residue.eval, Nat.cast_one, Nat.cast_zero, zero_mul, add_zero, zero_add, one_mul]
      have hsquare : x ^ (e / 2) * x ^ (e / 2) = x ^ (2 * (e / 2)) := by rw [← pow_add, two_mul]
      have hdiv := Nat.div_add_mod e 2
      rw [powMod]
      split
      case isTrue heven =>
        rw [eval_mulMod hx, hroot, hsquare]
        congr 1
        omega
      case isFalse hodd =>
        rw [eval_mulMod hx, eval_mulMod hx, hroot, hsquare, hself, ← pow_succ]
        congr 1
        omega

theorem eval_frobeniusMod (hx : x ^ 3 = a * x + c) : (frobeniusMod p a c).eval x = 0 := by
  have hpower := eval_powMod hx (Nat.lt_size_self p)
  have hone : 1 ≤ p := Nat.Prime.one_le Fact.out
  rw [ZMod.pow_card, Residue.eval] at hpower
  rw [frobeniusMod, Residue.eval]
  dsimp only
  rw [Nat.cast_add, Nat.cast_sub hone, ZMod.natCast_self, Nat.cast_one]
  linear_combination hpower

/-- The certificate is the inverse. -/
theorem no_root_of_inverse {w : Residue} (h : mulMod p a c w (frobeniusMod p a c) = ⟨1, 0, 0⟩) (x : ZMod p) :
    x ^ 3 ≠ a * x + c := by
  intro hx
  have hproduct := eval_mulMod hx w (frobeniusMod p a c)
  rw [h, eval_frobeniusMod hx, mul_zero, Residue.eval] at hproduct
  simp only [Nat.cast_one, Nat.cast_zero, zero_mul, add_zero] at hproduct
  exact one_ne_zero hproduct

end Best1307.Cubic
