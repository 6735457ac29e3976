import Mathlib.Data.List.Basic
import Mathlib.Data.Nat.ModEq

/-!
# Rings of slots and registers of bits

The items of a queue are numbered in the order they come; item `k` lies in slot `k` modulo the size of the
ring. As long as no more items are present than there are slots, no two of them share one. A register has a
bit for every slot.
-/

namespace Best1307.SlotRing

variable {base n lo hi k j slot : Nat}

def slotAt (base n k : Nat) : Nat := base + k % n

theorem base_le_slotAt : base ≤ slotAt base n k := Nat.le_add_right _ _

theorem slotAt_lt (hn : 0 < n) : slotAt base n k < base + n :=
  Nat.add_lt_add_left (Nat.mod_lt _ hn) _

theorem slotAt_add : slotAt base n (k + n) = slotAt base n k := by
  rw [slotAt, slotAt, Nat.add_mod_right]

theorem slotAt_inj (hj : lo ≤ j) (hj' : j < lo + n) (hk : lo ≤ k) (hk' : k < lo + n)
    (h : slotAt base n j = slotAt base n k) : j = k := by
  have hmod : j % n = k % n := Nat.add_left_cancel h
  have hdiff : (j - lo) % n = (k - lo) % n := by
    refine Nat.ModEq.add_right_cancel' lo (show j - lo + lo ≡ k - lo + lo [MOD n] from ?_)
    rw [Nat.sub_add_cancel hj, Nat.sub_add_cancel hk]
    exact hmod
  rw [Nat.mod_eq_of_lt (by omega), Nat.mod_eq_of_lt (by omega)] at hdiff
  omega

theorem mod_inj (hj : lo ≤ j) (hj' : j < lo + n) (hk : lo ≤ k) (hk' : k < lo + n) (h : j % n = k % n) : j = k := by
  have hslot : slotAt 0 n j = slotAt 0 n k := congrArg (0 + ·) h
  exact slotAt_inj hj hj' hk hk' hslot

theorem mod_ne (hj : lo ≤ j) (hj' : j < lo + n) (hk : lo ≤ k) (hk' : k < lo + n) (hne : j ≠ k) :
    j % n ≠ k % n := by
  intro h
  exact hne (mod_inj hj hj' hk hk' h)

theorem slotAt_succ (hn : 0 < n) :
    slotAt base n (k + 1) = if base + n ≤ slotAt base n k + 1 then base else slotAt base n k + 1 := by
  have hlt := Nat.mod_lt k hn
  have hstep : (k + 1) % n = (k % n + 1) % n := (Nat.mod_add_mod k n 1).symm
  rw [slotAt, slotAt, hstep]
  rcases Nat.lt_or_ge (k % n + 1) n with h | h
  · rw [Nat.mod_eq_of_lt h, if_neg (by omega), Nat.add_assoc]
  · rw [show k % n + 1 = n by omega, Nat.mod_self, if_pos (by omega), Nat.add_zero]

/-- Two ends of a ring that is not overfull coincide if it is empty or full. -/
theorem slotAt_eq_iff (hle : lo ≤ hi) (hfits : hi ≤ lo + n) :
    slotAt base n hi = slotAt base n lo ↔ hi = lo ∨ hi = lo + n := by
  constructor
  · intro h
    rcases Nat.lt_or_ge hi (lo + n) with hlt | hge
    · exact .inl (slotAt_inj hle hlt (Nat.le_refl lo) (by omega) h)
    · exact .inr (by omega)
  · rintro (rfl | rfl)
    · rfl
    · exact slotAt_add

theorem succ_mod (hn : 0 < n) : (k + 1) % n = if n ≤ k % n + 1 then 0 else k % n + 1 := by
  have hsucc : slotAt 0 n (k + 1) = _ := slotAt_succ hn
  simp only [slotAt, Nat.zero_add] at hsucc
  exact hsucc

theorem mod_eq_mod_iff (hj : j < n) (hk : k < n) : (lo + j) % n = (lo + k) % n ↔ j = k := by
  constructor
  · intro h
    have := mod_inj (Nat.le_add_right lo j) (by omega) (Nat.le_add_right lo k) (by omega) h
    omega
  · rintro rfl
    rfl

/-- The distance of two ends of a ring that is not full, from their slots. -/
theorem mod_sub_mod (hle : lo ≤ hi) (hfree : hi < lo + n) :
    (if lo % n ≤ hi % n then hi % n - lo % n else n - lo % n + hi % n) = hi - lo := by
  have hlt := Nat.mod_lt lo (show 0 < n by omega)
  have hmod : hi % n = (lo % n + (hi - lo)) % n := by
    rw [Nat.mod_add_mod, Nat.add_sub_cancel' hle]
  rcases Nat.lt_or_ge (lo % n + (hi - lo)) n with h | h
  · rw [Nat.mod_eq_of_lt h] at hmod
    split <;> omega
  · have hwrap : hi % n = lo % n + (hi - lo) - n := by
      rw [hmod, Nat.mod_eq_sub_mod h, Nat.mod_eq_of_lt (by omega)]
    split <;> omega

def Occupied (base n lo hi slot : Nat) : Prop := ∃ k, lo ≤ k ∧ k < hi ∧ slotAt base n k = slot

theorem Occupied.bounds (h : Occupied base n lo hi slot) (hn : 0 < n) : base ≤ slot ∧ slot < base + n := by
  obtain ⟨k, -, -, rfl⟩ := h
  exact ⟨base_le_slotAt, slotAt_lt hn⟩

theorem not_occupied_empty : ¬ Occupied base n lo lo slot := by
  rintro ⟨k, hlo, hhi, -⟩
  omega

theorem occupied_push (hle : lo ≤ hi) :
    Occupied base n lo (hi + 1) slot ↔ Occupied base n lo hi slot ∨ slot = slotAt base n hi := by
  constructor
  · rintro ⟨k, hlo, hhi, rfl⟩
    rcases Nat.lt_succ_iff_lt_or_eq.mp hhi with hlt | rfl
    · exact .inl ⟨k, hlo, hlt, rfl⟩
    · exact .inr rfl
  · rintro (⟨k, hlo, hhi, hk⟩ | rfl)
    · exact ⟨k, hlo, Nat.lt_succ_of_lt hhi, hk⟩
    · exact ⟨hi, hle, Nat.lt_succ_self hi, rfl⟩

theorem occupied_pop (hlt : lo < hi) (hfits : hi ≤ lo + n) :
    Occupied base n (lo + 1) hi slot ↔ Occupied base n lo hi slot ∧ slot ≠ slotAt base n lo := by
  constructor
  · rintro ⟨k, hlo, hhi, rfl⟩
    refine ⟨⟨k, by omega, hhi, rfl⟩, fun h => ?_⟩
    have hk := slotAt_inj (by omega) (by omega) (Nat.le_refl lo) (by omega) h
    omega
  · rintro ⟨⟨k, hlo, hhi, rfl⟩, hne⟩
    refine ⟨k, ?_, hhi, rfl⟩
    rcases Nat.eq_or_lt_of_le hlo with rfl | hlt'
    · exact absurd rfl hne
    · exact hlt'

theorem not_occupied_next (hfree : hi < lo + n) : ¬ Occupied base n lo hi (slotAt base n hi) := by
  rintro ⟨k, hlo, hhi, hk⟩
  have := slotAt_inj hlo (by omega) (by omega) hfree hk
  omega

/-! ### Registers -/

variable {w : Nat} {x : BitVec w} {i : Nat}

theorem and_ne_zero {y : BitVec w} : x &&& y ≠ 0 ↔ ∃ i, x.getLsbD i = true ∧ y.getLsbD i = true := by
  rw [BitVec.ofNat_eq_ofNat]
  constructor
  · intro h
    by_contra hnone
    refine h (BitVec.eq_of_getLsbD_eq fun i _ => ?_)
    rw [BitVec.getLsbD_and, BitVec.getLsbD_zero, Bool.and_eq_false_iff]
    by_contra hboth
    rw [not_or, Bool.not_eq_false, Bool.not_eq_false] at hboth
    exact hnone ⟨i, hboth⟩
  · rintro ⟨i, hx, hy⟩ h
    have hbit := congrArg (fun z => z.getLsbD i) h
    rw [BitVec.getLsbD_and, hx, hy, BitVec.getLsbD_zero] at hbit
    cases hbit

theorem lt_of_getLsbD (h : x.getLsbD i = true) : i < w := by
  by_contra hge
  rw [BitVec.getLsbD_of_ge x i (Nat.not_lt.mp hge)] at h
  cases h

theorem and_twoPow_ne_zero : x &&& BitVec.twoPow w i ≠ 0 ↔ x.getLsbD i = true := by
  simp only [and_ne_zero, BitVec.getLsbD_twoPow, Bool.and_eq_true, decide_eq_true_eq]
  constructor
  · rintro ⟨j, hx, -, rfl⟩
    exact hx
  · exact fun hx => ⟨i, hx, lt_of_getLsbD hx, rfl⟩

theorem getLsbD_or_twoPow (hi : i < w) :
    (x ||| BitVec.twoPow w i).getLsbD j = true ↔ x.getLsbD j = true ∨ j = i := by
  rw [BitVec.getLsbD_or, BitVec.getLsbD_twoPow, Bool.or_eq_true, Bool.and_eq_true, decide_eq_true_eq,
    decide_eq_true_eq, @eq_comm _ i j]
  simp only [hi, true_and]

theorem getLsbD_andNot {y : BitVec w} :
    (x &&& ~~~y).getLsbD j = true ↔ x.getLsbD j = true ∧ ¬ y.getLsbD j = true := by
  rw [BitVec.getLsbD_and, BitVec.getLsbD_not, Bool.and_eq_true, Bool.and_eq_true, Bool.not_eq_true',
    Bool.not_eq_true, decide_eq_true_eq]
  constructor
  · rintro ⟨hx, -, hy⟩
    exact ⟨hx, hy⟩
  · rintro ⟨hx, hy⟩
    exact ⟨hx, lt_of_getLsbD hx, hy⟩

theorem getLsbD_andNot_twoPow :
    (x &&& ~~~BitVec.twoPow w i).getLsbD j = true ↔ x.getLsbD j = true ∧ j ≠ i := by
  rw [getLsbD_andNot, BitVec.getLsbD_twoPow]
  constructor
  · rintro ⟨hx, hbit⟩
    refine ⟨hx, ?_⟩
    rintro rfl
    exact hbit (by simp only [lt_of_getLsbD hx, decide_true, Bool.and_self])
  · rintro ⟨hx, hne⟩
    refine ⟨hx, ?_⟩
    simp only [Ne.symm hne, decide_false, Bool.and_false, Bool.false_eq_true, not_false_eq_true]

end Best1307.SlotRing
