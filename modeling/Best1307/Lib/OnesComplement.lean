import Mathlib.Data.List.Basic
import Mathlib.Data.Nat.ModEq

/-!
# Sums in one's complement

Words are added with an end-around carry: what goes over the greatest word `m` is added at the other end. All that a sum
of words has to do with their sum as numbers is the residue modulo `m`, where `m` itself stands for every multiple but
zero. So carries may be added when they arise or all at the end.
-/

namespace Best1307.OnesComplement

variable {m : Nat}

def add (m a b : Nat) : Nat := if a + b ≤ m then a + b else a + b - m

def sum (m : Nat) (words : List Nat) : Nat := words.foldl (add m) 0

/-- The word a number has the residue of -/
def residue (m s : Nat) : Nat := if s = 0 then 0 else (s - 1) % m + 1

theorem residue_zero : residue m 0 = 0 := rfl

theorem residue_le (hm : 0 < m) (s : Nat) : residue m s ≤ m := by
  rw [residue]
  split
  · exact Nat.zero_le m
  · exact Nat.mod_lt _ hm

theorem residue_of_le {s : Nat} (h : s ≤ m) : residue m s = s := by
  rw [residue]
  split
  · omega
  · rw [Nat.mod_eq_of_lt (by omega)]
    omega

theorem residue_modEq (s : Nat) : residue m s ≡ s [MOD m] := by
  rw [residue]
  split
  · rename_i hs
    rw [hs]
  · rename_i hs
    calc (s - 1) % m + 1 ≡ s - 1 + 1 [MOD m] := (Nat.mod_modEq _ _).add_right 1
      _ = s := by omega

theorem residue_eq_zero_iff {s : Nat} : residue m s = 0 ↔ s = 0 := by
  rw [residue]
  split <;> omega

/-- Numbers other than zero have the same word exactly when they have the same residue. -/
theorem residue_eq_iff {s t : Nat} (hs : s ≠ 0) (ht : t ≠ 0) : residue m s = residue m t ↔ s ≡ t [MOD m] := by
  constructor
  · intro h
    exact ((residue_modEq s).symm.trans (h ▸ Nat.ModEq.refl _)).trans (residue_modEq t)
  · intro h
    have hpred : s - 1 ≡ t - 1 [MOD m] := by
      apply Nat.ModEq.add_right_cancel' 1
      rwa [Nat.sub_add_cancel (Nat.pos_of_ne_zero hs), Nat.sub_add_cancel (Nat.pos_of_ne_zero ht)]
    rw [residue, residue, if_neg hs, if_neg ht, hpred]

theorem residue_eq_self_iff (hm : 0 < m) {s : Nat} : residue m s = m ↔ s ≠ 0 ∧ m ∣ s := by
  have hself : residue m m = m := residue_of_le (Nat.le_refl m)
  by_cases hs : s = 0
  · rw [hs, residue_zero]
    exact ⟨fun h => absurd h hm.ne, fun h => absurd rfl h.1⟩
  · have hdvd : s ≡ m [MOD m] ↔ m ∣ s := by
      rw [← Nat.modEq_zero_iff_dvd, Nat.ModEq, Nat.ModEq, Nat.mod_self, Nat.zero_mod]
    calc residue m s = m ↔ residue m s = residue m m := by rw [hself]
      _ ↔ s ≡ m [MOD m] := residue_eq_iff hs hm.ne'
      _ ↔ s ≠ 0 ∧ m ∣ s := by rw [hdvd, and_iff_right hs]

/-- Carries may wait: adding a word to the word of a number is the word of their sum. -/
theorem add_residue (hm : 0 < m) {s w : Nat} (hw : w ≤ m) : add m (residue m s) w = residue m (s + w) := by
  have hle := residue_le hm s
  have hcongr : residue m s + w ≡ s + w [MOD m] := (residue_modEq s).add_right w
  by_cases hzero : s + w = 0
  · obtain ⟨rfl, rfl⟩ : s = 0 ∧ w = 0 := by omega
    rw [residue_zero]
    exact if_pos (Nat.zero_le m)
  · have hne : residue m s + w ≠ 0 := by
      have := residue_eq_zero_iff (m := m) (s := s)
      omega
    have hword : residue m (residue m s + w) = residue m (s + w) := (residue_eq_iff hne hzero).mpr hcongr
    rw [← hword, add]
    split
    · rename_i hsmall
      exact (residue_of_le hsmall).symm
    · rename_i hbig
      have hover : residue m s + w - m ≡ residue m s + w [MOD m] := by
        rw [Nat.ModEq, Nat.mod_eq_sub_mod (Nat.le_of_not_le hbig)]
      have hpos : residue m s + w - m ≠ 0 := by omega
      rw [← (residue_eq_iff hpos hne).mpr hover]
      exact (residue_of_le (by omega)).symm

/-- **The sum of words is the word of their sum.** -/
theorem sum_eq (hm : 0 < m) {words : List Nat} (hwords : ∀ w ∈ words, w ≤ m) : sum m words = residue m words.sum := by
  have hfold : ∀ s, words.foldl (add m) (residue m s) = residue m (s + words.sum) := by
    induction words with
    | nil => exact fun s => rfl
    | cons w words ih =>
        intro s
        rw [List.foldl_cons, add_residue hm (hwords w List.mem_cons_self), ih (fun w hw => hwords w (.tail _ hw)),
          List.sum_cons, Nat.add_assoc]
  rw [sum]
  exact (hfold 0).trans (by rw [Nat.zero_add])

/-- What goes over the width of a word may be added at its other end. -/
theorem residue_fold {s : Nat} : residue m (s % (m + 1) + s / (m + 1)) = residue m s := by
  have hsplit := Nat.mod_add_div s (m + 1)
  by_cases hs : s = 0
  · rw [hs, Nat.zero_mod, Nat.zero_div]
  · have hfold : s % (m + 1) + s / (m + 1) ≠ 0 := by
      intro hzero
      obtain ⟨hmod, hdiv⟩ := Nat.add_eq_zero_iff.mp hzero
      rw [hmod, hdiv] at hsplit
      omega
    apply (residue_eq_iff hfold hs).mpr
    calc s % (m + 1) + s / (m + 1) ≡ s % (m + 1) + s / (m + 1) + m * (s / (m + 1)) [MOD m] := by
          rw [Nat.ModEq, Nat.add_mul_mod_self_left]
      _ = s % (m + 1) + (m + 1) * (s / (m + 1)) := by
          rw [Nat.add_mul, Nat.one_mul, Nat.add_assoc, Nat.add_comm (s / (m + 1))]
      _ = s := hsplit

/-! ### The complement -/

/-- With the complement of their sum, words have the greatest word as sum. -/
theorem dvd_add_complement (hm : 0 < m) (s : Nat) : m ∣ s + (m - residue m s) ∧ s + (m - residue m s) ≠ 0 := by
  have hle := residue_le hm s
  constructor
  · apply Nat.modEq_zero_iff_dvd.mp
    calc s + (m - residue m s) ≡ residue m s + (m - residue m s) [MOD m] := (residue_modEq s).symm.add_right _
      _ = m := by omega
      _ ≡ 0 [MOD m] := by rw [Nat.ModEq, Nat.mod_self, Nat.zero_mod]
  · intro hzero
    have hres := residue_eq_zero_iff (m := m) (s := s)
    omega

theorem residue_add_eq_iff (hm : 0 < m) {s b : Nat} (hb : b < m) : residue m (s + b) = residue m s ↔ b = 0 := by
  constructor
  · intro h
    by_contra hne
    by_cases hs : s = 0
    · rw [hs, Nat.zero_add, residue_zero] at h
      exact hne (residue_eq_zero_iff.mp h)
    · have hcongr := (residue_eq_iff (by omega) hs).mp h
      have hzero : b ≡ 0 [MOD m] := by
        apply Nat.ModEq.add_left_cancel' s
        rwa [Nat.add_zero]
      exact hne (Nat.ModEq.eq_of_lt_of_lt hzero hb hm)
  · intro h
    rw [h, Nat.add_zero]

theorem residue_complement_iff (hm : 0 < m) {s b : Nat} (hb : b < m) :
    residue m (s + (m - residue m s) + b) = m ↔ b = 0 := by
  obtain ⟨hdvd, hne⟩ := dvd_add_complement hm s
  rw [residue_eq_self_iff hm, Nat.dvd_add_right hdvd]
  constructor
  · intro h
    exact Nat.eq_zero_of_dvd_of_lt h.2 hb
  · intro h
    rw [h]
    exact ⟨hne, Nat.dvd_zero m⟩

/-! ### Words of bytes -/

/-- The words of bytes, the first byte of each the more significant one; behind a single last byte is a zero. -/
def words : List UInt8 → List Nat
  | high :: low :: rest => (high.toNat * 2 ^ 8 + low.toNat) :: words rest
  | [high] => [high.toNat * 2 ^ 8]
  | [] => []

/-- The last byte of an odd number of bytes; zero where there is none. -/
def oddByte : List UInt8 → UInt8
  | _ :: _ :: rest => oddByte rest
  | [last] => last
  | [] => 0

theorem words_le (bytes : List UInt8) : ∀ w ∈ words bytes, w ≤ 2 ^ 16 - 1 := by
  induction bytes using words.induct with
  | case1 high low rest ih =>
      have hhigh := high.toNat_lt
      have hlow := low.toNat_lt
      intro w hw
      cases List.mem_cons.mp hw with
      | inl hfirst => omega
      | inr hrest => exact ih w hrest
  | case2 high =>
      have hhigh := high.toNat_lt
      intro w hw
      rw [words, List.mem_singleton] at hw
      omega
  | case3 => exact nofun

theorem words_append (left right : List UInt8) (heven : left.length % 2 = 0) :
    words (left ++ right) = words left ++ words right := by
  induction left using words.induct with
  | case1 high low rest ih =>
      rw [List.length_cons, List.length_cons] at heven
      show _ :: words (rest ++ right) = _ :: (words rest ++ words right)
      rw [ih (by omega)]
  | case2 high => exact absurd (show 1 % 2 = 0 from heven) (by decide)
  | case3 => rfl

theorem oddByte_eq_zero_iff (bytes : List UInt8) :
    oddByte bytes = 0 ↔ (bytes.length % 2 = 1 → bytes.getLast? = some 0) := by
  induction bytes using words.induct with
  | case1 high low rest ih =>
      have hlen : (high :: low :: rest).length % 2 = rest.length % 2 := by
        rw [List.length_cons, List.length_cons]
        omega
      rw [oddByte, ih, hlen]
      apply imp_congr_right
      intro hodd
      cases rest with
      | nil => exact absurd hodd (by decide)
      | cons next rest => rw [List.getLast?_cons_cons, List.getLast?_cons_cons]
  | case2 last =>
      rw [oddByte, List.getLast?_singleton, Option.some_inj]
      exact ⟨fun hzero _ => hzero, fun hzero => hzero rfl⟩
  | case3 => exact iff_of_true rfl nofun

end Best1307.OnesComplement
