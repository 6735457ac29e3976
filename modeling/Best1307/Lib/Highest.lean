import Mathlib.Data.List.Basic

/-!
# The first of the highest

A table is gone through for the entry of the highest rank among those that count; of several the first one is taken. The
entry found so far goes along.
-/

namespace Best1307.Highest

variable {α : Type*} (rank : α → Nat) (counts : α → Bool)

def better (best : Option α) (a : α) : Option α :=
  if counts a then
    match best with
    | some b => if rank b < rank a then some a else some b
    | none => some a
  else best

def highest (best : Option α) (l : List α) : Option α := l.foldl (better rank counts) best

variable {rank counts} {best : Option α} {a b c : α} {l : List α}

theorem highest_cons : highest rank counts best (a :: l) = highest rank counts (better rank counts best a) l := rfl

theorem better_of_not (h : counts a = false) : better rank counts best a = best := by
  rw [better.eq_def, h, if_neg Bool.false_ne_true]

theorem better_of_counts (h : counts a = true) :
    ∃ c, better rank counts best a = some c ∧ rank a ≤ rank c ∧ (∀ b, best = some b → rank b ≤ rank c) ∧
      (c = a ∨ best = some c) := by
  rw [better.eq_def, if_pos h]
  cases best with
  | none =>
      refine ⟨a, rfl, Nat.le_refl _, fun b hb => ?_, .inl rfl⟩
      cases hb
  | some b =>
      dsimp only
      split
      case isTrue hlt =>
        refine ⟨a, rfl, Nat.le_refl _, fun b' hb => ?_, .inl rfl⟩
        obtain rfl := Option.some.inj hb
        exact Nat.le_of_lt hlt
      case isFalse hge =>
        refine ⟨b, rfl, Nat.le_of_not_lt hge, fun b' hb => ?_, .inr rfl⟩
        obtain rfl := Option.some.inj hb
        exact Nat.le_refl _

theorem mem_of_highest (h : highest rank counts best l = some c) : c ∈ l ∧ counts c = true ∨ best = some c := by
  induction l generalizing best with
  | nil => exact .inr h
  | cons a l ih =>
      rw [highest_cons] at h
      rcases ih h with ⟨hmem, hcounts⟩ | hbest
      · exact .inl ⟨List.mem_cons_of_mem a hmem, hcounts⟩
      · by_cases ha : counts a = true
        · obtain ⟨d, hbetter, -, -, hd⟩ := @better_of_counts _ rank counts best a ha
          obtain rfl := Option.some.inj (hbetter.symm.trans hbest)
          rcases hd with rfl | hd
          · exact .inl ⟨List.mem_cons_self, ha⟩
          · exact .inr hd
        · rw [better_of_not (Bool.eq_false_iff.mpr ha)] at hbest
          exact .inr hbest

theorem rank_le_of_highest (h : highest rank counts best l = some c) :
    (∀ b, best = some b → rank b ≤ rank c) ∧ ∀ a ∈ l, counts a = true → rank a ≤ rank c := by
  induction l generalizing best with
  | nil =>
      refine ⟨fun b hb => ?_, fun a ha => absurd ha List.not_mem_nil⟩
      obtain rfl := Option.some.inj (hb.symm.trans h)
      exact Nat.le_refl _
  | cons a l ih =>
      rw [highest_cons] at h
      obtain ⟨hbefore, hrest⟩ := ih h
      by_cases ha : counts a = true
      · obtain ⟨d, hbetter, had, hbest, -⟩ := @better_of_counts _ rank counts best a ha
        have hdc := hbefore d hbetter
        refine ⟨fun b hb => Nat.le_trans (hbest b hb) hdc, fun a' ha' hcounts => ?_⟩
        rcases List.mem_cons.mp ha' with rfl | hmem
        · exact Nat.le_trans had hdc
        · exact hrest a' hmem hcounts
      · have hnot := Bool.eq_false_iff.mpr ha
        rw [better_of_not hnot] at hbefore
        refine ⟨hbefore, fun a' ha' hcounts => ?_⟩
        rcases List.mem_cons.mp ha' with rfl | hmem
        · exact absurd hcounts ha
        · exact hrest a' hmem hcounts

theorem highest_eq_none : highest rank counts best l = none ↔ best = none ∧ ∀ a ∈ l, counts a = false := by
  induction l generalizing best with
  | nil => exact ⟨fun h => ⟨h, fun a ha => absurd ha List.not_mem_nil⟩, And.left⟩
  | cons a l ih =>
      rw [highest_cons, ih, List.forall_mem_cons]
      by_cases ha : counts a = true
      · obtain ⟨d, hbetter, -⟩ := @better_of_counts _ rank counts best a ha
        rw [hbetter]
        exact iff_of_false (fun h => by cases h.1) fun h => absurd ha (by rw [h.2.1]; exact Bool.false_ne_true)
      · have hnot := Bool.eq_false_iff.mpr ha
        rw [better_of_not hnot, hnot]
        simp only [true_and]

/-- An entry at the end changes nothing if it counts only where one before it does that is no lower. -/
theorem highest_concat (h : counts a = true → ∃ b ∈ l, counts b = true ∧ rank a ≤ rank b) :
    highest rank counts none (l ++ [a]) = highest rank counts none l := by
  have hsplit : highest rank counts none (l ++ [a]) = better rank counts (highest rank counts none l) a :=
    List.foldl_append
  rw [hsplit]
  by_cases ha : counts a = true
  · obtain ⟨b, hb, hcounts, hle⟩ := h ha
    cases hbest : highest rank counts none l with
    | none =>
        have := (highest_eq_none.mp hbest).2 b hb
        rw [hcounts] at this
        exact absurd this (by decide)
    | some c =>
        have hc := (rank_le_of_highest hbest).2 b hb hcounts
        rw [better.eq_def, if_pos ha]
        exact if_neg (Nat.not_lt.mpr (Nat.le_trans hle hc))
  · exact better_of_not (Bool.eq_false_iff.mpr ha)

end Best1307.Highest
