import Mathlib.Data.List.Pairwise
import Mathlib.Data.List.Induction
import Mathlib.Algebra.Order.Ring.Nat

/-!
# First fit

Blocks lie in order between two bounds and do not overlap. A new block goes to the start of the first gap that is wide
enough for it; if there is none, no gap is. What is taken out leaves the others where they are.
-/

namespace Best1307.FirstFit

structure Block where
  addr : ℕ
  len : ℕ
  deriving DecidableEq, Repr

def Block.fin (b : Block) : ℕ := b.addr + b.len

def Tiled : ℕ → List Block → ℕ → Prop
  | lo, [], hi => lo ≤ hi
  | lo, b :: l, hi => lo ≤ b.addr ∧ Tiled b.fin l hi

/-- The widths between the blocks, and of what is before the first and behind the last -/
def gaps : ℕ → List Block → ℕ → List ℕ
  | lo, [], hi => [hi - lo]
  | lo, b :: l, hi => (b.addr - lo) :: gaps b.fin l hi

/-- The blocks before and behind the first gap of this width, and where it starts -/
def place (n : ℕ) : ℕ → List Block → ℕ → Option (List Block × ℕ × List Block)
  | lo, [], hi => if n ≤ hi - lo then some ([], lo, []) else none
  | lo, b :: l, hi =>
      if n ≤ b.addr - lo then some ([], lo, b :: l)
      else (place n b.fin l hi).map fun found => (b :: found.1, found.2)

def finOf : ℕ → List Block → ℕ
  | lo, [] => lo
  | _, b :: l => finOf b.fin l

def total (l : List Block) : ℕ := (l.map Block.len).sum

variable {n lo lo' hi addr : ℕ} {b c : Block} {l l₁ l₂ before behind : List Block}

theorem tiled_cons : Tiled lo (b :: l) hi ↔ lo ≤ b.addr ∧ Tiled b.fin l hi := Iff.rfl

theorem finOf_cons : finOf lo (b :: l) = finOf b.fin l := rfl

theorem place_nil : place n lo [] hi = if n ≤ hi - lo then some ([], lo, []) else none := rfl

theorem place_cons : place n lo (b :: l) hi = if n ≤ b.addr - lo then some ([], lo, b :: l)
    else (place n b.fin l hi).map fun found => (b :: found.1, found.2) := rfl

theorem gaps_nil : gaps lo [] hi = [hi - lo] := rfl

theorem gaps_cons : gaps lo (b :: l) hi = (b.addr - lo) :: gaps b.fin l hi := rfl

@[simp] theorem total_nil : total [] = 0 := rfl

@[simp] theorem total_cons : total (b :: l) = b.len + total l := rfl

@[simp] theorem total_append : total (l₁ ++ l₂) = total l₁ + total l₂ := by
  rw [total, List.map_append, List.sum_append]
  rfl

theorem tiled_append : Tiled lo (l₁ ++ l₂) hi ↔ Tiled lo l₁ (finOf lo l₁) ∧ Tiled (finOf lo l₁) l₂ hi := by
  induction l₁ generalizing lo with
  | nil => exact ⟨fun h => ⟨Nat.le_refl lo, h⟩, And.right⟩
  | cons b l₁ ih => rw [List.cons_append, tiled_cons, tiled_cons, finOf_cons, ih, and_assoc]

theorem finOf_append : finOf lo (l₁ ++ l₂) = finOf (finOf lo l₁) l₂ := by
  induction l₁ generalizing lo with
  | nil => rfl
  | cons b l₁ ih => exact ih

theorem Tiled.le (h : Tiled lo l hi) : lo ≤ hi := by
  induction l generalizing lo with
  | nil => exact h
  | cons b l ih => exact Nat.le_trans (Nat.le_trans h.1 (Nat.le_add_right _ _)) (ih h.2)

theorem Tiled.bounds (h : Tiled lo l hi) (hb : b ∈ l) : lo ≤ b.addr ∧ b.fin ≤ hi := by
  induction l generalizing lo with
  | nil => exact absurd hb List.not_mem_nil
  | cons c l ih =>
      rcases List.mem_cons.mp hb with rfl | hb
      · exact ⟨h.1, h.2.le⟩
      · obtain ⟨hlo, hhi⟩ := ih h.2 hb
        exact ⟨Nat.le_trans (Nat.le_trans h.1 (Nat.le_add_right _ _)) hlo, hhi⟩

theorem Tiled.mono (h : Tiled lo l hi) (hle : lo' ≤ lo) : Tiled lo' l hi := by
  cases l with
  | nil => exact Nat.le_trans hle h
  | cons b l => exact ⟨Nat.le_trans hle h.1, h.2⟩

theorem Tiled.pairwise (h : Tiled lo l hi) : l.Pairwise fun b c => b.fin ≤ c.addr := by
  induction l generalizing lo with
  | nil => exact List.Pairwise.nil
  | cons b l ih => exact List.pairwise_cons.mpr ⟨fun c hc => (h.2.bounds hc).1, ih h.2⟩

theorem Tiled.total_le (h : Tiled lo l hi) : lo + total l ≤ hi := by
  induction l generalizing lo with
  | nil => exact h
  | cons b l ih =>
      have hrest := ih h.2
      have hfirst := h.1
      rw [total_cons]
      rw [Block.fin] at hrest
      omega

theorem Tiled.remove (h : Tiled lo (l₁ ++ b :: l₂) hi) : Tiled lo (l₁ ++ l₂) hi := by
  obtain ⟨hbefore, hle, hbehind⟩ := tiled_append.mp h
  exact tiled_append.mpr ⟨hbefore, hbehind.mono (Nat.le_trans hle (Nat.le_add_right _ _))⟩

theorem Tiled.apart (h : Tiled lo l hi) (hb : b ∈ l) (hc : c ∈ l) (hne : b ≠ c) :
    b.fin ≤ c.addr ∨ c.fin ≤ b.addr := by
  obtain ⟨l₁, l₂, rfl⟩ := List.append_of_mem hb
  obtain ⟨hbefore, hle, hbehind⟩ := tiled_append.mp h
  rcases List.mem_append.mp hc with hc | hc
  · exact .inr (Nat.le_trans (hbefore.bounds hc).2 hle)
  · exact .inl (hbehind.bounds ((List.mem_cons.mp hc).resolve_left (Ne.symm hne))).1

theorem place_split (h : place n lo l hi = some (before, addr, behind)) :
    l = before ++ behind ∧ addr = finOf lo before := by
  induction l generalizing lo before with
  | nil =>
      rw [place_nil] at h
      split at h
      · cases h
        exact ⟨rfl, rfl⟩
      · cases h
  | cons b l ih =>
      rw [place_cons] at h
      split at h
      · cases h
        exact ⟨rfl, rfl⟩
      · obtain ⟨⟨before', addr', behind'⟩, hfound, heq⟩ := Option.map_eq_some_iff.mp h
        cases heq
        obtain ⟨rfl, haddr⟩ := ih hfound
        exact ⟨rfl, haddr⟩

theorem Tiled.place (h : Tiled lo l hi) (hplace : place n lo l hi = some (before, addr, behind)) :
    Tiled lo (before ++ ⟨addr, n⟩ :: behind) hi := by
  induction l generalizing lo before with
  | nil =>
      rw [place_nil] at hplace
      split at hplace
      case isTrue hn =>
        cases hplace
        exact ⟨Nat.le_refl _, Nat.add_le_of_le_sub' h hn⟩
      case isFalse => cases hplace
  | cons b l ih =>
      rw [place_cons] at hplace
      split at hplace
      case isTrue hn =>
        cases hplace
        exact ⟨Nat.le_refl _, Nat.add_le_of_le_sub' h.1 hn, h.2⟩
      case isFalse =>
        obtain ⟨⟨before', addr', behind'⟩, hfound, heq⟩ := Option.map_eq_some_iff.mp hplace
        cases heq
        exact ⟨h.1, ih h.2 hfound⟩

theorem place_eq_none : place n lo l hi = none ↔ ∀ g ∈ gaps lo l hi, g < n := by
  induction l generalizing lo with
  | nil =>
      rw [place_nil, gaps_nil, List.forall_mem_singleton]
      split
      case isTrue hn => exact iff_of_false (Option.some_ne_none _) (Nat.not_lt_of_le hn)
      case isFalse hn => exact iff_of_true rfl (Nat.lt_of_not_le hn)
  | cons b l ih =>
      rw [place_cons, gaps_cons, List.forall_mem_cons]
      split
      case isTrue hn => exact iff_of_false (Option.some_ne_none _) fun h => Nat.not_lt_of_le hn h.1
      case isFalse hn =>
        rw [Option.map_eq_none_iff, ih]
        exact (and_iff_right (Nat.lt_of_not_le hn)).symm

end Best1307.FirstFit
