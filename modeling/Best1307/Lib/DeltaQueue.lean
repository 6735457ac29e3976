import Mathlib.Algebra.Order.Ring.Nat
import Mathlib.Order.OrderDual
import Best1307.Lib.PriorityQueue

/-!
# Queues of deadlines as differences

A queue in the order of deadlines can hold with each element how many ticks it comes after the one before it; the
first counts from now. A tick then touches the first element only. What a list of such differences stands for is the
list of the deadlines, and that is what the operations are about.
-/

namespace Best1307.DeltaQueue

open PriorityQueue

variable {α : Type*}

/-- The deadlines, if the differences count from `t`. -/
def deadlines : ℕ → List (α × ℕ) → List (α × ℕ)
  | _, [] => []
  | t, (x, d) :: l => (x, t + d) :: deadlines (t + d) l

def total (l : List (α × ℕ)) : ℕ := (l.map Prod.snd).sum

def advance (d : ℕ) : List (α × ℕ) → List (α × ℕ)
  | [] => []
  | (x, e) :: l => (x, e - d) :: l

def postpone (d : ℕ) : List (α × ℕ) → List (α × ℕ)
  | [] => []
  | (x, e) :: l => (x, e + d) :: l

/-- The sooner a deadline, the higher the rank. -/
def urgency (p : α × ℕ) : ℕᵒᵈ := OrderDual.toDual p.2

def due (t : ℕ) (l : List (α × ℕ)) : List (α × ℕ) := l.takeWhile fun p => p.2 ≤ t

def later (t : ℕ) (l : List (α × ℕ)) : List (α × ℕ) := l.dropWhile fun p => p.2 ≤ t

/-- None of the deadlines has passed. -/
def Ahead (t : ℕ) (l : List (α × ℕ)) : Prop := ∀ p ∈ l, t < p.2

variable {t d e k : ℕ} {x y : α} {p q : α × ℕ} {l l₁ l₂ : List (α × ℕ)}

theorem urgency_le : urgency p ≤ urgency q ↔ q.2 ≤ p.2 := Iff.rfl

theorem urgency_lt : urgency p < urgency q ↔ q.2 < p.2 := Iff.rfl

/-! ### Deadlines -/

@[simp] theorem deadlines_cons : deadlines t ((x, d) :: l) = (x, t + d) :: deadlines (t + d) l := rfl

@[simp] theorem total_cons : total (p :: l) = p.2 + total l := rfl

theorem deadlines_append : deadlines t (l₁ ++ l₂) = deadlines t l₁ ++ deadlines (t + total l₁) l₂ := by
  induction l₁ generalizing t with
  | nil => rfl
  | cons p l₁ ih => simp only [List.cons_append, deadlines, ih, total_cons, Nat.add_assoc]

@[simp] theorem map_fst_deadlines : (deadlines t l).map Prod.fst = l.map Prod.fst := by
  induction l generalizing t with
  | nil => rfl
  | cons p l ih => simp only [deadlines, List.map_cons, ih]

theorem deadlines_postpone : deadlines t (postpone d l) = deadlines (t + d) l := by
  cases l with
  | nil => rfl
  | cons p l => simp only [postpone, deadlines, Nat.add_assoc, Nat.add_comm d]

theorem deadlines_advance (h : ∀ p ∈ l.head?, d ≤ p.2) : deadlines (t + d) (advance d l) = deadlines t l := by
  cases l with
  | nil => rfl
  | cons p l =>
      have hsum : t + d + (p.2 - d) = t + p.2 := by
        have := h p rfl
        omega
      simp only [advance, deadlines, hsum]

theorem le_of_mem_deadlines (h : p ∈ deadlines t l) : t ≤ p.2 := by
  induction l generalizing t with
  | nil => exact absurd h List.not_mem_nil
  | cons q l ih =>
      rcases List.mem_cons.mp h with rfl | h
      · exact Nat.le_add_right _ _
      · exact Nat.le_trans (Nat.le_add_right _ _) (ih h)

theorem le_total_of_mem_deadlines (h : p ∈ deadlines t l) : p.2 ≤ t + total l := by
  induction l generalizing t with
  | nil => exact absurd h List.not_mem_nil
  | cons q l ih =>
      rw [total_cons]
      rcases List.mem_cons.mp h with rfl | h
      · exact Nat.add_le_add_left (Nat.le_add_right _ _) _
      · exact Nat.le_trans (ih h) (Nat.le_of_eq (Nat.add_assoc _ _ _))

theorem ahead_deadlines : Ahead t (deadlines t l) ↔ ∀ p ∈ l.head?, 0 < p.2 := by
  cases l with
  | nil => exact iff_of_true (fun p hp => absurd hp List.not_mem_nil) fun p hp => by cases hp
  | cons q l =>
      constructor
      · intro h p hp
        obtain rfl := Option.some.inj hp
        have := h _ List.mem_cons_self
        exact Nat.pos_of_lt_add_right this
      · intro h p hp
        have hq := h q rfl
        rcases List.mem_cons.mp hp with rfl | hp
        · exact Nat.lt_add_of_pos_right hq
        · exact Nat.lt_of_lt_of_le (Nat.lt_add_of_pos_right hq) (le_of_mem_deadlines hp)

theorem deadlines_insert (hbehind : ∀ p ∈ l₂.head?, d < p.2) :
    deadlines t (l₁ ++ (x, d) :: advance d l₂) = enqueue urgency (x, t + total l₁ + d) (deadlines t (l₁ ++ l₂)) := by
  rw [deadlines_append, deadlines_append, deadlines_cons,
    deadlines_advance fun p hp => Nat.le_of_lt (hbehind p hp), enqueue_append]
  · exact fun p hp => urgency_le.mpr (Nat.le_trans (le_total_of_mem_deadlines hp) (Nat.le_add_right _ _))
  · intro p hp
    cases l₂ with
    | nil => cases hp
    | cons q l₂ =>
        obtain rfl := Option.some.inj hp
        exact urgency_lt.mpr (Nat.add_lt_add_left (hbehind q rfl) _)

/-- An element that is taken out leaves its ticks to the one behind it. -/
theorem deadlines_remove : deadlines t (l₁ ++ postpone d l₂) = deadlines t l₁ ++ deadlines (t + total l₁ + d) l₂ := by
  rw [deadlines_append, deadlines_postpone]

/-! ### What is due -/

theorem due_append_later : due t l ++ later t l = l := List.takeWhile_append_dropWhile

theorem due_deadlines : due t (deadlines t l) = deadlines t (l.takeWhile fun p => p.2 = 0) := by
  induction l with
  | nil => rfl
  | cons p l ih =>
      obtain ⟨x, d⟩ := p
      cases d with
      | zero =>
          rw [List.takeWhile_cons_of_pos (by exact decide_eq_true rfl), deadlines_cons, deadlines_cons, due,
            List.takeWhile_cons_of_pos (by exact decide_eq_true (Nat.le_refl _))]
          exact congrArg _ ih
      | succ d =>
          rw [List.takeWhile_cons_of_neg (by simp), due, deadlines_cons, List.takeWhile_cons_of_neg (by simp)]
          rfl

theorem later_deadlines : later t (deadlines t l) = deadlines t (l.dropWhile fun p => p.2 = 0) := by
  induction l with
  | nil => rfl
  | cons p l ih =>
      obtain ⟨x, d⟩ := p
      cases d with
      | zero =>
          rw [List.dropWhile_cons_of_pos (by exact decide_eq_true rfl), deadlines_cons, later,
            List.dropWhile_cons_of_pos (by exact decide_eq_true (Nat.le_refl _))]
          exact ih
      | succ d =>
          rw [List.dropWhile_cons_of_neg (by simp), later, deadlines_cons, List.dropWhile_cons_of_neg (by simp)]

theorem ahead_later (h : Descending urgency l) : Ahead t (later t l) := by
  induction l with
  | nil => exact fun p hp => absurd hp List.not_mem_nil
  | cons q l ih =>
      by_cases hq : q.2 ≤ t
      · rw [later, List.dropWhile_cons_of_pos (by exact decide_eq_true hq)]
        exact ih h.tail
      · rw [later, List.dropWhile_cons_of_neg (by simpa using hq)]
        exact fun p hp => Nat.lt_of_lt_of_le (Nat.lt_of_not_le hq) (urgency_le.mp (h.le_head hp))

theorem le_of_mem_due (h : p ∈ due t l) : p.2 ≤ t := by
  have := List.mem_takeWhile_imp h
  exact of_decide_eq_true this

/-- In the order of the deadlines nothing that is due stands behind what is not. -/
theorem mem_due (h : Descending urgency l) : p ∈ due t l ↔ p ∈ l ∧ p.2 ≤ t := by
  refine ⟨fun hp => ⟨(List.takeWhile_sublist _).subset hp, le_of_mem_due hp⟩, fun ⟨hp, hle⟩ => ?_⟩
  rw [← due_append_later (t := t) (l := l)] at hp
  rcases List.mem_append.mp hp with hp | hp
  · exact hp
  · exact absurd hle (Nat.not_le_of_lt (ahead_later h p hp))

theorem mem_later (h : Descending urgency l) : p ∈ later t l ↔ p ∈ l ∧ t < p.2 := by
  refine ⟨fun hp => ⟨(List.dropWhile_sublist _).subset hp, ahead_later h p hp⟩, fun ⟨hp, hlt⟩ => ?_⟩
  rw [← due_append_later (t := t) (l := l)] at hp
  rcases List.mem_append.mp hp with hp | hp
  · exact absurd (le_of_mem_due hp) (Nat.not_le_of_lt hlt)
  · exact hp

theorem due_of_ahead (h : Ahead t l) : due t l = [] := by
  refine List.eq_nil_iff_forall_not_mem.mpr fun p hp => ?_
  exact Nat.not_le_of_lt (h p ((List.takeWhile_sublist _).subset hp)) (le_of_mem_due hp)

theorem later_of_ahead (h : Ahead t l) : later t l = l := by
  have := due_append_later (t := t) (l := l)
  rwa [due_of_ahead h, List.nil_append] at this

theorem later_later (h : Descending urgency l) (hle : t ≤ k) : later k (later t l) = later k l := by
  induction l with
  | nil => rfl
  | cons q l ih =>
      by_cases hq : q.2 ≤ t
      · rw [later, later, List.dropWhile_cons_of_pos (by exact decide_eq_true hq), later,
          List.dropWhile_cons_of_pos (by exact decide_eq_true (Nat.le_trans hq hle))]
        exact ih h.tail
      · rw [later, later, List.dropWhile_cons_of_neg (by simpa using hq)]
        rfl

theorem due_due (h : Descending urgency l) (hle : t ≤ k) : due t l ++ due k (later t l) = due k l := by
  induction l with
  | nil => rfl
  | cons q l ih =>
      by_cases hq : q.2 ≤ t
      · have hqk : q.2 ≤ k := Nat.le_trans hq hle
        rw [due, due, due, later, List.takeWhile_cons_of_pos (by exact decide_eq_true hq),
          List.dropWhile_cons_of_pos (by exact decide_eq_true hq),
          List.takeWhile_cons_of_pos (by exact decide_eq_true hqk), List.cons_append]
        exact congrArg _ (ih h.tail)
      · rw [due, later, List.takeWhile_cons_of_neg (by simpa using hq),
          List.dropWhile_cons_of_neg (by simpa using hq)]
        rfl

end Best1307.DeltaQueue
