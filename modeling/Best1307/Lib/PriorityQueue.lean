import Mathlib.Data.List.Pairwise
import Mathlib.Data.List.Nodup
import Mathlib.Data.List.TakeWhile
import Mathlib.Order.Lattice

/-!
# Queues in the order of a rank

The elements of a queue stand in descending order of their rank, those of one rank in the order they came. A newcomer
goes behind its equals, or, if it goes back to where it came from, in front of them. Either way the elements that were
there keep their order.
-/

namespace Best1307.PriorityQueue

variable {α ρ : Type*} [LinearOrder ρ] (rank rank' : α → ρ)

/-- Behind everything of at least its rank -/
def enqueue (x : α) (l : List α) : List α :=
  l.takeWhile (fun y => rank x ≤ rank y) ++ x :: l.dropWhile (fun y => rank x ≤ rank y)

/-- Behind everything of a higher rank only -/
def putBack (x : α) (l : List α) : List α :=
  l.takeWhile (fun y => rank x < rank y) ++ x :: l.dropWhile (fun y => rank x < rank y)

def Descending (l : List α) : Prop := l.Pairwise fun x y => rank y ≤ rank x

variable {rank rank'} {x y : α} {l : List α} {p : α → Bool}

/-! ### What a newcomer changes -/

theorem perm_insert : List.Perm (l.takeWhile p ++ x :: l.dropWhile p) (x :: l) := by
  have hwhole := List.takeWhile_append_dropWhile (p := p) (l := l)
  calc List.Perm (l.takeWhile p ++ x :: l.dropWhile p) (x :: (l.takeWhile p ++ l.dropWhile p)) := List.perm_middle
    _ = x :: l := by rw [hwhole]

theorem perm_enqueue : List.Perm (enqueue rank x l) (x :: l) := perm_insert

theorem perm_putBack : List.Perm (putBack rank x l) (x :: l) := perm_insert

@[simp] theorem mem_enqueue : y ∈ enqueue rank x l ↔ y = x ∨ y ∈ l := by
  rw [perm_enqueue.mem_iff, List.mem_cons]

@[simp] theorem mem_putBack : y ∈ putBack rank x l ↔ y = x ∨ y ∈ l := by
  rw [perm_putBack.mem_iff, List.mem_cons]

@[simp] theorem length_enqueue : (enqueue rank x l).length = l.length + 1 := perm_enqueue.length_eq

/-- Where the newcomer goes, if it is known what stands before and what is first behind. -/
theorem enqueue_append {l₁ l₂ : List α} (hbefore : ∀ y ∈ l₁, rank x ≤ rank y)
    (hbehind : ∀ y ∈ l₂.head?, rank y < rank x) : enqueue rank x (l₁ ++ l₂) = l₁ ++ x :: l₂ := by
  have hpass : ∀ y ∈ l₁, decide (rank x ≤ rank y) = true := fun y hy => decide_eq_true (hbefore y hy)
  have hstop : l₂.takeWhile (fun y => decide (rank x ≤ rank y)) = [] ∧
      l₂.dropWhile (fun y => decide (rank x ≤ rank y)) = l₂ := by
    cases l₂ with
    | nil => exact ⟨rfl, rfl⟩
    | cons y l₂ =>
        have hy : ¬ decide (rank x ≤ rank y) = true := by
          rw [decide_eq_true_iff]
          exact not_le_of_gt (hbehind y rfl)
        exact ⟨List.takeWhile_cons_of_neg hy, List.dropWhile_cons_of_neg hy⟩
  rw [enqueue, List.takeWhile_append_of_pos hpass, List.dropWhile_append_of_pos hpass, hstop.1, hstop.2,
    List.append_nil]

theorem enqueue_append_of_le {l₁ l₂ : List α} (hbefore : ∀ y ∈ l₁, rank x ≤ rank y) :
    enqueue rank x (l₁ ++ l₂) = l₁ ++ enqueue rank x l₂ := by
  have hpass : ∀ y ∈ l₁, decide (rank x ≤ rank y) = true := fun y hy => decide_eq_true (hbefore y hy)
  rw [enqueue, List.takeWhile_append_of_pos hpass, List.dropWhile_append_of_pos hpass, List.append_assoc]
  rfl

/-! ### The order is kept -/

theorem Descending.nil : Descending rank ([] : List α) := List.Pairwise.nil

theorem Descending.sublist {l' : List α} (h : Descending rank l) (hsub : l'.Sublist l) : Descending rank l' :=
  List.Pairwise.sublist hsub h

theorem Descending.le_head (h : Descending rank (x :: l)) (hy : y ∈ x :: l) : rank y ≤ rank x := by
  rcases List.mem_cons.mp hy with rfl | hy
  · exact le_refl _
  · exact (List.pairwise_cons.mp h).1 y hy

theorem Descending.tail (h : Descending rank (x :: l)) : Descending rank l := (List.pairwise_cons.mp h).2

theorem Descending.congr (h : Descending rank l) (hrank : ∀ x ∈ l, rank' x = rank x) : Descending rank' l := by
  refine List.Pairwise.imp_of_mem (fun {a b} ha hb hle => ?_) h
  rw [hrank a ha, hrank b hb]
  exact hle

/-- Where the newcomer has the rank of neither side against it, the order is kept. -/
theorem Descending.insert (h : Descending rank l) (hbefore : ∀ y, p y = true → rank x ≤ rank y)
    (hbehind : ∀ y, p y = false → rank y ≤ rank x) :
    Descending rank (l.takeWhile p ++ x :: l.dropWhile p) := by
  induction l with
  | nil => exact List.pairwise_singleton _ _
  | cons y l ih =>
      obtain ⟨hy, hl⟩ := List.pairwise_cons.mp h
      cases hp : p y with
      | true =>
          rw [List.takeWhile_cons_of_pos hp, List.dropWhile_cons_of_pos hp]
          refine List.pairwise_cons.mpr ⟨fun z hz => ?_, ih hl⟩
          rcases List.mem_cons.mp (perm_insert.mem_iff.mp hz) with rfl | hz
          · exact hbefore y hp
          · exact hy z hz
      | false =>
          rw [List.takeWhile_cons_of_neg (by rw [hp]; decide), List.dropWhile_cons_of_neg (by rw [hp]; decide)]
          refine List.pairwise_cons.mpr ⟨fun z hz => ?_, h⟩
          rcases List.mem_cons.mp hz with rfl | hz
          · exact hbehind z hp
          · exact le_trans (hy z hz) (hbehind y hp)

theorem Descending.enqueue (h : Descending rank l) : Descending rank (enqueue rank x l) := by
  refine h.insert (fun y hy => of_decide_eq_true hy) fun y hy => ?_
  exact le_of_lt (lt_of_not_ge (of_decide_eq_false hy))

theorem Descending.putBack (h : Descending rank l) : Descending rank (putBack rank x l) := by
  refine h.insert (fun y hy => le_of_lt (of_decide_eq_true hy)) fun y hy => ?_
  exact le_of_not_gt (of_decide_eq_false hy)

end Best1307.PriorityQueue
