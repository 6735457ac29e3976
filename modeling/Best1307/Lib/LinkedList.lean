import Mathlib.Data.List.Basic

/-!
# Linked lists of cells

The cells of a memory are numbered, and `next` gives the cell each of them points to. A list of cells is linked
from a pointer if following `next` from it goes through the cells of the list, in order, and then ends.
-/

namespace Best1307.LinkedList

/-- Following `next` from the pointer goes through these cells and ends. -/
def Linked (next : Nat → Option Nat) : Option Nat → List Nat → Prop
  | head, [] => head = none
  | head, i :: cells => head = some i ∧ Linked next (next i) cells

/-- A cell that following `next` from the pointer comes to. -/
inductive Reaches (next : Nat → Option Nat) : Option Nat → Nat → Prop where
  | here (i : Nat) : Reaches next (some i) i
  | ahead {i j : Nat} (h : Reaches next (next i) j) : Reaches next (some i) j

/-- The last cell that `next` comes to from `i`, in at most `fuel` steps. -/
def last (next : Nat → Option Nat) : Nat → Nat → Nat
  | 0, i => i
  | fuel + 1, i =>
      match next i with
      | none => i
      | some j => last next fuel j

section Lemmas

variable {next next' : Nat → Option Nat} {head : Option Nat} {cells cells' : List Nat} {i j fuel : Nat}

theorem linked_nil : Linked next head [] ↔ head = none := Iff.rfl

theorem Linked.eq_nil (h : Linked next none cells) : cells = [] := by
  cases cells with
  | nil => rfl
  | cons i cells => exact absurd h.1 (by simp only [reduceCtorEq, not_false_eq_true])

theorem Linked.of_some (h : Linked next (some i) cells) :
    ∃ rest, cells = i :: rest ∧ Linked next (next i) rest := by
  cases cells with
  | nil => exact absurd h (by simp only [linked_nil, reduceCtorEq, not_false_eq_true])
  | cons j rest =>
      obtain rfl := Option.some.inj h.1
      exact ⟨rest, rfl, h.2⟩

theorem Linked.ne_none (h : Linked next head cells) (hne : cells ≠ []) : head ≠ none := by
  rintro rfl
  exact hne h.eq_nil

theorem Linked.congr (h : Linked next head cells) (hnext : ∀ i ∈ cells, next' i = next i) :
    Linked next' head cells := by
  induction cells generalizing head with
  | nil => exact h
  | cons i cells ih =>
      refine ⟨h.1, ?_⟩
      rw [hnext i List.mem_cons_self]
      exact ih h.2 fun j hj => hnext j (List.mem_cons_of_mem i hj)

theorem Linked.mem_of_reaches (h : Linked next head cells) (hi : Reaches next head i) : i ∈ cells := by
  induction hi generalizing cells with
  | here i =>
      obtain ⟨rest, rfl, -⟩ := h.of_some
      exact List.mem_cons_self
  | ahead _ ih =>
      obtain ⟨rest, rfl, hrest⟩ := h.of_some
      exact List.mem_cons_of_mem _ (ih hrest)

theorem Linked.last_eq (h : Linked next (some i) (cells ++ [j])) (hfuel : cells.length ≤ fuel) :
    last next fuel i = j := by
  induction cells generalizing i fuel with
  | nil =>
      obtain ⟨hi, hend⟩ := h
      obtain rfl := Option.some.inj hi
      cases fuel with
      | zero => rfl
      | succ fuel => simp only [last, linked_nil.mp hend]
  | cons k cells ih =>
      obtain ⟨hi, hrest⟩ := h
      obtain rfl := Option.some.inj hi
      obtain ⟨fuel, rfl⟩ : ∃ m, fuel = m + 1 := ⟨fuel - 1, by simp only [List.length_cons] at hfuel; omega⟩
      cases hnext : next i with
      | none =>
          rw [hnext] at hrest
          exact absurd hrest.eq_nil (List.append_ne_nil_of_right_ne_nil _ (List.cons_ne_nil j []))
      | some k =>
          rw [hnext] at hrest
          simp only [last, hnext]
          exact ih hrest (by simp only [List.length_cons] at hfuel; omega)

theorem Linked.concat (h : Linked next head (cells ++ [j])) (hnodup : (cells ++ [j]).Nodup)
    (hi : i ∉ cells ++ [j]) (hlast : next' j = some i) (hend : next' i = none)
    (hother : ∀ k ∈ cells, next' k = next k) : Linked next' head (cells ++ [j] ++ [i]) := by
  induction cells generalizing head with
  | nil => exact ⟨h.1, hlast, hend⟩
  | cons k cells ih =>
      refine ⟨h.1, ?_⟩
      rw [hother k List.mem_cons_self]
      exact ih h.2 (List.nodup_cons.mp hnodup).2 (fun hmem => hi (List.mem_cons_of_mem k hmem))
        fun m hm => hother m (List.mem_cons_of_mem k hm)

end Lemmas

end Best1307.LinkedList
