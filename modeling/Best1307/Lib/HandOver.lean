import Best1307.Lib.SlotRing

/-!
# Items handed over in a ring of slots

One side puts items into the slots of a ring, one after the other, and marks each slot it has filled; the other side
takes them in the same order and clears the marks. The items are numbered, and item `k` has slot `k` modulo the size of
the ring.
-/

namespace Best1307.SlotRing

variable {β : Type*}

/-- Of the items, the first `taken` have been taken; the others wait in their slots, which are the ones that are marked.
-/
structure Waiting (n : Nat) (full : Nat → Prop) (content : Nat → β) (items : List β) (taken : Nat) : Prop where
  le : taken ≤ items.length
  room : items.length ≤ taken + n
  holds : ∀ k, taken ≤ k → k < items.length → full (k % n) ∧ items[k]? = some (content (k % n))
  free : ∀ k, items.length ≤ k → k < taken + n → ¬ full (k % n)

namespace Waiting

variable {n taken : Nat} {full full' : Nat → Prop} {content content' : Nat → β} {items : List β} {x : β}

theorem empty (hfree : ∀ i, i < n → ¬ full i) : Waiting n full content [] 0 where
  le := Nat.le_refl 0
  room := Nat.zero_le _
  holds := fun k _ hhi => absurd hhi (Nat.not_lt_zero k)
  free := by
    intro k _ hhi
    rw [Nat.zero_add] at hhi
    rw [Nat.mod_eq_of_lt hhi]
    exact hfree k hhi

theorem lt_iff_not_full (h : Waiting n full content items taken) (hn : 0 < n) :
    items.length < taken + n ↔ ¬ full (items.length % n) := by
  constructor
  · exact h.free _ (Nat.le_refl _)
  · intro hfree
    refine lt_of_le_of_ne h.room fun hfull => hfree ?_
    rw [hfull, Nat.add_mod_right]
    exact (h.holds taken (Nat.le_refl _) (by omega)).1

theorem lt_iff_full (h : Waiting n full content items taken) (hn : 0 < n) :
    taken < items.length ↔ full (taken % n) := by
  constructor
  · exact fun hlt => (h.holds taken (Nat.le_refl _) hlt).1
  · intro hfull
    by_contra hempty
    exact h.free taken (Nat.le_of_not_lt hempty) (Nat.lt_add_of_pos_right hn) hfull

theorem write (h : Waiting n full content items taken) (hroom : items.length < taken + n)
    (hcontent : ∀ i, i ≠ items.length % n → content' i = content i) : Waiting n full content' items taken where
  le := h.le
  room := h.room
  holds := by
    intro k hlo hhi
    rw [hcontent _ (mod_ne hlo (by omega) h.le hroom (Nat.ne_of_lt hhi))]
    exact h.holds k hlo hhi
  free := h.free

theorem push (h : Waiting n full content items taken) (hroom : items.length < taken + n)
    (hfull : ∀ i, full' i ↔ i = items.length % n ∨ full i) (hx : content (items.length % n) = x) :
    Waiting n full' content (items ++ [x]) taken where
  le := by
    rw [List.length_append]
    exact Nat.le_add_right_of_le h.le
  room := by
    rw [List.length_append]
    exact hroom
  holds := by
    intro k hlo hhi
    rw [List.length_append, List.length_singleton, Nat.lt_succ_iff_lt_or_eq] at hhi
    rw [hfull]
    cases hhi with
    | inl hlt =>
      obtain ⟨hk, hitem⟩ := h.holds k hlo hlt
      rw [List.getElem?_append_left hlt]
      exact ⟨.inr hk, hitem⟩
    | inr heq =>
      rw [heq, hx, List.getElem?_concat_length]
      exact ⟨.inl rfl, rfl⟩
  free := by
    intro k hlo hhi
    rw [List.length_append, List.length_singleton] at hlo
    have hne : k % n ≠ items.length % n :=
      mod_ne (Nat.le_trans h.le (Nat.le_of_lt hlo)) hhi h.le hroom (Nat.ne_of_gt hlo)
    rw [hfull, not_or]
    exact ⟨hne, h.free k (by omega) hhi⟩

theorem pop (h : Waiting n full content items taken) (hlt : taken < items.length)
    (hfull : ∀ i, full' i ↔ i ≠ taken % n ∧ full i) : Waiting n full' content items (taken + 1) where
  le := hlt
  room := Nat.le_trans h.room (Nat.add_le_add_right (Nat.le_succ _) n)
  holds := by
    intro k hlo hhi
    have hroom := h.room
    have hne : k % n ≠ taken % n := mod_ne (Nat.le_of_lt hlo) (by omega) (Nat.le_refl taken) (by omega) (by omega)
    obtain ⟨hk, hitem⟩ := h.holds k (by omega) hhi
    exact ⟨(hfull _).mpr ⟨hne, hk⟩, hitem⟩
  free := by
    intro k hlo hhi
    rw [hfull]
    intro hk
    rcases Nat.lt_or_ge k (taken + n) with hlt' | hge
    · exact h.free k hlo hlt' hk.2
    · have heq : k = taken + n := by omega
      rw [heq, Nat.add_mod_right] at hk
      exact hk.1 rfl

end Waiting

end Best1307.SlotRing
