import Mathlib.Logic.Function.Basic
import Mathlib.Data.List.Nodup
import Mathlib.Data.List.TakeWhile
import Best1307.Lib.While

/-!
# Doubly linked lists

The elements of a list are linked through fields of their own, and the list hangs from a root that has a `next` but no
`prev`. A root may be an object of its own that elements point back to, or a variable that holds the first element,
whose `prev` is then null. Both are covered: `node` makes an element a place that a `next` can be read from, and `back`
is what a `prev` field holds when the place before is the given one.
-/

namespace Best1307.DoublyLinked

variable {α ν π : Type*}

/-- The fields `next` of the places and `prev` of the elements. -/
structure Links (α ν π : Type*) where
  next : ν → Option α
  prev : α → π

variable (node : α → ν) (back : ν → π)

/-- The links from `p` through these elements, without what comes behind them. -/
def Path (s : Links α ν π) : ν → List α → Prop
  | _, [] => True
  | p, x :: rest => s.next p = some x ∧ s.prev x = back p ∧ Path s (node x) rest

/-- The place that a path ends at. -/
def endOf : ν → List α → ν
  | p, [] => p
  | _, x :: rest => endOf (node x) rest

/-- The list that hangs from `r`. -/
def Chain (s : Links α ν π) (r : ν) (l : List α) : Prop := Path node back s r l ∧ s.next (endOf node r l) = none

def places (r : ν) (l : List α) : List ν := r :: l.map node

section Operations

variable [DecidableEq α]

def setPrev (s : Links α ν π) (x : Option α) (p : π) : Links α ν π :=
  match x with
  | none => s
  | some y => { s with prev := Function.update s.prev y p }

variable [DecidableEq ν]

/-- `x` between the place `p` and what was behind it. -/
def insertAfter (s : Links α ν π) (p : ν) (x : α) : Links α ν π :=
  setPrev
    { next := Function.update (Function.update s.next (node x) (s.next p)) p (some x)
      prev := Function.update s.prev x (back p) }
    (s.next p) (back (node x))

/-- `x`, or nothing, follows the place `p`. -/
def connect (s : Links α ν π) (p : ν) (x : Option α) : Links α ν π :=
  setPrev { s with next := Function.update s.next p x } x (back p)

/-- What is behind `x` follows the place `p` before it; the fields of `x` stay. -/
def bypass (s : Links α ν π) (p : ν) (x : α) : Links α ν π := connect back s p (s.next (node x))

end Operations

/-- `while (next != NULL && pass(next)) { prev = next; next = next->next; }` from the place `r` -/
def seek (s : Links α ν π) (pass : α → Bool) (fuel : Nat) (r : ν) : Option (ν × Option α) :=
  whileLoop (fun place : ν × Option α => place.2.any pass)
    (fun place => place.2.map fun x => (node x, s.next (node x))) fuel (r, s.next r)

variable {node back} {s s' : Links α ν π} {p q r : ν} {x y z : α} {l l₁ l₂ : List α}

/-! ### Paths -/

@[simp] theorem endOf_cons : endOf node p (x :: l) = endOf node (node x) l := rfl

theorem endOf_append : endOf node p (l₁ ++ l₂) = endOf node (endOf node p l₁) l₂ := by
  induction l₁ generalizing p with
  | nil => rfl
  | cons x l₁ ih => exact ih

theorem endOf_mem : endOf node p l ∈ places node p l := by
  induction l generalizing p with
  | nil => exact List.mem_cons_self
  | cons x l ih => exact List.mem_cons_of_mem p ih

theorem places_append : places node p (l₁ ++ l₂) = places node p l₁ ++ l₂.map node := by
  rw [places, places, List.map_append, List.cons_append]

theorem mem_places (h : x ∈ l) : node x ∈ places node p l := List.mem_cons_of_mem p (List.mem_map_of_mem h)

theorem path_append : Path node back s p (l₁ ++ l₂) ↔
    Path node back s p l₁ ∧ Path node back s (endOf node p l₁) l₂ := by
  induction l₁ generalizing p with
  | nil => exact ⟨fun h => ⟨trivial, h⟩, And.right⟩
  | cons x l₁ ih => simp only [List.cons_append, Path, endOf_cons, ih, and_assoc]

theorem chain_append : Chain node back s r (l₁ ++ l₂) ↔
    Path node back s r l₁ ∧ Chain node back s (endOf node r l₁) l₂ := by
  rw [Chain, Chain, path_append, endOf_append, and_assoc]

theorem chain_cons : Chain node back s r (x :: l) ↔
    s.next r = some x ∧ s.prev x = back r ∧ Chain node back s (node x) l := by
  simp only [Chain, Path, endOf_cons, and_assoc]

theorem chain_nil : Chain node back s r [] ↔ s.next r = none := ⟨And.right, fun h => ⟨trivial, h⟩⟩

theorem Chain.next_eq (h : Chain node back s r l) : s.next r = l.head? := by
  cases l with
  | nil => exact chain_nil.mp h
  | cons x l => exact (chain_cons.mp h).1

theorem Path.congr (h : Path node back s p l) (hnodup : (places node p l).Nodup)
    (hnext : ∀ q ∈ places node p l, q ≠ endOf node p l → s'.next q = s.next q)
    (hprev : ∀ x ∈ l, s'.prev x = s.prev x) : Path node back s' p l := by
  induction l generalizing p with
  | nil => trivial
  | cons x l ih =>
      obtain ⟨hnextx, hprevx, hrest⟩ := h
      obtain ⟨hp, hnodup⟩ := List.nodup_cons.mp hnodup
      refine ⟨?_, ?_, ih hrest hnodup ?_ ?_⟩
      · rw [hnext p List.mem_cons_self fun heq => hp (heq ▸ endOf_mem)]
        exact hnextx
      · rw [hprev x List.mem_cons_self]
        exact hprevx
      · exact fun q hq hne => hnext q (List.mem_cons_of_mem p hq) hne
      · exact fun y hy => hprev y (List.mem_cons_of_mem x hy)

theorem Chain.congr (h : Chain node back s r l) (hnodup : (places node r l).Nodup)
    (hnext : ∀ q ∈ places node r l, s'.next q = s.next q) (hprev : ∀ x ∈ l, s'.prev x = s.prev x) :
    Chain node back s' r l := by
  refine ⟨h.1.congr hnodup (fun q hq _ => hnext q hq) hprev, ?_⟩
  rw [hnext _ endOf_mem]
  exact h.2

theorem ne_endOf (hnodup : (places node r (l₁ ++ l₂)).Nodup) (hz : z ∈ l₂) : node z ≠ endOf node r l₁ := by
  rw [places_append] at hnodup
  intro heq
  exact (List.nodup_append.mp hnodup).2.2 _ endOf_mem _ (List.mem_map_of_mem hz) heq.symm

/-! ### The search -/

theorem Chain.seek_eq (h : Chain node back s r l) (pass : α → Bool) {fuel : Nat} (hfuel : l.length ≤ fuel) :
    seek node s pass fuel r = some (endOf node r (l.takeWhile pass), (l.dropWhile pass).head?) := by
  induction l generalizing r fuel with
  | nil =>
      rw [seek, chain_nil.mp h]
      exact whileLoop_of_false rfl
  | cons x l ih =>
      obtain ⟨hnext, -, hrest⟩ := chain_cons.mp h
      obtain ⟨fuel, rfl⟩ := Nat.exists_eq_add_one.mpr (Nat.lt_of_lt_of_le (Nat.succ_pos l.length) hfuel)
      rw [seek, hnext]
      cases hpass : pass x with
      | false =>
          rw [List.takeWhile_cons_of_neg (by rw [hpass]; decide), List.dropWhile_cons_of_neg (by rw [hpass]; decide)]
          exact whileLoop_of_false hpass
      | true =>
          rw [List.takeWhile_cons_of_pos hpass, List.dropWhile_cons_of_pos hpass, endOf_cons,
            ← ih hrest (Nat.le_of_succ_le_succ hfuel)]
          exact whileLoop_of_true hpass rfl

/-! ### Insertion and removal -/

section Operations

variable [DecidableEq α] {b : π}

@[simp] theorem setPrev_next {n : Option α} : (setPrev s n b).next = s.next := by
  cases n <;> rfl

theorem setPrev_prev_of_ne {n : Option α} (h : n ≠ some z) : (setPrev s n b).prev z = s.prev z := by
  cases n with
  | none => rfl
  | some y => exact Function.update_of_ne (fun heq => h (congrArg some heq.symm)) _ _

theorem setPrev_prev_self : (setPrev s (some z) b).prev z = b := Function.update_self _ _ _

variable [DecidableEq ν]

theorem insertAfter_next_self : (insertAfter node back s p x).next p = some x := by
  rw [insertAfter, setPrev_next]
  exact Function.update_self _ _ _

theorem insertAfter_next_new (h : node x ≠ p) : (insertAfter node back s p x).next (node x) = s.next p := by
  rw [insertAfter, setPrev_next]
  refine (Function.update_of_ne h _ _).trans ?_
  exact Function.update_self _ _ _

theorem insertAfter_next_of_ne (hp : q ≠ p) (hx : q ≠ node x) : (insertAfter node back s p x).next q = s.next q := by
  rw [insertAfter, setPrev_next]
  exact (Function.update_of_ne hp _ _).trans (Function.update_of_ne hx _ _)

theorem insertAfter_prev_new (h : s.next p ≠ some x) : (insertAfter node back s p x).prev x = back p := by
  rw [insertAfter, setPrev_prev_of_ne h]
  exact Function.update_self _ _ _

theorem insertAfter_prev_behind (h : s.next p = some z) :
    (insertAfter node back s p x).prev z = back (node x) := by
  rw [insertAfter, h]
  exact setPrev_prev_self

theorem insertAfter_prev_of_ne (hx : z ≠ x) (hp : s.next p ≠ some z) :
    (insertAfter node back s p x).prev z = s.prev z := by
  rw [insertAfter, setPrev_prev_of_ne hp]
  exact Function.update_of_ne hx _ _

theorem connect_next_self {n : Option α} : (connect back s p n).next p = n := by
  rw [connect, setPrev_next]
  exact Function.update_self _ _ _

theorem connect_next_of_ne {n : Option α} (h : q ≠ p) : (connect back s p n).next q = s.next q := by
  rw [connect, setPrev_next]
  exact Function.update_of_ne h _ _

theorem connect_prev_self : (connect back s p (some z)).prev z = back p := setPrev_prev_self

theorem connect_prev_of_ne {n : Option α} (h : n ≠ some z) : (connect back s p n).prev z = s.prev z :=
  setPrev_prev_of_ne h

theorem Chain.bypass_eq (h : Chain node back s r (l₁ ++ x :: l₂)) :
    DoublyLinked.bypass node back s p x = DoublyLinked.connect back s p l₂.head? := by
  rw [DoublyLinked.bypass, (chain_cons.mp (chain_append.mp h).2).2.2.next_eq]

theorem Chain.insertAfter (h : Chain node back s r (l₁ ++ l₂)) (hnodup : (places node r (l₁ ++ x :: l₂)).Nodup) :
    Chain node back (insertAfter node back s (endOf node r l₁) x) r (l₁ ++ x :: l₂) := by
  obtain ⟨hbefore, hbehind⟩ := chain_append.mp h
  have hx : node x ≠ endOf node r l₁ := ne_endOf hnodup List.mem_cons_self
  have hnext := hbehind.next_eq
  rw [places_append, List.map_cons] at hnodup
  obtain ⟨hleft, hright, hcross⟩ := List.nodup_append.mp hnodup
  obtain ⟨hxrest, hrest⟩ := List.nodup_cons.mp hright
  have hbefore_ne : ∀ y ∈ l₁, y ≠ x ∧ y ∉ l₂ := fun y hy =>
    ⟨fun heq => hcross _ (mem_places hy) _ List.mem_cons_self (congrArg node heq),
      fun hmem => hcross _ (mem_places hy) _ (List.mem_cons_of_mem _ (List.mem_map_of_mem hmem)) rfl⟩
  have hx₂ : x ∉ l₂ := fun hmem => hxrest (List.mem_map_of_mem hmem)
  have hhead : ∀ z, s.next (endOf node r l₁) = some z → z ∈ l₂ := fun z hz =>
    List.mem_of_head? (hnext.symm.trans hz)
  rw [chain_append, chain_cons]
  refine ⟨hbefore.congr hleft ?_ ?_, insertAfter_next_self,
    insertAfter_prev_new fun heq => hx₂ (hhead x heq), ?_⟩
  · exact fun q hq hne => insertAfter_next_of_ne hne (hcross q hq _ List.mem_cons_self)
  · exact fun y hy => insertAfter_prev_of_ne (hbefore_ne y hy).1 fun heq => (hbefore_ne y hy).2 (hhead y heq)
  · cases l₂ with
    | nil =>
        rw [chain_nil, insertAfter_next_new hx]
        exact hnext
    | cons z l₂ =>
        obtain ⟨-, -, htail⟩ := chain_cons.mp hbehind
        rw [chain_cons, insertAfter_next_new hx]
        refine ⟨hnext, insertAfter_prev_behind hnext, htail.congr hrest ?_ ?_⟩
        · intro q hq
          refine insertAfter_next_of_ne (fun heq => ?_) fun heq => hxrest (heq ▸ hq)
          exact hcross _ (heq ▸ endOf_mem) _ (List.mem_cons_of_mem _ hq) rfl
        · intro y hy
          refine insertAfter_prev_of_ne (fun heq => hx₂ (heq ▸ List.mem_cons_of_mem z hy)) fun heq => ?_
          obtain rfl := Option.some.inj (hnext.symm.trans heq)
          exact (List.nodup_cons.mp hrest).1 (List.mem_map_of_mem hy)

theorem Chain.connect (l₁ l₂ : List α) {l₃ : List α} (h : Chain node back s r (l₁ ++ (l₂ ++ l₃)))
    (hnodup : (places node r (l₁ ++ (l₂ ++ l₃))).Nodup) :
    Chain node back (connect back s (endOf node r l₁) l₃.head?) r (l₁ ++ l₃) := by
  obtain ⟨hbefore, hbehind⟩ := chain_append.mp h
  have htail := (chain_append.mp hbehind).2
  rw [places_append, List.map_append] at hnodup
  obtain ⟨hleft, hright, hcross⟩ := List.nodup_append.mp hnodup
  have hrest := (List.nodup_append.mp hright).2.1
  have hapart : ∀ p ∈ places node r l₁, ∀ y ∈ l₃, p ≠ node y := fun p hp y hy =>
    hcross p hp _ (List.mem_append_right _ (List.mem_map_of_mem hy))
  rw [chain_append]
  refine ⟨hbefore.congr hleft ?_ ?_, ?_⟩
  · exact fun q _ hne => connect_next_of_ne hne
  · exact fun y hy => connect_prev_of_ne fun heq => hapart _ (mem_places hy) y (List.mem_of_head? heq) rfl
  · cases l₃ with
    | nil => exact chain_nil.mpr connect_next_self
    | cons z l₃ =>
        obtain ⟨-, -, hafter⟩ := chain_cons.mp htail
        rw [chain_cons]
        refine ⟨connect_next_self, connect_prev_self, hafter.congr hrest ?_ ?_⟩
        · refine fun q hq => connect_next_of_ne fun heq => ?_
          have hmem : q ∈ (z :: l₃).map node := hq
          obtain ⟨y, hy, rfl⟩ := List.mem_map.mp hmem
          exact hapart _ endOf_mem y hy heq.symm
        · refine fun y hy => connect_prev_of_ne fun heq => ?_
          obtain rfl := Option.some.inj heq
          exact (List.nodup_cons.mp hrest).1 (List.mem_map_of_mem hy)

theorem Chain.bypass (l₁ : List α) (h : Chain node back s r (l₁ ++ x :: l₂))
    (hnodup : (places node r (l₁ ++ x :: l₂)).Nodup) :
    Chain node back (bypass node back s (endOf node r l₁) x) r (l₁ ++ l₂) := by
  rw [h.bypass_eq]
  exact Chain.connect l₁ [x] h hnodup

/-- Another list does not notice a new element. -/
theorem Chain.insertAfter_other {r' : ν} {l' : List α} (h' : Chain node back s r' l')
    (h : Chain node back s r (l₁ ++ l₂)) (hnodup : (places node r' l').Nodup)
    (hapart : List.Disjoint (places node r' l') (places node r (l₁ ++ x :: l₂))) :
    Chain node back (DoublyLinked.insertAfter node back s (endOf node r l₁) x) r' l' := by
  rw [places_append] at hapart
  refine h'.congr hnodup (fun q hq => insertAfter_next_of_ne ?_ ?_) fun y hy => insertAfter_prev_of_ne ?_ ?_
  · exact fun heq => hapart hq (List.mem_append_left _ (heq ▸ endOf_mem))
  · exact fun heq => hapart hq (List.mem_append_right _ (heq ▸ List.mem_cons_self))
  · exact fun heq => hapart (mem_places hy) (List.mem_append_right _ (heq ▸ List.mem_cons_self))
  · rw [(chain_append.mp h).2.next_eq]
    exact fun heq => hapart (mem_places hy) (List.mem_append_right _
      (List.mem_cons_of_mem _ (List.mem_map_of_mem (List.mem_of_head? heq))))

theorem Chain.connect_other (l₁ : List α) {r' : ν} {l' l₃ : List α} (h' : Chain node back s r' l')
    (hnodup : (places node r' l').Nodup) (hapart : List.Disjoint (places node r' l') (places node r (l₁ ++ l₃))) :
    Chain node back (DoublyLinked.connect back s (endOf node r l₁) l₃.head?) r' l' := by
  rw [places_append] at hapart
  refine h'.congr hnodup (fun q hq => connect_next_of_ne ?_) fun y hy => connect_prev_of_ne ?_
  · exact fun heq => hapart hq (List.mem_append_left _ (heq ▸ endOf_mem))
  · exact fun heq => hapart (mem_places hy) (List.mem_append_right _ (List.mem_map_of_mem (List.mem_of_head? heq)))

end Operations

end Best1307.DoublyLinked
