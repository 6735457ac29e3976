import Best1307.Lib.DeltaQueue
import Best1307.Lib.DoublyLinked

/-!
# Linked lists of differences

The elements of a doubly linked list hold how many ticks each comes after the one before it. The counters are words: a
sum is taken below `size`, and that it fits is a matter of how far ahead the deadlines are.
-/

namespace Best1307.DeltaList

open DoublyLinked DeltaQueue PriorityQueue

variable {α ν π : Type*}

structure Timed (α ν π : Type*) where
  links : Links α ν π
  ticks : α → ℕ

variable (node : α → ν) (back : ν → π) (size : ℕ)

/-- `while (next != NULL && next->ticks <= ticks) { ticks -= next->ticks; prev = next; next = next->next; }` -/
def seekTicks (s : Timed α ν π) (fuel : ℕ) (r : ν) (ticks : ℕ) : Option (ℕ × ν × Option α) :=
  whileLoop (fun place : ℕ × ν × Option α => place.2.2.any fun x => s.ticks x ≤ place.1)
    (fun place => place.2.2.map fun x => (place.1 - s.ticks x, node x, s.links.next (node x))) fuel
    (ticks, r, s.links.next r)

def differences (s : Timed α ν π) (l : List α) : List (α × ℕ) := l.map fun x => (x, s.ticks x)

/-- `while (next != NULL && next->ticks == 0) next = next->next;`, with the elements that it passes -/
def walkDue (s : Timed α ν π) (fuel : ℕ) (first : Option α) : Option (Option α × List α) :=
  whileLoop (fun place : Option α × List α => place.1.any fun x => s.ticks x = 0)
    (fun place => place.1.map fun x => (s.links.next (node x), place.2 ++ [x])) fuel (first, [])

/-- The list that hangs from `r` holds these deadlines, where the first difference counts from `t`. -/
structure Holds (s : Timed α ν π) (r : ν) (t : ℕ) (entries : List (α × ℕ)) : Prop where
  chain : Chain node back s.links r (entries.map Prod.fst)
  deadlines : DeltaQueue.deadlines t (differences s (entries.map Prod.fst)) = entries

section Operations

variable [DecidableEq α]

def setTicks (s : Timed α ν π) (x : α) (ticks : ℕ) : Timed α ν π :=
  { s with ticks := Function.update s.ticks x ticks }

/-- The element behind comes after a shorter time. -/
def shorten (s : Timed α ν π) (x : Option α) (ticks : ℕ) : Timed α ν π :=
  match x with
  | none => s
  | some y => setTicks s y (s.ticks y - ticks)

/-- The element behind comes after a longer time. -/
def lengthen (s : Timed α ν π) (x : Option α) (ticks : ℕ) : Timed α ν π :=
  match x with
  | none => s
  | some y => setTicks s y ((s.ticks y + ticks) % size)

variable [DecidableEq ν]

/-- `x` where the search stopped, with the ticks that were left then. -/
def insertTicks (s : Timed α ν π) (x : α) (place : ℕ × ν × Option α) : Timed α ν π :=
  { shorten (setTicks s x place.1) place.2.2 place.1 with links := insertAfter node back s.links place.2.1 x }

/-- `x` is taken out from behind the place `p` and leaves its ticks to the element behind it. -/
def withdraw (s : Timed α ν π) (p : ν) (x : α) : Timed α ν π :=
  { lengthen size s (s.links.next (node x)) (s.ticks x) with links := bypass node back s.links p x }

end Operations

variable {node back size} {s s' : Timed α ν π} {p q r r' : ν} {x y : α} {l l₁ l₂ : List α} {t d fuel : ℕ}
  {entries entries₁ entries₂ : List (α × ℕ)}

/-! ### Differences -/

@[simp] theorem differences_cons : differences s (x :: l) = (x, s.ticks x) :: differences s l := rfl

@[simp] theorem differences_append : differences s (l₁ ++ l₂) = differences s l₁ ++ differences s l₂ :=
  List.map_append

@[simp] theorem map_fst_differences : (differences s l).map Prod.fst = l := by
  rw [differences, List.map_map]
  exact List.map_id l

theorem differences_congr (h : ∀ x ∈ l, s'.ticks x = s.ticks x) : differences s' l = differences s l :=
  List.map_congr_left fun x hx => congrArg (Prod.mk x) (h x hx)

theorem holds_of_chain (h : Chain node back s.links r l) :
    Holds node back s r t (deadlines t (differences s l)) := by
  have hkeys : (deadlines t (differences s l)).map Prod.fst = l := by
    rw [map_fst_deadlines, map_fst_differences]
  exact ⟨hkeys.symm ▸ h, by rw [hkeys]⟩

theorem Holds.of_differences (h : Chain node back s.links r l)
    (hdeadlines : DeltaQueue.deadlines t (differences s l) = entries) :
    Holds node back s r t entries :=
  hdeadlines ▸ holds_of_chain h

theorem Holds.congr (h : Holds node back s r t entries) (hnodup : (places node r (entries.map Prod.fst)).Nodup)
    (hnext : ∀ q ∈ places node r (entries.map Prod.fst), s'.links.next q = s.links.next q)
    (hprev : ∀ x ∈ entries.map Prod.fst, s'.links.prev x = s.links.prev x)
    (hticks : ∀ x ∈ entries.map Prod.fst, s'.ticks x = s.ticks x) : Holds node back s' r t entries :=
  ⟨h.chain.congr hnodup hnext hprev, (congrArg _ (differences_congr hticks)).trans h.deadlines⟩

theorem Holds.next_eq (h : Holds node back s r t entries) : s.links.next r = (entries.map Prod.fst).head? :=
  h.chain.next_eq

theorem Holds.ticks_le (h : Holds node back s r t entries) {e : α × ℕ} (he : e ∈ entries) : t + s.ticks e.1 ≤ e.2 := by
  have hle : ∀ (l : List α) (t : ℕ), e ∈ DeltaQueue.deadlines t (differences s l) → t + s.ticks e.1 ≤ e.2 := by
    intro l
    induction l with
    | nil => exact fun t he => absurd he List.not_mem_nil
    | cons x l ih =>
        intro t he
        rcases List.mem_cons.mp he with rfl | he
        · exact Nat.le_refl _
        · exact Nat.le_trans (Nat.add_le_add_right (Nat.le_add_right _ _) _) (ih _ he)
  rw [← h.deadlines] at he
  exact hle _ t he

theorem Holds.ticks_head (h : Holds node back s r t ((x, d) :: entries)) : t + s.ticks x = d :=
  (Prod.mk.inj (List.cons.inj h.deadlines).1).2

theorem holds_nil (h : s.links.next r = none) : Holds node back s r t [] := ⟨chain_nil.mpr h, rfl⟩

/-! ### The search -/

/-- The loop stops behind what comes no later, with the ticks that are left. -/
theorem seekTicks_eq (h : Chain node back s.links r l) (hfuel : l.length ≤ fuel) :
    ∃ l₁ l₂ rest, l = l₁ ++ l₂ ∧ d = total (differences s l₁) + rest ∧ (∀ y ∈ l₂.head?, rest < s.ticks y) ∧
      seekTicks node s fuel r d = some (rest, endOf node r l₁, l₂.head?) := by
  induction l generalizing r fuel d with
  | nil =>
      refine ⟨[], [], d, rfl, (Nat.zero_add d).symm, (fun y hy => by cases hy), ?_⟩
      rw [seekTicks, chain_nil.mp h]
      exact whileLoop_of_false rfl
  | cons x l ih =>
      obtain ⟨hnext, -, hrest⟩ := chain_cons.mp h
      obtain ⟨fuel, rfl⟩ := Nat.exists_eq_add_one.mpr (Nat.lt_of_lt_of_le (Nat.succ_pos l.length) hfuel)
      rw [seekTicks, hnext]
      by_cases hpass : s.ticks x ≤ d
      · obtain ⟨l₁, l₂, rest, rfl, hd, hbehind, hseek⟩ :=
          ih (d := d - s.ticks x) hrest (Nat.le_of_succ_le_succ hfuel)
        refine ⟨x :: l₁, l₂, rest, rfl, ?_, hbehind, ?_⟩
        · rw [differences_cons, total_cons]
          dsimp only
          omega
        · rw [endOf_cons, ← hseek]
          exact whileLoop_of_true (decide_eq_true hpass) rfl
      · refine ⟨[], x :: l, d, rfl, (Nat.zero_add d).symm, fun y hy => ?_, ?_⟩
        · obtain rfl := Option.some.inj hy
          exact Nat.lt_of_not_le hpass
        · exact whileLoop_of_false (decide_eq_false hpass)

theorem walk_eq {out : List α} (h : Chain node back s.links r l) (hfuel : l.length ≤ fuel) :
    whileLoop (fun place : Option α × List α => place.1.any fun x => s.ticks x = 0)
      (fun place => place.1.map fun x => (s.links.next (node x), place.2 ++ [x])) fuel (s.links.next r, out) =
      some ((l.dropWhile fun x => s.ticks x = 0).head?, out ++ l.takeWhile fun x => s.ticks x = 0) := by
  induction l generalizing r fuel out with
  | nil =>
      rw [chain_nil.mp h, List.takeWhile_nil, List.append_nil]
      exact whileLoop_of_false rfl
  | cons x l ih =>
      obtain ⟨hnext, -, hrest⟩ := chain_cons.mp h
      obtain ⟨fuel, rfl⟩ := Nat.exists_eq_add_one.mpr (Nat.lt_of_lt_of_le (Nat.succ_pos l.length) hfuel)
      rw [hnext]
      by_cases hdue : s.ticks x = 0
      · rw [List.dropWhile_cons_of_pos (by exact decide_eq_true hdue),
          List.takeWhile_cons_of_pos (by exact decide_eq_true hdue), List.append_cons,
          ← ih hrest (Nat.le_of_succ_le_succ hfuel)]
        exact whileLoop_of_true (decide_eq_true hdue) rfl
      · rw [List.dropWhile_cons_of_neg (by simpa using hdue), List.takeWhile_cons_of_neg (by simpa using hdue),
          List.append_nil]
        exact whileLoop_of_false (decide_eq_false hdue)

theorem Holds.due_eq (h : Holds node back s r t entries) : due t entries =
    DeltaQueue.deadlines t (differences s ((entries.map Prod.fst).takeWhile fun x => s.ticks x = 0)) := by
  have hdue := due_deadlines (t := t) (l := differences s (entries.map Prod.fst))
  rw [h.deadlines, differences, List.takeWhile_map] at hdue
  exact hdue

theorem Holds.later_eq (h : Holds node back s r t entries) : later t entries =
    DeltaQueue.deadlines t (differences s ((entries.map Prod.fst).dropWhile fun x => s.ticks x = 0)) := by
  have hlater := later_deadlines (t := t) (l := differences s (entries.map Prod.fst))
  rw [h.deadlines, differences, List.dropWhile_map] at hlater
  exact hlater

theorem Holds.map_fst_later (h : Holds node back s r t entries) :
    (later t entries).map Prod.fst = (entries.map Prod.fst).dropWhile fun x => s.ticks x = 0 := by
  rw [h.later_eq, map_fst_deadlines, map_fst_differences]

theorem Holds.walk (h : Holds node back s r t entries) (hfuel : entries.length ≤ fuel) :
    walkDue node s fuel (s.links.next r) =
      some (((later t entries).map Prod.fst).head?, (due t entries).map Prod.fst) := by
  rw [h.map_fst_later, h.due_eq, map_fst_deadlines, map_fst_differences]
  exact walk_eq h.chain ((List.length_map _).trans_le hfuel)

/-! ### Insertion, removal and the passing of time -/

section Operations

variable [DecidableEq α]

@[simp] theorem setTicks_ticks_self : (setTicks s x d).ticks x = d := Function.update_self _ _ _

theorem setTicks_ticks_of_ne (h : y ≠ x) : (setTicks s x d).ticks y = s.ticks y := Function.update_of_ne h _ _

theorem shorten_ticks_of_ne {n : Option α} (h : n ≠ some y) : (shorten s n d).ticks y = s.ticks y := by
  cases n with
  | none => rfl
  | some z => exact Function.update_of_ne (fun heq => h (congrArg some heq.symm)) _ _

theorem lengthen_ticks_of_ne {n : Option α} (h : n ≠ some y) : (lengthen size s n d).ticks y = s.ticks y := by
  cases n with
  | none => rfl
  | some z => exact Function.update_of_ne (fun heq => h (congrArg some heq.symm)) _ _

/-- What is behind the place of a new element comes that much sooner after it. -/
theorem differences_shorten (hnodup : l.Nodup) :
    differences (shorten s l.head? d) l = advance d (differences s l) := by
  cases l with
  | nil => rfl
  | cons y l =>
      have hy := (List.nodup_cons.mp hnodup).1
      have hfirst : (shorten s (some y) d).ticks y = s.ticks y - d := Function.update_self _ _ _
      have hrest : differences (shorten s (some y) d) l = differences s l := differences_congr fun z hz =>
        shorten_ticks_of_ne fun heq => hy (Option.some.inj heq ▸ hz)
      rw [List.head?_cons, differences_cons, hfirst, hrest]
      rfl

/-- What was behind an element comes that much later after the one before it. -/
theorem differences_lengthen (hnodup : l.Nodup) (hfit : ∀ y ∈ l.head?, s.ticks y + d < size) :
    differences (lengthen size s l.head? d) l = postpone d (differences s l) := by
  cases l with
  | nil => rfl
  | cons y l =>
      have hy := (List.nodup_cons.mp hnodup).1
      have hfirst : (lengthen size s (some y) d).ticks y = s.ticks y + d :=
        (Function.update_self _ _ _).trans (Nat.mod_eq_of_lt (hfit y rfl))
      have hrest : differences (lengthen size s (some y) d) l = differences s l := differences_congr fun z hz =>
        lengthen_ticks_of_ne fun heq => hy (Option.some.inj heq ▸ hz)
      rw [List.head?_cons, differences_cons, hfirst, hrest]
      rfl

/-- When the first element is that much nearer, that much time has passed. -/
theorem Holds.elapse (h : Holds node back s r t entries) (hnodup : (entries.map Prod.fst).Nodup)
    (hnext : s.links.next r = some x) (hd : d ≤ s.ticks x) :
    Holds node back (setTicks s x (s.ticks x - d)) r (t + d) entries := by
  refine ⟨h.chain, ?_⟩
  rw [h.next_eq] at hnext
  have hdiff : differences (setTicks s x (s.ticks x - d)) (entries.map Prod.fst) =
      advance d (differences s (entries.map Prod.fst)) := by
    rw [← differences_shorten hnodup, hnext]
    rfl
  rw [hdiff, deadlines_advance, h.deadlines]
  intro p hp
  rw [differences, List.head?_map, hnext] at hp
  obtain rfl := Option.some.inj hp
  exact hd

variable [DecidableEq ν]

theorem Holds.cut (h : Holds node back s r t entries) (hnodup : (places node r (entries.map Prod.fst)).Nodup) :
    Holds node back { s with links := connect back s.links r ((later t entries).map Prod.fst).head? } r t
      (later t entries) := by
  have hchain := h.chain
  have hkeys := congrArg (List.map Prod.fst) (due_append_later (t := t) (l := entries))
  rw [List.map_append] at hkeys
  rw [← hkeys] at hchain hnodup
  refine Holds.of_differences (l := (later t entries).map Prod.fst) (Chain.connect [] _ hchain hnodup) ?_
  rw [h.later_eq, map_fst_deadlines, map_fst_differences]
  rfl

/-- A first element that is due is taken out, and leaves no ticks to hand on. -/
theorem Holds.pop (h : Holds node back s r t ((x, t) :: entries))
    (hnodup : (places node r (((x, t) :: entries).map Prod.fst)).Nodup) :
    Holds node back { s with links := bypass node back s.links r x } r t entries := by
  have hticks : t + s.ticks x = t := h.ticks_head
  have hrest := (List.cons.inj h.deadlines).2
  rw [hticks] at hrest
  exact ⟨Chain.bypass [] h.chain hnodup, hrest⟩

theorem Holds.insert (h : Holds node back s r t entries)
    (hnodup : (places node r (x :: entries.map Prod.fst)).Nodup) (hfuel : entries.length ≤ fuel) :
    ∃ l₁ l₂ rest, entries.map Prod.fst = l₁ ++ l₂ ∧
      seekTicks node s fuel r d = some (rest, endOf node r l₁, l₂.head?) ∧ rest ≤ d ∧
      Holds node back (insertTicks node back s x (rest, endOf node r l₁, l₂.head?)) r t
        (enqueue urgency (x, t + d) entries) := by
  have hchain := h.chain
  obtain ⟨l₁, l₂, rest, hsplit, hd, hbehind, hseek⟩ :=
    seekTicks_eq (d := d) h.chain ((List.length_map _).trans_le hfuel)
  refine ⟨l₁, l₂, rest, hsplit, hseek, hd ▸ Nat.le_add_left _ _, ?_⟩
  have hmiddle : (places node r (l₁ ++ x :: l₂)).Nodup := by
    refine ((List.perm_middle.map node).cons r).nodup_iff.mpr ?_
    rw [← hsplit]
    exact hnodup
  have hkeys : (l₁ ++ x :: l₂).Nodup := (List.nodup_cons.mp hmiddle).2.of_map node
  obtain ⟨hleft, hright, hcross⟩ := List.nodup_append.mp hkeys
  obtain ⟨hx, hrest⟩ := List.nodup_cons.mp hright
  have hdeadlines := h.deadlines
  rw [hsplit] at hchain hdeadlines
  have hhead : ∀ y, l₂.head? = some y → y ∈ l₂ := fun y hy => List.mem_of_head? hy
  have hx_ticks : (insertTicks node back s x (rest, endOf node r l₁, l₂.head?)).ticks x = rest :=
    (shorten_ticks_of_ne fun heq => hx (hhead x heq)).trans setTicks_ticks_self
  have hdiff : differences (insertTicks node back s x (rest, endOf node r l₁, l₂.head?)) (l₁ ++ x :: l₂) =
      differences s l₁ ++ (x, rest) :: advance rest (differences s l₂) := by
    rw [differences_append, differences_cons, hx_ticks]
    refine congrArg₂ _ (differences_congr fun y hy => ?_) (congrArg _ ?_)
    · refine (shorten_ticks_of_ne fun heq => hcross y hy y (List.mem_cons_of_mem x (hhead y heq)) rfl).trans ?_
      exact setTicks_ticks_of_ne (hcross y hy x List.mem_cons_self)
    · have hbelow : differences (setTicks s x rest) l₂ = differences s l₂ := differences_congr fun y hy =>
        setTicks_ticks_of_ne fun heq => hx (heq ▸ hy)
      rw [← hbelow, ← differences_shorten hrest]
      rfl
  have hholds := holds_of_chain (t := t) (s := insertTicks node back s x (rest, endOf node r l₁, l₂.head?))
    (hchain.insertAfter hmiddle)
  rw [hdiff, deadlines_insert, ← differences_append, hdeadlines, Nat.add_assoc, ← hd] at hholds
  · exact hholds
  · intro p hp
    rw [differences, List.head?_map] at hp
    obtain ⟨y, hy, rfl⟩ := Option.map_eq_some_iff.mp hp
    exact hbehind y hy

theorem Holds.withdraw (size : ℕ) (h : Holds node back s r t (entries₁ ++ (x, d) :: entries₂))
    (hnodup : (places node r ((entries₁ ++ (x, d) :: entries₂).map Prod.fst)).Nodup)
    (hfit : ∀ e ∈ entries₂, e.2 < t + size) :
    Holds node back (withdraw node back size s (endOf node r (entries₁.map Prod.fst)) x) r t
      (entries₁ ++ entries₂) := by
  have hchain := h.chain
  have hdeadlines := h.deadlines
  simp only [List.map_append, List.map_cons] at hchain hdeadlines hnodup
  have hkeys := (List.nodup_cons.mp hnodup).2.of_map node
  obtain ⟨hleft, hright, hcross⟩ := List.nodup_append.mp hkeys
  obtain ⟨hx, hrest⟩ := List.nodup_cons.mp hright
  have hnext : s.links.next (node x) = (entries₂.map Prod.fst).head? :=
    (chain_cons.mp (chain_append.mp hchain).2).2.2.next_eq
  rw [differences_append, differences_cons, deadlines_append, deadlines_cons] at hdeadlines
  obtain ⟨hbefore, hbehind⟩ := List.append_inj hdeadlines (by
    rw [← List.length_map (f := Prod.fst), map_fst_deadlines, map_fst_differences, List.length_map])
  obtain ⟨hd, hbehind⟩ := List.cons.inj hbehind
  have hdiff : differences (DeltaList.withdraw node back size s (endOf node r (entries₁.map Prod.fst)) x)
      (entries₁.map Prod.fst ++ entries₂.map Prod.fst) =
      differences s (entries₁.map Prod.fst) ++ postpone (s.ticks x) (differences s (entries₂.map Prod.fst)) := by
    rw [differences_append]
    refine congrArg₂ _ (differences_congr fun y hy => lengthen_ticks_of_ne fun heq => ?_) ?_
    · rw [hnext] at heq
      exact hcross y hy y (List.mem_cons_of_mem x (List.mem_of_head? heq)) rfl
    · rw [← differences_lengthen hrest, ← hnext]
      · rfl
      · intro y hy
        cases entries₂ with
        | nil => cases hy
        | cons e entries₂ =>
            obtain rfl := Option.some.inj hy
            have hfirst := hfit e List.mem_cons_self
            obtain ⟨hdeadline, -⟩ := List.cons.inj hbehind
            rw [← hdeadline] at hfirst
            dsimp only at hfirst ⊢
            omega
  have hholds := holds_of_chain (t := t)
    (s := DeltaList.withdraw node back size s (endOf node r (entries₁.map Prod.fst)) x) (hchain.bypass _ hnodup)
  rw [hdiff, deadlines_remove, hbefore, hbehind] at hholds
  exact hholds

end Operations

end Best1307.DeltaList
