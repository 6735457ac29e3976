import Mathlib.Data.List.Basic

/-!
# Work done in pieces

A range is worked on piece by piece, each where the one before ends, so that every cell of it is worked on once. A
piece may fail, and then the rest is left. Failures may also be overlooked; whether that shows depends on the first
piece that fails. And a call that may break off is repeated until it comes to an end.
-/

namespace Best1307.Pieces

/-! ### Pieces of a range -/

section Range

variable {Op Cell : Type*} (start fin : Op → Nat)

def Consecutive : Nat → Nat → List Op → Prop
  | lo, hi, [] => lo = hi
  | lo, hi, op :: ops => start op = lo ∧ lo < fin op ∧ Consecutive (fin op) hi ops

variable {start fin} {lo hi : Nat} {op : Op} {ops : List Op}

theorem Consecutive.le (h : Consecutive start fin lo hi ops) : lo ≤ hi := by
  induction ops generalizing lo with
  | nil => exact Nat.le_of_eq h
  | cons op ops ih => exact Nat.le_trans (Nat.le_of_lt h.2.1) (ih h.2.2)

theorem Consecutive.take (h : Consecutive start fin lo hi ops) (n : Nat) :
    ∃ mid ≤ hi, Consecutive start fin lo mid (ops.take n) := by
  induction n generalizing lo ops with
  | zero =>
      rw [List.take_zero]
      exact ⟨lo, h.le, rfl⟩
  | succ n ih =>
      cases ops with
      | nil => exact ⟨hi, Nat.le_refl hi, h⟩
      | cons op ops =>
          obtain ⟨mid, hmid, hrest⟩ := ih h.2.2
          exact ⟨mid, hmid, h.1, h.2.1, hrest⟩

/-- Where every piece does to its cells what is to be done to them, the pieces do it to the cells of the range. -/
theorem Consecutive.foldl_apply {apply : (Nat → Cell) → Op → Nat → Cell} {effect : Nat → Cell → Cell}
    (h : Consecutive start fin lo hi ops)
    (hop : ∀ op ∈ ops, ∀ cells a, apply cells op a =
      if start op ≤ a ∧ a < fin op then effect a (cells a) else cells a) (cells : Nat → Cell) (a : Nat) :
    ops.foldl apply cells a = if lo ≤ a ∧ a < hi then effect a (cells a) else cells a := by
  induction ops generalizing lo cells with
  | nil =>
      have hlohi : lo = hi := h
      rw [if_neg (by omega)]
      rfl
  | cons op ops ih =>
      obtain ⟨rfl, hlt, hrest⟩ := h
      have hle := hrest.le
      have hfirst := hop op List.mem_cons_self cells a
      have hthen := ih hrest (fun op hmem => hop op (List.mem_cons_of_mem _ hmem)) (apply cells op)
      rw [List.foldl_cons, hthen, hfirst]
      split
      case isTrue hin => rw [if_neg (by omega), if_pos (by omega)]
      case isFalse hout =>
        split
        case isTrue hin => rw [if_pos (by omega)]
        case isFalse => rw [if_neg (by omega)]

end Range

/-! ### Pieces that fail -/

section Perform

variable {Op Err : Type*} (error : Nat → Option Err) (overlooked : Nat → Bool)

/-- Pieces are done in order, until one of them fails without being overlooked: what is returned, and what was done
with which result. -/
def perform : Nat → List Op → Option Err × List (Op × Option Err)
  | _, [] => (none, [])
  | k, op :: ops =>
      if (error k).isNone || overlooked k then
        ((perform (k + 1) ops).1, (op, error k) :: (perform (k + 1) ops).2)
      else (error k, [(op, error k)])

attribute [local simp] perform

def Noticed (k n : Nat) : Prop :=
  ∀ i < n, (∀ j < i, error (k + j) = none) → error (k + i) ≠ none → overlooked (k + i) = false

variable {error overlooked} {k n : Nat} {op : Op} {ops : List Op}

theorem noticed_zero : Noticed error overlooked k 0 := fun _ hi => absurd hi (Nat.not_lt_zero _)

theorem noticed_succ_of_none (h : error k = none) :
    Noticed error overlooked k (n + 1) ↔ Noticed error overlooked (k + 1) n := by
  have hshift (i : Nat) : k + 1 + i = k + (i + 1) := by omega
  constructor
  · intro hnoticed i hi hbefore
    rw [hshift]
    refine hnoticed (i + 1) (Nat.succ_lt_succ hi) fun j hj => ?_
    cases j with
    | zero => exact h
    | succ j => exact hshift j ▸ hbefore j (Nat.lt_of_succ_lt_succ hj)
  · intro hnoticed i hi hbefore herror
    cases i with
    | zero => exact absurd h herror
    | succ i =>
        rw [← hshift] at herror ⊢
        refine hnoticed i (Nat.lt_of_succ_lt_succ hi) (fun j hj => ?_) herror
        rw [hshift]
        exact hbefore (j + 1) (Nat.succ_lt_succ hj)

theorem noticed_succ_of_some (h : error k ≠ none) :
    Noticed error overlooked k (n + 1) ↔ overlooked k = false := by
  constructor
  · intro hnoticed
    exact hnoticed 0 (Nat.succ_pos n) (fun j hj => absurd hj (Nat.not_lt_zero j)) h
  · intro hk i _ hbefore _
    cases i with
    | zero => exact hk
    | succ i => exact absurd (hbefore 0 (Nat.succ_pos i)) h

/-- Overlooking failures makes no difference exactly if the first one is noticed. -/
theorem perform_eq_iff :
    perform error overlooked k ops = perform error (fun _ => false) k ops ↔
      Noticed error overlooked k ops.length := by
  induction ops generalizing k with
  | nil => exact iff_of_true rfl noticed_zero
  | cons op ops ih =>
      rw [List.length_cons]
      by_cases hnone : error k = none
      · rw [noticed_succ_of_none hnone, ← ih]
        simp only [perform, hnone, Option.isNone_none, Bool.true_or, if_true, Prod.mk.injEq, List.cons.injEq,
          true_and]
        exact Prod.ext_iff.symm
      · rw [noticed_succ_of_some hnone]
        have hsome : (error k).isNone = false := Option.isNone_eq_false_iff.mpr (Option.isSome_iff_ne_none.mpr hnone)
        simp only [perform, hsome, Bool.or_false, Bool.false_or, Bool.false_eq_true, if_false]
        cases hover : overlooked k with
        | false => simp only [Bool.false_eq_true, if_false]
        | true =>
            simp only [if_true, Prod.mk.injEq, List.cons.injEq, true_and, Bool.true_eq_false, iff_false, not_and]
            -- nothing more done means that nothing was left, and then no error is returned
            intro herror hdone
            cases ops with
            | nil => exact hnone herror.symm
            | cons next ops =>
                simp only [perform] at hdone
                split at hdone <;> cases hdone

variable (error overlooked k ops) in
theorem perform_prefix : ∃ n, (perform error overlooked k ops).2.map Prod.fst = ops.take n := by
  induction ops generalizing k with
  | nil => exact ⟨0, rfl⟩
  | cons op ops ih =>
      rw [perform]
      split
      case isTrue =>
        obtain ⟨n, hn⟩ := ih (k := k + 1)
        exact ⟨n + 1, by rw [List.map_cons, hn, List.take_succ_cons]⟩
      case isFalse => exact ⟨1, rfl⟩

theorem perform_eq_none (h : (perform error (fun _ => false) k ops).1 = none) :
    (perform error (fun _ => false) k ops).2 = ops.map fun op => (op, none) := by
  induction ops generalizing k with
  | nil => rfl
  | cons op ops ih =>
      rw [perform] at h ⊢
      split at h
      case isTrue hgo =>
        rw [Bool.or_false, Option.isNone_iff_eq_none] at hgo
        rw [if_pos (by rw [hgo]; rfl), ih h, hgo]
        rfl
      case isFalse hstop =>
        have hnone : error k = none := h
        exact absurd (by rw [hnone]; rfl) hstop

theorem perform_returns {err : Err} (h : (op, some err) ∈ (perform error (fun _ => false) k ops).2) :
    (perform error (fun _ => false) k ops).1 = some err := by
  induction ops generalizing k with
  | nil => cases h
  | cons next ops ih =>
      rw [perform] at h ⊢
      split at h
      case isTrue hgo =>
        rw [Bool.or_false, Option.isNone_iff_eq_none] at hgo
        rw [if_pos (by rw [hgo]; rfl)]
        rcases List.mem_cons.mp h with hhead | htail
        · rw [hgo] at hhead
          cases hhead
        · exact ih htail
      case isFalse hstop =>
        rw [if_neg hstop]
        exact (Prod.mk.inj (List.mem_singleton.mp h)).2.symm

end Perform

/-! ### Calls that break off -/

section Ends

variable {Ret State : Type*} {brokenOff : Ret} {again : State → Ret × State} {x y z : Ret × State}

/-- A call comes to an end, or is repeated where it has broken off. -/
inductive Ends (brokenOff : Ret) (again : State → Ret × State) : Ret × State → Ret × State → Prop
  | here {x : Ret × State} (h : x.1 ≠ brokenOff) : Ends brokenOff again x x
  | later {s : State} {x : Ret × State} (h : Ends brokenOff again (again s) x) : Ends brokenOff again (brokenOff, s) x

theorem Ends.unique (h : Ends brokenOff again x y) (h' : Ends brokenOff again x z) : y = z := by
  induction h with
  | here hx =>
      cases h' with
      | here => rfl
      | later => exact absurd rfl hx
  | later _ ih =>
      cases h' with
      | here hx => exact absurd rfl hx
      | later hrest => exact ih hrest

/-- What holds wherever a call breaks off and is kept by repeating it holds where it ends. -/
theorem Ends.invariant {P : Ret × State → Prop} (h : Ends brokenOff again x y) (hx : P x)
    (hagain : ∀ s, P (brokenOff, s) → P (again s)) : P y ∧ y.1 ≠ brokenOff := by
  induction h with
  | here hend => exact ⟨hx, hend⟩
  | later _ ih => exact ih (hagain _ hx)

/-- Where a call breaks off. -/
inductive BreaksAt (brokenOff : Ret) (again : State → Ret × State) : Ret × State → State → Prop
  | here {s : State} : BreaksAt brokenOff again (brokenOff, s) s
  | later {s t : State} (h : BreaksAt brokenOff again (again s) t) : BreaksAt brokenOff again (brokenOff, s) t

theorem BreaksAt.invariant {P : Ret × State → Prop} {t : State} (h : BreaksAt brokenOff again x t) (hx : P x)
    (hagain : ∀ s, P (brokenOff, s) → P (again s)) : P (brokenOff, t) := by
  induction h with
  | here => exact hx
  | later _ ih => exact ih (hagain _ hx)

end Ends

end Best1307.Pieces
