import Mathlib.Data.Option.Basic
import Mathlib.Logic.Function.Iterate

/-!
# Loops with a bound on their turns

A loop whose body may itself have no result is run for at most so many turns. If that is enough the outcome is the one
of the loop without a bound, whatever the bound; how many are enough is a matter of what the loop is for.
-/

namespace Best1307

variable {σ : Type*} (guard : σ → Bool) (body : σ → Option σ)

/-- `while (guard) body`, if it ends within `fuel` turns -/
def whileLoop : (fuel : Nat) → σ → Option σ
  | 0, s => if guard s then none else some s
  | fuel + 1, s => if guard s then (body s).bind (whileLoop fuel) else some s

variable {guard body}

theorem whileLoop_of_false {fuel : Nat} {s : σ} (h : guard s = false) : whileLoop guard body fuel s = some s := by
  cases fuel <;> rw [whileLoop, h] <;> rfl

theorem whileLoop_of_true {fuel : Nat} {s s' : σ} (h : guard s = true) (hbody : body s = some s') :
    whileLoop guard body (fuel + 1) s = whileLoop guard body fuel s' := by
  rw [whileLoop, h, hbody]
  rfl

theorem guard_of_whileLoop {fuel : Nat} {s t : σ} (h : whileLoop guard body fuel s = some t) : guard t = false := by
  induction fuel generalizing s with
  | zero =>
      cases hguard : guard s with
      | true =>
          rw [whileLoop, hguard] at h
          cases h
      | false =>
          rw [whileLoop_of_false hguard] at h
          exact Option.some.inj h ▸ hguard
  | succ fuel ih =>
      cases hguard : guard s with
      | false =>
          rw [whileLoop_of_false hguard] at h
          exact Option.some.inj h ▸ hguard
      | true =>
          rw [whileLoop, hguard, if_pos rfl] at h
          obtain ⟨s', -, hrest⟩ := Option.bind_eq_some_iff.mp h
          exact ih hrest

/-- With more turns, for the loop or within its body, the outcome is the same. -/
theorem whileLoop_mono {body' : σ → Option σ} (hbody : ∀ s t, body s = some t → body' s = some t) {fuel fuel' : Nat}
    (hfuel : fuel ≤ fuel') {s t : σ} (h : whileLoop guard body fuel s = some t) :
    whileLoop guard body' fuel' s = some t := by
  induction fuel generalizing fuel' s with
  | zero =>
      cases hguard : guard s with
      | true =>
          rw [whileLoop, hguard] at h
          cases h
      | false =>
          rw [whileLoop_of_false hguard] at h ⊢
          exact h
  | succ fuel ih =>
      cases hguard : guard s with
      | false =>
          rw [whileLoop_of_false hguard] at h ⊢
          exact h
      | true =>
          rw [whileLoop, hguard, if_pos rfl] at h
          obtain ⟨s', hs', hrest⟩ := Option.bind_eq_some_iff.mp h
          obtain ⟨rest, rfl⟩ := Nat.exists_eq_add_of_lt hfuel
          rw [whileLoop_of_true hguard (hbody s s' hs')]
          exact ih (by omega) hrest

theorem whileLoop_iterate {next : σ → σ} {n fuel : Nat} {s : σ} (htrue : ∀ k < n, guard (next^[k] s) = true)
    (hfalse : guard (next^[n] s) = false) (hfuel : n ≤ fuel) :
    whileLoop guard (fun s => some (next s)) fuel s = some (next^[n] s) := by
  induction n generalizing s fuel with
  | zero => exact whileLoop_of_false hfalse
  | succ n ih =>
      obtain ⟨fuel, rfl⟩ := Nat.exists_eq_add_one.mpr (Nat.lt_of_lt_of_le (Nat.succ_pos n) hfuel)
      have hfirst : whileLoop guard (fun s => some (next s)) (fuel + 1) s = whileLoop guard _ fuel (next s) :=
        whileLoop_of_true (htrue 0 (Nat.succ_pos n)) rfl
      rw [hfirst, Function.iterate_succ_apply]
      exact ih (fun k hk => htrue (k + 1) (Nat.succ_lt_succ hk)) hfalse (Nat.le_of_succ_le_succ hfuel)

end Best1307
