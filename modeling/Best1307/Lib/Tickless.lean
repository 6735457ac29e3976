import Best1307.Lib.While

/-!
# Many ticks at once

A state counts down to its first event. A tick counts by one, and when nothing is left it lets the event happen. After
a sleep the ticks that were missed are made up for in leaps, from one event to the next; what comes of it is what the
ticks would have done one by one.
-/

namespace Best1307

variable {σ : Type*}

/-- What is left to the first event, how it is set, and what a tick does. -/
structure Countdown (σ : Type*) where
  head : σ → Option ℕ
  setHead : σ → ℕ → σ
  tick : σ → Option σ

namespace Countdown

/-- A tick before the event counts by one, and the next event is never due when a tick ends. -/
structure Lawful (c : Countdown σ) : Prop where
  tick_none : ∀ s, c.head s = none → c.tick s = some s
  tick_wait : ∀ s n, c.head s = some (n + 2) → c.tick s = some (c.setHead s (n + 1))
  tick_event : ∀ s s', c.head s = some 1 → c.tick s = some s' → c.head s' ≠ some 0
  head_setHead : ∀ s n, (c.head s).isSome → c.head (c.setHead s n) = some n
  setHead_setHead : ∀ s m n, c.setHead (c.setHead s m) n = c.setHead s n
  setHead_head : ∀ s n, c.head s = some n → c.setHead s n = s

variable (c : Countdown σ)

def elapse : ℕ → σ → Option σ
  | 0, s => some s
  | k + 1, s => (c.tick s).bind (elapse k)

/-- To the first event if there are ticks enough, else nearer to it by all the ticks there are. -/
def leap (place : ℕ × σ) : Option (ℕ × σ) :=
  match c.head place.2 with
  | none => none
  | some h =>
      if h ≤ place.1 then (c.tick (c.setHead place.2 1)).map fun s => (place.1 - h, s)
      else some (0, c.setHead place.2 (h - place.1))

def unfinished (place : ℕ × σ) : Bool := (c.head place.2).isSome && place.1 != 0

/-- `if (first != NULL) do leap while (first != NULL && ticks != 0)` -/
def leaps (fuel : ℕ) (ticks : ℕ) (s : σ) : Option σ :=
  match c.head s with
  | none => some s
  | some _ =>
      ((c.leap (ticks, s)).bind (whileLoop c.unfinished c.leap fuel)).map Prod.snd

variable {c} {s s' : σ} {h j k fuel : ℕ}

theorem unfinished_zero : c.unfinished (0, s) = false := Bool.and_false _

theorem unfinished_none (h : c.head s = none) : c.unfinished (k, s) = false := by
  rw [unfinished, h]
  rfl

theorem elapse_add : c.elapse (j + k) s = (c.elapse j s).bind (c.elapse k) := by
  induction j generalizing s with
  | zero =>
      rw [Nat.zero_add]
      rfl
  | succ j ih =>
      rw [Nat.add_right_comm, elapse, elapse, Option.bind_assoc]
      exact congrArg _ (funext fun s => ih)

theorem Lawful.elapse_none (hc : c.Lawful) (hs : c.head s = none) : c.elapse k s = some s := by
  induction k with
  | zero => rfl
  | succ k ih =>
      rw [elapse, hc.tick_none s hs]
      exact ih

theorem Lawful.elapse_wait (hc : c.Lawful) (hs : c.head s = some h) (hj : j < h) :
    c.elapse j s = some (c.setHead s (h - j)) := by
  induction j generalizing s h with
  | zero => exact congrArg some (hc.setHead_head s h hs).symm
  | succ j ih =>
      obtain ⟨n, rfl⟩ := Nat.exists_eq_add_of_le' (show 2 ≤ h by omega)
      have hnext : c.head (c.setHead s (n + 1)) = some (n + 1) :=
        hc.head_setHead s (n + 1) (Option.isSome_iff_exists.mpr ⟨_, hs⟩)
      rw [elapse, hc.tick_wait s n hs, Option.bind_some, ih hnext (by omega), hc.setHead_setHead]
      exact congrArg (fun m => some (c.setHead s m)) (by omega)

theorem Lawful.elapse_event (hc : c.Lawful) (hs : c.head s = some h) (hpos : 0 < h) :
    c.elapse h s = c.tick (c.setHead s 1) := by
  obtain ⟨n, rfl⟩ := Nat.exists_eq_add_one.mpr hpos
  rw [elapse_add, hc.elapse_wait hs (Nat.lt_succ_self n), Nat.add_sub_cancel_left, Option.bind_some, elapse]
  cases c.tick (c.setHead s 1) <;> rfl

/-- A leap is as many ticks as it takes off. -/
theorem Lawful.leap_eq (hc : c.Lawful) (hs : c.head s = some h) (hpos : 0 < h) :
    (c.leap (k, s)).bind (fun place => c.elapse place.1 place.2) = c.elapse k s := by
  rw [leap, hs]
  dsimp only
  split
  case isTrue hle =>
    obtain ⟨rest, rfl⟩ := Nat.exists_eq_add_of_le hle
    rw [elapse_add, hc.elapse_event hs hpos, Nat.add_sub_cancel_left]
    cases c.tick (c.setHead s 1) <;> rfl
  case isFalse hlt =>
    rw [hc.elapse_wait hs (Nat.lt_of_not_le hlt)]
    rfl

/-- Where a leap ends nothing is due, and if it ended at an event there are fewer ticks left. -/
theorem Lawful.leap_spec (hc : c.Lawful) (hs : c.head s = some h) (hpos : 0 < h) {place : ℕ × σ}
    (hleap : c.leap (k, s) = some place) : c.head place.2 ≠ some 0 ∧ (place.1 = 0 ∨ place.1 < k) := by
  have hsome : (c.head s).isSome := Option.isSome_iff_exists.mpr ⟨h, hs⟩
  rw [leap, hs] at hleap
  dsimp only at hleap
  split at hleap
  case isTrue hle =>
    obtain ⟨s', hs', rfl⟩ := Option.map_eq_some_iff.mp hleap
    refine ⟨hc.tick_event _ s' (hc.head_setHead s 1 hsome) hs', .inr ?_⟩
    dsimp only
    omega
  case isFalse hlt =>
    obtain rfl := Option.some.inj hleap
    refine ⟨fun heq => ?_, .inl rfl⟩
    rw [hc.head_setHead s _ hsome] at heq
    have := Option.some.inj heq
    omega

theorem Lawful.loop_eq (hc : c.Lawful) (hs : c.head s ≠ some 0) (hfuel : k ≤ fuel) :
    (whileLoop c.unfinished c.leap fuel (k, s)).map Prod.snd = c.elapse k s := by
  induction fuel generalizing k s with
  | zero =>
      obtain rfl := Nat.le_zero.mp hfuel
      rw [whileLoop_of_false unfinished_zero]
      rfl
  | succ fuel ih =>
      cases hhead : c.head s with
      | none =>
          rw [whileLoop_of_false (unfinished_none hhead), hc.elapse_none hhead]
          rfl
      | some h =>
          have hpos : 0 < h := Nat.pos_of_ne_zero fun heq => hs (hhead.trans (congrArg some heq))
          rcases Nat.eq_zero_or_pos k with rfl | hk
          · rw [whileLoop_of_false unfinished_zero]
            rfl
          · rw [← hc.leap_eq hhead hpos, whileLoop, if_pos (by simp [unfinished, hhead, Nat.ne_of_gt hk])]
            cases hleap : c.leap (k, s) with
            | none => rfl
            | some place =>
                obtain ⟨hnext, hless⟩ := hc.leap_spec hhead hpos hleap
                exact ih hnext (by omega)

/-- The leaps do what the ticks would have done. -/
theorem Lawful.leaps_eq (hc : c.Lawful) (hs : c.head s ≠ some 0) (hfuel : k ≤ fuel) :
    c.leaps fuel k s = c.elapse k s := by
  rw [leaps]
  cases hhead : c.head s with
  | none => exact (hc.elapse_none hhead).symm
  | some h =>
      have hpos : 0 < h := Nat.pos_of_ne_zero fun heq => hs (hhead.trans (congrArg some heq))
      rw [← hc.leap_eq hhead hpos]
      cases hleap : c.leap (k, s) with
      | none => rfl
      | some place =>
          obtain ⟨hnext, hless⟩ := hc.leap_spec hhead hpos hleap
          exact hc.loop_eq hnext (by omega)

end Countdown

end Best1307
