import Mathlib.Data.List.Perm.Subperm
import Best1307.Lib.DeltaList
import Best1307.Lib.Run
import Best1307.Lib.Tickless

/-!
# Timers of the kernel

The timers that run are in one list, each with the ticks to the one before it. When a timer has run down, its function
is posted to the timer thread; a periodic timer goes back into the list with the ticks it was started with, any other
stops. Starting a timer that runs moves it, but what it will be loaded with stays what it was.
-/

namespace Best1307.Rtx

open DoublyLinked DeltaQueue DeltaList PriorityQueue

abbrev TimerId := Nat

inductive TimerPlace
  | list
  | timer (t : TimerId)
  deriving DecidableEq, Repr

inductive TimerState
  | inactive
  | stopped
  | running
  deriving DecidableEq, Repr

inductive TimerStatus
  | osOK
  | osErrorParameter
  | osErrorResource
  deriving DecidableEq, Repr

/-- The fields `state`, `type` and `load`; a block that is inactive has no valid `id` either. -/
structure TimerBlock where
  state : TimerState
  periodic : Bool
  load : ℕ
  deriving DecidableEq, Repr

/-- `prev` of what is behind a place -/
def timerPrev : TimerPlace → Option TimerId
  | .timer t => some t
  | .list => none

/-- The place that a field `prev` means -/
def timerPlace : Option TimerId → TimerPlace
  | some t => .timer t
  | none => .list

/-- `osRtxInfo.timer` with the blocks of the timers. `enabled` tells that the field `tick` is set, and `posted` are the
timers that `osMessageQueuePut` was called for, in that order. -/
structure Timers where
  list : Timed TimerId TimerPlace (Option TimerId)
  block : TimerId → TimerBlock
  enabled : Bool
  posted : List TimerId

namespace Timers

variable (fuel : ℕ) (t : TimerId) (s : Timers)

def init : Timers := ⟨⟨⟨fun _ => none, fun _ => none⟩, fun _ => 0⟩, fun _ => ⟨.inactive, false, 0⟩, false, []⟩

def timerInsert (tick : ℕ) : Option Timers :=
  (seekTicks .timer s.list fuel .list tick).map fun place =>
    { s with list := insertTicks .timer timerPrev s.list t place }

def timerRemove : Timers :=
  { s with list := withdraw .timer timerPrev (2 ^ 32) s.list (timerPlace (s.list.links.prev t)) t }

/-- `timer->next->prev = timer->prev; osRtxInfo.timer.list = timer->next` -/
def unlinkHead (links : Links TimerId TimerPlace (Option TimerId)) : Links TimerId TimerPlace (Option TimerId) :=
  { setPrev links (links.next (.timer t)) (links.prev t) with
    next := Function.update links.next .list (links.next (.timer t)) }

def timerUnlink : Timers := { s with list := { s.list with links := unlinkHead t s.list.links } }

def setState (state : TimerState) : Timers :=
  { s with block := Function.update s.block t { s.block t with state := state } }

/-- What the loop of `osRtxTimerTick` does with the first timer -/
def fire : Option Timers :=
  (s.list.links.next .list).bind fun t =>
    let s := { s.timerUnlink t with posted := s.posted ++ [t] }
    if (s.block t).periodic then s.timerInsert fuel t (s.block t).load else some (s.setState t .stopped)

/-- `timer != NULL && timer->tick == 0U` of the first timer -/
def headDue : Bool := (s.list.links.next .list).any fun t => s.list.ticks t = 0

/-- `timer->tick--` -/
def decrement : Timers :=
  { s with list := setTicks s.list t (if s.list.ticks t = 0 then 2 ^ 32 - 1 else s.list.ticks t - 1) }

def osRtxTimerTick : Option Timers :=
  match s.list.links.next .list with
  | none => some s
  | some t => whileLoop headDue (fire fuel) fuel (s.decrement t)

/-- `svcRtxTimerNew`, where it initialises the block -/
def svcRtxTimerNew (periodic : Bool) : Timers :=
  { s with
    list := ⟨⟨Function.update s.list.links.next (.timer t) none, Function.update s.list.links.prev t none⟩,
      Function.update s.list.ticks t 0⟩
    block := Function.update s.block t ⟨.stopped, periodic, 0⟩ }

def svcRtxTimerStart (ticks : ℕ) : Option (TimerStatus × Timers) :=
  if (s.block t).state = .inactive ∨ ticks = 0 then some (.osErrorParameter, s)
  else if (s.block t).state = .running then ((s.timerRemove t).timerInsert fuel t ticks).map (Prod.mk .osOK)
  else if s.enabled then
    (timerInsert fuel t { s with block := Function.update s.block t ⟨.running, (s.block t).periodic, ticks⟩ } ticks).map
      (Prod.mk .osOK)
  else some (.osErrorResource, s)

def svcRtxTimerStop : TimerStatus × Timers :=
  match (s.block t).state with
  | .inactive => (.osErrorParameter, s)
  | .stopped => (.osErrorResource, s)
  | .running => (.osOK, (s.setState t .stopped).timerRemove t)

def svcRtxTimerDelete : TimerStatus × Timers :=
  match (s.block t).state with
  | .inactive => (.osErrorParameter, s)
  | .stopped => (.osOK, s.setState t .inactive)
  | .running => (.osOK, (s.timerRemove t).setState t .inactive)

def firstTick : Option ℕ := (s.list.links.next .list).map s.list.ticks

def setFirstTick (tick : ℕ) : Timers :=
  match s.list.links.next .list with
  | none => s
  | some t => { s with list := setTicks s.list t tick }

def countdown : Countdown Timers := ⟨firstTick, setFirstTick, osRtxTimerTick fuel⟩

/-- The part of `svcRtxKernelResume` on the timers -/
def svcRtxKernelResume (sleepTicks : ℕ) : Option Timers := (countdown fuel).leaps sleepTicks sleepTicks s

end Timers

/-- What happens to the timers. The timer thread sets the field `tick` when it starts. -/
inductive TimerEvent
  | timerThread
  | new (t : TimerId) (periodic : Bool)
  | start (t : TimerId) (ticks : ℕ)
  | stop (t : TimerId)
  | delete (t : TimerId)
  | tick
  | resume (sleepTicks : ℕ)
  deriving DecidableEq, Repr

def Timers.step (fuel : ℕ) (s : Timers) : TimerEvent → Option Timers
  | .timerThread => some { s with enabled := true }
  | .new t periodic => some (s.svcRtxTimerNew t periodic)
  | .start t ticks => (s.svcRtxTimerStart fuel t ticks).map Prod.snd
  | .stop t => some (s.svcRtxTimerStop t).2
  | .delete t => some (s.svcRtxTimerDelete t).2
  | .tick => s.osRtxTimerTick fuel
  | .resume sleepTicks => s.svcRtxKernelResume fuel sleepTicks

/-! ### The deadlines the list stands for -/

/-- The ticks so far and the timers that run with the time each runs down. -/
structure TimerClock where
  now : ℕ
  entries : List (TimerId × ℕ)
  block : TimerId → TimerBlock
  enabled : Bool
  posted : List TimerId

namespace TimerClock

variable (t : TimerId) (q : TimerClock)

def init : TimerClock := ⟨0, [], fun _ => ⟨.inactive, false, 0⟩, false, []⟩

def setBlock (block : TimerBlock) : TimerClock := { q with block := Function.update q.block t block }

def insert (ticks : ℕ) : TimerClock := { q with entries := enqueue urgency (t, q.now + ticks) q.entries }

def remove : TimerClock := { q with entries := q.entries.filter fun p => p.1 ≠ t }

/-- A timer that has run down is posted, and a periodic one runs on from now. -/
def fire : TimerClock :=
  if (q.block t).periodic then { q.insert t (q.block t).load with posted := q.posted ++ [t] }
  else { q.setBlock t { q.block t with state := .stopped } with posted := q.posted ++ [t] }

def tick : TimerClock :=
  ((due (q.now + 1) q.entries).map Prod.fst).foldl (fun q t => q.fire t)
    { q with now := q.now + 1, entries := later (q.now + 1) q.entries }

def start (ticks : ℕ) : TimerClock :=
  if (q.block t).state = .inactive ∨ ticks = 0 then q
  else if (q.block t).state = .running then (q.remove t).insert t ticks
  else if q.enabled then (q.setBlock t ⟨.running, (q.block t).periodic, ticks⟩).insert t ticks
  else q

def startStatus (ticks : ℕ) : TimerStatus :=
  if (q.block t).state = .inactive ∨ ticks = 0 then .osErrorParameter
  else if (q.block t).state = .running ∨ q.enabled then .osOK else .osErrorResource

def stop : TimerClock :=
  if (q.block t).state = .running then (q.remove t).setBlock t { q.block t with state := .stopped } else q

def delete : TimerClock :=
  if (q.block t).state = .inactive then q else (q.remove t).setBlock t { q.block t with state := .inactive }

/-- A block is initialised when it is not in use, and ticks are a word. -/
def Allowed : TimerEvent → Prop
  | .new t _ => (q.block t).state = .inactive
  | .start _ ticks => ticks < 2 ^ 32
  | .timerThread | .stop _ | .delete _ | .tick | .resume _ => True

instance Allowed.decidable : (e : TimerEvent) → Decidable (q.Allowed e)
  | .new t _ => inferInstanceAs (Decidable ((q.block t).state = .inactive))
  | .start _ ticks => inferInstanceAs (Decidable (ticks < 2 ^ 32))
  | .timerThread | .stop _ | .delete _ | .tick | .resume _ => inferInstanceAs (Decidable True)

def apply : TimerEvent → TimerClock
  | .timerThread => { q with enabled := true }
  | .new t periodic => q.setBlock t ⟨.stopped, periodic, 0⟩
  | .start t ticks => q.start t ticks
  | .stop t => q.stop t
  | .delete t => q.delete t
  | .tick => q.tick
  | .resume sleepTicks => tick^[sleepTicks] q

/-- While the timers `waiting` of this very tick have not been posted yet, the list is in order and holds with them the
timers that run, each with a load to go on with. -/
structure Firing (waiting : List TimerId) : Prop where
  nodup : (waiting ++ q.entries.map Prod.fst).Nodup
  sorted : Descending urgency q.entries
  ahead : Ahead q.now q.entries
  fits : ∀ p ∈ q.entries, p.2 < q.now + 2 ^ 32
  running : ∀ t, (q.block t).state = .running ↔ t ∈ waiting ++ q.entries.map Prod.fst
  load : ∀ t, (q.block t).state = .running → 0 < (q.block t).load ∧ (q.block t).load < 2 ^ 32

def Valid : Prop := q.Firing []

end TimerClock

/-- The list holds these deadlines. -/
structure Timers.Represents (s : Timers) (q : TimerClock) : Prop where
  list : Holds .timer timerPrev s.list .list q.now q.entries
  block : s.block = q.block
  enabled : s.enabled = q.enabled
  posted : s.posted = q.posted

/-! ### The deadlines by themselves -/

namespace TimerClock

variable {t u : TimerId} {q : TimerClock} {e : TimerEvent} {waiting : List TimerId} {ticks : ℕ}

theorem init_valid : init.Valid where
  nodup := List.nodup_nil
  sorted := Descending.nil
  ahead _ hp := absurd hp List.not_mem_nil
  fits _ hp := absurd hp List.not_mem_nil
  running _ := iff_of_false TimerState.noConfusion List.not_mem_nil
  load _ h := TimerState.noConfusion h

@[simp] theorem setBlock_self {block : TimerBlock} : (q.setBlock t block).block t = block := Function.update_self _ _ _

theorem setBlock_of_ne {block : TimerBlock} (h : u ≠ t) : (q.setBlock t block).block u = q.block u :=
  Function.update_of_ne h _ _

theorem perm_keys_insert : List.Perm ((q.insert t ticks).entries.map Prod.fst) (t :: q.entries.map Prod.fst) :=
  perm_enqueue.map Prod.fst

theorem Firing.insert (h : q.Firing waiting) {block : TimerBlock} (ht : t ∉ waiting ++ q.entries.map Prod.fst)
    (hticks : 0 < ticks ∧ ticks < 2 ^ 32) (hblock : block.state = .running)
    (hload : 0 < block.load ∧ block.load < 2 ^ 32) : ((q.setBlock t block).insert t ticks).Firing waiting := by
  have hperm : List.Perm (waiting ++ ((q.setBlock t block).insert t ticks).entries.map Prod.fst)
      (t :: (waiting ++ q.entries.map Prod.fst)) :=
    (perm_keys_insert.append_left waiting).trans List.perm_middle
  refine ⟨hperm.nodup_iff.mpr (List.nodup_cons.mpr ⟨ht, h.nodup⟩), h.sorted.enqueue, fun p hp => ?_, fun p hp => ?_,
    fun u => ?_, fun u hu => ?_⟩
  · rcases mem_enqueue.mp hp with rfl | hp
    · exact Nat.lt_add_of_pos_right hticks.1
    · exact h.ahead p hp
  · rcases mem_enqueue.mp hp with rfl | hp
    · exact Nat.add_lt_add_left hticks.2 _
    · exact h.fits p hp
  · rw [hperm.mem_iff, List.mem_cons]
    by_cases hut : u = t
    · subst hut
      exact iff_of_true ((congrArg TimerBlock.state setBlock_self).trans hblock) (.inl rfl)
    · rw [or_iff_right hut, ← h.running u]
      exact iff_of_eq (congrArg (TimerBlock.state · = .running) (setBlock_of_ne hut))
  · by_cases hut : u = t
    · subst hut
      exact (congrArg TimerBlock.load setBlock_self).symm ▸ hload
    · have hkeep : ((q.setBlock t block).insert t ticks).block u = q.block u := setBlock_of_ne hut
      rw [hkeep] at hu ⊢
      exact h.load u hu

theorem Firing.remove (h : q.Firing []) {block : TimerBlock} (hblock : block.state ≠ .running) :
    ((q.remove t).setBlock t block).Firing [] := by
  have hsub : (q.entries.filter fun p => p.1 ≠ t).Sublist q.entries := List.filter_sublist
  refine ⟨h.nodup.sublist (hsub.map _), h.sorted.sublist hsub, fun p hp => h.ahead p (hsub.subset hp),
    fun p hp => h.fits p (hsub.subset hp), fun u => ?_, fun u hu => ?_⟩
  · by_cases hut : u = t
    · subst hut
      refine iff_of_false (fun hrun => hblock ?_) fun hmem => ?_
      · exact (congrArg TimerBlock.state setBlock_self).symm.trans hrun
      · obtain ⟨p, hp, heq⟩ := List.mem_map.mp hmem
        exact of_decide_eq_true (List.mem_filter.mp hp).2 heq
    · have hkeep : ((q.remove t).setBlock t block).block u = q.block u := setBlock_of_ne hut
      rw [hkeep, h.running u]
      refine ⟨fun hmem => ?_, fun hmem => (hsub.map Prod.fst).subset hmem⟩
      obtain ⟨p, hp, rfl⟩ := List.mem_map.mp hmem
      exact List.mem_map_of_mem (List.mem_filter.mpr ⟨hp, decide_eq_true hut⟩)
  · have hne : u ≠ t := by
      rintro rfl
      exact hblock ((congrArg TimerBlock.state setBlock_self).symm.trans hu)
    have hkeep : ((q.remove t).setBlock t block).block u = q.block u := setBlock_of_ne hne
    rw [hkeep] at hu ⊢
    exact h.load u hu

/-- A timer that is posted leaves those that wait, and goes back into the list if it is periodic. -/
theorem Firing.fire (h : q.Firing (t :: waiting)) : (q.fire t).Firing waiting := by
  obtain ⟨hnot, hnodup⟩ := List.nodup_cons.mp (List.cons_append ▸ h.nodup)
  have hrun : (q.block t).state = .running := (h.running t).mpr List.mem_cons_self
  have hrest : ∀ u, u ≠ t → ((q.block u).state = .running ↔ u ∈ waiting ++ q.entries.map Prod.fst) := fun u hu => by
    rw [h.running u, List.cons_append, List.mem_cons, or_iff_right hu]
  have hstopped : (q.setBlock t { q.block t with state := .stopped }).Firing waiting := by
    refine ⟨hnodup, h.sorted, h.ahead, h.fits, fun u => ?_, fun u hu => ?_⟩
    · by_cases hut : u = t
      · subst hut
        rw [setBlock_self]
        exact iff_of_false TimerState.noConfusion hnot
      · rw [setBlock_of_ne hut]
        exact hrest u hut
    · by_cases hut : u = t
      · subst hut
        rw [setBlock_self] at hu
        exact TimerState.noConfusion hu
      · rw [setBlock_of_ne hut] at hu ⊢
        exact h.load u hu
  rw [TimerClock.fire]
  split
  case isTrue =>
    have hback := hstopped.insert hnot (h.load t hrun) hrun (h.load t hrun)
    have hblock :
        Function.update (q.setBlock t { q.block t with state := .stopped }).block t (q.block t) = q.block := by
      rw [setBlock, Function.update_idem, Function.update_eq_self]
    rw [setBlock, hblock] at hback
    exact ⟨hback.nodup, hback.sorted, hback.ahead, hback.fits, hback.running, hback.load⟩
  case isFalse =>
    exact ⟨hstopped.nodup, hstopped.sorted, hstopped.ahead, hstopped.fits, hstopped.running, hstopped.load⟩

theorem Firing.foldl (h : q.Firing waiting) : (waiting.foldl (fun q t => q.fire t) q).Valid := by
  induction waiting generalizing q with
  | nil => exact h
  | cons t waiting ih => exact ih h.fire

theorem Valid.elapse (h : q.Valid) :
    Firing { q with now := q.now + 1, entries := later (q.now + 1) q.entries }
      ((due (q.now + 1) q.entries).map Prod.fst) := by
  have hkeys : (due (q.now + 1) q.entries).map Prod.fst ++ (later (q.now + 1) q.entries).map Prod.fst =
      q.entries.map Prod.fst := by
    rw [← List.map_append, due_append_later]
  have hsub : (later (q.now + 1) q.entries).Sublist q.entries := List.dropWhile_sublist _
  refine ⟨?_, h.sorted.sublist hsub, ahead_later h.sorted, fun p hp => ?_, fun u => ?_, h.load⟩
  · rw [hkeys]
    exact h.nodup
  · have := h.fits p (hsub.subset hp)
    dsimp only
    omega
  · rw [hkeys]
    exact h.running u

theorem Valid.tick (h : q.Valid) : q.tick.Valid := h.elapse.foldl

theorem Valid.start (h : q.Valid) (hticks : ticks < 2 ^ 32) : (q.start t ticks).Valid := by
  rw [TimerClock.start]
  split
  · exact h
  case isFalse hargs =>
    rw [not_or] at hargs
    have hpos : 0 < ticks ∧ ticks < 2 ^ 32 := ⟨Nat.pos_of_ne_zero hargs.2, hticks⟩
    split
    case isTrue hrun =>
      have hgone : ((q.remove t).setBlock t { q.block t with state := .stopped }).Valid :=
        Firing.remove h TimerState.noConfusion
      have hback := @Firing.insert t _ [] ticks hgone (q.block t) (fun hmem => ?_) hpos hrun (h.load t hrun)
      · have hblock : (q.remove t).block = Function.update ((q.remove t).setBlock t
            { q.block t with state := .stopped }).block t (q.block t) := by
          rw [setBlock, Function.update_idem]
          exact (Function.update_eq_self t q.block).symm
        rw [setBlock, ← hblock] at hback
        exact hback
      · obtain ⟨p, hp, heq⟩ := List.mem_map.mp hmem
        exact of_decide_eq_true (List.mem_filter.mp hp).2 heq
    case isFalse hstop =>
      split
      · exact Firing.insert h (fun hmem => hstop ((h.running t).mpr hmem)) hpos rfl hpos
      · exact h

theorem Valid.apply (h : q.Valid) (he : q.Allowed e) : (q.apply e).Valid := by
  cases e with
  | timerThread => exact ⟨h.nodup, h.sorted, h.ahead, h.fits, h.running, h.load⟩
  | new t periodic =>
      have hgone : q.entries.filter (fun p => p.1 ≠ t) = q.entries := List.filter_eq_self.mpr fun p hp => by
        refine decide_eq_true fun heq => ?_
        have hrun := (h.running t).mpr (heq ▸ List.mem_map_of_mem (f := Prod.fst) hp)
        rw [he] at hrun
        exact TimerState.noConfusion hrun
      have hnew := @Firing.remove t q h ⟨.stopped, periodic, 0⟩ TimerState.noConfusion
      rw [remove, hgone] at hnew
      exact hnew
  | start t ticks => exact h.start he
  | stop t =>
      rw [TimerClock.apply, stop]
      split
      · exact Firing.remove h TimerState.noConfusion
      · exact h
  | delete t =>
      rw [TimerClock.apply, delete]
      split
      · exact h
      · exact Firing.remove h TimerState.noConfusion
  | tick => exact h.tick
  | resume sleepTicks =>
      rw [TimerClock.apply]
      induction sleepTicks with
      | zero => exact h
      | succ k ih =>
          rw [Function.iterate_succ_apply']
          exact (ih trivial).tick

end TimerClock

/-! ### What the list does to the deadlines -/

namespace Timers

variable {fuel : ℕ} {t u : TimerId} {s s' : Timers} {q : TimerClock} {e : TimerEvent} {events : List TimerEvent}
  {l waiting : List TimerId} {ticks : ℕ}

theorem places_nodup (h : l.Nodup) : (places TimerPlace.timer .list l).Nodup := by
  refine List.nodup_cons.mpr ⟨fun hmem => ?_, h.map fun _ _ heq => TimerPlace.timer.inj heq⟩
  obtain ⟨u, -, hu⟩ := List.mem_map.mp hmem
  cases hu

theorem timerPlace_timerPrev (p : TimerPlace) : timerPlace (timerPrev p) = p := by
  cases p <;> rfl

theorem Represents.insert (h : s.Represents q) (ticks : ℕ) (hnodup : (q.entries.map Prod.fst).Nodup)
    (ht : t ∉ q.entries.map Prod.fst) (hfuel : q.entries.length ≤ fuel) :
    ∃ s', s.timerInsert fuel t ticks = some s' ∧ s'.Represents (q.insert t ticks) := by
  obtain ⟨l₁, l₂, rest, -, hseek, -, hholds⟩ :=
    h.list.insert (d := ticks) (places_nodup (List.nodup_cons.mpr ⟨ht, hnodup⟩)) hfuel
  rw [timerInsert, hseek]
  exact ⟨_, rfl, ⟨hholds, h.block, h.enabled, h.posted⟩⟩

theorem Represents.remove (h : s.Represents q) (hvalid : q.Valid) (ht : t ∈ q.entries.map Prod.fst) :
    (s.timerRemove t).Represents (q.remove t) := by
  obtain ⟨deadline, hmem⟩ : ∃ deadline, (t, deadline) ∈ q.entries := by
    obtain ⟨p, hp, rfl⟩ := List.mem_map.mp ht
    exact ⟨p.2, hp⟩
  obtain ⟨e₁, e₂, hsplit⟩ := List.append_of_mem hmem
  have hholds := h.list
  have hnodup : (q.entries.map Prod.fst).Nodup := hvalid.nodup
  rw [hsplit] at hholds hnodup
  have hchain := hholds.chain
  have hgone := hholds.withdraw (2 ^ 32) (places_nodup hnodup) fun p hp => hvalid.fits p (by
    rw [hsplit]
    exact List.mem_append_right _ (List.mem_cons_of_mem _ hp))
  simp only [List.map_append, List.map_cons] at hchain hnodup
  have hnot := (List.nodup_cons.mp (List.perm_middle.nodup_iff.mp hnodup)).1
  have hfilter : q.entries.filter (fun p => p.1 ≠ t) = e₁ ++ e₂ := by
    rw [hsplit, List.filter_append, List.filter_cons_of_neg (by simp), ← List.filter_append]
    refine List.filter_eq_self.mpr fun p hp => decide_eq_true fun heq => hnot ?_
    rw [← List.map_append]
    exact heq ▸ List.mem_map_of_mem hp
  rw [TimerClock.remove, hfilter, timerRemove, (chain_cons.mp (chain_append.mp hchain).2).2.1, timerPlace_timerPrev]
  exact ⟨hgone, h.block, h.enabled, h.posted⟩

theorem Represents.setBlock (h : s.Represents q) (block : TimerBlock) :
    Represents { s with block := Function.update s.block t block } (q.setBlock t block) :=
  ⟨h.list, congrArg (Function.update · t block) h.block, h.enabled, h.posted⟩

theorem Represents.setState (h : s.Represents q) (state : TimerState) :
    (s.setState t state).Represents (q.setBlock t { q.block t with state := state }) := by
  rw [Timers.setState, h.block]
  exact h.block ▸ h.setBlock _

theorem unlinkHead_eq {links : Links TimerId TimerPlace (Option TimerId)}
    (h : Chain .timer timerPrev links .list (t :: l)) :
    unlinkHead t links = bypass .timer timerPrev links .list t := by
  have hprev : links.prev t = none := (chain_cons.mp h).2.1
  rw [unlinkHead, hprev, bypass, connect]
  cases links.next (.timer t) <;> rfl

/-- The queue with those that still wait in front, as the list holds them -/
def withWaiting (q : TimerClock) (waiting : List TimerId) : TimerClock :=
  { q with entries := waiting.map (fun t => (t, q.now)) ++ q.entries }

theorem map_fst_withWaiting :
    (withWaiting q waiting).entries.map Prod.fst = waiting ++ q.entries.map Prod.fst := by
  rw [withWaiting, List.map_append, List.map_map]
  exact congrArg (· ++ _) (List.map_id waiting)

theorem Represents.fire (h : s.Represents (withWaiting q (t :: waiting))) (hfiring : q.Firing (t :: waiting))
    (hfuel : (withWaiting q (t :: waiting)).entries.length ≤ fuel) :
    ∃ s', s.fire fuel = some s' ∧ s'.Represents (withWaiting (q.fire t) waiting) := by
  have hnodup : ((withWaiting q (t :: waiting)).entries.map Prod.fst).Nodup := by
    rw [map_fst_withWaiting]
    exact hfiring.nodup
  have hkeys : ((withWaiting q waiting).entries.map Prod.fst).Nodup ∧
      t ∉ (withWaiting q waiting).entries.map Prod.fst := (List.nodup_cons.mp hnodup).symm
  have hpop : Represents { s.timerUnlink t with posted := s.posted ++ [t] }
      { withWaiting q waiting with posted := q.posted ++ [t] } := by
    refine ⟨?_, h.block, h.enabled, congrArg (· ++ [t]) h.posted⟩
    have hlinks := unlinkHead_eq h.list.chain
    rw [timerUnlink, hlinks]
    exact h.list.pop (places_nodup hnodup)
  have hnext : s.list.links.next .list = some t := h.list.next_eq
  have hblock : s.block = q.block := h.block
  have hkept : (s.timerUnlink t).block = s.block := rfl
  rw [Timers.fire, hnext, Option.bind_some, TimerClock.fire, ← hblock]
  dsimp only
  rw [hkept]
  split
  case isTrue =>
    obtain ⟨s', hs', hrep⟩ := hpop.insert (s.block t).load hkeys.1 hkeys.2
      (Nat.le_of_succ_le hfuel)
    refine ⟨s', hs', ?_⟩
    have hentries : enqueue urgency (t, q.now + (s.block t).load) (withWaiting q waiting).entries =
        waiting.map (fun t => (t, q.now)) ++ enqueue urgency (t, q.now + (s.block t).load) q.entries := by
      refine enqueue_append_of_le fun p hp => ?_
      obtain ⟨u, -, rfl⟩ := List.mem_map.mp hp
      exact urgency_le.mpr (Nat.le_add_right _ _)
    have hlist : Holds .timer timerPrev s'.list .list q.now
        (enqueue urgency (t, q.now + (s.block t).load) (withWaiting q waiting).entries) := hrep.list
    rw [hentries] at hlist
    exact ⟨hlist, hrep.block, hrep.enabled, hrep.posted⟩
  case isFalse =>
    have hstopped := congrArg (Function.update · t ⟨.stopped, (s.block t).periodic, (s.block t).load⟩) hblock
    exact ⟨_, rfl, hpop.list, hstopped, hpop.enabled, hpop.posted⟩

/-- The loop posts the timers that wait, one after another. -/
theorem Represents.loop {n : ℕ} (h : s.Represents (withWaiting q waiting)) (hfiring : q.Firing waiting)
    (hfuel : (withWaiting q waiting).entries.length ≤ fuel) (hturns : waiting.length ≤ n) :
    ∃ s', whileLoop headDue (Timers.fire fuel) n s = some s' ∧
      s'.Represents (waiting.foldl (fun q t => q.fire t) q) := by
  induction waiting generalizing s q n with
  | nil =>
      refine ⟨s, whileLoop_of_false ?_, h⟩
      have hahead : Ahead (withWaiting q []).now (withWaiting q []).entries := hfiring.ahead
      rw [← h.list.deadlines, ahead_deadlines] at hahead
      rw [headDue, h.list.next_eq]
      cases hhead : ((withWaiting q []).entries.map Prod.fst).head? with
      | none => rfl
      | some t =>
          refine decide_eq_false (Nat.ne_of_gt (hahead (t, s.list.ticks t) ?_))
          rw [differences, List.head?_map]
          exact congrArg (Option.map _) hhead
  | cons t waiting ih =>
      obtain ⟨n, rfl⟩ := Nat.exists_eq_add_one.mpr (Nat.lt_of_lt_of_le (Nat.succ_pos waiting.length) hturns)
      obtain ⟨s₁, hs₁, hrep⟩ := h.fire hfiring hfuel
      have hlength :
          (withWaiting (q.fire t) waiting).entries.length ≤ (withWaiting q (t :: waiting)).entries.length := by
        simp only [withWaiting, List.length_append, List.length_map, List.length_cons, TimerClock.fire]
        split <;> simp only [TimerClock.insert, TimerClock.setBlock, length_enqueue] <;> omega
      obtain ⟨s', hs', hfin⟩ := ih hrep hfiring.fire (Nat.le_trans hlength hfuel) (Nat.le_of_succ_le_succ hturns)
      refine ⟨s', ?_, hfin⟩
      rw [whileLoop_of_true ?_ hs₁]
      · exact hs'
      · have hticks : q.now + s.list.ticks t = q.now := h.list.ticks_head
        rw [headDue, h.list.next_eq]
        exact decide_eq_true (Nat.add_left_cancel hticks)

theorem decrement_of_pos (h : 0 < s.list.ticks t) :
    s.decrement t = { s with list := setTicks s.list t (s.list.ticks t - 1) } := by
  rw [Timers.decrement, if_neg (Nat.ne_of_gt h)]

theorem Represents.firstTick_pos (h : s.Represents q) (hvalid : q.Valid) (hnext : s.list.links.next .list = some t) :
    0 < s.list.ticks t := by
  have hahead := hvalid.ahead
  rw [← h.list.deadlines, ahead_deadlines] at hahead
  refine hahead (t, s.list.ticks t) ?_
  rw [differences, List.head?_map, ← h.list.next_eq, hnext]
  rfl

theorem due_eq (hvalid : q.Valid) :
    ((due (q.now + 1) q.entries).map Prod.fst).map (fun t => (t, q.now + 1)) = due (q.now + 1) q.entries := by
  rw [List.map_map]
  refine (List.map_congr_left fun p hp => ?_).trans (List.map_id _)
  have hle := le_of_mem_due hp
  have hlt := hvalid.ahead p ((List.takeWhile_sublist _).subset hp)
  exact Prod.ext rfl (Nat.le_antisymm hlt hle)

theorem Represents.tick (h : s.Represents q) (hvalid : q.Valid) (hfuel : q.entries.length ≤ fuel) :
    ∃ s', s.osRtxTimerTick fuel = some s' ∧ s'.Represents q.tick := by
  rw [osRtxTimerTick]
  cases hnext : s.list.links.next .list with
  | none =>
      have hempty : q.entries = [] :=
        List.map_eq_nil_iff.mp (List.head?_eq_none_iff.mp (h.list.next_eq.symm.trans hnext))
      refine ⟨s, rfl, ?_⟩
      rw [TimerClock.tick, hempty]
      exact ⟨holds_nil hnext, h.block, h.enabled, h.posted⟩
  | some t =>
      have hpos := h.firstTick_pos hvalid hnext
      have hentries : (withWaiting { q with now := q.now + 1, entries := later (q.now + 1) q.entries }
          ((due (q.now + 1) q.entries).map Prod.fst)).entries = q.entries := by
        rw [withWaiting, due_eq hvalid, due_append_later]
      have hrep : Represents (s.decrement t)
          (withWaiting { q with now := q.now + 1, entries := later (q.now + 1) q.entries }
            ((due (q.now + 1) q.entries).map Prod.fst)) := by
        rw [decrement_of_pos hpos]
        refine ⟨?_, h.block, h.enabled, h.posted⟩
        rw [hentries]
        exact h.list.elapse hvalid.nodup hnext hpos
      refine hrep.loop hvalid.elapse ?_ ?_
      · rw [hentries]
        exact hfuel
      · rw [List.length_map]
        exact Nat.le_trans (List.takeWhile_sublist _).length_le hfuel

theorem not_mem_of_not_running (hvalid : q.Valid) (h : (q.block t).state ≠ .running) : t ∉ q.entries.map Prod.fst :=
  fun hmem => h ((hvalid.running t).mpr hmem)

theorem remove_of_not_running (hvalid : q.Valid) (h : (q.block t).state ≠ .running) : q.remove t = q := by
  have hkeep : q.entries.filter (fun p => p.1 ≠ t) = q.entries := List.filter_eq_self.mpr fun p hp =>
    decide_eq_true fun heq => not_mem_of_not_running hvalid h (heq ▸ List.mem_map_of_mem hp)
  rw [TimerClock.remove, hkeep]

theorem Represents.start (h : s.Represents q) (ticks : ℕ) (hvalid : q.Valid) (hfuel : q.entries.length ≤ fuel) :
    ∃ s', s.svcRtxTimerStart fuel t ticks = some (q.startStatus t ticks, s') ∧ s'.Represents (q.start t ticks) := by
  rw [svcRtxTimerStart, TimerClock.start, TimerClock.startStatus, h.block, h.enabled]
  split
  · exact ⟨s, rfl, h⟩
  · split
    case isTrue hrun =>
      rw [if_pos (.inl hrun)]
      have hrep := h.remove hvalid ((hvalid.running t).mp hrun)
      have hsub : ((q.remove t).entries).Sublist q.entries := List.filter_sublist
      have hnot : t ∉ (q.remove t).entries.map Prod.fst := fun hmem => by
        obtain ⟨p, hp, heq⟩ := List.mem_map.mp hmem
        exact of_decide_eq_true (List.mem_filter.mp hp).2 heq
      obtain ⟨s', hs', hfin⟩ := hrep.insert ticks (hvalid.nodup.sublist (hsub.map Prod.fst)) hnot
        (Nat.le_trans hsub.length_le hfuel)
      rw [hs']
      exact ⟨s', rfl, hfin⟩
    case isFalse hstop =>
      simp only [hstop, false_or]
      split
      · have hrep := h.setBlock (t := t) ⟨.running, (q.block t).periodic, ticks⟩
        have hnot : t ∉ q.entries.map Prod.fst := not_mem_of_not_running hvalid hstop
        obtain ⟨s', hs', hfin⟩ := hrep.insert ticks hvalid.nodup hnot hfuel
        rw [h.block, h.enabled] at hs'
        rw [hs']
        exact ⟨s', rfl, hfin⟩
      · exact ⟨s, rfl, h⟩

theorem Represents.new (h : s.Represents q) (hvalid : q.Valid) (ht : (q.block t).state = .inactive)
    (periodic : Bool) :
    (s.svcRtxTimerNew t periodic).Represents (q.setBlock t ⟨.stopped, periodic, 0⟩) := by
  have hnot : t ∉ q.entries.map Prod.fst := not_mem_of_not_running hvalid fun hrun =>
    TimerState.noConfusion (ht.symm.trans hrun)
  refine ⟨?_, congrArg (Function.update · t _) h.block, h.enabled, h.posted⟩
  refine h.list.congr (places_nodup hvalid.nodup) (fun p hp => ?_) (fun u hu => ?_) fun u hu => ?_
  · refine Function.update_of_ne (fun heq : p = .timer t => hnot ?_) _ _
    rcases List.mem_cons.mp hp with hroot | hp
    · exact TimerPlace.noConfusion (hroot.symm.trans heq)
    · obtain ⟨u, hu, hplace⟩ := List.mem_map.mp hp
      exact TimerPlace.timer.inj (hplace.trans heq) ▸ hu
  · exact Function.update_of_ne (fun heq : u = t => hnot (heq ▸ hu)) _ _
  · exact Function.update_of_ne (fun heq : u = t => hnot (heq ▸ hu)) _ _

theorem Represents.stop (h : s.Represents q) (hvalid : q.Valid) : (s.svcRtxTimerStop t).2.Represents (q.stop t) := by
  rw [svcRtxTimerStop, TimerClock.stop, h.block]
  cases hstate : (q.block t).state with
  | inactive => exact h
  | stopped => exact h
  | running =>
      rw [if_pos rfl]
      have hrep := (h.remove hvalid ((hvalid.running t).mp hstate)).setState (t := t) .stopped
      exact ⟨hrep.list, hrep.block, hrep.enabled, hrep.posted⟩

theorem Represents.delete (h : s.Represents q) (hvalid : q.Valid) :
    (s.svcRtxTimerDelete t).2.Represents (q.delete t) := by
  rw [svcRtxTimerDelete, TimerClock.delete, h.block]
  cases hstate : (q.block t).state with
  | inactive => exact h
  | stopped =>
      rw [if_neg TimerState.noConfusion,
        remove_of_not_running hvalid fun hrun => TimerState.noConfusion (hstate.symm.trans hrun)]
      exact h.setState .inactive
  | running =>
      rw [if_neg TimerState.noConfusion]
      exact (h.remove hvalid ((hvalid.running t).mp hstate)).setState .inactive

/-! ### Sleep -/

theorem firstTick_ne_of_not_headDue (h : s.headDue = false) : s.firstTick ≠ some 0 := by
  intro hzero
  obtain ⟨t, hnext, hticks⟩ := Option.map_eq_some_iff.mp hzero
  rw [headDue, hnext] at h
  exact of_decide_eq_false h hticks

theorem countdown_lawful : (countdown fuel).Lawful where
  tick_none s hs := by
    have hnext : s.list.links.next .list = none := Option.map_eq_none_iff.mp hs
    simp only [countdown, osRtxTimerTick, hnext]
  tick_wait s n hs := by
    obtain ⟨t, hnext, hticks⟩ := Option.map_eq_some_iff.mp hs
    simp only [countdown, osRtxTimerTick, setFirstTick, hnext]
    rw [decrement_of_pos (hticks ▸ Nat.succ_pos _), hticks]
    refine whileLoop_of_false ?_
    have hkept : (setTicks s.list t (n + 2 - 1)).links.next .list = some t := hnext
    rw [headDue, hkept]
    exact decide_eq_false (by rw [setTicks_ticks_self]; exact Nat.succ_ne_zero n)
  tick_event s s' hs htick := by
    obtain ⟨t, hnext, hticks⟩ := Option.map_eq_some_iff.mp hs
    simp only [countdown, osRtxTimerTick, hnext] at htick
    exact firstTick_ne_of_not_headDue (guard_of_whileLoop htick)
  head_setHead s n hs := by
    obtain ⟨tick, htick⟩ := Option.isSome_iff_exists.mp hs
    obtain ⟨t, hnext, -⟩ := Option.map_eq_some_iff.mp htick
    have hkept : (setTicks s.list t n).links.next .list = some t := hnext
    simp only [countdown, setFirstTick, firstTick, hnext, hkept]
    exact congrArg some setTicks_ticks_self
  setHead_setHead s m n := by
    simp only [countdown, setFirstTick]
    cases hnext : s.list.links.next .list with
    | none => simp only [hnext]
    | some t =>
        simp only [setTicks, hnext, Function.update_idem]
  setHead_head s n hs := by
    obtain ⟨t, hnext, hticks⟩ := Option.map_eq_some_iff.mp hs
    simp only [countdown, setFirstTick, hnext, setTicks, ← hticks, Function.update_eq_self]

/-- After a sleep the list is what the ticks that were missed would have made of it, one by one. -/
theorem Represents.resume_eq (h : s.Represents q) (hvalid : q.Valid) (sleepTicks : ℕ) :
    s.svcRtxKernelResume fuel sleepTicks = (countdown fuel).elapse sleepTicks s := by
  refine countdown_lawful.leaps_eq (fun hzero => ?_) (Nat.le_refl _)
  obtain ⟨t, hnext, hticks⟩ := Option.map_eq_some_iff.mp hzero
  exact Nat.ne_of_gt (h.firstTick_pos hvalid hnext) hticks

end Timers

/-! ### When a timer is posted -/

def TimerEvent.timer : TimerEvent → Option TimerId
  | .new t _ | .start t _ | .stop t | .delete t => some t
  | .timerThread | .tick | .resume _ => none

def TimerEvent.ticks : TimerEvent → ℕ
  | .tick => 1
  | .resume sleepTicks => sleepTicks
  | _ => 0

/-- How often a timer is posted within so many ticks, if it runs down after `left` of them. -/
def firings (periodic : Bool) (load left ticks : ℕ) : ℕ :=
  if ticks < left then 0 else if periodic then 1 + (ticks - left) / load else 1

namespace TimerClock

variable {t u : TimerId} {q q' q'' : TimerClock} {e : TimerEvent} {events : List TimerEvent} {waiting : List TimerId}
  {deadline ticks n : ℕ}

structure SameFor (t : TimerId) (q q' : TimerClock) : Prop where
  now : q'.now = q.now
  block : q'.block t = q.block t
  count : q'.posted.count t = q.posted.count t
  entries : ∀ deadline, (t, deadline) ∈ q'.entries ↔ (t, deadline) ∈ q.entries

theorem SameFor.refl : SameFor t q q := ⟨rfl, rfl, rfl, fun _ => Iff.rfl⟩

theorem SameFor.trans (h : SameFor t q q') (h' : SameFor t q' q'') : SameFor t q q'' :=
  ⟨h'.now.trans h.now, h'.block.trans h.block, h'.count.trans h.count, fun d => (h'.entries d).trans (h.entries d)⟩

theorem sameFor_insert (hut : u ≠ t) : SameFor t q (q.insert u ticks) := by
  refine ⟨rfl, rfl, rfl, fun deadline => mem_enqueue.trans (or_iff_right fun heq => hut ?_)⟩
  exact (congrArg Prod.fst heq).symm

theorem sameFor_remove (hut : u ≠ t) : SameFor t q (q.remove u) :=
  ⟨rfl, rfl, rfl, fun _ => List.mem_filter.trans (and_iff_left (decide_eq_true hut.symm))⟩

theorem sameFor_setBlock {block : TimerBlock} (hut : u ≠ t) : SameFor t q (q.setBlock u block) :=
  ⟨rfl, setBlock_of_ne hut.symm, rfl, fun _ => Iff.rfl⟩

theorem sameFor_post (hut : u ≠ t) : SameFor t q { q with posted := q.posted ++ [u] } := by
  refine ⟨rfl, rfl, ?_, fun _ => Iff.rfl⟩
  rw [List.count_append, List.count_singleton, if_neg (by simpa using hut), Nat.add_zero]

theorem sameFor_fire (hut : u ≠ t) : SameFor t q (q.fire u) := by
  rw [fire]
  split
  · exact (sameFor_insert hut).trans (sameFor_post hut)
  · exact (sameFor_setBlock hut).trans (sameFor_post hut)

theorem sameFor_foldl (ht : t ∉ waiting) : SameFor t q (waiting.foldl (fun q u => q.fire u) q) := by
  induction waiting generalizing q with
  | nil => exact SameFor.refl
  | cons u waiting ih =>
      rw [List.mem_cons, not_or] at ht
      obtain ⟨hu, ht⟩ := ht
      exact (sameFor_fire (Ne.symm hu)).trans (ih ht)

theorem sameFor_apply (he : e.timer ≠ some t) (hticks : e.ticks = 0) : SameFor t q (q.apply e) := by
  cases e with
  | timerThread => exact ⟨rfl, rfl, rfl, fun _ => Iff.rfl⟩
  | new u periodic => exact sameFor_setBlock fun heq => he (congrArg some heq)
  | start u ticks =>
      have hut : u ≠ t := fun heq => he (congrArg some heq)
      rw [apply, start]
      split
      · exact SameFor.refl
      split
      · exact (sameFor_remove hut).trans (sameFor_insert hut)
      split
      · exact (sameFor_setBlock hut).trans (sameFor_insert hut)
      · exact SameFor.refl
  | stop u =>
      have hut : u ≠ t := fun heq => he (congrArg some heq)
      rw [apply, stop]
      split
      · exact (sameFor_remove hut).trans (sameFor_setBlock hut)
      · exact SameFor.refl
  | delete u =>
      have hut : u ≠ t := fun heq => he (congrArg some heq)
      rw [apply, delete]
      split
      · exact SameFor.refl
      · exact (sameFor_remove hut).trans (sameFor_setBlock hut)
  | tick => exact absurd hticks Nat.one_ne_zero
  | resume sleepTicks =>
      obtain rfl : sleepTicks = 0 := hticks
      exact SameFor.refl

theorem Valid.tick_wait (h : q.Valid) (ht : (t, deadline) ∈ q.entries) (hlater : q.now + 1 < deadline) :
    SameFor t { q with now := q.now + 1 } q.tick := by
  have hnodup : (q.entries.map Prod.fst).Nodup := h.nodup
  have hmem : (t, deadline) ∈ later (q.now + 1) q.entries := (mem_later h.sorted).mpr ⟨ht, hlater⟩
  rw [← due_append_later (t := q.now + 1) (l := q.entries), List.map_append] at hnodup
  have hcross := (List.nodup_append.mp hnodup).2.2
  have hnot : t ∉ (due (q.now + 1) q.entries).map Prod.fst := fun hdue =>
    hcross t hdue t (List.mem_map_of_mem (f := Prod.fst) hmem) rfl
  have hcut : SameFor t { q with now := q.now + 1 }
      { q with now := q.now + 1, entries := later (q.now + 1) q.entries } := by
    refine ⟨rfl, rfl, rfl, fun d => (mem_later h.sorted).trans (and_iff_left_of_imp fun hd => ?_)⟩
    refine Nat.lt_of_not_le fun hle => hnot ?_
    exact List.mem_map_of_mem (f := Prod.fst) ((mem_due h.sorted).mpr ⟨hd, hle⟩)
  exact hcut.trans (sameFor_foldl hnot)

/-- With the tick of its deadline a timer is posted once, and runs on from there if it is periodic. -/
theorem Valid.tick_fire (h : q.Valid) (ht : (t, q.now + 1) ∈ q.entries) :
    q.tick.now = q.now + 1 ∧ q.tick.posted.count t = q.posted.count t + 1 ∧
      if (q.block t).periodic then
        q.tick.block t = q.block t ∧ (t, q.now + 1 + (q.block t).load) ∈ q.tick.entries
      else t ∉ q.tick.entries.map Prod.fst := by
  have hnodup : (q.entries.map Prod.fst).Nodup := h.nodup
  rw [← due_append_later (t := q.now + 1) (l := q.entries), List.map_append] at hnodup
  obtain ⟨hdue, -, hcross⟩ := List.nodup_append.mp hnodup
  have hmem : t ∈ (due (q.now + 1) q.entries).map Prod.fst :=
    List.mem_map_of_mem (f := Prod.fst) ((mem_due h.sorted).mpr ⟨ht, Nat.le_refl _⟩)
  obtain ⟨w₁, w₂, hsplit⟩ := List.append_of_mem hmem
  rw [hsplit] at hdue hcross
  obtain ⟨hw, -⟩ := List.nodup_cons.mp (List.perm_middle.nodup_iff.mp hdue)
  rw [List.mem_append, not_or] at hw
  have hlater : ∀ d, (t, d) ∉ later (q.now + 1) q.entries := fun d hd =>
    hcross t (List.mem_append_right _ List.mem_cons_self) t (List.mem_map_of_mem (f := Prod.fst) hd) rfl
  obtain ⟨q₁, hq₁⟩ : ∃ q₁ : TimerClock, w₁.foldl (fun q u => q.fire u)
      { q with now := q.now + 1, entries := later (q.now + 1) q.entries } = q₁ := ⟨_, rfl⟩
  obtain ⟨hnow₁, hblock₁, hcount₁, hentries₁⟩ := sameFor_foldl (t := t)
    (q := { q with now := q.now + 1, entries := later (q.now + 1) q.entries }) hw.1
  rw [hq₁] at hnow₁ hblock₁ hcount₁ hentries₁
  rw [TimerClock.tick, hsplit, List.foldl_append, List.foldl_cons, hq₁]
  obtain ⟨hnow₂, hblock₂, hcount₂, hentries₂⟩ := sameFor_foldl (t := t) (q := q₁.fire t) hw.2
  have hposted : (q₁.fire t).posted.count t = q.posted.count t + 1 := by
    have hlist : (q₁.fire t).posted = q₁.posted ++ [t] := by
      rw [fire]
      split <;> rfl
    rw [hlist, List.count_append, List.count_singleton_self, hcount₁]
  have hnow : (q₁.fire t).now = q.now + 1 := by
    rw [fire]
    split <;> exact hnow₁
  refine ⟨hnow₂.trans hnow, hcount₂.trans hposted, ?_⟩
  split
  case isTrue hperiodic =>
    have hperiodic₁ : (q₁.block t).periodic = true := (congrArg TimerBlock.periodic hblock₁).trans hperiodic
    rw [hblock₂, hentries₂, fire, if_pos hperiodic₁]
    refine ⟨hblock₁, mem_enqueue.mpr (.inl ?_)⟩
    rw [hblock₁, hnow₁]
  case isFalse hperiodic =>
    have hperiodic₁ : ¬ (q₁.block t).periodic = true := fun heq =>
      hperiodic ((congrArg TimerBlock.periodic hblock₁).symm.trans heq)
    intro hin
    obtain ⟨p, hp, rfl⟩ := List.mem_map.mp hin
    have hlast := (hentries₂ p.2).mp hp
    rw [fire, if_neg hperiodic₁] at hlast
    exact hlater p.2 ((hentries₁ p.2).mp hlast)

theorem tick_of_not_mem (ht : t ∉ q.entries.map Prod.fst) :
    t ∉ q.tick.entries.map Prod.fst ∧ q.tick.posted.count t = q.posted.count t := by
  have hnot : t ∉ (due (q.now + 1) q.entries).map Prod.fst := fun hdue =>
    ht (((List.takeWhile_sublist _).map Prod.fst).subset hdue)
  have hsame := sameFor_foldl (q := { q with now := q.now + 1, entries := later (q.now + 1) q.entries }) hnot
  refine ⟨fun hmem => ?_, hsame.count⟩
  obtain ⟨p, hp, rfl⟩ := List.mem_map.mp hmem
  exact ht (List.mem_map_of_mem ((List.dropWhile_sublist _).subset ((hsame.entries p.2).mp hp)))

/-- A timer that does not run is not posted, and time alone does not change that. -/
theorem count_foldl_of_not_mem (ht : t ∉ q.entries.map Prod.fst) (hother : ∀ e ∈ events, e.timer ≠ some t)
    (hunit : ∀ e ∈ events, e.ticks ≠ 0 → e = .tick) :
    (events.foldl apply q).posted.count t = q.posted.count t := by
  induction events generalizing q with
  | nil => rfl
  | cons e events ih =>
      obtain ⟨he, hrest⟩ := List.forall_mem_cons.mp hother
      obtain ⟨htick, hunits⟩ := List.forall_mem_cons.mp hunit
      by_cases hticks : e.ticks = 0
      · have hsame := sameFor_apply (q := q) he hticks
        refine (ih (fun hmem => ht ?_) hrest hunits).trans hsame.count
        obtain ⟨p, hp, rfl⟩ := List.mem_map.mp hmem
        exact List.mem_map_of_mem ((hsame.entries p.2).mp hp)
      · obtain rfl := htick hticks
        obtain ⟨hnot, hcount⟩ := tick_of_not_mem ht
        exact (ih hnot hrest hunits).trans hcount

theorem firings_of_lt {periodic : Bool} {load left : ℕ} (h : ticks < left) : firings periodic load left ticks = 0 :=
  if_pos h

theorem firings_pos {periodic : Bool} {load left : ℕ} (h : left ≤ ticks) : 0 < firings periodic load left ticks := by
  rw [firings, if_neg (Nat.not_lt_of_le h)]
  split
  · exact Nat.lt_of_lt_of_le Nat.zero_lt_one (Nat.le_add_right _ _)
  · exact Nat.zero_lt_one

theorem firings_succ {periodic : Bool} {load left : ℕ} :
    firings periodic load (left + 1) (ticks + 1) = firings periodic load left ticks := by
  simp only [firings, Nat.add_lt_add_iff_right, Nat.add_sub_add_right]

/-- With the last tick the timer is posted, and a periodic one has its load to go. -/
theorem firings_one {periodic : Bool} {load : ℕ} (hload : 0 < load) :
    firings periodic load 1 (ticks + 1) = 1 + if periodic then firings periodic load load ticks else 0 := by
  rw [firings, if_neg (by omega), Nat.add_sub_cancel]
  cases periodic with
  | false => rfl
  | true =>
      simp only [if_true, firings]
      split
      case isTrue hless => rw [Nat.div_eq_of_lt hless]
      case isFalse hge =>
        rw [Nat.div_eq_sub_div hload (Nat.le_of_not_lt hge), Nat.add_comm 1 (_ / _)]

theorem Valid.count_foldl (h : q.Valid) (ht : (t, deadline) ∈ q.entries)
    (halong : Along (fun q e => some (TimerClock.apply q e)) Allowed q events)
    (hother : ∀ e ∈ events, e.timer ≠ some t) (hunit : ∀ e ∈ events, e.ticks ≠ 0 → e = .tick) :
    (events.foldl TimerClock.apply q).posted.count t = q.posted.count t +
      firings (q.block t).periodic (q.block t).load (deadline - q.now) (events.map TimerEvent.ticks).sum := by
  induction events generalizing q deadline with
  | nil =>
      rw [List.map_nil, List.sum_nil, firings_of_lt (Nat.sub_pos_of_lt (h.ahead _ ht))]
      rfl
  | cons e events ih =>
      obtain ⟨he, hrest⟩ := List.forall_mem_cons.mp hother
      obtain ⟨htick, hunits⟩ := List.forall_mem_cons.mp hunit
      have hvalid := h.apply halong.1
      have hallowed := halong.2 _ rfl
      rw [List.foldl_cons, List.map_cons, List.sum_cons]
      by_cases hticks : e.ticks = 0
      · have hsame := sameFor_apply (q := q) he hticks
        rw [ih hvalid ((hsame.entries _).mpr ht) hallowed hrest hunits, hsame.count, hsame.block, hsame.now, hticks,
          Nat.zero_add]
      · obtain rfl := htick hticks
        have hone : TimerEvent.tick.ticks + (events.map TimerEvent.ticks).sum =
            (events.map TimerEvent.ticks).sum + 1 := Nat.add_comm _ _
        rw [hone]
        rcases Nat.eq_or_lt_of_le (h.ahead _ ht) with heq | hlater
        · obtain rfl : q.now + 1 = deadline := heq
          obtain ⟨hnow, hcount, hafter⟩ := h.tick_fire ht
          have hload := (h.load t ((h.running t).mpr (List.mem_map_of_mem (f := Prod.fst) ht))).1
          rw [Nat.add_sub_cancel_left, firings_one hload, ← Nat.add_assoc, ← hcount]
          split at hafter
          case isTrue hperiodic =>
            have hnext := ih hvalid hafter.2 hallowed hrest hunits
            have hleft : q.now + 1 + (q.block t).load - (q.apply .tick).now = (q.block t).load := by
              rw [show (q.apply .tick).now = q.now + 1 from hnow, Nat.add_sub_cancel_left]
            rw [hleft, show (q.apply .tick).block t = q.block t from hafter.1] at hnext
            rw [if_pos hperiodic]
            exact hnext
          case isFalse hperiodic =>
            rw [if_neg hperiodic]
            exact count_foldl_of_not_mem hafter hrest hunits
        · have hsame := h.tick_wait ht hlater
          have hnext := ih hvalid ((hsame.entries _).mpr ht) hallowed hrest hunits
          have hnow : (q.apply .tick).now = q.now + 1 := hsame.now
          have hleft : deadline - q.now = deadline - (q.now + 1) + 1 := by
            dsimp only at hlater
            omega
          rw [show (q.apply .tick).block t = q.block t from hsame.block, hnow,
            show (q.apply .tick).posted.count t = q.posted.count t from hsame.count] at hnext
          rw [hnext, hleft, firings_succ]

/-! ### Runs -/

/-- A sleep as the ticks that were missed -/
def units : TimerEvent → List TimerEvent
  | .resume sleepTicks => List.replicate sleepTicks .tick
  | e => [e]

theorem foldl_unit : (units e).foldl apply q = q.apply e := by
  cases e with
  | resume sleepTicks =>
      rw [units, apply]
      induction sleepTicks generalizing q with
      | zero => rfl
      | succ k ih => exact ih
  | _ => rfl

theorem foldl_units : (events.flatMap units).foldl apply q = events.foldl apply q := by
  induction events generalizing q with
  | nil => rfl
  | cons e events ih => rw [List.flatMap_cons, List.foldl_append, List.foldl_cons, foldl_unit, ih]

theorem sum_units : ((events.flatMap units).map TimerEvent.ticks).sum = (events.map TimerEvent.ticks).sum := by
  induction events with
  | nil => rfl
  | cons e events ih =>
      rw [List.flatMap_cons, List.map_append, List.sum_append, ih, List.map_cons, List.sum_cons]
      refine congrArg (· + _) ?_
      cases e with
      | resume sleepTicks =>
          rw [units, List.map_replicate]
          exact List.sum_replicate_nat.trans (Nat.mul_one _)
      | _ => rfl

theorem mem_units {e' : TimerEvent} (h : e' ∈ units e) : (e'.timer = e.timer) ∧ (e'.ticks ≠ 0 → e' = .tick) := by
  cases e with
  | resume sleepTicks =>
      obtain rfl := List.eq_of_mem_replicate h
      exact ⟨rfl, fun _ => rfl⟩
  | tick =>
      obtain rfl := List.mem_singleton.mp h
      exact ⟨rfl, fun _ => rfl⟩
  | _ =>
      obtain rfl := List.mem_singleton.mp h
      exact ⟨rfl, fun hne => absurd rfl hne⟩

theorem along_units (h : Along (fun q e => some (apply q e)) Allowed q events) :
    Along (fun q e => some (apply q e)) Allowed q (events.flatMap units) := by
  induction events generalizing q with
  | nil => trivial
  | cons e events ih =>
      have hrest := ih (h.2 _ rfl)
      rw [List.flatMap_cons]
      cases e with
      | resume sleepTicks =>
          rw [units]
          have hticks : ∀ k q, Along (fun q e => some (apply q e)) Allowed (tick^[k] q) (events.flatMap units) →
              Along (fun q e => some (apply q e)) Allowed q (List.replicate k .tick ++ events.flatMap units) := by
            intro k
            induction k with
            | zero => exact fun q hq => hq
            | succ k ih =>
                refine fun q hq => ⟨trivial, fun q' hq' => ?_⟩
                obtain rfl := Option.some.inj hq'
                exact ih _ hq
          exact hticks sleepTicks q hrest
      | _ =>
          refine ⟨h.1, fun q' hq' => ?_⟩
          obtain rfl := Option.some.inj hq'
          exact hrest

theorem Valid.count_run (h : q.Valid) (ht : (t, deadline) ∈ q.entries)
    (halong : Along (fun q e => some (TimerClock.apply q e)) Allowed q events)
    (hother : ∀ e ∈ events, e.timer ≠ some t) :
    (events.foldl TimerClock.apply q).posted.count t = q.posted.count t +
      firings (q.block t).periodic (q.block t).load (deadline - q.now) (events.map TimerEvent.ticks).sum := by
  rw [← foldl_units, ← sum_units]
  refine h.count_foldl ht (along_units halong) (fun e' he' => ?_) fun e' he' => ?_
  · obtain ⟨e, he, he'⟩ := List.mem_flatMap.mp he'
    rw [(mem_units he').1]
    exact hother e he
  · obtain ⟨e, -, he'⟩ := List.mem_flatMap.mp he'
    exact (mem_units he').2

def Below (n : ℕ) (q : TimerClock) : Prop := ∀ t, (q.block t).state = .running → t < n

theorem block_fire : ((q.fire t).block u).state = .running → (q.block u).state = .running := by
  intro hrun
  rw [fire] at hrun
  split at hrun
  · exact hrun
  · by_cases hut : u = t
    · subst hut
      have hself := congrArg TimerBlock.state (@setBlock_self u q { q.block u with state := .stopped })
      exact TimerState.noConfusion (hself.symm.trans hrun)
    · exact (congrArg TimerBlock.state (setBlock_of_ne hut)).symm.trans hrun

theorem block_tick : (q.tick.block u).state = .running → (q.block u).state = .running := by
  rw [tick]
  generalize (due (q.now + 1) q.entries).map Prod.fst = waiting
  have hfold : ∀ (waiting : List TimerId) (q : TimerClock),
      ((waiting.foldl (fun q t => q.fire t) q).block u).state = .running → (q.block u).state = .running := by
    intro waiting
    induction waiting with
    | nil => exact fun q h => h
    | cons t waiting ih => exact fun q h => block_fire (ih _ h)
  exact hfold waiting _

theorem Below.apply (h : q.Below n) (he : ∀ t ∈ e.timer, t < n) : (q.apply e).Below n := by
  have hset : ∀ (t : TimerId) (block : TimerBlock), t < n → (q.setBlock t block).Below n := fun t block ht u hu => by
    by_cases hut : u = t
    · exact hut ▸ ht
    · rw [setBlock_of_ne hut] at hu
      exact h u hu
  cases e with
  | timerThread => exact h
  | new t periodic => exact hset t _ (he t rfl)
  | start t ticks =>
      rw [TimerClock.apply, start]
      split
      · exact h
      split
      · exact h
      split
      · exact hset t _ (he t rfl)
      · exact h
  | stop t =>
      rw [TimerClock.apply, stop]
      split
      · exact hset t _ (he t rfl)
      · exact h
  | delete t =>
      rw [TimerClock.apply, delete]
      split
      · exact h
      · exact hset t _ (he t rfl)
  | tick => exact fun u hu => h u (block_tick hu)
  | resume sleepTicks =>
      rw [TimerClock.apply]
      clear he hset
      induction sleepTicks generalizing q with
      | zero => exact h
      | succ k ih => exact ih fun u hu => h u (block_tick hu)

theorem below_foldl (h : q.Below n) (htimers : ∀ e ∈ events, ∀ t ∈ e.timer, t < n) :
    (events.foldl apply q).Below n := by
  induction events generalizing q with
  | nil => exact h
  | cons e events ih =>
      obtain ⟨he, htimers⟩ := List.forall_mem_cons.mp htimers
      exact ih (h.apply he) htimers

theorem Valid.length_le (hvalid : q.Valid) (hbelow : q.Below n) : q.entries.length ≤ n := by
  have hnodup : (q.entries.map Prod.fst).Nodup := hvalid.nodup
  rw [← List.length_range (n := n), ← List.length_map (f := Prod.fst)]
  exact (List.subperm_of_subset hnodup fun t ht =>
    List.mem_range.mpr (hbelow t ((hvalid.running t).mpr ht))).length_le

end TimerClock

namespace Timers

variable {fuel : ℕ} {t : TimerId} {s : Timers} {q : TimerClock} {e : TimerEvent} {events : List TimerEvent}
  {ticks : ℕ}

theorem init_represents : init.Represents .init := ⟨holds_nil rfl, rfl, rfl, rfl⟩

theorem Represents.elapse (h : s.Represents q) (hvalid : q.Valid) (hbelow : q.Below fuel) :
    ∃ s', (countdown fuel).elapse ticks s = some s' ∧ s'.Represents (TimerClock.tick^[ticks] q) := by
  induction ticks generalizing s q with
  | zero => exact ⟨s, rfl, h⟩
  | succ ticks ih =>
      obtain ⟨s₁, hs₁, hrep⟩ := h.tick hvalid (hvalid.length_le hbelow)
      obtain ⟨s', hs', hrep'⟩ := ih hrep hvalid.tick (hbelow.apply (e := .tick) fun _ ht => by cases ht)
      exact ⟨s', Option.bind_eq_some_iff.mpr ⟨s₁, hs₁, hs'⟩, hrep'⟩

theorem Represents.step (h : s.Represents q) (hvalid : q.Valid) (hbelow : q.Below fuel) (he : q.Allowed e) :
    ∃ s', Timers.step fuel s e = some s' ∧ s'.Represents (q.apply e) := by
  have hlength := hvalid.length_le hbelow
  cases e with
  | timerThread => exact ⟨_, rfl, h.list, h.block, rfl, h.posted⟩
  | new t periodic => exact ⟨_, rfl, h.new hvalid he periodic⟩
  | start t ticks =>
      obtain ⟨s', hs', hrep⟩ := h.start (t := t) ticks hvalid hlength
      exact ⟨s', congrArg (Option.map Prod.snd) hs', hrep⟩
  | stop t => exact ⟨_, rfl, h.stop hvalid⟩
  | delete t => exact ⟨_, rfl, h.delete hvalid⟩
  | tick => exact h.tick hvalid hlength
  | resume sleepTicks =>
      rw [Timers.step, h.resume_eq hvalid]
      exact h.elapse hvalid hbelow

theorem Represents.run (h : s.Represents q) (hvalid : q.Valid) (hbelow : q.Below fuel)
    (halong : Along (fun q e => some (TimerClock.apply q e)) TimerClock.Allowed q events)
    (htimers : ∀ e ∈ events, ∀ t ∈ e.timer, t < fuel) :
    ∃ s', Best1307.run (Timers.step fuel) s events = some s' ∧ s'.Represents (events.foldl .apply q) ∧
      (events.foldl .apply q).Valid := by
  induction events generalizing s q with
  | nil => exact ⟨s, rfl, h, hvalid⟩
  | cons e events ih =>
      obtain ⟨htimer, htimers⟩ := List.forall_mem_cons.mp htimers
      obtain ⟨s', hs', hrep'⟩ := h.step hvalid hbelow halong.1
      obtain ⟨t, ht, hfin⟩ := ih hrep' (hvalid.apply halong.1) (hbelow.apply htimer) (halong.2 _ rfl) htimers
      exact ⟨t, (run_cons_eq_some _).mpr ⟨s', hs', ht⟩, hfin⟩

theorem init_below : TimerClock.init.Below fuel := fun _ hrun => TimerState.noConfusion hrun

theorem run_init (halong : Along (fun q e => some (TimerClock.apply q e)) TimerClock.Allowed .init events)
    (htimers : ∀ e ∈ events, ∀ t ∈ e.timer, t < fuel) :
    ∃ s, run (Timers.step fuel) init events = some s ∧ s.Represents (events.foldl .apply .init) ∧
      (events.foldl .apply TimerClock.init).Valid :=
  init_represents.run TimerClock.init_valid init_below halong htimers

/-- A start that succeeds lets the timer run down after its ticks, but loads a timer with them only if it did not run.
-/
theorem start_spec (hstatus : q.startStatus t ticks = .osOK) :
    (t, (q.start t ticks).now + ticks) ∈ (q.start t ticks).entries ∧
      ((q.start t ticks).block t).load = if (q.block t).state = .running then (q.block t).load else ticks := by
  rw [TimerClock.startStatus] at hstatus
  rw [TimerClock.start]
  split at hstatus
  · exact TimerStatus.noConfusion hstatus
  case isFalse hargs =>
    rw [if_neg hargs]
    split
    · exact ⟨mem_enqueue.mpr (.inl rfl), rfl⟩
    case isFalse hstop =>
      simp only [hstop, false_or] at hstatus
      split at hstatus
      case isTrue henabled =>
        rw [if_pos henabled]
        exact ⟨mem_enqueue.mpr (.inl rfl), congrArg TimerBlock.load TimerClock.setBlock_self⟩
      · exact TimerStatus.noConfusion hstatus

/-- From a successful start on, a timer that is left alone is posted when its ticks have passed, and, if it is
periodic, each time its load has passed again: the ticks of the start that found it stopped. -/
theorem timer_firings {before after : List TimerEvent}
    (halong : Along (fun q e => some (TimerClock.apply q e)) TimerClock.Allowed .init
      (before ++ .start t ticks :: after))
    (htimers : ∀ e ∈ before ++ .start t ticks :: after, ∀ u ∈ e.timer, u < fuel)
    (hother : ∀ e ∈ after, e.timer ≠ some t) :
    ∃ s₀ status s s', run (Timers.step fuel) init before = some s₀ ∧
      s₀.svcRtxTimerStart fuel t ticks = some (status, s) ∧ run (Timers.step fuel) s after = some s' ∧
      (status = .osOK →
        (s.block t).load = (if (s₀.block t).state = .running then (s₀.block t).load else ticks) ∧
        s'.posted.count t = s.posted.count t +
          firings (s.block t).periodic (s.block t).load ticks (after.map TimerEvent.ticks).sum) := by
  obtain ⟨hbefore, hrest⟩ := halong.append
  obtain ⟨htimers₁, htimers₂⟩ := List.forall_mem_append.mp htimers
  obtain ⟨hstart, hafter⟩ := hrest _ (run_some _ _ _)
  obtain ⟨htimer, htimers₂⟩ := List.forall_mem_cons.mp htimers₂
  obtain ⟨s₀, hs₀, hrep₀, hvalid₀⟩ := run_init hbefore htimers₁
  have hbelow := TimerClock.below_foldl init_below htimers₁
  obtain ⟨s, hs, hrep⟩ := hrep₀.start (t := t) ticks hvalid₀ (hvalid₀.length_le hbelow)
  have hvalid := hvalid₀.start (t := t) hstart
  obtain ⟨s', hs', hrep', -⟩ := hrep.run hvalid (hbelow.apply (e := .start t ticks) htimer) (hafter _ rfl) htimers₂
  refine ⟨s₀, _, s, s', hs₀, hs, hs', fun hstatus => ?_⟩
  obtain ⟨hmem, hload⟩ := start_spec hstatus
  rw [hrep.block, hrep₀.block, hrep.posted, hrep'.posted]
  refine ⟨hload, ?_⟩
  have hcount := hvalid.count_run hmem (hafter _ rfl) hother
  rw [Nat.add_sub_cancel_left] at hcount
  exact hcount

theorem timer_firings_restarted :
    ∃ s₀ s s', run (Timers.step 2) init [.timerThread, .new 0 true, .new 1 false, .start 1 4, .start 0 3] = some s₀ ∧
      s₀.svcRtxTimerStart 2 0 5 = some (.osOK, s) ∧ run (Timers.step 2) s [.resume 6, .stop 1, .tick, .tick] = some s' ∧
      (s.block 0).load = 3 ∧ s'.posted.count 0 = s.posted.count 0 + 2 := by
  obtain ⟨s₀, status, s, s', hs₀, hs, hs', hposted⟩ := @timer_firings 2 0 5
    [.timerThread, .new 0 true, .new 1 false, .start 1 4, .start 0 3] [.resume 6, .stop 1, .tick, .tick]
    (by decide) (by decide) (by decide)
  have hstart : (run (Timers.step 2) init [.timerThread, .new 0 true, .new 1 false, .start 1 4, .start 0 3]).bind
      (fun s₀ => (s₀.svcRtxTimerStart 2 0 5).map fun r =>
        (r.1, (s₀.block 0).state, (s₀.block 0).load, (r.2.block 0).periodic)) = some (.osOK, .running, 3, true) := rfl
  rw [hs₀, Option.bind_some, hs, Option.map_some] at hstart
  obtain ⟨rfl, hstate, hload, hperiodic⟩ : status = .osOK ∧ (s₀.block 0).state = .running ∧ (s₀.block 0).load = 3 ∧
      (s.block 0).periodic = true := by simpa using hstart
  obtain ⟨hkept, hcount⟩ := hposted rfl
  rw [if_pos hstate] at hkept
  rw [hperiodic, hkept, hload] at hcount
  exact ⟨s₀, s, s', hs₀, hs, hs', hkept.trans hload, hcount⟩

theorem run_ticks (k : ℕ) (s : Timers) :
    run (Timers.step fuel) s (List.replicate k .tick) = (countdown fuel).elapse k s := by
  induction k generalizing s with
  | zero => rfl
  | succ k ih => exact congrArg _ (funext ih)

/-- In every run the leap over the ticks of a sleep posts and moves the timers as the ticks would have. -/
theorem timer_resume {sleepTicks : ℕ}
    (halong : Along (fun q e => some (TimerClock.apply q e)) TimerClock.Allowed .init events)
    (htimers : ∀ e ∈ events, ∀ t ∈ e.timer, t < fuel) :
    run (Timers.step fuel) init (events ++ [.resume sleepTicks]) =
      run (Timers.step fuel) init (events ++ List.replicate sleepTicks .tick) := by
  obtain ⟨s, hs, hrep, hvalid⟩ := run_init halong htimers
  rw [run_append, run_append, hs, Option.bind_some, Option.bind_some, run_ticks, ← hrep.resume_eq hvalid]
  exact Option.bind_fun_some _

theorem timer_resume_past_first :
    run (Timers.step 2) init [.timerThread, .new 0 true, .start 0 3, .resume 7] =
      run (Timers.step 2) init ([.timerThread, .new 0 true, .start 0 3] ++ List.replicate 7 .tick) :=
  @timer_resume 2 [.timerThread, .new 0 true, .start 0 3] 7 (by decide) (by decide)

end Timers

end Best1307.Rtx
