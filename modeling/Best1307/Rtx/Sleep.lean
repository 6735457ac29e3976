import Best1307.Rtx.DelayList
import Best1307.Rtx.Timer

/-!
# How long the system may sleep

`svcRtxKernelSuspend` tells the ticks to the first thing that a tick will do. Until then nothing is missed, and with
that tick something happens.
-/

namespace Best1307.Rtx

open DeltaQueue DeltaList PriorityQueue

/-- The value of `svcRtxKernelSuspend` when the kernel runs -/
def svcRtxKernelSuspend (s : DelayLists) (timers : Timers) : ℕ :=
  let delay := match s.list.links.next .delayList with
    | none => osWaitForever
    | some t => s.list.ticks t
  match timers.list.links.next .list with
  | none => delay
  | some t => if timers.list.ticks t < delay then timers.list.ticks t else delay

variable {fuel k : ℕ} {s : DelayLists} {q : Delays} {timers : Timers} {clock : TimerClock}

/-! ### Threads -/

theorem ahead_of_lt {t h : ℕ} {l : List (ℕ × ℕ)} (hsorted : Descending urgency l) (hhead : ∀ p ∈ l.head?, p.2 = t + h)
    (hk : k < h) : Ahead (t + k) l := by
  cases l with
  | nil => exact fun p hp => absurd hp List.not_mem_nil
  | cons e l =>
      intro p hp
      have hle := urgency_le.mp (hsorted.le_head hp)
      have hfirst := hhead e rfl
      omega

theorem DelayLists.Represents.head_deadline (hrep : s.Represents q) {t : ThreadId}
    (hnext : s.list.links.next .delayList = some t) : q.delayed.head? = some (t, q.now + s.list.ticks t) := by
  have hhead := hrep.delayed.next_eq
  have hholds := hrep.delayed
  rw [hnext] at hhead
  cases hdelayed : q.delayed with
  | nil =>
      rw [hdelayed] at hhead
      cases hhead
  | cons e l =>
      rw [hdelayed] at hhead hholds
      obtain rfl : t = e.1 := Option.some.inj hhead
      exact congrArg some (Prod.ext rfl hholds.ticks_head.symm)

theorem Timers.Represents.head_deadline (hrep : timers.Represents clock) {t : TimerId}
    (hnext : timers.list.links.next .list = some t) :
    clock.entries.head? = some (t, clock.now + timers.list.ticks t) := by
  have hhead := hrep.list.next_eq
  have hholds := hrep.list
  rw [hnext] at hhead
  cases hentries : clock.entries with
  | nil =>
      rw [hentries] at hhead
      cases hhead
  | cons e l =>
      rw [hentries] at hhead hholds
      obtain rfl : t = e.1 := Option.some.inj hhead
      exact congrArg some (Prod.ext rfl hholds.ticks_head.symm)

theorem readied_elapse (hrep : s.Represents q) (hvalid : q.Valid) :
    ((∀ t, s.list.links.next .delayList = some t → k < s.list.ticks t) → (q.elapse k).readied = q.readied) ∧
      ∀ t, s.list.links.next .delayList = some t → s.list.ticks t ≤ k → (q.elapse k).readied ≠ q.readied := by
  have hreadied : (q.elapse k).readied = q.readied ++ (due (q.now + k) q.delayed).map Prod.fst := rfl
  constructor
  · intro hless
    have hahead : Ahead (q.now + k) q.delayed := by
      cases hnext : s.list.links.next .delayList with
      | none =>
          have hempty := List.head?_eq_none_iff.mp (hrep.delayed.next_eq.symm.trans hnext)
          rw [List.map_eq_nil_iff.mp hempty]
          exact fun p hp => absurd hp List.not_mem_nil
      | some t =>
          refine ahead_of_lt hvalid.sorted (fun p hp => ?_) (hless t hnext)
          rw [hrep.head_deadline hnext] at hp
          exact Option.some.inj hp ▸ rfl
    rw [hreadied, due_of_ahead hahead, List.map_nil, List.append_nil]
  · intro t hnext hle heq
    have hmem : (t, q.now + s.list.ticks t) ∈ due (q.now + k) q.delayed :=
      (mem_due hvalid.sorted).mpr ⟨List.mem_of_head? (hrep.head_deadline hnext), Nat.add_le_add_left hle _⟩
    rw [hreadied, List.append_right_eq_self] at heq
    rw [List.map_eq_nil_iff.mp heq] at hmem
    exact List.not_mem_nil hmem

/-! ### Timers -/

theorem tick_of_ahead (h : Ahead (clock.now + 1) clock.entries) : clock.tick = { clock with now := clock.now + 1 } := by
  rw [TimerClock.tick, due_of_ahead h, later_of_ahead h]
  rfl

theorem tick_iterate_of_ahead (h : Ahead (clock.now + k) clock.entries) :
    TimerClock.tick^[k] clock = { clock with now := clock.now + k } := by
  induction k generalizing clock with
  | zero => rfl
  | succ k ih =>
      have hfirst : Ahead (clock.now + 1) clock.entries := fun p hp => by
        have := h p hp
        omega
      have hrest : Ahead (clock.now + 1 + k) clock.entries := fun p hp => by
        have := h p hp
        omega
      rw [Function.iterate_succ_apply, tick_of_ahead hfirst, ih hrest, Nat.add_right_comm, Nat.add_assoc]

theorem foldl_replicate_tick : (List.replicate k TimerEvent.tick).foldl TimerClock.apply clock =
    TimerClock.tick^[k] clock := by
  induction k generalizing clock with
  | zero => rfl
  | succ k ih => exact ih

theorem posted_elapse (hrep : timers.Represents clock) (hvalid : clock.Valid) :
    ((∀ t, timers.list.links.next .list = some t → k < timers.list.ticks t) →
        (TimerClock.tick^[k] clock).posted = clock.posted) ∧
      ∀ t, timers.list.links.next .list = some t → timers.list.ticks t ≤ k →
        (TimerClock.tick^[k] clock).posted ≠ clock.posted := by
  constructor
  · intro hless
    have hahead : Ahead (clock.now + k) clock.entries := by
      cases hnext : timers.list.links.next .list with
      | none =>
          have hempty := List.head?_eq_none_iff.mp (hrep.list.next_eq.symm.trans hnext)
          rw [List.map_eq_nil_iff.mp hempty]
          exact fun p hp => absurd hp List.not_mem_nil
      | some t =>
          refine ahead_of_lt hvalid.sorted (fun p hp => ?_) (hless t hnext)
          rw [hrep.head_deadline hnext] at hp
          exact Option.some.inj hp ▸ rfl
    rw [tick_iterate_of_ahead hahead]
  · intro t hnext hle heq
    have hmem := List.mem_of_head? (hrep.head_deadline hnext)
    have hticks : ((List.replicate k TimerEvent.tick).map TimerEvent.ticks).sum = k := by
      rw [List.map_replicate]
      exact List.sum_replicate_nat.trans (Nat.mul_one k)
    have halong : Along (fun q e => some (TimerClock.apply q e)) TimerClock.Allowed clock (List.replicate k .tick) :=
      along_of_forall fun e he _ => List.eq_of_mem_replicate he ▸ trivial
    have hcount := hvalid.count_run hmem halong fun e he htimer => by
      rw [List.eq_of_mem_replicate he] at htimer
      cases htimer
    rw [foldl_replicate_tick, heq, hticks, Nat.add_sub_cancel_left] at hcount
    exact Nat.ne_of_lt (Nat.lt_add_of_pos_right (TimerClock.firings_pos hle)) hcount

/-! ### Sleep -/

theorem lt_svcRtxKernelSuspend (h : k < svcRtxKernelSuspend s timers) :
    (∀ t, s.list.links.next .delayList = some t → k < s.list.ticks t) ∧
      ∀ t, timers.list.links.next .list = some t → k < timers.list.ticks t := by
  rw [svcRtxKernelSuspend] at h
  cases hdelay : s.list.links.next .delayList <;> cases htimer : timers.list.links.next .list <;>
    simp only [hdelay, htimer, Option.some.injEq, forall_eq', reduceCtorEq, false_implies, implies_true, true_and,
      and_true] at h ⊢
  · split at h <;> omega
  · exact h
  · split at h <;> omega

theorem svcRtxKernelSuspend_le (h : svcRtxKernelSuspend s timers ≤ k)
    (hsome : svcRtxKernelSuspend s timers ≠ osWaitForever) :
    (∃ t, s.list.links.next .delayList = some t ∧ s.list.ticks t ≤ k) ∨
      ∃ t, timers.list.links.next .list = some t ∧ timers.list.ticks t ≤ k := by
  rw [svcRtxKernelSuspend] at h hsome
  cases hdelay : s.list.links.next .delayList <;> cases htimer : timers.list.links.next .list <;>
    simp only [hdelay, htimer, Option.some.injEq, exists_eq_left', reduceCtorEq, false_and, exists_false, or_false,
      false_or] at h hsome ⊢
  · exact hsome rfl
  · split at h
    · exact h
    case isFalse hless => exact absurd (if_neg hless) hsome
  · exact h
  · split at h
    · exact .inr h
    · exact .inl h

/-- Whatever was done with threads and timers before, the ticks that `svcRtxKernelSuspend` tells are the ones after
which a tick first makes a thread ready or posts a timer. -/
theorem suspend_exact {events : List DelayEvent} {timerEvents : List TimerEvent}
    (hdelays : Along (fun q e => some (Delays.apply q e)) Delays.Allowed .init events)
    (htimers : Along (fun q e => some (TimerClock.apply q e)) TimerClock.Allowed .init timerEvents)
    (hthreads : ∀ e ∈ events, ∀ t ∈ e.thread, t < fuel) (hblocks : ∀ e ∈ timerEvents, ∀ t ∈ e.timer, t < fuel)
    (k : ℕ) :
    ∃ s timers s' timers', run (DelayLists.step fuel) .init events = some s ∧
      run (Timers.step fuel) .init timerEvents = some timers ∧
      run (DelayLists.step fuel) s (List.replicate k .tick) = some s' ∧
      run (Timers.step fuel) timers (List.replicate k .tick) = some timers' ∧
      (k < svcRtxKernelSuspend s timers → s'.readied = s.readied ∧ timers'.posted = timers.posted) ∧
      (svcRtxKernelSuspend s timers ≤ k → svcRtxKernelSuspend s timers ≠ osWaitForever →
        s'.readied ≠ s.readied ∨ timers'.posted ≠ timers.posted) := by
  obtain ⟨s, hs, hrep, hvalid⟩ := DelayLists.run_init hdelays hthreads
  obtain ⟨timers, ht, hrept, hvalidt⟩ := Timers.run_init htimers hblocks
  have hbelow := Delays.below_foldl (q := .init) (fun _ ht => absurd ht List.not_mem_nil) hthreads
  have hbelowt := TimerClock.below_foldl Timers.init_below hblocks
  have hfuel : (events.foldl Delays.apply .init).delayed.length ≤ fuel := by
    refine Nat.le_trans ?_ (hvalid.length_le hbelow)
    rw [Delays.threads, List.length_append, List.length_map]
    exact Nat.le_add_right _ _
  obtain ⟨s', hs', hrep'⟩ := hrep.elapse hvalid hfuel
  obtain ⟨timers', ht', hrept'⟩ := hrept.elapse hvalidt hbelowt
  refine ⟨s, timers, s', timers', hs, ht, (DelayLists.run_ticks k s).trans hs', (Timers.run_ticks k timers).trans ht',
    fun hless => ?_, fun hle hsome => ?_⟩
  · obtain ⟨hd, htm⟩ := lt_svcRtxKernelSuspend hless
    rw [hrep'.readied, hrep.readied, hrept'.posted, hrept.posted]
    exact ⟨(readied_elapse hrep hvalid).1 hd, (posted_elapse hrept hvalidt).1 htm⟩
  · rw [hrep'.readied, hrep.readied, hrept'.posted, hrept.posted]
    rcases svcRtxKernelSuspend_le hle hsome with ⟨t, hnext, ht⟩ | ⟨t, hnext, ht⟩
    · exact .inl ((readied_elapse hrep hvalid).2 t hnext ht)
    · exact .inr ((posted_elapse hrept hvalidt).2 t hnext ht)

theorem suspend_exact_timerFirst :
    ∃ s timers s' timers', run (DelayLists.step 1) .init [.insert 0 5] = some s ∧
      run (Timers.step 1) .init [.timerThread, .new 0 true, .start 0 3] = some timers ∧
      run (DelayLists.step 1) s (List.replicate 3 .tick) = some s' ∧
      run (Timers.step 1) timers (List.replicate 3 .tick) = some timers' ∧
      (3 < svcRtxKernelSuspend s timers → s'.readied = s.readied ∧ timers'.posted = timers.posted) ∧
      (svcRtxKernelSuspend s timers ≤ 3 → svcRtxKernelSuspend s timers ≠ osWaitForever →
        s'.readied ≠ s.readied ∨ timers'.posted ≠ timers.posted) :=
  suspend_exact (by decide) (by decide) (by decide) (by decide) 3

end Best1307.Rtx
