import Best1307.Rtx.Owners

/-!
# Runs of the kernel

Whatever service calls, ticks and wake-ups follow each other, each thread is where its state tells, the linked lists
hold the threads in the order of their priorities, a locked mutex has an owner that lives, and the thread that runs is
one of the highest priority. The last fails in one case only: taking off a lock does not look for a thread of a higher
priority that became ready under it, and the next tick does.
-/

namespace Best1307.Rtx

open DeltaQueue PriorityQueue

/-- What may take off a lock -/
def KernelEvent.unlocks : KernelEvent → Bool
  | .unlock | .restoreLock _ => true
  | _ => false

namespace Kernel

open Sched

variable {k : Kernel} {e : KernelEvent} {events : List KernelEvent} {robinTimeout : ℕ}

theorem Serves.svc {v : ℕ × Kernel} (h : Serves k v.2) : (svc v).Idle ∧ (k.Attentive → (svc v).Attentive) :=
  ⟨Idle.svc h.idle, h.attentive⟩

theorem Idle.step_unlocks (h : k.Idle) (hlock : e.unlocks) : (k.step e).Idle := by
  cases e with
  | unlock => exact Idle.svc h.svcRtxKernelUnlock
  | restoreLock lock => exact Idle.svc h.svcRtxKernelRestoreLock
  | _ => cases hlock

theorem Idle.step_of_not_unlocks (h : k.Idle) (he : k.Allowed e) (hlock : e.unlocks = false) :
    (k.step e).Idle ∧ (k.Attentive → (k.step e).Attentive) := by
  cases e with
  | start idle timer => exact (h.svcRtxKernelStart he.1 he.2.1 he.2.2).svc
  | new t priority joinable => exact (h.svcRtxThreadNew he).svc
  | setPriority t priority => exact h.svcRtxThreadSetPriority.svc
  | yield => exact h.svcRtxThreadYield.svc
  | suspendThread t => exact (h.svcRtxThreadSuspend he).svc
  | resumeThread t => exact (h.svcRtxThreadResume he).svc
  | detach t => exact h.svcRtxThreadDetach.svc
  | join t => exact h.svcRtxThreadJoin.svc
  | exit => exact h.svcRtxThreadExit.svc
  | terminate t => exact (h.svcRtxThreadTerminate he.1).svc
  | delay ticks => exact (h.svcRtxDelay he).svc
  | delayUntil ticks => exact h.svcRtxDelayUntil.svc
  | lock => exact h.svcRtxKernelLock.svc
  | unlock => cases hlock
  | restoreLock lock => cases hlock
  | suspend => exact h.suspend
  | resume sleepTicks => exact ⟨h.resume.idle, h.resume.attentive⟩
  | newMutex m recursive prioInherit robust =>
      exact ⟨⟨h.placed, h.curr, h.started, h.joining, h.single⟩, id⟩
  | acquire m timeout => exact (h.svcRtxMutexAcquire he).svc
  | release m => exact h.svcRtxMutexRelease.svc
  | deleteMutex m => exact h.svcRtxMutexDelete.svc
  | waitFlags timeout => exact (h.wait he.1 he.2 rfl).1.svc
  | wait o wait timeout => exact (h.waitAt he.2.2.1 he.2.2.2 (ne_ready_of_isPosted he.1) he.2.1).1.svc
  | wake o => exact (h.wakeFirst (ne_ready_of_isPosted he)).svc
  | wakeFlags t flags => exact (h.wakeFlags he).svc
  | deleteObject o => exact (h.deleteObject (ne_ready_of_isPosted he)).svc
  | post woken => exact ⟨(h.post he.1 he.2).idle, (h.post he.1 he.2).attentive⟩
  | tick => exact ⟨h.osRtxTick_Handler.1.idle, fun _ => h.osRtxTick_Handler.2⟩

theorem Idle.stepped (h : k.Idle) (he : k.Allowed e) : (k.step e).Idle := by
  cases hlock : e.unlocks with
  | true => exact h.step_unlocks hlock
  | false => exact (h.step_of_not_unlocks he hlock).1

theorem Idle.ran (h : k.Idle) (halong : Along (fun k e => some (k.step e)) Allowed k events) :
    (events.foldl step k).Idle :=
  run_invariant_along Idle (fun _ _ _ hidle he hs => Option.some.inj hs ▸ hidle.stepped he) halong h (run_some _ _ _)

theorem Owners.ran (h : k.Owners) (hidle : k.Idle)
    (halong : Along (fun k e => some (k.step e)) Allowed k events) : (events.foldl Kernel.step k).Owners :=
  (run_invariant_along (fun k => k.Idle ∧ k.Owners) (fun _ _ _ hk he hs =>
    Option.some.inj hs ▸ ⟨hk.1.stepped he, hk.2.step hk.1 he⟩) halong ⟨hidle, h⟩ (run_some _ _ _)).2

theorem Idle.attentive_ran (h : k.Idle) (hattentive : k.Attentive)
    (halong : Along (fun k e => some (k.step e)) Allowed k events) (hlock : ∀ e ∈ events, e.unlocks = false) :
    (events.foldl step k).Attentive := by
  have hboth := along_and.mpr ⟨halong, along_of_forall (G := fun _ e => e.unlocks = false) fun e he _ => hlock e he⟩
  refine (run_invariant_along (fun k => k.Idle ∧ k.Attentive) (fun k e k' hk he hs => ?_) hboth ⟨h, hattentive⟩
    (run_some _ _ _)).2
  obtain ⟨hidle, hkeep⟩ := hk.1.step_of_not_unlocks he.1 he.2
  exact Option.some.inj hs ▸ ⟨hidle, hkeep hk.2⟩

theorem exists_bound {E : Type} (thread : E → Option ThreadId) (l : List E) : ∃ n, ∀ e ∈ l, ∀ t ∈ thread e, t < n := by
  induction l with
  | nil => exact ⟨0, fun _ he => absurd he List.not_mem_nil⟩
  | cons e rest ih =>
      obtain ⟨n, hn⟩ := ih
      refine ⟨max n ((thread e).getD 0 + 1), List.forall_mem_cons.mpr ⟨fun t ht => ?_, fun e' he' t ht => ?_⟩⟩
      · rw [Option.mem_def.mp ht]
        exact Nat.lt_of_lt_of_le (Nat.lt_succ_self t) (Nat.le_max_right _ _)
      · exact Nat.lt_of_lt_of_le (hn e' he' t ht) (Nat.le_max_left _ _)

/-- What the states of the threads, the lists and the mutexes have to do with each other. The calls of the functions on
the lists lead to linked lists that hold the threads. -/
structure Consistent (k : Kernel) : Prop where
  running : ∀ t, k.state t = .running ↔ k.curr = some t
  started : k.curr = none ↔ k.kernel = .ready
  ready : ∀ t, k.state t = .ready ↔ t ∈ k.queues.queue .ready
  blocked : ∀ t, (∃ w, k.state t = .blocked w) ↔ t ∈ k.delays.threads
  waits : ∀ t o, o ≠ .ready → t ∈ k.queues.queue o → ∃ w, k.state t = .blocked w ∧ w.waitsFor o
  linked : ∀ t w, k.state t = .blocked w → w.isLinked → ∃ o, t ∈ k.queues.queue o
  once : k.queues.Once
  sorted : k.queues.Sorted
  owner : ∀ m, (k.mutex m).valid → (k.mutex m).lock ≠ 0 →
    (k.state (k.mutex m).owner).isLive ∧ m ∈ k.owned (k.mutex m).owner
  owned : ∀ t, (k.state t).isLive → (k.owned t).Nodup ∧
    ∀ m ∈ k.owned t, (k.mutex m).valid ∧ (k.mutex m).lock ≠ 0 ∧ (k.mutex m).owner = t
  waited : ∀ t m, t ∈ k.queues.queue (.mutex m) → (k.mutex m).valid ∧ (k.mutex m).lock ≠ 0
  lists : ∃ n, ∀ fuel, n ≤ fuel → ∃ lists delays,
    run (ThreadLists.step fuel) .init k.calls = some lists ∧ lists.Represents k.queues ∧
      run (DelayLists.step fuel) .init k.delayCalls = some delays ∧ delays.Represents k.delays

theorem Idle.consistent (h : k.Idle) (howners : k.Owners) : k.Consistent where
  running t := (h.placed.running t List.not_mem_nil).trans (h.curr ▸ Iff.rfl)
  started := h.curr ▸ h.started
  ready t := (h.placed.ready t List.not_mem_nil).trans (h.placed.root t _)
  blocked t := h.placed.blocked t List.not_mem_nil
  waits t o ho ht := h.placed.waits t o ((h.placed.root t o).mpr ht) ho
  linked t w hw hlink := by
    obtain ⟨o, ho⟩ := Option.ne_none_iff_exists'.mp (h.placed.linked t List.not_mem_nil List.not_mem_nil w hw hlink)
    exact ⟨o, (h.placed.root t o).mp ho⟩
  once := h.placed.once
  sorted := h.placed.sorted
  owner := howners.owner
  owned := howners.owned
  waited t m ht := howners.waited t m ((h.placed.root t _).mpr ht)
  lists := by
    obtain ⟨n, hn⟩ := exists_bound ListEvent.thread k.calls
    obtain ⟨n', hn'⟩ := exists_bound DelayEvent.thread k.delayCalls
    refine ⟨max n n', fun fuel hfuel => ?_⟩
    obtain ⟨lists, hlists, hqueues, -⟩ := ThreadLists.init_represents.run ThreadQueues.init_once
      ThreadQueues.init_sorted (fun _ _ ht => absurd ht List.not_mem_nil) h.placed.calls fun e he t ht =>
        Nat.lt_of_lt_of_le (hn e he t ht) (Nat.le_trans (Nat.le_max_left _ _) hfuel)
    obtain ⟨delays, hdelays, hdelayed, -⟩ := DelayLists.run_init h.placed.delayCalls fun e he t ht =>
      Nat.lt_of_lt_of_le (hn' e he t ht) (Nat.le_trans (Nat.le_max_right _ _) hfuel)
    exact ⟨lists, delays, hlists, h.placed.queues ▸ hqueues, hdelays, h.placed.delays ▸ hdelayed⟩

/-- In every run each thread is in the one place that its state tells, and the linked lists hold it there: no call on
them meets a thread that is linked already, or a list that is empty. The owner of a locked mutex is never a thread that
has ended. -/
theorem kernel_consistent (halong : Along (fun k e => some (k.step e)) Allowed (init robinTimeout) events) :
    (events.foldl step (init robinTimeout)).Consistent :=
  (init_idle.ran halong).consistent (init_owners.ran init_idle halong)

/-- The owner of a mutex ends while one thread waits for the mutex, and another for its end. -/
theorem kernel_consistent_robust :
    ([.start 0 1, .wait (.messageQueue 0) .messageGet osWaitForever, .newMutex 0 false true true, .new 2 30 true,
      .acquire 0 0, .new 3 20 false, .delay 1, .acquire 0 100, .new 4 10 false, .join 2, .tick, .exit].foldl step
      (init 5)).Consistent := kernel_consistent (by decide)

/-- From the start, or from a tick on, as long as no lock is taken off, the thread that runs has at least the priority
of every ready one whenever the scheduler is not locked. -/
theorem highest_priority_runs {before after : List KernelEvent}
    (halong : Along (fun k e => some (k.step e)) Allowed (init robinTimeout) (before ++ after))
    (hbefore : before = [] ∨ before.getLast? = some .tick) (hlock : ∀ e ∈ after, e.unlocks = false) :
    let k := (before ++ after).foldl step (init robinTimeout)
    k.kernel = .running → ∀ r, k.curr = some r → ∀ t ∈ k.queues.queue .ready, k.priority t ≤ k.priority r := by
  obtain ⟨hbefore', hafter⟩ := halong.append
  have hidle := init_idle.ran hbefore'
  have hattentive : (before.foldl step (init robinTimeout)).Attentive := by
    rcases hbefore with rfl | hlast
    · exact fun hkernel => nomatch hkernel
    · obtain ⟨first, rfl⟩ := List.getLast?_eq_some_iff.mp hlast
      rw [List.foldl_concat]
      exact (init_idle.ran hbefore'.append.1).osRtxTick_Handler.2
  have hfin := hidle.attentive_ran hattentive (hafter _ (run_some _ _ _)) hlock
  have hidle' := hidle.ran (hafter _ (run_some _ _ _))
  intro k hkernel r hr t ht
  rw [← List.foldl_append] at hfin hidle'
  exact hfin hkernel r (hidle'.curr ▸ hr) t ((hidle'.placed.root t _).mpr ht)

theorem highest_priority_runs_woken :
    let k := [.start 0 1, .new 2 30 false, .delay 1, .lock, .tick, .unlock, .tick, .yield].foldl step (init 5)
    k.kernel = .running → ∀ r, k.curr = some r → ∀ t ∈ k.queues.queue .ready, k.priority t ≤ k.priority r :=
  @highest_priority_runs 5 [.start 0 1, .new 2 30 false, .delay 1, .lock, .tick, .unlock, .tick] [.yield] (by decide)
    (.inr rfl) (by decide)

/-- Until that tick a thread of a higher priority may have to wait. -/
example :
    let k := [.start 0 1, .new 2 50 false, .delay 1, .lock, .tick, .unlock].foldl step (init 5)
    k.kernel = .running ∧ k.curr = some 1 ∧ k.first .ready = some 2 ∧ k.priority 1 < k.priority 2 := by decide

end Kernel

end Best1307.Rtx
