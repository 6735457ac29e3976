import Best1307.Rtx.Services

/-!
# Owners of mutexes

A mutex that is locked has an owner that lives and has it in its list, and none else has. No thread waits for a mutex
that is free: where the owner releases it, or ends, the first of those that wait becomes the owner at once. So whoever
looks up the owner of a mutex finds a thread, and `osRtxMutexOwnerRestore` a list that is not empty.
-/

namespace Best1307.Rtx

open PriorityQueue

/-- What neither makes nor ends a thread, and does not name a mutex -/
def KernelEvent.sparing : KernelEvent → Bool
  | .start _ _ | .new _ _ _ | .exit | .terminate _
  | .newMutex _ _ _ _ | .acquire _ _ | .release _ | .deleteMutex _ => false
  | _ => true

namespace Kernel

open Sched

variable {k k' k'' : Kernel} {t u r : ThreadId} {o : ObjectId} {m : ℕ} {d : DelayEvent} {e : KernelEvent}
  {live : ThreadId → Prop} {gone adrift : List ThreadId} {left rest : List ℕ} {p : Int} {w : Wait} {timeout ret : ℕ}
  {dispatch : Bool}

/-! ### What leaves the mutexes alone -/

/-- The mutexes and their owners stay, and no thread ends. -/
structure Spares (k k' : Kernel) : Prop where
  mutex : k'.mutex = k.mutex
  owned : k'.owned = k.owned
  alive : ∀ u, (k.state u).isLive → (k'.state u).isLive

theorem Spares.refl : Spares k k := ⟨rfl, rfl, fun _ => id⟩

theorem Spares.trans (h : Spares k k') (h' : Spares k' k'') : Spares k k'' :=
  ⟨h'.mutex.trans h.mutex, h'.owned.trans h.owned, fun u hu => h'.alive u (h.alive u hu)⟩

theorem mutex_ne_ready : ObjectId.mutex m ≠ .ready := by
  intro h
  cases h

/-- Who waits for a mutex after a link is set to something else did so before. -/
theorem held_of_update {root : ThreadId → Option ObjectId} {link : Option ObjectId} (hlink : link ≠ some (.mutex m))
    (hroot : Function.update root t link u = some (.mutex m)) : root u = some (.mutex m) := by
  by_cases hut : u = t
  · rw [hut, Function.update_self] at hroot
    exact absurd hroot hlink
  · rwa [Function.update_of_ne hut] at hroot

theorem ready_ne_mutex : some ObjectId.ready ≠ some (.mutex m) := by
  intro h
  cases h

theorem none_ne_mutex : none ≠ some (ObjectId.mutex m) := by
  intro h
  cases h

theorem not_waiting (h : k.root t = none) (m : ℕ) : k.root t ≠ some (.mutex m) := h ▸ none_ne_mutex

theorem setMutex_self {mutex : Mutex} : (k.setMutex m mutex).mutex m = mutex := Function.update_self _ _ _

theorem setMutex_of_ne {m' : ℕ} (hne : m' ≠ m) (mutex : Mutex) : (k.setMutex m mutex).mutex m' = k.mutex m' :=
  Function.update_of_ne hne _ _

theorem isLive_update {state : ThreadId → ThreadState} {new : ThreadState} (hnew : new.isLive) (hu : (state u).isLive) :
    (Function.update state t new u).isLive := by
  by_cases hut : u = t
  · rw [hut, Function.update_self]
    exact hnew
  · rwa [Function.update_of_ne hut]

theorem spares_setSched {s : Sched} (h : ∀ u, (k.state u).isLive → (s.state u).isLive) : Spares k (k.setSched s) :=
  ⟨rfl, rfl, h⟩

theorem spares_readyPut : Spares k (k.setSched (k.osRtxThreadReadyPut t)) := spares_setSched fun _ => isLive_update rfl

theorem spares_preempt : Spares k (k.setSched ((k.osRtxThreadBlock r).osRtxThreadSwitch t)) :=
  spares_setSched fun _ hu => isLive_update rfl (isLive_update rfl hu)

theorem spares_dispatch (thread : Option ThreadId) : Spares k (k.osRtxThreadDispatch thread) := by
  cases thread with
  | none =>
      rw [osRtxThreadDispatch]
      split
      · split
        · exact spares_setSched fun _ hu => isLive_update rfl (isLive_update rfl hu)
        · exact .refl
      · exact .refl
  | some t =>
      rw [osRtxThreadDispatch]
      split
      · exact spares_readyPut
      split
      · exact spares_preempt
      · exact spares_readyPut

theorem spares_waitExit : Spares k (k.osRtxThreadWaitExit t ret dispatch) := by
  have hreleased : Spares k (k.released t ret) := ⟨rfl, rfl, fun _ => id⟩
  rw [osRtxThreadWaitExit]
  split
  · exact hreleased.trans (spares_dispatch (some t))
  · exact hreleased.trans spares_readyPut

theorem spares_wakeFirst : Spares k (k.wakeFirst o ret dispatch) := by
  rw [wakeFirst]
  split
  · exact .refl
  · exact (spares_setSched (s := k.list (.get o)) fun _ => id).trans spares_waitExit

theorem spares_foldl {E : Type} {f : Kernel → E → Kernel} (h : ∀ k e, Spares k (f k e)) (l : List E) :
    Spares k (l.foldl f k) := by
  induction l generalizing k with
  | nil => exact .refl
  | cons e rest ih => exact (h k e).trans ih

theorem spares_wakeAll : Spares k (k.wakeAll o ret) := spares_foldl (fun _ _ => spares_wakeFirst) _

theorem spares_waitEnter (h : k.osRtxThreadWaitEnter w timeout = some k') : Spares k k' := by
  rw [osRtxThreadWaitEnter] at h
  split at h
  · split at h
    · obtain rfl := Option.some.inj h
      exact spares_setSched fun _ hu => isLive_update rfl (isLive_update rfl hu)
    · cases h
  · cases h

theorem spares_wait : Spares k ((k.osRtxThreadWaitEnter w timeout).getD k) := by
  cases henter : k.osRtxThreadWaitEnter w timeout with
  | none => exact .refl
  | some k' => exact spares_waitEnter henter

theorem spares_waitAt : Spares k ((k.waitAt o w timeout).getD k) := by
  rw [waitAt]
  split
  · exact .refl
  · cases henter : k.osRtxThreadWaitEnter w timeout with
    | none => exact .refl
    | some k' => exact (spares_waitEnter henter).trans (spares_setSched fun _ => id)

theorem spares_changePriority : Spares k (k.changePriority t p) := by
  rw [changePriority]
  split
  · exact .refl
  · exact spares_setSched fun _ => id

theorem spares_expire : Spares k (k.expire t) := by
  have hready : ∀ {j : Kernel}, Spares k j → Spares k (j.setSched ((j.list (.remove t)).osRtxThreadReadyPut t)) :=
    fun hj => hj.trans (spares_setSched fun _ => isLive_update rfl)
  rw [expire]
  split
  · rw [osRtxMutexOwnerRestore]
    split
    · exact hready spares_changePriority
    · exact hready .refl
  · exact hready .refl

theorem spares_elapse : Spares k (k.elapse d) :=
  (spares_setSched (s := k.delay d) fun _ => id).trans (spares_foldl (fun _ _ => spares_expire) _)

theorem spares_switchToFirst : Spares k k.switchToFirst := by
  rw [switchToFirst]
  split
  · exact .refl
  · exact spares_setSched fun _ => isLive_update rfl

theorem spares_rotate : Spares k (k.rotate r t) :=
  spares_setSched fun _ hu => isLive_update rfl (isLive_update rfl hu)

theorem spares_roundRobin : Spares k k.roundRobin := by
  have hrobin : ∀ thread tick, Spares k { k with robinThread := thread, robinTick := tick } :=
    fun _ _ => ⟨rfl, rfl, fun _ => id⟩
  rw [roundRobin]
  split
  · exact .refl
  split
  · exact hrobin _ _
  · dsimp only
    split
    · exact hrobin _ _
    · split
      · split
        · exact ⟨rfl, rfl, fun _ hu => isLive_update rfl (isLive_update rfl hu)⟩
        · exact hrobin _ _
      · exact hrobin _ _

theorem Spares.svc {v : ℕ × Kernel} (h : Spares k v.2) : Spares k (svc v) := ⟨h.mutex, h.owned, h.alive⟩

theorem Spares.switch (h : Spares k k') : Spares k k'.contextSwitch := ⟨h.mutex, h.owned, h.alive⟩

theorem spares_setPriority : Spares k (k.svcRtxThreadSetPriority t p).2 := by
  rw [svcRtxThreadSetPriority]
  split
  · exact .refl
  split
  · exact .refl
  split
  · exact .refl
  · have hset : Spares k { k with
        toSched := k.list (.setPriority t p)
        priorityBase := Function.update k.priorityBase t p } := ⟨rfl, rfl, fun _ => id⟩
    have hdispatch := hset.trans (spares_dispatch none)
    exact ⟨hdispatch.mutex, hdispatch.owned, hdispatch.alive⟩

theorem spares_yield : Spares k k.svcRtxThreadYield.2 := by
  rw [svcRtxThreadYield]
  split
  · split
    · exact spares_rotate
    · exact .refl
  · exact .refl

theorem spares_suspendThread : Spares k (k.svcRtxThreadSuspend t).2 := by
  rw [svcRtxThreadSuspend]
  split
  · exact .refl
  · exact .refl
  · split
    · exact .refl
    · exact spares_switchToFirst.trans (spares_setSched fun _ => isLive_update rfl)
  · exact spares_setSched fun _ => isLive_update rfl
  · exact spares_setSched fun _ => isLive_update rfl

theorem spares_resumeThread : Spares k (k.svcRtxThreadResume t).2 := by
  rw [svcRtxThreadResume]
  split
  · exact .refl
  · have hleave : Spares k (k.setSched ((k.list (.remove t)).delay (.remove t))) := spares_setSched fun _ => id
    exact hleave.trans (spares_dispatch (some t))
  · exact .refl

/-- The block of a thread that has ended may be freed. -/
theorem spares_free (hstate : k.state t = .terminated) : Spares k (k.setSched (k.setState t .inactive)) := by
  refine spares_setSched fun u hu => ?_
  have hut : u ≠ t := fun heq => by
    rw [heq, hstate] at hu
    cases hu
  rwa [setState_of_ne hut]

theorem spares_detach : Spares k (k.svcRtxThreadDetach t).2 := by
  rw [svcRtxThreadDetach]
  split
  · exact .refl
  split
  · exact .refl
  split
  case isTrue hstate => exact spares_free hstate
  case isFalse => exact ⟨rfl, rfl, fun _ => id⟩

theorem spares_join : Spares k (k.svcRtxThreadJoin t).2 := by
  rw [svcRtxThreadJoin]
  split
  · exact .refl
  · exact .refl
  case _ hstate =>
    split
    · exact spares_free hstate
    · exact .refl
  · split
    · exact .refl
    split
    · exact .refl
    case _ henter =>
      have hwait := spares_waitEnter henter
      exact ⟨hwait.mutex, hwait.owned, hwait.alive⟩

theorem spares_delay {ticks : ℕ} : Spares k (k.svcRtxDelay ticks).2 := by
  rw [svcRtxDelay]
  split
  · exact .refl
  · exact spares_wait

theorem spares_delayUntil {ticks : ℕ} : Spares k (k.svcRtxDelayUntil ticks).2 := by
  rw [svcRtxDelayUntil]
  split
  · exact .refl
  · exact spares_wait

theorem spares_lock : Spares k k.svcRtxKernelLock.2 := by
  rw [svcRtxKernelLock]
  split
  · exact ⟨rfl, rfl, fun _ => id⟩
  · exact .refl
  · exact .refl

theorem spares_unlock : Spares k k.svcRtxKernelUnlock.2 := by
  rw [svcRtxKernelUnlock]
  split
  · exact .refl
  · exact ⟨rfl, rfl, fun _ => id⟩
  · exact .refl

theorem spares_restoreLock {lock : Int} : Spares k (k.svcRtxKernelRestoreLock lock).2 := by
  rw [svcRtxKernelRestoreLock]
  split
  · split
    · exact ⟨rfl, rfl, fun _ => id⟩
    split
    · exact ⟨rfl, rfl, fun _ => id⟩
    · exact .refl
  · exact .refl

theorem spares_suspend : Spares k k.suspend := by
  rw [suspend]
  split
  · exact ⟨rfl, rfl, fun _ => id⟩
  · exact .refl

theorem spares_resume {sleepTicks : ℕ} : Spares k (k.resume sleepTicks) := by
  rw [resume]
  split
  · have htick : Spares k { k with tick := (k.tick + sleepTicks) % 2 ^ 32 } := ⟨rfl, rfl, fun _ => id⟩
    have helapse := htick.trans (spares_elapse (d := .resume sleepTicks))
    have hrunning : Spares k { ({ k with tick := (k.tick + sleepTicks) % 2 ^ 32 } : Kernel).elapse
        (.resume sleepTicks) with kernel := .running } := ⟨helapse.mutex, helapse.owned, helapse.alive⟩
    exact hrunning.trans (spares_dispatch none)
  · exact .refl

theorem spares_step (hs : e.sparing) : Spares k (k.step e) := by
  cases e with
  | setPriority t p => exact spares_setPriority.svc
  | yield => exact spares_yield.svc
  | suspendThread t => exact spares_suspendThread.svc
  | resumeThread t => exact spares_resumeThread.svc
  | detach t => exact spares_detach.svc
  | join t => exact spares_join.svc
  | delay ticks => exact spares_delay.svc
  | delayUntil ticks => exact Spares.svc spares_delayUntil
  | lock => exact spares_lock.svc
  | unlock => exact spares_unlock.svc
  | restoreLock lock => exact spares_restoreLock.svc
  | suspend => exact spares_suspend
  | resume sleepTicks => exact spares_resume.switch
  | waitFlags timeout => exact Spares.svc spares_wait
  | wait o wait timeout => exact Spares.svc spares_waitAt
  | wake o => exact Spares.svc spares_wakeFirst
  | wakeFlags t flags =>
      have hexit : Spares k (k.osRtxThreadWaitExit t flags true) := spares_waitExit
      exact Spares.svc (v := (flags, _)) hexit
  | deleteObject o =>
      have hwake : Spares k (k.wakeAll o osErrorResource) := spares_wakeAll
      exact Spares.svc (v := (osOK, _)) (hwake.trans (spares_dispatch none))
  | post woken =>
      refine Spares.switch (Spares.trans (spares_foldl (fun j q => ?_) woken) (spares_dispatch none))
      exact (spares_setSched (s := j.list (.remove q.1)) fun _ => id).trans spares_waitExit
  | tick =>
      have htick : Spares k { k with tick := (k.tick + 1) % 2 ^ 32 } := ⟨rfl, rfl, fun _ => id⟩
      exact ((htick.trans spares_elapse).trans ((spares_dispatch none).trans spares_roundRobin)).switch
  | _ => cases hs

theorem Stays.step {v : ℕ × Kernel} (h : Stays k v.2) : (∀ u, ((svc v).state u).isLive → (k.state u).isLive) ∧
    ∀ u m, (svc v).root u = some (.mutex m) → k.root u = some (.mutex m) := ⟨h.live, h.held⟩

theorem Stays.switch (h : Stays k k') : (∀ u, (k'.contextSwitch.state u).isLive → (k.state u).isLive) ∧
    ∀ u m, k'.contextSwitch.root u = some (.mutex m) → k.root u = some (.mutex m) := ⟨h.live, h.held⟩

theorem Idle.step_held (h : k.Idle) (he : k.Allowed e) (hs : e.sparing) :
    (∀ u, ((k.step e).state u).isLive → (k.state u).isLive) ∧
      ∀ u m, (k.step e).root u = some (.mutex m) → k.root u = some (.mutex m) := by
  cases e with
  | setPriority t p => exact h.svcRtxThreadSetPriority.step
  | yield => exact h.svcRtxThreadYield.step
  | suspendThread t => exact (h.svcRtxThreadSuspend he).step
  | resumeThread t => exact (h.svcRtxThreadResume he).step
  | detach t => exact h.svcRtxThreadDetach.step
  | join t => exact h.svcRtxThreadJoin.step
  | delay ticks => exact (h.svcRtxDelay he).step
  | delayUntil ticks =>
      rw [show k.step (.delayUntil ticks) = Kernel.svc (k.svcRtxDelayUntil ticks) from rfl]
      exact h.svcRtxDelayUntil.step
  | lock => exact h.svcRtxKernelLock.step
  | unlock =>
      have hsame : k.svcRtxKernelUnlock.2.toSched = k.toSched := by
        rw [Kernel.svcRtxKernelUnlock]
        split <;> rfl
      exact ⟨fun u hu => hsame ▸ hu, fun u m hu => hsame ▸ hu⟩
  | restoreLock lock =>
      have hsame : (k.svcRtxKernelRestoreLock lock).2.toSched = k.toSched := by
        rw [Kernel.svcRtxKernelRestoreLock]
        split
        · split
          · rfl
          split <;> rfl
        · rfl
      exact ⟨fun u hu => hsame ▸ hu, fun u m hu => hsame ▸ hu⟩
  | suspend =>
      have hsame : k.suspend.toSched = k.toSched := by
        rw [Kernel.suspend]
        split <;> rfl
      exact ⟨fun u hu => hsame ▸ hu, fun u m hu => hsame ▸ hu⟩
  | resume sleepTicks => exact h.resume.switch
  | waitFlags timeout => exact (h.wait he.1 he.2 rfl).1.step
  | wait o wait timeout =>
      obtain ⟨-, -, hlive, hheld⟩ := h.waitAt he.2.2.1 he.2.2.2 (ne_ready_of_isPosted he.1) he.2.1
      refine ⟨hlive, fun u m hu => (hheld u (.mutex m) mutex_ne_ready hu).resolve_right fun hnew => ?_⟩
      exact Bool.noConfusion ((congrArg ObjectId.isPosted hnew.1).trans he.1)
  | wake o => exact (h.wakeFirst (ne_ready_of_isPosted he)).step
  | wakeFlags t flags => exact (h.wakeFlags he).step
  | deleteObject o => exact (h.deleteObject (ne_ready_of_isPosted he)).step
  | post woken => exact (h.post he.1 he.2).switch
  | tick => exact h.osRtxTick_Handler.1.switch
  | _ => cases hs

/-! ### What owners have -/

/-- The threads that live have the mutexes they own, and no other thread waits for one that is free. -/
structure Owners (k : Kernel) : Prop where
  owner : ∀ m, (k.mutex m).valid → (k.mutex m).lock ≠ 0 →
    (k.state (k.mutex m).owner).isLive ∧ m ∈ k.owned (k.mutex m).owner
  owned : ∀ t, (k.state t).isLive → (k.owned t).Nodup ∧
    ∀ m ∈ k.owned t, (k.mutex m).valid ∧ (k.mutex m).lock ≠ 0 ∧ (k.mutex m).owner = t
  waited : ∀ t m, k.root t = some (.mutex m) → (k.mutex m).valid ∧ (k.mutex m).lock ≠ 0

/-- Within a call, the mutexes in `left` have no owner yet, and the threads in `gone` are none any more. Those that
lived before the call are the ones that do. -/
structure Owning (live : ThreadId → Prop) (gone : List ThreadId) (left : List ℕ) (k : Kernel) : Prop where
  owner : ∀ m ∉ left, (k.mutex m).valid → (k.mutex m).lock ≠ 0 →
    live (k.mutex m).owner ∧ (k.mutex m).owner ∉ gone ∧ m ∈ k.owned (k.mutex m).owner
  owned : ∀ t, live t → t ∉ gone → (k.owned t).Nodup ∧
    ∀ m ∈ k.owned t, m ∉ left ∧ (k.mutex m).valid ∧ (k.mutex m).lock ≠ 0 ∧ (k.mutex m).owner = t
  waited : ∀ t m, k.root t = some (.mutex m) →
    live t ∧ t ∉ gone ∧ (k.mutex m).valid ∧ (m ∉ left → (k.mutex m).lock ≠ 0)

theorem init_owners {robinTimeout : ℕ} : (init robinTimeout).Owners :=
  ⟨nofun, nofun, nofun⟩

theorem Idle.live_of_waiting (h : k.Idle) (hroot : k.root t = some (.mutex m)) : (k.state t).isLive := by
  obtain ⟨w, hw, -⟩ := h.placed.waits t (.mutex m) hroot mutex_ne_ready
  exact hw ▸ rfl

theorem Owners.owning (h : k.Owners) (hidle : k.Idle) : Owning (fun t => (k.state t).isLive) [] [] k where
  owner m _ hvalid hlock := ⟨(h.owner m hvalid hlock).1, List.not_mem_nil, (h.owner m hvalid hlock).2⟩
  owned t ht _ := ⟨(h.owned t ht).1, fun m hm => ⟨List.not_mem_nil, (h.owned t ht).2 m hm⟩⟩
  waited t m hroot :=
    ⟨hidle.live_of_waiting hroot, List.not_mem_nil, (h.waited t m hroot).1, fun _ => (h.waited t m hroot).2⟩

/-- At the end of a call those live that lived before, but for the ones that have gone. -/
theorem Owning.owners (h : Owning live gone [] k) (hlive : ∀ u, (k.state u).isLive ↔ live u ∧ u ∉ gone) : k.Owners where
  owner m hvalid hlock := by
    obtain ⟨howner, hout, hmem⟩ := h.owner m List.not_mem_nil hvalid hlock
    exact ⟨(hlive _).mpr ⟨howner, hout⟩, hmem⟩
  owned t ht := by
    obtain ⟨hbefore, hout⟩ := (hlive t).mp ht
    obtain ⟨hnodup, hall⟩ := h.owned t hbefore hout
    exact ⟨hnodup, fun m hm => (hall m hm).2⟩
  waited t m hroot := by
    obtain ⟨-, -, hvalid, hlock⟩ := h.waited t m hroot
    exact ⟨hvalid, hlock List.not_mem_nil⟩

theorem Owning.congr (h : Owning live gone left k) (hmutex : k'.mutex = k.mutex) (howned : k'.owned = k.owned)
    (hheld : ∀ u m, k'.root u = some (.mutex m) → k.root u = some (.mutex m)) : Owning live gone left k' where
  owner m hm := by
    rw [hmutex, howned]
    exact h.owner m hm
  owned t ht hout := by
    rw [hmutex, howned]
    exact h.owned t ht hout
  waited t m hroot := by
    rw [hmutex]
    exact h.waited t m (hheld t m hroot)

theorem Owners.spared (h : k.Owners) (hspares : Spares k k') (hlive : ∀ u, (k'.state u).isLive → (k.state u).isLive)
    (hheld : ∀ u m, k'.root u = some (.mutex m) → k.root u = some (.mutex m)) : k'.Owners where
  owner m := by
    rw [hspares.mutex, hspares.owned]
    intro hvalid hlock
    obtain ⟨howner, hmem⟩ := h.owner m hvalid hlock
    exact ⟨hspares.alive _ howner, hmem⟩
  owned t ht := by
    rw [hspares.mutex, hspares.owned]
    exact h.owned t (hlive t ht)
  waited t m hroot := by
    rw [hspares.mutex]
    exact h.waited t m (hheld t m hroot)

/-! ### Parts of calls -/

/-- A mutex that has no owner may be anything that is valid. -/
theorem Owning.setMutex (h : Owning live gone left k) (hm : m ∈ left) {mutex : Mutex} (hvalid : mutex.valid) :
    Owning live gone left (k.setMutex m mutex) := by
  have hother : ∀ {m'}, m' ∉ left → (k.setMutex m mutex).mutex m' = k.mutex m' := fun {m'} hm' =>
    setMutex_of_ne (ne_of_mem_of_not_mem hm hm').symm mutex
  refine ⟨fun m' hm' => ?_, fun t ht hout => ?_, fun t m' hroot => ?_⟩
  · rw [hother hm']
    exact h.owner m' hm'
  · obtain ⟨hnodup, hall⟩ := h.owned t ht hout
    refine ⟨hnodup, fun m' hm' => ?_⟩
    rw [hother (hall m' hm').1]
    exact hall m' hm'
  · obtain ⟨ht, hout, hvalid', hlock⟩ := h.waited t m' hroot
    by_cases heq : m' = m
    · rw [heq, setMutex_self]
      exact ⟨ht, hout, hvalid, fun hout' => absurd hm hout'⟩
    · rw [setMutex_of_ne heq]
      exact ⟨ht, hout, hvalid', hlock⟩

theorem Owning.disown (h : Owning live gone [] k) (ht : live t) (hout : t ∉ gone) (hm : m ∈ k.owned t) :
    Owning live gone [m] (k.disown t m) := by
  obtain ⟨hnodup, hall⟩ := h.owned t ht hout
  have hself : (k.disown t m).owned t = (k.owned t).erase m := Function.update_self _ _ _
  have hother : ∀ {u}, u ≠ t → (k.disown t m).owned u = k.owned u := fun hu => Function.update_of_ne hu _ _
  refine ⟨fun m' hm' hvalid hlock => ?_, fun u hu hgone => ?_, fun u m' hroot => ?_⟩
  · obtain ⟨howner, hgone, hmem⟩ := h.owner m' List.not_mem_nil hvalid hlock
    refine ⟨howner, hgone, ?_⟩
    change m' ∈ (k.disown t m).owned (k.mutex m').owner
    by_cases heq : (k.mutex m').owner = t
    · rw [heq, hself]
      rw [heq] at hmem
      exact (List.mem_erase_of_ne fun hne => hm' (List.mem_singleton.mpr hne)).mpr hmem
    · rw [hother heq]
      exact hmem
  · by_cases hut : u = t
    · subst hut
      rw [hself]
      refine ⟨hnodup.erase m, fun m' hm' => ?_⟩
      obtain ⟨hne, hmem⟩ := hnodup.mem_erase_iff.mp hm'
      exact ⟨fun hsame => hne (List.mem_singleton.mp hsame), (hall m' hmem).2⟩
    · rw [hother hut]
      obtain ⟨hnodup', hall'⟩ := h.owned u hu hgone
      refine ⟨hnodup', fun m' hm' => ⟨fun hsame => hut ?_, (hall' m' hm').2⟩⟩
      rw [← (hall' m' hm').2.2.2, List.mem_singleton.mp hsame]
      exact (hall m hm).2.2.2
  · obtain ⟨hu, hgone, hvalid, hlock⟩ := h.waited u m' hroot
    exact ⟨hu, hgone, hvalid, fun _ => hlock List.not_mem_nil⟩

theorem wakeFirst_root (hfirst : k.first o = some t) :
    (k.wakeFirst o ret false).root = Function.update (Function.update k.root t none) t (some .ready) := by
  have hroot := list_root_get hfirst
  rw [wakeFirst, hfirst]
  exact congrArg (Function.update · t (some .ready)) hroot

theorem Owning.own (h : Owning live gone (m :: left) k) (hm : m ∉ left) (hvalid : (k.mutex m).valid) (ht : live t)
    (hout : t ∉ gone) : Owning live gone left (k.own t m) := by
  have hsplit : ∀ {m'}, m' ∉ left → m' ≠ m → m' ∉ m :: left := fun hm' hne hmem =>
    (List.mem_cons.mp hmem).elim hne hm'
  have hmutex : (k.own t m).mutex m = { k.mutex m with owner := t, lock := 1 } := Function.update_self _ _ _
  have hmutex' : ∀ {m'}, m' ≠ m → (k.own t m).mutex m' = k.mutex m' := fun hne => Function.update_of_ne hne _ _
  have howned : (k.own t m).owned t = m :: k.owned t := Function.update_self _ _ _
  have howned' : ∀ {u}, u ≠ t → (k.own t m).owned u = k.owned u := fun hne => Function.update_of_ne hne _ _
  refine ⟨fun m' hm' => ?_, fun u hu hgone => ?_, fun u m' hroot => ?_⟩
  · by_cases hne : m' = m
    · subst hne
      rw [hmutex]
      exact fun _ _ => ⟨ht, hout, howned ▸ List.mem_cons_self⟩
    · rw [hmutex' hne]
      intro hvalid' hlock
      obtain ⟨howner, hgone, hmem⟩ := h.owner m' (hsplit hm' hne) hvalid' hlock
      refine ⟨howner, hgone, ?_⟩
      by_cases hut : (k.mutex m').owner = t
      · rw [hut, howned]
        rw [hut] at hmem
        exact List.mem_cons_of_mem m hmem
      · rw [howned' hut]
        exact hmem
  · obtain ⟨hnodup, hall⟩ := h.owned u hu hgone
    have hold : ∀ m' ∈ k.owned u, m' ∉ left ∧ ((k.own t m).mutex m').valid ∧ ((k.own t m).mutex m').lock ≠ 0 ∧
        ((k.own t m).mutex m').owner = u := fun m' hm' => by
      obtain ⟨hnot, hrest⟩ := hall m' hm'
      rw [List.mem_cons, not_or] at hnot
      rw [hmutex' hnot.1]
      exact ⟨hnot.2, hrest⟩
    by_cases hut : u = t
    · subst hut
      rw [howned]
      refine ⟨List.nodup_cons.mpr ⟨fun hmem => (hall m hmem).1 List.mem_cons_self, hnodup⟩, ?_⟩
      refine List.forall_mem_cons.mpr ⟨?_, hold⟩
      rw [hmutex]
      exact ⟨hm, hvalid, Nat.one_ne_zero, rfl⟩
    · rw [howned' hut]
      exact ⟨hnodup, hold⟩
  · obtain ⟨hu, hgone, hvalid', hlock⟩ := h.waited u m' hroot
    by_cases hne : m' = m
    · subst hne
      rw [hmutex]
      exact ⟨hu, hgone, hvalid, fun _ => Nat.one_ne_zero⟩
    · rw [hmutex' hne]
      exact ⟨hu, hgone, hvalid', fun hm' => hlock (hsplit hm' hne)⟩

/-- The first thread that waits becomes the owner; if none waits, the mutex is free. -/
theorem Owning.handOver (h : Owning live gone (m :: left) k) (hsound : k.Sound) (hm : m ∉ left)
    (hvalid : (k.mutex m).valid) (hlock : (k.mutex m).lock = 0) : Owning live gone left (k.handOver m) := by
  rw [Kernel.handOver]
  cases hfirst : k.first (.mutex m) with
  | none =>
      have hsplit : ∀ {m'}, m' ∉ left → m' ≠ m → m' ∉ m :: left := fun hm' hne hmem =>
        (List.mem_cons.mp hmem).elim hne hm'
      refine ⟨fun m' hm' hvalid' hlock' => ?_, fun t ht hout => ?_, fun t m' hroot => ?_⟩
      · exact h.owner m' (hsplit hm' fun heq => hlock' (heq ▸ hlock)) hvalid' hlock'
      · obtain ⟨hnodup, hall⟩ := h.owned t ht hout
        exact ⟨hnodup, fun m' hm' => ⟨fun hmem => (hall m' hm').1 (List.mem_cons_of_mem m hmem), (hall m' hm').2⟩⟩
      · obtain ⟨ht, hout, hvalid', hlock'⟩ := h.waited t m' hroot
        have hne : m' ≠ m := fun heq => hsound.first_eq_none hfirst (heq ▸ hroot)
        exact ⟨ht, hout, hvalid', fun hm' => hlock' (hsplit hm' hne)⟩
  | some t =>
      obtain ⟨ht, hout, -⟩ := h.waited t m (hsound.first_root hfirst)
      have hwake : Spares k (k.wakeFirst (.mutex m) osOK false) := spares_wakeFirst
      refine Owning.own (h.congr hwake.mutex hwake.owned fun u m' hroot => ?_) hm (hwake.mutex ▸ hvalid) ht hout
      rw [wakeFirst_root hfirst] at hroot
      exact held_of_update none_ne_mutex (held_of_update ready_ne_mutex hroot)

/-- A mutex that is free may be taken for one that has no owner yet. -/
theorem Owning.free (h : Owning live gone left k) (hlock : (k.mutex m).lock = 0) : Owning live gone (m :: left) k where
  owner m' hm' := h.owner m' fun hmem => hm' (List.mem_cons_of_mem m hmem)
  owned t ht hout := by
    obtain ⟨hnodup, hall⟩ := h.owned t ht hout
    refine ⟨hnodup, fun m' hm' => ⟨fun hmem => ?_, (hall m' hm').2⟩⟩
    rcases List.mem_cons.mp hmem with rfl | hmem
    · exact (hall m' hm').2.2.1 hlock
    · exact (hall m' hm').1 hmem
  waited t m' hroot := by
    obtain ⟨ht, hout, hvalid, hlock'⟩ := h.waited t m' hroot
    exact ⟨ht, hout, hvalid, fun hm' => hlock' fun hmem => hm' (List.mem_cons_of_mem m hmem)⟩

theorem Owners.relock (h : k.Owners) (hlock : (k.mutex m).lock ≠ 0) {lock : ℕ} (hnew : lock ≠ 0) :
    (k.setMutex m { k.mutex m with lock := lock }).Owners := by
  refine ⟨fun m' => ?_, fun t ht => ⟨(h.owned t ht).1, fun m' hm' => ?_⟩, fun t m' hroot => ?_⟩
  · by_cases hne : m' = m
    · subst hne
      rw [setMutex_self]
      exact fun hvalid _ => h.owner m' hvalid hlock
    · rw [setMutex_of_ne hne]
      exact h.owner m'
  · by_cases hne : m' = m
    · subst hne
      rw [setMutex_self]
      exact ⟨((h.owned t ht).2 m' hm').1, hnew, ((h.owned t ht).2 m' hm').2.2⟩
    · rw [setMutex_of_ne hne]
      exact (h.owned t ht).2 m' hm'
  · by_cases hne : m' = m
    · subst hne
      rw [setMutex_self]
      exact ⟨(h.waited t m' hroot).1, hnew⟩
    · rw [setMutex_of_ne hne]
      exact h.waited t m' hroot

theorem changePriority_same : (k.changePriority t p).mutex = k.mutex ∧ (k.changePriority t p).owned = k.owned ∧
    (k.changePriority t p).root = k.root ∧ (k.changePriority t p).state = k.state := by
  rw [changePriority]
  split <;> exact ⟨rfl, rfl, rfl, rfl⟩

theorem giveUp_same : (k.giveUp t m).mutex = k.mutex ∧ (k.giveUp t m).owned = (k.disown t m).owned ∧
    (k.giveUp t m).root = k.root ∧ (k.giveUp t m).state = k.state := by
  rw [giveUp]
  split
  · exact changePriority_same
  · exact ⟨rfl, rfl, rfl, rfl⟩

theorem dispatch_none_held (hroot : (k.osRtxThreadDispatch none).root u = some (.mutex m)) :
    k.root u = some (.mutex m) := by
  rw [osRtxThreadDispatch] at hroot
  split at hroot
  case _ ready running _ _ =>
    split at hroot
    · change Function.update (Function.update k.root ready none) running (some .ready) u = _ at hroot
      exact held_of_update none_ne_mutex (held_of_update ready_ne_mutex hroot)
    · exact hroot
  · exact hroot

theorem waitExit_held (hroot : (k.osRtxThreadWaitExit t ret false).root u = some (.mutex m)) :
    k.root u = some (.mutex m) :=
  held_of_update ready_ne_mutex hroot

theorem switchToFirst_held (hroot : k.switchToFirst.root u = some (.mutex m)) : k.root u = some (.mutex m) := by
  rw [switchToFirst] at hroot
  cases hfirst : k.first .ready with
  | none =>
      rw [hfirst] at hroot
      exact hroot
  | some ready =>
      rw [hfirst] at hroot
      change (k.list (.get .ready)).root u = _ at hroot
      rw [list_root_get hfirst] at hroot
      exact held_of_update none_ne_mutex hroot

theorem handOver_alive (hu : (k.state u).isLive) : ((k.handOver m).state u).isLive := by
  rw [Kernel.handOver]
  split
  · exact hu
  · have hwake : Spares k (k.wakeFirst (.mutex m) osOK false) := spares_wakeFirst
    exact hwake.alive u hu

theorem Owning.giveUp (h : Owning live gone left (k.disown t m)) : Owning live gone left (k.giveUp t m) := by
  obtain ⟨hmutex, howned, hroot, -⟩ := giveUp_same (k := k) (t := t) (m := m)
  exact h.congr hmutex howned fun u m' hu => hroot ▸ hu

/-! ### Calls on mutexes -/

theorem Owners.svc {v : ℕ × Kernel} (h : v.2.Owners) : (Kernel.svc v).Owners := ⟨h.owner, h.owned, h.waited⟩

theorem Owners.switch (h : k.Owners) : k.contextSwitch.Owners := ⟨h.owner, h.owned, h.waited⟩

/-- A mutex that is no valid one is of no concern. -/
theorem Owners.invalid (h : k.Owners) (hm : (k.mutex m).valid = false ∨ (k.mutex m).lock = 0) {mutex : Mutex}
    (hnew : mutex.valid = false ∨ mutex.lock = 0) : (k.setMutex m mutex).Owners := by
  have hnone : ∀ m', (k.mutex m').valid → (k.mutex m').lock ≠ 0 →
      (k.setMutex m mutex).mutex m' = k.mutex m' := fun m' hvalid hlock => by
    refine setMutex_of_ne (fun heq => ?_) mutex
    subst heq
    exact hm.elim (fun hinvalid => Bool.noConfusion (hinvalid.symm.trans hvalid)) hlock
  refine ⟨fun m' => ?_, fun t ht => ⟨(h.owned t ht).1, fun m' hm' => ?_⟩, fun t m' hroot => ?_⟩
  · by_cases hne : m' = m
    · rw [hne, setMutex_self]
      intro hvalid hlock
      exact absurd hnew (not_or.mpr ⟨fun hinvalid => Bool.noConfusion (hinvalid.symm.trans hvalid), hlock⟩)
    · rw [setMutex_of_ne hne]
      exact h.owner m'
  · obtain ⟨hvalid, hlock, howner⟩ := (h.owned t ht).2 m' hm'
    rw [hnone m' hvalid hlock]
    exact ⟨hvalid, hlock, howner⟩
  · obtain ⟨hvalid, hlock⟩ := h.waited t m' hroot
    rw [hnone m' hvalid hlock]
    exact ⟨hvalid, hlock⟩

theorem Owners.waitAt (h : k.Owners) (hidle : k.Idle) (hpos : timeout ≠ 0) (hword : timeout < 2 ^ 32)
    (hvalid : (k.mutex m).valid) (hlock : (k.mutex m).lock ≠ 0) :
    ((k.waitAt (.mutex m) .mutex timeout).getD k).Owners := by
  have hspares : Spares k ((k.waitAt (.mutex m) .mutex timeout).getD k) := spares_waitAt
  obtain ⟨-, -, hlive, hheld⟩ := hidle.waitAt hpos hword (o := .mutex m) (w := .mutex) mutex_ne_ready rfl
  refine ⟨fun m' => ?_, fun t ht => ?_, fun t m' hroot => ?_⟩
  · rw [hspares.mutex, hspares.owned]
    intro hvalid' hlock'
    obtain ⟨howner, hmem⟩ := h.owner m' hvalid' hlock'
    exact ⟨hspares.alive _ howner, hmem⟩
  · rw [hspares.mutex, hspares.owned]
    exact h.owned t (hlive t ht)
  · rw [hspares.mutex]
    rcases hheld t (.mutex m') mutex_ne_ready hroot with hold | ⟨hsame, -⟩
    · exact h.waited t m' hold
    · obtain rfl := ObjectId.mutex.inj hsame
      exact ⟨hvalid, hlock⟩

theorem Owners.svcRtxMutexAcquire (h : k.Owners) (hidle : k.Idle) (hword : timeout < 2 ^ 32) :
    (k.svcRtxMutexAcquire m timeout).2.Owners := by
  rw [Kernel.svcRtxMutexAcquire]
  cases hr : k.curr with
  | none => exact h
  | some thread =>
      have hlive : (k.state thread).isLive := (hidle.running hr).2 ▸ rfl
      dsimp only
      split
      · exact h
      case isFalse hvalid =>
        have hvalid' : (k.mutex m).valid := not_not.mp hvalid
        split
        case isTrue hfree =>
          have hown := ((h.owning hidle).free hfree).own List.not_mem_nil hvalid' hlive List.not_mem_nil
          exact hown.owners fun u => (and_iff_left List.not_mem_nil).symm
        case isFalse hlock =>
          split
          · split
            · exact h
            · exact h.relock hlock (Nat.succ_ne_zero _)
          split
          · exact h
          case isFalse htimeout =>
            split
            · have hraised := hidle.goes_nil
                (goes_setPriority (t := (k.mutex m).owner) (p := k.priority thread) hidle.placed) rfl
              exact Owners.waitAt (k := k.setSched (k.list (.setPriority (k.mutex m).owner (k.priority thread))))
                ⟨h.owner, h.owned, h.waited⟩ hraised htimeout hword hvalid' hlock
            · exact h.waitAt hidle htimeout hword hvalid' hlock

/-- A mutex goes from its owner to the first thread that waits for it. -/
theorem Owners.passOn (h : k.Owners) (hidle : k.Idle) (ht : (k.state t).isLive) (hm : m ∈ k.owned t) {mutex : Mutex}
    (hvalid : mutex.valid) (hlock : mutex.lock = 0) :
    ((((k.setMutex m mutex).giveUp t m).handOver m).osRtxThreadDispatch none).Owners := by
  have hset : Goes [] [] [] k (k.setMutex m mutex) := goes_mutexes hidle.placed _ _
  obtain ⟨hgive, hnext⟩ := goes_giveUp (t := t) (m := m) hset.placed
  obtain ⟨hover, hnext'⟩ := goes_handOver (m := m) hgive.placed fun _ hu => absurd hu List.not_mem_nil
  obtain ⟨hgoes, -⟩ := goes_then_dispatch hidle.curr (hset.trans (hgive.trans hover)) (hnext'.trans hnext)
  obtain ⟨hmutex, -, -, hstate⟩ := giveUp_same (k := k.setMutex m mutex) (t := t) (m := m)
  have hself : ((k.setMutex m mutex).giveUp t m).mutex m = mutex := (congrFun hmutex m).trans setMutex_self
  have hgiven : Owning (fun u => (k.state u).isLive) [] [m] ((k.setMutex m mutex).giveUp t m) :=
    Owning.giveUp (((h.owning hidle).disown ht List.not_mem_nil hm).setMutex (List.mem_singleton_self m) hvalid)
  have howning := hgiven.handOver hgive.placed.toSound List.not_mem_nil (hself.symm ▸ hvalid) (hself.symm ▸ hlock)
  have hdispatch := spares_dispatch (k := ((k.setMutex m mutex).giveUp t m).handOver m) none
  refine (howning.congr hdispatch.mutex hdispatch.owned fun u m' => dispatch_none_held).owners fun u =>
    ⟨fun hu => ⟨hgoes.live (.inl List.not_mem_nil) hu, List.not_mem_nil⟩, fun hu => ?_⟩
  exact hdispatch.alive u (handOver_alive (hstate ▸ hu.1))

theorem Owners.svcRtxMutexRelease (h : k.Owners) (hidle : k.Idle) : (k.svcRtxMutexRelease m).2.Owners := by
  rw [Kernel.svcRtxMutexRelease]
  cases hr : k.curr with
  | none => exact h
  | some thread =>
      dsimp only
      split
      · exact h
      case isFalse hvalid =>
        split
        · exact h
        case isFalse hlock =>
          split
          · exact h
          case isFalse howner =>
            rw [setMutex_self]
            split
            case isTrue hmore => exact h.relock hlock hmore
            case isFalse hlast =>
              obtain ⟨hlive, hm⟩ := h.owner m (not_not.mp hvalid) hlock
              rw [not_not.mp howner] at hlive hm
              exact h.passOn hidle hlive hm (not_not.mp hvalid) (not_not.mp hlast)

theorem wakeAll_queue (ho : o ≠ .ready) : (k.wakeAll o ret).queues.queue o = [] := by
  rw [wakeAll]
  generalize hl : k.queues.queue o = l
  induction l generalizing k with
  | nil => exact hl
  | cons t rest ih =>
      refine ih ?_
      have hfirst : k.first o = some t := congrArg List.head? hl
      change (k.wakeFirst o ret false).queues.queue o = rest
      rw [wakeFirst, hfirst]
      change ((k.queues.get o).setQueue .ready _).queue o = rest
      rw [ThreadQueues.setQueue_of_ne ho, ThreadQueues.get, ThreadQueues.setQueue_self, hl, List.tail_cons]

/-- A mutex without an owner that no thread waits for may be done away with. -/
theorem Owning.invalid (h : Owning live gone [m] k) (hnone : ∀ u, k.root u ≠ some (.mutex m)) {mutex : Mutex}
    (hinvalid : mutex.valid = false) : Owning live gone [] (k.setMutex m mutex) := by
  have hother : ∀ {m'}, m' ∉ [m] → (k.setMutex m mutex).mutex m' = k.mutex m' := fun hm' =>
    setMutex_of_ne (fun heq => hm' (List.mem_singleton.mpr heq)) mutex
  refine ⟨fun m' _ => ?_, fun t ht hout => ?_, fun t m' hroot => ?_⟩
  · by_cases hm' : m' ∈ [m]
    · rw [List.mem_singleton.mp hm', setMutex_self]
      exact fun hvalid => Bool.noConfusion (hinvalid.symm.trans hvalid)
    · rw [hother hm']
      exact h.owner m' hm'
  · obtain ⟨hnodup, hall⟩ := h.owned t ht hout
    refine ⟨hnodup, fun m' hm' => ⟨List.not_mem_nil, ?_⟩⟩
    rw [hother (hall m' hm').1]
    exact (hall m' hm').2
  · obtain ⟨ht, hout, hvalid, hlock⟩ := h.waited t m' hroot
    have hm' : m' ∉ [m] := fun hmem => hnone t (List.mem_singleton.mp hmem ▸ hroot)
    rw [hother hm']
    exact ⟨ht, hout, hvalid, fun _ => hlock hm'⟩

theorem Owners.svcRtxMutexDelete (h : k.Owners) (hidle : k.Idle) : (k.svcRtxMutexDelete m).2.Owners := by
  rw [Kernel.svcRtxMutexDelete]
  split
  · exact h
  case isFalse hvalid =>
    split
    case isTrue hfree => exact h.invalid (.inr hfree) (.inl rfl)
    case isFalse hlock =>
      dsimp only
      obtain ⟨hlive, hm⟩ := h.owner m (not_not.mp hvalid) hlock
      obtain ⟨hgive, hnext⟩ := goes_giveUp (t := (k.mutex m).owner) (m := m) hidle.placed
      obtain ⟨hwake, hnext'⟩ :
          Goes [] [] [] _ ((k.giveUp (k.mutex m).owner m).wakeAll (.mutex m) osErrorResource) ∧ _ :=
        goes_wakeAll hgive.placed (fun _ hu => absurd hu List.not_mem_nil) mutex_ne_ready
      obtain ⟨hgoes, -⟩ := goes_then_dispatch hidle.curr (hgive.trans hwake) (hnext'.trans hnext)
      obtain ⟨-, -, -, hstate⟩ := giveUp_same (k := k) (t := (k.mutex m).owner) (m := m)
      have hgiven : Owning (fun u => (k.state u).isLive) [] [m] (k.giveUp (k.mutex m).owner m) :=
        Owning.giveUp ((h.owning hidle).disown hlive List.not_mem_nil hm)
      have hspares : Spares (k.giveUp (k.mutex m).owner m)
          (((k.giveUp (k.mutex m).owner m).wakeAll (.mutex m) osErrorResource).osRtxThreadDispatch none) :=
        spares_wakeAll.trans (spares_dispatch none)
      have howning := hgiven.congr hspares.mutex hspares.owned fun u m' hu =>
        hwake.held u (.mutex m') mutex_ne_ready (dispatch_none_held hu)
      have hnone : ∀ u, (((k.giveUp (k.mutex m).owner m).wakeAll (.mutex m) osErrorResource).osRtxThreadDispatch
          none).root u ≠ some (.mutex m) := fun u hu => by
        have hmem := (hwake.placed.root u _).mp (dispatch_none_held hu)
        have hempty :
            ((k.giveUp (k.mutex m).owner m).wakeAll (.mutex m) osErrorResource).queues.queue (.mutex m) = [] :=
          wakeAll_queue mutex_ne_ready
        rw [hempty] at hmem
        exact List.not_mem_nil hmem
      refine (howning.invalid hnone rfl).owners fun u =>
        ⟨fun hu => ⟨hgoes.live (.inl List.not_mem_nil) hu, List.not_mem_nil⟩, fun hu => ?_⟩
      exact hspares.alive u (hstate ▸ hu.1)

/-! ### Threads that end -/

/-- A thread that is linked to no mutex goes, and those it owns are left. -/
theorem Owners.leaving (h : k.Owners) (hidle : k.Idle) (ht : (k.state t).isLive) (hmutex : k'.mutex = k.mutex)
    (howned : k'.owned = k.owned) (hroot : ∀ m, k'.root t ≠ some (.mutex m))
    (hheld : ∀ u m, k'.root u = some (.mutex m) → k.root u = some (.mutex m)) :
    Owning (fun u => (k.state u).isLive) [t] (k'.owned t) k' where
  owner m hm := by
    rw [howned] at hm ⊢
    rw [hmutex]
    intro hvalid hlock
    obtain ⟨hlive, hmem⟩ := h.owner m hvalid hlock
    exact ⟨hlive, fun heq => hm (List.mem_singleton.mp heq ▸ hmem), hmem⟩
  owned u hu hout := by
    rw [howned, hmutex]
    obtain ⟨hnodup, hall⟩ := h.owned u hu
    refine ⟨hnodup, fun m hm => ⟨fun hmem => hout (List.mem_singleton.mpr ?_), hall m hm⟩⟩
    exact (hall m hm).2.2.symm.trans ((h.owned t ht).2 m hmem).2.2
  waited u m hu := by
    rw [hmutex]
    have hold := hheld u m hu
    refine ⟨hidle.live_of_waiting hold, fun heq => ?_, (h.waited u m hold).1, fun _ => (h.waited u m hold).2⟩
    exact hroot m (List.mem_singleton.mp heq ▸ hu)

theorem handOver_mutex_of_ne {m' : ℕ} (hne : m' ≠ m) : (k.handOver m).mutex m' = k.mutex m' := by
  rw [Kernel.handOver]
  split
  · rfl
  · have hwake : Spares k (k.wakeFirst (.mutex m) osOK false) := spares_wakeFirst
    exact (Function.update_of_ne hne _ _).trans (congrFun hwake.mutex m')

/-- Each robust mutex that is left goes to the first thread that waits for it. -/
theorem Owning.ownerRelease (h : Owning live gone rest k) (hnodup : rest.Nodup)
    (hrest : ∀ m ∈ rest, (k.mutex m).valid ∧ (k.mutex m).robust) (hplaced : Placed adrift [] k.toSched)
    (hfree : ∀ u ∈ adrift, k.root u = none) : Owning live gone [] (k.osRtxMutexOwnerRelease rest) := by
  rw [osRtxMutexOwnerRelease]
  induction rest generalizing k with
  | nil => exact h
  | cons m rest ih =>
      obtain ⟨hm, hnodup⟩ := List.nodup_cons.mp hnodup
      obtain ⟨⟨hvalid, hrobust⟩, hrest⟩ := List.forall_mem_cons.mp hrest
      obtain ⟨hgoes, -⟩ : Goes adrift [] [] k (k.releaseRobust m) ∧ _ := goes_releaseRobust hplaced hfree
      have hset : Goes adrift [] [] k (k.setMutex m { k.mutex m with lock := 0 }) := goes_mutexes hplaced _ _
      have hrelease : k.releaseRobust m = (k.setMutex m { k.mutex m with lock := 0 }).handOver m := if_pos hrobust
      refine ih ?_ hnodup (fun m' hm' => ?_) hgoes.placed (hgoes.free hfree)
      · change Owning live gone rest (k.releaseRobust m)
        rw [hrelease]
        have hunlocked : ({ k.mutex m with lock := 0 } : Mutex).valid := hvalid
        refine (h.setMutex List.mem_cons_self hunlocked).handOver hset.placed.toSound hm ?_ ?_
        · rw [setMutex_self]
          exact hvalid
        · rw [setMutex_self]
      · have hne : m' ≠ m := ne_of_mem_of_not_mem hm' hm
        have hsame : (k.releaseRobust m).mutex m' = k.mutex m' := by
          rw [hrelease, handOver_mutex_of_ne hne, setMutex_of_ne hne]
        rw [hsame]
        exact hrest m' hm'

theorem releaseRobust_alive (hu : (k.state u).isLive) : ((k.releaseRobust m).state u).isLive := by
  rw [releaseRobust]
  split
  · exact handOver_alive (k := k.setMutex m _) hu
  · exact hu

theorem leave_alive (hu : (k.state u).isLive) : ((k.leave t).state u).isLive := by
  have hrelease : ∀ (rest : List ℕ) (j : Kernel), (j.state u).isLive →
      ((j.osRtxMutexOwnerRelease rest).state u).isLive := fun rest => by
    induction rest with
    | nil => exact fun _ => id
    | cons m rest ih => exact fun j hj => ih (j.releaseRobust m) (releaseRobust_alive hj)
  rw [Kernel.leave]
  split
  · exact hrelease _ k hu
  · exact spares_waitExit.alive u (hrelease _ k hu)

theorem Owning.leave (h : Owning live gone (k.owned t) k) (hnodup : (k.owned t).Nodup)
    (hrest : ∀ m ∈ k.owned t, (k.mutex m).valid ∧ (k.mutex m).robust) (hplaced : Placed adrift [] k.toSched)
    (hfree : ∀ u ∈ adrift, k.root u = none) : Owning live gone [] (k.leave t) := by
  have hrelease := h.ownerRelease hnodup hrest hplaced hfree
  rw [Kernel.leave]
  split
  · exact hrelease
  case _ joining _ =>
    have hexit := @spares_waitExit (k.osRtxMutexOwnerRelease (k.owned t)) joining osOK false
    exact hrelease.congr hexit.mutex hexit.owned fun u m => waitExit_held

theorem bury_dead : ((k.bury t).state t).isLive = false := by
  have hself : (k.bury t).state t = if k.joinable t then .terminated else .inactive := setState_self
  rw [hself]
  split <;> rfl

theorem Owning.bury (h : Owning (fun u => (k.state u).isLive) [t] [] k')
    (hlive : ∀ u, ((k'.bury t).state u).isLive → (k.state u).isLive)
    (halive : ∀ u, (k.state u).isLive → (k'.state u).isLive) : (k'.bury t).Owners := by
  have hsame : Owning (fun u => (k.state u).isLive) [t] [] (k'.bury t) := h.congr rfl rfl fun _ _ => id
  refine hsame.owners fun u => ⟨fun hu => ⟨hlive u hu, fun heq => ?_⟩, fun hu => ?_⟩
  · rw [List.mem_singleton.mp heq, bury_dead] at hu
    cases hu
  · have hother : (k'.bury t).state u = k'.state u := setState_of_ne fun heq => hu.2 (List.mem_singleton.mpr heq)
    rw [hother]
    exact halive u hu.1

theorem Owners.robust (h : k.Owners) (ht : (k.state t).isLive) (hend : k.MayEnd t) :
    ∀ m ∈ k.owned t, (k.mutex m).valid ∧ (k.mutex m).robust := fun m hm => ⟨((h.owned t ht).2 m hm).1, hend ht m hm⟩

theorem Owners.endRunning (h : k.Owners) (hidle : k.Idle) (hnext : k.next = some t) (hmust : k.mustRun = false)
    (hend : k.MayEnd t) : (bury t { ((k.leave t).switchToFirst) with curr := none }).Owners := by
  obtain ⟨-, hstate, hroot, -⟩ := hidle.placed.next_free hnext
  have hlive : (k.state t).isLive := hstate ▸ rfl
  have hleave := (h.leaving hidle hlive rfl rfl (not_waiting hroot) fun _ _ => id).leave
    (h.owned t hlive).1 (h.robust hlive hend) hidle.placed fun _ hu => absurd hu List.not_mem_nil
  have hfirst : Spares (k.leave t) (k.leave t).switchToFirst := spares_switchToFirst
  have hswitch : Owning (fun u => (k.state u).isLive) [t] [] { ((k.leave t).switchToFirst) with curr := none } :=
    hleave.congr hfirst.mutex hfirst.owned fun u m => switchToFirst_held
  exact hswitch.bury (hidle.endRunning hnext hmust).live fun u hu => hfirst.alive u (leave_alive hu)

theorem Owners.endAdrift (h : k.Owners) (hidle : k.Idle) (hlive : (k.state t).isLive)
    (hjoin : k.state t ≠ .blocked .join) (hend : k.MayEnd t) (hgoes : Goes [t] [] (k.ending t) k k')
    (hroot : k'.root t = none) (hnext : k'.next = k.next) (hstate : k'.state = k.state) (hmutex : k'.mutex = k.mutex)
    (howned : k'.owned = k.owned) : (((k'.leave t).osRtxThreadDispatch none).bury t).Owners := by
  have hrobust : ∀ m ∈ k'.owned t, (k'.mutex m).valid ∧ (k'.mutex m).robust := by
    rw [hmutex, howned]
    exact h.robust hlive hend
  have hleave := (h.leaving hidle hlive hmutex howned (not_waiting hroot) fun u m =>
    hgoes.held u (.mutex m) mutex_ne_ready).leave (howned ▸ (h.owned t hlive).1) hrobust hgoes.placed
      fun u hu => List.mem_singleton.mp hu ▸ hroot
  have hdispatch := spares_dispatch (k := k'.leave t) none
  refine (hleave.congr hdispatch.mutex hdispatch.owned fun u m => dispatch_none_held).bury
    (hidle.endAdrift hlive hjoin hgoes hroot hnext hstate).live fun u hu => ?_
  exact hdispatch.alive u (leave_alive (hstate ▸ hu))

theorem Owners.svcRtxThreadExit (h : k.Owners) (hidle : k.Idle) (hend : ∀ t ∈ k.curr, k.MayEnd t) :
    k.svcRtxThreadExit.Owners := by
  rw [Kernel.svcRtxThreadExit]
  cases hr : k.curr with
  | none => exact h
  | some thread =>
      dsimp only
      split
      · exact h
      case isFalse hmust =>
        exact h.endRunning hidle (hidle.running hr).1 (Bool.eq_false_of_not_eq_true hmust) (hend thread hr)

theorem Owners.svcRtxThreadTerminate (h : k.Owners) (hidle : k.Idle) (hjoin : k.state t ≠ .blocked .join)
    (hend : k.MayEnd t) : (k.svcRtxThreadTerminate t).2.Owners := by
  rw [Kernel.svcRtxThreadTerminate]
  cases hstate : k.state t with
  | inactive => exact h
  | terminated => exact h
  | running =>
      dsimp only
      split
      · exact h
      case isFalse hmust =>
        have hnext := (hidle.placed.running t List.not_mem_nil).mp hstate
        exact h.endRunning hidle hnext (Bool.eq_false_of_not_eq_true hmust) hend
  | ready =>
      obtain ⟨hplaced, hroot⟩ := hidle.placed.removeReady ((hidle.placed.ready t List.not_mem_nil).mp hstate)
      have hremove : Goes [t] [] (k.ending t) k (k.setSched (k.list (.remove t))) :=
        goes_list hidle.placed hplaced trivial fun o u hput => by cases hput
      exact h.endAdrift hidle (hstate ▸ rfl) hjoin hend hremove hroot rfl rfl rfl rfl
  | blocked w =>
      obtain ⟨hleave, hroot⟩ := goes_leaveBlocked hidle.placed List.not_mem_nil hstate List.mem_cons_self
      exact h.endAdrift hidle (hstate ▸ rfl) hjoin hend hleave hroot rfl rfl rfl rfl

/-! ### New threads -/

theorem Owners.svcRtxThreadNew {joinable : Bool} (h : k.Owners) (hidle : k.Idle) (ht : k.state t = .inactive) :
    (k.svcRtxThreadNew t p joinable).Owners := by
  rw [Kernel.svcRtxThreadNew]
  split
  · exact h
  · let j : Kernel := { k with
      priorityBase := Function.update k.priorityBase t p
      joinable := Function.update k.joinable t joinable
      threadJoin := Function.update k.threadJoin t none
      owned := Function.update k.owned t [] }
    obtain ⟨hgoes, -⟩ := goes_new (k := j) (p := p) hidle.placed hidle.curr ht
    have hspares := spares_dispatch (k := j.setSched ((j.setState t .ready).list (.setPriority t p))) (some t)
    change ((j.setSched ((j.setState t .ready).list (.setPriority t p))).osRtxThreadDispatch (some t)).Owners
    have hnone : j.owned t = [] := Function.update_self t [] k.owned
    have hother : ∀ {u}, u ≠ t → j.owned u = k.owned u := fun hu => Function.update_of_ne hu [] k.owned
    refine ⟨fun m hvalid hlock => ?_, fun u hu => ?_, fun u m hroot => ?_⟩
    · rw [hspares.mutex] at hvalid hlock ⊢
      rw [hspares.owned]
      obtain ⟨hlive, hmem⟩ := h.owner m hvalid hlock
      have hne : (k.mutex m).owner ≠ t := fun heq => by
        rw [heq, ht] at hlive
        cases hlive
      exact ⟨hspares.alive _ (isLive_update rfl hlive), (hother hne).symm ▸ hmem⟩
    · rw [hspares.owned, hspares.mutex]
      by_cases hut : u = t
      · have hempty : j.owned u = [] := hut ▸ hnone
        refine ⟨hempty.symm ▸ List.nodup_nil, fun m hm => ?_⟩
        rw [show (j.setSched ((j.setState t .ready).list (.setPriority t p))).owned u = [] from hempty] at hm
        exact absurd hm List.not_mem_nil
      · have hlive := hgoes.live (.inl fun hmem => hut (List.mem_singleton.mp hmem)) hu
        have hsame : (j.setSched ((j.setState t .ready).list (.setPriority t p))).owned u = k.owned u := hother hut
        rw [hsame]
        exact h.owned u hlive
    · rw [hspares.mutex]
      exact h.waited u m (hgoes.held u (.mutex m) mutex_ne_ready hroot)

theorem Owners.switchToFirst (h : k.Owners) (hidle : k.Idle) : k.switchToFirst.Owners := by
  refine h.spared spares_switchToFirst (fun u hu => ?_) fun u m => switchToFirst_held
  rw [Kernel.switchToFirst] at hu
  cases hfirst : k.first .ready with
  | none =>
      rw [hfirst] at hu
      exact hu
  | some ready =>
      rw [hfirst] at hu
      by_cases hut : u = ready
      · have hready := (hidle.placed.ready ready List.not_mem_nil).mpr (hidle.placed.toSound.first_root hfirst)
        rw [hut, hready]
        rfl
      · have hsame : ((k.list (.get .ready)).osRtxThreadSwitch ready).state u = k.state u :=
          Function.update_of_ne hut _ _
        exact hsame ▸ hu

theorem Owners.svcRtxKernelStart {idle timer : ThreadId} (h : k.Owners) (hidle : k.Idle)
    (hfirst : k.state idle = .inactive) (hsecond : k.state timer = .inactive) (hne : idle ≠ timer) :
    (k.svcRtxKernelStart idle timer).2.Owners := by
  rw [Kernel.svcRtxKernelStart]
  split
  · exact h
  case isFalse hkernel =>
    have hcurr : k.curr = none := hidle.curr.trans (hidle.started.mpr (not_not.mp hkernel))
    obtain ⟨hidle₁, hcurr₁, hstate₁⟩ := hidle.new_of_none false (p := osPriorityIdle) hcurr hfirst (by decide)
    have hsecond₁ := (congrFun hstate₁ timer).trans ((Function.update_of_ne hne.symm _ _).trans hsecond)
    obtain ⟨hidle₂, -, -⟩ := hidle₁.new_of_none false (p := osTimerThreadPrio) hcurr₁ hsecond₁ (by decide)
    have howners := ((h.svcRtxThreadNew hidle hfirst).svcRtxThreadNew hidle₁ hsecond₁).switchToFirst hidle₂
    exact ⟨howners.owner, howners.owned, howners.waited⟩

/-! ### Steps -/

theorem Owners.step (h : k.Owners) (hidle : k.Idle) (he : k.Allowed e) : (k.step e).Owners := by
  by_cases hs : e.sparing
  · obtain ⟨hlive, hheld⟩ := hidle.step_held he hs
    exact h.spared (spares_step hs) hlive hheld
  · cases e with
    | start idle timer => exact (h.svcRtxKernelStart hidle he.1 he.2.1 he.2.2).svc
    | new t priority joinable => exact Owners.svc (v := (t, _)) (h.svcRtxThreadNew hidle he)
    | exit => exact Owners.svc (v := (osOK, _)) (h.svcRtxThreadExit hidle he)
    | terminate t => exact (h.svcRtxThreadTerminate hidle he.1 he.2).svc
    | newMutex m recursive prioInherit robust => exact h.invalid (.inl he) (.inr rfl)
    | acquire m timeout => exact (h.svcRtxMutexAcquire hidle he).svc
    | release m => exact (h.svcRtxMutexRelease hidle).svc
    | deleteMutex m => exact (h.svcRtxMutexDelete hidle).svc
    | _ => exact absurd rfl hs

end Kernel

end Best1307.Rtx
