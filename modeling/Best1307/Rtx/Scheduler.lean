import Best1307.Rtx.Placement

/-!
# The scheduler

What the service calls, the tick and the resuming of the kernel do to the places of the threads. Unless the scheduler is
locked, the thread that runs has at least the priority of every ready one; only when a lock is taken off may a thread of
a higher priority have to wait, and then until the next tick at the latest.
-/

namespace Best1307.Rtx

open DeltaQueue PriorityQueue

def ThreadState.isAwake : ThreadState → Bool
  | .ready | .running => true
  | _ => false

/-- Blocked until another thread resumes it, or until the thread it joins ends -/
def ThreadState.isParked : ThreadState → Bool
  | .blocked .suspended | .blocked .join => true
  | _ => false

/-- Awake, or blocked for something that may wake it up at any time -/
def ThreadState.mayRun : ThreadState → Bool
  | .ready | .running => true
  | .inactive | .terminated | .blocked .suspended | .blocked .join => false
  | .blocked _ => true

theorem Wait.mayRun_of_waitsFor {w : Wait} {o : ObjectId} (h : w.waitsFor o) : (ThreadState.blocked w).mayRun := by
  cases w with
  | suspended => cases h
  | join => cases h
  | _ => rfl

namespace Sched

variable {s s' s'' : Sched} {t u r : ThreadId} {o : ObjectId} {e : ListEvent} {d : DelayEvent}
  {adrift loose moved : List ThreadId} {p : Int} {w : Wait} {timeout : ℕ}

/-- But for those that have moved, a thread stays what it was or wakes up, and one that is parked stays so. -/
structure Alike (moved : List ThreadId) (s s' : Sched) : Prop where
  state : ∀ u ∉ moved, s'.state u = s.state u ∨ (s.state u).mayRun ∧ (s'.state u).isAwake
  waiting : ∀ u ∉ moved, (s.state u).isParked → u ∈ s.delays.waiting → u ∈ s'.delays.waiting

def Held (s s' : Sched) : Prop := ∀ u o, o ≠ .ready → s'.root u = some o → s.root u = some o

theorem Alike.refl : Alike moved s s := ⟨fun _ _ => .inl rfl, fun _ _ _ h => h⟩

theorem Held.refl : Held s s := fun _ _ _ h => h

theorem Held.trans (h : Held s s') (h' : Held s' s'') : Held s s'' := fun u o ho hroot => h u o ho (h' u o ho hroot)

theorem not_mayRun_of_isParked {state : ThreadState} (h : state.isParked) : state.mayRun = false := by
  cases state with
  | blocked w => cases w <;> first | rfl | cases h
  | _ => cases h

theorem Alike.parked (h : Alike moved s s') (hu : u ∉ moved) (hstate : (s.state u).isParked) :
    s'.state u = s.state u :=
  (h.state u hu).resolve_right fun hrun => Bool.noConfusion ((not_mayRun_of_isParked hstate).symm.trans hrun.1)

theorem Alike.trans (h : Alike moved s s') (h' : Alike moved s' s'') : Alike moved s s'' where
  state u hu := by
    rcases h.state u hu with heq | ⟨ha, hb⟩ <;> rcases h'.state u hu with heq' | ⟨ha', hb'⟩
    · exact .inl (heq'.trans heq)
    · exact .inr ⟨heq ▸ ha', hb'⟩
    · exact .inr ⟨ha, heq'.symm ▸ hb⟩
    · exact .inr ⟨ha, hb'⟩
  waiting u hu hstate hmem :=
    h'.waiting u hu ((h.parked hu hstate).symm ▸ hstate) (h.waiting u hu hstate hmem)

theorem Alike.mono {moved' : List ThreadId} (h : Alike moved s s') (hsub : ∀ u ∈ moved, u ∈ moved') :
    Alike moved' s s' :=
  ⟨fun u hu => h.state u fun hmem => hu (hsub u hmem), fun u hu => h.waiting u fun hmem => hu (hsub u hmem)⟩

theorem alike_list : Alike moved s (s.list e) := ⟨fun _ _ => .inl rfl, fun _ _ _ h => h⟩

/-- No thread comes to an object by a call on the lists, but by putting it there. -/
theorem held_list (h : s.Sound) (he : s.queues.Allowed e) (hput : ∀ o t, e = .put o t → o = .ready) :
    Held s (s.list e) := fun u o ho hroot => by
  rw [h.root]
  rw [(h.list he).root] at hroot
  cases e with
  | put o' t =>
      obtain rfl := hput o' t rfl
      change u ∈ (s.queues.setQueue _ _).queue o at hroot
      rw [ThreadQueues.setQueue_of_ne ho] at hroot
      exact hroot
  | block t =>
      change u ∈ (s.queues.setQueue _ _).queue o at hroot
      rw [ThreadQueues.setQueue_of_ne ho] at hroot
      exact hroot
  | get o' => exact ThreadQueues.get_sublist.subset hroot
  | remove t => exact List.mem_of_mem_erase hroot
  | setPriority t priority => exact ThreadQueues.setPriority_perm.mem_iff.mp hroot

theorem alike_insert : Alike moved s (s.delay (.insert t timeout)) where
  state _ _ := .inl rfl
  waiting u _ _ hmem := by
    change u ∈ (s.delays.insert t timeout).waiting
    rw [Delays.insert]
    split
    · exact List.mem_append_left _ hmem
    · exact hmem

theorem alike_remove (ht : t ∈ moved ∨ (s.state t).mayRun) : Alike moved s (s.delay (.remove t)) where
  state _ _ := .inl rfl
  waiting u hu hstate hmem := by
    refine (List.mem_erase_of_ne fun heq : u = t => ?_).mpr hmem
    subst heq
    exact ht.elim hu fun hrun => Bool.noConfusion ((not_mayRun_of_isParked hstate).symm.trans hrun)

theorem alike_setState_moved {state : ThreadState} (ht : t ∈ moved) : Alike moved s (s.setState t state) :=
  ⟨fun _ hu => .inl (setState_of_ne fun heq => hu (heq ▸ ht)), fun _ _ _ h => h⟩

theorem alike_setState_awake {state : ThreadState} (ht : (s.state t).mayRun) (hstate : state.isAwake) :
    Alike moved s (s.setState t state) where
  state u _ := by
    by_cases hut : u = t
    · subst hut
      rw [setState_self]
      exact .inr ⟨ht, hstate⟩
    · exact .inl (setState_of_ne hut)
  waiting _ _ _ h := h

theorem alike_switch (ht : t ∈ moved ∨ (s.state t).mayRun) : Alike moved s (s.osRtxThreadSwitch t) := by
  have hset : Alike moved s (s.setState t .running) := ht.elim alike_setState_moved fun hrun =>
    alike_setState_awake hrun rfl
  exact ⟨hset.state, hset.waiting⟩

theorem alike_makeReady (ht : t ∈ moved ∨ (s.state t).mayRun) : Alike moved s ((s.setState t .ready).list e) := by
  have hset : Alike moved s (s.setState t .ready) := ht.elim alike_setState_moved fun hrun =>
    alike_setState_awake hrun rfl
  exact hset.trans alike_list

theorem held_makeReady (h : s.Sound) (hroot : s.root t = none) (he : e = .put .ready t ∨ e = .block t) :
    Held s ((s.setState t .ready).list e) := by
  refine held_list (s := s.setState t .ready) (h.setState .ready) ?_ fun o u heq => ?_
  · rcases he with rfl | rfl <;> exact h.not_linked_iff.mpr hroot
  · rcases he with rfl | rfl <;> cases heq
    rfl

/-! ### Switching -/

/-- The thread that stops may be put away before the switch or behind it. -/
theorem switch_comm (hne : r ≠ t) {state : ThreadState} :
    (s.setState r state).osRtxThreadSwitch t = (s.osRtxThreadSwitch t).setState r state :=
  congrArg (Sched.mk s.queues s.delays s.calls s.delayCalls s.root · (some t)) (Function.update_comm hne _ _ _)

theorem makeReady_switch (hne : r ≠ t) :
    ((s.setState r .ready).list e).osRtxThreadSwitch t = ((s.osRtxThreadSwitch t).setState r .ready).list e :=
  congrArg (list · e) (switch_comm (s := s) hne)

theorem enter_switch (hne : r ≠ t) {state : ThreadState} :
    (((s.setState r state).delay d).list e).osRtxThreadSwitch t =
      (((s.list e).osRtxThreadSwitch t).setState r state).delay d :=
  congrArg (delay · d) (switch_comm (s := s.list e) hne)

theorem prompt_of_first (h : s.Sound) (hfirst : s.first .ready = some t) (hnext : s'.next = some t)
    (hpriority : s'.queues.priority = s.queues.priority)
    (hroot : ∀ u, s'.root u = some .ready → s.root u = some .ready ∨ s.priority u ≤ s.priority t) : s'.Prompt := by
  intro r hr u hu
  obtain rfl := Option.some.inj (hnext.symm.trans hr)
  change s'.queues.priority u ≤ s'.queues.priority t
  rw [hpriority]
  rcases hroot u hu with hu | hle
  · exact h.priority_le_first hfirst hu
  · exact hle

/-- The first ready thread takes the place of the one that was to run, which is adrift. -/
theorem Placed.getFirst (h : Placed adrift loose s) (hfirst : s.first .ready = some t) (hnext : s.next = some r) :
    r ≠ t ∧ Placed (r :: adrift) loose ((s.list (.get .ready)).osRtxThreadSwitch t) ∧
      ((s.list (.get .ready)).osRtxThreadSwitch t).root r = none ∧
      ((s.list (.get .ready)).osRtxThreadSwitch t).Prompt ∧
      Alike [] s ((s.list (.get .ready)).osRtxThreadSwitch t) ∧
      Held s ((s.list (.get .ready)).osRtxThreadSwitch t) := by
  obtain ⟨hplaced, hroot⟩ := h.getReady hfirst
  have hready := h.toSound.first_root hfirst
  obtain ⟨-, -, hfree, -⟩ := h.next_free hnext
  have hnew : ∀ u, (s.list (.get .ready)).root u = some .ready → s.root u = some .ready := fun u hu => by
    rw [list_root_get hfirst] at hu
    by_cases hut : u = t
    · subst hut
      exact hready
    · rwa [Function.update_of_ne hut] at hu
  have hne : r ≠ t := by
    rintro rfl
    rw [hfree] at hready
    cases hready
  refine ⟨hne, hplaced.switch hroot hnext, ?_, ?_, ?_, held_list h.toSound (allowed_get hfirst) nofun⟩
  · change (s.list (.get .ready)).root r = none
    rw [list_root_get hfirst, Function.update_of_ne hne]
    exact hfree
  · exact prompt_of_first h.toSound hfirst rfl rfl fun u hu => .inl (hnew u hu)
  · refine alike_list.trans (alike_switch (.inr ?_))
    change (s.state t).mayRun
    rw [(h.ready t (h.not_adrift_of_ready hready)).mpr hready]
    rfl

end Sched

namespace Kernel

open Sched

variable {k k' k'' : Kernel} {t u r : ThreadId} {o : ObjectId} {m : ℕ} {d : DelayEvent}
  {adrift adrift' loose loose' moved : List ThreadId} {p : Int} {w : Wait} {timeout ret : ℕ}

/-- Another state of the threads and the mutexes, and nothing else -/
def steered (k k' : Kernel) : Kernel :=
  { k with toSched := k'.toSched, reg := k'.reg, mutex := k'.mutex, owned := k'.owned }

/-- A part of a service call: the threads are placed behind it, and beyond their lists and states only registers and
mutexes have changed. -/
structure Reaches (adrift loose moved : List ThreadId) (k k' : Kernel) : Prop where
  same : k' = k.steered k'
  placed : Placed adrift loose k'.toSched
  alike : Alike moved k.toSched k'.toSched
  next : k'.next = none ↔ k.next = none

/-- A part that does not link a thread to an object -/
structure Goes (adrift loose moved : List ThreadId) (k k' : Kernel) : Prop extends Reaches adrift loose moved k k' where
  held : Held k.toSched k'.toSched

theorem goes_refl (h : Placed adrift loose k.toSched) : Goes adrift loose moved k k := ⟨⟨rfl, h, .refl, Iff.rfl⟩, .refl⟩

theorem Reaches.trans (h : Reaches adrift loose moved k k') (h' : Reaches adrift' loose' moved k' k'') :
    Reaches adrift' loose' moved k k'' where
  same := h'.same.trans ((congrArg (steered · k'') h.same).trans rfl)
  placed := h'.placed
  alike := h.alike.trans h'.alike
  next := h'.next.trans h.next

theorem Goes.trans (h : Goes adrift loose moved k k') (h' : Goes adrift' loose' moved k' k'') :
    Goes adrift' loose' moved k k'' := ⟨h.toReaches.trans h'.toReaches, h.held.trans h'.held⟩

theorem Goes.mono {moved' : List ThreadId} (h : Goes adrift loose moved k k') (hsub : ∀ u ∈ moved, u ∈ moved') :
    Goes adrift loose moved' k k' := ⟨⟨h.same, h.placed, h.alike.mono hsub, h.next⟩, h.held⟩

theorem Reaches.curr (h : Reaches adrift loose moved k k') : k'.curr = k.curr := (congrArg Kernel.curr h.same).trans rfl

theorem Reaches.kernel (h : Reaches adrift loose moved k k') : k'.kernel = k.kernel :=
  (congrArg Kernel.kernel h.same).trans rfl

theorem Reaches.threadJoin (h : Reaches adrift loose moved k k') : k'.threadJoin = k.threadJoin :=
  (congrArg Kernel.threadJoin h.same).trans rfl

theorem goes_setSched {s : Sched} (h : Placed adrift loose s) (halike : Alike moved k.toSched s)
    (hheld : Held k.toSched s) (hnext : s.next = none ↔ k.next = none) : Goes adrift loose moved k (k.setSched s) :=
  ⟨⟨rfl, h, halike, hnext⟩, hheld⟩

theorem goes_list {e : ListEvent} (h : Placed adrift' loose' k.toSched) (hplaced : Placed adrift loose (k.list e))
    (he : k.queues.Allowed e) (hput : ∀ o t, e = .put o t → o = .ready) :
    Goes adrift loose moved k (k.setSched (k.list e)) :=
  goes_setSched hplaced alike_list (held_list h.toSound he hput) Iff.rfl

/-! ### What the parts of a service call do -/

/-- A thread that has moved goes to the ready list, and the one that is to run still is. -/
theorem goes_readyPut (h : Placed (t :: adrift) loose k.toSched) (hroot : k.root t = none)
    (ht : t ∈ moved ∨ (k.state t).mayRun) :
    Goes adrift loose moved k (k.setSched (k.osRtxThreadReadyPut t)) :=
  goes_setSched (h.makeReady hroot (.inl rfl)) (alike_makeReady ht) (held_makeReady h.toSound hroot (.inl rfl)) Iff.rfl

/-- A thread that is adrift takes the place of the running one, which goes back to the ready list. -/
theorem goes_preempt {e : ListEvent} (h : Placed (t :: adrift) loose k.toSched) (hroot : k.root t = none)
    (ht : t ∈ moved ∨ (k.state t).mayRun) (hnext : k.next = some r) (he : e = .put .ready r ∨ e = .block r) :
    Goes adrift loose moved k (k.setSched (((k.setState r .ready).list e).osRtxThreadSwitch t)) := by
  obtain ⟨hr, hrunning, hfree, -⟩ := h.next_free hnext
  have hne : r ≠ t := fun heq => hr (heq ▸ List.mem_cons_self)
  have hplaced := h.switch hroot hnext
  have hstate : ((k.osRtxThreadSwitch t).state r).mayRun := by
    change ((k.setState t .running).state r).mayRun
    rw [setState_of_ne hne, hrunning]
    rfl
  rw [makeReady_switch hne]
  exact goes_setSched (hplaced.makeReady hfree he) ((alike_switch ht).trans (alike_makeReady (.inr hstate)))
    (held_makeReady hplaced.toSound hfree he) (iff_of_false nofun (hnext ▸ nofun))

/-- The thread that runs, and those that are ready, behind `goes_preempt` -/
theorem prompt_preempt {e : ListEvent} (he : e = .put .ready r ∨ e = .block r) (hless : k.priority r ≤ k.priority t)
    (hready : ∀ u, k.root u = some .ready → k.priority u ≤ k.priority t) :
    (((k.setState r .ready).list e).osRtxThreadSwitch t).Prompt := by
  intro r' hr' u hu
  obtain rfl := Option.some.inj hr'
  have hpriority : ((k.setState r .ready).list e).queues.priority = k.queues.priority := by
    rcases he with rfl | rfl <;> rfl
  have hnew : ((k.setState r .ready).list e).root = Function.update k.root r (some .ready) := by
    rcases he with rfl | rfl <;> rfl
  change ((k.setState r .ready).list e).queues.priority u ≤ ((k.setState r .ready).list e).queues.priority t
  change ((k.setState r .ready).list e).root u = _ at hu
  rw [hnew] at hu
  rw [hpriority]
  by_cases hur : u = r
  · subst hur
    exact hless
  · rw [Function.update_of_ne hur] at hu
    exact hready u hu

theorem prompt_of_no_ready {s : Sched} (h : s.Sound) (hfirst : s.first .ready = none) : s.Prompt :=
  fun _ _ _ hu => absurd hu (h.first_eq_none hfirst)

theorem goes_dispatch_none (h : Placed adrift loose k.toSched) (hcurr : k.curr = k.next) :
    Goes adrift loose moved k (k.osRtxThreadDispatch none) ∧
      (k.kernel = .running → (k.osRtxThreadDispatch none).Prompt) := by
  rw [osRtxThreadDispatch, hcurr]
  cases hfirst : k.first .ready with
  | none => exact ⟨goes_refl h, fun _ => prompt_of_no_ready h.toSound hfirst⟩
  | some ready =>
      cases hnext : k.next with
      | none => exact ⟨goes_refl h, fun _ r hr => by cases hnext.symm.trans hr⟩
      | some running =>
          have hready := h.toSound.first_root hfirst
          dsimp only
          split
          case isTrue hpreempt =>
            obtain ⟨hplaced, hroot⟩ := h.removeReady hready
            have hrun : (k.state ready).mayRun := by
              rw [(h.ready ready (h.not_adrift_of_ready hready)).mpr hready]
              rfl
            have hremove : Goes (ready :: adrift) loose moved k (k.setSched (k.list (.remove ready))) :=
              goes_list h hplaced trivial nofun
            refine ⟨hremove.trans (goes_preempt hplaced hroot (.inr hrun) hnext (.inr rfl)),
              fun _ => prompt_preempt (k := k.setSched (k.list (.remove ready))) (.inr rfl)
                (Int.le_of_lt hpreempt.2) fun u hu => h.toSound.priority_le_first hfirst ?_⟩
            change Function.update k.root ready none u = _ at hu
            by_cases hur : u = ready
            · subst hur
              exact hready
            · rwa [Function.update_of_ne hur] at hu
          case isFalse hstay =>
            refine ⟨goes_refl h, fun hkernel r hr u hu => ?_⟩
            obtain rfl := Option.some.inj (hnext.symm.trans hr)
            have hle := h.toSound.priority_le_first hfirst hu
            exact Int.le_trans hle (Int.not_lt.mp fun hless => hstay ⟨hkernel, hless⟩)

theorem goes_dispatch_some (h : Placed (t :: adrift) loose k.toSched) (hroot : k.root t = none)
    (ht : t ∈ moved ∨ (k.state t).mayRun) (hcurr : k.curr = k.next) :
    Goes adrift loose moved k (k.osRtxThreadDispatch (some t)) ∧
      (k.kernel = .running → k.Prompt → (k.osRtxThreadDispatch (some t)).Prompt) ∧
      ((k.osRtxThreadDispatch (some t)).state t).isAwake := by
  have hput : ((k.osRtxThreadReadyPut t).state t).isAwake := by
    change ((k.setState t .ready).state t).isAwake
    rw [setState_self]
    rfl
  rw [osRtxThreadDispatch, hcurr]
  cases hnext : k.next with
  | none => exact ⟨goes_readyPut h hroot ht, fun _ _ r hr => (by cases hnext.symm.trans hr), hput⟩
  | some running =>
      dsimp only
      split
      case isTrue hpreempt =>
        have hrun : (((k.osRtxThreadBlock running).osRtxThreadSwitch t).state t).isAwake := by
          change (((k.osRtxThreadBlock running).setState t .running).state t).isAwake
          rw [setState_self]
          rfl
        refine ⟨goes_preempt h hroot ht hnext (.inr rfl),
          fun _ hprompt => prompt_preempt (.inr rfl) (Int.le_of_lt hpreempt.2) ?_, hrun⟩
        exact fun u hu => Int.le_trans (hprompt running hnext u hu) (Int.le_of_lt hpreempt.2)
      case isFalse hstay =>
        refine ⟨goes_readyPut h hroot ht, fun hkernel hprompt r hr u hu => ?_, hput⟩
        obtain rfl := Option.some.inj (hnext.symm.trans hr)
        change Function.update k.root t (some .ready) u = _ at hu
        by_cases hut : u = t
        · subst hut
          exact Int.not_lt.mp fun hless => hstay ⟨hkernel, hless⟩
        · rw [Function.update_of_ne hut] at hu
          exact hprompt running hnext u hu

/-- A blocked thread has left the lists of delays, and its value is stored. -/
def released (t : ThreadId) (ret : ℕ) (k : Kernel) : Kernel :=
  { k with toSched := k.delay (.remove t), reg := Function.update k.reg t ret }

theorem goes_released (h : Placed adrift (t :: loose) k.toSched) (ht : t ∉ adrift) (hstate : k.state t = .blocked w)
    (hroot : k.root t = none) (hmoved : t ∈ moved ∨ (k.state t).mayRun) :
    Goes (t :: adrift) (t :: loose) moved k (k.released t ret) :=
  ⟨⟨rfl, h.delayRemove ht hstate hroot, alike_remove hmoved, Iff.rfl⟩, .refl⟩

theorem Goes.tighten (h : Goes adrift (t :: loose) moved k k') (ht : (k'.state t).isAwake) :
    Goes adrift loose moved k k' := by
  refine ⟨⟨h.same, h.placed.tighten fun w hw => ?_, h.alike, h.next⟩, h.held⟩
  rw [hw] at ht
  cases ht

theorem goes_waitExit (h : Placed adrift (t :: loose) k.toSched) (ht : t ∉ adrift) (hstate : k.state t = .blocked w)
    (hroot : k.root t = none) (hmoved : t ∈ moved ∨ (k.state t).mayRun) :
    Goes adrift loose moved k (k.osRtxThreadWaitExit t ret false) ∧
      (k.osRtxThreadWaitExit t ret false).next = k.next := by
  have hreleased : Goes (t :: adrift) (t :: loose) moved k (k.released t ret) :=
    goes_released h ht hstate hroot hmoved
  refine ⟨(hreleased.trans (goes_readyPut hreleased.placed hroot hmoved)).tighten ?_, rfl⟩
  exact congrArg ThreadState.isAwake (setState_self (s := (k.released t ret).toSched))

theorem goes_waitExit_dispatch (h : Placed adrift (t :: loose) k.toSched) (ht : t ∉ adrift)
    (hstate : k.state t = .blocked w) (hroot : k.root t = none) (hmoved : t ∈ moved ∨ (k.state t).mayRun)
    (hcurr : k.curr = k.next) :
    Goes adrift loose moved k (k.osRtxThreadWaitExit t ret true) ∧
      (k.kernel = .running → k.Prompt → (k.osRtxThreadWaitExit t ret true).Prompt) := by
  have hreleased : Goes (t :: adrift) (t :: loose) moved k (k.released t ret) :=
    goes_released h ht hstate hroot hmoved
  have hdispatch : Goes adrift (t :: loose) moved (k.released t ret) _ ∧ _ ∧ _ :=
    goes_dispatch_some hreleased.placed hroot hmoved hcurr
  exact ⟨(hreleased.trans hdispatch.1).tighten hdispatch.2.2, hdispatch.2.1⟩

theorem Goes.free (h : Goes adrift loose moved k k') (hfree : ∀ u ∈ adrift, k.root u = none) :
    ∀ u ∈ adrift, k'.root u = none := fun u hu => by
  cases hroot : k'.root u with
  | none => rfl
  | some o =>
      have ho : o ≠ .ready := fun heq => (h.placed.absent u hu).2.2 (heq ▸ hroot)
      exact ((hfree u hu).symm.trans (h.held u o ho hroot)).symm ▸ rfl

theorem goes_wakeFirst (h : Placed adrift loose k.toSched) (hfree : ∀ u ∈ adrift, k.root u = none) (ho : o ≠ .ready) :
    Goes adrift loose moved k (k.wakeFirst o ret false) ∧ (k.wakeFirst o ret false).next = k.next := by
  rw [wakeFirst]
  cases hfirst : k.first o with
  | none => exact ⟨goes_refl h, rfl⟩
  | some t =>
      obtain ⟨hplaced, hroot, w, hstate, hwaits⟩ := h.getObject ho hfirst
      have ht : t ∉ adrift := fun hmem => by
        have hlinked := h.toSound.first_root hfirst
        rw [hfree t hmem] at hlinked
        cases hlinked
      have hget : Goes adrift (t :: loose) moved k (k.setSched (k.list (.get o))) :=
        goes_list h hplaced (allowed_get hfirst) nofun
      have hrun : t ∈ moved ∨ (k.state t).mayRun := .inr (hstate ▸ Wait.mayRun_of_waitsFor hwaits)
      obtain ⟨hexit, hnext⟩ : Goes adrift loose moved _
          ((k.setSched (k.list (.get o))).osRtxThreadWaitExit t ret false) ∧ _ :=
        goes_waitExit hplaced ht hstate hroot hrun
      exact ⟨hget.trans hexit, hnext⟩

theorem goes_waitEnter (h : Placed adrift loose k.toSched) (hcurr : k.curr = k.next) (hpos : timeout ≠ 0)
    (hword : timeout < 2 ^ 32) (hk' : k.osRtxThreadWaitEnter w timeout = some k') (hr : k.curr = some r)
    (hmoved : r ∈ moved) {loose' : List ThreadId} (hloose : ∀ u ∈ loose, u ∈ loose') (hw : w.isLinked → r ∈ loose') :
    Goes adrift loose' moved k k' ∧ k'.Prompt ∧ k'.state r = .blocked w ∧ k'.root r = none ∧
      k'.delays = k.delays.insert r timeout := by
  rw [osRtxThreadWaitEnter, hr] at hk'
  cases hfirst : k.first .ready with
  | none =>
      rw [hfirst] at hk'
      cases hk'
  | some ready =>
      rw [hfirst] at hk'
      dsimp only at hk'
      split at hk'
      case isTrue hkernel =>
        have hsome : k.next ≠ none := hcurr ▸ hr ▸ nofun
        obtain ⟨hne, hplaced, hroot, hprompt, halike, hheld⟩ := h.getFirst hfirst (hcurr.symm.trans hr)
        rw [enter_switch hne] at hk'
        obtain rfl := Option.some.inj hk'
        exact ⟨goes_setSched (hplaced.delayInsert hroot hpos hword (fun u hu _ => hloose u hu) hw)
          ((halike.mono fun _ hu => absurd hu List.not_mem_nil).trans
            ((alike_setState_moved hmoved).trans alike_insert)) hheld (iff_of_false nofun hsome),
          hprompt, setState_self, hroot, rfl⟩
      · cases hk'

/-- Where the running thread cannot wait, the scheduler is stopped or nothing else is ready. -/
theorem prompt_of_waitEnter (h : k.Sound) (hcurr : k.curr = k.next) (hk' : k.osRtxThreadWaitEnter w timeout = none)
    (hkernel : k.kernel = .running) : k.Prompt := by
  rw [osRtxThreadWaitEnter] at hk'
  cases hfirst : k.first .ready with
  | none => exact prompt_of_no_ready h hfirst
  | some ready =>
      cases hr : k.curr with
      | none => exact fun r hnext => by cases (hcurr.symm.trans hr).symm.trans hnext
      | some running =>
          rw [hfirst, hr] at hk'
          dsimp only at hk'
          rw [if_pos hkernel] at hk'
          cases hk'

theorem reaches_waitAt (h : Placed adrift loose k.toSched) (hcurr : k.curr = k.next) (hpos : timeout ≠ 0)
    (hword : timeout < 2 ^ 32) (ho : o ≠ .ready) (hwaits : w.waitsFor o) (hr : k.curr = some r)
    (hk' : k.waitAt o w timeout = some k') (hmoved : r ∈ moved) :
    Reaches adrift loose moved k k' ∧ k'.Prompt ∧ k'.root r = some o ∧
      ∀ u o', o' ≠ .ready → u ≠ r → k'.root u = some o' → k.root u = some o' := by
  rw [waitAt, hr] at hk'
  obtain ⟨j, hj, rfl⟩ := Option.map_eq_some_iff.mp hk'
  obtain ⟨hgoes, hprompt, hstate, hroot, -⟩ : Goes adrift (r :: loose) moved k j ∧ _ ∧ _ :=
    goes_waitEnter h hcurr hpos hword hj hr hmoved (fun _ hu => List.mem_cons_of_mem r hu) fun _ => List.mem_cons_self
  have hradrift : r ∉ adrift := (h.next_free (hcurr.symm.trans hr)).1
  have hself : (j.list (.put o r)).root r = some o := Function.update_self _ _ _
  have hother : ∀ u, u ≠ r → (j.list (.put o r)).root u = j.root u := fun u hu => Function.update_of_ne hu _ _
  have hput : Reaches adrift loose moved j (j.setSched (j.list (.put o r))) :=
    ⟨rfl, hgoes.placed.attach hradrift hroot hstate hwaits ho, alike_list, Iff.rfl⟩
  refine ⟨hgoes.toReaches.trans hput, fun r' hr' u hu => ?_, hself, fun u o' ho' hu hroot' => ?_⟩
  · have hur : u ≠ r := fun heq => ho (Option.some.inj (hself.symm.trans (heq ▸ hu)))
    exact hprompt r' hr' u (hother u hur ▸ hu)
  · exact hgoes.held u o' ho' (hother u hu ▸ hroot')

theorem goes_wakeOne (h : Placed adrift loose k.toSched) (ht : t ∉ adrift) (hstate : k.state t = .blocked w)
    (hmoved : t ∈ moved ∨ (k.state t).mayRun) :
    Goes adrift loose moved k (k.wakeOne t ret) ∧ (k.wakeOne t ret).next = k.next := by
  obtain ⟨hplaced, hroot⟩ := h.getBlocked hstate (e := .remove t) trivial list_root_remove
  have hremove : Goes adrift (t :: loose) moved k (k.setSched (k.list (.remove t))) :=
    goes_list h hplaced trivial nofun
  obtain ⟨hexit, hnext⟩ : Goes adrift loose moved _
      ((k.setSched (k.list (.remove t))).osRtxThreadWaitExit t ret false) ∧ _ :=
    goes_waitExit hplaced ht hstate hroot hmoved
  exact ⟨hremove.trans hexit, hnext⟩

theorem goes_wakeAll (h : Placed adrift loose k.toSched) (hfree : ∀ u ∈ adrift, k.root u = none) (ho : o ≠ .ready) :
    Goes adrift loose moved k (k.wakeAll o ret) ∧ (k.wakeAll o ret).next = k.next := by
  rw [wakeAll]
  induction k.queues.queue o generalizing k with
  | nil => exact ⟨goes_refl h, rfl⟩
  | cons t rest ih =>
      obtain ⟨hfirst, hnext⟩ : Goes adrift loose moved k (k.wakeFirst o ret false) ∧ _ := goes_wakeFirst h hfree ho
      obtain ⟨hrest, hnext'⟩ := ih hfirst.placed (hfirst.free hfree)
      exact ⟨hfirst.trans hrest, hnext'.trans hnext⟩

/-! ### What mutexes do to threads -/

theorem goes_mutexes (h : Placed adrift loose k.toSched) (mutex : ℕ → Mutex) (owned : ThreadId → List ℕ) :
    Goes adrift loose moved k { k with mutex := mutex, owned := owned } :=
  ⟨⟨rfl, h, .refl, Iff.rfl⟩, .refl⟩

theorem goes_handOver (h : Placed adrift loose k.toSched) (hfree : ∀ u ∈ adrift, k.root u = none) :
    Goes adrift loose moved k (k.handOver m) ∧ (k.handOver m).next = k.next := by
  rw [handOver]
  cases k.first (.mutex m) with
  | none => exact ⟨goes_refl h, rfl⟩
  | some t =>
      obtain ⟨hwake, hnext⟩ : Goes adrift loose moved k (k.wakeFirst (.mutex m) osOK false) ∧ _ :=
        goes_wakeFirst h hfree nofun
      exact ⟨hwake.trans (goes_mutexes hwake.placed _ _), hnext⟩

theorem goes_releaseRobust (h : Placed adrift loose k.toSched) (hfree : ∀ u ∈ adrift, k.root u = none) :
    Goes adrift loose moved k (k.releaseRobust m) ∧ (k.releaseRobust m).next = k.next := by
  rw [releaseRobust]
  split
  · have hlock : Goes adrift loose moved k (k.setMutex m { k.mutex m with lock := 0 }) := goes_mutexes h _ _
    obtain ⟨hover, hnext⟩ : Goes adrift loose moved _ ((k.setMutex m { k.mutex m with lock := 0 }).handOver m) ∧ _ :=
      goes_handOver hlock.placed hfree
    exact ⟨hlock.trans hover, hnext⟩
  · exact ⟨goes_refl h, rfl⟩

theorem goes_ownerRelease {mutexes : List ℕ} (h : Placed adrift loose k.toSched)
    (hfree : ∀ u ∈ adrift, k.root u = none) :
    Goes adrift loose moved k (k.osRtxMutexOwnerRelease mutexes) ∧
      (k.osRtxMutexOwnerRelease mutexes).next = k.next := by
  rw [osRtxMutexOwnerRelease]
  induction mutexes generalizing k with
  | nil => exact ⟨goes_refl h, rfl⟩
  | cons m rest ih =>
      obtain ⟨hfirst, hnext⟩ : Goes adrift loose moved k (k.releaseRobust m) ∧ _ := goes_releaseRobust h hfree
      obtain ⟨hrest, hnext'⟩ := ih hfirst.placed (hfirst.free hfree)
      exact ⟨hfirst.trans hrest, hnext'.trans hnext⟩

theorem goes_setPriority (h : Placed adrift loose k.toSched) :
    Goes adrift loose moved k (k.setSched (k.list (.setPriority t p))) :=
  goes_list h h.setPriority trivial nofun

theorem goes_changePriority (h : Placed adrift loose k.toSched) :
    Goes adrift loose moved k (k.changePriority t p) ∧ (k.changePriority t p).next = k.next := by
  rw [changePriority]
  split
  · exact ⟨goes_refl h, rfl⟩
  · exact ⟨goes_setPriority h, rfl⟩

theorem goes_giveUp (h : Placed adrift loose k.toSched) :
    Goes adrift loose moved k (k.giveUp t m) ∧ (k.giveUp t m).next = k.next := by
  have hdisown : Goes adrift loose moved k (k.disown t m) := goes_mutexes h _ _
  rw [giveUp]
  split
  · obtain ⟨hchange, hnext⟩ := goes_changePriority hdisown.placed
    exact ⟨hdisown.trans hchange, hnext⟩
  · exact ⟨hdisown, rfl⟩

theorem goes_ownerRestore (h : Placed adrift loose k.toSched) :
    Goes adrift loose moved k (k.osRtxMutexOwnerRestore m t) ∧ (k.osRtxMutexOwnerRestore m t).next = k.next := by
  rw [osRtxMutexOwnerRestore]
  split
  · exact goes_changePriority h
  · exact ⟨goes_refl h, rfl⟩

/-! ### Timeouts -/

theorem goes_expire (h : Placed (t :: adrift) loose k.toSched) (ht : t ∈ moved) :
    Goes adrift loose moved k (k.expire t) ∧ (k.expire t).next = k.next := by
  have hready : ∀ {j : Kernel}, Goes (t :: adrift) loose moved k j →
      Goes adrift loose moved k (j.setSched ((j.list (.remove t)).osRtxThreadReadyPut t)) := fun hj => by
    obtain ⟨hplaced, hroot⟩ := hj.placed.unlink List.mem_cons_self
    have hremove := hj.trans (goes_list hj.placed hplaced trivial nofun)
    exact hremove.trans (goes_readyPut hplaced hroot (.inl ht))
  rw [expire]
  split
  · obtain ⟨hrestore, hnext⟩ := goes_ownerRestore h
    exact ⟨hready hrestore, hnext⟩
  · exact ⟨hready (goes_refl h), rfl⟩

theorem goes_foldl_expire {l : List ThreadId} (h : Placed l loose k.toSched) (hl : ∀ u ∈ l, u ∈ moved) :
    Goes [] loose moved k (l.foldl (fun k t => k.expire t) k) ∧
      (l.foldl (fun k t => k.expire t) k).next = k.next := by
  induction l generalizing k with
  | nil => exact ⟨goes_refl h, rfl⟩
  | cons t rest ih =>
      obtain ⟨ht, hrest⟩ := List.forall_mem_cons.mp hl
      obtain ⟨hexpire, hnext⟩ := goes_expire h ht
      obtain ⟨hfold, hnext'⟩ := ih hexpire.placed hrest
      exact ⟨hexpire.trans hfold, hnext'.trans hnext⟩

theorem expired_eq {ticks : ℕ} (hd : k.delays.apply d = k.delays.elapse ticks) :
    k.expired d = (due (k.delays.now + ticks) k.delays.delayed).map Prod.fst := by
  rw [expired, hd, Delays.elapse, List.drop_left]

theorem goes_elapse {ticks : ℕ} (h : Placed [] loose k.toSched) (hd : k.delays.apply d = k.delays.elapse ticks)
    (hallowed : k.delays.Allowed d) :
    Goes [] loose (k.expired d) k (k.elapse d) ∧ (k.elapse d).next = k.next := by
  have hplaced := h.elapse hd hallowed
  have htime : Goes (k.expired d) loose (k.expired d) k (k.setSched (k.delay d)) := by
    refine goes_setSched (expired_eq hd ▸ hplaced) ⟨fun _ _ => .inl rfl, fun u _ _ hmem => ?_⟩ .refl Iff.rfl
    change u ∈ (k.delays.apply d).waiting
    rwa [hd]
  obtain ⟨hfold, hnext⟩ := goes_foldl_expire htime.placed fun _ hu => hu
  exact ⟨htime.trans hfold, hnext⟩

end Kernel

end Best1307.Rtx
