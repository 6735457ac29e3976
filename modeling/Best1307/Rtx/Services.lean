import Best1307.Rtx.Scheduler

/-!
# The service calls

Between two calls the thread that runs is the one in `next`, no thread is on its way, and one that waits for the end of
another is blocked for ever, with nothing else to wake it up. Each service call, each tick and each wake-up by a handler
leads from such a state to another one.
-/

namespace Best1307.Rtx

open DeltaQueue PriorityQueue

theorem ThreadState.isLive_of_mayRun {state : ThreadState} (h : state.mayRun) : state.isLive := by
  cases state with
  | inactive => cases h
  | terminated => cases h
  | _ => rfl

theorem ThreadState.of_isPosted {state : ThreadState} (h : state.isPosted) :
    ∃ w, state = .blocked w ∧ state.mayRun := by
  cases state with
  | blocked w => exact ⟨w, rfl, by cases w <;> first | rfl | cases h⟩
  | _ => cases h

theorem ne_ready_of_isPosted {o : ObjectId} (h : o.isPosted) : o ≠ .ready := by
  rintro rfl
  cases h

theorem Wait.isLinked_of_waitsFor {w : Wait} {o : ObjectId} (h : w.waitsFor o) : w.isLinked := by
  cases w <;> first | rfl | cases h

namespace Kernel

open Sched

variable {k k' k'' : Kernel} {t u r : ThreadId} {o : ObjectId} {m : ℕ} {d : DelayEvent}
  {adrift loose moved : List ThreadId} {p : Int} {w : Wait} {timeout ret ticks : ℕ}

/-- A thread that lives is joined by another, which waits for its end. -/
def Joined (k : Kernel) (u t : ThreadId) : Prop := (k.state u).isLive ∧ k.threadJoin u = some t

/-- The kernel between two calls -/
structure Idle (k : Kernel) : Prop where
  placed : Placed [] [] k.toSched
  curr : k.curr = k.next
  started : k.next = none ↔ k.kernel = .ready
  joining : ∀ u t, k.Joined u t → k.state t = .blocked .join ∧ t ∈ k.delays.waiting
  single : ∀ u u' t, k.Joined u t → k.Joined u' t → u = u'

/-- While the kernel runs, the thread that does has at least the priority of every ready one. -/
def Attentive (k : Kernel) : Prop := k.kernel = .running → k.Prompt

structure Serves (k k' : Kernel) : Prop where
  idle : k'.contextSwitch.Idle
  attentive : k.Attentive → k'.Attentive

/-- A call that lets no thread come to life or wait for a mutex -/
structure Stays (k k' : Kernel) : Prop extends Serves k k' where
  live : ∀ u, (k'.state u).isLive → (k.state u).isLive
  held : ∀ u m, k'.root u = some (.mutex m) → k.root u = some (.mutex m)

theorem init_idle {robinTimeout : ℕ} : (init robinTimeout).Idle where
  placed := ⟨init_sound, List.nodup_nil, fun _ ht => absurd ht List.not_mem_nil, fun _ _ => iff_of_false nofun nofun,
    fun _ _ => iff_of_false nofun nofun, fun _ _ => iff_of_false nofun List.not_mem_nil, nofun, nofun⟩
  curr := rfl
  started := iff_of_true rfl rfl
  joining _ _ h := nomatch h.1
  single _ _ _ h := nomatch h.1

/-! ### From one idle state to another -/

theorem Reaches.live (hreaches : Reaches adrift loose moved k k') (hu : u ∉ moved ∨ (k.state u).isLive)
    (hlive : (k'.state u).isLive) : (k.state u).isLive := by
  rcases hu with hu | hu
  · rcases hreaches.alike.state u hu with hsame | hrun
    · exact hsame ▸ hlive
    · exact ThreadState.isLive_of_mayRun hrun.1
  · exact hu

theorem Reaches.joined (hreaches : Reaches adrift loose moved k k')
    (hlive : ∀ u ∈ moved, ∀ t, k'.Joined u t → (k.state u).isLive) (hjoined : k'.Joined u t) : k.Joined u t := by
  refine ⟨hreaches.live ?_ hjoined.1, hreaches.threadJoin ▸ hjoined.2⟩
  by_cases hu : u ∈ moved
  · exact .inr (hlive u hu t hjoined)
  · exact .inl hu

/-- Of the threads that have moved, none that lives came to life with another waiting for its end, and one that waits
for the end of another still does. -/
theorem Idle.reaches (h : k.Idle) (hreaches : Reaches [] [] moved k k')
    (hlive : ∀ u ∈ moved, ∀ t, k'.Joined u t → (k.state u).isLive)
    (hjoin : ∀ t ∈ moved, ∀ u, k.Joined u t → k'.Joined u t → k'.state t = .blocked .join ∧ t ∈ k'.delays.waiting) :
    k'.contextSwitch.Idle := by
  have hback : ∀ {u t}, k'.Joined u t → k.Joined u t := fun hjoined => hreaches.joined hlive hjoined
  refine ⟨hreaches.placed, rfl, ?_, fun u t (hjoined : k'.Joined u t) => ?_,
    fun u u' t (hu : k'.Joined u t) (hu' : k'.Joined u' t) => h.single u u' t (hback hu) (hback hu')⟩
  · exact hreaches.next.trans (h.started.trans (hreaches.kernel ▸ Iff.rfl))
  · obtain ⟨hstate, hwaiting⟩ := h.joining u t (hback hjoined)
    by_cases ht : t ∈ moved
    · exact hjoin t ht u (hback hjoined) hjoined
    · have hparked : (k.state t).isParked := hstate ▸ rfl
      exact ⟨(hreaches.alike.parked ht hparked).trans hstate, hreaches.alike.waiting t ht hparked hwaiting⟩

/-- Nothing but threads that live, and wait for the end of none, have moved. -/
theorem Idle.serve (h : k.Idle) (hgoes : Reaches [] [] moved k k')
    (hmoved : ∀ u ∈ moved, (k.state u).isLive ∧ (k.state u ≠ .blocked .join ∨ u ∉ k.delays.waiting)) :
    k'.contextSwitch.Idle :=
  h.reaches hgoes (fun u hu _ _ => (hmoved u hu).1) fun t ht u hjoined _ => by
    obtain ⟨hstate, hwaiting⟩ := h.joining u t hjoined
    exact absurd hwaiting ((hmoved t ht).2.resolve_left fun hne => hne hstate)

theorem Idle.running (h : k.Idle) (hr : k.curr = some r) : k.next = some r ∧ k.state r = .running := by
  have hnext := h.curr.symm.trans hr
  exact ⟨hnext, (h.placed.running r List.not_mem_nil).mpr hnext⟩

theorem Idle.stays (h : k.Idle) (hgoes : Goes [] [] moved k k') (hattentive : k.Attentive → k'.Attentive)
    (hmoved : ∀ u ∈ moved, (k.state u).isLive ∧ (k.state u ≠ .blocked .join ∨ u ∉ k.delays.waiting)) :
    Stays k k' where
  idle := h.serve hgoes.toReaches hmoved
  attentive := hattentive
  live u := hgoes.live (by
    by_cases hu : u ∈ moved
    · exact .inr (hmoved u hu).1
    · exact .inl hu)
  held u m := hgoes.held u (.mutex m) nofun

theorem Idle.stays_nil (h : k.Idle) (hgoes : Goes [] [] [] k k') (hattentive : k.Attentive → k'.Attentive) :
    Stays k k' := h.stays hgoes hattentive fun _ hu => absurd hu List.not_mem_nil

theorem Idle.stays_one (h : k.Idle) (hlive : (k.state t).isLive) (hjoin : k.state t ≠ .blocked .join)
    (hgoes : Goes [] [] [t] k k') (hattentive : k.Attentive → k'.Attentive) : Stays k k' :=
  h.stays hgoes hattentive fun u hu => by
    obtain rfl := List.mem_singleton.mp hu
    exact ⟨hlive, .inl hjoin⟩

theorem Idle.stays_running (h : k.Idle) (hr : k.curr = some r) (hgoes : Goes [] [] [r] k k')
    (hattentive : k.Attentive → k'.Attentive) : Stays k k' := by
  obtain ⟨-, hstate⟩ := h.running hr
  exact h.stays_one (hstate ▸ rfl) (hstate ▸ nofun) hgoes hattentive

theorem Idle.switch (h : k.Idle) : k.contextSwitch.Idle := ⟨h.placed, rfl, h.started, h.joining, h.single⟩

theorem Idle.refl (h : k.Idle) : Stays k k := ⟨⟨h.switch, id⟩, fun _ => id, fun _ _ => id⟩

theorem Idle.svc {v : ℕ × Kernel} (h : v.2.contextSwitch.Idle) : (svc v).Idle :=
  ⟨h.placed, rfl, h.started, h.joining, h.single⟩

theorem goes_then_dispatch (hcurr : k.curr = k.next) (hgoes : Goes adrift loose moved k k')
    (hnext : k'.next = k.next) :
    Goes adrift loose moved k (k'.osRtxThreadDispatch none) ∧ (k'.osRtxThreadDispatch none).Attentive := by
  obtain ⟨hdispatch, hprompt⟩ : Goes adrift loose moved k' (k'.osRtxThreadDispatch none) ∧ _ :=
    goes_dispatch_none hgoes.placed (hgoes.curr.trans (hcurr.trans hnext.symm))
  exact ⟨hgoes.trans hdispatch, fun hkernel => hprompt (hdispatch.kernel ▸ hkernel)⟩

/-- Before the start no thread runs, and the kernel does not either. -/
theorem Idle.attentive_of_none (h : k.Idle) (hcurr : k.curr = none) : k.Attentive := fun hkernel =>
  nomatch hkernel.symm.trans (h.started.mp (h.curr.symm.trans hcurr))

theorem Idle.attentive_of_waitEnter (h : k.Idle) (henter : k.osRtxThreadWaitEnter w timeout = none) : k.Attentive :=
  fun hkernel => prompt_of_waitEnter h.placed.toSound h.curr henter hkernel

theorem Idle.wait (h : k.Idle) (hpos : timeout ≠ 0) (hword : timeout < 2 ^ 32) (hw : w.isLinked = false) :
    Stays k ((k.osRtxThreadWaitEnter w timeout).getD k) ∧ ((k.osRtxThreadWaitEnter w timeout).getD k).Attentive := by
  cases henter : k.osRtxThreadWaitEnter w timeout with
  | none => exact ⟨h.refl, h.attentive_of_waitEnter henter⟩
  | some k' =>
      cases hr : k.curr with
      | none =>
          rw [osRtxThreadWaitEnter, hr] at henter
          cases hfirst : k.first .ready <;> rw [hfirst] at henter <;> cases henter
      | some r =>
          obtain ⟨hgoes, hprompt, -⟩ : Goes [] [] [r] k k' ∧ _ ∧ _ := goes_waitEnter h.placed h.curr hpos hword henter
            hr List.mem_cons_self (fun _ hu => hu) fun hlink => Bool.noConfusion (hw.symm.trans hlink)
          exact ⟨h.stays_running hr hgoes fun _ _ => hprompt, fun _ => hprompt⟩

theorem Idle.waitAt (h : k.Idle) (hpos : timeout ≠ 0) (hword : timeout < 2 ^ 32) (ho : o ≠ .ready)
    (hwaits : w.waitsFor o) :
    Serves k ((k.waitAt o w timeout).getD k) ∧ ((k.waitAt o w timeout).getD k).Attentive ∧
      (∀ u, (((k.waitAt o w timeout).getD k).state u).isLive → (k.state u).isLive) ∧
      ∀ u o', o' ≠ .ready → ((k.waitAt o w timeout).getD k).root u = some o' →
        k.root u = some o' ∨ o' = o ∧ k.curr = some u := by
  have hstay : k.Attentive → Serves k k ∧ k.Attentive ∧ (∀ u, (k.state u).isLive → (k.state u).isLive) ∧
      ∀ u o', o' ≠ .ready → k.root u = some o' → k.root u = some o' ∨ o' = o ∧ k.curr = some u :=
    fun hattentive => ⟨h.refl.toServes, hattentive, fun _ => id, fun _ _ _ => .inl⟩
  cases hat : k.waitAt o w timeout with
  | none =>
      cases hr : k.curr with
      | none => exact hr ▸ hstay (h.attentive_of_none hr)
      | some r =>
          rw [Kernel.waitAt, hr] at hat
          exact hr ▸ hstay (h.attentive_of_waitEnter (Option.map_eq_none_iff.mp hat))
  | some k' =>
      cases hr : k.curr with
      | none =>
          rw [Kernel.waitAt, hr] at hat
          cases hat
      | some r =>
          obtain ⟨hreaches, hprompt, hself, hother⟩ := reaches_waitAt h.placed h.curr hpos hword ho hwaits hr hat
            (List.mem_singleton_self r)
          have hstate := (h.running hr).2
          refine ⟨⟨h.serve hreaches fun u hu => ?_, fun _ _ => hprompt⟩, fun _ => hprompt, fun u => hreaches.live ?_,
            fun u o' ho' hroot => ?_⟩
          · obtain rfl := List.mem_singleton.mp hu
            rw [hstate]
            exact ⟨rfl, .inl fun heq => ThreadState.noConfusion heq⟩
          · by_cases hu : u = r
            · exact .inr (hu ▸ hstate ▸ rfl)
            · exact .inl fun hmem => hu (List.mem_singleton.mp hmem)
          · by_cases hu : u = r
            · exact .inr ⟨Option.some.inj (hroot.symm.trans (hu ▸ hself)), hu ▸ rfl⟩
            · exact .inl (hother u o' ho' hu hroot)

/-! ### Calls on mutexes -/

theorem Idle.mutexes (h : k.Idle) (mutex : ℕ → Mutex) (owned : ThreadId → List ℕ) :
    Stays k { k with mutex := mutex, owned := owned } := h.stays_nil (goes_mutexes h.placed _ _) id

theorem Idle.goes_nil (h : k.Idle) (hgoes : Goes [] [] [] k k') (hnext : k'.next = k.next) : k'.Idle := by
  have hidle := h.serve hgoes.toReaches fun _ hu => absurd hu List.not_mem_nil
  exact ⟨hidle.placed, hgoes.curr.trans (h.curr.trans hnext.symm), hidle.started, hidle.joining, hidle.single⟩

theorem Idle.svcRtxMutexAcquire (h : k.Idle) (hword : timeout < 2 ^ 32) :
    Serves k (k.svcRtxMutexAcquire m timeout).2 := by
  rw [Kernel.svcRtxMutexAcquire]
  cases hr : k.curr with
  | none => exact h.refl.toServes
  | some thread =>
      dsimp only
      split
      · exact h.refl.toServes
      split
      · exact (h.mutexes _ _).toServes
      split
      · split
        · exact h.refl.toServes
        · exact (h.mutexes _ _).toServes
      split
      · exact h.refl.toServes
      case _ htimeout =>
        -- the owner inherits the priority before the thread waits
        split
        · have hraised := h.goes_nil (goes_setPriority (t := (k.mutex m).owner) (p := k.priority thread) h.placed) rfl
          obtain ⟨hserves, hattentive, -⟩ := hraised.waitAt htimeout hword (o := .mutex m) (w := .mutex) nofun rfl
          exact ⟨hserves.idle, fun _ => hattentive⟩
        · exact (h.waitAt htimeout hword (o := .mutex m) (w := .mutex) nofun rfl).1

theorem Idle.svcRtxMutexRelease (h : k.Idle) : Stays k (k.svcRtxMutexRelease m).2 := by
  rw [Kernel.svcRtxMutexRelease]
  cases hr : k.curr with
  | none => exact h.refl
  | some thread =>
      dsimp only
      split
      · exact h.refl
      split
      · exact h.refl
      split
      · exact h.refl
      split
      · exact h.mutexes _ _
      · have hlock : Goes [] [] [] k (k.setMutex m { k.mutex m with lock := (k.mutex m).lock - 1 }) :=
          goes_mutexes h.placed _ _
        obtain ⟨hgive, hnext⟩ := goes_giveUp (t := thread) (m := m) hlock.placed
        obtain ⟨hover, hnext'⟩ := goes_handOver (m := m) hgive.placed fun _ hu => absurd hu List.not_mem_nil
        obtain ⟨hgoes, hattentive⟩ := goes_then_dispatch h.curr (hlock.trans (hgive.trans hover)) (hnext'.trans hnext)
        exact h.stays_nil hgoes fun _ => hattentive

theorem Idle.svcRtxMutexDelete (h : k.Idle) : Stays k (k.svcRtxMutexDelete m).2 := by
  rw [Kernel.svcRtxMutexDelete]
  split
  · exact h.refl
  split
  · exact h.mutexes _ _
  · dsimp only
    obtain ⟨hgive, hnext⟩ := goes_giveUp (t := (k.mutex m).owner) (m := m) h.placed
    obtain ⟨hwake, hnext'⟩ := goes_wakeAll (o := .mutex m) hgive.placed (fun _ hu => absurd hu List.not_mem_nil) nofun
    obtain ⟨hgoes, hattentive⟩ := goes_then_dispatch h.curr (hgive.trans hwake) (hnext'.trans hnext)
    exact h.stays_nil (hgoes.trans (goes_mutexes hgoes.placed _ _)) fun _ => hattentive

/-! ### Calls on threads -/

theorem prompt_setPriority {s : Sched} (h : s.Prompt) (hready : s.root t ≠ some .ready) (hnext : s.next ≠ some t) :
    (s.list (.setPriority t p)).Prompt := fun r hr u hu => by
  have hut : u ≠ t := fun heq => hready (heq ▸ hu)
  have hrt : r ≠ t := fun heq => hnext (heq ▸ hr)
  change Function.update s.queues.priority t p u ≤ Function.update s.queues.priority t p r
  rw [Function.update_of_ne hut, Function.update_of_ne hrt]
  exact h r hr u hu

theorem prompt_remove {s : Sched} (h : s.Prompt) : (s.list (.remove t)).Prompt := fun r hr u hu => by
  change Function.update s.root t none u = _ at hu
  by_cases hut : u = t
  · rw [hut, Function.update_self] at hu
    cases hu
  · rw [Function.update_of_ne hut] at hu
    exact h r hr u hu

theorem goes_new (h : Placed [] [] k.toSched) (hcurr : k.curr = k.next) (ht : k.state t = .inactive) :
    Goes [] [] [t] k ((k.setSched ((k.setState t .ready).list (.setPriority t p))).osRtxThreadDispatch (some t)) ∧
      (k.kernel = .running → k.Prompt →
        ((k.setSched ((k.setState t .ready).list (.setPriority t p))).osRtxThreadDispatch (some t)).Prompt) := by
  obtain ⟨hplaced, hroot⟩ := h.revive List.not_mem_nil (.inl ht)
  have hnew : Goes [t] [] [t] k (k.setSched ((k.setState t .ready).list (.setPriority t p))) :=
    goes_setSched hplaced.setPriority ((alike_setState_moved List.mem_cons_self).trans alike_list) .refl Iff.rfl
  obtain ⟨hdispatch, hprompt, -⟩ := goes_dispatch_some hnew.placed hroot (.inl List.mem_cons_self) hcurr
  refine ⟨hnew.trans hdispatch, fun hkernel hbefore => hprompt hkernel (prompt_setPriority hbefore ?_ ?_)⟩
  · exact fun heq => nomatch hroot.symm.trans heq
  · exact (hplaced.absent t List.mem_cons_self).2.1

theorem Idle.svcRtxThreadNew {joinable : Bool} (h : k.Idle) (ht : k.state t = .inactive) :
    Serves k (k.svcRtxThreadNew t p joinable) := by
  rw [Kernel.svcRtxThreadNew]
  split
  · exact h.refl.toServes
  · let j : Kernel := { k with
      priorityBase := Function.update k.priorityBase t p
      joinable := Function.update k.joinable t joinable
      threadJoin := Function.update k.threadJoin t none
      owned := Function.update k.owned t [] }
    have hjoin : j.threadJoin t = none := Function.update_self t none k.threadJoin
    have hback : ∀ u t', j.Joined u t' → k.Joined u t' := fun u t' hu => by
      have hut : u ≠ t := by
        rintro rfl
        exact nomatch hjoin.symm.trans hu.2
      exact ⟨hu.1, (Function.update_of_ne hut none k.threadJoin).symm.trans hu.2⟩
    have hj : j.Idle := ⟨h.placed, h.curr, h.started, fun u t' hu => h.joining u t' (hback u t' hu),
      fun u u' t' hu hu' => h.single u u' t' (hback u t' hu) (hback u' t' hu')⟩
    obtain ⟨hgoes, hprompt⟩ := goes_new (k := j) (p := p) h.placed h.curr ht
    refine ⟨hj.reaches hgoes.toReaches (fun u hu t' hjoined => ?_) (fun t' ht' u hu _ => ?_),
      fun hattentive hkernel => hprompt (hgoes.kernel ▸ hkernel) (hattentive (hgoes.kernel ▸ hkernel))⟩
    · obtain rfl := List.mem_singleton.mp hu
      have hsame := congrFun hgoes.threadJoin u
      exact absurd (hjoin.symm.trans (hsame.symm.trans hjoined.2)) nofun
    · obtain rfl := List.mem_singleton.mp ht'
      exact absurd ((h.joining u _ (hback u _ hu)).1.symm.trans ht) nofun

theorem Idle.svcRtxThreadSetPriority (h : k.Idle) : Stays k (k.svcRtxThreadSetPriority t p).2 := by
  rw [Kernel.svcRtxThreadSetPriority]
  split
  · exact h.refl
  split
  · exact h.refl
  split
  · exact h.refl
  · let j : Kernel := { k with priorityBase := Function.update k.priorityBase t p }
    have hj : j.Idle := ⟨h.placed, h.curr, h.started, h.joining, h.single⟩
    have hset : Goes [] [] [] j (j.setSched (j.list (.setPriority t p))) := goes_setPriority h.placed
    obtain ⟨hgoes, hattentive⟩ := goes_then_dispatch hj.curr hset rfl
    have hstays := hj.stays_nil hgoes fun _ => hattentive
    exact ⟨⟨hstays.idle, hstays.attentive⟩, hstays.live, hstays.held⟩

/-- The first ready thread is an equal of the running one, and they change places. -/
theorem goes_rotate (h : Placed adrift loose k.toSched) (hfirst : k.first .ready = some t) (hnext : k.next = some r)
    (hequal : k.priority t = k.priority r) :
    Goes adrift loose moved k (k.rotate r t) ∧ (k.rotate r t).Prompt := by
  have hready := h.toSound.first_root hfirst
  obtain ⟨hplaced, hroot⟩ := h.removeReady hready
  have hrun : (k.state t).mayRun := by
    rw [(h.ready t (h.not_adrift_of_ready hready)).mpr hready]
    rfl
  have hremove : Goes (t :: adrift) loose moved k (k.setSched (k.list (.remove t))) := goes_list h hplaced trivial nofun
  refine ⟨hremove.trans (goes_preempt hplaced hroot (.inr hrun) hnext (.inl rfl)),
    prompt_preempt (k := k.setSched (k.list (.remove t))) (.inl rfl) (Int.le_of_eq hequal.symm)
      fun u hu => h.toSound.priority_le_first hfirst ?_⟩
  change Function.update k.root t none u = _ at hu
  by_cases hut : u = t
  · subst hut
    exact hready
  · rwa [Function.update_of_ne hut] at hu

theorem Idle.svcRtxThreadYield (h : k.Idle) : Stays k k.svcRtxThreadYield.2 := by
  rw [Kernel.svcRtxThreadYield]
  cases hfirst : k.first .ready with
  | none => exact h.refl
  | some ready =>
      cases hr : k.curr with
      | none => exact h.refl
      | some running =>
          dsimp only
          split
          case isTrue hequal =>
            obtain ⟨hgoes, hprompt⟩ := goes_rotate h.placed hfirst (h.running hr).1 hequal.2
            exact h.stays_nil hgoes fun _ _ => hprompt
          case isFalse => exact h.refl

/-- The first ready thread is switched to, and the one that ran is adrift. -/
theorem goes_switchToFirst (h : Placed adrift loose k.toSched) (hnext : k.next = some r) (hmust : k.mustRun = false) :
    Goes (r :: adrift) loose moved k k.switchToFirst ∧ k.switchToFirst.root r = none ∧ k.switchToFirst.Prompt ∧
      k.switchToFirst.state r = k.state r := by
  rw [switchToFirst]
  cases hfirst : k.first .ready with
  | none =>
      rw [mustRun, hfirst] at hmust
      exact absurd (.inr rfl) (of_decide_eq_false hmust)
  | some t =>
      obtain ⟨hne, hplaced, hroot, hprompt, halike, hheld⟩ := h.getFirst hfirst hnext
      exact ⟨goes_setSched hplaced (halike.mono fun _ hu => absurd hu List.not_mem_nil) hheld
        (iff_of_false nofun (hnext ▸ nofun)), hroot, hprompt, setState_of_ne hne⟩

theorem goes_suspend (h : Placed (t :: adrift) loose k.toSched) (hroot : k.root t = none) (ht : t ∈ moved) :
    Goes adrift loose moved k
      (k.setSched ((k.setState t (.blocked .suspended)).delay (.insert t osWaitForever))) :=
  goes_setSched (h.delayInsert hroot (by decide) (by decide) (fun _ hu _ => hu) nofun)
    ((alike_setState_moved ht).trans alike_insert) .refl Iff.rfl

theorem goes_leaveBlocked (h : Placed adrift loose k.toSched) (ht : t ∉ adrift) (hstate : k.state t = .blocked w)
    (hmoved : t ∈ moved) :
    Goes (t :: adrift) loose moved k (k.setSched ((k.list (.remove t)).delay (.remove t))) ∧
      ((k.list (.remove t)).delay (.remove t)).root t = none := by
  obtain ⟨hplaced, hroot⟩ := h.leaveBlocked ht hstate
  exact ⟨goes_setSched hplaced (alike_list.trans (alike_remove (.inl hmoved)))
    (held_list (e := .remove t) h.toSound trivial nofun) Iff.rfl, hroot⟩

theorem Idle.svcRtxThreadSuspend (h : k.Idle) (hjoin : k.state t ≠ .blocked .join) :
    Stays k (k.svcRtxThreadSuspend t).2 := by
  rw [Kernel.svcRtxThreadSuspend]
  cases hstate : k.state t with
  | inactive => exact h.refl
  | terminated => exact h.refl
  | running =>
      have hnext := (h.placed.running t List.not_mem_nil).mp hstate
      dsimp only
      split
      · exact h.refl
      case isFalse hmust =>
        obtain ⟨hgoes, hroot, hprompt, -⟩ : Goes [t] [] [t] k k.switchToFirst ∧ _ ∧ _ ∧ _ :=
          goes_switchToFirst h.placed hnext (Bool.eq_false_of_not_eq_true hmust)
        exact h.stays_one (hstate ▸ rfl) hjoin
          (hgoes.trans (goes_suspend hgoes.placed hroot (List.mem_singleton_self t))) fun _ _ => hprompt
  | ready =>
      obtain ⟨hplaced, hroot⟩ := h.placed.removeReady ((h.placed.ready t List.not_mem_nil).mp hstate)
      have hremove : Goes [t] [] [t] k (k.setSched (k.list (.remove t))) := goes_list h.placed hplaced trivial nofun
      exact h.stays_one (hstate ▸ rfl) hjoin
        (hremove.trans (goes_suspend hplaced hroot (List.mem_singleton_self t)))
        fun hattentive hkernel => prompt_remove (hattentive hkernel)
  | blocked w =>
      obtain ⟨hleave, hroot⟩ := goes_leaveBlocked h.placed List.not_mem_nil hstate (List.mem_singleton_self t)
      exact h.stays_one (hstate ▸ rfl) hjoin
        (hleave.trans (goes_suspend hleave.placed hroot (List.mem_singleton_self t)))
        fun hattentive hkernel => prompt_remove (hattentive hkernel)

theorem Idle.svcRtxThreadResume (h : k.Idle) (hjoin : k.state t ≠ .blocked .join) :
    Stays k (k.svcRtxThreadResume t).2 := by
  rw [Kernel.svcRtxThreadResume]
  cases hstate : k.state t with
  | blocked w =>
      obtain ⟨hleave, hroot⟩ := goes_leaveBlocked h.placed List.not_mem_nil hstate (List.mem_singleton_self t)
      obtain ⟨hdispatch, hprompt, -⟩ := goes_dispatch_some hleave.placed hroot (.inl (List.mem_singleton_self t)) h.curr
      exact h.stays_one (hstate ▸ rfl) hjoin (hleave.trans hdispatch) fun hattentive hkernel =>
        hprompt (hdispatch.kernel ▸ hkernel) (prompt_remove (hattentive (hdispatch.kernel ▸ hkernel)))
  | _ => exact h.refl

theorem Idle.free (h : k.Idle) (ht : k.state t = .terminated) : Stays k (k.setSched (k.setState t .inactive)) := by
  obtain ⟨hplaced, hroot⟩ := h.placed.revive List.not_mem_nil (.inr ht)
  have hfree : (k.setState t .ready).setState t .inactive = k.setState t .inactive :=
    congrArg (Sched.mk k.queues k.delays k.calls k.delayCalls k.root · k.next) (Function.update_idem _ _ _)
  have hgoes : Goes [] [] [t] k (k.setSched (k.setState t .inactive)) :=
    goes_setSched (hfree ▸ hplaced.bury hroot (.inl rfl)) (alike_setState_moved (List.mem_singleton_self t)) .refl
      Iff.rfl
  have hdead : ((k.setState t .inactive).state t).isLive = false := congrArg ThreadState.isLive setState_self
  refine ⟨⟨h.reaches hgoes.toReaches (fun u hu t' hjoined => ?_) (fun t' ht' u hu _ => ?_),
    fun hattentive hkernel => hattentive hkernel⟩, fun u hlive => hgoes.live (.inl fun hu => ?_) hlive, fun _ _ => id⟩
  · obtain rfl := List.mem_singleton.mp hu
    exact Bool.noConfusion (hdead.symm.trans hjoined.1)
  · obtain rfl := List.mem_singleton.mp ht'
    exact absurd ((h.joining u _ hu).1.symm.trans ht) nofun
  · obtain rfl := List.mem_singleton.mp hu
    exact Bool.noConfusion (hdead.symm.trans hlive)

theorem Idle.svcRtxThreadDetach (h : k.Idle) : Stays k (k.svcRtxThreadDetach t).2 := by
  rw [Kernel.svcRtxThreadDetach]
  split
  · exact h.refl
  split
  · exact h.refl
  split
  case isTrue ht => exact h.free ht
  case isFalse => exact ⟨⟨⟨h.placed, rfl, h.started, h.joining, h.single⟩, id⟩, fun _ => id, fun _ _ => id⟩

theorem Idle.join (h : k.Idle) (henter : k.osRtxThreadWaitEnter .join osWaitForever = some k')
    {joinable : ThreadId → Bool} :
    Stays k { k' with threadJoin := Function.update k'.threadJoin t k'.curr, joinable := joinable } := by
  cases hr : k.curr with
  | none =>
      rw [osRtxThreadWaitEnter, hr] at henter
      cases hfirst : k.first .ready <;> rw [hfirst] at henter <;> cases henter
  | some r =>
      obtain ⟨hgoes, hprompt, hstate, -, hdelays⟩ : Goes [] [] [r] k k' ∧ _ ∧ _ := goes_waitEnter h.placed h.curr
        (by decide) (by decide) henter hr List.mem_cons_self (fun _ hu => hu) fun hlink => Bool.noConfusion hlink
      have hstays := h.stays_running hr hgoes fun _ _ => hprompt
      have hidle := hstays.idle
      have hcurr : k'.curr = some r := hgoes.curr.trans hr
      have hrunning := (h.running hr).2
      have hwaiting : r ∈ k'.delays.waiting := by
        rw [hdelays, Delays.insert, if_pos rfl]
        exact List.mem_append_right _ (List.mem_singleton_self r)
      -- no other thread that lives has the running one waiting for its end
      have hnone : ∀ u, ¬ k'.Joined u r := fun u hu => by
        have hback : k.Joined u r := hgoes.joined (fun v hv _ _ => by
          obtain rfl := List.mem_singleton.mp hv
          exact hrunning ▸ rfl) hu
        exact ThreadState.noConfusion (hrunning.symm.trans (h.joining u r hback).1)
      have hback : ∀ {u t'}, Joined { k' with
          threadJoin := Function.update k'.threadJoin t k'.curr, joinable := joinable } u t' →
          u = t ∧ t' = r ∨ u ≠ t ∧ k'.Joined u t' := fun {u t'} hu => by
        have hjoin : Function.update k'.threadJoin t k'.curr u = some t' := hu.2
        by_cases hut : u = t
        · subst hut
          rw [Function.update_self, hcurr] at hjoin
          exact .inl ⟨rfl, (Option.some.inj hjoin).symm⟩
        · rw [Function.update_of_ne hut] at hjoin
          exact .inr ⟨hut, hu.1, hjoin⟩
      refine ⟨⟨⟨hidle.placed, rfl, hidle.started, fun u t' hu => ?_, fun u u' t' hu hu' => ?_⟩, fun _ _ => hprompt⟩,
        hstays.live, hstays.held⟩
      · rcases hback hu with ⟨-, rfl⟩ | ⟨-, hu⟩
        · exact ⟨hstate, hwaiting⟩
        · exact hidle.joining u t' hu
      · rcases hback hu with ⟨hut, htr⟩ | ⟨-, hother⟩ <;> rcases hback hu' with ⟨hut', htr'⟩ | ⟨-, hother'⟩
        · exact hut.trans hut'.symm
        · exact absurd (htr ▸ hother') (hnone u')
        · exact absurd (htr' ▸ hother) (hnone u)
        · exact hidle.single u u' t' hother hother'

theorem Idle.svcRtxThreadJoin (h : k.Idle) : Stays k (k.svcRtxThreadJoin t).2 := by
  rw [Kernel.svcRtxThreadJoin]
  split
  · exact h.refl
  · exact h.refl
  case _ hstate =>
    split
    · exact h.free hstate
    · exact h.refl
  · split
    · exact h.refl
    split
    · exact h.refl
    case _ henter => exact h.join henter

/-! ### The end of a thread -/

theorem unlinked_of_blocked {s : Sched} (h : Placed adrift loose s) (ht : t ∉ adrift) (hstate : s.state t = .blocked w)
    (hw : w.isLinked = false) : s.root t = none := by
  cases hroot : s.root t with
  | none => rfl
  | some o =>
      by_cases ho : o = .ready
      · subst ho
        exact ThreadState.noConfusion (hstate.symm.trans ((h.ready t ht).mpr hroot))
      · obtain ⟨w', hw', hwaits⟩ := h.waits t o hroot ho
        rw [hstate, ThreadState.blocked.injEq] at hw'
        exact Bool.noConfusion (hw.symm.trans (hw' ▸ Wait.isLinked_of_waitsFor hwaits))

/-- The thread that waits for the end of this one is woken up. -/
theorem goes_leave (h : Placed adrift [] k.toSched) (hfree : ∀ u ∈ adrift, k.root u = none)
    (hjoin : ∀ u, k.threadJoin t = some u → u ∉ adrift ∧ u ∈ moved ∧ k.state u = .blocked .join) :
    Goes adrift [] moved k (k.leave t) ∧ (k.leave t).next = k.next := by
  obtain ⟨hrelease, hnext⟩ : Goes adrift [] [] k (k.osRtxMutexOwnerRelease (k.owned t)) ∧ _ :=
    goes_ownerRelease h hfree
  have hrelease' : Goes adrift [] moved k _ := hrelease.mono fun _ hu => absurd hu List.not_mem_nil
  rw [leave, hrelease.threadJoin]
  cases hthread : k.threadJoin t with
  | none => exact ⟨hrelease', hnext⟩
  | some u =>
      obtain ⟨hu, hmoved, hstate⟩ := hjoin u hthread
      have hstate' := (hrelease.alike.parked List.not_mem_nil (hstate ▸ rfl)).trans hstate
      have hroot := unlinked_of_blocked hrelease.placed hu hstate' rfl
      obtain ⟨hexit, hnext'⟩ := goes_waitExit hrelease.placed.loosen hu hstate' hroot (.inl hmoved)
      exact ⟨hrelease'.trans hexit, hnext'.trans hnext⟩

theorem goes_bury (h : Placed (t :: adrift) loose k.toSched) (hroot : k.root t = none) (ht : t ∈ moved) :
    Goes adrift loose moved k (k.bury t) ∧ ((k.bury t).state t).isLive = false := by
  have hdead : (if k.joinable t then ThreadState.terminated else .inactive) = .inactive ∨
      (if k.joinable t then ThreadState.terminated else .inactive) = .terminated := by
    split
    · exact .inr rfl
    · exact .inl rfl
  refine ⟨goes_setSched (h.bury hroot hdead) (alike_setState_moved ht) .refl Iff.rfl, ?_⟩
  change ((k.setState t _).state t).isLive = false
  rw [setState_self]
  rcases hdead with heq | heq <;> rw [heq] <;> rfl

def ending (k : Kernel) (t : ThreadId) : List ThreadId := t :: (k.threadJoin t).toList

/-- A thread has ended, and the one that waited for its end goes on. -/
theorem Idle.ends (h : k.Idle) (hlive : (k.state t).isLive) (hjoin : k.state t ≠ .blocked .join)
    (hgoes : Goes [] [] (k.ending t) k k') (hattentive : k.Attentive → k'.Attentive)
    (hdead : (k'.state t).isLive = false) : Stays k k' := by
  have hdead' : ∀ u, ¬ k'.Joined t u := fun u hu => Bool.noConfusion (hdead.symm.trans hu.1)
  have hending : ∀ u ∈ k.ending t, (k.state u).isLive := fun u hu => by
    rcases List.mem_cons.mp hu with rfl | hu
    · exact hlive
    · rw [(h.joining t u ⟨hlive, Option.mem_toList.mp hu⟩).1]
      rfl
  refine ⟨⟨h.reaches hgoes.toReaches (fun u hu _ _ => hending u hu) (fun t' ht' u hu hu' => ?_), hattentive⟩,
    fun u => hgoes.live ?_, fun u m => hgoes.held u (.mutex m) nofun⟩
  · rcases List.mem_cons.mp ht' with rfl | ht'
    · exact absurd (h.joining u t' hu).1 hjoin
    · have hut := h.single u t t' hu ⟨hlive, Option.mem_toList.mp ht'⟩
      exact absurd (hut ▸ hu') (hdead' t')
  · by_cases hu : u ∈ k.ending t
    · exact .inr (hending u hu)
    · exact .inl hu

/-- What `goes_leave` asks of the thread that waits for the end of another -/
theorem Idle.joiner (h : k.Idle) (hlive : (k.state t).isLive) (hjoin : k.state t ≠ .blocked .join)
    (hthread : k.threadJoin t = some u) : u ∉ [t] ∧ u ∈ k.ending t ∧ k.state u = .blocked .join := by
  have hstate := (h.joining t u ⟨hlive, hthread⟩).1
  refine ⟨fun hmem => hjoin (List.mem_singleton.mp hmem ▸ hstate), ?_, hstate⟩
  exact List.mem_cons_of_mem t (Option.mem_toList.mpr hthread)

theorem Goes.first_ready (hgoes : Goes adrift loose moved k k') (h : Placed [] [] k.toSched) (hnext : k'.next = k.next)
    (hfirst : k.first .ready = some u) (hadrift : u ∉ adrift) (hmoved : u ∉ moved) : k'.first .ready ≠ none := by
  have hready := (h.ready u List.not_mem_nil).mpr (h.toSound.first_root hfirst)
  have hnot : k'.next ≠ some u := fun heq =>
    ThreadState.noConfusion (hready.symm.trans ((h.running u List.not_mem_nil).mpr (hnext ▸ heq)))
  have hstate : k'.state u = .ready := by
    rcases hgoes.alike.state u hmoved with hsame | ⟨-, hawake⟩
    · exact hsame.trans hready
    · cases hcase : k'.state u with
      | ready => rfl
      | running => exact absurd ((hgoes.placed.running u hadrift).mp hcase) hnot
      | _ => exact nomatch (congrArg ThreadState.isAwake hcase).symm.trans hawake
  intro hnone
  exact hgoes.placed.toSound.first_eq_none hnone ((hgoes.placed.ready u hadrift).mp hstate)

theorem Idle.endRunning (h : k.Idle) (hnext : k.next = some t) (hmust : k.mustRun = false) :
    Stays k (bury t { ((k.leave t).switchToFirst) with curr := none }) := by
  have hstate := (h.placed.running t List.not_mem_nil).mpr hnext
  have hlive : (k.state t).isLive := hstate ▸ rfl
  have hjoin : k.state t ≠ .blocked .join := hstate ▸ nofun
  obtain ⟨hleave, hnext'⟩ : Goes [] [] (k.ending t) k (k.leave t) ∧ _ :=
    goes_leave h.placed (fun _ hu => absurd hu List.not_mem_nil) fun u hu =>
      ⟨List.not_mem_nil, (h.joiner hlive hjoin hu).2⟩
  have hkernel : (k.leave t).mustRun = false := by
    obtain ⟨hrunning, hfirst⟩ := not_or.mp (of_decide_eq_false hmust)
    obtain ⟨u, hu⟩ := Option.ne_none_iff_exists'.mp hfirst
    have hready := (h.placed.ready u List.not_mem_nil).mpr (h.placed.toSound.first_root hu)
    refine decide_eq_false (not_or.mpr ⟨hleave.kernel ▸ hrunning,
      hleave.first_ready h.placed hnext' hu List.not_mem_nil fun hmem => ?_⟩)
    rcases List.mem_cons.mp hmem with rfl | hmem
    · exact ThreadState.noConfusion (hready.symm.trans hstate)
    · have hblocked := (h.joining t u ⟨hlive, Option.mem_toList.mp hmem⟩).1
      exact ThreadState.noConfusion (hready.symm.trans hblocked)
  obtain ⟨hfirst, hroot, hprompt, -⟩ : Goes [t] [] (k.ending t) _ (k.leave t).switchToFirst ∧ _ ∧ _ ∧ _ :=
    goes_switchToFirst hleave.placed (hnext'.trans hnext) hkernel
  obtain ⟨hbury, hdead⟩ : Goes [] [] (k.ending t) _ ((k.leave t).switchToFirst.bury t) ∧ _ :=
    goes_bury hfirst.placed hroot List.mem_cons_self
  have hends := h.ends hlive hjoin (hleave.trans (hfirst.trans hbury)) (fun _ _ => hprompt) hdead
  have hidle := hends.idle
  exact ⟨⟨⟨hidle.placed, rfl, hidle.started, hidle.joining, hidle.single⟩, fun _ _ => hprompt⟩, hends.live, hends.held⟩

theorem Idle.svcRtxThreadExit (h : k.Idle) : Stays k k.svcRtxThreadExit := by
  rw [Kernel.svcRtxThreadExit]
  cases hr : k.curr with
  | none => exact h.refl
  | some thread =>
      dsimp only
      split
      case isTrue => exact h.refl
      case isFalse hmust => exact h.endRunning (h.running hr).1 (Bool.eq_false_of_not_eq_true hmust)

theorem Idle.endAdrift (h : k.Idle) (hlive : (k.state t).isLive) (hjoin : k.state t ≠ .blocked .join)
    (hgoes : Goes [t] [] (k.ending t) k k') (hroot : k'.root t = none) (hnext : k'.next = k.next)
    (hstate : k'.state = k.state) : Stays k (((k'.leave t).osRtxThreadDispatch none).bury t) := by
  have hfree : ∀ u ∈ [t], k'.root u = none := fun u hu => List.mem_singleton.mp hu ▸ hroot
  obtain ⟨hleave, hnext'⟩ : Goes [t] [] (k.ending t) k' (k'.leave t) ∧ _ :=
    goes_leave hgoes.placed hfree fun u hu => by
      obtain ⟨hout, hmem, hjoining⟩ := h.joiner hlive hjoin (hgoes.threadJoin ▸ hu)
      exact ⟨hout, hmem, hstate ▸ hjoining⟩
  obtain ⟨hdispatch, hattentive⟩ := goes_then_dispatch (hgoes.curr.trans (h.curr.trans hnext.symm)) hleave hnext'
  obtain ⟨hbury, hdead⟩ : Goes [] [] (k.ending t) _ (((k'.leave t).osRtxThreadDispatch none).bury t) ∧ _ :=
    goes_bury hdispatch.placed (hdispatch.free hfree t (List.mem_singleton_self t)) List.mem_cons_self
  exact h.ends hlive hjoin (hgoes.trans (hdispatch.trans hbury)) (fun _ hkernel => hattentive hkernel) hdead

theorem Idle.svcRtxThreadTerminate (h : k.Idle) (hjoin : k.state t ≠ .blocked .join) :
    Stays k (k.svcRtxThreadTerminate t).2 := by
  rw [Kernel.svcRtxThreadTerminate]
  cases hstate : k.state t with
  | inactive => exact h.refl
  | terminated => exact h.refl
  | running =>
      dsimp only
      split
      case isTrue => exact h.refl
      case isFalse hmust =>
        exact h.endRunning ((h.placed.running t List.not_mem_nil).mp hstate) (Bool.eq_false_of_not_eq_true hmust)
  | ready =>
      obtain ⟨hplaced, hroot⟩ := h.placed.removeReady ((h.placed.ready t List.not_mem_nil).mp hstate)
      have hremove : Goes [t] [] (k.ending t) k (k.setSched (k.list (.remove t))) :=
        goes_list h.placed hplaced trivial nofun
      exact h.endAdrift (hstate ▸ rfl) hjoin hremove hroot rfl rfl
  | blocked w =>
      obtain ⟨hleave, hroot⟩ := goes_leaveBlocked h.placed List.not_mem_nil hstate List.mem_cons_self
      exact h.endAdrift (hstate ▸ rfl) hjoin hleave hroot rfl rfl

/-! ### Delays and ticks -/

theorem Idle.svcRtxDelay (h : k.Idle) (hword : ticks < 2 ^ 32) : Stays k (k.svcRtxDelay ticks).2 := by
  rw [Kernel.svcRtxDelay]
  split
  · exact h.refl
  case isFalse hpos =>
    exact (h.wait hpos hword rfl).1

theorem Idle.svcRtxDelayUntil (h : k.Idle) : Stays k (k.svcRtxDelayUntil ticks).2 := by
  rw [Kernel.svcRtxDelayUntil]
  split
  · exact h.refl
  case isFalse hbad =>
    obtain ⟨hpos, -⟩ := not_or.mp hbad
    exact (h.wait hpos (Nat.mod_lt _ (by decide)) rfl).1

theorem Idle.elapse (h : k.Idle) (hd : k.delays.apply d = k.delays.elapse ticks) (hallowed : k.delays.Allowed d) :
    (k.elapse d).Idle ∧ (k.elapse d).kernel = k.kernel ∧
      (∀ u, ((k.elapse d).state u).isLive → (k.state u).isLive) ∧ Held k.toSched (k.elapse d).toSched := by
  obtain ⟨hgoes, hnext⟩ := goes_elapse h.placed hd hallowed
  have hmoved : ∀ u ∈ k.expired d, (k.state u).isLive ∧ (k.state u ≠ .blocked .join ∨ u ∉ k.delays.waiting) := by
    intro u hu
    rw [expired_eq hd] at hu
    obtain ⟨q, hq, rfl⟩ := List.mem_map.mp hu
    have hdelayed : q.1 ∈ k.delays.delayed.map Prod.fst := List.mem_map_of_mem ((List.takeWhile_sublist _).subset hq)
    obtain ⟨w, hw⟩ := (h.placed.blocked q.1 List.not_mem_nil).mpr (List.mem_append_left _ hdelayed)
    refine ⟨hw ▸ rfl, .inr fun hwaiting => ?_⟩
    exact (List.nodup_append.mp h.placed.valid.nodup).2.2 q.1 hdelayed q.1 hwaiting rfl
  have hidle := h.serve hgoes.toReaches hmoved
  refine ⟨⟨hidle.placed, hgoes.curr.trans (h.curr.trans hnext.symm), hidle.started, hidle.joining, hidle.single⟩,
    hgoes.kernel, fun u => hgoes.live ?_, hgoes.held⟩
  by_cases hu : u ∈ k.expired d
  · exact .inr (hmoved u hu).1
  · exact .inl hu

theorem Idle.setTick (h : k.Idle) (tick : ℕ) : Idle { k with tick := tick } :=
  ⟨h.placed, h.curr, h.started, h.joining, h.single⟩

theorem Idle.setKernel (h : k.Idle) (state : KernelState) (hbefore : k.kernel ≠ .ready) (hstate : state ≠ .ready) :
    Idle { k with kernel := state } :=
  ⟨h.placed, h.curr, h.started.trans (iff_of_false hbefore hstate), h.joining, h.single⟩

theorem Idle.dispatch (h : k.Idle) : Stays k (k.osRtxThreadDispatch none) ∧ (k.osRtxThreadDispatch none).Attentive := by
  obtain ⟨hgoes, hattentive⟩ : Goes [] [] [] k (k.osRtxThreadDispatch none) ∧ _ :=
    goes_then_dispatch h.curr (goes_refl h.placed) rfl
  exact ⟨h.stays_nil hgoes fun _ => hattentive, hattentive⟩

theorem Idle.resume (h : k.Idle) : Stays k (k.resume ticks) := by
  rw [Kernel.resume]
  split
  case isTrue hkernel =>
    obtain ⟨helapse, hsame, hlive, hheld⟩ :=
      (h.setTick ((k.tick + ticks) % 2 ^ 32)).elapse (d := .resume ticks) rfl trivial
    have hrunning := helapse.setKernel .running (hsame.trans hkernel ▸ nofun) nofun
    obtain ⟨hdispatch, hattentive⟩ := hrunning.dispatch
    exact ⟨⟨hdispatch.idle, fun _ => hattentive⟩, fun u hu => hlive u (hdispatch.live u hu),
      fun u m hu => hheld u (.mutex m) nofun (hdispatch.held u m hu)⟩
  case isFalse => exact h.refl

/-- At the end of a tick an equal of the running thread may take its place. -/
theorem goes_roundRobin (h : Placed [] [] k.toSched) :
    ∃ k' thread tick, k.roundRobin = { k' with robinThread := thread, robinTick := tick } ∧ Goes [] [] [] k k' ∧
      (k.Attentive → k'.Attentive) := by
  have hstay : ∀ thread tick, ∃ k' thread' tick',
      { k with robinThread := thread, robinTick := tick } = { k' with robinThread := thread', robinTick := tick' } ∧
        Goes [] [] [] k k' ∧ (k.Attentive → k'.Attentive) := fun thread tick => ⟨k, thread, tick, rfl, goes_refl h, id⟩
  rw [roundRobin]
  split
  · exact hstay k.robinThread k.robinTick
  split
  · exact hstay k.next k.robinTimeout
  case isFalse.isFalse hthread =>
    have hsame : k.robinThread = k.next := not_not.mp hthread
    dsimp only
    split
    · exact hstay k.robinThread (k.robinTick - 1)
    · rw [hsame]
      cases hfirst : k.first .ready with
      | none => exact hstay k.next (k.robinTick - 1)
      | some ready =>
          cases hnext : k.next with
          | none => exact hstay none (k.robinTick - 1)
          | some running =>
              dsimp only
              split
              case isTrue hequal =>
                obtain ⟨hgoes, hprompt⟩ : Goes [] [] [] k (k.rotate running ready) ∧ _ :=
                  goes_rotate h hfirst hnext hequal
                exact ⟨k.rotate running ready, some ready, k.robinTimeout, rfl, hgoes, fun _ _ => hprompt⟩
              case isFalse => exact hstay (some running) (k.robinTick - 1)

/-- Behind a tick the thread that runs has the highest priority, whatever was before. -/
theorem Idle.osRtxTick_Handler (h : k.Idle) :
    Stays k k.osRtxTick_Handler ∧ k.osRtxTick_Handler.Attentive := by
  obtain ⟨helapse, -, hlive, hheld⟩ := (h.setTick ((k.tick + 1) % 2 ^ 32)).elapse (d := .tick) rfl trivial
  obtain ⟨hdispatch, hattentive⟩ : Goes [] [] [] _ _ ∧ _ :=
    goes_then_dispatch helapse.curr (goes_refl helapse.placed) rfl
  obtain ⟨k', thread, tick, heq, hgoes, hkeep⟩ := goes_roundRobin hdispatch.placed
  rw [Kernel.osRtxTick_Handler, heq]
  have hstays := helapse.stays_nil (hdispatch.trans hgoes) fun _ => hkeep hattentive
  have hidle := hstays.idle
  exact ⟨⟨⟨⟨hidle.placed, rfl, hidle.started, hidle.joining, hidle.single⟩, fun _ => hkeep hattentive⟩,
    fun u hu => hlive u (hstays.live u hu), fun u m hu => hheld u (.mutex m) nofun (hstays.held u m hu)⟩,
    hkeep hattentive⟩

/-! ### Wake-ups -/

/-- A blocked thread that is linked to nothing, and that may run, is woken up. -/
theorem Idle.waitExit (h : k.Idle) (hgoes : Goes [] [t] [] k k') (hnext : k'.next = k.next)
    (hprompt : k.Attentive → k'.Attentive) (hstate : k'.state t = .blocked w) (hroot : k'.root t = none)
    (hrun : (k'.state t).mayRun) : Stays k (k'.osRtxThreadWaitExit t ret true) := by
  obtain ⟨hexit, hpost⟩ : Goes [] [] [] k' (k'.osRtxThreadWaitExit t ret true) ∧ _ :=
    goes_waitExit_dispatch hgoes.placed List.not_mem_nil hstate hroot (.inr hrun)
      (hgoes.curr.trans (h.curr.trans hnext.symm))
  refine h.stays_nil (hgoes.trans hexit) fun hattentive hkernel => ?_
  have hkernel' : k'.kernel = .running := hexit.kernel ▸ hkernel
  exact hpost hkernel' (hprompt hattentive hkernel')

theorem Idle.wakeFirst (h : k.Idle) (ho : o ≠ .ready) : Stays k (k.wakeFirst o ret true) := by
  rw [Kernel.wakeFirst]
  cases hfirst : k.first o with
  | none => exact h.refl
  | some t =>
      obtain ⟨hplaced, hroot, w, hstate, hwaits⟩ := h.placed.getObject ho hfirst
      have hget : Goes [] [t] [] k (k.setSched (k.list (.get o))) :=
        goes_list h.placed hplaced (allowed_get hfirst) fun _ _ heq => by cases heq
      refine h.waitExit hget rfl (fun hattentive hkernel r hr u hu => hattentive hkernel r hr u ?_) hstate hroot
        (hstate ▸ Wait.mayRun_of_waitsFor hwaits)
      -- the ready list is what it was
      change (k.list (.get o)).root u = _ at hu
      rw [list_root_get hfirst] at hu
      by_cases hut : u = t
      · rw [hut, Function.update_self] at hu
        cases hu
      · rwa [Function.update_of_ne hut] at hu

theorem Idle.wakeFlags (h : k.Idle) (hstate : k.state t = .blocked .threadFlags) :
    Stays k (k.osRtxThreadWaitExit t ret true) :=
  h.waitExit ⟨⟨rfl, h.placed.loosen, .refl, Iff.rfl⟩, .refl⟩ rfl id hstate
    (unlinked_of_blocked h.placed List.not_mem_nil hstate rfl) (hstate ▸ rfl)

theorem Idle.deleteObject (h : k.Idle) (ho : o ≠ .ready) : Stays k ((k.wakeAll o ret).osRtxThreadDispatch none) := by
  obtain ⟨hwake, hnext⟩ : Goes [] [] [] k (k.wakeAll o ret) ∧ _ :=
    goes_wakeAll h.placed (fun _ hu => absurd hu List.not_mem_nil) ho
  obtain ⟨hgoes, hattentive⟩ := goes_then_dispatch h.curr hwake hnext
  exact h.stays_nil hgoes fun _ => hattentive

theorem goes_foldl_wakeOne {woken : List (ThreadId × ℕ)} (h : Placed [] [] k.toSched)
    (hnodup : (woken.map Prod.fst).Nodup) (hblocked : ∀ q ∈ woken, (k.state q.1).isPosted) :
    Goes [] [] [] k (woken.foldl (fun k q => k.wakeOne q.1 q.2) k) ∧
      (woken.foldl (fun k q => k.wakeOne q.1 q.2) k).next = k.next := by
  induction woken generalizing k with
  | nil => exact ⟨goes_refl h, rfl⟩
  | cons q rest ih =>
      obtain ⟨hposted, hrest⟩ := List.forall_mem_cons.mp hblocked
      obtain ⟨w, hstate, hrun⟩ := ThreadState.of_isPosted hposted
      obtain ⟨hnot, hnodup⟩ := List.nodup_cons.mp hnodup
      obtain ⟨hwake, hnext⟩ : Goes [] [] [] k (k.wakeOne q.1 q.2) ∧ _ :=
        goes_wakeOne h List.not_mem_nil hstate (.inr hrun)
      obtain ⟨hfold, hnext'⟩ := ih hwake.placed hnodup fun q' hq' => by
        have hne : q'.1 ≠ q.1 := fun heq => hnot (heq ▸ List.mem_map_of_mem hq')
        have hsame : (k.wakeOne q.1 q.2).state q'.1 = k.state q'.1 := Function.update_of_ne hne _ _
        exact hsame ▸ hrest q' hq'
      exact ⟨hwake.trans hfold, hnext'.trans hnext⟩

theorem Idle.post (h : k.Idle) {woken : List (ThreadId × ℕ)} (hnodup : (woken.map Prod.fst).Nodup)
    (hblocked : ∀ q ∈ woken, (k.state q.1).isPosted) :
    Stays k ((woken.foldl (fun k q => k.wakeOne q.1 q.2) k).osRtxThreadDispatch none) := by
  obtain ⟨hwake, hnext⟩ := goes_foldl_wakeOne h.placed hnodup hblocked
  obtain ⟨hgoes, hattentive⟩ := goes_then_dispatch h.curr hwake hnext
  exact h.stays_nil hgoes fun _ => hattentive

/-! ### Calls on the kernel -/

/-- Before the start a new thread becomes ready, and nothing else changes for the others. -/
theorem Idle.new_of_none (joinable : Bool) (h : k.Idle) (hcurr : k.curr = none) (ht : k.state t = .inactive)
    (hp : osPriorityIdle ≤ p ∧ p ≤ osPriorityISR) :
    (k.svcRtxThreadNew t p joinable).Idle ∧ (k.svcRtxThreadNew t p joinable).curr = none ∧
      (k.svcRtxThreadNew t p joinable).state = Function.update k.state t .ready := by
  have hidle : (k.svcRtxThreadNew t p joinable).contextSwitch.Idle := (h.svcRtxThreadNew ht).idle
  have hnew : (k.svcRtxThreadNew t p joinable).curr = none ∧ (k.svcRtxThreadNew t p joinable).next = k.next ∧
      (k.svcRtxThreadNew t p joinable).state = Function.update (Function.update k.state t .ready) t .ready := by
    rw [Kernel.svcRtxThreadNew, if_neg (not_or.mpr ⟨not_lt.mpr hp.1, not_lt.mpr hp.2⟩), osRtxThreadDispatch, hcurr]
    exact ⟨rfl, rfl, rfl⟩
  obtain ⟨hcurr', hnext, hstate⟩ := hnew
  refine ⟨⟨hidle.placed, ?_, hidle.started, hidle.joining, hidle.single⟩, hcurr', ?_⟩
  · rw [hcurr', hnext, ← h.curr, hcurr]
  · rw [hstate, Function.update_idem]

theorem Idle.startFirst (h : k.Idle) (hcurr : k.curr = none) (hready : k.state u = .ready) :
    (contextSwitch { k.switchToFirst with kernel := .running }).Idle ∧ k.switchToFirst.Prompt := by
  have hnext : k.next = none := h.curr.symm.trans hcurr
  have hroot := (h.placed.ready u List.not_mem_nil).mp hready
  rw [switchToFirst]
  cases hfirst : k.first .ready with
  | none => exact absurd hroot (h.placed.toSound.first_eq_none hfirst)
  | some t =>
      obtain ⟨hplaced, hfree⟩ := h.placed.getReady hfirst
      have hstate := (h.placed.ready t List.not_mem_nil).mpr (h.placed.toSound.first_root hfirst)
      have hback : ∀ {v v'}, Joined (contextSwitch { k.setSched ((k.list (.get .ready)).osRtxThreadSwitch t) with
          kernel := .running }) v v' → k.Joined v v' := fun {v v'} hv => by
        refine ⟨?_, hv.2⟩
        by_cases hvt : v = t
        · rw [hvt, hstate]
          rfl
        · have hlive : (Function.update k.state t ThreadState.running v).isLive := hv.1
          rwa [Function.update_of_ne hvt] at hlive
      have hnew : ∀ v, (k.list (.get .ready)).root v = some .ready → k.root v = some .ready := fun v hv => by
        rw [list_root_get hfirst] at hv
        by_cases hvt : v = t
        · exact hvt ▸ h.placed.toSound.first_root hfirst
        · rwa [Function.update_of_ne hvt] at hv
      refine ⟨⟨hplaced.run hfree hnext, rfl, iff_of_false nofun nofun, fun v v' hv => ?_,
        fun v₁ v₂ v' hv₁ hv₂ => h.single v₁ v₂ v' (hback hv₁) (hback hv₂)⟩,
        prompt_of_first h.placed.toSound hfirst rfl rfl fun v hv => .inl (hnew v hv)⟩
      obtain ⟨hjoining, hwaiting⟩ := h.joining v v' (hback hv)
      have hne : v' ≠ t := fun heq => ThreadState.noConfusion (hstate.symm.trans (heq ▸ hjoining))
      have hsame : Function.update k.state t .running v' = k.state v' := Function.update_of_ne hne _ _
      exact ⟨hsame.trans hjoining, hwaiting⟩

theorem Idle.svcRtxKernelStart {idle timer : ThreadId} (h : k.Idle) (hidle : k.state idle = .inactive)
    (htimer : k.state timer = .inactive) (hne : idle ≠ timer) :
    Serves k (k.svcRtxKernelStart idle timer).2 := by
  rw [Kernel.svcRtxKernelStart]
  split
  · exact h.refl.toServes
  case isFalse hkernel =>
    have hcurr : k.curr = none := h.curr.trans (h.started.mpr (not_not.mp hkernel))
    obtain ⟨h₁, hcurr₁, hstate₁⟩ := h.new_of_none false (p := osPriorityIdle) hcurr hidle (by decide)
    have htimer₁ := (congrFun hstate₁ timer).trans ((Function.update_of_ne hne.symm _ _).trans htimer)
    obtain ⟨h₂, hcurr₂, hstate₂⟩ := h₁.new_of_none false (p := osTimerThreadPrio) hcurr₁ htimer₁ (by decide)
    obtain ⟨hstart, hprompt⟩ := h₂.startFirst hcurr₂ (u := idle) (by
      rw [hstate₂, Function.update_of_ne hne, hstate₁, Function.update_self])
    exact ⟨hstart, fun _ _ => hprompt⟩

theorem Idle.svcRtxKernelLock (h : k.Idle) : Stays k k.svcRtxKernelLock.2 := by
  rw [Kernel.svcRtxKernelLock]
  cases hkernel : k.kernel with
  | running =>
      exact ⟨⟨(h.setKernel .locked (hkernel ▸ nofun) nofun).switch, fun _ => nofun⟩, fun _ => id, fun _ _ => id⟩
  | _ => exact h.refl

theorem Idle.svcRtxKernelUnlock (h : k.Idle) : k.svcRtxKernelUnlock.2.contextSwitch.Idle := by
  rw [Kernel.svcRtxKernelUnlock]
  cases hkernel : k.kernel with
  | locked => exact (h.setKernel .running (hkernel ▸ nofun) nofun).switch
  | _ => exact h.switch

theorem Idle.svcRtxKernelRestoreLock {lock : Int} (h : k.Idle) :
    (k.svcRtxKernelRestoreLock lock).2.contextSwitch.Idle := by
  rw [Kernel.svcRtxKernelRestoreLock]
  split
  case isTrue hkernel =>
    have hbefore : k.kernel ≠ .ready := by
      rcases hkernel with hkernel | hkernel <;> rw [hkernel] <;> exact nofun
    split
    · exact (h.setKernel .running hbefore nofun).switch
    split
    · exact (h.setKernel .locked hbefore nofun).switch
    · exact h.switch
  case isFalse => exact h.switch

theorem Idle.suspend (h : k.Idle) : k.suspend.Idle ∧ (k.Attentive → k.suspend.Attentive) := by
  rw [Kernel.suspend]
  split
  case isTrue hkernel => exact ⟨h.setKernel .suspended (hkernel ▸ nofun) nofun, fun _ => nofun⟩
  case isFalse => exact ⟨h, id⟩

end Kernel

end Best1307.Rtx
