import Best1307.Rtx.Kernel

/-!
# Where the threads are

Each thread is in one place, and its state tells which: the one that runs next is linked to nothing, a ready one stands
in the ready list, and one that is blocked waits in a list of delays and, if it waits for an object, in the list of an
object of that kind. Within a service call a thread may be adrift, on its way from one place to another.
-/

namespace Best1307.Rtx

open DeltaQueue PriorityQueue

/-- Is a thread with this state linked to an object? -/
def Wait.isLinked : Wait → Bool
  | .suspended | .delay | .join | .threadFlags => false
  | _ => true

namespace Sched

variable {s s' : Sched} {t u : ThreadId} {o : ObjectId} {e : ListEvent} {d : DelayEvent} {adrift loose : List ThreadId}
  {p : Int} {w : Wait} {timeout : ℕ}

/-- Every call of a function on the lists was one that keeps them, and the lists are what the calls made them. -/
structure Sound (s : Sched) : Prop where
  calls : Along (fun q e => some (ThreadQueues.apply q e)) ThreadQueues.Allowed .init s.calls
  queues : s.queues = s.calls.foldl .apply .init
  once : s.queues.Once
  sorted : s.queues.Sorted
  delayCalls : Along (fun q e => some (Delays.apply q e)) Delays.Allowed .init s.delayCalls
  delays : s.delays = s.delayCalls.foldl .apply .init
  valid : s.delays.Valid
  root : ∀ t o, s.root t = some o ↔ t ∈ s.queues.queue o

/-- Each thread that is not adrift is where its state tells, and each that is linked to an object waits for it. A loose
thread waits for an object without being linked to it. -/
structure Placed (adrift loose : List ThreadId) (s : Sched) : Prop extends s.Sound where
  nodup : adrift.Nodup
  absent : ∀ t ∈ adrift, t ∉ s.delays.threads ∧ s.next ≠ some t ∧ s.root t ≠ some .ready
  running : ∀ t ∉ adrift, s.state t = .running ↔ s.next = some t
  ready : ∀ t ∉ adrift, s.state t = .ready ↔ s.root t = some .ready
  blocked : ∀ t ∉ adrift, (∃ w, s.state t = .blocked w) ↔ t ∈ s.delays.threads
  waits : ∀ t o, s.root t = some o → o ≠ .ready → ∃ w, s.state t = .blocked w ∧ w.waitsFor o
  linked : ∀ t, t ∉ adrift → t ∉ loose → ∀ w, s.state t = .blocked w → w.isLinked → s.root t ≠ none

structure Elsewhere (t : ThreadId) (s s' : Sched) : Prop where
  next : s'.next = s.next
  state : ∀ u, u ≠ t → s'.state u = s.state u
  root : ∀ u, u ≠ t → s'.root u = s.root u
  delays : ∀ u, u ≠ t → (u ∈ s'.delays.threads ↔ u ∈ s.delays.threads)

/-- The thread that runs next has at least the priority of every ready one. -/
def Prompt (s : Sched) : Prop := ∀ r, s.next = some r → ∀ t, s.root t = some .ready → s.priority t ≤ s.priority r

/-! ### Calls on the lists -/

theorem setState_self {state : ThreadState} : (s.setState t state).state t = state := Function.update_self _ _ _

theorem setState_of_ne {state : ThreadState} (h : u ≠ t) : (s.setState t state).state u = s.state u :=
  Function.update_of_ne h _ _

theorem init_sound : init.Sound where
  calls := trivial
  queues := rfl
  once := ThreadQueues.init_once
  sorted := ThreadQueues.init_sorted
  delayCalls := trivial
  delays := rfl
  valid := Delays.init_valid
  root _ _ := iff_of_false nofun List.not_mem_nil

theorem Sound.not_linked_iff (h : s.Sound) : ¬ s.queues.Linked t ↔ s.root t = none := by
  rw [Option.eq_none_iff_forall_ne_some, ThreadQueues.Linked, not_exists]
  exact forall_congr' fun o => not_congr (h.root t o).symm

theorem Sound.first_root (h : s.Sound) (hfirst : s.first o = some t) : s.root t = some o :=
  (h.root t o).mpr (List.mem_of_head? hfirst)

theorem Sound.first_eq_none (h : s.Sound) (hfirst : s.first o = none) : s.root t ≠ some o := fun ht => by
  have hmem := (h.root t o).mp ht
  rw [List.head?_eq_none_iff.mp hfirst] at hmem
  exact List.not_mem_nil hmem

theorem Sound.priority_le_first (h : s.Sound) (hfirst : s.first o = some t) (hu : s.root u = some o) :
    s.priority u ≤ s.priority t := by
  obtain ⟨rest, hqueue⟩ := List.head?_eq_some_iff.mp hfirst
  have hsorted := h.sorted o
  have hmem := (h.root u o).mp hu
  rw [hqueue] at hsorted hmem
  exact hsorted.le_head hmem

theorem Sound.list (h : s.Sound) (he : s.queues.Allowed e) : (s.list e).Sound where
  calls := by
    refine along_snoc.mpr ⟨h.calls, fun q hq => ?_⟩
    rw [run_some] at hq
    rw [← Option.some.inj hq, ← h.queues]
    exact he
  queues := by
    rw [Sched.list, List.foldl_concat, ← h.queues]
  once := h.once.apply he
  sorted := h.sorted.apply h.once
  delayCalls := h.delayCalls
  delays := h.delays
  valid := h.valid
  root u o := by
    have hput : ∀ (o' : ObjectId) (t : ThreadId) (l : List ThreadId), s.root t = none →
        List.Perm l (t :: s.queues.queue o') →
        (Function.update s.root t (some o') u = some o ↔ u ∈ (s.queues.setQueue o' l).queue o) :=
        fun o' t l ht hperm => by
      have hnot : t ∉ s.queues.queue o := fun hmem => by
        rw [(h.root t o).mpr hmem] at ht
        cases ht
      by_cases hut : u = t
      · subst hut
        rw [Function.update_self, Option.some.injEq]
        by_cases ho : o = o'
        · subst ho
          rw [ThreadQueues.setQueue_self, hperm.mem_iff]
          exact iff_of_true rfl List.mem_cons_self
        · rw [ThreadQueues.setQueue_of_ne ho]
          exact iff_of_false (fun heq => ho heq.symm) hnot
      · rw [Function.update_of_ne hut, h.root]
        by_cases ho : o = o'
        · subst ho
          rw [ThreadQueues.setQueue_self, hperm.mem_iff, List.mem_cons, or_iff_right hut]
        · rw [ThreadQueues.setQueue_of_ne ho]
    have hremove : ∀ t, (Function.update s.root t none u = some o ↔ u ∈ (s.queues.queue o).erase t) := fun t => by
      rw [(h.once.nodup o).mem_erase_iff]
      by_cases hut : u = t
      · subst hut
        rw [Function.update_self]
        exact iff_of_false nofun fun hmem => hmem.1 rfl
      · rw [Function.update_of_ne hut, h.root, and_iff_right hut]
    cases e with
    | put o' t => exact hput o' t _ (h.not_linked_iff.mp he) perm_enqueue
    | block t => exact hput .ready t _ (h.not_linked_iff.mp he) perm_putBack
    | get o' =>
        obtain ⟨t, rest, hqueue⟩ := List.exists_cons_of_ne_nil he
        have hfirst : s.first o' = some t := congrArg List.head? hqueue
        have htail : ∀ o, (s.queues.get o').queue o = (s.queues.queue o).erase t := fun o => by
          rw [ThreadQueues.get]
          by_cases ho : o = o'
          · subst ho
            rw [ThreadQueues.setQueue_self, hqueue, List.erase_cons_head, List.tail_cons]
          · rw [ThreadQueues.setQueue_of_ne ho, List.erase_of_not_mem]
            exact fun hmem => ho (h.once.apart o o' t hmem (hqueue ▸ List.mem_cons_self))
        change s.rootAfter (.get o') u = some o ↔ u ∈ (s.queues.get o').queue o
        rw [rootAfter, hfirst, htail]
        exact hremove t
    | remove t => exact hremove t
    | setPriority t priority =>
        exact (h.root u o).trans ThreadQueues.setPriority_perm.mem_iff.symm

theorem Sound.delay (h : s.Sound) (hd : s.delays.Allowed d) : (s.delay d).Sound where
  calls := h.calls
  queues := h.queues
  once := h.once
  sorted := h.sorted
  delayCalls := by
    refine along_snoc.mpr ⟨h.delayCalls, fun q hq => ?_⟩
    rw [run_some] at hq
    rw [← Option.some.inj hq, ← h.delays]
    exact hd
  delays := by
    rw [Sched.delay, List.foldl_concat, ← h.delays]
  valid := h.valid.apply hd
  root := h.root

theorem Sound.setState (h : s.Sound) (state : ThreadState) : (s.setState t state).Sound :=
  ⟨h.calls, h.queues, h.once, h.sorted, h.delayCalls, h.delays, h.valid, h.root⟩

theorem Sound.switch (h : s.Sound) : (s.osRtxThreadSwitch t).Sound :=
  ⟨h.calls, h.queues, h.once, h.sorted, h.delayCalls, h.delays, h.valid, h.root⟩

theorem list_root_remove : (s.list (.remove t)).root = Function.update s.root t none := rfl

theorem list_root_get (hfirst : s.first o = some t) : (s.list (.get o)).root = Function.update s.root t none := by
  change s.rootAfter (.get o) = _
  rw [rootAfter, hfirst]

theorem allowed_get (hfirst : s.first o = some t) : s.queues.Allowed (.get o) := fun hnil => by
  rw [first, hnil] at hfirst
  cases hfirst

theorem mem_threads_insert : u ∈ (s.delay (.insert t timeout)).delays.threads ↔ u = t ∨ u ∈ s.delays.threads :=
  Delays.perm_threads_insert.mem_iff.trans List.mem_cons

theorem Sound.mem_threads_remove (h : s.Sound) :
    u ∈ (s.delay (.remove t)).delays.threads ↔ u ≠ t ∧ u ∈ s.delays.threads := by
  have hwaiting := (List.nodup_append.mp h.valid.nodup).2.1
  change u ∈ (s.delays.delayed.filter fun q => q.1 ≠ t).map Prod.fst ++ s.delays.waiting.erase t ↔ _
  rw [List.mem_append, hwaiting.mem_erase_iff, List.mem_map, Delays.threads, List.mem_append, List.mem_map]
  simp only [List.mem_filter, decide_eq_true_eq]
  constructor
  · rintro (⟨q, ⟨hq, hne⟩, rfl⟩ | ⟨hne, hmem⟩)
    · exact ⟨hne, .inl ⟨q, hq, rfl⟩⟩
    · exact ⟨hne, .inr hmem⟩
  · rintro ⟨hne, ⟨q, hq, rfl⟩ | hmem⟩
    · exact .inl ⟨q, ⟨hq, hne⟩, rfl⟩
    · exact .inr ⟨hne, hmem⟩

/-! ### Ways of a thread -/

theorem Elsewhere.trans {s'' : Sched} (h : Elsewhere t s s') (h' : Elsewhere t s' s'') : Elsewhere t s s'' where
  next := h'.next.trans h.next
  state u hu := (h'.state u hu).trans (h.state u hu)
  root u hu := (h'.root u hu).trans (h.root u hu)
  delays u hu := (h'.delays u hu).trans (h.delays u hu)

theorem elsewhere_setState {state : ThreadState} : Elsewhere t s (s.setState t state) :=
  ⟨rfl, fun _ hu => setState_of_ne hu, fun _ _ => rfl, fun _ _ => Iff.rfl⟩

theorem elsewhere_list {r : Option ObjectId} (hroot : (s.list e).root = Function.update s.root t r) :
    Elsewhere t s (s.list e) :=
  ⟨rfl, fun _ _ => rfl, fun _ hu => (congrFun hroot _).trans (Function.update_of_ne hu _ _), fun _ _ => Iff.rfl⟩

theorem elsewhere_insert : Elsewhere t s (s.delay (.insert t timeout)) :=
  ⟨rfl, fun _ _ => rfl, fun _ _ => rfl, fun _ hu => mem_threads_insert.trans (or_iff_right hu)⟩

theorem Sound.elsewhere_remove (h : s.Sound) : Elsewhere t s (s.delay (.remove t)) :=
  ⟨rfl, fun _ _ => rfl, fun _ _ => rfl, fun _ hu => h.mem_threads_remove.trans (and_iff_right hu)⟩

theorem Placed.land (h : Placed (t :: adrift) loose s) (hother : Elsewhere t s s') (hsound : s'.Sound)
    {loose' : List ThreadId} (hloose : ∀ u ∈ loose, u ≠ t → u ∈ loose') (hrunning : s'.state t ≠ .running)
    (hready : s'.state t = .ready ↔ s'.root t = some .ready)
    (hblocked : (∃ w, s'.state t = .blocked w) ↔ t ∈ s'.delays.threads)
    (hwaits : ∀ o, s'.root t = some o → o ≠ .ready → ∃ w, s'.state t = .blocked w ∧ w.waitsFor o)
    (hlinked : t ∉ loose' → ∀ w, s'.state t = .blocked w → w.isLinked → s'.root t ≠ none) :
    Placed adrift loose' s' := by
  obtain ⟨hnot, hnodup⟩ := List.nodup_cons.mp h.nodup
  have hout : ∀ {u}, u ∉ adrift → u ≠ t → u ∉ t :: adrift := fun hu hut => by
    rw [List.mem_cons, not_or]
    exact ⟨hut, hu⟩
  refine ⟨hsound, hnodup, fun u hu => ?_, fun u hu => ?_, fun u hu => ?_, fun u hu => ?_, fun u o hroot ho => ?_,
    fun u hu hl w hstate hw => ?_⟩
  · have hut : u ≠ t := fun heq => hnot (heq ▸ hu)
    rw [hother.delays u hut, hother.next, hother.root u hut]
    exact h.absent u (List.mem_cons_of_mem t hu)
  · by_cases hut : u = t
    · subst hut
      rw [hother.next]
      exact iff_of_false hrunning (h.absent u List.mem_cons_self).2.1
    · rw [hother.state u hut, hother.next]
      exact h.running u (hout hu hut)
  · by_cases hut : u = t
    · subst hut
      exact hready
    · rw [hother.state u hut, hother.root u hut]
      exact h.ready u (hout hu hut)
  · by_cases hut : u = t
    · subst hut
      exact hblocked
    · rw [hother.state u hut, hother.delays u hut]
      exact h.blocked u (hout hu hut)
  · by_cases hut : u = t
    · subst hut
      exact hwaits o hroot ho
    · rw [hother.root u hut] at hroot
      rw [hother.state u hut]
      exact h.waits u o hroot ho
  · by_cases hut : u = t
    · subst hut
      exact hlinked hl w hstate hw
    · rw [hother.state u hut] at hstate
      rw [hother.root u hut]
      exact h.linked u (hout hu hut) (fun hmem => hl (hloose u hmem hut)) w hstate hw

theorem Placed.liftOff (h : Placed adrift loose s) (hother : Elsewhere t s s') (hsound : s'.Sound) (ht : t ∉ adrift)
    (hstate : s'.state t = s.state t) (hdelay : t ∉ s'.delays.threads) (hnext : s.next ≠ some t)
    (hready : s'.root t ≠ some .ready) (hroot : ∀ o, s'.root t = some o → s.root t = some o) :
    Placed (t :: adrift) loose s' := by
  refine ⟨hsound, List.nodup_cons.mpr ⟨ht, h.nodup⟩, fun u hu => ?_, fun u hu => ?_, fun u hu => ?_, fun u hu => ?_,
    fun u o hu ho => ?_, fun u hu hl w hw hlink => ?_⟩
  · by_cases hut : u = t
    · subst hut
      exact ⟨hdelay, hother.next ▸ hnext, hready⟩
    · rw [hother.delays u hut, hother.next, hother.root u hut]
      exact h.absent u ((List.mem_cons.mp hu).resolve_left hut)
  · obtain ⟨hut, hu⟩ := not_or.mp (mt List.mem_cons.mpr hu)
    rw [hother.state u hut, hother.next]
    exact h.running u hu
  · obtain ⟨hut, hu⟩ := not_or.mp (mt List.mem_cons.mpr hu)
    rw [hother.state u hut, hother.root u hut]
    exact h.ready u hu
  · obtain ⟨hut, hu⟩ := not_or.mp (mt List.mem_cons.mpr hu)
    rw [hother.state u hut, hother.delays u hut]
    exact h.blocked u hu
  · by_cases hut : u = t
    · subst hut
      rw [hstate]
      exact h.waits u o (hroot o hu) ho
    · rw [hother.root u hut] at hu
      rw [hother.state u hut]
      exact h.waits u o hu ho
  · obtain ⟨hut, hu⟩ := not_or.mp (mt List.mem_cons.mpr hu)
    rw [hother.state u hut] at hw
    rw [hother.root u hut]
    exact h.linked u hu hl w hw hlink

theorem Placed.not_running (h : Placed adrift loose s) (ht : t ∉ adrift) (hstate : s.state t ≠ .running) :
    s.next ≠ some t := fun heq => hstate ((h.running t ht).mpr heq)

theorem Placed.not_delayed (h : Placed adrift loose s) (ht : t ∉ adrift) (hstate : ∀ w, s.state t ≠ .blocked w) :
    t ∉ s.delays.threads := fun hmem => by
  obtain ⟨w, hw⟩ := (h.blocked t ht).mpr hmem
  exact hstate w hw

theorem Placed.root_eq_none (h : Placed adrift loose s) (ht : t ∉ adrift) (hready : s.state t ≠ .ready)
    (hstate : ∀ w, s.state t ≠ .blocked w) : s.root t = none := by
  cases hroot : s.root t with
  | none => rfl
  | some o =>
      by_cases ho : o = .ready
      · subst ho
        exact absurd ((h.ready t ht).mpr hroot) hready
      · obtain ⟨w, hw, -⟩ := h.waits t o hroot ho
        exact absurd hw (hstate w)

theorem Placed.next_free (h : Placed adrift loose s) {r : ThreadId} (hnext : s.next = some r) :
    r ∉ adrift ∧ s.state r = .running ∧ s.root r = none ∧ r ∉ s.delays.threads := by
  have hr : r ∉ adrift := fun hmem => (h.absent r hmem).2.1 hnext
  have hrunning := (h.running r hr).mpr hnext
  refine ⟨hr, hrunning, h.root_eq_none hr ?_ ?_, h.not_delayed hr ?_⟩ <;> rw [hrunning] <;> exact nofun

theorem Placed.makeReady (h : Placed (t :: adrift) loose s) (hroot : s.root t = none)
    (he : e = .put .ready t ∨ e = .block t) : Placed adrift loose ((s.setState t .ready).list e) := by
  have hallowed : (s.setState t .ready).queues.Allowed e := by
    rcases he with rfl | rfl <;> exact h.toSound.not_linked_iff.mpr hroot
  have hnew : ((s.setState t .ready).list e).root = Function.update s.root t (some .ready) := by
    rcases he with rfl | rfl <;> rfl
  have hself : ((s.setState t .ready).list e).root t = some .ready := by
    rw [hnew, Function.update_self]
  have hstate : ((s.setState t .ready).list e).state t = .ready := setState_self
  refine h.land (elsewhere_setState.trans (elsewhere_list hnew)) ((h.toSound.setState .ready).list hallowed)
    (fun u hu _ => hu) ?_ (iff_of_true hstate hself) ?_ (fun o ho hne => ?_) fun _ w hw => ?_
  · rw [hstate]
    exact nofun
  · refine iff_of_false (fun ⟨w, hw⟩ => ?_) (h.absent t List.mem_cons_self).1
    rw [hstate] at hw
    cases hw
  · rw [hself] at ho
    exact absurd (Option.some.inj ho).symm hne
  · rw [hstate] at hw
    cases hw

theorem Placed.perm (h : Placed adrift loose s) {adrift' : List ThreadId} (hperm : List.Perm adrift' adrift) :
    Placed adrift' loose s where
  toSound := h.toSound
  nodup := hperm.nodup_iff.mpr h.nodup
  absent u hu := h.absent u (hperm.mem_iff.mp hu)
  running u hu := h.running u (mt hperm.mem_iff.mpr hu)
  ready u hu := h.ready u (mt hperm.mem_iff.mpr hu)
  blocked u hu := h.blocked u (mt hperm.mem_iff.mpr hu)
  waits := h.waits
  linked u hu := h.linked u (mt hperm.mem_iff.mpr hu)

theorem Placed.loosen (h : Placed adrift loose s) : Placed adrift (t :: loose) s :=
  ⟨h.toSound, h.nodup, h.absent, h.running, h.ready, h.blocked, h.waits,
    fun u hu hl => h.linked u hu (fun hmem => hl (List.mem_cons_of_mem t hmem))⟩

theorem Placed.stop (h : Placed adrift loose s) {r : ThreadId} (hnext : s.next = some r) :
    Placed (r :: adrift) loose { s with next := none } := by
  obtain ⟨hr, -, hfree, hdelay⟩ := h.next_free hnext
  refine ⟨⟨h.calls, h.queues, h.once, h.sorted, h.delayCalls, h.delays, h.valid, h.root⟩,
    List.nodup_cons.mpr ⟨hr, h.nodup⟩, fun u hu => ?_, fun u hu => ?_, fun u hu => ?_, fun u hu => ?_, h.waits,
    fun u hu => h.linked u fun hmem => hu (List.mem_cons_of_mem r hmem)⟩
  · rcases List.mem_cons.mp hu with rfl | hu
    · refine ⟨hdelay, nofun, fun heq : s.root u = _ => ?_⟩
      rw [hfree] at heq
      cases heq
    · obtain ⟨hwaiting, -, hready⟩ := h.absent u hu
      exact ⟨hwaiting, nofun, hready⟩
  · obtain ⟨hur, hu⟩ := not_or.mp (mt List.mem_cons.mpr hu)
    refine (h.running u hu).trans (iff_of_false (fun heq => hur ?_) nofun)
    exact (Option.some.inj (hnext.symm.trans heq)).symm
  · exact h.ready u fun hmem => hu (List.mem_cons_of_mem r hmem)
  · exact h.blocked u fun hmem => hu (List.mem_cons_of_mem r hmem)

theorem Placed.run (h : Placed (t :: adrift) loose s) (hroot : s.root t = none) (hnext : s.next = none) :
    Placed adrift loose (s.osRtxThreadSwitch t) := by
  obtain ⟨ht, hnodup⟩ := List.nodup_cons.mp h.nodup
  have hstate : ∀ {u}, u ≠ t → (s.osRtxThreadSwitch t).state u = s.state u := fun hu => Function.update_of_ne hu _ _
  have hself : (s.osRtxThreadSwitch t).state t = .running := setState_self
  have hout : ∀ {u}, u ∉ adrift → u ≠ t → u ∉ t :: adrift := fun hu hut => by
    rw [List.mem_cons, not_or]
    exact ⟨hut, hu⟩
  refine ⟨h.toSound.switch, hnodup, fun u hu => ?_, fun u hu => ?_, fun u hu => ?_, fun u hu => ?_,
    fun u o (hu : s.root u = _) ho => ?_, fun u hu hl w hw hlink => ?_⟩
  · obtain ⟨hdelay, -, hready⟩ := h.absent u (List.mem_cons_of_mem t hu)
    exact ⟨hdelay, fun heq => ht (Option.some.inj heq ▸ hu), hready⟩
  · by_cases hut : u = t
    · subst hut
      exact iff_of_true hself rfl
    · rw [hstate hut, h.running u (hout hu hut), hnext]
      exact iff_of_false nofun fun heq => hut (Option.some.inj heq).symm
  · by_cases hut : u = t
    · subst hut
      change _ ↔ s.root u = _
      rw [hself, hroot]
      exact iff_of_false nofun nofun
    · rw [hstate hut]
      exact h.ready u (hout hu hut)
  · by_cases hut : u = t
    · subst hut
      refine iff_of_false (fun ⟨w, hw⟩ => ?_) (h.absent u List.mem_cons_self).1
      rw [hself] at hw
      cases hw
    · rw [hstate hut]
      exact h.blocked u (hout hu hut)
  · have hut : u ≠ t := fun heq => by
      rw [heq, hroot] at hu
      cases hu
    rw [hstate hut]
    exact h.waits u o hu ho
  · by_cases hut : u = t
    · subst hut
      rw [hself] at hw
      cases hw
    · rw [hstate hut] at hw
      exact h.linked u (hout hu hut) hl w hw hlink

theorem Placed.switch (h : Placed (t :: adrift) loose s) (hroot : s.root t = none) {r : ThreadId}
    (hnext : s.next = some r) : Placed (r :: adrift) loose (s.osRtxThreadSwitch t) :=
  Placed.run (s := { s with next := none }) ((h.stop hnext).perm (List.Perm.swap r t adrift)) hroot rfl

/-- A thread is blocked with a timeout; if it is to wait for an object, it is loose until it is linked. -/
theorem Placed.delayInsert (h : Placed (t :: adrift) loose s) (hroot : s.root t = none) (hpos : timeout ≠ 0)
    (hword : timeout < 2 ^ 32) {loose' : List ThreadId} (hloose : ∀ u ∈ loose, u ≠ t → u ∈ loose')
    (hw : w.isLinked → t ∈ loose') :
    Placed adrift loose' ((s.setState t (.blocked w)).delay (.insert t timeout)) := by
  have hallowed : (s.setState t (.blocked w)).delays.Allowed (.insert t timeout) :=
    ⟨(h.absent t List.mem_cons_self).1, hpos, hword⟩
  have hstate : ((s.setState t (.blocked w)).delay (.insert t timeout)).state t = .blocked w := setState_self
  refine h.land (elsewhere_setState.trans elsewhere_insert) ((h.toSound.setState _).delay hallowed) hloose ?_ ?_ ?_
    (fun o ho => ?_) fun hl w' hw' hlink => ?_
  · rw [hstate]
    exact nofun
  · change _ ↔ s.root t = _
    rw [hstate, hroot]
    exact iff_of_false nofun nofun
  · exact iff_of_true ⟨w, hstate⟩ (mem_threads_insert.mpr (.inl rfl))
  · change s.root t = _ at ho
    rw [hroot] at ho
    cases ho
  · rw [hstate, ThreadState.blocked.injEq] at hw'
    exact absurd (hw (hw' ▸ hlink)) hl

theorem Placed.bury (h : Placed (t :: adrift) loose s) (hroot : s.root t = none) {state : ThreadState}
    (hdead : state = .inactive ∨ state = .terminated) : Placed adrift loose (s.setState t state) := by
  have hself : (s.setState t state).state t = state := setState_self
  have hblocked : ∀ w, (s.setState t state).state t ≠ .blocked w := fun w => by
    rw [hself]
    rcases hdead with rfl | rfl <;> exact nofun
  refine h.land elsewhere_setState (h.toSound.setState _) (fun u hu _ => hu) ?_ ?_
    (iff_of_false (fun ⟨w, hw⟩ => hblocked w hw) (h.absent t List.mem_cons_self).1) (fun o ho => ?_)
    fun _ w hw => absurd hw (hblocked w)
  · rw [hself]
    rcases hdead with rfl | rfl <;> exact nofun
  · change _ ↔ s.root t = _
    rw [hself, hroot]
    refine iff_of_false ?_ nofun
    rcases hdead with rfl | rfl <;> exact nofun
  · change s.root t = _ at ho
    rw [hroot] at ho
    cases ho

theorem Placed.takeReady (h : Placed adrift loose s) (ht : t ∉ adrift) (hroot : s.root t = some .ready)
    (he : s.queues.Allowed e) (hnew : (s.list e).root = Function.update s.root t none) :
    Placed (t :: adrift) loose (s.list e) := by
  have hstate := (h.ready t ht).mpr hroot
  have hself : (s.list e).root t = none := by
    rw [hnew, Function.update_self]
  refine h.liftOff (elsewhere_list hnew) (h.toSound.list he) ht rfl (h.not_delayed ht ?_) (h.not_running ht ?_) ?_
    fun o ho => ?_
  · exact fun w hw => ThreadState.noConfusion (hstate.symm.trans hw)
  · exact fun hw => ThreadState.noConfusion (hstate.symm.trans hw)
  · rw [hself]
    exact nofun
  · rw [hself] at ho
    cases ho

theorem Placed.not_adrift_of_ready (h : Placed adrift loose s) (hroot : s.root t = some .ready) : t ∉ adrift :=
  fun hmem => (h.absent t hmem).2.2 hroot

theorem Placed.getReady (h : Placed adrift loose s) (hfirst : s.first .ready = some t) :
    Placed (t :: adrift) loose (s.list (.get .ready)) ∧ (s.list (.get .ready)).root t = none := by
  have hroot := h.toSound.first_root hfirst
  have hnew := list_root_get hfirst
  refine ⟨h.takeReady (h.not_adrift_of_ready hroot) hroot (allowed_get hfirst) hnew, ?_⟩
  rw [hnew, Function.update_self]

theorem Placed.removeReady (h : Placed adrift loose s) (hroot : s.root t = some .ready) :
    Placed (t :: adrift) loose (s.list (.remove t)) ∧ (s.list (.remove t)).root t = none :=
  ⟨h.takeReady (h.not_adrift_of_ready hroot) hroot trivial list_root_remove, Function.update_self _ _ _⟩

theorem Placed.leaveBlocked (h : Placed adrift loose s) (ht : t ∉ adrift) (hstate : s.state t = .blocked w) :
    Placed (t :: adrift) loose ((s.list (.remove t)).delay (.remove t)) ∧
      ((s.list (.remove t)).delay (.remove t)).root t = none := by
  have hdelay : t ∈ s.delays.threads := (h.blocked t ht).mp ⟨w, hstate⟩
  have hlist : (s.list (.remove t)).Sound := h.toSound.list trivial
  have hself : (s.list (.remove t)).root t = none := Function.update_self _ _ _
  refine ⟨h.liftOff ((elsewhere_list list_root_remove).trans hlist.elsewhere_remove) (hlist.delay hdelay) ht rfl
    (fun hmem => (hlist.mem_threads_remove.mp hmem).1 rfl) (h.not_running ht ?_) ?_ fun o ho => ?_, hself⟩
  · rw [hstate]
    exact nofun
  · change (s.list (.remove t)).root t ≠ _
    rw [hself]
    exact nofun
  · change (s.list (.remove t)).root t = _ at ho
    rw [hself] at ho
    cases ho

/-- A blocked thread that is linked to nothing is taken out of the lists of delays. -/
theorem Placed.delayRemove (h : Placed adrift loose s) (ht : t ∉ adrift) (hstate : s.state t = .blocked w)
    (hroot : s.root t = none) : Placed (t :: adrift) loose (s.delay (.remove t)) := by
  have hdelay : t ∈ s.delays.threads := (h.blocked t ht).mp ⟨w, hstate⟩
  refine h.liftOff h.toSound.elsewhere_remove (h.toSound.delay hdelay) ht rfl
    (fun hmem => (h.toSound.mem_threads_remove.mp hmem).1 rfl) (h.not_running ht ?_) ?_ fun o ho => ho
  · rw [hstate]
    exact nofun
  · change s.root t ≠ _
    rw [hroot]
    exact nofun

theorem Placed.getBlocked (h : Placed adrift loose s) (hstate : s.state t = .blocked w) (he : s.queues.Allowed e)
    (hnew : (s.list e).root = Function.update s.root t none) :
    Placed adrift (t :: loose) (s.list e) ∧ (s.list e).root t = none := by
  have hself : (s.list e).root t = none := by
    rw [hnew, Function.update_self]
  have hother : ∀ u, u ≠ t → (s.list e).root u = s.root u := fun u hu => by
    rw [hnew, Function.update_of_ne hu]
  refine ⟨⟨h.toSound.list he, h.nodup, fun u hu => ?_, h.running, fun u hu => ?_, h.blocked,
    fun u o' hu ho' => ?_, fun u hu hl w hw hlink => ?_⟩, hself⟩
  · obtain ⟨hdelay, hnext, hready⟩ := h.absent u hu
    refine ⟨hdelay, hnext, fun heq => ?_⟩
    by_cases hut : u = t
    · subst hut
      rw [hself] at heq
      cases heq
    · exact hready (hother u hut ▸ heq)
  · by_cases hut : u = t
    · subst hut
      change s.state u = _ ↔ _
      rw [hself, hstate]
      exact iff_of_false nofun nofun
    · change s.state u = _ ↔ _
      rw [hother u hut]
      exact h.ready u hu
  · by_cases hut : u = t
    · subst hut
      rw [hself] at hu
      cases hu
    · exact h.waits u o' (hother u hut ▸ hu) ho'
  · obtain ⟨hut, hl⟩ := not_or.mp (mt List.mem_cons.mpr hl)
    rw [hother u hut]
    exact h.linked u hu hl w hw hlink

/-- The first thread that waits for an object is taken out of its list. -/
theorem Placed.getObject (h : Placed adrift loose s) (ho : o ≠ .ready) (hfirst : s.first o = some t) :
    Placed adrift (t :: loose) (s.list (.get o)) ∧ (s.list (.get o)).root t = none ∧
      ∃ w, s.state t = .blocked w ∧ w.waitsFor o := by
  obtain ⟨w, hstate, hwaits⟩ := h.waits t o (h.toSound.first_root hfirst) ho
  obtain ⟨hplaced, hroot⟩ := h.getBlocked hstate (allowed_get hfirst) (list_root_get hfirst)
  exact ⟨hplaced, hroot, w, hstate, hwaits⟩

theorem Placed.attach (h : Placed adrift (t :: loose) s) (ht : t ∉ adrift) (hroot : s.root t = none)
    (hstate : s.state t = .blocked w) (hwaits : w.waitsFor o) (ho : o ≠ .ready) :
    Placed adrift loose (s.list (.put o t)) := by
  have hself : (s.list (.put o t)).root t = some o := Function.update_self _ _ _
  have hother : ∀ u, u ≠ t → (s.list (.put o t)).root u = s.root u := fun u hu => Function.update_of_ne hu _ _
  refine ⟨h.toSound.list (h.toSound.not_linked_iff.mpr hroot), h.nodup, fun u hu => ?_, h.running, fun u hu => ?_,
    h.blocked, fun u o' hu ho' => ?_, fun u hu hl w' hw hlink => ?_⟩
  · have hut : u ≠ t := fun heq => ht (heq ▸ hu)
    rw [hother u hut]
    exact h.absent u hu
  · by_cases hut : u = t
    · subst hut
      change s.state u = _ ↔ _
      rw [hself, hstate]
      exact iff_of_false nofun fun heq => ho (Option.some.inj heq)
    · change s.state u = _ ↔ _
      rw [hother u hut]
      exact h.ready u hu
  · by_cases hut : u = t
    · subst hut
      rw [hself] at hu
      exact ⟨w, hstate, Option.some.inj hu ▸ hwaits⟩
    · exact h.waits u o' (hother u hut ▸ hu) ho'
  · by_cases hut : u = t
    · subst hut
      rw [hself]
      exact nofun
    · rw [hother u hut]
      refine h.linked u hu (fun hmem => ?_) w' hw hlink
      exact (List.mem_cons.mp hmem).elim hut hl

theorem Placed.tighten (h : Placed adrift (t :: loose) s) (ht : ∀ w, s.state t ≠ .blocked w) :
    Placed adrift loose s where
  toSound := h.toSound
  nodup := h.nodup
  absent := h.absent
  running := h.running
  ready := h.ready
  blocked := h.blocked
  waits := h.waits
  linked u hu hl w hw hlink := by
    by_cases hut : u = t
    · subst hut
      exact absurd hw (ht w)
    · exact h.linked u hu (fun hmem => (List.mem_cons.mp hmem).elim hut hl) w hw hlink

theorem Placed.unlink (h : Placed adrift loose s) (ht : t ∈ adrift) :
    Placed adrift loose (s.list (.remove t)) ∧ (s.list (.remove t)).root t = none := by
  have hself : (s.list (.remove t)).root t = none := Function.update_self _ _ _
  have hother : ∀ u, u ≠ t → (s.list (.remove t)).root u = s.root u := fun u hu => Function.update_of_ne hu _ _
  have hne : ∀ u ∉ adrift, u ≠ t := fun u hu heq => hu (heq ▸ ht)
  refine ⟨⟨h.toSound.list trivial, h.nodup, fun u hu => ?_, h.running, fun u hu => ?_, h.blocked, fun u o hu => ?_,
    fun u hu => ?_⟩, hself⟩
  · obtain ⟨hdelay, hnext, hready⟩ := h.absent u hu
    refine ⟨hdelay, hnext, fun heq => ?_⟩
    by_cases hut : u = t
    · rw [hut, hself] at heq
      cases heq
    · exact hready (hother u hut ▸ heq)
  · rw [hother u (hne u hu)]
    exact h.ready u hu
  · have hut : u ≠ t := fun heq => by
      rw [heq, hself] at hu
      cases hu
    exact h.waits u o (hother u hut ▸ hu)
  · rw [hother u (hne u hu)]
    exact h.linked u hu

theorem Placed.elapse (h : Placed [] loose s) {ticks : ℕ} (hd : s.delays.apply d = s.delays.elapse ticks)
    (hallowed : s.delays.Allowed d) :
    Placed ((due (s.delays.now + ticks) s.delays.delayed).map Prod.fst) loose (s.delay d) := by
  have hsplit : s.delays.threads = (due (s.delays.now + ticks) s.delays.delayed).map Prod.fst ++
      (s.delays.elapse ticks).threads := by
    rw [Delays.threads, Delays.threads, Delays.elapse, ← List.append_assoc, ← List.map_append, due_append_later]
  have hthreads : (s.delay d).delays.threads = (s.delays.elapse ticks).threads := congrArg Delays.threads hd
  have hvalid := h.valid.nodup
  rw [hsplit] at hvalid
  obtain ⟨hnodup, -, hapart⟩ := List.nodup_append.mp hvalid
  have hsound := h.toSound.delay hallowed
  have hblocked : ∀ u ∈ (due (s.delays.now + ticks) s.delays.delayed).map Prod.fst, ∃ w, s.state u = .blocked w :=
    fun u hu => (h.blocked u List.not_mem_nil).mpr (hsplit ▸ List.mem_append_left _ hu)
  refine ⟨hsound, hnodup, fun u hu => ⟨fun hmem => ?_, fun hnext => ?_, fun hready => ?_⟩, fun u _ => ?_, fun u _ => ?_,
    fun u hu => ?_, h.waits, fun u _ => h.linked u List.not_mem_nil⟩
  · exact hapart u hu u (hthreads ▸ hmem) rfl
  · obtain ⟨w, hw⟩ := hblocked u hu
    exact ThreadState.noConfusion (hw.symm.trans ((h.running u List.not_mem_nil).mpr hnext))
  · obtain ⟨w, hw⟩ := hblocked u hu
    exact ThreadState.noConfusion (hw.symm.trans ((h.ready u List.not_mem_nil).mpr hready))
  · exact h.running u List.not_mem_nil
  · exact h.ready u List.not_mem_nil
  · rw [hthreads]
    refine (h.blocked u List.not_mem_nil).trans ?_
    rw [hsplit, List.mem_append, or_iff_right hu]

/-- Priorities do not move a thread to another object. -/
theorem Placed.setPriority (h : Placed adrift loose s) : Placed adrift loose (s.list (.setPriority t p)) :=
  ⟨h.toSound.list trivial, h.nodup, h.absent, h.running, h.ready, h.blocked, h.waits, h.linked⟩

/-- A thread that is dead is adrift when its control block is used again. -/
theorem Placed.revive (h : Placed adrift loose s) (ht : t ∉ adrift)
    (hdead : s.state t = .inactive ∨ s.state t = .terminated) :
    Placed (t :: adrift) loose (s.setState t .ready) ∧ s.root t = none := by
  have hnot : s.state t ≠ .running ∧ s.state t ≠ .ready ∧ ∀ w, s.state t ≠ .blocked w := by
    rcases hdead with hdead | hdead <;> rw [hdead] <;> exact ⟨nofun, nofun, nofun⟩
  have hroot := h.root_eq_none ht hnot.2.1 hnot.2.2
  have hother : ∀ u, u ≠ t → (s.setState t .ready).state u = s.state u := fun u hu => setState_of_ne hu
  refine ⟨⟨h.toSound.setState _, List.nodup_cons.mpr ⟨ht, h.nodup⟩, fun u hu => ?_, fun u hu => ?_, fun u hu => ?_,
    fun u hu => ?_, fun u o hu ho => ?_, fun u hu hl w hw hlink => ?_⟩, hroot⟩
  · rcases List.mem_cons.mp hu with rfl | hu
    · refine ⟨h.not_delayed ht hnot.2.2, h.not_running ht hnot.1, ?_⟩
      change s.root u ≠ _
      rw [hroot]
      exact nofun
    · exact h.absent u hu
  · obtain ⟨hut, hu⟩ := not_or.mp (mt List.mem_cons.mpr hu)
    rw [hother u hut]
    exact h.running u hu
  · obtain ⟨hut, hu⟩ := not_or.mp (mt List.mem_cons.mpr hu)
    rw [hother u hut]
    exact h.ready u hu
  · obtain ⟨hut, hu⟩ := not_or.mp (mt List.mem_cons.mpr hu)
    rw [hother u hut]
    exact h.blocked u hu
  · have hut : u ≠ t := fun heq => by
      rw [heq] at hu
      change s.root t = _ at hu
      rw [hroot] at hu
      cases hu
    rw [hother u hut]
    exact h.waits u o hu ho
  · obtain ⟨hut, hu⟩ := not_or.mp (mt List.mem_cons.mpr hu)
    rw [hother u hut] at hw
    exact h.linked u hu hl w hw hlink

end Sched

end Best1307.Rtx
