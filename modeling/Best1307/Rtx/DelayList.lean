import Best1307.Lib.DeltaList
import Best1307.Lib.Run
import Best1307.Lib.Tickless
import Best1307.Rtx.ThreadList

/-!
# Delays of threads

A thread that waits stands in one of two lists. With a timeout it is in the delay list, where each thread holds the
ticks to the one before it; without one it is in the wait list, and the value `osWaitForever` tells so. A tick makes
those ready whose time has come, and after a sleep of the system `svcRtxKernelResume` makes up for the ticks that were
missed.
-/

namespace Best1307.Rtx

open DoublyLinked DeltaQueue DeltaList PriorityQueue

def osWaitForever : ℕ := 0xFFFFFFFF

/-- What a link can lead from: the two lists and the threads. -/
inductive DelayPlace
  | delayList
  | waitList
  | thread (t : ThreadId)
  deriving DecidableEq, Repr

/-- `delay_prev` of what is behind a place: the first of a list has none. -/
def prevField : DelayPlace → Option ThreadId
  | .thread t => some t
  | _ => none

/-- The place that a field `delay_prev` means in a list -/
def placeOf (root : DelayPlace) : Option ThreadId → DelayPlace
  | some t => .thread t
  | none => root

/-- The fields `delay_list`, `wait_list`, `delay_next`, `delay_prev` and `delay`, and the threads that ticks have made
ready, in that order. -/
structure DelayLists where
  list : Timed ThreadId DelayPlace (Option ThreadId)
  readied : List ThreadId

namespace DelayLists

variable (fuel : ℕ) (t : ThreadId) (s : DelayLists)

def init : DelayLists := ⟨⟨⟨fun _ => none, fun _ => none⟩, fun _ => 0⟩, []⟩

def osRtxThreadDelayInsert (delay : ℕ) : Option DelayLists :=
  if delay = osWaitForever then
    (seek .thread s.list.links (fun _ => true) fuel .waitList).map fun place =>
      { s with list := { setTicks s.list t delay with links := insertAfter .thread prevField s.list.links place.1 t } }
  else
    (seekTicks .thread s.list fuel .delayList delay).map fun place =>
      { s with list := insertTicks .thread prevField s.list t place }

/-- `thread->delay_prev = NULL` -/
def clearPrev (list : Timed ThreadId DelayPlace (Option ThreadId)) : Timed ThreadId DelayPlace (Option ThreadId) :=
  { list with links := { list.links with prev := Function.update list.links.prev t none } }

/-- Taken out of the wait list, which has no ticks to hand on -/
def leaveWaitList : Timed ThreadId DelayPlace (Option ThreadId) :=
  { s.list with links := bypass .thread prevField s.list.links (placeOf .waitList (s.list.links.prev t)) t }

def leaveDelayList : Timed ThreadId DelayPlace (Option ThreadId) :=
  withdraw .thread prevField (2 ^ 32) s.list (placeOf .delayList (s.list.links.prev t)) t

/-- `osRtxThreadDelayRemove`, where a `delay_prev` that is null stays so -/
def osRtxThreadDelayRemove : DelayLists :=
  { s with list := clearPrev t (if s.list.ticks t = osWaitForever then s.leaveWaitList t else s.leaveDelayList t) }

/-- `thread->delay--` -/
def decrement : DelayLists :=
  { s with list := setTicks s.list t (if s.list.ticks t = 0 then 2 ^ 32 - 1 else s.list.ticks t - 1) }

/-- The loop of `osRtxThreadDelayTick` and what follows it, with `osRtxThreadReadyPut` for each thread -/
def delayElapsed : Option DelayLists :=
  (walkDue .thread s.list fuel (s.list.links.next .delayList)).map fun place =>
    { list := { s.list with links := connect prevField s.list.links .delayList place.1 }
      readied := s.readied ++ place.2 }

def osRtxThreadDelayTick : Option DelayLists :=
  match s.list.links.next .delayList with
  | none => some s
  | some t => if (s.decrement t).list.ticks t = 0 then (s.decrement t).delayElapsed fuel else some (s.decrement t)

/-- `delay_list->delay` -/
def firstDelay : Option ℕ := (s.list.links.next .delayList).map s.list.ticks

def setFirstDelay (delay : ℕ) : DelayLists :=
  match s.list.links.next .delayList with
  | none => s
  | some t => { s with list := setTicks s.list t delay }

def countdown : Countdown DelayLists := ⟨firstDelay, setFirstDelay, osRtxThreadDelayTick fuel⟩

/-- The part of `svcRtxKernelResume` on the delay list -/
def svcRtxKernelResume (sleepTicks : ℕ) : Option DelayLists := (countdown fuel).leaps sleepTicks sleepTicks s

end DelayLists

/-- What the kernel does with the lists of delays -/
inductive DelayEvent
  | insert (t : ThreadId) (delay : ℕ)
  | remove (t : ThreadId)
  | tick
  | resume (sleepTicks : ℕ)
  deriving DecidableEq, Repr

def DelayLists.step (fuel : ℕ) (s : DelayLists) : DelayEvent → Option DelayLists
  | .insert t delay => s.osRtxThreadDelayInsert fuel t delay
  | .remove t => some (s.osRtxThreadDelayRemove t)
  | .tick => s.osRtxThreadDelayTick fuel
  | .resume sleepTicks => s.svcRtxKernelResume fuel sleepTicks

/-! ### The deadlines the lists stand for -/

/-- The ticks so far, the threads that wait with their deadlines, those that wait for ever, and those that became
ready. -/
structure Delays where
  now : ℕ
  delayed : List (ThreadId × ℕ)
  waiting : List ThreadId
  readied : List ThreadId

namespace Delays

variable (t : ThreadId) (q : Delays)

def init : Delays := ⟨0, [], [], []⟩

def threads : List ThreadId := q.delayed.map Prod.fst ++ q.waiting

def insert (delay : ℕ) : Delays :=
  if delay = osWaitForever then { q with waiting := q.waiting ++ [t] }
  else { q with delayed := enqueue urgency (t, q.now + delay) q.delayed }

def remove : Delays :=
  { q with delayed := q.delayed.filter fun p => p.1 ≠ t, waiting := q.waiting.erase t }

/-- Those whose deadline has come become ready, the sooner first. -/
def elapse (ticks : ℕ) : Delays :=
  { q with
    now := q.now + ticks, delayed := later (q.now + ticks) q.delayed,
    readied := q.readied ++ (due (q.now + ticks) q.delayed).map Prod.fst }

/-- A thread waits once, with a timeout that is a word. -/
def Allowed : DelayEvent → Prop
  | .insert t delay => t ∉ q.threads ∧ delay ≠ 0 ∧ delay < 2 ^ 32
  | .remove t => t ∈ q.threads
  | .tick | .resume _ => True

instance Allowed.decidable : (e : DelayEvent) → Decidable (q.Allowed e)
  | .insert t delay => inferInstanceAs (Decidable (t ∉ q.threads ∧ delay ≠ 0 ∧ delay < 2 ^ 32))
  | .remove t => inferInstanceAs (Decidable (t ∈ q.threads))
  | .tick | .resume _ => inferInstanceAs (Decidable True)

def apply : DelayEvent → Delays
  | .insert t delay => q.insert t delay
  | .remove t => q.remove t
  | .tick => q.elapse 1
  | .resume sleepTicks => q.elapse sleepTicks

/-- No thread waits twice, deadlines lie ahead in their order, and the ticks to them are less than `osWaitForever`. -/
structure Valid : Prop where
  nodup : q.threads.Nodup
  sorted : Descending urgency q.delayed
  ahead : Ahead q.now q.delayed
  fits : ∀ p ∈ q.delayed, p.2 < q.now + osWaitForever

end Delays

/-- The lists hold these deadlines. -/
structure DelayLists.Represents (s : DelayLists) (q : Delays) : Prop where
  delayed : Holds .thread prevField s.list .delayList q.now q.delayed
  waiting : Chain .thread prevField s.list.links .waitList q.waiting
  forever : ∀ t ∈ q.waiting, s.list.ticks t = osWaitForever
  readied : s.readied = q.readied

/-! ### The deadlines by themselves -/

namespace Delays

variable {t u : ThreadId} {q : Delays} {e : DelayEvent} {delay ticks : ℕ}

theorem init_valid : init.Valid :=
  ⟨List.nodup_nil, Descending.nil, fun _ hp => absurd hp List.not_mem_nil, fun _ hp => absurd hp List.not_mem_nil⟩

theorem perm_threads_insert : List.Perm (q.insert t delay).threads (t :: q.threads) := by
  rw [insert]
  split
  · rw [threads, ← List.append_assoc]
    exact List.perm_append_singleton _ _
  · exact (perm_enqueue.map Prod.fst).append_right _

theorem Valid.insert (h : q.Valid) (ht : t ∉ q.threads) (hpos : delay ≠ 0) (hword : delay < 2 ^ 32) :
    (q.insert t delay).Valid := by
  have hnodup : (q.insert t delay).threads.Nodup :=
    perm_threads_insert.nodup_iff.mpr (List.nodup_cons.mpr ⟨ht, h.nodup⟩)
  by_cases hforever : delay = osWaitForever
  · rw [Delays.insert, if_pos hforever] at hnodup ⊢
    exact ⟨hnodup, h.sorted, h.ahead, h.fits⟩
  · rw [Delays.insert, if_neg hforever] at hnodup ⊢
    have hless : delay < osWaitForever := Nat.lt_of_le_of_ne (Nat.le_of_lt_succ hword) hforever
    refine ⟨hnodup, h.sorted.enqueue, fun p hp => ?_, fun p hp => ?_⟩
    · rcases mem_enqueue.mp hp with rfl | hp
      · exact Nat.lt_add_of_pos_right (Nat.pos_of_ne_zero hpos)
      · exact h.ahead p hp
    · rcases mem_enqueue.mp hp with rfl | hp
      · exact Nat.add_lt_add_left hless _
      · exact h.fits p hp

theorem Valid.remove (h : q.Valid) : (q.remove t).Valid where
  nodup := h.nodup.sublist ((List.filter_sublist.map _).append List.erase_sublist)
  sorted := h.sorted.sublist List.filter_sublist
  ahead p hp := h.ahead p (List.mem_of_mem_filter hp)
  fits p hp := h.fits p (List.mem_of_mem_filter hp)

theorem Valid.elapse (h : q.Valid) : (q.elapse ticks).Valid where
  nodup := h.nodup.sublist (((List.dropWhile_sublist _).map _).append_right _)
  sorted := h.sorted.sublist (List.dropWhile_sublist _)
  ahead := ahead_later h.sorted
  fits p hp := by
    have hfit := h.fits p ((List.dropWhile_sublist _).subset hp)
    rw [Delays.elapse]
    dsimp only
    omega

theorem Valid.apply (h : q.Valid) (he : q.Allowed e) : (q.apply e).Valid := by
  cases e with
  | insert t delay => exact h.insert he.1 he.2.1 he.2.2
  | remove t => exact h.remove
  | tick => exact h.elapse
  | resume ticks => exact h.elapse

theorem Valid.elapse_elapse (h : q.Valid) (j k : ℕ) : (q.elapse j).elapse k = q.elapse (j + k) := by
  have hle : q.now + j ≤ q.now + j + k := Nat.le_add_right _ _
  rw [Delays.elapse, Delays.elapse, Delays.elapse]
  dsimp only
  rw [later_later h.sorted hle, List.append_assoc, ← List.map_append, due_due h.sorted hle, Nat.add_assoc]

theorem Valid.elapse_zero (h : q.Valid) : q.elapse 0 = q := by
  rw [Delays.elapse, Nat.add_zero, later_of_ahead h.ahead, due_of_ahead h.ahead, List.map_nil, List.append_nil]

end Delays

/-! ### What the lists do to the deadlines -/

namespace DelayLists

variable {fuel : ℕ} {root root' : DelayPlace} {t u : ThreadId} {s s' : DelayLists} {q : Delays}
  {l l' l₁ l₂ : List ThreadId} {delay ticks : ℕ}

theorem places_nodup (hroot : ∀ t, root ≠ .thread t) (h : l.Nodup) : (places DelayPlace.thread root l).Nodup := by
  refine List.nodup_cons.mpr ⟨fun hmem => ?_, h.map fun _ _ heq => DelayPlace.thread.inj heq⟩
  obtain ⟨u, -, hu⟩ := List.mem_map.mp hmem
  exact hroot u hu.symm

theorem places_disjoint (hroot : ∀ t, root ≠ .thread t) (hroot' : ∀ t, root' ≠ .thread t) (hne : root' ≠ root)
    (h : List.Disjoint l' l) : List.Disjoint (places DelayPlace.thread root' l') (places DelayPlace.thread root l) := by
  intro p hp' hp
  rcases List.mem_cons.mp hp' with rfl | hp' <;> rcases List.mem_cons.mp hp with heq | hp
  · exact hne heq
  · obtain ⟨u, -, hu⟩ := List.mem_map.mp hp
    exact hroot' u hu.symm
  · obtain ⟨u, -, rfl⟩ := List.mem_map.mp hp'
    exact hroot u heq.symm
  · obtain ⟨u, hu, rfl⟩ := List.mem_map.mp hp'
    obtain ⟨v, hv, heq⟩ := List.mem_map.mp hp
    exact h hu (DelayPlace.thread.inj heq ▸ hv)

theorem delayList_ne (t : ThreadId) : DelayPlace.delayList ≠ .thread t := DelayPlace.noConfusion

theorem waitList_ne (t : ThreadId) : DelayPlace.waitList ≠ .thread t := DelayPlace.noConfusion

theorem placeOf_prevField (hroot : ∀ t, root ≠ .thread t) :
    placeOf root (prevField (endOf DelayPlace.thread root l)) = endOf DelayPlace.thread root l := by
  rcases List.mem_cons.mp (endOf_mem (p := root) (l := l)) with heq | hmem
  · rw [heq]
    cases root with
    | thread t => exact absurd rfl (hroot t)
    | delayList => rfl
    | waitList => rfl
  · obtain ⟨u, -, hu⟩ := List.mem_map.mp hmem
    rw [← hu]
    rfl

theorem Represents.apart (hvalid : q.Valid) : List.Disjoint q.waiting (q.delayed.map Prod.fst) := fun _ hw hd =>
  (List.nodup_append.mp hvalid.nodup).2.2 _ hd _ hw rfl

theorem keys_nodup (hvalid : q.Valid) : (q.delayed.map Prod.fst).Nodup := (List.nodup_append.mp hvalid.nodup).1

theorem waiting_nodup (hvalid : q.Valid) : q.waiting.Nodup := (List.nodup_append.mp hvalid.nodup).2.1

theorem Represents.insert_forever (h : s.Represents q) (hvalid : q.Valid) (ht : t ∉ q.threads)
    (hfuel : q.waiting.length ≤ fuel) :
    ∃ s', s.osRtxThreadDelayInsert fuel t osWaitForever = some s' ∧ s'.Represents (q.insert t osWaitForever) := by
  have hseek := h.waiting.seek_eq (fun _ => true) hfuel
  have hwhole : q.waiting.takeWhile (fun _ => true) = q.waiting := List.takeWhile_eq_self_iff.mpr fun _ _ => rfl
  have ht' : t ∉ q.delayed.map Prod.fst ∧ t ∉ q.waiting := by
    rw [Delays.threads, List.mem_append, not_or] at ht
    exact ht
  have hother : ∀ u, u ≠ t → (setTicks s.list t osWaitForever).ticks u = s.list.ticks u := fun u hu =>
    setTicks_ticks_of_ne hu
  have hchain : Chain .thread prevField s.list.links .waitList (q.waiting ++ []) := by
    rw [List.append_nil]
    exact h.waiting
  have hnodup : (q.waiting ++ [t]).Nodup := by
    refine List.nodup_append.mpr ⟨waiting_nodup hvalid, List.nodup_singleton t, fun u hu v hv heq => ?_⟩
    exact ht'.2 (List.mem_singleton.mp hv ▸ heq ▸ hu)
  rw [osRtxThreadDelayInsert, if_pos rfl, hseek, hwhole, Delays.insert, if_pos rfl]
  refine ⟨_, rfl, ⟨⟨?_, ?_⟩, hchain.insertAfter (places_nodup waitList_ne hnodup), fun u hu => ?_, h.readied⟩⟩
  · refine h.delayed.chain.insertAfter_other hchain (places_nodup delayList_ne (keys_nodup hvalid)) ?_
    refine places_disjoint waitList_ne delayList_ne DelayPlace.noConfusion fun u hd hw => ?_
    rcases List.mem_append.mp hw with hw | hw
    · exact Represents.apart hvalid hw hd
    · exact ht'.1 (List.mem_singleton.mp hw ▸ hd)
  · refine (congrArg _ (differences_congr fun u hu => hother u ?_)).trans h.delayed.deadlines
    exact fun heq => ht'.1 (heq ▸ hu)
  · by_cases hut : u = t
    · subst hut
      exact setTicks_ticks_self
    · refine (hother u hut).trans (h.forever u ?_)
      exact (List.mem_append.mp hu).resolve_right fun hmem => hut (List.mem_singleton.mp hmem)

/-- A thread goes into the delay list, behind those of the same deadline. -/
theorem Represents.insert_timeout (h : s.Represents q) (hvalid : q.Valid) (ht : t ∉ q.threads)
    (hdelay : delay ≠ osWaitForever) (hfuel : q.delayed.length ≤ fuel) :
    ∃ s', s.osRtxThreadDelayInsert fuel t delay = some s' ∧ s'.Represents (q.insert t delay) := by
  have ht' : t ∉ q.delayed.map Prod.fst ∧ t ∉ q.waiting := by
    rw [Delays.threads, List.mem_append, not_or] at ht
    exact ht
  have hnodup : (places DelayPlace.thread .delayList (t :: q.delayed.map Prod.fst)).Nodup :=
    places_nodup delayList_ne (List.nodup_cons.mpr ⟨ht'.1, keys_nodup hvalid⟩)
  obtain ⟨l₁, l₂, rest, hsplit, hseek, -, hholds⟩ := h.delayed.insert (d := delay) hnodup hfuel
  have hchain := h.delayed.chain
  rw [hsplit] at hchain
  rw [osRtxThreadDelayInsert, if_neg hdelay, hseek, Delays.insert, if_neg hdelay]
  refine ⟨_, rfl, ⟨hholds, ?_, fun u hu => ?_, h.readied⟩⟩
  · refine h.waiting.insertAfter_other hchain (places_nodup waitList_ne (waiting_nodup hvalid)) ?_
    refine places_disjoint delayList_ne waitList_ne DelayPlace.noConfusion fun u hw hd => ?_
    rcases List.mem_cons.mp (List.perm_middle.mem_iff.mp hd) with rfl | hd
    · exact ht'.2 hw
    · exact Represents.apart hvalid hw (hsplit ▸ hd)
  · refine (shorten_ticks_of_ne fun heq => ?_).trans ((setTicks_ticks_of_ne ?_).trans (h.forever u hu))
    · refine Represents.apart hvalid hu ?_
      rw [hsplit]
      exact List.mem_append_right _ (List.mem_of_head? heq)
    · exact fun heq => ht'.2 (heq ▸ hu)

/-- The field `delay_prev` of a thread that is in no list does not matter. -/
theorem chain_clearPrev {list : Timed ThreadId DelayPlace (Option ThreadId)} (hroot : ∀ t, root ≠ .thread t)
    (h : Chain .thread prevField list.links root l) (hnodup : l.Nodup) (ht : t ∉ l) :
    Chain .thread prevField (clearPrev t list).links root l :=
  h.congr (places_nodup hroot hnodup) (fun _ _ => rfl) fun u hu =>
    Function.update_of_ne (fun heq : u = t => ht (heq ▸ hu)) _ _

theorem Represents.remove_waiting (h : s.Represents q) (hvalid : q.Valid) (ht : t ∈ q.waiting) :
    (s.osRtxThreadDelayRemove t).Represents (q.remove t) := by
  obtain ⟨l₁, l₂, hsplit⟩ := List.append_of_mem ht
  have hchain := h.waiting
  have hnodup := waiting_nodup hvalid
  rw [hsplit] at hchain hnodup
  obtain ⟨htnot, hleft⟩ := List.nodup_cons.mp (List.perm_middle.nodup_iff.mp hnodup)
  have hdelayed : t ∉ q.delayed.map Prod.fst := fun hd => Represents.apart hvalid ht hd
  have hlist : (s.osRtxThreadDelayRemove t).list = clearPrev t
      { s.list with links := bypass .thread prevField s.list.links (endOf DelayPlace.thread .waitList l₁) t } := by
    rw [osRtxThreadDelayRemove, if_pos (h.forever t ht), leaveWaitList,
      (chain_cons.mp (chain_append.mp hchain).2).2.1, placeOf_prevField waitList_ne]
  have hfilter : q.delayed.filter (fun p => p.1 ≠ t) = q.delayed := List.filter_eq_self.mpr fun p hp =>
    decide_eq_true fun heq => hdelayed (heq ▸ List.mem_map_of_mem hp)
  have herase : q.waiting.erase t = l₁ ++ l₂ := by
    rw [hsplit, List.erase_append_right _ fun hin => htnot (List.mem_append_left _ hin), List.erase_cons_head]
  rw [Delays.remove, hfilter, herase]
  refine ⟨⟨?_, ?_⟩, ?_, fun u hu => ?_, h.readied⟩
  · rw [hlist]
    refine chain_clearPrev delayList_ne ?_ (keys_nodup (q := q) hvalid) hdelayed
    dsimp only
    rw [hchain.bypass_eq]
    refine h.delayed.chain.connect_other _ (places_nodup delayList_ne (keys_nodup (q := q) hvalid))
      (places_disjoint waitList_ne delayList_ne DelayPlace.noConfusion fun u hd hw => ?_)
    refine Represents.apart hvalid ?_ hd
    rw [hsplit]
    exact List.perm_middle.mem_iff.mpr (List.mem_cons_of_mem t hw)
  · rw [hlist]
    exact h.delayed.deadlines
  · rw [hlist]
    exact chain_clearPrev waitList_ne (hchain.bypass _ (places_nodup waitList_ne hnodup)) hleft htnot
  · rw [hlist]
    refine h.forever u ?_
    rw [hsplit]
    exact List.perm_middle.mem_iff.mpr (List.mem_cons_of_mem t hu)

theorem Represents.remove_delayed (h : s.Represents q) (hvalid : q.Valid) (ht : t ∈ q.delayed.map Prod.fst) :
    (s.osRtxThreadDelayRemove t).Represents (q.remove t) := by
  obtain ⟨deadline, hmem⟩ : ∃ deadline, (t, deadline) ∈ q.delayed := by
    obtain ⟨p, hp, rfl⟩ := List.mem_map.mp ht
    exact ⟨p.2, hp⟩
  obtain ⟨e₁, e₂, hsplit⟩ := List.append_of_mem hmem
  have hholds := h.delayed
  have hnodup := keys_nodup hvalid
  have hwaiting : t ∉ q.waiting := fun hw => Represents.apart hvalid hw ht
  have hticks : s.list.ticks t ≠ osWaitForever := by
    have hle := h.delayed.ticks_le hmem
    have hfit := hvalid.fits _ hmem
    dsimp only at hle hfit
    omega
  rw [hsplit] at hholds hnodup
  have hchain := hholds.chain
  simp only [List.map_append, List.map_cons] at hchain
  obtain ⟨htnot, hleft⟩ := List.nodup_cons.mp (List.perm_middle.nodup_iff.mp
    (show (e₁.map Prod.fst ++ t :: e₂.map Prod.fst).Nodup by simpa using hnodup))
  rw [← List.map_append] at htnot hleft
  have hlist : (s.osRtxThreadDelayRemove t).list = clearPrev t
      (withdraw .thread prevField (2 ^ 32) s.list (endOf DelayPlace.thread .delayList (e₁.map Prod.fst)) t) := by
    rw [osRtxThreadDelayRemove, if_neg hticks, leaveDelayList, (chain_cons.mp (chain_append.mp hchain).2).2.1,
      placeOf_prevField delayList_ne]
  have hfilter : q.delayed.filter (fun p => p.1 ≠ t) = e₁ ++ e₂ := by
    rw [hsplit, List.filter_append, List.filter_cons_of_neg (by simp), ← List.filter_append]
    exact List.filter_eq_self.mpr fun p hp => decide_eq_true fun heq => htnot (heq ▸ List.mem_map_of_mem hp)
  have hgone := hholds.withdraw (2 ^ 32) (places_nodup delayList_ne hnodup) fun p hp => by
    have hfit := hvalid.fits p (by
      rw [hsplit]
      exact List.mem_append_right _ (List.mem_cons_of_mem _ hp))
    exact Nat.lt_of_lt_of_le hfit (Nat.add_le_add_left (by decide) _)
  rw [Delays.remove, hfilter, List.erase_of_not_mem hwaiting]
  refine ⟨⟨?_, ?_⟩, ?_, fun u hu => ?_, h.readied⟩
  · rw [hlist]
    exact chain_clearPrev delayList_ne hgone.chain hleft htnot
  · rw [hlist]
    exact hgone.deadlines
  · rw [hlist]
    refine chain_clearPrev waitList_ne ?_ (waiting_nodup (q := q) hvalid) hwaiting
    refine (congrArg (Chain .thread prevField · .waitList q.waiting) hchain.bypass_eq).mpr ?_
    refine h.waiting.connect_other _ (places_nodup waitList_ne (waiting_nodup hvalid))
      (places_disjoint delayList_ne waitList_ne DelayPlace.noConfusion fun u hw hd => ?_)
    refine Represents.apart hvalid hw ?_
    rw [hsplit, List.map_append, List.map_cons]
    exact List.perm_middle.mem_iff.mpr (List.mem_cons_of_mem t hd)
  · rw [hlist]
    refine (lengthen_ticks_of_ne fun heq => ?_).trans (h.forever u hu)
    rw [(chain_cons.mp (chain_append.mp hchain).2).2.2.next_eq] at heq
    refine Represents.apart hvalid hu ?_
    rw [hsplit, List.map_append, List.map_cons]
    exact List.mem_append_right _ (List.mem_cons_of_mem t (List.mem_of_head? heq))

theorem Represents.remove (h : s.Represents q) (hvalid : q.Valid) (ht : t ∈ q.threads) :
    (s.osRtxThreadDelayRemove t).Represents (q.remove t) := by
  rcases List.mem_append.mp ht with ht | ht
  · exact h.remove_delayed hvalid ht
  · exact h.remove_waiting hvalid ht

/-- The first thread counts down, and so all of them do. -/
theorem Represents.decrement (h : s.Represents q) (hvalid : q.Valid)
    (hnext : s.list.links.next .delayList = some t) :
    Holds .thread prevField (s.decrement t).list .delayList (q.now + 1) q.delayed ∧
      ∀ u ∈ q.waiting, (s.decrement t).list.ticks u = osWaitForever := by
  have hhead := h.delayed.next_eq
  rw [hnext] at hhead
  have hmem : t ∈ q.delayed.map Prod.fst := List.mem_of_head? hhead.symm
  have hpos : 0 < s.list.ticks t := by
    have hahead := hvalid.ahead
    rw [← h.delayed.deadlines, ahead_deadlines] at hahead
    refine hahead (t, s.list.ticks t) ?_
    rw [differences, List.head?_map, ← hhead]
    rfl
  rw [DelayLists.decrement, if_neg (Nat.ne_of_gt hpos)]
  refine ⟨h.delayed.elapse (keys_nodup hvalid) hnext hpos, fun u hu => ?_⟩
  refine (setTicks_ticks_of_ne fun heq => ?_).trans (h.forever u hu)
  exact Represents.apart hvalid hu (heq ▸ hmem)

theorem Represents.tick (h : s.Represents q) (hvalid : q.Valid) (hfuel : q.delayed.length ≤ fuel) :
    ∃ s', s.osRtxThreadDelayTick fuel = some s' ∧ s'.Represents (q.elapse 1) := by
  have hhead := h.delayed.next_eq
  rw [osRtxThreadDelayTick, Delays.elapse]
  cases hnext : s.list.links.next .delayList with
  | none =>
      have hempty : q.delayed = [] := List.map_eq_nil_iff.mp (List.head?_eq_none_iff.mp (hhead.symm.trans hnext))
      refine ⟨s, rfl, ⟨?_, h.waiting, h.forever, ?_⟩⟩
      · rw [hempty]
        exact holds_nil hnext
      · rw [hempty]
        exact h.readied.trans (List.append_nil _).symm
  | some t =>
      obtain ⟨hholds, hforever⟩ := h.decrement hvalid hnext
      have hticks := hholds.next_eq
      dsimp only
      split
      case isTrue hdue =>
        rw [delayElapsed, hholds.walk hfuel]
        refine ⟨_, rfl, ⟨hholds.cut (places_nodup delayList_ne (keys_nodup hvalid)), ?_, hforever, ?_⟩⟩
        · refine h.waiting.connect_other [] (places_nodup waitList_ne (waiting_nodup hvalid))
            (places_disjoint delayList_ne waitList_ne DelayPlace.noConfusion fun u hw hd => ?_)
          exact Represents.apart hvalid hw (((List.dropWhile_sublist _).map Prod.fst).subset hd)
        · exact congrArg (· ++ _) h.readied
      case isFalse hwait =>
        have hahead : Ahead (q.now + 1) q.delayed := by
          rw [← hholds.deadlines, ahead_deadlines]
          intro p hp
          rw [differences, List.head?_map, ← hticks] at hp
          have hfirst : (s.decrement t).list.links.next .delayList = some t := hnext
          rw [hfirst] at hp
          obtain rfl := Option.some.inj hp
          exact Nat.pos_of_ne_zero hwait
        rw [later_of_ahead hahead, due_of_ahead hahead]
        exact ⟨_, rfl, ⟨hholds, h.waiting, hforever, h.readied.trans (List.append_nil _).symm⟩⟩

/-! ### Sleep -/

theorem decrement_of_pos (h : 0 < s.list.ticks t) :
    s.decrement t = { s with list := setTicks s.list t (s.list.ticks t - 1) } := by
  rw [DelayLists.decrement, if_neg (Nat.ne_of_gt h)]

theorem firstDelay_delayElapsed (h : s.delayElapsed fuel = some s') : s'.firstDelay ≠ some 0 := by
  obtain ⟨place, hplace, rfl⟩ := Option.map_eq_some_iff.mp h
  have hguard := guard_of_whileLoop hplace
  rw [firstDelay, connect_next_self]
  intro heq
  obtain ⟨t, ht, hzero⟩ := Option.map_eq_some_iff.mp heq
  rw [ht] at hguard
  exact absurd hzero (of_decide_eq_false hguard)

theorem countdown_lawful : (countdown fuel).Lawful where
  tick_none s hs := by
    have hnext : s.list.links.next .delayList = none := Option.map_eq_none_iff.mp hs
    simp only [countdown, osRtxThreadDelayTick, hnext]
  tick_wait s n hs := by
    obtain ⟨t, hnext, hticks⟩ := Option.map_eq_some_iff.mp hs
    have hleft : (s.decrement t).list.ticks t = n + 1 := by
      rw [decrement_of_pos (hticks ▸ Nat.succ_pos _), hticks]
      exact setTicks_ticks_self
    simp only [countdown, osRtxThreadDelayTick, setFirstDelay, hnext, hleft, Nat.succ_ne_zero, if_false]
    rw [decrement_of_pos (hticks ▸ Nat.succ_pos _), hticks]
    rfl
  tick_event s s' hs htick := by
    obtain ⟨t, hnext, hticks⟩ := Option.map_eq_some_iff.mp hs
    have hleft : (s.decrement t).list.ticks t = 0 := by
      rw [decrement_of_pos (hticks ▸ Nat.succ_pos _), hticks]
      exact setTicks_ticks_self
    simp only [countdown, osRtxThreadDelayTick, hnext, hleft, if_true] at htick
    exact firstDelay_delayElapsed htick
  head_setHead s n hs := by
    obtain ⟨delay, hdelay⟩ := Option.isSome_iff_exists.mp hs
    obtain ⟨t, hnext, -⟩ := Option.map_eq_some_iff.mp hdelay
    have hkept : (setTicks s.list t n).links.next .delayList = some t := hnext
    simp only [countdown, setFirstDelay, firstDelay, hnext, hkept]
    exact congrArg some setTicks_ticks_self
  setHead_setHead s m n := by
    simp only [countdown, setFirstDelay]
    cases hnext : s.list.links.next .delayList with
    | none => simp only [hnext]
    | some t =>
        simp only [setTicks, hnext, Function.update_idem]
  setHead_head s n hs := by
    obtain ⟨t, hnext, hticks⟩ := Option.map_eq_some_iff.mp hs
    simp only [countdown, setFirstDelay, hnext, setTicks, ← hticks, Function.update_eq_self]

theorem Represents.firstDelay_ne (h : s.Represents q) (hvalid : q.Valid) : s.firstDelay ≠ some 0 := by
  intro hzero
  obtain ⟨t, hnext, hticks⟩ := Option.map_eq_some_iff.mp hzero
  have hahead := hvalid.ahead
  rw [← h.delayed.deadlines, ahead_deadlines] at hahead
  refine Nat.ne_of_gt (hahead (t, s.list.ticks t) ?_) hticks
  rw [differences, List.head?_map, ← h.delayed.next_eq, hnext]
  rfl

theorem Represents.elapse (h : s.Represents q) (hvalid : q.Valid) (hfuel : q.delayed.length ≤ fuel) :
    ∃ s', (countdown fuel).elapse ticks s = some s' ∧ s'.Represents (q.elapse ticks) := by
  induction ticks generalizing s q with
  | zero =>
      rw [hvalid.elapse_zero]
      exact ⟨s, rfl, h⟩
  | succ ticks ih =>
      obtain ⟨s₁, hs₁, hrep⟩ := h.tick hvalid hfuel
      obtain ⟨s', hs', hrep'⟩ := ih hrep hvalid.elapse
        (Nat.le_trans (List.dropWhile_sublist _).length_le hfuel)
      rw [hvalid.elapse_elapse, Nat.add_comm 1] at hrep'
      exact ⟨s', Option.bind_eq_some_iff.mpr ⟨s₁, hs₁, hs'⟩, hrep'⟩

/-- After a sleep the list is what the ticks that were missed would have made of it, one by one. -/
theorem Represents.resume_eq (h : s.Represents q) (hvalid : q.Valid) (sleepTicks : ℕ) :
    s.svcRtxKernelResume fuel sleepTicks = (countdown fuel).elapse sleepTicks s :=
  countdown_lawful.leaps_eq (h.firstDelay_ne hvalid) (Nat.le_refl _)

end DelayLists

/-! ### Runs -/

def DelayEvent.thread : DelayEvent → Option ThreadId
  | .insert t _ | .remove t => some t
  | .tick | .resume _ => none

def DelayEvent.ticks : DelayEvent → ℕ
  | .insert _ _ | .remove _ => 0
  | .tick => 1
  | .resume sleepTicks => sleepTicks

namespace Delays

variable {n : ℕ} {t : ThreadId} {q q' : Delays} {e : DelayEvent} {events : List DelayEvent}

def Below (n : ℕ) (q : Delays) : Prop := ∀ t ∈ q.threads, t < n

theorem threads_apply (ht : t ∈ (q.apply e).threads) : t ∈ e.thread ∨ t ∈ q.threads := by
  cases e with
  | insert u delay =>
      exact (List.mem_cons.mp (perm_threads_insert.mem_iff.mp ht)).imp (fun heq : t = u => congrArg some heq.symm) id
  | remove u =>
      exact .inr (((List.filter_sublist.map Prod.fst).append List.erase_sublist).subset ht)
  | tick => exact .inr ((((List.dropWhile_sublist _).map Prod.fst).append_right _).subset ht)
  | resume ticks => exact .inr ((((List.dropWhile_sublist _).map Prod.fst).append_right _).subset ht)

theorem Below.apply (h : q.Below n) (he : ∀ t ∈ e.thread, t < n) : (q.apply e).Below n := fun t ht =>
  (threads_apply ht).elim (he t) (h t)

theorem now_apply : (q.apply e).now = q.now + e.ticks := by
  cases e with
  | insert t delay =>
      simp only [apply, insert]
      split <;> rfl
  | remove t => rfl
  | tick => rfl
  | resume ticks => rfl

theorem now_foldl : (events.foldl apply q).now = q.now + (events.map DelayEvent.ticks).sum := by
  induction events generalizing q with
  | nil => rfl
  | cons e events ih => rw [List.foldl_cons, ih, now_apply, List.map_cons, List.sum_cons, Nat.add_assoc]

/-- A thread that does not wait for a deadline is not made ready, and time alone does not change that. -/
theorem count_of_not_delayed (ht : t ∉ q.delayed.map Prod.fst) (he : e.thread ≠ some t) :
    t ∉ (q.apply e).delayed.map Prod.fst ∧ (q.apply e).readied.count t = q.readied.count t := by
  have helapse : ∀ ticks, t ∉ (q.elapse ticks).delayed.map Prod.fst ∧
      (q.elapse ticks).readied.count t = q.readied.count t := fun ticks => by
    refine ⟨fun hmem => ht (((List.dropWhile_sublist _).map _).subset hmem), ?_⟩
    refine List.count_append.trans (congrArg _ (List.count_eq_zero.mpr fun hmem => ht ?_))
    exact ((List.takeWhile_sublist _).map _).subset hmem
  cases e with
  | insert u delay =>
      rw [apply, insert]
      split
      · exact ⟨ht, rfl⟩
      · refine ⟨fun hmem => ?_, rfl⟩
        rcases List.mem_cons.mp ((perm_enqueue.map Prod.fst).mem_iff.mp hmem) with rfl | hmem
        · exact he rfl
        · exact ht hmem
  | remove u => exact ⟨fun hmem => ht ((List.filter_sublist.map _).subset hmem), rfl⟩
  | tick => exact helapse 1
  | resume ticks => exact helapse ticks

/-- A thread with a deadline is made ready once, by the event with which the deadline comes. -/
theorem Valid.count_of_delayed (h : q.Valid) {deadline : ℕ} (ht : (t, deadline) ∈ q.delayed)
    (he : e.thread ≠ some t) :
    if deadline ≤ (q.apply e).now then
      t ∉ (q.apply e).delayed.map Prod.fst ∧ (q.apply e).readied.count t = q.readied.count t + 1
    else (t, deadline) ∈ (q.apply e).delayed ∧ (q.apply e).readied.count t = q.readied.count t := by
  have hahead : ¬ deadline ≤ q.now := Nat.not_le_of_lt (h.ahead _ ht)
  have hkeys := (List.nodup_append.mp h.nodup).1
  have helapse : ∀ ticks, if deadline ≤ q.now + ticks then
      t ∉ (q.elapse ticks).delayed.map Prod.fst ∧ (q.elapse ticks).readied.count t = q.readied.count t + 1
      else (t, deadline) ∈ (q.elapse ticks).delayed ∧ (q.elapse ticks).readied.count t = q.readied.count t :=
    fun ticks => by
      have hsplit := congrArg (List.map Prod.fst) (due_append_later (t := q.now + ticks) (l := q.delayed))
      rw [List.map_append] at hsplit
      rw [← hsplit] at hkeys
      obtain ⟨hdue, -, hcross⟩ := List.nodup_append.mp hkeys
      have hcount : (q.elapse ticks).readied.count t =
          q.readied.count t + ((due (q.now + ticks) q.delayed).map Prod.fst).count t := List.count_append
      split
      case isTrue hle =>
        have hmem : t ∈ (due (q.now + ticks) q.delayed).map Prod.fst :=
          List.mem_map_of_mem (f := Prod.fst) ((mem_due h.sorted).mpr ⟨ht, hle⟩)
        rw [hcount, List.count_eq_one_of_mem hdue hmem]
        exact ⟨fun hlater => hcross t hmem t hlater rfl, rfl⟩
      case isFalse hlt =>
        have hmem : (t, deadline) ∈ later (q.now + ticks) q.delayed :=
          (mem_later h.sorted).mpr ⟨ht, Nat.lt_of_not_le hlt⟩
        rw [hcount, List.count_eq_zero.mpr fun hdue => hcross t hdue t (List.mem_map_of_mem hmem) rfl]
        exact ⟨hmem, rfl⟩
  cases e with
  | insert u delay =>
      rw [now_apply, DelayEvent.ticks, Nat.add_zero, if_neg hahead, Delays.apply, Delays.insert]
      split
      · exact ⟨ht, rfl⟩
      · exact ⟨mem_enqueue.mpr (.inr ht), rfl⟩
  | remove u =>
      rw [now_apply, DelayEvent.ticks, Nat.add_zero, if_neg hahead]
      exact ⟨List.mem_filter.mpr ⟨ht, decide_eq_true fun heq : t = u => he (congrArg some heq.symm)⟩, rfl⟩
  | tick => exact helapse 1
  | resume ticks => exact helapse ticks

theorem count_foldl_of_not_delayed (ht : t ∉ q.delayed.map Prod.fst) (hother : ∀ e ∈ events, e.thread ≠ some t) :
    (events.foldl apply q).readied.count t = q.readied.count t := by
  induction events generalizing q with
  | nil => rfl
  | cons e events ih =>
      obtain ⟨he, hother⟩ := List.forall_mem_cons.mp hother
      obtain ⟨hnot, hcount⟩ := count_of_not_delayed ht he
      exact (ih hnot hother).trans hcount

theorem Valid.count_foldl (h : q.Valid) {deadline : ℕ} (ht : (t, deadline) ∈ q.delayed)
    (halong : Along (fun q e => some (Delays.apply q e)) Allowed q events) (hother : ∀ e ∈ events, e.thread ≠ some t) :
    (events.foldl Delays.apply q).readied.count t =
      q.readied.count t + if deadline ≤ (events.foldl Delays.apply q).now then 1 else 0 := by
  induction events generalizing q with
  | nil => exact (if_neg (Nat.not_le_of_lt (h.ahead _ ht))).symm ▸ rfl
  | cons e events ih =>
      obtain ⟨he, hother⟩ := List.forall_mem_cons.mp hother
      have hstep := h.count_of_delayed ht he
      rw [List.foldl_cons]
      split at hstep
      case isTrue hle =>
        have hlast : deadline ≤ (events.foldl Delays.apply (q.apply e)).now := by
          rw [now_foldl]
          exact Nat.le_trans hle (Nat.le_add_right _ _)
        rw [count_foldl_of_not_delayed hstep.1 hother, hstep.2, if_pos hlast]
      case isFalse hlt =>
        rw [ih (h.apply halong.1) hstep.1 (halong.2 _ rfl) hother, hstep.2]

theorem below_foldl (h : q.Below n) (hthreads : ∀ e ∈ events, ∀ t ∈ e.thread, t < n) :
    (events.foldl apply q).Below n := by
  induction events generalizing q with
  | nil => exact h
  | cons e events ih =>
      obtain ⟨he, hthreads⟩ := List.forall_mem_cons.mp hthreads
      exact ih (h.apply he) hthreads

theorem Valid.length_le (hvalid : q.Valid) (hbelow : q.Below n) : q.threads.length ≤ n := by
  rw [← List.length_range (n := n)]
  exact (List.subperm_of_subset hvalid.nodup fun t ht => List.mem_range.mpr (hbelow t ht)).length_le

end Delays

namespace DelayLists

variable {fuel : ℕ} {s : DelayLists} {q : Delays} {e : DelayEvent} {events : List DelayEvent}

theorem init_represents : init.Represents .init :=
  ⟨holds_nil rfl, chain_nil.mpr rfl, fun _ ht => absurd ht List.not_mem_nil, rfl⟩

theorem Represents.step (h : s.Represents q) (hvalid : q.Valid) (hbelow : q.Below fuel) (he : q.Allowed e) :
    ∃ s', step fuel s e = some s' ∧ s'.Represents (q.apply e) := by
  have hlength := hvalid.length_le hbelow
  rw [Delays.threads, List.length_append, List.length_map] at hlength
  have hdelayed : q.delayed.length ≤ fuel := Nat.le_trans (Nat.le_add_right _ _) hlength
  cases e with
  | insert t delay =>
      by_cases hforever : delay = osWaitForever
      · subst hforever
        exact h.insert_forever hvalid he.1 (Nat.le_trans (Nat.le_add_left _ _) hlength)
      · exact h.insert_timeout hvalid he.1 hforever hdelayed
  | remove t => exact ⟨_, rfl, h.remove hvalid he⟩
  | tick => exact h.tick hvalid hdelayed
  | resume sleepTicks =>
      rw [DelayLists.step, h.resume_eq hvalid]
      exact h.elapse hvalid hdelayed

theorem Represents.run (h : s.Represents q) (hvalid : q.Valid) (hbelow : q.Below fuel)
    (halong : Along (fun q e => some (Delays.apply q e)) Delays.Allowed q events)
    (hthreads : ∀ e ∈ events, ∀ t ∈ e.thread, t < fuel) :
    ∃ s', Best1307.run (DelayLists.step fuel) s events = some s' ∧ s'.Represents (events.foldl .apply q) ∧
      (events.foldl .apply q).Valid := by
  induction events generalizing s q with
  | nil => exact ⟨s, rfl, h, hvalid⟩
  | cons e events ih =>
      obtain ⟨hthread, hthreads⟩ := List.forall_mem_cons.mp hthreads
      obtain ⟨s', hs', hrep'⟩ := h.step hvalid hbelow halong.1
      obtain ⟨t, ht, hfin⟩ := ih hrep' (hvalid.apply halong.1) (hbelow.apply hthread) (halong.2 _ rfl) hthreads
      exact ⟨t, (run_cons_eq_some _).mpr ⟨s', hs', ht⟩, hfin⟩

theorem run_init (halong : Along (fun q e => some (Delays.apply q e)) Delays.Allowed .init events)
    (hthreads : ∀ e ∈ events, ∀ t ∈ e.thread, t < fuel) :
    ∃ s, run (DelayLists.step fuel) init events = some s ∧ s.Represents (events.foldl .apply .init) ∧
      (events.foldl .apply Delays.init).Valid :=
  init_represents.run Delays.init_valid (fun _ ht => absurd ht List.not_mem_nil) halong hthreads

/-- As long as a thread waits once, for some ticks, and only one that waits is taken out: whatever else happens to the
lists, a thread is made ready by the event with which its timeout has passed, neither sooner nor twice, and one that
waits for ever is not. -/
theorem delay_timeout {before after : List DelayEvent} {t : ThreadId} {delay : ℕ}
    (halong : Along (fun q e => some (Delays.apply q e)) Delays.Allowed .init (before ++ .insert t delay :: after))
    (hthreads : ∀ e ∈ before ++ .insert t delay :: after, ∀ u ∈ e.thread, u < fuel)
    (hother : ∀ e ∈ after, e.thread ≠ some t) :
    ∃ s s', run (DelayLists.step fuel) init (before ++ [.insert t delay]) = some s ∧
      run (DelayLists.step fuel) s after = some s' ∧
      s'.readied.count t = s.readied.count t +
        if delay ≠ osWaitForever ∧ delay ≤ (after.map DelayEvent.ticks).sum then 1 else 0 := by
  rw [List.append_cons] at halong hthreads
  obtain ⟨hbefore, hafter⟩ := halong.append
  obtain ⟨hthreads₁, hthreads₂⟩ := List.forall_mem_append.mp hthreads
  obtain ⟨hinit, hinsert⟩ := along_snoc.mp hbefore
  have hallowed := hinsert _ (run_some _ _ _)
  obtain ⟨s, hs, hrep, hvalid⟩ := run_init hbefore hthreads₁
  have hbelow := Delays.below_foldl (q := .init) (fun _ ht => absurd ht List.not_mem_nil) hthreads₁
  obtain ⟨s', hs', hrep', -⟩ := hrep.run hvalid hbelow (hafter _ (run_some _ _ _)) hthreads₂
  refine ⟨s, s', hs, hs', ?_⟩
  rw [hrep'.readied, hrep.readied]
  have hinserted : (before ++ [DelayEvent.insert t delay]).foldl Delays.apply .init =
      (before.foldl Delays.apply .init).insert t delay := List.foldl_concat _ _ _ _
  have hnow : ((before ++ [DelayEvent.insert t delay]).foldl Delays.apply .init).now =
      (before.foldl Delays.apply .init).now := by
    rw [List.foldl_concat]
    exact Delays.now_apply
  by_cases hforever : delay = osWaitForever
  · rw [if_neg fun h => h.1 hforever]
    refine Delays.count_foldl_of_not_delayed ?_ hother
    rw [hinserted, Delays.insert, if_pos hforever]
    exact fun hmem => hallowed.1 (List.mem_append_left _ hmem)
  · have hmem : (t, (before.foldl Delays.apply .init).now + delay) ∈
        ((before ++ [DelayEvent.insert t delay]).foldl Delays.apply .init).delayed := by
      rw [hinserted, Delays.insert, if_neg hforever]
      exact mem_enqueue.mpr (.inl rfl)
    have hlast := (@Delays.now_foldl ((before ++ [DelayEvent.insert t delay]).foldl Delays.apply .init) after).trans
      (congrArg (· + _) hnow)
    rw [hvalid.count_foldl hmem (hafter _ (run_some _ _ _)) hother, hlast]
    simp only [Nat.add_le_add_iff_left, ne_eq, hforever, not_false_eq_true, true_and]

theorem delay_timeout_second :
    ∃ s s', run (DelayLists.step 2) init [.insert 0 5, .tick, .insert 1 2] = some s ∧
      run (DelayLists.step 2) s [.remove 0, .tick, .insert 0 osWaitForever, .resume 3] = some s' ∧
      s'.readied.count 1 = s.readied.count 1 + 1 :=
  @delay_timeout 2 [.insert 0 5, .tick] [.remove 0, .tick, .insert 0 osWaitForever, .resume 3] 1 2
    (by decide) (by decide) (by decide)

theorem run_ticks (k : ℕ) (s : DelayLists) :
    run (DelayLists.step fuel) s (List.replicate k .tick) = (countdown fuel).elapse k s := by
  induction k generalizing s with
  | zero => rfl
  | succ k ih => exact congrArg _ (funext ih)

/-- In every run the leap over the ticks of a sleep ends where the ticks would have. -/
theorem delay_resume {sleepTicks : ℕ} (halong : Along (fun q e => some (Delays.apply q e)) Delays.Allowed .init events)
    (hthreads : ∀ e ∈ events, ∀ t ∈ e.thread, t < fuel) :
    run (DelayLists.step fuel) init (events ++ [.resume sleepTicks]) =
      run (DelayLists.step fuel) init (events ++ List.replicate sleepTicks .tick) := by
  obtain ⟨s, hs, hrep, hvalid⟩ := run_init halong hthreads
  rw [run_append, run_append, hs, Option.bind_some, Option.bind_some, run_ticks, ← hrep.resume_eq hvalid]
  exact Option.bind_fun_some _

theorem delay_resume_past_first :
    run (DelayLists.step 2) init [.insert 0 5, .insert 1 2, .tick, .resume 7] =
      run (DelayLists.step 2) init ([.insert 0 5, .insert 1 2, .tick] ++ List.replicate 7 .tick) :=
  @delay_resume 2 [.insert 0 5, .insert 1 2, .tick] 7 (by decide) (by decide)

end DelayLists

end Best1307.Rtx
