import Mathlib.Data.Int.Order.Basic
import Mathlib.Data.List.Induction
import Mathlib.Data.List.Perm.Subperm
import Best1307.Lib.DoublyLinked
import Best1307.Lib.PriorityQueue
import Best1307.Lib.Run

/-!
# Thread lists of the kernel

A thread is linked to at most one object, the ready list or what it waits for, through `thread_next` and `thread_prev`
of its control block. The field `thread_list` of an object lies where a thread has `thread_next`, so the object takes
part in the list as its root. What is linked to an object is a queue in the order of the priorities.
-/

namespace Best1307.Rtx

open DoublyLinked PriorityQueue

abbrev ThreadId := Nat

/-- What a thread may be linked to. -/
inductive ObjectId
  | ready
  | eventFlags (i : Nat)
  | mutex (i : Nat)
  | semaphore (i : Nat)
  | memoryPool (i : Nat)
  | messageQueue (i : Nat)
  deriving DecidableEq, Repr

/-- What `thread_prev` points to, told apart by `id`. -/
inductive Place
  | object (o : ObjectId)
  | thread (t : ThreadId)
  deriving DecidableEq, Repr

/-- The fields `thread_list`, `thread_next` and `thread_prev`, and the priorities. -/
structure ThreadLists where
  links : Links ThreadId Place (Option Place)
  priority : ThreadId → Int

namespace ThreadLists

variable (fuel : Nat) (o : ObjectId) (t : ThreadId) (priority : Int) (s : ThreadLists)

def init : ThreadLists := ⟨⟨fun _ => none, fun _ => none⟩, fun _ => 0⟩

def setThreadPrev (p : Option Place) : ThreadLists :=
  { s with links := { s.links with prev := Function.update s.links.prev t p } }

/-- What is behind the thread follows the place before it, and the thread is linked to nothing. -/
def unlinkAfter (p : Place) : ThreadLists :=
  { s with links := bypass .thread some s.links p t : ThreadLists }.setThreadPrev t none

def osRtxThreadListPut : Option ThreadLists :=
  (seek .thread s.links (fun u => s.priority t ≤ s.priority u) fuel (.object o)).map fun place =>
    { s with links := insertAfter .thread some s.links place.1 t }

/-- `osRtxThreadBlock`, the part that puts the running thread into the ready list -/
def osRtxThreadBlock : Option ThreadLists :=
  (seek .thread s.links (fun u => s.priority t < s.priority u) fuel (.object .ready)).map fun place =>
    { s with links := insertAfter .thread some s.links place.1 t }

/-- `osRtxThreadListGet`, which reads the first thread without a check -/
def osRtxThreadListGet : Option ThreadLists :=
  (s.links.next (.object o)).map fun t => s.unlinkAfter t (.object o)

def osRtxThreadListRemove : ThreadLists :=
  match s.links.prev t with
  | none => s
  | some p => s.unlinkAfter t p

def isThread : Option Place → Bool
  | some (.thread _) => true
  | _ => false

def up : Option Place → Option (Option Place)
  | some (.thread u) => some (s.links.prev u)
  | _ => none

/-- The loop of `osRtxThreadListSort`: up the list to what is not a thread -/
def searchObject : Option (Option Place) := whileLoop isThread s.up fuel (some (.thread t))

def osRtxThreadListSort : Option ThreadLists :=
  (s.searchObject fuel t).bind fun root =>
    match root with
    | some (.object o) => (s.osRtxThreadListRemove t).osRtxThreadListPut fuel o t
    | _ => some s

end ThreadLists

/-- What the kernel does with the lists. A new priority is followed by sorting. -/
inductive ListEvent
  | put (o : ObjectId) (t : ThreadId)
  | block (t : ThreadId)
  | get (o : ObjectId)
  | remove (t : ThreadId)
  | setPriority (t : ThreadId) (priority : Int)
  deriving DecidableEq, Repr

def ThreadLists.step (fuel : Nat) (s : ThreadLists) : ListEvent → Option ThreadLists
  | .put o t => s.osRtxThreadListPut fuel o t
  | .block t => s.osRtxThreadBlock fuel t
  | .get o => s.osRtxThreadListGet o
  | .remove t => some (s.osRtxThreadListRemove t)
  | .setPriority t priority =>
      { s with priority := Function.update s.priority t priority : ThreadLists }.osRtxThreadListSort fuel t

/-! ### The queues the lists stand for -/

/-- The threads linked to each object, in order, and the priorities. -/
structure ThreadQueues where
  queue : ObjectId → List ThreadId
  priority : ThreadId → Int

namespace ThreadQueues

variable (o : ObjectId) (t : ThreadId) (priority : Int) (q : ThreadQueues)

def init : ThreadQueues := ⟨fun _ => [], fun _ => 0⟩

def Linked : Prop := ∃ o, t ∈ q.queue o

def setQueue (l : List ThreadId) : ThreadQueues := { q with queue := Function.update q.queue o l }

def put : ThreadQueues := q.setQueue o (enqueue q.priority t (q.queue o))

def block : ThreadQueues := q.setQueue .ready (putBack q.priority t (q.queue .ready))

def get : ThreadQueues := q.setQueue o (q.queue o).tail

def remove : ThreadQueues := { q with queue := fun o => (q.queue o).erase t }

/-- A thread that is linked to an object stands behind its equals of the new priority, any other stays where it is. -/
def setPriority : ThreadQueues :=
  { queue := fun o =>
      if t ∈ q.queue o then enqueue (Function.update q.priority t priority) t ((q.queue o).erase t) else q.queue o
    priority := Function.update q.priority t priority }

/-- A thread is put where it is linked to nothing, and got where there is one. -/
def Allowed : ListEvent → Prop
  | .put _ t | .block t => ¬ q.Linked t
  | .get o => q.queue o ≠ []
  | .remove _ | .setPriority _ _ => True

def apply : ListEvent → ThreadQueues
  | .put o t => q.put o t
  | .block t => q.block t
  | .get o => q.get o
  | .remove t => q.remove t
  | .setPriority t priority => q.setPriority t priority

structure Once : Prop where
  nodup : ∀ o, (q.queue o).Nodup
  apart : ∀ o o' t, t ∈ q.queue o → t ∈ q.queue o' → o = o'

def Sorted : Prop := ∀ o, Descending q.priority (q.queue o)

end ThreadQueues

/-- The lists hold these queues, and a thread that is linked to nothing has no `thread_prev`. -/
structure ThreadLists.Represents (s : ThreadLists) (q : ThreadQueues) : Prop where
  priority : s.priority = q.priority
  chain : ∀ o, Chain .thread some s.links (.object o) (q.queue o)
  unlinked : ∀ t, ¬ q.Linked t → s.links.prev t = none

/-! ### The queues by themselves -/

namespace ThreadQueues

variable {o o' : ObjectId} {t u : ThreadId} {priority : Int} {q : ThreadQueues} {e : ListEvent} {l : List ThreadId}

@[simp] theorem setQueue_self : (q.setQueue o l).queue o = l := Function.update_self _ _ _

theorem setQueue_of_ne (h : o' ≠ o) : (q.setQueue o l).queue o' = q.queue o' := Function.update_of_ne h _ _

theorem Once.insert (h : q.Once) (ht : ¬ q.Linked t) (hperm : List.Perm l (t :: q.queue o)) :
    (q.setQueue o l).Once where
  nodup o' := by
    by_cases ho : o' = o
    · subst ho
      rw [setQueue_self, hperm.nodup_iff, List.nodup_cons]
      exact ⟨fun hmem => ht ⟨o', hmem⟩, h.nodup o'⟩
    · rw [setQueue_of_ne ho]
      exact h.nodup o'
  apart o₁ o₂ u h₁ h₂ := by
    have hcases : ∀ o', u ∈ (q.setQueue o l).queue o' → u = t ∧ o' = o ∨ u ∈ q.queue o' := fun o' hu => by
      by_cases ho : o' = o
      · subst ho
        rw [setQueue_self, hperm.mem_iff, List.mem_cons] at hu
        exact hu.imp (fun heq => ⟨heq, rfl⟩) id
      · rw [setQueue_of_ne ho] at hu
        exact .inr hu
    rcases hcases o₁ h₁ with ⟨rfl, rfl⟩ | h₁
    · rcases hcases o₂ h₂ with ⟨-, rfl⟩ | h₂
      · rfl
      · exact absurd ⟨o₂, h₂⟩ ht
    · rcases hcases o₂ h₂ with ⟨rfl, -⟩ | h₂
      · exact absurd ⟨o₁, h₁⟩ ht
      · exact h.apart o₁ o₂ u h₁ h₂

theorem Once.sublist {q' : ThreadQueues} (h : q.Once) (hsub : ∀ o, (q'.queue o).Sublist (q.queue o)) : q'.Once where
  nodup o := (h.nodup o).sublist (hsub o)
  apart o o' t ht ht' := h.apart o o' t ((hsub o).subset ht) ((hsub o').subset ht')

theorem Once.perm {q' : ThreadQueues} (h : q.Once) (hperm : ∀ o, List.Perm (q'.queue o) (q.queue o)) : q'.Once where
  nodup o := (hperm o).nodup_iff.mpr (h.nodup o)
  apart o o' t ht ht' := h.apart o o' t ((hperm o).mem_iff.mp ht) ((hperm o').mem_iff.mp ht')

theorem setPriority_perm : List.Perm ((q.setPriority t priority).queue o) (q.queue o) := by
  rw [setPriority]
  dsimp only
  split
  case isTrue ht => exact perm_enqueue.trans (List.perm_cons_erase ht).symm
  case isFalse => exact List.Perm.refl _

theorem get_sublist : ((q.get o).queue o').Sublist (q.queue o') := by
  rw [get]
  by_cases ho : o' = o
  · subst ho
    rw [setQueue_self]
    exact List.tail_sublist _
  · rw [setQueue_of_ne ho]

theorem Once.apply (h : q.Once) (he : q.Allowed e) : (q.apply e).Once := by
  cases e with
  | put o t => exact h.insert he perm_enqueue
  | block t => exact h.insert he perm_putBack
  | get o => exact h.sublist fun _ => get_sublist
  | remove t => exact h.sublist fun _ => List.erase_sublist
  | setPriority t priority => exact h.perm fun _ => setPriority_perm

theorem Sorted.setQueue (h : q.Sorted) (hl : Descending q.priority l) : (q.setQueue o l).Sorted := by
  intro o'
  by_cases ho : o' = o
  · subst ho
    rw [setQueue_self]
    exact hl
  · rw [setQueue_of_ne ho]
    exact h o'

theorem Sorted.apply (h : q.Sorted) (honce : q.Once) : (q.apply e).Sorted := by
  cases e with
  | put o t => exact h.setQueue (h o).enqueue
  | block t => exact h.setQueue (h .ready).putBack
  | get o => exact h.setQueue ((h o).sublist (List.tail_sublist _))
  | remove t => exact fun o => (h o).sublist List.erase_sublist
  | setPriority t priority =>
      intro o
      simp only [ThreadQueues.apply, setPriority]
      split
      case isTrue ht =>
        refine Descending.enqueue (((h o).sublist List.erase_sublist).congr fun u hu => ?_)
        exact Function.update_of_ne ((honce.nodup o).mem_erase_iff.mp hu).1 _ _
      case isFalse ht =>
        refine (h o).congr fun u hu => Function.update_of_ne ?_ _ _
        exact fun heq => ht (heq ▸ hu)

end ThreadQueues

/-! ### What the lists do to the queues -/

namespace ThreadLists

variable {fuel : Nat} {o : ObjectId} {t u : ThreadId} {s : ThreadLists} {q : ThreadQueues} {l l₁ l₂ : List ThreadId}
  {e : ListEvent} {events : List ListEvent}

theorem places_nodup (h : l.Nodup) : (places Place.thread (.object o) l).Nodup := by
  refine List.nodup_cons.mpr ⟨fun hmem => ?_, h.map fun _ _ heq => Place.thread.inj heq⟩
  obtain ⟨u, -, hu⟩ := List.mem_map.mp hmem
  cases hu

theorem places_disjoint {o' : ObjectId} {l' : List ThreadId} (ho : o' ≠ o) (h : List.Disjoint l' l) :
    List.Disjoint (places Place.thread (.object o') l') (places Place.thread (.object o) l) := by
  intro p hp' hp
  rcases List.mem_cons.mp hp' with rfl | hp' <;> rcases List.mem_cons.mp hp with heq | hp
  · exact ho (Place.object.inj heq)
  · obtain ⟨u, -, hu⟩ := List.mem_map.mp hp
    cases hu
  · obtain ⟨u, -, rfl⟩ := List.mem_map.mp hp'
    cases heq
  · obtain ⟨u, hu, rfl⟩ := List.mem_map.mp hp'
    obtain ⟨v, hv, heq⟩ := List.mem_map.mp hp
    exact h hu (Place.thread.inj heq ▸ hv)

/-- The loop finds the place, and there the thread is put. -/
theorem Represents.insert (h : s.Represents q) (honce : q.Once) (ht : ¬ q.Linked t) (pass : ThreadId → Bool)
    (hfuel : (q.queue o).length ≤ fuel) :
    ∃ place, seek .thread s.links pass fuel (.object o) = some place ∧
      Represents { s with links := insertAfter .thread some s.links place.1 t }
        (q.setQueue o ((q.queue o).takeWhile pass ++ t :: (q.queue o).dropWhile pass)) := by
  refine ⟨_, (h.chain o).seek_eq pass hfuel, ?_⟩
  have hwhole : (q.queue o).takeWhile pass ++ (q.queue o).dropWhile pass = q.queue o :=
    List.takeWhile_append_dropWhile
  have hchain := h.chain o
  rw [← hwhole] at hchain
  have hmem : ∀ u, u ∈ (q.queue o).takeWhile pass ++ t :: (q.queue o).dropWhile pass ↔ u = t ∨ u ∈ q.queue o :=
    fun u => PriorityQueue.perm_insert.mem_iff.trans List.mem_cons
  refine ⟨h.priority, fun o' => ?_, fun u hu => ?_⟩
  · by_cases ho : o' = o
    · subst ho
      rw [ThreadQueues.setQueue_self]
      refine hchain.insertAfter (places_nodup (PriorityQueue.perm_insert.nodup_iff.mpr ?_))
      exact List.nodup_cons.mpr ⟨fun hmem => ht ⟨o', hmem⟩, honce.nodup o'⟩
    · rw [ThreadQueues.setQueue_of_ne ho]
      refine (h.chain o').insertAfter_other hchain (places_nodup (honce.nodup o')) (places_disjoint ho ?_)
      intro u hu' hu
      rcases (hmem u).mp hu with rfl | hu
      · exact ht ⟨o', hu'⟩
      · exact ho (honce.apart o' o u hu' hu)
  · have hnot : ¬ (u = t ∨ u ∈ q.queue o) := fun hin => hu ⟨o, by
      rw [ThreadQueues.setQueue_self]
      exact (hmem u).mpr hin⟩
    rw [not_or] at hnot
    refine (insertAfter_prev_of_ne hnot.1 fun heq => hnot.2 ?_).trans (h.unlinked u ?_)
    · rw [(chain_append.mp hchain).2.next_eq] at heq
      exact (List.dropWhile_sublist pass).subset (List.mem_of_head? heq)
    · rintro ⟨o', ho'⟩
      by_cases ho : o' = o
      · exact hnot.2 (ho ▸ ho')
      · refine hu ⟨o', ?_⟩
        rw [ThreadQueues.setQueue_of_ne ho]
        exact ho'

theorem Represents.takeOut (l₁ : List ThreadId) (h : s.Represents q) (honce : q.Once)
    (hsplit : q.queue o = l₁ ++ t :: l₂) :
    (s.unlinkAfter t (endOf Place.thread (.object o) l₁)).Represents (q.setQueue o (l₁ ++ l₂)) := by
  have hchain := h.chain o
  have hnodup := honce.nodup o
  rw [hsplit] at hchain hnodup
  have hleft : (l₁ ++ l₂).Nodup := hnodup.sublist ((List.Sublist.refl l₁).append (List.sublist_cons_self t l₂))
  have hmem : ∀ u, u ∈ q.queue o ↔ u = t ∨ u ∈ l₁ ++ l₂ := fun u => by
    rw [hsplit, List.perm_middle.mem_iff, List.mem_cons]
  have htnot : t ∉ l₁ ++ l₂ := (List.nodup_cons.mp (List.perm_middle.nodup_iff.mp hnodup)).1
  have hnew : ∀ {o' : ObjectId} {l : List ThreadId}, t ∉ l → l.Nodup →
      Chain .thread some (bypass .thread some s.links (endOf Place.thread (.object o) l₁) t) (.object o') l →
      Chain .thread some (s.unlinkAfter t (endOf Place.thread (.object o) l₁)).links (.object o') l :=
    fun ht hl hkeep => hkeep.congr (places_nodup hl) (fun _ _ => rfl) fun u hu =>
      Function.update_of_ne (fun heq : u = t => ht (heq ▸ hu)) _ _
  refine ⟨h.priority, fun o' => ?_, fun u hu => ?_⟩
  · by_cases ho : o' = o
    · subst ho
      rw [ThreadQueues.setQueue_self]
      exact hnew htnot hleft (hchain.bypass _ (places_nodup hnodup))
    · have hapart : List.Disjoint (q.queue o') (q.queue o) := fun u hu' hu => ho (honce.apart o' o u hu' hu)
      rw [ThreadQueues.setQueue_of_ne ho]
      refine hnew (fun ht => hapart ht ((hmem t).mpr (.inl rfl))) (honce.nodup o') ?_
      rw [hchain.bypass_eq]
      refine (h.chain o').connect_other _ (places_nodup (honce.nodup o')) (places_disjoint ho ?_)
      exact fun u hu' hu => hapart hu' ((hmem u).mpr (.inr hu))
  · by_cases hut : u = t
    · subst hut
      exact Function.update_self _ _ _
    · have hnot : u ∉ l₁ ++ l₂ := fun hin => hu ⟨o, by
        rw [ThreadQueues.setQueue_self]
        exact hin⟩
      refine (Function.update_of_ne hut _ _).trans ?_
      rw [hchain.bypass_eq, connect_prev_of_ne fun heq => hnot (List.mem_append_right _ (List.mem_of_head? heq))]
      refine h.unlinked u fun ⟨o', ho'⟩ => ?_
      by_cases ho : o' = o
      · subst ho
        exact ((hmem u).mp ho').elim hut hnot
      · refine hu ⟨o', ?_⟩
        rw [ThreadQueues.setQueue_of_ne ho]
        exact ho'

theorem Represents.get (h : s.Represents q) (honce : q.Once) (hne : q.queue o ≠ []) :
    ∃ s', s.osRtxThreadListGet o = some s' ∧ s'.Represents (q.get o) := by
  obtain ⟨t, rest, hsplit⟩ := List.exists_cons_of_ne_nil hne
  have hnext := (h.chain o).next_eq
  rw [hsplit] at hnext
  have hout := h.takeOut [] honce hsplit
  rw [osRtxThreadListGet, hnext]
  refine ⟨_, rfl, ?_⟩
  rw [ThreadQueues.get, hsplit]
  exact hout

theorem remove_of_not_linked (ht : ¬ q.Linked t) : q.remove t = q := by
  have hqueue : (fun o => (q.queue o).erase t) = q.queue := funext fun o =>
    List.erase_of_not_mem fun hmem => ht ⟨o, hmem⟩
  rw [ThreadQueues.remove, hqueue]

theorem Represents.remove (h : s.Represents q) (honce : q.Once) :
    (s.osRtxThreadListRemove t).Represents (q.remove t) := by
  by_cases ht : q.Linked t
  · obtain ⟨o, hmem⟩ := ht
    obtain ⟨l₁, l₂, hsplit⟩ := List.append_of_mem hmem
    have hchain := h.chain o
    rw [hsplit] at hchain
    have hprev : s.links.prev t = some (endOf Place.thread (.object o) l₁) :=
      (chain_cons.mp (chain_append.mp hchain).2).2.1
    have hqueue : q.remove t = q.setQueue o (l₁ ++ l₂) := by
      rw [ThreadQueues.remove]
      refine congrArg (ThreadQueues.mk · q.priority) (funext fun o' => ?_)
      by_cases ho : o' = o
      · subst ho
        rw [Function.update_self, hsplit, List.erase_append_right, List.erase_cons_head]
        intro hin
        have hnodup := honce.nodup o'
        rw [hsplit] at hnodup
        exact (List.nodup_append.mp hnodup).2.2 t hin t List.mem_cons_self rfl
      · rw [Function.update_of_ne ho]
        exact List.erase_of_not_mem fun hin => ho (honce.apart o' o t hin hmem)
    rw [osRtxThreadListRemove, hprev, hqueue]
    exact h.takeOut l₁ honce hsplit
  · rw [osRtxThreadListRemove, h.unlinked t ht, remove_of_not_linked ht]
    exact h

theorem root_of_path (h : Path .thread some s.links (.object o) (l ++ [t])) (hfuel : l.length < fuel) :
    s.searchObject fuel t = some (some (.object o)) := by
  induction l using List.reverseRecOn generalizing t fuel with
  | nil =>
      obtain ⟨fuel, rfl⟩ := Nat.exists_eq_add_one.mpr (Nat.zero_lt_of_lt hfuel)
      have hup : s.up (some (.thread t)) = some (some (.object o)) := congrArg some h.2.1
      rw [searchObject, whileLoop_of_true rfl hup]
      exact whileLoop_of_false rfl
  | append_singleton l u ih =>
      obtain ⟨fuel, rfl⟩ := Nat.exists_eq_add_one.mpr (Nat.zero_lt_of_lt hfuel)
      obtain ⟨hbefore, hlast⟩ := path_append.mp h
      have hend : endOf Place.thread (.object o) (l ++ [u]) = .thread u := endOf_append
      have hup : s.up (some (.thread t)) = some (some (.thread u)) := by
        rw [up, hlast.2.1, hend]
      rw [List.length_append, List.length_singleton] at hfuel
      rw [searchObject, whileLoop_of_true rfl hup]
      exact ih hbefore (Nat.lt_of_succ_lt_succ hfuel)

theorem root_of_unlinked (h : s.links.prev t = none) : s.searchObject (fuel + 1) t = some none := by
  have hup : s.up (some (.thread t)) = some none := congrArg some h
  rw [searchObject, whileLoop_of_true rfl hup]
  exact whileLoop_of_false rfl

/-- Where the thread is does not depend on the priorities. -/
theorem Represents.root (h : s.Represents q) (ht : t ∈ q.queue o) (hfuel : (q.queue o).length ≤ fuel) :
    s.searchObject fuel t = some (some (.object o)) := by
  obtain ⟨l₁, l₂, hsplit⟩ := List.append_of_mem ht
  have hchain := h.chain o
  rw [hsplit, List.append_cons] at hchain
  refine root_of_path (chain_append.mp hchain).1 ?_
  rw [hsplit, List.length_append, List.length_cons] at hfuel
  omega

theorem Represents.withPriority (h : s.Represents q) (priority : ThreadId → Int) :
    Represents { s with priority := priority } { q with priority := priority } :=
  ⟨rfl, h.chain, h.unlinked⟩

theorem Represents.put (h : s.Represents q) (honce : q.Once) (ht : ¬ q.Linked t)
    (hfuel : (q.queue o).length ≤ fuel) :
    ∃ s', s.osRtxThreadListPut fuel o t = some s' ∧ s'.Represents (q.put o t) := by
  obtain ⟨place, hplace, hrep⟩ := h.insert honce ht (fun u => s.priority t ≤ s.priority u) hfuel
  rw [osRtxThreadListPut, hplace]
  refine ⟨_, rfl, ?_⟩
  rw [ThreadQueues.put, enqueue, ← h.priority]
  exact hrep

theorem Represents.block (h : s.Represents q) (honce : q.Once) (ht : ¬ q.Linked t)
    (hfuel : (q.queue .ready).length ≤ fuel) :
    ∃ s', s.osRtxThreadBlock fuel t = some s' ∧ s'.Represents (q.block t) := by
  obtain ⟨place, hplace, hrep⟩ := h.insert honce ht (fun u => s.priority t < s.priority u) hfuel
  rw [osRtxThreadBlock, hplace]
  refine ⟨_, rfl, ?_⟩
  rw [ThreadQueues.block, putBack, ← h.priority]
  exact hrep

/-- Taken out and put back with the new priority. -/
theorem remove_put (honce : q.Once) (ht : t ∈ q.queue o) (priority : Int) :
    (ThreadQueues.remove t { q with priority := Function.update q.priority t priority }).put o t =
      q.setPriority t priority := by
  refine congrArg (ThreadQueues.mk · _) (funext fun o' => ?_)
  by_cases ho : o' = o
  · subst ho
    rw [Function.update_self, if_pos ht]
    rfl
  · have hnot : t ∉ q.queue o' := fun hin => ho (honce.apart o' o t hin ht)
    rw [Function.update_of_ne ho, if_neg hnot]
    exact List.erase_of_not_mem hnot

theorem setPriority_of_not_linked (ht : ¬ q.Linked t) (priority : Int) :
    q.setPriority t priority = { q with priority := Function.update q.priority t priority } :=
  congrArg (ThreadQueues.mk · _) (funext fun o => if_neg fun hmem => ht ⟨o, hmem⟩)

theorem Represents.setPriority (h : s.Represents q) (honce : q.Once) (hfuel : ∀ o, (q.queue o).length ≤ fuel)
    (hpos : 0 < fuel) (priority : Int) :
    ∃ s', step fuel s (.setPriority t priority) = some s' ∧ s'.Represents (q.setPriority t priority) := by
  have hrep := h.withPriority (Function.update q.priority t priority)
  have honce' : ThreadQueues.Once { q with priority := Function.update q.priority t priority } :=
    ⟨honce.nodup, honce.apart⟩
  rw [step, h.priority, osRtxThreadListSort]
  by_cases ht : q.Linked t
  · obtain ⟨o, hmem⟩ := ht
    rw [hrep.root hmem (hfuel o), ← remove_put honce hmem]
    refine (hrep.remove honce').put (honce'.sublist fun _ => List.erase_sublist) ?_ ?_
    · rintro ⟨o', ho'⟩
      exact ((honce.nodup o').mem_erase_iff.mp ho').1 rfl
    · exact Nat.le_trans List.erase_sublist.length_le (hfuel o)
  · obtain ⟨fuel, rfl⟩ := Nat.exists_eq_add_one.mpr hpos
    rw [root_of_unlinked (hrep.unlinked t ht), setPriority_of_not_linked ht]
    exact ⟨_, rfl, hrep⟩

end ThreadLists

/-! ### Runs -/

def ListEvent.thread : ListEvent → Option ThreadId
  | .put _ t | .block t | .remove t | .setPriority t _ => some t
  | .get _ => none

def ThreadQueues.Below (n : Nat) (q : ThreadQueues) : Prop := ∀ o, ∀ t ∈ q.queue o, t < n

namespace ThreadQueues

variable {n : Nat} {q : ThreadQueues} {e : ListEvent}

theorem Once.length_le (honce : q.Once) (hbelow : q.Below n) (o : ObjectId) : (q.queue o).length ≤ n := by
  rw [← List.length_range (n := n)]
  exact (List.subperm_of_subset (honce.nodup o) fun t ht => List.mem_range.mpr (hbelow o t ht)).length_le

theorem Below.apply (h : q.Below n) (he : ∀ t ∈ e.thread, t < n) : (q.apply e).Below n := by
  have hset : ∀ o (l : List ThreadId), (∀ t ∈ l, t < n) → (q.setQueue o l).Below n := fun o l hl o' => by
    by_cases ho : o' = o
    · subst ho
      rw [ThreadQueues.setQueue_self]
      exact hl
    · rw [ThreadQueues.setQueue_of_ne ho]
      exact h o'
  cases e with
  | put o t =>
      refine hset o _ fun u hu => ?_
      rcases mem_enqueue.mp hu with rfl | hu
      · exact he u rfl
      · exact h o u hu
  | block t =>
      refine hset .ready _ fun u hu => ?_
      rcases mem_putBack.mp hu with rfl | hu
      · exact he u rfl
      · exact h .ready u hu
  | get o => exact hset o _ fun u hu => h o u (List.mem_of_mem_tail hu)
  | remove t => exact fun o u hu => h o u (List.mem_of_mem_erase hu)
  | setPriority t priority => exact fun o u hu => h o u (ThreadQueues.setPriority_perm.mem_iff.mp hu)

theorem init_once : init.Once := ⟨fun _ => List.nodup_nil, fun _ _ _ ht => absurd ht List.not_mem_nil⟩

theorem init_sorted : init.Sorted := fun _ => Descending.nil

end ThreadQueues

namespace ThreadLists

variable {fuel : Nat} {s : ThreadLists} {q : ThreadQueues} {e : ListEvent} {events : List ListEvent}

theorem init_represents : init.Represents .init :=
  ⟨rfl, fun _ => chain_nil.mpr rfl, fun _ _ => rfl⟩

theorem Represents.step (h : s.Represents q) (honce : q.Once) (hbelow : q.Below fuel) (he : q.Allowed e)
    (hthread : ∀ t ∈ e.thread, t < fuel) : ∃ s', step fuel s e = some s' ∧ s'.Represents (q.apply e) := by
  have hfuel := honce.length_le hbelow
  cases e with
  | put o t => exact h.put honce he (hfuel o)
  | block t => exact h.block honce he (hfuel .ready)
  | get o => exact h.get honce he
  | remove t => exact ⟨_, rfl, h.remove honce⟩
  | setPriority t priority => exact h.setPriority honce hfuel (Nat.zero_lt_of_lt (hthread t rfl)) priority

/-- From queues that the lists represent, a run leads to queues that they represent. -/
theorem Represents.run (h : s.Represents q) (honce : q.Once) (hsorted : q.Sorted) (hbelow : q.Below fuel)
    (halong : Along (fun q e => some (ThreadQueues.apply q e)) ThreadQueues.Allowed q events)
    (hthreads : ∀ e ∈ events, ∀ t ∈ e.thread, t < fuel) :
    ∃ s', Best1307.run (ThreadLists.step fuel) s events = some s' ∧ s'.Represents (events.foldl .apply q) ∧
      (events.foldl .apply q).Once ∧ (events.foldl .apply q).Sorted := by
  induction events generalizing s q with
  | nil => exact ⟨s, rfl, h, honce, hsorted⟩
  | cons e events ih =>
      obtain ⟨hthread, hthreads⟩ := List.forall_mem_cons.mp hthreads
      obtain ⟨s', hs', hrep'⟩ := h.step honce hbelow halong.1 hthread
      obtain ⟨t, ht, hfin⟩ := ih hrep' (honce.apply halong.1) (hsorted.apply honce) (hbelow.apply hthread)
        (halong.2 _ rfl) hthreads
      exact ⟨t, (run_cons_eq_some _).mpr ⟨s', hs', ht⟩, hfin⟩

/-- In every run the linked lists are the queues: no thread is lost or linked twice, and each queue stays sorted. -/
theorem threadLists_refine (halong : Along (fun q e => some (ThreadQueues.apply q e)) ThreadQueues.Allowed .init events)
    (hthreads : ∀ e ∈ events, ∀ t ∈ e.thread, t < fuel) :
    ∃ s, run (ThreadLists.step fuel) .init events = some s ∧ s.Represents (events.foldl .apply .init) ∧
      (events.foldl .apply ThreadQueues.init).Once ∧ (events.foldl .apply ThreadQueues.init).Sorted :=
  init_represents.run ThreadQueues.init_once ThreadQueues.init_sorted (fun _ _ ht => absurd ht List.not_mem_nil)
    halong hthreads

theorem threadLists_refine_raised :
    ∃ s, run (ThreadLists.step 2) .init [.put .ready 0, .put .ready 1, .setPriority 1 2, .get .ready] = some s ∧
      s.Represents ([.put .ready 0, .put .ready 1, .setPriority 1 2, .get .ready].foldl .apply .init) ∧
      ThreadQueues.Once ([.put .ready 0, .put .ready 1, .setPriority 1 2, .get .ready].foldl .apply .init) ∧
      ThreadQueues.Sorted ([.put .ready 0, .put .ready 1, .setPriority 1 2, .get .ready].foldl .apply .init) := by
  have hbelow : (ThreadQueues.init.put .ready 0).Below 1 :=
    ThreadQueues.Below.apply (e := .put .ready 0) (fun _ _ ht => absurd ht List.not_mem_nil) (by decide)
  refine threadLists_refine ⟨fun ⟨_, hmem⟩ => absurd hmem List.not_mem_nil, ?_⟩ (by decide)
  rintro _ ⟨⟩
  refine ⟨fun ⟨o, hmem⟩ => absurd (hbelow o 1 hmem) (by decide), ?_⟩
  rintro _ ⟨⟩
  refine ⟨trivial, ?_⟩
  rintro _ ⟨⟩
  exact ⟨List.cons_ne_nil 1 [0], fun _ _ => trivial⟩

end ThreadLists

end Best1307.Rtx
