import Best1307.Lib.FlashQueue
import Best1307.Lib.SlotRing

/-!
# A numbered log in a ring of flash cells

The entries of a log are numbered from 0 on, and entry `k` lies in cell `k` modulo the number of cells, which is
erased before it is written. A cell shows the number of the entry it holds, perhaps before all of the entry is
there. From the numbers shown, the log can be taken up again after a power cut.
-/

namespace Best1307.FlashRing

open FlashQueue SlotRing

variable {Content : Type*} {shown : Content → Option Nat} {blank : Content} {count : Nat}
  {log : List Content} {n k m c : Nat} {cells : Nat → Content}

/-- The cell `c` of a ring is that of one of the last `count` of `n` entries, if it was used at all. -/
theorem exists_entry (hc : c < count) (hn : c < n) : ∃ k, k < n ∧ n ≤ k + count ∧ k % count = c := by
  have hdiv := Nat.div_add_mod (n - 1 - c) count
  have hlt := Nat.mod_lt (n - 1 - c) (show 0 < count by omega)
  refine ⟨c + count * ((n - 1 - c) / count), by omega, by omega, ?_⟩
  rw [Nat.add_mul_mod_self_left, Nat.mod_eq_of_lt hc]

theorem mod_ne_of_lt (hk : k < n) (hn : n < k + count) : k % count ≠ n % count :=
  mod_ne (Nat.le_refl k) (by omega) (Nat.le_of_lt hk) hn (Nat.ne_of_lt hk)

theorem getElem?_concat_cases {content other : Content} (h : (log ++ [content])[k]? = some other) :
    k < log.length ∧ log[k]? = some other ∨ k = log.length ∧ other = content := by
  rcases Nat.lt_trichotomy k log.length with hlt | rfl | hgt
  · rw [List.getElem?_append_left hlt] at h
    exact .inl ⟨hlt, h⟩
  · rw [List.getElem?_concat_length] at h
    exact .inr ⟨rfl, (Option.some.inj h).symm⟩
  · rw [List.getElem?_eq_none (by rw [List.length_append, List.length_singleton]; omega)] at h
    cases h

def Numbered (shown : Content → Option Nat) (log : List Content) : Prop :=
  ∀ k content, log[k]? = some content → shown content = some k

theorem Numbered.append (h : Numbered shown log) {content : Content} (hshown : shown content = some log.length) :
    Numbered shown (log ++ [content]) := by
  intro k other hk
  rcases getElem?_concat_cases hk with ⟨-, hold⟩ | ⟨rfl, rfl⟩
  · exact h k other hold
  · exact hshown

theorem Numbered.take (h : Numbered shown log) (n : Nat) : Numbered shown (log.take n) := by
  intro k content hk
  rw [List.getElem?_take] at hk
  split at hk
  · exact h k content hk
  · cases hk

/-- The cells hold the last of the `n` entries. The cell for the next one may show the entry it is to replace, and
cells never used show nothing. -/
structure Ready (shown : Content → Option Nat) (count : Nat) (log : List Content) (n : Nat)
    (cells : Nat → Content) : Prop where
  kept : ∀ k, k < n → n < k + count → log[k]? = some (cells (k % count))
  oldest : ∀ m, shown (cells (n % count)) = some m → m + count = n
  fresh : ∀ c, n ≤ c → c < count → shown (cells c) = none

namespace Ready

theorem zero (hcount : 0 < count) (hblank : ∀ c, c < count → shown (cells c) = none) :
    Ready shown count log 0 cells where
  kept k hk := absurd hk (Nat.not_lt_zero k)
  oldest m hm := by
    rw [hblank _ (Nat.mod_lt 0 hcount)] at hm
    cases hm
  fresh c _ hc := hblank c hc

theorem congr (h : Ready shown count log n cells) {log' : List Content}
    (hlog : ∀ k, k < n → log'[k]? = log[k]?) : Ready shown count log' n cells where
  kept k hk hn := (hlog k hk).trans (h.kept k hk hn)
  oldest := h.oldest
  fresh := h.fresh

/-- What a cell shows is the number of an entry that belongs there, and of one of the last. -/
theorem shown_eq (h : Ready shown count log n cells) (hlog : Numbered shown log) (hc : c < count)
    (hm : shown (cells c) = some m) : m < n ∧ n ≤ m + count ∧ m % count = c := by
  rcases Nat.lt_or_ge c n with hused | hfresh
  · obtain ⟨k, hk, hlast, rfl⟩ := exists_entry hc hused
    rcases Nat.eq_or_lt_of_le hlast with holdest | hkept
    · rw [← Nat.add_mod_right k count, ← holdest] at hm
      have := h.oldest m hm
      obtain rfl : m = k := by omega
      exact ⟨hk, hlast, rfl⟩
    · have hk' := hlog k _ (h.kept k hk hkept)
      rw [hm] at hk'
      obtain rfl := Option.some.inj hk'
      exact ⟨hk, hlast, rfl⟩
  · rw [h.fresh c hfresh hc] at hm
    cases hm

/-- The cell for the next entry takes any content that shows nothing or the oldest entry. -/
theorem update (h : Ready shown count log n cells) {content : Content}
    (hcontent : ∀ m, shown content = some m → m + count = n) :
    Ready shown count log n (Function.update cells (n % count) content) where
  kept k hk hn := by
    rw [Function.update_of_ne (mod_ne_of_lt hk hn)]
    exact h.kept k hk hn
  oldest := by
    rw [Function.update_self]
    exact hcontent
  fresh c hc hlt := by
    rcases Nat.eq_or_lt_of_le hc with rfl | hgt
    · rw [Nat.mod_eq_of_lt hlt, Function.update_self]
      refine Option.eq_none_iff_forall_not_mem.mpr fun m hm => ?_
      have := hcontent m hm
      omega
    · have hne : c ≠ n % count := by
        have := Nat.mod_le n count
        omega
      rw [Function.update_of_ne hne]
      exact h.fresh c hc hlt

theorem write (h : Ready shown count log n cells) (hcount : 0 < count) (hlog : Numbered shown log)
    {content : Content} (hnext : log[n]? = some content) :
    Ready shown count log (n + 1) (Function.update cells (n % count) content) where
  kept k hk hn := by
    rcases Nat.lt_succ_iff_lt_or_eq.mp hk with hlt | rfl
    · rw [Function.update_of_ne (mod_ne_of_lt hlt (by omega))]
      exact h.kept k hlt (by omega)
    · rw [Function.update_self]
      exact hnext
  oldest m hm := by
    by_cases hcell : (n + 1) % count = n % count
    · rw [hcell, Function.update_self, hlog n content hnext] at hm
      obtain rfl := Option.some.inj hm
      by_contra hne
      exact mod_ne_of_lt (Nat.lt_succ_self n) (by omega) hcell.symm
    · rw [Function.update_of_ne hcell] at hm
      obtain ⟨hlt, hle, hmod⟩ := h.shown_eq hlog (Nat.mod_lt _ hcount) hm
      have hnot : m + count ≠ n := by
        rintro rfl
        exact hcell (hmod.symm.trans (Nat.add_mod_right m count).symm)
      by_contra hne
      exact mod_ne_of_lt (show m < n + 1 by omega) (by omega) hmod
  fresh c hc hlt := by
    have hne : c ≠ n % count := by
      have := Nat.mod_le n count
      omega
    rw [Function.update_of_ne hne]
    exact h.fresh c (by omega) hlt

/-- The log can be taken up behind the entry with the highest number, or where no number shows, from the start. -/
theorem takeUp (h : Ready shown count log n cells) (hcount : 0 < count) (hlog : Numbered shown log) :
    (∀ c, c < count → shown (cells c) = none) ∨ ∃ last, n = last + 1 ∧ shown (cells (last % count)) = some last := by
  cases n with
  | zero => exact .inl fun c hc => h.fresh c (Nat.zero_le c) hc
  | succ last =>
      rcases Nat.lt_or_ge 1 count with hmany | hone
      · exact .inr ⟨last, rfl, hlog last _ (h.kept last (Nat.lt_succ_self last) (by omega))⟩
      · obtain rfl : count = 1 := by omega
        cases hzero : shown (cells 0) with
        | none =>
            refine .inl fun c hc => ?_
            rw [Nat.lt_one_iff.mp hc, hzero]
        | some m =>
            refine .inr ⟨last, rfl, ?_⟩
            have := h.oldest m (by rw [Nat.mod_one, hzero])
            rw [Nat.mod_one, hzero, show m = last by omega]

end Ready

/-! ### Erasing and writing through the queue -/

/-- Queued operations that erase the cell of an entry and then write the entry there, one entry after the other,
from entry `n` on up to `n'`; the flags say whether the cell of the entry is erased already. -/
inductive Pending (blank : Content) (count : Nat) (log : List Content) :
    Nat → Bool → List (Op Nat Content) → Nat → Bool → Prop
  | drained {n : Nat} {erased : Bool} : Pending blank count log n erased [] n erased
  | erase {n n' : Nat} {erased' : Bool} {ops : List (Op Nat Content)}
      (h : Pending blank count log n true ops n' erased') :
      Pending blank count log n false (⟨n % count, fun _ => blank⟩ :: ops) n' erased'
  | write {n n' : Nat} {erased' : Bool} {ops : List (Op Nat Content)} {effect : Content → Content}
      (hentry : log[n]? = some (effect blank)) (h : Pending blank count log (n + 1) false ops n' erased') :
      Pending blank count log n true (⟨n % count, effect⟩ :: ops) n' erased'

namespace Pending

variable {erased erased' : Bool} {n' : Nat} {ops : List (Op Nat Content)}

theorem append (h : Pending blank count log n erased ops n' erased') (tail : List Content) :
    Pending blank count (log ++ tail) n erased ops n' erased' := by
  induction h with
  | drained => exact .drained
  | erase _ ih => exact .erase ih
  | write hentry _ ih =>
      obtain ⟨hlt, -⟩ := List.getElem?_eq_some_iff.mp hentry
      exact .write (by rw [List.getElem?_append_left hlt, hentry]) ih

theorem snoc_erase (h : Pending blank count log n erased ops n' false) :
    Pending blank count log n erased (ops ++ [⟨n' % count, fun _ => blank⟩]) n' true := by
  generalize hlast : false = last at h
  induction h with
  | drained =>
      subst hlast
      exact .erase .drained
  | erase _ ih => exact .erase (ih hlast)
  | write hentry _ ih => exact .write hentry (ih hlast)

theorem snoc_write (h : Pending blank count log n erased ops n' true) {effect : Content → Content}
    (hentry : log[n']? = some (effect blank)) :
    Pending blank count log n erased (ops ++ [⟨n' % count, effect⟩]) (n' + 1) false := by
  generalize hlast : true = last at h
  induction h with
  | drained =>
      subst hlast
      exact .write hentry .drained
  | erase _ ih => exact .erase (ih hentry hlast)
  | write hentry' _ ih => exact .write hentry' (ih hentry hlast)

theorem le (h : Pending blank count log n erased ops n' erased') : n ≤ n' := by
  induction h with
  | drained => exact Nat.le_refl _
  | erase _ ih => exact ih
  | write _ _ ih => exact Nat.le_of_succ_le ih

theorem le_add_length (h : Pending blank count log n erased ops n' erased') : n' ≤ n + ops.length := by
  induction h with
  | drained => exact Nat.le_refl _
  | erase _ ih =>
      rw [List.length_cons]
      omega
  | write _ _ ih =>
      rw [List.length_cons]
      omega

end Pending

/-- The cells are ready for entry `n`, whose cell is blank if it has been erased. -/
structure Stage (shown : Content → Option Nat) (blank : Content) (count : Nat) (log : List Content) (n : Nat)
    (erased : Bool) (cells : Nat → Content) : Prop where
  ready : Ready shown count log n cells
  blank : erased = true → cells (n % count) = blank

/-- What the cell of a half-done operation holds shows nothing, or what the cell showed before, or the operation
is as good as done. -/
def Clean (shown : Content → Option Nat) (cells : Nat → Content) (op : Op Nat Content) (content : Content) : Prop :=
  shown content = none ∨ shown content = shown (cells op.cell) ∨ content = op.effect (cells op.cell)

namespace Stage

variable {erased erased' : Bool} {op : Op Nat Content} {ops : List (Op Nat Content)} {n' : Nat}

theorem apply (h : Stage shown blank count log n erased cells) (hlog : Numbered shown log) (hcount : 0 < count)
    (hblank : shown blank = none) (hpending : Pending blank count log n erased (op :: ops) n' erased') :
    ∃ next erased₁, Stage shown blank count log next erased₁ (op.apply cells) ∧
      Pending blank count log next erased₁ ops n' erased' := by
  cases hpending with
  | erase hops =>
      refine ⟨n, true, ⟨h.ready.update fun m hm => ?_, fun _ => Function.update_self ..⟩, hops⟩
      rw [hblank] at hm
      cases hm
  | write hentry hops =>
      refine ⟨n + 1, false, ⟨?_, fun h => by cases h⟩, hops⟩
      rw [← h.blank rfl] at hentry
      exact h.ready.write hcount hlog hentry

theorem cut (h : Stage shown blank count log n erased cells) (hlog : Numbered shown log) (hcount : 0 < count)
    (hblank : shown blank = none) (hpending : Pending blank count log n erased (op :: ops) n' erased')
    {content : Content} (hclean : Clean shown cells op content) :
    ∃ next, next ≤ n' ∧ Ready shown count log next (Function.update cells op.cell content) := by
  have hle := hpending.le
  -- content that shows nothing, or the entry to be replaced, leaves things as they are
  have hsame (hcontent : ∀ m, shown content = some m → shown (cells (n % count)) = some m) :
      Ready shown count log n (Function.update cells (n % count) content) :=
    h.ready.update fun m hm => h.ready.oldest m (hcontent m hm)
  have hnothing (hnone : shown content = none) :
      Ready shown count log n (Function.update cells (n % count) content) :=
    hsame fun m hm => absurd (hnone.symm.trans hm) (by simp only [reduceCtorEq, not_false_eq_true])
  cases hpending with
  | erase =>
      rcases hclean with hnone | hold | hdone
      · exact ⟨n, hle, hnothing hnone⟩
      · exact ⟨n, hle, hsame fun m hm => hold.symm.trans hm⟩
      · exact ⟨n, hle, hnothing (by rw [hdone, hblank])⟩
  | write hentry hops =>
      rcases hclean with hnone | hold | hdone
      · exact ⟨n, hle, hnothing hnone⟩
      · exact ⟨n, hle, hsame fun m hm => hold.symm.trans hm⟩
      · rw [← h.blank rfl] at hentry
        exact ⟨n + 1, hops.le, h.ready.write hcount hlog (hentry.trans (congrArg some hdone.symm))⟩

end Stage

/-- Power is cut between two operations, or in one that leaves its cell clean. -/
def CleanCut (shown : Content → Option Nat) (d : Device Nat Content) : Prop :=
  ∀ op ∈ d.queue.head?, ∀ content ∈ d.torn, Clean shown d.cells op content

/-- The device holds, or will when its queue has drained, the last entries of the log. -/
structure Holds (shown : Content → Option Nat) (blank : Content) (count : Nat) (log : List Content)
    (erased : Bool) (d : Device Nat Content) : Prop where
  numbered : Numbered shown log
  pending : ∃ n erased₀, Stage shown blank count log n erased₀ d.cells ∧
    Pending blank count log n erased₀ d.queue log.length erased

namespace Holds

variable {erased : Bool} {d d' : Device Nat Content}

theorem ofReady (hlog : Numbered shown log) (hready : Ready shown count log log.length cells) :
    Holds shown blank count log false ⟨cells, [], none⟩ :=
  ⟨hlog, log.length, false, ⟨hready, fun h => by cases h⟩, .drained⟩

theorem erase (h : Holds shown blank count log false d) :
    Holds shown blank count log true (d.enqueue ⟨log.length % count, fun _ => blank⟩) := by
  obtain ⟨n, erased, hstage, hpending⟩ := h.pending
  exact ⟨h.numbered, n, erased, hstage, hpending.snoc_erase⟩

theorem write (h : Holds shown blank count log true d) (effect : Content → Content)
    (hshown : shown (effect blank) = some log.length) :
    Holds shown blank count (log ++ [effect blank]) false (d.enqueue ⟨log.length % count, effect⟩) := by
  obtain ⟨n, erased, hstage, hpending⟩ := h.pending
  have hready : Ready shown count (log ++ [effect blank]) n d.cells :=
    hstage.ready.congr fun k hk => List.getElem?_append_left (Nat.lt_of_lt_of_le hk hpending.le)
  refine ⟨h.numbered.append hshown, n, erased, ⟨hready, hstage.blank⟩, ?_⟩
  rw [List.length_append, List.length_singleton]
  exact (hpending.append _).snoc_write List.getElem?_concat_length

theorem tear (h : Holds shown blank count log erased d) {content : Content} (htear : d.tear content = some d') :
    Holds shown blank count log erased d' := by
  obtain ⟨-, rfl⟩ := Device.tear_eq_some htear
  exact ⟨h.numbered, h.pending⟩

theorem finish (h : Holds shown blank count log erased d) (hcount : 0 < count) (hblank : shown blank = none)
    (hfinish : d.finish = some d') : Holds shown blank count log erased d' := by
  obtain ⟨op, ops, hqueue, rfl⟩ := Device.finish_eq_some hfinish
  obtain ⟨n, erased₀, hstage, hpending⟩ := h.pending
  rw [hqueue] at hpending
  exact ⟨h.numbered, hstage.apply h.numbered hcount hblank hpending⟩

theorem settled (h : Holds shown blank count log erased d) (hcount : 0 < count) (hblank : shown blank = none) :
    Stage shown blank count log log.length erased d.settled := by
  obtain ⟨cells, queue, torn⟩ := d
  obtain ⟨n, erased₀, hstage, hpending⟩ := h.pending
  change Pending blank count log n erased₀ queue log.length erased at hpending
  change Stage shown blank count log log.length erased (applyAll cells queue)
  induction queue generalizing cells n erased₀ with
  | nil =>
      cases hpending
      exact hstage
  | cons op ops ih =>
      obtain ⟨next, erased₁, hstage', hpending'⟩ := hstage.apply h.numbered hcount hblank hpending
      exact ih (op.apply cells) ⟨h.numbered, next, erased₁, hstage', hpending'⟩ next erased₁ hstage' hpending'

/-- After a clean cut the cells are ready for the entry behind the last one that was written. -/
theorem ready_physical (h : Holds shown blank count log erased d) (hcount : 0 < count)
    (hblank : shown blank = none) (hcut : CleanCut shown d) :
    ∃ n, n ≤ log.length ∧ Ready shown count log n d.physical := by
  obtain ⟨n, erased₀, hstage, hpending⟩ := h.pending
  obtain ⟨cells, queue, torn⟩ := d
  cases queue with
  | nil => exact ⟨n, hpending.le, hstage.ready⟩
  | cons op ops =>
      cases torn with
      | none => exact ⟨n, hpending.le, hstage.ready⟩
      | some content =>
          have hphysical :
              Device.physical ⟨cells, op :: ops, some content⟩ = Function.update cells op.cell content := by
            funext c
            by_cases hc : op.cell = c
            · subst hc
              simp only [Device.physical, if_true, Function.update_self]
            · simp only [Device.physical, if_neg hc, Function.update_of_ne (Ne.symm hc)]
          rw [hphysical]
          exact hstage.cut h.numbered hcount hblank hpending (hcut op rfl content rfl)

end Holds

end Best1307.FlashRing
