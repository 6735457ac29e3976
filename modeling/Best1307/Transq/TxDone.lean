import Best1307.Transq.Delivery

/-!
# Completion callbacks

The local interrupt handler frees a slot under the interrupt lock, and reads the arguments of its `tx_handler`
from that slot behind the lock. In between, a transmission can be accepted into the slot. As long as none is,
the handler is called once for every transmission, in order and with what was sent, whatever the receiving
core does.
-/

namespace Best1307.Transq

open SlotRing

variable {s s' : State} {e : Event} {p q : HalTransqPri} {i slot : Nat} {msg : Msg}

namespace State

/-- The slot the handler has freed and is about to read. -/
def freedSlot (s : State) : Option Nat :=
  match s.irq with
  | .unlocked _ slot => some slot
  | _ => none

/-- The transmissions of a priority that are seen done, without one that is about to be reported. -/
def calledCount (s : State) (p : HalTransqPri) : Nat :=
  match s.irq with
  | .unlocked q _ => if q = p then s.doneCount p - 1 else s.doneCount p
  | _ => s.doneCount p

end State

/-- A transmission is accepted into the freed slot before the handler has read it, with something else. -/
def reusesFreedSlot (s : State) : Event → Bool
  | .tx pri msg =>
      let slot := (s.tx pri).nextTxSlot
      s.txCfg.txNum pri ≠ 0 && !(s.tx pri).txSlotFull && s.freedSlot = some slot && msg ≠ s.regs.slots slot
  | _ => false

/-- No transmission in flight is lost: each will be received, or its local interrupt is raised. -/
structure RaisedInv (s : State) : Prop where
  raised : ∀ p i, s.InFlight p i → s.regs.rmtRis.getLsbD i = true ∨ s.regs.ldoneRis.getLsbD i = true
  doneMask : s.txCfg.txHandler = true → ∀ p i, s.InLane p i → s.regs.ldoneIntmask.getLsbD i = true

structure CallInv (s : State) : Prop where
  called : ∀ p, (s.tx p).called = if s.txCfg.txHandler then (s.tx p).sent.take (s.calledCount p) else []
  /-- the freed slot still holds what was sent -/
  freed : ∀ p slot, s.irq = .unlocked p slot → (s.tx p).sent[(s.tx p).done - 1]? = some (s.regs.slots slot)

/-! ### Nothing in flight is lost -/

theorem RaisedInv.of_same (h : RaisedInv s) (hcfg : s'.txCfg = s.txCfg)
    (hinFlight : ∀ p i, s'.InFlight p i → s.InFlight p i) (hris : s'.regs.rmtRis = s.regs.rmtRis)
    (hldone : s'.regs.ldoneRis = s.regs.ldoneRis)
    (hmask : s.txCfg.txHandler = true → s'.regs.ldoneIntmask = s.regs.ldoneIntmask) : RaisedInv s' := by
  refine ⟨fun p i hi => ?_, fun hhandler p i hi => ?_⟩
  · rw [hris, hldone]
    exact h.raised p i (hinFlight p i hi)
  · rw [hcfg] at hhandler
    rw [State.InLane, hcfg] at hi
    rw [hmask hhandler]
    exact h.doneMask hhandler p i hi

theorem RaisedInv.complete (h : RaisedInv s) (hs : SendInv s) (hsome : (s.tx p).done ≠ (s.tx p).sent.length) :
    RaisedInv (complete s p (s.tx p).activeTxSlot) := by
  refine ⟨fun q i hi => ?_, h.doneMask⟩
  obtain ⟨hold, hnot⟩ := (hs.inFlight_complete hsome).mp hi
  have hactive : s.InFlight p (s.tx p).activeTxSlot := by
    have hle := (hs.lane p).done_le
    exact ⟨(s.tx p).done, Nat.le_refl _, by omega, ((hs.lane p).active_eq hsome).symm⟩
  refine (h.raised q i hold).imp_right fun hbit => ldone_complete.mpr ⟨hbit, ?_⟩
  rintro rfl
  exact hnot ⟨hs.pri_eq hold hactive, rfl⟩

theorem RaisedInv.move (h : RaisedInv s) (hs : SendInv s) (hmove : Move s e s') : RaisedInv s' := by
  cases hmove with
  | quiet hquiet =>
      have hsend := hquiet.send
      simp only [State.sendView, Prod.mk.injEq] at hsend
      obtain ⟨hcfg, htx, -, hris, hldone, -⟩ := hsend
      refine h.of_same hcfg (fun p i hi => ?_) hris hldone hquiet.doneMask
      rwa [State.InFlight, hcfg, htx] at hi
  | transmit p msg hpos =>
      refine ⟨fun q i hi => ?_, h.doneMask⟩
      rcases (hs.inFlight_transmit hpos).mp hi with hold | ⟨-, hi⟩
      · exact (h.raised q i hold).imp_left fun hbit => (hs.ris_transmit hpos).mpr (.inl hbit)
      · exact .inl ((hs.ris_transmit hpos).mpr (.inr hi))
  | polled p _ hsome => exact h.complete hs hsome
  | locked status p _ hsome => exact (h.complete hs hsome).of_same rfl (fun _ _ => id) rfl rfl fun _ => rfl
  | call p slot =>
      refine h.of_same rfl (fun q i hi => ?_) rfl rfl fun _ => rfl
      rwa [State.InFlight, localIrqCall_tx] at hi
  | clear p _ _ hready =>
      refine ⟨fun q i hi => ?_, h.doneMask⟩
      by_cases hi' : i = (s.rx p).nextRxSlot
      · exact .inr ((ldone_rxClear hready).mpr (.inr hi'))
      · exact (h.raised q i hi).imp (fun hbit => ris_rxClear.mpr ⟨hbit, hi'⟩)
          fun hbit => (ldone_rxClear hready).mpr (.inl hbit)
  | read => exact h.of_same rfl (fun _ _ => id) rfl rfl fun _ => rfl
  | advance => exact h.of_same rfl (fun _ _ => id) rfl rfl fun _ => rfl
  | hold => exact h.of_same rfl (fun _ _ => id) rfl rfl fun _ => rfl
  | release => exact h.of_same rfl (fun _ _ => id) rfl rfl fun _ => rfl
  | fail => exact h.of_same rfl (fun _ _ => id) rfl rfl fun _ => rfl

/-! ### The callbacks -/

theorem State.calledCount_of_not_unlocked (s : State) (h : s.freedSlot = none) (p : HalTransqPri) :
    s.calledCount p = s.doneCount p := by
  unfold State.freedSlot at h
  unfold State.calledCount
  split
  · rename_i hirq
    rw [hirq] at h
    cases h
  · rfl

theorem State.calledCount_of_unlocked (s : State) (h : s.irq = .unlocked p slot) (q : HalTransqPri) :
    s.calledCount q = if p = q then s.doneCount q - 1 else s.doneCount q := by
  rw [State.calledCount, h]

theorem State.calledCount_le (s : State) (p : HalTransqPri) : s.calledCount p ≤ s.doneCount p := by
  unfold State.calledCount
  split
  · split <;> omega
  · exact Nat.le_refl _

theorem CallInv.of_same (h : CallInv s) (hcfg : s'.txCfg = s.txCfg) (htx : s'.tx = s.tx) (hirq : s'.irq = s.irq)
    (hslots : s'.regs.slots = s.regs.slots) : CallInv s' := by
  refine ⟨fun p => ?_, fun p slot hslot => ?_⟩
  · rw [State.calledCount, State.doneCount, hcfg, htx, hirq]
    exact h.called p
  · rw [htx, hslots]
    exact h.freed p slot (hirq ▸ hslot)

theorem CallInv.transmit (h : CallInv s) (hs : SendInv s) (hpos : 0 < s.txCfg.txNum p)
    (hfull : (s.tx p).txSlotFull ≠ true) (hkept : reusesFreedSlot s (.tx p msg) = false) :
    CallInv (transmit s p msg) := by
  have hdone : ∀ q, ((Transq.transmit s p msg).tx q).done = (s.tx q).done := fun q =>
    congrFun doneCount_transmit q
  have hcount : (Transq.transmit s p msg).calledCount = s.calledCount := by
    funext q
    rw [State.calledCount, doneCount_transmit]
    rfl
  refine ⟨fun q => ?_, fun q slot hslot => ?_⟩
  · rw [hcount]
    by_cases hq : q = p
    · subst hq
      have hle : s.calledCount q ≤ (s.tx q).sent.length :=
        Nat.le_trans (s.calledCount_le q) (hs.lane q).done_le
      rw [transmit_tx_self]
      change (s.tx q).called = if s.txCfg.txHandler then ((s.tx q).sent ++ [msg]).take _ else []
      rw [List.take_append_of_le_length hle]
      exact h.called q
    · rw [transmit_tx_of_ne _ _ hq]
      exact h.called q
  · have hold := h.freed q slot hslot
    have hlt := (List.getElem?_eq_some_iff.mp hold).1
    have hsent : ((Transq.transmit s p msg).tx q).sent[(s.tx q).done - 1]? = (s.tx q).sent[(s.tx q).done - 1]? := by
      by_cases hq : q = p
      · subst hq
        rw [transmit_tx_self]
        exact List.getElem?_append_left hlt
      · rw [transmit_tx_of_ne _ _ hq]
    rw [hdone, hsent, hold, Option.some.injEq]
    change s.regs.slots slot = Function.update s.regs.slots (s.tx p).nextTxSlot msg slot
    by_cases hnext : slot = (s.tx p).nextTxSlot
    · have hfreed : s.freedSlot = some (s.tx p).nextTxSlot := by
        change s.irq = .unlocked q slot at hslot
        rw [State.freedSlot, hslot, hnext]
      have hmsg : msg = s.regs.slots (s.tx p).nextTxSlot := by
        by_contra hne
        have hreuses : reusesFreedSlot s (.tx p msg) = true := by
          simp [reusesFreedSlot, Nat.ne_of_gt hpos, hfull, hfreed, hne]
        rw [hkept] at hreuses
        cases hreuses
      rw [hnext, Function.update_self, hmsg]
    · rw [Function.update_of_ne hnext]

theorem CallInv.complete (h : CallInv s) (hidle : s.freedSlot = none) (p : HalTransqPri) (slot : Nat)
    (q : HalTransqPri) : ((complete s p slot).tx q).called =
      if s.txCfg.txHandler then ((complete s p slot).tx q).sent.take (s.doneCount q) else [] := by
  have hcalled : ((Transq.complete s p slot).tx q).called = (s.tx q).called := by
    by_cases hq : q = p
    · subst hq
      rw [complete_tx_self, TxLane.complete_called]
    · rw [complete_tx_of_ne _ _ hq]
  rw [hcalled, complete_sent, ← s.calledCount_of_not_unlocked hidle]
  exact h.called q

/-- The handler frees the slot of the oldest message in flight. -/
theorem CallInv.locked (h : CallInv s) (hs : SendInv s) {status : BitVec 32} (hread : s.irq = .read status)
    (hsome : (s.tx p).done ≠ (s.tx p).sent.length) :
    CallInv { Transq.complete s p (s.tx p).activeTxSlot with irq := .unlocked p (s.tx p).activeTxSlot } := by
  have hidle : s.freedSlot = none := by rw [State.freedSlot, hread]
  have hdone : ∀ q, (Transq.complete s p (s.tx p).activeTxSlot).doneCount q =
      if q = p then s.doneCount q + 1 else s.doneCount q := fun q => doneCount_complete
  refine ⟨fun q => ?_, fun q slot hslot => ?_⟩
  · have hcount : State.calledCount
        { Transq.complete s p (s.tx p).activeTxSlot with irq := .unlocked p (s.tx p).activeTxSlot } q =
          s.doneCount q := by
      rw [State.calledCount_of_unlocked _ rfl]
      change (if p = q then (Transq.complete s p _).doneCount q - 1 else (Transq.complete s p _).doneCount q) = _
      rw [hdone]
      by_cases hq : q = p
      · rw [if_pos hq.symm, if_pos hq, Nat.add_sub_cancel]
      · rw [if_neg (Ne.symm hq), if_neg hq]
    rw [hcount]
    exact h.complete hidle p _ q
  · obtain ⟨rfl, rfl⟩ := LocalIrq.unlocked.inj hslot
    have hget := List.getElem?_eq_getElem (Nat.lt_of_le_of_ne (hs.lane p).done_le hsome)
    change ((Transq.complete s p _).tx p).sent[(Transq.complete s p _).doneCount p - 1]? =
      some (s.regs.slots (s.tx p).activeTxSlot)
    rw [hdone, if_pos rfl, complete_sent, Nat.add_sub_cancel, (hs.lane p).active_eq hsome]
    exact hget.trans (congrArg some (hs.slots p _ _ (Nat.le_refl _) hget).symm)

theorem CallInv.call (h : CallInv s) (hirq : IrqInv s) (hcall : s.irq = .unlocked p slot) :
    CallInv (localIrqCall s p slot) := by
  have hhandler : s.txCfg.txHandler = true := hirq.handler (by rw [hcall]; exact LocalIrq.noConfusion)
  have hpos := (hirq.unlocked p slot hcall).1
  have hfreed := h.freed p slot hcall
  refine ⟨fun q => ?_, fun q slot hslot => (by cases hslot)⟩
  have hcalled := h.called q
  have hcount : (localIrqCall s p slot).calledCount q = (s.tx q).done := by
    change ((localIrqCall s p slot).tx q).done = _
    rw [localIrqCall_tx]
  rw [s.calledCount_of_unlocked hcall, if_pos hhandler] at hcalled
  rw [hcount, localIrqCall_tx]
  change (if q = p then _ else _) = if s.txCfg.txHandler then (s.tx q).sent.take _ else []
  rw [if_pos hhandler]
  by_cases hq : q = p
  · subst hq
    have hlast : (s.tx q).done = (s.tx q).done - 1 + 1 := by omega
    rw [if_pos rfl] at hcalled
    rw [if_pos rfl, hcalled, hlast, List.take_add_one, hfreed]
    rfl
  · rw [if_neg (Ne.symm hq)] at hcalled
    rw [if_neg hq, hcalled]
    rfl

theorem CallInv.move (h : CallInv s) (hs : SendInv s) (hirq : IrqInv s)
    (hkept : reusesFreedSlot s e = false) (hmove : Move s e s') : CallInv s' := by
  cases hmove with
  | quiet hquiet =>
      have hsend := hquiet.send
      simp only [State.sendView, Prod.mk.injEq] at hsend
      exact h.of_same hsend.1 hsend.2.1 hquiet.irq hsend.2.2.1
  | transmit p msg hpos hfull => exact h.transmit hs hpos hfull hkept
  | polled p hpoll =>
      have hidle : s.irq = .idle := by
        by_contra hne
        have hhandler := hirq.handler hne
        rw [hpoll] at hhandler
        cases hhandler
      refine ⟨fun q => ?_, fun q slot hslot => ?_⟩
      · have hcalled := h.complete (by rw [State.freedSlot, hidle]) p (s.tx p).activeTxSlot q
        have hnot : ¬ s.txCfg.txHandler = true := Bool.eq_false_iff.mp hpoll
        rw [if_neg hnot] at hcalled
        exact hcalled.trans (if_neg hnot).symm
      · change s.irq = _ at hslot
        rw [hidle] at hslot
        cases hslot
  | read hidle =>
      refine ⟨fun q => ?_, fun q slot hslot => (by cases hslot)⟩
      have hcalled := h.called q
      rw [s.calledCount_of_not_unlocked (by rw [State.freedSlot, hidle])] at hcalled
      exact hcalled
  | locked status p hread hsome => exact h.locked hs hread hsome
  | call p slot hcall => exact h.call hirq hcall
  | clear => exact h.of_same rfl rfl rfl rfl
  | advance => exact h.of_same rfl rfl rfl rfl
  | hold => exact h.of_same rfl rfl rfl rfl
  | release => exact h.of_same rfl rfl rfl rfl
  | fail => exact h.of_same rfl rfl rfl rfl

/-! ### Runs -/

theorem raisedInv_open {txCfg rxCfg : HalTransqCfg} {slots : Nat → Msg}
    (hopen : halTransqOpen txCfg rxCfg slots = some s) : RaisedInv s := by
  have hs := sendInv_open hopen
  unfold halTransqOpen at hopen
  split at hopen
  · obtain rfl := Option.some.inj hopen
    refine ⟨fun p i hi => absurd hi not_occupied_empty, fun hhandler p i hi => ?_⟩
    change (if txCfg.txHandler = true then _ else 0 : BitVec 32).getLsbD i = true
    rw [if_pos hhandler]
    exact getLsbD_openMask hs.shares hi
  · cases hopen

theorem callInv_open {txCfg rxCfg : HalTransqCfg} {slots : Nat → Msg}
    (hopen : halTransqOpen txCfg rxCfg slots = some s) : CallInv s := by
  unfold halTransqOpen at hopen
  split at hopen
  · obtain rfl := Option.some.inj hopen
    exact ⟨fun p => (ite_self []).symm, fun p slot hslot => (by cases hslot)⟩
  · cases hopen

/-- The callbacks as the users of the queue see them. -/
structure TxDoneRight (s : State) : Prop where
  /-- the handler is called for the transmissions in order, with what was sent -/
  inOrder : ∀ p, (s.tx p).called <+: (s.tx p).sent
  /-- once for each that is seen done -/
  once : s.txCfg.txHandler = true → ∀ p, (s.tx p).called.length = s.calledCount p
  /-- and for all, as soon as no interrupt of the queue is raised -/
  all : s.txCfg.txHandler = true → s.irq = .idle → s.regs.rmtRis = 0 → s.regs.ldoneMis = 0 →
    ∀ p, (s.tx p).called = (s.tx p).sent

theorem RaisedInv.done_eq (h : RaisedInv s) (hs : SendInv s) (hhandler : s.txCfg.txHandler = true)
    (hris : s.regs.rmtRis = 0) (hmis : s.regs.ldoneMis = 0) (p : HalTransqPri) :
    s.doneCount p = (s.tx p).sent.length := by
  by_contra hsome
  have hflight : s.InFlight p (s.slotOf p (s.tx p).done) :=
    ⟨_, Nat.le_refl _, Nat.lt_of_le_of_ne (hs.lane p).done_le hsome, rfl⟩
  have hzero : ∀ {x : BitVec 32} {i}, x = 0 → x.getLsbD i ≠ true := fun hx => by
    rw [hx]
    exact ne_true_of_eq_false BitVec.getLsbD_zero
  rcases h.raised p _ hflight with hbit | hbit
  · exact hzero hris hbit
  · refine hzero (i := s.slotOf p (s.tx p).done) hmis ?_
    rw [Regs.ldoneMis, BitVec.getLsbD_and, hbit, h.doneMask hhandler p _ (hs.bounds hflight), Bool.and_self]

theorem CallInv.txDoneRight (h : CallInv s) (hs : SendInv s) (hraised : RaisedInv s) : TxDoneRight s := by
  have hcount : ∀ p, s.calledCount p ≤ (s.tx p).sent.length := fun p =>
    Nat.le_trans (s.calledCount_le p) (hs.lane p).done_le
  refine ⟨fun p => ?_, fun hhandler p => ?_, fun hhandler hidle hris hmis p => ?_⟩
  · rw [h.called p]
    split
    · exact List.take_prefix _ _
    · exact List.nil_prefix
  · rw [h.called p, if_pos hhandler, List.length_take, Nat.min_eq_left (hcount p)]
  · have hdone := hraised.done_eq hs hhandler hris hmis p
    rw [h.called p, if_pos hhandler, s.calledCount_of_not_unlocked (by rw [State.freedSlot, hidle]), hdone,
      List.take_length]

/-- For every pair of configurations the cores accept: in every run in which no transmission goes into a slot
that the interrupt handler has freed and not yet read, the callbacks are right. -/
theorem txDone_right (txCfg rxCfg : HalTransqCfg) (slots : Nat → Msg) (s₀ s : State) (events : List Event)
    (hopen : halTransqOpen txCfg rxCfg slots = some s₀)
    (hkept : Along step (fun s e => reusesFreedSlot s e = false) s₀ events)
    (hrun : run step s₀ events = some s) : TxDoneRight s := by
  have hinit : (SendInv s₀ ∧ IrqInv s₀) ∧ RaisedInv s₀ ∧ CallInv s₀ :=
    ⟨run_sendInv hopen (run_nil step s₀), raisedInv_open hopen, callInv_open hopen⟩
  have hlast := run_invariant_along (fun s => (SendInv s ∧ IrqInv s) ∧ RaisedInv s ∧ CallInv s)
    (fun t e t' ht hkeeps hstep => by
      obtain ⟨⟨hs, hirq⟩, hraised, hcalled⟩ := ht
      have hmove := step_move hs hirq hstep
      exact ⟨⟨hs.move hirq hmove, hirq.move hs hmove⟩, hraised.move hs hmove,
        hcalled.move hs hirq hkeeps hmove⟩) hkept hinit hrun
  exact hlast.2.2.txDoneRight hlast.1.1 hlast.2.1

/-- A transmission is received and completed, and another priority sends while its callback is due. -/
def sendBeforeCall : List Event :=
  [.tx .normal ⟨1, 4⟩, .remoteIrq, .rxNext .normal, .rxNextAdvance .normal, .rxNextLook .normal,
    .localIrqRead, .localIrqLocked, .tx .high ⟨2, 4⟩, .localIrqCall]

theorem txDone_right_sendBeforeCall :
    ∃ s, ((halTransqOpen (evenCfg 1) (evenCfg 1) fun _ => ⟨0, 0⟩).bind fun s => run step s sendBeforeCall) =
      some s ∧ TxDoneRight s := by
  have hsome : ((halTransqOpen (evenCfg 1) (evenCfg 1) fun _ => ⟨0, 0⟩).bind
      fun s => run step s sendBeforeCall).isSome = true := by decide
  have hall : ∀ s₀ ∈ halTransqOpen (evenCfg 1) (evenCfg 1) fun _ => ⟨0, 0⟩,
      Along step (fun s e => reusesFreedSlot s e = false) s₀ sendBeforeCall := by decide
  obtain ⟨s, hs⟩ := Option.isSome_iff_exists.mp hsome
  obtain ⟨s₀, hopen, hrun⟩ := Option.bind_eq_some_iff.mp hs
  exact ⟨s, hs, txDone_right (evenCfg 1) (evenCfg 1) _ s₀ s sendBeforeCall hopen (hall s₀ hopen) hrun⟩

/-- A transmission accepted into the freed slot is what the callback of the one before it reports. -/
theorem reusedSlot_calledWrong :
    ¬ ∀ (txCfg rxCfg : HalTransqCfg) (slots : Nat → Msg) (s₀ s : State) (events : List Event),
      halTransqOpen txCfg rxCfg slots = some s₀ → run step s₀ events = some s → TxDoneRight s := by
  intro h
  have hwrong : ((halTransqOpen (evenCfg 1) (evenCfg 1) fun _ => ⟨0, 0⟩).bind
      fun s => run step s [.tx .normal ⟨1, 4⟩, .remoteIrq, .rxNext .normal, .rxNextAdvance .normal,
        .rxNextLook .normal, .localIrqRead, .localIrqLocked, .tx .normal ⟨2, 4⟩, .localIrqCall]).map
          (fun s => ((s.tx .normal).called, (s.tx .normal).sent)) = some ([⟨2, 4⟩], [⟨1, 4⟩, ⟨2, 4⟩]) := by
    decide
  obtain ⟨s, hs, hlists⟩ := Option.map_eq_some_iff.mp hwrong
  obtain ⟨s₀, hopen, hrun⟩ := Option.bind_eq_some_iff.mp hs
  obtain ⟨hcalled, hsent⟩ := Prod.mk.inj hlists
  have hstart := (h _ _ _ s₀ s _ hopen hrun).inOrder .normal
  rw [hcalled, hsent] at hstart
  exact absurd hstart (by decide)

end Best1307.Transq
