import Best1307.Transq.Sending

/-!
# What a step can do

Every step of the system is one of a few moves. The invariants are kept move by move.
-/

namespace Best1307.Transq

open SlotRing

variable {s s' : State} {e : Event} {p q : HalTransqPri} {i slot : Nat} {msg : Msg} {status : BitVec 32}

/-- What the interrupt handler of the sending core holds on to. -/
structure IrqInv (s : State) : Prop where
  handler : s.irq ≠ .idle → s.txCfg.txHandler = true
  read : ∀ status, s.irq = .read status →
    status ≠ 0 ∧ ∀ i, status.getLsbD i = true → s.regs.ldoneRis.getLsbD i = true
  unlocked : ∀ p slot, s.irq = .unlocked p slot → 0 < (s.tx p).done ∧ slot = s.slotOf p ((s.tx p).done - 1)

/-- `hal_transq_rx_next` has cleared an interrupt and not yet stored the next slot. -/
def State.InGap (s : State) (p : HalTransqPri) : Prop := ∃ held, (s.rx p).call = .cleared held

/-- The interrupt mask of the receiving core, which its calls set and its handler clears by priority. -/
inductive MaskMove (s s' : State) : Prop where
  | same (h : s'.regs.rmtIntmask = s.regs.rmtIntmask)
  | set (p : HalTransqPri) (hcall : ¬ s.InGap p)
      (h : s'.regs.rmtIntmask = s.regs.rmtIntmask ||| rxIrqMask s.rxCfg p)
  | clear (p : HalTransqPri) (h : s'.regs.rmtIntmask = s.regs.rmtIntmask &&& ~~~rxIrqMask s.rxCfg p)

/-- The receiving core is where it was in the messages of a priority. -/
structure SameRx (lane lane' : RxLane) : Prop where
  next : lane'.nextRxSlot = lane.nextRxSlot
  consumed : lane'.consumed = lane.consumed
  call : ∀ held, lane'.call = .cleared held ↔ lane.call = .cleared held

/-- Nothing is sent, received or seen done. -/
structure Quiet (s s' : State) : Prop where
  send : s'.sendView = s.sendView
  rxCfg : s'.rxCfg = s.rxCfg
  rx : ∀ p, SameRx (s.rx p) (s'.rx p)
  irq : s'.irq = s.irq
  mask : MaskMove s s'
  doneMask : s.txCfg.txHandler = true → s'.regs.ldoneIntmask = s.regs.ldoneIntmask
  rxHeld : s'.rxHeld = s.rxHeld
  failed : s'.failed = s.failed

/-- Why an assertion of the sending core fails: of the messages seen done, one is not the oldest. -/
def LocalFails (s : State) : Prop :=
  ∃ status p, s.irq = .read status ∧ (∃ i, status.getLsbD i = true ∧ s.InFlight p i) ∧
    status.getLsbD (s.tx p).activeTxSlot ≠ true

/-- Why one of the receiving core fails: an interrupt is taken outside the slots of both priorities, or for
a priority but not for its next slot. -/
def RemoteFails (s : State) : Prop :=
  remotePending s = true ∧ ((∀ p, s.regs.rmtMis &&& rxIrqMask s.rxCfg p = 0) ∨
    ∃ p, s.regs.rmtMis &&& rxIrqMask s.rxCfg p ≠ 0 ∧ s.regs.rmtMis.getLsbD (s.rx p).nextRxSlot ≠ true)

/-- What a step of the system can do. -/
inductive Move (s : State) : Event → State → Prop
  | quiet {e : Event} {s' : State} (h : Quiet s s') : Move s e s'
  | transmit (p : HalTransqPri) (msg : Msg) (hpos : 0 < s.txCfg.txNum p) (hfull : (s.tx p).txSlotFull ≠ true) :
      Move s (.tx p msg) (transmit s p msg)
  | polled (p : HalTransqPri) (hpoll : s.txCfg.txHandler = false) (hsome : (s.tx p).done ≠ (s.tx p).sent.length)
      (hbit : s.regs.ldoneRis.getLsbD (s.tx p).activeTxSlot = true) :
      Move s (.getTxStatus p) (complete s p (s.tx p).activeTxSlot)
  | read (hidle : s.irq = .idle) (hhandler : s.txCfg.txHandler = true) (hstatus : s.regs.ldoneMis ≠ 0) :
      Move s .localIrqRead { s with irq := .read s.regs.ldoneMis }
  | locked (status : BitVec 32) (p : HalTransqPri) (hirq : s.irq = .read status)
      (hsome : (s.tx p).done ≠ (s.tx p).sent.length) (hbit : status.getLsbD (s.tx p).activeTxSlot = true) :
      Move s .localIrqLocked
        { complete s p (s.tx p).activeTxSlot with irq := .unlocked p (s.tx p).activeTxSlot }
  | call (p : HalTransqPri) (slot : Nat) (hirq : s.irq = .unlocked p slot) :
      Move s .localIrqCall (localIrqCall s p slot)
  | clear (p : HalTransqPri) (hcall : (s.rx p).call = .idle) (hprompt : remotePending s = false)
      (hready : s.regs.rmtRis.getLsbD (s.rx p).nextRxSlot = true) : Move s (.rxNext p) (rxClear s p)
  | advance (p : HalTransqPri) (held : Bool) (hcall : (s.rx p).call = .cleared held) :
      Move s (.rxNextAdvance p) (halTransqRxNextAdvance s p)
  | hold : Move s .rxHold { s with rxHeld := true }
  | release (hfree : ∀ p, (s.rx p).call ≠ .cleared true) : Move s .rxRelease { s with rxHeld := false }
  | fail {e : Event} (h : LocalFails s ∨ RemoteFails s) : Move s e s.fail

/-! ### The steps are moves -/

theorem SameRx.refl (lane : RxLane) : SameRx lane lane := ⟨rfl, rfl, fun _ => Iff.rfl⟩

theorem Quiet.refl (s : State) : Quiet s s :=
  ⟨rfl, rfl, fun _ => .refl _, rfl, .same rfl, fun _ => rfl, rfl, rfl⟩

theorem not_inGap_of_idle (hcall : (s.rx p).call = .idle) : ¬ s.InGap p := fun ⟨_, hgap⟩ => by
  rw [hcall] at hgap
  cases hgap

theorem not_inGap_of_advanced (hcall : (s.rx p).call = .advanced) : ¬ s.InGap p := fun ⟨_, hgap⟩ => by
  rw [hcall] at hgap
  cases hgap

theorem quiet_rxEmpty (hcall : ¬ s.InGap p) : Quiet s (rxEmpty s p) :=
  ⟨rfl, rfl, fun _ => .refl _, rfl, .set p hcall rfl, fun _ => rfl, rfl, rfl⟩

theorem rxReady_iff : rxReady s p = true ↔ s.regs.rmtRis.getLsbD (s.rx p).nextRxSlot = true := by
  rw [rxReady, Bool.and_eq_true, decide_eq_true_eq, decide_eq_true_eq, bit, and_twoPow_ne_zero]
  exact ⟨fun h => h.2, fun h => ⟨lt_of_getLsbD h, h⟩⟩

theorem quiet_rxLook (hcall : ¬ s.InGap p) : Quiet s (rxLook s p).2.2 := by
  unfold rxLook
  split
  · exact .refl s
  · exact quiet_rxEmpty hcall

/-- A slot whose interrupt is raised is not the one a core has without messages. -/
theorem SendInv.some_of_bit {x : BitVec 32} (h : SendInv s) (hbit : x.getLsbD (s.tx p).activeTxSlot = true) :
    (s.tx p).done ≠ (s.tx p).sent.length := by
  intro hnone
  have hlt := lt_of_getLsbD hbit
  rw [(h.lane p).active, if_pos hnone] at hlt
  exact Nat.lt_irrefl _ hlt

theorem getLsbD_txIrqMask (h : Shares s.txCfg.txNum) :
    (txIrqMask s.txCfg p).getLsbD i = true ↔
      firstSlot (s.txCfg.txNum p) p ≤ i ∧ i < firstSlot (s.txCfg.txNum p) p + s.txCfg.txNum p :=
  getLsbD_constructMask (firstSlot_add_le (h.le p))

theorem getLsbD_openMask {cfg : HalTransqCfg} (h : Shares cfg.txNum)
    (hi : firstSlot (cfg.txNum p) p ≤ i ∧ i < firstSlot (cfg.txNum p) p + cfg.txNum p) :
    (txIrqMask cfg .normal ||| txIrqMask cfg .high).getLsbD i = true := by
  have hbit : (txIrqMask cfg p).getLsbD i = true := (getLsbD_constructMask (firstSlot_add_le (h.le p))).mpr hi
  rw [BitVec.getLsbD_or, Bool.or_eq_true]
  cases p with
  | normal => exact .inl hbit
  | high => exact .inr hbit

theorem inFlight_of_mask {x : BitVec 32} (h : SendInv s)
    (hx : ∀ i, x.getLsbD i = true → s.regs.ldoneRis.getLsbD i = true) (hmask : x &&& txIrqMask s.txCfg p ≠ 0) :
    ∃ i, x.getLsbD i = true ∧ s.InFlight p i := by
  obtain ⟨i, hi, hbounds⟩ := and_ne_zero.mp hmask
  obtain ⟨q, hq⟩ := h.ldone i (hx i hi)
  obtain rfl := h.shares.pri_eq (h.bounds hq) ((getLsbD_txIrqMask h.shares).mp hbounds)
  exact ⟨i, hi, hq⟩

theorem and_bit_iff {x : BitVec 32} : (slot < transqSlotNum ∧ x &&& bit slot ≠ 0) ↔ x.getLsbD slot = true := by
  rw [bit, and_twoPow_ne_zero]
  exact ⟨fun h => h.2, fun h => ⟨lt_of_getLsbD h, h⟩⟩

theorem move_localIrqServe (h : SendInv s) (hirq : IrqInv s) (hread : s.irq = .read status)
    (hmask : status &&& txIrqMask s.txCfg p ≠ 0) : Move s .localIrqLocked (localIrqServe s status p) := by
  unfold localIrqServe
  dsimp only
  by_cases hbit : status.getLsbD (s.tx p).activeTxSlot = true
  · rw [if_pos (and_bit_iff.mpr hbit)]
    exact .locked status p hread (h.some_of_bit hbit) hbit
  · rw [if_neg (and_bit_iff.not.mpr hbit)]
    exact .fail (.inl ⟨status, p, hread, inFlight_of_mask h (hirq.read status hread).2 hmask, hbit⟩)

theorem move_localIrqLocked (h : SendInv s) (hirq : IrqInv s) (hread : s.irq = .read status) :
    Move s .localIrqLocked (localIrqLocked s status) := by
  obtain ⟨hne, hsub⟩ := hirq.read status hread
  unfold localIrqLocked
  rw [(h.lane .high).activeTxValid, (h.lane .normal).activeTxValid]
  simp only [Bool.not_true, Bool.or_self, Bool.false_eq_true, if_false]
  split
  · exact move_localIrqServe h hirq hread ‹_›
  · split
    · exact move_localIrqServe h hirq hread ‹_›
    · rename_i hhigh hnormal
      -- a pending slot is in flight, so it is one of the two priorities
      have hall : status &&& status ≠ 0 := by rwa [BitVec.and_self]
      obtain ⟨i, hi, -⟩ := and_ne_zero.mp hall
      obtain ⟨q, hq⟩ := h.ldone i (hsub i hi)
      have hmask : status &&& txIrqMask s.txCfg q ≠ 0 :=
        and_ne_zero.mpr ⟨i, hi, (getLsbD_txIrqMask h.shares).mpr (h.bounds hq)⟩
      cases q with
      | high => exact absurd hmask hhigh
      | normal => exact absurd hmask hnormal

theorem move_localIrqRead (h : SendInv s) (hidle : s.irq = .idle) : Move s .localIrqRead (localIrqRead s) := by
  have hlerr : s.regs.lerrMis = 0 := by
    rw [Regs.lerrMis, h.lerr]
    exact BitVec.zero_and
  unfold localIrqRead
  rw [if_neg (not_not.mpr hlerr)]
  split
  · exact .quiet (.refl s)
  · rename_i hstatus
    cases hhandler : s.txCfg.txHandler with
    | true => exact .read hidle hhandler hstatus
    | false =>
        refine .quiet ⟨rfl, rfl, fun _ => .refl _, rfl, .same rfl, fun htrue => ?_, rfl, rfl⟩
        rw [hhandler] at htrue
        cases htrue

theorem move_getTxStatus (h : SendInv s) (p : HalTransqPri) :
    Move s (.getTxStatus p) (halTransqGetTxStatus s p).2.2 := by
  unfold halTransqGetTxStatus
  split
  · exact .quiet (.refl s)
  · split
    · exact .quiet (.refl s)
    · rename_i hpoll
      rw [(h.lane p).activeTxValid, if_neg (by decide)]
      dsimp only
      split
      · rename_i hbit
        have hbit' := and_twoPow_ne_zero.mp hbit
        exact .polled p (Bool.not_eq_true _ ▸ hpoll) (h.some_of_bit hbit') hbit'
      · exact .quiet (.refl s)

theorem move_remoteIrqServe (hpending : remotePending s = true)
    (hmask : s.regs.rmtMis &&& rxIrqMask s.rxCfg p ≠ 0) :
    Move s .remoteIrq (remoteIrqServe s s.regs.rmtMis p) := by
  unfold remoteIrqServe
  dsimp only
  by_cases hbit : s.regs.rmtMis.getLsbD (s.rx p).nextRxSlot = true
  · rw [if_pos (and_bit_iff.mpr hbit)]
    exact .quiet ⟨rfl, rfl, fun _ => .refl _, rfl, .clear p rfl, fun _ => rfl, rfl, rfl⟩
  · rw [if_neg (and_bit_iff.not.mpr hbit)]
    exact .fail (.inr ⟨hpending, .inr ⟨p, hmask, hbit⟩⟩)

theorem move_remoteIrqPass (hpending : remotePending s = true) : Move s .remoteIrq (remoteIrqPass s) := by
  unfold remoteIrqPass
  dsimp only
  split
  · exact move_remoteIrqServe hpending ‹_›
  · split
    · exact move_remoteIrqServe hpending ‹_›
    · rename_i hhigh hnormal
      refine .fail (.inr ⟨hpending, .inl fun p => ?_⟩)
      cases p with
      | high => exact not_not.mp hhigh
      | normal => exact not_not.mp hnormal

theorem move_rxNext (hcall : (s.rx p).call = .idle) (hprompt : remotePending s = false) :
    Move s (.rxNext p) (halTransqRxNext s p) := by
  unfold halTransqRxNext
  split
  · exact .quiet (.refl s)
  · split
    · exact .clear p hcall hprompt (rxReady_iff.mp ‹_›)
    · exact .quiet (quiet_rxEmpty (not_inGap_of_idle hcall))

theorem quiet_rxNextLook (hcall : (s.rx p).call = .advanced) : Quiet s (halTransqRxNextLook s p).2.2 := by
  have hgap : ¬ s.InGap p := not_inGap_of_advanced hcall
  have hrx : ∀ q, SameRx (s.rx q) ((s.setRx p { s.rx p with call := .idle }).rx q) := fun q => by
    by_cases hq : q = p
    · subst hq
      rw [State.setRx_rx_self]
      exact ⟨rfl, rfl, fun held => by rw [hcall]; simp only [reduceCtorEq]⟩
    · rw [State.setRx_rx_of_ne _ _ hq]
      exact .refl _
  unfold halTransqRxNextLook rxLook
  split
  · exact ⟨rfl, rfl, hrx, rfl, .same rfl, fun _ => rfl, rfl, rfl⟩
  · exact ⟨rfl, rfl, hrx, rfl, .set p hgap rfl, fun _ => rfl, rfl, rfl⟩

theorem rxStep_eq_some {allowed : Bool} {next : State} (h : rxStep s allowed next = some s') :
    allowed = true ∧ remotePending s = false ∧ next = s' := by
  unfold rxStep at h
  split at h
  · rename_i hcond
    rw [Bool.and_eq_true, Bool.not_eq_true'] at hcond
    exact ⟨hcond.1, hcond.2, Option.some.inj h⟩
  · cases h

theorem step_move (h : SendInv s) (hirq : IrqInv s) (hstep : step s e = some s') : Move s e s' := by
  unfold step at hstep
  split at hstep
  · cases hstep
  · cases e with
    | tx p msg =>
        obtain rfl := Option.some.inj hstep
        unfold halTransqTx
        split
        · exact .quiet (.refl s)
        · split
          · exact .quiet (.refl s)
          · exact .transmit p msg (Nat.pos_of_ne_zero ‹_›) ‹_›
    | getTxStatus p =>
        obtain rfl := Option.some.inj hstep
        exact move_getTxStatus h p
    | localIrqRead =>
        dsimp only at hstep
        split at hstep
        · obtain rfl := Option.some.inj hstep
          exact move_localIrqRead h ‹_›
        · cases hstep
    | localIrqLocked =>
        dsimp only at hstep
        split at hstep
        · obtain rfl := Option.some.inj hstep
          exact move_localIrqLocked h hirq ‹_›
        · cases hstep
    | localIrqCall =>
        dsimp only at hstep
        split at hstep
        · obtain rfl := Option.some.inj hstep
          exact .call _ _ ‹_›
        · cases hstep
    | rxFirst p =>
        obtain ⟨hcall, -, rfl⟩ := rxStep_eq_some hstep
        have hgap := not_inGap_of_idle (of_decide_eq_true hcall)
        unfold halTransqRxFirst
        split
        · exact .quiet (.refl s)
        · exact .quiet (quiet_rxLook hgap)
    | rxNext p =>
        obtain ⟨hcall, hprompt, rfl⟩ := rxStep_eq_some hstep
        exact move_rxNext (of_decide_eq_true hcall) hprompt
    | rxNextAdvance p =>
        dsimp only at hstep
        split at hstep
        · obtain ⟨-, -, rfl⟩ := rxStep_eq_some hstep
          exact .advance p _ ‹_›
        · cases hstep
    | rxNextLook p =>
        obtain ⟨hcall, -, rfl⟩ := rxStep_eq_some hstep
        exact .quiet (quiet_rxNextLook (of_decide_eq_true hcall))
    | remoteIrq =>
        dsimp only at hstep
        split at hstep
        · obtain rfl := Option.some.inj hstep
          exact move_remoteIrqPass ‹_›
        · cases hstep
    | rxHold =>
        obtain rfl := Option.some.inj hstep
        exact .hold
    | rxRelease =>
        dsimp only at hstep
        split at hstep
        · rename_i hfree
          obtain rfl := Option.some.inj hstep
          rw [releasable, Bool.and_eq_true, decide_eq_true_eq, decide_eq_true_eq] at hfree
          refine .release fun p => ?_
          cases p with
          | normal => exact hfree.1
          | high => exact hfree.2
        · cases hstep

/-! ### What the moves keep -/

theorem localIrqCall_tx (s : State) (p q : HalTransqPri) (slot : Nat) :
    (localIrqCall s p slot).tx q = { s.tx q with
      called := if q = p then (s.tx p).called ++ [s.regs.slots slot] else (s.tx q).called } := by
  unfold localIrqCall
  by_cases hq : q = p
  · subst hq
    rw [State.setTx_tx_self, if_pos rfl]
  · rw [State.setTx_tx_of_ne _ _ hq, if_neg hq]

theorem SendInv.call (h : SendInv s) (p : HalTransqPri) (slot : Nat) : SendInv (localIrqCall s p slot) := by
  have htx := localIrqCall_tx s p
  have hinFlight : ∀ q i, (localIrqCall s p slot).InFlight q i ↔ s.InFlight q i := fun q i => by
    rw [State.InFlight, htx]
    rfl
  refine ⟨h.shares, fun q => ?_, fun i hi => ?_, fun i hi => ?_, h.apart, h.lerr, fun q k m hlo hm => ?_⟩
  · rw [htx]
    exact ⟨(h.lane q).done_le, (h.lane q).sent_le, (h.lane q).next, (h.lane q).active, (h.lane q).full⟩
  · obtain ⟨q, hq⟩ := h.ris i hi
    exact ⟨q, (hinFlight q i).mpr hq⟩
  · obtain ⟨q, hq⟩ := h.ldone i hi
    exact ⟨q, (hinFlight q i).mpr hq⟩
  · rw [htx] at hlo hm
    exact h.slots q k m hlo hm

theorem SendInv.move (h : SendInv s) (hirq : IrqInv s) (hmove : Move s e s') : SendInv s' := by
  cases hmove with
  | quiet hquiet => exact h.congr hquiet.send
  | transmit p msg hpos hfull => exact h.transmit hpos hfull msg
  | polled p _ hsome hbit => exact h.complete hsome hbit
  | read => exact h.congr rfl
  | locked status p hread hsome hbit =>
      exact (h.complete hsome ((hirq.read status hread).2 _ hbit)).congr rfl
  | call p slot => exact h.call p slot
  | clear p _ _ hready => exact SendInv.rxClear hready h
  | advance => exact h.congr rfl
  | hold => exact h.congr rfl
  | release => exact h.congr rfl
  | fail => exact h.congr rfl

theorem IrqInv.of_same (hirq : IrqInv s) (hsame : s'.irq = s.irq) (hcfg : s'.txCfg = s.txCfg)
    (hdone : ∀ p, (s'.tx p).done = (s.tx p).done)
    (hldone : ∀ i, s.regs.ldoneRis.getLsbD i = true → s'.regs.ldoneRis.getLsbD i = true) : IrqInv s' := by
  refine ⟨fun hne => ?_, fun status hread => ?_, fun p slot hcall => ?_⟩
  · rw [hcfg]
    exact hirq.handler (hsame ▸ hne)
  · obtain ⟨hne, hsub⟩ := hirq.read status (hsame ▸ hread)
    exact ⟨hne, fun i hi => hldone i (hsub i hi)⟩
  · rw [State.slotOf, hcfg, hdone]
    exact hirq.unlocked p slot (hsame ▸ hcall)

theorem IrqInv.of_idle (hidle : s.irq = .idle) : IrqInv s :=
  ⟨fun hne => absurd hidle hne,
    fun _ hread => absurd (hidle.symm.trans hread) (by simp only [reduceCtorEq, not_false_eq_true]),
    fun _ _ hcall => absurd (hidle.symm.trans hcall) (by simp only [reduceCtorEq, not_false_eq_true])⟩

theorem IrqInv.move (hirq : IrqInv s) (h : SendInv s) (hmove : Move s e s') : IrqInv s' := by
  cases hmove with
  | quiet hquiet =>
      have hsend := hquiet.send
      simp only [State.sendView, Prod.mk.injEq] at hsend
      exact hirq.of_same hquiet.irq hsend.1 (fun p => by rw [hsend.2.1]) fun i hi => hsend.2.2.2.2.1 ▸ hi
  | transmit p msg =>
      refine hirq.of_same rfl rfl (fun q => ?_) fun i hi => hi
      by_cases hq : q = p
      · subst hq
        rw [transmit_tx_self]
        rfl
      · rw [transmit_tx_of_ne _ _ hq]
  | polled p hpoll =>
      refine .of_idle (s := Transq.complete s p (s.tx p).activeTxSlot) ?_
      by_contra hne
      have := hirq.handler hne
      rw [hpoll] at this
      cases this
  | read hidle hhandler hstatus =>
      refine ⟨fun _ => hhandler, fun status hread => ?_, fun p slot hcall => by cases hcall⟩
      cases hread
      refine ⟨hstatus, fun i hi => ?_⟩
      rw [Regs.ldoneMis, BitVec.getLsbD_and, Bool.and_eq_true] at hi
      exact hi.1
  | locked status p hread hsome hbit =>
      refine ⟨fun _ => hirq.handler (by rw [hread]; simp only [ne_eq, reduceCtorEq, not_false_eq_true]),
        fun status hread => (by cases hread), fun q slot hcall => ?_⟩
      cases hcall
      have hdone : ((Transq.complete s p (s.tx p).activeTxSlot).tx p).done = (s.tx p).done + 1 := by
        rw [complete_tx_self,
          TxLane.complete_done]
      change 0 < ((Transq.complete s p (s.tx p).activeTxSlot).tx p).done ∧ (s.tx p).activeTxSlot =
        Transq.slotOf (s.txCfg.txNum p) p (((Transq.complete s p (s.tx p).activeTxSlot).tx p).done - 1)
      rw [hdone, Nat.add_sub_cancel, (h.lane p).active_eq hsome]
      exact ⟨Nat.succ_pos _, rfl⟩
  | call p slot => exact .of_idle rfl
  | advance => exact hirq.of_same rfl rfl (fun _ => rfl) fun i hi => hi
  | hold => exact hirq.of_same rfl rfl (fun _ => rfl) fun i hi => hi
  | release => exact hirq.of_same rfl rfl (fun _ => rfl) fun i hi => hi
  | clear p _ _ hready =>
      refine hirq.of_same rfl rfl (fun _ => rfl) fun i hi => ?_
      change (s.regs.ldoneRis ||| (s.regs.rmtRis &&& bit (s.rx p).nextRxSlot)).getLsbD i = true
      rw [BitVec.getLsbD_or, hi, Bool.true_or]
  | fail => exact hirq.of_same rfl rfl (fun _ => rfl) fun i hi => hi

theorem run_sendInv {txCfg rxCfg : HalTransqCfg} {slots : Nat → Msg} {s₀ : State} {events : List Event}
    (hopen : halTransqOpen txCfg rxCfg slots = some s₀) (hrun : run step s₀ events = some s) :
    SendInv s ∧ IrqInv s := by
  refine run_invariant (fun s => SendInv s ∧ IrqInv s) (fun t e t' ht hstep => ?_) ⟨sendInv_open hopen, ?_⟩ hrun
  · have hmove := step_move ht.1 ht.2 hstep
    exact ⟨ht.1.move ht.2 hmove, ht.2.move ht.1 hmove⟩
  · unfold halTransqOpen at hopen
    split at hopen
    · obtain rfl := Option.some.inj hopen
      exact .of_idle rfl
    · cases hopen

end Best1307.Transq
