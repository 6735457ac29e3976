import Best1307.Transq.Moves

/-!
# Delivery

When both cores agree on the slots, the receiving core's position lies between what the sending core has
seen done and what it has sent. The raised interrupts are exactly the messages before and behind it, so that
both cores meet the messages in the order they were sent.
-/

namespace Best1307.Transq

open SlotRing

variable {s s' : State} {e : Event} {p q : HalTransqPri} {i : Nat} {msg : Msg}

namespace State

def gotCount (s : State) (p : HalTransqPri) : Nat := (s.rx p).consumed.length

/-- The message the receiving core looks for next; it has not stored that yet while it is in the gap. -/
def nextPos (s : State) (p : HalTransqPri) : Nat :=
  match (s.rx p).call with
  | .cleared _ => s.gotCount p - 1
  | _ => s.gotCount p

def InLane (s : State) (p : HalTransqPri) (i : Nat) : Prop :=
  firstSlot (s.txCfg.txNum p) p ≤ i ∧ i < firstSlot (s.txCfg.txNum p) p + s.txCfg.txNum p

/-- The slot holds one of the messages from `lo` up to `hi` of its priority. -/
def Held (s : State) (lo hi : HalTransqPri → Nat) (i : Nat) : Prop :=
  ∃ p, Occupied (firstSlot (s.txCfg.txNum p) p) (s.txCfg.txNum p) (lo p) (hi p) i

end State

/-- In the gap, the remote interrupt cannot be taken for the priority. -/
structure GapInv (s : State) (p : HalTransqPri) (held : Bool) : Prop where
  slots : 0 < s.txCfg.txNum p
  pos : 0 < s.gotCount p
  locked : held = true → s.rxHeld = true
  masked : held = false → s.rxCfg.rxHandler = true → ∀ i, s.InLane p i → s.regs.rmtIntmask.getLsbD i = false

structure RecvInv (s : State) : Prop where
  same : s.rxCfg.rxNum = s.txCfg.txNum
  done_le : ∀ p, s.doneCount p ≤ s.gotCount p
  got_le : ∀ p, s.gotCount p ≤ s.sentCount p
  consumed : ∀ p, (s.rx p).consumed = (s.tx p).sent.take (s.gotCount p)
  next : ∀ p, 0 < s.txCfg.txNum p → (s.rx p).nextRxSlot = s.slotOf p (s.nextPos p)
  noSlots : ∀ p, s.txCfg.txNum p = 0 → (s.rx p).nextRxSlot = transqSlotNum
  ris : ∀ i, s.regs.rmtRis.getLsbD i = true ↔ s.Held s.gotCount s.sentCount i
  ldone : ∀ i, s.regs.ldoneRis.getLsbD i = true ↔ s.Held s.doneCount s.gotCount i
  /-- the receiving core masks and unmasks whole priorities -/
  mask : ∀ p, ∃ on, ∀ i, s.InLane p i → s.regs.rmtIntmask.getLsbD i = on
  gap : ∀ p held, (s.rx p).call = .cleared held → GapInv s p held
  doneMask : s.txCfg.txHandler = true → ∀ p i, s.InLane p i → s.regs.ldoneIntmask.getLsbD i = true
  /-- what the handler has read were the messages done then -/
  read : ∀ status, s.irq = .read status → ∃ upTo : HalTransqPri → Nat,
    (∀ p, upTo p ≤ s.gotCount p) ∧ ∀ i, status.getLsbD i = true ↔ s.Held s.doneCount upTo i
  failed : s.failed = false

/-! ### Slots that are held -/

section

variable {lo hi : HalTransqPri → Nat}

theorem State.inLane_slotOf (s : State) (hpos : 0 < s.txCfg.txNum p) (k : Nat) : s.InLane p (s.slotOf p k) :=
  slotOf_bounds hpos

theorem SendInv.lane_eq (h : SendInv s) (hp : s.InLane p i) (hq : s.InLane q i) : p = q :=
  h.shares.pri_eq hp hq

theorem SendInv.pos_of_lt (h : SendInv s) (hlt : s.doneCount p < s.sentCount p) : 0 < s.txCfg.txNum p :=
  (h.lane p).pos (Nat.ne_of_lt hlt)

/-- A window of the messages in flight. -/
def State.Inside (s : State) (lo hi : HalTransqPri → Nat) : Prop :=
  ∀ p, s.doneCount p ≤ lo p ∧ hi p ≤ s.sentCount p

theorem SendInv.exists_lane (h : SendInv s) (hin : s.Inside lo hi) (hheld : s.Held lo hi i) :
    ∃ p, s.InLane p i ∧ lo p < hi p := by
  obtain ⟨p, k, hlo, hhi, rfl⟩ := hheld
  have hinside := hin p
  exact ⟨p, slotOf_bounds (h.pos_of_lt (by omega)), by omega⟩

theorem SendInv.lt_of_held (h : SendInv s) (hin : s.Inside lo hi) (hheld : s.Held lo hi i)
    (hlane : s.InLane p i) : lo p < hi p := by
  obtain ⟨q, hq, hlt⟩ := h.exists_lane hin hheld
  exact h.lane_eq hlane hq ▸ hlt

theorem State.held_first (s : State) (hlt : lo p < hi p) : s.Held lo hi (s.slotOf p (lo p)) :=
  ⟨p, lo p, Nat.le_refl _, hlt, rfl⟩

theorem State.not_held_empty (s : State) : ¬ s.Held lo lo i := fun ⟨_, hp⟩ => not_occupied_empty hp

theorem State.held_push (s : State) {hi' : HalTransqPri → Nat} (hle : lo p ≤ hi p)
    (hstep : ∀ q, hi' q = if q = p then hi q + 1 else hi q) :
    s.Held lo hi' i ↔ s.Held lo hi i ∨ i = s.slotOf p (hi p) := by
  constructor
  · rintro ⟨q, hq⟩
    rw [hstep] at hq
    split at hq
    · rename_i hqp
      subst hqp
      exact ((occupied_push hle).mp hq).imp_left fun hq => ⟨q, hq⟩
    · exact .inl ⟨q, hq⟩
  · rintro (⟨q, k, hlo, hhi, hk⟩ | rfl)
    · exact ⟨q, k, hlo, by rw [hstep]; split <;> omega, hk⟩
    · exact ⟨p, hi p, hle, by rw [hstep, if_pos rfl]; omega, rfl⟩

theorem SendInv.held_pop (h : SendInv s) {lo' : HalTransqPri → Nat} (hin : s.Inside lo hi) (hlt : lo p < hi p)
    (hstep : ∀ q, lo' q = if q = p then lo q + 1 else lo q) :
    s.Held lo' hi i ↔ s.Held lo hi i ∧ i ≠ s.slotOf p (lo p) := by
  have hfits : ∀ q, hi q ≤ lo q + s.txCfg.txNum q := fun q => by
    have hsent := (h.lane q).sent_le
    have hinside := hin q
    unfold State.doneCount State.sentCount at hinside
    omega
  constructor
  · rintro ⟨q, hq⟩
    rw [hstep] at hq
    split at hq
    · rename_i hqp
      subst hqp
      obtain ⟨hold, hne⟩ := (occupied_pop hlt (hfits q)).mp hq
      exact ⟨⟨q, hold⟩, hne⟩
    · rename_i hqp
      refine ⟨⟨q, hq⟩, ?_⟩
      rintro rfl
      obtain ⟨k, hlo, hhi, hk⟩ := hq
      have hinp := hin p
      have hinq := hin q
      have hlane : s.InLane q (s.slotOf p (lo p)) := by
        rw [← hk]
        exact slotOf_bounds (h.pos_of_lt (by omega))
      exact hqp (h.lane_eq hlane (s.inLane_slotOf (h.pos_of_lt (by omega)) _))
  · rintro ⟨⟨q, hq⟩, hne⟩
    refine ⟨q, ?_⟩
    rw [hstep]
    split
    · rename_i hqp
      subst hqp
      exact (occupied_pop hlt (hfits q)).mpr ⟨hq, hne⟩
    · exact hq

end

theorem RecvInv.rxMask (h : RecvInv s) (hs : SendInv s) :
    (rxIrqMask s.rxCfg p).getLsbD i = true ↔ s.InLane p i := by
  rw [rxIrqMask, h.same]
  exact getLsbD_constructMask (firstSlot_add_le (hs.shares.le p))

theorem RecvInv.inside_wait (h : RecvInv s) : s.Inside s.gotCount s.sentCount :=
  fun p => ⟨h.done_le p, Nat.le_refl _⟩

theorem RecvInv.inside_done (h : RecvInv s) : s.Inside s.doneCount s.gotCount :=
  fun p => ⟨Nat.le_refl _, h.got_le p⟩

/-! ### No assertion fails -/

theorem RecvInv.not_localFails (h : RecvInv s) (hs : SendInv s) : ¬ LocalFails s := by
  rintro ⟨status, p, hread, ⟨i, hi, hflight⟩, hnot⟩
  obtain ⟨upTo, hupTo, hstatus⟩ := h.read status hread
  have hin : s.Inside s.doneCount upTo := fun q => ⟨Nat.le_refl _, Nat.le_trans (hupTo q) (h.got_le q)⟩
  have hlt := hs.lt_of_held hin ((hstatus i).mp hi) (hs.bounds hflight)
  have hsome : (s.tx p).done ≠ (s.tx p).sent.length := Nat.ne_of_lt (Nat.lt_of_lt_of_le hlt (hin p).2)
  rw [(hs.lane p).active_eq hsome] at hnot
  exact hnot ((hstatus _).mpr (s.held_first hlt))

theorem State.nextPos_eq (s : State) (hgap : ¬ s.InGap p) : s.nextPos p = s.gotCount p := by
  unfold State.nextPos
  split
  · exact absurd ⟨_, ‹_›⟩ hgap
  · rfl

theorem getLsbD_rmtMis {r : Regs} : r.rmtMis.getLsbD i = true ↔
    r.rmtRis.getLsbD i = true ∧ r.rmtIntmask.getLsbD i = true := by
  rw [Regs.rmtMis, BitVec.getLsbD_and, Bool.and_eq_true]

theorem remotePending_iff : remotePending s = true ↔
    s.rxCfg.rxHandler = true ∧ s.rxHeld = false ∧ s.regs.rmtMis ≠ 0 := by
  rw [remotePending, Bool.and_eq_true, Bool.and_eq_true, Bool.not_eq_true', decide_eq_true_eq, and_assoc]

theorem RecvInv.not_remoteFails (h : RecvInv s) (hs : SendInv s) : ¬ RemoteFails s := by
  rintro ⟨hpending, hfails⟩
  obtain ⟨hhandler, hheld, hmis⟩ := remotePending_iff.mp hpending
  rcases hfails with hmasks | ⟨p, hmask, hnot⟩
  · have hall : s.regs.rmtMis &&& s.regs.rmtMis ≠ 0 := by rwa [BitVec.and_self]
    obtain ⟨i, hi, -⟩ := and_ne_zero.mp hall
    obtain ⟨p, hlane, -⟩ := hs.exists_lane h.inside_wait ((h.ris i).mp (getLsbD_rmtMis.mp hi).1)
    exact and_ne_zero.mpr ⟨i, hi, (h.rxMask hs).mpr hlane⟩ (hmasks p)
  · obtain ⟨i, hi, hbit⟩ := and_ne_zero.mp hmask
    obtain ⟨hris, hon⟩ := getLsbD_rmtMis.mp hi
    have hlane := (h.rxMask hs).mp hbit
    have hgap : ¬ s.InGap p := by
      rintro ⟨held, hcall⟩
      cases held with
      | true => rw [(h.gap p true hcall).locked rfl] at hheld; cases hheld
      | false => rw [(h.gap p false hcall).masked rfl hhandler i hlane] at hon; cases hon
    have hlt := hs.lt_of_held h.inside_wait ((h.ris i).mp hris) hlane
    have hpos := hs.pos_of_lt (Nat.lt_of_le_of_lt (h.done_le p) hlt)
    obtain ⟨on, hmaskOn⟩ := h.mask p
    refine hnot (getLsbD_rmtMis.mpr ?_)
    rw [h.next p hpos, s.nextPos_eq hgap, h.ris]
    refine ⟨s.held_first hlt, ?_⟩
    rw [hmaskOn _ (s.inLane_slotOf hpos _), ← hmaskOn i hlane, hon]

/-! ### What the moves keep -/

theorem RecvInv.of_same (h : RecvInv s) (hs : SendInv s) (hrxCfg : s'.rxCfg = s.rxCfg)
    (htxCfg : s'.txCfg = s.txCfg)
    (htx : ∀ p, (s'.tx p).sent = (s.tx p).sent ∧ (s'.tx p).done = (s.tx p).done)
    (hrx : ∀ p, SameRx (s.rx p) (s'.rx p)) (hris : s'.regs.rmtRis = s.regs.rmtRis)
    (hldone : s'.regs.ldoneRis = s.regs.ldoneRis)
    (hmask : ∀ p, ∃ on, ∀ i, s.InLane p i → s'.regs.rmtIntmask.getLsbD i = on)
    (hgap : ∀ p held, (s.rx p).call = .cleared held →
      (held = true → s'.rxHeld = s.rxHeld) ∧ ∀ i, s.InLane p i → s.regs.rmtIntmask.getLsbD i = false →
        s'.regs.rmtIntmask.getLsbD i = false)
    (hdoneMask : s.txCfg.txHandler = true → s'.regs.ldoneIntmask = s.regs.ldoneIntmask)
    (hread : ∀ status, s'.irq = .read status →
      s.irq = .read status ∨ status = s.regs.ldoneMis ∧ s.txCfg.txHandler = true)
    (hfailed : s'.failed = s.failed) : RecvInv s' := by
  have hsent : s'.sentCount = s.sentCount := funext fun p => congrArg List.length (htx p).1
  have hdone : s'.doneCount = s.doneCount := funext fun p => (htx p).2
  have hgot : s'.gotCount = s.gotCount := funext fun p => congrArg List.length (hrx p).consumed
  have hnext : ∀ p, s'.nextPos p = s.nextPos p := fun p => by
    unfold State.nextPos
    rw [hgot]
    cases hcall : (s.rx p).call with
    | cleared held => rw [((hrx p).call held).mpr hcall]
    | _ =>
        have hnot : ¬ s'.InGap p := fun ⟨held, hheld⟩ => by
          rw [((hrx p).call held).mp hheld] at hcall
          cases hcall
        split
        · exact absurd ⟨_, ‹_›⟩ hnot
        · rfl
  have hheld : ∀ lo hi i, s'.Held lo hi i ↔ s.Held lo hi i := fun lo hi i => by
    rw [State.Held, State.Held, htxCfg]
  have hlane : ∀ p i, s'.InLane p i ↔ s.InLane p i := fun p i => by
    rw [State.InLane, State.InLane, htxCfg]
  refine ⟨?_, ?_, ?_, fun p => ?_, fun p hpos => ?_, fun p hnone => ?_, fun i => ?_, fun i => ?_,
    fun p => ?_, fun p held hcall => ?_, fun hhandler p i hi => ?_, fun status hstatus => ?_,
    hfailed.trans h.failed⟩
  · rw [hrxCfg, htxCfg]
    exact h.same
  · rw [hdone, hgot]
    exact h.done_le
  · rw [hsent, hgot]
    exact h.got_le
  · rw [(hrx p).consumed, (htx p).1, hgot]
    exact h.consumed p
  · rw [htxCfg] at hpos
    rw [(hrx p).next, hnext, State.slotOf, htxCfg]
    exact h.next p hpos
  · rw [htxCfg] at hnone
    rw [(hrx p).next]
    exact h.noSlots p hnone
  · rw [hris, hgot, hsent, hheld]
    exact h.ris i
  · rw [hldone, hgot, hdone, hheld]
    exact h.ldone i
  · obtain ⟨on, hon⟩ := hmask p
    exact ⟨on, fun i hi => hon i ((hlane p i).mp hi)⟩
  · have hcall' := ((hrx p).call held).mp hcall
    have hold := h.gap p held hcall'
    refine ⟨by rw [htxCfg]; exact hold.slots, by rw [hgot]; exact hold.pos, fun hheld => ?_,
      fun hheld hhandler i hi => ?_⟩
    · rw [(hgap p held hcall').1 hheld]
      exact hold.locked hheld
    · rw [hrxCfg] at hhandler
      exact (hgap p held hcall').2 i ((hlane p i).mp hi) (hold.masked hheld hhandler i ((hlane p i).mp hi))
  · rw [htxCfg] at hhandler
    rw [hdoneMask hhandler]
    exact h.doneMask hhandler p i ((hlane p i).mp hi)
  · simp only [hheld, hdone, hgot]
    rcases hread status hstatus with hold | ⟨rfl, hhandler⟩
    · exact h.read status hold
    · refine ⟨s.gotCount, fun p => Nat.le_refl _, fun i => ?_⟩
      rw [Regs.ldoneMis, BitVec.getLsbD_and, Bool.and_eq_true, h.ldone]
      refine and_iff_left_of_imp fun hi => ?_
      obtain ⟨p, hp, -⟩ := hs.exists_lane h.inside_done hi
      exact h.doneMask hhandler p i hp

theorem RecvInv.rxMask_ne (h : RecvInv s) (hs : SendInv s) (hlane : s.InLane p i) (hne : q ≠ p) :
    (rxIrqMask s.rxCfg q).getLsbD i = false :=
  Bool.eq_false_iff.mpr fun hbit => hne (hs.lane_eq ((h.rxMask hs).mp hbit) hlane)

theorem SendInv.lt_of_inLane (hs : SendInv s) (hlane : s.InLane p i) : i < 32 :=
  Nat.lt_of_lt_of_le hlane.2 (firstSlot_add_le (hs.shares.le p))

theorem RecvInv.maskMove (h : RecvInv s) (hs : SendInv s) (hmove : MaskMove s s') (p : HalTransqPri) :
    ∃ on, ∀ i, s.InLane p i → s'.regs.rmtIntmask.getLsbD i = on := by
  obtain ⟨on, hon⟩ := h.mask p
  cases hmove with
  | same hsame => exact ⟨on, fun i hi => by rw [hsame, hon i hi]⟩
  | set q _ hset =>
      by_cases hq : q = p
      · subst hq
        exact ⟨true, fun i hi => by rw [hset, BitVec.getLsbD_or, (h.rxMask hs).mpr hi, Bool.or_true]⟩
      · exact ⟨on, fun i hi => by rw [hset, BitVec.getLsbD_or, h.rxMask_ne hs hi hq, Bool.or_false, hon i hi]⟩
  | clear q hclear =>
      by_cases hq : q = p
      · subst hq
        refine ⟨false, fun i hi => ?_⟩
        rw [hclear, BitVec.getLsbD_and, BitVec.getLsbD_not, (h.rxMask hs).mpr hi, Bool.not_true, Bool.and_false,
          Bool.and_false]
      · refine ⟨on, fun i hi => ?_⟩
        rw [hclear, BitVec.getLsbD_and, BitVec.getLsbD_not, h.rxMask_ne hs hi hq, hon i hi, Bool.not_false,
          Bool.and_true, decide_eq_true (hs.lt_of_inLane hi), Bool.and_true]

theorem RecvInv.gapMove (h : RecvInv s) (hs : SendInv s) (hmove : MaskMove s s') {held : Bool}
    (hcall : (s.rx p).call = .cleared held) (i : Nat) (hlane : s.InLane p i)
    (hoff : s.regs.rmtIntmask.getLsbD i = false) : s'.regs.rmtIntmask.getLsbD i = false := by
  cases hmove with
  | same hsame => rw [hsame, hoff]
  | set q hgap hset =>
      have hq : q ≠ p := by
        rintro rfl
        exact hgap ⟨held, hcall⟩
      rw [hset, BitVec.getLsbD_or, h.rxMask_ne hs hlane hq, hoff, Bool.or_self]
  | clear q hclear => rw [hclear, BitVec.getLsbD_and, hoff, Bool.false_and]

theorem RecvInv.transmit (h : RecvInv s) (hs : SendInv s) (hpos : 0 < s.txCfg.txNum p) (msg : Msg) :
    RecvInv (transmit s p msg) := by
  refine ⟨h.same, ?_, fun q => ?_, fun q => ?_, h.next, h.noSlots, fun i => ?_, ?_, h.mask, fun q held hcall => ?_,
    h.doneMask, ?_, h.failed⟩
  · rw [doneCount_transmit]
    exact h.done_le
  · rw [sentCount_transmit]
    have hle := h.got_le q
    change s.gotCount q ≤ _
    split <;> omega
  · by_cases hq : q = p
    · subst hq
      rw [transmit_tx_self]
      exact (h.consumed q).trans (List.take_append_of_le_length (h.got_le q)).symm
    · rw [transmit_tx_of_ne _ _ hq]
      exact h.consumed q
  · rw [hs.ris_transmit hpos, h.ris, (hs.lane p).next hpos]
    exact (s.held_push (h.got_le p) fun q => sentCount_transmit).symm
  · rw [doneCount_transmit]
    exact h.ldone
  · have hgap := h.gap q held hcall
    exact ⟨hgap.slots, hgap.pos, hgap.locked, hgap.masked⟩
  · rw [doneCount_transmit]
    exact h.read

/-- The completion of the active message, whatever the handler does next but read on. -/
theorem RecvInv.complete (h : RecvInv s) (hs : SendInv s) (hsome : (s.tx p).done ≠ (s.tx p).sent.length)
    (hbit : s.regs.ldoneRis.getLsbD (s.tx p).activeTxSlot = true) {irq : LocalIrq}
    (hirq : ∀ status, irq ≠ .read status) :
    RecvInv { complete s p (s.tx p).activeTxSlot with irq := irq } := by
  have hactive := (hs.lane p).active_eq hsome
  have hlt : s.doneCount p < s.gotCount p := by
    refine hs.lt_of_held h.inside_done ((h.ldone _).mp hbit) ?_
    rw [hactive]
    exact s.inLane_slotOf ((hs.lane p).pos hsome) _
  have hsent : (Transq.complete s p (s.tx p).activeTxSlot).sentCount = s.sentCount :=
    funext fun q => congrArg List.length complete_sent
  refine ⟨h.same, fun q => ?_, fun q => ?_, fun q => ?_, h.next, h.noSlots, fun i => ?_, fun i => ?_, h.mask,
    fun q held hcall => ?_, h.doneMask, fun status hstatus => absurd hstatus (hirq status), h.failed⟩
  · change (Transq.complete s p (s.tx p).activeTxSlot).doneCount q ≤ s.gotCount q
    rw [doneCount_complete]
    have hle := h.done_le q
    split
    · rename_i hq
      subst hq
      exact hlt
    · exact hle
  · change s.gotCount q ≤ (Transq.complete s p (s.tx p).activeTxSlot).sentCount q
    rw [hsent]
    exact h.got_le q
  · change (s.rx q).consumed = ((Transq.complete s p (s.tx p).activeTxSlot).tx q).sent.take (s.gotCount q)
    rw [complete_sent]
    exact h.consumed q
  · change _ ↔ s.Held s.gotCount (Transq.complete s p (s.tx p).activeTxSlot).sentCount i
    rw [hsent]
    exact h.ris i
  · change (Transq.complete s p (s.tx p).activeTxSlot).regs.ldoneRis.getLsbD i = true ↔
      s.Held (Transq.complete s p (s.tx p).activeTxSlot).doneCount s.gotCount i
    rw [ldone_complete, h.ldone, hactive]
    exact (hs.held_pop h.inside_done hlt fun q => doneCount_complete).symm
  · have hgap := h.gap q held hcall
    exact ⟨hgap.slots, hgap.pos, hgap.locked, hgap.masked⟩

section Clear

variable (h : RecvInv s) (hs : SendInv s) (hcall : ¬ s.InGap p)
  (hready : s.regs.rmtRis.getLsbD (s.rx p).nextRxSlot = true)
include h hs hcall hready

omit hcall in
/-- The receiving core finds a message in its next slot only if one is waiting. -/
theorem RecvInv.lt_of_ready : s.gotCount p < s.sentCount p := by
  rcases Nat.eq_zero_or_pos (s.txCfg.txNum p) with hnone | hpos
  · rw [h.noSlots p hnone] at hready
    exact absurd (lt_of_getLsbD hready) (Nat.lt_irrefl _)
  · refine hs.lt_of_held h.inside_wait ((h.ris _).mp hready) ?_
    rw [h.next p hpos]
    exact s.inLane_slotOf hpos _

theorem RecvInv.next_of_ready : 0 < s.txCfg.txNum p ∧ (s.rx p).nextRxSlot = s.slotOf p (s.gotCount p) := by
  have hlt := h.lt_of_ready hs hready
  have hpos := hs.pos_of_lt (Nat.lt_of_le_of_lt (h.done_le p) hlt)
  exact ⟨hpos, by rw [h.next p hpos, s.nextPos_eq hcall]⟩

theorem RecvInv.current : ∃ m, (s.tx p).sent[s.gotCount p]? = some m ∧ s.regs.slots (s.rx p).nextRxSlot = m := by
  have hlt := h.lt_of_ready hs hready
  have hget : (s.tx p).sent[s.gotCount p]? = some (s.tx p).sent[s.gotCount p] := List.getElem?_eq_getElem hlt
  refine ⟨_, hget, ?_⟩
  rw [(h.next_of_ready hs hcall hready).2]
  exact hs.slots p _ _ (h.done_le p) hget

/-- If the remote interrupt was enabled when a waiting message was cleared, it was masked for the priority. -/
theorem RecvInv.masked_of_ready (hprompt : remotePending s = false) (hhandler : s.rxCfg.rxHandler = true)
    (hheld : s.rxHeld = false) : ∀ i, s.InLane p i → s.regs.rmtIntmask.getLsbD i = false := by
  obtain ⟨hpos, hnext⟩ := h.next_of_ready hs hcall hready
  obtain ⟨on, hon⟩ := h.mask p
  have hoff : on = false := by
    by_contra honTrue
    rw [Bool.not_eq_false] at honTrue
    have hmis : s.regs.rmtMis.getLsbD (s.rx p).nextRxSlot = true :=
      getLsbD_rmtMis.mpr ⟨hready, by rw [hnext, hon _ (s.inLane_slotOf hpos _), honTrue]⟩
    have hpending : remotePending s = true :=
      remotePending_iff.mpr ⟨hhandler, hheld, fun hzero => by
        rw [hzero] at hmis
        exact absurd hmis (by simp only [BitVec.ofNat_eq_ofNat, BitVec.getLsbD_zero, Bool.false_eq_true,
          not_false_eq_true])⟩
    rw [hprompt] at hpending
    cases hpending
  exact fun i hi => (hon i hi).trans hoff

theorem RecvInv.rxClear (hprompt : remotePending s = false) : RecvInv (rxClear s p) := by
  have hlt := h.lt_of_ready hs hready
  obtain ⟨hpos, hnext⟩ := h.next_of_ready hs hcall hready
  have hgot : ∀ q, (Transq.rxClear s p).gotCount q = if q = p then s.gotCount q + 1 else s.gotCount q := fun q => by
    unfold State.gotCount
    split
    · rename_i hq
      subst hq
      rw [rxClear_rx_self]
      exact List.length_append
    · rw [rxClear_rx_of_ne _ ‹_›]
  have hgot_le : ∀ q, s.gotCount q ≤ (Transq.rxClear s p).gotCount q := fun q => by
    rw [hgot]
    split <;> omega
  refine ⟨h.same, fun q => Nat.le_trans (h.done_le q) (hgot_le q), fun q => ?_, fun q => ?_, fun q hq => ?_,
    fun q hq => ?_, fun i => ?_, fun i => ?_, h.mask, fun q held hcall' => ?_, h.doneMask, fun status hstatus => ?_,
    h.failed⟩
  · rw [hgot]
    split
    · rename_i hq
      subst hq
      exact hlt
    · exact h.got_le q
  · by_cases hq : q = p
    · subst hq
      obtain ⟨m, hm, hslot⟩ := h.current hs hcall hready
      rw [hgot, if_pos rfl, rxClear_rx_self, List.take_add_one]
      change (s.rx q).consumed ++ [s.regs.slots (s.rx q).nextRxSlot] =
        (s.tx q).sent.take (s.gotCount q) ++ (s.tx q).sent[s.gotCount q]?.toList
      rw [hslot, hm, h.consumed q]
      rfl
    · rw [hgot, if_neg hq, rxClear_rx_of_ne _ hq]
      exact h.consumed q
  · by_cases hqp : q = p
    · subst hqp
      have hpos' : (Transq.rxClear s q).nextPos q = s.gotCount q := by
        rw [State.nextPos, rxClear_rx_self]
        dsimp only
        rw [hgot, if_pos rfl, Nat.add_sub_cancel]
      rw [hpos', rxClear_rx_self]
      exact hnext
    · have hpos' : (Transq.rxClear s p).nextPos q = s.nextPos q := by
        rw [State.nextPos, rxClear_rx_of_ne _ hqp, hgot, if_neg hqp]
        rfl
      rw [hpos', rxClear_rx_of_ne _ hqp]
      exact h.next q hq
  · by_cases hqp : q = p
    · subst hqp
      exact absurd hq (Nat.ne_of_gt hpos)
    · rw [rxClear_rx_of_ne _ hqp]
      exact h.noSlots q hq
  · rw [ris_rxClear, h.ris, hnext]
    exact (hs.held_pop h.inside_wait hlt hgot).symm
  · rw [ldone_rxClear hready, h.ldone, hnext]
    exact (s.held_push (h.done_le p) hgot).symm
  · by_cases hqp : q = p
    · subst hqp
      rw [rxClear_rx_self] at hcall'
      obtain rfl : s.rxHeld = held := RxCall.cleared.inj hcall'
      exact ⟨hpos, by rw [hgot, if_pos rfl]; omega, id,
        fun hheld hhandler => h.masked_of_ready hs hcall hready hprompt hhandler hheld⟩
    · rw [rxClear_rx_of_ne _ hqp] at hcall'
      have hgap := h.gap q held hcall'
      exact ⟨hgap.slots, Nat.lt_of_lt_of_le hgap.pos (hgot_le q), hgap.locked, hgap.masked⟩
  · obtain ⟨upTo, hupTo, hread⟩ := h.read status hstatus
    exact ⟨upTo, fun q => Nat.le_trans (hupTo q) (hgot_le q), hread⟩

end Clear

/-- The next slot is stored: the receiving core is where it counts to be. -/
theorem RecvInv.advance (h : RecvInv s) (hs : SendInv s) {held : Bool} (hcall : (s.rx p).call = .cleared held) :
    RecvInv (halTransqRxNextAdvance s p) := by
  obtain ⟨hpos, hgot, -, -⟩ := h.gap p held hcall
  have hself : (halTransqRxNextAdvance s p).rx p = { s.rx p with
      nextRxSlot := getNextRxSlot s.rxCfg p (s.rx p).nextRxSlot, call := .advanced } := State.setRx_rx_self ..
  have hother : ∀ {q}, q ≠ p → (halTransqRxNextAdvance s p).rx q = s.rx q := fun hq => State.setRx_rx_of_ne _ _ hq
  have hconsumed : ∀ q, ((halTransqRxNextAdvance s p).rx q).consumed = (s.rx q).consumed := fun q => by
    by_cases hq : q = p
    · subst hq
      rw [hself]
    · rw [hother hq]
  have hcount : (halTransqRxNextAdvance s p).gotCount = s.gotCount :=
    funext fun q => congrArg List.length (hconsumed q)
  refine ⟨h.same, ?_, ?_, fun q => ?_, fun q hq => ?_, fun q hq => ?_, ?_, ?_, h.mask, fun q held' hcall' => ?_,
    h.doneMask, ?_, h.failed⟩
  · rw [hcount]
    exact h.done_le
  · rw [hcount]
    exact h.got_le
  · rw [hconsumed, hcount]
    exact h.consumed q
  · by_cases hqp : q = p
    · subst hqp
      have hslot : (s.rx q).nextRxSlot = slotOf (s.txCfg.txNum q) q (s.gotCount q - 1) := by
        rw [h.next q hpos, State.nextPos, hcall]
        rfl
      have hlast : s.gotCount q - 1 + 1 = s.gotCount q := by omega
      rw [State.nextPos, hself, hcount]
      dsimp only
      rw [getNextRxSlot, h.same, hslot, nextSlot_slotOf hpos (hs.shares.le q), hlast]
      rfl
    · rw [State.nextPos, hother hqp, hcount]
      exact h.next q hq
  · by_cases hqp : q = p
    · subst hqp
      exact absurd hq (Nat.ne_of_gt hpos)
    · rw [hother hqp]
      exact h.noSlots q hq
  · rw [hcount]
    exact h.ris
  · rw [hcount]
    exact h.ldone
  · have hqp : q ≠ p := by
      rintro rfl
      rw [hself] at hcall'
      cases hcall'
    rw [hother hqp] at hcall'
    have hgap := h.gap q held' hcall'
    exact ⟨hgap.slots, by rw [hcount]; exact hgap.pos, hgap.locked, hgap.masked⟩
  · rw [hcount]
    exact h.read

theorem RecvInv.move (h : RecvInv s) (hs : SendInv s) (hirq : IrqInv s) (hmove : Move s e s') : RecvInv s' := by
  cases hmove with
  | quiet hquiet =>
      have hsend := hquiet.send
      simp only [State.sendView, Prod.mk.injEq] at hsend
      obtain ⟨htxCfg, htx, -, hris, hldone, -⟩ := hsend
      exact h.of_same hs hquiet.rxCfg htxCfg (fun p => by rw [htx]; exact ⟨rfl, rfl⟩) hquiet.rx hris hldone
        (h.maskMove hs hquiet.mask) (fun p held hcall => ⟨fun _ => hquiet.rxHeld, h.gapMove hs hquiet.mask hcall⟩)
        hquiet.doneMask (fun status hread => .inl (hquiet.irq ▸ hread)) hquiet.failed
  | transmit p msg hpos => exact h.transmit hs hpos msg
  | polled p hpoll hsome hbit =>
      refine @RecvInv.complete s p h hs hsome hbit s.irq fun status hread => ?_
      have hhandler := hirq.handler (by rw [hread]; simp only [ne_eq, reduceCtorEq, not_false_eq_true])
      rw [hpoll] at hhandler
      cases hhandler
  | read hidle hhandler =>
      exact h.of_same hs rfl rfl (fun _ => ⟨rfl, rfl⟩) (fun _ => .refl _) rfl rfl h.mask
        (fun _ _ _ => ⟨fun _ => rfl, fun _ _ => id⟩) (fun _ => rfl)
        (fun status hread => .inr ⟨(LocalIrq.read.inj hread).symm, hhandler⟩) rfl
  | locked status p hread hsome hbit =>
      exact h.complete hs hsome ((hirq.read status hread).2 _ hbit)
        fun _ hcall => by simp only [reduceCtorEq] at hcall
  | call p slot =>
      have htx := localIrqCall_tx s p
      exact h.of_same hs rfl rfl (fun q => by rw [htx]; exact ⟨rfl, rfl⟩) (fun _ => .refl _) rfl rfl h.mask
        (fun _ _ _ => ⟨fun _ => rfl, fun _ _ => id⟩) (fun _ => rfl) (fun status hread => by cases hread) rfl
  | clear p hcall hprompt hready =>
      exact h.rxClear hs (not_inGap_of_idle hcall) hready hprompt
  | advance p held hcall => exact h.advance hs hcall
  | hold =>
      refine ⟨h.same, h.done_le, h.got_le, h.consumed, h.next, h.noSlots, h.ris, h.ldone, h.mask,
        fun p held hcall => ?_, h.doneMask, h.read, h.failed⟩
      have hgap := h.gap p held hcall
      exact ⟨hgap.slots, hgap.pos, fun _ => rfl, hgap.masked⟩
  | release hfree =>
      refine ⟨h.same, h.done_le, h.got_le, h.consumed, h.next, h.noSlots, h.ris, h.ldone, h.mask,
        fun p held hcall => ?_, h.doneMask, h.read, h.failed⟩
      have hgap := h.gap p held hcall
      refine ⟨hgap.slots, hgap.pos, fun hheld => ?_, hgap.masked⟩
      subst hheld
      exact absurd hcall (hfree p)
  | fail hfails =>
      rcases hfails with hlocal | hremote
      · exact absurd hlocal (h.not_localFails hs)
      · exact absurd hremote (h.not_remoteFails hs)

/-! ### Runs -/

theorem recvInv_open {txCfg rxCfg : HalTransqCfg} {slots : Nat → Msg} (hsame : rxCfg.rxNum = txCfg.txNum)
    (hopen : halTransqOpen txCfg rxCfg slots = some s) : RecvInv s := by
  have hs := sendInv_open hopen
  unfold halTransqOpen at hopen
  split at hopen
  · obtain rfl := Option.some.inj hopen
    have hnone : ∀ i, (0#32).getLsbD i ≠ true := fun i => by
      rw [BitVec.getLsbD_zero]
      exact Bool.false_ne_true
    refine ⟨hsame, fun _ => Nat.le_refl _, fun _ => Nat.le_refl _, fun _ => rfl, fun p hpos => ?_, fun p hzero => ?_,
      fun i => iff_of_false (hnone i) (State.not_held_empty _),
      fun i => iff_of_false (hnone i) (State.not_held_empty _), fun p => ⟨true, fun i => getLsbD_openMask hs.shares⟩,
      fun p held hcall => (by cases hcall), fun hhandler p i hi => ?_, fun status hread => (by cases hread), rfl⟩
    · change (if rxCfg.rxNum p = 0 then transqSlotNum else firstSlot (rxCfg.rxNum p) p) = slotOf (txCfg.txNum p) p 0
      rw [hsame, if_neg (Nat.ne_of_gt hpos), slotOf, slotAt, Nat.zero_mod, Nat.add_zero]
    · change (if rxCfg.rxNum p = 0 then transqSlotNum else firstSlot (rxCfg.rxNum p) p) = transqSlotNum
      rw [hsame]
      exact if_pos hzero
    · change (if txCfg.txHandler = true then _ else 0 : BitVec 32).getLsbD i = true
      rw [if_pos hhandler]
      exact getLsbD_openMask hs.shares hi
  · cases hopen

theorem run_recvInv {txCfg rxCfg : HalTransqCfg} {slots : Nat → Msg} {s₀ : State} {events : List Event}
    (hsame : rxCfg.rxNum = txCfg.txNum) (hopen : halTransqOpen txCfg rxCfg slots = some s₀)
    (hrun : run step s₀ events = some s) : SendInv s ∧ RecvInv s := by
  have hinit : (SendInv s₀ ∧ IrqInv s₀) ∧ RecvInv s₀ :=
    ⟨run_sendInv hopen (run_nil step s₀), recvInv_open hsame hopen⟩
  have hlast := run_invariant (fun s => (SendInv s ∧ IrqInv s) ∧ RecvInv s) (fun t e t' ht hstep => by
    obtain ⟨⟨hs, hirq⟩, hr⟩ := ht
    have hmove := step_move hs hirq hstep
    exact ⟨⟨hs.move hirq hmove, hirq.move hs hmove⟩, hr.move hs hirq hmove⟩) hinit hrun
  exact ⟨hlast.1.1, hlast.2⟩

/-- What a receive call reports of the message that is next, if there is one. -/
def reported : Option Msg → HalTransqRet × Option Msg
  | some m => (.ok, some m)
  | none => (.rxEmpty, none)

/-- The queue as its users see it. -/
structure Delivers (s : State) : Prop where
  noAssertion : s.failed = false
  /-- what has been received is what was sent first, each message once and in order -/
  inOrder : ∀ p, (s.rx p).consumed <+: (s.tx p).sent
  /-- both receive calls report the first message not yet received, or that there is none -/
  rxFirst : ∀ p, s.rxCfg.rxNum p ≠ 0 → (s.rx p).call = .idle → ((halTransqRxFirst s p).1, (halTransqRxFirst s p).2.1) =
    reported (s.tx p).sent[(s.rx p).consumed.length]?
  rxNextLook : ∀ p, (s.rx p).call = .advanced →
    ((halTransqRxNextLook s p).1, (halTransqRxNextLook s p).2.1) = reported (s.tx p).sent[(s.rx p).consumed.length]?
  /-- a call of `hal_transq_rx_next` receives that message -/
  rxNext : ∀ p, s.rxCfg.rxNum p ≠ 0 → (s.rx p).call = .idle → ((halTransqRxNext s p).rx p).consumed =
    (s.rx p).consumed ++ (s.tx p).sent[(s.rx p).consumed.length]?.toList
  /-- a transmission is refused exactly if all slots are in flight -/
  tx : ∀ p msg, s.txCfg.txNum p ≠ 0 → (halTransqTx s p msg).1 =
    if (s.tx p).sent.length - (s.tx p).done = s.txCfg.txNum p then .txFull else .ok
  /-- it leaves the messages in flight in their slots -/
  kept : ∀ p msg q k m, (s.tx q).done ≤ k → (s.tx q).sent[k]? = some m →
    (halTransqTx s p msg).2.regs.slots (s.slotOf q k) = m

theorem RecvInv.ready_of_lt (h : RecvInv s) (hs : SendInv s) (hgap : ¬ s.InGap p)
    (hlt : s.gotCount p < s.sentCount p) :
    rxReady s p = true := by
  rw [rxReady_iff, h.next p (hs.pos_of_lt (Nat.lt_of_le_of_lt (h.done_le p) hlt)), s.nextPos_eq hgap, h.ris]
  exact s.held_first hlt

theorem RecvInv.rxLook (h : RecvInv s) (hs : SendInv s) (hgap : ¬ s.InGap p) :
    ((rxLook s p).1, (rxLook s p).2.1) = reported (s.tx p).sent[s.gotCount p]? := by
  unfold Transq.rxLook
  by_cases hready : rxReady s p = true
  · obtain ⟨m, hm, hslot⟩ := h.current hs hgap (rxReady_iff.mp hready)
    rw [if_pos hready, hm, hslot]
    rfl
  · have hall : (s.tx p).sent[s.gotCount p]? = none :=
      List.getElem?_eq_none (Nat.not_lt.mp fun hlt => hready (h.ready_of_lt hs hgap hlt))
    rw [if_neg hready, hall]
    rfl

theorem RecvInv.rxNext (h : RecvInv s) (hs : SendInv s) (hgap : ¬ s.InGap p) (hnum : s.rxCfg.rxNum p ≠ 0) :
    ((halTransqRxNext s p).rx p).consumed = (s.rx p).consumed ++ (s.tx p).sent[s.gotCount p]?.toList := by
  unfold halTransqRxNext
  rw [if_neg hnum]
  by_cases hready : rxReady s p = true
  · obtain ⟨m, hm, hslot⟩ := h.current hs hgap (rxReady_iff.mp hready)
    rw [if_pos hready, rxClear_rx_self, hm, hslot]
    rfl
  · have hall : (s.tx p).sent[s.gotCount p]? = none :=
      List.getElem?_eq_none (Nat.not_lt.mp fun hlt => hready (h.ready_of_lt hs hgap hlt))
    rw [if_neg hready, hall]
    exact (List.append_nil _).symm

theorem SendInv.halTransqTx_ret (hs : SendInv s) (hnum : s.txCfg.txNum p ≠ 0) (msg : Msg) :
    (halTransqTx s p msg).1 =
      if (s.tx p).sent.length - (s.tx p).done = s.txCfg.txNum p then .txFull else .ok := by
  have hle := (hs.lane p).done_le
  have hfull : (s.tx p).txSlotFull = true ↔ (s.tx p).sent.length - (s.tx p).done = s.txCfg.txNum p := by
    rw [(hs.lane p).full]
    omega
  unfold halTransqTx
  rw [if_neg hnum]
  by_cases hcase : (s.tx p).txSlotFull = true
  · rw [if_pos hcase, if_pos (hfull.mp hcase)]
  · rw [if_neg hcase, if_neg (hfull.not.mp hcase)]

theorem SendInv.kept (hs : SendInv s) {k : Nat} {m : Msg} (hlo : (s.tx q).done ≤ k)
    (hm : (s.tx q).sent[k]? = some m) (p : HalTransqPri) (msg : Msg) :
    (halTransqTx s p msg).2.regs.slots (s.slotOf q k) = m := by
  unfold halTransqTx
  split
  · exact hs.slots q k m hlo hm
  · split
    · exact hs.slots q k m hlo hm
    · have htransmit := hs.transmit (Nat.pos_of_ne_zero ‹_›) ‹_› msg
      refine htransmit.slots q k m ?_ ?_
      · change (Transq.transmit s p msg).doneCount q ≤ k
        rw [doneCount_transmit]
        exact hlo
      · by_cases hq : q = p
        · subst hq
          rw [transmit_tx_self]
          exact (List.getElem?_append_left (List.getElem?_eq_some_iff.mp hm).1).trans hm
        · rw [transmit_tx_of_ne _ _ hq]
          exact hm

theorem RecvInv.rxNextLook (h : RecvInv s) (hs : SendInv s) (hgap : ¬ s.InGap p) :
    ((halTransqRxNextLook s p).1, (halTransqRxNextLook s p).2.1) = reported (s.tx p).sent[s.gotCount p]? := by
  rw [← h.rxLook hs hgap]
  have hnext : ((s.setRx p { s.rx p with call := .idle }).rx p).nextRxSlot = (s.rx p).nextRxSlot := by
    rw [State.setRx_rx_self]
  have hready : rxReady (s.setRx p { s.rx p with call := .idle }) p = rxReady s p := by
    rw [rxReady, hnext]
    rfl
  unfold halTransqRxNextLook Transq.rxLook
  rw [hready, hnext]
  split <;> rfl

/-- For both cores opened with the same numbers of slots: in every interleaving of the transmissions, the
receive calls and the interrupts, messages are delivered. -/
theorem transq_delivers (txCfg rxCfg : HalTransqCfg) (slots : Nat → Msg) (s₀ s : State) (events : List Event)
    (hsame : rxCfg.rxNum = txCfg.txNum) (hopen : halTransqOpen txCfg rxCfg slots = some s₀)
    (hrun : run step s₀ events = some s) : Delivers s := by
  obtain ⟨hs, h⟩ := run_recvInv hsame hopen hrun
  refine ⟨h.failed, fun p => ?_, fun p hnum hcall => ?_, fun p hcall => ?_,
    fun p hnum hcall => h.rxNext hs (not_inGap_of_idle hcall) hnum,
    fun p msg hnum => hs.halTransqTx_ret hnum msg, fun p msg q k m hlo hm => hs.kept hlo hm p msg⟩
  · rw [h.consumed p]
    exact List.take_prefix _ _
  · rw [halTransqRxFirst, if_neg hnum]
    exact h.rxLook hs (not_inGap_of_idle hcall)
  · exact h.rxNextLook hs (not_inGap_of_advanced hcall)

/-- Both handlers, `normal` slots of normal and one of high priority in either direction. -/
def evenCfg (normal : Nat) : HalTransqCfg where
  txNum
    | .normal => normal
    | .high => 1
  rxNum
    | .normal => normal
    | .high => 1
  rxHandler := true
  txHandler := true

/-- Two messages, of which one is received and completed. -/
def oneOfTwo : List Event :=
  [.tx .normal ⟨1, 4⟩, .tx .normal ⟨2, 4⟩, .remoteIrq, .rxFirst .normal, .rxNext .normal,
    .rxNextAdvance .normal, .rxNextLook .normal, .localIrqRead, .localIrqLocked, .localIrqCall]

theorem transq_delivers_oneOfTwo :
    ∃ s, ((halTransqOpen (evenCfg 2) (evenCfg 2) fun _ => ⟨0, 0⟩).bind fun s => run step s oneOfTwo) = some s ∧
      Delivers s := by
  have hsome : ((halTransqOpen (evenCfg 2) (evenCfg 2) fun _ => ⟨0, 0⟩).bind
      fun s => run step s oneOfTwo).isSome = true := by decide
  obtain ⟨s, hs⟩ := Option.isSome_iff_exists.mp hsome
  obtain ⟨s₀, hopen, hrun⟩ := Option.bind_eq_some_iff.mp hs
  exact ⟨s, hs, transq_delivers (evenCfg 2) (evenCfg 2) _ s₀ s oneOfTwo rfl hopen hrun⟩

/-- If the receiving core has been opened with fewer slots, its handler finds an interrupt of a slot it does
not know, and asserts. -/
theorem fewer_rxSlots_assert :
    ¬ ∀ (txCfg rxCfg : HalTransqCfg) (slots : Nat → Msg) (s₀ s : State) (events : List Event),
      halTransqOpen txCfg rxCfg slots = some s₀ → run step s₀ events = some s → Delivers s := by
  intro h
  have hfails : ((halTransqOpen (evenCfg 2) (evenCfg 1) fun _ => ⟨0, 0⟩).bind
      fun s => run step s [.tx .normal ⟨1, 4⟩, .tx .normal ⟨2, 4⟩, .remoteIrq, .remoteIrq]).map (·.failed) =
        some true := by decide
  obtain ⟨s, hs, hfailed⟩ := Option.map_eq_some_iff.mp hfails
  obtain ⟨s₀, hopen, hrun⟩ := Option.bind_eq_some_iff.mp hs
  have hnot := (h _ _ _ s₀ s _ hopen hrun).noAssertion
  rw [hfailed] at hnot
  cases hnot

end Best1307.Transq
