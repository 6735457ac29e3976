import Best1307.Transq.Queue

/-!
# The slots in flight

Whatever the receiving core does, the sending core's variables say which of its messages are in flight: the
ones sent and not yet seen done. Their slots are different, hold what was sent, and no other slot has its
remote or its local interrupt raised.
-/

namespace Best1307.Transq

open SlotRing

/-! ### The slots of the two priorities -/

variable {num : Nat} {pri : HalTransqPri} {k : Nat}

/-- The slot of the `k`-th message of a priority that has `num` slots. -/
def slotOf (num : Nat) (pri : HalTransqPri) (k : Nat) : Nat := slotAt (firstSlot num pri) num k

theorem firstSlot_add_le (hnum : num ≤ 32) : firstSlot num pri + num ≤ 32 := by
  cases pri <;> simp only [firstSlot, transqSlotNum] <;> omega

theorem slotOf_lt (hpos : 0 < num) (hnum : num ≤ 32) : slotOf num pri k < transqSlotNum :=
  Nat.lt_of_lt_of_le (slotAt_lt hpos) (firstSlot_add_le hnum)

theorem nextSlot_slotOf (hpos : 0 < num) (hnum : num ≤ 32) :
    nextSlot num pri (slotOf num pri k) = slotOf num pri (k + 1) := by
  refine Eq.trans ?_ (slotAt_succ hpos).symm
  cases pri with
  | normal =>
      have hend : firstSlot num .normal + num = num := Nat.zero_add num
      exact if_congr (by rw [hend]; rfl) rfl rfl
  | high =>
      have hend : firstSlot num .high + num = transqSlotNum := Nat.sub_add_cancel hnum
      exact if_congr (by rw [hend]; rfl) rfl rfl

theorem getLsbD_constructMask {lsb width i : Nat} (h : lsb + width ≤ 32) :
    (constructMask lsb width).getLsbD i = true ↔ lsb ≤ i ∧ i < lsb + width := by
  have hfold : ∀ (slots : List Nat) (mask : BitVec 32), (∀ j ∈ slots, j < 32) →
      ((slots.foldl (fun result j => result ||| bit j) mask).getLsbD i = true ↔
        mask.getLsbD i = true ∨ i ∈ slots) := by
    intro slots
    induction slots with
    | nil => intro mask _; simp only [List.foldl_nil, List.not_mem_nil, or_false]
    | cons j slots ih =>
        intro mask hslots
        obtain ⟨hj, hslots⟩ := List.forall_mem_cons.mp hslots
        rw [List.foldl_cons, ih _ hslots, bit, getLsbD_or_twoPow hj, List.mem_cons, or_assoc]
  rw [constructMask]
  split
  · rename_i hempty
    constructor
    · intro hbit
      simp only [BitVec.ofNat_eq_ofNat, BitVec.getLsbD_zero, Bool.false_eq_true] at hbit
    · omega
  · rw [hfold _ _ fun j hj => by rw [List.mem_range'_1] at hj; omega, List.mem_range'_1]
    simp only [BitVec.ofNat_eq_ofNat, BitVec.getLsbD_zero, Bool.false_eq_true, false_or]

/-- The numbers of slots the two priorities may have. -/
def Shares (num : HalTransqPri → Nat) : Prop := num .normal + num .high ≤ 32

theorem Shares.le {num : HalTransqPri → Nat} (h : Shares num) (pri : HalTransqPri) : num pri ≤ 32 := by
  unfold Shares at h
  cases pri <;> omega

theorem Shares.pri_eq {num : HalTransqPri → Nat} (h : Shares num) {p q : HalTransqPri} {i : Nat}
    (hp : firstSlot (num p) p ≤ i ∧ i < firstSlot (num p) p + num p)
    (hq : firstSlot (num q) q ≤ i ∧ i < firstSlot (num q) q + num q) : p = q := by
  unfold Shares at h
  cases p <;> cases q <;> simp only [firstSlot, transqSlotNum] at hp hq <;> first | rfl | omega

theorem slotOf_bounds (hpos : 0 < num) :
    firstSlot num pri ≤ slotOf num pri k ∧ slotOf num pri k < firstSlot num pri + num :=
  ⟨base_le_slotAt, slotAt_lt hpos⟩

/-! ### One priority of the sending core -/

/-- What the variables of a priority with `num` slots say about its messages. -/
structure LaneInv (num : Nat) (pri : HalTransqPri) (lane : TxLane) : Prop where
  done_le : lane.done ≤ lane.sent.length
  sent_le : lane.sent.length ≤ lane.done + num
  next : 0 < num → lane.nextTxSlot = slotOf num pri lane.sent.length
  active : lane.activeTxSlot =
    if lane.done = lane.sent.length then transqSlotNum else slotOf num pri lane.done
  full : lane.txSlotFull = true ↔ 0 < num ∧ lane.sent.length = lane.done + num

variable {lane : TxLane}

theorem LaneInv.active_eq (h : LaneInv num pri lane) (hsome : lane.done ≠ lane.sent.length) :
    lane.activeTxSlot = slotOf num pri lane.done := by
  rw [h.active, if_neg hsome]

theorem LaneInv.pos (h : LaneInv num pri lane) (hsome : lane.done ≠ lane.sent.length) : 0 < num := by
  have := h.done_le
  have := h.sent_le
  omega

/-- The assertions on the active slot never fail. -/
theorem LaneInv.activeTxValid (h : LaneInv num pri lane) : activeTxValid lane = true := by
  unfold Transq.activeTxValid
  by_cases hnone : lane.done = lane.sent.length
  · rw [h.active, if_pos hnone]
    rfl
  · have hpos := h.pos hnone
    rw [h.active_eq hnone, h.next hpos]
    by_cases hsame : slotOf num pri lane.sent.length = slotOf num pri lane.done
    · rcases (slotAt_eq_iff h.done_le h.sent_le).mp hsame with hempty | hfull
      · exact absurd hempty.symm hnone
      · rw [h.full.mpr ⟨hpos, hfull⟩, Bool.or_true]
    · simp only [decide_eq_true (Ne.symm hsame : slotOf num pri lane.done ≠ _), Bool.or_true, Bool.true_or]

theorem LaneInv.transmit {cfg : HalTransqCfg} (h : LaneInv (cfg.txNum pri) pri lane) (hpos : 0 < cfg.txNum pri)
    (hnum : cfg.txNum pri ≤ 32) (hfull : lane.txSlotFull ≠ true) (msg : Msg) :
    LaneInv (cfg.txNum pri) pri (lane.transmit cfg pri msg) := by
  have hle := h.done_le
  have hfree : lane.sent.length < lane.done + cfg.txNum pri :=
    Nat.lt_of_le_of_ne h.sent_le fun heq => hfull (h.full.mpr ⟨hpos, heq⟩)
  have hlen : (lane.sent ++ [msg]).length = lane.sent.length + 1 := List.length_append
  have hnext : getNextTxSlot cfg pri lane.nextTxSlot = slotOf (cfg.txNum pri) pri (lane.sent.length + 1) := by
    rw [getNextTxSlot, h.next hpos, nextSlot_slotOf hpos hnum]
  have hactive : (if transqSlotNum ≤ lane.activeTxSlot then lane.nextTxSlot else lane.activeTxSlot) =
      slotOf (cfg.txNum pri) pri lane.done := by
    by_cases hnone : lane.done = lane.sent.length
    · rw [h.active, if_pos hnone, if_pos (Nat.le_refl _), h.next hpos, hnone]
    · rw [h.active_eq hnone, if_neg (Nat.not_le.mpr (slotOf_lt hpos hnum))]
  have hsame : slotOf (cfg.txNum pri) pri (lane.sent.length + 1) = slotOf (cfg.txNum pri) pri lane.done ↔
      lane.sent.length + 1 = lane.done + cfg.txNum pri := by
    rw [slotOf, slotOf, slotAt_eq_iff (Nat.le_succ_of_le hle) hfree]
    omega
  refine ⟨?_, ?_, fun _ => ?_, ?_, ?_⟩
  · simp only [TxLane.transmit, hlen]
    omega
  · simp only [TxLane.transmit, hlen]
    exact hfree
  · simp only [TxLane.transmit, hlen]
    exact hnext
  · simp only [TxLane.transmit, hlen, hactive]
    rw [if_neg (by omega)]
  · simp only [TxLane.transmit, hlen, hactive, hnext, decide_eq_true_eq, hsame, hpos, true_and]

theorem LaneInv.complete {cfg : HalTransqCfg} (h : LaneInv (cfg.txNum pri) pri lane)
    (hnum : cfg.txNum pri ≤ 32) (hsome : lane.done ≠ lane.sent.length) :
    LaneInv (cfg.txNum pri) pri (lane.complete cfg pri lane.activeTxSlot) := by
  have hpos := h.pos hsome
  have hle := h.done_le
  have hsent := h.sent_le
  have hnext : getNextTxSlot cfg pri lane.activeTxSlot = slotOf (cfg.txNum pri) pri (lane.done + 1) := by
    rw [getNextTxSlot, h.active_eq hsome, nextSlot_slotOf hpos hnum]
  -- the slot after the active one is the next to send in if nothing else is in flight, or if all slots are
  have hsame : slotOf (cfg.txNum pri) pri (lane.done + 1) = lane.nextTxSlot ↔
      lane.sent.length = lane.done + 1 ∨ lane.sent.length = lane.done + 1 + cfg.txNum pri := by
    rw [h.next hpos, eq_comm]
    exact slotAt_eq_iff (by omega) (by omega)
  have hlast : (!lane.txSlotFull && decide (slotOf (cfg.txNum pri) pri (lane.done + 1) = lane.nextTxSlot)) = true ↔
      lane.txSlotFull = false ∧ lane.sent.length = lane.done + 1 := by
    rw [Bool.and_eq_true, Bool.not_eq_true', decide_eq_true_eq, hsame]
    exact and_congr_right fun _ => by omega
  simp only [TxLane.complete, hnext]
  by_cases hcase : lane.txSlotFull = false ∧ lane.sent.length = lane.done + 1
  · rw [if_pos (hlast.mpr hcase)]
    refine ⟨by simp only; omega, by simp only; omega, h.next, ?_, ?_⟩
    · simp only [hcase.2, if_true]
    · simp only [hcase.1, Bool.false_eq_true, false_iff]
      omega
  · rw [if_neg (hlast.not.mpr hcase)]
    have hfull : lane.txSlotFull = false ↔ lane.sent.length ≠ lane.done + cfg.txNum pri := by
      rw [← Bool.not_eq_true, h.full]
      simp only [hpos, true_and, ne_eq]
    rw [hfull] at hcase
    by_cases hone : cfg.txNum pri = 1
    · rw [if_pos hone]
      refine ⟨by simp only; omega, by simp only; omega, h.next, ?_, ?_⟩
      · simp only
        rw [if_pos (by omega)]
      · simp only [Bool.false_eq_true, false_iff]
        omega
    · rw [if_neg hone]
      refine ⟨by simp only; omega, by simp only; omega, h.next, ?_, ?_⟩
      · simp only
        rw [if_neg (by omega)]
      · simp only [Bool.false_eq_true, false_iff]
        omega

/-! ### Both priorities and the registers -/

variable {s : State} {p q : HalTransqPri} {i slot : Nat} {msg : Msg}

namespace State

def slotOf (s : State) (p : HalTransqPri) (k : Nat) : Nat := Transq.slotOf (s.txCfg.txNum p) p k

def sentCount (s : State) (p : HalTransqPri) : Nat := (s.tx p).sent.length

def doneCount (s : State) (p : HalTransqPri) : Nat := (s.tx p).done

/-- The slot holds a message of the priority that is sent and not seen done. -/
def InFlight (s : State) (p : HalTransqPri) (i : Nat) : Prop :=
  Occupied (firstSlot (s.txCfg.txNum p) p) (s.txCfg.txNum p) (s.tx p).done (s.tx p).sent.length i

end State

structure SendInv (s : State) : Prop where
  shares : Shares s.txCfg.txNum
  lane : ∀ p, LaneInv (s.txCfg.txNum p) p (s.tx p)
  ris : ∀ i, s.regs.rmtRis.getLsbD i = true → ∃ p, s.InFlight p i
  ldone : ∀ i, s.regs.ldoneRis.getLsbD i = true → ∃ p, s.InFlight p i
  apart : ∀ i, s.regs.rmtRis.getLsbD i = true → s.regs.ldoneRis.getLsbD i = true → False
  lerr : s.regs.lerrRis = 0
  slots : ∀ p k m, (s.tx p).done ≤ k → (s.tx p).sent[k]? = some m → s.regs.slots (s.slotOf p k) = m

theorem inFlight_of_getElem? {m : Msg} (hlo : (s.tx p).done ≤ k) (hm : (s.tx p).sent[k]? = some m) :
    s.InFlight p (s.slotOf p k) :=
  ⟨k, hlo, (List.getElem?_eq_some_iff.mp hm).1, rfl⟩

@[simp] theorem sentCount_transmit : (transmit s p msg).sentCount q =
    if q = p then s.sentCount q + 1 else s.sentCount q := by
  unfold State.sentCount
  split
  · rename_i hq
    subst hq
    rw [transmit_tx_self]
    exact List.length_append
  · rw [transmit_tx_of_ne _ _ ‹_›]

@[simp] theorem doneCount_transmit : (transmit s p msg).doneCount = s.doneCount := by
  funext q
  unfold State.doneCount
  by_cases hq : q = p
  · subst hq
    rw [transmit_tx_self]
    rfl
  · rw [transmit_tx_of_ne _ _ hq]

@[simp] theorem doneCount_complete : (complete s p slot).doneCount q =
    if q = p then s.doneCount q + 1 else s.doneCount q := by
  unfold State.doneCount
  split
  · rename_i hq
    subst hq
    rw [complete_tx_self, TxLane.complete_done]
  · rw [complete_tx_of_ne _ _ ‹_›]

@[simp] theorem complete_sent : ((complete s p slot).tx q).sent = (s.tx q).sent := by
  by_cases hq : q = p
  · subst hq
    rw [complete_tx_self, TxLane.complete_sent]
  · rw [complete_tx_of_ne _ _ hq]

theorem SendInv.pos_of_inFlight (h : SendInv s) (hp : s.InFlight p i) : 0 < s.txCfg.txNum p := by
  obtain ⟨k, hlo, hhi, -⟩ := hp
  exact (h.lane p).pos (by omega)

theorem SendInv.bounds (h : SendInv s) (hp : s.InFlight p i) :
    firstSlot (s.txCfg.txNum p) p ≤ i ∧ i < firstSlot (s.txCfg.txNum p) p + s.txCfg.txNum p :=
  Occupied.bounds hp (h.pos_of_inFlight hp)

theorem SendInv.pri_eq (h : SendInv s) (hp : s.InFlight p i) (hq : s.InFlight q i) : p = q :=
  h.shares.pri_eq (h.bounds hp) (h.bounds hq)

section Transmit

variable (h : SendInv s) (hpos : 0 < s.txCfg.txNum p) (hfull : (s.tx p).txSlotFull ≠ true)
include h hpos hfull

theorem SendInv.next_free : ¬ s.InFlight q (s.tx p).nextTxSlot := by
  intro hq
  have hbounds := h.bounds hq
  rw [(h.lane p).next hpos] at hq hbounds
  obtain rfl := h.shares.pri_eq hbounds (slotOf_bounds hpos)
  refine not_occupied_next ?_ hq
  exact Nat.lt_of_le_of_ne (h.lane q).sent_le fun heq => hfull ((h.lane q).full.mpr ⟨hpos, heq⟩)

omit hfull in
theorem SendInv.ris_transmit : (transmit s p msg).regs.rmtRis.getLsbD i = true ↔
    s.regs.rmtRis.getLsbD i = true ∨ i = (s.tx p).nextTxSlot := by
  refine getLsbD_or_twoPow ?_
  rw [(h.lane p).next hpos]
  exact slotOf_lt hpos (h.shares.le p)

omit hfull in
theorem SendInv.inFlight_transmit :
    (transmit s p msg).InFlight q i ↔ s.InFlight q i ∨ q = p ∧ i = (s.tx p).nextTxSlot := by
  by_cases hq : q = p
  · subst hq
    have hlen : ((s.tx q).transmit s.txCfg q msg).sent.length = (s.tx q).sent.length + 1 := List.length_append
    rw [State.InFlight, transmit_tx_self, hlen, (h.lane q).next hpos, slotOf]
    simp only [true_and]
    exact occupied_push (h.lane q).done_le
  · simp only [State.InFlight, transmit_tx_of_ne _ _ hq, hq, false_and, or_false]
    rfl

theorem SendInv.transmit (msg : Msg) : SendInv (transmit s p msg) := by
  have hrisNext : s.regs.rmtRis.getLsbD (s.tx p).nextTxSlot ≠ true := fun hbit =>
    (h.ris _ hbit).elim fun _ => h.next_free hpos hfull
  have hldoneNext : s.regs.ldoneRis.getLsbD (s.tx p).nextTxSlot ≠ true := fun hbit =>
    (h.ldone _ hbit).elim fun _ => h.next_free hpos hfull
  have hris := fun i => @SendInv.ris_transmit s p i msg h hpos
  have hinFlight := fun q i => @SendInv.inFlight_transmit s p q i msg h hpos
  refine ⟨h.shares, fun q => ?_, fun i hi => ?_, fun i hi => ?_, fun i hi hdone => ?_, ?_, fun q k m hlo hm => ?_⟩
  · by_cases hq : q = p
    · subst hq
      rw [transmit_tx_self]
      exact (h.lane q).transmit hpos (h.shares.le q) hfull msg
    · rw [transmit_tx_of_ne _ _ hq]
      exact h.lane q
  · rcases (hris i).mp hi with hold | rfl
    · obtain ⟨q, hq⟩ := h.ris i hold
      exact ⟨q, (hinFlight q i).mpr (.inl hq)⟩
    · exact ⟨p, (hinFlight p _).mpr (.inr ⟨rfl, rfl⟩)⟩
  · obtain ⟨q, hq⟩ := h.ldone i hi
    exact ⟨q, (hinFlight q i).mpr (.inl hq)⟩
  · rcases (hris i).mp hi with hold | rfl
    · exact h.apart i hold hdone
    · exact hldoneNext hdone
  · have hnone : s.regs.rmtRis &&& bit (s.tx p).nextTxSlot = 0 := by
      by_contra hne
      exact hrisNext (and_twoPow_ne_zero.mp hne)
    change s.regs.lerrRis ||| (s.regs.rmtRis &&& bit (s.tx p).nextTxSlot) = 0
    rw [hnone, h.lerr]
    rfl
  · change Function.update s.regs.slots (s.tx p).nextTxSlot msg (s.slotOf q k) = m
    have hold : (s.tx q).done ≤ k → (s.tx q).sent[k]? = some m →
        Function.update s.regs.slots (s.tx p).nextTxSlot msg (s.slotOf q k) = m := fun hlo hm => by
      rw [Function.update_of_ne fun heq => h.next_free hpos hfull (heq ▸ inFlight_of_getElem? hlo hm)]
      exact h.slots q k m hlo hm
    by_cases hq : q = p
    · subst hq
      rw [transmit_tx_self] at hlo hm
      change (s.tx q).done ≤ k at hlo
      change ((s.tx q).sent ++ [msg])[k]? = some m at hm
      rcases Nat.lt_or_ge k (s.tx q).sent.length with hk | hk
      · rw [List.getElem?_append_left hk] at hm
        exact hold hlo hm
      · rw [List.getElem?_append_right hk, List.getElem?_singleton] at hm
        split at hm
        · obtain rfl := Option.some.inj hm
          obtain rfl : k = (s.tx q).sent.length := by omega
          rw [State.slotOf, ← (h.lane q).next hpos, Function.update_self]
        · cases hm
    · rw [transmit_tx_of_ne _ _ hq] at hlo hm
      exact hold hlo hm

end Transmit

theorem ldone_complete : (complete s p slot).regs.ldoneRis.getLsbD i = true ↔
    s.regs.ldoneRis.getLsbD i = true ∧ i ≠ slot := getLsbD_andNot_twoPow

section Complete

variable (h : SendInv s) (hsome : (s.tx p).done ≠ (s.tx p).sent.length)
include h hsome

theorem SendInv.inFlight_complete :
    (complete s p (s.tx p).activeTxSlot).InFlight q i ↔
      s.InFlight q i ∧ ¬ (q = p ∧ i = (s.tx p).activeTxSlot) := by
  by_cases hq : q = p
  · subst hq
    have hle := (h.lane q).done_le
    rw [State.InFlight, complete_tx_self, TxLane.complete_sent, TxLane.complete_done, (h.lane q).active_eq hsome,
      slotOf]
    simp only [true_and]
    exact occupied_pop (by omega) (h.lane q).sent_le
  · simp only [State.InFlight, complete_tx_of_ne _ _ hq, hq, false_and, not_false_eq_true, and_true]
    rfl

theorem SendInv.complete (hbit : s.regs.ldoneRis.getLsbD (s.tx p).activeTxSlot = true) :
    SendInv (complete s p (s.tx p).activeTxSlot) := by
  have hinFlight := fun q i => @SendInv.inFlight_complete s p q i h hsome
  have hactive : s.InFlight p (s.tx p).activeTxSlot := by
    have hle := (h.lane p).done_le
    exact ⟨(s.tx p).done, Nat.le_refl _, by omega, ((h.lane p).active_eq hsome).symm⟩
  refine ⟨h.shares, fun q => ?_, fun i hi => ?_, fun i hi => ?_, fun i hi hdone => ?_, h.lerr,
    fun q k m hlo hm => ?_⟩
  · by_cases hq : q = p
    · subst hq
      rw [complete_tx_self]
      exact (h.lane q).complete (h.shares.le q) hsome
    · rw [complete_tx_of_ne _ _ hq]
      exact h.lane q
  · obtain ⟨q, hq⟩ := h.ris i hi
    refine ⟨q, (hinFlight q i).mpr ⟨hq, ?_⟩⟩
    rintro ⟨rfl, rfl⟩
    exact h.apart _ hi hbit
  · obtain ⟨hold, hne⟩ := ldone_complete.mp hi
    obtain ⟨q, hq⟩ := h.ldone i hold
    exact ⟨q, (hinFlight q i).mpr ⟨hq, fun heq => hne heq.2⟩⟩
  · exact h.apart i hi (ldone_complete.mp hdone).1
  · by_cases hq : q = p
    · subst hq
      rw [complete_tx_self,
        TxLane.complete_sent] at hm
      rw [complete_tx_self,
        TxLane.complete_done] at hlo
      exact h.slots q k m (Nat.le_of_succ_le hlo) hm
    · rw [complete_tx_of_ne _ _ hq]
        at hlo hm
      exact h.slots q k m hlo hm

end Complete

theorem ris_rxClear : (rxClear s p).regs.rmtRis.getLsbD i = true ↔
    s.regs.rmtRis.getLsbD i = true ∧ i ≠ (s.rx p).nextRxSlot := getLsbD_andNot_twoPow

section Clear

variable (hready : s.regs.rmtRis.getLsbD (s.rx p).nextRxSlot = true)
include hready

theorem ldone_rxClear : (rxClear s p).regs.ldoneRis.getLsbD i = true ↔
    s.regs.ldoneRis.getLsbD i = true ∨ i = (s.rx p).nextRxSlot := by
  have hbit : s.regs.rmtRis &&& bit (s.rx p).nextRxSlot = bit (s.rx p).nextRxSlot := by
    rw [bit, BitVec.and_twoPow, if_pos hready]
  change (s.regs.ldoneRis ||| (s.regs.rmtRis &&& bit (s.rx p).nextRxSlot)).getLsbD i = true ↔ _
  rw [hbit]
  exact getLsbD_or_twoPow (lt_of_getLsbD hready)

/-- A slot the receiving core clears stays in flight; its message is done now. -/
theorem SendInv.rxClear (h : SendInv s) : SendInv (rxClear s p) := by
  refine ⟨h.shares, h.lane, fun i hi => h.ris i (ris_rxClear.mp hi).1, fun i hi => ?_, fun i hi hdone => ?_, h.lerr,
    h.slots⟩
  · rcases (ldone_rxClear hready).mp hi with hold | rfl
    · exact h.ldone i hold
    · exact h.ris _ hready
  · obtain ⟨hold, hne⟩ := ris_rxClear.mp hi
    exact h.apart i hold (((ldone_rxClear hready).mp hdone).resolve_right hne)

end Clear

/-! ### Frames -/

/-- What the invariant of the sending core is about. -/
def State.sendView (s : State) :=
  (s.txCfg, s.tx, s.regs.slots, s.regs.rmtRis, s.regs.ldoneRis, s.regs.lerrRis)

theorem SendInv.congr {s' : State} (h : SendInv s) (hsame : s'.sendView = s.sendView) : SendInv s' := by
  simp only [State.sendView, Prod.mk.injEq] at hsame
  obtain ⟨hcfg, htx, hslots, hris, hldone, hlerr⟩ := hsame
  have hinFlight : ∀ q i, s'.InFlight q i ↔ s.InFlight q i := fun q i => by
    rw [State.InFlight, State.InFlight, hcfg, htx]
  refine ⟨hcfg ▸ h.shares, fun q => ?_, fun i hi => ?_, fun i hi => ?_, fun i => ?_, hlerr.trans h.lerr,
    fun q k m => ?_⟩
  · rw [hcfg, htx]
    exact h.lane q
  · obtain ⟨q, hq⟩ := h.ris i (hris ▸ hi)
    exact ⟨q, (hinFlight q i).mpr hq⟩
  · obtain ⟨q, hq⟩ := h.ldone i (hldone ▸ hi)
    exact ⟨q, (hinFlight q i).mpr hq⟩
  · rw [hris, hldone]
    exact h.apart i
  · rw [State.slotOf, hcfg, htx, hslots]
    exact h.slots q k m

theorem openTx_laneInv (cfg : HalTransqCfg) (p : HalTransqPri) : LaneInv (cfg.txNum p) p (openTx cfg p) where
  done_le := Nat.le_refl _
  sent_le := Nat.zero_le _
  next hpos := by
    rw [openTx, if_neg (Nat.pos_iff_ne_zero.mp hpos)]
    rw [slotOf, slotAt, List.length_nil, Nat.zero_mod, Nat.add_zero]
  active := rfl
  full := by
    simp only [openTx, Bool.false_eq_true, List.length_nil, false_iff]
    omega

theorem shares_of_checkNum {cfg : HalTransqCfg} (h : checkNum cfg = .ok) :
    Shares cfg.txNum ∧ Shares cfg.rxNum := by
  unfold checkNum at h
  split at h
  · cases h
  · split at h
    · cases h
    · exact ⟨Nat.not_lt.mp ‹_›, Nat.not_lt.mp ‹_›⟩

theorem sendInv_open {txCfg rxCfg : HalTransqCfg} {slots : Nat → Msg}
    (hopen : halTransqOpen txCfg rxCfg slots = some s) : SendInv s := by
  unfold halTransqOpen at hopen
  split at hopen
  · rename_i hchecked
    obtain rfl := Option.some.inj hopen
    have hnone : ∀ i, (0#32).getLsbD i ≠ true := fun i => by
      rw [BitVec.getLsbD_zero]
      exact Bool.false_ne_true
    exact ⟨(shares_of_checkNum hchecked.1).1, openTx_laneInv txCfg, fun i hi => absurd hi (hnone i),
      fun i hi => absurd hi (hnone i), fun i hi => absurd hi (hnone i), rfl,
      fun q k m _ hm => absurd hm (by simp only [openTx, List.getElem?_nil, reduceCtorEq, not_false_eq_true])⟩
  · cases hopen

end Best1307.Transq
