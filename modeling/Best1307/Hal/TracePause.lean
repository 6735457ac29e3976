import Mathlib.Algebra.Order.Ring.Nat
import Best1307.Hal.TraceBuf

/-!
# Pausing the trace

`hal_trace_pause` cancels the transfer that is running and moves `rptr` on by what the descriptors have left, not by
what the DMA took of them. The two are the same only in the middle of the transfer.
-/

namespace Best1307.TraceBuf

open ByteRing

/-- `hal_dma_get_sg_remain_size`: what the channel has left of its descriptor, and the descriptors chained to it. -/
def sgRemainSize : List Desc → Nat → Nat
  | [], _ => 0
  | d :: ds, moved =>
      if moved < d.srcTsize then d.srcTsize - moved + (ds.map Desc.srcTsize).sum
      else sgRemainSize ds (moved - d.srcTsize)

namespace State

variable (cfg : Config) (s : State)

/-- `hal_dma_chan_busy`: the channel is enabled up to the last byte. -/
def ChanBusy : Prop := s.sending ∧ (descAddr s.dmaDesc s.moved).isSome

instance : Decidable s.ChanBusy := inferInstanceAs (Decidable (_ ∧ _))

/-- `hal_trace_uart_stop_dma_send` -/
def uartStopDmaSend : State :=
  if s.ChanBusy then
    { s with
      rptr := advance cfg.bufSize s.rptr (sgRemainSize s.dmaDesc s.moved)
      sends := (0, 0)
      sending := false
      moved := 0 }
  else s

end State

/-- The buffer, and `pause_cnt` beside it. -/
structure Trace where
  buf : State
  pauseCnt : Nat

namespace Trace

variable (cfg : Config) (t : Trace)

def opened : Trace := ⟨.opened, 0⟩

def halTraceSend : Trace := if t.pauseCnt ≠ 0 then t else { t with buf := t.buf.uartDmaSend cfg }

/-- `hal_trace_output_internal` -/
def halTraceOutput (buf : List UInt8) : Nat × Trace :=
  if t.buf.avail cfg < t.buf.outLen cfg buf.length then
    (1, { t with buf := { t.buf with
      discards := if t.buf.discards < 2 ^ 16 - 1 then t.buf.discards + 1 else t.buf.discards } })
  else (0, { t with buf := (t.buf.printDiscards cfg).put cfg buf }.halTraceSend cfg)

/-- `hal_trace_uart_xfer_done`, which sends only where the trace is not paused. -/
def uartXferDone (error : Bool) (remainTsize : Nat) (lli : Bool) : Trace :=
  { t with buf := { t.buf with
    rptr := advance cfg.bufSize t.buf.rptr (t.buf.xferSent error remainTsize lli)
    sends := (0, 0)
    sending := false
    moved := 0 } }.halTraceSend cfg

/-- `hal_trace_pause`, with what it returns. -/
def halTracePause : Nat × Trace :=
  let buf := if t.pauseCnt = 0 then t.buf.uartStopDmaSend cfg else t.buf
  let pauseCnt := (t.pauseCnt + 1) % 2 ^ 8
  if pauseCnt = 0 then (1, ⟨buf, 2 ^ 8 - 1⟩) else (0, ⟨buf, pauseCnt⟩)

/-- `hal_trace_continue`, with what it returns. -/
def halTraceContinue : Nat × Trace :=
  if t.pauseCnt = 0 then (1, t)
  else
    let t := { t with pauseCnt := t.pauseCnt - 1 }
    (0, if t.pauseCnt = 0 then t.halTraceSend cfg else t)

end Trace

inductive TraceEvent
  | buf (e : Event)
  | pause
  | resume
  deriving DecidableEq, Repr

namespace Trace

variable (cfg : Config) (t : Trace)

def step : TraceEvent → Option Trace
  | .buf (.output buf) => some (t.halTraceOutput cfg buf).2
  | .buf .send => some (t.halTraceSend cfg)
  | .buf .dmaByte => (TraceBuf.step cfg t.buf .dmaByte).map fun buf => { t with buf }
  | .buf (.xferDone error remainTsize lli) =>
      if t.buf.sending ∧ t.buf.moved = t.buf.xferSent error remainTsize lli then
        some (t.uartXferDone cfg error remainTsize lli)
      else none
  | .pause => some (t.halTracePause cfg).2
  | .resume => some (t.halTraceContinue cfg).2

/-- While the trace is not paused the buffer does what it did without pauses. -/
theorem step_buf (hon : t.pauseCnt = 0) (e : Event) :
    t.step cfg (.buf e) = (TraceBuf.step cfg t.buf e).map fun buf => { t with buf } := by
  have hsend (buf : State) : ({ t with buf } : Trace).halTraceSend cfg = { t with buf := buf.uartDmaSend cfg } := by
    rw [halTraceSend, if_neg (not_not.mpr hon)]
  cases e with
  | output buf =>
      simp only [step, halTraceOutput, TraceBuf.step, State.halTraceOutput, hsend, Option.map_some]
      split <;> rfl
  | send => exact congrArg some (hsend t.buf)
  | dmaByte => rfl
  | xferDone error remainTsize lli =>
      simp only [step, uartXferDone, TraceBuf.step, State.uartXferDone, hsend]
      split <;> rfl

/-- The UART gets every byte of the accepted traces once and in order, all of them while the trace is not paused. -/
structure Delivers : Prop where
  inOrder : t.buf.uart ++ t.buf.unsent cfg = t.buf.accepted
  idle : t.pauseCnt = 0 → t.buf.sending = false → t.buf.uart = t.buf.accepted

end Trace

/-- As many bytes of the transfer are sent as are left. Where the sum of `rptr` with those left does not fit in 16
bits, what is lost of the sum makes up for the difference. -/
def State.Halfway (cfg : Config) (s : State) : Prop :=
  let left := s.sends.1 + s.sends.2 - s.moved
  if s.rptr + left < 2 ^ 16 then left = s.moved else left + cfg.bufSize = s.moved + 2 ^ 16

instance {cfg : Config} {s : State} : Decidable (s.Halfway cfg) :=
  inferInstanceAs (Decidable (if s.rptr + (s.sends.1 + s.sends.2 - s.moved) < 2 ^ 16
    then s.sends.1 + s.sends.2 - s.moved = s.moved
    else s.sends.1 + s.sends.2 - s.moved + cfg.bufSize = s.moved + 2 ^ 16))

/-- The sums of the positions fit in 16 bits, and a pause finds no transfer or one in its middle. -/
def Trace.Exact (cfg : Config) (t : Trace) : TraceEvent → Prop
  | .buf e => t.buf.Fits16 cfg e
  | .pause => t.pauseCnt = 0 → t.buf.ChanBusy → t.buf.Halfway cfg
  | .resume => True

/-- A pause has `rptr` follow what the transfer has sent, and nothing is lost or repeated behind it. -/
structure Trace.PauseKeeps (cfg : Config) (t : Trace) : Prop where
  advanced : t.buf.ChanBusy → (t.halTracePause cfg).2.buf.rptr = (t.buf.rptr + t.buf.moved) % cfg.bufSize
  delivers : ∀ events u, Along (Trace.step cfg) (Trace.Exact cfg) (t.halTracePause cfg).2 events →
    run (Trace.step cfg) (t.halTracePause cfg).2 events = some u → u.Delivers cfg

/-! ### What is left of a transfer -/

theorem descAddr_isSome (descs : List Desc) (k : Nat) :
    (descAddr descs k).isSome ↔ k < (descs.map Desc.srcTsize).sum := by
  induction descs generalizing k with
  | nil => simp [descAddr]
  | cons d ds ih =>
      rw [descAddr, List.map_cons, List.sum_cons]
      split
      case isTrue hin => simp only [Option.isSome_some, true_iff]; omega
      case isFalse hout =>
        rw [ih]
        omega

theorem sgRemainSize_eq (descs : List Desc) (moved : Nat) :
    sgRemainSize descs moved = (descs.map Desc.srcTsize).sum - moved := by
  induction descs generalizing moved with
  | nil => simp [sgRemainSize]
  | cons d ds ih =>
      rw [sgRemainSize, List.map_cons, List.sum_cons]
      split
      case isTrue hin => omega
      case isFalse hout =>
        rw [ih]
        omega

variable {cfg : Config} {s : State} {t t' : Trace}

theorem State.Ring.remainSize (h : s.Ring cfg) (hsending : s.sending) :
    sgRemainSize s.dmaDesc s.moved = s.sends.1 + s.sends.2 - s.moved := by
  have hbytes (k : Nat) : k < (s.dmaDesc.map Desc.srcTsize).sum ↔ k < s.sends.1 + s.sends.2 := by
    rw [← descAddr_isSome, (h.transfer hsending).addr]
    split
    case isTrue hin => simp only [hin, Option.isSome_some]
    case isFalse hout => simp only [hout, Option.isSome_none, Bool.false_eq_true]
  have htotal : (s.dmaDesc.map Desc.srcTsize).sum = s.sends.1 + s.sends.2 := by
    have hle := hbytes (s.sends.1 + s.sends.2)
    have hge := hbytes (s.dmaDesc.map Desc.srcTsize).sum
    omega
  rw [sgRemainSize_eq, htotal]

theorem advance_eq_iff {size pos left sent : Nat} (hsize : size < 2 ^ 16) (hpos : pos < size)
    (htotal : left + sent < size) : advance size pos left = (pos + sent) % size ↔
      if pos + left < 2 ^ 16 then left = sent else left + size = sent + 2 ^ 16 := by
  have hsent : (pos + sent) % size = if size ≤ pos + sent then pos + sent - size else pos + sent :=
    (wrap_eq_mod (by omega)).symm
  rw [hsent]
  by_cases hfits : pos + left < 2 ^ 16
  · rw [advance, Nat.mod_eq_of_lt hfits, if_pos hfits]
    split <;> split <;> omega
  · have hmod : (pos + left) % 2 ^ 16 = pos + left - 2 ^ 16 := by omega
    have hlow : ¬ size ≤ pos + left - 2 ^ 16 := by omega
    rw [advance, hmod, if_neg hlow, if_neg hfits]
    split <;> omega

/-- Where a pause stops the transfer `rptr` follows it exactly in its middle. -/
theorem State.Ring.stop_iff (h : s.Ring cfg) (hsending : s.sending) :
    advance cfg.bufSize s.rptr (sgRemainSize s.dmaDesc s.moved) = (s.rptr + s.moved) % cfg.bufSize ↔
      s.Halfway cfg := by
  have ht := h.transfer hsending
  have htotal := ht.total_le
  have hmoved := ht.moved_le
  have hroom := h.room
  rw [h.remainSize hsending]
  exact advance_eq_iff cfg.bufSize_lt h.rptr_lt (by omega)

/-! ### The ring while the trace is paused -/

structure Trace.Inv (cfg : Config) (t : Trace) : Prop where
  ring : t.buf.Ring cfg
  sent : t.pauseCnt = 0 → t.buf.sending = false → t.buf.uart = t.buf.accepted

namespace Trace.Inv

theorem opened : Trace.opened.Inv cfg := ⟨State.Inv.opened.ring, fun _ _ => rfl⟩

theorem delivers (h : t.Inv cfg) : t.Delivers cfg where
  inOrder := by
    rw [h.ring.unsent_eq]
    obtain ⟨rest, hrest⟩ := h.ring.uart
    rw [← hrest, List.drop_left]
  idle := h.sent

theorem send (h : t.buf.Ring cfg) : (t.halTraceSend cfg).Inv cfg := by
  rw [halTraceSend]
  split
  case isTrue hpaused => exact ⟨h, fun hon => absurd hon hpaused⟩
  case isFalse => exact ⟨h.uartDmaSend.ring, fun _ => h.uartDmaSend.sent⟩

theorem output (h : t.Inv cfg) {buf : List UInt8} (hfits : t.buf.Fits16 cfg (.output buf)) :
    (t.halTraceOutput cfg buf).2.Inv cfg := by
  rw [halTraceOutput]
  split
  case isTrue => exact ⟨h.ring.withDiscards _, h.sent⟩
  case isFalse hroom => exact send (h.ring.store hfits (Nat.not_lt.mp hroom))

theorem pause (h : t.Inv cfg) (hexact : t.Exact cfg .pause) : (t.halTracePause cfg).2.Inv cfg := by
  have hring : (if t.pauseCnt = 0 then t.buf.uartStopDmaSend cfg else t.buf).Ring cfg := by
    split
    case isTrue hon =>
      rw [State.uartStopDmaSend]
      split
      case isTrue hbusy =>
        refine h.ring.stop (((h.ring.stop_iff hbusy.1).mpr (hexact hon hbusy)).trans ?_)
        rw [h.ring.rptr_eq, Nat.mod_add_mod, h.ring.done_add]
      case isFalse => exact h.ring
    case isFalse => exact h.ring
  rw [halTracePause]
  split
  case isTrue => exact ⟨hring, fun hon => nomatch hon⟩
  case isFalse hcount => exact ⟨hring, fun hon => absurd hon hcount⟩

theorem resume (h : t.Inv cfg) : (t.halTraceContinue cfg).2.Inv cfg := by
  rw [halTraceContinue]
  split
  case isTrue => exact h
  case isFalse =>
    dsimp only
    split
    case isTrue => exact send h.ring
    case isFalse hcount => exact ⟨h.ring, fun hon => absurd hon hcount⟩

theorem step (h : t.Inv cfg) {e : TraceEvent} (hexact : t.Exact cfg e) (hstep : t.step cfg e = some t') :
    t'.Inv cfg := by
  cases e with
  | pause =>
      obtain rfl := Option.some.inj hstep
      exact h.pause hexact
  | resume =>
      obtain rfl := Option.some.inj hstep
      exact h.resume
  | buf e =>
      cases e with
      | output buf =>
          obtain rfl := Option.some.inj hstep
          exact h.output hexact
      | send =>
          obtain rfl := Option.some.inj hstep
          exact send h.ring
      | dmaByte =>
          obtain ⟨buf, hbuf, rfl⟩ := Option.map_eq_some_iff.mp hstep
          have hsending : t.buf.sending := by
            by_contra hidle
            rw [TraceBuf.step, if_neg hidle] at hbuf
            cases hbuf
          have hinv : t.buf.Inv cfg := ⟨h.ring, fun hidle => absurd (hsending.symm.trans hidle) Bool.noConfusion⟩
          exact ⟨(hinv.dmaByte hbuf).ring, fun _ => (hinv.dmaByte hbuf).sent⟩
      | xferDone error remainTsize lli =>
          simp only [Trace.step, Option.ite_none_right_eq_some, Option.some.injEq] at hstep
          obtain ⟨⟨hsending, hmoved⟩, rfl⟩ := hstep
          have hfits : t.buf.rptr + t.buf.moved < 2 ^ 16 := hmoved ▸ hexact
          exact send (h.ring.stop (hmoved ▸ h.ring.advance_sent hsending hfits))

end Trace.Inv

theorem Trace.Inv.inv_of_run {events : List TraceEvent} (h : t.Inv cfg)
    (halong : Along (Trace.step cfg) (Trace.Exact cfg) t events)
    (hrun : run (Trace.step cfg) t events = some t') : t'.Inv cfg :=
  run_invariant_along (Trace.Inv cfg) (fun _ _ _ hinv he hstep => hinv.step he hstep) halong h hrun

/-- Wherever traces, transfers and earlier pauses in the middle of theirs have brought the buffer, a pause keeps what
the UART gets if and only if the transfer it stops is in its middle. -/
theorem pauseKeeps_iff {events : List TraceEvent} (halong : Along (Trace.step cfg) (Trace.Exact cfg) .opened events)
    (hrun : run (Trace.step cfg) .opened events = some t) (hon : t.pauseCnt = 0) :
    t.PauseKeeps cfg ↔ (t.buf.ChanBusy → t.buf.Halfway cfg) := by
  have hinv : t.Inv cfg := Trace.Inv.opened.inv_of_run halong hrun
  constructor
  · intro hkeeps hbusy
    have hrptr : (t.halTracePause cfg).2.buf.rptr = advance cfg.bufSize t.buf.rptr
        (sgRemainSize t.buf.dmaDesc t.buf.moved) := by
      simp only [Trace.halTracePause, hon, if_true, State.uartStopDmaSend, if_pos hbusy]
      rfl
    exact (hinv.ring.stop_iff hbusy.1).mp (hrptr.symm.trans (hkeeps.advanced hbusy))
  · intro hhalf
    refine ⟨fun hbusy => ?_, fun events u halong hrun => ?_⟩
    · simp only [Trace.halTracePause, hon, if_true, State.uartStopDmaSend, if_pos hbusy]
      exact (hinv.ring.stop_iff hbusy.1).mpr (hhalf hbusy)
    · exact ((hinv.pause fun _ => hhalf).inv_of_run halong hrun).delivers

instance : DecidablePred (t.Exact cfg) := fun
  | .buf e => inferInstanceAs (Decidable (t.buf.Fits16 cfg e))
  | .pause => inferInstanceAs (Decidable (_ → _ → _))
  | .resume => inferInstanceAs (Decidable True)

/-- Twelve bytes, and six of them sent. -/
def midway : List TraceEvent := .buf (.output (List.replicate 12 7)) :: List.replicate 6 (.buf .dmaByte)

theorem midway_keeps : ∃ t, run (Trace.step smallConfig) .opened midway = some t ∧ t.buf.ChanBusy ∧
    t.PauseKeeps smallConfig :=
  ⟨_, rfl, by decide, (@pauseKeeps_iff smallConfig _ midway (by decide) rfl rfl).mpr (by decide)⟩

/-- One of twelve bytes is sent. The pause moves `rptr` by the eleven others. -/
theorem earlyPause_not_keeps :
    ∃ t, run (Trace.step smallConfig) .opened [.buf (.output (List.replicate 12 7)), .buf .dmaByte] = some t ∧
      t.pauseCnt = 0 ∧ ¬ t.PauseKeeps smallConfig :=
  ⟨_, rfl, rfl, fun hkeeps => absurd (hkeeps.advanced (by decide)) (by decide)⟩

end Best1307.TraceBuf
