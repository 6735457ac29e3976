import Mathlib.Data.List.Infix
import Best1307.Lib.Run
import Best1307.Lib.ByteRing

/-!
# The trace buffer and its DMA

`hal_trace_output` copies each trace to the ring `trace.buf`, behind a notice of how many were lost before it. The
DMA takes the bytes to the UART in transfers of two descriptors at most, and `rptr` follows when a transfer is
done, with or without an error.

The positions are 16 bits wide. For a buffer of more than half of that the sum of a position and a length may
not fit, and then the position goes astray.
-/

namespace Best1307.TraceBuf

open ByteRing

/-- `TRACE_BUF_SIZE`, within the static assertion on it, and whether lines end with `TRACE_CRLF`. -/
structure Config where
  bufSize : Nat
  crlf : Bool
  bufSize_pos : 0 < bufSize
  bufSize_lt : bufSize < 2 ^ 16

def halDmaMaxDescXferSize : Nat := 0xFFF

/-! ### The notice of what was lost -/

def newLineStr (crlf : Bool) : List UInt8 := if crlf then [13, 10] else [10]

/-- `NEW_LINE_STR "LOST "` -/
def discardsPrefix (crlf : Bool) : List UInt8 := newLineStr crlf ++ [76, 79, 83, 84, 32]

def discardsBufSize (crlf : Bool) : Nat := (discardsPrefix crlf).length + 7

def maxDiscards : Nat := 99999

def digits : Nat → Nat → List UInt8
  | 0, _ => []
  | n + 1, val => UInt8.ofNat (val % 10 + 48) :: if val / 10 = 0 then [] else digits n (val / 10)

def halTracePrintUnsigned (len val : Nat) : List UInt8 := (digits 10 val).reverse.take len

def discardsText (crlf : Bool) (discards : Nat) : List UInt8 :=
  let discards := if maxDiscards < discards then maxDiscards else discards
  discardsPrefix crlf ++ halTracePrintUnsigned 5 discards ++ newLineStr crlf

/-! ### The buffer -/

structure Desc where
  src : Nat
  srcTsize : Nat
  deriving DecidableEq, Repr

/-- The address of a byte of a transfer. -/
def descAddr : List Desc → Nat → Option Nat
  | [], _ => none
  | d :: ds, k => if k < d.srcTsize then some (d.src + k) else descAddr ds (k - d.srcTsize)

/-- `struct HAL_TRACE_BUF_T`, the descriptors, and how many bytes the DMA has moved of them. The last two fields
log what the UART was given, and the accepted traces with the notices. -/
structure State where
  buf : Nat → UInt8
  wptr : Nat
  rptr : Nat
  discards : Nat
  sending : Bool
  sends : Nat × Nat
  dmaDesc : List Desc
  moved : Nat
  uart : List UInt8
  accepted : List UInt8

def State.opened : State where
  buf _ := 0
  wptr := 0
  rptr := 0
  discards := 0
  sending := false
  sends := (0, 0)
  dmaDesc := []
  moved := 0
  uart := []
  accepted := []

def advance (bufSize pos len : Nat) : Nat :=
  let pos := (pos + len) % 2 ^ 16
  if bufSize ≤ pos then pos - bufSize else pos

namespace State

variable (cfg : Config) (s : State)

/-- The sizes of the two descriptors of a transfer. -/
def sendSizes : Nat × Nat :=
  let first := if s.rptr < s.wptr then s.wptr - s.rptr else cfg.bufSize - s.rptr
  let second := if s.rptr < s.wptr then 0 else if first ≤ halDmaMaxDescXferSize then s.wptr else 0
  let sends :=
    if halDmaMaxDescXferSize < first then (halDmaMaxDescXferSize, first - halDmaMaxDescXferSize)
    else (first, second)
  if halDmaMaxDescXferSize < sends.2 then (sends.1, halDmaMaxDescXferSize) else sends

/-- A transfer of one or two descriptors is set up and started. -/
def sgStart : State :=
  let sends := s.sendSizes cfg
  let src := if s.rptr + sends.1 < cfg.bufSize then s.rptr + sends.1 else 0
  { s with
    sending := true
    dmaDesc := if sends.2 = 0 then [⟨s.rptr, sends.1⟩] else [⟨s.rptr, sends.1⟩, ⟨src, sends.2⟩]
    sends
    moved := 0 }

/-- `hal_trace_uart_dma_send` -/
def uartDmaSend : State := if s.sending = false ∧ s.wptr ≠ s.rptr then s.sgStart cfg else s

/-- How many bytes `hal_trace_uart_xfer_done` takes for sent. -/
def xferSent (error : Bool) (remainTsize : Nat) (lli : Bool) : Nat :=
  let sends :=
    if error then
      if lli ∨ s.sends.2 = 0 then (s.sends.1 - remainTsize, 0) else (s.sends.1, s.sends.2 - remainTsize)
    else s.sends
  sends.1 + sends.2

/-- `hal_trace_uart_xfer_done` -/
def uartXferDone (error : Bool) (remainTsize : Nat) (lli : Bool) : State :=
  { s with
    rptr := advance cfg.bufSize s.rptr (s.xferSent error remainTsize lli)
    sends := (0, 0)
    sending := false
    moved := 0 }.uartDmaSend cfg

def avail : Nat :=
  if s.rptr ≤ s.wptr then cfg.bufSize - (s.wptr - s.rptr) - 1 else s.rptr - s.wptr - 1

def outLen (bufLen : Nat) : Nat :=
  (bufLen + if s.discards ≠ 0 then discardsBufSize cfg.crlf else 0) % 2 ^ 32

def notice : List UInt8 := if s.discards ≠ 0 then discardsText cfg.crlf s.discards else []

def put (data : List UInt8) : State :=
  { s with
    buf := copyIn cfg.bufSize s.wptr data s.buf
    wptr := advance cfg.bufSize s.wptr data.length
    accepted := s.accepted ++ data }

/-- `hal_trace_print_discards` -/
def printDiscards : State :=
  if s.discards ≠ 0 then { s.put cfg (discardsText cfg.crlf s.discards) with discards := 0 } else s

/-- `hal_trace_output_internal`, with what it returns. -/
def halTraceOutput (buf : List UInt8) : Nat × State :=
  if s.avail cfg < s.outLen cfg buf.length then
    (1, { s with discards := if s.discards < 2 ^ 16 - 1 then s.discards + 1 else s.discards })
  else (0, ((s.printDiscards cfg).put cfg buf).uartDmaSend cfg)

end State

/-- A trace is output, the DMA is started where it is idle, it moves a byte to the UART, or it is done. -/
inductive Event
  | output (buf : List UInt8)
  | send
  | dmaByte
  | xferDone (error : Bool) (remainTsize : Nat) (lli : Bool)
  deriving DecidableEq, Repr

/-- What the DMA reports at the end of a transfer is what it has moved. -/
def step (cfg : Config) (s : State) : Event → Option State
  | .output buf => some (s.halTraceOutput cfg buf).2
  | .send => some (s.uartDmaSend cfg)
  | .dmaByte =>
      if s.sending then
        (descAddr s.dmaDesc s.moved).map fun addr =>
          { s with uart := s.uart ++ [s.buf addr], moved := s.moved + 1 }
      else none
  | .xferDone error remainTsize lli =>
      if s.sending ∧ s.moved = s.xferSent error remainTsize lli then
        some (s.uartXferDone cfg error remainTsize lli)
      else none

namespace State

variable (cfg : Config) (s : State)

def used : Nat := if s.rptr ≤ s.wptr then s.wptr - s.rptr else cfg.bufSize - s.rptr + s.wptr

def unsent : List UInt8 :=
  (List.range (s.used cfg - s.moved)).map fun i => s.buf ((s.rptr + s.moved + i) % cfg.bufSize)

/-- The sums of the positions with the lengths they move on by fit in 16 bits. -/
def Fits16 : Event → Prop
  | .output buf =>
      s.outLen cfg buf.length ≤ s.avail cfg →
        s.wptr + (s.notice cfg).length < 2 ^ 16 ∧ (s.printDiscards cfg).wptr + buf.length < 2 ^ 16
  | .xferDone error remainTsize lli => s.rptr + s.xferSent error remainTsize lli < 2 ^ 16
  | _ => True

end State

/-- The UART gets every byte of the accepted traces and notices once and in order: what it was given and what the
buffer still holds for it are those bytes, a transfer can go on until it is done, and without one nothing is left. -/
structure Delivers (cfg : Config) (s : State) : Prop where
  inOrder : s.uart ++ s.unsent cfg = s.accepted
  wptr_lt : s.wptr < cfg.bufSize
  rptr_lt : s.rptr < cfg.bufSize
  rejected : ∀ buf, (s.halTraceOutput cfg buf).1 ≠ 0 →
    cfg.bufSize ≤ s.used cfg + (buf.length + if s.discards ≠ 0 then discardsBufSize cfg.crlf else 0)
  goesOn : s.sending → (step cfg s .dmaByte).isSome ∨ (step cfg s (.xferDone false 0 false)).isSome
  idle : s.sending = false → s.uart = s.accepted

/-! ### What the positions say -/

namespace State

variable {cfg : Config} {s : State}

theorem avail_eq (hrptr : s.rptr < cfg.bufSize) : s.avail cfg = cfg.bufSize - s.used cfg - 1 := by
  simp only [avail, used]
  split
  · rfl
  · omega

theorem outLen_le (cfg : Config) (s : State) (bufLen : Nat) :
    s.outLen cfg bufLen ≤ bufLen + if s.discards ≠ 0 then discardsBufSize cfg.crlf else 0 :=
  Nat.mod_le _ _

/-- A transfer takes bytes from `rptr` on, at most up to `wptr`; the second descriptor begins where the first ends
or at the buffer head. -/
theorem sendSizes_spec (hwptr : s.wptr < cfg.bufSize) (hrptr : s.rptr < cfg.bufSize) (hne : s.wptr ≠ s.rptr) :
    let sends := s.sendSizes cfg
    sends.1 + sends.2 ≤ s.used cfg ∧ s.rptr + sends.1 ≤ cfg.bufSize ∧
      (s.rptr + sends.1 < cfg.bufSize → s.rptr + sends.1 + sends.2 ≤ cfg.bufSize) := by
  intro sends
  simp only [sends, sendSizes, used, halDmaMaxDescXferSize]
  rcases Nat.lt_or_ge s.rptr s.wptr with hahead | hbehind
  · simp only [if_pos hahead, if_pos hahead.le]
    split <;> split <;> omega
  · have hless : ¬ s.rptr ≤ s.wptr := by omega
    simp only [if_neg (Nat.not_lt.mpr hbehind), if_neg hless]
    by_cases hlong : 4095 < cfg.bufSize - s.rptr
    · simp only [if_pos hlong]
      split <;> omega
    · simp only [if_neg hlong, if_pos (Nat.not_lt.mp hlong)]
      split <;> omega

theorem descAddr_sendSizes (hwptr : s.wptr < cfg.bufSize) (hrptr : s.rptr < cfg.bufSize) (hne : s.wptr ≠ s.rptr)
    (k : Nat) :
    let sends := s.sendSizes cfg
    let src := if s.rptr + sends.1 < cfg.bufSize then s.rptr + sends.1 else 0
    descAddr (if sends.2 = 0 then [⟨s.rptr, sends.1⟩] else [⟨s.rptr, sends.1⟩, ⟨src, sends.2⟩]) k =
      if k < sends.1 + sends.2 then some ((s.rptr + k) % cfg.bufSize) else none := by
  intro sends src
  have hspec : sends.1 + sends.2 ≤ s.used cfg ∧ s.rptr + sends.1 ≤ cfg.bufSize ∧
    (s.rptr + sends.1 < cfg.bufSize → s.rptr + sends.1 + sends.2 ≤ cfg.bufSize) := sendSizes_spec hwptr hrptr hne
  obtain ⟨hused, hend, hrest⟩ := hspec
  have hless : s.used cfg < cfg.bufSize := by
    rw [used]
    split <;> omega
  have hcell (hk : k < sends.1 + sends.2) : (s.rptr + k) % cfg.bufSize =
      if k < sends.1 then s.rptr + k else src + (k - sends.1) := by
    rw [← wrap_eq_mod (by omega)]
    split
    case isTrue hwrap =>
      have hsrc : src = 0 := if_neg (by omega)
      rw [if_neg (by omega), hsrc]
      omega
    case isFalse hin =>
      split
      case isTrue => rfl
      case isFalse hsecond =>
        have hsrc : src = s.rptr + sends.1 := if_pos (by omega)
        rw [hsrc]
        omega
  by_cases hsecond : sends.2 = 0
  · rw [if_pos hsecond, hsecond, Nat.add_zero]
    simp only [descAddr]
    split
    case isTrue hk => rw [hcell (by omega), if_pos hk]
    case isFalse => rfl
  · rw [if_neg hsecond]
    simp only [descAddr]
    by_cases hfirst : k < sends.1
    · rw [if_pos hfirst, if_pos (by omega), hcell (by omega), if_pos hfirst]
    · rw [if_neg hfirst]
      split
      case isTrue hk => rw [if_pos (by omega), hcell (by omega), if_neg hfirst]
      case isFalse hk => rw [if_neg (by omega)]

end State

theorem advance_eq {size pos len k : Nat} (hpos : pos = k % size) (hlt : pos < size) (hlen : len ≤ size)
    (hfits : pos + len < 2 ^ 16) : advance size pos len = (k + len) % size := by
  have hsum : pos + len < 2 * size := by omega
  rw [advance, Nat.mod_eq_of_lt hfits, wrap_eq_mod hsum, hpos, Nat.mod_add_mod]

/-! ### The ring and the transfer -/

namespace State

variable (cfg : Config) (s : State)

def done : Nat := s.uart.length - s.moved

/-- The DMA takes the bytes behind those done, one after the other. -/
structure Transfer : Prop where
  moved_le : s.moved ≤ s.sends.1 + s.sends.2
  total_le : s.done + (s.sends.1 + s.sends.2) ≤ s.accepted.length
  addr : ∀ k, descAddr s.dmaDesc k =
    if k < s.sends.1 + s.sends.2 then some ((s.done + k) % cfg.bufSize) else none

/-- The positions and the buffer behind every step, and also before the DMA is started again. -/
structure Ring : Prop where
  moved_le : s.moved ≤ s.uart.length
  uart : s.uart <+: s.accepted
  wptr_eq : s.wptr = s.accepted.length % cfg.bufSize
  rptr_eq : s.rptr = s.done % cfg.bufSize
  room : s.accepted.length < s.done + cfg.bufSize
  holds : Holds cfg.bufSize s.done s.buf s.accepted
  transfer : s.sending → s.Transfer cfg
  idle : s.sending = false → s.moved = 0

structure Inv : Prop where
  ring : s.Ring cfg
  sent : s.sending = false → s.uart = s.accepted

end State

variable {cfg : Config} {s s' : State} {buf data : List UInt8}

namespace State.Ring

theorem wptr_lt (h : s.Ring cfg) : s.wptr < cfg.bufSize := by
  rw [h.wptr_eq]
  exact Nat.mod_lt _ cfg.bufSize_pos

theorem rptr_lt (h : s.Ring cfg) : s.rptr < cfg.bufSize := by
  rw [h.rptr_eq]
  exact Nat.mod_lt _ cfg.bufSize_pos

theorem done_add (h : s.Ring cfg) : s.done + s.moved = s.uart.length := Nat.sub_add_cancel h.moved_le

theorem done_le (h : s.Ring cfg) : s.done ≤ s.accepted.length :=
  (Nat.sub_le _ _).trans h.uart.length_le

theorem used_eq (h : s.Ring cfg) : s.used cfg = s.accepted.length - s.done := by
  rw [used, h.wptr_eq, h.rptr_eq]
  exact SlotRing.mod_sub_mod h.done_le h.room

theorem avail_eq (h : s.Ring cfg) : s.avail cfg = s.done + cfg.bufSize - s.accepted.length - 1 := by
  have := h.done_le
  have := h.room
  rw [State.avail_eq h.rptr_lt, h.used_eq]
  omega

theorem unsent_eq (h : s.Ring cfg) : s.unsent cfg = s.accepted.drop s.uart.length := by
  have hadd := h.done_add
  have hcount : s.used cfg - s.moved = s.accepted.length - s.uart.length := by
    rw [h.used_eq]
    omega
  have hcells := h.holds.read (k := s.uart.length) (Nat.sub_le _ _)
  rw [unsent, hcount, ← hcells]
  refine List.map_congr_left fun i _ => congrArg s.buf ?_
  rw [h.rptr_eq, Nat.add_assoc, Nat.mod_add_mod, ← Nat.add_assoc, hadd]

theorem withDiscards (h : s.Ring cfg) (discards : Nat) : { s with discards }.Ring cfg where
  moved_le := h.moved_le
  uart := h.uart
  wptr_eq := h.wptr_eq
  rptr_eq := h.rptr_eq
  room := h.room
  holds := h.holds
  transfer := fun hsending => ⟨(h.transfer hsending).moved_le, (h.transfer hsending).total_le,
    (h.transfer hsending).addr⟩
  idle := h.idle

theorem put (h : s.Ring cfg) (hroom : s.accepted.length + data.length < s.done + cfg.bufSize)
    (hfits : s.wptr + data.length < 2 ^ 16) : (s.put cfg data).Ring cfg where
  moved_le := h.moved_le
  uart := h.uart.trans (List.prefix_append _ _)
  wptr_eq := by
    have hlen : data.length ≤ cfg.bufSize := by
      have := h.done_le
      omega
    rw [State.put, List.length_append]
    exact advance_eq h.wptr_eq h.wptr_lt hlen hfits
  rptr_eq := h.rptr_eq
  room := by
    rw [State.put, List.length_append]
    exact hroom
  holds := by
    have hcopy := h.holds.copyIn data cfg.bufSize_pos h.done_le hroom.le
    rw [← h.wptr_eq] at hcopy
    exact hcopy
  transfer := by
    intro hsending
    have ht := h.transfer hsending
    refine ⟨ht.moved_le, ht.total_le.trans ?_, ht.addr⟩
    rw [State.put, List.length_append]
    exact Nat.le_add_right _ _
  idle := h.idle

theorem printDiscards (h : s.Ring cfg) (hroom : s.accepted.length + (s.notice cfg).length < s.done + cfg.bufSize)
    (hfits : s.wptr + (s.notice cfg).length < 2 ^ 16) :
    (s.printDiscards cfg).Ring cfg ∧ (s.printDiscards cfg).done = s.done ∧
      (s.printDiscards cfg).accepted = s.accepted ++ s.notice cfg := by
  rw [State.printDiscards]
  rw [notice] at hroom hfits ⊢
  split
  case isTrue hlost =>
    rw [if_pos hlost] at hroom hfits
    exact ⟨(h.put hroom hfits).withDiscards 0, rfl, rfl⟩
  case isFalse => exact ⟨h, rfl, (List.append_nil _).symm⟩

theorem done_of_idle (h : s.Ring cfg) (hidle : s.sending = false) : s.done = s.uart.length := by
  rw [done, h.idle hidle, Nat.sub_zero]

theorem sgStart (h : s.Ring cfg) (hidle : s.sending = false) (hne : s.wptr ≠ s.rptr) :
    (s.sgStart cfg).Ring cfg := by
  have hdone : (s.sgStart cfg).done = s.done := (h.done_of_idle hidle).symm
  have hspec : (s.sendSizes cfg).1 + (s.sendSizes cfg).2 ≤ s.used cfg ∧ _ := sendSizes_spec h.wptr_lt h.rptr_lt hne
  refine ⟨Nat.zero_le _, h.uart, h.wptr_eq, ?_, ?_, ?_, fun _ => ⟨Nat.zero_le _, ?_, fun k => ?_⟩, ?_⟩
  · rw [hdone]
    exact h.rptr_eq
  · rw [hdone]
    exact h.room
  · rw [hdone]
    exact h.holds
  · have htotal := hspec.1
    have hle := h.done_le
    rw [h.used_eq] at htotal
    rw [hdone]
    simp only [State.sgStart]
    omega
  · have haddr := descAddr_sendSizes h.wptr_lt h.rptr_lt hne k
    rw [hdone]
    refine haddr.trans ?_
    rw [h.rptr_eq, Nat.mod_add_mod]
    rfl
  · intro hsending
    exact absurd hsending Bool.noConfusion

theorem uartDmaSend (h : s.Ring cfg) : (s.uartDmaSend cfg).Inv cfg := by
  rw [State.uartDmaSend]
  split
  case isTrue hstart =>
    refine ⟨h.sgStart hstart.1 hstart.2, fun hsending => ?_⟩
    exact absurd hsending Bool.noConfusion
  case isFalse hkeep =>
    refine ⟨h, fun hidle => h.uart.eq_of_length_le ?_⟩
    have hptr : s.wptr = s.rptr := not_not.mp fun hne => hkeep ⟨hidle, hne⟩
    have hused := h.used_eq
    rw [used, hptr, if_pos le_rfl, Nat.sub_self, h.done_of_idle hidle] at hused
    exact Nat.sub_eq_zero_iff_le.mp hused.symm

/-- A transfer that is over, with `rptr` behind the bytes the UART was given. -/
theorem stop (h : s.Ring cfg) {len : Nat} (hlen : advance cfg.bufSize s.rptr len = s.uart.length % cfg.bufSize) :
    { s with
      rptr := advance cfg.bufSize s.rptr len
      sends := (0, 0)
      sending := false
      moved := 0 }.Ring cfg where
  moved_le := Nat.zero_le _
  uart := h.uart
  wptr_eq := h.wptr_eq
  rptr_eq := hlen
  room := by
    have hadd := h.done_add
    have hroom := h.room
    simp only [done, Nat.sub_zero]
    omega
  holds := h.holds.mono (Nat.sub_le _ _)
  transfer := fun hsending => absurd hsending Bool.noConfusion
  idle := fun _ => rfl

theorem advance_sent (h : s.Ring cfg) (hsending : s.sending) (hfits : s.rptr + s.moved < 2 ^ 16) :
    advance cfg.bufSize s.rptr s.moved = s.uart.length % cfg.bufSize := by
  have ht := h.transfer hsending
  have hadd := h.done_add
  have hroom := h.room
  have htotal := ht.total_le
  have hmoved := ht.moved_le
  rw [advance_eq h.rptr_eq h.rptr_lt (by omega) hfits, hadd]

theorem xferDone (h : s.Ring cfg) (hsending : s.sending) {error : Bool} {remainTsize : Nat} {lli : Bool}
    (hmoved : s.moved = s.xferSent error remainTsize lli)
    (hfits : s.rptr + s.xferSent error remainTsize lli < 2 ^ 16) :
    (s.uartXferDone cfg error remainTsize lli).Inv cfg := by
  refine uartDmaSend (h.stop ?_)
  rw [← hmoved] at hfits ⊢
  exact h.advance_sent hsending hfits

end State.Ring

namespace State.Inv

/-- The byte the DMA moves is the next one of what was accepted. -/
theorem dmaByte (h : s.Inv cfg) (hstep : step cfg s .dmaByte = some s') : s'.Inv cfg := by
  simp only [step] at hstep
  split at hstep
  case isTrue hsending =>
    obtain ⟨addr, haddr, rfl⟩ := Option.map_eq_some_iff.mp hstep
    have ht := h.ring.transfer hsending
    have hadd := h.ring.done_add
    rw [ht.addr] at haddr
    split at haddr
    case isFalse => cases haddr
    case isTrue hmore =>
      have htotal := ht.total_le
      have hnext : s.uart.length < s.accepted.length := by omega
      have hbyte : s.buf addr = s.accepted[s.uart.length] := by
        rw [← Option.some.inj haddr, hadd]
        exact h.ring.holds _ _ (by omega) (List.getElem?_eq_getElem hnext)
      let t : State := { s with
        uart := s.uart ++ [s.buf addr]
        moved := s.moved + 1 }
      have hdone : t.done = s.done := by
        simp only [t, done, List.length_append, List.length_singleton, Nat.add_sub_add_right]
      refine ⟨⟨?_, ?_, h.ring.wptr_eq, ?_, ?_, ?_, fun _ => ⟨hmore, ?_, ?_⟩, fun hidle => ?_⟩, fun hidle => ?_⟩
      · rw [List.length_append]
        exact Nat.add_le_add_right h.ring.moved_le 1
      · change s.uart ++ [s.buf addr] <+: s.accepted
        rw [hbyte]
        exact List.concat_get_prefix h.ring.uart hnext
      · exact h.ring.rptr_eq.trans (congrArg (· % cfg.bufSize) hdone.symm)
      · exact hdone ▸ h.ring.room
      · exact hdone ▸ h.ring.holds
      · exact hdone ▸ ht.total_le
      · exact hdone ▸ ht.addr
      · exact absurd (hsending.symm.trans hidle) Bool.noConfusion
      · exact absurd (hsending.symm.trans hidle) Bool.noConfusion
  case isFalse => cases hstep

end State.Inv

/-! ### What the notice takes -/

theorem discardsSize_lt (cfg : Config) (s : State) :
    (if s.discards ≠ 0 then discardsBufSize cfg.crlf else 0) < 2 ^ 5 := by
  split
  · cases cfg.crlf <;> decide
  · decide

theorem length_notice_le (cfg : Config) (s : State) :
    (s.notice cfg).length ≤ if s.discards ≠ 0 then discardsBufSize cfg.crlf else 0 := by
  rw [State.notice]
  split
  case isTrue =>
    have hdigits (val : Nat) : (halTracePrintUnsigned 5 val).length ≤ 5 := by
      rw [halTracePrintUnsigned]
      exact List.length_take_le _ _
    have hline : (newLineStr cfg.crlf).length ≤ 2 := by
      rw [newLineStr]
      split <;> decide
    simp only [discardsText, discardsBufSize, List.length_append]
    have := hdigits (if maxDiscards < s.discards then maxDiscards else s.discards)
    omega
  case isFalse => exact Nat.zero_le _

/-- A trace that fits, behind the notice of what was lost. -/
theorem State.Ring.store (h : s.Ring cfg) (hfits : s.Fits16 cfg (.output buf))
    (hroom : s.outLen cfg buf.length ≤ s.avail cfg) : ((s.printDiscards cfg).put cfg buf).Ring cfg := by
  obtain ⟨hnotice, hbuf⟩ := hfits hroom
  have hlen := length_notice_le cfg s
  have hsize := discardsSize_lt cfg s
  have havail := h.avail_eq
  have hdone := h.done_le
  have hless := h.room
  rw [outLen, Nat.mod_eq_of_lt (by omega)] at hroom
  obtain ⟨hring, hsame, hbehind⟩ := h.printDiscards (by omega) hnotice
  refine hring.put ?_ hbuf
  rw [hsame, hbehind, List.length_append]
  omega

namespace State.Inv

theorem output (h : s.Inv cfg) (hfits : s.Fits16 cfg (.output buf)) : (s.halTraceOutput cfg buf).2.Inv cfg := by
  rw [halTraceOutput]
  split
  case isTrue => exact ⟨h.ring.withDiscards _, h.sent⟩
  case isFalse hroom => exact (h.ring.store hfits (Nat.not_lt.mp hroom)).uartDmaSend

theorem step (h : s.Inv cfg) {e : Event} (hfits : s.Fits16 cfg e) (hstep : step cfg s e = some s') :
    s'.Inv cfg := by
  cases e with
  | output buf =>
      obtain rfl := Option.some.inj hstep
      exact h.output hfits
  | send =>
      obtain rfl := Option.some.inj hstep
      exact h.ring.uartDmaSend
  | dmaByte => exact h.dmaByte hstep
  | xferDone error remainTsize lli =>
      simp only [TraceBuf.step, Option.ite_none_right_eq_some, Option.some.injEq] at hstep
      obtain ⟨⟨hsending, hmoved⟩, rfl⟩ := hstep
      exact h.ring.xferDone hsending hmoved hfits

theorem opened : State.opened.Inv cfg where
  ring := by
    refine ⟨le_rfl, List.prefix_refl _, (Nat.zero_mod _).symm, (Nat.zero_mod _).symm, ?_, ?_, ?_, fun _ => rfl⟩
    · exact Nat.lt_of_lt_of_eq cfg.bufSize_pos (Nat.zero_add _).symm
    · intro k entry _ hentry
      cases hentry
    · intro hsending
      cases hsending
  sent := fun _ => rfl

theorem delivers (h : s.Inv cfg) : Delivers cfg s where
  inOrder := by
    rw [h.ring.unsent_eq]
    obtain ⟨rest, hrest⟩ := h.ring.uart
    rw [← hrest, List.drop_left]
  wptr_lt := h.ring.wptr_lt
  rptr_lt := h.ring.rptr_lt
  rejected := by
    intro buf hrejected
    rw [halTraceOutput] at hrejected
    split at hrejected
    case isTrue hroom =>
      have hneeds := s.outLen_le cfg buf.length
      have hless : s.used cfg < cfg.bufSize := by
        have := h.ring.room
        have := h.ring.done_le
        rw [h.ring.used_eq]
        omega
      rw [State.avail_eq h.ring.rptr_lt] at hroom
      omega
    case isFalse => exact absurd rfl hrejected
  goesOn := by
    intro hsending
    have ht := h.ring.transfer hsending
    rcases ht.moved_le.lt_or_eq with hmore | hall
    · refine .inl ?_
      simp only [TraceBuf.step, hsending, if_true, ht.addr, if_pos hmore, Option.map_some, Option.isSome_some]
    · refine .inr ?_
      rw [TraceBuf.step, if_pos ⟨hsending, hall⟩]
      rfl
  idle := h.sent

end State.Inv

theorem State.xferSent_le (s : State) (error : Bool) (remainTsize : Nat) (lli : Bool) :
    s.xferSent error remainTsize lli ≤ s.sends.1 + s.sends.2 := by
  cases error with
  | false => exact le_rfl
  | true =>
      simp only [State.xferSent, if_true]
      split
      · exact Nat.le_add_right_of_le (Nat.sub_le _ _)
      · exact Nat.add_le_add_left (Nat.sub_le _ _) _

/-- Up to half of what the positions can count their sums always fit. -/
theorem State.Inv.fits16_of_half (h : s.Inv cfg) (hhalf : cfg.bufSize ≤ 2 ^ 15) {e : Event}
    (hlen : ∀ buf, e = .output buf → buf.length < 2 ^ 31) (henabled : (TraceBuf.step cfg s e).isSome) :
    s.Fits16 cfg e := by
  have hwptr := h.ring.wptr_lt
  have hrptr := h.ring.rptr_lt
  cases e with
  | send => trivial
  | dmaByte => trivial
  | output buf =>
      intro hroom
      have hbuf := hlen buf rfl
      have hnotice := length_notice_le cfg s
      have hsize := discardsSize_lt cfg s
      rw [State.outLen, Nat.mod_eq_of_lt (by omega), State.avail_eq hrptr] at hroom
      have hfit : s.wptr + (s.notice cfg).length < 2 ^ 16 := by omega
      have hdone := h.ring.done_le
      have hroom' := h.ring.room
      have hused := h.ring.used_eq
      obtain ⟨hring, -, -⟩ := h.ring.printDiscards (by omega) hfit
      have hbehind := hring.wptr_lt
      exact ⟨hfit, by omega⟩
  | xferDone error remainTsize lli =>
      have hsent := s.xferSent_le error remainTsize lli
      simp only [TraceBuf.step, Option.isSome_ite] at henabled
      have htotal := (h.ring.transfer henabled.1).total_le
      have hroom := h.ring.room
      simp only [State.Fits16]
      omega

/-- As long as the sums of the positions fit in 16 bits the UART gets what was accepted, whatever traces are output
and whatever errors the transfers end with. -/
theorem delivers_of_fits16 {events : List Event} (hfits : Along (step cfg) (State.Fits16 cfg) .opened events)
    (hrun : run (step cfg) .opened events = some s) : Delivers cfg s :=
  (run_invariant_along (State.Inv cfg) (fun _ _ _ hinv he hstep => hinv.step he hstep) hfits .opened hrun).delivers

instance : DecidablePred (s.Fits16 cfg) := fun
  | .output _ => inferInstanceAs (Decidable (_ → _))
  | .send => inferInstanceAs (Decidable True)
  | .dmaByte => inferInstanceAs (Decidable True)
  | .xferDone _ _ _ => inferInstanceAs (Decidable (_ < _))

def smallConfig : Config := ⟨16, false, Nat.succ_pos 15, Nat.le_of_ble_eq_true rfl⟩

/-- Four bytes do not fit behind twelve; an error ends the transfer after one of these, and then one more is output. -/
def cutShort : List Event :=
  [.output (List.replicate 12 0), .output [1, 2, 3, 4], .dmaByte, .xferDone true 11 false, .output [5]]

theorem cutShort_delivers : ∃ t, run (step smallConfig) .opened cutShort = some t ∧ Delivers smallConfig t :=
  ⟨_, rfl, @delivers_of_fits16 smallConfig _ cutShort (by decide) rfl⟩

theorem delivers_of_half (hhalf : cfg.bufSize ≤ 2 ^ 15) {events : List Event}
    (hlen : ∀ buf, .output buf ∈ events → buf.length < 2 ^ 31)
    (hrun : run (step cfg) .opened events = some s) : Delivers cfg s := by
  have hlens : Along (step cfg) (fun _ e => ∀ buf, e = .output buf → buf.length < 2 ^ 31) .opened events :=
    along_of_forall fun e he _ buf heq => hlen buf (heq ▸ he)
  have hinv : s.Inv cfg := run_invariant_along (State.Inv cfg) (fun s e s' hinv hbuf hstep => by
    have hfits := hinv.fits16_of_half hhalf hbuf (Option.isSome_iff_exists.mpr ⟨s', hstep⟩)
    exact hinv.step hfits hstep) hlens .opened hrun
  exact hinv.delivers

/-! ### A position that goes astray -/

def wideConfig : Config := ⟨65535, false, Nat.le_of_ble_eq_true rfl, Nat.le_of_ble_eq_true rfl⟩

/-- After a trace of 65534 bytes and a transfer cut short behind two, the next two bytes take `wptr` to 65536,
which is 0 in 16 bits, though the second of them lies at the buffer head. -/
def widePosition : List Event :=
  [.output (List.replicate 65534 0), .dmaByte, .dmaByte, .xferDone true 4093 true, .output [1, 2]]

section Wide

variable {buf : Nat → UInt8} {trace uart : List UInt8} {descs : List Desc}

theorem wide_output (hlen : trace.length = 65534) :
    step wideConfig .opened (.output trace) = some ⟨copyIn 65535 0 trace fun _ => 0, 65534, 0, 0, true, (4095, 4095),
      [⟨0, 4095⟩, ⟨4095, 4095⟩], 0, [], trace⟩ := by
  simp [step, State.halTraceOutput, State.avail, State.outLen, State.opened, wideConfig, hlen, State.printDiscards,
    State.put, State.uartDmaSend, State.sgStart, State.sendSizes, advance, halDmaMaxDescXferSize]

theorem wide_dmaByte {moved : Nat} (hmoved : moved < 4095) :
    step wideConfig ⟨buf, 65534, 0, 0, true, (4095, 4095), ⟨0, 4095⟩ :: descs, moved, uart, trace⟩ .dmaByte =
      some ⟨buf, 65534, 0, 0, true, (4095, 4095), ⟨0, 4095⟩ :: descs, moved + 1, uart ++ [buf moved], trace⟩ := by
  rw [step, if_pos rfl, descAddr, if_pos hmoved, Option.map_some, Nat.zero_add]

theorem wide_xferSent :
    (⟨buf, 65534, 0, 0, true, (4095, 4095), descs, 2, uart, trace⟩ : State).xferSent true 4093 true = 2 := by
  rw [State.xferSent, if_pos rfl, if_pos (.inl rfl)]
  change 4095 - 4093 + 0 = 2
  decide

theorem wide_xferDone :
    step wideConfig ⟨buf, 65534, 0, 0, true, (4095, 4095), descs, 2, uart, trace⟩ (.xferDone true 4093 true) =
      some ⟨buf, 65534, 2, 0, true, (4095, 4095), [⟨2, 4095⟩, ⟨4097, 4095⟩], 0, uart, trace⟩ := by
  have hdone : (⟨buf, 65534, 0, 0, true, (4095, 4095), descs, 2, uart, trace⟩ : State).uartXferDone wideConfig true
      4093 true = (⟨buf, 65534, 2, 0, false, (0, 0), descs, 0, uart, trace⟩ : State).uartDmaSend wideConfig := by
    rw [State.uartXferDone, wide_xferSent]
    rfl
  rw [step, if_pos ⟨rfl, wide_xferSent.symm⟩, hdone]
  simp [wideConfig, State.uartDmaSend, State.sgStart, State.sendSizes, halDmaMaxDescXferSize]

theorem wide_wraps :
    step wideConfig ⟨buf, 65534, 2, 0, true, (4095, 4095), descs, 0, uart, trace⟩ (.output [1, 2]) =
      some ⟨copyIn 65535 65534 [1, 2] buf, 0, 2, 0, true, (4095, 4095), descs, 0, uart, trace ++ [1, 2]⟩ := by
  simp [step, State.halTraceOutput, State.avail, State.outLen, State.printDiscards, State.put, wideConfig,
    State.uartDmaSend, advance]

theorem wide_not_delivers (htrace : trace.length = 65534) (huart : uart.length = 2) :
    ¬ Delivers wideConfig ⟨buf, 0, 2, 0, true, (4095, 4095), descs, 0, uart, trace ++ [1, 2]⟩ := by
  intro h
  have hlen := congrArg List.length h.inOrder
  simp [State.unsent, State.used, wideConfig, htrace, huart] at hlen

end Wide

theorem widePosition_not_delivers :
    ∃ t, run (step wideConfig) .opened widePosition = some t ∧ ¬ Delivers wideConfig t := by
  have hlen : (List.replicate 65534 (0 : UInt8)).length = 65534 := List.length_replicate
  refine ⟨?final, ?run, ?astray⟩
  case run =>
    rw [widePosition, run_cons, wide_output hlen, Option.bind_some, run_cons,
      wide_dmaByte (Nat.le_of_ble_eq_true rfl), Option.bind_some, run_cons,
      wide_dmaByte (Nat.le_of_ble_eq_true rfl), Option.bind_some, run_cons, wide_xferDone, Option.bind_some,
      run_cons, wide_wraps, Option.bind_some, run_nil]
  case astray => exact wide_not_delivers hlen rfl

end Best1307.TraceBuf
