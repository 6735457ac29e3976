import Mathlib.Algebra.Order.Ring.Nat
import Best1307.LogDump.Buffers
import Best1307.LogDump.CrashDump

/-!
# What a crash dump has of the trace

The trace is cut into pieces, one for every buffer that is filled. The ring holds the one being filled and the fifteen
before it. They are written in order; adding up what they hold goes wrong as long as a buffer holds nothing.
-/

namespace Best1307.CrashDump

open LogDump (DataBuffer LogDumpHeader memcpy sectorSize sectorBufferCount payloadSize)

variable {s s' : State} {b : DataBuffer} {log payload bytes : List UInt8}

/-! ### Buffers -/

/-- Behind the header the buffer has these bytes, and zeros. -/
structure Holds (b : DataBuffer) (payload : List UInt8) : Prop where
  offset : b.offset = LogDumpHeader.size + payload.length ∨ b.offset = 0 ∧ payload = []
  le : payload.length ≤ payloadSize
  length : b.buffer.length = sectorSize
  bytes : b.buffer.drop LogDumpHeader.size = payload ++ List.replicate (payloadSize - payload.length) 0

theorem holds_zeroBuffer : Holds zeroBuffer [] where
  offset := .inr ⟨rfl, rfl⟩
  le := Nat.zero_le _
  length := List.length_replicate
  bytes := List.drop_replicate

namespace Holds

theorem putHeader (h : Holds b []) (hoffset : b.offset = 0) :
    Holds { b with
      offset := b.offset + LogDumpHeader.size
      buffer := memcpy b.buffer b.offset (LogDumpHeader.filled 0 false).bytes } [] where
  offset := .inl (by rw [hoffset, Nat.zero_add, List.length_nil, Nat.add_zero])
  le := h.le
  length := by
    rw [LogDump.length_memcpy _ _ (by rw [h.length, hoffset, LogDump.length_bytes]; decide), h.length]
  bytes := by
    have hlen : (LogDumpHeader.filled 0 false).bytes.length = LogDumpHeader.size := LogDump.length_bytes 0 false
    rw [memcpy, hoffset, List.take_zero, List.nil_append, Nat.zero_add, hlen, ← hlen, List.drop_left, hlen]
    exact h.bytes

theorem putBytes (bytes : List UInt8) (h : Holds b payload) (hoffset : b.offset = LogDumpHeader.size + payload.length)
    (hroom : payload.length + bytes.length ≤ payloadSize) :
    Holds { b with
      offset := b.offset + bytes.length
      buffer := memcpy b.buffer b.offset bytes } (payload ++ bytes) where
  offset := .inl (by rw [hoffset, List.length_append, Nat.add_assoc])
  le := by rwa [List.length_append]
  length := by
    have hsize : LogDumpHeader.size + payloadSize = sectorSize := by decide
    rw [LogDump.length_memcpy _ _ (by rw [h.length, hoffset]; omega), h.length]
  bytes := by
    have hsize : LogDumpHeader.size + payloadSize = sectorSize := by decide
    have htake : (b.buffer.take b.offset).drop LogDumpHeader.size = payload := by
      rw [hoffset, List.drop_take, Nat.add_sub_cancel_left, h.bytes, List.take_left]
    have hdrop : b.buffer.drop (b.offset + bytes.length) =
        List.replicate (payloadSize - (payload ++ bytes).length) 0 := by
      rw [hoffset, Nat.add_assoc, ← List.drop_drop, h.bytes, ← List.drop_drop, List.drop_left, List.drop_replicate,
        List.length_append, Nat.sub_sub]
    have hlen : LogDumpHeader.size ≤ (b.buffer.take b.offset).length := by
      rw [List.length_take, h.length, hoffset]
      omega
    rw [memcpy, hdrop, List.append_assoc, List.drop_append_of_le_length hlen, htake, List.append_assoc]

theorem length_eq (h : Holds b payload) : payload.length = b.offset - LogDumpHeader.size := by
  rcases h.offset with hoffset | ⟨hoffset, hnil⟩
  · rw [hoffset, Nat.add_sub_cancel_left]
  · rw [hoffset, hnil]
    rfl

end Holds

/-! ### Pieces -/

/-- What the log has for the buffer that is begun after `j` others. -/
def piece (log : List UInt8) (j : Nat) : List UInt8 := (log.drop (j * payloadSize)).take payloadSize

/-- The log from the earliest piece that the ring still has. -/
def recent (log : List UInt8) : List UInt8 := log.drop ((log.length / payloadSize - 15) * payloadSize)

theorem payloadSize_pos : 0 < payloadSize := by decide

theorem div_mul_add_mod (n : Nat) : n / payloadSize * payloadSize + n % payloadSize = n :=
  Nat.div_add_mod' n payloadSize

theorem length_piece_of_lt {j : Nat} (hj : j < log.length / payloadSize) : (piece log j).length = payloadSize := by
  have hle : (j + 1) * payloadSize ≤ log.length / payloadSize * payloadSize := Nat.mul_le_mul_right _ hj
  have hlen := div_mul_add_mod log.length
  rw [Nat.succ_mul] at hle
  rw [piece, List.length_take, List.length_drop]
  omega

theorem piece_last (log : List UInt8) :
    piece log (log.length / payloadSize) = log.drop (log.length / payloadSize * payloadSize) ∧
      (piece log (log.length / payloadSize)).length = log.length % payloadSize := by
  have hlen := div_mul_add_mod log.length
  have hlt := Nat.mod_lt log.length payloadSize_pos
  have hdrop : (log.drop (log.length / payloadSize * payloadSize)).length = log.length % payloadSize := by
    rw [List.length_drop]
    omega
  have htake : piece log (log.length / payloadSize) = log.drop (log.length / payloadSize * payloadSize) :=
    List.take_of_length_le (by omega)
  exact ⟨htake, by rw [htake, hdrop]⟩

theorem piece_append {j : Nat} (hj : j < log.length / payloadSize) (bytes : List UInt8) :
    piece (log ++ bytes) j = piece log j := by
  have hle : (j + 1) * payloadSize ≤ log.length / payloadSize * payloadSize := Nat.mul_le_mul_right _ hj
  have hlen := div_mul_add_mod log.length
  rw [Nat.succ_mul] at hle
  rw [piece, List.drop_append_of_le_length (by omega), List.take_append_of_le_length, piece]
  rw [List.length_drop]
  omega

theorem piece_append_last (hroom : log.length % payloadSize + bytes.length ≤ payloadSize) :
    piece (log ++ bytes) (log.length / payloadSize) = piece log (log.length / payloadSize) ++ bytes := by
  have hlen := div_mul_add_mod log.length
  rw [(piece_last log).1, piece, List.drop_append_of_le_length (by omega), List.take_of_length_le]
  rw [List.length_append, List.length_drop]
  omega

/-- The ring has the last pieces of the log, and nothing in the buffers that have not been begun. -/
structure Kept (s : State) (log : List UInt8) : Prop where
  wSeqnum : s.wSeqnum = log.length / payloadSize % sectorBufferCount
  held : ∀ j, j ≤ log.length / payloadSize → log.length / payloadSize < j + sectorBufferCount →
    Holds (s.dataBufferList (j % sectorBufferCount)) (piece log j)
  unused : ∀ j, log.length / payloadSize < j → j < sectorBufferCount → s.dataBufferList j = zeroBuffer

theorem kept_initial : Kept .initial [] where
  wSeqnum := rfl
  held j _ _ := by
    have hnil : piece [] j = [] := by rw [piece, List.drop_nil, List.take_nil]
    rw [hnil]
    exact holds_zeroBuffer
  unused _ _ _ := rfl

namespace Kept

theorem current (h : Kept s log) : Holds s.dataBuff (piece log (log.length / payloadSize)) := by
  have hheld := h.held _ (Nat.le_refl _) (Nat.lt_add_of_pos_right (by decide))
  rwa [← h.wSeqnum] at hheld

/-- The current buffer is replaced, and the log grows by no more than it has room for. -/
theorem replace (h : Kept s log) {log' : List UInt8} (hcount : log'.length / payloadSize = log.length / payloadSize)
    (hsame : ∀ j < log.length / payloadSize, piece log' j = piece log j)
    (hb : Holds b (piece log' (log.length / payloadSize))) : Kept (s.setDataBuff b) log' where
  wSeqnum := by
    rw [hcount]
    exact h.wSeqnum
  held j hj hj' := by
    rw [hcount] at hj hj'
    by_cases hlast : j = log.length / payloadSize
    · have hself : (s.setDataBuff b).dataBufferList (j % sectorBufferCount) = b := by
        rw [hlast, ← h.wSeqnum]
        exact Function.update_self ..
      rw [hself, hlast]
      exact hb
    · have hne : j % sectorBufferCount ≠ s.wSeqnum := by
        rw [h.wSeqnum]
        exact SlotRing.mod_ne (Nat.le_refl j) (Nat.lt_add_of_pos_right (by decide)) hj hj' hlast
      have hother : (s.setDataBuff b).dataBufferList (j % sectorBufferCount) =
          s.dataBufferList (j % sectorBufferCount) := Function.update_of_ne hne ..
      rw [hother, hsame j (by omega)]
      exact h.held j hj hj'
  unused j hj hj' := by
    rw [hcount] at hj
    have hne : j ≠ s.wSeqnum := by
      rw [h.wSeqnum, Nat.mod_eq_of_lt (by omega)]
      omega
    exact (Function.update_of_ne hne ..).trans (h.unused j hj hj')

theorem putHeader (h : Kept s log) :
    Kept s.putHeader log ∧ s.putHeader.dataBuff.offset = LogDumpHeader.size + log.length % payloadSize := by
  have hlast := (piece_last log).2
  rw [State.putHeader]
  by_cases hzero : s.dataBuff.offset = 0
  · have hnil : piece log (log.length / payloadSize) = [] := by
      rcases h.current.offset with hoffset | ⟨-, hnil⟩
      · rw [hzero] at hoffset
        simp only [LogDumpHeader.size] at hoffset
        omega
      · exact hnil
    have hb := h.current
    rw [hnil] at hb hlast
    rw [if_pos hzero]
    refine ⟨h.replace rfl (fun _ _ => rfl) (hnil ▸ hb.putHeader hzero), ?_⟩
    have hself : (s.setDataBuff { s.dataBuff with
        offset := s.dataBuff.offset + LogDumpHeader.size
        buffer := memcpy s.dataBuff.buffer s.dataBuff.offset (LogDumpHeader.filled 0 false).bytes }).dataBuff = _ :=
      Function.update_self ..
    rw [hself, hzero, ← hlast]
    rfl
  · rw [if_neg hzero]
    refine ⟨h, ?_⟩
    rw [← hlast]
    exact h.current.offset.resolve_right fun hboth => hzero hboth.1

theorem takeNext (h : Kept s log) {log' : List UInt8}
    (hcount : log'.length = (log.length / payloadSize + 1) * payloadSize)
    (hsame : ∀ j < log.length / payloadSize, piece log' j = piece log j)
    (hb : Holds b (piece log' (log.length / payloadSize))) : Kept (s.setDataBuff b).takeNext log' := by
  have hdiv : log'.length / payloadSize = log.length / payloadSize + 1 := by
    rw [hcount, Nat.mul_div_cancel _ payloadSize_pos]
  have hw : (s.setDataBuff b).takeNext.wSeqnum = (log.length / payloadSize + 1) % sectorBufferCount := by
    rw [← LogDump.nextSeqnum_mod, ← h.wSeqnum]
    rfl
  have hnext : (s.setDataBuff b).takeNext.dataBufferList ((log.length / payloadSize + 1) % sectorBufferCount) =
      zeroBuffer := by
    rw [← hw]
    exact Function.update_self ..
  have hother (i : Nat) (hi : i ≠ (log.length / payloadSize + 1) % sectorBufferCount) :
      (s.setDataBuff b).takeNext.dataBufferList i = (s.setDataBuff b).dataBufferList i := by
    rw [← hw] at hi
    exact Function.update_of_ne hi ..
  refine ⟨by rw [hw, hdiv], fun j hj hj' => ?_, fun j hj hj' => ?_⟩
  · rw [hdiv] at hj hj'
    by_cases hlast : j = log.length / payloadSize + 1
    · have hnil : piece log' (log.length / payloadSize + 1) = [] := by
        rw [piece, List.drop_of_length_le (Nat.le_of_eq hcount), List.take_nil]
      rw [hlast, hnext, hnil]
      exact holds_zeroBuffer
    · rw [hother _ (SlotRing.mod_ne (Nat.le_refl j) (Nat.lt_add_of_pos_right (by decide)) hj hj' hlast)]
      by_cases hhere : j = log.length / payloadSize
      · have hself : (s.setDataBuff b).dataBufferList (j % sectorBufferCount) = b := by
          rw [hhere, ← h.wSeqnum]
          exact Function.update_self ..
        rw [hself, hhere]
        exact hb
      · have hne : j % sectorBufferCount ≠ s.wSeqnum := by
          rw [h.wSeqnum]
          exact SlotRing.mod_ne (Nat.le_refl j) (Nat.lt_add_of_pos_right (by decide)) (by omega) (by omega) hhere
        have hold : (s.setDataBuff b).dataBufferList (j % sectorBufferCount) =
            s.dataBufferList (j % sectorBufferCount) := Function.update_of_ne hne ..
        rw [hold, hsame j (by omega)]
        exact h.held j (by omega) (by omega)
  · rw [hdiv] at hj
    have hne : j ≠ s.wSeqnum := by
      rw [h.wSeqnum, Nat.mod_eq_of_lt (by omega)]
      omega
    rw [hother j (by rw [Nat.mod_eq_of_lt (by omega)]; omega)]
    exact (Function.update_of_ne hne ..).trans (h.unused j (by omega) hj')

/-- Bytes are put into the current buffer; when it is full, the next one is cleared. -/
theorem putBytes (bytes : List UInt8) (h : Kept s log)
    (hoffset : s.dataBuff.offset = LogDumpHeader.size + log.length % payloadSize)
    (hroom : log.length % payloadSize + bytes.length ≤ payloadSize) :
    Kept (if (s.putBytes bytes).dataBuff.offset = sectorSize then (s.putBytes bytes).takeNext else s.putBytes bytes)
      (log ++ bytes) := by
  have hlen := div_mul_add_mod log.length
  have hlast := (piece_last log).2
  have hsize : LogDumpHeader.size + payloadSize = sectorSize := by decide
  have hb := h.current.putBytes bytes (by rw [hlast, hoffset]) (by rw [hlast]; exact hroom)
  rw [← piece_append_last hroom] at hb
  have hself : (s.putBytes bytes).dataBuff = _ := Function.update_self ..
  have hfull : (s.putBytes bytes).dataBuff.offset = sectorSize ↔
      log.length % payloadSize + bytes.length = payloadSize := by
    rw [hself]
    show s.dataBuff.offset + bytes.length = sectorSize ↔ _
    omega
  by_cases hall : log.length % payloadSize + bytes.length = payloadSize
  · rw [if_pos (hfull.mpr hall)]
    refine h.takeNext ?_ (fun j hj => piece_append hj bytes) hb
    rw [List.length_append, Nat.succ_mul]
    omega
  · rw [if_neg fun hoffset => hall (hfull.mp hoffset)]
    refine h.replace (Nat.div_eq_of_lt_le ?_ ?_) (fun j hj => piece_append hj bytes) hb
    · rw [List.length_append]
      omega
    · rw [List.length_append, Nat.succ_mul]
      omega

/-! ### The output handler -/

theorem outputLoop {turns : Nat} (h : Kept s log) {remain : List UInt8} (hturns : remain.length < turns) :
    ∃ s', State.outputLoop turns s remain = some s' ∧ Kept s' (log ++ remain) := by
  induction turns generalizing s log remain with
  | zero => exact absurd hturns (Nat.not_lt_zero _)
  | succ turns ih =>
      obtain ⟨hheader, hoffset⟩ := h.putHeader
      have hlt := Nat.mod_lt log.length payloadSize_pos
      have hsize : LogDumpHeader.size + payloadSize = sectorSize := by decide
      have hwriteLen : s.putHeader.writeLen remain.length =
          min remain.length (payloadSize - log.length % payloadSize) := by
        rw [State.writeLen, hoffset]
        split <;> omega
      have htake : (remain.take (s.putHeader.writeLen remain.length)).length =
          min remain.length (payloadSize - log.length % payloadSize) := by
        rw [List.length_take, hwriteLen]
        omega
      have hput := hheader.putBytes (remain.take (s.putHeader.writeLen remain.length)) hoffset
        (by rw [htake]; omega)
      simp only [State.outputLoop]
      split
      case isTrue hdone =>
        have hall := List.take_of_length_le (List.drop_eq_nil_iff.mp hdone)
        refine ⟨_, rfl, ?_⟩
        rw [hall] at hput ⊢
        exact hput
      case isFalse hmore =>
        have hpos : 0 < remain.length := by
          refine List.length_pos_iff.mpr fun hnil => hmore ?_
          rw [hnil, List.drop_nil]
        have hrest : (remain.drop (s.putHeader.writeLen remain.length)).length < turns := by
          rw [List.length_drop, hwriteLen]
          omega
        obtain ⟨s', hs', hkept⟩ := ih hput hrest
        refine ⟨s', hs', ?_⟩
        rwa [List.append_assoc, List.take_append_drop] at hkept

theorem traceOutput (h : Kept s log) (chunks : List (List UInt8)) :
    ∃ s', s.traceOutput chunks = some s' ∧ Kept s' (log ++ chunks.flatten) := by
  induction chunks generalizing s log with
  | nil => exact ⟨s, rfl, by rwa [List.flatten_nil, List.append_nil]⟩
  | cons buf chunks ih =>
      obtain ⟨t, ht, hkept⟩ := h.outputLoop (Nat.lt_succ_self buf.length)
      obtain ⟨s', hs', hkept'⟩ := ih hkept
      refine ⟨s', ?_, by rwa [List.flatten_cons, ← List.append_assoc]⟩
      rw [State.traceOutput, State.traceOutputHandler, ht]
      exact hs'

end Kept

/-! ### The crash -/

def payloadLen (b : DataBuffer) : Nat := b.offset - LogDumpHeader.size

/-- Buffers with nothing in them have `offset` zero once the crash has looked at them. -/
def counted (b : DataBuffer) : DataBuffer :=
  { b with offset := if b.offset ≤ LogDumpHeader.size then 0 else b.offset }

theorem Holds.counted (h : Holds b payload) : Holds (counted b) payload := by
  refine ⟨?_, h.le, h.length, h.bytes⟩
  rw [CrashDump.counted]
  split
  case isTrue hle =>
    refine .inr ⟨rfl, ?_⟩
    rcases h.offset with hoffset | ⟨-, hnil⟩
    · exact List.length_eq_zero_iff.mp (by omega)
    · exact hnil
  case isFalse => exact h.offset

theorem counted_zeroBuffer : counted zeroBuffer = zeroBuffer := rfl

theorem foldl_addTraceLen (s : State) (n : Nat) :
    ((List.range n).foldl State.addTraceLen s).wSeqnum = s.wSeqnum ∧
      ∀ i, ((List.range n).foldl State.addTraceLen s).dataBufferList i =
        if i < n then counted (s.dataBufferList i) else s.dataBufferList i := by
  induction n with
  | zero => exact ⟨rfl, fun i => rfl⟩
  | succ n ih =>
      obtain ⟨hw, hlist⟩ := ih
      rw [List.range_succ, List.foldl_append, List.foldl_cons, List.foldl_nil]
      refine ⟨hw, fun i => ?_⟩
      by_cases hi : i = n
      · have hself : (((List.range n).foldl State.addTraceLen s).addTraceLen n).dataBufferList n =
            counted (((List.range n).foldl State.addTraceLen s).dataBufferList n) := Function.update_self ..
        rw [hi, hself, hlist n, if_neg (Nat.lt_irrefl n), if_pos (Nat.lt_succ_self n)]
      · have hother : (((List.range n).foldl State.addTraceLen s).addTraceLen n).dataBufferList i =
            ((List.range n).foldl State.addTraceLen s).dataBufferList i := Function.update_of_ne hi ..
        rw [hother, hlist i]
        exact if_congr (by omega) rfl rfl

theorem Kept.clacTraceTotalLen (h : Kept s log) : Kept s.clacTraceTotalLen log := by
  obtain ⟨hw, hlist⟩ := foldl_addTraceLen { s with totalLen := 0 } sectorBufferCount
  refine ⟨hw.trans h.wSeqnum, fun j hj hj' => ?_, fun j hj hj' => ?_⟩
  · rw [State.clacTraceTotalLen, hlist, if_pos (Nat.mod_lt _ (by decide))]
    exact (h.held j hj hj').counted
  · rw [State.clacTraceTotalLen, hlist, if_pos hj']
    exact (congrArg counted (h.unused j hj hj')).trans counted_zeroBuffer

/-- What the buffers hold, less a header for each that holds nothing. -/
theorem totalLen_foldl (s : State) (n : Nat) (htotal : s.totalLen = 0) :
    ((List.range n).foldl State.addTraceLen s).totalLen =
      (((List.range n).map fun i => payloadLen (s.dataBufferList i)).sum +
        ((List.range n).countP fun i => (s.dataBufferList i).offset ≤ LogDumpHeader.size) *
          (2 ^ 32 - LogDumpHeader.size)) % 2 ^ 32 := by
  induction n with
  | zero =>
      rw [List.range_zero, List.foldl_nil, htotal, List.map_nil, List.sum_nil, List.countP_nil, Nat.zero_mul,
        Nat.add_zero, Nat.zero_mod]
  | succ n ih =>
      have hlist := (foldl_addTraceLen s n).2 n
      rw [if_neg (Nat.lt_irrefl n)] at hlist
      have hstep : ((List.range (n + 1)).foldl State.addTraceLen s).totalLen =
          (((List.range n).foldl State.addTraceLen s).totalLen +
            ((counted (s.dataBufferList n)).offset + 2 ^ 32 - LogDumpHeader.size)) % 2 ^ 32 := by
        rw [List.range_succ, List.foldl_append, ← hlist]
        rfl
      rw [hstep, ih, Nat.mod_add_mod, List.range_succ, List.map_append, List.sum_append, List.countP_append,
        Nat.add_mul]
      generalize ((List.range n).map fun i => payloadLen (s.dataBufferList i)).sum = sum
      generalize ((List.range n).countP fun i => (s.dataBufferList i).offset ≤ LogDumpHeader.size) *
        (2 ^ 32 - LogDumpHeader.size) = headers
      rw [List.map_singleton, List.sum_singleton, List.countP_singleton, payloadLen, counted]
      simp only [LogDumpHeader.size]
      by_cases hsmall : (s.dataBufferList n).offset ≤ 16
      · simp only [hsmall, if_true, decide_true]
        refine congrArg (· % 2 ^ 32) ?_
        omega
      · simp only [hsmall, if_false, decide_false, Bool.false_eq_true]
        rw [show sum + headers + ((s.dataBufferList n).offset + 2 ^ 32 - 16) =
          sum + ((s.dataBufferList n).offset - 16) + headers + 2 ^ 32 by omega, Nat.add_mod_right, Nat.zero_mul,
          Nat.add_zero]

/-! ### The order of the writes -/

def firstPiece (log : List UInt8) : Nat := log.length / payloadSize - 15

/-- The indices `crash_dump_write_trace_to_flash` goes through. -/
def writeOrder (s : State) : List Nat :=
  if (s.dataBufferList (nextSeqnum s.wSeqnum)).offset = 0 ∨ nextSeqnum s.wSeqnum = 0 then List.range (s.wSeqnum + 1)
  else
    (List.range (sectorBufferCount - nextSeqnum s.wSeqnum)).map (nextSeqnum s.wSeqnum + ·) ++
      List.range (s.wSeqnum + 1)

theorem writeTraceToFlash_eq (s : State) (blk : Block) :
    s.writeTraceToFlash blk = s.writeBuffers blk.startAddr (writeOrder s) := by
  rw [State.writeTraceToFlash, writeOrder]
  split <;> rfl

/-- The buffers are written from the one with the first piece to the current one. -/
theorem Kept.writeOrder_eq (h : Kept s log) :
    writeOrder s = (List.range (log.length / payloadSize + 1 - firstPiece log)).map fun i =>
      (firstPiece log + i) % sectorBufferCount := by
  have hw := h.wSeqnum
  have hcount : sectorBufferCount = 16 := rfl
  rw [writeOrder, firstPiece]
  generalize hk : log.length / payloadSize = k at *
  rcases Nat.lt_or_ge k sectorBufferCount with hfirst | hround
  · -- no buffer has been begun twice
    have hnext : (s.dataBufferList (nextSeqnum s.wSeqnum)).offset = 0 ∨ nextSeqnum s.wSeqnum = 0 := by
      rw [hw, Nat.mod_eq_of_lt hfirst, nextSeqnum]
      split
      case isTrue => exact .inr rfl
      case isFalse hnot =>
        rw [h.unused (k + 1) (by omega) (by omega)]
        exact .inl rfl
    rw [if_pos hnext, hw, Nat.mod_eq_of_lt hfirst, show k - 15 = 0 by omega, Nat.sub_zero]
    refine (List.map_id _).symm.trans (List.map_congr_left fun i hi => ?_)
    rw [List.mem_range] at hi
    rw [Nat.zero_add, Nat.mod_eq_of_lt (by omega)]
    rfl
  · have hall : k + 1 - (k - 15) = sectorBufferCount := by omega
    rw [hall]
    by_cases hlast : s.wSeqnum + 1 = sectorBufferCount
    · have hnext : nextSeqnum s.wSeqnum = 0 := if_pos hlast
      rw [if_pos (.inr hnext), hlast]
      refine (List.map_id _).symm.trans (List.map_congr_left fun i hi => ?_)
      rw [List.mem_range] at hi
      have hplace : (k - 15 + i) % sectorBufferCount = i := by
        simp only [sectorBufferCount] at *
        omega
      exact hplace.symm
    · -- the buffer behind the current one has the oldest piece
      have hnext : nextSeqnum s.wSeqnum = s.wSeqnum + 1 := if_neg hlast
      have hlt : s.wSeqnum < sectorBufferCount := hw ▸ Nat.mod_lt _ (by decide)
      have hplace : s.wSeqnum + 1 = (k - 15) % sectorBufferCount := by
        simp only [sectorBufferCount] at *
        omega
      have holdest := h.held (k - 15) (by omega) (by omega)
      have hfull : (piece log (k - 15)).length = payloadSize := length_piece_of_lt (by omega)
      have hoffset : (s.dataBufferList (s.wSeqnum + 1)).offset ≠ 0 := by
        rw [hplace]
        rcases holdest.offset with hoffset | ⟨-, hnil⟩
        · rw [hoffset]
          exact Nat.ne_of_gt (Nat.lt_of_lt_of_le (by decide) (Nat.le_add_right _ _))
        · rw [hnil] at hfull
          exact absurd hfull (by decide)
      rw [hnext, if_neg (by rintro (h | h); exacts [hoffset h, Nat.succ_ne_zero _ h])]
      have hsplit : List.range sectorBufferCount = List.range (sectorBufferCount - (s.wSeqnum + 1)) ++
          (List.range (s.wSeqnum + 1)).map (sectorBufferCount - (s.wSeqnum + 1) + ·) := by
        rw [← List.range_add, Nat.sub_add_cancel hlt]
      rw [hsplit, List.map_append, List.map_map]
      congr 1
      · refine List.map_congr_left fun i hi => ?_
        rw [List.mem_range] at hi
        simp only [sectorBufferCount] at *
        omega
      · refine (List.map_id _).symm.trans (List.map_congr_left fun i hi => ?_)
        rw [List.mem_range] at hi
        simp only [Function.comp_apply, id, sectorBufferCount] at *
        omega

/-! ### What is written -/

theorem crashDumpWrite_aligned {addr : Nat} (h : addr % sectorSize = 0) (data : List UInt8) :
    State.crashDumpWrite addr data = [(addr, data)] := by
  refine if_neg (not_not_intro ?_)
  simp only [sectorSize] at *
  omega

theorem writeBuffers_eq (s : State) {addr : Nat} (h : addr % sectorSize = 0) (indices : List Nat) :
    (s.writeBuffers addr indices).map (·.1) = (List.range indices.length).map (addr + · * sectorSize) ∧
      (s.writeBuffers addr indices).map (·.2) = indices.map fun i => (s.dataBufferList i).buffer := by
  induction indices generalizing addr with
  | nil => exact ⟨rfl, rfl⟩
  | cons i indices ih =>
      have hnext : (addr + sectorSize) % sectorSize = 0 := by rw [Nat.add_mod_right, h]
      obtain ⟨haddrs, hdata⟩ := ih hnext
      rw [State.writeBuffers, crashDumpWrite_aligned h, List.singleton_append, List.map_cons, List.map_cons, haddrs,
        hdata]
      refine ⟨?_, rfl⟩
      rw [List.length_cons, List.range_succ_eq_map, List.map_cons, List.map_map, Nat.zero_mul, Nat.add_zero]
      refine congrArg _ (List.map_congr_left fun k _ => ?_)
      rw [Function.comp_apply, Nat.succ_mul]
      omega

theorem flatMap_pieces {first n : Nat} (h : first + n ≤ log.length / payloadSize) :
    ((List.range n).flatMap fun i => piece log (first + i)) =
      (log.drop (first * payloadSize)).take (n * payloadSize) := by
  induction n with
  | zero => rw [List.range_zero, List.flatMap_nil, Nat.zero_mul, List.take_zero]
  | succ n ih =>
      rw [List.range_succ, List.flatMap_append, ih (by omega), List.flatMap_singleton, piece, Nat.succ_mul,
        List.take_add, List.drop_drop, Nat.add_mul]

/-- What the ring has, from the oldest piece to the current one, is the end of the log. -/
theorem recent_eq (log : List UInt8) :
    ((List.range (log.length / payloadSize - firstPiece log)).flatMap fun i => piece log (firstPiece log + i)) ++
      piece log (log.length / payloadSize) = recent log := by
  have hle : firstPiece log ≤ log.length / payloadSize := Nat.sub_le _ _
  rw [flatMap_pieces (by omega), (piece_last log).1, recent, ← firstPiece]
  have hsplit : log.length / payloadSize * payloadSize = firstPiece log * payloadSize +
      (log.length / payloadSize - firstPiece log) * payloadSize := by
    rw [← Nat.add_mul, Nat.add_sub_cancel' hle]
  rw [hsplit, ← List.drop_drop, List.take_append_drop]

/-- The sectors that are written are those of the block from its start on, and behind their headers they have the end
of the log. -/
theorem Kept.writeTraceToFlash (h : Kept s log) (blk : Block) :
    (s.writeTraceToFlash blk).map (·.1) =
      (List.range (log.length / payloadSize + 1 - firstPiece log)).map (blk.startAddr + · * sectorSize) ∧
    (s.writeTraceToFlash blk).flatMap (·.2.drop LogDumpHeader.size) =
      recent log ++ List.replicate (payloadSize - log.length % payloadSize) 0 := by
  have hle : firstPiece log ≤ log.length / payloadSize := Nat.sub_le _ _
  have hfifteen : log.length / payloadSize ≤ firstPiece log + 15 := by
    rw [firstPiece]
    omega
  obtain ⟨haddrs, hdata⟩ := writeBuffers_eq s blk.aligned (writeOrder s)
  rw [writeTraceToFlash_eq]
  refine ⟨by rw [haddrs, h.writeOrder_eq, List.length_map, List.length_range], ?_⟩
  have hfull (i : Nat) (hi : i < log.length / payloadSize - firstPiece log) :
      (s.dataBufferList ((firstPiece log + i) % sectorBufferCount)).buffer.drop LogDumpHeader.size =
        piece log (firstPiece log + i) := by
    have hheld := h.held (firstPiece log + i) (by omega) (by simp only [sectorBufferCount]; omega)
    rw [hheld.bytes, length_piece_of_lt (by omega), Nat.sub_self, List.replicate_zero, List.append_nil]
  have hlast := h.current.bytes
  rw [State.dataBuff, h.wSeqnum, (piece_last log).2] at hlast
  calc
    (s.writeBuffers blk.startAddr (writeOrder s)).flatMap (·.2.drop LogDumpHeader.size)
    _ = (writeOrder s).flatMap fun i => (s.dataBufferList i).buffer.drop LogDumpHeader.size := by
      have hdropped := congrArg (List.flatMap (List.drop LogDumpHeader.size)) hdata
      rwa [List.flatMap_map, List.flatMap_map] at hdropped
    _ = ((List.range (log.length / payloadSize - firstPiece log)).flatMap fun i => piece log (firstPiece log + i)) ++
          (piece log (log.length / payloadSize) ++ List.replicate (payloadSize - log.length % payloadSize) 0) := by
      rw [h.writeOrder_eq, List.flatMap_map, Nat.succ_sub hle, List.range_succ, List.flatMap_append,
        List.flatMap_singleton, Nat.add_sub_cancel' hle, hlast]
      congr 1
      refine List.flatMap_congr fun i hi => ?_
      exact hfull i (List.mem_range.mp hi)
    _ = _ := by rw [← List.append_assoc, recent_eq]

/-! ### What is added up -/

theorem sum_ring (f : Nat → Nat) (n first : Nat) :
    ((List.range n).map fun i => f ((first + i) % n)).sum = ((List.range n).map f).sum := by
  induction first with
  | zero =>
      refine congrArg List.sum (List.map_congr_left fun i hi => ?_)
      rw [Nat.zero_add, Nat.mod_eq_of_lt (List.mem_range.mp hi)]
  | succ first ih =>
      rw [← ih]
      have hends : f (first % n) + ((List.range n).map fun i => f ((first + 1 + i) % n)).sum =
          ((List.range n).map fun i => f ((first + i) % n)).sum + f (first % n) := by
        have hhead : ((List.range (n + 1)).map fun i => f ((first + i) % n)).sum =
            f (first % n) + ((List.range n).map fun i => f ((first + 1 + i) % n)).sum := by
          rw [List.range_succ_eq_map, List.map_cons, List.sum_cons, List.map_map, Nat.add_zero]
          refine congrArg (f (first % n) + List.sum ·) (List.map_congr_left fun i _ => ?_)
          rw [Function.comp_apply, Nat.succ_eq_add_one, Nat.add_right_comm, Nat.add_assoc first i 1]
        rw [← hhead, List.range_succ, List.map_append, List.sum_append, List.map_singleton, List.sum_singleton,
          Nat.add_mod_right]
      omega

theorem Kept.sum_payloadLen (h : Kept s log) :
    ((List.range sectorBufferCount).map fun i => payloadLen (s.dataBufferList i)).sum = (recent log).length := by
  have hle : firstPiece log ≤ log.length / payloadSize := Nat.sub_le _ _
  have hfifteen : log.length / payloadSize ≤ firstPiece log + 15 := by
    rw [firstPiece]
    omega
  have hcurrent : (piece log (log.length / payloadSize)) =
      (List.range 1).flatMap fun i => piece log (firstPiece log + (log.length / payloadSize - firstPiece log + i)) := by
    rw [List.range_one, List.flatMap_singleton, Nat.add_zero, Nat.add_sub_cancel' hle]
  have hring : ((List.range (log.length / payloadSize + 1 - firstPiece log)).map fun i =>
      payloadLen (s.dataBufferList ((firstPiece log + i) % sectorBufferCount))).sum = (recent log).length := by
    rw [← recent_eq, List.length_append, List.length_flatMap, Nat.succ_sub hle, List.range_succ, List.map_append,
      List.sum_append, List.map_singleton, List.sum_singleton, Nat.add_sub_cancel' hle, ← h.wSeqnum]
    congr 1
    · refine congrArg List.sum (List.map_congr_left fun i hi => ?_)
      rw [List.mem_range] at hi
      exact (h.held (firstPiece log + i) (by omega) (by simp only [sectorBufferCount]; omega)).length_eq.symm
    · exact h.current.length_eq.symm
  rw [← hring]
  rcases Nat.lt_or_ge (log.length / payloadSize) sectorBufferCount with hfirst | hround
  · -- the buffers behind the current one have nothing
    have hzero : firstPiece log = 0 := by
      rw [firstPiece]
      simp only [sectorBufferCount] at hfirst
      omega
    have hsplit : List.range sectorBufferCount = List.range (log.length / payloadSize + 1) ++
        (List.range (sectorBufferCount - (log.length / payloadSize + 1))).map (log.length / payloadSize + 1 + ·) := by
      rw [← List.range_add, Nat.add_sub_cancel' hfirst]
    have hunused : ((List.range (sectorBufferCount - (log.length / payloadSize + 1))).map fun i =>
        payloadLen (s.dataBufferList (log.length / payloadSize + 1 + i))).sum = 0 := by
      have hnothing : ((List.range (sectorBufferCount - (log.length / payloadSize + 1))).map fun i =>
          payloadLen (s.dataBufferList (log.length / payloadSize + 1 + i))) =
          (List.range (sectorBufferCount - (log.length / payloadSize + 1))).map fun _ => 0 := by
        refine List.map_congr_left fun i hi => ?_
        rw [List.mem_range] at hi
        rw [h.unused _ (by omega) (by omega)]
        rfl
      rw [hnothing, List.map_const', List.sum_replicate_nat, Nat.mul_zero]
    rw [hsplit, List.map_append, List.sum_append, List.map_map, hzero, Nat.sub_zero]
    refine (congrArg (_ + ·) hunused).trans ?_
    rw [Nat.add_zero]
    refine congrArg List.sum (List.map_congr_left fun i hi => ?_)
    rw [List.mem_range] at hi
    rw [Nat.zero_add, Nat.mod_eq_of_lt (by omega)]
  · have hall : log.length / payloadSize + 1 - firstPiece log = sectorBufferCount := by
      rw [firstPiece]
      simp only [sectorBufferCount] at hround ⊢
      omega
    rw [hall]
    exact (sum_ring (fun i => payloadLen (s.dataBufferList i)) sectorBufferCount (firstPiece log)).symm

/-- Every buffer holds something once the last one of the first round does, as long as the current one does. -/
theorem Kept.countP_eq_zero_iff (h : Kept s log) :
    ((List.range sectorBufferCount).countP fun i => (s.dataBufferList i).offset ≤ LogDumpHeader.size) = 0 ↔
      15 * payloadSize < log.length ∧ log.length % payloadSize ≠ 0 := by
  have hlen := div_mul_add_mod log.length
  have hlt := Nat.mod_lt log.length payloadSize_pos
  rw [List.countP_eq_zero]
  constructor
  · intro hall
    have hround : 15 ≤ log.length / payloadSize := by
      refine Nat.le_of_not_lt fun hfirst => ?_
      have hlast := hall 15 (by decide)
      rw [h.unused 15 hfirst (by decide)] at hlast
      exact absurd hlast (by decide)
    have hpart : log.length % payloadSize ≠ 0 := by
      intro hzero
      have hcurrent := hall s.wSeqnum (List.mem_range.mpr (h.wSeqnum ▸ Nat.mod_lt _ (by decide)))
      have hlength := (piece_last log).2
      rw [hzero, List.length_eq_zero_iff] at hlength
      refine hcurrent (decide_eq_true ?_)
      rcases h.current.offset with hoffset | ⟨hoffset, -⟩
      · rw [hlength] at hoffset
        exact Nat.le_of_eq hoffset
      · rw [State.dataBuff] at hoffset
        rw [hoffset]
        exact Nat.zero_le _
    have hmany : 15 * payloadSize ≤ log.length / payloadSize * payloadSize := Nat.mul_le_mul_right _ hround
    exact ⟨by omega, hpart⟩
  · rintro ⟨hmany, hpart⟩ i hi hsmall
    have hround : 15 ≤ log.length / payloadSize := (Nat.le_div_iff_mul_le payloadSize_pos).mpr (Nat.le_of_lt hmany)
    rw [List.mem_range] at hi
    obtain ⟨j, hj, hj', rfl⟩ : ∃ j, j < log.length / payloadSize + 1 ∧
        log.length / payloadSize + 1 ≤ j + sectorBufferCount ∧ j % sectorBufferCount = i :=
      FlashRing.exists_entry hi (by simp only [sectorBufferCount] at hi; omega)
    have hj : j ≤ log.length / payloadSize := Nat.le_of_lt_succ hj
    have hheld := h.held j hj hj'
    have hpos : 0 < (piece log j).length := by
      rcases Nat.eq_or_lt_of_le hj with rfl | hlt
      · rw [(piece_last log).2]
        exact Nat.pos_of_ne_zero hpart
      · rw [length_piece_of_lt hlt]
        exact payloadSize_pos
    have hle := of_decide_eq_true hsmall
    rcases hheld.offset with hoffset | ⟨-, hnil⟩
    · omega
    · rw [hnil] at hpos
      exact Nat.lt_irrefl 0 hpos

/-- What a crash after these chunks adds up and writes: the end of the trace that the ring has, in order, and its
length. -/
def DumpsExactly (blk : Block) (chunks : List (List UInt8)) : Prop :=
  ∃ s, State.initial.traceOutput chunks = some s ∧
    (s.clacTraceTotalLen.writeTraceToFlash blk).map (·.1) =
      (List.range (chunks.flatten.length / payloadSize + 1 - firstPiece chunks.flatten)).map
        (blk.startAddr + · * sectorSize) ∧
    (s.clacTraceTotalLen.writeTraceToFlash blk).flatMap (·.2.drop LogDumpHeader.size) =
      recent chunks.flatten ++ List.replicate (payloadSize - chunks.flatten.length % payloadSize) 0 ∧
    s.clacTraceTotalLen.totalLen = (recent chunks.flatten).length

theorem length_recent_le (log : List UInt8) : (recent log).length ≤ sectorBufferCount * payloadSize := by
  have hlen := div_mul_add_mod log.length
  have hlt := Nat.mod_lt log.length payloadSize_pos
  rw [recent, List.length_drop]
  generalize log.length / payloadSize = k at *
  have hfifteen : k * payloadSize ≤ (k - 15) * payloadSize + 15 * payloadSize := by
    rw [← Nat.add_mul]
    exact Nat.mul_le_mul_right _ (by omega)
  simp only [sectorBufferCount]
  omega

/-- A header that is taken off too much shows in the sum. -/
theorem sum_headers_iff {m header len count : Nat} (hheader : header ≤ m) (hpos : 0 < header)
    (hlen : len + header * count < m) : (len + count * (m - header)) % m = len ↔ count = 0 := by
  constructor
  · intro hsum
    have hback : len + count * (m - header) + header * count = len + count * m := by
      rw [Nat.add_assoc, Nat.mul_comm header, ← Nat.mul_add, Nat.sub_add_cancel hheader]
    have hsame : (len + header * count) % m = len % m := by
      rw [← Nat.add_mul_mod_self_right len count m, ← hback, ← Nat.mod_add_mod (len + _), hsum]
    rw [Nat.mod_eq_of_lt hlen, Nat.mod_eq_of_lt (by omega)] at hsame
    exact (Nat.mul_eq_zero.mp (by omega)).resolve_left (Nat.ne_of_gt hpos)
  · rintro rfl
    rw [Nat.zero_mul, Nat.add_zero, Nat.mod_eq_of_lt (by omega)]

theorem Kept.totalLen (h : Kept s log) :
    s.clacTraceTotalLen.totalLen = (recent log).length ↔
      15 * payloadSize < log.length ∧ log.length % payloadSize ≠ 0 := by
  have hbound := length_recent_le log
  have hzero : Kept { s with totalLen := 0 } log := ⟨h.wSeqnum, h.held, h.unused⟩
  have htotal := totalLen_foldl { s with totalLen := 0 } sectorBufferCount rfl
  have hcount := List.countP_le_length (p := fun i => ({ s with totalLen := 0 }.dataBufferList i).offset ≤
    LogDumpHeader.size) (l := List.range sectorBufferCount)
  rw [List.length_range] at hcount
  have hroom : LogDumpHeader.size * sectorBufferCount + sectorBufferCount * payloadSize < 2 ^ 32 := by decide
  have hheaders := Nat.mul_le_mul_left LogDumpHeader.size hcount
  rw [hzero.sum_payloadLen] at htotal
  rw [← hzero.countP_eq_zero_iff, State.clacTraceTotalLen, htotal]
  exact sum_headers_iff (by decide) (by decide) (by omega)

/-- The sum is right if all buffers are in use and the current one holds something; what is written always is. -/
theorem dumpsExactly_iff (blk : Block) (chunks : List (List UInt8)) :
    DumpsExactly blk chunks ↔
      15 * payloadSize < chunks.flatten.length ∧ chunks.flatten.length % payloadSize ≠ 0 := by
  obtain ⟨s, hs, hkept⟩ := kept_initial.traceOutput chunks
  rw [List.nil_append] at hkept
  obtain ⟨haddrs, hdata⟩ := hkept.clacTraceTotalLen.writeTraceToFlash blk
  rw [← hkept.totalLen]
  constructor
  · rintro ⟨t, ht, -, -, htotal⟩
    obtain rfl := Option.some.inj (hs.symm.trans ht)
    exact htotal
  · exact fun htotal => ⟨s, hs, haddrs, hdata, htotal⟩

/-- After a single byte the length that is added up is wrong. -/
theorem oneByte_not_exact : ¬DumpsExactly ⟨0, rfl⟩ [[65]] := by
  rintro ⟨t, ht, -, -, htotal⟩
  obtain ⟨s, hs, hkept⟩ := kept_initial.traceOutput [[65]]
  obtain rfl := Option.some.inj (hs.symm.trans ht)
  have hmany : 15 * payloadSize < 1 := (hkept.totalLen.mp htotal).1
  exact absurd hmany (by decide)

end Best1307.CrashDump
