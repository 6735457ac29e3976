import Mathlib.Algebra.Group.Nat.Defs
import Best1307.Lib.ByteRing

/-!
# The stream buffer

`tota_buffer_manager.cpp`: the bytes to be sent wait in a ring. The functions hold a mutex from beginning to end, so
that each of them is one step. A write wants more space than it fills, and a read more data than it takes.
-/

namespace Best1307.TotaStream

open WrapBuffer ByteRing

/-- `TOTA_STREAM_BUF_SIZE` -/
def streamBufSize : Nat := 1 * 1024 * 2 * 1 * 1

structure StreamBuf where
  buf : Nat → UInt8
  dataSize : Nat
  availableSpace : Nat
  writePos : Nat
  readPos : Nat
  flushBytes : Nat

/-- `uint32_t` sums and differences -/
def add32 (a b : Nat) : Nat := (a + b) % 2 ^ 32

def sub32 (a b : Nat) : Nat := (a + (2 ^ 32 - b % 2 ^ 32)) % 2 ^ 32

namespace StreamBuf

/-- `tota_stream_buffer_init`: the bytes stay what they were. -/
def init (buf : Nat → UInt8) : StreamBuf where
  buf := buf
  dataSize := 0
  availableSpace := streamBufSize
  readPos := 0
  writePos := 0
  flushBytes := 0

/-- `tota_stream_buffer_write` -/
def write (s : StreamBuf) (data : List UInt8) : StreamBuf × Bool :=
  let bufLen := data.length
  if bufLen < s.availableSpace then
    let (buf, writePos) :=
      if add32 s.writePos bufLen ≤ streamBufSize then
        let writePos := add32 s.writePos bufLen
        (WrapBuffer.write s.buf s.writePos data, if writePos = streamBufSize then 0 else writePos)
      else
        let part1 := sub32 streamBufSize s.writePos
        (WrapBuffer.write (WrapBuffer.write s.buf s.writePos (data.take part1)) 0 (data.drop part1),
          sub32 bufLen part1)
    ({ s with
      buf := buf
      writePos := writePos
      dataSize := add32 s.dataSize bufLen
      availableSpace := sub32 s.availableSpace bufLen }, true)
  else (s, false)

/-- `tota_stream_buffer_read`, with what it stores at `rbuf` and, unless that is `NULL`, at `flushbytes`. -/
def read (s : StreamBuf) (readSize : Nat) (flushbytes : Bool) : StreamBuf × Option (List UInt8 × Option Nat) :=
  if readSize < s.dataSize then
    let (rbuf, readPos) :=
      if add32 s.readPos readSize ≤ streamBufSize then
        let readPos := add32 s.readPos readSize
        (WrapBuffer.read s.buf s.readPos readSize, if readPos = streamBufSize then 0 else readPos)
      else
        let part1 := sub32 streamBufSize s.readPos
        (WrapBuffer.read s.buf s.readPos part1 ++ WrapBuffer.read s.buf 0 (sub32 readSize part1),
          sub32 readSize part1)
    let s' : StreamBuf := { s with
      readPos := readPos
      dataSize := sub32 s.dataSize readSize
      availableSpace := add32 s.availableSpace readSize }
    if flushbytes then ({ s' with flushBytes := 0 }, some (rbuf, some s.flushBytes)) else (s', some (rbuf, none))
  else (s, none)

/-- `tota_stream_buffer_flush` -/
def flush (s : StreamBuf) : StreamBuf :=
  { s with
    flushBytes := s.dataSize
    availableSpace := streamBufSize
    dataSize := 0
    readPos := 0
    writePos := 0 }

/-- `tota_stream_buffer_clean` -/
def clean (s : StreamBuf) : StreamBuf :=
  { s with
    flushBytes := 0
    availableSpace := streamBufSize
    dataSize := 0
    readPos := 0
    writePos := 0 }

def contents (s : StreamBuf) : List UInt8 := copyOut streamBufSize s.readPos s.dataSize s.buf

end StreamBuf

inductive Op
  | write (data : List UInt8)
  | read (readSize : Nat) (flushbytes : Bool)
  | flush
  | clean
  deriving DecidableEq, Repr

/-- The buffer, with the bytes that were written and those that were read since it was last emptied. -/
structure Session where
  buffer : StreamBuf
  written : List UInt8
  taken : List UInt8

namespace Session

def start (buf : Nat → UInt8) : Session := ⟨.init buf, [], []⟩

def call (s : Session) : Op → Session × Bool
  | .write data =>
      let (buffer, ok) := s.buffer.write data
      ({ s with buffer := buffer, written := if ok then s.written ++ data else s.written }, ok)
  | .read readSize flushbytes =>
      match s.buffer.read readSize flushbytes with
      | (buffer, some (rbuf, _)) => ({ s with buffer := buffer, taken := s.taken ++ rbuf }, true)
      | (buffer, none) => ({ s with buffer := buffer }, false)
  | .flush => (⟨s.buffer.flush, [], []⟩, true)
  | .clean => (⟨s.buffer.clean, [], []⟩, true)

def run (s : Session) (ops : List Op) : Session := ops.foldl (fun s op => (s.call op).1) s

end Session

/-! ### The queue behind the buffer -/

structure Represents (s : StreamBuf) (queue : List UInt8) : Prop where
  queued : Queued streamBufSize s.readPos s.buf queue
  readPos_lt : s.readPos < streamBufSize
  writePos_eq : s.writePos = (s.readPos + queue.length) % streamBufSize
  dataSize_eq : s.dataSize = queue.length
  space : queue.length + s.availableSpace = streamBufSize

section Arithmetic

variable {a b : Nat}

theorem add32_eq (h : a + b < 2 ^ 32) : add32 a b = a + b := Nat.mod_eq_of_lt h

theorem sub32_eq (hle : b ≤ a) (ha : a < 2 ^ 32) : sub32 a b = a - b := by
  rw [sub32]
  omega

/-- A position behind which `b` bytes went, where the ring ends and begins again. -/
theorem next_eq_mod (ha : a < streamBufSize) (hb : b < streamBufSize) :
    (if add32 a b ≤ streamBufSize then if add32 a b = streamBufSize then 0 else add32 a b
      else sub32 b (sub32 streamBufSize a)) = (a + b) % streamBufSize := by
  have hsize : streamBufSize < 2 ^ 31 := by decide
  rw [add32_eq (by omega)]
  split
  case isTrue hle =>
    split
    case isTrue heq => rw [heq, Nat.mod_self]
    case isFalse hne => rw [Nat.mod_eq_of_lt (by omega)]
  case isFalse hgt =>
    have hpart : sub32 streamBufSize a = streamBufSize - a := sub32_eq (by omega) (by omega)
    rw [hpart, sub32_eq (by omega) (by omega), Nat.mod_eq_sub_mod (by omega), Nat.mod_eq_of_lt (by omega)]
    omega

end Arithmetic

namespace Represents

variable {s : StreamBuf} {queue : List UInt8}

theorem emptied (hread : s.readPos = 0) (hwrite : s.writePos = 0) (hdata : s.dataSize = 0)
    (hspace : s.availableSpace = streamBufSize) : Represents s [] where
  queued := fun i hi => absurd hi (Nat.not_lt_zero i)
  readPos_lt := hread ▸ by decide
  writePos_eq := by rw [hwrite, hread]; rfl
  dataSize_eq := hdata
  space := (Nat.zero_add _).trans hspace

theorem contents_eq (h : Represents s queue) : s.contents = queue := by
  have hspace := h.space
  rw [StreamBuf.contents, h.dataSize_eq, h.queued.copyOut_eq h.readPos_lt (Nat.le_refl _) (by omega), List.take_length]

theorem writePos_lt (h : Represents s queue) : s.writePos < streamBufSize := by
  rw [h.writePos_eq]
  exact Nat.mod_lt _ (by decide)

theorem write_pieces (h : Represents s queue) {data : List UInt8} (hfit : data.length < s.availableSpace) :
    (if add32 s.writePos data.length ≤ streamBufSize then WrapBuffer.write s.buf s.writePos data
      else WrapBuffer.write (WrapBuffer.write s.buf s.writePos (data.take (sub32 streamBufSize s.writePos))) 0
        (data.drop (sub32 streamBufSize s.writePos))) = copyIn streamBufSize s.writePos data s.buf := by
  have hsize : streamBufSize < 2 ^ 31 := by decide
  have hpos := h.writePos_lt
  have hspace := h.space
  rw [copyIn, add32_eq (by omega), sub32_eq (by omega) (by omega)]
  by_cases hin : data.length ≤ streamBufSize - s.writePos
  · rw [if_pos (by omega), if_pos hin, if_neg (Nat.lt_irrefl _), List.take_length]
  · rw [if_neg (by omega), if_neg hin, if_pos (by omega)]

theorem read_pieces (h : Represents s queue) {n : Nat} (hn : n < s.dataSize) :
    (if add32 s.readPos n ≤ streamBufSize then WrapBuffer.read s.buf s.readPos n
      else WrapBuffer.read s.buf s.readPos (sub32 streamBufSize s.readPos) ++
        WrapBuffer.read s.buf 0 (sub32 n (sub32 streamBufSize s.readPos))) = queue.take n := by
  have hsize : streamBufSize < 2 ^ 31 := by decide
  have hpos := h.readPos_lt
  have hspace := h.space
  have hdata := h.dataSize_eq
  have hpart : sub32 streamBufSize s.readPos = streamBufSize - s.readPos := sub32_eq (by omega) (by omega)
  rw [← h.queued.copyOut_eq hpos (by omega) (by omega), copyOut, add32_eq (by omega), hpart]
  split
  case isTrue => rfl
  case isFalse hwrap => rw [sub32_eq (by omega) (by omega)]

theorem write (h : Represents s queue) {data : List UInt8} (hfit : data.length < s.availableSpace) :
    Represents (s.write data).1 (queue ++ data) := by
  have hsize : streamBufSize < 2 ^ 31 := by decide
  have hpos := h.writePos_lt
  have hspace := h.space
  have hdata := h.dataSize_eq
  have hbuf := h.write_pieces hfit
  have hnext := next_eq_mod hpos (show data.length < streamBufSize by omega)
  have hwrite : (s.write data).1 = { s with
      buf := copyIn streamBufSize s.writePos data s.buf
      writePos := (s.writePos + data.length) % streamBufSize
      dataSize := add32 s.dataSize data.length
      availableSpace := sub32 s.availableSpace data.length } := by
    rw [← hbuf, ← hnext, StreamBuf.write, if_pos hfit]
    by_cases hle : add32 s.writePos data.length ≤ streamBufSize
    · simp only [if_pos hle]
    · simp only [if_neg hle]
  rw [hwrite]
  exact {
    queued := by
      rw [h.writePos_eq]
      exact h.queued.copyIn data (by omega) (by omega)
    readPos_lt := h.readPos_lt
    writePos_eq := by
      dsimp only
      rw [h.writePos_eq, Nat.mod_add_mod, List.length_append, Nat.add_assoc]
    dataSize_eq := by
      dsimp only
      rw [add32_eq (by omega), hdata, List.length_append]
    space := by
      dsimp only
      rw [sub32_eq (by omega) (by omega), List.length_append]
      omega }

theorem read (h : Represents s queue) {n : Nat} (hn : n < s.dataSize) (flushbytes : Bool) :
    ∃ s' told, s.read n flushbytes = (s', some (queue.take n, told)) ∧ Represents s' (queue.drop n) := by
  have hsize : streamBufSize < 2 ^ 31 := by decide
  have hpos := h.readPos_lt
  have hspace := h.space
  have hdata := h.dataSize_eq
  have hbuf := h.read_pieces hn
  have hnext := next_eq_mod hpos (show n < streamBufSize by omega)
  have hread : s.read n flushbytes = ({ s with
      readPos := (s.readPos + n) % streamBufSize
      dataSize := sub32 s.dataSize n
      availableSpace := add32 s.availableSpace n
      flushBytes := if flushbytes then 0 else s.flushBytes },
      some (queue.take n, if flushbytes then some s.flushBytes else none)) := by
    rw [← hbuf, ← hnext, StreamBuf.read, if_pos hn]
    by_cases hle : add32 s.readPos n ≤ streamBufSize
    · simp only [if_pos hle]
      cases flushbytes <;> rfl
    · simp only [if_neg hle]
      cases flushbytes <;> rfl
  refine ⟨_, _, hread, ?_⟩
  exact {
    queued := h.queued.drop n
    readPos_lt := Nat.mod_lt _ (by omega)
    writePos_eq := by
      dsimp only
      have hlen : n + (queue.drop n).length = queue.length := by rw [List.length_drop]; omega
      rw [h.writePos_eq, Nat.mod_add_mod, Nat.add_assoc, hlen]
    dataSize_eq := by
      dsimp only
      rw [sub32_eq (by omega) (by omega), hdata, List.length_drop]
    space := by
      dsimp only
      rw [add32_eq (by omega), List.length_drop]
      omega }

end Represents

/-! ### Whole runs -/

namespace Session

/-- The buffer holds what was written and not yet read. -/
def Inv (s : Session) : Prop := ∃ queue, Represents s.buffer queue ∧ s.taken ++ queue = s.written

theorem inv_start (buf : Nat → UInt8) : (start buf).Inv := ⟨[], .emptied rfl rfl rfl rfl, rfl⟩

variable {s : Session}

theorem call_write {data : List UInt8} (hfit : data.length < s.buffer.availableSpace) :
    s.call (.write data) = (⟨(s.buffer.write data).1, s.written ++ data, s.taken⟩, true) := by
  have hok : (s.buffer.write data).2 = true := by rw [StreamBuf.write, if_pos hfit]
  rw [call]
  simp only [hok, if_true]

theorem Inv.call (h : s.Inv) (op : Op) : (s.call op).1.Inv := by
  obtain ⟨queue, hrep, hlog⟩ := h
  cases op with
  | write data =>
      by_cases hfit : data.length < s.buffer.availableSpace
      · rw [call_write hfit]
        refine ⟨queue ++ data, hrep.write hfit, ?_⟩
        dsimp only
        rw [← hlog, List.append_assoc]
      · rw [Session.call, StreamBuf.write, if_neg hfit]
        exact ⟨queue, hrep, hlog⟩
  | read readSize flushbytes =>
      rw [Session.call]
      by_cases hn : readSize < s.buffer.dataSize
      · obtain ⟨s', told, hread, hrep'⟩ := hrep.read hn flushbytes
        rw [hread]
        refine ⟨queue.drop readSize, hrep', ?_⟩
        dsimp only
        rw [List.append_assoc, List.take_append_drop, hlog]
      · rw [StreamBuf.read, if_neg hn]
        exact ⟨queue, hrep, hlog⟩
  | flush => exact ⟨[], .emptied rfl rfl rfl rfl, rfl⟩
  | clean => exact ⟨[], .emptied rfl rfl rfl rfl, rfl⟩

theorem Inv.run (h : s.Inv) (ops : List Op) : (s.run ops).Inv := by
  induction ops generalizing s with
  | nil => exact h
  | cons op ops ih => exact ih (h.call op)

/-- A call fails for lack of space or of data, and then it has changed nothing. -/
theorem call_fails {op : Op} (hfail : (s.call op).2 = false) :
    (s.call op).1 = s ∧ ((∃ data, op = .write data ∧ s.buffer.availableSpace ≤ data.length) ∨
      ∃ readSize flushbytes, op = .read readSize flushbytes ∧ s.buffer.dataSize ≤ readSize) := by
  cases op with
  | write data =>
      rw [call, StreamBuf.write] at hfail ⊢
      by_cases hfit : data.length < s.buffer.availableSpace
      · rw [if_pos hfit] at hfail
        exact absurd hfail (by simp)
      · rw [if_neg hfit]
        exact ⟨rfl, .inl ⟨data, rfl, Nat.le_of_not_lt hfit⟩⟩
  | read readSize flushbytes =>
      rw [call, StreamBuf.read] at hfail ⊢
      by_cases hn : readSize < s.buffer.dataSize
      · rw [if_pos hn] at hfail
        cases flushbytes <;> exact absurd hfail (by simp)
      · rw [if_neg hn]
        exact ⟨rfl, .inr ⟨readSize, flushbytes, rfl, Nat.le_of_not_lt hn⟩⟩
  | flush => exact absurd hfail (by simp [call])
  | clean => exact absurd hfail (by simp [call])

/-- The buffer is first in, first out: what has space is written, and what is there is read, from the oldest byte on. -/
structure IsFifo (s : Session) : Prop where
  inOrder : s.taken ++ s.buffer.contents = s.written
  total : s.buffer.dataSize + s.buffer.availableSpace = streamBufSize
  inside : s.buffer.readPos < streamBufSize ∧ s.buffer.writePos < streamBufSize
  writes : ∀ data, data.length < s.buffer.availableSpace →
    (s.call (.write data)).2 = true ∧ (s.call (.write data)).1.written = s.written ++ data ∧
      (s.call (.write data)).1.taken = s.taken
  reads : ∀ readSize flushbytes, readSize < s.buffer.dataSize →
    (s.call (.read readSize flushbytes)).2 = true ∧ (s.call (.read readSize flushbytes)).1.written = s.written ∧
      (s.call (.read readSize flushbytes)).1.taken = s.taken ++ s.buffer.contents.take readSize
  unchanged : ∀ op, (s.call op).2 = false → (s.call op).1 = s

theorem run_isFifo (buf : Nat → UInt8) (ops : List Op) : ((start buf).run ops).IsFifo := by
  obtain ⟨queue, hrep, hlog⟩ := (inv_start buf).run ops
  exact {
    inOrder := by rw [hrep.contents_eq, hlog]
    total := by rw [hrep.dataSize_eq, hrep.space]
    inside := ⟨hrep.readPos_lt, hrep.writePos_lt⟩
    writes := fun data hfit => by
      rw [call_write hfit]
      exact ⟨rfl, rfl, rfl⟩
    reads := fun readSize flushbytes hn => by
      obtain ⟨s', told, hread, -⟩ := hrep.read hn flushbytes
      rw [call, hread, hrep.contents_eq]
      exact ⟨rfl, rfl, rfl⟩
    unchanged := fun op hfail => (call_fails hfail).1 }

/-- Both the second write and the second read come around. -/
theorem run_isFifo_around :
    let first := List.replicate 1500 (1 : UInt8)
    let second := List.replicate 1000 (2 : UInt8)
    let s := (start fun _ => 0).run [.write first, .read 1400 false, .write second, .read 1000 true]
    s.buffer.readPos = 352 ∧ s.buffer.writePos = 452 ∧ s.buffer.dataSize = 100 ∧
      s.taken = (first ++ second).take 2400 ∧ s.IsFifo := by
  intro first second s
  have hfifo : s.IsFifo := run_isFifo (fun _ => 0) _
  have hwritten : s.written = first ++ second := by decide +kernel
  have hlength : s.taken.length = 2400 := by decide +kernel
  refine ⟨by decide +kernel, by decide +kernel, by decide +kernel, ?_, hfifo⟩
  rw [← hwritten, ← hfifo.inOrder, List.take_left' hlength]

end Session

end Best1307.TotaStream
