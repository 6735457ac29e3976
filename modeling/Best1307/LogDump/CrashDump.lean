import Best1307.LogDump.Sector

/-!
# The trace in a crash dump

`tota_crash_dump_tool.c`: the trace goes round in sixteen sector buffers, each with a header. A crash adds up what they
hold and writes them to the flash, the oldest first.
-/

namespace Best1307.CrashDump

open LogDump (DataBuffer LogDumpHeader memcpy sectorSize sectorBufferCount)

/-! ### The state -/

/-- `data_buffer_list`, `crash_dump_w_seqnum` and `total_len` -/
structure State where
  dataBufferList : Nat → DataBuffer
  wSeqnum : Nat
  totalLen : Nat

/-- What `memset` makes of a buffer. -/
def zeroBuffer : DataBuffer := ⟨.free, 0, List.replicate sectorSize 0⟩

def State.initial : State := ⟨fun _ => zeroBuffer, 0, 0⟩

/-- `cur_blk_start_addr`, where a sector starts. -/
structure Block where
  startAddr : Nat
  aligned : startAddr % sectorSize = 0

/-- The next index, where the last one is followed by the first. -/
def nextSeqnum (i : Nat) : Nat := if i + 1 = sectorBufferCount then 0 else i + 1

namespace State

variable (s : State)

def dataBuff : DataBuffer := s.dataBufferList s.wSeqnum

def setDataBuff (dataBuff : DataBuffer) : State :=
  { s with dataBufferList := Function.update s.dataBufferList s.wSeqnum dataBuff }

/-! ### `crash_dump_trace_output_handler` -/

def putHeader : State :=
  if s.dataBuff.offset = 0 then
    s.setDataBuff { s.dataBuff with
      offset := s.dataBuff.offset + LogDumpHeader.size
      buffer := memcpy s.dataBuff.buffer s.dataBuff.offset (LogDumpHeader.filled 0 false).bytes }
  else s

def writeLen (remainLen : Nat) : Nat :=
  if sectorSize < s.dataBuff.offset + remainLen then sectorSize - s.dataBuff.offset else remainLen

def putBytes (bytes : List UInt8) : State :=
  s.setDataBuff { s.dataBuff with
    offset := s.dataBuff.offset + bytes.length
    buffer := memcpy s.dataBuff.buffer s.dataBuff.offset bytes }

def takeNext : State :=
  { s with
    wSeqnum := nextSeqnum s.wSeqnum
    dataBufferList := Function.update s.dataBufferList (nextSeqnum s.wSeqnum) zeroBuffer }

/-- The loop on what remains of the chunk, if it takes no more than `turns` turns. -/
def outputLoop : Nat → State → List UInt8 → Option State
  | 0, _, _ => none
  | turns + 1, s, remain =>
      let s := s.putHeader
      let writeLen := s.writeLen remain.length
      let s := s.putBytes (remain.take writeLen)
      let remain := remain.drop writeLen
      let s := if s.dataBuff.offset = sectorSize then s.takeNext else s
      if remain = [] then some s else outputLoop turns s remain

/-- `crash_dump_trace_output_handler`. Each turn but the last stores something. -/
def traceOutputHandler (buf : List UInt8) : Option State := outputLoop (buf.length + 1) s buf

def traceOutput : State → List (List UInt8) → Option State
  | s, [] => some s
  | s, buf :: chunks => (s.traceOutputHandler buf).bind fun s => traceOutput s chunks

/-! ### The crash -/

/-- A turn of `crash_dump_clac_trace_total_len`. -/
def addTraceLen (i : Nat) : State :=
  let dataBuff := s.dataBufferList i
  let offset := if dataBuff.offset ≤ LogDumpHeader.size then 0 else dataBuff.offset
  { s with
    dataBufferList := Function.update s.dataBufferList i { dataBuff with offset }
    totalLen := (s.totalLen + (offset + 2 ^ 32 - LogDumpHeader.size)) % 2 ^ 32 }

/-- `crash_dump_clac_trace_total_len` -/
def clacTraceTotalLen : State := (List.range sectorBufferCount).foldl addTraceLen { s with totalLen := 0 }

/-- `crash_dump_write`, which takes whole sectors only: what it writes, and where. -/
def crashDumpWrite (addr : Nat) (data : List UInt8) : List (Nat × List UInt8) :=
  if (addr + sectorSize - 1) / sectorSize * sectorSize ≠ addr then [] else [(addr, data)]

/-- The buffers at these indices, from `addr` on. -/
def writeBuffers : Nat → List Nat → List (Nat × List UInt8)
  | _, [] => []
  | addr, i :: indices => crashDumpWrite addr (s.dataBufferList i).buffer ++ writeBuffers (addr + sectorSize) indices

/-- `crash_dump_write_trace_to_flash` -/
def writeTraceToFlash (blk : Block) : List (Nat × List UInt8) :=
  let dumpWSeqnum := nextSeqnum s.wSeqnum
  let dataBuff := s.dataBufferList dumpWSeqnum
  if dataBuff.offset = 0 ∨ dumpWSeqnum = 0 then s.writeBuffers blk.startAddr (List.range (s.wSeqnum + 1))
  else
    s.writeBuffers blk.startAddr
      ((List.range (sectorBufferCount - dumpWSeqnum)).map (dumpWSeqnum + ·) ++ List.range (s.wSeqnum + 1))

end State

end Best1307.CrashDump
