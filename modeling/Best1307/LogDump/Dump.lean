import Best1307.Lib.FlashRing
import Best1307.Lib.Framing
import Best1307.Lib.Run
import Best1307.NvRecord.Flush

/-!
# The log dump

`log_section.c`: the trace output is collected in sixteen sector buffers, each headed by a sequence number, and
`norflash_api` is given the full ones to write to the sectors of the log partition, round and round. At boot
`_get_seqnum` looks for the highest number on the flash.

`log_dump_output_handler` is one step, `_log_dump_flush_remain` one for every turn of its loop. A sector is
erased or written when the flash gets to it; until then a power cut finds the old content, and while it is
being worked on, any content.
-/

namespace Best1307.LogDump

open FlashQueue Framing
open NvRecord (NorflashRet)

/-! ### Sectors -/

/-- `LOG_DUMP_SECTOR_SIZE` -/
def sectorSize : Nat := 0x1000

/-- `LOG_DUMP_SECTOR_BUFFER_COUNT` -/
def sectorBufferCount : Nat := 16

def dumpLogMagic : UInt32 := 0xd5151001

def dumpLogVersion : UInt32 := 0x00010001

/-- The partition between `__log_dump_start` and `__log_dump_end`. -/
structure Config where
  sectorCount : Nat
  sectorCount_pos : 0 < sectorCount

structure LogDumpHeader where
  magic : UInt32
  version : UInt32
  seqnum : UInt32
  isBootup : UInt8
  reseved : List UInt8

def bytes32 (x : UInt32) : List UInt8 :=
  [UInt8.ofNat x.toNat, UInt8.ofNat (x.toNat / 0x100), UInt8.ofNat (x.toNat / 0x10000),
    UInt8.ofNat (x.toNat / 0x1000000)]

def read32 (bytes : List UInt8) (offset : Nat) : UInt32 :=
  UInt32.ofNat ((slice bytes offset 4).foldr (fun byte rest => byte.toNat + 0x100 * rest) 0)

namespace LogDumpHeader

/-- `sizeof(LOG_DUMP_HEADER)` -/
def size : Nat := 16

def bytes (h : LogDumpHeader) : List UInt8 :=
  bytes32 h.magic ++ bytes32 h.version ++ bytes32 h.seqnum ++ [h.isBootup] ++ h.reseved

/-- A sector begins with its header. -/
def read (sector : List UInt8) : LogDumpHeader where
  magic := read32 sector 0
  version := read32 sector 4
  seqnum := read32 sector 8
  isBootup := sector.getD 12 0
  reseved := slice sector 13 3

/-- The test of `_get_seqnum`. -/
def Existed (h : LogDumpHeader) : Prop := h.magic = dumpLogMagic ∧ h.version = dumpLogVersion

instance (h : LogDumpHeader) : Decidable h.Existed := inferInstanceAs (Decidable (_ ∧ _))

/-- `log_header` as `log_dump_output_handler` fills it in. -/
def filled (seqnum : UInt32) (isBootup : Bool) : LogDumpHeader where
  magic := dumpLogMagic
  version := dumpLogVersion
  seqnum := seqnum
  isBootup := if isBootup then 1 else 0
  reseved := [0, 0, 10]

end LogDumpHeader

def shown (sector : List UInt8) : Option Nat :=
  if (LogDumpHeader.read sector).Existed then some (LogDumpHeader.read sector).seqnum.toNat else none

def erasedSector : List UInt8 := List.replicate sectorSize 0xFF

def program (offset : Nat) (data sector : List UInt8) : List UInt8 :=
  sector.take offset ++ List.zipWith (· &&& ·) data (sector.drop offset) ++ sector.drop (offset + data.length)

def memcpy (dst : List UInt8) (offset : Nat) (src : List UInt8) : List UInt8 :=
  dst.take offset ++ src ++ dst.drop (offset + src.length)

/-! ### `_get_seqnum` -/

/-- `max_dump_seqnum`, `max_sector_seqnum` and `is_existed`. -/
structure Scan where
  maxDumpSeqnum : UInt32
  maxSectorSeqnum : Nat
  isExisted : Bool

def Scan.sector (flash : Nat → List UInt8) (scan : Scan) (i : Nat) : Scan :=
  let header := LogDumpHeader.read (flash i)
  if header.Existed then
    if scan.maxDumpSeqnum < header.seqnum then ⟨header.seqnum, i, true⟩ else { scan with isExisted := true }
  else scan

/-- `_get_seqnum`: `dump_seqnum` and `sector_seqnum`. -/
def getSeqnum (cfg : Config) (flash : Nat → List UInt8) : UInt32 × Nat :=
  let scan := (List.range cfg.sectorCount).foldl (Scan.sector flash) ⟨0, 0, false⟩
  if scan.isExisted then
    (scan.maxDumpSeqnum + 1, if cfg.sectorCount ≤ scan.maxSectorSeqnum + 1 then 0 else scan.maxSectorSeqnum + 1)
  else (0, 0)

/-! ### The state -/

/-- `DATA_BUFFER_STATE_FREE`, `.._WRITTING` and `.._WRITTEN` -/
inductive BufferState
  | free
  | writting
  | written
  deriving DecidableEq

def BufferState.bits : BufferState → UInt32
  | .free => 0
  | .writting => 1
  | .written => 2

structure DataBuffer where
  state : BufferState
  offset : Nat
  buffer : List UInt8
  deriving DecidableEq

/-- `enum LOG_DUMP_FLUSH_STATE` -/
inductive FlushState
  | idle
  | erased
  | writting
  | written
  deriving DecidableEq

/-- The statics of `log_section.c`, from `log_dump_init` on, and the flash by sectors. The last five are history:
what `log_dump_init` resumed with, the buffers marked written since and the offsets and bytes the flash was given
since and in earlier boots, and the losses reported. -/
structure State where
  dataBufferList : Nat → DataBuffer
  wSeqnum : Nat
  fSeqnum : Nat
  flashOffs : Nat
  curDumpSeqnum : UInt32
  isImmediately : Bool
  isBootup : Bool
  flashState : FlushState
  flash : Device Nat (List UInt8)
  resumed : UInt32 × Nat
  marked : List (List UInt8)
  handed : List (Nat × List UInt8)
  earlier : List (Nat × List UInt8)
  lost : List Nat

/-- `log_dump_init`, on what the flash holds. -/
def logDumpInit (cfg : Config) (flash : Nat → List UInt8) (earlier : List (Nat × List UInt8)) : State where
  dataBufferList _ := ⟨.free, 0, List.replicate sectorSize 0⟩
  wSeqnum := 0
  fSeqnum := 0
  flashOffs := (getSeqnum cfg flash).2 * sectorSize
  curDumpSeqnum := (getSeqnum cfg flash).1
  isImmediately := false
  isBootup := true
  flashState := .idle
  flash := ⟨flash, [], none⟩
  resumed := getSeqnum cfg flash
  marked := []
  handed := []
  earlier := earlier
  lost := []

namespace State

variable (cfg : Config) (s : State)

/-- The next index, where the last one is followed by the first. -/
def nextSeqnum (i : Nat) : Nat := if i + 1 = sectorBufferCount then 0 else i + 1

/-! ### `_log_dump_flush` -/

/-- What `_flash_api_erase` and `_flash_api_write` return when `norflash_api` answers `ret` first: unless the call is
asynchronous, they ask until they are taken. -/
def flashApiRet (isAsync : Bool) (ret : NorflashRet) : NorflashRet :=
  if isAsync && !s.isImmediately then ret else .ok

def eraseOk : State :=
  { s with
    flash := s.flash.enqueue ⟨s.flashOffs / sectorSize, fun _ => erasedSector⟩
    flashState := .erased }

/-- The write of the buffer at `log_dump_f_seqnum` is taken. -/
def writeOk : State :=
  let dataBuff := s.dataBufferList s.fSeqnum
  let data := dataBuff.buffer.take dataBuff.offset
  { s with
    flash := s.flash.enqueue ⟨s.flashOffs / sectorSize, program (s.flashOffs % sectorSize) data⟩
    dataBufferList := Function.update s.dataBufferList s.fSeqnum { dataBuff with state := .free }
    fSeqnum := nextSeqnum s.fSeqnum
    flashOffs :=
      if cfg.sectorCount * sectorSize ≤ s.flashOffs + dataBuff.offset then 0 else s.flashOffs + dataBuff.offset
    flashState := .idle
    handed := s.handed ++ [(s.flashOffs, data)] }

/-- `_log_dump_flush(buff_state, is_async)` -/
def flush (buffState : UInt32) (isAsync : Bool) (ret : NorflashRet) : State :=
  if s.flashState = .idle ∧ s.flashOffs % sectorSize = 0 then
    match s.flashApiRet isAsync ret with
    | .ok => s.eraseOk
    | .bufferFull => s
  else if s.flashState = .erased ∨ s.flashState = .writting then
    let dataBuff := s.dataBufferList s.fSeqnum
    if dataBuff.state.bits &&& buffState ≠ 0 ∧ 0 < dataBuff.offset then
      match s.flashApiRet isAsync ret with
      | .ok => s.writeOk cfg
      | .bufferFull => { s with flashState := .writting }
    else s
  else s

def logDumpFlush (ret : NorflashRet) : State := s.flush cfg BufferState.written.bits true ret

/-- `unfree_count` of `_log_dump_flush_remain` is not zero. -/
def Unfree : Prop := ∃ i < sectorBufferCount, (s.dataBufferList i).state ≠ .free

instance : Decidable s.Unfree := inferInstanceAs (Decidable (∃ i < sectorBufferCount, _))

/-- A turn of the loop of `_log_dump_flush_remain` that does not end it. -/
def flushRemain (ret : NorflashRet) : Option State :=
  if s.Unfree then
    some (s.flush cfg (BufferState.writting.bits ||| BufferState.written.bits) false ret)
  else none

/-! ### `log_dump_output_handler` -/

/-- `LOG_DUMP_PREFIX`, that is `__LOG_DUMP:` -/
def logDumpPrefix : List UInt8 := [95, 95, 76, 79, 71, 95, 68, 85, 77, 80, 58]

/-- `strstr(buf, LOG_DUMP_PREFIX) != NULL`. The search ends at a NUL, which may lie behind the chunk. -/
def IsOwnTrace (buf behind : List UInt8) : Prop := logDumpPrefix <:+: (buf ++ behind).takeWhile (· ≠ 0)

instance (buf behind : List UInt8) : Decidable (IsOwnTrace buf behind) := inferInstanceAs (Decidable (_ <:+: _))

def dataBuff : DataBuffer := s.dataBufferList s.wSeqnum

def setDataBuff (dataBuff : DataBuffer) : State :=
  { s with dataBufferList := Function.update s.dataBufferList s.wSeqnum dataBuff }

def begin : State :=
  if s.dataBuff.state = .free ∨ s.dataBuff.state = .written then
    s.setDataBuff ⟨.writting, 0, List.replicate sectorSize 0⟩
  else s

def putHeader : State :=
  if s.dataBuff.offset = 0 then
    { s.setDataBuff { s.dataBuff with
        offset := s.dataBuff.offset + LogDumpHeader.size
        buffer := memcpy s.dataBuff.buffer s.dataBuff.offset
          (LogDumpHeader.filled s.curDumpSeqnum s.isBootup).bytes } with
      isBootup := false
      curDumpSeqnum := s.curDumpSeqnum + 1 }
  else s

def writeLen (remainLen : Nat) : Nat :=
  if sectorSize < s.dataBuff.offset + remainLen then sectorSize - s.dataBuff.offset else remainLen

def putBytes (bytes : List UInt8) : State :=
  s.setDataBuff { s.dataBuff with
    offset := s.dataBuff.offset + bytes.length
    buffer := memcpy s.dataBuff.buffer s.dataBuff.offset bytes }

/-- The full buffer is marked, and the next one is taken. -/
def markWritten : State :=
  { s.setDataBuff { s.dataBuff with state := .written } with
    wSeqnum := nextSeqnum s.wSeqnum
    marked := s.marked ++ [s.dataBuff.buffer] }

/-- The loop of `log_dump_output_handler` on what remains of the chunk. `none` is the assertion about the next
buffer, or that the loop takes more than `turns` turns. -/
def outputLoop : Nat → State → List UInt8 → Option State
  | 0, _, _ => none
  | turns + 1, s, remain =>
      let s := s.begin.putHeader
      let writeLen := s.writeLen remain.length
      let s := s.putBytes (remain.take writeLen)
      let remain := remain.drop writeLen
      if s.dataBuff.offset = sectorSize then
        let s := s.markWritten
        if s.wSeqnum = s.fSeqnum then some { s with lost := s.lost ++ [remain.length] }
        else if s.dataBuff.state = .writting then none
        else if remain = [] then some s
        else outputLoop turns s remain
      else if remain = [] then some s
      else outputLoop turns s remain

/-- `log_dump_output_handler`. The loop ends where the index meets `log_dump_f_seqnum`, if not before. -/
def outputHandler (buf behind : List UInt8) : Option State :=
  if IsOwnTrace buf behind then some s else outputLoop sectorBufferCount s buf

end State

/-! ### Runs -/

/-- A call of the output handler, with what lies behind the chunk in memory; of `log_dump_flush` and of a turn of
`_log_dump_flush_remain`, with the answer of `norflash_api`; the start of a crash dump or of `log_dump_flush_all`.
Then the flash at work, which finishes an operation or is halfway through it; and a power cut with the boot
after it. -/
inductive Event
  | output (buf behind : List UInt8)
  | flush (ret : NorflashRet)
  | flushImmediately
  | flushRemain (ret : NorflashRet)
  | flashFinish
  | flashTear (content : List UInt8)
  | reboot

def step (cfg : Config) (s : State) : Event → Option State
  | .output buf behind => s.outputHandler buf behind
  | .flush ret => some (s.logDumpFlush cfg ret)
  | .flushImmediately => some { s with isImmediately := true }
  | .flushRemain ret => s.flushRemain cfg ret
  | .flashFinish => s.flash.finish.map fun flash => { s with flash := flash }
  | .flashTear content => (s.flash.tear content).map fun flash => { s with flash := flash }
  | .reboot => some (logDumpInit cfg s.flash.physical (s.earlier ++ s.handed))

end Best1307.LogDump
