import Best1307.Lib.FlashQueue
import Best1307.Lib.Run
import Best1307.NvRecord.Record

/-!
# The two-sector flush

`nvrecord_extension.c`: the boot that chooses a sector, the update flag, and the flush that erases and
rewrites the main sector and then the backup. The flush runs in two ways. Asynchronously, one call makes
one step and returns; synchronously, one call loops until nothing is left to do, and other threads, the
flash and a power cut get in between its steps. `norflash_api` is the first-in first-out queue its
callers rely on. `written_size` is only ever zero, so sectors are named without an offset.
-/

namespace Best1307.NvRecord

open FlashQueue

inductive NvState where
  | idle
  | mainErasing
  | mainErased
  | mainWritting
  | mainWritePending
  | mainWritten
  | mainDone
  | bakErasing
  | bakErased
  | bakWritting
  | bakWritePending
  | bakWritten
  | bakDone
  deriving DecidableEq

/-- The two sectors, at `_user_data_main_start` and `_user_data_bak_start`. -/
inductive Sector where
  | main
  | bak
  deriving DecidableEq

/-- The two sectors as a boot finds them. -/
def foundFlash (main bak : NvExtensionRecord) : Sector → NvExtensionRecord
  | .main => main
  | .bak => bak

/-- What `norflash_api_erase` and `norflash_api_write` answer; any other code is an assertion. -/
inductive NorflashRet where
  | ok
  | bufferFull
  deriving DecidableEq

/-- All that the flush works on. `taken` is history, read by no function: the payloads that have been
copied out of the RAM record since the boot. -/
structure NvStore where
  ram : NvExtensionRecord
  burnBuf : NvExtensionRecord
  isUpdate : Bool
  state : NvState
  flash : Device Sector NvExtensionRecord
  taken : List (List UInt8)

namespace NvStore

variable (b : Build) (s : NvStore)

/-! ### The flash driver as the flush calls it -/

/-- `norflash_api_erase`, once it answers `NORFLASH_API_OK`. -/
def norflashErase (sector : Sector) : NvStore :=
  { s with flash := s.flash.enqueue ⟨sector, fun _ => Build.erased⟩ }

/-- `norflash_api_write` of the burn buffer, once it answers `NORFLASH_API_OK`. -/
def norflashWrite (sector : Sector) : NvStore :=
  { s with flash := s.flash.enqueue ⟨sector, b.program s.burnBuf⟩ }

/-- `norflash_api_read` into the burn buffer; it sees what is still queued. -/
def norflashRead (sector : Sector) : NvStore := { s with burnBuf := s.flash.settled sector }

/-- `norflash_api_get_used_buffer_count(.., NORFLASH_API_ALL)`. -/
def norflashUsedCount : Nat := s.flash.queue.length

/-! ### Updating and taking a snapshot -/

/-- A change of the RAM record followed by `nv_record_extension_update`. -/
def nvRecordExtensionUpdate (data : Nat → UInt8) : NvStore :=
  { s with ram := { s.ram with data := data }, isUpdate := true }

/-- The RAM record with the CRC of its present bytes. -/
def sealRam : NvExtensionRecord :=
  ⟨{ s.ram.header with crc32 := b.crc32C (dataBytes s.ram.data b.validLen) }, s.ram.data⟩

/-- The locked section of `NV_STATE_MAIN_ERASED`: the RAM record gets its CRC and is copied to the burn
buffer. `none` is the assertion that the record is valid. -/
def snapshot : Option NvStore :=
  if b.accepts (s.sealRam b) then
    some { s with
      ram := s.sealRam b
      burnBuf := s.sealRam b
      state := .mainWritePending
      isUpdate := false
      taken := s.taken ++ [b.payload (s.sealRam b)] }
  else none

@[simp] theorem norflashErase_cells (sector : Sector) :
    (s.norflashErase sector).flash.cells = s.flash.cells := rfl

@[simp] theorem norflashWrite_cells (sector : Sector) :
    (s.norflashWrite b sector).flash.cells = s.flash.cells := rfl

@[simp] theorem norflashRead_cells (sector : Sector) :
    (s.norflashRead sector).flash.cells = s.flash.cells := rfl

/-! ### The asynchronous flush

`ret` is the answer of the one erase or write the step asks for. `none` is an assertion. -/

def nvRecordExtensionFlushMain (ret : NorflashRet) : Option NvStore :=
  match s.state with
  | .idle | .mainErasing =>
      match ret with
      | .ok => some { s.norflashErase .main with state := .mainErased }
      | .bufferFull => some { s with state := .mainErasing }
  | .mainErased => s.snapshot b
  | .mainWritePending =>
      match ret with
      | .ok => some { s.norflashWrite b .main with state := .mainWritten }
      | .bufferFull => some s
  | .mainWritten => if s.norflashUsedCount = 0 then some { s with state := .mainDone } else some s
  | _ => none

/-- The end of `nv_record_extension_flush_bak`: `NV_STATE_BAK_DONE` becomes `NV_STATE_IDLE`. -/
def flushBakEnd : NvStore := if s.state = .bakDone then { s with state := .idle } else s

def nvRecordExtensionFlushBak (ret : NorflashRet) : Option NvStore :=
  match s.state with
  | .mainDone | .bakErasing =>
      match ret with
      | .ok => some (flushBakEnd { s.norflashErase .bak with state := .bakErased })
      | .bufferFull => some (flushBakEnd { s with state := .bakErasing })
  | .bakErased | .bakWritting =>
      some (flushBakEnd { s.norflashRead .main with state := .bakWritePending })
  | .bakWritePending =>
      match ret with
      | .ok => some (flushBakEnd { s.norflashWrite b .bak with state := .bakWritten })
      | .bufferFull => some (flushBakEnd s)
  | .bakWritten =>
      if s.norflashUsedCount = 0 then some (flushBakEnd { s with state := .bakDone })
      else some (flushBakEnd s)
  | _ => none

/-- `nv_record_execute_async_flush`, that is `nv_record_extension_flush(true)`. -/
def nvRecordExecuteAsyncFlush (ret : NorflashRet) : Option NvStore :=
  if s.state = .idle ∧ s.isUpdate = false then some s
  else
    match s.state with
    | .idle | .mainErasing | .mainErased | .mainWritting | .mainWritePending | .mainWritten =>
        s.nvRecordExtensionFlushMain b ret
    | _ => s.nvRecordExtensionFlushBak b ret

end NvStore

/-! ### The synchronous flush

`nv_record_extension_flush(false)` is a loop around `nv_record_extension_flush_main(false)` and
`nv_record_extension_flush_bak(false)`, each a row of `if`s on the state with waiting loops in them. A
`SyncPoint` is the place it stands at. -/

inductive SyncPoint where
  /-- No synchronous flush is running. -/
  | off
  /-- Head of the outer `do .. while`. -/
  | loop
  | mainErase
  | mainSnapshot
  | mainWrite
  | mainDrain
  | bakErase
  | bakRead
  | bakWrite
  | bakDrain
  deriving DecidableEq

structure Machine where
  nv : NvStore
  sync : SyncPoint

namespace Machine

variable (b : Build) (m : Machine)

/-- One step of a synchronous flush. A refused erase or write and a queue that has not drained leave it
where it stands, waiting on `norflash_api_flush`. -/
def syncStep (ret : NorflashRet) : Option Machine :=
  match m.sync with
  | .off => none
  | .loop =>
      if m.nv.state = .idle ∧ m.nv.isUpdate = false then some { m with sync := .off }
      else
        match m.nv.state with
        | .idle | .mainErasing | .mainErased | .mainWritting | .mainWritePending | .mainWritten =>
            some { m with sync := .mainErase }
        | _ => some { m with sync := .bakErase }
  | .mainErase =>
      if m.nv.state = .idle ∨ m.nv.state = .mainErasing then
        match ret with
        | .ok =>
            some { nv := { m.nv.norflashErase .main with state := .mainErased }, sync := .mainSnapshot }
        | .bufferFull => some m
      else some { m with sync := .mainSnapshot }
  | .mainSnapshot =>
      if m.nv.state = .mainErased then
        (m.nv.snapshot b).map fun nv => { nv := nv, sync := .mainWrite }
      else some { m with sync := .mainWrite }
  | .mainWrite =>
      if m.nv.state = .mainWritePending then
        match ret with
        | .ok =>
            some { nv := { m.nv.norflashWrite b .main with state := .mainWritten }, sync := .mainDrain }
        | .bufferFull => some m
      else some { m with sync := .mainDrain }
  | .mainDrain =>
      if m.nv.norflashUsedCount = 0 then
        some { nv := { m.nv with state := .mainDone }, sync := .bakErase }
      else some m
  | .bakErase =>
      if m.nv.state = .mainDone ∨ m.nv.state = .bakErasing then
        match ret with
        | .ok => some { nv := { m.nv.norflashErase .bak with state := .bakErased }, sync := .bakRead }
        | .bufferFull => some m
      else some { m with sync := .bakRead }
  | .bakRead =>
      -- a backup write the asynchronous flush has already queued is made once more from here
      if m.nv.state = .bakErased ∨ m.nv.state = .bakWritten then
        some { nv := { m.nv.norflashRead .main with state := .bakWritePending }, sync := .bakWrite }
      else some { m with sync := .bakWrite }
  | .bakWrite =>
      if m.nv.state = .bakWritePending then
        match ret with
        | .ok =>
            some { nv := { m.nv.norflashWrite b .bak with state := .bakWritten }, sync := .bakDrain }
        | .bufferFull => some m
      else some { m with sync := .bakDrain }
  | .bakDrain =>
      if m.nv.norflashUsedCount = 0 then
        some { nv := { m.nv with state := .bakDone }.flushBakEnd, sync := .loop }
      else some m

end Machine

/-! ### Booting -/

namespace Build

variable (b : Build)

/-- The sector `nv_record_extension_init` takes the record from: the main one if it is valid. -/
def loadedSector (main bak : NvExtensionRecord) : Option NvExtensionRecord :=
  if b.accepts main then some main else if b.accepts bak then some bak else none

/-- The copy out of a sector: `NV_EXTENSION_VALID_LEN` bytes of it go over the bytes the RAM record was
initialised with, and the CRC is made anew over the RAM record's own length. -/
def loadRecord (r : NvExtensionRecord) : NvExtensionRecord :=
  let data := fun i => if i < b.validLen then r.data i else b.initialData i
  let header := b.header 0
  ⟨{ header with crc32 := b.crc32C (dataBytes data header.validLen.toNat) }, data⟩

def nvRecordSetDefault : NvExtensionRecord := b.sealed b.defaultData

/-- `nv_record_extension_init` on what the two sectors hold, up to the synchronous flush it may end in. -/
def nvRecordExtensionInit (main bak : NvExtensionRecord) : Machine :=
  let fresh : NvStore :=
    { ram := ⟨b.header 0, b.initialData⟩
      burnBuf := ⟨⟨0, 0, 0, 0, 0⟩, fun _ => 0⟩
      isUpdate := false
      state := .idle
      flash := { cells := foundFlash main bak, queue := [], torn := none }
      taken := [] }
  let checked : NvStore :=
    if b.accepts main then
      if b.accepts bak then fresh else { fresh with isUpdate := true, state := .mainDone }
    else
      if b.accepts bak then { fresh with isUpdate := true, state := .idle } else fresh
  let loaded : NvStore :=
    match b.loadedSector main bak with
    | some r => { checked with ram := b.loadRecord r }
    | none => { checked with ram := b.nvRecordSetDefault, isUpdate := true }
  { nv := loaded, sync := if loaded.isUpdate then .loop else .off }

end Build

/-! ### The system -/

inductive Event where
  /-- The RAM record is changed and `nv_record_extension_update` called. -/
  | update (data : Nat → UInt8)
  /-- One call of `nv_record_execute_async_flush`. -/
  | asyncFlush (ret : NorflashRet)
  /-- `nv_record_flash_flush` is called. -/
  | syncFlush
  /-- The running synchronous flush makes a step. -/
  | syncStep (ret : NorflashRet)
  /-- The flash carries the oldest queued operation to its end. -/
  | flashDone
  /-- The flash is in the middle of that operation; its sector holds `content`. -/
  | flashTear (content : NvExtensionRecord)

/-- One event. The mutex keeps flush calls apart: while a synchronous flush runs no other flush does. -/
def step (b : Build) (m : Machine) : Event → Option Machine
  | .update data => some { m with nv := m.nv.nvRecordExtensionUpdate data }
  | .asyncFlush ret =>
      if m.sync = .off then (m.nv.nvRecordExecuteAsyncFlush b ret).map fun nv => { m with nv := nv }
      else none
  | .syncFlush => if m.sync = .off then some { m with sync := .loop } else none
  | .syncStep ret => m.syncStep b ret
  | .flashDone => m.nv.flash.finish.map fun flash => { m with nv := { m.nv with flash := flash } }
  | .flashTear content =>
      (m.nv.flash.tear content).map fun flash => { m with nv := { m.nv with flash := flash } }

namespace Machine

/-- What a power cut at this moment leaves in a sector. -/
def inFlash (m : Machine) (sector : Sector) : NvExtensionRecord := m.nv.flash.physical sector

end Machine

end Best1307.NvRecord
