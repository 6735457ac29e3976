import Mathlib.Data.Nat.Bitwise
import Best1307.Lib.Pieces

/-!
# Flash operations that can be suspended

An erase or a write is split into operations of the driver: programs that stay within a page, erases of the largest
unit that fits. The driver may suspend an operation; then the call breaks off with where to go on, and is resumed:
first the operation, then the rest.

A resumed operation is not looked at when it is done. Its error is lost, and the whole chip, which is erased
without going on anywhere, is erased once more.
-/

namespace Best1307.Norflash

open Pieces

inductive Kind
  | erase
  | program
  deriving DecidableEq, Repr

/-- `enum HAL_NORFLASH_RET_T`; an error of the driver has its code. -/
inductive Ret
  | ok
  | suspended
  | err (code : Nat)
  | badOp
  | badAddr
  | badLen
  deriving DecidableEq, Repr

/-- `enum SUSPEND_STATE_T` -/
inductive SuspendState
  | none
  | cancel (kind : Kind)
  | suspend (kind : Kind)
  deriving DecidableEq, Repr

/-- `enum DRV_NORFLASH_ERASE_T` -/
inductive EraseType
  | page
  | sector
  | block32K
  | block64K
  | chip
  deriving DecidableEq, Repr

/-- The chip and the build: the sizes with two chips are doubled, the pages have a power of two and are no larger
than a sector, and the chip is made of sectors. -/
structure Config where
  totalSize : Nat
  pageBits : Nat
  addrBits : Nat
  dualChip : Bool
  flashLargeBlock : Bool
  puyaFlashErasePageEnable : Bool
  flashMemReadBusLock : Bool
  opModeSuspend : Bool
  pageBits_le : pageBits ≤ 12
  totalSize_le : totalSize ≤ 2 ^ addrBits
  sector_dvd : 2 ^ (12 + dualChip.toNat) ∣ totalSize

namespace Config

variable (cfg : Config)

def pageSize : Nat := 2 ^ cfg.pageBits

def sectorSize : Nat := 2 ^ (12 + cfg.dualChip.toNat)

def eraseSize : EraseType → Nat
  | .page => cfg.pageSize
  | .sector => cfg.sectorSize
  | .block32K => 2 ^ (15 + cfg.dualChip.toNat)
  | .block64K => 2 ^ (16 + cfg.dualChip.toNat)
  | .chip => cfg.totalSize

/-- The unit an erase is extended to. -/
def eraseUnit : Nat := if cfg.puyaFlashErasePageEnable then cfg.pageSize else cfg.sectorSize

end Config

inductive FlashOp
  | erase (type : EraseType) (addr : Nat)
  | program (addr : Nat) (data : List UInt8)
  deriving DecidableEq, Repr

namespace FlashOp

variable (cfg : Config)

def start : FlashOp → Nat
  | erase _ addr => addr
  | program addr _ => addr

def fin : FlashOp → Nat
  | erase type addr => addr + cfg.eraseSize type
  | program addr data => addr + data.length

/-- An erase sets all bits, a program clears those that are 0 in the data. -/
def apply (cells : Nat → UInt8) : FlashOp → Nat → UInt8
  | erase type addr => fun a => if addr ≤ a ∧ a < addr + cfg.eraseSize type then 0xFF else cells a
  | program addr data => fun a =>
      if addr ≤ a then (data[a - addr]?.map (cells a &&& ·)).getD (cells a) else cells a

end FlashOp

/-- Where a call goes on: `op_next_addr`, `op_next_buf` and `op_remain_len`. -/
structure Cursor where
  addr : Nat
  buf : List UInt8
  remain : Nat
  deriving DecidableEq, Repr

/-- What the driver does with its operations, by their number: how often it cannot begin, as the memory is being
read, how often it suspends the operation, and the error it ends with. -/
structure Plan where
  cancels : Nat → Nat
  suspensions : Nat → Nat
  error : Nat → Option Nat

/-- The variables of a flash, the operation the driver has suspended and how often it will do so again, how often
the next one could not begin, and the operations done with their errors. -/
structure State where
  suspendState : SuspendState
  next : Cursor
  pending : Option (FlashOp × Nat)
  cancelled : Nat
  completed : List (FlashOp × Option Nat)
  deriving DecidableEq

def State.opened : State := ⟨.none, ⟨0, [], 0⟩, none, 0, []⟩

/-! ### The driver -/

namespace State

variable (cfg : Config) (plan : Plan) (suspend : Bool) (s : State)

def opNum : Nat := s.completed.length

def completeOp (op : FlashOp) : Ret × State :=
  ((plan.error s.opNum).elim .ok .err,
    { s with
      completed := s.completed ++ [(op, plan.error s.opNum)]
      pending := none
      cancelled := 0 })

/-- `norflash_erase` and `norflash_write` -/
def norflashOp (op : FlashOp) : Ret × State :=
  if suspend ∧ 0 < plan.suspensions s.opNum then
    (.suspended, { s with pending := some (op, plan.suspensions s.opNum - 1) })
  else s.completeOp plan op

/-- `norflash_erase_resume` and `norflash_write_resume` -/
def norflashResume : Ret × State :=
  match s.pending with
  | some (op, left) =>
      if suspend ∧ 0 < left then (.suspended, { s with pending := some (op, left - 1) })
      else s.completeOp plan op
  | none => (.badOp, s)

/-- `norflash_pre_operation_suspend`: whether the mode change is skipped, and with it the operation. -/
def preOperation : Bool × State :=
  if cfg.flashMemReadBusLock ∧ suspend ∧ s.cancelled < plan.cancels s.opNum then
    (true, { s with cancelled := s.cancelled + 1 })
  else (false, s)

end State

/-! ### The loops -/

/-- The unit is not more than what is left, and the address is a boundary of it. -/
def eraseFits (cfg : Config) (c : Cursor) (type : EraseType) : Bool :=
  cfg.eraseSize type ≤ c.remain && c.addr &&& (cfg.eraseSize type - 1) == 0

def eraseType (cfg : Config) (c : Cursor) : EraseType :=
  let blkCmd := if cfg.flashLargeBlock then .block64K else .block32K
  if eraseFits cfg c blkCmd then blkCmd
  else if cfg.flashLargeBlock && eraseFits cfg c .block32K then .block32K
  else if cfg.puyaFlashErasePageEnable then if eraseFits cfg c .sector then .sector else .page
  else .sector

/-- One turn of the loop of `hal_norflash_erase_int`: the operation and where to go on. -/
def eraseNext (cfg : Config) (c : Cursor) : FlashOp × Cursor :=
  let size := cfg.eraseSize (eraseType cfg c)
  (.erase (eraseType cfg c) c.addr, ⟨c.addr + size, c.buf, c.remain - size⟩)

def writeNext (cfg : Config) (c : Cursor) : FlashOp × Cursor :=
  let writeSize := if cfg.pageSize < c.remain then cfg.pageSize else c.remain
  let ppRemain := cfg.pageSize - (c.addr &&& (cfg.pageSize - 1))
  let writeSize := if ppRemain < writeSize then ppRemain else writeSize
  (.program c.addr (c.buf.take writeSize), ⟨c.addr + writeSize, c.buf.drop writeSize, c.remain - writeSize⟩)

def Kind.next (cfg : Config) : Kind → Cursor → FlashOp × Cursor
  | .erase => eraseNext cfg
  | .program => writeNext cfg

namespace State

variable (cfg : Config) (plan : Plan) (suspend : Bool)

/-- The loop, at most as often as there are bytes left. -/
def loop (next : Cursor → FlashOp × Cursor) : Nat → State → Cursor → Ret × State × Cursor
  | 0, s, c => (.ok, s, c)
  | n + 1, s, c =>
      if c.remain = 0 then (.ok, s, c)
      else
        let (op, c') := next c
        let (ret, s') := s.norflashOp plan suspend op
        if ret = .ok then loop next n s' c' else (ret, s', c')

/-- The end of `hal_norflash_erase_int` and `hal_norflash_write_int`. -/
def leave (kind : Kind) (skipModeChange : Bool) (ret : Ret) (s : State) (c : Cursor) : Ret × State :=
  if ret = .suspended then
    (ret, { s with
      suspendState := if skipModeChange then .cancel kind else .suspend kind
      next := c })
  else (ret, { s with suspendState := .none })

/-- The whole chip is erased at once; else the loop is run. -/
def operate (kind : Kind) (s : State) (c : Cursor) : Ret × State :=
  if kind = .erase ∧ c.addr = 0 ∧ cfg.totalSize ≤ c.remain then
    let (ret, s) := s.norflashOp plan suspend (.erase .chip c.addr)
    leave kind false ret s c
  else
    let (ret, s, c) := loop plan suspend (kind.next cfg) c.remain s c
    leave kind false ret s c

/-- From where the range is known to its end. -/
def work (kind : Kind) (s : State) (c : Cursor) : Ret × State :=
  let (skipModeChange, s) := s.preOperation cfg plan suspend
  if skipModeChange then leave kind true .suspended s c else operate cfg plan suspend kind s c

/-- The range, extended to whole units. -/
def eraseRange (startAddress len : Nat) : Nat × Nat :=
  let remainLen := startAddress &&& (cfg.eraseUnit - 1)
  let (startAddress, len) :=
    if remainLen ≠ 0 then (startAddress - remainLen, len + remainLen) else (startAddress, len)
  let remainLen := len &&& (cfg.eraseUnit - 1)
  (startAddress, if remainLen ≠ 0 then len + (cfg.eraseUnit - remainLen) else len)

def halNorflashEraseInt (s : State) (startAddress len : Nat) : Ret × State :=
  let startAddress := startAddress &&& (2 ^ cfg.addrBits - 1)
  if cfg.totalSize ≤ startAddress then (.badAddr, s)
  else if cfg.totalSize - startAddress < len then (.badLen, s)
  else
    let (startAddress, len) := eraseRange cfg startAddress len
    work cfg plan suspend .erase s ⟨startAddress, s.next.buf, len⟩

def halNorflashWriteInt (s : State) (startAddress : Nat) (buffer : List UInt8) (len : Nat) : Ret × State :=
  let startAddress := startAddress &&& (2 ^ cfg.addrBits - 1)
  if cfg.totalSize ≤ startAddress then (.badAddr, s)
  else if cfg.totalSize - startAddress < len then (.badLen, s)
  else work cfg plan suspend .program s ⟨startAddress, buffer, len⟩

def halNorflashEraseSuspend (s : State) (startAddress len : Nat) : Ret × State :=
  if s.suspendState ≠ .none then (.badOp, s)
  else halNorflashEraseInt cfg plan (cfg.opModeSuspend && suspend) s startAddress len

def halNorflashWriteSuspend (s : State) (startAddress : Nat) (buffer : List UInt8) : Ret × State :=
  if s.suspendState ≠ .none then (.badOp, s)
  else halNorflashWriteInt cfg plan (cfg.opModeSuspend && suspend) s startAddress buffer buffer.length

def nextOp (kind : Kind) (s : State) : Ret × State :=
  match kind with
  | .erase => halNorflashEraseInt cfg plan suspend s s.next.addr s.next.remain
  | .program => halNorflashWriteInt cfg plan suspend s s.next.addr s.next.buf s.next.remain

/-- `hal_norflash_erase_resume` and `hal_norflash_write_resume` -/
def halNorflashResume (kind : Kind) (s : State) : Ret × State :=
  if ¬ cfg.opModeSuspend then (.badOp, s)
  else if cfg.flashMemReadBusLock ∧ s.suspendState = .cancel kind then nextOp cfg plan suspend kind s
  else if s.suspendState ≠ .suspend kind then (.badOp, s)
  else
    let (ret, s) := s.norflashResume plan suspend
    if ret = .suspended then (ret, s)
    else if s.next.remain = 0 then (.ok, { s with suspendState := .none })
    else nextOp cfg plan suspend kind s

end State

end Best1307.Norflash
