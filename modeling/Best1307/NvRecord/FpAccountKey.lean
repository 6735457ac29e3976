import Best1307.Lib.SlotArray

/-!
# The Fast Pair account keys

`nvrecord_fp_account_key.c`: five account keys, each with a list of up to three addresses that are bound to it. When
the table is full a new key takes the place of the earliest but the initial one, and when the list of a key is full
a new address takes the place of the oldest. What is behind the end of a list is left as it was, and is compared with
when an address is bound.
-/

namespace Best1307.FpAccountKey

open SlotArray

abbrev BdAddr := Vector UInt8 6

abbrev AccountKey := Vector UInt8 16

/-- `FP_ACCOUNT_KEY_RECORD_NUM` -/
def recordNum : Nat := 5

/-- `FP_SAME_KEY_COUNT` -/
def sameKeyCount : Nat := 3

/-- `NV_FP_ACCOUNT_KEY_ENTRY_T` -/
structure Entry where
  count : Nat
  addr : Vector BdAddr sameKeyCount
  key : AccountKey
  deriving DecidableEq

/-- `NV_FP_ACCOUNT_KEY_RECORD_T`, as far as the keys go -/
structure Record where
  keyCount : Nat
  accountKey : Vector Entry recordNum
  deriving DecidableEq

/-- `nvrecord_rebuild_fp_account_key` -/
def Record.rebuilt : Record := ⟨0, .replicate _ ⟨0, .replicate _ (.replicate _ 0), .replicate _ 0⟩⟩

/-! ### The lists -/

def Entry.addrs (e : Entry) : List BdAddr := listed e.addr (min e.count sameKeyCount)

def Record.entries (s : Record) : List Entry := listed s.accountKey (min s.keyCount recordNum)

def Record.keys (s : Record) : List AccountKey := s.entries.map (·.key)

/-! ### Operations -/

namespace Entry

def append (e : Entry) (addr : BdAddr) : Entry :=
  { e with addr := (writeSlot e.addr e.count addr).getD e.addr, count := e.count + 1 }

/-- What `nv_record_fp_update_addr` does with the entry. -/
def updateAddr (e : Entry) (addr : BdAddr) : Entry :=
  if addr ∈ e.addr.toList then e
  else if sameKeyCount ≤ e.count then
    { e with addr := shiftDown e.addr 0, count := sameKeyCount - 1 }.append addr
  else e.append addr

/-- What `nv_record_fp_delete_addr` does with the entry. -/
def deleteAddr (e : Entry) (addr : BdAddr) : Entry :=
  match e.addrs.findIdx? (· == addr) with
  | none => e
  | some j =>
      let cleared := (writeSlot e.addr j (.replicate 6 0)).getD e.addr
      { e with addr := if j ≠ sameKeyCount - 1 then shiftDown cleared j else cleared, count := e.count - 1 }

end Entry

namespace Record

variable (s : Record)

def modify (i : Nat) (f : Entry → Entry) : Record :=
  { s with accountKey := (updateSlot s.accountKey i f).getD s.accountKey }

/-- The earliest key but the initial one is discarded. -/
def discard : Record := { accountKey := shiftDown s.accountKey 1, keyCount := s.keyCount - 1 }

/-- Only the key is copied to the slot. -/
def append (key : AccountKey) : Record :=
  { s.modify s.keyCount fun e => { e with key } with keyCount := s.keyCount + 1 }

/-- `nv_record_fp_account_key_add` -/
def add (key : AccountKey) : Record :=
  if key ∈ (listed s.accountKey s.keyCount).map (·.key) then s
  else if s.keyCount = recordNum then s.discard.append key
  else s.append key

/-- `nv_record_fp_update_addr` -/
def updateAddr (i : Nat) : Option BdAddr → Record
  | none => s
  | some addr => if s.keyCount < i + 1 then s else s.modify i (·.updateAddr addr)

/-- `nv_record_fp_get_key_by_addr`, which looks through the keys from the last one -/
def getKeyByAddr (addr : BdAddr) : Option AccountKey :=
  (s.entries.reverse.find? fun e => addr ∈ e.addrs).map (·.key)

/-- `nv_record_fp_delete_addr` -/
def deleteAddr : Option BdAddr → Option AccountKey → Record
  | some addr, some key =>
      match s.entries.findIdx? (·.key == key) with
      | none => s
      | some i => s.modify i (·.deleteAddr addr)
  | _, _ => s

end Record

/-! ### Runs -/

inductive Call where
  | add (key : AccountKey)
  | updateAddr (i : Nat) (addr : Option BdAddr)
  | deleteAddr (addr : Option BdAddr) (key : Option AccountKey)

def Record.step (s : Record) : Call → Record
  | .add key => s.add key
  | .updateAddr i addr => s.updateAddr i addr
  | .deleteAddr addr key => s.deleteAddr addr key

def Record.after (calls : List Call) : Record := calls.foldl Record.step .rebuilt

end Best1307.FpAccountKey
