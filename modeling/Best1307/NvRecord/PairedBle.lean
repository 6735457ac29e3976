import Best1307.Lib.Run
import Best1307.Lib.SlotArray

/-!
# The list of bonded BLE devices

`nvrecord_ble.c`: five slots, each a device's pairing information and its volume, and a count. Adding goes
in two halves: the preparation makes slot 0 free and says whether the device is new, then the record is
written there. The preparation keeps the moving device's volume in a buffer that may not be had.
-/

namespace Best1307.NvRecord

open SlotArray

structure BleAddrInfo where
  addr : Vector UInt8 6
  addrType : UInt8
  deriving DecidableEq

/-- `BleDevicePairingInfo`; `serverCache` is the byte of the packed `gattc_server_cache_t`. -/
structure BleDevicePairingInfo where
  peerAddr : BleAddrInfo
  bondInfoBf : UInt8
  ediv : UInt16
  localEdiv : UInt16
  random : Vector UInt8 8
  ltk : Vector UInt8 16
  localRandom : Vector UInt8 8
  localLtk : Vector UInt8 16
  irk : Vector UInt8 16
  csrk : Vector UInt8 16
  encKeySize : UInt8
  serverCache : UInt8
  deriving DecidableEq

structure BleDeviceinfo where
  pairingInfo : BleDevicePairingInfo
  volume : UInt8
  deriving DecidableEq

def BleDevicePairingInfo.zero : BleDevicePairingInfo :=
  ⟨⟨.replicate 6 0, 0⟩, 0, 0, 0, .replicate 8 0, .replicate 16 0, .replicate 8 0, .replicate 16 0,
    .replicate 16 0, .replicate 16 0, 0, 0⟩

def BleDeviceinfo.zero : BleDeviceinfo := ⟨.zero, 0⟩

def bleRecordNum : Nat := 5

/-- `NV_RECORD_PAIRED_BLE_DEV_INFO_T`, as far as the list goes. -/
structure NvRecordPairedBleDevInfo where
  savedListNum : Nat
  bleNv : Vector BleDeviceinfo bleRecordNum

/-- The list `nvrecord_rebuild_paired_ble_dev_info` leaves. -/
def nvrecordRebuildPairedBleDevInfo : NvRecordPairedBleDevInfo := ⟨0, .replicate _ .zero⟩

/-- `NV_BLE_DONT_UPDATE`, `NV_BLE_ADD_NEW_ITEM` and `NV_BLE_UPDATE_EXIST`. -/
inductive BlePrepared where
  | dontUpdate
  | addNewItem
  | updateExist
  deriving DecidableEq

namespace NvRecordPairedBleDevInfo

-- `bleAudioVolume` is what a new device starts with, in a build with `BLE_AUDIO_ENABLED`
variable (bleAudioVolume : Option UInt8) (info : NvRecordPairedBleDevInfo)

/-- The loop that compares each entry's address with `addr`. -/
def findAddr (addr : Vector UInt8 6) : Option (Option Nat) :=
  findSlot (fun entry => entry.pairingInfo.peerAddr.addr == addr) info.bleNv info.savedListNum 0

/-- `blerec_specific_value_prepare` where the address is not in the list. -/
def prepareNew : Option NvRecordPairedBleDevInfo :=
  if bleRecordNum = info.savedListNum then do
    let slots ← moveUp (bleRecordNum - 1) (bleRecordNum - 1) info.bleNv
    let slots ← writeSlot slots 0 .zero
    some ⟨info.savedListNum - 1, slots⟩
  else if 0 < info.savedListNum then do
    let slots ← moveUp info.savedListNum info.savedListNum info.bleNv
    let slots ← writeSlot slots 0 .zero
    some ⟨info.savedListNum, slots⟩
  else some info

/-- `blerec_specific_value_prepare` where a different record of the device stands at `entryToFree`.
`exist` says whether `btif_cobuf_malloc` has found a buffer for it. -/
def prepareExist (exist : Bool) (entryToFree : Nat) : Option NvRecordPairedBleDevInfo := do
  let slots ← updateSlot info.bleNv entryToFree fun entry => { entry with pairingInfo := .zero }
  let kept ← slots[entryToFree]?
  let slots ← moveUp entryToFree entryToFree slots
  let slots ← if exist then writeSlot slots 0 kept else some slots
  some ⟨info.savedListNum - 1, slots⟩

def blerecSpecificValuePrepare (exist : Bool) (paramRec : BleDevicePairingInfo) :
    Option (BlePrepared × NvRecordPairedBleDevInfo) := do
  if 0 < info.savedListNum then
    match ← info.findAddr paramRec.peerAddr.addr with
    | some i =>
        let entry ← info.bleNv[i]?
        if paramRec = entry.pairingInfo then some (.dontUpdate, info)
        else (info.prepareExist exist i).map fun info => (.updateExist, info)
    | none => info.prepareNew.map fun info => (.addNewItem, info)
  else some (.addNewItem, info)

/-- The record is written to slot 0; a new device gets the default volume. -/
def fillHead (prepared : BlePrepared) (paramRec : BleDevicePairingInfo) (entry : BleDeviceinfo) :
    BleDeviceinfo where
  pairingInfo := paramRec
  volume := if prepared = .addNewItem then bleAudioVolume.getD entry.volume else entry.volume

def nvRecordBlerecAdd (exist : Bool) (paramRec : BleDevicePairingInfo) :
    Option NvRecordPairedBleDevInfo := do
  match ← info.blerecSpecificValuePrepare exist paramRec with
  | (.dontUpdate, info) => some info
  | (prepared, info) =>
      let slots ← updateSlot info.bleNv 0 (fillHead bleAudioVolume prepared paramRec)
      some ⟨info.savedListNum + 1, slots⟩

def nvRecordBleDeleteEntryByIndex (indexToDelete : Nat) : Option NvRecordPairedBleDevInfo := do
  if indexToDelete < info.savedListNum then
    let slots ← moveDown indexToDelete (info.savedListNum - 1 - indexToDelete) info.bleNv
    let slots ← writeSlot slots (info.savedListNum - 1) .zero
    some ⟨info.savedListNum - 1, slots⟩
  else some info

def nvRecordBleDeleteEntry (addr : Vector UInt8 6) : Option NvRecordPairedBleDevInfo := do
  match ← info.findAddr addr with
  | some indexToDelete => info.nvRecordBleDeleteEntryByIndex indexToDelete
  | none => some info

def nvRecordBleWriteVolumeViaBdaddr (addr : Vector UInt8 6) (vol : UInt8) :
    Option NvRecordPairedBleDevInfo := do
  match ← info.findAddr addr with
  | some findIndex =>
      let slots ← updateSlot info.bleNv findIndex fun entry => { entry with volume := vol }
      some { info with bleNv := slots }
  | none => some info

def nvRecordBleReadVolumeViaBdaddr (addr : Vector UInt8 6) : Option (Option UInt8) := do
  match ← info.findAddr addr with
  | some findIndex => (info.bleNv[findIndex]?).map fun entry => some entry.volume
  | none => some none

/-- `nv_record_blerec_get_paired_dev_from_addr`, which also compares the address type. -/
def nvRecordBlerecGetPairedDevFromAddr (peerAddr : BleAddrInfo) : Option (Option BleDevicePairingInfo) := do
  match ← findSlot (fun entry => entry.pairingInfo.peerAddr == peerAddr) info.bleNv info.savedListNum 0 with
  | some num => (info.bleNv[num]?).map fun entry => some entry.pairingInfo
  | none => some none

end NvRecordPairedBleDevInfo

inductive BleOp where
  /-- `exist` says whether the preparation gets its buffer, should it ask for one. -/
  | add (exist : Bool) (paramRec : BleDevicePairingInfo)
  | deleteByIndex (indexToDelete : Nat)
  | deleteEntry (addr : Vector UInt8 6)
  | writeVolume (addr : Vector UInt8 6) (vol : UInt8)

def bleStep (bleAudioVolume : Option UInt8) (info : NvRecordPairedBleDevInfo) :
    BleOp → Option NvRecordPairedBleDevInfo
  | .add exist paramRec => info.nvRecordBlerecAdd bleAudioVolume exist paramRec
  | .deleteByIndex indexToDelete => info.nvRecordBleDeleteEntryByIndex indexToDelete
  | .deleteEntry addr => info.nvRecordBleDeleteEntry addr
  | .writeVolume addr vol => info.nvRecordBleWriteVolumeViaBdaddr addr vol

end Best1307.NvRecord
