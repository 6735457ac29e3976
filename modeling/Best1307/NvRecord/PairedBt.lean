import Best1307.Lib.Run
import Best1307.Lib.SlotArray

/-!
# The list of paired devices

`nvrecord_bt.c`: eight slots of `nvrec_btdevicerecord` and a count, the most recently used device first.
Every operation reads and writes slots by index; `none` is an index outside the array. Padding is left out
of `memcmp`: the records that are compared have none, and two entries compared whole differ in address.
-/

namespace Best1307.NvRecord

open SlotArray

/-- `bt_bdaddr_t`. -/
abbrev BdAddr := Vector UInt8 6

structure BtifDeviceRecord where
  bdAddr : BdAddr
  trusted : Bool
  forBtSource : Bool
  linkKey : Vector UInt8 16
  keyType : UInt8
  pinLen : UInt8
  cod : Vector UInt8 3
  remoteDevName : Vector UInt8 32
  deriving DecidableEq

structure BtdeviceVolume where
  a2dpVol : UInt8
  hfpVol : UInt8
  deriving DecidableEq

structure BtdeviceProfile where
  hfpAct : Bool
  a2dpAbsVol : UInt8
  a2dpAct : Bool
  a2dpCodectype : UInt8
  deriving DecidableEq

structure BtDipPnpInfo where
  specId : UInt16
  vendId : UInt16
  prodId : UInt16
  prodVer : UInt16
  primRec : UInt8
  vendIdSource : UInt16
  deriving DecidableEq

/-- `nvrec_btdevicerecord`, in a build with `BT_DIP_SUPPORT`. -/
structure NvrecBtdevicerecord where
  record : BtifDeviceRecord
  deviceVol : BtdeviceVolume
  devicePlf : BtdeviceProfile
  pnpInfo : BtDipPnpInfo
  deriving DecidableEq

/-- A slot that `memset` has cleared. -/
def NvrecBtdevicerecord.zero : NvrecBtdevicerecord where
  record := ⟨.replicate 6 0, false, false, .replicate 16 0, 0, 0, .replicate 3 0, .replicate 32 0⟩
  deviceVol := ⟨0, 0⟩
  devicePlf := ⟨false, 0, false, 0⟩
  pnpInfo := ⟨0, 0, 0, 0, 0, 0⟩

def maxBtPairedDeviceCount : Nat := 8

structure NvRecordPairedBtDevInfo where
  pairedDevNum : Nat
  pairedBtDevInfo : Vector NvrecBtdevicerecord maxBtPairedDeviceCount

def nvrecordRebuildPairedBtDevInfo : NvRecordPairedBtDevInfo := ⟨0, .replicate _ .zero⟩

/-- What the list takes from the codec: `hal_codec_get_default_dac_volume_index` and
`a2dp_convert_local_vol_to_bt_vol`. -/
structure CodecVolumes where
  defaultDacVolumeIndex : UInt8
  convertLocalVolToBtVol : UInt8 → UInt8

inductive BtStatus where
  | success
  | failed
  deriving DecidableEq

/-- What an operation does besides changing the list: its status, the record it copies out, whether it
asks for a flush, and the address it hands to the callbacks for new devices. -/
structure PairedAnswer where
  status : BtStatus
  record : Option BtifDeviceRecord
  isUpdateNv : Bool
  newlyPaired : Option BdAddr

def PairedAnswer.failed : PairedAnswer := ⟨.failed, none, false, none⟩

def PairedAnswer.updated : PairedAnswer := ⟨.success, none, true, none⟩

def nvRecordPairingInfoReset (v : CodecVolumes) (entry : NvrecBtdevicerecord) : NvrecBtdevicerecord :=
  { entry with
    deviceVol := ⟨v.defaultDacVolumeIndex, v.defaultDacVolumeIndex⟩
    devicePlf := { entry.devicePlf with
      hfpAct := false
      a2dpAbsVol := v.convertLocalVolToBtVol v.defaultDacVolumeIndex
      a2dpAct := false }
    pnpInfo := { entry.pnpInfo with vendId := 0, vendIdSource := 0 } }

namespace NvRecordPairedBtDevInfo

variable (v : CodecVolumes) (info : NvRecordPairedBtDevInfo)

/-- `nv_record_get_bt_pairing_info_index`; no index is its `-1`. -/
def nvRecordGetBtPairingInfoIndex (btAddr : BdAddr) : Option (Option Nat) :=
  findSlot (fun entry => entry.record.bdAddr == btAddr) info.pairedBtDevInfo info.pairedDevNum 0

/-- The entry a device gets that was not in the list. -/
def freshEntry (record : BtifDeviceRecord) : NvrecBtdevicerecord :=
  nvRecordPairingInfoReset v { NvrecBtdevicerecord.zero with record := record }

/-- The two loops that free slot 0 for a new device, and the count while it is free. -/
def freeHead : Option (Vector NvrecBtdevicerecord maxBtPairedDeviceCount × Nat) :=
  if maxBtPairedDeviceCount = info.pairedDevNum then
    (moveUp (maxBtPairedDeviceCount - 1) (maxBtPairedDeviceCount - 1) info.pairedBtDevInfo).map
      fun slots => (slots, info.pairedDevNum - 1)
  else
    (moveUp info.pairedDevNum info.pairedDevNum info.pairedBtDevInfo).map
      fun slots => (slots, info.pairedDevNum)

/-- `nv_record_ddbrec_add` where the address is not in the list. -/
def ddbrecAddNew (record : BtifDeviceRecord) : Option (NvRecordPairedBtDevInfo × PairedAnswer) := do
  let (slots, num) ← info.freeHead
  let slots ← writeSlot slots 0 (freshEntry v record)
  some (⟨num + 1, slots⟩,
    ⟨.success, none, true, if record.linkKey = .replicate 16 0 then none else some record.bdAddr⟩)

/-- `nv_record_ddbrec_add` where the entry stands at `index`. -/
def ddbrecAddExisting (record : BtifDeviceRecord) (index : Nat) :
    Option (NvRecordPairedBtDevInfo × PairedAnswer) := do
  let entry ← info.pairedBtDevInfo[index]?
  let isRecordChanged := entry.record ≠ record
  let (slots, isUpdateNv) ←
    if 0 < index then do
      let slots ← moveUp index index info.pairedBtDevInfo
      let slots ← writeSlot slots 0 entry
      let slots ← updateSlot slots 0 fun head => { head with record := record }
      some (slots, true)
    else if isRecordChanged then
      (updateSlot info.pairedBtDevInfo 0 fun head => { head with record := record }).map
        fun slots => (slots, true)
    else some (info.pairedBtDevInfo, false)
  let slots ← if isRecordChanged then updateSlot slots 0 (nvRecordPairingInfoReset v) else some slots
  some ({ info with pairedBtDevInfo := slots },
    ⟨.success, none, isUpdateNv, if isRecordChanged then some entry.record.bdAddr else none⟩)

def nvRecordDdbrecAdd (record : BtifDeviceRecord) : Option (NvRecordPairedBtDevInfo × PairedAnswer) := do
  match ← info.nvRecordGetBtPairingInfoIndex record.bdAddr with
  | none => info.ddbrecAddNew v record
  | some index => info.ddbrecAddExisting v record index

/-- `nv_record_change_order`. Its two loops copy slots `i + 1` to `i` for `i` from the current index up to
the target, or `i - 1` to `i` from the current index down to it. -/
def nvRecordChangeOrder (record : BtifDeviceRecord) (target : Nat) :
    Option (NvRecordPairedBtDevInfo × PairedAnswer) := do
  if info.pairedDevNum ≤ target then some (info, .failed)
  else
    match ← info.nvRecordGetBtPairingInfoIndex record.bdAddr with
    | none => some (info, .failed)
    | some current =>
        let there ← info.pairedBtDevInfo[target]?
        let entry ← info.pairedBtDevInfo[current]?
        if there ≠ entry then
          let slots ←
            if current < target then moveDown current (target - current) info.pairedBtDevInfo
            else moveUp current (current - target) info.pairedBtDevInfo
          let slots ← writeSlot slots target entry
          some ({ info with pairedBtDevInfo := slots }, .updated)
        else some (info, .failed)

def nvRecordDdbrecDelete (bdaddr : BdAddr) : Option (NvRecordPairedBtDevInfo × PairedAnswer) := do
  match ← info.nvRecordGetBtPairingInfoIndex bdaddr with
  | none => some (info, .failed)
  | some index =>
      let slots ← moveDown index (info.pairedDevNum - index - 1) info.pairedBtDevInfo
      let slots ← writeSlot slots (info.pairedDevNum - 1) .zero
      some (⟨info.pairedDevNum - 1, slots⟩, .updated)

def nvRecordDdbrecClear : NvRecordPairedBtDevInfo × PairedAnswer := ({ info with pairedDevNum := 0 }, .updated)

def nvRecordDdbrecClearAllBtPairedList : Option (NvRecordPairedBtDevInfo × PairedAnswer) := do
  let slots ← (List.range info.pairedDevNum).foldlM (fun slots k => writeSlot slots k .zero) info.pairedBtDevInfo
  some (⟨0, slots⟩, .updated)

def nvRecordDdbrecFind (bdAddr : BdAddr) : Option PairedAnswer := do
  match ← info.nvRecordGetBtPairingInfoIndex bdAddr with
  | none => some .failed
  | some index =>
      let entry ← info.pairedBtDevInfo[index]?
      some ⟨.success, some entry.record, false, none⟩

def nvRecordEnumDevRecords (index : Nat) : Option PairedAnswer := do
  if info.pairedDevNum ≤ index then some .failed
  else
    let entry ← info.pairedBtDevInfo[index]?
    some ⟨.success, some entry.record, false, none⟩

end NvRecordPairedBtDevInfo

/-- The setters of a device's own data: `nv_record_btdevicerecord_set_a2dp_vol` and its siblings,
`.._update_dev_cod`, `.._set_pnp_info` and the profile states. -/
inductive EntrySetting where
  | a2dpVol (vol : UInt8)
  | a2dpAbsVol (vol : UInt8)
  | hfpVol (vol : UInt8)
  | devCod (cod : Vector UInt8 3)
  | pnpInfo (pnp : BtDipPnpInfo)
  | a2dpProfileActiveState (isActive : Bool)
  | hfpProfileActiveState (isActive : Bool)
  | a2dpProfileCodec (codec : UInt8)

def EntrySetting.apply (entry : NvrecBtdevicerecord) : EntrySetting → NvrecBtdevicerecord
  | .a2dpVol vol => { entry with deviceVol := { entry.deviceVol with a2dpVol := vol } }
  | .a2dpAbsVol vol => { entry with devicePlf := { entry.devicePlf with a2dpAbsVol := vol } }
  | .hfpVol vol => { entry with deviceVol := { entry.deviceVol with hfpVol := vol } }
  | .devCod cod => { entry with record := { entry.record with cod := cod } }
  | .pnpInfo pnp => if pnp.vendId = entry.pnpInfo.vendId then entry else { entry with pnpInfo := pnp }
  | .a2dpProfileActiveState isActive =>
      { entry with devicePlf := { entry.devicePlf with a2dpAct := isActive } }
  | .hfpProfileActiveState isActive =>
      { entry with devicePlf := { entry.devicePlf with hfpAct := isActive } }
  | .a2dpProfileCodec codec => { entry with devicePlf := { entry.devicePlf with a2dpCodectype := codec } }

/-- `SECTIONS_ADP_ENUM`. -/
inductive SectionsAdp where
  | usrdataDdbrecord
  | none
  deriving DecidableEq

inductive PairedOp where
  /-- `nv_record_add`. -/
  | add (type : SectionsAdp) (record : BtifDeviceRecord)
  | changeOrder (record : BtifDeviceRecord) (target : Nat)
  | delete (bdaddr : BdAddr)
  | clear
  | clearAll
  | find (bdAddr : BdAddr)
  | enumerate (index : Nat)
  /-- A setter on the entry that `nv_record_btdevicerecord_find` has pointed out for this address. -/
  | set (bdAddr : BdAddr) (setting : EntrySetting)

/-- One operation on the list, with its answer. -/
def PairedOp.apply (v : CodecVolumes) (info : NvRecordPairedBtDevInfo) :
    PairedOp → Option (NvRecordPairedBtDevInfo × PairedAnswer)
  | .add type record =>
      match type with
      | .usrdataDdbrecord => info.nvRecordDdbrecAdd v record
      | .none => some (info, .failed)
  | .changeOrder record target => info.nvRecordChangeOrder record target
  | .delete bdaddr => info.nvRecordDdbrecDelete bdaddr
  | .clear => some info.nvRecordDdbrecClear
  | .clearAll => info.nvRecordDdbrecClearAllBtPairedList
  | .find bdAddr => (info.nvRecordDdbrecFind bdAddr).map fun answer => (info, answer)
  | .enumerate index => (info.nvRecordEnumDevRecords index).map fun answer => (info, answer)
  | .set bdAddr setting => do
      match ← info.nvRecordGetBtPairingInfoIndex bdAddr with
      | none => some (info, .failed)
      | some index =>
          let slots ← updateSlot info.pairedBtDevInfo index fun entry => setting.apply entry
          some ({ info with pairedBtDevInfo := slots }, .updated)

def pairedStep (v : CodecVolumes) (info : NvRecordPairedBtDevInfo) (op : PairedOp) :
    Option NvRecordPairedBtDevInfo :=
  (op.apply v info).map Prod.fst

end Best1307.NvRecord
