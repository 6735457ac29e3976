import Best1307.NvRecord.PairedBle

/-!
# What becomes of a bonded device's volume

Everything but one volume is kept by every operation. A device that is added again with a new record goes
to slot 0; without the buffer, slot 0 is left with what stood there, and the device takes over the volume
of the device it displaces.
-/

namespace Best1307.NvRecord

open SlotArray NvRecordPairedBleDevInfo

/-- The address an entry is found by. -/
def BleDeviceinfo.address (entry : BleDeviceinfo) : Vector UInt8 6 := entry.pairingInfo.peerAddr.addr

def othersThan (addr : Vector UInt8 6) (entries : List BleDeviceinfo) : List BleDeviceinfo :=
  entries.filter fun entry => entry.address ≠ addr

def NvRecordPairedBleDevInfo.entries (info : NvRecordPairedBleDevInfo) : List BleDeviceinfo :=
  listed info.bleNv info.savedListNum

/-- The list in order: no more entries than slots, and no address twice. -/
structure BondedList where
  info : NvRecordPairedBleDevInfo
  num_le : info.savedListNum ≤ bleRecordNum
  distinct : (info.entries.map BleDeviceinfo.address).Nodup

def BondedList.rebuilt : BondedList := ⟨nvrecordRebuildPairedBleDevInfo, Nat.zero_le _, List.nodup_nil⟩

/-- What the list promises its users of an operation: the added record is found, nobody else's entry is
touched except the last one's when a new device finds all slots taken, and a device keeps its volume. -/
def BleOp.Keeps (old new : List BleDeviceinfo) : BleOp → Prop
  | .add _ paramRec =>
      ((new.find? fun entry => entry.address == paramRec.peerAddr.addr).map (·.pairingInfo) =
          some paramRec) ∧
        (othersThan paramRec.peerAddr.addr new =
          if (∀ entry ∈ old, entry.address ≠ paramRec.peerAddr.addr) ∧ old.length = bleRecordNum then
            old.dropLast
          else othersThan paramRec.peerAddr.addr old) ∧
        ∀ entry ∈ old, entry.address = paramRec.peerAddr.addr →
          ∀ entry' ∈ new, entry'.address = paramRec.peerAddr.addr → entry'.volume = entry.volume
  | .deleteByIndex indexToDelete => new = old.eraseIdx indexToDelete
  | .deleteEntry addr => new = othersThan addr old
  | .writeVolume addr vol =>
      new = old.map fun entry => if entry.address = addr then { entry with volume := vol } else entry

/-- The preparation gets its buffer, or does without: the device is new, or its record is the one already
there, or it has the volume of the device at the head. -/
def BleOp.BufferOrNoNeed (old : List BleDeviceinfo) : BleOp → Prop
  | .add exist paramRec =>
      exist = true ∨ ∀ entry ∈ old, entry.address = paramRec.peerAddr.addr →
        entry.pairingInfo ≠ paramRec → ∀ head ∈ old.head?, entry.volume = head.volume
  | _ => True

namespace BondedList

variable (bleAudioVolume : Option UInt8) (t : BondedList)

theorem length_entries : t.info.entries.length = t.info.savedListNum := length_listed _ t.num_le

theorem slot_eq {i : Nat} (hi : i < t.info.entries.length) : t.info.bleNv[i]? = some t.info.entries[i] :=
  slot_eq_listed _ hi

theorem findAddr_cases (addr : Vector UInt8 6) :
    (t.info.findAddr addr = some none ∧ ∀ entry ∈ t.info.entries, entry.address ≠ addr) ∨
      ∃ i, ∃ hi : i < t.info.entries.length,
        t.info.findAddr addr = some (some i) ∧ t.info.entries[i].address = addr :=
  findSlot_cases BleDeviceinfo.address t.info.bleNv t.num_le addr

theorem entry_unique {i : Nat} (hi : i < t.info.entries.length) {entry : BleDeviceinfo}
    (hentry : entry ∈ t.info.entries) (haddr : entry.address = t.info.entries[i].address) :
    entry = t.info.entries[i] :=
  eq_getElem_of_key _ t.distinct hentry hi haddr

theorem eraseIdx_eq_othersThan {i : Nat} (hi : i < t.info.entries.length) {addr : Vector UInt8 6}
    (haddr : t.info.entries[i].address = addr) :
    t.info.entries.eraseIdx i = othersThan addr t.info.entries := by
  rw [othersThan, ← haddr]
  exact eraseIdx_eq_filter _ t.distinct hi

/-- The operation goes through and leaves the slots holding the list `l`, in order. -/
def Yields (outcome : Option NvRecordPairedBleDevInfo) (l : List BleDeviceinfo) : Prop :=
  ∃ t' : BondedList, outcome = some t'.info ∧ t'.info.entries = l

theorem yields_of {outcome : Option NvRecordPairedBleDevInfo} (info : NvRecordPairedBleDevInfo)
    {l : List BleDeviceinfo} (houtcome : outcome = some info) (hnum : info.savedListNum ≤ bleRecordNum)
    (hentries : info.entries = l) (hdistinct : (l.map BleDeviceinfo.address).Nodup) : Yields outcome l :=
  ⟨⟨info, hnum, hentries ▸ hdistinct⟩, houtcome, hentries⟩

/-! ### Adding -/

theorem prepareNew_eq (hpos : 0 < t.info.savedListNum) : ∃ gap slots, gap < bleRecordNum ∧
    (listed t.info.bleNv gap = if t.info.entries.length = bleRecordNum then
      t.info.entries.dropLast else t.info.entries) ∧
    moveUp gap gap t.info.bleNv = some slots ∧
    t.info.prepareNew = some ⟨gap, slots.set 0 .zero⟩ := by
  have hlen := t.length_entries
  have hnum := t.num_le
  unfold prepareNew
  by_cases hfull : bleRecordNum = t.info.savedListNum
  · obtain ⟨slots, hmoved, _⟩ := moveUp_spec t.info.bleNv (Nat.le_refl (bleRecordNum - 1)) (by decide)
    refine ⟨bleRecordNum - 1, slots, by decide, ?_, hmoved, ?_⟩
    · rw [if_pos (by omega), List.dropLast_eq_take, hlen, entries, listed, listed, List.take_take, ← hfull]
      rfl
    · rw [if_pos hfull, hmoved, ← hfull]
      rfl
  · obtain ⟨slots, hmoved, _⟩ := moveUp_spec t.info.bleNv (Nat.le_refl t.info.savedListNum) (by omega)
    refine ⟨t.info.savedListNum, slots, by omega, ?_, hmoved, ?_⟩
    · rw [if_neg (by omega), entries]
    · rw [if_neg hfull, if_pos hpos, hmoved]
      rfl

/-- Without the buffer slot 0 keeps what stood there, and a device that had to move takes that volume. -/
def movedVolume (exist : Bool) (i : Nat) (hi : i < t.info.entries.length) : UInt8 :=
  if exist then t.info.entries[i].volume else (t.info.entries[0]).volume

theorem prepareExist_eq (exist : Bool) (paramRec : BleDevicePairingInfo) {i : Nat}
    (hi : i < t.info.entries.length) : ∃ slots : Vector BleDeviceinfo bleRecordNum,
    (do
      let info ← t.info.prepareExist exist i
      let slots ← updateSlot info.bleNv 0 (fillHead bleAudioVolume .updateExist paramRec)
      some (⟨info.savedListNum + 1, slots⟩ : NvRecordPairedBleDevInfo)) =
        some ⟨t.info.savedListNum, slots⟩ ∧
      listed slots t.info.savedListNum =
        ⟨paramRec, t.movedVolume exist i hi⟩ :: t.info.entries.eraseIdx i := by
  have hlen := t.length_entries
  have hnum := t.num_le
  have hlt : i < bleRecordNum := by omega
  have hzero : 0 < bleRecordNum := by decide
  have hget : t.info.bleNv[i] = t.info.entries[i] := getElem_listed _ hi hlt
  have hhead : t.info.bleNv[0] = t.info.entries[0] := getElem_listed _ (Nat.zero_lt_of_lt hi) hzero
  -- the entry is cleared, and the entries above it move down over it
  let cleared : BleDeviceinfo := { t.info.entries[i] with pairingInfo := .zero }
  obtain ⟨moved, hmoved, hslot⟩ := moveUp_spec (t.info.bleNv.set i cleared) (Nat.le_refl i) hlt
  have hstale : moved[0].volume = t.info.entries[0].volume := by
    rw [hslot 0 hzero, if_neg (by omega), Vector.getElem_set]
    split
    · next hi0 =>
        subst hi0
        rfl
    · rw [hhead]
  refine ⟨moved.set 0 ⟨paramRec, t.movedVolume exist i hi⟩, ?_, ?_⟩
  · have hprepare : t.info.prepareExist exist i = some ⟨t.info.savedListNum - 1,
        if exist then moved.set 0 cleared else moved⟩ := by
      rw [prepareExist, updateSlot_of_lt hlt, hget]
      simp only [Option.bind_eq_bind, Option.bind_some]
      rw [Vector.getElem?_eq_getElem hlt, Vector.getElem_set_self]
      simp only [Option.bind_some]
      rw [show moveUp i i (t.info.bleNv.set i { t.info.entries[i] with pairingInfo := .zero }) =
        some moved from hmoved]
      cases exist with
      | false => rfl
      | true => simp only [Option.bind_some, if_true, writeSlot_of_lt hzero, cleared]
    rw [hprepare]
    simp only [Option.bind_eq_bind, Option.bind_some, updateSlot_of_lt hzero, Option.some.injEq,
      NvRecordPairedBleDevInfo.mk.injEq]
    refine ⟨by omega, ?_⟩
    cases exist with
    | false => simp [fillHead, movedVolume, hstale]
    | true => simp [fillHead, movedVolume, cleared]
  · rw [listed_moveUp_set (Nat.zero_le i) (by omega) hnum hmoved, relocate_zero, listed_set,
      List.eraseIdx_set_eq]
    rfl

theorem head?_entries {i : Nat} (hi : i < t.info.entries.length) :
    t.info.entries.head? = some (t.info.entries[0]) := by
  rw [List.head?_eq_getElem?, List.getElem?_eq_getElem (Nat.zero_lt_of_lt hi)]

theorem addNew_yields (exist : Bool) (paramRec : BleDevicePairingInfo)
    (habsent : ∀ entry ∈ t.info.entries, entry.address ≠ paramRec.peerAddr.addr)
    (hindex : t.info.findAddr paramRec.peerAddr.addr = some none) :
    ∃ volume, Yields (t.info.nvRecordBlerecAdd bleAudioVolume exist paramRec) (⟨paramRec, volume⟩ ::
      if t.info.entries.length = bleRecordNum then t.info.entries.dropLast else t.info.entries) := by
  have hzero : 0 < bleRecordNum := by decide
  -- whatever the slots hold when slot 0 is filled, it holds a list shifted by one
  obtain ⟨gap, slots, hgap, hrest, hprepared, hlisted⟩ : ∃ gap slots, gap < bleRecordNum ∧
      (listed t.info.bleNv gap = if t.info.entries.length = bleRecordNum then t.info.entries.dropLast
        else t.info.entries) ∧
      t.info.blerecSpecificValuePrepare exist paramRec = some (.addNewItem, ⟨gap, slots⟩) ∧
      ∀ x, listed (slots.set 0 x) (gap + 1) = x :: listed t.info.bleNv gap := by
    by_cases hpos : 0 < t.info.savedListNum
    · obtain ⟨gap, moved, hgap, hrest, hmoved, hnew⟩ := t.prepareNew_eq hpos
      refine ⟨gap, moved.set 0 .zero, hgap, hrest, ?_, fun x => ?_⟩
      · rw [blerecSpecificValuePrepare, if_pos hpos, hindex, Option.bind_eq_bind, Option.bind_some]
        simp only [hnew, Option.map_some]
      · rw [Vector.set_set]
        exact listed_push hgap hmoved x
    · have hnum : t.info.savedListNum = 0 := by omega
      have hempty : t.info.entries = [] := by
        rw [entries, hnum]
        rfl
      refine ⟨0, t.info.bleNv, hzero, ?_, ?_, fun x => ?_⟩
      · rw [hempty]
        rfl
      · rw [blerecSpecificValuePrepare, if_neg hpos, ← hnum]
      · exact listed_push hzero rfl x
  refine ⟨bleAudioVolume.getD slots[0].volume, ?_⟩
  rw [← hrest]
  refine yields_of ⟨gap + 1, slots.set 0 (fillHead bleAudioVolume .addNewItem paramRec slots[0])⟩
    ?_ hgap (hlisted _) ?_
  · rw [nvRecordBlerecAdd, hprepared]
    simp only [Option.bind_eq_bind, Option.bind_some, updateSlot_of_lt hzero]
  · rw [hrest]
    exact nodup_map_push _ t.distinct habsent

theorem addSame_yields (exist : Bool) (paramRec : BleDevicePairingInfo) {i : Nat}
    (hi : i < t.info.entries.length)
    (hindex : t.info.findAddr paramRec.peerAddr.addr = some (some i))
    (hsame : paramRec = t.info.entries[i].pairingInfo) :
    Yields (t.info.nvRecordBlerecAdd bleAudioVolume exist paramRec) t.info.entries := by
  have hpos : 0 < t.info.savedListNum := by
    have := t.length_entries
    omega
  refine ⟨t, ?_, rfl⟩
  rw [nvRecordBlerecAdd, blerecSpecificValuePrepare, if_pos hpos, hindex]
  simp only [Option.bind_eq_bind, Option.bind_some, t.slot_eq hi, if_pos hsame]

/-- A new record of a device that is in the list brings it to the head. -/
theorem addChanged_yields (exist : Bool) (paramRec : BleDevicePairingInfo) {i : Nat}
    (hi : i < t.info.entries.length)
    (hindex : t.info.findAddr paramRec.peerAddr.addr = some (some i))
    (haddr : t.info.entries[i].address = paramRec.peerAddr.addr)
    (hdiffers : paramRec ≠ t.info.entries[i].pairingInfo) :
    Yields (t.info.nvRecordBlerecAdd bleAudioVolume exist paramRec)
      (⟨paramRec, t.movedVolume exist i hi⟩ :: othersThan paramRec.peerAddr.addr t.info.entries) := by
  have hpos : 0 < t.info.savedListNum := by
    have := t.length_entries
    omega
  obtain ⟨slots, hprepare, hlisted⟩ := t.prepareExist_eq bleAudioVolume exist paramRec hi
  refine yields_of ⟨t.info.savedListNum, slots⟩ ?_ t.num_le ?_ ?_
  · rw [← hprepare, nvRecordBlerecAdd, blerecSpecificValuePrepare, if_pos hpos, hindex]
    simp only [Option.bind_eq_bind, Option.bind_some, t.slot_eq hi, if_neg hdiffers]
    cases t.info.prepareExist exist i <;> rfl
  · rw [← t.eraseIdx_eq_othersThan hi haddr]
    exact hlisted
  · rw [← t.eraseIdx_eq_othersThan hi haddr, ← relocate_zero]
    exact nodup_relocate _ t.distinct hi (Nat.zero_lt_of_lt hi) haddr.symm

/-! ### The other operations -/

theorem deleteByIndex_yields (index : Nat) :
    Yields (t.info.nvRecordBleDeleteEntryByIndex index) (t.info.entries.eraseIdx index) := by
  have hlen := t.length_entries
  have hnum := t.num_le
  unfold nvRecordBleDeleteEntryByIndex
  by_cases hindex : index < t.info.savedListNum
  · have hlt : t.info.savedListNum - 1 < bleRecordNum := by omega
    obtain ⟨moved, hmoved, _⟩ := moveDown_spec t.info.bleNv
      (show index + (t.info.savedListNum - 1 - index) < bleRecordNum by omega)
    refine yields_of ⟨t.info.savedListNum - 1, moved.set (t.info.savedListNum - 1) .zero⟩ ?_
      (Nat.le_of_lt hlt) (listed_erase hindex hnum hmoved _) ?_
    · rw [if_pos hindex, hmoved]
      simp only [Option.bind_eq_bind, Option.bind_some, writeSlot_of_lt hlt]
    · exact t.distinct.sublist ((List.eraseIdx_sublist _ _).map _)
  · rw [if_neg hindex, List.eraseIdx_of_length_le (by omega)]
    exact ⟨t, rfl, rfl⟩

theorem deleteEntry_yields (addr : Vector UInt8 6) :
    Yields (t.info.nvRecordBleDeleteEntry addr) (othersThan addr t.info.entries) := by
  unfold nvRecordBleDeleteEntry
  rcases t.findAddr_cases addr with ⟨hindex, habsent⟩ | ⟨i, hi, hindex, haddr⟩
  · rw [hindex, othersThan, List.filter_eq_self.mpr fun entry hentry => decide_eq_true (habsent entry hentry)]
    exact ⟨t, rfl, rfl⟩
  · rw [hindex, ← t.eraseIdx_eq_othersThan hi haddr]
    exact t.deleteByIndex_yields i

theorem writeVolume_yields (addr : Vector UInt8 6) (vol : UInt8) :
    Yields (t.info.nvRecordBleWriteVolumeViaBdaddr addr vol)
      (t.info.entries.map fun entry =>
        if entry.address = addr then { entry with volume := vol } else entry) := by
  have hlen := t.length_entries
  have hnum := t.num_le
  unfold nvRecordBleWriteVolumeViaBdaddr
  rcases t.findAddr_cases addr with ⟨hindex, habsent⟩ | ⟨i, hi, hindex, haddr⟩
  · have hsame : (t.info.entries.map fun entry =>
        if entry.address = addr then { entry with volume := vol } else entry) = t.info.entries :=
      (List.map_congr_left fun entry hentry => if_neg (habsent entry hentry)).trans (List.map_id _)
    rw [hindex, hsame]
    exact ⟨t, rfl, rfl⟩
  · have hlt : i < bleRecordNum := by omega
    refine yields_of { t.info with bleNv := t.info.bleNv.set i { t.info.bleNv[i] with volume := vol } } ?_
      hnum ?_ ?_
    · rw [hindex]
      simp only [Option.bind_eq_bind, Option.bind_some, updateSlot_of_lt hlt]
    · exact listed_update BleDeviceinfo.address hnum t.distinct hi hlt haddr
        fun entry => { entry with volume := vol }
    · exact nodup_map_update BleDeviceinfo.address t.distinct
        (fun entry => (rfl : BleDeviceinfo.address { entry with volume := vol } = entry.address)) addr

/-! ### What is kept -/

theorem othersThan_cons {addr : Vector UInt8 6} {entry : BleDeviceinfo} (rest : List BleDeviceinfo)
    (h : entry.address = addr) : othersThan addr (entry :: rest) = othersThan addr rest := by
  rw [othersThan, List.filter_cons, if_neg (by simp [h]), othersThan]

theorem othersThan_of_absent {addr : Vector UInt8 6} {entries : List BleDeviceinfo}
    (h : ∀ entry ∈ entries, entry.address ≠ addr) : othersThan addr entries = entries :=
  List.filter_eq_self.mpr fun entry hentry => decide_eq_true (h entry hentry)

theorem keeps_new {old rest : List BleDeviceinfo} {exist : Bool} {paramRec : BleDevicePairingInfo}
    (volume : UInt8) (habsent : ∀ entry ∈ old, entry.address ≠ paramRec.peerAddr.addr)
    (hrest : rest = if old.length = bleRecordNum then old.dropLast else old) :
    (BleOp.add exist paramRec).Keeps old (⟨paramRec, volume⟩ :: rest) := by
  have hrestAbsent : ∀ entry ∈ rest, entry.address ≠ paramRec.peerAddr.addr := by
    intro entry hentry
    rw [hrest] at hentry
    split at hentry
    · exact habsent entry (List.dropLast_subset _ hentry)
    · exact habsent entry hentry
  refine ⟨?_, ?_, fun entry hentry haddr => absurd haddr (habsent entry hentry)⟩
  · simp [BleDeviceinfo.address]
  · have hhead : BleDeviceinfo.address ⟨paramRec, volume⟩ = paramRec.peerAddr.addr := rfl
    rw [othersThan_cons rest hhead, othersThan_of_absent hrestAbsent, hrest]
    by_cases hfull : old.length = bleRecordNum
    · rw [if_pos hfull, if_pos ⟨habsent, hfull⟩]
    · rw [if_neg hfull, if_neg fun h => hfull h.2, othersThan_of_absent habsent]

/-- A device that was there, at the head with its new record: only its volume is in question. -/
theorem keeps_moved_iff (exist : Bool) (paramRec : BleDevicePairingInfo) {i : Nat}
    (hi : i < t.info.entries.length) (haddr : t.info.entries[i].address = paramRec.peerAddr.addr)
    (volume : UInt8) :
    (BleOp.add exist paramRec).Keeps t.info.entries
        (⟨paramRec, volume⟩ :: othersThan paramRec.peerAddr.addr t.info.entries) ↔
      volume = t.info.entries[i].volume := by
  constructor
  · rintro ⟨_, _, hvolume⟩
    exact hvolume _ (List.getElem_mem hi) haddr _ List.mem_cons_self rfl
  · intro hvolume
    refine ⟨?_, ?_, fun entry hentry hsame entry' hentry' hsame' => ?_⟩
    · simp [BleDeviceinfo.address]
    · have hpresent : ¬ ((∀ entry ∈ t.info.entries, entry.address ≠ paramRec.peerAddr.addr) ∧
          t.info.entries.length = bleRecordNum) := fun h => h.1 _ (List.getElem_mem hi) haddr
      have hhead : BleDeviceinfo.address ⟨paramRec, volume⟩ = paramRec.peerAddr.addr := rfl
      rw [othersThan_cons _ hhead, if_neg hpresent, othersThan, othersThan, List.filter_filter]
      simp only [Bool.and_self]
    · rw [t.entry_unique hi hentry (hsame.trans haddr.symm), ← hvolume]
      rcases List.mem_cons.mp hentry' with rfl | hother
      · rfl
      · exact absurd hsame' (by simpa using (List.mem_filter.mp hother).2)

theorem keeps_same (exist : Bool) (paramRec : BleDevicePairingInfo) {i : Nat}
    (hi : i < t.info.entries.length) (haddr : t.info.entries[i].address = paramRec.peerAddr.addr)
    (hsame : paramRec = t.info.entries[i].pairingInfo) :
    (BleOp.add exist paramRec).Keeps t.info.entries t.info.entries := by
  refine ⟨?_, ?_, fun entry hentry h entry' hentry' h' => ?_⟩
  · rw [find?_eq_getElem BleDeviceinfo.address t.distinct hi haddr, Option.map_some, hsame]
  · exact (if_neg fun h => h.1 _ (List.getElem_mem hi) haddr).symm
  · rw [t.entry_unique hi hentry (h.trans haddr.symm), t.entry_unique hi hentry' (h'.trans haddr.symm)]

/-- Whether the device at `i` takes the volume it had is whether the buffer was had or not needed. -/
theorem movedVolume_eq_iff (exist : Bool) (paramRec : BleDevicePairingInfo) {i : Nat}
    (hi : i < t.info.entries.length) (haddr : t.info.entries[i].address = paramRec.peerAddr.addr)
    (hdiffers : paramRec ≠ t.info.entries[i].pairingInfo) :
    t.movedVolume exist i hi = t.info.entries[i].volume ↔
      (BleOp.add exist paramRec).BufferOrNoNeed t.info.entries := by
  cases exist with
  | true => exact ⟨fun _ => .inl rfl, fun _ => rfl⟩
  | false =>
      constructor
      · intro hvolume
        refine .inr fun entry hentry hsame _ head hhead => ?_
        rw [t.head?_entries hi] at hhead
        obtain rfl := Option.some.inj hhead
        rw [t.entry_unique hi hentry (hsame.trans haddr.symm)]
        exact hvolume.symm
      · rintro (hexist | hneed)
        · contradiction
        · exact (hneed _ (List.getElem_mem hi) haddr hdiffers.symm _ (t.head?_entries hi)).symm

/-- Every operation goes through on a list in order and leaves one; it keeps its promises exactly if an
addition got its buffer or had no need of it. -/
theorem keeps_iff (op : BleOp) : ∃ t' : BondedList,
    bleStep bleAudioVolume t.info op = some t'.info ∧
      (op.Keeps t.info.entries t'.info.entries ↔ op.BufferOrNoNeed t.info.entries) := by
  cases op with
  | add exist paramRec =>
      rcases t.findAddr_cases paramRec.peerAddr.addr with ⟨hindex, habsent⟩ | ⟨i, hi, hindex, haddr⟩
      · obtain ⟨volume, t', hstep, hentries⟩ := t.addNew_yields bleAudioVolume exist paramRec habsent hindex
        refine ⟨t', hstep, iff_of_true ?_ ?_⟩
        · rw [hentries]
          exact keeps_new volume habsent rfl
        · exact .inr fun entry hentry hsame => absurd hsame (habsent entry hentry)
      · by_cases hsame : paramRec = t.info.entries[i].pairingInfo
        · obtain ⟨t', hstep, hentries⟩ := t.addSame_yields bleAudioVolume exist paramRec hi hindex hsame
          refine ⟨t', hstep, iff_of_true ?_ (.inr fun entry hentry hsame' hdiffers => ?_)⟩
          · rw [hentries]
            exact t.keeps_same exist paramRec hi haddr hsame
          · rw [t.entry_unique hi hentry (hsame'.trans haddr.symm)] at hdiffers
            exact absurd hsame.symm hdiffers
        · obtain ⟨t', hstep, hentries⟩ :=
            t.addChanged_yields bleAudioVolume exist paramRec hi hindex haddr hsame
          refine ⟨t', hstep, ?_⟩
          rw [hentries, t.keeps_moved_iff exist paramRec hi haddr]
          exact t.movedVolume_eq_iff exist paramRec hi haddr hsame
  | deleteByIndex index =>
      obtain ⟨t', hstep, hentries⟩ := t.deleteByIndex_yields index
      exact ⟨t', hstep, iff_of_true hentries trivial⟩
  | deleteEntry addr =>
      obtain ⟨t', hstep, hentries⟩ := t.deleteEntry_yields addr
      exact ⟨t', hstep, iff_of_true hentries trivial⟩
  | writeVolume addr vol =>
      obtain ⟨t', hstep, hentries⟩ := t.writeVolume_yields addr vol
      exact ⟨t', hstep, iff_of_true hentries trivial⟩

end BondedList

/-- From a list in order, any operations lead to a list in order, and there every further operation keeps
its promises exactly if, as an addition, it got its buffer or had no need of it. -/
theorem bondedList_keeps_iff (bleAudioVolume : Option UInt8) (start : BondedList) (ops : List BleOp) :
    ∃ t : BondedList, run (bleStep bleAudioVolume) start.info ops = some t.info ∧
      ∀ op : BleOp, ∃ t' : BondedList, bleStep bleAudioVolume t.info op = some t'.info ∧
        (op.Keeps t.info.entries t'.info.entries ↔ op.BufferOrNoNeed t.info.entries) := by
  induction ops generalizing start with
  | nil => exact ⟨start, rfl, start.keeps_iff bleAudioVolume⟩
  | cons op ops ih =>
      obtain ⟨next, hstep, _⟩ := start.keeps_iff bleAudioVolume op
      obtain ⟨t, hrun, hkeeps⟩ := ih next
      refine ⟨t, ?_, hkeeps⟩
      rw [run_cons, hstep]
      exact hrun

/-- A record of the device whose address bytes are all `addr`, with a key of its own. -/
def bondOf (addr key : UInt8) : BleDevicePairingInfo :=
  { BleDevicePairingInfo.zero with
    peerAddr := ⟨.replicate 6 addr, 0⟩
    ltk := .replicate 16 key }

/-- Device 1 is set to volume 30 and device 2, bonded later, to 90; device 1 pairs again while there is no
buffer, and comes back with the volume of device 2. -/
theorem add_without_buffer_takes_volume :
    ∃ old new : BondedList,
      run (bleStep none) BondedList.rebuilt.info
          [.add true (bondOf 1 1), .writeVolume (.replicate 6 1) 30, .add true (bondOf 2 2),
            .writeVolume (.replicate 6 2) 90] = some old.info ∧
        bleStep none old.info (.add false (bondOf 1 3)) = some new.info ∧
        ¬ (BleOp.add false (bondOf 1 3)).Keeps old.info.entries new.info.entries := by
  have hstart : ∃ old : BondedList, run (bleStep none) BondedList.rebuilt.info
      [.add true (bondOf 1 1), .writeVolume (.replicate 6 1) 30, .add true (bondOf 2 2),
        .writeVolume (.replicate 6 2) 90] = some old.info ∧
      old.info.entries = [⟨bondOf 2 2, 90⟩, ⟨bondOf 1 1, 30⟩] := by
    refine ⟨⟨⟨2, #v[⟨bondOf 2 2, 90⟩, ⟨bondOf 1 1, 30⟩, .zero, .zero, .zero]⟩, by decide, by decide⟩, ?_, ?_⟩
    · rfl
    · rfl
  obtain ⟨old, hrun, hentries⟩ := hstart
  obtain ⟨new, hstep, hiff⟩ := old.keeps_iff none (.add false (bondOf 1 3))
  refine ⟨old, new, hrun, hstep, fun hkeeps => ?_⟩
  rcases hiff.mp hkeeps with h | h
  · contradiction
  · rw [hentries] at h
    have hvolume := h ⟨bondOf 1 1, 30⟩ (by simp) rfl (by decide) ⟨bondOf 2 2, 90⟩ (by simp)
    exact absurd hvolume (by decide)

end Best1307.NvRecord
