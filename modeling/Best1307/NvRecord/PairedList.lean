import Best1307.NvRecord.PairedBt

/-!
# What the slots hold is a list

The first `pairedDevNum` slots read as a list with one entry for each address. Each operation is shown to
do to this list what it is for: bring a device to the head, move one to a place, drop one.
-/

namespace Best1307.NvRecord

open SlotArray NvRecordPairedBtDevInfo

/-- The address an entry is found by. -/
def NvrecBtdevicerecord.address (entry : NvrecBtdevicerecord) : BdAddr := entry.record.bdAddr

def without (bdAddr : BdAddr) (entries : List NvrecBtdevicerecord) : List NvrecBtdevicerecord :=
  entries.filter fun entry => entry.address ≠ bdAddr

namespace NvRecordPairedBtDevInfo

def entries (info : NvRecordPairedBtDevInfo) : List NvrecBtdevicerecord :=
  listed info.pairedBtDevInfo info.pairedDevNum

end NvRecordPairedBtDevInfo

/-- The list in order: no more entries than slots, and no address twice. -/
structure PairedList where
  info : NvRecordPairedBtDevInfo
  num_le : info.pairedDevNum ≤ maxBtPairedDeviceCount
  distinct : (info.entries.map (·.address)).Nodup

def PairedList.rebuilt : PairedList where
  info := nvrecordRebuildPairedBtDevInfo
  num_le := Nat.zero_le _
  distinct := List.nodup_nil

/-- What becomes of the entry of a device that is added again. -/
def refreshed (v : CodecVolumes) (record : BtifDeviceRecord) (entry : NvrecBtdevicerecord) :
    NvrecBtdevicerecord :=
  if entry.record = record then entry else nvRecordPairingInfoReset v { entry with record := record }

/-- What an operation is for, on the list of entries. -/
def PairedOp.Effect (v : CodecVolumes) (old new : List NvrecBtdevicerecord) (answer : PairedAnswer) :
    PairedOp → Prop
  | .add .usrdataDdbrecord record =>
      (∃ head rest, new = head :: rest ∧ head.record = record) ∧
        (∀ entry ∈ old, entry.address = record.bdAddr →
          new = refreshed v record entry :: without record.bdAddr old) ∧
        ((∀ entry ∈ old, entry.address ≠ record.bdAddr) →
          new = freshEntry v record ::
            if old.length = maxBtPairedDeviceCount then old.dropLast else old)
  | .add .none _ => new = old
  | .changeOrder record target =>
      new.Perm old ∧ without record.bdAddr new = without record.bdAddr old ∧
        (∀ entry ∈ old, entry.address = record.bdAddr → target < old.length →
          new[target]? = some entry) ∧
        ((∀ entry ∈ old, entry.address ≠ record.bdAddr) ∨ old.length ≤ target → new = old)
  | .delete bdaddr => new = without bdaddr old
  | .clear | .clearAll => new = []
  | .find bdAddr =>
      new = old ∧ answer.record = (old.find? fun entry => entry.address == bdAddr).map (·.record)
  | .enumerate index => new = old ∧ answer.record = old[index]?.map (·.record)
  | .set bdAddr setting =>
      new = old.map fun entry => if entry.address = bdAddr then setting.apply entry else entry

namespace PairedList

variable (v : CodecVolumes) (t : PairedList)

theorem length_entries : t.info.entries.length = t.info.pairedDevNum :=
  length_listed _ t.num_le

theorem slot_eq {i : Nat} (hi : i < t.info.entries.length) :
    t.info.pairedBtDevInfo[i]? = some t.info.entries[i] :=
  slot_eq_listed _ hi

theorem index_cases (bdAddr : BdAddr) :
    (t.info.nvRecordGetBtPairingInfoIndex bdAddr = some none ∧
        ∀ entry ∈ t.info.entries, entry.address ≠ bdAddr) ∨
      ∃ i, ∃ hi : i < t.info.entries.length,
        t.info.nvRecordGetBtPairingInfoIndex bdAddr = some (some i) ∧
          t.info.entries[i].address = bdAddr :=
  findSlot_cases NvrecBtdevicerecord.address t.info.pairedBtDevInfo t.num_le bdAddr

theorem entry_unique {i : Nat} (hi : i < t.info.entries.length) {entry : NvrecBtdevicerecord}
    (hentry : entry ∈ t.info.entries) (haddr : entry.address = t.info.entries[i].address) :
    entry = t.info.entries[i] :=
  eq_getElem_of_key _ t.distinct hentry hi haddr

theorem eraseIdx_eq_without {i : Nat} (hi : i < t.info.entries.length) {bdAddr : BdAddr}
    (haddr : t.info.entries[i].address = bdAddr) :
    t.info.entries.eraseIdx i = without bdAddr t.info.entries := by
  rw [without, ← haddr]
  exact eraseIdx_eq_filter _ t.distinct hi

/-- The operation goes through and leaves the slots holding the list `l`, in order. -/
def Yields (outcome : Option (NvRecordPairedBtDevInfo × PairedAnswer)) (l : List NvrecBtdevicerecord) :
    Prop :=
  ∃ info answer, outcome = some (info, answer) ∧ info.pairedDevNum ≤ maxBtPairedDeviceCount ∧
    info.entries = l ∧ (l.map (·.address)).Nodup

@[simp] theorem freshEntry_record (record : BtifDeviceRecord) : (freshEntry v record).record = record := rfl

@[simp] theorem refreshed_record (record : BtifDeviceRecord) (entry : NvrecBtdevicerecord) :
    (refreshed v record entry).record = record := by
  unfold refreshed
  split
  · assumption
  · rfl

/-! ### Adding -/

/-- The room that is made for a new device: the last entry goes if there is none. -/
theorem freeHead_eq : ∃ gap, gap < maxBtPairedDeviceCount ∧
    (listed t.info.pairedBtDevInfo gap = if t.info.entries.length = maxBtPairedDeviceCount then
      t.info.entries.dropLast else t.info.entries) ∧
    t.info.freeHead = (moveUp gap gap t.info.pairedBtDevInfo).map fun slots => (slots, gap) := by
  have hlen := t.length_entries
  have hnum := t.num_le
  unfold freeHead
  by_cases hfull : maxBtPairedDeviceCount = t.info.pairedDevNum
  · refine ⟨maxBtPairedDeviceCount - 1, by decide, ?_, ?_⟩
    · rw [if_pos (by omega), List.dropLast_eq_take, hlen, entries, listed, listed, List.take_take, ← hfull]
      rfl
    · rw [if_pos hfull, ← hfull]
  · refine ⟨t.info.pairedDevNum, by omega, ?_, ?_⟩
    · rw [if_neg (by omega), entries]
    · rw [if_neg hfull]

theorem addNew_yields (record : BtifDeviceRecord)
    (habsent : ∀ entry ∈ t.info.entries, entry.address ≠ record.bdAddr) :
    Yields (t.info.ddbrecAddNew v record) (freshEntry v record ::
      if t.info.entries.length = maxBtPairedDeviceCount then t.info.entries.dropLast
      else t.info.entries) := by
  obtain ⟨gap, hgap, hrest, hopen⟩ := t.freeHead_eq
  obtain ⟨slots, hmoved, _⟩ := moveUp_spec t.info.pairedBtDevInfo (Nat.le_refl gap) hgap
  refine ⟨⟨gap + 1, slots.set 0 (freshEntry v record) (by omega)⟩,
    ⟨.success, none, true, if record.linkKey = .replicate 16 0 then none else some record.bdAddr⟩,
    ?_, hgap, ?_, ?_⟩
  · rw [ddbrecAddNew, hopen, hmoved]
    simp only [Option.map_some, Option.bind_eq_bind, Option.bind_some,
      writeSlot_of_lt (show 0 < maxBtPairedDeviceCount by decide)]
  · rw [← hrest, entries, listed_push hgap hmoved]
  · exact nodup_map_push _ t.distinct habsent

/-- The entry of a device that is added again ends in slot 0 with the new record, whether it had to move
there or not. -/
theorem ddbrecAddExisting_eq (record : BtifDeviceRecord) {i : Nat} (hi : i < t.info.entries.length)
    {moved : Vector NvrecBtdevicerecord maxBtPairedDeviceCount}
    (hmoved : moveUp i i t.info.pairedBtDevInfo = some moved) :
    t.info.ddbrecAddExisting v record i =
      some ({ t.info with pairedBtDevInfo := moved.set 0 (refreshed v record t.info.entries[i]) },
        ⟨.success, none, decide (0 < i ∨ t.info.entries[i].record ≠ record),
          if t.info.entries[i].record ≠ record then some t.info.entries[i].address else none⟩) := by
  have hzero : 0 < maxBtPairedDeviceCount := by decide
  rw [ddbrecAddExisting, t.slot_eq hi]
  simp only [Option.bind_eq_bind, Option.bind_some]
  rcases Nat.eq_zero_or_pos i with rfl | hpos
  · obtain rfl : t.info.pairedBtDevInfo = moved := Option.some.inj hmoved
    have hhead : t.info.pairedBtDevInfo[0] = t.info.entries[0] := getElem_listed _ hi hzero
    by_cases hchanged : t.info.entries[0].record = record
    · have hsame : t.info.pairedBtDevInfo.set 0 t.info.entries[0] = t.info.pairedBtDevInfo := by
        rw [← hhead, Vector.set_getElem_self]
      simp [hchanged, refreshed, hsame]
    · simp [hchanged, refreshed, updateSlot_of_lt hzero, hhead, NvrecBtdevicerecord.address]
  · by_cases hchanged : t.info.entries[i].record = record
    · subst hchanged
      simp [hpos, hmoved, refreshed, writeSlot_of_lt hzero, updateSlot_of_lt hzero]
    · simp [hpos, hchanged, hmoved, refreshed, writeSlot_of_lt hzero, updateSlot_of_lt hzero,
        NvrecBtdevicerecord.address]

theorem addExisting_yields (record : BtifDeviceRecord) {i : Nat} (hi : i < t.info.entries.length)
    (haddr : t.info.entries[i].address = record.bdAddr) :
    Yields (t.info.ddbrecAddExisting v record i)
      (refreshed v record t.info.entries[i] :: without record.bdAddr t.info.entries) := by
  have hlen := t.length_entries
  have hnum := t.num_le
  have hlt : i < maxBtPairedDeviceCount := by omega
  have haddress : (refreshed v record t.info.entries[i]).address = t.info.entries[i].address := by
    rw [haddr, NvrecBtdevicerecord.address, refreshed_record]
  obtain ⟨moved, hmoved, _⟩ := moveUp_spec t.info.pairedBtDevInfo (Nat.sub_le i 0) hlt
  refine ⟨_, _, t.ddbrecAddExisting_eq v record hi hmoved, hnum, ?_, ?_⟩
  · refine (listed_moveUp_set (Nat.zero_le i) (by omega) hnum hmoved _).trans ?_
    rw [relocate_zero]
    exact congrArg _ (t.eraseIdx_eq_without hi haddr)
  · rw [← t.eraseIdx_eq_without hi haddr, ← relocate_zero]
    exact nodup_relocate _ t.distinct hi (by omega) haddress

/-! ### Moving and deleting -/

theorem changeOrder_yields (record : BtifDeviceRecord) {i target : Nat} (hi : i < t.info.entries.length)
    (hindex : t.info.nvRecordGetBtPairingInfoIndex record.bdAddr = some (some i))
    (htarget : target < t.info.entries.length) :
    Yields (t.info.nvRecordChangeOrder record target)
      (relocate t.info.entries i target t.info.entries[i]) := by
  have hlen := t.length_entries
  have hnum := t.num_le
  have hlt : i < maxBtPairedDeviceCount := by omega
  have hlt' : target < maxBtPairedDeviceCount := by omega
  have hnodup := nodup_relocate _ t.distinct hi htarget (rfl : t.info.entries[i].address = _)
  unfold nvRecordChangeOrder
  rw [if_neg (by omega), hindex, Option.bind_eq_bind, Option.bind_some]
  simp only [t.slot_eq hi, t.slot_eq htarget, Option.bind_eq_bind, Option.bind_some]
  by_cases hthere : t.info.entries[target] = t.info.entries[i]
  · -- two equal entries would have one address, so the device stands there already
    obtain rfl : target = i :=
      (List.Nodup.getElem_inj_iff (List.Nodup.of_map _ t.distinct)).mp hthere
    rw [if_neg (not_not.mpr rfl)]
    refine ⟨t.info, .failed, rfl, hnum, ?_, hnodup⟩
    rw [relocate, List.insertIdx_eraseIdx_getElem hi]
  · have hne : i ≠ target := by
      rintro rfl
      exact hthere rfl
    rw [if_pos hthere]
    rcases Nat.lt_or_ge i target with hless | hless
    · obtain ⟨moved, hmoved, _⟩ :=
        moveDown_spec t.info.pairedBtDevInfo (show i + (target - i) < maxBtPairedDeviceCount by omega)
      rw [if_pos hless, hmoved]
      simp only [Option.bind_some, writeSlot_of_lt hlt']
      exact ⟨_, _, rfl, hnum, listed_moveDown_set (Nat.le_of_lt hless) (by omega) hnum hmoved _, hnodup⟩
    · obtain ⟨moved, hmoved, _⟩ := moveUp_spec t.info.pairedBtDevInfo (Nat.sub_le i target) hlt
      rw [if_neg (by omega), hmoved]
      simp only [Option.bind_some, writeSlot_of_lt hlt']
      exact ⟨_, _, rfl, hnum, listed_moveUp_set hless (by omega) hnum hmoved _, hnodup⟩

theorem delete_yields (bdAddr : BdAddr) {i : Nat} (hi : i < t.info.entries.length)
    (hindex : t.info.nvRecordGetBtPairingInfoIndex bdAddr = some (some i))
    (haddr : t.info.entries[i].address = bdAddr) :
    Yields (t.info.nvRecordDdbrecDelete bdAddr) (without bdAddr t.info.entries) := by
  have hlen := t.length_entries
  have hnum := t.num_le
  have hlt : t.info.pairedDevNum - 1 < maxBtPairedDeviceCount := by omega
  have hcount : t.info.pairedDevNum - i - 1 = t.info.pairedDevNum - 1 - i := by omega
  obtain ⟨moved, hmoved, _⟩ := moveDown_spec t.info.pairedBtDevInfo
    (show i + (t.info.pairedDevNum - 1 - i) < maxBtPairedDeviceCount by omega)
  unfold nvRecordDdbrecDelete
  rw [hindex, Option.bind_eq_bind, Option.bind_some]
  simp only [hcount, hmoved, Option.bind_eq_bind, Option.bind_some, writeSlot_of_lt hlt]
  refine ⟨⟨t.info.pairedDevNum - 1, moved.set (t.info.pairedDevNum - 1) .zero hlt⟩, .updated, rfl,
    Nat.le_of_lt hlt, ?_, ?_⟩
  · exact (listed_erase (by omega) hnum hmoved _).trans (t.eraseIdx_eq_without hi haddr)
  · exact t.distinct.sublist ((List.filter_sublist).map _)

/-- A setter on an entry that the search has found changes this entry and keeps its address. -/
theorem set_yields (bdAddr : BdAddr) (setting : EntrySetting) {i : Nat} (hi : i < t.info.entries.length)
    (haddr : t.info.entries[i].address = bdAddr) :
    Yields ((updateSlot t.info.pairedBtDevInfo i fun entry => setting.apply entry).map fun slots =>
        ({ t.info with pairedBtDevInfo := slots }, .updated))
      (t.info.entries.map fun entry => if entry.address = bdAddr then setting.apply entry else entry) := by
  have hlen := t.length_entries
  have hlt : i < maxBtPairedDeviceCount := by
    have := t.num_le
    omega
  have hkeeps : ∀ entry, (setting.apply entry).address = entry.address := by
    intro entry
    cases setting <;> simp only [EntrySetting.apply, NvrecBtdevicerecord.address]
    case pnpInfo pnp => split <;> rfl
  rw [updateSlot_of_lt hlt]
  refine ⟨_, _, rfl, t.num_le, ?_, nodup_map_update _ t.distinct hkeeps bdAddr⟩
  exact listed_update NvrecBtdevicerecord.address t.num_le t.distinct hi hlt haddr
    fun entry => setting.apply entry

/-! ### Every operation -/

theorem does_of_yields {op : PairedOp} {l : List NvrecBtdevicerecord} (h : Yields (op.apply v t.info) l)
    (heffect : ∀ answer, op.Effect v t.info.entries l answer) :
    ∃ (t' : PairedList) (answer : PairedAnswer), op.apply v t.info = some (t'.info, answer) ∧
      op.Effect v t.info.entries t'.info.entries answer := by
  obtain ⟨info, answer, happly, hnum, rfl, hdistinct⟩ := h
  exact ⟨⟨info, hnum, hdistinct⟩, answer, happly, heffect answer⟩

theorem clearAll_yields : Yields t.info.nvRecordDdbrecClearAllBtPairedList [] := by
  have hclear : ∀ count, count ≤ maxBtPairedDeviceCount → ∃ slots,
      (List.range count).foldlM (fun slots k => writeSlot slots k NvrecBtdevicerecord.zero)
        t.info.pairedBtDevInfo = some slots := by
    intro count hcount
    induction count with
    | zero => exact ⟨_, rfl⟩
    | succ count ih =>
        obtain ⟨slots, hslots⟩ := ih (by omega)
        refine ⟨slots.set count .zero, ?_⟩
        rw [List.range_succ, List.foldlM_append, hslots, Option.bind_eq_bind, Option.bind_some,
          List.foldlM_cons, writeSlot_of_lt hcount]
        rfl
  obtain ⟨slots, hslots⟩ := hclear _ t.num_le
  refine ⟨⟨0, slots⟩, .updated, ?_, Nat.zero_le _, rfl, List.nodup_nil⟩
  rw [nvRecordDdbrecClearAllBtPairedList, hslots]
  rfl

theorem add_does (record : BtifDeviceRecord) :
    ∃ (t' : PairedList) (answer : PairedAnswer),
      (PairedOp.add .usrdataDdbrecord record).apply v t.info = some (t'.info, answer) ∧
        (PairedOp.add .usrdataDdbrecord record).Effect v t.info.entries t'.info.entries answer := by
  have hcode : (PairedOp.add .usrdataDdbrecord record).apply v t.info = t.info.nvRecordDdbrecAdd v record := rfl
  rcases t.index_cases record.bdAddr with ⟨hindex, habsent⟩ | ⟨i, hi, hindex, haddr⟩
  · rw [nvRecordDdbrecAdd, hindex, Option.bind_eq_bind, Option.bind_some] at hcode
    have hyields := t.addNew_yields v record habsent
    refine does_of_yields v t (by rw [hcode]; exact hyields) fun _ => ⟨?_, ?_, fun _ => rfl⟩
    · exact ⟨_, _, rfl, freshEntry_record v record⟩
    · exact fun entry hentry hsame => absurd hsame (habsent entry hentry)
  · rw [nvRecordDdbrecAdd, hindex, Option.bind_eq_bind, Option.bind_some] at hcode
    have hyields := t.addExisting_yields v record hi haddr
    refine does_of_yields v t (by rw [hcode]; exact hyields) fun _ => ⟨?_, ?_, ?_⟩
    · exact ⟨_, _, rfl, refreshed_record v record _⟩
    · intro entry hentry hsame
      rw [t.entry_unique hi hentry (hsame.trans haddr.symm)]
    · exact fun habsent => absurd haddr (habsent _ (List.getElem_mem hi))

theorem changeOrder_does (record : BtifDeviceRecord) (target : Nat) :
    ∃ (t' : PairedList) (answer : PairedAnswer),
      (PairedOp.changeOrder record target).apply v t.info = some (t'.info, answer) ∧
        (PairedOp.changeOrder record target).Effect v t.info.entries t'.info.entries answer := by
  have hlen := t.length_entries
  by_cases htarget : target < t.info.entries.length
  · rcases t.index_cases record.bdAddr with ⟨hindex, habsent⟩ | ⟨i, hi, hindex, haddr⟩
    · refine ⟨t, .failed, ?_, .refl _, rfl, ?_, fun _ => rfl⟩
      · change t.info.nvRecordChangeOrder record target = _
        rw [nvRecordChangeOrder, if_neg (by omega), hindex]
        rfl
      · exact fun entry hentry hsame => absurd hsame (habsent entry hentry)
    · refine does_of_yields v t (t.changeOrder_yields record hi hindex htarget) fun _ => ⟨?_, ?_, ?_, ?_⟩
      · exact (relocate_perm hi htarget _).trans (List.getElem_cons_eraseIdx_perm hi)
      · rw [without, without, ← haddr]
        exact filter_relocate _ t.distinct hi target rfl
      · intro entry hentry hsame _
        rw [t.entry_unique hi hentry (hsame.trans haddr.symm)]
        exact getElem?_relocate hi htarget _
      · rintro (habsent | hbeyond)
        · exact absurd haddr (habsent _ (List.getElem_mem hi))
        · omega
  · refine ⟨t, .failed, ?_, .refl _, rfl, fun _ _ _ h => absurd h htarget, fun _ => rfl⟩
    change t.info.nvRecordChangeOrder record target = _
    rw [nvRecordChangeOrder, if_pos (by omega)]

theorem delete_does (bdAddr : BdAddr) :
    ∃ (t' : PairedList) (answer : PairedAnswer),
      (PairedOp.delete bdAddr).apply v t.info = some (t'.info, answer) ∧
        (PairedOp.delete bdAddr).Effect v t.info.entries t'.info.entries answer := by
  rcases t.index_cases bdAddr with ⟨hindex, habsent⟩ | ⟨i, hi, hindex, haddr⟩
  · refine ⟨t, .failed, ?_, ?_⟩
    · change t.info.nvRecordDdbrecDelete bdAddr = _
      rw [nvRecordDdbrecDelete, hindex]
      rfl
    · refine (List.filter_eq_self.mpr fun entry hentry => ?_).symm
      exact decide_eq_true (habsent entry hentry)
  · exact does_of_yields v t (t.delete_yields bdAddr hi hindex haddr) fun _ => rfl

theorem find_does (bdAddr : BdAddr) :
    ∃ (t' : PairedList) (answer : PairedAnswer),
      (PairedOp.find bdAddr).apply v t.info = some (t'.info, answer) ∧
        (PairedOp.find bdAddr).Effect v t.info.entries t'.info.entries answer := by
  have hcode : (PairedOp.find bdAddr).apply v t.info =
      (t.info.nvRecordDdbrecFind bdAddr).map fun answer => (t.info, answer) := rfl
  rcases t.index_cases bdAddr with ⟨hindex, habsent⟩ | ⟨i, hi, hindex, haddr⟩
  · refine ⟨t, .failed, ?_, rfl, ?_⟩
    · rw [hcode, nvRecordDdbrecFind, hindex]
      rfl
    · rw [List.find?_eq_none.mpr fun entry hentry => by simpa using habsent entry hentry]
      rfl
  · refine ⟨t, ⟨.success, some t.info.entries[i].record, false, none⟩, ?_, rfl, ?_⟩
    · rw [hcode, nvRecordDdbrecFind, hindex, Option.bind_eq_bind, Option.bind_some]
      simp only [t.slot_eq hi, Option.bind_eq_bind, Option.bind_some, Option.map_some]
    · rw [find?_eq_getElem NvrecBtdevicerecord.address t.distinct hi haddr]
      rfl

theorem enumerate_does (index : Nat) :
    ∃ (t' : PairedList) (answer : PairedAnswer),
      (PairedOp.enumerate index).apply v t.info = some (t'.info, answer) ∧
        (PairedOp.enumerate index).Effect v t.info.entries t'.info.entries answer := by
  have hcode : (PairedOp.enumerate index).apply v t.info =
      (t.info.nvRecordEnumDevRecords index).map fun answer => (t.info, answer) := rfl
  have hlen := t.length_entries
  by_cases hindex : index < t.info.entries.length
  · refine ⟨t, ⟨.success, some t.info.entries[index].record, false, none⟩, ?_, rfl, ?_⟩
    · rw [hcode, nvRecordEnumDevRecords, if_neg (by omega)]
      simp only [t.slot_eq hindex, Option.bind_eq_bind, Option.bind_some, Option.map_some]
    · rw [List.getElem?_eq_getElem hindex]
      rfl
  · refine ⟨t, .failed, ?_, rfl, ?_⟩
    · rw [hcode, nvRecordEnumDevRecords, if_pos (by omega)]
      rfl
    · rw [List.getElem?_eq_none (by omega)]
      rfl

theorem set_does (bdAddr : BdAddr) (setting : EntrySetting) :
    ∃ (t' : PairedList) (answer : PairedAnswer),
      (PairedOp.set bdAddr setting).apply v t.info = some (t'.info, answer) ∧
        (PairedOp.set bdAddr setting).Effect v t.info.entries t'.info.entries answer := by
  rcases t.index_cases bdAddr with ⟨hindex, habsent⟩ | ⟨i, hi, hindex, haddr⟩
  · refine ⟨t, .failed, ?_, ?_⟩
    · rw [PairedOp.apply, hindex]
      rfl
    · refine ((List.map_congr_left fun entry hentry => ?_).trans (List.map_id _)).symm
      exact if_neg (habsent entry hentry)
  · refine does_of_yields v t ?_ fun _ => rfl
    have hyields := t.set_yields bdAddr setting hi haddr
    rw [Option.map_eq_bind] at hyields
    rw [PairedOp.apply, hindex]
    exact hyields

/-- Every operation goes through on a list in order, leaves one, and does what it is for. -/
theorem does (op : PairedOp) :
    ∃ (t' : PairedList) (answer : PairedAnswer), op.apply v t.info = some (t'.info, answer) ∧
      op.Effect v t.info.entries t'.info.entries answer := by
  cases op with
  | add type record =>
      cases type with
      | usrdataDdbrecord => exact t.add_does v record
      | none => exact ⟨t, .failed, rfl, rfl⟩
  | changeOrder record target => exact t.changeOrder_does v record target
  | delete bdaddr => exact t.delete_does v bdaddr
  | clear =>
      exact does_of_yields v t ⟨_, _, rfl, Nat.zero_le _, rfl, List.nodup_nil⟩ fun _ => rfl
  | clearAll => exact does_of_yields v t t.clearAll_yields fun _ => rfl
  | find bdAddr => exact t.find_does v bdAddr
  | enumerate index => exact t.enumerate_does v index
  | set bdAddr setting => exact t.set_does v bdAddr setting

end PairedList

/-- From a list in order, any operations lead to a list in order, on which every further operation does
what it is for. -/
theorem pairedList_correct (v : CodecVolumes) (start : PairedList) (ops : List PairedOp) :
    ∃ t : PairedList, run (pairedStep v) start.info ops = some t.info ∧
      ∀ op : PairedOp, ∃ (t' : PairedList) (answer : PairedAnswer),
        op.apply v t.info = some (t'.info, answer) ∧
          op.Effect v t.info.entries t'.info.entries answer := by
  induction ops generalizing start with
  | nil => exact ⟨start, rfl, start.does v⟩
  | cons op ops ih =>
      obtain ⟨next, answer, happly, _⟩ := start.does v op
      obtain ⟨t, hrun, hdoes⟩ := ih next
      refine ⟨t, ?_, hdoes⟩
      rw [run_cons, pairedStep, happly]
      exact hrun

end Best1307.NvRecord
