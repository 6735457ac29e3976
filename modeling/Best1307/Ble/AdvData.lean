import Mathlib.Tactic.ByContra
import Best1307.Lib.Checked

/-!
# Advertising data

`app_ble.c`: the data a user advertises is put together with the data of the application. The service UUIDs of both go
into one list of each kind, and flags and appearance are left to others. The UUIDs are taken out where the data are:
what follows a structure that goes is moved to its place.

`gap_dt_add_raw_data` appends to a buffer.
-/

namespace Best1307.AdvData

open Checked (Fault byte block ok_bind error_bind succeeds_bind succeeds_pure)

/-! ### The code -/

def extAdvDataLen : Nat := 251

def isUuid16List (adType : UInt8) : Bool := adType == 0x02 || adType == 0x03

def isUuid128List (adType : UInt8) : Bool := adType == 0x06 || adType == 0x07

/-- `GAP_DT_FLAGS` and `GAP_DT_APPEARANCE` -/
def isFlagsOrAppearance (adType : UInt8) : Bool := adType == 0x01 || adType == 0x19

/-- The variables of the walk over the structures, and what is in the data and in the lists of UUIDs -/
structure Walk where
  data : List UInt8
  curr : Nat
  left : Nat
  removedLen : Nat
  uuid16 : List UInt8
  uuid128 : List UInt8

/-- UUIDs of so many bytes go to a list. -/
def collect (data : List UInt8) (uuidSize dataTypePtr dataTypeLen : Nat) (out : List UInt8) :
    Except Fault (List UInt8) :=
  if dataTypeLen ≠ 0 ∧ dataTypeLen % uuidSize = 0 then do
    let uuids ← block data dataTypePtr dataTypeLen
    return out ++ uuids
  else return out

/-- The part `if (remove_data_type)` -/
def Walk.remove (s : Walk) (itemDataLen : Nat) : Except Fault Walk :=
  let left := s.left - itemDataLen
  if left = 0 then return { s with left := left, removedLen := s.removedLen + itemDataLen }
  else do
    let moved ← block s.data (s.curr + itemDataLen) left
    return { s with
      data := s.data.take s.curr ++ moved ++ s.data.drop (s.curr + left)
      left := left
      removedLen := s.removedLen + itemDataLen }

/-- One turn, for a structure with this length -/
def Walk.item (s : Walk) (length : Nat) : Except Fault Walk := do
  let itemDataLen := length + 1
  let dataTypeLen := length - 1
  let adType ← byte s.data (s.curr + 1)
  if isUuid16List adType then
    let uuid16 ← collect s.data 2 (s.curr + 2) dataTypeLen s.uuid16
    Walk.remove { s with uuid16 := uuid16 } itemDataLen
  else if isUuid128List adType then
    let uuid128 ← collect s.data 16 (s.curr + 2) dataTypeLen s.uuid128
    Walk.remove { s with uuid128 := uuid128 } itemDataLen
  else if isFlagsOrAppearance adType then s.remove itemDataLen
  else return { s with left := s.left - itemDataLen, curr := s.curr + itemDataLen }

def walk : (turns : Nat) → Walk → Except Fault Walk
  | 0, _ => .error .endless
  | turns + 1, s => do
      let length ← byte s.data s.curr
      if length ≠ 0 ∧ length.toNat + 1 ≤ s.left then
        let s ← s.item length.toNat
        walk turns s
      else return s

/-- What is left of the data, and the lists -/
structure Parsed where
  left : List UInt8
  uuid16 : List UInt8
  uuid128 : List UInt8
  deriving DecidableEq

/-- `app_ble_parse_out_service_uuid`; what it returns goes into a byte. -/
def parseOutServiceUuid (data outUuid16 outUuid128 : List UInt8) : Except Fault Parsed :=
  if data.length ≤ 2 ∨ extAdvDataLen < data.length then return ⟨[], outUuid16, outUuid128⟩
  else do
    let s ← walk (data.length + 1) ⟨data, 0, data.length, 0, outUuid16, outUuid128⟩
    return ⟨s.data.take ((data.length - s.removedLen) % 2 ^ 8), s.uuid16, s.uuid128⟩

structure Data where
  advData : List UInt8
  scanRspData : List UInt8
  deriving DecidableEq

/-- The fields of `adv_param` that say whether there is a scan response -/
structure AdvParam where
  scannable : Bool
  useLegacyPdu : Bool
  connectable : Bool

def AdvParam.usesScanRsp (param : AdvParam) : Bool := param.scannable || param.useLegacyPdu && param.connectable

/-- The data of the application, if there are any, after those of the user -/
def parseNext (data : List UInt8) (parsed : Parsed) : Except Fault Parsed :=
  if data.length = 0 then return ⟨[], parsed.uuid16, parsed.uuid128⟩
  else parseOutServiceUuid data parsed.uuid16 parsed.uuid128

/-- A list of UUIDs with its head, unless it is empty -/
def addList (adType : UInt8) (uuids dest : List UInt8) : List UInt8 :=
  if uuids.length = 0 then dest else dest ++ [UInt8.ofNat (uuids.length + 1), adType] ++ uuids

def addData (a b : Parsed) (dest : List UInt8) : List UInt8 :=
  addList 0x07 b.uuid128 (addList 0x03 b.uuid16 dest) ++ a.left ++ b.left

/-- `app_ble_dt_add_adv_data`, into the buffers `dest`; where there is no `b` it is empty. -/
def dtAddAdvData (dest : Data) (param : AdvParam) (a b : Data) : Except Fault Data := do
  let advA ← parseOutServiceUuid a.advData [] []
  let scanA ← parseOutServiceUuid a.scanRspData [] []
  let advB ← parseNext b.advData advA
  let scanB ← parseNext b.scanRspData scanA
  return {
    advData := addData advA advB dest.advData
    scanRspData := if param.usesScanRsp then addData scanA scanB dest.scanRspData else dest.scanRspData }

/-! ### What the data are -/

/-- A structure: its type, and what comes after it -/
structure AdStructure where
  adType : UInt8
  value : List UInt8
  deriving DecidableEq

namespace AdStructure

variable (st : AdStructure)

def bytes : List UInt8 := UInt8.ofNat (st.value.length + 1) :: st.adType :: st.value

def Fits : Prop := st.value.length + 1 < 2 ^ 8

instance : Decidable st.Fits := inferInstanceAs (Decidable (_ < _))

/-- A list of service UUIDs holds whole ones. -/
def Whole : Prop :=
  (isUuid16List st.adType = true → st.value.length % 2 = 0) ∧
    (isUuid128List st.adType = true → st.value.length % 16 = 0)

instance : Decidable st.Whole := inferInstanceAs (Decidable (_ ∧ _))

def isRemoved : Bool := isUuid16List st.adType || isUuid128List st.adType || isFlagsOrAppearance st.adType

end AdStructure

def encode (structures : List AdStructure) : List UInt8 := structures.flatMap AdStructure.bytes

/-- The bytes of the structures of some types, one after the other -/
def values (p : UInt8 → Bool) (structures : List AdStructure) : List UInt8 :=
  (structures.filter fun st => p st.adType).flatMap AdStructure.value

def kept (structures : List AdStructure) : List AdStructure := structures.filter fun st => !st.isRemoved

/-- A well-formed payload of a length the code accepts -/
structure Payload where
  structures : List AdStructure
  fits : ∀ st ∈ structures, st.Fits
  whole : ∀ st ∈ structures, st.Whole
  accepted : (encode structures).length ≤ extAdvDataLen

def Payload.bytes (payload : Payload) : List UInt8 := encode payload.structures

/-- A list of UUIDs as a structure, unless it is empty -/
def uuidList (adType : UInt8) (uuids : List UInt8) : List AdStructure :=
  if uuids = [] then [] else [⟨adType, uuids⟩]

/-- What two payloads are together -/
def merged (a b : List AdStructure) : List AdStructure :=
  uuidList 0x03 (values isUuid16List a ++ values isUuid16List b) ++
    uuidList 0x07 (values isUuid128List a ++ values isUuid128List b) ++ kept a ++ kept b

/-- The bytes are those of both payloads together, and are well-formed. -/
structure IsMerged (a b : Payload) (bytes : List UInt8) : Prop where
  eq : bytes = encode (merged a.structures b.structures)
  fits : ∀ st ∈ merged a.structures b.structures, st.Fits

structure Payloads where
  adv : Payload
  scanRsp : Payload

def Payloads.data (payloads : Payloads) : Data := ⟨payloads.adv.bytes, payloads.scanRsp.bytes⟩

/-- Nothing is read outside, and with empty buffers to start from both are together what they should be. -/
def Meets (param : AdvParam) (a b : Payloads) : Prop :=
  ∃ dest, dtAddAdvData ⟨[], []⟩ param a.data b.data = .ok dest ∧ IsMerged a.adv b.adv dest.advData ∧
    (param.usesScanRsp = true → IsMerged a.scanRsp b.scanRsp dest.scanRspData)

/-- Something is taken out of the payload, or it is too short to be gone through. -/
def Payload.StaysInside (payload : Payload) : Prop :=
  payload.bytes.length ≤ 2 ∨ ∃ st ∈ payload.structures, st.isRemoved = true

/-- Something is taken out of the payload, or there is nothing in it. -/
def Payload.IsParsed (payload : Payload) : Prop :=
  payload.structures = [] ∨ ∃ st ∈ payload.structures, st.isRemoved = true

/-- Both payloads are gone through, and the lists of UUIDs have room in one structure each. -/
structure Mergeable (a b : Payload) : Prop where
  left : a.IsParsed
  right : b.IsParsed
  few16 : (values isUuid16List a.structures ++ values isUuid16List b.structures).length ≤ 254
  few128 : (values isUuid128List a.structures ++ values isUuid128List b.structures).length ≤ 254

/-! ### Structures in the data -/

variable {s s' : Walk} {st : AdStructure} {structures done todo rest : List AdStructure} {p : UInt8 → Bool}
  {before after data out : List UInt8}

theorem encode_cons : encode (st :: rest) = st.bytes ++ encode rest := List.flatMap_cons ..

theorem encode_append : encode (done ++ rest) = encode done ++ encode rest := List.flatMap_append ..

theorem encode_singleton : encode [st] = st.bytes := List.append_nil _

@[simp] theorem AdStructure.length_bytes (st : AdStructure) : st.bytes.length = st.value.length + 1 + 1 := rfl

theorem AdStructure.toNat_length (h : st.Fits) : (UInt8.ofNat (st.value.length + 1)).toNat = st.value.length + 1 :=
  Nat.mod_eq_of_lt h

theorem values_cons : values p (st :: rest) = (if p st.adType then st.value else []) ++ values p rest := by
  rw [values, List.filter_cons]
  split
  case isTrue => exact List.flatMap_cons ..
  case isFalse => rfl

theorem kept_cons : kept (st :: rest) = (if st.isRemoved then [] else [st]) ++ kept rest := by
  rw [kept, List.filter_cons]
  cases st.isRemoved <;> rfl

theorem getD_length_add (before after : List UInt8) (i : Nat) :
    (before ++ after).getD (before.length + i) 0 = after.getD i 0 := by
  rw [List.getD_append_right _ _ _ _ (Nat.le_add_right ..), Nat.add_sub_cancel_left]

theorem byte_length : byte (before ++ (st.bytes ++ after)) before.length = .ok (UInt8.ofNat (st.value.length + 1)) := by
  rw [byte, if_pos (by rw [List.length_append, List.length_append, st.length_bytes]; omega)]
  exact congrArg Except.ok (getD_length_add before (st.bytes ++ after) 0)

theorem byte_adType : byte (before ++ (st.bytes ++ after)) (before.length + 1) = .ok st.adType := by
  rw [byte, if_pos (by rw [List.length_append, List.length_append, st.length_bytes]; omega)]
  exact congrArg Except.ok (getD_length_add before (st.bytes ++ after) 1)

theorem block_value :
    block (before ++ (st.bytes ++ after)) (before.length + 2) st.value.length = .ok st.value := by
  rw [block, if_pos (by rw [List.length_append, List.length_append, st.length_bytes]; omega)]
  rw [List.drop_append, List.drop_eq_nil_of_le (by omega), List.nil_append, Nat.add_sub_cancel_left]
  exact congrArg Except.ok (List.take_left ..)

theorem collect_eq {uuidSize : Nat} (h : st.value.length % uuidSize = 0) :
    collect (before ++ (st.bytes ++ after)) uuidSize (before.length + 2) st.value.length out =
      .ok (out ++ st.value) := by
  rw [collect]
  by_cases hempty : st.value.length = 0
  · rw [if_neg fun h => h.1 hempty, List.length_eq_zero_iff.mp hempty, List.append_nil]
    rfl
  · rw [if_pos ⟨hempty, h⟩, block_value]
    rfl

/-! ### The walk -/

/-- What is kept, what is still to come, and what has been left behind them as others were moved -/
structure At (s : Walk) (done todo : List AdStructure) : Prop where
  data : ∃ stale, s.data = encode done ++ (encode todo ++ stale) ∧ stale.length = s.removedLen
  curr : s.curr = (encode done).length
  left : s.left = (encode todo).length

theorem At.remove (h : At s done (st :: rest)) : ∃ s', s.remove (st.value.length + 1 + 1) = .ok s' ∧ At s' done rest ∧
    s'.removedLen = s.removedLen + (st.value.length + 1 + 1) ∧ s'.uuid16 = s.uuid16 ∧ s'.uuid128 = s.uuid128 := by
  obtain ⟨stale, hdata, hstale⟩ := h.data
  have hleft : s.left - (st.value.length + 1 + 1) = (encode rest).length := by
    rw [h.left, encode_cons, List.length_append, st.length_bytes, Nat.add_sub_cancel_left]
  rw [Walk.remove, hleft]
  split
  case isTrue hzero =>
    have hrest : encode rest = [] := List.length_eq_zero_iff.mp hzero
    refine ⟨_, rfl, ⟨⟨st.bytes ++ stale, ?_, ?_⟩, h.curr, rfl⟩, rfl, rfl, rfl⟩
    · rw [hrest, List.nil_append]
      rw [encode_cons, hrest, List.append_nil] at hdata
      exact hdata
    · rw [List.length_append, hstale, st.length_bytes, Nat.add_comm]
  case isFalse hpos =>
    have hplace : s.curr + (st.value.length + 1 + 1) = (encode done ++ st.bytes).length := by
      rw [List.length_append, st.length_bytes, h.curr]
    have hdata' : s.data = (encode done ++ st.bytes) ++ (encode rest ++ stale) := by
      rw [hdata, encode_cons, List.append_assoc, List.append_assoc]
    have hlen : s.data.length = s.curr + (st.value.length + 1 + 1) + ((encode rest).length + s.removedLen) := by
      rw [hdata', List.length_append, @List.length_append _ (encode rest), hplace, hstale]
    have hmoved : block s.data (s.curr + (st.value.length + 1 + 1)) (encode rest).length = .ok (encode rest) := by
      rw [block, if_pos (by omega), hdata', hplace, List.drop_left, List.take_left]
    have hkept : s.data.take s.curr = encode done := by
      rw [hdata, h.curr, List.take_left]
    rw [hmoved]
    refine ⟨_, rfl, ⟨⟨s.data.drop (s.curr + (encode rest).length), ?_, ?_⟩, h.curr, rfl⟩, rfl, rfl, rfl⟩
    · dsimp only
      rw [hkept, List.append_assoc]
    · dsimp only
      rw [List.length_drop, hlen]
      omega

theorem uuid128_of_uuid16 {adType : UInt8} (h : isUuid16List adType = true) : isUuid128List adType = false := by
  rcases Bool.or_eq_true _ _ |>.mp h with h | h
  · rw [eq_of_beq h]
    rfl
  · rw [eq_of_beq h]
    rfl

structure Passes (s s' : Walk) (st : AdStructure) (done rest : List AdStructure) : Prop where
  at_ : At s' (done ++ if st.isRemoved then [] else [st]) rest
  removedLen : s'.removedLen = s.removedLen + if st.isRemoved then st.value.length + 1 + 1 else 0
  uuid16 : s'.uuid16 = s.uuid16 ++ if isUuid16List st.adType then st.value else []
  uuid128 : s'.uuid128 = s.uuid128 ++ if isUuid128List st.adType then st.value else []

theorem At.item (h : At s done (st :: rest)) (hwhole : st.Whole) :
    ∃ s', s.item (st.value.length + 1) = .ok s' ∧ Passes s s' st done rest := by
  obtain ⟨stale, hdata, hstale⟩ := h.data
  rw [encode_cons, List.append_assoc] at hdata
  have hadType : byte s.data (s.curr + 1) = .ok st.adType := by
    rw [hdata, h.curr]
    exact byte_adType
  have hcollect : ∀ {uuidSize out}, st.value.length % uuidSize = 0 →
      collect s.data uuidSize (s.curr + 2) st.value.length out = .ok (out ++ st.value) := by
    intro uuidSize out hsize
    rw [hdata, h.curr]
    exact collect_eq hsize
  rw [Walk.item, hadType, ok_bind]
  by_cases h16 : isUuid16List st.adType = true
  · have hremoved : st.isRemoved = true := by rw [AdStructure.isRemoved, h16]; rfl
    rw [if_pos h16, Nat.add_sub_cancel, hcollect (hwhole.1 h16), ok_bind]
    obtain ⟨s', hs', hat, hlen, huuid16, huuid128⟩ :=
      At.remove (s := { s with uuid16 := s.uuid16 ++ st.value }) ⟨h.data, h.curr, h.left⟩
    refine ⟨s', hs', ?_, ?_, ?_, ?_⟩
    · rwa [if_pos hremoved, List.append_nil]
    · rwa [if_pos hremoved]
    · rwa [if_pos h16]
    · rwa [uuid128_of_uuid16 h16, if_neg Bool.false_ne_true, List.append_nil]
  by_cases h128 : isUuid128List st.adType = true
  · have hremoved : st.isRemoved = true := by rw [AdStructure.isRemoved, h128, Bool.or_true]; rfl
    rw [if_neg h16, if_pos h128, Nat.add_sub_cancel, hcollect (hwhole.2 h128), ok_bind]
    obtain ⟨s', hs', hat, hlen, huuid16, huuid128⟩ :=
      At.remove (s := { s with uuid128 := s.uuid128 ++ st.value }) ⟨h.data, h.curr, h.left⟩
    refine ⟨s', hs', ?_, ?_, ?_, ?_⟩
    · rwa [if_pos hremoved, List.append_nil]
    · rwa [if_pos hremoved]
    · rwa [if_neg h16, List.append_nil]
    · rwa [if_pos h128]
  rw [if_neg h16, if_neg h128]
  by_cases hflags : isFlagsOrAppearance st.adType = true
  · have hremoved : st.isRemoved = true := by rw [AdStructure.isRemoved, hflags, Bool.or_true]
    obtain ⟨s', hs', hat, hlen, huuid16, huuid128⟩ := h.remove
    refine ⟨s', by rwa [if_pos hflags], ?_, ?_, ?_, ?_⟩
    · rwa [if_pos hremoved, List.append_nil]
    · rwa [if_pos hremoved]
    · rwa [if_neg h16, List.append_nil]
    · rwa [if_neg h128, List.append_nil]
  · have hkept : ¬ st.isRemoved = true := by
      rw [AdStructure.isRemoved, Bool.or_eq_true, Bool.or_eq_true]
      rintro ((h | h) | h)
      · exact h16 h
      · exact h128 h
      · exact hflags h
    refine ⟨_, if_neg hflags, ?_, ?_, ?_, ?_⟩
    · rw [if_neg hkept]
      refine ⟨⟨stale, ?_, hstale⟩, ?_, ?_⟩
      · rw [encode_append, encode_singleton, List.append_assoc]
        exact hdata
      · rw [encode_append, encode_singleton, List.length_append, st.length_bytes, ← h.curr]
      · dsimp only
        rw [h.left, encode_cons, List.length_append, st.length_bytes, Nat.add_sub_cancel_left]
    · rw [if_neg hkept]
      rfl
    · rw [if_neg h16, List.append_nil]
    · rw [if_neg h128, List.append_nil]

structure Ends (s s' : Walk) (done todo : List AdStructure) : Prop where
  at_ : At s' (done ++ kept todo) []
  uuid16 : s'.uuid16 = s.uuid16 ++ values isUuid16List todo
  uuid128 : s'.uuid128 = s.uuid128 ++ values isUuid128List todo
  length : (encode (kept todo)).length + s'.removedLen = (encode todo).length + s.removedLen

/-- Behind the last structure there is a byte to read only if something has been taken out. -/
theorem walk_nil {turns : Nat} (h : At s done []) :
    walk (turns + 1) s = if s.removedLen = 0 then .error .outside else .ok s := by
  obtain ⟨stale, hdata, hstale⟩ := h.data
  have hlen : s.data.length = s.curr + s.removedLen := by
    rw [hdata, h.curr, ← hstale, List.length_append]
    rfl
  have hleft : s.left = 0 := h.left
  rw [walk, byte, hlen]
  by_cases hnone : s.removedLen = 0
  · rw [if_neg (by omega), if_pos hnone, error_bind]
  · rw [if_pos (by omega), if_neg hnone, ok_bind, if_neg]
    · rfl
    · rw [hleft]
      exact fun h => absurd h.2 (Nat.not_succ_le_zero _)

theorem At.walk (h : At s done todo) (hfits : ∀ st ∈ todo, st.Fits) (hwhole : ∀ st ∈ todo, st.Whole) {turns : Nat}
    (hturns : todo.length < turns) :
    if s.removedLen = 0 ∧ ∀ st ∈ todo, st.isRemoved = false then AdvData.walk turns s = .error .outside
    else ∃ s', AdvData.walk turns s = .ok s' ∧ Ends s s' done todo := by
  induction todo generalizing s done turns with
  | nil =>
      obtain ⟨turns, rfl⟩ := Nat.exists_eq_add_one.mpr hturns
      rw [walk_nil h]
      split
      case isTrue hnone => exact if_pos hnone.1
      case isFalse hsome =>
        have hpos : s.removedLen ≠ 0 := fun hzero => hsome ⟨hzero, fun st hst => absurd hst List.not_mem_nil⟩
        refine ⟨s, if_neg hpos, ?_, ?_, ?_, rfl⟩
        · rwa [kept, List.filter_nil, List.append_nil]
        · exact (List.append_nil _).symm
        · exact (List.append_nil _).symm
  | cons st rest ih =>
      obtain ⟨hst, hrest⟩ := List.forall_mem_cons.mp hfits
      obtain ⟨hst', hrest'⟩ := List.forall_mem_cons.mp hwhole
      obtain ⟨turns, rfl⟩ := Nat.exists_eq_add_one.mpr (Nat.zero_lt_of_lt hturns)
      obtain ⟨s', hitem, hpasses⟩ := h.item hst'
      have hwalk : AdvData.walk (turns + 1) s = AdvData.walk turns s' := by
        obtain ⟨stale, hdata, -⟩ := h.data
        rw [encode_cons, List.append_assoc] at hdata
        have hlength : byte s.data s.curr = .ok (UInt8.ofNat (st.value.length + 1)) := by
          rw [hdata, h.curr]
          exact byte_length
        have hne : UInt8.ofNat (st.value.length + 1) ≠ 0 := fun hzero => by
          have := st.toNat_length hst
          rw [hzero] at this
          exact absurd this (Nat.succ_ne_zero _).symm
        rw [AdvData.walk, hlength, ok_bind, if_pos, st.toNat_length hst, hitem, ok_bind]
        · refine ⟨hne, ?_⟩
          rw [st.toNat_length hst, h.left, encode_cons, List.length_append, st.length_bytes]
          exact Nat.le_add_right ..
      have hnext := ih hpasses.at_ hrest hrest' (Nat.lt_of_succ_lt_succ hturns)
      have hiff : (s'.removedLen = 0 ∧ ∀ st ∈ rest, st.isRemoved = false) ↔
          s.removedLen = 0 ∧ ∀ st' ∈ st :: rest, st'.isRemoved = false := by
        rw [hpasses.removedLen, List.forall_mem_cons]
        cases hremoved : st.isRemoved with
        | true => simp
        | false => simp
      rw [hwalk]
      simp only [hiff] at hnext
      split
      case isTrue hnone => rwa [if_pos hnone] at hnext
      case isFalse hsome =>
        rw [if_neg hsome] at hnext
        obtain ⟨t, ht, hends⟩ := hnext
        refine ⟨t, ht, ?_, ?_, ?_, ?_⟩
        · rw [kept_cons, ← List.append_assoc]
          exact hends.at_
        · rw [hends.uuid16, hpasses.uuid16, values_cons, List.append_assoc]
        · rw [hends.uuid128, hpasses.uuid128, values_cons, List.append_assoc]
        · have hlen := hends.length
          rw [hpasses.removedLen] at hlen
          rw [kept_cons, encode_append, encode_cons, List.length_append, List.length_append, st.length_bytes]
          cases hremoved : st.isRemoved with
          | true =>
              rw [hremoved, if_pos rfl] at hlen
              rw [if_pos rfl, encode, List.flatMap_nil, List.length_nil]
              omega
          | false =>
              rw [hremoved, if_neg Bool.false_ne_true] at hlen
              rw [if_neg Bool.false_ne_true, encode_singleton, st.length_bytes]
              omega

/-! ### A payload -/

variable {payload a b : Payload} {uuid16 uuid128 left leftA leftB : List UInt8} {dest : List UInt8} {adType : UInt8}

theorem eq_of_short (h : (encode structures).length ≤ 2) : structures = [] ∨ ∃ adType, structures = [⟨adType, []⟩] := by
  cases structures with
  | nil => exact .inl rfl
  | cons st rest =>
      rw [encode_cons, List.length_append, st.length_bytes] at h
      have hvalue : st.value = [] := List.length_eq_zero_iff.mp (by omega)
      have hrest : rest = [] := by
        cases rest with
        | nil => rfl
        | cons next rest =>
            rw [encode_cons, List.length_append, next.length_bytes] at h
            omega
      refine .inr ⟨st.adType, ?_⟩
      rw [hrest, ← hvalue]

/-- What is left of a payload, which is all that should be if it is gone through -/
structure Leaves (payload : Payload) (left : List UInt8) : Prop where
  le : left.length ≤ (encode (kept payload.structures)).length
  parsed : payload.IsParsed ↔ left = encode (kept payload.structures)

theorem parse_of_short (h : payload.bytes.length ≤ 2) :
    parseOutServiceUuid payload.bytes uuid16 uuid128 = .ok ⟨[], uuid16 ++ values isUuid16List payload.structures,
      uuid128 ++ values isUuid128List payload.structures⟩ ∧ Leaves payload [] := by
  rw [parseOutServiceUuid, if_pos (.inl h)]
  rcases eq_of_short h with hnone | ⟨adType, hone⟩
  · rw [hnone]
    refine ⟨?_, Nat.zero_le _, iff_of_true (.inl hnone) ?_⟩
    · rw [values, values, List.filter_nil, List.filter_nil, List.flatMap_nil, List.append_nil, List.append_nil]
      rfl
    · rw [hnone]
      rfl
  · have hvalues : ∀ p, values p [⟨adType, []⟩] = [] := fun p => by
      rw [values_cons, ite_self]
      rfl
    rw [hone, hvalues, hvalues, List.append_nil, List.append_nil]
    refine ⟨rfl, Nat.zero_le _, ?_⟩
    rw [Payload.IsParsed, hone, kept_cons]
    cases hremoved : (AdStructure.mk adType []).isRemoved with
    | true => exact iff_of_true (.inr ⟨_, List.mem_singleton_self _, hremoved⟩) rfl
    | false =>
        refine iff_of_false ?_ (List.cons_ne_nil _ _).symm
        rintro (hnone | ⟨st, hst, h⟩)
        · exact absurd hnone (List.cons_ne_nil _ _)
        · rw [List.mem_singleton.mp hst, hremoved] at h
          exact Bool.false_ne_true h

theorem start_at (payload : Payload) (uuid16 uuid128 : List UInt8) :
    At ⟨payload.bytes, 0, payload.bytes.length, 0, uuid16, uuid128⟩ [] payload.structures where
  data := ⟨[], (List.append_nil _).symm, rfl⟩
  curr := rfl
  left := rfl

theorem length_structures_le : structures.length ≤ (encode structures).length := by
  induction structures with
  | nil => exact Nat.le_refl _
  | cons st rest ih =>
      rw [encode_cons, List.length_append, st.length_bytes, List.length_cons]
      omega

/-- A longer payload is gone through to its end, if the walk finds something there. -/
theorem parse_of_long (h : ¬ payload.bytes.length ≤ 2) (uuid16 uuid128 : List UInt8) :
    if ∀ st ∈ payload.structures, st.isRemoved = false then
      parseOutServiceUuid payload.bytes uuid16 uuid128 = .error .outside
    else parseOutServiceUuid payload.bytes uuid16 uuid128 = .ok ⟨encode (kept payload.structures),
      uuid16 ++ values isUuid16List payload.structures, uuid128 ++ values isUuid128List payload.structures⟩ := by
  have haccepted : payload.bytes.length ≤ extAdvDataLen := payload.accepted
  have hturns : payload.structures.length < payload.bytes.length + 1 := Nat.lt_succ_of_le length_structures_le
  have hwalk := (start_at payload uuid16 uuid128).walk payload.fits payload.whole hturns
  rw [parseOutServiceUuid, if_neg (not_or.mpr ⟨h, Nat.not_lt.mpr haccepted⟩)]
  simp only [true_and] at hwalk
  split
  case isTrue hnone =>
    rw [if_pos hnone] at hwalk
    rw [hwalk, error_bind]
  case isFalse hsome =>
    rw [if_neg hsome] at hwalk
    obtain ⟨s', hs', hends⟩ := hwalk
    obtain ⟨stale, hdata, hstale⟩ := hends.at_.data
    have hlen : payload.bytes.length - s'.removedLen = (encode (kept payload.structures)).length := by
      rw [Payload.bytes, ← Nat.add_zero (encode payload.structures).length, ← hends.length, Nat.add_sub_cancel]
    have hext : extAdvDataLen = 251 := rfl
    have hsmall : (encode (kept payload.structures)).length < 2 ^ 8 := by omega
    have hleft : s'.data.take ((payload.bytes.length - s'.removedLen) % 2 ^ 8) = encode (kept payload.structures) := by
      rw [hlen, Nat.mod_eq_of_lt hsmall, hdata]
      exact List.take_left ..
    rw [hs', ok_bind, hleft, hends.uuid16, hends.uuid128]
    rfl

theorem parse_stays (h : payload.StaysInside) (uuid16 uuid128 : List UInt8) : ∃ left,
    parseOutServiceUuid payload.bytes uuid16 uuid128 = .ok ⟨left, uuid16 ++ values isUuid16List payload.structures,
      uuid128 ++ values isUuid128List payload.structures⟩ ∧ Leaves payload left := by
  by_cases hshort : payload.bytes.length ≤ 2
  · exact ⟨[], parse_of_short hshort⟩
  · have hremoved := h.resolve_left hshort
    have hparse := parse_of_long hshort uuid16 uuid128
    rw [if_neg] at hparse
    · exact ⟨_, hparse, Nat.le_refl _, iff_of_true (.inr hremoved) rfl⟩
    · obtain ⟨st, hst, hremoved⟩ := hremoved
      exact fun hall => absurd (hall st hst) (by rw [hremoved]; exact Bool.true_eq_false.mp)

theorem stays_of_parse {parsed : Parsed} (h : parseOutServiceUuid payload.bytes uuid16 uuid128 = .ok parsed) :
    payload.StaysInside := by
  by_contra hnot
  obtain ⟨hshort, hnone⟩ := not_or.mp hnot
  have hparse := parse_of_long hshort uuid16 uuid128
  rw [if_pos] at hparse
  · rw [hparse] at h
    cases h
  · exact fun st hst => Bool.eq_false_iff.mpr fun hremoved => hnone ⟨st, hst, hremoved⟩

theorem Payload.IsParsed.staysInside (h : payload.IsParsed) : payload.StaysInside := by
  rcases h with hnone | hsome
  · refine .inl ?_
    rw [Payload.bytes, hnone]
    exact Nat.zero_le _
  · exact .inr hsome

/-! ### Both payloads -/

theorem parseNext_eq (data : List UInt8) (parsed : Parsed) :
    parseNext data parsed = parseOutServiceUuid data parsed.uuid16 parsed.uuid128 := by
  rw [parseNext]
  split
  case isTrue hzero => rw [parseOutServiceUuid, if_pos (.inl (by omega))]
  case isFalse => rfl

theorem addList_eq (adType : UInt8) (uuids dest : List UInt8) :
    addList adType uuids dest = dest ++ encode (uuidList adType uuids) := by
  rw [addList, uuidList]
  by_cases hnone : uuids = []
  · rw [if_pos hnone, if_pos (List.length_eq_zero_iff.mpr hnone)]
    exact (List.append_nil _).symm
  · rw [if_neg hnone, if_neg (fun h => hnone (List.length_eq_zero_iff.mp h)), encode_singleton, List.append_assoc]
    rfl

theorem fits_uuidList {uuids : List UInt8} :
    (∀ st ∈ uuidList adType uuids, st.Fits) ↔ uuids.length ≤ 254 := by
  rw [uuidList]
  by_cases hnone : uuids = []
  · rw [if_pos hnone, hnone]
    exact iff_of_true (fun st hst => absurd hst List.not_mem_nil) (Nat.zero_le _)
  · rw [if_neg hnone, List.forall_mem_singleton]
    exact Nat.lt_succ_iff.trans Nat.succ_le_succ_iff

theorem fits_kept (payload : Payload) : ∀ st ∈ kept payload.structures, st.Fits := fun st hst =>
  payload.fits st ((List.mem_filter.mp hst).1)

/-- What is added to an empty buffer is right if the lists have room and nothing is missing of what is left. -/
theorem isMerged_iff (ha : Leaves a leftA) (hb : Leaves b leftB)
    (huuid16 : uuid16 = values isUuid16List a.structures ++ values isUuid16List b.structures)
    (huuid128 : uuid128 = values isUuid128List a.structures ++ values isUuid128List b.structures) :
    IsMerged a b (addList 0x07 uuid128 (addList 0x03 uuid16 []) ++ leftA ++ leftB) ↔ Mergeable a b := by
  rw [addList_eq, addList_eq, List.nil_append, huuid16, huuid128]
  constructor
  · rintro ⟨heq, hfits⟩
    rw [merged, encode_append, encode_append, encode_append, List.append_assoc, List.append_assoc _ (encode (kept _))]
      at heq
    have hrest := List.append_cancel_left heq
    have hlen := congrArg List.length hrest
    rw [List.length_append, List.length_append] at hlen
    have hle := ha.le
    have hle' := hb.le
    obtain ⟨hleftA, hleftB⟩ := List.append_inj hrest (by omega)
    rw [merged, List.forall_mem_append, List.forall_mem_append, List.forall_mem_append] at hfits
    obtain ⟨⟨⟨h16, h128⟩, -⟩, -⟩ := hfits
    exact ⟨ha.parsed.mpr hleftA, hb.parsed.mpr hleftB, fits_uuidList.mp h16, fits_uuidList.mp h128⟩
  · rintro ⟨hleftA, hleftB, h16, h128⟩
    rw [ha.parsed.mp hleftA, hb.parsed.mp hleftB]
    constructor
    · rw [merged, encode_append, encode_append, encode_append]
    · rw [merged, List.forall_mem_append, List.forall_mem_append, List.forall_mem_append]
      exact ⟨⟨⟨fits_uuidList.mpr h16, fits_uuidList.mpr h128⟩, fits_kept a⟩, fits_kept b⟩

theorem exists_addData (ha : a.StaysInside) (hb : b.StaysInside) : ∃ parsedA parsedB,
    parseOutServiceUuid a.bytes [] [] = .ok parsedA ∧ parseNext b.bytes parsedA = .ok parsedB ∧
      (IsMerged a b (addData parsedA parsedB []) ↔ Mergeable a b) := by
  obtain ⟨leftA, hparseA, hleavesA⟩ := parse_stays ha [] []
  obtain ⟨leftB, hparseB, hleavesB⟩ := parse_stays hb (values isUuid16List a.structures)
    (values isUuid128List a.structures)
  have hparseB' := (parseNext_eq b.bytes ⟨leftA, _, _⟩).trans hparseB
  exact ⟨_, _, hparseA, hparseB', isMerged_iff hleavesA hleavesB rfl rfl⟩

theorem merged_iff {parsedA parsedB : Parsed} (ha : a.StaysInside) (hb : b.StaysInside)
    (hparseA : parseOutServiceUuid a.bytes [] [] = .ok parsedA) (hparseB : parseNext b.bytes parsedA = .ok parsedB) :
    IsMerged a b (addData parsedA parsedB []) ↔ Mergeable a b := by
  obtain ⟨parsedA', parsedB', hparseA', hparseB', hiff⟩ := exists_addData ha hb
  obtain rfl := Except.ok.inj (hparseA.symm.trans hparseA')
  obtain rfl := Except.ok.inj (hparseB.symm.trans hparseB')
  exact hiff

/-- **When the data are put together right**: something is taken out of every payload that is not empty, and the UUIDs
of a kind have room in one structure. A scan response that is not used needs to be gone through all the same. -/
theorem dtAddAdvData_meets_iff (param : AdvParam) (a b : Payloads) :
    Meets param a b ↔ Mergeable a.adv b.adv ∧ a.scanRsp.StaysInside ∧ b.scanRsp.StaysInside ∧
      (param.usesScanRsp = true → Mergeable a.scanRsp b.scanRsp) := by
  constructor
  · intro hmeets
    obtain ⟨advA, hadvA, hmeets⟩ := succeeds_bind.mp hmeets
    obtain ⟨scanA, hscanA, hmeets⟩ := succeeds_bind.mp hmeets
    obtain ⟨advB, hadvB, hmeets⟩ := succeeds_bind.mp hmeets
    obtain ⟨scanB, hscanB, hmeets⟩ := succeeds_bind.mp hmeets
    obtain ⟨hadv, hscan⟩ := succeeds_pure.mp hmeets
    have hstays : a.adv.StaysInside ∧ b.adv.StaysInside :=
      ⟨stays_of_parse hadvA, stays_of_parse ((parseNext_eq _ _).symm.trans hadvB)⟩
    have hstays' : a.scanRsp.StaysInside ∧ b.scanRsp.StaysInside :=
      ⟨stays_of_parse hscanA, stays_of_parse ((parseNext_eq _ _).symm.trans hscanB)⟩
    refine ⟨(merged_iff hstays.1 hstays.2 hadvA hadvB).mp hadv, hstays'.1, hstays'.2, fun hused => ?_⟩
    have hscan := hscan hused
    dsimp only at hscan
    rw [if_pos hused] at hscan
    exact (merged_iff hstays'.1 hstays'.2 hscanA hscanB).mp hscan
  · rintro ⟨hadv, hscanA, hscanB, hscan⟩
    obtain ⟨advA, advB, hadvA, hadvB, hmerged⟩ := exists_addData hadv.left.staysInside hadv.right.staysInside
    obtain ⟨scanA, scanB, hscanA, hscanB, hmerged'⟩ := exists_addData hscanA hscanB
    refine ⟨⟨addData advA advB [], if param.usesScanRsp then addData scanA scanB [] else []⟩, ?_, hmerged.mpr hadv,
      fun hused => ?_⟩
    · rw [dtAddAdvData, Payloads.data, Payloads.data, hadvA, ok_bind, hscanA, ok_bind, hadvB, ok_bind, hscanB, ok_bind]
      rfl
    · dsimp only
      rw [if_pos hused]
      exact hmerged'.mpr (hscan hused)

/-- Eight UUIDs of 128 bits -/
def eightUuids : Payload := ⟨[⟨0x07, List.replicate 128 0⟩], by decide +kernel, by decide +kernel, by decide +kernel⟩

def nothing : Payload := ⟨[], by decide, by decide, by decide⟩

/-- Sixteen UUIDs come under a head that gives the length of none. -/
theorem not_meets_sixteenUuids : ¬ Meets ⟨false, true, true⟩ ⟨eightUuids, nothing⟩ ⟨eightUuids, nothing⟩ := by
  rintro ⟨dest, -, hadv, -⟩
  exact absurd hadv.fits (by decide +kernel)

end Best1307.AdvData
