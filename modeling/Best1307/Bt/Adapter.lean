import Mathlib.Logic.Function.Basic
import Mathlib.Data.List.Range
import Best1307.Lib.Run

/-!
# The devices of the adapter

The adapter keeps the connected links in two tables, one for each role of the local side. A link gets the id of a
free slot of its table, and keeps what is known of it when it moves to the other one.

A slot for a source is looked for after the connected devices have been counted, and the count is that of the sink
table. Where only one of the tables is full, it refuses a source that fits, or goes on without a free slot and takes
the count for the id.
-/

namespace Best1307.Adapter

/-- `bt_bdaddr_t` -/
abbrev BdAddr := Vector UInt8 6

def btSourceDeviceIdBase : Nat := 0x10
def btDeviceTwsId : Nat := 0x0f
def btDeviceInvalidId : Nat := 0xff
def btInvalidConnHandle : Nat := 0xffff
def btHfpScoCodecCvsd : Nat := 1
def btStsSuccess : Nat := 0
def btStsAclAlreadyExists : Nat := 0x0b
def btStsBtCancelPage : Nat := 0xb9

/-- `BT_ADAPTER_MAX_DEVICE_NUM`; the ids of the sinks come before that of the TWS device. -/
structure Config where
  maxDeviceNum : Nat
  maxDeviceNum_le : maxDeviceNum ≤ btDeviceTwsId

/-- What the profiles of a device report. -/
structure Profiles where
  sniffInterval : Nat
  scoIsConnected : Bool
  scoCodecType : Nat
  scoHandle : Nat
  hfpIsConnected : Bool
  hfpCallState : Nat
  hfpCallsetupState : Nat
  hfpCallholdState : Nat
  hfpSpeakVol : Nat
  avrcpIsConnected : Bool
  avrcpPlaybackStatus : Nat
  a2dpIsConnected : Bool
  a2dpIsStreaming : Bool
  a2dpCodecType : Nat
  a2dpSampleRate : Nat
  rsvAvdtpStartSignal : Bool
  isUseLocalSbm : Nat
  mediaActive : Nat
  deriving DecidableEq, Repr

/-- `struct BT_ADAPTER_DEVICE_T` -/
structure Device where
  remote : BdAddr
  deviceId : Nat
  aclIsConnected : Bool
  aclBtRole : Nat
  aclLinkMode : Nat
  aclConnHdl : Nat
  profiles : Profiles
  deriving DecidableEq, Repr

def Profiles.zero : Profiles := ⟨0, false, 0, 0, false, 0, 0, 0, 0, false, 0, false, false, 0, 0, false, 0, 0⟩

def Profiles.clear (p : Profiles) : Profiles := { p with
  scoIsConnected := false
  hfpIsConnected := false
  a2dpIsConnected := false
  a2dpIsStreaming := false
  avrcpIsConnected := false
  scoHandle := btInvalidConnHandle
  scoCodecType := btHfpScoCodecCvsd }

/-- `bt_adapter_clear_device` -/
def Device.clear (d : Device) : Device := { d with
  aclIsConnected := false
  aclConnHdl := btInvalidConnHandle
  profiles := d.profiles.clear }

/-- A place of `bt_sink_device`, of `bt_source_device`, or `bt_tws_device`. -/
inductive Slot
  | sink (i : Nat)
  | source (i : Nat)
  | tws
  deriving DecidableEq, Repr

namespace Slot

def id : Slot → Nat
  | sink i => i
  | source i => btSourceDeviceIdBase + i
  | tws => btDeviceTwsId

def ofRole (isSource : Bool) (i : Nat) : Slot := if isSource then source i else sink i

end Slot

def Config.slots (cfg : Config) : List Slot :=
  (List.range cfg.maxDeviceNum).map .sink ++ (List.range cfg.maxDeviceNum).map .source ++ [.tws]

/-- `bt_adapter_get_device` -/
def getDevice (cfg : Config) (deviceId : Nat) : Option Slot :=
  if deviceId < cfg.maxDeviceNum then some (.sink deviceId)
  else if btSourceDeviceIdBase ≤ deviceId ∧ deviceId < btSourceDeviceIdBase + cfg.maxDeviceNum then
    some (.source (deviceId - btSourceDeviceIdBase))
  else if deviceId = btDeviceTwsId then some .tws
  else none

/-- The tables of `g_bt_adapter_manager`. -/
structure Manager where
  devices : Slot → Device

/-- `bt_adapter_manager_init` -/
def Manager.init : Manager where
  devices slot := { Device.clear ⟨.replicate 6 0, 0, false, 0, 0, 0, .zero⟩ with deviceId := slot.id }

/-- What `bt_adapter_report_acl_connected` reads of its parameter. -/
structure AclOpened where
  errorCode : Nat
  aclBtRole : Nat
  connHandle : Nat
  localIsSource : Bool
  deriving DecidableEq, Repr

namespace Manager

variable (cfg : Config) (m : Manager)

def set (slot : Slot) (d : Device) : Manager := ⟨Function.update m.devices slot d⟩

def isConnected (slot : Slot) : Bool := (m.devices slot).aclIsConnected

/-- `bt_adapter_get_connected_device_byaddr` -/
def getConnectedDeviceByaddr (remote : BdAddr) : Option Slot :=
  cfg.slots.find? fun slot => m.isConnected slot && (m.devices slot).remote == remote

def countConnectedDevice : Nat := (List.range cfg.maxDeviceNum).countP fun i => m.isConnected (.sink i)

/-- It counts the sinks, too. -/
def countConnectedSourceDevice : Nat := (List.range cfg.maxDeviceNum).countP fun i => m.isConnected (.sink i)

/-- `bt_adapter_create_new_device_id`; `bt_adapter_is_remote_tws_device` is always false. -/
def createNewDeviceId (localAsSource : Bool) : Nat :=
  if localAsSource then
    let count := m.countConnectedSourceDevice cfg
    if cfg.maxDeviceNum ≤ count then btDeviceInvalidId
    else
      match (List.range cfg.maxDeviceNum).find? fun i => !m.isConnected (.source i) with
      | some i => btSourceDeviceIdBase + i
      | none => count
  else
    let count := m.countConnectedDevice cfg
    if cfg.maxDeviceNum ≤ count then btDeviceInvalidId
    else
      match (List.range count).find? fun i => !m.isConnected (.sink i) with
      | some i => i
      | none => count

/-- The device moves to a new id; its old slot is cleared. -/
def moveDevice (slot : Slot) (newDeviceId : Nat) : Manager :=
  match getDevice cfg newDeviceId with
  | some newSlot => (m.set slot (m.devices slot).clear).set newSlot { m.devices slot with deviceId := newDeviceId }
  | none => m

/-- `bt_adapter_reset_device_id`, with the id it returns. -/
def resetDeviceId (slot : Slot) (resetToSource : Bool) : Nat × Manager :=
  let curr := m.devices slot
  if ¬ curr.aclIsConnected then (curr.deviceId, m)
  else if curr.deviceId = btDeviceTwsId then (btDeviceTwsId, m)
  else if curr.deviceId < cfg.maxDeviceNum then
    if resetToSource then
      let newDeviceId := m.createNewDeviceId cfg true
      if newDeviceId ≠ btDeviceInvalidId then (newDeviceId, m.moveDevice cfg slot newDeviceId)
      else (curr.deviceId, m)
    else (curr.deviceId, m)
  else if btSourceDeviceIdBase ≤ curr.deviceId ∧ curr.deviceId < btSourceDeviceIdBase + cfg.maxDeviceNum then
    if resetToSource then (curr.deviceId, m)
    else
      let newDeviceId := m.createNewDeviceId cfg false
      if newDeviceId ≠ btDeviceInvalidId then (newDeviceId, m.moveDevice cfg slot newDeviceId)
      else (curr.deviceId, m)
  else (curr.deviceId, m)

def openDevice (slot : Slot) (remote : BdAddr) (acl : AclOpened) : Manager :=
  m.set slot { (m.devices slot).clear with
    remote
    aclIsConnected := true
    aclLinkMode := 0
    aclBtRole := acl.aclBtRole
    aclConnHdl := acl.connHandle }

def clearConnected (remote : BdAddr) : Manager :=
  match m.getConnectedDeviceByaddr cfg remote with
  | some slot => m.set slot (m.devices slot).clear
  | none => m

/-- `bt_adapter_report_acl_connected` without an id in the report. -/
def reportAclConnected (remote : BdAddr) (acl : AclOpened) : Manager :=
  if acl.errorCode = btStsAclAlreadyExists then m
  else if acl.errorCode = btStsSuccess then
    match getDevice cfg (m.createNewDeviceId cfg acl.localIsSource) with
    | some slot => m.openDevice slot remote acl
    | none => m
  else if acl.errorCode ≠ btStsBtCancelPage then m.clearConnected cfg remote
  else m

end Manager

/-! ### The links -/

/-- A connected link: the role of the local side and what is known of it. -/
structure Link where
  isSource : Bool
  aclBtRole : Nat
  aclLinkMode : Nat
  aclConnHdl : Nat
  profiles : Profiles
  deriving DecidableEq, Repr

def Device.link (d : Device) (isSource : Bool) : Link :=
  ⟨isSource, d.aclBtRole, d.aclLinkMode, d.aclConnHdl, d.profiles⟩

/-- The manager, and the links that the reports and answers so far leave. -/
structure State where
  manager : Manager
  links : BdAddr → Option Link

def State.init : State := ⟨.init, fun _ => none⟩

/-- A link comes up, fails to or goes down, its profiles report, or the device of a slot changes its role. -/
inductive Event
  | aclConnected (remote : BdAddr) (acl : AclOpened)
  | aclDisconnected (remote : BdAddr)
  | profiles (remote : BdAddr) (profiles : Profiles)
  | resetDeviceId (slot : Slot) (resetToSource : Bool)
  deriving DecidableEq, Repr

namespace State

variable (cfg : Config) (s : State)

/-- The role a new id is looked for in. -/
def creates : Event → Option Bool
  | .aclConnected _ acl => if acl.errorCode = btStsSuccess then some acl.localIsSource else none
  | .resetDeviceId slot resetToSource =>
      if s.manager.isConnected slot then
        match slot with
        | .sink _ => if resetToSource then some true else none
        | .source _ => if resetToSource then none else some false
        | .tws => none
      else none
  | _ => none

/-- A link that comes up and is given an id is there, in its role; one that fails or goes down is not. -/
def linksAfterAclConnected (remote : BdAddr) (acl : AclOpened) : BdAddr → Option Link :=
  if acl.errorCode = btStsAclAlreadyExists then s.links
  else if acl.errorCode = btStsSuccess then
    match getDevice cfg (s.manager.createNewDeviceId cfg acl.localIsSource) with
    | some slot =>
        Function.update s.links remote (some ⟨acl.localIsSource, acl.aclBtRole, 0, acl.connHandle,
          (s.manager.devices slot).profiles.clear⟩)
    | none => s.links
  else if acl.errorCode ≠ btStsBtCancelPage then Function.update s.links remote none
  else s.links

/-- A device that is given a new id has changed its role and nothing else. -/
def linksAfterReset (slot : Slot) (resetToSource : Bool) : BdAddr → Option Link :=
  match s.creates (.resetDeviceId slot resetToSource) with
  | some isSource =>
      match getDevice cfg (s.manager.createNewDeviceId cfg isSource) with
      | some _ =>
          let remote := (s.manager.devices slot).remote
          Function.update s.links remote ((s.links remote).map fun link => { link with isSource })
      | none => s.links
  | none => s.links

end State

/-- A link does not come up at an address that is connected. -/
def step (cfg : Config) (s : State) : Event → Option State
  | .aclConnected remote acl =>
      if acl.errorCode = btStsSuccess ∧ (s.links remote).isSome then none
      else some ⟨s.manager.reportAclConnected cfg remote acl, s.linksAfterAclConnected cfg remote acl⟩
  | .aclDisconnected remote => some ⟨s.manager.clearConnected cfg remote, Function.update s.links remote none⟩
  | .profiles remote profiles =>
      (s.manager.getConnectedDeviceByaddr cfg remote).map fun slot =>
        ⟨s.manager.set slot { s.manager.devices slot with profiles },
          Function.update s.links remote ((s.links remote).map fun link => { link with profiles })⟩
  | .resetDeviceId slot resetToSource =>
      if slot ∈ cfg.slots then
        some ⟨(s.manager.resetDeviceId cfg slot resetToSource).2, s.linksAfterReset cfg slot resetToSource⟩
      else none

/-! ### What the tables should say -/

namespace Manager

variable (cfg : Config) (m : Manager)

/-- The slot is one of the table of the link's role, and says of the device what the link is. -/
def Holds (slot : Slot) (remote : BdAddr) (link : Link) : Prop :=
  (∃ i < cfg.maxDeviceNum, slot = .ofRole link.isSource i) ∧ m.isConnected slot ∧
    (m.devices slot).remote = remote ∧ (m.devices slot).link link.isSource = link

def Full (isSource : Bool) : Prop := ∀ i < cfg.maxDeviceNum, m.isConnected (.ofRole isSource i)

/-- The new id is that of a free slot of the table, or the table is full. -/
structure CreatesFree (isSource : Bool) : Prop where
  invalid : m.createNewDeviceId cfg isSource = btDeviceInvalidId → m.Full cfg isSource
  free : ∀ slot, getDevice cfg (m.createNewDeviceId cfg isSource) = some slot →
    (∃ i < cfg.maxDeviceNum, slot = .ofRole isSource i) ∧ m.isConnected slot = false

end Manager

/-- Every link is held by one slot and every connected slot holds a link, with the id of the slot. -/
structure Represents (cfg : Config) (m : Manager) (links : BdAddr → Option Link) : Prop where
  deviceId : ∀ slot ∈ cfg.slots, (m.devices slot).deviceId = slot.id
  link : ∀ remote link, links remote = some link → ∃ slot, m.Holds cfg slot remote link
  slot : ∀ slot ∈ cfg.slots, m.isConnected slot →
    ∃ link, links (m.devices slot).remote = some link ∧ m.Holds cfg slot (m.devices slot).remote link
  unique : ∀ slot ∈ cfg.slots, ∀ slot' ∈ cfg.slots, m.isConnected slot → m.isConnected slot' →
    (m.devices slot).remote = (m.devices slot').remote → slot = slot'

/-- A step that creates an id creates a free one where there is one, and every step leaves the tables right. -/
def State.Correct (cfg : Config) (s : State) (e : Event) : Prop :=
  ∀ s', step cfg s e = some s' →
    (∀ isSource, s.creates e = some isSource → s.manager.CreatesFree cfg isSource) ∧
      Represents cfg s'.manager s'.links

/-- No source is looked for while just one of the two tables is full. -/
def State.FullAlike (cfg : Config) (s : State) (e : Event) : Prop :=
  (step cfg s e).isSome → s.creates e = some true → (s.manager.Full cfg false ↔ s.manager.Full cfg true)

/-! ### The slots -/

section Slots

variable {cfg : Config} {slot : Slot} {isSource : Bool} {i deviceId : Nat}

theorem mem_slots : slot ∈ cfg.slots ↔ (∃ isSource, ∃ i < cfg.maxDeviceNum, slot = .ofRole isSource i) ∨
    slot = .tws := by
  simp only [Config.slots, List.mem_append, List.mem_map, List.mem_range, List.mem_singleton, Bool.exists_bool,
    Slot.ofRole, Bool.false_eq_true, if_true, if_false, eq_comm]

theorem ofRole_mem_slots (hi : i < cfg.maxDeviceNum) : .ofRole isSource i ∈ cfg.slots :=
  mem_slots.mpr (.inl ⟨isSource, i, hi, rfl⟩)

theorem getDevice_id (hslot : slot ∈ cfg.slots) : getDevice cfg slot.id = some slot := by
  have hmax : cfg.maxDeviceNum ≤ 15 := cfg.maxDeviceNum_le
  rcases mem_slots.mp hslot with ⟨isSource, i, hi, rfl⟩ | rfl
  · cases isSource with
    | false => exact if_pos hi
    | true =>
        have hsink : ¬ 16 + i < cfg.maxDeviceNum := by omega
        have hsource : 16 ≤ 16 + i ∧ 16 + i < 16 + cfg.maxDeviceNum := by omega
        refine (if_neg hsink).trans ((if_pos hsource).trans ?_)
        exact congrArg (some ∘ Slot.source) (Nat.add_sub_cancel_left 16 i)
  · have hsink : ¬ 15 < cfg.maxDeviceNum := by omega
    have hsource : ¬ (16 ≤ 15 ∧ 15 < 16 + cfg.maxDeviceNum) := by omega
    exact (if_neg hsink).trans (if_neg hsource)

theorem getDevice_invalid : getDevice cfg btDeviceInvalidId = none := by
  have hmax : cfg.maxDeviceNum ≤ 15 := cfg.maxDeviceNum_le
  have hsink : ¬ 255 < cfg.maxDeviceNum := by omega
  have hsource : ¬ (16 ≤ 255 ∧ 255 < 16 + cfg.maxDeviceNum) := by omega
  exact (if_neg hsink).trans (if_neg hsource)

theorem id_ne_invalid (hslot : slot ∈ cfg.slots) : slot.id ≠ btDeviceInvalidId := by
  intro h
  have hget := getDevice_id hslot
  rw [h, getDevice_invalid] at hget
  cases hget

theorem id_of_getDevice (h : getDevice cfg deviceId = some slot) : slot.id = deviceId := by
  rw [getDevice] at h
  split at h
  · obtain rfl := Option.some.inj h
    rfl
  · split at h
    case isTrue hsource =>
      obtain rfl := Option.some.inj h
      exact Nat.add_sub_cancel' hsource.1
    case isFalse =>
      split at h
      case isTrue htws =>
        obtain rfl := Option.some.inj h
        exact htws.symm
      case isFalse => cases h

end Slots

/-! ### Looking for a slot -/

/-- Where the first ones are as many as all there are, the others are none of them. -/
theorem not_of_countP_range {p : Nat → Bool} {n i : Nat} (hfirst : ∀ j < (List.range n).countP p, p j)
    (hi : (List.range n).countP p ≤ i) (hin : i < n) : p i = false := by
  obtain ⟨k, hk⟩ : ∃ k, (List.range n).countP p = k := ⟨_, rfl⟩
  rw [hk] at hfirst hi
  have hsplit : List.range n = List.range k ++ (List.range (n - k)).map (k + ·) := by
    rw [← List.range_add, Nat.add_sub_cancel' (hi.trans hin.le)]
  have hall : (List.range k).countP p = k := by
    conv_rhs => rw [← List.length_range (n := k)]
    exact List.countP_eq_length.mpr fun j hj => hfirst j (List.mem_range.mp hj)
  have hrest : ((List.range (n - k)).map (k + ·)).countP p = 0 := by
    rw [hsplit, List.countP_append, hall] at hk
    omega
  have hmem : i ∈ (List.range (n - k)).map (k + ·) :=
    List.mem_map.mpr ⟨i - k, List.mem_range.mpr (by omega), Nat.add_sub_cancel' hi⟩
  exact Bool.eq_false_iff.mpr (List.countP_eq_zero.mp hrest i hmem)

theorem find?_range_eq_some {p : Nat → Bool} {n i : Nat} (h : ((List.range n).find? fun j => !p j) = some i) :
    i < n ∧ p i = false := by
  have hfree : (!p i) = true := List.find?_some (p := fun j => !p j) h
  exact ⟨List.mem_range.mp (List.mem_of_find?_eq_some h), (Bool.not_eq_true' _).mp hfree⟩

theorem find?_range_eq_none {p : Nat → Bool} {n j : Nat} (h : ((List.range n).find? fun j => !p j) = none)
    (hj : j < n) : p j = true := by
  have hnot := List.find?_eq_none.mp h j (List.mem_range.mpr hj)
  rwa [Bool.not_eq_true', Bool.not_eq_false] at hnot

namespace Manager

variable {cfg : Config} {m : Manager} {isSource : Bool} {i : Nat}

theorem full_iff : m.Full cfg isSource ↔
    cfg.maxDeviceNum ≤ (List.range cfg.maxDeviceNum).countP fun i => m.isConnected (.ofRole isSource i) := by
  have hall := List.countP_eq_length (p := fun i => m.isConnected (.ofRole isSource i))
    (l := List.range cfg.maxDeviceNum)
  have hle := List.countP_le_length (p := fun i => m.isConnected (.ofRole isSource i))
    (l := List.range cfg.maxDeviceNum)
  rw [List.length_range] at hall hle
  simp only [List.mem_range] at hall
  exact hall.symm.trans ⟨fun h => h.ge, fun h => hle.antisymm h⟩

theorem CreatesFree.of_full (hid : m.createNewDeviceId cfg isSource = btDeviceInvalidId) :
    m.CreatesFree cfg isSource ↔ m.Full cfg isSource := by
  refine ⟨fun h => h.invalid hid, fun hfull => ⟨fun _ => hfull, fun slot hslot => ?_⟩⟩
  rw [hid, getDevice_invalid] at hslot
  cases hslot

theorem CreatesFree.of_free (hid : m.createNewDeviceId cfg isSource = (Slot.ofRole isSource i).id)
    (hi : i < cfg.maxDeviceNum) (hfree : m.isConnected (.ofRole isSource i) = false) :
    m.CreatesFree cfg isSource := by
  have hmem : Slot.ofRole isSource i ∈ cfg.slots := ofRole_mem_slots hi
  refine ⟨fun hinvalid => absurd (hid.symm.trans hinvalid) (id_ne_invalid hmem), fun slot hslot => ?_⟩
  rw [hid, getDevice_id hmem] at hslot
  obtain rfl := Option.some.inj hslot
  exact ⟨⟨i, hi, rfl⟩, hfree⟩

/-- The sinks before the count are all connected only if the next one is free. -/
theorem createsFree_sink : m.CreatesFree cfg false := by
  by_cases hfull : m.Full cfg false
  · refine (CreatesFree.of_full ?_).mpr hfull
    exact if_pos (full_iff.mp hfull)
  · have hcount : ¬ cfg.maxDeviceNum ≤ m.countConnectedDevice cfg := fun h => hfull (full_iff.mpr h)
    have hid : m.createNewDeviceId cfg false =
        match (List.range (m.countConnectedDevice cfg)).find? fun i => !m.isConnected (.sink i) with
        | some i => i
        | none => m.countConnectedDevice cfg := if_neg hcount
    cases hfind : (List.range (m.countConnectedDevice cfg)).find? fun i => !m.isConnected (.sink i) with
    | some i =>
        rw [hfind] at hid
        obtain ⟨hi, hfree⟩ := find?_range_eq_some hfind
        exact CreatesFree.of_free hid (by omega) hfree
    | none =>
        rw [hfind] at hid
        have hnext := not_le.mp hcount
        exact CreatesFree.of_free hid hnext
          (not_of_countP_range (fun j hj => find?_range_eq_none hfind hj) le_rfl hnext)

/-- The sinks are counted: a source is refused or given the id of a sink where just one of the tables is full. -/
theorem createsFree_source : m.CreatesFree cfg true ↔ (m.Full cfg false ↔ m.Full cfg true) := by
  by_cases hfull : m.Full cfg false
  · have hid : m.createNewDeviceId cfg true = btDeviceInvalidId := if_pos (full_iff.mp hfull)
    rw [CreatesFree.of_full hid]
    exact ⟨fun h => ⟨fun _ => h, fun _ => hfull⟩, fun h => h.mp hfull⟩
  · have hcount : ¬ cfg.maxDeviceNum ≤ m.countConnectedSourceDevice cfg := fun h => hfull (full_iff.mpr h)
    have hid : m.createNewDeviceId cfg true =
        match (List.range cfg.maxDeviceNum).find? fun i => !m.isConnected (.source i) with
        | some i => btSourceDeviceIdBase + i
        | none => m.countConnectedSourceDevice cfg := if_neg hcount
    cases hfind : (List.range cfg.maxDeviceNum).find? fun i => !m.isConnected (.source i) with
    | some i =>
        rw [hfind] at hid
        obtain ⟨hi, hfree⟩ := find?_range_eq_some hfind
        refine ⟨fun _ => ⟨fun h => absurd h hfull, fun h => ?_⟩, fun _ => CreatesFree.of_free hid hi hfree⟩
        exact absurd (h i hi) (Bool.eq_false_iff.mp hfree)
    | none =>
        rw [hfind] at hid
        have hsources : m.Full cfg true := fun i hi => find?_range_eq_none hfind hi
        have hsink : getDevice cfg (m.createNewDeviceId cfg true) =
            some (.sink (m.countConnectedSourceDevice cfg)) := by
          rw [hid]
          exact if_pos (not_le.mp hcount)
        refine ⟨fun h => ?_, fun h => absurd (h.mpr hsources) hfull⟩
        obtain ⟨⟨i, -, hslot⟩, -⟩ := h.free _ hsink
        cases hslot

end Manager

/-! ### One slot is written -/

namespace Manager

variable {cfg : Config} {m : Manager} {slot slot' : Slot} {d : Device} {remote : BdAddr} {link : Link}

@[simp] theorem devices_set_self : (m.set slot d).devices slot = d := Function.update_self ..

theorem devices_set_of_ne (h : slot' ≠ slot) : (m.set slot d).devices slot' = m.devices slot' :=
  Function.update_of_ne h ..

theorem isConnected_set_of_ne (h : slot' ≠ slot) : (m.set slot d).isConnected slot' = m.isConnected slot' := by
  rw [isConnected, isConnected, devices_set_of_ne h]

theorem holds_set_of_ne (h : slot' ≠ slot) :
    (m.set slot d).Holds cfg slot' remote link ↔ m.Holds cfg slot' remote link := by
  simp only [Holds, isConnected_set_of_ne h, devices_set_of_ne h]

theorem Holds.mem_slots (h : m.Holds cfg slot remote link) : slot ∈ cfg.slots := by
  obtain ⟨⟨i, hi, rfl⟩, -⟩ := h
  exact ofRole_mem_slots hi

end Manager

namespace Represents

variable {cfg : Config} {m : Manager} {links : BdAddr → Option Link} {slot newSlot : Slot} {d : Device}
  {remote : BdAddr}

theorem remote_ne (h : Represents cfg m links) (hslot : slot ∈ cfg.slots) (hconn : m.isConnected slot)
    (hslot' : newSlot ∈ cfg.slots) (hconn' : m.isConnected newSlot) (hne : newSlot ≠ slot) :
    (m.devices newSlot).remote ≠ (m.devices slot).remote := by
  intro hremote
  exact hne (h.unique newSlot hslot' slot hslot hconn' hconn hremote)

theorem clear (h : Represents cfg m links) (hslot : slot ∈ cfg.slots) (hconn : m.isConnected slot) :
    Represents cfg (m.set slot (m.devices slot).clear) (Function.update links (m.devices slot).remote none) := by
  have hcleared : (m.set slot (m.devices slot).clear).isConnected slot = false := by
    rw [Manager.isConnected, Manager.devices_set_self]
    rfl
  have hother (slot' : Slot) (hconn' : (m.set slot (m.devices slot).clear).isConnected slot') : slot' ≠ slot := by
    rintro rfl
    exact absurd (hcleared.symm.trans hconn') Bool.noConfusion
  constructor
  case deviceId =>
    intro slot' hslot'
    by_cases hsame : slot' = slot
    · subst hsame
      exact (congrArg Device.deviceId Manager.devices_set_self).trans (h.deviceId _ hslot)
    · exact (congrArg Device.deviceId (Manager.devices_set_of_ne hsame)).trans (h.deviceId _ hslot')
  case link =>
    intro r link hlink
    have hne : r ≠ (m.devices slot).remote := by
      rintro rfl
      rw [Function.update_self] at hlink
      cases hlink
    rw [Function.update_of_ne hne] at hlink
    obtain ⟨slot', hholds⟩ := h.link r link hlink
    refine ⟨slot', (Manager.holds_set_of_ne ?_).mpr hholds⟩
    rintro rfl
    exact hne hholds.2.2.1.symm
  case slot =>
    intro slot' hslot' hconn'
    have hne := hother slot' hconn'
    have hconn'' := (Manager.isConnected_set_of_ne hne).symm.trans hconn'
    obtain ⟨link, hlink, hholds⟩ := h.slot slot' hslot' hconn''
    have hremote := h.remote_ne hslot hconn hslot' hconn'' hne
    refine ⟨link, ?_, ?_⟩
    · rw [Manager.devices_set_of_ne hne, Function.update_of_ne hremote]
      exact hlink
    · rw [Manager.devices_set_of_ne hne, Manager.holds_set_of_ne hne]
      exact hholds
  case unique =>
    intro a ha b hb hconna hconnb hremote
    have hnea := hother a hconna
    have hneb := hother b hconnb
    rw [Manager.isConnected_set_of_ne hnea] at hconna
    rw [Manager.isConnected_set_of_ne hneb] at hconnb
    rw [Manager.devices_set_of_ne hnea, Manager.devices_set_of_ne hneb] at hremote
    exact h.unique a ha b hb hconna hconnb hremote

theorem place (h : Represents cfg m links) (isSource : Bool)
    (hrole : ∃ i < cfg.maxDeviceNum, slot = .ofRole isSource i) (hfree : m.isConnected slot = false)
    (hnew : links d.remote = none) (hconn : d.aclIsConnected) (hid : d.deviceId = slot.id) :
    Represents cfg (m.set slot d) (Function.update links d.remote (some (d.link isSource))) := by
  have hself : (m.set slot d).devices slot = d := Manager.devices_set_self
  have hholds : (m.set slot d).Holds cfg slot d.remote (d.link isSource) := by
    refine ⟨hrole, ?_, congrArg Device.remote hself, congrArg (Device.link · isSource) hself⟩
    exact (congrArg Device.aclIsConnected hself).trans hconn
  -- no other slot has the address
  have hremote (slot' : Slot) (hslot' : slot' ∈ cfg.slots) (hconn' : m.isConnected slot') :
      (m.devices slot').remote ≠ d.remote := by
    intro hsame
    obtain ⟨link, hlink, -⟩ := h.slot slot' hslot' hconn'
    rw [hsame, hnew] at hlink
    cases hlink
  constructor
  case deviceId =>
    intro slot' hslot'
    by_cases hsame : slot' = slot
    · subst hsame
      exact (congrArg Device.deviceId hself).trans hid
    · exact (congrArg Device.deviceId (Manager.devices_set_of_ne hsame)).trans (h.deviceId _ hslot')
  case link =>
    intro r link hlink
    by_cases hsame : r = d.remote
    · subst hsame
      rw [Function.update_self] at hlink
      obtain rfl := Option.some.inj hlink
      exact ⟨slot, hholds⟩
    · rw [Function.update_of_ne hsame] at hlink
      obtain ⟨slot', hholds'⟩ := h.link r link hlink
      refine ⟨slot', (Manager.holds_set_of_ne ?_).mpr hholds'⟩
      rintro rfl
      exact absurd (hfree.symm.trans hholds'.2.1) Bool.noConfusion
  case slot =>
    intro slot' hslot' hconn'
    by_cases hsame : slot' = slot
    · subst hsame
      rw [hself]
      exact ⟨_, Function.update_self .., hholds⟩
    · rw [Manager.isConnected_set_of_ne hsame] at hconn'
      obtain ⟨link, hlink, hholds'⟩ := h.slot slot' hslot' hconn'
      rw [Manager.devices_set_of_ne hsame]
      refine ⟨link, ?_, (Manager.holds_set_of_ne hsame).mpr hholds'⟩
      rw [Function.update_of_ne (hremote slot' hslot' hconn')]
      exact hlink
  case unique =>
    intro a ha b hb hconna hconnb hsame
    by_cases hnea : a = slot
    · by_cases hneb : b = slot
      · exact hnea.trans hneb.symm
      · rw [Manager.isConnected_set_of_ne hneb] at hconnb
        rw [hnea, hself, Manager.devices_set_of_ne hneb] at hsame
        exact absurd hsame.symm (hremote b hb hconnb)
    · rw [Manager.isConnected_set_of_ne hnea] at hconna
      rw [Manager.devices_set_of_ne hnea] at hsame
      by_cases hneb : b = slot
      · rw [hneb, hself] at hsame
        exact absurd hsame (hremote a ha hconna)
      · rw [Manager.isConnected_set_of_ne hneb] at hconnb
        rw [Manager.devices_set_of_ne hneb] at hsame
        exact h.unique a ha b hb hconna hconnb hsame

/-! ### The reports -/

theorem getConnectedDeviceByaddr_eq_some (h : m.getConnectedDeviceByaddr cfg remote = some slot) :
    slot ∈ cfg.slots ∧ m.isConnected slot ∧ (m.devices slot).remote = remote := by
  have hfound := List.find?_some (p := fun slot => m.isConnected slot && (m.devices slot).remote == remote) h
  rw [Bool.and_eq_true, beq_iff_eq] at hfound
  exact ⟨List.mem_of_find?_eq_some h, hfound⟩

theorem getConnectedDeviceByaddr_eq_none (h : Represents cfg m links)
    (hnone : m.getConnectedDeviceByaddr cfg remote = none) : links remote = none := by
  rw [Option.eq_none_iff_forall_ne_some]
  intro link hlink
  obtain ⟨slot, hholds⟩ := h.link remote link hlink
  have hnot := List.find?_eq_none.mp hnone slot hholds.mem_slots
  rw [Bool.and_eq_true, beq_iff_eq] at hnot
  exact hnot ⟨hholds.2.1, hholds.2.2.1⟩

theorem clearConnected (h : Represents cfg m links) (remote : BdAddr) :
    Represents cfg (m.clearConnected cfg remote) (Function.update links remote none) := by
  rw [Manager.clearConnected]
  cases hfind : m.getConnectedDeviceByaddr cfg remote with
  | some slot =>
      obtain ⟨hslot, hconn, rfl⟩ := getConnectedDeviceByaddr_eq_some hfind
      exact h.clear hslot hconn
  | none =>
      rw [← h.getConnectedDeviceByaddr_eq_none hfind, Function.update_eq_self]
      exact h

theorem openDevice (h : Represents cfg m links) {isSource : Bool} {acl : AclOpened}
    (hrole : ∃ i < cfg.maxDeviceNum, slot = .ofRole isSource i) (hfree : m.isConnected slot = false)
    (hnew : links remote = none) :
    Represents cfg (m.openDevice slot remote acl) (Function.update links remote
      (some ⟨isSource, acl.aclBtRole, 0, acl.connHandle, (m.devices slot).profiles.clear⟩)) := by
  obtain ⟨i, hi, rfl⟩ := hrole
  exact h.place isSource ⟨i, hi, rfl⟩ hfree hnew rfl (h.deviceId _ (ofRole_mem_slots hi))

theorem reportAclConnected (h : Represents cfg m links) {acl : AclOpened}
    (hnew : acl.errorCode = btStsSuccess → links remote = none)
    (hcreates : acl.errorCode = btStsSuccess → m.CreatesFree cfg acl.localIsSource) :
    Represents cfg (m.reportAclConnected cfg remote acl) (State.linksAfterAclConnected cfg ⟨m, links⟩ remote acl) := by
  rw [Manager.reportAclConnected, State.linksAfterAclConnected]
  split
  case isTrue => exact h
  case isFalse =>
    split
    case isTrue hsuccess =>
      have hfree := (hcreates hsuccess).free
      cases hget : getDevice cfg (m.createNewDeviceId cfg acl.localIsSource) with
      | some slot => exact h.openDevice (hfree slot hget).1 (hfree slot hget).2 (hnew hsuccess)
      | none => exact h
    case isFalse =>
      split
      case isTrue => exact h.clearConnected remote
      case isFalse => exact h

theorem move (h : Represents cfg m links) (hslot : slot ∈ cfg.slots) (hconn : m.isConnected slot) {isSource : Bool}
    (hrole : ∃ i < cfg.maxDeviceNum, newSlot = .ofRole isSource i) (hfree : m.isConnected newSlot = false) :
    Represents cfg ((m.set slot (m.devices slot).clear).set newSlot { m.devices slot with deviceId := newSlot.id })
      (Function.update links (m.devices slot).remote ((links (m.devices slot).remote).map fun link =>
        { link with isSource })) := by
  obtain ⟨link, hlink, hholds⟩ := h.slot slot hslot hconn
  have hne : newSlot ≠ slot := by
    rintro rfl
    exact absurd (hfree.symm.trans hconn) Bool.noConfusion
  have hfree' : (m.set slot (m.devices slot).clear).isConnected newSlot = false := by
    rw [Manager.isConnected_set_of_ne hne, hfree]
  have hplaced := (h.clear hslot hconn).place (d := { m.devices slot with deviceId := newSlot.id }) _ hrole hfree'
    (Function.update_self ..) hconn rfl
  have hsame : (links (m.devices slot).remote).map (fun link => { link with isSource }) =
      some ((m.devices slot).link isSource) := by
    rw [hlink, Option.map_some, ← hholds.2.2.2]
    rfl
  rw [hsame]
  rw [Function.update_idem] at hplaced
  exact hplaced

theorem profiles (h : Represents cfg m links) {profiles : Profiles}
    (hfind : m.getConnectedDeviceByaddr cfg remote = some slot) :
    Represents cfg (m.set slot { m.devices slot with profiles })
      (Function.update links remote ((links remote).map fun link => { link with profiles })) := by
  obtain ⟨hslot, hconn, rfl⟩ := getConnectedDeviceByaddr_eq_some hfind
  obtain ⟨link, hlink, hrole, -, -, hheld⟩ := h.slot slot hslot hconn
  have hfree : (m.set slot (m.devices slot).clear).isConnected slot = false := by
    rw [Manager.isConnected, Manager.devices_set_self]
    rfl
  have hplaced := (h.clear hslot hconn).place (d := { m.devices slot with profiles }) _ hrole hfree
    (Function.update_self ..) hconn (h.deviceId slot hslot)
  have hsame : (links (m.devices slot).remote).map (fun link => { link with profiles }) =
      some (Device.link { m.devices slot with profiles } link.isSource) := by
    rw [hlink, Option.map_some]
    conv_lhs => rw [← hheld]
    rfl
  rw [hsame]
  rw [Function.update_idem] at hplaced
  simp only [Manager.set, Function.update_idem] at hplaced ⊢
  exact hplaced

theorem resetDeviceId_eq (h : Represents cfg m links) (hslot : slot ∈ cfg.slots) (resetToSource : Bool) :
    (m.resetDeviceId cfg slot resetToSource).2 =
      match State.creates ⟨m, links⟩ (.resetDeviceId slot resetToSource) with
      | some isSource => m.moveDevice cfg slot (m.createNewDeviceId cfg isSource)
      | none => m := by
  have hmax : cfg.maxDeviceNum ≤ 15 := cfg.maxDeviceNum_le
  have hid := h.deviceId slot hslot
  have hgranted (isSource : Bool) (deviceId : Nat) :
      (if m.createNewDeviceId cfg isSource ≠ btDeviceInvalidId then
        (m.createNewDeviceId cfg isSource, m.moveDevice cfg slot (m.createNewDeviceId cfg isSource))
      else (deviceId, m)).2 = m.moveDevice cfg slot (m.createNewDeviceId cfg isSource) := by
    split
    case isTrue => rfl
    case isFalse hinvalid => rw [not_not.mp hinvalid, Manager.moveDevice, getDevice_invalid]
  by_cases hconn : m.isConnected slot
  case neg =>
    simp only [Manager.resetDeviceId, State.creates, hconn, Bool.false_eq_true, if_false]
    exact congrArg Prod.snd (if_pos hconn)
  case pos =>
    have hopen : ¬ ¬ (m.devices slot).aclIsConnected := not_not.mpr hconn
    rcases mem_slots.mp hslot with ⟨isSource, i, hi, rfl⟩ | rfl
    · cases isSource with
      | false =>
          have hid : (m.devices (.ofRole false i)).deviceId = i := hid
          have htws : ¬ (m.devices (.ofRole false i)).deviceId = btDeviceTwsId := by
            change ¬ _ = 15
            omega
          have hsink : (m.devices (.ofRole false i)).deviceId < cfg.maxDeviceNum := by omega
          have hcreates : State.creates ⟨m, links⟩ (.resetDeviceId (.ofRole false i) resetToSource) =
            if resetToSource then some true else none := if_pos hconn
          rw [Manager.resetDeviceId, if_neg hopen, if_neg htws, if_pos hsink, hcreates]
          cases resetToSource with
          | false => rfl
          | true => exact hgranted true _
      | true =>
          have hid : (m.devices (.ofRole true i)).deviceId = 16 + i := hid
          have htws : ¬ (m.devices (.ofRole true i)).deviceId = btDeviceTwsId := by
            change ¬ _ = 15
            omega
          have hsink : ¬ (m.devices (.ofRole true i)).deviceId < cfg.maxDeviceNum := by omega
          have hsource : btSourceDeviceIdBase ≤ (m.devices (.ofRole true i)).deviceId ∧
              (m.devices (.ofRole true i)).deviceId < btSourceDeviceIdBase + cfg.maxDeviceNum := by
            change 16 ≤ _ ∧ _ < 16 + _
            omega
          have hcreates : State.creates ⟨m, links⟩ (.resetDeviceId (.ofRole true i) resetToSource) =
            if resetToSource then none else some false := if_pos hconn
          rw [Manager.resetDeviceId, if_neg hopen, if_neg htws, if_neg hsink, if_pos hsource, hcreates]
          cases resetToSource with
          | false => exact hgranted false _
          | true => rfl
    · have hid : (m.devices .tws).deviceId = btDeviceTwsId := hid
      have hcreates : State.creates ⟨m, links⟩ (.resetDeviceId .tws resetToSource) = none := if_pos hconn
      rw [Manager.resetDeviceId, if_neg hopen, if_pos hid, hcreates]

theorem resetDeviceId (h : Represents cfg m links) (hslot : slot ∈ cfg.slots) {resetToSource : Bool}
    (hcreates : ∀ isSource, State.creates ⟨m, links⟩ (.resetDeviceId slot resetToSource) = some isSource →
      m.CreatesFree cfg isSource) :
    Represents cfg (m.resetDeviceId cfg slot resetToSource).2
      (State.linksAfterReset cfg ⟨m, links⟩ slot resetToSource) := by
  rw [h.resetDeviceId_eq hslot, State.linksAfterReset]
  cases hrole : State.creates ⟨m, links⟩ (.resetDeviceId slot resetToSource) with
  | none => exact h
  | some isSource =>
      have hconn : m.isConnected slot := by
        by_contra hnot
        simp only [State.creates, hnot, if_false, reduceCtorEq] at hrole
      simp only [Manager.moveDevice]
      cases hget : getDevice cfg (m.createNewDeviceId cfg isSource) with
      | none => exact h
      | some newSlot =>
          obtain ⟨hnew, hfree⟩ := (hcreates isSource hrole).free newSlot hget
          rw [← id_of_getDevice hget]
          exact h.move hslot hconn hnew hfree

theorem init : Represents cfg .init (fun _ => none) where
  deviceId := fun _ _ => rfl
  link := by
    intro remote link hlink
    cases hlink
  slot := by
    intro slot _ hconn
    cases hconn
  unique := by
    intro slot _ slot' _ hconn
    cases hconn

end Represents

/-! ### Every sequence of reports and resets -/

namespace State

variable {cfg : Config} {s s' : State} {e : Event}

/-- A step keeps the tables right if the id it creates is a free one where there is one. -/
theorem represents_step (h : Represents cfg s.manager s.links) (hstep : step cfg s e = some s')
    (hcreates : ∀ isSource, s.creates e = some isSource → s.manager.CreatesFree cfg isSource) :
    Represents cfg s'.manager s'.links := by
  cases e with
  | aclConnected remote acl =>
      simp only [step, Option.ite_none_left_eq_some, Option.some.injEq] at hstep
      obtain ⟨hnew, rfl⟩ := hstep
      refine h.reportAclConnected (fun hsuccess => ?_) fun hsuccess => hcreates _ (if_pos hsuccess)
      exact Option.not_isSome_iff_eq_none.mp fun hsome => hnew ⟨hsuccess, hsome⟩
  | aclDisconnected remote =>
      obtain rfl := Option.some.inj hstep
      exact h.clearConnected remote
  | profiles remote profiles =>
      obtain ⟨slot, hfind, rfl⟩ := Option.map_eq_some_iff.mp hstep
      exact h.profiles hfind
  | resetDeviceId slot resetToSource =>
      simp only [step, Option.ite_none_right_eq_some, Option.some.injEq] at hstep
      obtain ⟨hslot, rfl⟩ := hstep
      exact h.resetDeviceId hslot hcreates

theorem correct_iff (h : Represents cfg s.manager s.links) : s.Correct cfg e ↔ s.FullAlike cfg e := by
  constructor
  · intro hcorrect henabled hsource
    obtain ⟨s', hstep⟩ := Option.isSome_iff_exists.mp henabled
    exact Manager.createsFree_source.mp ((hcorrect s' hstep).1 true hsource)
  · intro hfull s' hstep
    have hcreates (isSource : Bool) (hrole : s.creates e = some isSource) :
        s.manager.CreatesFree cfg isSource := by
      cases isSource with
      | false => exact Manager.createsFree_sink
      | true => exact Manager.createsFree_source.mpr (hfull (Option.isSome_iff_exists.mpr ⟨s', hstep⟩) hrole)
    exact ⟨hcreates, represents_step h hstep hcreates⟩

/-- The tables say what the reports and answers say exactly as long as no source is looked for while just one of
them is full. -/
theorem correct_iff_fullAlike (cfg : Config) (events : List Event) :
    Along (step cfg) (Correct cfg) .init events ↔ Along (step cfg) (FullAlike cfg) .init events :=
  along_iff_of_invariant (fun s => Represents cfg s.manager s.links) (fun _ _ h => correct_iff h)
    (fun _ _ _ h hfull hstep => ((correct_iff h).mpr hfull _ hstep).2) Represents.init

/-- One device and one source, so that each table has two slots. -/
def twoSlots : Config := ⟨2, Nat.le_of_ble_eq_true rfl⟩

def comesUp (address : UInt8) (localIsSource : Bool) : Event :=
  .aclConnected (.replicate 6 address) ⟨btStsSuccess, 0, 0x80, localIsSource⟩

/-- Behind two sinks a source is refused, though there is none. -/
theorem sourceRefused_not_correct :
    ¬ Along (step twoSlots) (Correct twoSlots) .init [comesUp 1 false, comesUp 2 false, comesUp 3 true] := by
  intro h
  have hthird := ((h.2 _ rfl).2 _ rfl).1 _ rfl
  have hfull := (hthird.1 true rfl).invalid rfl
  exact absurd (hfull 0 (Nat.le_of_ble_eq_true rfl)) (by decide)

end State

end Best1307.Adapter
