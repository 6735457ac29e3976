import Mathlib.Algebra.Group.Nat.Defs
import Mathlib.Logic.Function.Basic
import Mathlib.Data.List.FinRange
import Best1307.Hal.TimerConversion

/-!
# Trigger channels

Both sides of a pair do something at the same time by setting a trigger of the Bluetooth clock. There are two
channels for it. A request of the master is supervised: if its trigger does not come in time it is given up. What
the trigger or the supervision has to say is posted and handled later.

One timer serves all supervisors; it is started with what the first of them has left, and what each has left is
counted down whenever one is added or removed.
-/

namespace Best1307.BtSync

open TimerConversion (Conversion)

def channelMax : Nat := 2
def channelOffset : Nat := 2
def invalidChannel : Nat := 0xFF
def volUsedChannel : Nat := 0xFE
def timeoutInMs : Nat := 3000
def triggerInfoSize : Nat := 10

def opRetrigger : Nat := 0
def opVolume : Nat := 1
def opSwitch : Nat := 3

/-- What the system timer counts in a millisecond, and the messages the mailbox holds. -/
structure Config where
  ticksPerMs : Nat
  mailboxMax : Nat
  ticksPerMs_pos : 0 < ticksPerMs
  timeout_lt : timeoutInMs * ticksPerMs < 2 ^ 32

/-- `bt_trigger_info_s`, with the number of the request the channel was handed to -/
structure TriggerInfo where
  opCode : Nat
  triSrc : Nat
  used : Bool
  request : Nat
  deriving DecidableEq, Repr

/-- `app_bt_sync_status_info_s`, with the number of the request, when it began, and how often it was counted down -/
structure StatusInfo where
  opCode : Nat
  msTillTimeout : Nat
  indexLocInfo : Nat
  request : Nat
  start : Nat
  refreshes : Nat
  deriving DecidableEq, Repr

/-- `APP_SYNC_MSG_BLOCK`, with the number of the request it is about -/
structure Msg where
  triSrc : Nat
  opCode : Nat
  request : Nat
  deriving DecidableEq, Repr

/-- The tables, the timer with the time it goes off, the triggers that are set, and the requests so far: their number,
those whose trigger came, and those that were given up. -/
structure State where
  clock : Nat
  locTriggerInfo : Fin channelMax → TriggerInfo
  statusInstance : List StatusInfo
  lastSysTicks : Nat
  timer : Option Nat
  mailbox : List Msg
  triggers : Nat → Bool
  requests : Nat
  interrupted : List Nat
  timedOut : List Nat

def StatusInfo.countDown (delta : Nat) (x : StatusInfo) : StatusInfo :=
  { x with msTillTimeout := x.msTillTimeout - delta, refreshes := x.refreshes + 1 }

def State.init : State := ⟨0, fun _ => ⟨0, 0, false, 0⟩, [], 0, none, [], fun _ => false, 0, [], []⟩

namespace State

variable (cfg : Config) (s : State)

/-! ### Supervision -/

/-- The timer of the system has 32 bits. -/
def currentTicks : Nat := s.clock % 2 ^ 32

def passedTicks : Nat :=
  if s.lastSysTicks ≤ s.currentTicks then s.currentTicks - s.lastSysTicks
  else 0xFFFFFFFF - s.lastSysTicks + 1 + s.currentTicks

/-- `TICKS_TO_MS`, which goes to the nearest millisecond; with floating point it does so as well. -/
def deltaMs : Nat := Conversion.ticksToMs.exact (1000 * cfg.ticksPerMs) s.passedTicks

/-- `app_bt_sync_refresh_supervisor_env`; it fails where its assertion does. -/
def refreshSupervisorEnv : Option State :=
  if s.statusInstance = [] then some { s with lastSysTicks := s.currentTicks }
  else if ∀ x ∈ s.statusInstance, s.deltaMs cfg < x.msTillTimeout then
    some { s with
      statusInstance := s.statusInstance.map (StatusInfo.countDown (s.deltaMs cfg))
      lastSysTicks := s.currentTicks }
  else none

def startTimer : State :=
  { s with timer := s.statusInstance.head?.map fun x => s.clock + x.msTillTimeout * cfg.ticksPerMs }

def removeWaitingRspTimeoutSupervision (opCode : Nat) : Option State :=
  if s.statusInstance.any (·.opCode == opCode) then
    let s := { s with statusInstance := s.statusInstance.eraseP (·.opCode == opCode) }
    if s.statusInstance = [] then some { s with timer := none }
    else (s.refreshSupervisorEnv cfg).map (startTimer cfg)
  else some s

def addWaitingIrqTimeoutSupervision (opCode index request : Nat) : Option State :=
  if s.statusInstance.length < channelMax then
    (s.refreshSupervisorEnv cfg).map fun s =>
      startTimer cfg { s with
        statusInstance := s.statusInstance ++ [⟨opCode, timeoutInMs, index, request, s.clock, 0⟩] }
  else none

def updateFirst (opCode index : Nat) : List StatusInfo → List StatusInfo
  | [] => []
  | x :: rest =>
      if x.opCode = opCode then { x with indexLocInfo := index } :: rest else x :: updateFirst opCode index rest

def updateSupervisor (opCode index : Nat) : State :=
  { s with statusInstance := updateFirst opCode index s.statusInstance }

/-! ### Messages and triggers -/

/-- A message is lost if the mailbox is full. -/
def mailboxPut (msg : Msg) : State :=
  if s.mailbox.length < cfg.mailboxMax then { s with mailbox := s.mailbox ++ [msg] } else s

def handleMsg (msg : Msg) : Option State :=
  if s.statusInstance.any (·.opCode == msg.opCode) then s.removeWaitingRspTimeoutSupervision cfg msg.opCode
  else some s

def release (i : Fin channelMax) : State :=
  { s with locTriggerInfo := Function.update s.locTriggerInfo i { s.locTriggerInfo i with used := false } }

/-- `app_bt_sync_send_trigger_info_timeout_handler`: what it posts; the channel has to be one of the array. -/
def timeoutHandler : Option (Msg × State) :=
  s.statusInstance.head?.bind fun x =>
    if h : x.indexLocInfo < channelMax then
      some (⟨invalidChannel, x.opCode, x.request⟩,
        { s.release ⟨x.indexLocInfo, h⟩ with timer := none, timedOut := x.request :: s.timedOut })
    else none

def irqHandler (i : Fin channelMax) : State :=
  let info := s.locTriggerInfo i
  { s.release i with
    triggers := Function.update s.triggers (i + channelOffset) false
    interrupted := info.request :: s.interrupted }.mailboxPut cfg ⟨i, info.opCode, info.request⟩

/-! ### Requests -/

/-- The channel in use for the volume if that is asked for, else the first one that is free. -/
def findChannel (opCode : Nat) : Option (Fin channelMax) :=
  ((List.finRange channelMax).find? fun i =>
      (s.locTriggerInfo i).used && (s.locTriggerInfo i).opCode == opVolume && opCode == opVolume).or
    ((List.finRange channelMax).find? fun i => !(s.locTriggerInfo i).used)

def handOut (i : Fin channelMax) (opCode : Nat) : State := { s with
  locTriggerInfo := Function.update s.locTriggerInfo i ⟨opCode, i + channelOffset, true, s.requests⟩
  requests := s.requests + 1 }

/-- `app_bt_sync_get_avaliable_trigger_channel`; the mark for a volume channel in use is overwritten. -/
def getAvaliableTriggerChannel (opCode : Nat) : Nat × State :=
  match s.findChannel opCode with
  | some i => (i + channelOffset, s.handOut i opCode)
  | none => (invalidChannel, s)

variable {s}

theorem handOut_same {i : Fin channelMax} {opCode : Nat} :
    (s.handOut i opCode).locTriggerInfo i = ⟨opCode, i + channelOffset, true, s.requests⟩ :=
  Function.update_self _ _ _

theorem handOut_of_ne {i j : Fin channelMax} {opCode : Nat} (h : j ≠ i) :
    (s.handOut i opCode).locTriggerInfo j = s.locTriggerInfo j :=
  Function.update_of_ne h _ _

theorem release_same {i : Fin channelMax} :
    (s.release i).locTriggerInfo i = { s.locTriggerInfo i with used := false } :=
  Function.update_self _ _ _

theorem release_of_ne {i j : Fin channelMax} (h : j ≠ i) : (s.release i).locTriggerInfo j = s.locTriggerInfo j :=
  Function.update_of_ne h _ _

variable (s)

def setTrigger (chnl : Nat) : State := { s with triggers := Function.update s.triggers chnl true }

end State

/-- `btif_me_get_remote_device_role` -/
inductive Role
  | master
  | slave
  | unknown
  deriving DecidableEq, Repr

/-- The links at the time of a call, and whether the command to the other side is sent. -/
structure Link where
  role : Role
  twsExists : Bool
  aclHandler : Bool
  ibrtStarting : Bool
  sendOk : Bool
  deriving DecidableEq, Repr

structure Request where
  opCode : Nat
  length : Nat
  hasBuff : Bool
  delay : Bool
  link : Link
  deriving DecidableEq, Repr

/-- A sync command of the other side: its trigger information, whether its time has passed already, and whether a
retrigger is in process. -/
structure SyncCmd where
  length : Nat
  opCode : Nat
  exceeded : Bool
  retriggerOnProcess : Bool
  link : Link
  deriving DecidableEq, Repr

namespace State

variable (cfg : Config) (s : State)

/-- `app_bt_sync_enable`, up to where the role matters. -/
def passes (r : Request) : Bool :=
  s.statusInstance.length < channelMax && !(128 - triggerInfoSize < r.length || (0 < r.length && !r.hasBuff)) &&
    r.link.twsExists && r.link.aclHandler && !r.link.ibrtStarting && r.link.sendOk

def enable (r : Request) : Option (Bool × State) :=
  if s.passes r then
    if r.link.role = .master then
      let (chnl, t) := s.getAvaliableTriggerChannel r.opCode
      if chnl < channelMax + channelOffset then
        let index := chnl - channelOffset
        ((t.setTrigger chnl).addWaitingIrqTimeoutSupervision cfg r.opCode index s.requests).map (true, ·)
      else if chnl = volUsedChannel ∧ r.delay then some (true, t)
      else some (false, t)
    else some (true, s)
  else some (false, s)

def twsCmdHandler (c : SyncCmd) : Option State :=
  if c.length < triggerInfoSize ∨ ¬ c.link.twsExists then some s
  else
    match c.link.role with
    | .slave =>
        if c.exceeded then some s
        else
          let (chnl, t) := s.getAvaliableTriggerChannel c.opCode
          some ((t.setTrigger chnl).updateSupervisor c.opCode ((chnl + 256 - channelOffset) % 256))
    | .master =>
        if c.retriggerOnProcess then some s else (s.enable cfg ⟨c.opCode, 0, false, false, c.link⟩).map Prod.snd
    | .unknown => some s

/-! ### What a request does -/

variable {cfg s} {r : Request}

/-- Where the other side is not reached, and on the slave's side, nothing is done here. -/
theorem enable_of_not_master (h : ¬ (s.passes r ∧ r.link.role = .master)) :
    ∃ b, s.enable cfg r = some (b, s) := by
  rw [enable]
  by_cases hpasses : s.passes r
  · exact ⟨true, by rw [if_pos hpasses, if_neg fun hmaster => h ⟨hpasses, hmaster⟩]⟩
  · exact ⟨false, if_neg hpasses⟩

theorem enable_of_none (hpasses : s.passes r) (hmaster : r.link.role = .master)
    (hfind : s.findChannel r.opCode = none) :
    s.enable cfg r = some (false, s) := by
  have hmany : ¬ invalidChannel < channelMax + channelOffset := by decide
  have hother : ¬ (invalidChannel = volUsedChannel ∧ r.delay) := fun h => absurd h.1 (by decide)
  rw [enable, if_pos hpasses, if_pos hmaster, getAvaliableTriggerChannel, hfind]
  simp only [if_neg hmany, if_neg hother]

theorem enable_of_some (hpasses : s.passes r) (hmaster : r.link.role = .master) {i : Fin channelMax}
    (hfind : s.findChannel r.opCode = some i) : s.enable cfg r =
      (((s.handOut i r.opCode).setTrigger (i + channelOffset)).addWaitingIrqTimeoutSupervision cfg r.opCode i
        s.requests).map (true, ·) := by
  have hmanaged : i.val + channelOffset < channelMax + channelOffset := Nat.add_lt_add_right i.isLt _
  rw [enable, if_pos hpasses, if_pos hmaster, getAvaliableTriggerChannel, hfind]
  simp only [if_pos hmanaged, Nat.add_sub_cancel]

end State

/-- The timer of the chip, and a mailbox of ten. -/
def smallConfig : Config where
  ticksPerMs := 16
  mailboxMax := 10
  ticksPerMs_pos := Nat.le_of_ble_eq_true rfl
  timeout_lt := Nat.le_of_ble_eq_true rfl

def masterLink : Link := ⟨.master, true, true, false, true⟩

def channel1 : Fin channelMax := ⟨1, Nat.le_of_ble_eq_true rfl⟩

end Best1307.BtSync
