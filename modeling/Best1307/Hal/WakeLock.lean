import Mathlib.Data.List.Nodup
import Mathlib.Algebra.Group.Nat.Defs
import Best1307.Lib.Run
import Best1307.Lib.SlotRing

/-!
# The wake lock of the message channels

`hal_ipc_msg` serves the channels of several core contexts, `hal_intersys` those of one core; otherwise they
are the same code. A channel with messages in flight is busy, a context with a busy channel holds the wake
lock of the driver. The lock is one bit of `sys_wake_lock_map`, set and cleared but not counted.

Two things go wrong. A context that has nothing in flight any more clears the bit all contexts share, and
closing a channel with messages in flight leaves it busy for good.
-/

namespace Best1307.WakeLock

open SlotRing

/-- What the two drivers differ in: `HAL_IPC_CORE_QTY` contexts or a single one, the channels of a context, the
message types a channel is opened for, the wake lock and the send records of a channel. -/
structure Driver where
  coreQty : Nat
  idQty : Nat
  typeQty : Nat
  user : Nat
  maxSendRecordCount : Nat
  user_lt : user < 32

/-- `hal_ipc_msg`, which knows no message types: a channel is open or not. -/
def halIpcMsg : Driver := ⟨4, 2, 1, 5, 3, by decide⟩

def halIntersys : Driver := ⟨1, 2, 2, 0, 3, by decide⟩

/-- One channel. The lists hold the send records in the order of the links. -/
structure Chan where
  chanOpened : BitVec 8
  sendMsgList : List Nat
  sendPendingList : List Nat
  inUse : Nat → Bool
  chanBusy : Bool

/-- The record goes to the list the peer works on if that is empty, else to the end of the pending one. -/
def Chan.enqueue (c : Chan) (record : Nat) : Chan :=
  let c := { c with inUse := Function.update c.inUse record true }
  if c.sendMsgList = [] then { c with sendMsgList := [record] }
  else { c with sendPendingList := c.sendPendingList ++ [record] }

abbrev Addr := Nat × Nat

/-- `walking` is the channel whose tx-done interrupt runs, with the records the handler has still to free. -/
structure State where
  chan : Addr → Chan
  busyNow : Nat → Bool
  sysWakeLockMap : BitVec 32
  walking : Option (Addr × List Nat)

def State.init : State where
  chan _ := ⟨0, [], [], fun _ => false, false⟩
  busyNow _ := false
  sysWakeLockMap := 0
  walking := none

namespace State

variable (d : Driver) (s : State) (a : Addr)

def setChan (c : Chan) : State := { s with chan := Function.update s.chan a c }

def halSysWakeLock (user : Nat) : State :=
  if 32 ≤ user then s else { s with sysWakeLockMap := s.sysWakeLockMap ||| BitVec.twoPow 32 user }

def halSysWakeUnlock (user : Nat) : State :=
  if 32 ≤ user then s else { s with sysWakeLockMap := s.sysWakeLockMap &&& ~~~BitVec.twoPow 32 user }

def setBusyNow (busy : Bool) : State := { s with busyNow := Function.update s.busyNow a.1 busy }

/-- `hal_ipc_msg_busy` and `hal_intersys_busy` -/
def msgBusy (busy : Bool) : State :=
  if (s.chan a).chanBusy = busy then s
  else
    let s := s.setChan a { s.chan a with chanBusy := busy }
    if s.busyNow a.1 = busy then s
    else if busy then (s.halSysWakeLock d.user).setBusyNow a true
    else if (List.range d.idQty).any fun i => (s.chan (a.1, i)).chanBusy then s
    else (s.halSysWakeUnlock d.user).setBusyNow a false

/-- `hal_ipc_msg_open` and `hal_intersys_open` -/
def msgOpen (type : Nat) : State :=
  if d.idQty ≤ a.2 ∨ d.typeQty ≤ type then s
  else if (s.chan a).chanOpened = 0 then
    s.setChan a { s.chan a with
      chanOpened := (s.chan a).chanOpened ||| BitVec.twoPow 8 type
      sendMsgList := []
      sendPendingList := []
      inUse := fun i => if i < d.maxSendRecordCount then false else (s.chan a).inUse i }
  else s

/-- `hal_ipc_msg_close` and `hal_intersys_close` -/
def msgClose (type : Nat) : State :=
  if d.idQty ≤ a.2 then s
  else
    let opened := (s.chan a).chanOpened &&& ~~~BitVec.twoPow 8 type
    if opened = 0 then
      s.setChan a { s.chan a with chanOpened := opened, sendMsgList := [], sendPendingList := [] }
    else s.setChan a { s.chan a with chanOpened := opened }

def freeRecord : Option Nat := (List.range d.maxSendRecordCount).find? fun i => !(s.chan a).inUse i

/-- `hal_ipc_msg_send_seq` and `hal_intersys_send` -/
def msgSend (type : Nat) : State :=
  if d.idQty ≤ a.2 ∨ d.typeQty ≤ type then s
  else if (s.chan a).chanOpened &&& BitVec.twoPow 8 type = 0 then s
  else match s.freeRecord d a with
    | none => s
    | some record => (s.setChan a ((s.chan a).enqueue record)).msgBusy d a true

/-- The end of the tx interrupt handler: the pending list is handed over, or the channel is idle. -/
def txFinish : State :=
  let c := s.chan a
  if c.sendPendingList ≠ [] then
    s.setChan a { c with sendMsgList := c.sendPendingList, sendPendingList := [] }
  else (s.setChan a { c with sendMsgList := [] }).msgBusy d a false

end State

/-- The calls of the drivers, and the tx-done interrupt of a channel in three parts: the peer has read the
list, a record is freed after its callback, the handler ends. Callbacks may call the driver in between. -/
inductive Event
  | open (core id type : Nat)
  | close (core id type : Nat)
  | send (core id type : Nat)
  | txDone (core id : Nat)
  | txFree
  | txEnd
  deriving DecidableEq, Repr

def step (d : Driver) (s : State) : Event → Option State
  | .open core id type => if core < d.coreQty then some (s.msgOpen d (core, id) type) else none
  | .close core id type =>
      if core < d.coreQty ∧ type < d.typeQty then some (s.msgClose d (core, id) type) else none
  | .send core id type => if core < d.coreQty then some (s.msgSend d (core, id) type) else none
  | .txDone core id =>
      if core < d.coreQty ∧ id < d.idQty ∧ s.walking = none ∧ (s.chan (core, id)).chanOpened ≠ 0 ∧
          (s.chan (core, id)).sendMsgList ≠ [] then
        some { s with walking := some ((core, id), (s.chan (core, id)).sendMsgList) }
      else none
  | .txFree =>
      match s.walking with
      | some (a, record :: rest) =>
          some { s.setChan a { s.chan a with inUse := Function.update (s.chan a).inUse record false } with
            walking := some (a, rest) }
      | _ => none
  | .txEnd =>
      match s.walking with
      | some (a, []) => some { s.txFinish d a with walking := none }
      | _ => none

/-! ### What should hold, and when -/

namespace State

variable (d : Driver) (s : State)

def Held : Prop := s.sysWakeLockMap.getLsbD d.user = true

def Unacked (a : Addr) : Prop :=
  a.1 < d.coreQty ∧ a.2 < d.idQty ∧ (s.chan a).chanOpened ≠ 0 ∧
    ∃ i < d.maxSendRecordCount, (s.chan a).inUse i = true

def InFlight (a : Addr) : Prop := (s.chan a).sendMsgList ≠ []

instance (a : Addr) : Decidable (s.InFlight a) := inferInstanceAs (Decidable (_ ≠ _))

instance : Decidable (s.Held d) := inferInstanceAs (Decidable (_ = _))

end State

/-- The call does not close a channel with messages in flight, and no tx-done ends the last messages of one
context while another has messages in flight. -/
def Harmless (d : Driver) (s : State) : Event → Prop
  | .close core id type => s.InFlight (core, id) → (s.chan (core, id)).chanOpened &&& ~~~BitVec.twoPow 8 type ≠ 0
  | .txEnd => ∀ walked ∈ s.walking, (s.chan walked.1).sendPendingList = [] →
      (∀ id < d.idQty, id ≠ walked.1.2 → ¬ s.InFlight (walked.1.1, id)) →
      ∀ core < d.coreQty, core ≠ walked.1.1 → ∀ id < d.idQty, ¬ s.InFlight (core, id)
  | _ => True

instance (d : Driver) (s : State) : (e : Event) → Decidable (Harmless d s e)
  | .open _ _ _ => inferInstanceAs (Decidable True)
  | .close _ _ _ => inferInstanceAs (Decidable (_ → _))
  | .send _ _ _ => inferInstanceAs (Decidable True)
  | .txDone _ _ => inferInstanceAs (Decidable True)
  | .txFree => inferInstanceAs (Decidable True)
  | .txEnd => inferInstanceAs (Decidable (∀ walked ∈ s.walking, _))

/-! ### Setting and clearing the lock -/

def Driver.InRange (d : Driver) (a : Addr) : Prop := a.1 < d.coreQty ∧ a.2 < d.idQty

/-- A context is busy if one of its channels is, and the lock is held if a context is busy. -/
structure Counted (d : Driver) (s : State) : Prop where
  busyNow : ∀ core < d.coreQty, s.busyNow core = true ↔ ∃ id < d.idQty, (s.chan (core, id)).chanBusy = true
  held : s.Held d ↔ ∃ core < d.coreQty, s.busyNow core = true

variable {d : Driver} {s s' : State} {a b : Addr}

theorem Counted.congr (hs : Counted d s) (hbusy : ∀ b, (s'.chan b).chanBusy = (s.chan b).chanBusy)
    (hnow : s'.busyNow = s.busyNow) (hmap : s'.sysWakeLockMap = s.sysWakeLockMap) : Counted d s' where
  busyNow core hcore := by
    simp only [hnow, hbusy]
    exact hs.busyNow core hcore
  held := by
    rw [State.Held, hmap, hnow]
    exact hs.held

theorem held_lock (d : Driver) (s : State) : (s.halSysWakeLock d.user).Held d := by
  rw [State.Held, State.halSysWakeLock, if_neg (by have := d.user_lt; omega)]
  exact (getLsbD_or_twoPow d.user_lt).mpr (.inr rfl)

theorem not_held_unlock (d : Driver) (s : State) : ¬ (s.halSysWakeUnlock d.user).Held d := by
  rw [State.Held, State.halSysWakeUnlock, if_neg (by have := d.user_lt; omega)]
  exact fun h => (getLsbD_andNot_twoPow.mp h).2 rfl

@[simp] theorem chan_setChan_self (s : State) (a : Addr) (c : Chan) : (s.setChan a c).chan a = c :=
  Function.update_self ..

theorem chan_setChan_of_ne (s : State) (c : Chan) (h : b ≠ a) : (s.setChan a c).chan b = s.chan b :=
  Function.update_of_ne h ..

@[simp] theorem walking_setChan (s : State) (a : Addr) (c : Chan) : (s.setChan a c).walking = s.walking := rfl

/-! The lock leaves the channels alone. -/

@[simp] theorem chan_halSysWakeLock (s : State) (user : Nat) : (s.halSysWakeLock user).chan = s.chan := by
  rw [State.halSysWakeLock]
  split <;> rfl

@[simp] theorem chan_halSysWakeUnlock (s : State) (user : Nat) : (s.halSysWakeUnlock user).chan = s.chan := by
  rw [State.halSysWakeUnlock]
  split <;> rfl

@[simp] theorem busyNow_halSysWakeLock (s : State) (user : Nat) :
    (s.halSysWakeLock user).busyNow = s.busyNow := by
  rw [State.halSysWakeLock]
  split <;> rfl

@[simp] theorem busyNow_halSysWakeUnlock (s : State) (user : Nat) :
    (s.halSysWakeUnlock user).busyNow = s.busyNow := by
  rw [State.halSysWakeUnlock]
  split <;> rfl

@[simp] theorem walking_halSysWakeLock (s : State) (user : Nat) :
    (s.halSysWakeLock user).walking = s.walking := by
  rw [State.halSysWakeLock]
  split <;> rfl

@[simp] theorem walking_halSysWakeUnlock (s : State) (user : Nat) :
    (s.halSysWakeUnlock user).walking = s.walking := by
  rw [State.halSysWakeUnlock]
  split <;> rfl

theorem chan_msgBusy (d : Driver) (s : State) (a : Addr) (busy : Bool) :
    (s.msgBusy d a busy).chan = Function.update s.chan a { s.chan a with chanBusy := busy } := by
  rw [State.msgBusy]
  by_cases hsame : (s.chan a).chanBusy = busy
  · rw [if_pos hsame, ← hsame, Function.update_eq_self]
  · rw [if_neg hsame]
    simp only [apply_ite State.chan, State.setBusyNow, chan_halSysWakeLock, chan_halSysWakeUnlock, ite_self]
    rfl

theorem walking_msgBusy (d : Driver) (s : State) (a : Addr) (busy : Bool) :
    (s.msgBusy d a busy).walking = s.walking := by
  rw [State.msgBusy]
  simp only [apply_ite State.walking, State.setBusyNow, walking_halSysWakeLock, walking_halSysWakeUnlock,
    State.setChan, ite_self]

theorem chanBusy_update (s : State) (a b : Addr) (busy : Bool) :
    (Function.update s.chan a { s.chan a with chanBusy := busy } b).chanBusy =
      if b = a then busy else (s.chan b).chanBusy := by
  rw [Function.update_apply]
  split <;> rfl

theorem Counted.msgBusy_true (hs : Counted d s) (ha : d.InRange a) : Counted d (s.msgBusy d a true) := by
  have hchan := chan_msgBusy d s a true
  by_cases hbusy : (s.chan a).chanBusy = true
  · rw [State.msgBusy, if_pos hbusy]
    exact hs
  by_cases hnow : s.busyNow a.1 = true
  · -- another channel of the context is busy
    have hset : s.msgBusy d a true = s.setChan a { s.chan a with chanBusy := true } := by
      rw [State.msgBusy, if_neg hbusy]
      exact if_pos hnow
    rw [hset] at hchan ⊢
    refine ⟨fun core hcore => ?_, hs.held⟩
    change s.busyNow core = true ↔ _
    simp only [hchan, chanBusy_update]
    rw [hs.busyNow core hcore]
    constructor
    · rintro ⟨id, hid, h⟩
      exact ⟨id, hid, by split <;> [rfl; exact h]⟩
    · rintro ⟨id, hid, h⟩
      split at h
      case isTrue heq =>
        rw [← heq] at hnow
        exact (hs.busyNow core hcore).mp hnow
      case isFalse => exact ⟨id, hid, h⟩
  · have hset : s.msgBusy d a true = ((s.setChan a { s.chan a with chanBusy := true }).halSysWakeLock
        d.user).setBusyNow a true := by
      rw [State.msgBusy, if_neg hbusy]
      exact (if_neg hnow).trans (if_pos rfl)
    have hbusyNow : (s.msgBusy d a true).busyNow = Function.update s.busyNow a.1 true := by
      rw [hset, State.setBusyNow, busyNow_halSysWakeLock]
      rfl
    refine ⟨fun core hcore => ?_, ?_⟩
    · simp only [hchan, hbusyNow, chanBusy_update, Function.update_apply s.busyNow]
      by_cases hsame : core = a.1
      · subst hsame
        simp only [if_true, true_iff]
        refine ⟨a.2, ha.2, ?_⟩
        rw [if_pos rfl]
      · have hother : ∀ id, (core, id) ≠ a := fun id h => hsame (congrArg Prod.fst h)
        simp only [if_neg hsame, hother, if_false]
        exact hs.busyNow core hcore
    · rw [hset]
      refine iff_of_true (held_lock d _) ⟨a.1, ha.1, ?_⟩
      exact Function.update_self ..

/-- Clearing the lock is right if no other context is busy once this one is not. -/
theorem Counted.msgBusy_false (hs : Counted d s) (ha : d.InRange a)
    (hlast : (∀ id < d.idQty, id ≠ a.2 → ¬ (s.chan (a.1, id)).chanBusy = true) →
      ∀ core < d.coreQty, core ≠ a.1 → ∀ id < d.idQty, ¬ (s.chan (core, id)).chanBusy = true) :
    Counted d (s.msgBusy d a false) := by
  have hchan := chan_msgBusy d s a false
  by_cases hidle : (s.chan a).chanBusy = false
  · rw [State.msgBusy, if_pos hidle]
    exact hs
  have hnow : s.busyNow a.1 ≠ false := by
    rw [ne_eq, Bool.not_eq_false]
    exact (hs.busyNow a.1 ha.1).mpr ⟨a.2, ha.2, (Bool.not_eq_false _).mp hidle⟩
  by_cases hany : ∃ id < d.idQty, id ≠ a.2 ∧ (s.chan (a.1, id)).chanBusy = true
  · -- the context stays busy with another channel
    obtain ⟨other, hother, hne, hbusy⟩ := hany
    have hset : s.msgBusy d a false = s.setChan a { s.chan a with chanBusy := false } := by
      rw [State.msgBusy, if_neg hidle]
      refine (if_neg hnow).trans ((if_neg Bool.false_ne_true).trans (if_pos ?_))
      refine List.any_eq_true.mpr ⟨other, List.mem_range.mpr hother, ?_⟩
      rw [State.setChan, chanBusy_update, if_neg fun h => hne (congrArg Prod.snd h)]
      exact hbusy
    rw [hset] at hchan ⊢
    refine ⟨fun core hcore => ?_, hs.held⟩
    change s.busyNow core = true ↔ _
    simp only [hchan, chanBusy_update]
    rw [hs.busyNow core hcore]
    constructor
    · rintro ⟨id, hid, h⟩
      by_cases heq : (core, id) = a
      · refine ⟨other, hother, ?_⟩
        rw [show core = a.1 from congrArg Prod.fst heq, if_neg fun h => hne (congrArg Prod.snd h)]
        exact hbusy
      · exact ⟨id, hid, by rw [if_neg heq]; exact h⟩
    · rintro ⟨id, hid, h⟩
      split at h
      · cases h
      · exact ⟨id, hid, h⟩
  · have hothers : ∀ id < d.idQty, id ≠ a.2 → ¬ (s.chan (a.1, id)).chanBusy = true :=
      fun id hid hne hbusy => hany ⟨id, hid, hne, hbusy⟩
    have hset : s.msgBusy d a false = ((s.setChan a { s.chan a with chanBusy := false }).halSysWakeUnlock
        d.user).setBusyNow a false := by
      rw [State.msgBusy, if_neg hidle]
      refine (if_neg hnow).trans ((if_neg Bool.false_ne_true).trans (if_neg ?_))
      rw [List.any_eq_true]
      rintro ⟨id, hid, h⟩
      rw [State.setChan, chanBusy_update] at h
      split at h
      case isTrue => cases h
      case isFalse hne =>
        exact hothers id (List.mem_range.mp hid) (fun heq => hne (heq ▸ rfl)) h
    have hbusyNow : (s.msgBusy d a false).busyNow = Function.update s.busyNow a.1 false := by
      rw [hset, State.setBusyNow, busyNow_halSysWakeUnlock]
      rfl
    have hcontext : ∀ core < d.coreQty, ¬ (s.msgBusy d a false).busyNow core = true := by
      intro core hcore
      rw [hbusyNow, Function.update_apply]
      split
      · exact Bool.false_ne_true
      · rename_i hne
        rw [hs.busyNow core hcore]
        rintro ⟨id, hid, h⟩
        exact hlast hothers core hcore hne id hid h
    refine ⟨fun core hcore => iff_of_false (hcontext core hcore) ?_, ?_⟩
    · rintro ⟨id, hid, h⟩
      rw [hchan, chanBusy_update] at h
      split at h
      · cases h
      · rename_i hne
        by_cases hsame : core = a.1
        · subst hsame
          exact hothers id hid (fun heq => hne (heq ▸ rfl)) h
        · exact hlast hothers core hcore hsame id hid h
    · refine iff_of_false ?_ fun ⟨core, hcore, h⟩ => hcontext core hcore h
      rw [hset]
      exact not_held_unlock d _

/-! ### The channels -/

/-- The records of the list handed to the peer that are not freed yet. -/
def State.remaining (s : State) (a : Addr) : List Nat :=
  match s.walking with
  | some (b, rest) => if b = a then rest else (s.chan a).sendMsgList
  | none => (s.chan a).sendMsgList

/-- What holds of a channel, given the records of its list still to free: it is busy while a list is in
flight, and the records in use are those still to free and the pending ones. -/
structure ChanInv (d : Driver) (c : Chan) (remaining : List Nat) : Prop where
  busy : c.chanBusy = true ↔ c.sendMsgList ≠ []
  opened : c.sendMsgList ≠ [] → c.chanOpened ≠ 0
  pending : c.sendPendingList ≠ [] → c.sendMsgList ≠ []
  nodup : (remaining ++ c.sendPendingList).Nodup
  records : ∀ i, i ∈ remaining ++ c.sendPendingList ↔ i < d.maxSendRecordCount ∧ c.inUse i = true

structure Inv (d : Driver) (s : State) : Prop where
  counted : Counted d s
  chan : ∀ a, d.InRange a → ChanInv d (s.chan a) (s.remaining a)
  walking : ∀ walked ∈ s.walking, d.InRange walked.1 ∧ s.InFlight walked.1

theorem inv_init (d : Driver) : Inv d .init where
  counted := by
    refine ⟨fun core _ => iff_of_false Bool.false_ne_true fun ⟨_, _, h⟩ => Bool.false_ne_true h, ?_⟩
    refine iff_of_false (fun h => ?_) fun ⟨_, _, h⟩ => Bool.false_ne_true h
    have hzero : State.init.sysWakeLockMap.getLsbD d.user = false := BitVec.getLsbD_zero ..
    exact Bool.false_ne_true (hzero.symm.trans h)
  chan a _ := by
    refine ⟨iff_of_false Bool.false_ne_true (not_not.mpr rfl), fun h => absurd rfl h, fun h => absurd rfl h,
      List.nodup_nil, fun i => iff_of_false List.not_mem_nil fun h => Bool.false_ne_true h.2⟩
  walking walked h := by cases h

theorem remaining_of_idle (h : ∀ rest, s.walking ≠ some (a, rest)) : s.remaining a = (s.chan a).sendMsgList := by
  rw [State.remaining]
  split
  case h_1 b rest hwalking =>
    refine if_neg fun hb => h rest ?_
    rw [hwalking, hb]
  case h_2 => rfl

theorem remaining_of_walking {rest : List Nat} (h : s.walking = some (a, rest)) : s.remaining a = rest := by
  rw [State.remaining, h]
  exact if_pos rfl

theorem remaining_congr (hchan : s'.chan b = s.chan b) (hwalking : s'.walking = s.walking) :
    s'.remaining b = s.remaining b := by
  rw [State.remaining, State.remaining, hchan, hwalking]

theorem remaining_of_other {rest : List Nat} (h : s.walking = some (a, rest)) (hne : b ≠ a) :
    s.remaining b = (s.chan b).sendMsgList :=
  remaining_of_idle fun _ h' => hne (congrArg Prod.fst (Option.some.inj (h.symm.trans h'))).symm

namespace Inv

theorem notWalking (hs : Inv d s) (h : ¬ s.InFlight a) (rest : List Nat) : s.walking ≠ some (a, rest) :=
  fun hwalking => h (hs.walking _ hwalking).2

/-- Only channel `a` changes, and the handler works on no other channel than before. -/
theorem of_others (hs : Inv d s) (ha : d.InRange a) (hothers : ∀ b ≠ a, s'.chan b = s.chan b)
    (hremaining : ∀ b ≠ a, s'.remaining b = s.remaining b) (hcounted : Counted d s')
    (hc : ChanInv d (s'.chan a) (s'.remaining a))
    (hwalking : ∀ walked ∈ s'.walking, walked.1 ≠ a → walked ∈ s.walking)
    (hflight : ∀ rest, s'.walking = some (a, rest) → s'.InFlight a) : Inv d s' where
  counted := hcounted
  chan b hb := by
    by_cases hab : b = a
    · rw [hab]
      exact hc
    · rw [hothers b hab, hremaining b hab]
      exact hs.chan b hb
  walking walked hwalked := by
    by_cases hwa : walked.1 = a
    · rw [hwa]
      exact ⟨ha, hflight walked.2 (hwa ▸ hwalked)⟩
    · rw [State.InFlight, hothers _ hwa]
      exact hs.walking walked (hwalking walked hwalked hwa)

theorem set (hs : Inv d s) (ha : d.InRange a) {c : Chan} (hbusy : c.chanBusy = (s.chan a).chanBusy)
    (hc : ChanInv d c ((s.setChan a c).remaining a))
    (hflight : ∀ rest, s.walking = some (a, rest) → c.sendMsgList ≠ []) : Inv d (s.setChan a c) := by
  refine hs.of_others ha (fun b hb => chan_setChan_of_ne s c hb)
    (fun b hb => remaining_congr (chan_setChan_of_ne s c hb) rfl) (hs.counted.congr (fun b => ?_) rfl rfl) ?_
    (fun _ h _ => h) fun rest h => ?_
  · by_cases h : b = a
    · rw [h, chan_setChan_self, hbusy]
    · rw [chan_setChan_of_ne s c h]
  · rw [chan_setChan_self]
    exact hc
  · rw [State.InFlight, chan_setChan_self]
    exact hflight rest h

theorem remaining_set {c : Chan} (h : ∀ rest, s.walking ≠ some (a, rest)) :
    (s.setChan a c).remaining a = c.sendMsgList := by
  rw [remaining_of_idle (s := s.setChan a c) h, chan_setChan_self]

theorem msgOpen (hs : Inv d s) (hcore : a.1 < d.coreQty) (type : Nat) : Inv d (s.msgOpen d a type) := by
  rw [State.msgOpen]
  split
  · exact hs
  rename_i hvalid
  rw [not_or, not_le] at hvalid
  split
  swap
  · exact hs
  rename_i hclosed
  have ha : d.InRange a := ⟨hcore, hvalid.1⟩
  have hchan := hs.chan a ha
  have hnone : ¬ s.InFlight a := fun h => hchan.opened h hclosed
  refine hs.set ha rfl ?_ fun rest h => absurd h (hs.notWalking hnone rest)
  rw [remaining_set (hs.notWalking hnone)]
  exact {
    busy := iff_of_false (fun h => hnone (hchan.busy.mp h)) (not_not.mpr rfl)
    opened := fun h => absurd rfl h
    pending := fun h => absurd rfl h
    nodup := List.nodup_nil
    records := fun i => iff_of_false List.not_mem_nil fun ⟨hi, h⟩ =>
      Bool.false_ne_true ((if_pos hi).symm.trans h) }

theorem msgClose (hs : Inv d s) (ha : d.InRange a) {type : Nat}
    (hharmless : s.InFlight a → (s.chan a).chanOpened &&& ~~~BitVec.twoPow 8 type ≠ 0) :
    Inv d (s.msgClose d a type) := by
  have hchan := hs.chan a ha
  simp only [State.msgClose, if_neg (not_le.mpr ha.2)]
  split
  case isTrue hclosed =>
    have hnone : ¬ s.InFlight a := fun h => hharmless h hclosed
    have hlist : (s.chan a).sendMsgList = [] := not_not.mp hnone
    have hpending : (s.chan a).sendPendingList = [] := not_not.mp fun h => hnone (hchan.pending h)
    have hrecords := hchan.records
    rw [remaining_of_idle (hs.notWalking hnone), hlist, hpending] at hrecords
    refine hs.set ha rfl ?_ fun rest h => absurd h (hs.notWalking hnone rest)
    rw [remaining_set (hs.notWalking hnone)]
    exact ⟨iff_of_false (fun h => hnone (hchan.busy.mp h)) (not_not.mpr rfl), fun h => absurd rfl h,
      fun h => absurd rfl h, List.nodup_nil, hrecords⟩
  case isFalse hopen =>
    refine hs.set ha rfl ?_ fun rest h => (hs.walking _ h).2
    rw [State.remaining, chan_setChan_self, walking_setChan]
    exact ⟨hchan.busy, fun _ => hopen, hchan.pending, hchan.nodup, hchan.records⟩

theorem freeRecord_spec {record : Nat} (h : s.freeRecord d a = some record) :
    record < d.maxSendRecordCount ∧ (s.chan a).inUse record = false := by
  have hfound := List.find?_some h
  exact ⟨List.mem_range.mp (List.mem_of_find?_eq_some h), by simpa using hfound⟩

theorem sendMsgList_enqueue (c : Chan) (record : Nat) : (c.enqueue record).sendMsgList ≠ [] := by
  rw [Chan.enqueue]
  split
  · exact List.cons_ne_nil _ _
  · assumption

/-- The channel once the message is queued and the channel busy. A new list is handed over whole. -/
theorem chanInv_enqueue {c : Chan} {remaining : List Nat} {record : Nat} (hc : ChanInv d c remaining)
    (hrecord : record < d.maxSendRecordCount) (hfree : c.inUse record = false) (hopen : c.chanOpened ≠ 0)
    (hidle : c.sendMsgList = [] → remaining = []) :
    ChanInv d { c.enqueue record with chanBusy := true }
      (if c.sendMsgList = [] then [record] else remaining) := by
  have hlive : (if c.sendMsgList = [] then [record] else remaining) ++ (c.enqueue record).sendPendingList =
      remaining ++ c.sendPendingList ++ [record] := by
    by_cases hlist : c.sendMsgList = []
    · have hpending : c.sendPendingList = [] := not_not.mp fun h => hc.pending h hlist
      rw [Chan.enqueue, if_pos hlist, if_pos hlist, hidle hlist, hpending]
      rfl
    · rw [Chan.enqueue, if_neg hlist, if_neg hlist, List.append_assoc]
  have hinUse : (c.enqueue record).inUse = Function.update c.inUse record true := by
    rw [Chan.enqueue]
    split <;> rfl
  have hopened : (c.enqueue record).chanOpened = c.chanOpened := by
    rw [Chan.enqueue]
    split <;> rfl
  refine ⟨iff_of_true rfl (sendMsgList_enqueue c record), fun _ => hopened ▸ hopen,
    fun _ => sendMsgList_enqueue c record, ?_, fun i => ?_⟩
  · change (_ ++ (c.enqueue record).sendPendingList).Nodup
    rw [hlive]
    refine List.Nodup.append hc.nodup (List.nodup_singleton _) fun i hi hrec => ?_
    have hused := ((hc.records i).mp hi).2
    rw [List.mem_singleton.mp hrec, hfree] at hused
    exact Bool.false_ne_true hused
  · change i ∈ _ ++ (c.enqueue record).sendPendingList ↔ _ ∧ (c.enqueue record).inUse i = true
    rw [hlive, hinUse, List.mem_append, List.mem_singleton, hc.records, Function.update_apply]
    by_cases hi : i = record
    · rw [hi, if_pos rfl]
      exact iff_of_true (.inr rfl) ⟨hrecord, rfl⟩
    · rw [if_neg hi]
      simp only [hi, or_false]

theorem msgSend (hs : Inv d s) (hcore : a.1 < d.coreQty) (type : Nat) : Inv d (s.msgSend d a type) := by
  rw [State.msgSend]
  split
  · exact hs
  rename_i hvalid
  rw [not_or, not_le] at hvalid
  split
  · exact hs
  rename_i hopened
  split
  · exact hs
  rename_i record hfree
  have ha : d.InRange a := ⟨hcore, hvalid.1⟩
  have hchan := hs.chan a ha
  obtain ⟨hrecord, hunused⟩ := freeRecord_spec hfree
  have hopen : (s.chan a).chanOpened ≠ 0 := fun h => hopened (by rw [h]; exact BitVec.zero_and)
  have hsame : (s.chan a).enqueue record = { (s.chan a).enqueue record with
      chanBusy := (s.chan a).chanBusy } := by
    rw [Chan.enqueue]
    split <;> rfl
  have hcounted : Counted d (s.setChan a ((s.chan a).enqueue record)) := by
    refine hs.counted.congr (fun b => ?_) rfl rfl
    by_cases h : b = a
    · rw [h, chan_setChan_self, hsame]
    · rw [chan_setChan_of_ne s _ h]
  set s' := (s.setChan a ((s.chan a).enqueue record)).msgBusy d a true with hs'
  have hwalking : s'.walking = s.walking := walking_msgBusy ..
  have hothers : ∀ b ≠ a, s'.chan b = s.chan b := by
    intro b hb
    rw [hs', chan_msgBusy, Function.update_of_ne hb, chan_setChan_of_ne s _ hb]
  have hself : s'.chan a = { (s.chan a).enqueue record with chanBusy := true } := by
    rw [hs', chan_msgBusy, Function.update_self, chan_setChan_self]
  have hremaining : s'.remaining a = if (s.chan a).sendMsgList = [] then [record] else s.remaining a := by
    split
    case isTrue hlist =>
      have hidle := hs.notWalking (a := a) (not_not.mpr hlist)
      rw [remaining_of_idle (by rw [hwalking]; exact hidle), hself, Chan.enqueue]
      simp only [hlist, if_true]
    case isFalse hlist =>
      rw [State.remaining, State.remaining, hwalking, hself, Chan.enqueue]
      simp only [hlist, if_false]
  refine hs.of_others ha hothers (fun b hb => remaining_congr (hothers b hb) hwalking)
    (hcounted.msgBusy_true ha) ?_ (fun walked h _ => hwalking ▸ h) fun rest _ => ?_
  · rw [hself, hremaining]
    refine chanInv_enqueue hchan hrecord hunused hopen fun hlist => ?_
    rw [remaining_of_idle (hs.notWalking (not_not.mpr hlist)), hlist]
  · rw [State.InFlight, hself]
    exact sendMsgList_enqueue _ _

/-! ### The tx-done interrupt -/

theorem txDone (hs : Inv d s) (ha : d.InRange a) (hidle : s.walking = none)
    (hflight : s.InFlight a) : Inv d { s with walking := some (a, (s.chan a).sendMsgList) } := by
  have hsame : ∀ b, State.remaining { s with walking := some (a, (s.chan a).sendMsgList) } b =
      s.remaining b := by
    intro b
    have hnone : s.remaining b = (s.chan b).sendMsgList :=
      remaining_of_idle fun rest h => by cases hidle.symm.trans h
    rw [hnone]
    by_cases hb : b = a
    · subst hb
      exact if_pos rfl
    · exact if_neg (Ne.symm hb)
  refine ⟨hs.counted.congr (fun _ => rfl) rfl rfl, fun b hb => ?_, fun walked h => ?_⟩
  · rw [hsame]
    exact hs.chan b hb
  · obtain rfl := Option.some.inj h
    exact ⟨ha, hflight⟩

theorem txFree (hs : Inv d s) {record : Nat} {rest : List Nat} (hwalking : s.walking = some (a, record :: rest)) :
    Inv d { s.setChan a { s.chan a with inUse := Function.update (s.chan a).inUse record false } with
      walking := some (a, rest) } := by
  obtain ⟨ha, hflight⟩ := hs.walking _ hwalking
  have hchan := hs.chan a ha
  rw [remaining_of_walking hwalking] at hchan
  have hnodup : record ∉ rest ++ (s.chan a).sendPendingList := (List.nodup_cons.mp hchan.nodup).1
  set s' : State := { s.setChan a { s.chan a with inUse := Function.update (s.chan a).inUse record false } with
    walking := some (a, rest) }
  have hothers : ∀ b ≠ a, s'.chan b = s.chan b := fun b hb => chan_setChan_of_ne s _ hb
  have hself : s'.chan a = { s.chan a with inUse := Function.update (s.chan a).inUse record false } :=
    chan_setChan_self ..
  refine hs.of_others ha hothers (fun b hb => ?_) (hs.counted.congr (fun b => ?_) rfl rfl) ?_
    (fun walked h hne => ?_) fun _ _ => ?_
  · have hwalking' : s'.walking = some (a, rest) := rfl
    rw [remaining_of_other hwalking hb, remaining_of_other hwalking' hb, hothers b hb]
  · by_cases hb : b = a
    · rw [hb, hself]
    · rw [hothers b hb]
  · rw [remaining_of_walking (show s'.walking = some (a, rest) from rfl), hself]
    refine ⟨hchan.busy, hchan.opened, hchan.pending, (List.nodup_cons.mp hchan.nodup).2, fun i => ?_⟩
    change i ∈ rest ++ (s.chan a).sendPendingList ↔
      i < d.maxSendRecordCount ∧ Function.update (s.chan a).inUse record false i = true
    rw [Function.update_apply]
    by_cases hi : i = record
    · rw [hi, if_pos rfl]
      exact iff_of_false hnodup fun h => Bool.false_ne_true h.2
    · rw [if_neg hi, ← hchan.records i, List.cons_append, List.mem_cons]
      simp only [hi, false_or]
  · obtain rfl := Option.some.inj h
    exact absurd rfl hne
  · rw [State.InFlight, hself]
    exact hflight

/-- The pending list is handed over, all of its records still to free. -/
theorem txEnd_pending (hs : Inv d s) (hwalking : s.walking = some (a, []))
    (hpending : (s.chan a).sendPendingList ≠ []) :
    Inv d { s.setChan a { s.chan a with
      sendMsgList := (s.chan a).sendPendingList, sendPendingList := [] } with walking := none } := by
  have ha : d.InRange a := (hs.walking _ hwalking).1
  have hflight : s.InFlight a := (hs.walking _ hwalking).2
  have hchan := hs.chan a ha
  rw [remaining_of_walking hwalking] at hchan
  set s' : State := { s.setChan a { s.chan a with
    sendMsgList := (s.chan a).sendPendingList, sendPendingList := [] } with walking := none }
  have hothers : ∀ b ≠ a, s'.chan b = s.chan b := fun b hb => chan_setChan_of_ne s _ hb
  have hself : s'.chan a = { s.chan a with
    sendMsgList := (s.chan a).sendPendingList, sendPendingList := [] } := chan_setChan_self ..
  refine hs.of_others ha hothers (fun b hb => ?_) (hs.counted.congr (fun b => ?_) rfl rfl) ?_
    (fun _ h => by cases h) fun _ h => by cases h
  · rw [remaining_of_other hwalking hb, ← hothers b hb]
    rfl
  · by_cases hb : b = a
    · rw [hb, hself]
    · rw [hothers b hb]
  · have hremaining : s'.remaining a = (s.chan a).sendPendingList := by
      rw [remaining_of_idle (fun _ h => by cases h), hself]
    rw [hremaining, hself]
    have hlive := List.append_nil (s.chan a).sendPendingList
    refine ⟨iff_of_true (hchan.busy.mpr hflight) hpending, fun _ => hchan.opened hflight,
      fun h => absurd rfl h, hlive.symm ▸ hchan.nodup, fun i => ?_⟩
    change i ∈ (s.chan a).sendPendingList ++ [] ↔ _
    rw [hlive]
    exact hchan.records i

theorem txEnd_idle (hs : Inv d s) (hwalking : s.walking = some (a, []))
    (hpending : (s.chan a).sendPendingList = [])
    (hlast : (∀ id < d.idQty, id ≠ a.2 → ¬ s.InFlight (a.1, id)) →
      ∀ core < d.coreQty, core ≠ a.1 → ∀ id < d.idQty, ¬ s.InFlight (core, id)) :
    Inv d { (s.setChan a { s.chan a with sendMsgList := [] }).msgBusy d a false with walking := none } := by
  have ha : d.InRange a := (hs.walking _ hwalking).1
  have hchan := hs.chan a ha
  rw [remaining_of_walking hwalking] at hchan
  set s₁ := s.setChan a { s.chan a with sendMsgList := [] }
  set s' : State := { s₁.msgBusy d a false with walking := none }
  have hothers₁ : ∀ b ≠ a, s₁.chan b = s.chan b := fun b hb => chan_setChan_of_ne s _ hb
  have hself₁ : s₁.chan a = { s.chan a with sendMsgList := [] } := chan_setChan_self ..
  have hchan' : s'.chan = Function.update s₁.chan a { s₁.chan a with chanBusy := false } := chan_msgBusy ..
  have hothers : ∀ b ≠ a, s'.chan b = s.chan b := by
    intro b hb
    rw [hchan', Function.update_of_ne hb, hothers₁ b hb]
  have hself : s'.chan a = { s.chan a with sendMsgList := [], chanBusy := false } := by
    rw [hchan', Function.update_self, hself₁]
  have hbusy₁ : ∀ b, (s₁.chan b).chanBusy = (s.chan b).chanBusy := by
    intro b
    by_cases hb : b = a
    · rw [hb, hself₁]
    · rw [hothers₁ b hb]
  have hcounted : Counted d (s₁.msgBusy d a false) := by
    refine Counted.msgBusy_false (hs.counted.congr hbusy₁ rfl rfl) ha fun hothers core hcore hne id hid => ?_
    rw [hbusy₁, (hs.chan (core, id) ⟨hcore, hid⟩).busy]
    refine hlast (fun id hid hne => ?_) core hcore hne id hid
    rw [State.InFlight, ← (hs.chan (a.1, id) ⟨ha.1, hid⟩).busy, ← hbusy₁]
    exact hothers id hid hne
  refine hs.of_others ha hothers (fun b hb => ?_) (hcounted.congr (fun _ => rfl) rfl rfl) ?_
    (fun _ h => by cases h) fun _ h => by cases h
  · rw [remaining_of_other hwalking hb, ← hothers b hb]
    rfl
  · have hremaining : s'.remaining a = [] := by
      rw [remaining_of_idle (fun _ h => by cases h), hself]
    rw [hremaining, hself]
    exact ⟨iff_of_false Bool.false_ne_true (not_not.mpr rfl), fun h => absurd rfl h,
      fun h => absurd hpending h, hchan.nodup, hchan.records⟩

theorem step (hs : Inv d s) {e : Event} (hharmless : Harmless d s e) (hstep : step d s e = some s') :
    Inv d s' := by
  cases e with
  | «open» core id type =>
      obtain ⟨hcore, hs'⟩ := Option.ite_none_right_eq_some.mp hstep
      obtain rfl := Option.some.inj hs'
      exact hs.msgOpen hcore type
  | close core id type =>
      obtain ⟨⟨hcore, -⟩, hs'⟩ := Option.ite_none_right_eq_some.mp hstep
      obtain rfl := Option.some.inj hs'
      by_cases hid : id < d.idQty
      · exact hs.msgClose ⟨hcore, hid⟩ hharmless
      · rw [State.msgClose, if_pos (Nat.not_lt.mp hid)]
        exact hs
  | send core id type =>
      obtain ⟨hcore, hs'⟩ := Option.ite_none_right_eq_some.mp hstep
      obtain rfl := Option.some.inj hs'
      exact hs.msgSend hcore type
  | txDone core id =>
      obtain ⟨⟨hcore, hid, hidle, -, hflight⟩, hs'⟩ := Option.ite_none_right_eq_some.mp hstep
      obtain rfl := Option.some.inj hs'
      exact hs.txDone ⟨hcore, hid⟩ hidle hflight
  | txFree =>
      rw [WakeLock.step] at hstep
      split at hstep
      case h_1 a record rest hwalking =>
        obtain rfl := Option.some.inj hstep
        exact hs.txFree hwalking
      case h_2 => cases hstep
  | txEnd =>
      rw [WakeLock.step] at hstep
      split at hstep
      case h_1 a hwalking =>
        obtain rfl := Option.some.inj hstep
        simp only [State.txFinish]
        by_cases hpending : (s.chan a).sendPendingList = []
        · rw [if_neg (not_not.mpr hpending)]
          exact hs.txEnd_idle hwalking hpending (hharmless (a, []) hwalking hpending)
        · rw [if_pos hpending]
          exact hs.txEnd_pending hwalking hpending
      case h_2 => cases hstep

/-- While no tx interrupt is handled, the lock is held if and only if a message is unacknowledged. -/
theorem held_iff (hs : Inv d s) (hidle : s.walking = none) : s.Held d ↔ ∃ a, s.Unacked d a := by
  have hremaining : ∀ a, s.remaining a = (s.chan a).sendMsgList := fun a =>
    remaining_of_idle fun rest h => by cases hidle.symm.trans h
  rw [hs.counted.held]
  constructor
  · rintro ⟨core, hcore, hnow⟩
    obtain ⟨id, hid, hbusy⟩ := (hs.counted.busyNow core hcore).mp hnow
    have hchan := hs.chan (core, id) ⟨hcore, hid⟩
    have hflight := hchan.busy.mp hbusy
    obtain ⟨record, hrecord⟩ := List.exists_mem_of_ne_nil _ hflight
    refine ⟨(core, id), hcore, hid, hchan.opened hflight, record, (hchan.records record).mp ?_⟩
    rw [hremaining]
    exact List.mem_append_left _ hrecord
  · rintro ⟨a, hcore, hid, -, record, hrecord⟩
    have hchan := hs.chan a ⟨hcore, hid⟩
    refine ⟨a.1, hcore, (hs.counted.busyNow a.1 hcore).mpr ⟨a.2, hid, hchan.busy.mpr ?_⟩⟩
    have hlive := (hchan.records record).mpr hrecord
    rw [hremaining] at hlive
    rcases List.mem_append.mp hlive with h | h
    · exact List.ne_nil_of_mem h
    · exact hchan.pending (List.ne_nil_of_mem h)

end Inv

/-- Along a run none of whose steps is harmful the wake lock of the driver, be it `halIpcMsg` or `halIntersys`,
is held, whenever no tx-done interrupt is being handled, if and only if an open channel has a message not yet
acknowledged. -/
theorem wakeLock_held_iff {d : Driver} {events : List Event} {s : State}
    (hrun : run (step d) .init events = some s) (hharmless : Along (step d) (Harmless d) .init events)
    (hidle : s.walking = none) : s.Held d ↔ ∃ a, s.Unacked d a :=
  (run_invariant_along (Inv d) (fun _ _ _ hs he hstep => hs.step he hstep) hharmless (inv_init d)
    hrun).held_iff hidle

theorem wakeLock_held_iff_pending :
    let events := [Event.open 0 0 0, .open 1 0 0, .send 1 0 0, .send 0 0 0, .send 1 0 0, .txDone 1 0, .txFree, .txEnd]
    ∃ s, run (step halIpcMsg) .init events = some s ∧ (s.Held halIpcMsg ↔ ∃ a, s.Unacked halIpcMsg a) := by
  obtain ⟨s, hs, hidle⟩ : ∃ s, run (step halIpcMsg) .init [.open 0 0 0, .open 1 0 0, .send 1 0 0, .send 0 0 0,
      .send 1 0 0, .txDone 1 0, .txFree, .txEnd] = some s ∧ s.walking = none := ⟨_, rfl, rfl⟩
  exact ⟨s, hs, wakeLock_held_iff hs (by decide) hidle⟩

/-! Two contexts have a message in flight and one of them is acknowledged; a channel is closed while its message
is in flight. -/

theorem wakeLock_lost_stuck :
    (¬ ∀ events s, run (step halIpcMsg) .init events = some s → s.walking = none →
      (s.Held halIpcMsg ↔ ∃ a, s.Unacked halIpcMsg a)) ∧
    ¬ ∀ events s, run (step halIntersys) .init events = some s → s.walking = none →
      (s.Held halIntersys ↔ ∃ a, s.Unacked halIntersys a) := by
  constructor
  · intro hright
    have h := hright [.open 0 0 0, .open 1 0 0, .send 0 0 0, .send 1 0 0, .txDone 0 0, .txFree, .txEnd] _ rfl rfl
    refine absurd (h.mpr ⟨(1, 0), ?_⟩) (by decide)
    exact ⟨by decide, by decide, by decide, 0, by decide, rfl⟩
  · intro hright
    have h := hright [.open 0 0 0, .send 0 0 0, .close 0 0 0] _ rfl rfl
    obtain ⟨⟨core, id⟩, hcore, hid, hopen, -⟩ := h.mp (by decide)
    refine hopen ?_
    change core < 1 at hcore
    change id < 2 at hid
    obtain rfl : core = 0 := by omega
    rcases (by omega : id = 0 ∨ id = 1) with rfl | rfl <;> rfl

end Best1307.WakeLock
