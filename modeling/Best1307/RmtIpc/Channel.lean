import Mathlib.Data.List.Basic
import Best1307.Lib.LinkedList
import Best1307.Lib.Run

/-!
# Messages between the cores

A channel has a few records for the messages it sends. Those the peer may read are linked from `send_msg_list_p`,
those sent while it reads from `send_pending_list_p`. The peer's interrupt walks the list; if its handler does not
take a message whole it keeps the rest, with the pointer to the next message, in a head of its own and waits for
`start_recv`. At the end of the list the done interrupt comes to the sender, which tells its client, frees the
records and hands over the pending list.

The accesses of the two cores are single steps.
-/

namespace Best1307.RmtIpc

open LinkedList

/-- `HAL_RMT_IPC_MAX_SEND_REC_CNT` -/
def maxSendRecCnt : Nat := 3

/-- `struct HAL_RMT_IPC_SEND_RECORD_T` -/
structure SendRecord where
  inUse : Bool
  next : Option Nat
  data : List UInt8
  deriving DecidableEq

/-- `recv_pending_head`, while its `data` is not NULL. -/
structure PendingHead where
  next : Option Nat
  data : List UInt8
  deriving DecidableEq

/-- What `msg_ptr` of the receiver points to. -/
inductive Msg
  | pendingHead
  | record (i : Nat)
  deriving DecidableEq

/-- Where the receiver's interrupt handler stands: not running, the interrupt suspended, at a message, with a message
wholly handled, the interrupt cleared, or about to clear the pending head. -/
inductive Rx
  | idle
  | suspended
  | msg (p : Option Msg)
  | next (m : Msg)
  | unmask
  | clearHead
  deriving DecidableEq

/-- Where the sender's interrupt handler stands: not running, at a record, in the client's callback for it, or with
the pending list made the list to send. -/
inductive Tx
  | idle
  | msg (p : Option Nat)
  | callback (i : Nat)
  | signal
  deriving DecidableEq

/-- Whether a receiving client that controls the flow still has to report the list as done. -/
inductive Client
  | idle
  | owes
  | unmask
  deriving DecidableEq

/-- One direction of a channel of the two cores with its interrupt registers; and the messages that were sent, that
the receiver took whole, what it took of the next, and those that went to the sender's callback. -/
structure State where
  sendMsgs : Nat → SendRecord
  sendMsgList : Option Nat
  sendPendingList : Option Nat
  sendInd : Bool
  sendIndMask : Bool
  recvDone : Bool
  tx : Tx
  rxEnabled : Bool
  recvPendingHead : Option PendingHead
  rx : Rx
  client : Client
  sent : List (List UInt8)
  received : List (List UInt8)
  current : List UInt8
  called : List (List UInt8)

/-- The bytes the receiver has consumed. -/
def State.consumed (s : State) : List UInt8 := s.received.flatten ++ s.current

/-- After `hal_rmt_ipc_open` on both sides. -/
def State.opened : State where
  sendMsgs := fun _ => ⟨false, none, []⟩
  sendMsgList := none
  sendPendingList := none
  sendInd := false
  sendIndMask := true
  recvDone := false
  tx := .idle
  rxEnabled := false
  recvPendingHead := none
  rx := .idle
  client := .idle
  sent := []
  received := []
  current := []
  called := []

namespace State

variable (s : State)

def next (i : Nat) : Option Nat := (s.sendMsgs i).next

def updateRecord (i : Nat) (record : SendRecord) : Nat → SendRecord :=
  fun j => if j = i then record else s.sendMsgs j

def freeRecord : Option Nat := (List.range maxSendRecCnt).find? fun i => !(s.sendMsgs i).inUse

/-- Record `i` is made the list to send, with an interrupt for the peer, or goes to the end of the pending list. -/
def enqueue (i : Nat) : State :=
  match s.sendMsgList with
  | none => { s with sendMsgList := some i, sendInd := true }
  | some _ =>
      match s.sendPendingList with
      | none => { s with sendPendingList := some i }
      | some first =>
          let next := last s.next maxSendRecCnt first
          { s with sendMsgs := s.updateRecord next { s.sendMsgs next with next := some i } }

/-- `hal_rmt_ipc_send_seq` on an open channel: its status and the channel after it. -/
def send (data : List UInt8) : Int × State :=
  match s.freeRecord with
  | none => (-1, s)
  | some i =>
      (0, enqueue { s with sendMsgs := s.updateRecord i ⟨true, none, data⟩, sent := s.sent ++ [data] } i)

def txIrq : Option State :=
  if s.recvDone ∧ s.tx = .idle then some { s with recvDone := false, tx := .msg s.sendMsgList } else none

/-- `hal_rmt_ipc_tx_irq_handler_by_id` takes its next step. -/
def txGoOn : Option State :=
  match s.tx with
  | .idle => none
  | .msg (some i) => some { s with called := s.called ++ [(s.sendMsgs i).data], tx := .callback i }
  | .callback i =>
      some { s with sendMsgs := s.updateRecord i { s.sendMsgs i with inUse := false }, tx := .msg (s.next i) }
  | .msg none =>
      match s.sendPendingList with
      | some i => some { s with sendMsgList := some i, sendPendingList := none, tx := .signal }
      | none => some { s with sendMsgList := none, tx := .idle }
  | .signal => some { s with sendInd := true, tx := .idle }

/-- `msg_ptr->data` with its length. -/
def msgData : Msg → List UInt8
  | .pendingHead => s.recvPendingHead.elim [] (·.data)
  | .record i => (s.sendMsgs i).data

/-- `msg_ptr->next` -/
def msgNext : Msg → Option Nat
  | .pendingHead => s.recvPendingHead.bind (·.next)
  | .record i => s.next i

/-- The receiver's interrupt, if it is enabled, is suspended. -/
def rxIrq : Option State :=
  if s.rxEnabled ∧ s.sendInd ∧ s.sendIndMask ∧ s.rx = .idle then
    some { s with sendIndMask := false, rx := .suspended }
  else none

/-- `hal_rmt_ipc_rx_irq_handler` takes its next step; the client takes `processed` bytes of the message. -/
def rxGoOn (needFlowCtrl : Bool) (processed : Nat) : Option State :=
  match s.rx with
  | .idle => none
  | .suspended =>
      if s.recvPendingHead.isSome then some { s with rx := .msg (some .pendingHead) }
      else some { s with rx := .msg (s.sendMsgList.map .record) }
  | .msg (some m) =>
      if processed < (s.msgData m).length then
        some { s with
          current := s.current ++ (s.msgData m).take processed
          recvPendingHead := some ⟨s.msgNext m, (s.msgData m).drop processed⟩
          rx := .idle }
      else
        some { s with
          received := s.received ++ [s.current ++ s.msgData m]
          current := []
          rx := .next m }
  | .next m => some { s with rx := .msg ((s.msgNext m).map .record) }
  | .msg none =>
      if needFlowCtrl then some { s with client := .owes, rx := .clearHead }
      else some { s with sendInd := false, recvDone := true, rx := .unmask }
  | .unmask => some { s with sendIndMask := true, rx := .clearHead }
  | .clearHead => some { s with recvPendingHead := none, rx := .idle }

/-- `hal_rmt_ipc_rx_done`, whose two accesses are single steps, by a client that controls the flow. -/
def rxDone : Option State :=
  if s.rx = .idle then
    match s.client with
    | .idle => none
    | .owes => some { s with sendInd := false, recvDone := true, client := .unmask }
    | .unmask => some { s with sendIndMask := true, client := .idle }
  else none

/-- `hal_rmt_ipc_start_recv` -/
def startRecv : State :=
  { s with rxEnabled := true, sendIndMask := s.recvPendingHead.isSome || s.sendIndMask }

end State

inductive Event
  | send (data : List UInt8)
  | txIrq
  | txGoOn
  | rxIrq
  | rxGoOn (processed : Nat)
  | rxDone
  | startRecv
  | stopRecv
  deriving DecidableEq

/-- Threads of the sender run while its interrupt handler does not, and so does its callback. A client that controls
the flow calls `start_recv` from its threads, another one also from its handler. -/
def step (needFlowCtrl : Bool) (s : State) : Event → Option State
  | .send data =>
      match s.tx with
      | .idle | .callback _ => some (s.send data).2
      | .msg _ | .signal => none
  | .txIrq => s.txIrq
  | .txGoOn => s.txGoOn
  | .rxIrq => s.rxIrq
  | .rxGoOn processed => s.rxGoOn needFlowCtrl processed
  | .rxDone => s.rxDone
  | .startRecv => if needFlowCtrl ∧ s.rx ≠ .idle then none else some s.startRecv
  | .stopRecv => some { s with rxEnabled := false }

/-! ### The interrupt of the receiver -/

/-- In a channel with flow control the interrupt stays suspended while the handler runs and until the client has
reported the list as done; it is never suspended when the receiver waits for a new list. -/
structure Masked (needFlowCtrl : Bool) (s : State) : Prop where
  controlled : s.client ≠ .idle → needFlowCtrl = true
  masked : needFlowCtrl = true → s.rx ≠ .idle ∨ s.client ≠ .idle → s.sendIndMask = false
  opened : s.rx = .idle → s.recvPendingHead = none → s.client = .idle → s.sendIndMask = true
  cleared : s.rx = .clearHead → s.client = .idle → s.sendIndMask = true
  finished : s.rx = .unmask → needFlowCtrl = false
  client : s.client ≠ .idle → s.rx = .idle ∧ s.recvPendingHead = none ∨ s.rx = .clearHead

section Masked

variable {needFlowCtrl : Bool} {s s' : State} {data : List UInt8} {processed : Nat}

theorem masked_opened : Masked needFlowCtrl .opened where
  controlled h := absurd rfl h
  masked _ h := h.elim (absurd rfl) (absurd rfl)
  opened _ _ _ := rfl
  cleared h := nomatch h
  finished h := nomatch h
  client h := absurd rfl h

/-- The sender does not touch the receiver's part. -/
theorem Masked.of_same (h : Masked needFlowCtrl s) (hclient : s'.client = s.client) (hrx : s'.rx = s.rx)
    (hmask : s'.sendIndMask = s.sendIndMask) (hhead : s'.recvPendingHead = s.recvPendingHead) :
    Masked needFlowCtrl s' := by
  refine ⟨?_, ?_, ?_, ?_, ?_, ?_⟩
  · rw [hclient]
    exact h.controlled
  · rw [hclient, hrx, hmask]
    exact h.masked
  · rw [hclient, hrx, hmask, hhead]
    exact h.opened
  · rw [hclient, hrx, hmask]
    exact h.cleared
  · rw [hrx]
    exact h.finished
  · rw [hclient, hrx, hhead]
    exact h.client

/-- While the handler is between the suspended interrupt and the end of the list, the client has nothing to report. -/
theorem Masked.client_idle (h : Masked needFlowCtrl s) (hidle : s.rx ≠ .idle) (hclear : s.rx ≠ .clearHead) :
    s.client = .idle := by
  by_contra hclient
  rcases h.client hclient with h | h
  · exact hidle h.1
  · exact hclear h

theorem enqueue_same (s : State) (i : Nat) : (s.enqueue i).client = s.client ∧ (s.enqueue i).rx = s.rx ∧
    (s.enqueue i).sendIndMask = s.sendIndMask ∧ (s.enqueue i).recvPendingHead = s.recvPendingHead ∧
    (s.enqueue i).current = s.current := by
  rw [State.enqueue]
  split
  · exact ⟨rfl, rfl, rfl, rfl, rfl⟩
  · split <;> exact ⟨rfl, rfl, rfl, rfl, rfl⟩

theorem Masked.send (h : Masked needFlowCtrl s) : Masked needFlowCtrl (s.send data).2 := by
  rw [State.send]
  split
  · exact h
  · obtain ⟨hclient, hrx, hmask, hhead, -⟩ := enqueue_same { s with
      sendMsgs := s.updateRecord _ ⟨true, none, data⟩, sent := s.sent ++ [data] } _
    exact h.of_same hclient hrx hmask hhead

theorem Masked.txGoOn (h : Masked needFlowCtrl s) (hstep : s.txGoOn = some s') : Masked needFlowCtrl s' := by
  rw [State.txGoOn] at hstep
  split at hstep
  · cases hstep
  · obtain rfl := Option.some.inj hstep
    exact h.of_same rfl rfl rfl rfl
  · obtain rfl := Option.some.inj hstep
    exact h.of_same rfl rfl rfl rfl
  · split at hstep
    · obtain rfl := Option.some.inj hstep
      exact h.of_same rfl rfl rfl rfl
    · obtain rfl := Option.some.inj hstep
      exact h.of_same rfl rfl rfl rfl
  · obtain rfl := Option.some.inj hstep
    exact h.of_same rfl rfl rfl rfl

theorem Masked.goOn (h : Masked needFlowCtrl s) (hidle : s.rx ≠ .idle) (hclear : s.rx ≠ .clearHead)
    (hidle' : s'.rx ≠ .idle) (hclear' : s'.rx ≠ .clearHead) (hunmask' : s'.rx = .unmask → needFlowCtrl = false)
    (hclient : s'.client = s.client) (hmask : s'.sendIndMask = s.sendIndMask) : Masked needFlowCtrl s' where
  controlled := by
    rw [hclient]
    exact h.controlled
  masked := by
    intro hflow _
    rw [hmask]
    exact h.masked hflow (.inl hidle)
  opened := fun hrx => absurd hrx hidle'
  cleared := fun hrx => absurd hrx hclear'
  finished := hunmask'
  client := by
    intro hne
    rw [hclient] at hne
    exact absurd (h.client_idle hidle hclear) hne

theorem Masked.rxGoOn (h : Masked needFlowCtrl s) (hstep : s.rxGoOn needFlowCtrl processed = some s') :
    Masked needFlowCtrl s' := by
  rw [State.rxGoOn] at hstep
  split at hstep
  · cases hstep
  · rename_i hrx
    have hidle : s.rx ≠ .idle := by rw [hrx]; decide
    have hclear : s.rx ≠ .clearHead := by rw [hrx]; decide
    split at hstep
    · obtain rfl := Option.some.inj hstep
      exact h.goOn hidle hclear (fun h => nomatch h) (fun h => nomatch h) (fun h => nomatch h) rfl rfl
    · obtain rfl := Option.some.inj hstep
      exact h.goOn hidle hclear (fun h => nomatch h) (fun h => nomatch h) (fun h => nomatch h) rfl rfl
  · rename_i m hrx
    have hidle : s.rx ≠ .idle := by rw [hrx]; exact fun h => nomatch h
    have hclear : s.rx ≠ .clearHead := by rw [hrx]; exact fun h => nomatch h
    split at hstep
    · obtain rfl := Option.some.inj hstep
      have hclient := h.client_idle hidle hclear
      exact ⟨h.controlled, fun hflow _ => h.masked hflow (.inl hidle), fun _ hnone => (nomatch hnone),
        fun hrx => (nomatch hrx), fun hrx => (nomatch hrx), fun hne => absurd hclient hne⟩
    · obtain rfl := Option.some.inj hstep
      exact h.goOn hidle hclear (fun h => nomatch h) (fun h => nomatch h) (fun h => nomatch h) rfl rfl
  · rename_i m hrx
    obtain rfl := Option.some.inj hstep
    exact h.goOn (by rw [hrx]; exact fun h => nomatch h) (by rw [hrx]; exact fun h => nomatch h)
      (fun h => nomatch h) (fun h => nomatch h) (fun h => nomatch h) rfl rfl
  · rename_i hrx
    have hidle : s.rx ≠ .idle := by rw [hrx]; decide
    have hclear : s.rx ≠ .clearHead := by rw [hrx]; decide
    split at hstep
    · rename_i hflow
      obtain rfl := Option.some.inj hstep
      exact ⟨fun _ => hflow, fun _ _ => h.masked hflow (.inl hidle), fun hrx => (nomatch hrx),
        fun _ hclient => (nomatch hclient), fun hrx => (nomatch hrx), fun _ => .inr rfl⟩
    · rename_i hflow
      obtain rfl := Option.some.inj hstep
      exact h.goOn hidle hclear (fun h => nomatch h) (fun h => nomatch h)
        (fun _ => Bool.eq_false_iff.mpr hflow) rfl rfl
  · rename_i hrx
    obtain rfl := Option.some.inj hstep
    have hflow := h.finished hrx
    have hclient := h.client_idle (by rw [hrx]; decide) (by rw [hrx]; decide)
    exact ⟨h.controlled, fun hflow' => absurd hflow' (by rw [hflow]; decide), fun hrx => (nomatch hrx),
      fun _ _ => rfl, fun hrx => (nomatch hrx), fun hne => absurd hclient hne⟩
  · rename_i hrx
    obtain rfl := Option.some.inj hstep
    refine ⟨h.controlled, fun hflow hne => ?_, fun _ _ hclient => h.cleared hrx hclient, fun hrx => (nomatch hrx),
      fun hrx => (nomatch hrx), fun _ => .inl ⟨rfl, rfl⟩⟩
    exact h.masked hflow (.inl (by rw [hrx]; decide))

theorem Masked.rxDone (h : Masked needFlowCtrl s) (hstep : s.rxDone = some s') : Masked needFlowCtrl s' := by
  rw [State.rxDone] at hstep
  split at hstep
  · rename_i hrx
    split at hstep
    · cases hstep
    · rename_i hclient
      obtain rfl := Option.some.inj hstep
      have hne : s.client ≠ .idle := by rw [hclient]; decide
      have hhead := ((h.client hne).resolve_right (by rw [hrx]; decide)).2
      have hflow := h.controlled hne
      exact ⟨fun _ => hflow, fun _ _ => h.masked hflow (.inr hne), fun _ _ hidle => (nomatch hidle),
        fun _ hidle => (nomatch hidle), h.finished, fun _ => .inl ⟨hrx, hhead⟩⟩
    · rename_i hclient
      obtain rfl := Option.some.inj hstep
      have hne : s.client ≠ .idle := by rw [hclient]; decide
      exact ⟨fun hne => absurd rfl hne, fun _ hne => (hne.elim (absurd hrx) (absurd rfl)), fun _ _ _ => rfl,
        fun _ _ => rfl, h.finished, fun hne => absurd rfl hne⟩
  · cases hstep

theorem Masked.startRecv (h : Masked needFlowCtrl s) (hidle : needFlowCtrl = true → s.rx = .idle) :
    Masked needFlowCtrl s.startRecv where
  controlled := h.controlled
  masked := by
    intro hflow hne
    have hrx := hidle hflow
    rcases hne with hne | hne
    · exact absurd hrx hne
    · have hhead := ((h.client hne).resolve_right (by rw [hrx]; decide)).2
      simp only [State.startRecv, hhead, Option.isSome_none, Bool.false_or]
      exact h.masked hflow (.inr hne)
  opened := by
    intro hrx hhead hclient
    simp only [State.startRecv, h.opened hrx hhead hclient, Bool.or_true]
  cleared := by
    intro hrx hclient
    simp only [State.startRecv, h.cleared hrx hclient, Bool.or_true]
  finished := h.finished
  client := h.client

theorem Masked.step {e : Event} (h : Masked needFlowCtrl s) (hstep : RmtIpc.step needFlowCtrl s e = some s') :
    Masked needFlowCtrl s' := by
  cases e with
  | send data =>
      simp only [RmtIpc.step] at hstep
      split at hstep
      · obtain rfl := Option.some.inj hstep
        exact h.send
      · obtain rfl := Option.some.inj hstep
        exact h.send
      · cases hstep
      · cases hstep
  | txIrq =>
      simp only [RmtIpc.step, State.txIrq] at hstep
      split at hstep
      · obtain rfl := Option.some.inj hstep
        exact h.of_same rfl rfl rfl rfl
      · cases hstep
  | txGoOn => exact h.txGoOn hstep
  | rxIrq =>
      simp only [RmtIpc.step, State.rxIrq] at hstep
      split at hstep
      · rename_i hirq
        obtain rfl := Option.some.inj hstep
        have hclient : s.client = .idle := by
          by_contra hne
          have hmask := h.masked (h.controlled hne) (.inr hne)
          exact absurd (hmask.symm.trans hirq.2.2.1) (by decide)
        exact ⟨h.controlled, fun _ _ => rfl, fun hrx => (nomatch hrx), fun hrx => (nomatch hrx),
          fun hrx => (nomatch hrx), fun hne => absurd hclient hne⟩
      · cases hstep
  | rxGoOn processed => exact h.rxGoOn hstep
  | rxDone => exact h.rxDone hstep
  | startRecv =>
      simp only [RmtIpc.step] at hstep
      split at hstep
      · cases hstep
      · rename_i hrx
        obtain rfl := Option.some.inj hstep
        exact h.startRecv fun hflow => by_contra fun hne => hrx ⟨hflow, hne⟩
  | stopRecv =>
      obtain rfl := Option.some.inj hstep
      exact h.of_same rfl rfl rfl rfl

end Masked

end Best1307.RmtIpc
