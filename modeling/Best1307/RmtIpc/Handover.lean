import Mathlib.Data.List.Nodup
import Mathlib.Data.List.Perm.Subperm
import Best1307.RmtIpc.Channel

/-!
# Handing over the list

Either the receiver has the list of messages or the sender, and what they do with it is a cycle: it is sent, read,
done, walked by the sender and replaced by the pending one. The stage of a channel is where it is in this cycle,
with the records still to be handled; every step keeps it or moves it on.
-/

namespace Best1307.RmtIpc

open LinkedList

/-! ### Who has the list -/

/-- No list is out; the receiver has it, of which it took some records; it is done; the sender walks it, is in the
callback for a record of it, or has the next one ready. -/
inductive Stage
  | empty
  | reading (got rest : List Nat)
  | done (batch : List Nat)
  | walking (rest : List Nat)
  | freeing (i : Nat) (rest : List Nat)
  | signal (batch : List Nat)

namespace Stage

def live : Stage → List Nat
  | .empty => []
  | .reading got rest => got ++ rest
  | .done batch => batch
  | .walking rest => rest
  | .freeing i rest => i :: rest
  | .signal batch => batch

/-- The records of the list whose callback is to come. -/
def uncalled : Stage → List Nat
  | .freeing _ rest => rest
  | st => st.live

/-- The records of those that the receiver took whole. -/
def taken : Stage → List Nat
  | .reading got _ => got
  | .done batch => batch
  | .walking rest => rest
  | .freeing _ rest => rest
  | .empty | .signal _ => []

end Stage

def State.payloads (s : State) (records : List Nat) : List (List UInt8) := records.map fun i => (s.sendMsgs i).data

/-- The sender's registers and pointers. -/
def Sender (s : State) : Stage → Prop
  | .empty => s.tx = .idle ∧ s.sendInd = false ∧ s.recvDone = false ∧ s.sendMsgList = none
  | .reading got rest => s.tx = .idle ∧ s.sendInd = true ∧ s.recvDone = false ∧ got ++ rest ≠ [] ∧
      Linked s.next s.sendMsgList (got ++ rest)
  | .done batch => s.tx = .idle ∧ s.sendInd = false ∧ s.recvDone = true ∧ batch ≠ [] ∧
      Linked s.next s.sendMsgList batch
  | .walking rest => ∃ p, s.tx = .msg p ∧ s.sendInd = false ∧ s.recvDone = false ∧ s.sendMsgList ≠ none ∧
      Linked s.next p rest
  | .freeing i rest => s.tx = .callback i ∧ s.sendInd = false ∧ s.recvDone = false ∧ s.sendMsgList ≠ none ∧
      Linked s.next (s.next i) rest
  | .signal batch => s.tx = .signal ∧ s.sendInd = false ∧ s.recvDone = false ∧ batch ≠ [] ∧
      Linked s.next s.sendMsgList batch

def Quiet (s : State) : Prop :=
  s.current = [] ∧ s.client ≠ .owes ∧
    (s.rx = .idle ∧ s.recvPendingHead = none ∨ s.rx = .unmask ∨ s.rx = .clearHead)

/-- The pending head is what is left of the first of these records. -/
def Remainder (s : State) (rest : List Nat) : Prop :=
  ∃ head i tail, s.recvPendingHead = some head ∧ rest = i :: tail ∧ Linked s.next head.next tail ∧
    (s.sendMsgs i).data = s.current ++ head.data

/-- The receiver took the records `got` and has `rest` before it. -/
def Busy (s : State) (got rest : List Nat) : Prop :=
  match s.rx with
  | .idle => Remainder s rest ∨ s.recvPendingHead = none ∧ s.current = [] ∧ rest = [] ∧ s.client = .owes
  | .suspended => Remainder s rest ∨ s.recvPendingHead = none ∧ s.current = [] ∧ got = []
  | .msg (some .pendingHead) => Remainder s rest
  | .msg (some (.record i)) => s.current = [] ∧ Linked s.next (some i) rest
  | .next m => s.current = [] ∧ Linked s.next (s.msgNext m) rest ∧ ∀ i, m = .record i → i ∈ got
  | .msg none => s.current = [] ∧ rest = []
  | .unmask => False
  | .clearHead => s.current = [] ∧ rest = [] ∧ s.client = .owes

def Receiver (s : State) : Stage → Prop
  | .reading got rest => got = [] ∧ Quiet s ∨ Busy s got rest
  | _ => Quiet s

/-- Every record in use is in the list that is out or in the pending list, once; the messages sent are those called
back and those of these lists, in order. -/
structure Inv (s : State) (st : Stage) (pending : List Nat) : Prop where
  linked : Linked s.next s.sendPendingList pending
  nodup : (st.live ++ pending).Nodup
  inUse : ∀ i, (i < maxSendRecCnt ∧ (s.sendMsgs i).inUse = true) ↔ i ∈ st.live ++ pending
  none_pending : st = .empty → pending = []
  sent : s.sent = s.called ++ s.payloads (st.uncalled ++ pending)
  received : s.received = s.called ++ s.payloads st.taken
  sender : Sender s st
  receiver : Receiver s st

theorem inv_opened : Inv .opened .empty [] where
  linked := rfl
  nodup := List.nodup_nil
  inUse i := by
    simp only [State.opened, Bool.false_eq_true, and_false, Stage.live, List.append_nil, List.not_mem_nil]
  none_pending _ := rfl
  sent := rfl
  received := rfl
  sender := ⟨rfl, rfl, rfl, rfl⟩
  receiver := ⟨rfl, by decide, .inl ⟨rfl, rfl⟩⟩

section Frame

variable {s s' : State} {st : Stage} {got rest records pending : List Nat} {i : Nat}

/-- The receiver's part is the same, and so are these records. -/
structure SameReceiver (s s' : State) (records : List Nat) : Prop where
  rx : s'.rx = s.rx
  head : s'.recvPendingHead = s.recvPendingHead
  current : s'.current = s.current
  client : s'.client = s.client
  records : ∀ i ∈ records, s'.sendMsgs i = s.sendMsgs i

theorem SameReceiver.next_eq (h : SameReceiver s s' records) : ∀ i ∈ records, s'.next i = s.next i :=
  fun i hi => congrArg SendRecord.next (h.records i hi)

theorem SameReceiver.quiet (h : SameReceiver s s' records) (hquiet : Quiet s) : Quiet s' := by
  simp only [Quiet, h.rx, h.head, h.current, h.client]
  exact hquiet

theorem SameReceiver.remainder (h : SameReceiver s s' records) (hsub : ∀ i ∈ rest, i ∈ records)
    (hrest : Remainder s rest) : Remainder s' rest := by
  obtain ⟨head, i, tail, hhead, rfl, hlinked, hdata⟩ := hrest
  refine ⟨head, i, tail, h.head.trans hhead, rfl, ?_, ?_⟩
  · exact hlinked.congr fun j hj => h.next_eq j (hsub j (List.mem_cons_of_mem i hj))
  · rw [h.records i (hsub i List.mem_cons_self), h.current]
    exact hdata

theorem SameReceiver.busy (h : SameReceiver s s' (got ++ rest)) (hbusy : Busy s got rest) : Busy s' got rest := by
  have hsub : ∀ i ∈ rest, i ∈ got ++ rest := fun i hi => List.mem_append_right got hi
  have hnext : ∀ i ∈ rest, s'.next i = s.next i := fun i hi => h.next_eq i (hsub i hi)
  have hremainder : Remainder s rest → Remainder s' rest := h.remainder hsub
  simp only [Busy, h.rx, h.head, h.current, h.client] at hbusy ⊢
  cases hrx : s.rx with
  | idle =>
      simp only [hrx] at hbusy
      exact hbusy.imp_left hremainder
  | suspended =>
      simp only [hrx] at hbusy
      exact hbusy.imp_left hremainder
  | msg p =>
      match p with
      | none =>
          simp only [hrx] at hbusy
          exact hbusy
      | some .pendingHead =>
          simp only [hrx] at hbusy
          exact hremainder hbusy
      | some (.record i) =>
          simp only [hrx] at hbusy
          exact ⟨hbusy.1, hbusy.2.congr hnext⟩
  | next m =>
      simp only [hrx] at hbusy
      obtain ⟨hcurrent, hlinked, hmem⟩ := hbusy
      refine ⟨hcurrent, ?_, hmem⟩
      have hmsg : s'.msgNext m = s.msgNext m := by
        cases m with
        | pendingHead => simp only [State.msgNext, h.head]
        | record i => exact h.next_eq i (List.mem_append_left rest (hmem i rfl))
      rw [hmsg]
      exact hlinked.congr hnext
  | unmask =>
      simp only [hrx] at hbusy
  | clearHead =>
      simp only [hrx] at hbusy
      exact hbusy

theorem SameReceiver.receiver (h : SameReceiver s s' st.live) (hreceiver : Receiver s st) : Receiver s' st := by
  cases st with
  | reading got rest => exact hreceiver.imp (And.imp_right h.quiet) h.busy
  | _ => exact h.quiet hreceiver

theorem payloads_congr (h : ∀ i ∈ records, s'.sendMsgs i = s.sendMsgs i) :
    s'.payloads records = s.payloads records := by
  refine List.map_congr_left fun i hi => ?_
  rw [h i hi]

theorem payloads_append (left right : List Nat) :
    s.payloads (left ++ right) = s.payloads left ++ s.payloads right := List.map_append

end Frame

/-! ### Sending -/

section Sending

variable {s s' : State} {st : Stage} {pending : List Nat} {i : Nat} {data : List UInt8}

/-- The sender's registers, and these records, are the same. -/
structure SameSender (s s' : State) (records : List Nat) : Prop where
  tx : s'.tx = s.tx
  ind : s'.sendInd = s.sendInd
  done : s'.recvDone = s.recvDone
  list : s'.sendMsgList = s.sendMsgList
  records : ∀ i ∈ records, s'.sendMsgs i = s.sendMsgs i

theorem SameSender.sender (h : SameSender s s' st.live) (hsender : Sender s st) : Sender s' st := by
  have hnext : ∀ i ∈ st.live, s'.next i = s.next i := fun i hi => congrArg SendRecord.next (h.records i hi)
  cases st with
  | empty =>
      simp only [Sender, h.tx, h.ind, h.done, h.list]
      exact hsender
  | reading got rest =>
      simp only [Sender, h.tx, h.ind, h.done, h.list]
      obtain ⟨htx, hind, hdone, hne, hlinked⟩ := hsender
      exact ⟨htx, hind, hdone, hne, hlinked.congr hnext⟩
  | done batch =>
      simp only [Sender, h.tx, h.ind, h.done, h.list]
      obtain ⟨htx, hind, hdone, hne, hlinked⟩ := hsender
      exact ⟨htx, hind, hdone, hne, hlinked.congr hnext⟩
  | walking rest =>
      simp only [Sender, h.tx, h.ind, h.done, h.list]
      obtain ⟨p, htx, hind, hdone, hne, hlinked⟩ := hsender
      exact ⟨p, htx, hind, hdone, hne, hlinked.congr hnext⟩
  | freeing i rest =>
      simp only [Sender, h.tx, h.ind, h.done, h.list, hnext i List.mem_cons_self]
      obtain ⟨htx, hind, hdone, hne, hlinked⟩ := hsender
      exact ⟨htx, hind, hdone, hne, hlinked.congr fun j hj => hnext j (List.mem_cons_of_mem i hj)⟩
  | signal batch =>
      simp only [Sender, h.tx, h.ind, h.done, h.list]
      obtain ⟨htx, hind, hdone, hne, hlinked⟩ := hsender
      exact ⟨htx, hind, hdone, hne, hlinked.congr hnext⟩

/-- Without a list to send nothing is out; while threads or the callback run, the sender is not between two lists. -/
theorem Inv.sendMsgList_none (h : Inv s st pending) (hlist : s.sendMsgList = none) : st = .empty ∨
    ∃ p, s.tx = .msg p := by
  have hsender := h.sender
  cases st with
  | empty => exact .inl rfl
  | reading got rest => exact absurd hlist (hsender.2.2.2.2.ne_none hsender.2.2.2.1)
  | done batch => exact absurd hlist (hsender.2.2.2.2.ne_none hsender.2.2.2.1)
  | walking rest =>
      obtain ⟨p, htx, -⟩ := hsender
      exact .inr ⟨p, htx⟩
  | freeing i rest => exact absurd hlist hsender.2.2.2.1
  | signal batch => exact absurd hlist (hsender.2.2.2.2.ne_none hsender.2.2.2.1)

theorem freeRecord_spec (h : Inv s st pending) (hfree : s.freeRecord = some i) :
    i < maxSendRecCnt ∧ i ∉ st.live ++ pending := by
  have hlt := List.mem_range.mp (List.mem_of_find?_eq_some hfree)
  have hnot := List.find?_some hfree
  refine ⟨hlt, fun hmem => ?_⟩
  rw [((h.inUse i).mpr hmem).2] at hnot
  exact absurd hnot (by decide)

theorem freeRecord_none (hfree : s.freeRecord = none) : ∀ i < maxSendRecCnt, (s.sendMsgs i).inUse = true := by
  intro i hi
  have hnot := List.find?_eq_none.mp hfree i (List.mem_range.mpr hi)
  simpa only [Bool.not_eq_true', Bool.not_eq_false] using hnot

theorem uncalled_subset (st : Stage) : ∀ i ∈ st.uncalled, i ∈ st.live := by
  intro i hi
  cases st with
  | freeing j rest => exact List.mem_cons_of_mem j hi
  | _ => exact hi

theorem taken_subset (st : Stage) : ∀ i ∈ st.taken, i ∈ st.live := by
  intro i hi
  cases st with
  | empty => exact hi
  | reading got rest => exact List.mem_append_left rest hi
  | freeing j rest => exact List.mem_cons_of_mem j hi
  | signal batch => exact absurd hi List.not_mem_nil
  | _ => exact hi

theorem Inv.append (h : Inv s st pending) (hst : st ≠ .empty) (hlt : i < maxSendRecCnt) (hi : i ∉ st.live ++ pending)
    (hsender : SameSender s s' st.live) (hreceiver : SameReceiver s s' st.live)
    (hlinked : Linked s'.next s'.sendPendingList (pending ++ [i]))
    (hinUse : ∀ j, (s'.sendMsgs j).inUse = true ↔ (s.sendMsgs j).inUse = true ∨ j = i)
    (hdata : ∀ j ∈ st.live ++ pending, (s'.sendMsgs j).data = (s.sendMsgs j).data)
    (hsent : s'.sent = s.sent ++ [(s'.sendMsgs i).data]) (hcalled : s'.called = s.called)
    (hreceived : s'.received = s.received) : Inv s' st (pending ++ [i]) where
  linked := hlinked
  nodup := by
    rw [← List.append_assoc, ← List.concat_eq_append]
    exact List.Nodup.concat hi h.nodup
  inUse j := by
    rw [hinUse, ← List.append_assoc, List.mem_append, ← h.inUse, List.mem_singleton]
    constructor
    · rintro ⟨hj, hused | hji⟩
      · exact .inl ⟨hj, hused⟩
      · exact .inr hji
    · rintro (⟨hj, hused⟩ | rfl)
      · exact ⟨hj, .inl hused⟩
      · exact ⟨hlt, .inr rfl⟩
  none_pending hempty := absurd hempty hst
  sent := by
    have hsame : s'.payloads (st.uncalled ++ pending) = s.payloads (st.uncalled ++ pending) := by
      refine List.map_congr_left fun j hj => hdata j ?_
      exact (List.mem_append.mp hj).elim (fun hj => List.mem_append_left _ (uncalled_subset st j hj))
        (List.mem_append_right _)
    calc s'.sent
        = s.called ++ s.payloads (st.uncalled ++ pending) ++ [(s'.sendMsgs i).data] := by rw [hsent, h.sent]
      _ = s'.called ++ (s'.payloads (st.uncalled ++ pending) ++ s'.payloads [i]) := by
          rw [hcalled, hsame, List.append_assoc]
          rfl
      _ = s'.called ++ s'.payloads (st.uncalled ++ (pending ++ [i])) := by
          rw [← payloads_append, List.append_assoc st.uncalled]
  received := by
    have hsame : s'.payloads st.taken = s.payloads st.taken :=
      List.map_congr_left fun j hj => hdata j (List.mem_append_left _ (taken_subset st j hj))
    rw [hreceived, hcalled, hsame]
    exact h.received
  sender := hsender.sender h.sender
  receiver := hreceiver.receiver h.receiver

/-- What a send does: it is refused if all records are in use, else the message is sent. -/
theorem send_spec (s : State) (data : List UInt8) :
    ((∀ i < maxSendRecCnt, (s.sendMsgs i).inUse = true) ∧ s.send data = (-1, s)) ∨
      (¬ ∀ i < maxSendRecCnt, (s.sendMsgs i).inUse = true) ∧ (s.send data).1 = 0 ∧
        (s.send data).2.sent = s.sent ++ [data] := by
  rw [State.send]
  split
  · rename_i hfree
    exact .inl ⟨freeRecord_none hfree, rfl⟩
  · rename_i i hfree
    refine .inr ⟨fun hall => ?_, rfl, ?_⟩
    · have hnot := List.find?_some hfree
      rw [hall i (List.mem_range.mp (List.mem_of_find?_eq_some hfree))] at hnot
      exact absurd hnot (by decide)
    · rw [State.enqueue]
      split
      · rfl
      · split <;> rfl

theorem Inv.pending_lt (h : Inv s st pending) : ∀ j ∈ pending, j < maxSendRecCnt :=
  fun j hj => ((h.inUse j).mpr (List.mem_append_right _ hj)).1

theorem Inv.last_eq {next : Nat → Option Nat} {init : List Nat} {j first : Nat} (h : Inv s st (init ++ [j]))
    (hfirst : s.sendPendingList = some first) (hnext : ∀ k ∈ init ++ [j], next k = s.next k) :
    last next maxSendRecCnt first = j := by
  have hlinked := h.linked.congr hnext
  rw [hfirst] at hlinked
  refine hlinked.last_eq ?_
  have hnodup : (init ++ [j]).Nodup := (List.nodup_append.mp h.nodup).2.1
  have hsub : init ++ [j] ⊆ List.range maxSendRecCnt := fun k hk => List.mem_range.mpr (h.pending_lt k hk)
  have hlength := (List.Nodup.subperm hnodup hsub).length_le
  rw [List.length_range, List.length_append] at hlength
  omega

theorem Inv.linkLast {init : List Nat} {j : Nat} (h : Inv s st (init ++ [j])) (data : List UInt8) (hst : st ≠ .empty)
    (hlt : i < maxSendRecCnt) (hi : i ∉ st.live ++ (init ++ [j]))
    (hlast : s'.sendMsgs j = { s.sendMsgs j with next := some i }) (hnew : s'.sendMsgs i = ⟨true, none, data⟩)
    (hother : ∀ k, k ≠ j → k ≠ i → s'.sendMsgs k = s.sendMsgs k)
    (hsender : ∀ records, (∀ k ∈ records, s'.sendMsgs k = s.sendMsgs k) → SameSender s s' records)
    (hreceiver : ∀ records, (∀ k ∈ records, s'.sendMsgs k = s.sendMsgs k) → SameReceiver s s' records)
    (hlist : s'.sendPendingList = s.sendPendingList) (hsent : s'.sent = s.sent ++ [data])
    (hcalled : s'.called = s.called) (hreceived : s'.received = s.received) :
    Inv s' st (init ++ [j] ++ [i]) := by
  obtain ⟨-, hnodup, hapart⟩ := List.nodup_append.mp h.nodup
  have hj : j ∈ st.live ++ (init ++ [j]) := List.mem_append_right _ (List.mem_append_right _ List.mem_cons_self)
  have hne : ∀ k ∈ st.live ++ (init ++ [j]), k ≠ i := fun k hk hki => hi (hki ▸ hk)
  have hbatch : ∀ k ∈ st.live, s'.sendMsgs k = s.sendMsgs k := by
    intro k hk
    refine hother k (fun hkj => ?_) (hne k (List.mem_append_left _ hk))
    exact hapart k hk j (List.mem_append_right _ List.mem_cons_self) hkj
  have hinit : ∀ k ∈ init, s'.sendMsgs k = s.sendMsgs k := by
    intro k hk
    refine hother k (fun hkj => ?_) (hne k (List.mem_append_right _ (List.mem_append_left _ hk)))
    exact (List.nodup_append.mp hnodup).2.2 k hk j List.mem_cons_self hkj
  refine h.append hst hlt hi (hsender _ hbatch) (hreceiver _ hbatch) ?_ (fun k => ?_) (fun k hk => ?_) ?_ hcalled
    hreceived
  · rw [hlist]
    exact h.linked.concat hnodup (fun hmem => hi (List.mem_append_right _ hmem)) (congrArg SendRecord.next hlast)
      (congrArg SendRecord.next hnew) fun k hk => congrArg SendRecord.next (hinit k hk)
  · by_cases hkj : k = j
    · subst hkj
      rw [hlast]
      exact ⟨.inl, fun hor => hor.resolve_right (hne k hj)⟩
    · by_cases hki : k = i
      · subst hki
        rw [hnew]
        exact ⟨fun _ => .inr rfl, fun _ => rfl⟩
      · rw [hother k hkj hki]
        exact ⟨.inl, fun hor => hor.resolve_right hki⟩
  · by_cases hkj : k = j
    · rw [hkj, hlast]
    · rw [hother k hkj (hne k hk)]
  · rw [hsent, hnew]

theorem Inv.sendFirst (h : Inv s .empty pending) (hlt : i < maxSendRecCnt)
    (hnew : s'.sendMsgs i = ⟨true, none, data⟩) (hother : ∀ k, k ≠ i → s'.sendMsgs k = s.sendMsgs k)
    (hreceiver : SameReceiver s s' []) (hlist : s'.sendMsgList = some i) (hind : s'.sendInd = true)
    (htx : s'.tx = s.tx) (hdone : s'.recvDone = s.recvDone) (hpending : s'.sendPendingList = s.sendPendingList)
    (hsent : s'.sent = s.sent ++ [data]) (hcalled : s'.called = s.called) (hreceived : s'.received = s.received) :
    Inv s' (.reading [] [i]) [] := by
  obtain rfl := h.none_pending rfl
  obtain ⟨htx', -, hdone', -⟩ := h.sender
  have hunused : ∀ j, j < maxSendRecCnt → ¬ (s.sendMsgs j).inUse = true := fun j hj hused =>
    absurd ((h.inUse j).mp ⟨hj, hused⟩) List.not_mem_nil
  refine ⟨?_, List.nodup_singleton i, fun j => ?_, (fun hempty => by cases hempty), ?_, ?_, ?_, .inl ⟨rfl, ?_⟩⟩
  · rw [hpending]
    exact h.linked
  · constructor
    · rintro ⟨hj, hused⟩
      by_cases hji : j = i
      · exact hji ▸ List.mem_cons_self
      · rw [hother j hji] at hused
        exact absurd hused (hunused j hj)
    · intro hj
      obtain rfl := List.mem_singleton.mp hj
      exact ⟨hlt, by rw [hnew]⟩
  · have hold : s.sent = s.called ++ [] := h.sent
    rw [hsent, hold, hcalled, List.append_nil]
    simp only [Stage.uncalled, Stage.live, List.nil_append, List.append_nil, State.payloads, List.map_cons,
      List.map_nil, hnew]
  · rw [hreceived, hcalled]
    exact h.received
  · exact ⟨htx.trans htx', hind, hdone.trans hdone', List.cons_ne_nil i [], hlist, congrArg SendRecord.next hnew⟩
  · exact hreceiver.quiet h.receiver

theorem updateRecord_self {record : SendRecord} : s.updateRecord i record i = record := if_pos rfl

theorem updateRecord_ne {record : SendRecord} {j : Nat} (h : j ≠ i) : s.updateRecord i record j = s.sendMsgs j :=
  if_neg h

theorem Inv.send (h : Inv s st pending) (hthread : ∀ p, s.tx ≠ .msg p) :
    ∃ st' pending', Inv (s.send data).2 st' pending' := by
  rw [State.send]
  split
  · exact ⟨st, pending, h⟩
  · rename_i i hfree
    obtain ⟨hlt, hi⟩ := freeRecord_spec h hfree
    have hne : ∀ j ∈ st.live ++ pending, j ≠ i := fun j hj hji => hi (hji ▸ hj)
    simp only [State.enqueue]
    split
    · rename_i hlist
      obtain rfl : st = .empty := by
        rcases h.sendMsgList_none hlist with hst | ⟨p, hp⟩
        · exact hst
        · exact absurd hp (hthread p)
      exact ⟨.reading [] [i], [], h.sendFirst hlt updateRecord_self (fun k hk => updateRecord_ne hk)
        ⟨rfl, rfl, rfl, rfl, fun k hk => absurd hk List.not_mem_nil⟩ rfl rfl rfl rfl rfl rfl rfl rfl⟩
    · rename_i first hlist
      have hst : st ≠ .empty := by
        rintro rfl
        have hnone : s.sendMsgList = none := h.sender.2.2.2
        exact absurd (hlist.symm.trans hnone) (by simp only [reduceCtorEq, not_false_eq_true])
      have hbatch : ∀ k ∈ st.live, s.updateRecord i ⟨true, none, data⟩ k = s.sendMsgs k :=
        fun k hk => updateRecord_ne (hne k (List.mem_append_left _ hk))
      split
      · rename_i hpending
        have hlinked := h.linked
        rw [show s.sendPendingList = none from hpending] at hlinked
        obtain rfl := hlinked.eq_nil
        refine ⟨st, [] ++ [i], h.append hst hlt hi ⟨rfl, rfl, rfl, rfl, hbatch⟩ ⟨rfl, rfl, rfl, rfl, hbatch⟩
          ⟨rfl, congrArg SendRecord.next updateRecord_self⟩ (fun j => ?_) (fun j hj => ?_) ?_ rfl rfl⟩
        · by_cases hji : j = i
          · simp only [hji, updateRecord_self, or_true]
          · simp only [updateRecord_ne hji, hji, or_false]
        · exact congrArg SendRecord.data (updateRecord_ne (hne j hj))
        · simp only [updateRecord_self]
      · rename_i first hpending
        have hlinked := h.linked
        rw [show s.sendPendingList = some first from hpending] at hlinked
        rcases List.eq_nil_or_concat pending with rfl | ⟨init, j, hinit⟩
        · exact absurd (linked_nil.mp hlinked) (by simp only [reduceCtorEq, not_false_eq_true])
        · rw [List.concat_eq_append] at hinit
          subst hinit
          have hj : j ≠ i := hne j (List.mem_append_right _ (List.mem_append_right _ List.mem_cons_self))
          have hend : last (State.next { s with
              sendMsgs := s.updateRecord i ⟨true, none, data⟩, sent := s.sent ++ [data] }) maxSendRecCnt first = j :=
            h.last_eq hpending fun k hk => congrArg SendRecord.next
              (updateRecord_ne (hne k (List.mem_append_right _ hk)))
          rw [hend]
          refine ⟨st, init ++ [j] ++ [i], h.linkLast data hst hlt hi ?_ ?_ (fun k hkj hki => ?_)
            (fun _ hsame => ⟨rfl, rfl, rfl, rfl, hsame⟩) (fun _ hsame => ⟨rfl, rfl, rfl, rfl, hsame⟩) rfl rfl rfl rfl⟩
          · simp only [updateRecord_self, updateRecord_ne hj]
          · simp only [updateRecord_ne hj.symm, updateRecord_self]
          · simp only [updateRecord_ne hkj, updateRecord_ne hki]

end Sending

/-! ### The done interrupt -/

section Done

variable {s s' : State} {st : Stage} {pending rest : List Nat} {i : Nat} {p : Option Nat}

theorem Inv.stage_done (h : Inv s st pending) (hdone : s.recvDone = true) : ∃ batch, st = .done batch := by
  have hsender := h.sender
  cases st with
  | done batch => exact ⟨batch, rfl⟩
  | walking rest =>
      obtain ⟨p, -, -, hnot, -⟩ := hsender
      exact absurd (hdone.symm.trans hnot) (by decide)
  | _ => exact absurd (hdone.symm.trans hsender.2.2.1) (by decide)

/-- What the place of the sender's handler says about the stage. -/
def Walks (s : State) (st : Stage) : Tx → Prop
  | .idle => True
  | .msg p => ∃ rest, st = .walking rest ∧ Linked s.next p rest
  | .callback i => ∃ rest, st = .freeing i rest
  | .signal => ∃ batch, st = .signal batch

theorem Inv.walks (h : Inv s st pending) : Walks s st s.tx := by
  have hsender := h.sender
  cases st with
  | walking rest =>
      obtain ⟨p, htx, -, -, -, hlinked⟩ := hsender
      rw [htx]
      exact ⟨rest, rfl, hlinked⟩
  | freeing i rest =>
      rw [hsender.1]
      exact ⟨rest, rfl⟩
  | signal batch =>
      rw [hsender.1]
      exact ⟨batch, rfl⟩
  | _ =>
      rw [hsender.1]
      trivial

theorem Inv.stage_walking (h : Inv s st pending) (htx : s.tx = .msg p) :
    ∃ rest, st = .walking rest ∧ Linked s.next p rest := by
  have hwalks := h.walks
  rw [htx] at hwalks
  exact hwalks

theorem Inv.stage_freeing (h : Inv s st pending) (htx : s.tx = .callback i) : ∃ rest, st = .freeing i rest := by
  have hwalks := h.walks
  rw [htx] at hwalks
  exact hwalks

theorem Inv.stage_signal (h : Inv s st pending) (htx : s.tx = .signal) : ∃ batch, st = .signal batch := by
  have hwalks := h.walks
  rw [htx] at hwalks
  exact hwalks

theorem Inv.txIrq (h : Inv s st pending) (hstep : s.txIrq = some s') : ∃ st' pending', Inv s' st' pending' := by
  rw [State.txIrq] at hstep
  split at hstep
  · rename_i hirq
    obtain rfl := Option.some.inj hstep
    obtain ⟨batch, rfl⟩ := h.stage_done hirq.1
    obtain ⟨-, hind, -, hne, hlinked⟩ := h.sender
    exact ⟨.walking batch, pending, h.linked, h.nodup, h.inUse, (fun hempty => by cases hempty), h.sent, h.received,
      ⟨_, rfl, hind, rfl, hlinked.ne_none hne, hlinked⟩, h.receiver⟩
  · cases hstep

theorem Inv.callback (h : Inv s st pending) (htx : s.tx = .msg (some i)) :
    ∃ st', Inv { s with called := s.called ++ [(s.sendMsgs i).data], tx := .callback i } st' pending := by
  obtain ⟨rest, rfl, hlinked⟩ := h.stage_walking htx
  obtain ⟨rest, rfl, hrest⟩ := hlinked.of_some
  obtain ⟨-, -, hind, hdone, hlist, -⟩ := h.sender
  refine ⟨.freeing i rest, h.linked, h.nodup, h.inUse, (fun hempty => by cases hempty), ?_, ?_,
    ⟨rfl, hind, hdone, hlist, hrest⟩, h.receiver⟩
  · have hsent : s.sent = s.called ++ (s.sendMsgs i).data :: s.payloads (rest ++ pending) := h.sent
    simp only [hsent, Stage.uncalled, List.append_assoc, List.singleton_append]
    rfl
  · have hreceived : s.received = s.called ++ (s.sendMsgs i).data :: s.payloads rest := h.received
    simp only [hreceived, Stage.taken, List.append_assoc, List.singleton_append]
    rfl

theorem Inv.free (h : Inv s st pending) (htx : s.tx = .callback i) :
    ∃ st', Inv { s with
      sendMsgs := s.updateRecord i { s.sendMsgs i with inUse := false }, tx := .msg (s.next i) } st' pending := by
  obtain ⟨rest, rfl⟩ := h.stage_freeing htx
  obtain ⟨-, hind, hdone, hlist, hlinked⟩ := h.sender
  obtain ⟨hi, hnodup⟩ := List.nodup_cons.mp h.nodup
  have hsame : ∀ j ∈ rest ++ pending,
      s.updateRecord i { s.sendMsgs i with inUse := false } j = s.sendMsgs j := fun j hj =>
    updateRecord_ne fun hji => hi (hji ▸ hj)
  have hnext : ∀ j, (s.updateRecord i { s.sendMsgs i with inUse := false } j).next = s.next j := by
    intro j
    by_cases hji : j = i
    · rw [hji, updateRecord_self]
      rfl
    · rw [updateRecord_ne hji]
      rfl
  refine ⟨.walking rest, ?_, hnodup, fun j => ?_, (fun hempty => by cases hempty), ?_, ?_,
    ⟨_, rfl, hind, hdone, hlist, ?_⟩, h.receiver⟩
  · exact h.linked.congr fun j _ => hnext j
  · by_cases hji : j = i
    · subst hji
      simp only [updateRecord_self, Bool.false_eq_true, and_false, false_iff]
      exact hi
    · simp only [updateRecord_ne hji]
      rw [h.inUse j]
      simp only [Stage.live, List.cons_append, List.mem_cons, hji, false_or]
  · have hpayloads : State.payloads { s with
        sendMsgs := s.updateRecord i { s.sendMsgs i with inUse := false }
        tx := .msg (s.next i) } _ = _ := payloads_congr hsame
    simp only [Stage.uncalled, Stage.live, hpayloads]
    exact h.sent
  · have hpayloads : State.payloads { s with
        sendMsgs := s.updateRecord i { s.sendMsgs i with inUse := false }
        tx := .msg (s.next i) } _ = _ :=
      payloads_congr fun j hj => hsame j (List.mem_append_left pending hj)
    simp only [Stage.taken, hpayloads]
    exact h.received
  · exact hlinked.congr fun j _ => hnext j

/-- At the end of the list the pending list, if there is one, is made the list to send. -/
theorem Inv.promote (h : Inv s st pending) (htx : s.tx = .msg none) {first : Nat}
    (hpending : s.sendPendingList = some first) :
    ∃ st', Inv { s with sendMsgList := some first, sendPendingList := none, tx := .signal } st' [] := by
  obtain ⟨rest, rfl, hlinked⟩ := h.stage_walking htx
  obtain rfl := hlinked.eq_nil
  obtain ⟨-, -, hind, hdone, -, -⟩ := h.sender
  have hlist := h.linked
  rw [hpending] at hlist
  have hne : pending ≠ [] := by
    rintro rfl
    exact absurd (linked_nil.mp hlist) (by simp only [reduceCtorEq, not_false_eq_true])
  refine ⟨.signal pending, rfl, ?_, fun j => ?_, (fun hempty => by cases hempty), ?_, h.received,
    ⟨rfl, hind, hdone, hne, hlist⟩, h.receiver⟩
  · simp only [Stage.live, List.append_nil]
    exact h.nodup
  · simp only [Stage.live, List.append_nil]
    exact h.inUse j
  · simp only [Stage.uncalled, Stage.live, List.append_nil]
    exact h.sent

theorem Inv.finish (h : Inv s st pending) (htx : s.tx = .msg none) (hpending : s.sendPendingList = none) :
    ∃ st', Inv { s with sendMsgList := none, tx := .idle } st' pending := by
  obtain ⟨rest, rfl, hlinked⟩ := h.stage_walking htx
  obtain rfl := hlinked.eq_nil
  obtain ⟨-, -, hind, hdone, -, -⟩ := h.sender
  have hnil := h.linked
  rw [hpending] at hnil
  exact ⟨.empty, h.linked, h.nodup, h.inUse, fun _ => hnil.eq_nil, h.sent, h.received, ⟨rfl, hind, hdone, rfl⟩,
    h.receiver⟩

theorem Inv.signal (h : Inv s st pending) (htx : s.tx = .signal) :
    ∃ st', Inv { s with sendInd := true, tx := .idle } st' pending := by
  obtain ⟨batch, rfl⟩ := h.stage_signal htx
  obtain ⟨-, -, hdone, hne, hlinked⟩ := h.sender
  exact ⟨.reading [] batch, h.linked, h.nodup, h.inUse, (fun hempty => by cases hempty), h.sent, h.received,
    ⟨rfl, rfl, hdone, hne, hlinked⟩, .inl ⟨rfl, h.receiver⟩⟩

theorem Inv.txGoOn (h : Inv s st pending) (hstep : s.txGoOn = some s') : ∃ st' pending', Inv s' st' pending' := by
  rw [State.txGoOn] at hstep
  split at hstep
  · cases hstep
  · obtain rfl := Option.some.inj hstep
    obtain ⟨st', h'⟩ := h.callback ‹_›
    exact ⟨st', pending, h'⟩
  · obtain rfl := Option.some.inj hstep
    obtain ⟨st', h'⟩ := h.free ‹_›
    exact ⟨st', pending, h'⟩
  · rename_i htx
    split at hstep
    · obtain rfl := Option.some.inj hstep
      obtain ⟨st', h'⟩ := h.promote htx ‹_›
      exact ⟨st', [], h'⟩
    · obtain rfl := Option.some.inj hstep
      obtain ⟨st', h'⟩ := h.finish htx ‹_›
      exact ⟨st', pending, h'⟩
  · obtain rfl := Option.some.inj hstep
    obtain ⟨st', h'⟩ := h.signal ‹_›
    exact ⟨st', pending, h'⟩

end Done

/-! ### Receiving -/

section Receiving

variable {needFlowCtrl : Bool} {s s' : State} {st : Stage} {pending got rest : List Nat} {m : Msg} {processed : Nat}

/-- While the receiver's handler is in the list, the list is the receiver's. -/
theorem Inv.stage_busy (h : Inv s st pending) (hidle : s.rx ≠ .idle) (hunmask : s.rx ≠ .unmask)
    (hclear : s.rx ≠ .clearHead) : ∃ got rest, st = .reading got rest ∧ Busy s got rest := by
  have hnot : ¬ Quiet s := by
    rintro ⟨-, -, ⟨hrx, -⟩ | hrx | hrx⟩
    · exact hidle hrx
    · exact hunmask hrx
    · exact hclear hrx
  have hreceiver := h.receiver
  cases st with
  | reading got rest => exact ⟨got, rest, rfl, hreceiver.resolve_left fun hquiet => hnot hquiet.2⟩
  | _ => exact absurd hreceiver hnot

theorem Inv.within (h : Inv s (.reading got rest) pending) {rx : Rx} {mask : Bool} {head : Option PendingHead}
    {current : List UInt8} {client : Client}
    (hbusy : Busy { s with
      rx := rx, sendIndMask := mask, recvPendingHead := head, current := current, client := client } got rest) :
    Inv { s with
      rx := rx, sendIndMask := mask, recvPendingHead := head, current := current, client := client }
      (.reading got rest) pending :=
  ⟨h.linked, h.nodup, h.inUse, h.none_pending, h.sent, h.received, h.sender, .inr hbusy⟩

theorem Inv.stage_ind (h : Inv s st pending) (hind : s.sendInd = true) : ∃ got rest, st = .reading got rest := by
  have hsender := h.sender
  cases st with
  | reading got rest => exact ⟨got, rest, rfl⟩
  | walking rest =>
      obtain ⟨p, -, hnot, -⟩ := hsender
      exact absurd (hind.symm.trans hnot) (by decide)
  | _ => exact absurd (hind.symm.trans hsender.2.1) (by decide)

theorem Inv.rxIrq (h : Inv s st pending) (hmasked : Masked needFlowCtrl s) (hstep : s.rxIrq = some s') :
    Inv s' st pending := by
  rw [State.rxIrq] at hstep
  split at hstep
  · rename_i hirq
    obtain ⟨-, hind, hmask, hrx⟩ := hirq
    obtain rfl := Option.some.inj hstep
    obtain ⟨got, rest, rfl⟩ := h.stage_ind hind
    have hclient : s.client = .idle := by
      by_contra hne
      have hmask' := hmasked.masked (hmasked.controlled hne) (.inr hne)
      exact absurd (hmask'.symm.trans hmask) (by decide)
    refine h.within ?_
    rcases h.receiver with ⟨hgot, hcurrent, -, hquiet⟩ | hbusy
    · have hhead := (hquiet.resolve_right (by rw [hrx]; decide)).2
      exact .inr ⟨hhead, hcurrent, hgot⟩
    · simp only [Busy, hrx] at hbusy
      refine hbusy.imp id fun howes => ?_
      exact absurd (hclient.symm.trans howes.2.2.2) (by decide)
  · cases hstep

/-- A message the handler is at is the first of those before it, or what is left of it. -/
theorem Busy.at_msg (h : Busy s got rest) (hrx : s.rx = .msg (some m)) : ∃ i tail, rest = i :: tail ∧
    Linked s.next (s.msgNext m) tail ∧ (s.sendMsgs i).data = s.current ++ s.msgData m ∧
    ∀ j, m = .record j → j = i := by
  cases m with
  | pendingHead =>
      simp only [Busy, hrx] at h
      obtain ⟨head, i, tail, hhead, rfl, hlinked, hdata⟩ := h
      refine ⟨i, tail, rfl, ?_, ?_, fun j hj => by cases hj⟩
      · simp only [State.msgNext, hhead, Option.bind_some]
        exact hlinked
      · simp only [State.msgData, hhead, Option.elim_some]
        exact hdata
  | record i =>
      simp only [Busy, hrx] at h
      obtain ⟨hcurrent, hlinked⟩ := h
      obtain ⟨tail, rfl, htail⟩ := hlinked.of_some
      refine ⟨i, tail, rfl, htail, ?_, fun j hj => (Msg.record.inj hj).symm⟩
      rw [hcurrent, List.nil_append]
      rfl

theorem Inv.suspended (h : Inv s st pending) (hrx : s.rx = .suspended) {p : Option Msg}
    (hp : p = if s.recvPendingHead.isSome then some .pendingHead else s.sendMsgList.map .record) :
    Inv { s with rx := .msg p } st pending := by
  obtain ⟨got, rest, rfl, hbusy⟩ :=
    h.stage_busy (by rw [hrx]; decide) (by rw [hrx]; decide) (by rw [hrx]; decide)
  refine h.within ?_
  simp only [Busy, hrx] at hbusy
  rcases hbusy with hremainder | ⟨hhead, hcurrent, rfl⟩
  · have hremainder' := hremainder
    obtain ⟨head, -, -, hhead, -⟩ := hremainder'
    rw [hhead, Option.isSome_some, if_pos rfl] at hp
    subst hp
    exact hremainder
  · obtain ⟨-, -, -, hne, hlinked⟩ := h.sender
    rw [hhead, Option.isSome_none, if_neg (by decide)] at hp
    subst hp
    cases hlist : s.sendMsgList with
    | none => exact absurd hlist (hlinked.ne_none hne)
    | some i =>
        rw [hlist] at hlinked
        exact ⟨hcurrent, hlinked⟩

theorem Inv.takePart (h : Inv s st pending) (hrx : s.rx = .msg (some m)) :
    Inv { s with
      current := s.current ++ (s.msgData m).take processed
      recvPendingHead := some ⟨s.msgNext m, (s.msgData m).drop processed⟩
      rx := .idle } st pending := by
  obtain ⟨got, rest, rfl, hbusy⟩ := h.stage_busy (by rw [hrx]; intro h; cases h)
    (by rw [hrx]; intro h; cases h) (by rw [hrx]; intro h; cases h)
  obtain ⟨i, tail, rfl, hlinked, hdata, -⟩ := hbusy.at_msg hrx
  refine h.within (Or.inl ⟨_, i, tail, rfl, rfl, hlinked, ?_⟩)
  rw [List.append_assoc, List.take_append_drop]
  exact hdata

theorem Inv.takeWhole (h : Inv s st pending) (hrx : s.rx = .msg (some m)) :
    ∃ st', Inv { s with
      received := s.received ++ [s.current ++ s.msgData m]
      current := []
      rx := .next m } st' pending := by
  obtain ⟨got, rest, rfl, hbusy⟩ := h.stage_busy (by rw [hrx]; intro h; cases h)
    (by rw [hrx]; intro h; cases h) (by rw [hrx]; intro h; cases h)
  obtain ⟨i, tail, rfl, hlinked, hdata, hrecord⟩ := hbusy.at_msg hrx
  have happend : got ++ [i] ++ tail = got ++ i :: tail := List.append_cons got i tail |>.symm
  obtain ⟨htx, hind, hdone, hne, hlist⟩ := h.sender
  refine ⟨.reading (got ++ [i]) tail, h.linked, ?_, fun j => ?_, (fun hempty => by cases hempty), ?_, ?_,
    ⟨htx, hind, hdone, ?_, ?_⟩, .inr ⟨rfl, hlinked, fun j hj => ?_⟩⟩
  · simp only [Stage.live, happend]
    exact h.nodup
  · simp only [Stage.live, happend]
    exact h.inUse j
  · simp only [Stage.uncalled, Stage.live, happend]
    exact h.sent
  · have hreceived : s.received = s.called ++ s.payloads got := h.received
    calc s.received ++ [s.current ++ s.msgData m]
        = s.called ++ (s.payloads got ++ s.payloads [i]) := by
          rw [hreceived, ← hdata, List.append_assoc]
          rfl
      _ = s.called ++ s.payloads (got ++ [i]) := by rw [payloads_append]
  · rw [happend]
    exact hne
  · rw [happend]
    exact hlist
  · exact List.mem_append_right got (List.mem_singleton.mpr (hrecord j hj))

theorem Inv.next (h : Inv s st pending) (hrx : s.rx = .next m) :
    Inv { s with rx := .msg ((s.msgNext m).map .record) } st pending := by
  obtain ⟨got, rest, rfl, hbusy⟩ := h.stage_busy (by rw [hrx]; intro h; cases h)
    (by rw [hrx]; intro h; cases h) (by rw [hrx]; intro h; cases h)
  refine h.within ?_
  simp only [Busy, hrx] at hbusy
  obtain ⟨hcurrent, hlinked, -⟩ := hbusy
  cases hnext : s.msgNext m with
  | none =>
      rw [hnext] at hlinked
      exact ⟨hcurrent, hlinked.eq_nil⟩
  | some i =>
      rw [hnext] at hlinked
      exact ⟨hcurrent, hlinked⟩

/-- The list is done: it is the sender's again. -/
theorem Inv.done (h : Inv s (.reading got []) pending) {rx : Rx} {client : Client}
    (hquiet : Quiet { s with sendInd := false, recvDone := true, rx := rx, client := client }) :
    Inv { s with sendInd := false, recvDone := true, rx := rx, client := client } (.done got) pending := by
  have hnil : got ++ [] = got := List.append_nil got
  obtain ⟨htx, -, -, hne, hlinked⟩ := h.sender
  refine ⟨h.linked, ?_, fun j => ?_, (fun hempty => by cases hempty), ?_, h.received, ⟨htx, rfl, rfl, ?_, ?_⟩, hquiet⟩
  · have hnodup := h.nodup
    simp only [Stage.live, hnil] at hnodup
    exact hnodup
  · have hinUse := h.inUse j
    simp only [Stage.live, hnil] at hinUse
    exact hinUse
  · have hsent := h.sent
    simp only [Stage.uncalled, Stage.live, hnil] at hsent
    exact hsent
  · rw [hnil] at hne
    exact hne
  · rw [hnil] at hlinked
    exact hlinked

/-- What does not concern the list leaves a receiver that has nothing of it so. -/
theorem Inv.quiet (h : Inv s st pending) {rx : Rx} {mask : Bool} {head : Option PendingHead} {client : Client}
    (hquiet : Quiet s → Quiet { s with rx := rx, sendIndMask := mask, recvPendingHead := head, client := client })
    (hbusy : ∀ got rest, ¬ Busy s got rest) :
    Inv { s with rx := rx, sendIndMask := mask, recvPendingHead := head, client := client } st pending := by
  refine ⟨h.linked, h.nodup, h.inUse, h.none_pending, h.sent, h.received, h.sender, ?_⟩
  have hreceiver := h.receiver
  cases st with
  | reading got rest => exact .inl ((hreceiver.resolve_right (hbusy got rest)).imp_right hquiet)
  | _ => exact hquiet hreceiver

theorem Inv.clearHead (h : Inv s st pending) (hrx : s.rx = .clearHead) :
    Inv { s with recvPendingHead := none, rx := .idle } st pending := by
  by_cases howes : s.client = .owes
  · have hnot : ¬ Quiet s := fun hquiet => hquiet.2.1 howes
    have hreceiver := h.receiver
    cases st with
    | reading got rest =>
        refine h.within ?_
        have hbusy := hreceiver.resolve_left fun hquiet => hnot hquiet.2
        simp only [Busy, hrx] at hbusy
        exact .inr ⟨rfl, hbusy⟩
    | _ => exact absurd hreceiver hnot
  · refine h.quiet (fun hquiet => ⟨hquiet.1, hquiet.2.1, .inl ⟨rfl, rfl⟩⟩) (fun got rest hbusy => ?_)
    simp only [Busy, hrx] at hbusy
    exact howes hbusy.2.2

theorem Inv.rxGoOn (h : Inv s st pending) (hmasked : Masked needFlowCtrl s)
    (hstep : s.rxGoOn needFlowCtrl processed = some s') : ∃ st' pending', Inv s' st' pending' := by
  rw [State.rxGoOn] at hstep
  split at hstep
  · cases hstep
  · rename_i hrx
    split at hstep
    · rename_i hhead
      obtain rfl := Option.some.inj hstep
      exact ⟨st, pending, h.suspended hrx (by rw [if_pos hhead])⟩
    · rename_i hhead
      obtain rfl := Option.some.inj hstep
      exact ⟨st, pending, h.suspended hrx (by rw [if_neg hhead])⟩
  · rename_i m hrx
    split at hstep
    · obtain rfl := Option.some.inj hstep
      exact ⟨st, pending, h.takePart hrx⟩
    · obtain rfl := Option.some.inj hstep
      obtain ⟨st', h'⟩ := h.takeWhole hrx
      exact ⟨st', pending, h'⟩
  · rename_i m hrx
    obtain rfl := Option.some.inj hstep
    exact ⟨st, pending, h.next hrx⟩
  · rename_i hrx
    obtain ⟨got, rest, rfl, hbusy⟩ :=
      h.stage_busy (by rw [hrx]; decide) (by rw [hrx]; decide) (by rw [hrx]; decide)
    simp only [Busy, hrx] at hbusy
    obtain ⟨hcurrent, rfl⟩ := hbusy
    split at hstep
    · obtain rfl := Option.some.inj hstep
      exact ⟨.reading got [], pending, h.within ⟨hcurrent, rfl, rfl⟩⟩
    · obtain rfl := Option.some.inj hstep
      have hclient := hmasked.client_idle (by rw [hrx]; decide) (by rw [hrx]; decide)
      exact ⟨.done got, pending, h.done ⟨hcurrent, by rw [hclient]; decide, .inr (.inl rfl)⟩⟩
  · rename_i hrx
    obtain rfl := Option.some.inj hstep
    refine ⟨st, pending, h.quiet (fun hquiet => ⟨hquiet.1, hquiet.2.1, .inr (.inr rfl)⟩) (fun got rest hbusy => ?_)⟩
    simp only [Busy, hrx] at hbusy
  · rename_i hrx
    obtain rfl := Option.some.inj hstep
    exact ⟨st, pending, h.clearHead hrx⟩

theorem Inv.rxDone (h : Inv s st pending) (hmasked : Masked needFlowCtrl s) (hstep : s.rxDone = some s') :
    ∃ st', Inv s' st' pending := by
  rw [State.rxDone] at hstep
  split at hstep
  · rename_i hrx
    have hhead : s.client ≠ .idle → s.recvPendingHead = none := fun hne =>
      ((hmasked.client hne).resolve_right (by rw [hrx]; decide)).2
    split at hstep
    · cases hstep
    · rename_i hclient
      obtain rfl := Option.some.inj hstep
      have hnone := hhead (by rw [hclient]; decide)
      have hnot : ¬ Quiet s := fun hquiet => hquiet.2.1 hclient
      have hreceiver := h.receiver
      cases st with
      | reading got rest =>
          have hbusy := hreceiver.resolve_left fun hquiet => hnot hquiet.2
          simp only [Busy, hrx] at hbusy
          rcases hbusy with ⟨head, -, -, hsome, -⟩ | ⟨-, hcurrent, rfl, -⟩
          · exact absurd (hnone.symm.trans hsome) (by simp only [reduceCtorEq, not_false_eq_true])
          · exact ⟨.done got, h.done ⟨hcurrent, (fun howes => by cases howes), .inl ⟨hrx, hnone⟩⟩⟩
      | _ => exact absurd hreceiver hnot
    · rename_i hclient
      obtain rfl := Option.some.inj hstep
      have hnone := hhead (by rw [hclient]; decide)
      refine ⟨st, h.quiet (fun hquiet => ⟨hquiet.1, (fun howes => by cases howes), hquiet.2.2⟩)
        (fun got rest hbusy => ?_)⟩
      simp only [Busy, hrx] at hbusy
      rcases hbusy with ⟨head, -, -, hsome, -⟩ | howes
      · exact absurd (hnone.symm.trans hsome) (by simp only [reduceCtorEq, not_false_eq_true])
      · exact absurd (hclient.symm.trans howes.2.2.2) (by decide)
  · cases hstep

end Receiving

end Best1307.RmtIpc
