import Best1307.RmtIpc.Handover

/-!
# Messages are delivered once and in order

What the stage says of every state a channel reaches: the bytes consumed are the first of those sent, each message
has its callback in its turn and after it was taken whole, the records in use are those of the messages without one,
and what the receiver may still follow is in use. A weight that every step of the interrupt handlers lowers shows
that all messages sent get their callback, provided the receiving client takes what it is given.
-/

namespace Best1307.RmtIpc

open LinkedList

variable {needFlowCtrl : Bool} {s s' : State} {st : Stage} {pending got rest : List Nat}

structure Sound (needFlowCtrl : Bool) (s : State) : Prop where
  masked : Masked needFlowCtrl s
  staged : ∃ st pending, Inv s st pending

theorem sound_opened : Sound needFlowCtrl .opened := ⟨masked_opened, .empty, [], inv_opened⟩

theorem Sound.step {e : Event} (h : Sound needFlowCtrl s) (hstep : RmtIpc.step needFlowCtrl s e = some s') :
    Sound needFlowCtrl s' := by
  refine ⟨h.masked.step hstep, ?_⟩
  obtain ⟨st, pending, hinv⟩ := h.staged
  cases e with
  | send data =>
      simp only [RmtIpc.step] at hstep
      split at hstep
      · rename_i htx
        obtain rfl := Option.some.inj hstep
        exact hinv.send fun p hp => absurd (htx.symm.trans hp) (by simp only [reduceCtorEq, not_false_eq_true])
      · rename_i htx
        obtain rfl := Option.some.inj hstep
        exact hinv.send fun p hp => absurd (htx.symm.trans hp) (by simp only [reduceCtorEq, not_false_eq_true])
      · cases hstep
      · cases hstep
  | txIrq => exact hinv.txIrq hstep
  | txGoOn => exact hinv.txGoOn hstep
  | rxIrq => exact ⟨st, pending, hinv.rxIrq h.masked hstep⟩
  | rxGoOn processed => exact hinv.rxGoOn h.masked hstep
  | rxDone =>
      obtain ⟨st', h'⟩ := hinv.rxDone h.masked hstep
      exact ⟨st', pending, h'⟩
  | startRecv =>
      simp only [RmtIpc.step] at hstep
      split at hstep
      · cases hstep
      · obtain rfl := Option.some.inj hstep
        exact ⟨st, pending, hinv.linked, hinv.nodup, hinv.inUse, hinv.none_pending, hinv.sent, hinv.received,
          hinv.sender, hinv.receiver⟩
  | stopRecv =>
      obtain rfl := Option.some.inj hstep
      exact ⟨st, pending, hinv.linked, hinv.nodup, hinv.inUse, hinv.none_pending, hinv.sent, hinv.received,
        hinv.sender, hinv.receiver⟩

theorem Sound.run {events : List Event} (hrun : Best1307.run (RmtIpc.step needFlowCtrl) .opened events = some s) :
    Sound needFlowCtrl s := run_invariant (Sound needFlowCtrl) (fun _ _ _ h hstep => h.step hstep) sound_opened hrun

/-! ### Order -/

theorem Inv.called_prefix (h : Inv s st pending) : s.called <+: s.received := by
  rw [h.received]
  exact List.prefix_append _ _

/-- What was taken of the first of the records before the receiver is the beginning of what they hold. -/
theorem Inv.current_prefix (h : Inv s (.reading got rest) pending) : s.current <+: (s.payloads rest).flatten := by
  have hnil : s.current = [] → s.current <+: (s.payloads rest).flatten := by
    intro hcurrent
    rw [hcurrent]
    exact List.nil_prefix
  have hremainder : Remainder s rest → s.current <+: (s.payloads rest).flatten := by
    rintro ⟨head, i, tail, -, rfl, -, hdata⟩
    refine ⟨head.data ++ (s.payloads tail).flatten, ?_⟩
    rw [← List.append_assoc, ← hdata]
    rfl
  rcases h.receiver with ⟨-, hquiet⟩ | hbusy
  · exact hnil hquiet.1
  · cases hrx : s.rx with
    | idle =>
        simp only [Busy, hrx] at hbusy
        exact hbusy.elim hremainder fun howes => hnil howes.2.1
    | suspended =>
        simp only [Busy, hrx] at hbusy
        exact hbusy.elim hremainder fun hnew => hnil hnew.2.1
    | msg p =>
        cases p with
        | none =>
            simp only [Busy, hrx] at hbusy
            exact hnil hbusy.1
        | some m =>
            obtain ⟨i, tail, rfl, -, hdata, -⟩ := hbusy.at_msg hrx
            refine ⟨s.msgData m ++ (s.payloads tail).flatten, ?_⟩
            rw [← List.append_assoc, ← hdata]
            rfl
    | next m =>
        simp only [Busy, hrx] at hbusy
        exact hnil hbusy.1
    | unmask =>
        simp only [Busy, hrx] at hbusy
    | clearHead =>
        simp only [Busy, hrx] at hbusy
        exact hnil hbusy.1

theorem Inv.received_append (h : Inv s st pending) :
    ∃ ahead, s.sent = s.received ++ ahead ∧ s.current <+: ahead.flatten := by
  have hquiet : Quiet s → ∀ ahead : List (List UInt8), s.current <+: ahead.flatten := by
    intro hquiet ahead
    rw [hquiet.1]
    exact List.nil_prefix
  have hreceiver := h.receiver
  have happend : ∀ ahead, st.uncalled = st.taken ++ ahead →
      s.sent = s.received ++ s.payloads (ahead ++ pending) := by
    intro ahead heq
    rw [h.sent, h.received, heq, List.append_assoc, List.append_assoc, payloads_append]
  cases st with
  | empty => exact ⟨_, happend [] rfl, hquiet hreceiver _⟩
  | reading got rest =>
      refine ⟨_, happend rest rfl, ?_⟩
      rw [payloads_append, List.flatten_append]
      exact h.current_prefix.trans (List.prefix_append _ _)
  | done batch => exact ⟨_, happend [] (List.append_nil batch).symm, hquiet hreceiver _⟩
  | walking rest => exact ⟨_, happend [] (List.append_nil rest).symm, hquiet hreceiver _⟩
  | freeing i rest => exact ⟨_, happend [] (List.append_nil rest).symm, hquiet hreceiver _⟩
  | signal batch => exact ⟨_, happend batch rfl, hquiet hreceiver _⟩

theorem Inv.consumed_prefix (h : Inv s st pending) : s.consumed <+: s.sent.flatten := by
  obtain ⟨ahead, hsent, hcurrent⟩ := h.received_append
  rw [hsent, List.flatten_append, State.consumed]
  exact (List.prefix_append_right_inj _).mpr hcurrent

/-! ### Records -/

def State.inUseCnt (s : State) : Nat := ((List.range maxSendRecCnt).filter fun i => (s.sendMsgs i).inUse).length

/-- Whether the sender's client is in the callback for a record. -/
def State.inCallback (s : State) : Nat :=
  match s.tx with
  | .callback _ => 1
  | _ => 0

theorem Inv.inUseCnt_eq (h : Inv s st pending) : s.called.length + s.inUseCnt = s.sent.length + s.inCallback := by
  have hperm : ((List.range maxSendRecCnt).filter fun i => (s.sendMsgs i).inUse).Perm (st.live ++ pending) := by
    refine (List.perm_ext_iff_of_nodup (List.nodup_range.filter _) h.nodup).mpr fun i => ?_
    rw [← h.inUse i, List.mem_filter, List.mem_range]
  have hcnt : s.inUseCnt = (st.live ++ pending).length := hperm.length_eq
  have hwalks := h.walks
  have hsender := h.sender
  rw [hcnt, h.sent, State.payloads, List.length_append, List.length_append, List.length_map, List.length_append,
    State.inCallback]
  cases st with
  | freeing i rest =>
      rw [hsender.1]
      simp only [Stage.live, Stage.uncalled, List.length_cons]
      omega
  | walking rest =>
      obtain ⟨p, htx, -⟩ := hsender
      rw [htx]
      rfl
  | _ =>
      rw [hsender.1]
      rfl

/-- The pointer that the receiver's handler follows when it goes on. -/
def State.recvPtr (s : State) : Option Nat :=
  match s.rx with
  | .idle | .suspended => s.msgNext .pendingHead
  | .msg (some .pendingHead) | .next .pendingHead => s.msgNext .pendingHead
  | .msg (some (.record i)) | .next (.record i) => some i
  | .msg none | .unmask | .clearHead => none

/-- The receiver can still read the record: it follows its own pointer, or reads the list it has been told of. -/
def State.Readable (s : State) (i : Nat) : Prop :=
  Reaches s.next s.recvPtr i ∨ s.sendInd = true ∧ Reaches s.next s.sendMsgList i

theorem Remainder.reaches {i : Nat} (h : Remainder s rest) (hi : Reaches s.next (s.msgNext .pendingHead) i) :
    i ∈ rest := by
  obtain ⟨head, j, tail, hhead, rfl, hlinked, -⟩ := h
  simp only [State.msgNext, hhead, Option.bind_some] at hi
  exact List.mem_cons_of_mem j (hlinked.mem_of_reaches hi)

theorem not_reaches_none {next : Nat → Option Nat} {i : Nat} : ¬ Reaches next none i := fun h => nomatch h

theorem reaches_pending {p : Prop} {i : Nat} (h : Remainder s rest ∨ s.recvPendingHead = none ∧ p)
    (hi : Reaches s.next (s.msgNext .pendingHead) i) : i ∈ rest := by
  rcases h with hremainder | ⟨hhead, -⟩
  · exact hremainder.reaches hi
  · simp only [State.msgNext, hhead, Option.bind_none] at hi
    exact absurd hi not_reaches_none

theorem Busy.reaches {i : Nat} (h : Busy s got rest) (hi : Reaches s.next s.recvPtr i) : i ∈ got ++ rest := by
  cases hrx : s.rx with
  | idle =>
      simp only [State.recvPtr, hrx] at hi
      simp only [Busy, hrx] at h
      exact List.mem_append_right got (reaches_pending h hi)
  | suspended =>
      simp only [State.recvPtr, hrx] at hi
      simp only [Busy, hrx] at h
      exact List.mem_append_right got (reaches_pending h hi)
  | msg p =>
      cases p with
      | none =>
          simp only [State.recvPtr, hrx] at hi
          exact absurd hi not_reaches_none
      | some m =>
          obtain ⟨j, tail, rfl, hlinked, -, hrecord⟩ := h.at_msg hrx
          refine List.mem_append_right got ?_
          cases m with
          | pendingHead =>
              simp only [State.recvPtr, hrx] at hi
              exact List.mem_cons_of_mem j (hlinked.mem_of_reaches hi)
          | record k =>
              simp only [State.recvPtr, hrx] at hi
              obtain rfl := hrecord k rfl
              exact Linked.mem_of_reaches ⟨rfl, hlinked⟩ hi
  | next m =>
      simp only [Busy, hrx] at h
      obtain ⟨-, hlinked, hmem⟩ := h
      cases m with
      | pendingHead =>
          simp only [State.recvPtr, hrx] at hi
          exact List.mem_append_right got (hlinked.mem_of_reaches hi)
      | record k =>
          simp only [State.recvPtr, hrx] at hi
          have hcons : i ∈ k :: rest := Linked.mem_of_reaches ⟨rfl, hlinked⟩ hi
          rcases List.mem_cons.mp hcons with rfl | hrest
          · exact List.mem_append_left rest (hmem _ rfl)
          · exact List.mem_append_right got hrest
  | unmask =>
      simp only [Busy, hrx] at h
  | clearHead =>
      simp only [State.recvPtr, hrx] at hi
      exact absurd hi not_reaches_none

theorem Quiet.not_reaches {i : Nat} (h : Quiet s) : ¬ Reaches s.next s.recvPtr i := by
  intro hi
  rcases h.2.2 with ⟨hrx, hhead⟩ | hrx | hrx
  · simp only [State.recvPtr, hrx, State.msgNext, hhead, Option.bind_none] at hi
    exact not_reaches_none hi
  · simp only [State.recvPtr, hrx] at hi
    exact not_reaches_none hi
  · simp only [State.recvPtr, hrx] at hi
    exact not_reaches_none hi

theorem Inv.readable {i : Nat} (h : Inv s st pending) (hi : s.Readable i) :
    i < maxSendRecCnt ∧ (s.sendMsgs i).inUse = true := by
  rw [h.inUse i]
  refine List.mem_append_left pending ?_
  rcases hi with hi | ⟨hind, hi⟩
  · have hreceiver := h.receiver
    cases st with
    | reading got rest =>
        rcases hreceiver with ⟨-, hquiet⟩ | hbusy
        · exact absurd hi hquiet.not_reaches
        · exact hbusy.reaches hi
    | _ => exact absurd hi (Quiet.not_reaches hreceiver)
  · obtain ⟨got, rest, rfl⟩ := h.stage_ind hind
    exact h.sender.2.2.2.2.mem_of_reaches hi

/-! ### Every message gets its callback -/

/-- The steps of the interrupt handlers, with a receiving client that takes what it is given, goes on with what it
left and reports the lists it has to. -/
def Productive (s : State) : Event → Prop
  | .send _ | .stopRecv => False
  | .txIrq | .txGoOn | .rxIrq | .rxDone => True
  | .rxGoOn processed => ∀ m, s.rx = .msg (some m) → (s.msgData m).length ≤ processed
  | .startRecv => s.rx = .idle ∧ (s.rxEnabled = false ∨ s.recvPendingHead.isSome = true ∧ s.sendIndMask = false)

def Tx.weight : Tx → Nat
  | .idle => 0
  | .msg (some _) => 10
  | .callback _ => 90
  | .msg none => 80
  | .signal => 70

def Rx.weight : Rx → Nat
  | .idle => 0
  | .suspended => 20
  | .msg _ => 15
  | .next _ => 18
  | .unmask => 40
  | .clearHead => 5

def Client.weight : Client → Nat
  | .idle => 0
  | .owes => 8
  | .unmask => 35

/-- Whether the receiver waits for its client to go on with a message. -/
def State.waits (s : State) : Bool := s.rx = .idle ∧ s.recvPendingHead.isSome = true ∧ s.sendIndMask = false

def State.rank (s : State) : Nat :=
  200 * (s.sent.length - s.called.length) + 100 * (s.sent.length - s.received.length) + s.tx.weight + s.rx.weight +
    s.client.weight + 60 * s.sendInd.toNat + 20 * s.recvDone.toNat + 30 * s.sendIndMask.toNat +
    50 * (!s.rxEnabled).toNat + 40 * s.waits.toNat

theorem Inv.length_le (h : Inv s st pending) :
    s.called.length ≤ s.received.length ∧ s.received.length ≤ s.sent.length := by
  obtain ⟨ahead, hsent, -⟩ := h.received_append
  refine ⟨h.called_prefix.length_le, ?_⟩
  rw [hsent, List.length_append]
  exact Nat.le_add_right _ _

theorem Inv.txGoOn_rank (h : Inv s st pending) (hstep : s.txGoOn = some s') : s'.rank < s.rank := by
  have hstep' := hstep
  rw [State.txGoOn] at hstep'
  split at hstep'
  · cases hstep'
  · rename_i i htx
    obtain ⟨st', pending', h'⟩ := h.txGoOn hstep
    obtain rfl := Option.some.inj hstep'
    have hlen := h'.length_le
    simp only [List.length_append, List.length_singleton] at hlen
    simp only [State.rank, State.waits, htx, Tx.weight, List.length_append, List.length_singleton]
    omega
  · rename_i i htx
    obtain rfl := Option.some.inj hstep'
    have hnext : (Tx.msg (s.next i)).weight < 90 := by
      cases s.next i <;> simp only [Tx.weight] <;> omega
    simp only [State.rank, State.waits, htx]
    have hcallback : (Tx.callback i).weight = 90 := rfl
    omega
  · rename_i htx
    split at hstep'
    · obtain rfl := Option.some.inj hstep'
      simp only [State.rank, State.waits, htx, Tx.weight]
      omega
    · obtain rfl := Option.some.inj hstep'
      simp only [State.rank, State.waits, htx, Tx.weight]
      omega
  · rename_i htx
    obtain rfl := Option.some.inj hstep'
    obtain ⟨batch, rfl⟩ := h.stage_signal htx
    have hind := h.sender.2.1
    simp only [State.rank, State.waits, htx, hind, Tx.weight, Bool.toNat_true, Bool.toNat_false]
    omega

theorem Inv.txIrq_rank (h : Inv s st pending) (hstep : s.txIrq = some s') : s'.rank < s.rank := by
  rw [State.txIrq] at hstep
  split at hstep
  · rename_i hirq
    obtain rfl := Option.some.inj hstep
    obtain ⟨batch, rfl⟩ := h.stage_done hirq.1
    obtain ⟨htx, -, hdone, hne, hlinked⟩ := h.sender
    cases hlist : s.sendMsgList with
    | none => exact absurd hlist (hlinked.ne_none hne)
    | some i =>
        simp only [State.rank, State.waits, htx, hdone, Tx.weight, Bool.toNat_true, Bool.toNat_false]
        omega
  · cases hstep

/-- The receiver's handler lowers the rank, if its client takes messages whole. -/
theorem Inv.rxGoOn_rank {processed : Nat} (h : Inv s st pending) (hmasked : Masked needFlowCtrl s)
    (hwhole : Productive s (.rxGoOn processed)) (hstep : s.rxGoOn needFlowCtrl processed = some s') :
    s'.rank < s.rank := by
  have hstep' := hstep
  have hwaits : ∀ t : State, t.rx ≠ .idle → t.waits = false := fun t hrx => decide_eq_false fun hwaits => hrx hwaits.1
  rw [State.rxGoOn] at hstep'
  split at hstep'
  · cases hstep'
  · rename_i hrx
    split at hstep'
    all_goals
      obtain rfl := Option.some.inj hstep'
      rw [State.rank, State.rank, hwaits _ (by intro h; cases h), hwaits s (by rw [hrx]; decide)]
      simp only [hrx, Rx.weight]
      omega
  · rename_i m hrx
    split at hstep'
    · exact absurd (hwhole m hrx) (by omega)
    · obtain ⟨st', pending', h'⟩ := h.rxGoOn hmasked hstep
      obtain rfl := Option.some.inj hstep'
      have hlen := h'.length_le.2
      simp only [List.length_append, List.length_singleton] at hlen
      rw [State.rank, State.rank, hwaits _ (by intro h; cases h),
        hwaits s (by rw [hrx]; intro h; cases h)]
      simp only [hrx, Rx.weight, List.length_append, List.length_singleton]
      omega
  · rename_i m hrx
    obtain rfl := Option.some.inj hstep'
    rw [State.rank, State.rank, hwaits _ (by intro h; cases h),
      hwaits s (by rw [hrx]; intro h; cases h)]
    simp only [hrx, Rx.weight]
    omega
  · rename_i hrx
    have hclient := hmasked.client_idle (by rw [hrx]; decide) (by rw [hrx]; decide)
    obtain ⟨got, rest, rfl, -⟩ := h.stage_busy (by rw [hrx]; decide) (by rw [hrx]; decide) (by rw [hrx]; decide)
    obtain ⟨-, hind, hdone, -, -⟩ := h.sender
    split at hstep'
    · obtain rfl := Option.some.inj hstep'
      rw [State.rank, State.rank, hwaits _ (by intro h; cases h), hwaits s (by rw [hrx]; decide)]
      simp only [hrx, hclient, Rx.weight, Client.weight]
      omega
    · obtain rfl := Option.some.inj hstep'
      rw [State.rank, State.rank, hwaits _ (by intro h; cases h), hwaits s (by rw [hrx]; decide)]
      simp only [hrx, hind, hdone, Rx.weight, Bool.toNat_true, Bool.toNat_false]
      omega
  · rename_i hrx
    obtain rfl := Option.some.inj hstep'
    rw [State.rank, State.rank, hwaits _ (by intro h; cases h), hwaits s (by rw [hrx]; decide)]
    simp only [hrx, Rx.weight, Bool.toNat_true]
    omega
  · rename_i hrx
    obtain rfl := Option.some.inj hstep'
    have hnone : State.waits { s with recvPendingHead := none, rx := .idle } = false := by
      simp only [State.waits, Option.isSome_none, Bool.false_eq_true, false_and, and_false, decide_false]
    rw [State.rank, State.rank, hnone, hwaits s (by rw [hrx]; decide)]
    simp only [hrx, Rx.weight]
    omega

theorem rxIrq_rank (hstep : s.rxIrq = some s') : s'.rank < s.rank := by
  rw [State.rxIrq] at hstep
  split at hstep
  · rename_i hirq
    obtain ⟨-, -, hmask, hrx⟩ := hirq
    obtain rfl := Option.some.inj hstep
    simp only [State.rank, State.waits, hmask, hrx, Rx.weight, Bool.toNat_true, Bool.toNat_false, reduceCtorEq,
      false_and, and_false, decide_false]
    omega
  · cases hstep

theorem Inv.rxDone_rank (h : Inv s st pending) (hstep : s.rxDone = some s') :
    s'.rank < s.rank := by
  rw [State.rxDone] at hstep
  split at hstep
  · rename_i hrx
    split at hstep
    · cases hstep
    · rename_i hclient
      obtain rfl := Option.some.inj hstep
      have hnot : ¬ Quiet s := fun hquiet => hquiet.2.1 hclient
      have hreceiver := h.receiver
      have hwaits : ∀ ind done client, State.waits { s with sendInd := ind, recvDone := done, client := client } =
        s.waits := fun _ _ _ => rfl
      cases st with
      | reading got rest =>
          obtain ⟨-, hind, hdone, -, -⟩ := h.sender
          simp only [State.rank, hwaits, hclient, hind, hdone, Client.weight, Bool.toNat_true, Bool.toNat_false]
          omega
      | _ => exact absurd hreceiver hnot
    · rename_i hclient
      obtain rfl := Option.some.inj hstep
      simp only [State.rank, State.waits, hclient, Client.weight, Bool.toNat_true, Bool.true_eq_false, and_false,
        decide_false, Bool.toNat_false]
      omega
  · cases hstep

theorem startRecv_rank (h : Productive s .startRecv) : s.startRecv.rank < s.rank := by
  obtain ⟨hrx, henabled⟩ := h
  have hmask : s.startRecv.sendIndMask = (s.recvPendingHead.isSome || s.sendIndMask) := rfl
  have hwaits : s.startRecv.waits = false := by
    refine decide_eq_false ?_
    rintro ⟨-, hhead, hnot⟩
    have hhead' : s.recvPendingHead.isSome = true := hhead
    rw [hmask, hhead', Bool.true_or] at hnot
    exact absurd hnot (by decide)
  have hsame : s.startRecv.rank = 200 * (s.sent.length - s.called.length) +
      100 * (s.sent.length - s.received.length) + s.tx.weight + s.rx.weight + s.client.weight +
      60 * s.sendInd.toNat + 20 * s.recvDone.toNat + 30 * (s.recvPendingHead.isSome || s.sendIndMask).toNat := by
    rw [State.rank, hwaits, hmask]
    rfl
  have hnat : ∀ b : Bool, b.toNat ≤ 1 := fun b => by cases b <;> decide
  rw [hsame, State.rank]
  rcases henabled with hdisabled | ⟨hhead, hnot⟩
  · have := hnat (s.recvPendingHead.isSome || s.sendIndMask)
    simp only [hdisabled, Bool.not_false, Bool.toNat_true]
    omega
  · have hwaiting : s.waits = true := decide_eq_true ⟨hrx, hhead, hnot⟩
    simp only [hwaiting, hhead, hnot, Bool.true_or, Bool.toNat_true, Bool.toNat_false]
    omega

theorem Sound.rank {e : Event} (h : Sound needFlowCtrl s) (he : Productive s e)
    (hstep : RmtIpc.step needFlowCtrl s e = some s') : s'.rank < s.rank := by
  obtain ⟨st, pending, hinv⟩ := h.staged
  cases e with
  | send data => exact he.elim
  | stopRecv => exact he.elim
  | txIrq => exact hinv.txIrq_rank hstep
  | txGoOn => exact hinv.txGoOn_rank hstep
  | rxIrq => exact rxIrq_rank hstep
  | rxGoOn processed => exact hinv.rxGoOn_rank h.masked he hstep
  | rxDone => exact hinv.rxDone_rank hstep
  | startRecv =>
      simp only [RmtIpc.step] at hstep
      split at hstep
      · cases hstep
      · obtain rfl := Option.some.inj hstep
        exact startRecv_rank he

theorem sent_same {e : Event} (he : Productive s e) (hstep : RmtIpc.step needFlowCtrl s e = some s') :
    s'.sent = s.sent := by
  cases e with
  | send data => exact he.elim
  | stopRecv => exact he.elim
  | txIrq =>
      simp only [RmtIpc.step, State.txIrq] at hstep
      split at hstep
      · rw [← Option.some.inj hstep]
      · cases hstep
  | txGoOn =>
      simp only [RmtIpc.step, State.txGoOn] at hstep
      split at hstep
      · cases hstep
      · rw [← Option.some.inj hstep]
      · rw [← Option.some.inj hstep]
      · split at hstep
        all_goals rw [← Option.some.inj hstep]
      · rw [← Option.some.inj hstep]
  | rxIrq =>
      simp only [RmtIpc.step, State.rxIrq] at hstep
      split at hstep
      · rw [← Option.some.inj hstep]
      · cases hstep
  | rxGoOn processed =>
      simp only [RmtIpc.step, State.rxGoOn] at hstep
      split at hstep
      · cases hstep
      · split at hstep
        all_goals rw [← Option.some.inj hstep]
      · split at hstep
        all_goals rw [← Option.some.inj hstep]
      · rw [← Option.some.inj hstep]
      · split at hstep
        all_goals rw [← Option.some.inj hstep]
      · rw [← Option.some.inj hstep]
      · rw [← Option.some.inj hstep]
  | rxDone =>
      simp only [RmtIpc.step, State.rxDone] at hstep
      split at hstep
      · split at hstep
        · cases hstep
        · rw [← Option.some.inj hstep]
        · rw [← Option.some.inj hstep]
      · cases hstep
  | startRecv =>
      simp only [RmtIpc.step] at hstep
      split at hstep
      · cases hstep
      · rw [← Option.some.inj hstep]
        rfl

theorem rxGoOn_enabled (hrx : s.rx ≠ .idle) :
    ∃ e s', Productive s e ∧ RmtIpc.step needFlowCtrl s e = some s' := by
  have hgoOn : ∀ processed, ∃ s', s.rxGoOn needFlowCtrl processed = some s' := by
    intro processed
    rw [State.rxGoOn]
    split
    · exact absurd ‹_› hrx
    · split
      all_goals exact ⟨_, rfl⟩
    · split
      all_goals exact ⟨_, rfl⟩
    · exact ⟨_, rfl⟩
    · split
      all_goals exact ⟨_, rfl⟩
    · exact ⟨_, rfl⟩
    · exact ⟨_, rfl⟩
  by_cases hmsg : ∃ m, s.rx = .msg (some m)
  · obtain ⟨m, hm⟩ := hmsg
    obtain ⟨s', hs'⟩ := hgoOn (s.msgData m).length
    refine ⟨.rxGoOn _, s', fun m' hm' => ?_, hs'⟩
    obtain rfl := Option.some.inj (Rx.msg.inj (hm.symm.trans hm'))
    exact Nat.le_refl _
  · obtain ⟨s', hs'⟩ := hgoOn 0
    exact ⟨.rxGoOn 0, s', fun m hm => absurd ⟨m, hm⟩ hmsg, hs'⟩

theorem Inv.reading_enabled (h : Inv s (.reading got rest) pending) (hmasked : Masked needFlowCtrl s) :
    ∃ e s', Productive s e ∧ RmtIpc.step needFlowCtrl s e = some s' := by
  by_cases hrx : s.rx = .idle
  · have hind : s.sendInd = true := h.sender.2.1
    have hstart : s.rxEnabled = false ∨ s.recvPendingHead.isSome = true ∧ s.sendIndMask = false →
        ∃ e s', Productive s e ∧ RmtIpc.step needFlowCtrl s e = some s' := by
      intro hwaits
      refine ⟨.startRecv, s.startRecv, ⟨hrx, hwaits⟩, ?_⟩
      simp only [RmtIpc.step]
      rw [if_neg fun hflow => hflow.2 hrx]
    have hirq : s.rxEnabled = true → s.sendIndMask = true →
        ∃ e s', Productive s e ∧ RmtIpc.step needFlowCtrl s e = some s' := by
      intro henabled hmask
      exact ⟨.rxIrq, { s with sendIndMask := false, rx := .suspended }, trivial,
        if_pos ⟨henabled, hind, hmask, hrx⟩⟩
    cases henabled : s.rxEnabled with
    | false => exact hstart (.inl henabled)
    | true =>
        cases hmask : s.sendIndMask with
        | true => exact hirq henabled hmask
        | false =>
            cases hhead : s.recvPendingHead with
            | some head => exact hstart (.inr ⟨by rw [hhead]; rfl, hmask⟩)
            | none =>
                -- suspended without a message to go on with: the client has to report the list
                cases hclient : s.client with
                | idle => exact absurd ((hmasked.opened hrx hhead hclient).symm.trans hmask) (by decide)
                | owes =>
                    refine ⟨.rxDone, { s with sendInd := false, recvDone := true, client := .unmask }, trivial, ?_⟩
                    simp only [RmtIpc.step, State.rxDone, hrx, hclient, if_true]
                | unmask =>
                    refine ⟨.rxDone, { s with sendIndMask := true, client := .idle }, trivial, ?_⟩
                    simp only [RmtIpc.step, State.rxDone, hrx, hclient, if_true]
  · exact rxGoOn_enabled hrx

theorem Sound.enabled (h : Sound needFlowCtrl s) (hbehind : s.called ≠ s.sent) :
    ∃ e s', Productive s e ∧ RmtIpc.step needFlowCtrl s e = some s' := by
  obtain ⟨st, pending, hinv⟩ := h.staged
  have hsender := hinv.sender
  have hgoOn : s.tx ≠ .idle → ∃ e s', Productive s e ∧ RmtIpc.step needFlowCtrl s e = some s' := by
    intro htx
    refine ⟨.txGoOn, ?_⟩
    simp only [RmtIpc.step, State.txGoOn]
    split
    · exact absurd ‹_› htx
    · exact ⟨_, trivial, rfl⟩
    · exact ⟨_, trivial, rfl⟩
    · split
      all_goals exact ⟨_, trivial, rfl⟩
    · exact ⟨_, trivial, rfl⟩
  cases st with
  | empty =>
      have hsent : s.sent = s.called ++ [] := by
        rw [hinv.sent, hinv.none_pending rfl]
        rfl
      rw [List.append_nil] at hsent
      exact absurd hsent.symm hbehind
  | reading got rest => exact hinv.reading_enabled h.masked
  | done batch =>
      obtain ⟨htx, -, hdone, -, -⟩ := hsender
      exact ⟨.txIrq, { s with recvDone := false, tx := .msg s.sendMsgList }, trivial, if_pos ⟨hdone, htx⟩⟩
  | walking rest =>
      obtain ⟨p, htx, -⟩ := hsender
      exact hgoOn (by rw [htx]; intro h; cases h)
  | freeing i rest => exact hgoOn (by rw [hsender.1]; intro h; cases h)
  | signal batch => exact hgoOn (by rw [hsender.1]; intro h; cases h)

theorem Sound.delivered (h : Sound needFlowCtrl s) (hcalled : s.called = s.sent) :
    s.received = s.sent ∧ s.consumed = s.sent.flatten := by
  obtain ⟨st, pending, hinv⟩ := h.staged
  have hlen := hinv.length_le
  obtain ⟨ahead, hsent, -⟩ := hinv.received_append
  rw [hcalled, hsent, List.length_append] at hlen
  obtain rfl : ahead = [] := List.eq_nil_of_length_eq_zero (by omega)
  rw [List.append_nil] at hsent
  refine ⟨hsent.symm, ?_⟩
  have hprefix := hinv.consumed_prefix
  rw [State.consumed, ← hsent] at hprefix ⊢
  have hshort := hprefix.length_le
  rw [List.length_append] at hshort
  rw [List.eq_nil_of_length_eq_zero (l := s.current) (by omega), List.append_nil]

theorem Sound.inevitable (h : Sound needFlowCtrl s) :
    Inevitable (RmtIpc.step needFlowCtrl) Productive
      (fun t => t.called = s.sent ∧ t.received = s.sent ∧ t.consumed = s.sent.flatten) s := by
  have henabled : ∀ t, (Sound needFlowCtrl t ∧ t.sent = s.sent) →
      ¬ (t.called = s.sent ∧ t.received = s.sent ∧ t.consumed = s.sent.flatten) →
      ∃ e t', Productive t e ∧ RmtIpc.step needFlowCtrl t e = some t' := by
    intro t ⟨ht, hsent⟩ hnot
    refine ht.enabled fun hcalled => hnot ?_
    rw [← hsent]
    exact ⟨hcalled, ht.delivered hcalled⟩
  refine Inevitable.of_rank State.rank henabled (fun t e t' ⟨ht, hsent⟩ _ he hstep => ?_) ⟨h, rfl⟩
  exact ⟨⟨ht.step hstep, (sent_same he hstep).trans hsent⟩, ht.rank he hstep⟩

/-- In every state a channel reaches, with or without flow control: what the receiver consumed is the beginning of
the messages sent; their callbacks come in order, once each, for messages taken whole; a send is refused exactly if
all records are in use, and is sent otherwise; the records in use are those of the messages whose callback is not
over; no record the receiver can still read is given to a send; and all messages sent are inevitably consumed and
called back. -/
theorem rmtIpc_delivers {events : List Event} (hrun : run (step needFlowCtrl) .opened events = some s) :
    s.consumed <+: s.sent.flatten ∧
    s.called <+: s.received ∧ s.received <+: s.sent ∧
    (∀ data, ((s.send data).1 = -1 ↔ ∀ i < maxSendRecCnt, (s.sendMsgs i).inUse = true) ∧
      ((s.send data).1 ≠ -1 → (s.send data).1 = 0 ∧ (s.send data).2.sent = s.sent ++ [data])) ∧
    s.called.length + s.inUseCnt = s.sent.length + s.inCallback ∧
    (∀ i, s.Readable i → (s.sendMsgs i).inUse = true ∧ s.freeRecord ≠ some i) ∧
    Inevitable (step needFlowCtrl) Productive
      (fun t => t.called = s.sent ∧ t.received = s.sent ∧ t.consumed = s.sent.flatten) s := by
  have h : Sound needFlowCtrl s := .run hrun
  obtain ⟨st, pending, hinv⟩ := h.staged
  obtain ⟨ahead, hsent, -⟩ := hinv.received_append
  refine ⟨hinv.consumed_prefix, hinv.called_prefix, ⟨ahead, hsent.symm⟩, fun data => ?_, hinv.inUseCnt_eq,
    fun i hi => ⟨(hinv.readable hi).2, fun hfree => ?_⟩, h.inevitable⟩
  · rcases send_spec s data with ⟨hall, hsend⟩ | ⟨hnot, hzero, hsend⟩
    · rw [hsend]
      exact ⟨iff_of_true rfl hall, fun hne => absurd rfl hne⟩
    · rw [hzero]
      exact ⟨iff_of_false (by decide) hnot, fun _ => ⟨rfl, hsend⟩⟩
  · exact (freeRecord_spec hinv hfree).2 ((hinv.inUse i).mp (hinv.readable hi))

/-- Two messages are sent, of which the receiver takes a part and then, with a third one sent, the rest. -/
def partAndRest : List Event :=
  [.startRecv, .send [1, 2, 3], .rxIrq, .send [4], .rxGoOn 0, .rxGoOn 1, .startRecv, .rxIrq, .rxGoOn 0, .rxGoOn 2,
    .send [], .rxGoOn 0, .rxGoOn 0, .rxGoOn 0, .txIrq, .txGoOn]

theorem rmtIpc_delivers_partAndRest :
    ∃ s, run (step false) .opened partAndRest = some s ∧
    s.consumed <+: s.sent.flatten ∧
    s.called <+: s.received ∧ s.received <+: s.sent ∧
    (∀ data, ((s.send data).1 = -1 ↔ ∀ i < maxSendRecCnt, (s.sendMsgs i).inUse = true) ∧
      ((s.send data).1 ≠ -1 → (s.send data).1 = 0 ∧ (s.send data).2.sent = s.sent ++ [data])) ∧
    s.called.length + s.inUseCnt = s.sent.length + s.inCallback ∧
    (∀ i, s.Readable i → (s.sendMsgs i).inUse = true ∧ s.freeRecord ≠ some i) ∧
    Inevitable (step false) Productive
      (fun t => t.called = s.sent ∧ t.received = s.sent ∧ t.consumed = s.sent.flatten) s := by
  obtain ⟨s, hs⟩ : ∃ s, run (step false) .opened partAndRest = some s :=
    Option.isSome_iff_exists.mp (by decide)
  exact ⟨s, hs, rmtIpc_delivers hs⟩

end Best1307.RmtIpc
