import Best1307.Uart.Bridge

/-!
# Packets that arrive whole

As long as the UART layer hands on one packet at a time, the packets sent and not yet handled stand in two lists: those
in the queue of the thread, and those on the line. A step moves the first packet of a list on, to the queue or to its
handler. Nothing else is needed for the handlers to be called once for each command and in order. For chunks that are
not whole packets, all that is kept is that a header does not claim more than was received.
-/

namespace Best1307.ChipBridge

open WrapBuffer

/-! ### A packet in memory -/

section Memory

variable {p : Packet} {behind : Nat → UInt8} {rest : List UInt8}

theorem toNat_low_high {n : Nat} (h : n < 2 ^ 16) :
    (UInt8.ofNat n).toNat + 256 * (UInt8.ofNat (n / 256)).toNat = n := by
  rw [UInt8.toNat_ofNat', UInt8.toNat_ofNat']
  omega

theorem word_write {data : List UInt8} {i : Nat} (h : i + 1 < data.length) :
    word (write behind 0 data) i = (data[i]).toNat + 256 * (data[i + 1]).toNat := by
  have hi : i < data.length := Nat.lt_of_succ_lt h
  have hlow : write behind 0 data (0 + i) = data[i] := write_apply_add hi
  have hhigh : write behind 0 data (0 + (i + 1)) = data[i + 1] := write_apply_add h
  rw [Nat.zero_add] at hlow hhigh
  rw [word, hlow, hhigh]

@[simp] theorem Packet.length_header : p.header.length = headerDataSize := rfl

theorem Packet.length_bytes : p.bytes.length = headerDataSize + p.content.length := by
  rw [Packet.bytes, List.length_append, Packet.length_header]

theorem word_cmdcode (h : p.cmdcode < 2 ^ 16) : word (write behind 0 (p.header ++ rest)) 0 = p.cmdcode := by
  rw [word_write (by rw [List.length_append, Packet.length_header, headerDataSize]; omega)]
  exact toNat_low_high h

theorem word_packetlen (h : p.content.length < 2 ^ 16) :
    word (write behind 0 (p.header ++ rest)) 4 = p.content.length := by
  rw [word_write (by rw [List.length_append, Packet.length_header, headerDataSize]; omega)]
  exact toNat_low_high h

theorem read_content : read (write behind 0 p.bytes) headerDataSize p.content.length = p.content := by
  have hparts : write behind 0 p.bytes = write (write behind 0 p.header) headerDataSize p.content := by
    rw [Packet.bytes, ← write_write, Packet.length_header, Nat.zero_add]
  rw [hparts, read_write_self]

/-- Behind the header, a word of a chunk does not depend on what lies behind the chunk. -/
theorem word_write_congr {data : List UInt8} {i : Nat} (h : i + 1 < data.length) (mem mem' : Nat → UInt8) :
    word (write mem 0 data) i = word (write mem' 0 data) i := by
  rw [word_write h, word_write h]

end Memory

/-! ### Packets that can be sent -/

/-- A packet of a command with a handler, of a size that arrives. -/
structure Packet.Proper (cfg : Config) (p : Packet) : Prop where
  registered : State.Registered cfg p.cmdcode
  size : p.content.length ≤ maxDataPacketSize
  fits : cmdGroup p.cmdcode = cmdGroupTask → p.bytes.length ≤ rxThreadTmpBufSize

namespace Packet.Proper

variable {cfg : Config} {p : Packet}

theorem cmdcode_lt (h : p.Proper cfg) : p.cmdcode < 2 ^ 16 := by
  have hgroup : p.cmdcode / 2 ^ 8 = 0 ∨ p.cmdcode / 2 ^ 8 = 1 := h.registered.imp And.left And.left
  omega

theorem content_lt (h : p.Proper cfg) : p.content.length < 2 ^ 16 :=
  Nat.lt_of_le_of_lt h.size (by decide)

theorem length_lt (h : p.Proper cfg) : p.bytes.length < 2 ^ 16 := by
  have hsize : p.content.length ≤ 516 := h.size
  rw [Packet.length_bytes, headerDataSize]
  omega

theorem length_pos : 0 < p.bytes.length := by
  rw [Packet.length_bytes, headerDataSize]
  omega

/-- The chunk a proper packet begins with is the packet, if it is as long as its header says. -/
theorem take_eq (h : p.Proper cfg) {line rest : List UInt8} {len : Nat} {behind : Nat → UInt8}
    (hline : line = p.bytes ++ rest)
    (hexact : len = headerDataSize + word (write behind 0 (line.take len)) 4) :
    len = p.bytes.length ∧ line.take len = p.bytes ∧ line.drop len = rest := by
  have hge : p.header.length ≤ len := by
    rw [Packet.length_header, hexact]
    exact Nat.le_add_right _ _
  have htake : line.take len = p.header ++ (p.content ++ rest).take (len - p.header.length) := by
    rw [hline, Packet.bytes, List.append_assoc, List.take_append, List.take_of_length_le hge]
  rw [htake, word_packetlen h.content_lt, ← Packet.length_bytes] at hexact
  subst hexact
  subst hline
  exact ⟨rfl, List.take_left, List.drop_left⟩

end Packet.Proper

/-- An entry of the queue: its length in two bytes, then its data. -/
def entry (data : List UInt8) : List UInt8 :=
  [UInt8.ofNat data.length, UInt8.ofNat (data.length / 256)] ++ data

theorem length_entry {data : List UInt8} : (entry data).length = queueDataLenBytes + data.length := by
  rw [entry, List.length_append]
  rfl

/-! ### Commands -/

/-- What the receiver of a packet is told. -/
def Packet.command (p : Packet) : Nat × List UInt8 := (p.cmdcode, p.content)

def inGroup (group : Nat) (commands : List (Nat × List UInt8)) : List (Nat × List UInt8) :=
  commands.filter fun c => cmdGroup c.1 == group

theorem inGroup_append (group : Nat) (l l' : List (Nat × List UInt8)) :
    inGroup group (l ++ l') = inGroup group l ++ inGroup group l' := List.filter_append l l'

theorem inGroup_of_ne {group : Nat} {l : List (Nat × List UInt8)} (h : ∀ c ∈ l, cmdGroup c.1 ≠ group) :
    inGroup group l = [] := by
  rw [inGroup, List.filter_eq_nil_iff]
  intro c hc heq
  exact h c hc (eq_of_beq heq)

namespace State

variable {cfg : Config} {s t : State} {data rest : List UInt8}

/-! ### The queue -/

theorem queuePush_eq (hpos : 0 < data.length) (hlt : data.length < 2 ^ 16)
    (hroom : s.queue.length + queueDataLenBytes + data.length ≤ rxBuffSize) :
    s.queuePush data = { s with queue := s.queue ++ entry data } := by
  rw [queuePush]
  simp only [Nat.mod_eq_of_lt hlt]
  rw [if_pos ⟨hpos, by omega⟩]
  rfl

theorem queueGetNextEntryLength_eq (hlt : data.length < 2 ^ 16) (hqueue : s.queue = entry data ++ rest) :
    s.queueGetNextEntryLength = data.length := by
  rw [queueGetNextEntryLength, hqueue]
  exact toNat_low_high hlt

theorem queuePop_eq (hqueue : s.queue = entry data ++ rest) :
    s.queuePop data.length = { s with rcvTmpBuffer := write s.rcvTmpBuffer 0 data, queue := rest } := by
  have hdrop : s.queue.drop queueDataLenBytes = data ++ rest := by
    rw [hqueue]
    rfl
  rw [queuePop]
  simp only [hdrop, List.take_left, List.drop_left]
  rw [if_pos (by rw [List.length_append]; exact Nat.le_add_right _ _)]

theorem rxTurn_eq (hpos : 0 < data.length) (hlt : data.length < 2 ^ 16) (hqueue : s.queue = entry data ++ rest) :
    s.rxTurn cfg = if data.length ≤ rxThreadTmpBufSize then
      ({ s with rcvTmpBuffer := write s.rcvTmpBuffer 0 data, queue := rest } : State).rxHandler cfg data.length
      else none := by
  have hne : s.queue.length ≠ 0 := by
    rw [hqueue, List.length_append, length_entry, queueDataLenBytes]
    omega
  rw [rxTurn, if_neg hne]
  simp only [queueGetNextEntryLength_eq hlt hqueue, queuePop_eq hqueue, if_pos hpos]

theorem rxTurn_nil (hqueue : s.queue = []) : s.rxTurn cfg = some s := by
  rw [rxTurn, if_pos (by rw [hqueue]; rfl)]

/-! ### One packet at a time -/

theorem handle_packet {p : Packet} (hcode : p.cmdcode < 2 ^ 16) (hlen : p.content.length < 2 ^ 16)
    (behind : Nat → UInt8) (received : Nat) :
    s.handle (some true) (write behind 0 p.bytes) received =
      some { s with calls := s.calls ++ [⟨p.cmdcode, p.content, received⟩] } := by
  have hcmd : word (write behind 0 p.bytes) 0 = p.cmdcode := word_cmdcode hcode
  have hcontent : word (write behind 0 p.bytes) 4 = p.content.length := word_packetlen hlen
  rw [handle, Option.map_some, if_pos rfl, hcmd, hcontent, read_content]

/-- The packets in the queue and on the line are those sent whose handlers have not been called. -/
structure Exchange (cfg : Config) (s : State) (queued onLine : List Packet) : Prop where
  queue : s.queue = queued.flatMap fun p => entry p.bytes
  line : s.line = onLine.flatMap Packet.bytes
  proper : ∀ p ∈ queued ++ onLine, p.Proper cfg
  task : ∀ p ∈ queued, cmdGroup p.cmdcode = cmdGroupTask
  pending : ∀ group,
    s.sentIn group = s.calledIn group ++ inGroup group ((queued ++ onLine).map Packet.command)

namespace Exchange

variable {queued onLine : List Packet} {p : Packet}

theorem init : Exchange cfg .init [] [] where
  queue := rfl
  line := rfl
  proper := fun _ hp => absurd hp List.not_mem_nil
  task := fun _ hp => absurd hp List.not_mem_nil
  pending := fun _ => rfl

theorem send (h : Exchange cfg s queued onLine) {cmdcode : Nat} {content : List UInt8}
    (hallowed : Allowed cfg s (.send cmdcode content)) (hexact : Exact s (.send cmdcode content)) :
    ∃ t, s.transmitData cmdcode content = some t ∧
      Exchange cfg t queued (onLine ++ [⟨cmdcode, s.cmdseq, content⟩]) := by
  obtain ⟨hregistered, hsize⟩ := hallowed
  have hproper : (Packet.mk cmdcode s.cmdseq content).Proper cfg :=
    ⟨hregistered, hsize, fun htask => by rw [Packet.length_bytes]; exact hexact htask⟩
  rw [transmitData, if_pos hsize]
  refine ⟨_, rfl, ⟨h.queue, ?_, ?_, h.task, ?_⟩⟩
  · rw [List.flatMap_append, ← h.line, List.flatMap_singleton]
  · intro p hp
    rw [← List.append_assoc, List.mem_append, List.mem_singleton] at hp
    rcases hp with hp | rfl
    · exact h.proper p hp
    · exact hproper
  · intro group
    have hsent : inGroup group (s.sent ++ [(cmdcode, content)]) =
        s.sentIn group ++ inGroup group [(cmdcode, content)] := inGroup_append group _ _
    have hold := h.pending group
    rw [← List.append_assoc, List.map_append, inGroup_append, ← List.append_assoc]
    change inGroup group (s.sent ++ [(cmdcode, content)]) = s.calledIn group ++ _ ++ _
    rw [hsent, hold]
    rfl

theorem call (h : Exchange cfg s queued onLine) (p : Packet) (received : Nat) (rcvTmpBuffer : Nat → UInt8)
    (queued' onLine' : List Packet) (hqueued : ∀ q ∈ queued', q ∈ queued)
    (honLine : ∀ q ∈ onLine', q ∈ onLine)
    (hpending : ∀ group, inGroup group ((queued ++ onLine).map Packet.command) =
      inGroup group [p.command] ++ inGroup group ((queued' ++ onLine').map Packet.command)) :
    Exchange cfg { s with
      queue := queued'.flatMap fun p => entry p.bytes
      line := onLine'.flatMap Packet.bytes
      rcvTmpBuffer := rcvTmpBuffer
      calls := s.calls ++ [⟨p.cmdcode, p.content, received⟩] } queued' onLine' where
  queue := rfl
  line := rfl
  proper := fun q hq => h.proper q ((List.mem_append.mp hq).elim
    (fun hq => List.mem_append_left _ (hqueued q hq)) fun hq => List.mem_append_right _ (honLine q hq))
  task := fun q hq => h.task q (hqueued q hq)
  pending := fun group => by
    have hcalls : inGroup group ((s.calls ++ [Call.mk p.cmdcode p.content received]).map
        fun c => (c.cmdcode, c.content)) = s.calledIn group ++ inGroup group [p.command] := by
      rw [List.map_append, inGroup_append]
      rfl
    change s.sentIn group = inGroup group _ ++ _
    rw [hcalls, List.append_assoc, ← hpending group, h.pending group]

theorem onLine_ne_nil (h : Exchange cfg s queued onLine) (hline : 0 < s.line.length) : onLine ≠ [] := by
  intro hnil
  rw [h.line, hnil, List.flatMap_nil, List.length_nil] at hline
  exact Nat.lt_irrefl 0 hline

/-- Only task commands wait in the queue. -/
theorem inGroup_queued (h : Exchange cfg s queued onLine) {group : Nat} (hgroup : group ≠ cmdGroupTask) :
    inGroup group (queued.map Packet.command) = [] :=
  inGroup_of_ne fun c hc => by
    obtain ⟨q, hq, rfl⟩ := List.mem_map.mp hc
    rw [Packet.command, h.task q hq]
    exact Ne.symm hgroup

theorem deliver (h : Exchange cfg s queued onLine) {len : Nat} {behind : Nat → UInt8}
    (hallowed : Allowed cfg s (.deliver len behind)) (hexact : Exact s (.deliver len behind)) :
    ∃ t, s.step cfg (.deliver len behind) = some t ∧ ∃ queued' onLine', Exchange cfg t queued' onLine' := by
  obtain ⟨hpos, hle, hchunk, hroom⟩ := hallowed
  cases honLine : onLine with
  | nil => exact absurd honLine (h.onLine_ne_nil (Nat.lt_of_lt_of_le hpos hle))
  | cons p rest =>
      have hproper : p.Proper cfg := h.proper p (List.mem_append_right _ (honLine ▸ List.mem_cons_self))
      have hline : s.line = p.bytes ++ rest.flatMap Packet.bytes := by
        rw [h.line, honLine, List.flatMap_cons]
      obtain ⟨hlen, htake, hdrop⟩ := hproper.take_eq hline hexact
      have hcmd : word (write behind 0 p.bytes) 0 = p.cmdcode := word_cmdcode hproper.cmdcode_lt
      rw [step, htake, hdrop, dataReceived]
      simp only [hcmd]
      rcases hproper.registered with ⟨hgroup, hentry⟩ | ⟨hgroup, hentry⟩
      · -- a task command goes to the end of the queue
        have hlt : p.bytes.length < 2 ^ 16 := hproper.length_lt
        rw [if_neg (by rw [hgroup]; decide), queuePush_eq Packet.Proper.length_pos hlt (by rw [← hlen]; exact hroom)]
        have hmove : queued ++ [p] ++ rest = queued ++ onLine := by
          rw [honLine, List.append_assoc, List.singleton_append]
        refine ⟨_, rfl, queued ++ [p], rest, ?_, rfl, ?_, ?_, ?_⟩
        · change s.queue ++ entry p.bytes = _
          rw [h.queue, List.flatMap_append, List.flatMap_singleton]
        · rw [hmove]
          exact h.proper
        · intro q hq
          rcases List.mem_append.mp hq with hq | hq
          · exact h.task q hq
          · rw [List.mem_singleton.mp hq]
            exact hgroup
        · rw [hmove]
          exact h.pending
      · -- an instant command overtakes those in the queue
        rw [if_pos hgroup, hentry, handle_packet hproper.cmdcode_lt hproper.content_lt]
        have hcall := h.call p p.bytes.length s.rcvTmpBuffer queued rest (fun q hq => hq)
          (fun q hq => honLine ▸ List.mem_cons_of_mem p hq) fun group => by
            rw [honLine, List.map_append, List.map_cons, List.map_append, inGroup_append, inGroup_append,
              ← List.singleton_append, inGroup_append, ← List.append_assoc, ← List.append_assoc]
            congr 1
            by_cases hg : group = cmdGroupTask
            · have hnone : inGroup group [p.command] = [] := inGroup_of_ne fun c hc => by
                rw [List.mem_singleton.mp hc, Packet.command, hgroup, hg]
                decide
              rw [hnone, List.append_nil, List.nil_append]
            · rw [h.inGroup_queued hg, List.append_nil, List.nil_append]
        rw [← h.queue] at hcall
        exact ⟨_, rfl, queued, rest, hcall⟩

theorem turn (h : Exchange cfg s queued onLine) :
    ∃ t, s.rxTurn cfg = some t ∧ ∃ queued' onLine', Exchange cfg t queued' onLine' := by
  cases hqueued : queued with
  | nil =>
      have hqueue : s.queue = [] := by rw [h.queue, hqueued, List.flatMap_nil]
      exact ⟨s, rxTurn_nil hqueue, queued, onLine, h⟩
  | cons p rest =>
      have hmem : p ∈ queued := hqueued ▸ List.mem_cons_self
      have hproper : p.Proper cfg := h.proper p (List.mem_append_left _ hmem)
      have hgroup : cmdGroup p.cmdcode = cmdGroupTask := h.task p hmem
      have hentry : cfg.taskEntry p.cmdcode = some true := by
        rcases hproper.registered with ⟨_, hentry⟩ | ⟨hinstant, _⟩
        · exact hentry
        · rw [hgroup] at hinstant
          exact absurd hinstant (by decide)
      have hqueue : s.queue = entry p.bytes ++ rest.flatMap fun p => entry p.bytes := by
        rw [h.queue, hqueued, List.flatMap_cons]
      have hcmd : word (write s.rcvTmpBuffer 0 p.bytes) 0 = p.cmdcode := word_cmdcode hproper.cmdcode_lt
      rw [rxTurn_eq Packet.Proper.length_pos hproper.length_lt hqueue, if_pos (hproper.fits hgroup), rxHandler]
      simp only [hcmd]
      rw [if_pos hgroup, hentry, handle_packet hproper.cmdcode_lt hproper.content_lt]
      have hcall := h.call p p.bytes.length (write s.rcvTmpBuffer 0 p.bytes) rest onLine
        (fun q hq => hqueued ▸ List.mem_cons_of_mem p hq)
        (fun q hq => hq) fun group => by
          rw [hqueued, List.cons_append, List.map_cons, ← List.singleton_append, inGroup_append]
      rw [← h.line] at hcall
      exact ⟨_, rfl, rest, onLine, hcall⟩

theorem step (h : Exchange cfg s queued onLine) {e : Event} (hallowed : Allowed cfg s e) (hexact : Exact s e) :
    ∃ t, s.step cfg e = some t ∧ ∃ queued' onLine', Exchange cfg t queued' onLine' := by
  cases e with
  | send cmdcode content =>
      obtain ⟨t, ht, hex⟩ := h.send hallowed hexact
      exact ⟨t, ht, _, _, hex⟩
  | noise bytes => exact absurd hexact id
  | deliver len behind => exact h.deliver hallowed hexact
  | turn => exact h.turn

theorem calledIn_prefix (h : Exchange cfg s queued onLine) (group : Nat) :
    s.calledIn group <+: s.sentIn group := by
  rw [h.pending group]
  exact List.prefix_append _ _

theorem onLine_eq_nil (h : Exchange cfg s queued onLine) (hline : s.line = []) : onLine = [] := by
  cases onLine with
  | nil => rfl
  | cons p rest =>
      rw [h.line, List.flatMap_cons, List.append_eq_nil_iff] at hline
      exact absurd hline.1 (List.ne_nil_of_length_pos Packet.Proper.length_pos)

theorem queued_eq_nil (h : Exchange cfg s queued onLine) (hqueue : s.queue = []) : queued = [] := by
  cases queued with
  | nil => rfl
  | cons p rest =>
      rw [h.queue, List.flatMap_cons, List.append_eq_nil_iff] at hqueue
      exact absurd hqueue.1 (List.cons_ne_nil _ _)

theorem delivered (h : Exchange cfg s queued onLine) : s.Delivered where
  task := h.calledIn_prefix cmdGroupTask
  instant := h.calledIn_prefix cmdGroupInstant
  instantAll := fun hline => by
    rw [h.pending, h.onLine_eq_nil hline, List.append_nil, h.inGroup_queued (by decide), List.append_nil]
  taskAll := fun hline hqueue => by
    rw [h.pending, h.onLine_eq_nil hline, h.queued_eq_nil hqueue]
    exact (List.append_nil _).symm

end Exchange

/-! ### Any bytes -/

/-- The entries of the queue, and the calls so far, claim no more than was received. -/
structure Checked (s : State) (entries : List (List UInt8)) : Prop where
  queue : s.queue = entries.flatMap entry
  size : ∀ data ∈ entries, data.length < 2 ^ 16
  bounded : ∀ data ∈ entries, ∀ mem, headerDataSize + word (write mem 0 data) 4 ≤ data.length
  within : s.WithinReceived

theorem WithinReceived.handle {entry : Option Bool} {mem : Nat → UInt8} {received : Nat} (h : s.WithinReceived)
    (hbounded : headerDataSize + word mem 4 ≤ received) (hcall : s.handle entry mem received = some t) :
    t.WithinReceived ∧ t.queue = s.queue := by
  rw [State.handle] at hcall
  obtain ⟨cmdhandler, _, rfl⟩ := Option.map_eq_some_iff.mp hcall
  cases cmdhandler with
  | false => exact ⟨h, rfl⟩
  | true =>
      refine ⟨fun c hc => ?_, rfl⟩
      rcases List.mem_append.mp hc with hc | hc
      · exact h c hc
      · rw [List.mem_singleton.mp hc, length_read]
        exact hbounded

namespace Checked

variable {entries : List (List UInt8)}

theorem deliver (h : Checked s entries) {len : Nat} {behind : Nat → UInt8}
    (hallowed : Allowed cfg s (.deliver len behind)) (hbounded : Bounded s (.deliver len behind))
    (hstep : s.step cfg (.deliver len behind) = some t) : ∃ entries', Checked t entries' := by
  obtain ⟨hpos, hle, hchunk, hroom⟩ := hallowed
  have hlen : (s.line.take len).length = len := List.length_take_of_le hle
  have hlt : (s.line.take len).length < 2 ^ 16 := by
    rw [hlen]
    exact Nat.lt_of_le_of_lt hchunk (by decide)
  have hclaim : headerDataSize + word (write behind 0 (s.line.take len)) 4 ≤ (s.line.take len).length := by
    rw [hlen]
    exact hbounded
  rw [step, dataReceived] at hstep
  by_cases hgroup : cmdGroup (word (write behind 0 (s.line.take len)) 0) = cmdGroupInstant
  · rw [if_pos hgroup] at hstep
    have hwithin : ({ s with line := s.line.drop len } : State).WithinReceived := h.within
    obtain ⟨hwithin', hqueue⟩ := hwithin.handle hclaim hstep
    exact ⟨entries, hqueue.trans h.queue, h.size, h.bounded, hwithin'⟩
  · rw [if_neg hgroup, queuePush_eq (by rw [hlen]; exact hpos) hlt (by rw [hlen]; exact hroom)] at hstep
    obtain rfl := Option.some.inj hstep
    refine ⟨entries ++ [s.line.take len], ?_, ?_, ?_, h.within⟩
    · rw [List.flatMap_append, ← h.queue, List.flatMap_singleton]
    · intro data hdata
      rcases List.mem_append.mp hdata with hdata | hdata
      · exact h.size data hdata
      · rw [List.mem_singleton.mp hdata]
        exact hlt
    · intro data hdata mem
      rcases List.mem_append.mp hdata with hdata | hdata
      · exact h.bounded data hdata mem
      · rw [List.mem_singleton.mp hdata,
          word_write_congr (by rw [headerDataSize] at hclaim; omega) mem behind]
        exact hclaim

theorem turn (h : Checked s entries) (hstep : s.rxTurn cfg = some t) : ∃ entries', Checked t entries' := by
  cases entries with
  | nil =>
      rw [rxTurn_nil h.queue] at hstep
      obtain rfl := Option.some.inj hstep
      exact ⟨[], h⟩
  | cons data rest =>
      have hclaim := h.bounded data List.mem_cons_self
      have hpos : 0 < data.length := by
        have := hclaim s.rcvTmpBuffer
        rw [headerDataSize] at this
        omega
      have hqueue : s.queue = entry data ++ rest.flatMap entry := by rw [h.queue, List.flatMap_cons]
      rw [rxTurn_eq hpos (h.size data List.mem_cons_self) hqueue, rxHandler] at hstep
      by_cases hfits : data.length ≤ rxThreadTmpBufSize
      · rw [if_pos hfits] at hstep
        by_cases hgroup : cmdGroup (word (write s.rcvTmpBuffer 0 data) 0) = cmdGroupTask
        · rw [if_pos hgroup] at hstep
          have hwithin : ({ s with
              rcvTmpBuffer := write s.rcvTmpBuffer 0 data
              queue := rest.flatMap entry } : State).WithinReceived := h.within
          obtain ⟨hwithin', hqueue'⟩ := hwithin.handle (hclaim _) hstep
          exact ⟨rest, hqueue', fun d hd => h.size d (List.mem_cons_of_mem _ hd),
            fun d hd => h.bounded d (List.mem_cons_of_mem _ hd), hwithin'⟩
        · rw [if_neg hgroup] at hstep
          exact absurd hstep (Option.some_ne_none _).symm
      · rw [if_neg hfits] at hstep
        exact absurd hstep (Option.some_ne_none _).symm

theorem step (h : Checked s entries) {e : Event} (hallowed : Allowed cfg s e) (hbounded : Bounded s e)
    (hstep : s.step cfg e = some t) : ∃ entries', Checked t entries' := by
  cases e with
  | send cmdcode content =>
      rw [State.step, transmitData, if_pos hallowed.2] at hstep
      obtain rfl := Option.some.inj hstep
      exact ⟨entries, h.queue, h.size, h.bounded, h.within⟩
  | noise bytes =>
      obtain rfl := Option.some.inj hstep
      exact ⟨entries, h.queue, h.size, h.bounded, h.within⟩
  | deliver len behind => exact h.deliver hallowed hbounded hstep
  | turn => exact h.turn hstep

end Checked

theorem withinReceived_of_bounded {events : List Event}
    (halong : Along (step cfg) (fun s e => Allowed cfg s e ∧ Bounded s e) .init events)
    (hrun : run (step cfg) .init events = some t) : t.WithinReceived := by
  have hinit : Checked .init [] :=
    ⟨rfl, fun _ hd => absurd hd List.not_mem_nil, fun _ hd => absurd hd List.not_mem_nil,
      fun _ hc => absurd hc List.not_mem_nil⟩
  obtain ⟨entries, h⟩ := run_invariant_along (fun s => ∃ entries, Checked s entries)
    (fun s e s' hs he hs' => hs.elim fun entries h => h.step he.1 he.2 hs') halong ⟨[], hinit⟩ hrun
  exact h.within

theorem Exact.bounded {e : Event} (h : Exact s e) : Bounded s e := by
  cases e with
  | deliver len behind => exact Nat.le_of_eq h.symm
  | send cmdcode content => trivial
  | noise bytes => trivial
  | turn => trivial

/-- Commands whose packets arrive one at a time, and bytes whose headers claim no more than there is. -/
theorem delivered_of_exact (cfg : Config) :
    (∀ events, Along (step cfg) (fun s e => Allowed cfg s e ∧ Exact s e) .init events →
      ∃ t, run (step cfg) .init events = some t ∧ t.Delivered ∧ t.WithinReceived) ∧
    ∀ events, Along (step cfg) (fun s e => Allowed cfg s e ∧ Bounded s e) .init events →
      ∀ t, run (step cfg) .init events = some t → t.WithinReceived := by
  constructor
  · intro events halong
    obtain ⟨t, ht, queued, onLine, h⟩ := halong.exists_run_invariant
      (fun s => ∃ queued onLine, Exchange cfg s queued onLine)
      (fun s e hs he => by
        obtain ⟨queued, onLine, h⟩ := hs
        exact h.step he.1 he.2) ⟨[], [], Exchange.init⟩
    have hbounded := halong.mono fun s e h => And.intro h.1 h.2.bounded
    exact ⟨t, ht, h.delivered, withinReceived_of_bounded hbounded ht⟩
  · intro events halong t ht
    exact withinReceived_of_bounded halong ht

/-! ### Small runs -/

instance (s : State) (e : Event) : Decidable (Allowed cfg s e) :=
  match e with
  | .send cmdcode content => inferInstanceAs (Decidable ((cmdGroup cmdcode = cmdGroupTask ∧
      cfg.taskEntry cmdcode = some true ∨ cmdGroup cmdcode = cmdGroupInstant ∧ cfg.instantEntry cmdcode = some true) ∧
      content.length ≤ maxDataPacketSize))
  | .noise _ => inferInstanceAs (Decidable True)
  | .deliver len _ => inferInstanceAs (Decidable (0 < len ∧ len ≤ s.line.length ∧
      len ≤ UartDma.uartRecChunkSize ∧ s.queue.length + queueDataLenBytes + len ≤ rxBuffSize))
  | .turn => inferInstanceAs (Decidable True)

instance (s : State) (e : Event) : Decidable (Exact s e) :=
  match e with
  | .send cmdcode content => inferInstanceAs (Decidable (cmdGroup cmdcode = cmdGroupTask →
      headerDataSize + content.length ≤ rxThreadTmpBufSize))
  | .noise _ => inferInstanceAs (Decidable False)
  | .deliver len behind => inferInstanceAs (Decidable
      (len = headerDataSize + word (write behind 0 (s.line.take len)) 4))
  | .turn => inferInstanceAs (Decidable True)

def smallConfig : Config where
  taskEntry := fun cmdcode => if cmdcode = 1 then some true else none
  instantEntry := fun cmdcode => if cmdcode = 257 then some true else none

def zeros : Nat → UInt8 := fun _ => 0

/-- The instant command overtakes the task command in the queue. -/
def exactEvents : List Event :=
  [.send 1 [1, 2], .send 257 [3], .deliver 8 zeros, .deliver 7 zeros, .turn]

theorem exactEvents_delivered : ∃ t, run (step smallConfig) .init exactEvents = some t ∧ t.Delivered ∧
    t.WithinReceived :=
  (delivered_of_exact smallConfig).1 exactEvents (by decide)

/-- The packets of two instant commands come in one chunk. -/
def mergedEvents : List Event := [.send 257 [1], .send 257 [2], .deliver 14 zeros]

/-- A packet is cut behind its header. -/
def cutEvents : List Event := [.send 257 [1, 2], .deliver 6 zeros]

/-- The second of two packets in one chunk is lost, and a handler is given the length of a packet that is cut. -/
theorem mergedEvents_not_delivered :
    (Along (step smallConfig) (Allowed smallConfig) .init mergedEvents ∧
      ∃ t, run (step smallConfig) .init mergedEvents = some t ∧ ¬ t.Delivered) ∧
    Along (step smallConfig) (Allowed smallConfig) .init cutEvents ∧
      ∃ t, run (step smallConfig) .init cutEvents = some t ∧ ¬ t.WithinReceived := by
  refine ⟨⟨by decide, _, rfl, fun hdelivered => ?_⟩, by decide, _, rfl, fun hwithin => ?_⟩
  · have hall := hdelivered.instantAll rfl
    exact absurd hall (by decide)
  · have hcall := hwithin _ List.mem_cons_self
    exact absurd hcall (by decide)

end State

end Best1307.ChipBridge
