import Best1307.Pan.Receive

/-!
# The question for the name server

`app_pan.cpp`: the name that is asked for is written as labels, each behind its length, which is filled in when its end
has been found.
-/

namespace Best1307.Pan

open Checked (Fault ok_bind)

/-! ### The code -/

def dot : UInt8 := 0x2e

def dnsMaxQuestionSize : Nat := 80

def store (packet : List UInt8) (offset : Nat) (value : UInt8) : Except Fault (List UInt8) :=
  if offset < packet.length then .ok (packet.set offset value) else .error .outside

def storeAll (packet : List UInt8) (offset : Nat) : List UInt8 → Except Fault (List UInt8)
  | [] => return packet
  | value :: values => do
      let packet ← store packet offset value
      storeAll packet (offset + 1) values

/-- The packet, and the pointers into it -/
structure Encoder where
  packet : List UInt8
  nameLabelStart : Nat
  currNameLabel : Nat

/-- The length of a label is written in front of it. -/
def Encoder.close (s : Encoder) : Except Fault (List UInt8) :=
  store s.packet s.nameLabelStart (UInt8.ofNat (s.currNameLabel - (s.nameLabelStart + 1)))

def Encoder.character (s : Encoder) (c : UInt8) : Except Fault Encoder :=
  if c ≠ dot then do
    let packet ← store s.packet s.currNameLabel c
    return { s with packet := packet, currNameLabel := s.currNameLabel + 1 }
  else if s.nameLabelStart + 1 < s.currNameLabel then do
    let packet ← s.close
    return ⟨packet, s.currNameLabel, s.currNameLabel + 1⟩
  else return s

/-- What comes after the loop: the last label, the zero byte, the type and the class; with the length of the packet -/
def Encoder.finish (s : Encoder) : Except Fault (List UInt8 × Nat) := do
  let s ← if s.nameLabelStart + 1 < s.currNameLabel then do
      let packet ← s.close
      pure { s with packet := packet, nameLabelStart := s.currNameLabel }
    else pure s
  let packet ← storeAll s.packet s.nameLabelStart [0, 0x00, 0x01, 0x00, 0x01]
  return (packet, s.nameLabelStart + 5)

/-- The headers of `domain_name_server_protocol_payload`, from the variables with the addresses -/
def dnsRequestHeaders (s : State) : List UInt8 :=
  [0x45, 0x00, 0x00, 0x00, 0x00, 0x00, 0x40, 0x00, 0x40, 0x11, 0x00, 0x00,
    s.localIpBe.getD 0 0, s.localIpBe.getD 1 0, s.localIpBe.getD 2 0, s.localIpBe.getD 3 0,
    s.domainNameServer.getD 0 0, s.domainNameServer.getD 1 0, s.domainNameServer.getD 2 0, s.domainNameServer.getD 3 0,
    0x50, 0x05, 0x00, 0x35, 0x00, 0x00, 0x00, 0x00,
    0xcd, 0x13, 0x01, 0x00, 0x00, 0x01, 0x00, 0x00, 0x00, 0x00, 0x00, 0x00]

/-- `app_bt_pan_test_send_DNS_protocol_request`: the packet that is sent, if one is -/
def sendDnsProtocolRequest (s : State) (domainName : List UInt8) : Except Fault (Option (List UInt8)) :=
  if domainName.length = 0 ∨ dnsMaxQuestionSize < domainName.length then return none
  else do
    let packet := dnsRequestHeaders s ++ List.replicate (dnsMaxQuestionSize + 8) 0
    let encoder ← domainName.foldlM Encoder.character ⟨packet, 40, 41⟩
    let (packet, dnsLength) ← encoder.finish
    let packet := writeIpv4HeaderChecksum packet dnsLength
    match writeUdpPacketChecksum packet (dnsLength - 20) with
    | none => throw .outside
    | some packet => return some (packet.take dnsLength)

/-! ### What is asked of it -/

def encodeLabels (labels : List (List UInt8)) : List UInt8 := labels.flatMap fun l => UInt8.ofNat l.length :: l

def dotted : List (List UInt8) → List UInt8
  | [] => []
  | [l] => l
  | l :: labels => l ++ dot :: dotted labels

/-- A label is not empty, and its length is less than that of a pointer would be. -/
def IsLabel (l : List UInt8) : Prop := 0 < l.length ∧ l.length ≤ 63

instance (l : List UInt8) : Decidable (IsLabel l) := inferInstanceAs (Decidable (_ ∧ _))

structure DomainName where
  labels : List (List UInt8)
  isLabel : ∀ l ∈ labels, IsLabel l
  noDot : ∀ l ∈ labels, dot ∉ l
  length_pos : 0 < (dotted labels).length
  length_le : (dotted labels).length ≤ dnsMaxQuestionSize

/-- The question that should be sent: the name, and type and class of a host address -/
def DomainName.question (name : DomainName) : List UInt8 :=
  encodeLabels name.labels ++ [0] ++ [0x00, 0x01, 0x00, 0x01]

/-- Nothing is written outside the packet, and the question comes behind its headers. -/
def Asks (s : State) (name : DomainName) : Prop :=
  ∃ packet, sendDnsProtocolRequest s (dotted name.labels) = .ok (some packet) ∧ packet.drop 40 = name.question

section Question

variable {front tail partialLabel l packet : List UInt8} {labels done : List (List UInt8)} {s s' : Encoder}
  {x y c value : UInt8} {offset : Nat}

theorem store_eq (h : front.length = offset) :
    store (front ++ x :: tail) offset value = .ok (front ++ value :: tail) := by
  rw [store, if_pos, ← h, List.set_append_right _ _ (Nat.le_refl _), Nat.sub_self]
  · rfl
  · rw [List.length_append, List.length_cons]
    omega

theorem storeAll_eq {old values : List UInt8} (h : front.length = offset) (hlength : old.length = values.length) :
    storeAll (front ++ (old ++ tail)) offset values = .ok (front ++ (values ++ tail)) := by
  induction values generalizing front old offset with
  | nil =>
      rw [List.length_eq_zero_iff.mp hlength]
      rfl
  | cons value values ih =>
      obtain ⟨x, old, rfl⟩ := List.exists_cons_of_length_eq_add_one hlength
      have hnext : (front ++ [value]).length = offset + 1 := by
        rw [List.length_append, h]
        rfl
      rw [storeAll, List.cons_append, store_eq h, ok_bind, List.append_cons front value,
        ih hnext (Nat.succ.inj hlength)]
      exact congrArg _ (List.append_cons front value (values ++ tail)).symm

theorem encodeLabels_cons : encodeLabels (l :: labels) = UInt8.ofNat l.length :: (l ++ encodeLabels labels) := by
  rw [encodeLabels, List.flatMap_cons, List.cons_append]
  rfl

theorem encodeLabels_concat : encodeLabels (done ++ [l]) = encodeLabels done ++ (UInt8.ofNat l.length :: l) := by
  rw [encodeLabels, List.flatMap_append]
  exact congrArg _ (List.append_nil _)

theorem dotted_cons_cons {next : List UInt8} : dotted (l :: next :: labels) = l ++ dot :: dotted (next :: labels) := rfl

/-- Behind the labels that are done there is a place for a length, and the characters of the next label so far. -/
structure Encoder.At (s : Encoder) (headers : List UInt8) (done : List (List UInt8)) (partialLabel tail : List UInt8) :
    Prop where
  packet : ∃ x, s.packet = headers ++ encodeLabels done ++ x :: (partialLabel ++ tail)
  nameLabelStart : s.nameLabelStart = (headers ++ encodeLabels done).length
  currNameLabel : s.currNameLabel = s.nameLabelStart + 1 + partialLabel.length

variable {headers : List UInt8}

theorem Encoder.At.character (h : s.At headers done partialLabel (y :: tail)) (hc : c ≠ dot) :
    ∃ s', s.character c = .ok s' ∧ s'.At headers done (partialLabel ++ [c]) tail := by
  obtain ⟨x, hpacket⟩ := h.packet
  have hplace : (headers ++ encodeLabels done ++ x :: partialLabel).length = s.currNameLabel := by
    rw [h.currNameLabel, h.nameLabelStart, List.length_append, List.length_cons]
    omega
  have hsplit : s.packet = headers ++ encodeLabels done ++ x :: partialLabel ++ y :: tail := by
    rw [hpacket, List.append_assoc _ (x :: partialLabel), List.cons_append]
  rw [Encoder.character, if_pos hc, hsplit, store_eq hplace, ok_bind]
  refine ⟨_, rfl, ⟨x, ?_⟩, h.nameLabelStart, ?_⟩
  · rw [List.append_assoc _ (x :: partialLabel), List.cons_append, List.append_assoc partialLabel]
    rfl
  · rw [List.length_append, ← Nat.add_assoc, ← h.currNameLabel]
    rfl

theorem Encoder.At.characters (h : s.At headers done partialLabel tail) (hl : dot ∉ l)
    (hroom : l.length ≤ tail.length) :
    ∃ s', l.foldlM Encoder.character s = .ok s' ∧ s'.At headers done (partialLabel ++ l) (tail.drop l.length) := by
  induction l generalizing s partialLabel tail with
  | nil =>
      rw [List.append_nil]
      exact ⟨s, rfl, h⟩
  | cons c l ih =>
      have hc := List.ne_of_not_mem_cons hl
      have hl := List.not_mem_of_not_mem_cons hl
      cases tail with
      | nil => exact absurd hroom (Nat.not_succ_le_zero _)
      | cons y tail =>
          obtain ⟨s₁, hs₁, hat⟩ := h.character (Ne.symm hc)
          obtain ⟨s', hs', hat'⟩ := ih hat hl (Nat.le_of_succ_le_succ hroom)
          refine ⟨s', ?_, ?_⟩
          · rw [List.foldlM_cons, hs₁, ok_bind, hs']
          · rwa [List.append_assoc] at hat'

theorem Encoder.At.close (h : s.At headers done partialLabel tail) :
    s.close = .ok (headers ++ encodeLabels (done ++ [partialLabel]) ++ tail) := by
  obtain ⟨x, hpacket⟩ := h.packet
  have hlen : s.currNameLabel - (s.nameLabelStart + 1) = partialLabel.length := by
    rw [h.currNameLabel, Nat.add_sub_cancel_left]
  rw [Encoder.close, hlen, hpacket, store_eq h.nameLabelStart.symm, encodeLabels_concat, List.append_assoc headers,
    List.append_assoc headers, List.append_assoc (encodeLabels done), List.cons_append]

theorem Encoder.At.ends (h : s.At headers done partialLabel (y :: tail)) (hopen : IsLabel partialLabel) :
    ∃ s', s.character dot = .ok s' ∧ s'.At headers (done ++ [partialLabel]) [] tail := by
  have hlt : s.nameLabelStart + 1 < s.currNameLabel := by
    have := hopen.1
    rw [h.currNameLabel]
    omega
  rw [Encoder.character, if_neg (fun h => h rfl), if_pos hlt, h.close, ok_bind]
  refine ⟨_, rfl, ⟨y, rfl⟩, ?_, rfl⟩
  dsimp only
  rw [h.currNameLabel, h.nameLabelStart, encodeLabels_concat, ← List.append_assoc, @List.length_append _ _ (_ :: _),
    List.length_cons]
  omega

/-- After the name its last label is still open. -/
theorem Encoder.At.name (h : s.At headers done [] tail) (hlabels : labels ≠ []) (hlabel : ∀ l ∈ labels, IsLabel l)
    (hdot : ∀ l ∈ labels, dot ∉ l) (hroom : (dotted labels).length < tail.length) :
    ∃ s', (dotted labels).foldlM Encoder.character s = .ok s' ∧ ∃ before last, labels = before ++ [last] ∧
      s'.At headers (done ++ before) last (tail.drop (dotted labels).length) := by
  induction labels generalizing s done tail with
  | nil => exact absurd rfl hlabels
  | cons l labels ih =>
      obtain ⟨hl, hlabel⟩ := List.forall_mem_cons.mp hlabel
      obtain ⟨hld, hdot⟩ := List.forall_mem_cons.mp hdot
      cases labels with
      | nil =>
          obtain ⟨s', hs', hat⟩ := h.characters hld (Nat.le_of_lt hroom)
          refine ⟨s', hs', [], l, rfl, ?_⟩
          rwa [List.append_nil]
      | cons next labels =>
          rw [dotted_cons_cons, List.length_append, List.length_cons] at hroom
          obtain ⟨s₁, hs₁, hat₁⟩ := h.characters hld (by omega)
          obtain ⟨y, tail', htail'⟩ := List.exists_cons_of_length_pos (show 0 < (tail.drop l.length).length by
            rw [List.length_drop]
            omega)
          rw [htail'] at hat₁
          obtain ⟨s₂, hs₂, hat₂⟩ := hat₁.ends hl
          have hdrop : tail' = tail.drop (l.length + 1) := by
            rw [← List.drop_drop, htail', List.drop_one, List.tail_cons]
          obtain ⟨s', hs', before, last, hsplit, hat'⟩ := ih hat₂ (List.cons_ne_nil _ _) hlabel hdot (by
            rw [hdrop, List.length_drop]
            omega)
          refine ⟨s', ?_, l :: before, last, congrArg _ hsplit, ?_⟩
          · rw [dotted_cons_cons, List.foldlM_append, hs₁, ok_bind, List.foldlM_cons, hs₂, ok_bind, hs']
          · rw [dotted_cons_cons, List.length_append, List.length_cons]
            rw [List.nil_append, List.append_assoc, hdrop, List.drop_drop] at hat'
            rwa [show l.length + ((dotted (next :: labels)).length + 1) =
              l.length + 1 + (dotted (next :: labels)).length by omega]

theorem Encoder.At.finish {old : List UInt8} (h : s.At headers done l (old ++ tail)) (hl : IsLabel l)
    (hold : old.length = 5) :
    s.finish = .ok (headers ++ encodeLabels (done ++ [l]) ++ ([0, 0x00, 0x01, 0x00, 0x01] ++ tail),
      (headers ++ encodeLabels (done ++ [l])).length + 5) := by
  have hlt : s.nameLabelStart + 1 < s.currNameLabel := by
    have := hl.1
    rw [h.currNameLabel]
    omega
  have hstart : (headers ++ encodeLabels (done ++ [l])).length = s.currNameLabel := by
    rw [h.currNameLabel, h.nameLabelStart, encodeLabels_concat, ← List.append_assoc, @List.length_append _ _ (_ :: _),
      List.length_cons]
    omega
  rw [Encoder.finish, if_pos hlt, h.close, ok_bind]
  show (storeAll _ s.currNameLabel _ >>= _) = _
  rw [storeAll_eq hstart hold, ok_bind, hstart]
  rfl

/-! The checksums do not change what is behind the headers. -/

theorem drop_hostToBe16 {data : List UInt8} {value n : Nat} (h : offset + 2 ≤ n) :
    (hostToBe16 value data offset).drop n = data.drop n := by
  rw [hostToBe16, List.drop_set_of_lt (by omega), List.drop_set_of_lt (by omega)]

theorem drop_writeIpv4HeaderChecksum {n total : Nat} (h : 12 ≤ n) :
    (writeIpv4HeaderChecksum packet total).drop n = packet.drop n := by
  rw [writeIpv4HeaderChecksum]
  split
  case isTrue => rfl
  case isFalse =>
    dsimp only
    rw [drop_hostToBe16 h, drop_hostToBe16 h, drop_hostToBe16 (by omega)]

theorem ipv4HeaderLength_writeIpv4HeaderChecksum {total : Nat} :
    ipv4HeaderLength (writeIpv4HeaderChecksum packet total) = ipv4HeaderLength packet := by
  rw [writeIpv4HeaderChecksum]
  split
  case isTrue => rfl
  case isFalse =>
    dsimp only
    rw [ipv4HeaderLength_hostToBe16 (by decide), ipv4HeaderLength_hostToBe16 (by decide),
      ipv4HeaderLength_hostToBe16 (by decide)]

theorem exists_writeUdpPacketChecksum {n total : Nat} (hlength : ipv4HeaderLength packet = 20) (h : 28 ≤ n) :
    ∃ packet', writeUdpPacketChecksum packet total = some packet' ∧ packet'.drop n = packet.drop n := by
  have hoffset : ipv4PayloadOffset packet = some 20 := by
    rw [ipv4PayloadOffset, hlength]
    rfl
  rw [writeUdpPacketChecksum, hoffset]
  refine ⟨_, rfl, ?_⟩
  rw [drop_hostToBe16 (by omega), drop_hostToBe16 (by omega), drop_hostToBe16 (by omega)]

end Question

theorem asks (s : State) (name : DomainName) : Asks s name := by
  have hlabels : name.labels ≠ [] := fun hnone => by
    have := name.length_pos
    rw [hnone] at this
    exact Nat.lt_irrefl _ this
  have hlen := name.length_le
  have hmax : dnsMaxQuestionSize = 80 := rfl
  have hstart : Encoder.At ⟨dnsRequestHeaders s ++ List.replicate (dnsMaxQuestionSize + 8) 0, 40, 41⟩
      (dnsRequestHeaders s) [] [] (List.replicate 87 0) := by
    refine ⟨⟨0, ?_⟩, rfl, rfl⟩
    rw [encodeLabels, List.flatMap_nil, List.append_nil, List.nil_append]
    rfl
  obtain ⟨encoder, hencoder, before, last, hsplit, hat⟩ := hstart.name hlabels name.isLabel name.noDot (by
    rw [List.length_replicate]
    omega)
  rw [List.nil_append, List.drop_replicate] at hat
  have hroom : List.replicate (87 - (dotted name.labels).length) (0 : UInt8) =
      List.replicate 5 0 ++ List.replicate (82 - (dotted name.labels).length) 0 := by
    rw [List.replicate_append_replicate]
    exact congrArg (fun n => List.replicate n 0) (by omega)
  rw [hroom] at hat
  have hlast : IsLabel last := name.isLabel last (hsplit ▸ List.mem_append_right _ (List.mem_singleton_self _))
  have hfinish := hat.finish hlast (List.length_replicate ..)
  rw [← hsplit] at hfinish
  generalize hpacket : dnsRequestHeaders s ++ encodeLabels name.labels ++ ([0, 0x00, 0x01, 0x00, 0x01] ++
    List.replicate (82 - (dotted name.labels).length) 0) = packet at hfinish
  generalize htotal : (dnsRequestHeaders s ++ encodeLabels name.labels).length + 5 = dnsLength at hfinish
  have hheader : ipv4HeaderLength (writeIpv4HeaderChecksum packet dnsLength) = 20 := by
    rw [ipv4HeaderLength_writeIpv4HeaderChecksum, ← hpacket, List.append_assoc, ipv4HeaderLength_append]
    · show (0x45 : UInt8).toNat % 2 ^ 4 * 4 = 20
      decide
    · exact Nat.succ_pos 39
  obtain ⟨packet', hpacket', hdrop⟩ := @exists_writeUdpPacketChecksum _ 40 (dnsLength - 20) hheader (by decide)
  refine ⟨packet'.take dnsLength, ?_, ?_⟩
  · rw [sendDnsProtocolRequest, if_neg (by have := name.length_pos; omega)]
    show (List.foldlM _ _ _ >>= _) = _
    rw [hencoder, ok_bind, hfinish, ok_bind]
    dsimp only
    rw [hpacket']
    rfl
  · have hheaders : (dnsRequestHeaders s).length = 40 := rfl
    have hquestion : dnsLength - 40 = name.question.length := by
      rw [← htotal, DomainName.question, List.length_append, List.length_append, List.length_append, hheaders,
        Nat.add_assoc, Nat.add_sub_cancel_left, Nat.add_assoc]
      rfl
    have hsame : packet =
        dnsRequestHeaders s ++ (name.question ++ List.replicate (82 - (dotted name.labels).length) 0) := by
      rw [← hpacket, DomainName.question]
      simp only [List.append_assoc, List.cons_append, List.nil_append]
    rw [List.drop_take, hdrop, drop_writeIpv4HeaderChecksum (by decide), hquestion, hsame, ← hheaders, List.drop_left,
      List.take_left]

end Best1307.Pan
