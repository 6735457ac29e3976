import Best1307.Pan.DnsRequest

/-!
# The response of the name server

`app_pan.cpp`: the response repeats the question, and the code goes through its answers with one offset. A server may
write the name in front of an answer as labels, or as a pointer to where the labels are; the code knows only labels.
-/

namespace Best1307.Pan

open Checked (Fault byte block text sub add ok_bind bind_eq_ok)

/-! ### A response -/

def be16 (n : Nat) : List UInt8 := [UInt8.ofNat (n / 2 ^ 8), UInt8.ofNat n]

/-- The name in front of an answer: labels, and behind them a zero byte or a pointer, which has two bits more than the
length of a label -/
structure OwnerName where
  labels : List (List UInt8)
  isLabel : ∀ l ∈ labels, IsLabel l
  pointer : Option (UInt8 × UInt8)
  isPointer : ∀ high low, pointer = some (high, low) → 0xC0 ≤ high.toNat

def OwnerName.bytes (owner : OwnerName) : List UInt8 :=
  encodeLabels owner.labels ++
    match owner.pointer with
    | none => [0]
    | some (high, low) => [high, low]

structure Answer where
  owner : OwnerName
  typeClassTtl : List UInt8
  record : List UInt8
  length_typeClassTtl : typeClassTtl.length = 8
  length_record_lt : record.length < 2 ^ 16

def Answer.bytes (answer : Answer) : List UInt8 :=
  answer.owner.bytes ++ (answer.typeClassTtl ++ (be16 answer.record.length ++ answer.record))

def encodeAnswers (answers : List Answer) : List UInt8 := answers.flatMap Answer.bytes

/-- A well-formed response to a question, with what stands in front of its datagram and behind it -/
structure Response where
  before : List UInt8
  destPort : UInt8 × UInt8
  udpChecksum : UInt8 × UInt8
  transactionId : UInt8 × UInt8
  flags : UInt8 × UInt8
  resourceRecordCount : UInt8 × UInt8
  additionalRecordCount : UInt8 × UInt8
  name : DomainName
  answers : List Answer
  rest : List UInt8
  behind : List UInt8
  length_lt : before.length + 20 + name.question.length + (encodeAnswers answers).length + rest.length +
    behind.length < 2 ^ 16

namespace Response

variable (r : Response)

def dnsHeader : List UInt8 :=
  [r.transactionId.1, r.transactionId.2, r.flags.1, r.flags.2] ++ be16 1 ++ be16 r.answers.length ++
    [r.resourceRecordCount.1, r.resourceRecordCount.2, r.additionalRecordCount.1, r.additionalRecordCount.2]

/-- What is behind the header of the message -/
def sections : List UInt8 := r.name.question ++ (encodeAnswers r.answers ++ r.rest)

def udpHeader : List UInt8 :=
  be16 53 ++ [r.destPort.1, r.destPort.2] ++ be16 (20 + r.sections.length) ++ [r.udpChecksum.1, r.udpChecksum.2]

def payload : List UInt8 := r.before ++ (r.udpHeader ++ (r.dnsHeader ++ (r.sections ++ r.behind)))

def questionStart : Nat := r.before.length + 20

end Response

/-- Where the tails of answers are, of which the first one begins at a place -/
def tails (place : Nat) : List Answer → List Nat
  | [] => []
  | answer :: answers => (place + answer.owner.bytes.length) :: tails (place + answer.bytes.length) answers

/-- The data of the last record of four bytes, or what was there before -/
def resolved (ip : List UInt8) (answers : List Answer) : List UInt8 :=
  ((answers.map Answer.record).filter fun record => record.length = 4).getLast?.getD ip

/-- The tails the loop over the answers finds, turn by turn -/
inductive Visits (payload : List UInt8) (questionStart questionLength : Nat) : Nat → Nat → List Nat → Prop
  | done {processed : Nat} : Visits payload questionStart questionLength 0 processed []
  | answer {answerCount processed nameEnd recordLength : Nat} {rest : List Nat}
      (hlabels : labels payload questionStart questionLength true (payload.length + 1) processed = .ok (some nameEnd))
      (hlength : readBe16 payload (questionStart + nameEnd + 1 + 8) = .ok recordLength)
      (hrest : Visits payload questionStart questionLength answerCount (nameEnd + (1 + 14 - 4 + recordLength)) rest) :
      Visits payload questionStart questionLength (answerCount + 1) processed ((questionStart + nameEnd + 1) :: rest)

/-- The response is gone through without a fault, every answer is visited, and the address found is that of the last
record of four bytes. -/
structure Resolves (r : Response) (s : State) : Prop where
  receives : ∃ s', receiveUdpPacket r.payload (some r.before.length) s = .ok s' ∧
    s'.dnsResolvedIp = resolved s.dnsResolvedIp r.answers
  visits : Visits r.payload r.questionStart r.sections.length r.answers.length r.name.question.length
    (tails (r.questionStart + r.name.question.length) r.answers)

/-- The question is sent as it should be, and the response is understood. -/
def Meets (r : Response) (s : State) : Prop := Asks s r.name ∧ Resolves r s

/-- No answer has a pointer in front of it, and four bytes of the last record, or behind it, are there for the trace. -/
structure Plain (r : Response) : Prop where
  labels : ∀ answer ∈ r.answers, answer.owner.pointer = none
  traced : ∀ answer, r.answers.getLast? = some answer → 4 ≤ answer.record.length + r.rest.length + r.behind.length

section Response

variable {payload tail : List UInt8} {questionStart questionLength processed offset turns n nameEnd : Nat} {b : UInt8}
  {answer : Bool} {names : List (List UInt8)} {l : List UInt8}

/-! ### What is read at a place -/

theorem drop_behind {front : List UInt8} (h : payload.drop offset = front ++ tail) (hn : offset + front.length = n) :
    payload.drop n = tail := by
  rw [← hn, ← List.drop_drop, h, List.drop_left]

theorem byte_of_getElem? (h : payload.drop offset = tail) (hb : tail[n]? = some b) :
    byte payload (offset + n) = .ok b := by
  have hget : payload[offset + n]? = some b := by
    rw [← List.getElem?_drop, h, hb]
  obtain ⟨hlt, -⟩ := List.getElem?_eq_some_iff.mp hget
  rw [byte, if_pos hlt, List.getD_eq_getElem?_getD, hget]
  rfl

theorem byte_of_drop (h : payload.drop offset = b :: tail) : byte payload offset = .ok b :=
  @byte_of_getElem? _ _ _ 0 _ h rfl

theorem block_of_drop (h : payload.drop offset = tail) (hn : 0 < n) (hlength : n ≤ tail.length) :
    block payload offset n = .ok (tail.take n) := by
  rw [← h, List.length_drop] at hlength
  rw [block, if_pos (by omega), h]

theorem readBe16_of_getElem? {low : UInt8} (h : payload.drop offset = tail) (hb : tail[n]? = some b)
    (hlow : tail[n + 1]? = some low) : readBe16 payload (offset + n) = .ok (b.toNat * 2 ^ 8 + low.toNat) := by
  rw [readBe16, byte_of_getElem? h hb, ok_bind, Nat.add_assoc, byte_of_getElem? h hlow]
  rfl

theorem be16_value (hn : n < 2 ^ 16) : (UInt8.ofNat (n / 2 ^ 8)).toNat * 2 ^ 8 + (UInt8.ofNat n).toNat = n := by
  have hhigh : (UInt8.ofNat (n / 2 ^ 8)).toNat = n / 2 ^ 8 := UInt8.toNat_ofNat_of_lt' (by
    show n / 2 ^ 8 < 2 ^ 8
    omega)
  have hlow : (UInt8.ofNat n).toNat = n % 2 ^ 8 := UInt8.toNat_ofNat'
  omega

theorem readBe16_of_be16 {place : Nat} (h : payload.drop offset = tail) (hn : n < 2 ^ 16)
    (hhigh : tail[place]? = some (UInt8.ofNat (n / 2 ^ 8))) (hlow : tail[place + 1]? = some (UInt8.ofNat n)) :
    readBe16 payload (offset + place) = .ok n := by
  rw [readBe16_of_getElem? h hhigh hlow, be16_value hn]

theorem readBe16_of_drop (h : payload.drop offset = be16 n ++ tail) (hn : n < 2 ^ 16) :
    readBe16 payload offset = .ok n :=
  @readBe16_of_be16 _ _ _ _ 0 h hn rfl rfl

/-! ### Names -/

theorem IsLabel.toNat_length (hl : IsLabel l) : (UInt8.ofNat l.length).toNat = l.length := by
  have := hl.2
  apply UInt8.toNat_ofNat_of_lt'
  show l.length < 2 ^ 8
  omega

theorem IsLabel.length_ne_zero (hl : IsLabel l) : UInt8.ofNat l.length ≠ 0 := fun hzero => by
  have := hl.1
  rw [← hl.toNat_length, hzero] at this
  exact absurd this (by decide)

theorem length_encodeLabels_cons : (encodeLabels (l :: names)).length = l.length + 1 + (encodeLabels names).length := by
  rw [encodeLabels_cons, List.length_cons, List.length_append]
  omega

theorem drop_label (h : payload.drop (questionStart + processed) = encodeLabels (l :: names) ++ tail) :
    payload.drop (questionStart + (processed + (l.length + 1))) = encodeLabels names ++ tail := by
  rw [encodeLabels_cons, List.cons_append, List.append_assoc] at h
  exact @drop_behind _ _ _ _ (UInt8.ofNat l.length :: l) h (by
    rw [List.length_cons]
    omega)

theorem labels_end (h : payload.drop (questionStart + processed) = 0 :: tail) :
    labels payload questionStart questionLength answer (turns + 1) processed = .ok (some processed) := by
  rw [labels, byte_of_drop h, ok_bind, if_pos rfl]
  rfl

theorem labels_label (h : payload.drop (questionStart + processed) = UInt8.ofNat l.length :: (l ++ tail))
    (hl : IsLabel l) (hzero : 0 ∈ tail) (hlt : processed + (l.length + 1) < questionLength)
    (hlength : questionLength < 2 ^ 16) :
    labels payload questionStart questionLength answer (turns + 1) processed =
      labels payload questionStart questionLength answer turns (processed + (l.length + 1)) := by
  have hbehind : payload.drop (questionStart + processed + 1) = l ++ tail :=
    @drop_behind _ _ _ _ [UInt8.ofNat l.length] h rfl
  have htext : ∃ name, traceName payload answer (questionStart + processed + 1) = .ok name := by
    rw [traceName]
    split
    · rw [text, hbehind, if_pos (List.mem_append_right _ hzero)]
      exact ⟨_, rfl⟩
    · exact ⟨_, rfl⟩
  obtain ⟨name, hname⟩ := htext
  rw [labels, byte_of_drop h, ok_bind, if_neg hl.length_ne_zero, hl.toNat_length, add, if_pos (by omega), ok_bind,
    hname, ok_bind, if_neg (by omega)]

theorem labels_names (h : payload.drop (questionStart + processed) = encodeLabels names ++ tail)
    (hnames : ∀ l ∈ names, IsLabel l) (hzero : 0 ∈ tail)
    (hlt : processed + (encodeLabels names).length < questionLength) (hlength : questionLength < 2 ^ 16) :
    labels payload questionStart questionLength answer (turns + names.length) processed =
      labels payload questionStart questionLength answer turns (processed + (encodeLabels names).length) := by
  induction names generalizing processed with
  | nil => rfl
  | cons l names ih =>
      obtain ⟨hl, hnames⟩ := List.forall_mem_cons.mp hnames
      have hnext := drop_label h
      rw [encodeLabels_cons, List.cons_append, List.append_assoc] at h
      rw [length_encodeLabels_cons] at hlt ⊢
      rw [List.length_cons, ← Nat.add_assoc turns, labels_label h hl (List.mem_append_right _ hzero) (by omega) hlength,
        ih hnext hnames (by omega), Nat.add_assoc processed]

theorem length_names_le : names.length ≤ (encodeLabels names).length := by
  induction names with
  | nil => exact Nat.le_refl _
  | cons l names ih =>
      rw [length_encodeLabels_cons, List.length_cons]
      omega

theorem labels_plain (h : payload.drop (questionStart + processed) = encodeLabels names ++ 0 :: tail)
    (hnames : ∀ l ∈ names, IsLabel l) (hlt : processed + (encodeLabels names).length < questionLength)
    (hlength : questionLength < 2 ^ 16) :
    labels payload questionStart questionLength answer (payload.length + 1) processed =
      .ok (some (processed + (encodeLabels names).length)) := by
  have hle : names.length ≤ payload.length := by
    have := @length_names_le names
    have := congrArg List.length h
    rw [List.length_drop, List.length_append] at this
    omega
  have hend : payload.drop (questionStart + (processed + (encodeLabels names).length)) = 0 :: tail :=
    drop_behind h (Nat.add_assoc ..)
  rw [show payload.length + 1 = payload.length - names.length + 1 + names.length by omega,
    labels_names h hnames (List.mem_cons_self ..) hlt hlength, labels_end hend]

theorem labels_succ
    (h : labels payload questionStart questionLength answer (turns + 1) processed = .ok (some nameEnd)) :
    ∃ b, byte payload (questionStart + processed) = .ok b ∧ (b = 0 ∧ processed = nameEnd ∨ b ≠ 0 ∧
      labels payload questionStart questionLength answer turns (processed + (b.toNat + 1)) = .ok (some nameEnd)) := by
  obtain ⟨b, hb, h⟩ := bind_eq_ok.mp h
  refine ⟨b, hb, ?_⟩
  by_cases hzero : b = 0
  · rw [if_pos hzero] at h
    exact .inl ⟨hzero, Option.some.inj (Except.ok.inj h)⟩
  · rw [if_neg hzero] at h
    obtain ⟨next, hnext, h⟩ := bind_eq_ok.mp h
    obtain ⟨name, -, h⟩ := bind_eq_ok.mp h
    rw [add] at hnext
    split at hnext
    · obtain rfl := Except.ok.inj hnext
      split at h
      · cases h
      · exact .inr ⟨hzero, h⟩
    · cases hnext

theorem le_of_labels (h : labels payload questionStart questionLength answer turns processed = .ok (some nameEnd)) :
    processed ≤ nameEnd := by
  induction turns generalizing processed with
  | zero => cases h
  | succ turns ih =>
      obtain ⟨b, -, ⟨-, hend⟩ | ⟨-, h⟩⟩ := labels_succ h
      · exact Nat.le_of_eq hend
      · have := ih h
        omega

theorem labels_byte (hbyte : payload.drop (questionStart + processed) = b :: tail) (hb : b ≠ 0)
    (h : labels payload questionStart questionLength answer turns processed = .ok (some nameEnd)) :
    ∃ turns, labels payload questionStart questionLength answer turns (processed + (b.toNat + 1)) =
      .ok (some nameEnd) := by
  cases turns with
  | zero => cases h
  | succ turns =>
      obtain ⟨b', hb', hturn⟩ := labels_succ h
      obtain rfl := Except.ok.inj ((byte_of_drop hbyte).symm.trans hb')
      obtain ⟨-, h⟩ := hturn.resolve_left (fun h => hb h.1)
      exact ⟨turns, h⟩

/-- Behind labels with a pointer the loop comes out too far. -/
theorem lt_of_labels_pointer (hdrop : payload.drop (questionStart + processed) = encodeLabels names ++ b :: tail)
    (hnames : ∀ l ∈ names, IsLabel l) (hb : 0xC0 ≤ b.toNat)
    (h : labels payload questionStart questionLength answer turns processed = .ok (some nameEnd)) :
    processed + (encodeLabels names).length + 1 < nameEnd := by
  induction names generalizing processed turns with
  | nil =>
      obtain ⟨turns, h⟩ := labels_byte hdrop (fun hzero => by
        rw [hzero] at hb
        exact absurd hb (by decide)) h
      have := le_of_labels h
      show processed + 0 + 1 < nameEnd
      omega
  | cons l names ih =>
      obtain ⟨hl, hnames⟩ := List.forall_mem_cons.mp hnames
      have hnext := drop_label hdrop
      rw [encodeLabels_cons, List.cons_append] at hdrop
      obtain ⟨turns, h⟩ := labels_byte hdrop hl.length_ne_zero h
      rw [hl.toNat_length] at h
      have := ih hnext hnames h
      rw [length_encodeLabels_cons]
      omega

end Response

section Answers

variable {payload tail : List UInt8} {questionStart questionLength processed offset : Nat} {a : Answer}
  {as : List Answer} {s : State} {result : Bool × State}

/-! ### Answers -/

theorem encodeAnswers_cons : encodeAnswers (a :: as) = a.bytes ++ encodeAnswers as := List.flatMap_cons

theorem OwnerName.bytes_eq {owner : OwnerName} (h : owner.pointer = none) :
    owner.bytes = encodeLabels owner.labels ++ [0] := by
  rw [OwnerName.bytes, h]

theorem Answer.length_bytes : a.bytes.length = a.owner.bytes.length + 10 + a.record.length := by
  rw [Answer.bytes, List.length_append, List.length_append, List.length_append, a.length_typeClassTtl]
  show _ + (8 + (2 + _)) = _
  omega

theorem labels_answer (h : payload.drop (questionStart + processed) = a.bytes ++ tail) (hplain : a.owner.pointer = none)
    (hle : processed + a.bytes.length ≤ questionLength) (hlength : questionLength < 2 ^ 16) :
    ∃ nameEnd, labels payload questionStart questionLength true (payload.length + 1) processed = .ok (some nameEnd) ∧
      nameEnd + 1 = processed + a.owner.bytes.length := by
  rw [Answer.length_bytes, OwnerName.bytes_eq hplain, List.length_append] at hle
  rw [Answer.bytes, OwnerName.bytes_eq hplain, List.append_assoc, List.append_assoc] at h
  refine ⟨_, labels_plain h a.owner.isLabel (by omega) hlength, ?_⟩
  rw [OwnerName.bytes_eq hplain, List.length_append]
  rfl

theorem drop_recordLength (h : payload.drop offset = a.bytes ++ tail) :
    payload.drop (offset + a.owner.bytes.length + 8) = be16 a.record.length ++ (a.record ++ tail) := by
  rw [Answer.bytes, List.append_assoc, List.append_assoc, List.append_assoc] at h
  exact drop_behind (drop_behind h rfl) (congrArg _ a.length_typeClassTtl)

theorem drop_record (h : payload.drop offset = a.bytes ++ tail) :
    payload.drop (offset + a.owner.bytes.length + 10) = a.record ++ tail :=
  drop_behind (drop_recordLength h) rfl

theorem drop_answer (h : payload.drop (questionStart + processed) = encodeAnswers (a :: as) ++ tail) :
    payload.drop (questionStart + processed) = a.bytes ++ (encodeAnswers as ++ tail) ∧
      payload.drop (questionStart + (processed + a.bytes.length)) = encodeAnswers as ++ tail := by
  rw [encodeAnswers_cons, List.append_assoc] at h
  exact ⟨h, drop_behind h (Nat.add_assoc ..)⟩

theorem readBe16_recordLength (h : payload.drop offset = a.bytes ++ tail) :
    readBe16 payload (offset + a.owner.bytes.length + 8) = .ok a.record.length :=
  readBe16_of_drop (drop_recordLength h) a.length_record_lt

theorem resolved_singleton {ip : List UInt8} :
    resolved ip [a] = if a.record.length = 4 then a.record else ip := by
  rw [resolved, List.map_singleton, List.filter_singleton]
  by_cases hfour : a.record.length = 4
  · rw [if_pos hfour, decide_eq_true hfour]
    rfl
  · rw [if_neg hfour, decide_eq_false hfour]
    rfl

theorem resolved_cons {ip : List UInt8} : resolved ip (a :: as) = resolved (resolved ip [a]) as := by
  rw [resolved_singleton, resolved, List.map_cons]
  split
  · rename_i hfour
    rw [List.filter_cons_of_pos (by simpa using hfour), List.getLast?_cons]
    rfl
  · rename_i hfour
    rw [List.filter_cons_of_neg (by simpa using hfour)]
    rfl

/-- An answer of labels is gone through, when four bytes of its record can be traced. -/
theorem answers_succ {answerCount : Nat} (h : payload.drop (questionStart + processed) = a.bytes ++ tail)
    (hplain : a.owner.pointer = none) (htraced : 4 ≤ a.record.length + tail.length)
    (hle : processed + a.bytes.length ≤ questionLength) (hlength : questionLength < 2 ^ 16) :
    answers payload questionStart questionLength (answerCount + 1) processed s =
      answers payload questionStart questionLength answerCount (processed + a.bytes.length)
        { s with dnsResolvedIp := resolved s.dnsResolvedIp [a] } := by
  obtain ⟨nameEnd, hlabels, hend⟩ := labels_answer h hplain hle hlength
  have hplace : questionStart + nameEnd + 1 = questionStart + processed + a.owner.bytes.length := by omega
  have hnext : nameEnd + (1 + 14 - 4 + a.record.length) = processed + a.bytes.length := by
    rw [Answer.length_bytes]
    omega
  have hblock : block payload (questionStart + processed + a.owner.bytes.length + 10) 4 =
      .ok ((a.record ++ tail).take 4) := block_of_drop (drop_record h) (Nat.succ_pos 3) (by
    rw [List.length_append]
    exact htraced)
  have hs : (if a.record.length = 4 then { s with dnsResolvedIp := (a.record ++ tail).take 4 } else s) =
      { s with dnsResolvedIp := resolved s.dnsResolvedIp [a] } := by
    rw [resolved_singleton]
    split
    · rename_i hfour
      rw [List.take_left' hfour]
    · rfl
  rw [answers, hlabels, ok_bind]
  dsimp only
  rw [hplace, readBe16_recordLength h, ok_bind, hblock, ok_bind, add, hnext, if_pos (by omega), ok_bind, hs]

theorem answers_eq (h : payload.drop (questionStart + processed) = encodeAnswers as ++ tail)
    (hplain : ∀ a ∈ as, a.owner.pointer = none)
    (htraced : ∀ a, as.getLast? = some a → 4 ≤ a.record.length + tail.length)
    (hle : processed + (encodeAnswers as).length ≤ questionLength) (hlength : questionLength < 2 ^ 16) :
    answers payload questionStart questionLength as.length processed s =
      .ok (true, { s with dnsResolvedIp := resolved s.dnsResolvedIp as }) := by
  induction as generalizing processed s with
  | nil => rfl
  | cons a as ih =>
      obtain ⟨ha, hplain⟩ := List.forall_mem_cons.mp hplain
      obtain ⟨hfirst, hnext⟩ := drop_answer h
      rw [encodeAnswers_cons, List.length_append] at hle
      have hroom : 4 ≤ a.record.length + (encodeAnswers as ++ tail).length := by
        cases as with
        | nil => exact htraced a rfl
        | cons b as =>
            have := @Answer.length_bytes b
            rw [encodeAnswers_cons, List.length_append, List.length_append]
            omega
      have hlast : ∀ last, as.getLast? = some last → 4 ≤ last.record.length + tail.length := fun last hlast =>
        htraced last (by
          rw [List.getLast?_cons, hlast]
          rfl)
      rw [List.length_cons, answers_succ hfirst ha hroom (by omega) hlength, ih hnext hplain hlast (by omega),
        @resolved_cons a as]

theorem visits_succ {answerCount place : Nat} {places : List Nat} :
    Visits payload questionStart questionLength (answerCount + 1) processed (place :: places) ↔
      ∃ nameEnd recordLength, place = questionStart + nameEnd + 1 ∧
        labels payload questionStart questionLength true (payload.length + 1) processed = .ok (some nameEnd) ∧
        readBe16 payload (place + 8) = .ok recordLength ∧
        Visits payload questionStart questionLength answerCount (nameEnd + (1 + 14 - 4 + recordLength)) places := by
  constructor
  · intro h
    generalize hplaces : place :: places = all at h
    cases h with
    | answer hlabels hread hrest =>
        obtain ⟨rfl, rfl⟩ := List.cons.inj hplaces
        exact ⟨_, _, rfl, hlabels, hread, hrest⟩
  · intro h
    obtain ⟨nameEnd, recordLength, rfl, hlabels, hread, hrest⟩ := h
    exact .answer hlabels hread hrest

/-- Behind a pointer the tail of an answer is not found. -/
theorem pointer_eq_none (h : payload.drop (questionStart + processed) = a.bytes ++ tail) {nameEnd turns : Nat}
    (hlabels : labels payload questionStart questionLength true turns processed = .ok (some nameEnd))
    (hend : nameEnd + 1 = processed + a.owner.bytes.length) : a.owner.pointer = none := by
  cases hpointer : a.owner.pointer with
  | none => rfl
  | some pointer =>
      have hbytes : a.owner.bytes = encodeLabels a.owner.labels ++ [pointer.1, pointer.2] := by
        rw [OwnerName.bytes, hpointer]
      rw [Answer.bytes, hbytes, List.append_assoc, List.append_assoc] at h
      have hlt := lt_of_labels_pointer h a.owner.isLabel (a.owner.isPointer _ _ hpointer) hlabels
      rw [hbytes, List.length_append] at hend
      exact absurd hend (by
        show nameEnd + 1 ≠ processed + ((encodeLabels a.owner.labels).length + 2)
        omega)

theorem visits_iff (hplace : offset = questionStart + processed)
    (h : payload.drop offset = encodeAnswers as ++ tail)
    (hle : processed + (encodeAnswers as).length ≤ questionLength) (hlength : questionLength < 2 ^ 16) :
    Visits payload questionStart questionLength as.length processed (tails offset as) ↔
      ∀ a ∈ as, a.owner.pointer = none := by
  induction as generalizing processed offset with
  | nil => exact iff_of_true .done fun a ha => absurd ha List.not_mem_nil
  | cons a as ih =>
      rw [hplace] at h
      obtain ⟨hfirst, hnext⟩ := drop_answer h
      rw [encodeAnswers_cons, List.length_append] at hle
      have hbytes := @Answer.length_bytes a
      have hoffset : offset + a.bytes.length = questionStart + (processed + a.bytes.length) := by omega
      have hrest := ih hoffset (hoffset ▸ hnext) (by omega)
      rw [List.forall_mem_cons, ← hrest, tails]
      have hread := readBe16_recordLength hfirst
      rw [List.length_cons, visits_succ]
      constructor
      · intro hvisits
        obtain ⟨nameEnd, recordLength, htail, hlabels, hread', hvisits⟩ := hvisits
        rw [hplace] at hread'
        obtain rfl := Except.ok.inj (hread.symm.trans hread')
        have hprocessed : nameEnd + (1 + 14 - 4 + a.record.length) = processed + a.bytes.length := by omega
        exact ⟨pointer_eq_none hfirst hlabels (by omega), hprocessed ▸ hvisits⟩
      · intro hplain
        obtain ⟨hplain, hvisits⟩ := hplain
        obtain ⟨nameEnd, hlabels, hend⟩ := labels_answer hfirst hplain (by omega) hlength
        have hprocessed : processed + a.bytes.length = nameEnd + (1 + 14 - 4 + a.record.length) := by omega
        exact ⟨nameEnd, a.record.length, by omega, hlabels, hplace ▸ hread, hprocessed ▸ hvisits⟩

/-- When an answer of labels is gone through without a fault, four bytes of its record have been traced. -/
theorem traced_of_answers_succ {answerCount : Nat} (h : payload.drop (questionStart + processed) = a.bytes ++ tail)
    (hplain : a.owner.pointer = none) (hle : processed + a.bytes.length ≤ questionLength)
    (hlength : questionLength < 2 ^ 16)
    (hanswers : answers payload questionStart questionLength (answerCount + 1) processed s = .ok result) :
    4 ≤ a.record.length + tail.length := by
  obtain ⟨nameEnd, hlabels, hend⟩ := labels_answer h hplain hle hlength
  have hplace : questionStart + nameEnd + 1 = questionStart + processed + a.owner.bytes.length := by omega
  rw [answers, hlabels, ok_bind] at hanswers
  dsimp only at hanswers
  rw [hplace, readBe16_recordLength h, ok_bind] at hanswers
  obtain ⟨data, hdata, -⟩ := bind_eq_ok.mp hanswers
  rw [block] at hdata
  split at hdata
  · rename_i hroom
    have hrecord := congrArg List.length (drop_record h)
    rw [List.length_drop, List.length_append] at hrecord
    omega
  · cases hdata

theorem traced_of_answers (h : payload.drop (questionStart + processed) = encodeAnswers as ++ tail)
    (hplain : ∀ a ∈ as, a.owner.pointer = none) (hle : processed + (encodeAnswers as).length ≤ questionLength)
    (hlength : questionLength < 2 ^ 16)
    (hanswers : answers payload questionStart questionLength as.length processed s = .ok result) :
    ∀ a, as.getLast? = some a → 4 ≤ a.record.length + tail.length := by
  induction as generalizing processed s with
  | nil =>
      intro a ha
      cases ha
  | cons a as ih =>
      obtain ⟨ha, hplain⟩ := List.forall_mem_cons.mp hplain
      obtain ⟨hfirst, hnext⟩ := drop_answer h
      rw [encodeAnswers_cons, List.length_append] at hle
      have hroom := traced_of_answers_succ hfirst ha (by omega) hlength hanswers
      rw [List.length_cons, answers_succ hfirst ha hroom (by omega) hlength] at hanswers
      have hrest := ih hnext hplain (by omega) hanswers
      intro last hlast
      cases as with
      | nil =>
          obtain rfl := Option.some.inj hlast
          exact hroom
      | cons b as => exact hrest last hlast

end Answers

/-! ### The whole response -/

theorem DomainName.length_question (name : DomainName) :
    name.question.length = (encodeLabels name.labels).length + 5 := by
  rw [DomainName.question, List.length_append, List.length_append]
  rfl

namespace Response

variable (r : Response) (s : State)

theorem length_sections : r.sections.length = r.name.question.length + ((encodeAnswers r.answers).length +
    r.rest.length) := by
  rw [sections, List.length_append, List.length_append]

theorem length_sections_lt : r.sections.length + 20 < 2 ^ 16 := by
  have := r.length_lt
  rw [length_sections]
  omega

theorem length_answers_le : r.answers.length ≤ (encodeAnswers r.answers).length := by
  generalize r.answers = as
  induction as with
  | nil => exact Nat.le_refl _
  | cons a as ih =>
      have := @Answer.length_bytes a
      rw [encodeAnswers_cons, List.length_append, List.length_cons]
      omega

theorem drop_udpHeader : r.payload.drop r.before.length = r.udpHeader ++ (r.dnsHeader ++ (r.sections ++ r.behind)) :=
  List.drop_left

theorem drop_dnsHeader : r.payload.drop (r.before.length + 8) = r.dnsHeader ++ (r.sections ++ r.behind) :=
  drop_behind r.drop_udpHeader rfl

theorem drop_questionStart : r.payload.drop r.questionStart = r.sections ++ r.behind :=
  drop_behind r.drop_dnsHeader rfl

theorem drop_answers : r.payload.drop (r.questionStart + r.name.question.length) =
    encodeAnswers r.answers ++ (r.rest ++ r.behind) := by
  have h := r.drop_questionStart
  rw [sections, List.append_assoc, List.append_assoc] at h
  exact drop_behind h rfl

theorem questions_eq : questions r.payload r.questionStart r.sections.length 1 0 =
    .ok (some r.name.question.length) := by
  have hlength := r.length_sections_lt
  have hsections := r.length_sections
  rw [r.name.length_question] at hsections
  have h := r.drop_questionStart
  rw [sections, DomainName.question, List.append_assoc, List.append_assoc, List.append_assoc] at h
  have hlabels := @labels_plain _ _ r.questionStart r.sections.length 0 false _ h r.name.isLabel (by omega) (by omega)
  rw [questions, hlabels, ok_bind]
  dsimp only
  rw [add, if_pos (by omega), ok_bind, Nat.zero_add, r.name.length_question]
  rfl

theorem receiveUdpPacket_eq : receiveUdpPacket r.payload (some r.before.length) s = do
    let (ended, s) ← Pan.answers r.payload r.questionStart r.sections.length r.answers.length r.name.question.length s
    return if ended ∧ s.webSiteAccessTest then
      { s with sent := .httpRequest :: s.sent, testWait := .httpResponse } else s := by
  have hlength := r.length_sections_lt
  have hanswers := r.length_answers_le
  have hsections := r.length_sections
  have hport : readBe16 r.payload r.before.length = .ok 53 := readBe16_of_drop r.drop_udpHeader (by decide)
  have hdest : readBe16 r.payload (r.before.length + 2) = .ok (r.destPort.1.toNat * 2 ^ 8 + r.destPort.2.toNat) :=
    readBe16_of_getElem? r.drop_udpHeader rfl rfl
  have htotal : readBe16 r.payload (r.before.length + 4) = .ok (20 + r.sections.length) :=
    readBe16_of_be16 r.drop_udpHeader (by omega) rfl rfl
  have hquestionCount : readBe16 r.payload (r.before.length + 8 + 4) = .ok 1 :=
    readBe16_of_be16 r.drop_dnsHeader (by decide) rfl rfl
  have hanswerCount : readBe16 r.payload (r.before.length + 8 + 6) = .ok r.answers.length :=
    readBe16_of_be16 r.drop_dnsHeader (by omega) rfl rfl
  have hindicator : byte r.payload (r.before.length + 8 + 2) = .ok r.flags.1 :=
    byte_of_getElem? r.drop_dnsHeader rfl
  have hudp : sub (20 + r.sections.length) sizeofUdpHeader = .ok (12 + r.sections.length) := by
    have hsize : sizeofUdpHeader = 8 := rfl
    rw [sub, if_pos (by omega), hsize]
    exact congrArg Except.ok (by omega)
  have hdns : sub (12 + r.sections.length) sizeofDnsHeader = .ok r.sections.length := by
    have hsize : sizeofDnsHeader = 12 := rfl
    rw [sub, if_pos (by omega), hsize, Nat.add_sub_cancel_left]
  rw [receiveUdpPacket]
  dsimp only
  rw [htotal, ok_bind, hport, ok_bind, hdest, ok_bind, hudp, ok_bind]
  show receiveDns r.payload r.before.length (12 + r.sections.length) s = _
  rw [receiveDns, hdns, ok_bind]
  dsimp only [sizeofUdpHeader]
  rw [hquestionCount, ok_bind, hanswerCount, ok_bind, hindicator, ok_bind]
  show (questions r.payload r.questionStart r.sections.length 1 0 >>= _) = _
  rw [questions_eq, ok_bind]
  rfl

/-- **Exactly when the response is understood**: whatever the variables are. -/
theorem resolves_iff : Resolves r s ↔ Plain r := by
  have hlength := r.length_sections_lt
  have hsections := r.length_sections
  have hle : r.name.question.length + (encodeAnswers r.answers).length ≤ r.sections.length := by omega
  have hvisits := visits_iff rfl r.drop_answers hle (by omega)
  constructor
  · intro h
    have hlabels := hvisits.mp h.visits
    obtain ⟨s', hs', -⟩ := h.receives
    rw [receiveUdpPacket_eq] at hs'
    obtain ⟨result, hresult, -⟩ := bind_eq_ok.mp hs'
    refine ⟨hlabels, fun answer hlast => ?_⟩
    have htraced := traced_of_answers r.drop_answers hlabels hle (by omega) hresult answer hlast
    rwa [List.length_append, ← Nat.add_assoc] at htraced
  · intro h
    refine ⟨?_, hvisits.mpr h.labels⟩
    have htraced : ∀ answer, r.answers.getLast? = some answer →
        4 ≤ answer.record.length + (r.rest ++ r.behind).length := by
      intro answer hlast
      rw [List.length_append, ← Nat.add_assoc]
      exact h.traced answer hlast
    rw [receiveUdpPacket_eq, answers_eq r.drop_answers h.labels htraced hle (by omega), ok_bind]
    refine ⟨_, rfl, ?_⟩
    split
    · rfl
    · rfl

end Response

/-- **Exactly when a question and its response go well.** -/
theorem dns_meets_iff (r : Response) (s : State) : Meets r s ↔ Plain r := by
  rw [← r.resolves_iff s]
  exact and_iff_right (asks s r.name)

/-! ### A response with a pointer -/

def nameAB : DomainName where
  labels := [[0x61], [0x62]]
  isLabel := by decide
  noDot := by decide
  length_pos := by decide
  length_le := by decide

/-- The address 1.2.3.4 of the name at byte 12 of the message, where the question is -/
def answerAtQuestion : Answer where
  owner := ⟨[], by decide, some (0xC0, 0x0C), by
    intro high low h
    obtain ⟨rfl, rfl⟩ := Prod.mk.inj (Option.some.inj h)
    decide⟩
  typeClassTtl := [0x00, 0x01, 0x00, 0x01, 0, 0, 0, 60]
  record := [1, 2, 3, 4]
  length_typeClassTtl := rfl
  length_record_lt := by decide

def responseAB : Response where
  before := List.replicate 20 0
  destPort := (0x50, 0x05)
  udpChecksum := (0, 0)
  transactionId := (0xcd, 0x13)
  flags := (0x81, 0x80)
  resourceRecordCount := (0, 0)
  additionalRecordCount := (0, 0)
  name := nameAB
  answers := [answerAtQuestion]
  rest := []
  behind := []
  length_lt := by decide

/-- The response is given up at the pointer, without its address. -/
theorem not_meets_pointer : ¬ ∀ (r : Response) (s : State), Meets r s := by
  intro h
  obtain ⟨s', hs', hip⟩ := (h responseAB ⟨[], [], [], [], [], [], [], [0, 0, 0, 0], false, .null, []⟩).2.receives
  have hkept : (receiveUdpPacket responseAB.payload (some responseAB.before.length)
      ⟨[], [], [], [], [], [], [], [0, 0, 0, 0], false, .null, []⟩).map State.dnsResolvedIp = .ok [0, 0, 0, 0] := by
    rfl
  rw [hs'] at hkept
  exact absurd (hip.symm.trans (Except.ok.inj hkept)) (by decide)

end Best1307.Pan
