import Best1307.Lib.Checked
import Best1307.Pan.Checksum

/-!
# Packets that are received

`app_pan.cpp`: what is done with an Ethernet payload, up to the data of the protocols. Every length in it is the peer's.
Reads are checked to be inside the payload, and lengths and counters of 16 bits not to go round; what a trace is given
is read, too.
-/

namespace Best1307.Pan

open Checked (Fault byte block text sub add Succeeds succeeds_ok succeeds_pure succeeds_error succeeds_bind
  succeeds_bind_pure succeeds_ite succeeds_byte succeeds_block succeeds_text succeeds_sub succeeds_add)

/-- `app_bt_pan_test_wait_enum`, as far as it is set here -/
inductive TestWait
  | null | dhcpAck | arpReply | dnsResponse | httpResponse
  deriving DecidableEq, Repr

inductive Send
  | ipv4 (packet : List UInt8)
  | ipv6 (packet : List UInt8)
  | dhcpRequest
  | arpRequest
  | httpRequest
  deriving DecidableEq, Repr

/-- The variables `g_pan_…` and `g_dns_resolved_ip`, and what has been sent -/
structure State where
  requestedIp : List UInt8
  localIpBe : List UInt8
  peerIpBe : List UInt8
  submaskBe : List UInt8
  routerIp : List UInt8
  domainNameServer : List UInt8
  serverIdentifier : List UInt8
  dnsResolvedIp : List UInt8
  webSiteAccessTest : Bool
  testWait : TestWait
  sent : List Send

/-- `struct internet_payload_info`, with the place of `payload_data` in the payload unless it is `NULL` -/
structure PayloadInfo where
  payloadData : Option Nat
  headerLength : Nat
  payloadLength : Nat

/-- `PAN_BE_TO_HOST16` -/
def readBe16 (payload : List UInt8) (offset : Nat) : Except Fault Nat := do
  let high ← byte payload offset
  let low ← byte payload (offset + 1)
  return high.toNat * 2 ^ 8 + low.toNat

section

variable (payload : List UInt8)

/-! ### Lengths -/

/-- `app_bt_pan_get_ipv4_payload` -/
def getIpv4Payload : Except Fault PayloadInfo := do
  let first ← byte payload 0
  let headerLength := first.toNat % 2 ^ 4 * 4
  if headerLength < ipv4HeaderMinLength ∨ ipv4HeaderMaxLength < headerLength then return ⟨none, 0, 0⟩
  else
    let totalLength ← readBe16 payload 2
    let payloadLength ← sub totalLength headerLength
    return ⟨some headerLength, headerLength, payloadLength⟩

def sizeofIpv6Header : Nat := 40

/-- `app_bt_pan_get_ipv6_payload` -/
def getIpv6Payload : Except Fault PayloadInfo := do
  let totalLength ← readBe16 payload 4
  let payloadLength ← sub totalLength sizeofIpv6Header
  return ⟨some sizeofIpv6Header, sizeofIpv6Header, payloadLength⟩

def tcpHeaderMinLength : Nat := 20
def tcpHeaderMaxLength : Nat := 60

/-- The part that `app_bt_pan_get_tcp_payload` and `app_bt_pan_get_tcp_ipv6_payload` have in common. The bits of
`data_offset` are the highest four of a little-endian number, so they are in its second byte. -/
def tcpPayload (info : PayloadInfo) : Except Fault PayloadInfo := do
  let bits ← byte payload (info.headerLength + 13)
  let tcpHeaderLength := bits.toNat / 2 ^ 4 * 4
  if tcpHeaderLength < tcpHeaderMinLength ∨ tcpHeaderMaxLength < tcpHeaderLength then return ⟨none, 0, 0⟩
  else
    let payloadLength ← sub info.payloadLength tcpHeaderLength
    return ⟨some (info.headerLength + tcpHeaderLength), tcpHeaderLength, payloadLength⟩

/-- `app_bt_pan_get_tcp_payload` -/
def getTcpPayload : Except Fault PayloadInfo := do
  let info ← getIpv4Payload payload
  if info.headerLength = 0 then return ⟨none, 0, 0⟩ else tcpPayload payload info

/-- `app_bt_pan_get_tcp_ipv6_payload` -/
def getTcpIpv6Payload : Except Fault PayloadInfo := do
  let info ← getIpv6Payload payload
  tcpPayload payload info

/-- `app_bt_pan_receive_tcp_packet`, up to the data -/
def receiveTcpPacket : Except Fault PayloadInfo := do
  let _ ← getIpv4Payload payload
  getTcpPayload payload

/-- `app_bt_pan_receive_tcp_ipv6_packet`, up to the data -/
def receiveTcpIpv6Packet : Except Fault PayloadInfo := do
  let _ ← getIpv6Payload payload
  getTcpIpv6Payload payload

/-! ### Echoes -/

def icmpEchoReplyMaxExtraSize : Nat := 16
def sizeofIcmpPacket : Nat := 28
def sizeofIcmp6Packet : Nat := 48

/-- The bytes behind the headers that go into the reply -/
def extraData (sizeofPacket : Nat) : Except Fault (List UInt8) := do
  let extraDataLength ← sub payload.length sizeofPacket
  if extraDataLength = 0 then return []
  else block payload sizeofPacket (min extraDataLength icmpEchoReplyMaxExtraSize)

/-- `app_bt_pan_receive_icmp_packet` -/
def receiveIcmpPacket (s : State) : Except Fault State := do
  let icmpType ← byte payload 20
  let icmpCode ← byte payload 21
  if icmpType = 8 ∧ icmpCode = 0 then
    let extra ← extraData payload sizeofIcmpPacket
    let destAddress ← block payload 16 4
    let sourceAddress ← block payload 12 4
    let restHeaderData ← block payload 24 4
    let reply := [0x45, 0xc0, 0, 0, 0, 0, 0x40, 0, 0x40, 0x01, 0, 0] ++ destAddress ++ sourceAddress ++
      [0, 0, 0, 0] ++ restHeaderData ++ extra
    let reply := writeIpv4HeaderChecksum reply (sizeofIcmpPacket + extra.length)
    let reply := hostToBe16 (calculateChecksum [] (reply.drop 20)) reply 22
    return { s with sent := .ipv4 reply :: s.sent }
  else return s

/-- `app_bt_pan_receive_icmp_6_packet`, as far as it deals with echoes -/
def receiveIcmp6Packet (s : State) : Except Fault State := do
  let icmpType ← byte payload 40
  let icmpCode ← byte payload 41
  if icmpType = 128 ∧ icmpCode = 0 then
    let extra ← extraData payload sizeofIcmp6Packet
    let destAddress ← block payload 24 16
    let sourceAddress ← block payload 8 16
    let restHeaderData ← block payload 44 4
    let reply := [0x60, 0, 0, 0, 0, 0, 0x3a, 0x01] ++ destAddress ++ sourceAddress ++ [129, 0, 0, 0] ++
      restHeaderData ++ extra
    let reply := hostToBe16 (sizeofIcmp6Packet + extra.length) reply 4
    let reply := hostToBe16 (calculateChecksum [] (reply.drop 40)) reply 42
    return { s with sent := .ipv6 reply :: s.sent }
  else return s

/-! ### DHCP -/

/-- An option with `option_code` at a place in the payload -/
def dhcpOption (offset : Nat) (optionCode : UInt8) (s : State) : Except Fault State :=
  match optionCode.toNat with
  | 0x35 => do
      let messageType ← byte payload (offset + 2)
      match messageType.toNat with
      | 0x02 =>
          return { s with
            sent := .dhcpRequest :: s.sent
            testWait := if s.webSiteAccessTest then .dhcpAck else s.testWait }
      | 0x05 =>
          return if s.webSiteAccessTest then { s with sent := .arpRequest :: s.sent, testWait := .arpReply } else s
      | _ => return s
  | 0x01 => do
      let subnetMask ← block payload (offset + 2) 4
      return { s with submaskBe := subnetMask }
  | 0x03 => do
      let routerIpAddress ← block payload (offset + 2) 4
      return { s with routerIp := routerIpAddress }
  | 0x06 => do
      let domainNameServer ← block payload (offset + 2) 4
      return { s with domainNameServer := domainNameServer }
  | 0x36 => do
      let serverAddress ← block payload (offset + 2) 4
      return { s with serverIdentifier := serverAddress }
  | _ => return s

/-- The loop over the options, for at most so many turns -/
def dhcpOptions (optionStart optionLength : Nat) : (turns : Nat) → (optionProcessLen : Nat) → State → Except Fault State
  | 0, optionProcessLen, s => if optionProcessLen < optionLength then .error .endless else .ok s
  | turns + 1, optionProcessLen, s =>
      if optionProcessLen < optionLength then do
        let optionCode ← byte payload (optionStart + optionProcessLen)
        if optionCode = 0x00 ∨ optionCode = 0xff then return s
        else
          let s ← dhcpOption payload (optionStart + optionProcessLen) optionCode s
          let optionLen ← byte payload (optionStart + optionProcessLen + 1)
          let optionProcessLen ← add 16 optionProcessLen (2 + optionLen.toNat)
          dhcpOptions optionStart optionLength turns optionProcessLen s
      else .ok s

def sizeofDhcpHeader : Nat := 240

/-- The case `NS_PORT_BOOTP_SERVER` -/
def receiveDhcp (udpHeader udpPayloadLength : Nat) (s : State) : Except Fault State := do
  let optionLength ← sub udpPayloadLength sizeofDhcpHeader
  let dhcpHeader := udpHeader + sizeofUdpHeader
  let _opCode ← byte payload dhcpHeader
  let yourIpAddress ← block payload (dhcpHeader + 16) 4
  let ipAddressOfNextServer ← block payload (dhcpHeader + 20) 4
  dhcpOptions payload (dhcpHeader + sizeofDhcpHeader) optionLength payload.length 0
    { s with requestedIp := yourIpAddress, localIpBe := yourIpAddress, peerIpBe := ipAddressOfNextServer }

/-! ### DNS -/

section

variable (questionStart questionLength : Nat)

/-- The trace of a label in an answer, which takes what follows for a text -/
def traceName (answer : Bool) (offset : Nat) : Except Fault (List UInt8) :=
  if answer then text payload offset else .ok []

/-- The loop over the labels of a name, for at most so many turns; where it ends, unless the function returns -/
def labels (answer : Bool) : (turns : Nat) → (processedLength : Nat) → Except Fault (Option Nat)
  | 0, _ => .error .endless
  | turns + 1, processedLength => do
      let label ← byte payload (questionStart + processedLength)
      if label = 0 then return some processedLength
      else
        let nextLength ← add 16 processedLength (label.toNat + 1)
        let _ ← traceName payload answer (questionStart + processedLength + 1)
        if questionLength ≤ nextLength then return none else labels answer turns nextLength

def questions : (questionCount : Nat) → (processedLength : Nat) → Except Fault (Option Nat)
  | 0, processedLength => return some processedLength
  | questionCount + 1, processedLength => do
      match ← labels payload questionStart questionLength false (payload.length + 1) processedLength with
      | none => return none
      | some processedLength =>
          let processedLength ← add 16 processedLength (1 + 4)
          questions questionCount processedLength

/-- The loop over the answers; whether it ends, and the function does not return -/
def answers : (answerCount : Nat) → (processedLength : Nat) → State → Except Fault (Bool × State)
  | 0, _, s => return (true, s)
  | answerCount + 1, processedLength, s => do
      match ← labels payload questionStart questionLength true (payload.length + 1) processedLength with
      | none => return (false, s)
      | some processedLength =>
          let answerTail := questionStart + processedLength + 1
          let recordLength ← readBe16 payload (answerTail + 8)
          let recordData ← block payload (answerTail + 10) 4
          let s := if recordLength = 4 then { s with dnsResolvedIp := recordData } else s
          let processedLength ← add 16 processedLength (1 + 14 - 4 + recordLength)
          answers answerCount processedLength s

end

def sizeofDnsHeader : Nat := 12

/-- The case `NS_PORT_DNS` -/
def receiveDns (udpHeader udpPayloadLength : Nat) (s : State) : Except Fault State := do
  let questionLength ← sub udpPayloadLength sizeofDnsHeader
  let dnsHeader := udpHeader + sizeofUdpHeader
  let questionCount ← readBe16 payload (dnsHeader + 4)
  let answerCount ← readBe16 payload (dnsHeader + 6)
  let _dnsIndicator ← byte payload (dnsHeader + 2)
  let questionStart := dnsHeader + sizeofDnsHeader
  match ← questions payload questionStart questionLength questionCount 0 with
  | none => return s
  | some processedLength =>
      let (ended, s) ← answers payload questionStart questionLength answerCount processedLength s
      return if ended ∧ s.webSiteAccessTest then
        { s with sent := .httpRequest :: s.sent, testWait := .httpResponse } else s

/-- `app_bt_pan_receive_udp_packet`; at `NULL` there is nothing of the payload. -/
def receiveUdpPacket (udpHeader : Option Nat) (s : State) : Except Fault State :=
  match udpHeader with
  | none => .error .outside
  | some udpHeader => do
      let udpTotalLength ← readBe16 payload (udpHeader + 4)
      let udpSourcePort ← readBe16 payload udpHeader
      let _udpDestPort ← readBe16 payload (udpHeader + 2)
      let udpPayloadLength ← sub udpTotalLength sizeofUdpHeader
      match udpSourcePort with
      | 67 => receiveDhcp payload udpHeader udpPayloadLength s
      | 53 => receiveDns payload udpHeader udpPayloadLength s
      | _ => return s

end

/-! ### All protocols -/

inductive ProtocolType
  | ip
  | ipv6
  deriving DecidableEq, Repr

/-- `btif_pan_ethernet_payload_length` has 16 bits. -/
structure EthernetData where
  protocolType : ProtocolType
  payload : List UInt8
  length_lt : payload.length < 2 ^ 16

/-- `app_bt_pan_enthernet_test_handle`, for the protocols above -/
def ethernetTestHandle (data : EthernetData) (s : State) : Except Fault State :=
  match data.protocolType with
  | .ip => do
      let info ← getIpv4Payload data.payload
      let payloadProtocol ← byte data.payload 9
      match payloadProtocol.toNat with
      | 0x01 => receiveIcmpPacket data.payload s
      | 0x06 => do
          let _ ← receiveTcpPacket data.payload
          return s
      | 0x11 => receiveUdpPacket data.payload info.payloadData s
      | _ => return s
  | .ipv6 => do
      let _ ← getIpv6Payload data.payload
      let payloadProtocol ← byte data.payload 6
      match payloadProtocol.toNat with
      | 0x3a => receiveIcmp6Packet data.payload s
      | 0x06 => do
          let _ ← receiveTcpIpv6Packet data.payload
          return s
      | _ => return s

/-! ### What should be so, and when it is -/

/-- Nothing outside the payload is read, no length or counter goes round, and every loop ends. -/
def Safe (data : EthernetData) (s : State) : Prop := ∃ s', ethernetTestHandle data s = .ok s'

section

variable (payload : List UInt8)

/-- A packet that is not an echo has a type and a code; an echo has all of its headers. -/
def EchoFits (icmpHeader sizeofPacket : Nat) (echoRequest : UInt8) : Prop :=
  icmpHeader + 2 ≤ payload.length ∧
    (payload.getD icmpHeader 0 = echoRequest ∧ payload.getD (icmpHeader + 1) 0 = 0 → sizeofPacket ≤ payload.length)

/-- `data_offset` is in the payload, and a header of that length, if it may have it, is not longer than the segment. -/
def TcpFits (tcpHeader length : Nat) : Prop :=
  tcpHeader + 14 ≤ payload.length ∧
    (tcpHeaderMinLength ≤ (payload.getD (tcpHeader + 13) 0).toNat / 2 ^ 4 * 4 →
      (payload.getD (tcpHeader + 13) 0).toNat / 2 ^ 4 * 4 ≤ length)

/-- The bytes that are read of the value of an option -/
def valueLength (optionCode : UInt8) : Nat :=
  match optionCode.toNat with
  | 0x35 => 1
  | 0x01 | 0x03 | 0x06 | 0x36 => 4
  | _ => 0

/-- From a place on every option that begins before the end is in the payload, with the part of its value that is read;
the code 0 or 255 ends the options. -/
inductive OptionsFit (optionEnd : Nat) : (offset : Nat) → Prop
  | beyond {offset : Nat} (hover : optionEnd ≤ offset) : OptionsFit optionEnd offset
  | stop {offset : Nat} (hlt : offset < payload.length)
      (hcode : payload.getD offset 0 = 0x00 ∨ payload.getD offset 0 = 0xff) : OptionsFit optionEnd offset
  | option {offset : Nat} (hread : offset + 2 + valueLength (payload.getD offset 0) ≤ payload.length)
      (hrest : OptionsFit optionEnd (offset + 2 + (payload.getD (offset + 1) 0).toNat)) : OptionsFit optionEnd offset

/-- The labels of a name begin in the payload up to the zero byte or to the end of the data, their lengths do not sum up
to more than 16 bits, and in answers a zero byte follows; with the zero byte of the name at a place of which `next` is
so. -/
inductive LabelsFit (questionStart questionLength : Nat) (answer : Bool) (next : Nat → Prop) : (processed : Nat) → Prop
  | last {processed : Nat} (hlt : questionStart + processed < payload.length)
      (hzero : payload.getD (questionStart + processed) 0 = 0) (hnext : next processed) :
      LabelsFit questionStart questionLength answer next processed
  | beyond {processed : Nat} (hlt : questionStart + processed < payload.length)
      (hlabel : payload.getD (questionStart + processed) 0 ≠ 0)
      (hadd : processed + ((payload.getD (questionStart + processed) 0).toNat + 1) < 2 ^ 16)
      (htext : answer → 0 ∈ payload.drop (questionStart + processed + 1))
      (hover : questionLength ≤ processed + ((payload.getD (questionStart + processed) 0).toNat + 1)) :
      LabelsFit questionStart questionLength answer next processed
  | label {processed : Nat} (hlt : questionStart + processed < payload.length)
      (hlabel : payload.getD (questionStart + processed) 0 ≠ 0)
      (hadd : processed + ((payload.getD (questionStart + processed) 0).toNat + 1) < 2 ^ 16)
      (htext : answer → 0 ∈ payload.drop (questionStart + processed + 1))
      (hrest : LabelsFit questionStart questionLength answer next
        (processed + ((payload.getD (questionStart + processed) 0).toNat + 1))) :
      LabelsFit questionStart questionLength answer next processed

/-- A question is a name and four bytes, which need not be there. -/
def QuestionsFit (questionStart questionLength : Nat) (next : Nat → Prop) : (questionCount processed : Nat) → Prop
  | 0, processed => next processed
  | questionCount + 1, processed =>
      LabelsFit payload questionStart questionLength false
        (fun nameEnd => QuestionsFit questionStart questionLength next questionCount (nameEnd + 5)) processed

/-- An answer is a name and ten bytes, the last two of them the length of the record behind them. Four bytes of the
record are in the payload; its length does not make the sum of lengths exceed 16 bits. -/
def AnswersFit (questionStart questionLength : Nat) : (answerCount processed : Nat) → Prop
  | 0, _ => True
  | answerCount + 1, processed =>
      LabelsFit payload questionStart questionLength true
        (fun nameEnd => questionStart + nameEnd + 15 ≤ payload.length ∧
          nameEnd + (11 + beToHost16 payload (questionStart + nameEnd + 9)) < 2 ^ 16 ∧
          AnswersFit questionStart questionLength answerCount
            (nameEnd + (11 + beToHost16 payload (questionStart + nameEnd + 9)))) processed

def DhcpFits (udpHeader udpTotalLength : Nat) : Prop :=
  248 ≤ udpTotalLength ∧ udpHeader + 32 ≤ payload.length ∧
    OptionsFit payload (udpHeader + udpTotalLength) (udpHeader + 248)

def DnsFits (udpHeader udpTotalLength : Nat) : Prop :=
  20 ≤ udpTotalLength ∧ udpHeader + 16 ≤ payload.length ∧
    QuestionsFit payload (udpHeader + 20) (udpTotalLength - 20)
      (AnswersFit payload (udpHeader + 20) (udpTotalLength - 20) (beToHost16 payload (udpHeader + 14)))
      (beToHost16 payload (udpHeader + 12)) 0

def UdpFits (udpHeader : Nat) : Prop :=
  udpHeader + 6 ≤ payload.length ∧ 8 ≤ beToHost16 payload (udpHeader + 4) ∧
    match beToHost16 payload udpHeader with
    | 67 => DhcpFits payload udpHeader (beToHost16 payload (udpHeader + 4))
    | 53 => DnsFits payload udpHeader (beToHost16 payload (udpHeader + 4))
    | _ => True

/-- The payload is long enough for what is read of its headers, and the lengths in them are not less than those of the
headers they include. -/
def Fits : ProtocolType → Prop
  | .ip =>
      10 ≤ payload.length ∧
        (ipv4HeaderMinLength ≤ ipv4HeaderLength payload → ipv4HeaderLength payload ≤ beToHost16 payload 2) ∧
        match (payload.getD 9 0).toNat with
        | 0x01 => EchoFits payload 20 sizeofIcmpPacket 8
        | 0x06 =>
            ipv4HeaderMinLength ≤ ipv4HeaderLength payload →
              TcpFits payload (ipv4HeaderLength payload) (beToHost16 payload 2 - ipv4HeaderLength payload)
        | 0x11 => ipv4HeaderMinLength ≤ ipv4HeaderLength payload ∧ UdpFits payload (ipv4HeaderLength payload)
        | _ => True
  | .ipv6 =>
      7 ≤ payload.length ∧ sizeofIpv6Header ≤ beToHost16 payload 4 ∧
        match (payload.getD 6 0).toNat with
        | 0x3a => EchoFits payload 40 sizeofIcmp6Packet 128
        | 0x06 => TcpFits payload sizeofIpv6Header (beToHost16 payload 4 - sizeofIpv6Header)
        | _ => True

end

section Proofs

variable {payload : List UInt8} {offset : Nat} {info : PayloadInfo} {s : State}

theorem succeeds_readBe16 {post : Nat → Prop} :
    Succeeds (readBe16 payload offset) post ↔ offset + 2 ≤ payload.length ∧ post (beToHost16 payload offset) := by
  simp only [readBe16, succeeds_bind, succeeds_byte, succeeds_pure]
  constructor
  · intro h
    exact ⟨h.2.1, h.2.2⟩
  · intro h
    exact ⟨Nat.lt_of_succ_lt h.1, h.1, h.2⟩

/-! ### Lengths -/

theorem succeeds_getIpv4Payload {post : PayloadInfo → Prop} :
    Succeeds (getIpv4Payload payload) post ↔ 0 < payload.length ∧
      (ipv4HeaderLength payload < ipv4HeaderMinLength → post ⟨none, 0, 0⟩) ∧
      (ipv4HeaderMinLength ≤ ipv4HeaderLength payload → 4 ≤ payload.length ∧
        ipv4HeaderLength payload ≤ beToHost16 payload 2 ∧
        post ⟨some (ipv4HeaderLength payload), ipv4HeaderLength payload,
          beToHost16 payload 2 - ipv4HeaderLength payload⟩) := by
  have hmax := Nat.not_lt.mpr (ipv4HeaderLength_le payload)
  simp only [getIpv4Payload, succeeds_bind, succeeds_byte, succeeds_ite, succeeds_pure, succeeds_readBe16, succeeds_sub]
  rw [← ipv4HeaderLength, or_iff_left hmax, Nat.not_lt]

theorem succeeds_getIpv6Payload {post : PayloadInfo → Prop} :
    Succeeds (getIpv6Payload payload) post ↔ 6 ≤ payload.length ∧ sizeofIpv6Header ≤ beToHost16 payload 4 ∧
      post ⟨some sizeofIpv6Header, sizeofIpv6Header, beToHost16 payload 4 - sizeofIpv6Header⟩ := by
  simp only [getIpv6Payload, succeeds_bind, succeeds_readBe16, succeeds_sub, succeeds_pure]

theorem succeeds_tcpPayload :
    Succeeds (tcpPayload payload info) (fun _ => True) ↔ TcpFits payload info.headerLength info.payloadLength := by
  have hmax : ¬ tcpHeaderMaxLength < (payload.getD (info.headerLength + 13) 0).toNat / 2 ^ 4 * 4 := by
    have hbyte := (payload.getD (info.headerLength + 13) 0).toNat_lt
    have hmax : tcpHeaderMaxLength = 60 := rfl
    omega
  simp only [tcpPayload, succeeds_bind, succeeds_byte, succeeds_ite, succeeds_pure, succeeds_sub, implies_true,
    true_and, and_true]
  rw [or_iff_left hmax, Nat.not_lt]
  exact Iff.rfl

theorem succeeds_receiveTcpPacket :
    Succeeds (receiveTcpPacket payload) (fun _ => True) ↔ 0 < payload.length ∧
      (ipv4HeaderMinLength ≤ ipv4HeaderLength payload → 4 ≤ payload.length ∧
        ipv4HeaderLength payload ≤ beToHost16 payload 2 ∧
        TcpFits payload (ipv4HeaderLength payload) (beToHost16 payload 2 - ipv4HeaderLength payload)) := by
  have hmin : ipv4HeaderMinLength ≤ ipv4HeaderLength payload → ipv4HeaderLength payload ≠ 0 := by
    have hmin : ipv4HeaderMinLength = 20 := rfl
    omega
  simp only [receiveTcpPacket, getTcpPayload, succeeds_bind, succeeds_getIpv4Payload, succeeds_ite, succeeds_pure,
    succeeds_tcpPayload, implies_true, true_and, not_true_eq_false, false_implies]
  constructor
  · intro h
    refine ⟨h.1, fun hvalid => ?_⟩
    obtain ⟨hlen, htotal, -, hrest⟩ := h.2.2 hvalid
    exact ⟨hlen, htotal, (hrest hvalid).2.2 (hmin hvalid)⟩
  · intro h
    refine ⟨h.1, fun hinvalid => ⟨h.1, fun hvalid => absurd hvalid (Nat.not_le.mpr hinvalid)⟩, fun hvalid => ?_⟩
    obtain ⟨hlen, htotal, htcp⟩ := h.2 hvalid
    exact ⟨hlen, htotal, h.1, fun hvalid => ⟨hlen, htotal, fun _ => htcp⟩⟩

theorem succeeds_receiveTcpIpv6Packet :
    Succeeds (receiveTcpIpv6Packet payload) (fun _ => True) ↔ 6 ≤ payload.length ∧
      sizeofIpv6Header ≤ beToHost16 payload 4 ∧
      TcpFits payload sizeofIpv6Header (beToHost16 payload 4 - sizeofIpv6Header) := by
  simp only [receiveTcpIpv6Packet, getTcpIpv6Payload, succeeds_bind, succeeds_getIpv6Payload, succeeds_tcpPayload]
  constructor
  · intro h
    exact h.2.2
  · intro h
    exact ⟨h.1, h.2.1, h⟩

/-! ### Echoes -/

theorem succeeds_extraData {sizeofPacket : Nat} {post : List UInt8 → Prop} :
    Succeeds (extraData payload sizeofPacket) post ↔ sizeofPacket ≤ payload.length ∧
      post ((payload.drop sizeofPacket).take icmpEchoReplyMaxExtraSize) := by
  have hlen : (payload.drop sizeofPacket).length = payload.length - sizeofPacket := List.length_drop
  simp only [extraData, succeeds_bind, succeeds_sub, succeeds_ite, succeeds_pure, succeeds_block]
  apply and_congr_right
  intro hsize
  by_cases hnone : payload.length - sizeofPacket = 0
  · have hnil : payload.drop sizeofPacket = [] := List.eq_nil_of_length_eq_zero (hlen.trans hnone)
    rw [hnil]
    simp only [hnone, forall_const, not_true_eq_false, false_implies, and_true, List.take_nil]
  · have hfits : sizeofPacket + min (payload.length - sizeofPacket) icmpEchoReplyMaxExtraSize ≤ payload.length := by
      omega
    have htake : (payload.drop sizeofPacket).take (min (payload.length - sizeofPacket) icmpEchoReplyMaxExtraSize) =
        (payload.drop sizeofPacket).take icmpEchoReplyMaxExtraSize := by
      rw [← hlen, Nat.min_comm]
      exact List.take_eq_take_min.symm
    rw [htake, and_iff_right (fun h => absurd h hnone), and_iff_right hfits]
    exact ⟨fun h => h hnone, fun h _ => h⟩

theorem echoFits_iff {icmpHeader sizeofPacket : Nat} {echoRequest : UInt8} {blocks : Prop}
    (hblocks : sizeofPacket ≤ payload.length → blocks) :
    (icmpHeader < payload.length ∧ icmpHeader + 1 < payload.length ∧
      (payload.getD icmpHeader 0 = echoRequest ∧ payload.getD (icmpHeader + 1) 0 = 0 →
        sizeofPacket ≤ payload.length ∧ blocks)) ↔ EchoFits payload icmpHeader sizeofPacket echoRequest := by
  constructor
  · intro h
    exact ⟨h.2.1, fun hecho => (h.2.2 hecho).1⟩
  · intro h
    refine ⟨Nat.lt_of_succ_lt h.1, h.1, fun hecho => ?_⟩
    exact ⟨h.2 hecho, hblocks (h.2 hecho)⟩

theorem succeeds_receiveIcmpPacket :
    Succeeds (receiveIcmpPacket payload s) (fun _ => True) ↔ EchoFits payload 20 sizeofIcmpPacket 8 := by
  have hsize : sizeofIcmpPacket = 28 := rfl
  simp only [receiveIcmpPacket, succeeds_bind, succeeds_byte, succeeds_ite, succeeds_extraData, succeeds_block,
    succeeds_pure, and_true, implies_true]
  apply echoFits_iff
  intro hlen
  omega

theorem succeeds_receiveIcmp6Packet :
    Succeeds (receiveIcmp6Packet payload s) (fun _ => True) ↔ EchoFits payload 40 sizeofIcmp6Packet 128 := by
  have hsize : sizeofIcmp6Packet = 48 := rfl
  simp only [receiveIcmp6Packet, succeeds_bind, succeeds_byte, succeeds_ite, succeeds_extraData, succeeds_block,
    succeeds_pure, and_true, implies_true]
  apply echoFits_iff
  intro hlen
  omega

/-! ### DHCP -/

/-- What becomes of the variables has no influence on what is read. -/
theorem succeeds_dhcpOption {optionCode : UInt8} {post : State → Prop} {rest : Prop} (hpost : ∀ s, post s ↔ rest) :
    Succeeds (dhcpOption payload offset optionCode s) post ↔
      (valueLength optionCode = 0 ∨ offset + 2 + valueLength optionCode ≤ payload.length) ∧ rest := by
  rw [dhcpOption, valueLength]
  split
  · simp only [succeeds_bind, succeeds_byte]
    apply and_congr
    · omega
    · split
      · exact succeeds_pure.trans (hpost _)
      · exact succeeds_pure.trans (hpost _)
      · exact succeeds_pure.trans (hpost _)
  · simp only [succeeds_bind, succeeds_block, succeeds_pure, hpost, OfNat.ofNat_ne_zero, false_or]
  · simp only [succeeds_bind, succeeds_block, succeeds_pure, hpost, OfNat.ofNat_ne_zero, false_or]
  · simp only [succeeds_bind, succeeds_block, succeeds_pure, hpost, OfNat.ofNat_ne_zero, false_or]
  · simp only [succeeds_bind, succeeds_block, succeeds_pure, hpost, OfNat.ofNat_ne_zero, false_or]
  · simp only [succeeds_pure, hpost, true_or, true_and]

theorem optionsFit_iff {optionEnd : Nat} :
    OptionsFit payload optionEnd offset ↔ optionEnd ≤ offset ∨ offset < payload.length ∧
      ((payload.getD offset 0 = 0x00 ∨ payload.getD offset 0 = 0xff) ∨
        offset + 2 + valueLength (payload.getD offset 0) ≤ payload.length ∧
          OptionsFit payload optionEnd (offset + 2 + (payload.getD (offset + 1) 0).toNat)) := by
  constructor
  · intro h
    cases h with
    | beyond hover => exact .inl hover
    | stop hlt hcode => exact .inr ⟨hlt, .inl hcode⟩
    | option hread hrest => exact .inr ⟨by omega, .inr ⟨hread, hrest⟩⟩
  · intro h
    rcases h with hover | ⟨hlt, hcode | ⟨hread, hrest⟩⟩
    · exact .beyond hover
    · exact .stop hlt hcode
    · exact .option hread hrest

/-- The options end within as many turns as there are bytes, and the counter does not go round before the payload ends.
-/
theorem succeeds_dhcpOptions {optionStart optionLength turns optionProcessLen : Nat} (hstart : 257 ≤ optionStart)
    (hlength : payload.length < 2 ^ 16) (hturns : payload.length ≤ optionStart + optionProcessLen + turns) :
    Succeeds (dhcpOptions payload optionStart optionLength turns optionProcessLen s) (fun _ => True) ↔
      OptionsFit payload (optionStart + optionLength) (optionStart + optionProcessLen) := by
  induction turns generalizing optionProcessLen s with
  | zero =>
      rw [dhcpOptions, succeeds_ite, succeeds_error, succeeds_ok, optionsFit_iff]
      constructor
      · intro h
        exact .inl (Nat.add_le_add_left (Nat.not_lt.mp h.1) optionStart)
      · intro h
        have hover : optionLength ≤ optionProcessLen := by
          rcases h with hover | hread <;> omega
        exact ⟨Nat.not_lt.mpr hover, fun _ => trivial⟩
  | succ turns ih =>
      rw [optionsFit_iff, dhcpOptions]
      by_cases hend : optionProcessLen < optionLength
      · have hpost : ∀ s : State, (Succeeds (byte payload (optionStart + optionProcessLen + 1)) fun optionLen =>
            Succeeds (add 16 optionProcessLen (2 + optionLen.toNat)) fun optionProcessLen =>
              Succeeds (dhcpOptions payload optionStart optionLength turns optionProcessLen s) fun _ => True) ↔
            optionStart + optionProcessLen + 2 ≤ payload.length ∧
              OptionsFit payload (optionStart + optionLength) (optionStart + optionProcessLen + 2 +
                (payload.getD (optionStart + optionProcessLen + 1) 0).toNat) := by
          intro s
          have hbyte := (payload.getD (optionStart + optionProcessLen + 1) 0).toNat_lt
          rw [succeeds_byte, succeeds_add]
          apply and_congr_right
          intro hlt
          rw [ih (by omega), and_iff_right (by omega), ← Nat.add_assoc, ← Nat.add_assoc]
        rw [if_pos hend]
        simp only [succeeds_bind, @succeeds_byte payload (optionStart + optionProcessLen), succeeds_ite, succeeds_pure]
        rw [succeeds_dhcpOption hpost]
        constructor
        · intro h
          refine .inr ⟨h.1, ?_⟩
          by_cases hcode : payload.getD (optionStart + optionProcessLen) 0 = 0x00 ∨
              payload.getD (optionStart + optionProcessLen) 0 = 0xff
          · exact .inl hcode
          · obtain ⟨hvalue, hlen, hrest⟩ := h.2.2 hcode
            exact .inr ⟨by omega, hrest⟩
        · intro h
          obtain ⟨hlt, hread⟩ := h.resolve_left (by omega)
          refine ⟨hlt, fun _ => trivial, fun hcode => ?_⟩
          obtain ⟨hvalue, hrest⟩ := hread.resolve_left hcode
          exact ⟨.inr hvalue, by omega, hrest⟩
      · rw [if_neg hend, succeeds_ok]
        exact iff_of_true trivial (.inl (by omega))

/-! ### DNS -/

section Names

variable {questionStart questionLength processed : Nat} {answer : Bool} {next : Nat → Prop}

theorem labelsFit_iff :
    LabelsFit payload questionStart questionLength answer next processed ↔
      questionStart + processed < payload.length ∧
        (payload.getD (questionStart + processed) 0 = 0 ∧ next processed ∨
          payload.getD (questionStart + processed) 0 ≠ 0 ∧
            processed + ((payload.getD (questionStart + processed) 0).toNat + 1) < 2 ^ 16 ∧
            (answer → 0 ∈ payload.drop (questionStart + processed + 1)) ∧
            (questionLength ≤ processed + ((payload.getD (questionStart + processed) 0).toNat + 1) ∨
              LabelsFit payload questionStart questionLength answer next
                (processed + ((payload.getD (questionStart + processed) 0).toNat + 1)))) := by
  constructor
  · intro h
    cases h with
    | last hlt hzero hnext => exact ⟨hlt, .inl ⟨hzero, hnext⟩⟩
    | beyond hlt hlabel hadd htext hover => exact ⟨hlt, .inr ⟨hlabel, hadd, htext, .inl hover⟩⟩
    | label hlt hlabel hadd htext hrest => exact ⟨hlt, .inr ⟨hlabel, hadd, htext, .inr hrest⟩⟩
  · intro h
    rcases h with ⟨hlt, ⟨hzero, hnext⟩ | ⟨hlabel, hadd, htext, hover | hrest⟩⟩
    · exact .last hlt hzero hnext
    · exact .beyond hlt hlabel hadd htext hover
    · exact .label hlt hlabel hadd htext hrest

theorem LabelsFit.congr {next' : Nat → Prop} (hnext : ∀ nameEnd, questionStart + nameEnd < payload.length →
      (next nameEnd ↔ next' nameEnd)) :
    LabelsFit payload questionStart questionLength answer next processed ↔
      LabelsFit payload questionStart questionLength answer next' processed := by
  constructor
  · intro h
    induction h with
    | last hlt hzero hend => exact .last hlt hzero ((hnext _ hlt).mp hend)
    | beyond hlt hlabel hadd htext hover => exact .beyond hlt hlabel hadd htext hover
    | label hlt hlabel hadd htext _ ih => exact .label hlt hlabel hadd htext ih
  · intro h
    induction h with
    | last hlt hzero hend => exact .last hlt hzero ((hnext _ hlt).mpr hend)
    | beyond hlt hlabel hadd htext hover => exact .beyond hlt hlabel hadd htext hover
    | label hlt hlabel hadd htext _ ih => exact .label hlt hlabel hadd htext ih

theorem succeeds_traceName {rest : Prop} {post : List UInt8 → Prop} (hpost : ∀ name, post name ↔ rest) :
    Succeeds (traceName payload answer offset) post ↔ (answer → 0 ∈ payload.drop offset) ∧ rest := by
  rw [traceName, succeeds_ite, succeeds_text, succeeds_ok, hpost, hpost]
  cases answer with
  | false => simp only [Bool.false_eq_true, false_implies, not_false_eq_true, forall_const, true_and]
  | true => simp only [forall_const, not_true_eq_false, false_implies, and_true]

theorem QuestionsFit.congr {questionCount : Nat} {next' : Nat → Prop} (h : ∀ nameEnd, next nameEnd ↔ next' nameEnd) :
    QuestionsFit payload questionStart questionLength next questionCount processed ↔
      QuestionsFit payload questionStart questionLength next' questionCount processed := by
  rw [show next = next' from funext fun nameEnd => propext (h nameEnd)]

/-- A name ends within as many turns as there are bytes: every label is a byte further in the payload. -/
theorem succeeds_labels {turns : Nat} {post : Option Nat → Prop} (hnone : post none)
    (hturns : payload.length ≤ questionStart + processed + turns) :
    Succeeds (labels payload questionStart questionLength answer turns processed) post ↔
      LabelsFit payload questionStart questionLength answer (fun nameEnd => post (some nameEnd)) processed := by
  induction turns generalizing processed with
  | zero =>
      rw [labels, succeeds_error, labelsFit_iff]
      exact iff_of_false id fun h => by omega
  | succ turns ih =>
      have hrest : ∀ nextLength, processed < nextLength →
          (Succeeds (if questionLength ≤ nextLength then pure none
              else labels payload questionStart questionLength answer turns nextLength) post ↔
            (questionLength ≤ nextLength ∨ LabelsFit payload questionStart questionLength answer
              (fun nameEnd => post (some nameEnd)) nextLength)) := by
        intro nextLength hlt
        rw [succeeds_ite, succeeds_pure, ih (by omega)]
        constructor
        · intro h
          by_cases hover : questionLength ≤ nextLength
          · exact .inl hover
          · exact .inr (h.2 hover)
        · intro h
          exact ⟨fun _ => hnone, fun hover => h.resolve_left hover⟩
      rw [labelsFit_iff, labels, succeeds_bind, succeeds_byte]
      apply and_congr_right
      intro hlt
      rw [succeeds_ite, succeeds_pure, succeeds_bind, succeeds_add, succeeds_bind,
        succeeds_traceName (fun _ => hrest _ (by omega))]
      constructor
      · intro h
        by_cases hzero : payload.getD (questionStart + processed) 0 = 0
        · exact .inl ⟨hzero, h.1 hzero⟩
        · exact .inr ⟨hzero, h.2 hzero⟩
      · intro h
        rcases h with ⟨hzero, hnext⟩ | ⟨hlabel, hread⟩
        · exact ⟨fun _ => hnext, fun hlabel => absurd hzero hlabel⟩
        · exact ⟨fun hzero => absurd hzero hlabel, fun _ => hread⟩

/-- The counter does not go round between questions, as the payload begins with headers. -/
theorem succeeds_questions {questionCount : Nat} {post : Option Nat → Prop} (hnone : post none)
    (hstart : 5 ≤ questionStart) (hlength : payload.length < 2 ^ 16) :
    Succeeds (questions payload questionStart questionLength questionCount processed) post ↔
      QuestionsFit payload questionStart questionLength (fun nameEnd => post (some nameEnd)) questionCount
        processed := by
  induction questionCount generalizing processed with
  | zero => exact succeeds_pure
  | succ questionCount ih =>
      rw [questions, QuestionsFit, succeeds_bind, succeeds_labels (succeeds_pure.mpr hnone) (by omega)]
      apply LabelsFit.congr
      intro nameEnd hlt
      rw [succeeds_bind, succeeds_add, ih, and_iff_right (by omega)]

theorem succeeds_answers {answerCount : Nat} {post : Bool × State → Prop} (hpost : ∀ result, post result) :
    Succeeds (answers payload questionStart questionLength answerCount processed s) post ↔
      AnswersFit payload questionStart questionLength answerCount processed := by
  induction answerCount generalizing processed s with
  | zero => exact succeeds_pure.trans (iff_of_true (hpost _) trivial)
  | succ answerCount ih =>
      rw [answers, AnswersFit, succeeds_bind, succeeds_labels (succeeds_pure.mpr (hpost _)) (by omega)]
      apply LabelsFit.congr
      intro nameEnd hlt
      simp only [succeeds_bind, succeeds_readBe16, succeeds_block, succeeds_add, ih]
      have hplace : questionStart + nameEnd + 1 + 8 = questionStart + nameEnd + 9 := rfl
      rw [hplace]
      constructor
      · intro h
        exact h.2
      · intro h
        exact ⟨by omega, h⟩

end Names

/-! ### All protocols -/

theorem succeeds_receiveDhcp {udpHeader udpTotalLength : Nat} (hmin : ipv4HeaderMinLength ≤ udpHeader)
    (hlength : payload.length < 2 ^ 16) (htotal : 8 ≤ udpTotalLength) :
    Succeeds (receiveDhcp payload udpHeader (udpTotalLength - 8) s) (fun _ => True) ↔
      DhcpFits payload udpHeader udpTotalLength := by
  have hmin' : ipv4HeaderMinLength = 20 := rfl
  have hudp : sizeofUdpHeader = 8 := rfl
  have hdhcp : sizeofDhcpHeader = 240 := rfl
  have hend : 248 ≤ udpTotalLength → udpHeader + sizeofUdpHeader + sizeofDhcpHeader +
      (udpTotalLength - 8 - sizeofDhcpHeader) = udpHeader + udpTotalLength := by omega
  simp only [receiveDhcp, succeeds_bind, succeeds_sub, succeeds_byte, succeeds_block, DhcpFits]
  rw [succeeds_dhcpOptions (by omega) hlength (by omega)]
  constructor
  · intro h
    obtain ⟨hlen, -, -, hread, hoptions⟩ := h
    have htotal' : 248 ≤ udpTotalLength := by omega
    exact ⟨htotal', by omega, hend htotal' ▸ hoptions⟩
  · intro h
    obtain ⟨hlen, hread, hoptions⟩ := h
    rw [hend hlen]
    exact ⟨by omega, by omega, by omega, by omega, hoptions⟩

theorem succeeds_receiveDns {udpHeader udpTotalLength : Nat} (hlength : payload.length < 2 ^ 16) :
    Succeeds (receiveDns payload udpHeader (udpTotalLength - 8) s) (fun _ => True) ↔
      DnsFits payload udpHeader udpTotalLength := by
  have hudp : sizeofUdpHeader = 8 := rfl
  have hdns : sizeofDnsHeader = 12 := rfl
  have hplace : udpHeader + sizeofUdpHeader + sizeofDnsHeader = udpHeader + 20 := rfl
  have hlen : udpTotalLength - 8 - sizeofDnsHeader = udpTotalLength - 20 := by omega
  simp only [receiveDns, succeeds_bind, succeeds_sub, succeeds_byte, succeeds_readBe16, DnsFits, hlen, hplace]
  rw [succeeds_questions (succeeds_pure.mpr trivial) (by omega) hlength]
  rw [QuestionsFit.congr fun nameEnd => succeeds_bind.trans (succeeds_answers fun _ => succeeds_pure.mpr trivial)]
  constructor
  · intro h
    exact ⟨by omega, h.2.2.1, h.2.2.2.2⟩
  · intro h
    exact ⟨by omega, by omega, h.2.1, by omega, h.2.2⟩

theorem succeeds_receiveUdpPacket {udpHeader : Nat} (hmin : ipv4HeaderMinLength ≤ udpHeader)
    (hlength : payload.length < 2 ^ 16) :
    Succeeds (receiveUdpPacket payload (some udpHeader) s) (fun _ => True) ↔ UdpFits payload udpHeader := by
  have hudp : sizeofUdpHeader = 8 := rfl
  have hdata : 8 ≤ beToHost16 payload (udpHeader + 4) → (Succeeds
      (match beToHost16 payload udpHeader with
        | 67 => receiveDhcp payload udpHeader (beToHost16 payload (udpHeader + 4) - sizeofUdpHeader) s
        | 53 => receiveDns payload udpHeader (beToHost16 payload (udpHeader + 4) - sizeofUdpHeader) s
        | _ => pure s) (fun _ => True) ↔
      match beToHost16 payload udpHeader with
      | 67 => DhcpFits payload udpHeader (beToHost16 payload (udpHeader + 4))
      | 53 => DnsFits payload udpHeader (beToHost16 payload (udpHeader + 4))
      | _ => True) := by
    intro htotal
    split
    · exact succeeds_receiveDhcp hmin hlength htotal
    · exact succeeds_receiveDns hlength
    · exact succeeds_pure
  simp only [receiveUdpPacket, succeeds_bind, succeeds_readBe16, succeeds_sub, UdpFits]
  constructor
  · intro h
    obtain ⟨hread, -, -, htotal, hrest⟩ := h
    exact ⟨hread, htotal, (hdata htotal).mp hrest⟩
  · intro h
    obtain ⟨hread, htotal, hrest⟩ := h
    exact ⟨hread, by omega, by omega, htotal, (hdata htotal).mpr hrest⟩

theorem succeeds_ip {hlength : payload.length < 2 ^ 16} :
    Succeeds (ethernetTestHandle ⟨.ip, payload, hlength⟩ s) (fun _ => True) ↔ Fits payload .ip := by
  have hmin : ipv4HeaderMinLength = 20 := rfl
  simp only [ethernetTestHandle, succeeds_bind, succeeds_getIpv4Payload, succeeds_byte, Fits]
  by_cases hvalid : ipv4HeaderMinLength ≤ ipv4HeaderLength payload
  · have hnot : ¬ ipv4HeaderLength payload < ipv4HeaderMinLength := Nat.not_lt.mpr hvalid
    simp only [hvalid, hnot, forall_const, false_implies, true_and]
    constructor
    · intro h
      obtain ⟨-, hlen, htotal, hread, hrest⟩ := h
      refine ⟨hread, htotal, ?_⟩
      split at hrest
      · exact succeeds_receiveIcmpPacket.mp hrest
      · exact ((succeeds_receiveTcpPacket.mp (succeeds_bind_pure.mp hrest)).2 hvalid).2.2
      · exact (succeeds_receiveUdpPacket hvalid hlength).mp hrest
      · trivial
    · intro h
      obtain ⟨hread, htotal, hrest⟩ := h
      refine ⟨by omega, by omega, htotal, hread, ?_⟩
      split at hrest
      · exact succeeds_receiveIcmpPacket.mpr hrest
      · exact succeeds_bind_pure.mpr (succeeds_receiveTcpPacket.mpr ⟨by omega, fun _ => ⟨by omega, htotal, hrest⟩⟩)
      · exact (succeeds_receiveUdpPacket hvalid hlength).mpr hrest
      · exact succeeds_pure.mpr trivial
  · have hnot : ipv4HeaderLength payload < ipv4HeaderMinLength := Nat.lt_of_not_le hvalid
    simp only [hvalid, hnot, forall_const, false_implies, true_and, false_and, and_true]
    constructor
    · intro h
      obtain ⟨-, hread, hrest⟩ := h
      refine ⟨hread, ?_⟩
      split at hrest
      · exact succeeds_receiveIcmpPacket.mp hrest
      · trivial
      · exact succeeds_error.mp hrest
      · trivial
    · intro h
      obtain ⟨hread, hrest⟩ := h
      refine ⟨by omega, hread, ?_⟩
      split at hrest
      · exact succeeds_receiveIcmpPacket.mpr hrest
      · exact succeeds_bind_pure.mpr (succeeds_receiveTcpPacket.mpr ⟨by omega, fun h => absurd h hvalid⟩)
      · exact hrest.elim
      · exact succeeds_pure.mpr trivial

theorem succeeds_ipv6 {hlength : payload.length < 2 ^ 16} :
    Succeeds (ethernetTestHandle ⟨.ipv6, payload, hlength⟩ s) (fun _ => True) ↔ Fits payload .ipv6 := by
  simp only [ethernetTestHandle, succeeds_bind, succeeds_getIpv6Payload, succeeds_byte, Fits]
  constructor
  · intro h
    obtain ⟨hlen, htotal, hread, hrest⟩ := h
    refine ⟨hread, htotal, ?_⟩
    split at hrest
    · exact succeeds_receiveIcmp6Packet.mp hrest
    · exact (succeeds_receiveTcpIpv6Packet.mp (succeeds_bind_pure.mp hrest)).2.2
    · trivial
  · intro h
    obtain ⟨hread, htotal, hrest⟩ := h
    refine ⟨by omega, htotal, hread, ?_⟩
    split at hrest
    · exact succeeds_receiveIcmp6Packet.mpr hrest
    · exact succeeds_bind_pure.mpr (succeeds_receiveTcpIpv6Packet.mpr ⟨by omega, htotal, hrest⟩)
    · exact succeeds_pure.mpr trivial

end Proofs

/-- **Exactly when a payload is received safely**: whatever the variables are. -/
theorem safe_iff_fits (data : EthernetData) (s : State) : Safe data s ↔ Fits data.payload data.protocolType := by
  have hsafe : Safe data s ↔ Succeeds (ethernetTestHandle data s) (fun _ => True) :=
    exists_congr fun _ => (and_iff_left trivial).symm
  rw [hsafe]
  cases data with
  | mk protocolType payload hlength =>
      cases protocolType with
      | ip => exact succeeds_ip
      | ipv6 => exact succeeds_ipv6

/-- An echo request over IPv6, with no data behind its header -/
def echoRequest6 : List UInt8 :=
  [0x60, 0, 0, 0, 0, 8, 0x3a, 64] ++ List.replicate 32 0 ++ [128, 0, 0, 0, 0, 1, 0, 1]

/-- The length of an IPv6 payload does not include the header that is subtracted from it. -/
theorem not_safe_echoRequest6 : ¬ ∀ (data : EthernetData) (s : State), Safe data s := by
  intro h
  obtain ⟨s', hs'⟩ := h ⟨.ipv6, echoRequest6, by decide⟩ ⟨[], [], [], [], [], [], [], [], false, .null, []⟩
  have hfits : Fits echoRequest6 .ipv6 := succeeds_ipv6.mp ⟨s', hs', trivial⟩
  exact absurd hfits.2.1 (by decide)

end Best1307.Pan
