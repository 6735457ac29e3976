import Mathlib.Data.List.GetD
import Best1307.Lib.OnesComplement

/-!
# The Internet checksum

`app_pan.cpp`: the checksum of the headers and segments that are sent. Numbers in packets are big-endian.
-/

namespace Best1307.Pan

open OnesComplement (words oddByte)

/-- `PAN_BE_TO_HOST16` -/
def beToHost16 (data : List UInt8) (offset : Nat) : Nat :=
  (data.getD offset 0).toNat * 2 ^ 8 + (data.getD (offset + 1) 0).toNat

/-- `PAN_HOST16_TO_BE` -/
def hostToBe16 (value : Nat) (data : List UInt8) (offset : Nat) : List UInt8 :=
  (data.set offset (UInt8.ofNat (value / 2 ^ 8))).set (offset + 1) (UInt8.ofNat value)

/-! ### The sum -/

def addWords (data : List UInt8) (checksum : Nat) : Nat :=
  (List.range (data.length / 2)).foldl (fun checksum i => (checksum + beToHost16 data (i * 2)) % 2 ^ 32) checksum

/-- The loop on `high_part_value` -/
def foldCarries (checksum : Nat) : Nat :=
  if checksum / 2 ^ 16 = 0 then checksum else foldCarries (checksum % 2 ^ 16 + checksum / 2 ^ 16)
termination_by checksum
decreasing_by omega

/-- `app_bt_pan_calculate_checksum`; there is no pseudo header where it is empty. -/
def calculateChecksum (pseudoHeader data : List UInt8) : Nat :=
  (2 ^ 32 - 1 - foldCarries (addWords data (addWords pseudoHeader 0))) % 2 ^ 16

/-! ### Packets -/

def ipv4HeaderMinLength : Nat := 20
def ipv4HeaderMaxLength : Nat := 60

/-- `header->header_length * 4` -/
def ipv4HeaderLength (packet : List UInt8) : Nat := (packet.getD 0 0).toNat % 2 ^ 4 * 4

/-- Where `payload_data` of `app_bt_pan_get_ipv4_payload` is in the packet, unless it is `NULL` -/
def ipv4PayloadOffset (packet : List UInt8) : Option Nat :=
  if ipv4HeaderLength packet < ipv4HeaderMinLength ∨ ipv4HeaderMaxLength < ipv4HeaderLength packet then none
  else some (ipv4HeaderLength packet)

/-- `app_bt_pan_write_ipv4_header_checksum` -/
def writeIpv4HeaderChecksum (packet : List UInt8) (ipv4PacketTotalLength : Nat) : List UInt8 :=
  if ipv4HeaderLength packet < ipv4HeaderMinLength ∨ ipv4HeaderMaxLength < ipv4HeaderLength packet then packet
  else
    let headerLength := ipv4HeaderLength packet
    let packet := hostToBe16 ipv4PacketTotalLength packet 2
    let packet := hostToBe16 0 packet 10
    hostToBe16 (calculateChecksum [] (packet.take headerLength)) packet 10

/-- `struct pan_ipv4_pseudo_header` for a packet -/
def ipv4PseudoHeader (packet : List UInt8) (protoLength : List UInt8) : List UInt8 :=
  (packet.drop 12).take 8 ++ [0, packet.getD 9 0] ++ protoLength

/-- `app_bt_pan_write_udp_packet_checksum`, unless it writes to `NULL` -/
def writeUdpPacketChecksum (packet : List UInt8) (udpPacketTotalLength : Nat) : Option (List UInt8) :=
  (ipv4PayloadOffset packet).map fun udpHeader =>
    let packet := hostToBe16 udpPacketTotalLength packet (udpHeader + 4)
    let pseudoHeader := ipv4PseudoHeader packet ((packet.drop (udpHeader + 4)).take 2)
    let packet := hostToBe16 0 packet (udpHeader + 6)
    let udpChecksum := calculateChecksum pseudoHeader ((packet.drop udpHeader).take udpPacketTotalLength)
    hostToBe16 udpChecksum packet (udpHeader + 6)

/-- `app_bt_pan_write_tcp_packet_checksum`, unless it writes to `NULL` -/
def writeTcpPacketChecksum (packet : List UInt8) (tcpLength : Nat) : Option (List UInt8) :=
  (ipv4PayloadOffset packet).map fun tcpHeader =>
    let pseudoHeader := ipv4PseudoHeader packet (hostToBe16 tcpLength [0, 0] 0)
    let packet := hostToBe16 0 packet (tcpHeader + 16)
    let tcpChecksum := calculateChecksum pseudoHeader ((packet.drop tcpHeader).take tcpLength)
    hostToBe16 tcpChecksum packet (tcpHeader + 16)

/-! ### What they should be -/

def onesSum (bytes : List UInt8) : Nat := OnesComplement.sum (2 ^ 16 - 1) (words bytes)

/-- A packet with an IPv4 header, and a segment of at least so many bytes behind it -/
structure Ipv4Packet (segmentMin : Nat) where
  bytes : List UInt8
  headerLength_le : ipv4HeaderMinLength ≤ ipv4HeaderLength bytes
  segment_le : ipv4HeaderLength bytes + segmentMin ≤ bytes.length
  length_lt : bytes.length < 2 ^ 16

def Ipv4Packet.headerLength {segmentMin : Nat} (packet : Ipv4Packet segmentMin) : Nat := ipv4HeaderLength packet.bytes

def Ipv4Packet.segmentLength {segmentMin : Nat} (packet : Ipv4Packet segmentMin) : Nat :=
  packet.bytes.length - packet.headerLength

def sizeofUdpHeader : Nat := 8
def sizeofTcpHeader : Nat := 20

/-- Data with a pseudo header of an even length, or a packet to complete -/
inductive Use
  | checksum (pseudoHeader data : List UInt8) (heven : pseudoHeader.length % 2 = 0)
      (hpseudo : pseudoHeader.length < 2 ^ 16) (hdata : data.length < 2 ^ 16)
  | udp (packet : Ipv4Packet sizeofUdpHeader)
  | tcp (packet : Ipv4Packet sizeofTcpHeader)

/-- The packet completed with both checksums, the second one by `write` -/
def complete (write : List UInt8 → Nat → Option (List UInt8)) {segmentMin : Nat} (packet : Ipv4Packet segmentMin) :
    Option (List UInt8) :=
  write (writeIpv4HeaderChecksum packet.bytes packet.bytes.length) packet.segmentLength

/-- The header of the completed packet has the sum it should have, and so has the segment with its pseudo header. -/
def Verifies (write : List UInt8 → Nat → Option (List UInt8)) {segmentMin : Nat} (packet : Ipv4Packet segmentMin) :
    Prop :=
  ∃ completed, complete write packet = some completed ∧
    onesSum (completed.take packet.headerLength) = 0xFFFF ∧
    onesSum (ipv4PseudoHeader completed
      [UInt8.ofNat (packet.segmentLength / 2 ^ 8), UInt8.ofNat packet.segmentLength] ++
        completed.drop packet.headerLength) = 0xFFFF

/-- The checksum is the complement of the sum; completed packets have the sum they should have. -/
def Use.Meets : Use → Prop
  | checksum pseudoHeader data _ _ _ => calculateChecksum pseudoHeader data = 0xFFFF - onesSum (pseudoHeader ++ data)
  | udp packet => Verifies writeUdpPacketChecksum packet
  | tcp packet => Verifies writeTcpPacketChecksum packet

/-! ### When they are -/

/-- What the checksum is taken of, behind the pseudo header -/
def Use.data : Use → List UInt8
  | checksum _ data _ _ _ => data
  | udp packet => packet.bytes.drop packet.headerLength
  | tcp packet => packet.bytes.drop packet.headerLength

/-- The length is even, or the last byte is zero. -/
def Use.NoOddByte (use : Use) : Prop := use.data.length % 2 = 1 → use.data.getLast? = some 0

section Proofs

variable {bytes data pseudoHeader header segment : List UInt8} {value offset : Nat}

/-! ### Fields -/

@[simp] theorem length_hostToBe16 : (hostToBe16 value data offset).length = data.length := by
  rw [hostToBe16, List.length_set, List.length_set]

theorem hostToBe16_append_left (h : offset + 1 < header.length) :
    hostToBe16 value (header ++ segment) offset = hostToBe16 value header offset ++ segment := by
  rw [hostToBe16, hostToBe16, List.set_append_left _ _ (by omega),
    List.set_append_left _ _ (by rw [List.length_set]; omega)]

theorem hostToBe16_append_right :
    hostToBe16 value (header ++ segment) (header.length + offset) = header ++ hostToBe16 value segment offset := by
  rw [hostToBe16, hostToBe16, List.set_append_right _ _ (by omega), List.set_append_right _ _ (by omega),
    Nat.add_sub_cancel_left, Nat.add_assoc, Nat.add_sub_cancel_left]

theorem getD_hostToBe16 {i : Nat} (h : i < offset) : (hostToBe16 value data offset).getD i 0 = data.getD i 0 := by
  rw [hostToBe16, List.getD_eq_getElem?_getD, List.getD_eq_getElem?_getD, List.getElem?_set_ne (by omega),
    List.getElem?_set_ne (by omega)]

theorem hostToBe16_hostToBe16 {first : Nat} :
    hostToBe16 value (hostToBe16 first data offset) offset = hostToBe16 value data offset := by
  have hne : offset + 1 ≠ offset := Nat.succ_ne_self offset
  rw [hostToBe16, hostToBe16, hostToBe16, List.set_comm _ _ hne, List.set_set, List.set_set]

theorem take_drop_hostToBe16 (h : offset + 1 < data.length) :
    ((hostToBe16 value data offset).drop offset).take 2 = [UInt8.ofNat (value / 2 ^ 8), UInt8.ofNat value] := by
  have hfirst : offset < (hostToBe16 value data offset).length := by
    rw [length_hostToBe16]
    omega
  have hsecond : offset + 1 < (hostToBe16 value data offset).length := by rwa [length_hostToBe16]
  rw [List.drop_eq_getElem_cons hfirst, List.drop_eq_getElem_cons hsecond, List.take_succ_cons, List.take_succ_cons,
    List.take_zero]
  simp only [hostToBe16, List.getElem_set_self, List.getElem_set_ne (Nat.succ_ne_self offset)]

theorem toNat_ofNat_div (h : value < 2 ^ 16) :
    (UInt8.ofNat (value / 2 ^ 8)).toNat * 2 ^ 8 + (UInt8.ofNat value).toNat = value := by
  rw [UInt8.toNat_ofNat', UInt8.toNat_ofNat']
  omega

/-- A field at an even place is a word of the sum. -/
theorem sum_words_hostToBe16 (hvalue : value < 2 ^ 16) (heven : offset % 2 = 0) (hlt : offset + 1 < data.length) :
    (words (hostToBe16 value data offset)).sum = (words (hostToBe16 0 data offset)).sum + value := by
  induction data using OnesComplement.words.induct generalizing offset with
  | case1 high low rest ih =>
      rcases offset with _ | _ | offset
      · show (((UInt8.ofNat (value / 2 ^ 8)).toNat * 2 ^ 8 + (UInt8.ofNat value).toNat) :: words rest).sum =
          (0 :: words rest).sum + value
        rw [toNat_ofNat_div hvalue, List.sum_cons, List.sum_cons]
        omega
      · exact absurd heven (by decide)
      · rw [List.length_cons, List.length_cons] at hlt
        have hrest := @ih offset (by omega) (by omega)
        show (_ :: words (hostToBe16 value rest offset)).sum = (_ :: words (hostToBe16 0 rest offset)).sum + value
        rw [List.sum_cons, List.sum_cons, hrest]
        omega
  | case2 high =>
      rw [List.length_singleton] at hlt
      omega
  | case3 => exact absurd hlt (Nat.not_lt_zero _)

theorem oddByte_hostToBe16 (heven : offset % 2 = 0) (hlt : offset + 1 < data.length) :
    oddByte (hostToBe16 value data offset) = oddByte data := by
  induction data using OnesComplement.words.induct generalizing offset with
  | case1 high low rest ih =>
      rcases offset with _ | _ | offset
      · rfl
      · exact absurd heven (by decide)
      · rw [List.length_cons, List.length_cons] at hlt
        show oddByte (hostToBe16 value rest offset) = oddByte rest
        exact ih (by omega) (by omega)
  | case2 high =>
      rw [List.length_singleton] at hlt
      omega
  | case3 => exact absurd hlt (Nat.not_lt_zero _)

/-! ### The sum -/

/-- The words that the loop adds -/
def wholeWords : List UInt8 → List Nat
  | high :: low :: rest => (high.toNat * 2 ^ 8 + low.toNat) :: wholeWords rest
  | _ => []

/-- The loop leaves an odd byte out. -/
theorem sum_words_eq (data : List UInt8) : (words data).sum = (wholeWords data).sum + (oddByte data).toNat * 2 ^ 8 := by
  induction data using OnesComplement.words.induct with
  | case1 high low rest ih =>
      rw [words, wholeWords, oddByte, List.sum_cons, List.sum_cons, ih]
      omega
  | case2 high => exact (List.sum_singleton).trans (Nat.zero_add _).symm
  | case3 => rfl

theorem sum_wholeWords_le (data : List UInt8) : (wholeWords data).sum ≤ data.length / 2 * (2 ^ 16 - 1) := by
  induction data using OnesComplement.words.induct with
  | case1 high low rest ih =>
      have hhigh := high.toNat_lt
      have hlow := low.toNat_lt
      rw [wholeWords, List.sum_cons, List.length_cons, List.length_cons]
      omega
  | case2 high => exact Nat.zero_le _
  | case3 => exact Nat.le_refl 0

theorem addWords_eq {checksum : Nat} (h : checksum + (wholeWords data).sum < 2 ^ 32) :
    addWords data checksum = checksum + (wholeWords data).sum := by
  induction data using OnesComplement.words.induct generalizing checksum with
  | case1 high low rest ih =>
      have hlen : (high :: low :: rest).length / 2 = rest.length / 2 + 1 := by
        rw [List.length_cons, List.length_cons]
        omega
      have hrest : ∀ i, beToHost16 (high :: low :: rest) ((i + 1) * 2) = beToHost16 rest (i * 2) := by
        intro i
        rw [beToHost16, beToHost16, Nat.succ_mul]
        rfl
      rw [wholeWords, List.sum_cons, ← Nat.add_assoc] at h
      have hword : (checksum + beToHost16 (high :: low :: rest) (0 * 2)) % 2 ^ 32 =
          checksum + (high.toNat * 2 ^ 8 + low.toNat) := by
        show (checksum + (high.toNat * 2 ^ 8 + low.toNat)) % 2 ^ 32 = _
        omega
      have hloop := ih h
      rw [addWords] at hloop
      rw [addWords, hlen, List.range_succ_eq_map, List.foldl_cons, List.foldl_map, hword]
      simp only [Nat.succ_eq_add_one, hrest]
      rw [hloop, wholeWords, List.sum_cons, Nat.add_assoc]
  | case2 high =>
      have hlen : [high].length / 2 = 0 := by rw [List.length_singleton]
      rw [addWords, hlen]
      rfl
  | case3 => exact (Nat.add_zero checksum).symm

theorem foldCarries_eq (checksum : Nat) : foldCarries checksum = OnesComplement.residue (2 ^ 16 - 1) checksum := by
  induction checksum using foldCarries.induct with
  | case1 checksum hsmall =>
      rw [foldCarries, if_pos hsmall]
      exact (OnesComplement.residue_of_le (by omega)).symm
  | case2 checksum hbig ih =>
      rw [foldCarries, if_neg hbig, ih]
      exact OnesComplement.residue_fold

theorem mod_pos : 0 < 2 ^ 16 - 1 := by decide

theorem onesSum_eq (bytes : List UInt8) : onesSum bytes = OnesComplement.residue (2 ^ 16 - 1) (words bytes).sum :=
  OnesComplement.sum_eq mod_pos (OnesComplement.words_le bytes)

/-- What the checksum is: the complement, but without an odd byte. -/
theorem calculateChecksum_eq (hpseudo : pseudoHeader.length < 2 ^ 16) (hdata : data.length < 2 ^ 16) :
    calculateChecksum pseudoHeader data = 2 ^ 16 - 1 -
      OnesComplement.residue (2 ^ 16 - 1) ((wholeWords pseudoHeader).sum + (wholeWords data).sum) := by
  have hfirst := sum_wholeWords_le pseudoHeader
  have hsecond := sum_wholeWords_le data
  have hword := OnesComplement.residue_le mod_pos ((wholeWords pseudoHeader).sum + (wholeWords data).sum)
  have hloop : addWords pseudoHeader 0 = 0 + (wholeWords pseudoHeader).sum := addWords_eq (by omega)
  rw [calculateChecksum, hloop, Nat.zero_add, addWords_eq (by omega), foldCarries_eq]
  omega

theorem oddByte_of_even (heven : bytes.length % 2 = 0) : oddByte bytes = 0 :=
  (OnesComplement.oddByte_eq_zero_iff bytes).mpr fun h => absurd (heven.symm.trans h) (by decide)

theorem sum_words_of_even (heven : bytes.length % 2 = 0) : (words bytes).sum = (wholeWords bytes).sum := by
  rw [sum_words_eq, oddByte_of_even heven]
  rfl

/-- The checksum is the complement of the sum exactly when there is no odd byte, or it is zero. -/
theorem calculateChecksum_eq_iff (heven : pseudoHeader.length % 2 = 0) (hpseudo : pseudoHeader.length < 2 ^ 16)
    (hdata : data.length < 2 ^ 16) :
    calculateChecksum pseudoHeader data = 0xFFFF - onesSum (pseudoHeader ++ data) ↔ oddByte data = 0 := by
  have hbyte := (oddByte data).toNat_lt
  have hsum : (words (pseudoHeader ++ data)).sum =
      (wholeWords pseudoHeader).sum + (wholeWords data).sum + (oddByte data).toNat * 2 ^ 8 := by
    rw [OnesComplement.words_append _ _ heven, List.sum_append, sum_words_of_even heven, sum_words_eq data,
      Nat.add_assoc]
  have hshort := OnesComplement.residue_le mod_pos ((wholeWords pseudoHeader).sum + (wholeWords data).sum)
  have hlong := OnesComplement.residue_le mod_pos
    ((wholeWords pseudoHeader).sum + (wholeWords data).sum + (oddByte data).toNat * 2 ^ 8)
  have hadd := OnesComplement.residue_add_eq_iff mod_pos
    (s := (wholeWords pseudoHeader).sum + (wholeWords data).sum) (b := (oddByte data).toNat * 2 ^ 8) (by omega)
  rw [calculateChecksum_eq hpseudo hdata, onesSum_eq, hsum, ← UInt8.toNat_inj, UInt8.toNat_zero]
  omega

/-- What is completed with its checksum, in a field at an even place, has the sum it should have exactly when there is
no odd byte, or it is zero. -/
theorem onesSum_complete_iff (hpseudoEven : pseudoHeader.length % 2 = 0) (hpseudo : pseudoHeader.length < 2 ^ 16)
    (hdata : data.length < 2 ^ 16) (heven : offset % 2 = 0) (hlt : offset + 1 < data.length) :
    onesSum (pseudoHeader ++ hostToBe16 (calculateChecksum pseudoHeader (hostToBe16 0 data offset))
        (hostToBe16 0 data offset) offset) = 0xFFFF ↔ oddByte data = 0 := by
  have hchecksum := @calculateChecksum_eq (hostToBe16 0 data offset) pseudoHeader hpseudo (by rwa [length_hostToBe16])
  have hbyte := (oddByte data).toNat_lt
  have hsum := OnesComplement.residue_complement_iff mod_pos (b := (oddByte data).toNat * 2 ^ 8)
    (s := (wholeWords pseudoHeader).sum + (wholeWords (hostToBe16 0 data offset)).sum) (by omega)
  have hfield := @sum_words_hostToBe16 data (calculateChecksum pseudoHeader (hostToBe16 0 data offset)) offset
    (by omega) heven hlt
  rw [sum_words_eq (hostToBe16 0 data offset), oddByte_hostToBe16 heven hlt, hchecksum] at hfield
  rw [hostToBe16_hostToBe16, onesSum_eq, OnesComplement.words_append _ _ hpseudoEven, List.sum_append,
    sum_words_of_even hpseudoEven, hchecksum, hfield, Nat.add_right_comm, ← Nat.add_assoc, ← Nat.add_assoc]
  show _ = 2 ^ 16 - 1 ↔ _
  rw [hsum, ← UInt8.toNat_inj, UInt8.toNat_zero]
  omega

/-! ### Completed packets -/

theorem ipv4HeaderLength_hostToBe16 (h : 0 < offset) :
    ipv4HeaderLength (hostToBe16 value data offset) = ipv4HeaderLength data := by
  rw [ipv4HeaderLength, ipv4HeaderLength, getD_hostToBe16 h]

theorem ipv4HeaderLength_append (h : 0 < header.length) :
    ipv4HeaderLength (header ++ segment) = ipv4HeaderLength header := by
  rw [ipv4HeaderLength, ipv4HeaderLength, List.getD_append _ _ _ _ h]

theorem ipv4HeaderLength_le (packet : List UInt8) : ipv4HeaderLength packet ≤ ipv4HeaderMaxLength := by
  have hmax : ipv4HeaderMaxLength = 60 := rfl
  rw [ipv4HeaderLength]
  omega

def completeHeader (total : Nat) (header : List UInt8) : List UInt8 :=
  let header := hostToBe16 0 (hostToBe16 total header 2) 10
  hostToBe16 (calculateChecksum [] header) header 10

theorem writeIpv4HeaderChecksum_append {total : Nat} (hmin : ipv4HeaderMinLength ≤ header.length)
    (hlength : ipv4HeaderLength header = header.length) :
    writeIpv4HeaderChecksum (header ++ segment) total = completeHeader total header ++ segment := by
  have hmax := ipv4HeaderLength_le (header ++ segment)
  have hmin' : ipv4HeaderMinLength = 20 := rfl
  have hsame : ipv4HeaderLength (header ++ segment) = header.length := by
    rw [ipv4HeaderLength_append (by omega), hlength]
  rw [writeIpv4HeaderChecksum, if_neg (by omega), hsame]
  simp only
  rw [hostToBe16_append_left (by omega), hostToBe16_append_left (by rw [length_hostToBe16]; omega),
    List.take_left' (by rw [length_hostToBe16, length_hostToBe16]),
    hostToBe16_append_left (by rw [length_hostToBe16, length_hostToBe16]; omega), completeHeader]

theorem length_completeHeader {total : Nat} : (completeHeader total header).length = header.length := by
  rw [completeHeader, length_hostToBe16, length_hostToBe16, length_hostToBe16]

theorem ipv4HeaderLength_completeHeader {total : Nat} :
    ipv4HeaderLength (completeHeader total header) = ipv4HeaderLength header := by
  rw [completeHeader, ipv4HeaderLength_hostToBe16 (by decide), ipv4HeaderLength_hostToBe16 (by decide),
    ipv4HeaderLength_hostToBe16 (by decide)]

/-- The length of a header is even. -/
theorem onesSum_completeHeader {total : Nat} (hmin : ipv4HeaderMinLength ≤ header.length)
    (hlength : ipv4HeaderLength header = header.length) : onesSum (completeHeader total header) = 0xFFFF := by
  have hmin' : ipv4HeaderMinLength = 20 := rfl
  have hmax := ipv4HeaderLength_le header
  have hmax' : ipv4HeaderMaxLength = 60 := rfl
  have heven : header.length % 2 = 0 := by
    rw [← hlength, ipv4HeaderLength]
    omega
  have hfield := @onesSum_complete_iff (hostToBe16 total header 2) [] 10 rfl
    (by decide) (by rw [length_hostToBe16]; omega) rfl (by rw [length_hostToBe16]; omega)
  exact hfield.mpr (oddByte_of_even (by rwa [length_hostToBe16]))

theorem ipv4PseudoHeader_append {protoLength : List UInt8} (hmin : ipv4HeaderMinLength ≤ header.length) :
    ipv4PseudoHeader (header ++ segment) protoLength = ipv4PseudoHeader header protoLength := by
  have hmin' : ipv4HeaderMinLength = 20 := rfl
  rw [ipv4PseudoHeader, ipv4PseudoHeader, List.getD_append _ _ _ _ (by omega), List.drop_append_of_le_length (by omega),
    List.take_append_of_le_length (by rw [List.length_drop]; omega)]

theorem length_ipv4PseudoHeader {high low : UInt8} (hmin : ipv4HeaderMinLength ≤ header.length) :
    (ipv4PseudoHeader header [high, low]).length = 12 := by
  have hmin' : ipv4HeaderMinLength = 20 := rfl
  rw [ipv4PseudoHeader, List.length_append, List.length_append, List.length_take, List.length_drop]
  show min 8 (header.length - 12) + 2 + 2 = 12
  omega

theorem ipv4PayloadOffset_append (hmin : ipv4HeaderMinLength ≤ header.length)
    (hlength : ipv4HeaderLength header = header.length) :
    ipv4PayloadOffset (header ++ segment) = some header.length := by
  have hmin' : ipv4HeaderMinLength = 20 := rfl
  have hmax := ipv4HeaderLength_le header
  rw [ipv4PayloadOffset, ipv4HeaderLength_append (by omega), hlength, if_neg (by omega)]

def completeSegment (pseudoHeader : List UInt8) (offset : Nat) (segment : List UInt8) : List UInt8 :=
  hostToBe16 (calculateChecksum pseudoHeader (hostToBe16 0 segment offset)) (hostToBe16 0 segment offset) offset

theorem writeUdpPacketChecksum_append (hmin : ipv4HeaderMinLength ≤ header.length)
    (hlength : ipv4HeaderLength header = header.length) (hsegment : sizeofUdpHeader ≤ segment.length) :
    writeUdpPacketChecksum (header ++ segment) segment.length =
      some (header ++ completeSegment
        (ipv4PseudoHeader header [UInt8.ofNat (segment.length / 2 ^ 8), UInt8.ofNat segment.length]) 6
        (hostToBe16 segment.length segment 4)) := by
  have hudp : sizeofUdpHeader = 8 := rfl
  rw [writeUdpPacketChecksum, ipv4PayloadOffset_append hmin hlength, Option.map_some]
  simp only
  rw [hostToBe16_append_right, List.drop_length_add_append, take_drop_hostToBe16 (by omega), hostToBe16_append_right,
    ipv4PseudoHeader_append hmin, List.drop_left, List.take_of_length_le (by rw [length_hostToBe16, length_hostToBe16]),
    hostToBe16_append_right, completeSegment]

theorem writeTcpPacketChecksum_append (hmin : ipv4HeaderMinLength ≤ header.length)
    (hlength : ipv4HeaderLength header = header.length) :
    writeTcpPacketChecksum (header ++ segment) segment.length =
      some (header ++ completeSegment
        (ipv4PseudoHeader header [UInt8.ofNat (segment.length / 2 ^ 8), UInt8.ofNat segment.length]) 16 segment) := by
  rw [writeTcpPacketChecksum, ipv4PayloadOffset_append hmin hlength, Option.map_some]
  simp only
  rw [ipv4PseudoHeader_append hmin, hostToBe16_append_right, List.drop_left,
    List.take_of_length_le (by rw [length_hostToBe16]), hostToBe16_append_right, completeSegment]
  rfl

/-- A packet is completed as it should be exactly when there is no odd byte in its segment, or it is zero: where `write`
completes the segment that `prepare` makes of it, with a field at an even place. -/
theorem verifies_iff {write : List UInt8 → Nat → Option (List UInt8)} {segmentMin : Nat}
    (packet : Ipv4Packet segmentMin) {prepare : List UInt8 → List UInt8} (heven : offset % 2 = 0)
    (hlt : offset + 1 < segmentMin) (hprepareLength : ∀ segment, (prepare segment).length = segment.length)
    (hprepareOdd : ∀ segment, segmentMin ≤ segment.length → oddByte (prepare segment) = oddByte segment)
    (hwrite : ∀ header segment, ipv4HeaderMinLength ≤ header.length → ipv4HeaderLength header = header.length →
      segmentMin ≤ segment.length → write (header ++ segment) segment.length =
        some (header ++ completeSegment
          (ipv4PseudoHeader header [UInt8.ofNat (segment.length / 2 ^ 8), UInt8.ofNat segment.length]) offset
          (prepare segment))) :
    Verifies write packet ↔ oddByte (packet.bytes.drop packet.headerLength) = 0 := by
  have hmin' : ipv4HeaderMinLength = 20 := rfl
  have hmin := packet.headerLength_le
  have hbound := packet.segment_le
  have hlt16 := packet.length_lt
  obtain ⟨header, hheader⟩ : ∃ header, packet.bytes.take packet.headerLength = header := ⟨_, rfl⟩
  obtain ⟨segment, hsegment⟩ : ∃ segment, packet.bytes.drop packet.headerLength = segment := ⟨_, rfl⟩
  have hheaderLength : header.length = packet.headerLength := by
    rw [← hheader]
    exact List.length_take_of_le (show ipv4HeaderLength packet.bytes ≤ _ by omega)
  have hsegmentLength : segment.length = packet.segmentLength := by
    rw [← hsegment, List.length_drop, Ipv4Packet.segmentLength]
  have hbytes : packet.bytes = header ++ segment := by
    rw [← hheader, ← hsegment, List.take_append_drop]
  have hheaderMin : ipv4HeaderMinLength ≤ header.length := hheaderLength ▸ hmin
  have hsame : ipv4HeaderLength header = header.length := by
    rw [hheaderLength, Ipv4Packet.headerLength, hbytes, ipv4HeaderLength_append (by omega)]
  have hsegmentMin : segmentMin ≤ segment.length := by
    rw [hsegmentLength, Ipv4Packet.segmentLength, Ipv4Packet.headerLength]
    omega
  have hdone : (completeHeader packet.bytes.length header).length = header.length := length_completeHeader
  have hcomplete : complete write packet = some (completeHeader packet.bytes.length header ++ completeSegment
      (ipv4PseudoHeader (completeHeader packet.bytes.length header)
        [UInt8.ofNat (segment.length / 2 ^ 8), UInt8.ofNat segment.length]) offset (prepare segment)) := by
    rw [complete, ← hsegmentLength]
    nth_rewrite 1 [hbytes]
    rw [writeIpv4HeaderChecksum_append hheaderMin hsame]
    exact hwrite _ _ (by rwa [hdone]) (by rw [ipv4HeaderLength_completeHeader, hsame, hdone]) hsegmentMin
  have hpseudo : (ipv4PseudoHeader (completeHeader packet.bytes.length header)
      [UInt8.ofNat (segment.length / 2 ^ 8), UInt8.ofNat segment.length]).length = 12 :=
    length_ipv4PseudoHeader (by rwa [hdone])
  have hsum := @onesSum_complete_iff (prepare segment) _ offset (by rw [hpseudo])
    (by rw [hpseudo]; decide) (by rw [hprepareLength, hsegmentLength, Ipv4Packet.segmentLength]; omega) heven
    (by rw [hprepareLength]; omega)
  rw [hprepareOdd segment hsegmentMin] at hsum
  rw [hsegment, ← hsum, Verifies, hcomplete, ← hheaderLength, ← hsegmentLength]
  simp only [Option.some.injEq, exists_eq_left']
  rw [List.take_left' hdone, List.drop_left' hdone, ipv4PseudoHeader_append (by rwa [hdone]),
    onesSum_completeHeader hheaderMin hsame, completeSegment]
  exact and_iff_right rfl

end Proofs

/-- **Exactly when checksums are right**: when there is no odd byte at the end, or it is zero. -/
theorem Use.meets_iff_noOddByte (use : Use) : use.Meets ↔ use.NoOddByte := by
  rw [NoOddByte, ← OnesComplement.oddByte_eq_zero_iff]
  cases use with
  | checksum pseudoHeader data heven hpseudo hdata => exact calculateChecksum_eq_iff heven hpseudo hdata
  | udp packet =>
      apply @verifies_iff 6 writeUdpPacketChecksum sizeofUdpHeader packet
        (fun segment => hostToBe16 segment.length segment 4) rfl (by decide) (fun segment => length_hostToBe16)
      · intro segment hmin
        exact oddByte_hostToBe16 rfl (Nat.lt_of_lt_of_le (by decide) hmin)
      · exact fun header segment hmin hlength hsegment => writeUdpPacketChecksum_append hmin hlength hsegment
  | tcp packet =>
      exact @verifies_iff 16 writeTcpPacketChecksum sizeofTcpHeader packet id rfl (by decide) (fun segment => rfl)
        (fun segment _ => rfl) fun header segment hmin hlength _ => writeTcpPacketChecksum_append hmin hlength

/-- A single byte is not summed. -/
theorem not_meets_oneByte : ¬ ∀ use : Use, use.Meets := by
  intro h
  have hone : calculateChecksum [] [1] = 0xFFFF - onesSum [1] := h (.checksum [] [1] rfl (by decide) (by decide))
  rw [calculateChecksum_eq (by decide) (by decide)] at hone
  exact absurd hone (by decide)

end Best1307.Pan
