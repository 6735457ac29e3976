import Mathlib.Algebra.Group.Nat.Defs

/-!
# How many SBC frames were lost

Every packet that is stored leaves its header behind. When the next one comes, the sequence numbers say whether
packets are missing between the two, and the time stamps how many frames. The time stamps stand for the starts of the
packets, so what lies between them are the frames of the packet before the gap and the lost ones; the frames of the
packet behind the gap are what is taken off.
-/

namespace Best1307.Sbc

def sbcListSamples : Nat := 128

/-- `btif_media_header_t`, as far as the frames are counted by it -/
structure MediaHeader where
  sequenceNumber : UInt16
  timestamp : UInt32
  deriving DecidableEq, Repr

/-- `a2dp_audio_get_passed`, in 32 bits -/
def getPassed (currTicks prevTicks maxTicks : Nat) : Nat :=
  if currTicks < prevTicks then (maxTicks - prevTicks + 1 + currTicks) % 2 ^ 32 else currTicks - prevTicks

/-- `sbc_decoder_last_valid_frame`, once it is ready -/
abbrev LastFrame := Option MediaHeader

/-- `a2dp_audio_sbc_packet_recover_save_last` -/
def saveLast (header : MediaHeader) : LastFrame := some header

/-- `a2dp_audio_sbc_packet_recover_find_missing`; the products and differences stay within 32 bits. -/
def findMissing (last : LastFrame) (header : MediaHeader) (frameCnt : Nat) : Nat :=
  match last with
  | none => 0
  | some last =>
      let diffSeq := getPassed header.sequenceNumber.toNat last.sequenceNumber.toNat 0xFFFF % 2 ^ 16
      let diffTimestamp := getPassed header.timestamp.toNat last.timestamp.toNat 0xFFFFFFFF
      if 1 < diffSeq then
        if diffTimestamp % sbcListSamples = 0 then
          let needRecoverPkt := diffTimestamp / sbcListSamples
          if frameCnt < needRecoverPkt then needRecoverPkt - frameCnt else needRecoverPkt
        else (diffSeq - 1) * frameCnt
      else 0

/-! ### The packets of a sender -/

/-- Packet `k` carries `frames k` frames; both counters may begin anywhere. -/
structure Sender where
  frames : Nat → Nat
  frames_pos : ∀ k, 1 ≤ frames k
  frames_le : ∀ k, frames k ≤ 15
  firstSequenceNumber : Nat
  firstTimestamp : Nat

namespace Sender

variable (s : Sender)

def framesBefore : Nat → Nat
  | 0 => 0
  | k + 1 => framesBefore k + s.frames k

def header (k : Nat) : MediaHeader where
  sequenceNumber := UInt16.ofNat (s.firstSequenceNumber + k)
  timestamp := UInt32.ofNat (s.firstTimestamp + s.framesBefore k * sbcListSamples)

def lost (prev curr : Nat) : Nat := s.framesBefore curr - s.framesBefore (prev + 1)

theorem framesBefore_add (k n : Nat) : s.framesBefore k + n ≤ s.framesBefore (k + n) := by
  induction n with
  | zero => exact Nat.le_refl _
  | succ n ih =>
      have hpos := s.frames_pos (k + n)
      show s.framesBefore k + (n + 1) ≤ s.framesBefore (k + n) + s.frames (k + n)
      omega

theorem framesBefore_eq {prev curr : Nat} (h : prev < curr) :
    s.framesBefore curr = s.framesBefore prev + s.frames prev + s.lost prev curr := by
  obtain ⟨n, rfl⟩ := Nat.exists_eq_add_of_lt h
  have hle := s.framesBefore_add (prev + 1) n
  have hcurr : prev + n + 1 = prev + 1 + n := by omega
  rw [lost, hcurr]
  show _ = s.framesBefore (prev + 1) + _
  omega

theorem lost_eq_zero_iff {prev curr : Nat} (h : prev < curr) : s.lost prev curr = 0 ↔ curr = prev + 1 := by
  obtain ⟨n, rfl⟩ := Nat.exists_eq_add_of_lt h
  have hle := s.framesBefore_add (prev + 1) n
  have hcurr : prev + n + 1 = prev + 1 + n := by omega
  rw [lost, hcurr]
  constructor
  · intro hzero
    omega
  · intro hnext
    obtain rfl : n = 0 := by omega
    exact Nat.sub_self _

end Sender

/-! ### What the counters say -/

/-- Of a counter that goes round, what has passed is known up to rounds. -/
theorem getPassed_mod {base prev curr max : Nat} (hle : prev ≤ curr) (hmax : max = 0xFFFF ∨ max = 0xFFFFFFFF) :
    getPassed ((base + curr) % (max + 1)) ((base + prev) % (max + 1)) max = (curr - prev) % (max + 1) := by
  obtain ⟨d, rfl⟩ := Nat.exists_eq_add_of_le hle
  rw [getPassed]
  rcases hmax with rfl | rfl <;> split <;> omega

theorem passed_sequenceNumber (s : Sender) {prev curr : Nat} (h : prev ≤ curr) :
    getPassed (s.header curr).sequenceNumber.toNat (s.header prev).sequenceNumber.toNat 0xFFFF =
      (curr - prev) % 2 ^ 16 := by
  show getPassed (UInt16.ofNat _).toNat (UInt16.ofNat _).toNat _ = _
  rw [UInt16.toNat_ofNat', UInt16.toNat_ofNat']
  exact getPassed_mod h (.inl rfl)

theorem passed_timestamp (s : Sender) {prev curr : Nat} (h : prev < curr) :
    getPassed (s.header curr).timestamp.toNat (s.header prev).timestamp.toNat 0xFFFFFFFF =
      (s.frames prev + s.lost prev curr) % 2 ^ 25 * sbcListSamples := by
  have hframes := s.framesBefore_eq h
  have hle : s.framesBefore prev * sbcListSamples ≤ s.framesBefore curr * sbcListSamples :=
    Nat.mul_le_mul_right _ (by omega)
  show getPassed (UInt32.ofNat _).toNat (UInt32.ofNat _).toNat _ = _
  rw [UInt32.toNat_ofNat', UInt32.toNat_ofNat', getPassed_mod hle (.inr rfl), hframes, sbcListSamples]
  omega

theorem findMissing_header (s : Sender) {prev curr : Nat} (h : prev < curr) (frameCnt : Nat) :
    findMissing (saveLast (s.header prev)) (s.header curr) frameCnt =
      if 1 < (curr - prev) % 2 ^ 16 then
        let between := (s.frames prev + s.lost prev curr) % 2 ^ 25
        if frameCnt < between then between - frameCnt else between
      else 0 := by
  have hsamples : ∀ n, n * sbcListSamples % sbcListSamples = 0 ∧ n * sbcListSamples / sbcListSamples = n := fun n => by
    rw [sbcListSamples]
    omega
  simp only [findMissing, saveLast]
  rw [passed_sequenceNumber s (Nat.le_of_lt h), passed_timestamp s h, Nat.mod_mod, (hsamples _).2,
    if_pos (hsamples _).1]

/-- The frames of the lost packets are counted right exactly if none is lost, or if the packet behind the gap carries
as many frames as the one before it and neither counter takes the gap for a shorter one. -/
theorem findMissing_eq_lost_iff (s : Sender) (prev curr : Nat) (h : prev < curr) :
    findMissing (saveLast (s.header prev)) (s.header curr) (s.frames curr) = s.lost prev curr ↔
      curr = prev + 1 ∨ s.frames prev = s.frames curr ∧ 1 < (curr - prev) % 2 ^ 16 ∧
        s.frames prev + s.lost prev curr < 2 ^ 25 := by
  have hzero := s.lost_eq_zero_iff h
  have hprev := s.frames_pos prev
  have hcurr := s.frames_pos curr
  have hprev' := s.frames_le prev
  have hcurr' := s.frames_le curr
  rw [findMissing_header s h]
  dsimp only
  by_cases hnext : curr = prev + 1
  · have hone : ¬ 1 < (curr - prev) % 2 ^ 16 := by omega
    rw [if_neg hone, hzero.mpr hnext]
    exact iff_of_true rfl (.inl hnext)
  · have hlost : 0 < s.lost prev curr := Nat.pos_of_ne_zero fun h0 => hnext (hzero.mp h0)
    by_cases hseq : 1 < (curr - prev) % 2 ^ 16
    · rw [if_pos hseq]
      -- what goes round at `2 ^ 25` is more than a packet too short
      split <;> omega
    · rw [if_neg hseq]
      omega

/-- Five frames in every packet, and both counters about to go round. -/
def evenSender : Sender where
  frames := fun _ => 5
  frames_pos := fun _ => by decide
  frames_le := fun _ => by decide
  firstSequenceNumber := 0xFFFF
  firstTimestamp := 0xFFFFFF80

theorem findMissing_evenSender :
    findMissing (saveLast (evenSender.header 0)) (evenSender.header 3) 5 = evenSender.lost 0 3 :=
  (findMissing_eq_lost_iff evenSender 0 3 (by decide)).mpr (.inr (by decide))

/-- One frame in a packet, except for two in packet 2. -/
def unevenSender : Sender where
  frames := fun k => if k = 2 then 2 else 1
  frames_pos := fun k => by split <;> decide
  frames_le := fun k => by split <;> decide
  firstSequenceNumber := 0
  firstTimestamp := 0

/-- One frame is lost with packet 1; two are counted. -/
theorem findMissing_unevenSender : ¬ findMissing (saveLast (unevenSender.header 0)) (unevenSender.header 2)
    (unevenSender.frames 2) = unevenSender.lost 0 2 := by
  decide

end Best1307.Sbc
