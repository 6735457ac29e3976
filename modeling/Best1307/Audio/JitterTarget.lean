import Mathlib.Algebra.Order.Group.Nat
import Mathlib.Data.Fin.Basic

/-!
# The target of the jitter buffer on both buds

`a2dp_decoder.cpp`: a length in milliseconds is converted to a number of packets, which one bud takes for its target and
tells the other. While a bud is in the period after chopping, the target waits until the timer has expired.
-/

namespace Best1307.JitterTarget

/-- The codecs that the conversion knows. -/
inductive Codec where
  | sbc | mpeg24Aac | lhdc | lhdcV5 | ldac | scalable
  deriving DecidableEq, Repr

namespace Codec

def sampleCountPerBuf : Codec → Nat
  | sbc => 128
  | mpeg24Aac => 1024
  | lhdc => 256
  | lhdcV5 => 240
  | ldac => 256
  | scalable => 864

/-- `BT_A2DP_CODEC_TYPE_NON_A2DP` -/
def isNonA2dp : Codec → Bool
  | sbc | mpeg24Aac => false
  | lhdc | lhdcV5 | ldac | scalable => true

variable (codec : Codec)

/-- At least three packets for the codecs that are not those of A2DP -/
def atLeast (count : Nat) : Nat := if codec.isNonA2dp && count < 3 then 3 else count

/-- The count as `sbm_update_target_jitter_buf_length` works it out, in 32 bits. -/
def targetBufCount (currentSampleRate targetMs : Nat) : Nat :=
  codec.atLeast (targetMs * currentSampleRate % 2 ^ 32 / 1000 / codec.sampleCountPerBuf)

def exactCount (currentSampleRate targetMs : Nat) : Nat :=
  codec.atLeast (targetMs * currentSampleRate / 1000 / codec.sampleCountPerBuf)

end Codec

/-! ### A bud -/

/-- The part of `a2dp_audio_context` that targets are kept in. Of the average, which is a `float`, the part before the
point. -/
structure Bud where
  averagePacketMut : Nat
  destPacketMut : Fin (2 ^ 16)
  notChoppingDestMut : Fin (2 ^ 16)
  isInPostChoppingPeriod : Bool
  deriving DecidableEq, Repr

namespace Bud

variable (b : Bud)

def widen (count : Fin (2 ^ 8)) : Fin (2 ^ 16) := count.castLE (by decide)

/-- `sbm_update_local_target_jitter_buf_cnt` while audio is playing, and what it returns -/
def updateLocalTarget (targetCount : Fin (2 ^ 8)) : Bud × Bool :=
  if b.averagePacketMut % 2 ^ 8 ≠ targetCount then
    ({ b with
        notChoppingDestMut := widen targetCount
        destPacketMut := if b.isInPostChoppingPeriod then b.destPacketMut else widen targetCount }, true)
  else (b, false)

/-- `sbm_update_target_jitter_buf_length`, and the count that `app_ibrt_request_peer_sync_target_buf_cnt` sends -/
def updateTargetLength (codec : Codec) (currentSampleRate targetMs : Nat) : Bud × Option (Fin (2 ^ 16)) :=
  let result := b.updateLocalTarget (Fin.ofNat _ (codec.targetBufCount currentSampleRate targetMs))
  (result.1, if result.2 then some result.1.destPacketMut else none)

/-- `app_ibrt_sync_target_buf_cnt_req_handler` -/
def syncTargetReq (targetBufCnt : Fin (2 ^ 16)) : Bud := (b.updateLocalTarget (Fin.ofNat _ targetBufCnt)).1

/-- `app_post_chopping_timer_handler` -/
def postChoppingTimer : Bud := { b with isInPostChoppingPeriod := false, destPacketMut := b.notChoppingDestMut }

def expire : Bud := if b.isInPostChoppingPeriod then b.postChoppingTimer else b

/-- The bud has the target, and uses it when the timer has expired. -/
def Targets (n : Nat) : Prop := b.notChoppingDestMut = n ∧ (b.isInPostChoppingPeriod = true ∨ b.destPacketMut = n)

instance (n : Nat) : Decidable (b.Targets n) := inferInstanceAs (Decidable (_ ∧ _))

end Bud

/-! ### Both buds -/

/-- The count of packets is the target of both buds, and what is sent is this count. -/
structure Agreed (n : Nat) (sent : Option (Fin (2 ^ 16))) (bud peer : Bud) : Prop where
  bud_target : bud.notChoppingDestMut = n
  sent_eq : ∀ count ∈ sent, count = n
  peer_target : peer.notChoppingDestMut = n
  bud_dest : bud.expire.destPacketMut = n
  peer_dest : peer.expire.destPacketMut = n

/-- What the two buds have when the length has been updated and the message, if there is one, has been handled -/
def update (codec : Codec) (currentSampleRate targetMs : Nat) (bud peer : Bud) :
    Option (Fin (2 ^ 16)) × Bud × Bud :=
  let result := bud.updateTargetLength codec currentSampleRate targetMs
  (result.2, result.1, result.2.elim peer peer.syncTargetReq)

/-- An update that changes nothing finds the target on both buds. Any other one is of a count of 8 bits; the bud is not
in the period after chopping, or uses this count already; and the average does not keep the peer from taking it. -/
def WillAgree (codec : Codec) (currentSampleRate targetMs : Nat) (bud peer : Bud) : Prop :=
  let n := codec.exactCount currentSampleRate targetMs
  if bud.averagePacketMut % 2 ^ 8 = codec.targetBufCount currentSampleRate targetMs % 2 ^ 8 then
    bud.Targets n ∧ peer.Targets n
  else
    n < 2 ^ 8 ∧ (bud.isInPostChoppingPeriod = true → bud.destPacketMut = n) ∧
      (peer.averagePacketMut % 2 ^ 8 = n → peer.Targets n)

section Proofs

variable {codec : Codec} {currentSampleRate targetMs n : Nat} {bud peer b : Bud} {sent : Option (Fin (2 ^ 16))}

theorem agreed_iff : Agreed n sent bud peer ↔ bud.Targets n ∧ peer.Targets n ∧ ∀ count ∈ sent, count = n := by
  have hexpire : ∀ b : Bud, b.notChoppingDestMut = n → (b.expire.destPacketMut = n ↔
      b.isInPostChoppingPeriod = true ∨ b.destPacketMut = n) := by
    intro b hb
    rw [Bud.expire]
    cases hpost : b.isInPostChoppingPeriod with
    | true => exact iff_of_true hb (.inl rfl)
    | false => exact ⟨.inr, fun h => h.resolve_left Bool.false_ne_true⟩
  constructor
  · intro h
    exact ⟨⟨h.bud_target, (hexpire _ h.bud_target).mp h.bud_dest⟩,
      ⟨h.peer_target, (hexpire _ h.peer_target).mp h.peer_dest⟩, h.sent_eq⟩
  · intro h
    obtain ⟨hbud, hpeer, hsent⟩ := h
    exact ⟨hbud.1, hsent, hpeer.1, (hexpire _ hbud.1).mpr hbud.2, (hexpire _ hpeer.1).mpr hpeer.2⟩

/-- A count of 8 bits does not overflow on the way. -/
theorem targetBufCount_eq (h : codec.exactCount currentSampleRate targetMs < 2 ^ 8) :
    codec.targetBufCount currentSampleRate targetMs = codec.exactCount currentSampleRate targetMs := by
  have hsample : 0 < codec.sampleCountPerBuf ∧ codec.sampleCountPerBuf ≤ 1024 := by
    cases codec <;> decide
  have hcount : targetMs * currentSampleRate / 1000 / codec.sampleCountPerBuf < 2 ^ 8 := by
    rw [Codec.exactCount, Codec.atLeast] at h
    split at h
    case isTrue hfew =>
      have hthree := of_decide_eq_true (Bool.and_eq_true_iff.mp hfew).2
      omega
    case isFalse => exact h
  have hproduct : targetMs * currentSampleRate < 2 ^ 32 := by
    have hdiv := (Nat.div_lt_iff_lt_mul hsample.1).mp hcount
    have hmul : 2 ^ 8 * codec.sampleCountPerBuf ≤ 2 ^ 8 * 1024 := Nat.mul_le_mul_left _ hsample.2
    omega
  rw [Codec.targetBufCount, Codec.exactCount, Nat.mod_eq_of_lt hproduct]

/-- A bud whose average is not the count takes it. -/
theorem updateLocalTarget_targets_iff (count : Fin (2 ^ 8)) (hn : (count : Nat) = n) :
    (b.updateLocalTarget count).1.Targets n ↔ (b.averagePacketMut % 2 ^ 8 = n → b.Targets n) := by
  rw [Bud.updateLocalTarget]
  split
  case isTrue h =>
    rw [hn] at h
    refine iff_of_true ⟨hn, ?_⟩ fun heq => absurd heq h
    cases hpost : b.isInPostChoppingPeriod with
    | true => exact .inl rfl
    | false => exact .inr hn
  case isFalse h =>
    rw [hn, ne_eq, not_not] at h
    exact ⟨fun htargets _ => htargets, fun htargets => htargets h⟩

theorem update_of_eq (h : bud.averagePacketMut % 2 ^ 8 = codec.targetBufCount currentSampleRate targetMs % 2 ^ 8) :
    update codec currentSampleRate targetMs bud peer = (none, bud, peer) := by
  have hlocal : bud.updateLocalTarget (Fin.ofNat _ (codec.targetBufCount currentSampleRate targetMs)) = (bud, false) :=
    if_neg (not_not.mpr h)
  rw [update, Bud.updateTargetLength, hlocal]
  rfl

/-- An update that is not suppressed: the bud has the count cut to 8 bits, and what it uses now is sent. -/
theorem update_of_ne (peer : Bud)
    (h : bud.averagePacketMut % 2 ^ 8 ≠ codec.targetBufCount currentSampleRate targetMs % 2 ^ 8) :
    ∃ dest : Fin (2 ^ 16),
      (dest : Nat) = (if bud.isInPostChoppingPeriod then (bud.destPacketMut : Nat)
        else codec.targetBufCount currentSampleRate targetMs % 2 ^ 8) ∧
      update codec currentSampleRate targetMs bud peer = (some dest,
        { bud with
          notChoppingDestMut := Bud.widen (Fin.ofNat _ (codec.targetBufCount currentSampleRate targetMs))
          destPacketMut := dest },
        peer.syncTargetReq dest) := by
  refine ⟨if bud.isInPostChoppingPeriod then bud.destPacketMut
    else Bud.widen (Fin.ofNat _ (codec.targetBufCount currentSampleRate targetMs)), ?_, ?_⟩
  · split <;> rfl
  · have hlocal : bud.updateLocalTarget (Fin.ofNat _ (codec.targetBufCount currentSampleRate targetMs)) = (_, true) :=
      if_pos h
    rw [update, Bud.updateTargetLength, hlocal]
    rfl

/-- **The buds agree on a target exactly in those states.** -/
theorem update_agrees_iff (codec : Codec) (currentSampleRate targetMs : Nat) (bud peer : Bud) :
    Agreed (codec.exactCount currentSampleRate targetMs) (update codec currentSampleRate targetMs bud peer).1
        (update codec currentSampleRate targetMs bud peer).2.1 (update codec currentSampleRate targetMs bud peer).2.2 ↔
      WillAgree codec currentSampleRate targetMs bud peer := by
  rw [agreed_iff, WillAgree]
  split
  case isTrue h =>
    rw [update_of_eq h]
    exact and_congr_right fun _ => and_iff_left fun _ hnone => absurd hnone (Option.not_mem_none _)
  case isFalse h =>
    obtain ⟨dest, hdest, hupdate⟩ := update_of_ne peer h
    rw [hupdate]
    show _ ∧ (peer.syncTargetReq dest).Targets _ ∧ _ ↔ _
    have hcut : (Bud.widen (Fin.ofNat _ (codec.targetBufCount currentSampleRate targetMs)) : Nat) =
        codec.targetBufCount currentSampleRate targetMs % 2 ^ 8 := rfl
    constructor
    · intro hagreed
      obtain ⟨hbud, hpeer, hsent⟩ := hagreed
      have htarget := hbud.1
      rw [hcut] at htarget
      have hfits : codec.exactCount currentSampleRate targetMs < 2 ^ 8 :=
        htarget ▸ Nat.mod_lt _ (by decide)
      have hdestn : (dest : Nat) = codec.exactCount currentSampleRate targetMs := hsent dest rfl
      refine ⟨hfits, fun hpost => ?_, ?_⟩
      · rw [hpost, if_pos rfl] at hdest
        exact hdest.symm.trans hdestn
      · refine (updateLocalTarget_targets_iff _ ?_).mp hpeer
        exact (congrArg (· % 2 ^ 8) hdestn).trans (Nat.mod_eq_of_lt hfits)
    · intro hwill
      obtain ⟨hfits, hpost, hpeer⟩ := hwill
      have hcount : codec.targetBufCount currentSampleRate targetMs % 2 ^ 8 =
          codec.exactCount currentSampleRate targetMs := by
        rw [targetBufCount_eq hfits, Nat.mod_eq_of_lt hfits]
      have hdestn : (dest : Nat) = codec.exactCount currentSampleRate targetMs := by
        rw [hdest]
        split
        case isTrue hin => exact hpost hin
        case isFalse => exact hcount
      refine ⟨⟨hcut.trans hcount, .inr hdestn⟩, ?_, ?_⟩
      · refine (updateLocalTarget_targets_iff _ ?_).mpr hpeer
        exact (congrArg (· % 2 ^ 8) hdestn).trans (Nat.mod_eq_of_lt hfits)
      · intro count hcountmem
        exact Option.some.inj hcountmem ▸ hdestn

/-- 200 ms of SBC at 48 kHz are 75 packets. The bud still uses 50, as the timer after chopping is running. -/
def budAfterChopping : Bud where
  averagePacketMut := 50
  destPacketMut := 50
  notChoppingDestMut := 60
  isInPostChoppingPeriod := true

/-- The peer of `budAfterChopping`, which is not in this period -/
def peerOfBud : Bud where
  averagePacketMut := 60
  destPacketMut := 60
  notChoppingDestMut := 60
  isInPostChoppingPeriod := false

/-- What is sent is what the bud uses now, so the peer gets another target than the bud. -/
theorem not_agreed_budAfterChopping :
    ¬ Agreed (Codec.sbc.exactCount 48000 200) (update .sbc 48000 200 budAfterChopping peerOfBud).1
      (update .sbc 48000 200 budAfterChopping peerOfBud).2.1
      (update .sbc 48000 200 budAfterChopping peerOfBud).2.2 := by
  intro h
  have hpeer := h.peer_target
  exact absurd hpeer (by decide)

end Proofs

end Best1307.JitterTarget
