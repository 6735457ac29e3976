import Mathlib.Logic.Function.Basic
import Best1307.Lib.HandOver
import Best1307.Lib.Run

/-!
# The frames of the microphone on their way to the co-processor

`gsound_custom_hotword_external.cpp`: the main processor copies each frame of the microphone to a slot of a small ring
and marks the slot; the co-processor goes round the ring and passes the frames in marked slots on. Each side has an
index of its own. The main processor does not look at the mark before it copies.

The two processors run at the same time; a step here is one access of one of them to what they share.
-/

namespace Best1307.MicFrames

open SlotRing

def cpPcmDataCacheFrameNum : Nat := 4

def voiceSbcPcmDataSizePerHandle : Nat := 48 * 16000 / 1000 * 2

inductive MicDataStatus where
  | idle | cached
  deriving DecidableEq, Repr

/-- Where the main processor is: outside, or in `gsound_custom_hotword_external_handle_mic_data` after it has copied the
frame, set the length, set the output buffer, or marked the slot -/
inductive McuPc (α : Type*) where
  | outside
  | copied (frame : List α) (outputPtr : Nat)
  | lengthSet (frame : List α) (outputPtr : Nat)
  | outputSet (frame : List α)
  | marked
  deriving DecidableEq, Repr

/-- Where the co-processor is: outside, or in round `idx` of the loop of `_cp_hw_main`, before it looks at the mark,
before it passes the frame on, before it clears the mark, or before its index goes on -/
inductive CpPc where
  | outside
  | looking (idx : Nat)
  | handling (idx : Nat)
  | handled (idx : Nat)
  | cleared (idx : Nat)
  deriving DecidableEq, Repr

/-- What `gsound_custom_audio_handle_mic_data` is called with: bytes and their number, and the output buffer -/
structure Handled (α : Type*) where
  data : List α × Nat
  outputBuf : Option Nat
  deriving DecidableEq, Repr

/-- The part of `EHWctx` that the two sides share, where they are, the frames that have been cached and the calls that
have been made for them -/
structure State (α : Type*) where
  hasInputBuf : Bool
  micDataInputBuf : Nat → List α
  micDataInputLen : Nat → Nat
  micDataStatus : Nat → MicDataStatus
  micDataOutputBuf : Option Nat
  micDataCacheIdx : Nat
  micDataProcessIdx : Nat
  mcu : McuPc α
  cp : CpPc
  captured : List (List α)
  processed : List (Handled α)

variable {α : Type*}

/-- What `gsound_custom_hotword_external_start_detection` does to the ring; both sides are outside, and counting begins
anew. -/
def startDetection (s : State α) : State α :=
  { s with
    micDataStatus := fun _ => .idle
    micDataOutputBuf := none
    micDataCacheIdx := 0
    micDataProcessIdx := 0
    mcu := .outside
    cp := .outside
    captured := []
    processed := [] }

/-- A call of `gsound_custom_hotword_external_handle_mic_data`, its next access, a call of `_cp_hw_main` with
`CP_EVENT_HW_PROCESSING`, and its next access -/
inductive Event (α : Type*) where
  | handleMicData (ptrBuf : List α) (outputPtr : Nat)
  | mcu
  | hwProcessing
  | cp
  deriving DecidableEq, Repr

def next (idx : Nat) : Nat := if cpPcmDataCacheFrameNum ≤ idx + 1 then 0 else idx + 1

/-- The data in a slot, with as many bytes as its length says -/
def State.content (s : State α) (slot : Nat) : List α × Nat :=
  ((s.micDataInputBuf slot).take (s.micDataInputLen slot), s.micDataInputLen slot)

namespace State

variable (s : State α)

/-- A call copies the frame, as far as its length allows the call at all. -/
def handleMicData (ptrBuf : List α) (outputPtr : Nat) : Option (State α) :=
  match s.mcu with
  | .outside =>
      if voiceSbcPcmDataSizePerHandle < ptrBuf.length then none
      else if s.hasInputBuf then
        some { s with
          micDataInputBuf := Function.update s.micDataInputBuf s.micDataCacheIdx
            (ptrBuf ++ (s.micDataInputBuf s.micDataCacheIdx).drop ptrBuf.length)
          mcu := .copied ptrBuf outputPtr }
      else some { s with micDataInputLen := Function.update s.micDataInputLen s.micDataCacheIdx 0 }
  | _ => none

def mcuNext : Option (State α) :=
  match s.mcu with
  | .outside => none
  | .copied frame outputPtr =>
      some { s with
        micDataInputLen := Function.update s.micDataInputLen s.micDataCacheIdx frame.length
        mcu := .lengthSet frame outputPtr }
  | .lengthSet frame outputPtr => some { s with micDataOutputBuf := some outputPtr, mcu := .outputSet frame }
  | .outputSet frame =>
      some { s with
        micDataStatus := Function.update s.micDataStatus s.micDataCacheIdx .cached
        mcu := .marked
        captured := s.captured ++ [frame] }
  | .marked => some { s with micDataCacheIdx := next s.micDataCacheIdx, mcu := .outside }

def hwProcessing : Option (State α) := if s.cp = .outside then some { s with cp := .looking 0 } else none

def cpNext : Option (State α) :=
  match s.cp with
  | .outside => none
  | .looking idx =>
      if idx < cpPcmDataCacheFrameNum then
        if s.micDataStatus s.micDataProcessIdx = .cached then some { s with cp := .handling idx }
        else some { s with cp := .looking (idx + 1) }
      else some { s with cp := .outside }
  | .handling idx =>
      some { s with
        cp := .handled idx
        processed := s.processed ++ [⟨s.content s.micDataProcessIdx, s.micDataOutputBuf⟩] }
  | .handled idx =>
      some { s with
        micDataStatus := Function.update s.micDataStatus s.micDataProcessIdx .idle
        cp := .cleared idx }
  | .cleared idx => some { s with micDataProcessIdx := next s.micDataProcessIdx, cp := .looking (idx + 1) }

end State

def step (s : State α) : Event α → Option (State α)
  | .handleMicData ptrBuf outputPtr => s.handleMicData ptrBuf outputPtr
  | .mcu => s.mcuNext
  | .hwProcessing => s.hwProcessing
  | .cp => s.cpNext

/-! ### The order law -/

/-- What should be passed on for the frames that have been cached -/
def State.expected (s : State α) : List (List α × Nat) := s.captured.map fun frame => (frame, frame.length)

/-- What has been passed on are the first frames, each once, in order, with its bytes and its length. -/
def InOrder (s : State α) : Prop := s.processed.map Handled.data <+: s.expected

def Calls (s : State α) (e : Event α) : Prop :=
  s.mcu = .outside ∧ ∃ ptrBuf outputPtr, e = .handleMicData ptrBuf outputPtr

/-- A call does not copy to a slot that is marked as cached, and after a step the frames are in order. -/
structure Meets (s : State α) (e : Event α) : Prop where
  not_overwritten : Calls s e → s.micDataStatus s.micDataCacheIdx ≠ .cached
  in_order : ∀ s', step s e = some s' → InOrder s'

/-- A frame has been passed on whose mark is still set. -/
def CpPc.pending : CpPc → Nat
  | .handled _ => 1
  | _ => 0

/-- The frames the co-processor has done with, their marks cleared -/
def State.released (s : State α) : Nat := s.processed.length - s.cp.pending

/-- When a call begins, the co-processor is less than a full ring behind. -/
def KeepsUp (s : State α) (e : Event α) : Prop := Calls s e → s.captured.length < s.released + cpPcmDataCacheFrameNum

section Proofs

variable {s s' : State α} {e : Event α}

/-- The frame of a call that has not marked its slot yet is in the slot, as far as the call has come; after a call that
has marked it there is a frame. -/
def McuAt (s : State α) : Prop :=
  match s.mcu with
  | .outside => True
  | .copied frame _ =>
      s.captured.length < s.released + cpPcmDataCacheFrameNum ∧
        (s.micDataInputBuf s.micDataCacheIdx).take frame.length = frame
  | .lengthSet frame _ | .outputSet frame =>
      s.captured.length < s.released + cpPcmDataCacheFrameNum ∧ s.content s.micDataCacheIdx = (frame, frame.length)
  | .marked => 0 < s.captured.length

/-- A frame that is passed on is one that waits. -/
def CpAt (s : State α) : Prop :=
  match s.cp with
  | .outside | .looking _ => True
  | .handling _ => s.released < s.captured.length
  | .handled _ => s.released < s.captured.length ∧ 0 < s.processed.length
  | .cleared _ => 0 < s.processed.length

/-- A slot has been marked, and the index has not gone on. -/
def McuPc.behind : McuPc α → Nat
  | .marked => 1
  | _ => 0

/-- A mark has been cleared, and the index has not gone on. -/
def CpPc.behind : CpPc → Nat
  | .cleared _ => 1
  | _ => 0

/-- The frames from the first that the co-processor has not done with lie in their slots, the indexes are at the ends of
this part of the ring, and the order law holds. -/
structure Inv (s : State α) : Prop where
  ring : Waiting cpPcmDataCacheFrameNum (fun i => s.micDataStatus i = .cached) s.content s.expected s.released
  inOrder : s.processed.map Handled.data = s.expected.take s.processed.length
  cacheIdx : s.micDataCacheIdx = (s.captured.length - s.mcu.behind) % cpPcmDataCacheFrameNum
  processIdx : s.micDataProcessIdx = (s.released - s.cp.behind) % cpPcmDataCacheFrameNum
  mcuAt : McuAt s
  cpAt : CpAt s

theorem expected_length (s : State α) : s.expected.length = s.captured.length := List.length_map _

theorem next_mod (k : Nat) : next (k % cpPcmDataCacheFrameNum) = (k + 1) % cpPcmDataCacheFrameNum := by
  rw [next, succ_mod (by decide)]

/-- Between marks the main processor writes to the slot of the next frame. -/
theorem Inv.slot_eq (hs : Inv s) (hmcu : s.mcu.behind = 0) :
    s.micDataCacheIdx = s.expected.length % cpPcmDataCacheFrameNum := by
  rw [expected_length, hs.cacheIdx, hmcu, Nat.sub_zero]

theorem expected_lt (hroom : s.captured.length < s.released + cpPcmDataCacheFrameNum) :
    s.expected.length < s.released + cpPcmDataCacheFrameNum := by
  rw [expected_length]
  exact hroom

theorem startDetection_inv (s : State α) : Inv (startDetection s) where
  ring := Waiting.empty fun _ _ h => by cases h
  inOrder := rfl
  cacheIdx := rfl
  processIdx := rfl
  mcuAt := trivial
  cpAt := trivial

theorem Inv.toInOrder (hs : Inv s) : InOrder s := by
  rw [InOrder, hs.inOrder]
  exact List.take_prefix _ _

/-- A call finds a mark on its slot exactly if the co-processor is a full ring behind. -/
theorem Inv.not_cached_iff (hs : Inv s) (hout : s.mcu = .outside) :
    s.micDataStatus s.micDataCacheIdx ≠ .cached ↔ s.captured.length < s.released + cpPcmDataCacheFrameNum := by
  have hidx := hs.cacheIdx
  rw [hout] at hidx
  rw [hidx, ← expected_length]
  exact (hs.ring.lt_iff_not_full (by decide)).symm

theorem Inv.processed_le (hs : Inv s) : s.processed.length ≤ s.expected.length := by
  have hlength := congrArg List.length hs.inOrder
  rw [List.length_map, List.length_take] at hlength
  omega

theorem update_cached_iff {status : Nat → MicDataStatus} {i j : Nat} :
    Function.update status i .cached j = .cached ↔ j = i ∨ status j = .cached := by
  rw [Function.update_apply]
  split
  case isTrue h => exact iff_of_true rfl (.inl h)
  case isFalse h => exact (or_iff_right h).symm

theorem update_idle_iff {status : Nat → MicDataStatus} {i j : Nat} :
    Function.update status i .idle j = .cached ↔ j ≠ i ∧ status j = .cached := by
  rw [Function.update_apply]
  split
  case isTrue h => exact iff_of_false (by decide) fun hne => hne.1 h
  case isFalse h => exact (and_iff_right h).symm

theorem CpAt.mono (h : CpAt s) (hcp : s'.cp = s.cp) (hprocessed : s'.processed = s.processed)
    (hcaptured : s.captured.length ≤ s'.captured.length) : CpAt s' := by
  have hreleased : s'.released = s.released := by rw [State.released, hcp, hprocessed, State.released]
  rw [CpAt] at h ⊢
  rw [hcp, hprocessed, hreleased]
  cases hpc : s.cp with
  | outside => trivial
  | looking idx => trivial
  | handling idx =>
    rw [hpc] at h
    exact Nat.lt_of_lt_of_le h hcaptured
  | handled idx =>
    rw [hpc] at h
    exact ⟨Nat.lt_of_lt_of_le h.1 hcaptured, h.2⟩
  | cleared idx =>
    rw [hpc] at h
    exact h

theorem McuAt.mono (h : McuAt s) (hmcu : s'.mcu = s.mcu) (hcaptured : s'.captured = s.captured)
    (hreleased : s.released ≤ s'.released) (hslot : s'.micDataInputBuf s'.micDataCacheIdx =
      s.micDataInputBuf s.micDataCacheIdx) (hcontent : s'.content s'.micDataCacheIdx = s.content s.micDataCacheIdx) :
    McuAt s' := by
  have hroom := Nat.add_le_add_right hreleased cpPcmDataCacheFrameNum
  rw [McuAt] at h ⊢
  rw [hmcu, hcaptured, hslot, hcontent]
  cases hpc : s.mcu with
  | outside => trivial
  | copied frame outputPtr =>
    rw [hpc] at h
    exact ⟨Nat.lt_of_lt_of_le h.1 hroom, h.2⟩
  | lengthSet frame outputPtr =>
    rw [hpc] at h
    exact ⟨Nat.lt_of_lt_of_le h.1 hroom, h.2⟩
  | outputSet frame =>
    rw [hpc] at h
    exact ⟨Nat.lt_of_lt_of_le h.1 hroom, h.2⟩
  | marked =>
    rw [hpc] at h
    exact h

/-! ### The steps of the main processor -/

theorem handleMicData_inv (hs : Inv s) {ptrBuf : List α} {outputPtr : Nat}
    (hroom : s.mcu = .outside → s.captured.length < s.released + cpPcmDataCacheFrameNum)
    (h : s.handleMicData ptrBuf outputPtr = some s') : Inv s' := by
  have hidx := hs.cacheIdx
  rw [State.handleMicData] at h
  split at h
  next hout =>
    rw [hout] at hidx
    have hslot := hs.slot_eq (congrArg McuPc.behind hout)
    have hfree := expected_lt (hroom hout)
    split at h
    · cases h
    split at h
    · obtain rfl := Option.some.inj h
      refine ⟨hs.ring.write hfree fun i hi => ?_, hs.inOrder, hidx, hs.processIdx, ⟨hroom hout, ?_⟩, hs.cpAt⟩
      · rw [← hslot] at hi
        exact congrArg (fun buf => (List.take (s.micDataInputLen i) buf, s.micDataInputLen i))
          (Function.update_of_ne hi _ _)
      · show List.take ptrBuf.length (Function.update s.micDataInputBuf s.micDataCacheIdx _ s.micDataCacheIdx) = ptrBuf
        rw [Function.update_self, List.take_left]
    · obtain rfl := Option.some.inj h
      refine ⟨hs.ring.write hfree fun i hi => ?_, hs.inOrder, ?_, hs.processIdx, ?_, hs.cpAt⟩
      · rw [← hslot] at hi
        exact congrArg (fun len => (List.take len (s.micDataInputBuf i), len)) (Function.update_of_ne hi _ _)
      · rw [hout]
        exact hidx
      · rw [McuAt, hout]
        trivial
  next => cases h

theorem mcuNext_inv (hs : Inv s) (h : s.mcuNext = some s') : Inv s' := by
  have hidx := hs.cacheIdx
  have hat := hs.mcuAt
  rw [State.mcuNext] at h
  rw [McuAt] at hat
  cases hpc : s.mcu with
  | outside =>
    rw [hpc] at h
    cases h
  | copied frame outputPtr =>
    rw [hpc] at h hat hidx
    obtain rfl := Option.some.inj h
    have hslot := hs.slot_eq (congrArg McuPc.behind hpc)
    have hfree := expected_lt hat.1
    refine ⟨hs.ring.write hfree fun i hi => ?_, hs.inOrder, hidx, hs.processIdx, ⟨hat.1, ?_⟩, hs.cpAt⟩
    · rw [← hslot] at hi
      exact congrArg (fun len => (List.take len (s.micDataInputBuf i), len)) (Function.update_of_ne hi _ _)
    · show (List.take (Function.update s.micDataInputLen s.micDataCacheIdx frame.length s.micDataCacheIdx)
        (s.micDataInputBuf s.micDataCacheIdx), Function.update _ _ _ _) = _
      rw [Function.update_self]
      exact congrArg (fun data => (data, frame.length)) hat.2
  | lengthSet frame outputPtr =>
    rw [hpc] at h hat hidx
    obtain rfl := Option.some.inj h
    exact ⟨hs.ring, hs.inOrder, hidx, hs.processIdx, hat, hs.cpAt⟩
  | outputSet frame =>
    rw [hpc] at h hat hidx
    obtain rfl := Option.some.inj h
    have hslot := hs.slot_eq (congrArg McuPc.behind hpc)
    have hfree := expected_lt hat.1
    have hlength : (s.captured ++ [frame]).length = s.captured.length + 1 := List.length_append
    have hexpected : (s.captured ++ [frame]).map (fun frame => (frame, frame.length)) =
        s.expected ++ [(frame, frame.length)] := List.map_append
    refine ⟨?_, ?_, ?_, hs.processIdx, ?_, hs.cpAt.mono rfl rfl ?_⟩
    · rw [State.expected, hexpected]
      apply hs.ring.push hfree
      · intro i
        rw [← hslot]
        exact update_cached_iff
      · rw [← hslot]
        exact hat.2
    · rw [State.expected, hexpected]
      show s.processed.map Handled.data = (s.expected ++ [_]).take s.processed.length
      rw [List.take_append_of_le_length hs.processed_le]
      exact hs.inOrder
    · show s.micDataCacheIdx = ((s.captured ++ [frame]).length - 1) % cpPcmDataCacheFrameNum
      rw [hlength]
      exact hidx
    · show 0 < (s.captured ++ [frame]).length
      rw [hlength]
      exact Nat.succ_pos _
    · show s.captured.length ≤ (s.captured ++ [frame]).length
      rw [hlength]
      exact Nat.le_succ _
  | marked =>
    rw [hpc] at h hat hidx
    obtain rfl := Option.some.inj h
    refine ⟨hs.ring, hs.inOrder, ?_, hs.processIdx, trivial, hs.cpAt⟩
    show next s.micDataCacheIdx = s.captured.length % cpPcmDataCacheFrameNum
    rw [hidx, next_mod]
    exact congrArg (· % cpPcmDataCacheFrameNum) (Nat.sub_add_cancel hat)

/-! ### The steps of the co-processor -/

theorem Inv.cp_goto (hs : Inv s) {pc : CpPc} (hpending : pc.pending = s.cp.pending) (hbehind : pc.behind = s.cp.behind)
    (hat : CpAt { s with cp := pc }) : Inv { s with cp := pc } := by
  have hreleased : ({ s with cp := pc } : State α).released = s.released :=
    congrArg (s.processed.length - ·) hpending
  refine ⟨?_, hs.inOrder, hs.cacheIdx, ?_, hs.mcuAt.mono rfl rfl (Nat.le_of_eq hreleased.symm) rfl rfl, hat⟩
  · rw [hreleased]
    exact hs.ring
  · rw [hreleased, hbehind]
    exact hs.processIdx

theorem hwProcessing_inv (hs : Inv s) (h : s.hwProcessing = some s') : Inv s' := by
  rw [State.hwProcessing] at h
  split at h
  next hout =>
    obtain rfl := Option.some.inj h
    apply hs.cp_goto
    · rw [hout]
      rfl
    · rw [hout]
      rfl
    · trivial
  next => cases h

theorem cpNext_inv (hs : Inv s) (h : s.cpNext = some s') : Inv s' := by
  have hidx := hs.processIdx
  have hat := hs.cpAt
  have hlength := expected_length s
  rw [State.cpNext] at h
  rw [CpAt] at hat
  cases hpc : s.cp with
  | outside =>
    rw [hpc] at h
    cases h
  | looking idx =>
    rw [hpc] at h hidx
    simp only at h
    have hgoto : ∀ pc : CpPc, pc.pending = 0 → pc.behind = 0 → CpAt { s with cp := pc } → Inv { s with cp := pc } := by
      intro pc hpending hbehind
      exact hs.cp_goto (by rw [hpc]; exact hpending) (by rw [hpc]; exact hbehind)
    split at h
    · split at h
      next hcached =>
        obtain rfl := Option.some.inj h
        apply hgoto _ rfl rfl
        show s.processed.length - 0 < s.captured.length
        rw [hidx] at hcached
        have hwaits := (hs.ring.lt_iff_full (by decide)).mpr hcached
        rw [State.released, hpc, hlength] at hwaits
        exact hwaits
      next =>
        obtain rfl := Option.some.inj h
        exact hgoto _ rfl rfl trivial
    · obtain rfl := Option.some.inj h
      exact hgoto _ rfl rfl trivial
  | handling idx =>
    have hreleased : s.released = s.processed.length := by
      rw [State.released, hpc]
      rfl
    rw [hpc] at h hidx hat
    rw [hreleased] at hidx hat
    obtain rfl := Option.some.inj h
    have hcount : ∀ handled : Handled α, (s.processed ++ [handled]).length - 1 = s.released := by
      intro handled
      rw [List.length_append, hreleased]
      rfl
    refine ⟨?_, ?_, hs.cacheIdx, ?_, hs.mcuAt.mono rfl rfl (Nat.le_of_eq (hcount _).symm) rfl rfl, ?_, ?_⟩
    · show Waiting _ _ _ _ ((s.processed ++ [_]).length - 1)
      rw [hcount]
      exact hs.ring
    · show (s.processed ++ [_]).map Handled.data = s.expected.take (s.processed ++ [_]).length
      have hitem := (hs.ring.holds s.processed.length (Nat.le_of_eq hreleased) (hlength ▸ hat)).2
      rw [List.length_append, List.length_singleton, List.map_append, List.take_add_one, hitem, hs.inOrder, hidx]
      rfl
    · show s.micDataProcessIdx = ((s.processed ++ [_]).length - 1 - 0) % cpPcmDataCacheFrameNum
      rw [hcount, hreleased]
      exact hidx
    · show (s.processed ++ [_]).length - 1 < s.captured.length
      rw [hcount, hreleased]
      exact hat
    · show 0 < (s.processed ++ [_]).length
      rw [List.length_append]
      exact Nat.succ_pos _
  | handled idx =>
    rw [hpc] at h hidx hat
    obtain rfl := Option.some.inj h
    have hreleased : s.released + 1 = s.processed.length := by
      rw [State.released, hpc]
      exact Nat.sub_add_cancel hat.2
    refine ⟨?_, hs.inOrder, hs.cacheIdx, ?_, hs.mcuAt.mono rfl rfl ?_ rfl rfl, hat.2⟩
    · show Waiting _ _ _ _ s.processed.length
      rw [← hreleased]
      apply hs.ring.pop (hlength ▸ hat.1)
      intro i
      rw [← show s.micDataProcessIdx = s.released % cpPcmDataCacheFrameNum from hidx]
      exact update_idle_iff
    · show s.micDataProcessIdx = (s.processed.length - 1) % cpPcmDataCacheFrameNum
      rw [← hreleased]
      exact hidx
    · show s.released ≤ s.processed.length
      rw [← hreleased]
      exact Nat.le_succ _
  | cleared idx =>
    rw [hpc] at h hidx hat
    obtain rfl := Option.some.inj h
    have hreleased : s.released = s.processed.length := by
      rw [State.released, hpc]
      rfl
    refine ⟨?_, hs.inOrder, hs.cacheIdx, ?_, hs.mcuAt.mono rfl rfl (Nat.le_of_eq hreleased) rfl rfl, trivial⟩
    · show Waiting _ _ _ _ s.processed.length
      rw [← hreleased]
      exact hs.ring
    · show next s.micDataProcessIdx = s.processed.length % cpPcmDataCacheFrameNum
      rw [hidx, next_mod, hreleased]
      exact congrArg (· % cpPcmDataCacheFrameNum) (Nat.sub_add_cancel hat)

theorem step_inv (hs : Inv s) (he : KeepsUp s e) (h : step s e = some s') : Inv s' := by
  cases e with
  | handleMicData ptrBuf outputPtr => exact handleMicData_inv hs (fun hout => he ⟨hout, ptrBuf, outputPtr, rfl⟩) h
  | mcu => exact mcuNext_inv hs h
  | hwProcessing => exact hwProcessing_inv hs h
  | cp => exact cpNext_inv hs h

/-! ### Every run -/

/-- A step meets the law exactly if it does not copy over a full ring. -/
theorem Inv.meets_iff (hs : Inv s) : Meets s e ↔ KeepsUp s e := by
  constructor
  · intro h hcalls
    exact (hs.not_cached_iff hcalls.1).mp (h.not_overwritten hcalls)
  · intro h
    exact ⟨fun hcalls => (hs.not_cached_iff hcalls.1).mpr (h hcalls), fun s' hs' => (step_inv hs h hs').toInOrder⟩

/-- **A run keeps the law exactly if the co-processor is never a full ring behind when a call begins.** -/
theorem run_meets_iff_keepsUp (s : State α) (events : List (Event α)) :
    Along step Meets (startDetection s) events ↔ Along step KeepsUp (startDetection s) events :=
  along_iff_of_invariant Inv (fun _ _ hs => hs.meets_iff) (fun _ _ _ hs he h => step_inv hs he h)
    (startDetection_inv s)

/-- Frames of one byte, of which the fifth is copied over the first -/
def lateRun : List (Event Nat) :=
  [0, 1, 2, 3].flatMap (fun x => .handleMicData [x] 0 :: List.replicate 4 .mcu) ++ [.handleMicData [4] 0]

/-- A ring in which nothing has been put yet -/
def blank : State Nat where
  hasInputBuf := true
  micDataInputBuf := fun _ => List.replicate voiceSbcPcmDataSizePerHandle 0
  micDataInputLen := fun _ => 0
  micDataStatus := fun _ => .idle
  micDataOutputBuf := none
  micDataCacheIdx := 0
  micDataProcessIdx := 0
  mcu := .outside
  cp := .outside
  captured := []
  processed := []

/-- The co-processor is late by four frames. -/
theorem not_meets_lateRun : ¬ Along step Meets (startDetection blank) lateRun := by
  intro h
  have hlast := h.append.2 _ rfl
  exact hlast.1.not_overwritten ⟨rfl, [4], 0, rfl⟩ rfl

end Proofs

end Best1307.MicFrames
