import Mathlib.Data.List.Basic
import Best1307.Audio.SbcStore
import Best1307.Lib.Run

/-!
# Storing an AAC packet

A frame may come in two packets, and only the first two bytes tell the second packet from a new frame. So the frame of
every packet is held until the next packet shows whether there is more of it; then it goes to the end of the list. There
are two ways to build this, as for SBC.
-/

namespace Best1307.Aac

open Sbc (MediaHeader LastFrame Build Ret getPassed)

def aacReadbufSize : Nat := 900
def aacOutputFrameSamples : Nat := 1024

/-- `a2dp_audio_aac_decoder_frame_t`, with the number of the allocation it and its buffer are from; the length of the
list is `aac_buffer_len`. -/
structure Frame where
  sequenceNumber : UInt16
  timestamp : UInt32
  aacBuffer : List UInt8
  block : Nat
  deriving DecidableEq, Repr

structure Sent where
  sequenceNumber : UInt16
  first : List UInt8
  continuation : Option (List UInt8)
  deriving DecidableEq, Repr

/-- The list with what goes with it; how many allocations there were, and which of them were freed. `appended` are the
frames that `a2dp_audio_aac_lc_packet_append` was called with and `sent` those the packets are from, the last one first.
-/
structure Store where
  list : List Frame
  reorder : Option Frame
  lastValid : LastFrame
  adjustFrameCnt : Int
  allocated : Nat
  freed : List Nat
  appended : List Frame
  sent : List Sent

/-- What `a2dp_audio_aac_lc_reorder_init` and `a2dp_audio_aac_lc_list_checker` leave behind -/
def init : Store where
  list := []
  reorder := none
  lastValid := none
  adjustFrameCnt := 0
  allocated := 0
  freed := []
  appended := []
  sent := []

/-- What is not in this file: `aac_mtu_limiter`, the frame of `aac_get_mute_frame`, and `(uint32_t)(tmp_pkt_cnt + 0.5f)`
for a difference of time stamps, where this is in samples and where it is not. -/
structure Outside where
  aacMtuLimiter : Nat
  muteFrame : List UInt8
  pktCnt : (inSamples : Bool) → (diffTimestamp : Nat) → Nat

section

variable (outside : Outside)

/-- `a2dp_audio_aac_lc_packet_recover_find_missing` -/
def findMissing (lastValid : LastFrame) (frame : Frame) : Nat :=
  match lastValid with
  | none => 0
  | some last =>
      let diffSeq := getPassed frame.sequenceNumber.toNat last.sequenceNumber.toNat 0xFFFF % 2 ^ 16
      let diffTimestamp := getPassed frame.timestamp.toNat last.timestamp.toNat 0xFFFFFFFF
      if 1 < diffSeq then
        let needRecoverPkt :=
          outside.pktCnt (decide (diffTimestamp / diffSeq % aacOutputFrameSamples = 0)) diffTimestamp
        if needRecoverPkt = diffSeq then needRecoverPkt - 1 else 0
      else 0

/-- The frames of `a2dp_audio_aac_lc_packet_recover_proc` -/
def muteFrames (last : MediaHeader) (missing allocated : Nat) : List Frame :=
  (List.range missing).map fun i =>
    ⟨last.sequenceNumber + UInt16.ofNat i + 1, 0xFFFFFFFF, outside.muteFrame, allocated + i⟩

/-- `a2dp_audio_aac_lc_packet_recover_proc` -/
def recoverProc (frame : Frame) (s : Store) : Store :=
  match s.lastValid with
  | none => s
  | some last =>
      let missing := findMissing outside s.lastValid frame
      if missing ≤ 4 ∧ s.list.length + missing < outside.aacMtuLimiter then
        { s with
          list := s.list ++ muteFrames outside last missing s.allocated
          allocated := s.allocated + missing }
      else s

/-- `a2dp_audio_aac_lc_packet_append` -/
def packetAppend (frame : Frame) (s : Store) : Store :=
  let s := recoverProc outside frame s
  { s with
    lastValid := some ⟨frame.sequenceNumber, frame.timestamp⟩
    list := s.list ++ [frame]
    appended := frame :: s.appended }

/-- `a2dp_audio_aac_lc_reorder_store_packet`, into a frame of `a2dp_audio_aac_lc_frame_malloc` -/
def reorderStorePacket (header : MediaHeader) (buffer : List UInt8) (s : Store) : Store :=
  { s with
    reorder := some ⟨header.sequenceNumber, header.timestamp, buffer, s.allocated⟩
    allocated := s.allocated + 1 }

/-- `a2dp_audio_aac_lc_reorder_proc` -/
def reorderProc (frame : Frame) (buffer : List UInt8) : Frame :=
  if aacReadbufSize < frame.aacBuffer.length + buffer.length then frame
  else { frame with aacBuffer := frame.aacBuffer ++ buffer }

/-- `a2dp_audio_aac_lc_packet_adjust`, where `app_tws_ibrt_audio_analysis_get_refill_frames` returns `refill` -/
def packetAdjust (refill : Int) (buffer : List UInt8) (s : Store) : Ret × Store :=
  let cnt := if refill ≠ 0 ∧ s.adjustFrameCnt = 0 then refill else s.adjustFrameCnt
  if cnt < 0 then
    match s.list with
    | [] => (.noError, { s with adjustFrameCnt := cnt })
    | front :: list => (.noError, { s with list := list, adjustFrameCnt := cnt + 1, freed := front.block :: s.freed })
  else if 0 < cnt then
    if s.list.length < outside.aacMtuLimiter ∧ buffer.length ≤ aacReadbufSize then
      (.noError, { s with
        list := ⟨0xFFFF, 0xFFFFFFFF, buffer, s.allocated⟩ :: s.list
        adjustFrameCnt := cnt - 1
        allocated := s.allocated + 1 })
    else (.syncError, { s with adjustFrameCnt := cnt })
  else (.noError, { s with adjustFrameCnt := cnt })

/-- `a2dp_audio_aac_lc_store_packet` -/
def storePacket (build : Build) (refill : Int) (header : MediaHeader) (buffer : List UInt8) (s : Store) : Ret × Store :=
  if s.list.length < outside.aacMtuLimiter ∧ buffer.length ≤ aacReadbufSize then
    match s.reorder with
    | none => (.noError, reorderStorePacket header buffer s)
    | some frame =>
        if frame.aacBuffer[0]? = buffer[0]? ∧ frame.aacBuffer[1]? = buffer[1]? then
          let s := reorderStorePacket header buffer (packetAppend outside frame s)
          match build with
          | .stuckPatch => packetAdjust outside refill buffer s
          | .recover => (.noError, s)
        else
          match build with
          | .stuckPatch => (.noError, { s with reorder := none })
          | .recover => (.noError, { packetAppend outside (reorderProc frame buffer) s with reorder := none })
  else (.mtuLimiterError, s)

/-! ### Streams -/

inductive Event
  | start (header : MediaHeader) (buffer : List UInt8)
  | continuation (header : MediaHeader) (buffer : List UInt8)
  /-- The decoder takes the first frame from the list. -/
  | remove

/-- The list has not reached its limit when a packet comes. Frames begin with the two bytes of the stream; the second
packet of one, if any, begins with others. -/
def Enabled (fixed : UInt8 × UInt8) (s : Store) : Event → Prop
  | .start _ buffer => s.list.length < outside.aacMtuLimiter ∧ buffer.take 2 = [fixed.1, fixed.2]
  | .continuation _ buffer =>
      s.list.length < outside.aacMtuLimiter ∧ 2 ≤ buffer.length ∧ buffer.take 2 ≠ [fixed.1, fixed.2] ∧
        s.sent.head?.map (·.continuation) = some none
  | .remove => s.list ≠ []

instance (fixed : UInt8 × UInt8) (s : Store) : (e : Event) → Decidable (Enabled outside fixed s e)
  | .start _ _ => inferInstanceAs (Decidable (_ ∧ _))
  | .continuation _ _ => inferInstanceAs (Decidable (_ ∧ _ ∧ _ ∧ _))
  | .remove => inferInstanceAs (Decidable (_ ≠ _))

def sentWith (sent : List Sent) : Event → List Sent
  | .start header buffer => ⟨header.sequenceNumber, buffer, none⟩ :: sent
  | .continuation _ buffer =>
      match sent with
      | [] => []
      | last :: before => { last with continuation := some buffer } :: before
  | .remove => sent

/-- `a2dp_audio_list_remove` on the first frame -/
def removeFront (s : Store) : Store :=
  match s.list with
  | [] => s
  | front :: list => { s with list := list, freed := front.block :: s.freed }

variable (build : Build) (fixed : UInt8 × UInt8)

/-- What a packet, or the decoder, does to the list; no adjustment is asked for. -/
def handle (s : Store) : Event → Store
  | .start header buffer | .continuation header buffer => (storePacket outside build 0 header buffer s).2
  | .remove => removeFront s

def step (s : Store) (e : Event) : Option Store :=
  if Enabled outside fixed s e then some { handle outside build s e with sent := sentWith s.sent e } else none

end

/-! ### What should be appended -/

/-- What a frame brings with it -/
def Frame.content (frame : Frame) : UInt16 × List UInt8 := (frame.sequenceNumber, frame.aacBuffer)

def Sent.content (sent : Sent) : UInt16 × List UInt8 := (sent.sequenceNumber, sent.first ++ sent.continuation.getD [])

/-- Every frame that was sent, except possibly the last, has been appended once, in order and as it was sent; and every
allocation that was not freed is in the list or held. -/
structure Kept (s : Store) : Prop where
  appended : s.appended.map (·.content) = (s.sent.map (·.content)).tail ∨
    s.appended.map (·.content) = s.sent.map (·.content)
  owned : ∀ block < s.allocated, block ∈ s.freed ∨ block ∈ s.list.map (·.block) ∨ block ∈ s.reorder.toList.map (·.block)

def Meets (outside : Outside) (build : Build) (fixed : UInt8 × UInt8) (s : Store) (e : Event) : Prop :=
  ∀ s', step outside build fixed s e = some s' → Kept s'

/-! ### When it is -/

/-- Each packet of the frame fits the buffer. -/
def Sent.Fits (sent : Sent) : Prop :=
  sent.first.length ≤ aacReadbufSize ∧ (sent.continuation.getD []).length ≤ aacReadbufSize

/-- When a frame begins, the packets of the frame before fit the buffer, and so does this one if that was a single
packet. When two packets of a frame fit the buffer, they do so together, and frames are not built with the patch. -/
def Sound (build : Build) (s : Store) : Event → Prop
  | .start _ buffer =>
      ∀ last ∈ s.sent.head?, last.Fits ∧ (last.continuation = none → buffer.length ≤ aacReadbufSize)
  | .continuation _ buffer =>
      ∀ last ∈ s.sent.head?, last.first.length ≤ aacReadbufSize → buffer.length ≤ aacReadbufSize →
        build = .recover ∧ last.first.length + buffer.length ≤ aacReadbufSize
  | .remove => True

section Proofs

variable {outside : Outside} {build : Build} {fixed : UInt8 × UInt8} {s s' : Store} {frame held : Frame}
  {header : MediaHeader} {buffer : List UInt8} {last : Sent} {before : List Sent} {sent : List Sent} {e : Event}

/-! ### What is allocated -/

/-- Every allocation has one place: it was freed, it is in the list, or it is held. -/
structure Owned (s : Store) : Prop where
  list_lt : ∀ block ∈ s.list.map (·.block), block < s.allocated
  freed_lt : ∀ block ∈ s.freed, block < s.allocated
  held_lt : ∀ frame ∈ s.reorder, frame.block < s.allocated
  held_notMem : ∀ frame ∈ s.reorder, frame.block ∉ s.freed ∧ frame.block ∉ s.list.map (·.block)
  owned : ∀ block < s.allocated, block ∈ s.freed ∨ block ∈ s.list.map (·.block) ∨ block ∈ s.reorder.toList.map (·.block)

theorem muteFrames_blocks (last : MediaHeader) (missing allocated : Nat) :
    (muteFrames outside last missing allocated).map (·.block) = List.range' allocated missing := by
  rw [muteFrames, List.map_map, List.range'_eq_map_range]
  rfl

/-- Mute frames go to the end of the list, in allocations of their own. -/
theorem recoverProc_eq (outside : Outside) (frame : Frame) (s : Store) :
    ∃ mutes, mutes.map (·.block) = List.range' s.allocated mutes.length ∧
      recoverProc outside frame s = { s with list := s.list ++ mutes, allocated := s.allocated + mutes.length } := by
  have hnone : s = { s with list := s.list ++ [], allocated := s.allocated + ([] : List Frame).length } := by
    rw [List.append_nil]
    rfl
  rw [recoverProc]
  split
  · exact ⟨[], rfl, hnone⟩
  · simp only
    split
    · rename_i lastValid _ _
      have hlen : (muteFrames outside lastValid (findMissing outside s.lastValid frame) s.allocated).length =
          findMissing outside s.lastValid frame := by
        rw [muteFrames, List.length_map, List.length_range]
      exact ⟨muteFrames outside lastValid (findMissing outside s.lastValid frame) s.allocated,
        by rw [muteFrames_blocks, hlen], by rw [hlen]⟩
    · exact ⟨[], rfl, hnone⟩

theorem packetAppend_appended : (packetAppend outside frame s).appended = frame :: s.appended := by
  obtain ⟨mutes, -, heq⟩ := recoverProc_eq outside frame s
  rw [packetAppend, heq]

theorem packetAppend_adjustFrameCnt : (packetAppend outside frame s).adjustFrameCnt = s.adjustFrameCnt := by
  obtain ⟨mutes, -, heq⟩ := recoverProc_eq outside frame s
  rw [packetAppend, heq]

theorem Owned.append (h : Owned s) (hheld : s.reorder = some held) (hblock : frame.block = held.block) :
    Owned { packetAppend outside frame s with reorder := none } := by
  obtain ⟨mutes, hmutes, heq⟩ := recoverProc_eq outside frame s
  have hlt := h.held_lt held hheld
  have hmem : ∀ block, block ∈ mutes.map (·.block) ↔ s.allocated ≤ block ∧ block < s.allocated + mutes.length := by
    intro block
    rw [hmutes, List.mem_range'_1]
  rw [packetAppend, heq]
  refine ⟨?_, ?_, nofun, nofun, ?_⟩
  · intro block hlist
    simp only [List.map_append, List.mem_append, hmem, List.map_cons, List.map_nil, List.mem_singleton] at hlist
    rcases hlist with (hold | hnew) | hframe
    · exact Nat.lt_add_right _ (h.list_lt block hold)
    · exact hnew.2
    · show block < s.allocated + mutes.length
      omega
  · exact fun block hfreed => Nat.lt_add_right _ (h.freed_lt block hfreed)
  · intro block hallocated
    simp only [List.map_append, List.mem_append, hmem, List.map_cons, List.map_nil, List.mem_singleton]
    by_cases hnew : s.allocated ≤ block
    · exact .inr (.inl (.inl (.inr ⟨hnew, hallocated⟩)))
    · rcases h.owned block (Nat.lt_of_not_le hnew) with hfreed | hlist | hreorder
      · exact .inl hfreed
      · exact .inr (.inl (.inl (.inl hlist)))
      · rw [hheld] at hreorder
        exact .inr (.inl (.inr ((List.mem_singleton.mp hreorder).trans hblock.symm)))

theorem Owned.hold (h : Owned s) (hnone : s.reorder = none) : Owned (reorderStorePacket header buffer s) := by
  refine ⟨?_, ?_, ?_, ?_, ?_⟩
  · exact fun block hlist => Nat.lt_succ_of_lt (h.list_lt block hlist)
  · exact fun block hfreed => Nat.lt_succ_of_lt (h.freed_lt block hfreed)
  · intro frame hframe
    obtain rfl := Option.some.inj hframe
    exact Nat.lt_succ_self _
  · intro frame hframe
    obtain rfl := Option.some.inj hframe
    exact ⟨fun hfreed => Nat.lt_irrefl _ (h.freed_lt _ hfreed), fun hlist => Nat.lt_irrefl _ (h.list_lt _ hlist)⟩
  · intro block hallocated
    rcases Nat.lt_succ_iff_lt_or_eq.mp hallocated with hlt | heq
    · rcases h.owned block hlt with hfreed | hlist | hreorder
      · exact .inl hfreed
      · exact .inr (.inl hlist)
      · rw [hnone] at hreorder
        exact absurd hreorder List.not_mem_nil
    · exact .inr (.inr (List.mem_singleton.mpr heq))

theorem Owned.removeFront (h : Owned s) : Owned (removeFront s) := by
  rw [Aac.removeFront]
  split
  · exact h
  · rename_i front list hlist
    have hlt : ∀ block ∈ list.map (·.block), block < s.allocated := fun block hblock =>
      h.list_lt block (hlist ▸ List.mem_cons_of_mem _ hblock)
    have hfront : front.block < s.allocated := h.list_lt _ (hlist ▸ List.mem_cons_self)
    refine ⟨hlt, ?_, h.held_lt, ?_, ?_⟩
    · exact List.forall_mem_cons.mpr ⟨hfront, h.freed_lt⟩
    · intro frame hframe
      have hnot := h.held_notMem frame hframe
      rw [hlist, List.map_cons, List.mem_cons, not_or] at hnot
      exact ⟨List.not_mem_cons_of_ne_of_not_mem hnot.2.1 hnot.1, hnot.2.2⟩
    · intro block hallocated
      rcases h.owned block hallocated with hfreed | hmem | hreorder
      · exact .inl (List.mem_cons_of_mem _ hfreed)
      · rw [hlist, List.map_cons, List.mem_cons] at hmem
        rcases hmem with hblock | hmem
        · exact .inl (hblock ▸ List.mem_cons_self)
        · exact .inr (.inl hmem)
      · exact .inr (.inr hreorder)

theorem Owned.withSent (h : Owned s) (sent : List Sent) : Owned { s with sent := sent } :=
  ⟨h.list_lt, h.freed_lt, h.held_lt, h.held_notMem, h.owned⟩

/-! ### What a packet does -/

theorem take_two_eq_iff {left right : List UInt8} :
    left.take 2 = right.take 2 ↔ left[0]? = right[0]? ∧ left[1]? = right[1]? := by
  constructor
  · intro h
    have hget : ∀ i < 2, left[i]? = right[i]? := by
      intro i hi
      rw [← List.getElem?_take_of_lt hi, h, List.getElem?_take_of_lt hi]
    exact ⟨hget 0 (by decide), hget 1 (by decide)⟩
  · intro h
    apply List.ext_getElem?
    intro i
    match i with
    | 0 => rw [List.getElem?_take_of_lt (by decide), List.getElem?_take_of_lt (by decide), h.1]
    | 1 => rw [List.getElem?_take_of_lt (by decide), List.getElem?_take_of_lt (by decide), h.2]
    | i + 2 => rw [List.getElem?_take_eq_none (Nat.le_add_left 2 i), List.getElem?_take_eq_none (Nat.le_add_left 2 i)]

theorem packetAdjust_zero (h : s.adjustFrameCnt = 0) : packetAdjust outside 0 buffer s = (.noError, s) := by
  obtain ⟨list, reorder, lastValid, cnt, allocated, freed, appended, sent⟩ := s
  obtain rfl : cnt = 0 := h
  rfl

theorem storePacket_long (hlong : aacReadbufSize < buffer.length) :
    (storePacket outside build 0 header buffer s).2 = s := by
  rw [storePacket, if_neg (fun h => Nat.not_lt.mpr h.2 hlong)]

variable (hlimit : s.list.length < outside.aacMtuLimiter) (hbuffer : buffer.length ≤ aacReadbufSize)

include hlimit hbuffer

theorem storePacket_none (hnone : s.reorder = none) :
    (storePacket outside build 0 header buffer s).2 = reorderStorePacket header buffer s := by
  rw [storePacket, if_pos ⟨hlimit, hbuffer⟩, hnone]

theorem storePacket_same (hcnt : s.adjustFrameCnt = 0) (hheld : s.reorder = some held)
    (hsame : held.aacBuffer.take 2 = buffer.take 2) :
    (storePacket outside build 0 header buffer s).2 =
      reorderStorePacket header buffer (packetAppend outside held s) := by
  rw [storePacket, if_pos ⟨hlimit, hbuffer⟩, hheld]
  simp only
  rw [if_pos (take_two_eq_iff.mp hsame)]
  cases build with
  | recover => rfl
  | stuckPatch =>
      show (packetAdjust outside 0 buffer _).2 = _
      rw [packetAdjust_zero]
      exact packetAppend_adjustFrameCnt.trans hcnt

theorem storePacket_other (hheld : s.reorder = some held) (hother : held.aacBuffer.take 2 ≠ buffer.take 2) :
    (storePacket outside build 0 header buffer s).2 =
      match build with
      | .stuckPatch => { s with reorder := none }
      | .recover => { packetAppend outside (reorderProc held buffer) s with reorder := none } := by
  rw [storePacket, if_pos ⟨hlimit, hbuffer⟩, hheld]
  simp only
  rw [if_neg (fun h => hother (take_two_eq_iff.mpr h))]
  cases build <;> rfl

omit hlimit hbuffer

theorem reorderProc_block : (reorderProc frame buffer).block = frame.block := by
  rw [reorderProc]
  split <;> rfl

theorem reorderProc_length_le (h : frame.aacBuffer.length ≤ aacReadbufSize) :
    (reorderProc frame buffer).aacBuffer.length ≤ aacReadbufSize := by
  rw [reorderProc]
  split
  · exact h
  · rename_i hfit
    rw [List.length_append]
    exact Nat.le_of_not_lt hfit

/-! ### The run -/

/-- Between packets: everything has been appended; or the last frame, which is a single packet so far, is held; or the
last frame has a packet that does not fit, and what is held, if anything, is not that frame. -/
inductive Phase (fixed : UInt8 × UInt8) (s : Store) : Prop
  | settled (hreorder : s.reorder = none) (happended : s.appended.map (·.content) = s.sent.map (·.content))
      (hlast : ∀ last ∈ s.sent.head?, last.Fits ∧ last.continuation ≠ none)
  | part {last : Sent} {before : List Sent} {held : Frame} (hsent : s.sent = last :: before)
      (hreorder : s.reorder = some held) (happended : s.appended.map (·.content) = before.map (·.content))
      (hcontinuation : last.continuation = none) (hcontent : held.content = (last.sequenceNumber, last.first))
      (hfixed : last.first.take 2 = [fixed.1, fixed.2])
  | tooLong {last : Sent} {before : List Sent} (hsent : s.sent = last :: before)
      (hreorder : last.continuation = none → s.reorder = none)
      (happended : s.appended.map (·.content) = before.map (·.content)) (hfits : ¬ last.Fits)

structure Inv (fixed : UInt8 × UInt8) (s : Store) : Prop where
  owned : Owned s
  adjustFrameCnt_eq : s.adjustFrameCnt = 0
  fits : ∀ frame ∈ s.reorder, frame.aacBuffer.length ≤ aacReadbufSize
  phase : Phase fixed s

theorem init_inv : Inv fixed init where
  owned := ⟨nofun, nofun, nofun, nofun, nofun⟩
  adjustFrameCnt_eq := rfl
  fits := nofun
  phase := .settled rfl rfl nofun

theorem Inv.kept (h : Inv fixed s) : Kept s where
  owned := h.owned.owned
  appended := by
    cases h.phase with
    | settled hreorder happended hlast => exact .inr happended
    | part hsent hreorder happended hcontinuation hcontent hfixed =>
        rw [hsent]
        exact .inl happended
    | tooLong hsent hreorder happended hfits =>
        rw [hsent]
        exact .inl happended

theorem content_of_none (h : last.continuation = none) : last.content = (last.sequenceNumber, last.first) := by
  rw [Sent.content, h, Option.getD_none, List.append_nil]

/-- A frame with a packet that does not fit is longer than the buffer. -/
theorem length_lt_of_not_fits (h : ¬ last.Fits) : aacReadbufSize < last.content.2.length := by
  rw [Sent.content, List.length_append]
  by_contra hle
  exact h ⟨by omega, by omega⟩

/-! #### A frame begins -/

theorem Inv.hold (howned : Owned s) (hnone : s.reorder = none) (hcnt : s.adjustFrameCnt = 0)
    (happended : s.appended.map (·.content) = before.map (·.content)) (hfixed : buffer.take 2 = [fixed.1, fixed.2])
    (hbuffer : buffer.length ≤ aacReadbufSize) :
    Inv fixed { reorderStorePacket header buffer s with
      sent := ⟨header.sequenceNumber, buffer, none⟩ :: before } where
  owned := (howned.hold hnone).withSent _
  adjustFrameCnt_eq := hcnt
  fits := by
    intro frame hframe
    obtain rfl := Option.some.inj hframe
    exact hbuffer
  phase := .part rfl rfl happended rfl rfl hfixed

theorem Inv.start (h : Inv fixed s) (henabled : Enabled outside fixed s (.start header buffer))
    (hsound : Sound build s (.start header buffer)) :
    Inv fixed { handle outside build s (.start header buffer) with
      sent := sentWith s.sent (.start header buffer) } := by
  obtain ⟨hlimit, hfixed⟩ := henabled
  rw [handle, sentWith]
  cases h.phase with
  | settled hreorder happended hlast =>
      by_cases hbuffer : buffer.length ≤ aacReadbufSize
      · rw [storePacket_none hlimit hbuffer hreorder]
        exact Inv.hold h.owned hreorder h.adjustFrameCnt_eq happended hfixed hbuffer
      · rw [storePacket_long (Nat.lt_of_not_le hbuffer)]
        exact ⟨h.owned.withSent _, h.adjustFrameCnt_eq, h.fits,
          .tooLong rfl (fun _ => hreorder) happended (fun hfits => hbuffer hfits.1)⟩
  | @part last before held hsent hreorder happended hcontinuation hcontent hheader =>
      have hbuffer : buffer.length ≤ aacReadbufSize :=
        (hsound last (by rw [hsent]; rfl)).2 hcontinuation
      have hbytes : held.aacBuffer = last.first := congrArg Prod.snd hcontent
      rw [storePacket_same hlimit hbuffer h.adjustFrameCnt_eq hreorder (by rw [hbytes, hheader, hfixed])]
      apply Inv.hold (s := { packetAppend outside held s with reorder := none }) (h.owned.append hreorder rfl) rfl
        (packetAppend_adjustFrameCnt.trans h.adjustFrameCnt_eq) _ hfixed hbuffer
      show (packetAppend outside held s).appended.map _ = _
      rw [packetAppend_appended, List.map_cons, happended, hsent, List.map_cons, content_of_none hcontinuation,
        hcontent]
  | @tooLong last before hsent hreorder happended hfits =>
      exact absurd (hsound last (by rw [hsent]; rfl)).1 hfits

theorem cons_cons_ne_self {α : Type*} (a b : α) (l : List α) : a :: b :: l ≠ l := by
  intro h
  have hlen := congrArg List.length h
  simp only [List.length_cons] at hlen
  omega

/-- At most one frame is appended, and it is not longer than the buffer. -/
theorem Inv.appended_eq_or (h : Inv fixed s) (hlimit : s.list.length < outside.aacMtuLimiter) :
    (storePacket outside build 0 header buffer s).2.appended = s.appended ∨
      ∃ frame : Frame, frame.aacBuffer.length ≤ aacReadbufSize ∧
        (storePacket outside build 0 header buffer s).2.appended = frame :: s.appended := by
  by_cases hbuffer : buffer.length ≤ aacReadbufSize
  · cases hreorder : s.reorder with
    | none =>
        rw [storePacket_none hlimit hbuffer hreorder]
        exact .inl rfl
    | some held =>
        have hfits := h.fits held hreorder
        by_cases hsame : held.aacBuffer.take 2 = buffer.take 2
        · rw [storePacket_same hlimit hbuffer h.adjustFrameCnt_eq hreorder hsame]
          exact .inr ⟨held, hfits, packetAppend_appended⟩
        · rw [storePacket_other hlimit hbuffer hreorder hsame]
          cases build with
          | stuckPatch => exact .inl rfl
          | recover => exact .inr ⟨reorderProc held buffer, reorderProc_length_le hfits, packetAppend_appended⟩
  · rw [storePacket_long (Nat.lt_of_not_le hbuffer)]
    exact .inl rfl

/-- Behind a frame with a packet that does not fit, no other one is kept. -/
theorem not_kept_of_not_fits (h : Inv fixed s) (hlimit : s.list.length < outside.aacMtuLimiter)
    (hsent : s.sent = last :: before) (happended : s.appended.map (·.content) = before.map (·.content))
    (hfits : ¬ last.Fits) :
    ¬ Kept { handle outside build s (.start header buffer) with
      sent := sentWith s.sent (.start header buffer) } := by
  intro hkept
  have hlong := length_lt_of_not_fits hfits
  have hkept := hkept.appended
  simp only [handle, sentWith, hsent, List.map_cons, List.tail_cons] at hkept
  have happend : (storePacket outside build 0 header buffer s).2.appended = s.appended ∨ ∃ frame : Frame,
      frame.aacBuffer.length ≤ aacReadbufSize ∧
        (storePacket outside build 0 header buffer s).2.appended = frame :: s.appended := h.appended_eq_or hlimit
  rcases happend with heq | ⟨frame, hframe, heq⟩
  · rw [heq, happended] at hkept
    rcases hkept with hkept | hkept
    · exact List.cons_ne_self _ _ hkept.symm
    · exact cons_cons_ne_self _ _ _ hkept.symm
  · rw [heq, List.map_cons, happended] at hkept
    rcases hkept with hkept | hkept
    · have hcontent := congrArg Prod.snd (List.cons.inj hkept).1
      rw [← hcontent] at hlong
      exact Nat.not_lt.mpr hframe hlong
    · exact List.cons_ne_self _ _ (List.cons.inj hkept).2.symm

/-- A single packet is lost when one that does not fit comes behind it. -/
theorem not_kept_of_long (hsent : s.sent = last :: before)
    (happended : s.appended.map (·.content) = before.map (·.content)) (hlong : aacReadbufSize < buffer.length) :
    ¬ Kept { handle outside build s (.start header buffer) with
      sent := sentWith s.sent (.start header buffer) } := by
  intro hkept
  have hkept := hkept.appended
  simp only [handle, sentWith, hsent, List.map_cons, List.tail_cons, storePacket_long hlong, happended] at hkept
  rcases hkept with hkept | hkept
  · exact List.cons_ne_self _ _ hkept.symm
  · exact cons_cons_ne_self _ _ _ hkept.symm

theorem Inv.sound_of_start (h : Inv fixed s) (henabled : Enabled outside fixed s (.start header buffer))
    (hkept : Kept { handle outside build s (.start header buffer) with
      sent := sentWith s.sent (.start header buffer) }) : Sound build s (.start header buffer) := by
  intro last hlast
  cases h.phase with
  | settled hreorder happended hall =>
      obtain ⟨hfits, hcontinuation⟩ := hall last hlast
      exact ⟨hfits, fun hnone => absurd hnone hcontinuation⟩
  | @part first before held hsent hreorder happended hcontinuation hcontent hheader =>
      obtain rfl : first = last := by
        rw [hsent] at hlast
        exact Option.some.inj hlast
      have hbytes : held.aacBuffer = first.first := congrArg Prod.snd hcontent
      refine ⟨⟨hbytes ▸ h.fits held hreorder, by rw [hcontinuation]; exact Nat.zero_le _⟩, fun _ => ?_⟩
      by_contra hlong
      exact not_kept_of_long hsent happended (Nat.lt_of_not_le hlong) hkept
  | @tooLong first before hsent hreorder happended hfits =>
      exact absurd hkept (not_kept_of_not_fits h henabled.1 hsent happended hfits)

/-! #### A frame goes on -/

theorem Inv.continuation (h : Inv fixed s) (henabled : Enabled outside fixed s (.continuation header buffer))
    (hsound : Sound build s (.continuation header buffer)) :
    Inv fixed { handle outside build s (.continuation header buffer) with
      sent := sentWith s.sent (.continuation header buffer) } := by
  obtain ⟨hlimit, hlen, hother, hopen⟩ := henabled
  cases h.phase with
  | settled hreorder happended hlast =>
      obtain ⟨last, hhead, hnone⟩ := Option.map_eq_some_iff.mp hopen
      exact absurd hnone (hlast last hhead).2
  | @part last before held hsent hreorder happended hcontinuation hcontent hfixed =>
      have hbytes : held.aacBuffer = last.first := congrArg Prod.snd hcontent
      have hsentWith : sentWith s.sent (.continuation header buffer) =
          { last with continuation := some buffer } :: before := by
        rw [hsent]
        rfl
      rw [handle, hsentWith]
      by_cases hbuffer : buffer.length ≤ aacReadbufSize
      · have hfirst : last.first.length ≤ aacReadbufSize := hbytes ▸ h.fits held hreorder
        obtain ⟨rfl, hboth⟩ := hsound last (by rw [hsent]; rfl) hfirst hbuffer
        rw [storePacket_other hlimit hbuffer hreorder (by rw [hbytes, hfixed]; exact hother.symm)]
        refine ⟨(h.owned.append hreorder reorderProc_block).withSent _,
          packetAppend_adjustFrameCnt.trans h.adjustFrameCnt_eq, nofun, .settled rfl ?_ ?_⟩
        · show (packetAppend outside (reorderProc held buffer) s).appended.map _ = _
          rw [packetAppend_appended, List.map_cons, happended, List.map_cons, reorderProc,
            if_neg (by rw [hbytes]; exact Nat.not_lt.mpr hboth), Frame.content, Sent.content, hbytes]
          have hnumber : held.sequenceNumber = last.sequenceNumber := congrArg Prod.fst hcontent
          rw [hnumber]
          rfl
        · intro first hhead
          obtain rfl := Option.some.inj hhead
          exact ⟨⟨hfirst, hbuffer⟩, nofun⟩
      · rw [storePacket_long (Nat.lt_of_not_le hbuffer)]
        exact ⟨h.owned.withSent _, h.adjustFrameCnt_eq, h.fits,
          .tooLong rfl nofun happended (fun hfits => hbuffer hfits.2)⟩
  | @tooLong last before hsent hreorder happended hfits =>
      obtain ⟨first, hhead, hnone⟩ := Option.map_eq_some_iff.mp hopen
      obtain rfl : last = first := by
        rw [hsent] at hhead
        exact Option.some.inj hhead
      have hreorder := hreorder hnone
      have hlong : ¬ last.first.length ≤ aacReadbufSize := by
        intro hfirst
        exact hfits ⟨hfirst, by rw [hnone]; exact Nat.zero_le _⟩
      have hsentWith : sentWith s.sent (.continuation header buffer) =
          { last with continuation := some buffer } :: before := by
        rw [hsent]
        rfl
      rw [handle, hsentWith]
      by_cases hbuffer : buffer.length ≤ aacReadbufSize
      · rw [storePacket_none hlimit hbuffer hreorder]
        refine ⟨(h.owned.hold hreorder).withSent _, h.adjustFrameCnt_eq, ?_,
          .tooLong rfl nofun happended (fun hfits => hlong hfits.1)⟩
        intro frame hframe
        obtain rfl := Option.some.inj hframe
        exact hbuffer
      · rw [storePacket_long (Nat.lt_of_not_le hbuffer)]
        exact ⟨h.owned.withSent _, h.adjustFrameCnt_eq, h.fits,
          .tooLong rfl nofun happended (fun hfits => hlong hfits.1)⟩

/-- With the patch the held frame is forgotten; without it, one that does not fit with its second packet is appended as
it is. -/
theorem Inv.sound_of_continuation (h : Inv fixed s)
    (henabled : Enabled outside fixed s (.continuation header buffer))
    (hkept : Kept { handle outside build s (.continuation header buffer) with
      sent := sentWith s.sent (.continuation header buffer) }) : Sound build s (.continuation header buffer) := by
  obtain ⟨hlimit, hlen, hother, hopen⟩ := henabled
  intro last hlast hfirst hbuffer
  obtain ⟨first, hhead, hnone⟩ := Option.map_eq_some_iff.mp hopen
  obtain rfl : first = last := Option.some.inj (hhead.symm.trans hlast)
  cases h.phase with
  | settled hreorder happended hall => exact absurd hnone (hall first hhead).2
  | @part last before held hsent hreorder happended hcontinuation hcontent hfixed =>
      obtain rfl : last = first := by
        rw [hsent] at hhead
        exact Option.some.inj hhead
      have hbytes : held.aacBuffer = last.first := congrArg Prod.snd hcontent
      have hstore := @storePacket_other outside build s held header buffer hlimit hbuffer hreorder
        (by rw [hbytes, hfixed]; exact hother.symm)
      cases build with
      | stuckPatch =>
          have hnot := h.owned.held_notMem held hreorder
          have howned := hkept.owned held.block
          simp only [handle, hstore, Option.toList_none, List.map_nil, List.not_mem_nil, or_false] at howned
          exact ((howned (h.owned.held_lt held hreorder)).elim hnot.1 hnot.2).elim
      | recover =>
          refine ⟨rfl, ?_⟩
          by_contra hboth
          have happend := hkept.appended
          simp only [handle, hstore, packetAppend_appended, sentWith, hsent, List.map_cons, List.tail_cons, happended]
            at happend
          rcases happend with happend | happend
          · exact List.cons_ne_self _ _ happend
          · have hcontent := congrArg Prod.snd (List.cons.inj happend).1
            rw [reorderProc, if_pos (by rw [hbytes]; exact Nat.lt_of_not_le hboth), Frame.content, hbytes] at hcontent
            have hlength := congrArg List.length hcontent
            simp only [Sent.content, Option.getD_some, List.length_append] at hlength
            omega
  | @tooLong last before hsent hreorder happended hfits =>
      obtain rfl : last = first := by
        rw [hsent] at hhead
        exact Option.some.inj hhead
      exact absurd ⟨hfirst, by rw [hnone]; exact Nat.zero_le _⟩ hfits

/-! #### All events -/

theorem Inv.removeFront (h : Inv fixed s) : Inv fixed (removeFront s) := by
  have hphase : (Aac.removeFront s).reorder = s.reorder ∧ (Aac.removeFront s).appended = s.appended ∧
      (Aac.removeFront s).sent = s.sent ∧ (Aac.removeFront s).adjustFrameCnt = s.adjustFrameCnt := by
    rw [Aac.removeFront]
    split
    · exact ⟨rfl, rfl, rfl, rfl⟩
    · exact ⟨rfl, rfl, rfl, rfl⟩
  obtain ⟨hreorder, happended, hsent, hcnt⟩ := hphase
  refine ⟨h.owned.removeFront, hcnt.trans h.adjustFrameCnt_eq, by rw [hreorder]; exact h.fits, ?_⟩
  cases h.phase with
  | settled hnone hall hlast => exact .settled (hreorder.trans hnone) (by rw [happended, hsent, hall]) (hsent ▸ hlast)
  | part hlast hheld hall hcontinuation hcontent hfixed =>
      exact .part (hsent.trans hlast) (hreorder.trans hheld) (happended ▸ hall) hcontinuation hcontent hfixed
  | tooLong hlast hheld hall hfits =>
      exact .tooLong (hsent.trans hlast) (fun hnone => hreorder.trans (hheld hnone)) (happended ▸ hall) hfits

theorem step_inv (h : Inv fixed s) (hsound : Enabled outside fixed s e → Sound build s e)
    (hstep : step outside build fixed s e = some s') : Inv fixed s' := by
  rw [step] at hstep
  split at hstep
  · rename_i henabled
    obtain rfl := Option.some.inj hstep
    cases e with
    | start header buffer => exact h.start henabled (hsound henabled)
    | continuation header buffer => exact h.continuation henabled (hsound henabled)
    | remove =>
        have hsent : sentWith s.sent .remove = (Aac.removeFront s).sent := by
          rw [Aac.removeFront]
          split <;> rfl
        rw [handle, hsent]
        exact h.removeFront
  · exact absurd hstep nofun

theorem Inv.meets_iff (h : Inv fixed s) :
    Meets outside build fixed s e ↔ (Enabled outside fixed s e → Sound build s e) := by
  constructor
  · intro hmeets henabled
    have hkept := hmeets _ (by rw [step, if_pos henabled])
    cases e with
    | start header buffer => exact h.sound_of_start henabled hkept
    | continuation header buffer => exact h.sound_of_continuation henabled hkept
    | remove => exact trivial
  · intro hsound s' hstep
    exact (step_inv h hsound hstep).kept

end Proofs

/-- **Exactly when the frames are put together as they were sent**: in every run, whatever is outside. -/
theorem run_meets_iff_sound (outside : Outside) (build : Build) (fixed : UInt8 × UInt8) (events : List Event) :
    Along (step outside build fixed) (Meets outside build fixed) init events ↔
      Along (step outside build fixed) (fun s e => Enabled outside fixed s e → Sound build s e) init events :=
  along_iff_of_invariant (Inv fixed) (fun _ _ h => h.meets_iff) (fun _ _ _ h hsound hstep => step_inv h hsound hstep)
    init_inv

/-- A frame in two packets; the second one makes the build with the patch forget the first. -/
theorem not_run_meets_twoPackets :
    ¬ ∀ (outside : Outside) (build : Build) (fixed : UInt8 × UInt8) (events : List Event),
      Along (step outside build fixed) (Meets outside build fixed) init events := by
  intro h
  have hrun := h ⟨30, [], fun _ _ => 0⟩ .stuckPatch (0x47, 0xFC)
    [.start ⟨1, 0⟩ [0x47, 0xFC, 1], .continuation ⟨2, 0⟩ [5, 6, 7]]
  have hkept := (hrun.2 _ rfl).1 _ rfl
  exact absurd (hkept.owned 0 (by decide)) (by decide)

end Best1307.Aac
