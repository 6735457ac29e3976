import Best1307.Audio.SbcStore
import Best1307.Lib.Run

/-!
# Discarding SBC packets

To catch up, the decoder throws whole packets away that wait in the list. Part of the packet in front may be decoded
already; what is left of it goes first. A frame is known to begin a packet by its number in it, and how many frames the
packets have is taken from the frame that comes next. The frames that were filled in for lost ones have no such numbers:
nothing is written there.
-/

namespace Best1307.Sbc

/-- How `a2dp_audio_sbc_discards_packet` ends, with the list it leaves. -/
inductive Discarded
  | notAligned
  | dividedByZero
  | noError (list : List Frame)
  | memoryError (list : List Frame)
  deriving DecidableEq

/-- The first loop of `a2dp_audio_sbc_discards_packet`. The counter goes up while the list gets shorter. -/
def skipPartial (j : UInt8) : List Frame → List Frame
  | [] => []
  | frame :: list =>
      if j.toNat < (frame :: list).length ∧ frame.curSubSequenceNumber ≠ 0 then skipPartial (j + 1) list
      else frame :: list

/-- The inner loop that takes a packet off; there is no result if the list runs out. -/
def removeFrames (totalSubSequenceNumber : UInt16) (j : UInt8) : List Frame → Option (List Frame)
  | [] => if j.toNat < totalSubSequenceNumber.toNat then none else some []
  | frame :: list =>
      if j.toNat < totalSubSequenceNumber.toNat then removeFrames totalSubSequenceNumber (j + 1) list
      else some (frame :: list)

theorem removeFrames_suffix {total : UInt16} {j : UInt8} {list list' : List Frame}
    (h : removeFrames total j list = some list') : list' <:+ list := by
  induction list generalizing j with
  | nil =>
      rw [removeFrames] at h
      split at h
      · cases h
      · exact Option.some.inj h ▸ List.suffix_refl _
  | cons frame list ih =>
      rw [removeFrames] at h
      split at h
      · exact (ih h).trans (List.suffix_cons frame list)
      · exact Option.some.inj h ▸ List.suffix_refl _

theorem removeFrames_lt {total : UInt16} {list list' : List Frame} (htotal : total ≠ 0)
    (h : removeFrames total 0 list = some list') : list'.length < list.length := by
  have hpos : (0 : UInt8).toNat < total.toNat := Nat.pos_of_ne_zero fun h0 => htotal (UInt16.toNat_inj.mp h0)
  cases list with
  | nil =>
      rw [removeFrames, if_pos hpos] at h
      cases h
  | cons frame list =>
      rw [removeFrames, if_pos hpos] at h
      exact Nat.lt_succ_of_le (removeFrames_suffix h).length_le

/-- The outer loop; its counter is a byte, too. -/
def removePackets (packets : UInt32) (totalSubSequenceNumber : UInt16) (htotal : totalSubSequenceNumber ≠ 0) (i : UInt8)
    (list : List Frame) : Option (List Frame) :=
  if i.toNat < packets.toNat then
    match h : removeFrames totalSubSequenceNumber 0 list with
    | none => none
    | some list' => removePackets packets totalSubSequenceNumber htotal (i + 1) list'
  else some list
termination_by list.length
decreasing_by exact removeFrames_lt htotal h

/-- `a2dp_audio_sbc_discards_packet`, behind the first loop -/
def discardAligned (packets : UInt32) : List Frame → Discarded
  | [] => .memoryError []
  | frame :: list =>
      if frame.curSubSequenceNumber ≠ 0 then .notAligned
      else if htotal : frame.totalSubSequenceNumber = 0 then .dividedByZero
      else if packets.toNat ≤ (frame :: list).length / frame.totalSubSequenceNumber.toNat then
        match removePackets packets frame.totalSubSequenceNumber htotal 0 (frame :: list) with
        | some list => .noError list
        | none => .memoryError []
      else .memoryError (frame :: list)

/-- `a2dp_audio_sbc_discards_packet` -/
def discardsPacket (packets : UInt32) (list : List Frame) : Discarded := discardAligned packets (skipPartial 0 list)

/-! ### Where the frames are from -/

/-- What comes into the list at once: the frames of a packet, or one that was lost. -/
inductive Group
  | packet (frames : List Frame)
  | recovered (frame : Frame)

def Group.frames : Group → List Frame
  | .packet frames => frames
  | .recovered frame => [frame]

/-- What is left of the packet in front when part of it was decoded, and what came behind it. -/
structure Contents where
  leftover : List Frame
  groups : List Group

namespace Contents

def behind (c : Contents) : List Frame := c.groups.flatMap Group.frames

def frames (c : Contents) : List Frame := c.leftover ++ c.behind

def tail : Contents → Contents
  | ⟨_ :: leftover, groups⟩ => ⟨leftover, groups⟩
  | ⟨[], .packet frames :: groups⟩ => ⟨frames.tail, groups⟩
  | ⟨[], .recovered _ :: groups⟩ => ⟨[], groups⟩
  | ⟨[], []⟩ => ⟨[], []⟩

def drop : Nat → Contents → Contents
  | 0, c => c
  | n + 1, c => drop n c.tail

def add (c : Contents) (recovered packet : List Frame) : Contents :=
  ⟨c.leftover, c.groups ++ recovered.map .recovered ++ if packet = [] then [] else [.packet packet]⟩

end Contents

/-- The list with where its frames are from -/
structure InputList where
  store : Store
  contents : Contents

/-- The list is left with the frames `list`, which are the last ones it had. -/
def InputList.leave (s : InputList) (list : List Frame) : InputList :=
  let taken := s.store.list.length - list.length
  { store := { s.store with list := list, freed := (s.store.list.take taken).map (·.block) ++ s.store.freed }
    contents := s.contents.drop taken }

inductive InputEvent
  | store (header : MediaHeader) (buffer : List UInt8) (answers : Answers (buffer.length - 1))
  | decode
  | discard (packets : UInt32)

def framesFound : (buffer : List UInt8) → Answers (buffer.length - 1) → Nat
  | [], _ => 0
  | _ :: payload, answers => (found payload answers frameListMax 0 0).1.length

/-- A packet is stored in the build that fills in lost frames, a frame is decoded, or packets are discarded. There is no
next state when a packet is read past its end, when the assertion fires, and when it is divided by zero. -/
def inputStep (s : InputList) : InputEvent → Option InputList
  | .store header buffer answers =>
      (storePacket .recover header buffer answers s.store).map fun (ret, _, store) =>
        if ret = .noError then
          let added := store.list.drop s.store.list.length
          let recovered := added.length - framesFound buffer answers
          ⟨store, s.contents.add (added.take recovered) (added.drop recovered)⟩
        else ⟨store, s.contents⟩
  | .decode => some (s.leave s.store.list.tail)
  | .discard packets =>
      match discardsPacket packets s.store.list with
      | .notAligned | .dividedByZero => none
      | .noError list | .memoryError list => some (s.leave list)

def emptyInput : InputList := ⟨emptyStore, ⟨[], []⟩⟩

/-- The frames of the next `packets` packets, if nothing but these comes next. -/
def framesOfNext : (packets : Nat) → List Group → Option Nat
  | 0, _ => some 0
  | packets + 1, .packet frames :: groups => (framesOfNext packets groups).map (frames.length + ·)
  | _ + 1, _ => none

/-- What is left of the packet in front is taken off, then the next `packets` packets, or with an error nothing more. -/
def InputList.Meets (s : InputList) (packets : UInt32) : Discarded → Prop
  | .notAligned | .dividedByZero => False
  | .noError list =>
      ∃ frames, framesOfNext packets.toNat s.contents.groups = some frames ∧
        list = s.store.list.drop (s.contents.leftover.length + frames)
  | .memoryError list => list = s.store.list.drop s.contents.leftover.length

/-- What is left of the packet in front is at most a frame more than what is behind it. A frame that was lost does not
come next, unless its numbers happen to look like those of a frame and no packet is taken off. If the packet that comes
next says there are enough frames, then there are so many packets, which have as many frames as that one says. -/
def Contents.Discardable (c : Contents) (packets : UInt32) : Prop :=
  c.leftover.length ≤ c.behind.length + 1 ∧
    match c.groups with
    | [] => True
    | .recovered frame :: _ =>
        frame.curSubSequenceNumber = 0 ∧ frame.totalSubSequenceNumber ≠ 0 ∧
          (packets = 0 ∨ c.behind.length / frame.totalSubSequenceNumber.toNat < packets.toNat)
    | .packet [] :: _ => True
    | .packet (frame :: _) :: _ =>
        packets.toNat ≤ c.behind.length / frame.totalSubSequenceNumber.toNat →
          packets.toNat < 2 ^ 8 ∧
            framesOfNext packets.toNat c.groups = some (packets.toNat * frame.totalSubSequenceNumber.toNat)

/-! ### The loops -/

section Loops

variable {packets : UInt32} {total : UInt16} {i j : UInt8} {frame : Frame} {list list' leftover rest : List Frame}

theorem toNat_next (h : j.toNat + 1 < 2 ^ 8) : (j + 1).toNat = j.toNat + 1 := by
  rw [UInt8.toNat_add]
  exact Nat.mod_eq_of_lt h

theorem skipPartial_suffix : skipPartial j list <:+ list := by
  induction list generalizing j with
  | nil => exact List.suffix_refl _
  | cons frame list ih =>
      rw [skipPartial]
      split
      · exact ih.trans (List.suffix_cons frame list)
      · exact List.suffix_refl _

theorem skipPartial_aligned (hframe : frame.curSubSequenceNumber = 0) :
    skipPartial j (frame :: list) = frame :: list := by
  rw [skipPartial, if_neg fun h => h.2 hframe]

/-- A frame in the list and one behind it for every frame that is taken off: then all of them go. -/
theorem skipPartial_leftover (hcur : ∀ f ∈ leftover, f.curSubSequenceNumber ≠ 0)
    (hbyte : j.toNat + leftover.length < 2 ^ 8) (hroom : j.toNat + leftover.length ≤ rest.length + 1) :
    ∃ j', skipPartial j (leftover ++ rest) = skipPartial j' rest := by
  induction leftover generalizing j with
  | nil => exact ⟨j, rfl⟩
  | cons frame leftover ih =>
      rw [List.length_cons] at hbyte hroom
      have hnext : (j + 1).toNat = j.toNat + 1 := toNat_next (by omega)
      have hmore : j.toNat < (frame :: (leftover ++ rest)).length := by
        rw [List.length_cons, List.length_append]
        omega
      rw [List.cons_append, skipPartial, if_pos ⟨hmore, hcur frame List.mem_cons_self⟩]
      apply ih fun f hf => hcur f (List.mem_cons_of_mem _ hf)
      · rw [hnext]
        omega
      · rw [hnext]
        omega

theorem skipPartial_stuck (hcur : ∀ f ∈ leftover, f.curSubSequenceNumber ≠ 0)
    (hbyte : j.toNat + leftover.length < 2 ^ 8) (hsome : leftover ≠ [])
    (hroom : rest.length + 1 < j.toNat + leftover.length) :
    ∃ frame list, skipPartial j (leftover ++ rest) = frame :: list ∧ frame.curSubSequenceNumber ≠ 0 := by
  induction leftover generalizing j with
  | nil => exact absurd rfl hsome
  | cons frame leftover ih =>
      have hframe := hcur frame List.mem_cons_self
      rw [List.length_cons] at hbyte hroom
      rw [List.cons_append, skipPartial]
      by_cases hmore : j.toNat < (frame :: (leftover ++ rest)).length
      case neg =>
        rw [if_neg fun h => hmore h.1]
        exact ⟨frame, leftover ++ rest, rfl, hframe⟩
      rw [if_pos ⟨hmore, hframe⟩]
      rw [List.length_cons, List.length_append] at hmore
      have hnext : (j + 1).toNat = j.toNat + 1 := toNat_next (by omega)
      apply ih fun f hf => hcur f (List.mem_cons_of_mem _ hf)
      · rw [hnext]
        omega
      · intro hnil
        rw [hnil, List.length_nil] at hroom hmore
        omega
      · rw [hnext]
        omega

theorem removeFrames_eq (hbyte : total.toNat < 2 ^ 8) (hj : j.toNat ≤ total.toNat)
    (henough : total.toNat - j.toNat ≤ list.length) :
    removeFrames total j list = some (list.drop (total.toNat - j.toNat)) := by
  induction list generalizing j with
  | nil =>
      rw [List.length_nil] at henough
      rw [removeFrames, if_neg (by omega), List.drop_nil]
  | cons frame list ih =>
      rw [removeFrames]
      by_cases hmore : j.toNat < total.toNat
      · have hnext : (j + 1).toNat = j.toNat + 1 := toNat_next (by omega)
        have hone : total.toNat - j.toNat = total.toNat - (j + 1).toNat + 1 := by omega
        rw [List.length_cons, hone] at henough
        rw [if_pos hmore, hone, List.drop_succ_cons]
        exact ih (hnext ▸ hmore) (Nat.le_of_succ_le_succ henough)
      · rw [if_neg hmore, Nat.sub_eq_zero_of_le (Nat.not_lt.mp hmore)]
        rfl

theorem removePackets_done (htotal : total ≠ 0) (h : ¬i.toNat < packets.toNat) :
    removePackets packets total htotal i list = some list := by
  rw [removePackets, if_neg h]

theorem removePackets_none (htotal : total ≠ 0) (h : i.toNat < packets.toNat)
    (hremove : removeFrames total 0 list = none) : removePackets packets total htotal i list = none := by
  rw [removePackets, if_pos h]
  split
  · rfl
  · rename_i hsome
    rw [hremove] at hsome
    cases hsome

theorem removePackets_some (htotal : total ≠ 0) (h : i.toNat < packets.toNat)
    (hremove : removeFrames total 0 list = some list') :
    removePackets packets total htotal i list = removePackets packets total htotal (i + 1) list' := by
  rw [removePackets, if_pos h]
  split
  · rename_i hnone
    rw [hremove] at hnone
    cases hnone
  · rename_i hsome
    rw [hremove] at hsome
    rw [Option.some.inj hsome]

theorem removePackets_eq_some (htotal : total ≠ 0) (hmore : i.toNat < packets.toNat)
    (h : removePackets packets total htotal i list = some list') :
    ∃ list₁, removeFrames total 0 list = some list₁ ∧
      removePackets packets total htotal (i + 1) list₁ = some list' := by
  cases hremove : removeFrames total 0 list with
  | none =>
      rw [removePackets_none htotal hmore hremove] at h
      cases h
  | some list₁ =>
      rw [removePackets_some htotal hmore hremove] at h
      exact ⟨list₁, rfl, h⟩

theorem removePackets_suffix (htotal : total ≠ 0) (h : removePackets packets total htotal i list = some list') :
    list' <:+ list := by
  induction hlength : list.length using Nat.strongRecOn generalizing i list with
  | _ n ih =>
      by_cases hmore : i.toNat < packets.toNat
      case neg =>
        rw [removePackets_done htotal hmore] at h
        exact Option.some.inj h ▸ List.suffix_refl _
      obtain ⟨list₁, hremove, hrest⟩ := removePackets_eq_some htotal hmore h
      have hless := removeFrames_lt htotal hremove
      exact (ih list₁.length (hlength ▸ hless) hrest rfl).trans (removeFrames_suffix hremove)

theorem removePackets_lt (htotal : total ≠ 0) (hmore : i.toNat < packets.toNat)
    (h : removePackets packets total htotal i list = some list') : list'.length < list.length := by
  obtain ⟨list₁, hremove, hrest⟩ := removePackets_eq_some htotal hmore h
  exact Nat.lt_of_le_of_lt (removePackets_suffix htotal hrest).length_le (removeFrames_lt htotal hremove)

/-- With so few packets the counter does not go round. -/
theorem removePackets_eq (htotal : total ≠ 0) (hbyte : total.toNat < 2 ^ 8) (hpackets : packets.toNat < 2 ^ 8)
    (henough : (packets.toNat - i.toNat) * total.toNat ≤ list.length) :
    removePackets packets total htotal i list = some (list.drop ((packets.toNat - i.toNat) * total.toNat)) := by
  induction hleft : packets.toNat - i.toNat generalizing i list with
  | zero =>
      rw [removePackets_done htotal (by omega), Nat.zero_mul]
      rfl
  | succ left ih =>
      have hmore : i.toNat < packets.toNat := by omega
      have hnext : (i + 1).toNat = i.toNat + 1 := toNat_next (by omega)
      have hrest : packets.toNat - (i + 1).toNat = left := by omega
      rw [hleft, Nat.succ_mul] at henough
      have hremove : removeFrames total 0 list = some (list.drop total.toNat) := by
        have hle : total.toNat ≤ list.length := Nat.le_trans (Nat.le_add_left _ _) henough
        exact removeFrames_eq hbyte (Nat.zero_le _) hle
      have henough' : left * total.toNat ≤ (list.drop total.toNat).length := by
        rw [List.length_drop]
        omega
      rw [removePackets_some htotal hmore hremove, ih (by rw [hrest]; exact henough') hrest, List.drop_drop,
        Nat.succ_mul, Nat.add_comm]

/-- With more the loop only ends when there are no frames. -/
theorem removePackets_wrap (htotal : total ≠ 0) (hpackets : 2 ^ 8 ≤ packets.toNat) :
    removePackets packets total htotal i list = none := by
  induction hlength : list.length using Nat.strongRecOn generalizing i list with
  | _ n ih =>
      have hmore : i.toNat < packets.toNat := Nat.lt_of_lt_of_le i.toNat_lt hpackets
      cases hremove : removeFrames total 0 list with
      | none => exact removePackets_none htotal hmore hremove
      | some list₁ =>
          rw [removePackets_some htotal hmore hremove]
          exact ih list₁.length (hlength ▸ removeFrames_lt htotal hremove) rfl

end Loops

/-- What comes next begins with a frame that looks like the first one of a packet. -/
theorem discardAligned_cons {packets : UInt32} {frame : Frame} {list : List Frame}
    (hcur : frame.curSubSequenceNumber = 0) (htotal : frame.totalSubSequenceNumber ≠ 0) :
    discardAligned packets (frame :: list) =
      if packets.toNat ≤ (frame :: list).length / frame.totalSubSequenceNumber.toNat then
        match removePackets packets frame.totalSubSequenceNumber htotal 0 (frame :: list) with
        | some list => .noError list
        | none => .memoryError []
      else .memoryError (frame :: list) := by
  rw [discardAligned, if_neg fun hne => hne hcur, dif_neg htotal]

theorem discardAligned_suffix {packets : UInt32} {list list' : List Frame}
    (h : discardAligned packets list = .noError list' ∨ discardAligned packets list = .memoryError list') :
    list' <:+ list := by
  cases list with
  | nil =>
      rcases h with h | h
      · cases h
      · exact Discarded.memoryError.inj h ▸ List.suffix_refl _
  | cons frame list =>
      rw [discardAligned] at h
      by_cases hframe : frame.curSubSequenceNumber ≠ 0
      case pos =>
        rw [if_pos hframe] at h
        rcases h with h | h <;> cases h
      by_cases htotal : frame.totalSubSequenceNumber = 0
      case pos =>
        rw [if_neg hframe, dif_pos htotal] at h
        rcases h with h | h <;> cases h
      rw [if_neg hframe, dif_neg htotal] at h
      by_cases hpackets : packets.toNat ≤ (frame :: list).length / frame.totalSubSequenceNumber.toNat
      case neg =>
        rw [if_neg hpackets] at h
        rcases h with h | h
        · cases h
        · exact Discarded.memoryError.inj h ▸ List.suffix_refl _
      rw [if_pos hpackets] at h
      cases hremove : removePackets packets frame.totalSubSequenceNumber htotal 0 (frame :: list) with
      | none =>
          rw [hremove] at h
          rcases h with h | h
          · cases h
          · exact Discarded.memoryError.inj h ▸ List.nil_suffix
      | some list₁ =>
          rw [hremove] at h
          rcases h with h | h
          · exact Discarded.noError.inj h ▸ removePackets_suffix htotal hremove
          · cases h

/-! ### Storing in the build that fills in lost frames -/

/-- The first frame of a packet has number 0, and no other one has. -/
def IsPacket : List Frame → Prop
  | [] => False
  | frame :: list =>
      frame.curSubSequenceNumber = 0 ∧ (∀ f ∈ list, f.curSubSequenceNumber ≠ 0) ∧ list.length < frameListMax ∧
        frame.totalSubSequenceNumber ≠ 0 ∧ frame.totalSubSequenceNumber.toNat < 2 ^ 8

section Store

variable {header : MediaHeader} {frameNum : UInt8} {payload : List UInt8} {answers : Answers payload.length}

/-- The frames from number `frameCnt` on, when there are places for `places`. -/
def Numbered (frameNum : UInt8) : (places frameCnt : Nat) → List Frame → Prop
  | _, _, [] => True
  | 0, _, _ :: _ => False
  | places + 1, frameCnt, frame :: list =>
      frame.curSubSequenceNumber = UInt16.ofNat frameCnt ∧ frame.totalSubSequenceNumber = frameNum.toUInt16 ∧
        Numbered frameNum places (frameCnt + 1) list

theorem Numbered.ne_zero {places frameCnt : Nat} {list : List Frame} (h : Numbered frameNum places frameCnt list)
    (hcnt : 0 < frameCnt) (hsmall : frameCnt + places ≤ frameListMax) :
    (∀ f ∈ list, f.curSubSequenceNumber ≠ 0) ∧ list.length ≤ places := by
  induction list generalizing places frameCnt with
  | nil => exact ⟨fun f hf => absurd hf List.not_mem_nil, Nat.zero_le _⟩
  | cons frame list ih =>
      cases places with
      | zero => exact absurd h id
      | succ places =>
          obtain ⟨hcur, -, hrest⟩ := h
          obtain ⟨hnone, hlength⟩ := ih hrest (Nat.succ_pos _) (by omega)
          refine ⟨fun f hf => ?_, Nat.succ_le_succ hlength⟩
          rcases List.mem_cons.mp hf with rfl | hmem
          · rw [hcur]
            intro hzero
            have hmod := congrArg UInt16.toNat hzero
            rw [UInt16.toNat_ofNat', frameListMax] at *
            rw [Nat.mod_eq_of_lt (by omega)] at hmod
            exact absurd hmod (Nat.ne_of_gt hcnt)
          · exact hnone f hmem

theorem Numbered.isPacket {frame : Frame} {list : List Frame} (hframes : frameNum ≠ 0)
    (h : Numbered frameNum frameListMax 0 (frame :: list)) : IsPacket (frame :: list) := by
  obtain ⟨hcur, htotal, hrest⟩ := h
  obtain ⟨hnone, hlength⟩ := hrest.ne_zero (Nat.succ_pos _) (by decide)
  have hnat : frame.totalSubSequenceNumber.toNat = frameNum.toNat := by
    rw [htotal]
    exact UInt8.toNat_toUInt16 frameNum
  refine ⟨hcur, hnone, Nat.lt_succ_of_le hlength, fun hzero => hframes ?_, ?_⟩
  · rw [hzero] at hnat
    exact UInt8.toNat_inj.mp hnat.symm
  · rw [hnat]
    exact frameNum.toNat_lt

/-- The loop leaves the list alone, and numbers the frames it finds. -/
theorem scan_recover {places frameCnt i : Nat} {frameList : List Frame} {s : Store} {r : Scan}
    (h : scan .recover header frameNum payload answers places frameCnt i frameList s = some r) :
    ∃ dump frames s', s'.list = s.list ∧ (r = .findErr dump (frameList ++ frames) s' ∨
      r = .done (frameList ++ frames) s' ∧ frames.length = (found payload answers places frameCnt i).1.length ∧
        Numbered frameNum places frameCnt frames) := by
  induction places generalizing frameCnt i frameList s with
  | zero => exact ⟨none, [], s, rfl, .inl (by rw [List.append_nil]; exact (Option.some.inj h).symm)⟩
  | succ places ih =>
      rw [scan] at h
      by_cases hlt : i < payload.length
      case neg =>
        rw [dif_neg hlt] at h
        rw [found_end hlt]
        exact ⟨none, [], s, rfl, .inr ⟨by rw [List.append_nil]; exact (Option.some.inj h).symm, rfl, trivial⟩⟩
      rw [dif_pos hlt] at h
      by_cases hframe : payload[i] = 0x9c ∧ (answers.parser frameCnt i).ok
      case neg =>
        rw [if_neg hframe] at h
        exact ⟨_, [], s, rfl, .inl (by rw [List.append_nil]; exact (Option.some.inj h).symm)⟩
      rw [if_pos hframe] at h
      by_cases hin : i + (answers.parser frameCnt i).consumed ≤ payload.length
      case neg =>
        simp only [if_neg hin] at h
        cases h
      simp only [if_pos hin, Build.adjust] at h
      obtain ⟨dump, frames, s', hlist, hr⟩ := ih h
      refine ⟨dump,
        frameAt header frameNum payload frameCnt i (answers.parser frameCnt i).consumed s.allocated :: frames,
        s', hlist, ?_⟩
      rw [List.append_assoc] at hr
      apply hr.imp id
      intro hfound
      refine ⟨hfound.1, ?_, rfl, rfl, hfound.2.2⟩
      rw [found_cons hlt hframe, List.length_cons, List.length_cons, hfound.2.1]

/-- With an error the list is what it was, else fillers and the frames of the packet are at its end. -/
theorem storeFrames_recover {s s' : Store} {ret : Ret} {dump : Option Nat}
    (h : storeFrames .recover header frameNum payload answers s = some (ret, dump, s')) :
    (ret ≠ .noError ∧ s'.list = s.list) ∨ (ret = .noError ∧ ∃ recovered frames,
      s'.list = s.list ++ (recovered ++ frames) ∧
        frames.length = (found payload answers frameListMax 0 0).1.length ∧ (frames = [] ∨ IsPacket frames)) := by
  rw [storeFrames] at h
  by_cases hzero : frameNum = 0
  · rw [if_pos hzero] at h
    cases h
    exact .inl ⟨by decide, rfl⟩
  by_cases hroom : s.list.length + frameNum.toNat < sbcMtuLimiter
  case neg =>
    rw [if_neg hzero, if_neg hroom] at h
    cases h
    exact .inl ⟨by decide, rfl⟩
  rw [if_neg hzero, if_pos hroom] at h
  obtain ⟨r, hscan, hfinish⟩ := Option.map_eq_some_iff.mp h
  obtain ⟨dump, frames, s₁, hlist, rfl | ⟨rfl, hlength, hnumbered⟩⟩ := scan_recover hscan
  · cases hfinish
    exact .inl ⟨by decide, hlist⟩
  · cases hfinish
    obtain ⟨recovered, hproc, -⟩ := @recoverProc_list header frameNum answers.memory frames s₁
    refine .inr ⟨rfl, recovered, frames, ?_, hlength, ?_⟩
    · show (recoverProc header frameNum answers.memory frames s₁).list ++ frames = _
      rw [hproc, hlist, List.append_assoc]
    · cases frames with
      | nil => exact .inl rfl
      | cons frame list => exact .inr (hnumbered.isPacket hzero)

theorem storePacket_recover {buffer : List UInt8} {answers : Answers (buffer.length - 1)} {s s' : Store} {ret : Ret}
    {dump : Option Nat} (h : storePacket .recover header buffer answers s = some (ret, dump, s')) :
    (ret ≠ .noError ∧ s'.list = s.list) ∨ (ret = .noError ∧ ∃ recovered frames,
      s'.list = s.list ++ (recovered ++ frames) ∧ frames.length = framesFound buffer answers ∧
        (frames = [] ∨ IsPacket frames)) := by
  cases buffer with
  | nil => cases h
  | cons frameNum payload => exact storeFrames_recover h

end Store

/-! ### What the numbers say of where the frames are from -/

namespace Contents

/-- The frames left of a packet are not its first ones; and what came as a packet is one. -/
structure Valid (c : Contents) : Prop where
  leftover_cur : ∀ f ∈ c.leftover, f.curSubSequenceNumber ≠ 0
  leftover_lt : c.leftover.length < frameListMax
  packets : ∀ frames, .packet frames ∈ c.groups → IsPacket frames

variable {c : Contents}

theorem Valid.tail (h : c.Valid) : c.tail.Valid ∧ c.tail.frames = c.frames.tail := by
  obtain ⟨leftover, groups⟩ := c
  cases leftover with
  | cons frame leftover =>
      exact ⟨⟨fun f hf => h.leftover_cur f (List.mem_cons_of_mem _ hf), Nat.lt_of_succ_lt h.leftover_lt, h.packets⟩,
        rfl⟩
  | nil =>
      cases groups with
      | nil => exact ⟨h, rfl⟩
      | cons group groups =>
          have hrest : ∀ frames, .packet frames ∈ groups → IsPacket frames := fun frames hframes =>
            h.packets frames (List.mem_cons_of_mem _ hframes)
          cases group with
          | recovered frame => exact ⟨⟨h.leftover_cur, h.leftover_lt, hrest⟩, rfl⟩
          | packet frames =>
              have hpacket := h.packets frames List.mem_cons_self
              cases frames with
              | nil => exact absurd hpacket id
              | cons frame frames => exact ⟨⟨hpacket.2.1, hpacket.2.2.1, hrest⟩, rfl⟩

theorem Valid.drop (h : c.Valid) (n : Nat) : (c.drop n).Valid ∧ (c.drop n).frames = c.frames.drop n := by
  induction n generalizing c with
  | zero => exact ⟨h, rfl⟩
  | succ n ih =>
      obtain ⟨htail, hframes⟩ := h.tail
      obtain ⟨hvalid, hdrop⟩ := ih htail
      refine ⟨hvalid, ?_⟩
      show (c.tail.drop n).frames = _
      rw [hdrop, hframes, List.drop_tail]

theorem frames_recovered (recovered : List Frame) :
    (recovered.map Group.recovered).flatMap Group.frames = recovered := by
  induction recovered with
  | nil => rfl
  | cons frame recovered ih =>
      rw [List.map_cons, List.flatMap_cons, ih]
      rfl

theorem Valid.add (h : c.Valid) (recovered : List Frame) {packet : List Frame}
    (hpacket : packet = [] ∨ IsPacket packet) :
    (c.add recovered packet).Valid ∧ (c.add recovered packet).frames = c.frames ++ (recovered ++ packet) := by
  have hlast : (if packet = [] then [] else [Group.packet packet]).flatMap Group.frames = packet := by
    by_cases hnil : packet = []
    · rw [if_pos hnil, hnil]
      rfl
    · rw [if_neg hnil]
      exact List.append_nil packet
  refine ⟨⟨h.leftover_cur, h.leftover_lt, fun frames hframes => ?_⟩, ?_⟩
  · rcases List.mem_append.mp hframes with hold | hnew
    · rcases List.mem_append.mp hold with hold | hrecovered
      · exact h.packets frames hold
      · obtain ⟨frame, -, hframe⟩ := List.mem_map.mp hrecovered
        cases hframe
    · by_cases hnil : packet = []
      · rw [if_pos hnil] at hnew
        exact absurd hnew List.not_mem_nil
      · rw [if_neg hnil] at hnew
        obtain rfl := Group.packet.inj (List.mem_singleton.mp hnew)
        exact hpacket.resolve_left hnil
  · show c.leftover ++ (c.groups ++ recovered.map Group.recovered ++ _).flatMap Group.frames = c.leftover ++ _ ++ _
    rw [List.flatMap_append, List.flatMap_append, frames_recovered, hlast, List.append_assoc, List.append_assoc]
    rfl

end Contents

/-- The list is made of the frames it is said to be made of. -/
structure InputList.Valid (s : InputList) : Prop where
  contents : s.contents.Valid
  list : s.store.list = s.contents.frames

theorem InputList.Valid.leave {s : InputList} (h : s.Valid) {list : List Frame} (hsuffix : list <:+ s.store.list) :
    (s.leave list).Valid := by
  obtain ⟨hvalid, hframes⟩ := h.contents.drop (s.store.list.length - list.length)
  refine ⟨hvalid, ?_⟩
  show list = (s.contents.drop _).frames
  rw [hframes, ← h.list]
  exact List.suffix_iff_eq_drop.mp hsuffix

theorem inputStep_valid (s : InputList) (e : InputEvent) (s' : InputList) (h : s.Valid)
    (hstep : inputStep s e = some s') : s'.Valid := by
  cases e with
  | store header buffer answers =>
      obtain ⟨⟨ret, dump, store⟩, hstore, hs'⟩ := Option.map_eq_some_iff.mp hstep
      obtain rfl := hs'
      rcases storePacket_recover hstore with ⟨hret, hlist⟩ | ⟨hret, recovered, frames, hlist, hlength, hpacket⟩
      · simp only [if_neg hret]
        exact ⟨h.contents, hlist.trans h.list⟩
      · have hadded : store.list.drop s.store.list.length = recovered ++ frames := by
          rw [hlist]
          exact List.drop_left
        have hcount : (recovered ++ frames).length - framesFound buffer answers = recovered.length := by
          rw [List.length_append, ← hlength, Nat.add_sub_cancel]
        simp only [if_pos hret, hadded, hcount, List.take_left, List.drop_left]
        obtain ⟨hvalid, hframes⟩ := h.contents.add recovered hpacket
        refine ⟨hvalid, ?_⟩
        show store.list = (s.contents.add recovered frames).frames
        rw [hframes, hlist, h.list]
  | decode =>
      obtain rfl := Option.some.inj hstep
      exact h.leave (List.tail_suffix _)
  | discard packets =>
      have hskip : skipPartial 0 s.store.list <:+ s.store.list := skipPartial_suffix
      simp only [inputStep] at hstep
      cases hdiscard : discardsPacket packets s.store.list with
      | notAligned | dividedByZero =>
          rw [hdiscard] at hstep
          cases hstep
      | noError list =>
          rw [hdiscard] at hstep
          obtain rfl := Option.some.inj hstep
          exact h.leave ((discardAligned_suffix (.inl hdiscard)).trans hskip)
      | memoryError list =>
          rw [hdiscard] at hstep
          obtain rfl := Option.some.inj hstep
          exact h.leave ((discardAligned_suffix (.inr hdiscard)).trans hskip)

theorem emptyInput_valid : emptyInput.Valid :=
  ⟨⟨fun _ h => absurd h List.not_mem_nil, by decide, fun _ h => absurd h List.not_mem_nil⟩, rfl⟩

/-! ### The whole call -/

theorem framesOfNext_le {packets frames : Nat} {groups : List Group} (h : framesOfNext packets groups = some frames) :
    frames ≤ (groups.flatMap Group.frames).length := by
  induction packets generalizing groups frames with
  | zero =>
      obtain rfl := Option.some.inj h
      exact Nat.zero_le _
  | succ packets ih =>
      cases groups with
      | nil => cases h
      | cons group groups =>
          cases group with
          | recovered frame => cases h
          | packet list =>
              obtain ⟨rest, hrest, hframes⟩ := Option.map_eq_some_iff.mp h
              rw [← hframes, List.flatMap_cons, List.length_append]
              exact Nat.add_le_add_left (ih hrest) _

section Discard

variable {s : InputList} {packets : UInt32}

theorem InputList.Valid.drop_leftover (h : s.Valid) (n : Nat) :
    s.store.list.drop (s.contents.leftover.length + n) = s.contents.behind.drop n := by
  rw [h.list, Contents.frames, ← List.drop_drop, List.drop_left]

theorem InputList.Valid.meets_memoryError_iff (h : s.Valid) (list : List Frame) :
    s.Meets packets (.memoryError list) ↔ list = s.contents.behind := by
  show list = s.store.list.drop (s.contents.leftover.length + 0) ↔ _
  rw [h.drop_leftover]
  exact Iff.rfl

theorem InputList.Valid.meets_noError_iff (h : s.Valid) (list : List Frame) :
    s.Meets packets (.noError list) ↔ ∃ frames,
      framesOfNext packets.toNat s.contents.groups = some frames ∧ list = s.contents.behind.drop frames := by
  show (∃ frames, _ ∧ list = s.store.list.drop (s.contents.leftover.length + frames)) ↔ _
  simp only [h.drop_leftover]

theorem InputList.Valid.meets_packet_iff (h : s.Valid) {frame : Frame} {list : List Frame} {groups : List Group}
    (hgroups : s.contents.groups = .packet (frame :: list) :: groups) :
    s.Meets packets (discardAligned packets s.contents.behind) ↔
      (packets.toNat ≤ s.contents.behind.length / frame.totalSubSequenceNumber.toNat →
        packets.toNat < 2 ^ 8 ∧ framesOfNext packets.toNat s.contents.groups =
          some (packets.toNat * frame.totalSubSequenceNumber.toNat)) := by
  obtain ⟨hcur, -, -, htotal, hbyte⟩ := h.contents.packets (frame :: list) (hgroups ▸ List.mem_cons_self)
  have hbehind : s.contents.behind = frame :: (list ++ groups.flatMap Group.frames) := by
    rw [Contents.behind, hgroups]
    rfl
  have haligned := @discardAligned_cons packets frame (list ++ groups.flatMap Group.frames) hcur htotal
  rw [← hbehind] at haligned
  rw [haligned]
  by_cases hpackets : packets.toNat ≤ s.contents.behind.length / frame.totalSubSequenceNumber.toNat
  case neg =>
    rw [if_neg hpackets, h.meets_memoryError_iff]
    exact iff_of_true rfl fun hle => absurd hle hpackets
  rw [if_pos hpackets]
  by_cases hwrap : packets.toNat < 2 ^ 8
  case neg =>
    rw [removePackets_wrap htotal (Nat.not_lt.mp hwrap), h.meets_memoryError_iff]
    refine iff_of_false (fun hnil => ?_) fun hmet => hwrap (hmet hpackets).1
    rw [hbehind] at hnil
    cases hnil
  have henough : packets.toNat * frame.totalSubSequenceNumber.toNat ≤ s.contents.behind.length :=
    (Nat.le_div_iff_mul_le (Nat.pos_of_ne_zero fun h0 => htotal (UInt16.toNat_inj.mp h0))).mp hpackets
  rw [@removePackets_eq _ _ 0 _ htotal hbyte hwrap henough, h.meets_noError_iff]
  show (∃ frames, _ ∧ s.contents.behind.drop (packets.toNat * frame.totalSubSequenceNumber.toNat) = _) ↔ _
  constructor
  · intro ⟨frames, hframes, hdrop⟩ _
    have hle : frames ≤ s.contents.behind.length := framesOfNext_le hframes
    -- as many frames are taken off as there are in the packets
    have hlength := congrArg List.length hdrop
    rw [List.length_drop, List.length_drop] at hlength
    obtain rfl : frames = packets.toNat * frame.totalSubSequenceNumber.toNat := by omega
    exact ⟨hwrap, hframes⟩
  · intro hmet
    exact ⟨_, (hmet hpackets).2, rfl⟩

theorem InputList.Valid.meets_recovered_iff (h : s.Valid) {frame : Frame} {groups : List Group}
    (hgroups : s.contents.groups = .recovered frame :: groups) (j : UInt8) :
    s.Meets packets (discardAligned packets (skipPartial j s.contents.behind)) ↔
      frame.curSubSequenceNumber = 0 ∧ frame.totalSubSequenceNumber ≠ 0 ∧
        (packets = 0 ∨ s.contents.behind.length / frame.totalSubSequenceNumber.toNat < packets.toNat) := by
  have hbehind : s.contents.behind = frame :: groups.flatMap Group.frames := by
    rw [Contents.behind, hgroups]
    rfl
  have hnext : ∀ frames, framesOfNext packets.toNat s.contents.groups = some frames → packets = 0 ∧ frames = 0 :=
    fun frames hframes => by
      rw [hgroups] at hframes
      cases hpackets : packets.toNat with
      | zero =>
          rw [hpackets] at hframes
          exact ⟨UInt32.toNat_inj.mp hpackets, (Option.some.inj hframes).symm⟩
      | succ n =>
          rw [hpackets] at hframes
          cases hframes
  -- with or without an error the frame must stay
  have hstays : ∀ list, s.Meets packets (.noError list) ∨ s.Meets packets (.memoryError list) →
      list = s.contents.behind := fun list hmeets => by
    rcases hmeets with hmeets | hmeets
    · obtain ⟨frames, hframes, hlist⟩ := (h.meets_noError_iff list).mp hmeets
      rw [hlist, (hnext frames hframes).2]
      rfl
    · exact (h.meets_memoryError_iff list).mp hmeets
  by_cases hcur : frame.curSubSequenceNumber = 0
  case neg =>
    refine iff_of_false (fun hmeets => ?_) fun hmet => hcur hmet.1
    by_cases hmore : j.toNat < (frame :: groups.flatMap Group.frames).length
    · have hskip : skipPartial j s.contents.behind = skipPartial (j + 1) (groups.flatMap Group.frames) := by
        rw [hbehind, skipPartial, if_pos ⟨hmore, hcur⟩]
      have hgone : ∀ list, list <:+ skipPartial j s.contents.behind → list ≠ s.contents.behind := by
        intro list hlist hall
        rw [hskip] at hlist
        have hle := (hlist.trans skipPartial_suffix).length_le
        rw [hall, hbehind] at hle
        exact absurd hle (Nat.not_succ_le_self _)
      cases hresult : discardAligned packets (skipPartial j s.contents.behind) with
      | notAligned | dividedByZero =>
          rw [hresult] at hmeets
          exact hmeets
      | noError list =>
          rw [hresult] at hmeets
          exact hgone list (discardAligned_suffix (.inl hresult)) (hstays list (.inl hmeets))
      | memoryError list =>
          rw [hresult] at hmeets
          exact hgone list (discardAligned_suffix (.inr hresult)) (hstays list (.inr hmeets))
    · rw [hbehind, skipPartial, if_neg fun hboth => hmore hboth.1, discardAligned, if_pos hcur] at hmeets
      exact hmeets
  have hskip : skipPartial j s.contents.behind = s.contents.behind := by
    rw [hbehind]
    exact skipPartial_aligned hcur
  rw [hskip]
  by_cases htotal : frame.totalSubSequenceNumber = 0
  case pos =>
    rw [hbehind, discardAligned, if_neg fun hne => hne hcur, dif_pos htotal]
    exact iff_of_false id fun hmet => hmet.2.1 htotal
  have haligned := @discardAligned_cons packets frame (groups.flatMap Group.frames) hcur htotal
  rw [← hbehind] at haligned
  rw [haligned]
  by_cases hpackets : packets.toNat ≤ s.contents.behind.length / frame.totalSubSequenceNumber.toNat
  case neg =>
    rw [if_neg hpackets, h.meets_memoryError_iff]
    exact iff_of_true rfl ⟨hcur, htotal, .inr (Nat.not_le.mp hpackets)⟩
  rw [if_pos hpackets]
  by_cases hzero : packets = 0
  · subst hzero
    rw [removePackets_done htotal (Nat.lt_irrefl _), h.meets_noError_iff]
    exact iff_of_true ⟨0, rfl, rfl⟩ ⟨hcur, htotal, .inl rfl⟩
  have hsome : (0 : UInt8).toNat < packets.toNat := Nat.pos_of_ne_zero fun h0 => hzero (UInt32.toNat_inj.mp h0)
  refine iff_of_false (fun hmeets => ?_) fun hmet => absurd (hmet.2.2.resolve_left hzero) (Nat.not_lt.mpr hpackets)
  cases hremove : removePackets packets frame.totalSubSequenceNumber htotal 0 s.contents.behind with
  | none =>
      rw [hremove] at hmeets
      have hnil := hstays [] (.inr hmeets)
      rw [hbehind] at hnil
      cases hnil
  | some list =>
      rw [hremove] at hmeets
      have hall := hstays list (.inl hmeets)
      have hless := removePackets_lt htotal hsome hremove
      rw [hall] at hless
      exact absurd hless (Nat.lt_irrefl _)

theorem InputList.Valid.meets_iff (h : s.Valid) :
    s.Meets packets (discardsPacket packets s.store.list) ↔ s.contents.Discardable packets := by
  have hbyte : (0 : UInt8).toNat + s.contents.leftover.length < 2 ^ 8 := by
    have hlt := h.contents.leftover_lt
    rw [UInt8.toNat_zero, Nat.zero_add]
    exact Nat.lt_trans hlt (by decide)
  rw [discardsPacket, h.list, Contents.frames, Contents.Discardable]
  by_cases hroom : s.contents.leftover.length ≤ s.contents.behind.length + 1
  case neg =>
    have hsome : s.contents.leftover ≠ [] := fun hnil => by
      rw [hnil] at hroom
      exact hroom (Nat.zero_le _)
    have hstuck : s.contents.behind.length + 1 < (0 : UInt8).toNat + s.contents.leftover.length := by
      rw [UInt8.toNat_zero, Nat.zero_add]
      exact Nat.not_le.mp hroom
    obtain ⟨frame, list, hskip, hcur⟩ := skipPartial_stuck h.contents.leftover_cur hbyte hsome hstuck
    rw [hskip, discardAligned, if_pos hcur]
    exact iff_of_false id fun hmet => hroom hmet.1
  have hall : (0 : UInt8).toNat + s.contents.leftover.length ≤ s.contents.behind.length + 1 := by
    rw [UInt8.toNat_zero, Nat.zero_add]
    exact hroom
  obtain ⟨j, hskip⟩ := skipPartial_leftover h.contents.leftover_cur hbyte hall
  rw [hskip]
  apply Iff.trans _ (and_iff_right hroom).symm
  cases hgroups : s.contents.groups with
  | nil =>
      have hnone : s.contents.behind = [] := by
        rw [Contents.behind, hgroups]
        rfl
      rw [hnone]
      exact iff_of_true ((h.meets_memoryError_iff []).mpr hnone.symm) trivial
  | cons group groups =>
      cases group with
      | recovered frame => exact h.meets_recovered_iff hgroups j
      | packet frames =>
          have hpacket := h.contents.packets frames (hgroups ▸ List.mem_cons_self)
          cases frames with
          | nil => exact absurd hpacket id
          | cons frame list =>
              have hbehind : s.contents.behind = frame :: (list ++ groups.flatMap Group.frames) := by
                rw [Contents.behind, hgroups]
                rfl
              have haligned : skipPartial j s.contents.behind = s.contents.behind := by
                rw [hbehind]
                exact skipPartial_aligned hpacket.1
              have hmeets := @h.meets_packet_iff _ packets frame list groups hgroups
              rw [hgroups] at hmeets
              rw [haligned]
              exact hmeets

end Discard

/-- After any run of packets stored, frames decoded and packets discarded: packets are discarded as they should be
exactly if the list is as the code takes it to be. -/
theorem discardsPacket_meets_iff (events : List InputEvent) (s : InputList)
    (hrun : run inputStep emptyInput events = some s) (packets : UInt32) :
    s.Meets packets (discardsPacket packets s.store.list) ↔ s.contents.Discardable packets := by
  apply InputList.Valid.meets_iff
  exact run_invariant InputList.Valid inputStep_valid emptyInput_valid hrun

/-- A packet of three frames of a byte -/
def threeFrames : List UInt8 := [3, 0x9c, 0x9c, 0x9c]

def storeThree (sequenceNumber : UInt16) : InputEvent :=
  .store ⟨sequenceNumber, 0⟩ threeFrames ⟨fun _ _ => ⟨true, 1, by decide⟩, fun _ => 0, fun _ => (0, 0)⟩

/-- Two frames are left of the packet in front, and there is one behind it. -/
theorem storeThree_discarded : ∃ s, run inputStep emptyInput [storeThree 0, storeThree 1, .decode] = some s ∧
    s.Meets 1 (discardsPacket 1 s.store.list) := by
  refine ⟨_, rfl, (discardsPacket_meets_iff [storeThree 0, storeThree 1, .decode] _ rfl 1).mpr ?_⟩
  exact ⟨by decide, fun _ => ⟨by decide, rfl⟩⟩

/-- Of two frames that are left of the only packet, one stays: the assertion fires. -/
theorem storeThree_not_discarded : ∃ s, run inputStep emptyInput [storeThree 0, .decode] = some s ∧
    ¬s.Meets 0 (discardsPacket 0 s.store.list) := by
  refine ⟨_, rfl, ?_⟩
  exact id

end Best1307.Sbc
