import Mathlib.Data.List.Basic
import Best1307.Audio.SbcMissing

/-!
# Storing an SBC packet

The first byte of a packet says how many frames it has, the frames follow. They are found one after the other with a
parser, and each is copied to memory of its own; when all are found they go to the end of the list of frames. The count
of the first byte is only compared with the room in the list. The parser is told at every frame that the whole packet is
ahead. Where no frame begins, twelve bytes are traced.

There are two ways to build this. In the one, frames that were lost are filled in before those of the packet. In the
other, every frame that is found may put a filler in front of the list, or take the first frame off it, to keep in step
with the other side.
-/

namespace Best1307.Sbc

def sbcMtuLimiter : Nat := 250
def frameListMax : Nat := 20

/-- What `DUMP8` traces of a damaged packet -/
def dumpCnt : Nat := 12

/-- With and without `BT_DONT_PLAY_MUTE_WHEN_A2DP_STUCK_PATCH` -/
inductive Build
  | stuckPatch | recover
  deriving DecidableEq, Repr

/-- `a2dp_audio_sbc_decoder_frame_t`, with the number of the allocation it and its buffer are from -/
structure Frame where
  sequenceNumber : UInt16
  timestamp : UInt32
  curSubSequenceNumber : UInt16
  totalSubSequenceNumber : UInt16
  sbcBuffer : List UInt8
  block : Nat
  deriving DecidableEq, Repr

/-- The list with what goes with it; how many allocations there were, and which of them were freed. -/
structure Store where
  list : List Frame
  adjustFrameCnt : Int
  lastValid : LastFrame
  allocated : Nat
  freed : List Nat

/-- What `sbc_decoder_parser_frame` returns, and how much it took of the `size` bytes it was given. -/
structure ParserResult (size : Nat) where
  ok : Bool
  consumed : Nat
  consumed_le : consumed ≤ size

/-- How the parser answers for frame `frameCnt` at byte `i` of a packet, and what
`app_tws_ibrt_audio_analysis_get_refill_frames` returns then; what is in the memory of each allocation. -/
structure Answers (bufferBytes : Nat) where
  parser : (frameCnt i : Nat) → ParserResult (bufferBytes % 2 ^ 16)
  refill : Nat → Int
  memory : Nat → UInt16 × UInt16

inductive Ret
  | noError | decodeError | mtuLimiterError | syncError
  deriving DecidableEq, Repr

/-- A filler with the sound of another frame. -/
def filler (subSequence : UInt16 × UInt16) (raw : Frame) (block : Nat) : Frame :=
  ⟨0xFFFF, 0xFFFFFFFF, subSequence.1, subSequence.2, raw.sbcBuffer, block⟩

/-- `a2dp_audio_sbc_packet_adjust`; whether it returns `A2DP_DECODER_SYNC_ERROR` -/
def packetAdjust (refill : Int) (frame : Frame) (frameNum : Nat) (s : Store) : Bool × Store :=
  let cnt := if refill ≠ 0 ∧ s.adjustFrameCnt = 0 then refill else s.adjustFrameCnt
  if cnt < 0 then
    match s.list with
    | [] => (false, { s with adjustFrameCnt := cnt })
    | front :: list => (false, { s with list := list, adjustFrameCnt := cnt + 1, freed := front.block :: s.freed })
  else if 0 < cnt then
    if s.list.length + frameNum < sbcMtuLimiter then
      match s.list with
      | [] => (false, { s with adjustFrameCnt := cnt })
      | _ :: _ =>
          (false, { s with
            list := filler (frame.curSubSequenceNumber, frame.totalSubSequenceNumber) frame s.allocated :: s.list
            adjustFrameCnt := cnt - 1
            allocated := s.allocated + 1 })
    else (true, { s with adjustFrameCnt := cnt })
  else (false, { s with adjustFrameCnt := cnt })

def Build.adjust (build : Build) (refill : Int) (frame : Frame) (frameNum : Nat) (s : Store) : Bool × Store :=
  match build with
  | .stuckPatch => packetAdjust refill frame frameNum s
  | .recover => (false, s)

/-- How the loop is left: with all frames found, with `find_err`, or at once. A damaged packet is traced from a byte
on. -/
inductive Scan
  | done (frameList : List Frame) (s : Store)
  | findErr (dump : Option Nat) (frameList : List Frame) (s : Store)
  | syncErr (s : Store)

section

variable (build : Build) (header : MediaHeader) (frameNum : UInt8) (payload : List UInt8)
  (answers : Answers payload.length)

def frameAt (frameCnt i len block : Nat) : Frame :=
  ⟨header.sequenceNumber, header.timestamp, UInt16.ofNat frameCnt, frameNum.toUInt16, (payload.drop i).take len, block⟩

/-- The loop of `a2dp_audio_sbc_store_packet`, with the places left in `frame_list`. There is no result if a copy goes
past the end of the packet. -/
def scan : Nat → Nat → Nat → List Frame → Store → Option Scan
  | 0, _, _, frameList, s => some (.findErr none frameList s)
  | places + 1, frameCnt, i, frameList, s =>
      if h : i < payload.length then
        if payload[i] = 0x9c ∧ (answers.parser frameCnt i).ok then
          let bytesParsed := (answers.parser frameCnt i).consumed
          if i + bytesParsed ≤ payload.length then
            let frame := frameAt header frameNum payload frameCnt i bytesParsed s.allocated
            match build.adjust (answers.refill frameCnt) frame frameNum.toNat
                { s with allocated := s.allocated + 1 } with
            | (true, s) => some (.syncErr s)
            | (false, s) => scan places (frameCnt + 1) (i + bytesParsed) (frameList ++ [frame]) s
          else none
        else some (.findErr (some (i + 1)) frameList s)
      else some (.done frameList s)

/-- How many frames `a2dp_audio_sbc_packet_recover_proc` fills in. -/
def recoverCnt (last : LastFrame) (found length : Nat) : Nat :=
  let missing := findMissing last header frameNum.toNat
  if 0 < found ∧ length + missing < sbcMtuLimiter then missing else 0

/-- `a2dp_audio_sbc_packet_recover_proc` -/
def recoverProc (memory : Nat → UInt16 × UInt16) (frameList : List Frame) (s : Store) : Store :=
  match frameList with
  | [] => s
  | raw :: _ =>
      let missing := recoverCnt header frameNum s.lastValid frameList.length s.list.length
      { s with
        list := s.list ++ (List.range missing).map fun k => filler (memory (s.allocated + k)) raw (s.allocated + k)
        allocated := s.allocated + missing }

/-- What is done with the frames that were found. -/
def append (memory : Nat → UInt16 × UInt16) (frameList : List Frame) (s : Store) : Store :=
  match build with
  | .stuckPatch => { s with list := s.list ++ frameList }
  | .recover =>
      let s := recoverProc header frameNum memory frameList s
      { s with list := s.list ++ frameList, lastValid := saveLast header }

/-- What is done behind the loop. -/
def finish : Scan → Ret × Option Nat × Store
  | .done frameList s => (.noError, none, append build header frameNum answers.memory frameList s)
  | .findErr dump frameList s => (.decodeError, dump, { s with freed := frameList.map (·.block) ++ s.freed })
  | .syncErr s => (.syncError, none, s)

/-- `a2dp_audio_sbc_store_packet`, behind the first byte -/
def storeFrames (s : Store) : Option (Ret × Option Nat × Store) :=
  if frameNum = 0 then some (.decodeError, some 0, s)
  else if s.list.length + frameNum.toNat < sbcMtuLimiter then
    (scan build header frameNum payload answers frameListMax 0 0 [] s).map
      (finish build header frameNum payload answers)
  else some (.mtuLimiterError, none, s)

end

/-- `a2dp_audio_sbc_store_packet`, with the byte of the packet it traces from, if it does; the first byte is read
whether or not there is one. -/
def storePacket (build : Build) (header : MediaHeader) (buffer : List UInt8) (answers : Answers (buffer.length - 1))
    (s : Store) : Option (Ret × Option Nat × Store) :=
  match buffer, answers with
  | [], _ => none
  | frameNum :: payload, answers => storeFrames build header frameNum payload answers s

/-! ### What storing should do -/

/-- The frames are those the parser finds, one behind the other up to the end of the packet. -/
def Cut (header : MediaHeader) (frameNum : UInt8) (payload : List UInt8) (answers : Answers payload.length) :
    Nat → Nat → List Frame → Prop
  | _, i, [] => i = payload.length
  | frameCnt, i, frame :: frameList =>
      i < payload.length ∧ (answers.parser frameCnt i).ok ∧ i + (answers.parser frameCnt i).consumed ≤ payload.length ∧
        frame = frameAt header frameNum payload frameCnt i (answers.parser frameCnt i).consumed frame.block ∧
        Cut header frameNum payload answers (frameCnt + 1) (i + (answers.parser frameCnt i).consumed) frameList

/-- What was in the list, but for fillers and for frames that are taken off to keep in step. -/
def Build.Keeps (build : Build) (list list' : List Frame) : Prop :=
  match build with
  | .stuckPatch => ∃ fillers taken, list' = fillers ++ list.drop taken ∧ ∀ f ∈ fillers, f.sequenceNumber = 0xFFFF
  | .recover => ∃ fillers, list' = list ++ fillers ∧ ∀ f ∈ fillers, f.sequenceNumber = 0xFFFF

/-- The frames of a packet; one without a first byte has none. -/
def Packet (header : MediaHeader) (buffer : List UInt8) (answers : Answers (buffer.length - 1))
    (frameList : List Frame) : Prop :=
  match buffer, answers with
  | [], _ => False
  | frameNum :: payload, answers => Cut header frameNum payload answers 0 0 frameList

/-- All of the packet is stored and the list stays below the limit; or an error is returned, what is traced is inside
the `bytes` of the packet, the list is what it was, and nothing that was allocated is left. -/
def Stored (build : Build) (packet : List Frame → Prop) (bytes : Nat) (s : Store) :
    Option (Ret × Option Nat × Store) → Prop
  | none => False
  | some (.noError, _, s') =>
      s'.list.length < sbcMtuLimiter ∧ ∃ kept frameList, s'.list = kept ++ frameList ∧ build.Keeps s.list kept ∧
        packet frameList
  | some (_, dump, s') =>
      (∀ i ∈ dump, i + dumpCnt ≤ bytes) ∧ s'.list = s.list ∧
        ∀ block, s.allocated ≤ block → block < s'.allocated → block ∈ s'.freed

/-! ### When it does -/

/-- What is behind the frames that are found: nothing, frames there is no place for, or something else. -/
inductive Ending
  | complete
  | full
  | damaged (i : Nat)
  deriving DecidableEq, Repr

/-- Where the frames are that the parser finds, and what is behind them. -/
def found (payload : List UInt8) (answers : Answers payload.length) : Nat → Nat → Nat → List (Nat × Nat) × Ending
  | 0, _, _ => ([], .full)
  | places + 1, frameCnt, i =>
      if h : i < payload.length then
        if payload[i] = 0x9c ∧ (answers.parser frameCnt i).ok then
          let bytesParsed := (answers.parser frameCnt i).consumed
          let (rest, ending) := found payload answers places (frameCnt + 1) (i + bytesParsed)
          ((i, bytesParsed) :: rest, ending)
        else ([], .damaged i)
      else ([], .complete)

/-- What the adjustments have done to the front of a list: the fillers in front, the frames taken off, and what is left
to do. -/
structure Shift where
  fillers : Nat
  taken : Nat
  cnt : Int
  deriving DecidableEq, Repr

def Shift.length (shift : Shift) (length : Nat) : Nat := shift.fillers + (length - shift.taken)

/-- One adjustment of a list that had `length` frames, if it is not refused. -/
def Build.shift (build : Build) (refill : Int) (frameNum length : Nat) (shift : Shift) : Option Shift :=
  match build with
  | .recover => some shift
  | .stuckPatch =>
      let cnt := if refill ≠ 0 ∧ shift.cnt = 0 then refill else shift.cnt
      if cnt < 0 then
        if shift.length length = 0 then some { shift with cnt := cnt }
        else if 0 < shift.fillers then some { shift with fillers := shift.fillers - 1, cnt := cnt + 1 }
        else some { shift with taken := shift.taken + 1, cnt := cnt + 1 }
      else if 0 < cnt then
        if shift.length length + frameNum < sbcMtuLimiter then
          if shift.length length = 0 then some { shift with cnt := cnt }
          else some { shift with fillers := shift.fillers + 1, cnt := cnt - 1 }
        else none
      else some { shift with cnt := cnt }

/-- The adjustments for the frames from `frameCnt` on. -/
def Build.shifts (build : Build) (refill : Nat → Int) (frameNum length : Nat) : Nat → Nat → Shift → Option Shift
  | 0, _, shift => some shift
  | frames + 1, frameCnt, shift =>
      (build.shift (refill frameCnt) frameNum length shift).bind
        (build.shifts refill frameNum length frames (frameCnt + 1))

/-- If all frames are found, what is in the list then has room for the fillers and for so many frames. Else the
adjustments leave the list as it was, and what is traced of a damaged packet is inside. -/
def Ending.Fits (build : Build) (header : MediaHeader) (frameNum : UInt8) (bytes frames : Nat) (shift : Shift)
    (s : Store) : Ending → Prop
  | .complete =>
      let length := shift.length s.list.length
      let fillers := if build = .recover then recoverCnt header frameNum s.lastValid frames length else 0
      length + fillers + frames < sbcMtuLimiter
  | .full => shift.fillers = 0 ∧ shift.taken = 0
  | .damaged i => i + dumpCnt ≤ bytes ∧ shift.fillers = 0 ∧ shift.taken = 0

/-- A packet that says it has no frames is long enough for the trace. Of the others there is room for, no frame the
parser finds goes past the end of the packet, no adjustment is refused, and they fit the way the packet ends. -/
def FramesStorable (build : Build) (header : MediaHeader) (frameNum : UInt8) (payload : List UInt8)
    (answers : Answers payload.length) (s : Store) : Prop :=
  (frameNum = 0 → dumpCnt ≤ payload.length + 1) ∧
  (frameNum ≠ 0 → s.list.length + frameNum.toNat < sbcMtuLimiter →
    (∀ pos ∈ (found payload answers frameListMax 0 0).1, pos.1 + pos.2 ≤ payload.length) ∧
    ∃ shift, build.shifts answers.refill frameNum.toNat s.list.length (found payload answers frameListMax 0 0).1.length
        0 ⟨0, 0, s.adjustFrameCnt⟩ = some shift ∧
      (found payload answers frameListMax 0 0).2.Fits build header frameNum payload.length
        (found payload answers frameListMax 0 0).1.length shift s)

/-- There is a first byte, too. -/
def Storable (build : Build) (header : MediaHeader) (buffer : List UInt8) (answers : Answers (buffer.length - 1))
    (s : Store) : Prop :=
  match buffer, answers with
  | [], _ => False
  | frameNum :: payload, answers => FramesStorable build header frameNum payload answers s

/-- The allocations the store knows of have been made. -/
structure Store.Fresh (s : Store) : Prop where
  list_lt : ∀ block ∈ s.list.map (·.block), block < s.allocated
  freed_lt : ∀ block ∈ s.freed, block < s.allocated

/-! ### The adjustments -/

/-- The state in the loop, as it comes from the one before: the list is shifted, and every allocation since is still
held or freed. -/
structure Scanning (s₀ : Store) (shift : Shift) (frameList : List Frame) (s : Store) : Prop where
  list : ∃ fillers, s.list = fillers ++ s₀.list.drop shift.taken ∧ fillers.length = shift.fillers ∧
    ∀ f ∈ fillers, f.sequenceNumber = 0xFFFF ∧ s₀.allocated ≤ f.block
  taken_le : shift.taken ≤ s₀.list.length
  cnt : s.adjustFrameCnt = shift.cnt
  lastValid : s.lastValid = s₀.lastValid
  allocated_le : s₀.allocated ≤ s.allocated
  freed_lt : ∀ block ∈ s.freed, block < s.allocated
  held : ∀ block, s₀.allocated ≤ block → block < s.allocated →
    block ∈ s.freed ∨ block ∈ frameList.map (·.block) ∨ block ∈ s.list.map (·.block)
  list_lt : ∀ block ∈ s.list.map (·.block), block < s.allocated

namespace Scanning

variable {s₀ s s' : Store} {shift : Shift} {frameList : List Frame}

theorem length_eq (hs : Scanning s₀ shift frameList s) : s.list.length = shift.length s₀.list.length := by
  obtain ⟨fillers, hlist, hlength, -⟩ := hs.list
  rw [hlist, List.length_append, List.length_drop, hlength, Shift.length]

theorem setCnt (hs : Scanning s₀ shift frameList s) (cnt : Int) :
    Scanning s₀ { shift with cnt := cnt } frameList { s with adjustFrameCnt := cnt } :=
  ⟨hs.list, hs.taken_le, rfl, hs.lastValid, hs.allocated_le, hs.freed_lt, hs.held, hs.list_lt⟩

theorem removeFront (hs : Scanning s₀ shift frameList s) {front : Frame} {list : List Frame}
    (hlist : s.list = front :: list) (cnt : Int) : Scanning s₀
      (if 0 < shift.fillers then { shift with fillers := shift.fillers - 1, cnt := cnt }
        else { shift with taken := shift.taken + 1, cnt := cnt }) frameList
      { s with list := list, adjustFrameCnt := cnt, freed := front.block :: s.freed } := by
  have hfront : front.block ∈ s.list.map (·.block) := by
    rw [hlist]
    exact List.mem_cons_self
  have hfreed : ∀ block ∈ front.block :: s.freed, block < s.allocated := fun block hblock => by
    rcases List.mem_cons.mp hblock with rfl | hold
    · exact hs.list_lt _ hfront
    · exact hs.freed_lt block hold
  have hheld : ∀ block, s₀.allocated ≤ block → block < s.allocated →
      block ∈ front.block :: s.freed ∨ block ∈ frameList.map (·.block) ∨ block ∈ list.map (·.block) :=
    fun block hlo hhi => by
      rcases hs.held block hlo hhi with hold | hframe | hin
      · exact .inl (List.mem_cons_of_mem _ hold)
      · exact .inr (.inl hframe)
      · rw [hlist] at hin
        rcases List.mem_cons.mp hin with rfl | hrest
        · exact .inl List.mem_cons_self
        · exact .inr (.inr hrest)
  have hlt : ∀ block ∈ list.map (·.block), block < s.allocated := fun block hblock => by
    apply hs.list_lt block
    rw [hlist]
    exact List.mem_cons_of_mem _ hblock
  obtain ⟨fillers, hfillers, hlength, hmarked⟩ := hs.list
  split
  case isTrue hsome =>
    cases fillers with
    | nil => rw [← hlength] at hsome; exact absurd hsome (Nat.lt_irrefl 0)
    | cons filler fillers =>
        rw [hlist, List.cons_append] at hfillers
        obtain ⟨-, hrest⟩ := List.cons.inj hfillers
        rw [List.length_cons] at hlength
        refine ⟨⟨fillers, hrest, ?_, fun f hf => hmarked f (List.mem_cons_of_mem _ hf)⟩, hs.taken_le, rfl, hs.lastValid,
          hs.allocated_le, hfreed, hheld, hlt⟩
        show fillers.length = shift.fillers - 1
        omega
  case isFalse hnone =>
    obtain rfl : fillers = [] := List.length_eq_zero_iff.mp (by omega)
    rw [hlist, List.nil_append] at hfillers
    have hmore : shift.taken < s₀.list.length := by
      by_contra hall
      rw [List.drop_eq_nil_of_le (Nat.not_lt.mp hall)] at hfillers
      cases hfillers
    rw [List.drop_eq_getElem_cons hmore] at hfillers
    obtain ⟨-, hrest⟩ := List.cons.inj hfillers
    exact ⟨⟨[], hrest, hlength, fun f hf => absurd hf List.not_mem_nil⟩, hmore, rfl, hs.lastValid, hs.allocated_le,
      hfreed, hheld, hlt⟩

theorem putFront (hs : Scanning s₀ shift frameList s) (subSequence : UInt16 × UInt16) (raw : Frame) (cnt : Int) :
    Scanning s₀ { shift with fillers := shift.fillers + 1, cnt := cnt } frameList
      { s with
        list := filler subSequence raw s.allocated :: s.list
        adjustFrameCnt := cnt
        allocated := s.allocated + 1 } := by
  obtain ⟨fillers, hlist, hlength, hmarked⟩ := hs.list
  refine ⟨⟨filler subSequence raw s.allocated :: fillers, ?_, ?_, ?_⟩, hs.taken_le, rfl, hs.lastValid,
    Nat.le_succ_of_le hs.allocated_le, fun block hblock => Nat.lt_succ_of_lt (hs.freed_lt block hblock), ?_, ?_⟩
  · rw [hlist]
    rfl
  · rw [List.length_cons, hlength]
  · intro f hf
    rcases List.mem_cons.mp hf with rfl | hold
    · exact ⟨rfl, hs.allocated_le⟩
    · exact hmarked f hold
  · intro block hlo hhi
    rcases Nat.lt_succ_iff_lt_or_eq.mp hhi with hold | rfl
    · exact (hs.held block hlo hold).imp_right (Or.imp_right (List.mem_cons_of_mem _))
    · exact .inr (.inr List.mem_cons_self)
  · intro block hblock
    rcases List.mem_cons.mp hblock with rfl | hold
    · exact Nat.lt_succ_self _
    · exact Nat.lt_succ_of_lt (hs.list_lt block hold)

/-- The adjustment of the code does what the shift says, or both refuse. -/
theorem adjust (hs : Scanning s₀ shift frameList s) (build : Build) (refill : Int) (frame : Frame) (frameNum : Nat) :
    (∃ s' shift', build.adjust refill frame frameNum s = (false, s') ∧
      build.shift refill frameNum s₀.list.length shift = some shift' ∧ Scanning s₀ shift' frameList s') ∨
    ∃ s', build.adjust refill frame frameNum s = (true, s') ∧
      build.shift refill frameNum s₀.list.length shift = none ∧ s'.allocated = s.allocated ∧ s'.freed = s.freed := by
  cases build with
  | recover => exact .inl ⟨s, shift, rfl, rfl, hs⟩
  | stuckPatch =>
      simp only [Build.adjust, packetAdjust, Build.shift]
      rw [hs.cnt, hs.length_eq]
      generalize (if refill ≠ 0 ∧ shift.cnt = 0 then refill else shift.cnt) = cnt
      by_cases hneg : cnt < 0
      · rw [if_pos hneg, if_pos hneg]
        cases hlist : s.list with
        | nil =>
            have hzero : shift.length s₀.list.length = 0 := by rw [← hs.length_eq, hlist]; rfl
            rw [if_pos hzero]
            exact .inl ⟨_, _, rfl, rfl, hlist ▸ hs.setCnt cnt⟩
        | cons front list =>
            have hsome : shift.length s₀.list.length ≠ 0 := by rw [← hs.length_eq, hlist]; exact Nat.succ_ne_zero _
            have hremove := hs.removeFront hlist (cnt + 1)
            rw [if_neg hsome]
            refine .inl ⟨_, _, rfl, ?_, hremove⟩
            split <;> rfl
      · rw [if_neg hneg, if_neg hneg]
        by_cases hpos : 0 < cnt
        · rw [if_pos hpos, if_pos hpos]
          by_cases hroom : shift.length s₀.list.length + frameNum < sbcMtuLimiter
          · rw [if_pos hroom, if_pos hroom]
            cases hlist : s.list with
            | nil =>
                have hzero : shift.length s₀.list.length = 0 := by rw [← hs.length_eq, hlist]; rfl
                rw [if_pos hzero]
                exact .inl ⟨_, _, rfl, rfl, hlist ▸ hs.setCnt cnt⟩
            | cons front list =>
                have hsome : shift.length s₀.list.length ≠ 0 := by
                  rw [← hs.length_eq, hlist]
                  exact Nat.succ_ne_zero _
                have hput := hs.putFront (frame.curSubSequenceNumber, frame.totalSubSequenceNumber) frame (cnt - 1)
                rw [hlist] at hput
                rw [if_neg hsome]
                exact .inl ⟨_, _, rfl, rfl, hput⟩
          · rw [if_neg hroom, if_neg hroom]
            exact .inr ⟨_, rfl, rfl, rfl, rfl⟩
        · rw [if_neg hpos, if_neg hpos]
          exact .inl ⟨_, _, rfl, rfl, hs.setCnt cnt⟩

theorem malloc (hs : Scanning s₀ shift frameList s) {frame : Frame} (hblock : frame.block = s.allocated) :
    Scanning s₀ shift (frameList ++ [frame]) { s with allocated := s.allocated + 1 } := by
  refine ⟨hs.list, hs.taken_le, hs.cnt, hs.lastValid, Nat.le_succ_of_le hs.allocated_le,
    fun block h => Nat.lt_succ_of_lt (hs.freed_lt block h), fun block hlo hhi => ?_,
    fun block h => Nat.lt_succ_of_lt (hs.list_lt block h)⟩
  rw [List.map_append, List.mem_append]
  rcases Nat.lt_succ_iff_lt_or_eq.mp hhi with hold | rfl
  · exact (hs.held block hlo hold).imp_right (Or.imp_left .inl)
  · exact .inr (.inl (.inr (List.mem_singleton.mpr hblock.symm)))

end Scanning

/-! ### The loop -/

section Loop

variable {build : Build} {header : MediaHeader} {frameNum : UInt8} {payload : List UInt8}
  {answers : Answers payload.length} {places frameCnt i : Nat} {shift : Shift} {frameList : List Frame} {s₀ s : Store}

theorem found_cons (hi : i < payload.length) (hframe : payload[i] = 0x9c ∧ (answers.parser frameCnt i).ok) :
    found payload answers (places + 1) frameCnt i =
      ((i, (answers.parser frameCnt i).consumed) ::
          (found payload answers places (frameCnt + 1) (i + (answers.parser frameCnt i).consumed)).1,
        (found payload answers places (frameCnt + 1) (i + (answers.parser frameCnt i).consumed)).2) := by
  rw [found, dif_pos hi, if_pos hframe]

theorem found_damaged (hi : i < payload.length) (hframe : ¬(payload[i] = 0x9c ∧ (answers.parser frameCnt i).ok)) :
    found payload answers (places + 1) frameCnt i = ([], .damaged i) := by
  rw [found, dif_pos hi, if_neg hframe]

theorem found_end (hi : ¬i < payload.length) : found payload answers (places + 1) frameCnt i = ([], .complete) := by
  rw [found, dif_neg hi]

/-- How the loop is left then. -/
def Ending.scan (frameList : List Frame) (s : Store) : Ending → Scan
  | .complete => .done frameList s
  | .full => .findErr none frameList s
  | .damaged i => .findErr (some (i + 1)) frameList s

/-- If all frames that are found are inside and no adjustment is refused, the loop comes to its end with them. -/
theorem scan_spec (hs : Scanning s₀ shift frameList s) (hi : i ≤ payload.length)
    (hinside : ∀ pos ∈ (found payload answers places frameCnt i).1, pos.1 + pos.2 ≤ payload.length) {shift' : Shift}
    (hshifts : build.shifts answers.refill frameNum.toNat s₀.list.length
      (found payload answers places frameCnt i).1.length frameCnt shift = some shift') :
    ∃ s' frames, scan build header frameNum payload answers places frameCnt i frameList s =
        some ((found payload answers places frameCnt i).2.scan (frameList ++ frames) s') ∧
      Scanning s₀ shift' (frameList ++ frames) s' ∧
      frames.length = (found payload answers places frameCnt i).1.length ∧
      ((found payload answers places frameCnt i).2 = .complete →
        Cut header frameNum payload answers frameCnt i frames) := by
  induction places generalizing frameCnt i shift frameList s with
  | zero =>
      obtain rfl := Option.some.inj hshifts
      refine ⟨s, [], ?_, ?_, rfl, fun h => by cases h⟩
      · rw [List.append_nil]
        rfl
      · rw [List.append_nil]
        exact hs
  | succ places ih =>
      by_cases hlt : i < payload.length
      case neg =>
        rw [found_end hlt] at hshifts ⊢
        obtain rfl := Option.some.inj hshifts
        refine ⟨s, [], ?_, ?_, rfl, fun _ => Nat.le_antisymm hi (Nat.not_lt.mp hlt)⟩
        · rw [scan, dif_neg hlt, List.append_nil]
          rfl
        · rw [List.append_nil]
          exact hs
      by_cases hframe : payload[i] = 0x9c ∧ (answers.parser frameCnt i).ok
      case neg =>
        rw [found_damaged hlt hframe] at hshifts ⊢
        obtain rfl := Option.some.inj hshifts
        refine ⟨s, [], ?_, ?_, rfl, fun h => by cases h⟩
        · rw [scan, dif_pos hlt, if_neg hframe, List.append_nil]
          rfl
        · rw [List.append_nil]
          exact hs
      rw [found_cons hlt hframe] at hinside hshifts ⊢
      have hin : i + (answers.parser frameCnt i).consumed ≤ payload.length := hinside _ List.mem_cons_self
      obtain ⟨shift₁, hshift, hrest⟩ := Option.bind_eq_some_iff.mp hshifts
      have hblock : (frameAt header frameNum payload frameCnt i
        (answers.parser frameCnt i).consumed s.allocated).block = s.allocated := rfl
      have hmalloc := hs.malloc hblock
      rcases hmalloc.adjust build (answers.refill frameCnt) (frameAt header frameNum payload frameCnt i
        (answers.parser frameCnt i).consumed s.allocated) frameNum.toNat with
        ⟨s₁, shift₂, hadjust, hsame, hs₁⟩ | ⟨s₁, -, hnone, -⟩
      · obtain rfl := Option.some.inj (hsame.symm.trans hshift)
        obtain ⟨s', frames, hscan, hs', hlength, hcut⟩ := ih hs₁ hin
          (fun pos hpos => hinside pos (List.mem_cons_of_mem _ hpos)) hrest
        refine ⟨s', frameAt header frameNum payload frameCnt i
          (answers.parser frameCnt i).consumed s.allocated :: frames, ?_, ?_, ?_,
          fun hdone => ⟨hlt, hframe.2, hin, rfl, hcut hdone⟩⟩
        · rw [scan, dif_pos hlt, if_pos hframe]
          simp only [if_pos hin, hadjust]
          rw [hscan, List.append_assoc]
          rfl
        · rw [List.append_assoc] at hs'
          exact hs'
        · rw [List.length_cons, List.length_cons, hlength]
      · rw [hnone] at hshift
        cases hshift

/-- Else it copies what is not of the packet, or it is left at once and the last frame is not freed. -/
theorem scan_bad (hs : Scanning s₀ shift frameList s)
    (hbad : ¬((∀ pos ∈ (found payload answers places frameCnt i).1, pos.1 + pos.2 ≤ payload.length) ∧
      (build.shifts answers.refill frameNum.toNat s₀.list.length
        (found payload answers places frameCnt i).1.length frameCnt shift).isSome)) :
    scan build header frameNum payload answers places frameCnt i frameList s = none ∨
      ∃ s' block, scan build header frameNum payload answers places frameCnt i frameList s = some (.syncErr s') ∧
        s₀.allocated ≤ block ∧ block < s'.allocated ∧ block ∉ s'.freed := by
  induction places generalizing frameCnt i shift frameList s with
  | zero => exact absurd ⟨fun pos hpos => absurd hpos List.not_mem_nil, rfl⟩ hbad
  | succ places ih =>
      by_cases hlt : i < payload.length
      case neg =>
        rw [found_end hlt] at hbad
        exact absurd ⟨fun pos hpos => absurd hpos List.not_mem_nil, rfl⟩ hbad
      by_cases hframe : payload[i] = 0x9c ∧ (answers.parser frameCnt i).ok
      case neg =>
        rw [found_damaged hlt hframe] at hbad
        exact absurd ⟨fun pos hpos => absurd hpos List.not_mem_nil, rfl⟩ hbad
      rw [found_cons hlt hframe] at hbad
      rw [scan, dif_pos hlt, if_pos hframe]
      by_cases hin : i + (answers.parser frameCnt i).consumed ≤ payload.length
      case neg =>
        simp only [if_neg hin]
        exact .inl trivial
      have hblock : (frameAt header frameNum payload frameCnt i
        (answers.parser frameCnt i).consumed s.allocated).block = s.allocated := rfl
      have hmalloc := hs.malloc hblock
      rcases hmalloc.adjust build (answers.refill frameCnt) (frameAt header frameNum payload frameCnt i
        (answers.parser frameCnt i).consumed s.allocated) frameNum.toNat with
        ⟨s₁, shift₁, hadjust, hshift, hs₁⟩ | ⟨s₁, hadjust, -, hallocated, hfreed⟩
      · simp only [if_pos hin, hadjust]
        apply ih hs₁
        intro ⟨hrest, hsome⟩
        refine hbad ⟨fun pos hpos => ?_, ?_⟩
        · rcases List.mem_cons.mp hpos with rfl | hmem
          · exact hin
          · exact hrest pos hmem
        · rw [List.length_cons, Build.shifts, hshift]
          exact hsome
      · simp only [if_pos hin, hadjust]
        refine .inr ⟨s₁, s.allocated, rfl, hs.allocated_le, ?_, ?_⟩
        · rw [hallocated]
          exact Nat.lt_succ_self _
        · rw [hfreed]
          exact fun hmem => absurd (hs.freed_lt _ hmem) (Nat.lt_irrefl _)

end Loop

/-! ### The whole call -/

section Call

variable {build : Build} {header : MediaHeader} {frameNum : UInt8} {payload : List UInt8}
  {answers : Answers payload.length} {shift : Shift} {frameList : List Frame} {s₀ s : Store}

theorem scanning_start (hs : s.Fresh) : Scanning s ⟨0, 0, s.adjustFrameCnt⟩ [] s where
  list := ⟨[], rfl, rfl, fun _ h => absurd h List.not_mem_nil⟩
  taken_le := Nat.zero_le _
  cnt := rfl
  lastValid := rfl
  allocated_le := Nat.le_refl _
  freed_lt := hs.freed_lt
  held _ hlo hhi := absurd hlo (Nat.not_le.mpr hhi)
  list_lt := hs.list_lt

/-- The list is what it was only if no filler is left in it, as the memory of these is new. -/
theorem Scanning.list_eq_iff (hs : Scanning s₀ shift frameList s) (hfresh : s₀.Fresh) :
    s.list = s₀.list ↔ shift.fillers = 0 ∧ shift.taken = 0 := by
  obtain ⟨fillers, hlist, hlength, hmarked⟩ := hs.list
  constructor
  · intro hsame
    have hcount := hs.length_eq
    have hle := hs.taken_le
    rw [hsame, Shift.length] at hcount
    cases fillers with
    | nil =>
        have hnone : shift.fillers = 0 := hlength.symm
        exact ⟨hnone, by omega⟩
    | cons f fillers =>
        have hf : f ∈ s₀.list := by
          rw [← hsame, hlist]
          exact List.mem_cons_self
        have hold := hfresh.list_lt f.block (List.mem_map_of_mem hf)
        have hnew := (hmarked f List.mem_cons_self).2
        omega
  · intro ⟨hnone, hleft⟩
    rw [hnone] at hlength
    rw [hlist, List.length_eq_zero_iff.mp hlength, hleft]
    rfl

/-- With `find_err` all frames found are freed; what else was allocated is in the list or was freed. -/
theorem Scanning.findErr (hs : Scanning s₀ shift frameList s) (hfresh : s₀.Fresh) (packet : List Frame → Prop)
    (bytes : Nat) (dump : Option Nat) :
    Stored build packet bytes s₀
        (some (.decodeError, dump, { s with freed := frameList.map (·.block) ++ s.freed })) ↔
      (∀ i ∈ dump, i + dumpCnt ≤ bytes) ∧ shift.fillers = 0 ∧ shift.taken = 0 := by
  rw [← hs.list_eq_iff hfresh]
  apply and_congr_right'
  refine and_iff_left_of_imp fun hsame block hlo hhi => List.mem_append.mpr ?_
  rcases hs.held block hlo hhi with hfreed | hframe | hin
  · exact .inr hfreed
  · exact .inl hframe
  · rw [show s.list = s₀.list from hsame] at hin
    exact absurd (hfresh.list_lt block hin) (Nat.not_lt.mpr hlo)

theorem recoverProc_list (memory : Nat → UInt16 × UInt16) (frameList : List Frame) (s : Store) :
    ∃ fillers, (recoverProc header frameNum memory frameList s).list = s.list ++ fillers ∧
      (∀ f ∈ fillers, f.sequenceNumber = 0xFFFF) ∧
      fillers.length = recoverCnt header frameNum s.lastValid frameList.length s.list.length := by
  cases frameList with
  | nil =>
      refine ⟨[], (List.append_nil _).symm, fun f hf => absurd hf List.not_mem_nil, ?_⟩
      rw [recoverCnt, if_neg fun h => absurd h.1 (Nat.lt_irrefl 0)]
      rfl
  | cons raw frameList =>
      refine ⟨_, rfl, fun f hf => ?_, ?_⟩
      · obtain ⟨k, -, rfl⟩ := List.mem_map.mp hf
        rfl
      · rw [List.length_map, List.length_range]

theorem shifts_recover {refill : Nat → Int} {frameNum length frames frameCnt : Nat} {shift' : Shift}
    (h : Build.recover.shifts refill frameNum length frames frameCnt shift = some shift') : shift' = shift := by
  induction frames generalizing frameCnt with
  | zero => exact (Option.some.inj h).symm
  | succ frames ih => exact ih h

theorem Scanning.append (hs : Scanning s₀ shift frameList s) (hcut : Cut header frameNum payload answers 0 0 frameList)
    (hrecover : build = .recover → shift.fillers = 0 ∧ shift.taken = 0) :
    Stored build (Cut header frameNum payload answers 0 0) (payload.length + 1) s₀
        (some (.noError, none, append build header frameNum answers.memory frameList s)) ↔
      shift.length s₀.list.length + (if build = .recover then
        recoverCnt header frameNum s₀.lastValid frameList.length (shift.length s₀.list.length) else 0) +
          frameList.length < sbcMtuLimiter := by
  obtain ⟨fillers, hlist, hlength, hmarked⟩ := hs.list
  cases build with
  | stuckPatch =>
      rw [if_neg (by decide), Nat.add_zero (shift.length _), ← hs.length_eq, ← List.length_append]
      exact and_iff_left ⟨s.list, frameList, rfl, ⟨fillers, shift.taken, hlist, fun f hf => (hmarked f hf).1⟩, hcut⟩
  | recover =>
      obtain ⟨hnone, hleft⟩ := hrecover rfl
      rw [hnone] at hlength
      rw [List.length_eq_zero_iff.mp hlength, hleft, List.drop_zero, List.nil_append] at hlist
      obtain ⟨recovered, hproc, hfilled, hcount⟩ := @recoverProc_list header frameNum answers.memory frameList s
      have happend : (Sbc.append .recover header frameNum answers.memory frameList s).list =
          s.list ++ recovered ++ frameList := by
        show (recoverProc header frameNum answers.memory frameList s).list ++ frameList = _
        rw [hproc]
      rw [if_pos rfl, ← hs.length_eq, ← hs.lastValid, ← hcount, ← List.length_append, ← List.length_append, ← happend]
      apply and_iff_left
      exact ⟨s.list ++ recovered, frameList, happend, ⟨recovered, by rw [hlist], hfilled⟩, hcut⟩

/-- How the loop is left decides what is asked of the adjustments. -/
theorem Ending.stored_iff (ending : Ending) (hs : Scanning s₀ shift frameList s) (hfresh : s₀.Fresh)
    (hcut : ending = .complete → Cut header frameNum payload answers 0 0 frameList)
    (hrecover : build = .recover → shift.fillers = 0 ∧ shift.taken = 0) :
    Stored build (Cut header frameNum payload answers 0 0) (payload.length + 1) s₀
        (some (finish build header frameNum payload answers (ending.scan frameList s))) ↔
      ending.Fits build header frameNum payload.length frameList.length shift s₀ := by
  cases ending with
  | complete => exact hs.append (hcut rfl) hrecover
  | full =>
      apply (hs.findErr hfresh _ (payload.length + 1) none).trans
      exact and_iff_right fun i hi => by cases hi
  | damaged i =>
      apply (hs.findErr hfresh _ (payload.length + 1) (some (i + 1))).trans
      apply and_congr_left'
      have hbehind : i + 1 + dumpCnt ≤ payload.length + 1 ↔ i + dumpCnt ≤ payload.length := by omega
      rw [← hbehind]
      exact ⟨fun hdump => hdump (i + 1) rfl, fun hle j hj => by cases hj; exact hle⟩

theorem storeFrames_stored_iff (hfresh : s.Fresh) :
    Stored build (Cut header frameNum payload answers 0 0) (payload.length + 1) s
        (storeFrames build header frameNum payload answers s) ↔
      FramesStorable build header frameNum payload answers s := by
  have hsame : ∀ block, s.allocated ≤ block → block < s.allocated → block ∈ s.freed := fun block hlo hhi =>
    absurd hlo (Nat.not_le.mpr hhi)
  rw [storeFrames, FramesStorable]
  by_cases hzero : frameNum = 0
  · have hdump : (∀ i ∈ some 0, i + dumpCnt ≤ payload.length + 1) ↔ dumpCnt ≤ payload.length + 1 :=
      ⟨fun h => Nat.zero_add dumpCnt ▸ h 0 rfl, fun h i hi => by cases hi; exact (Nat.zero_add dumpCnt).symm ▸ h⟩
    rw [if_pos hzero]
    constructor
    · intro hstored
      exact ⟨fun _ => hdump.mp hstored.1, fun h => absurd hzero h⟩
    · intro hstorable
      exact ⟨hdump.mpr (hstorable.1 hzero), rfl, hsame⟩
  apply Iff.trans _ (and_iff_right fun h => absurd h hzero).symm
  by_cases hroom : s.list.length + frameNum.toNat < sbcMtuLimiter
  case neg =>
    rw [if_neg hzero, if_neg hroom]
    exact iff_of_true ⟨fun i hi => absurd hi (Option.not_mem_none i), rfl, hsame⟩ fun _ h => absurd h hroom
  rw [if_neg hzero, if_pos hroom]
  have hstart := scanning_start hfresh
  by_cases hgood : (∀ pos ∈ (found payload answers frameListMax 0 0).1, pos.1 + pos.2 ≤ payload.length) ∧
      (build.shifts answers.refill frameNum.toNat s.list.length (found payload answers frameListMax 0 0).1.length 0
        ⟨0, 0, s.adjustFrameCnt⟩).isSome
  case neg =>
    refine iff_of_false ?_ fun hstorable => ?_
    · rcases @scan_bad build header frameNum payload answers frameListMax 0 0 _ _ _ _ hstart hgood with
        hnone | ⟨s', block, hscan, hlo, hhi, hleft⟩
      · rw [hnone]
        exact id
      · rw [hscan]
        exact fun hstored => hleft (hstored.2.2 block hlo hhi)
    · obtain ⟨hinside, shift, hshifts, -⟩ := hstorable hzero hroom
      exact hgood ⟨hinside, by rw [hshifts]; rfl⟩
  obtain ⟨hinside, hsome⟩ := hgood
  obtain ⟨shift, hshifts⟩ := Option.isSome_iff_exists.mp hsome
  obtain ⟨s', frames, hscan, hs', hlength, hcut⟩ :=
    @scan_spec build header frameNum payload answers frameListMax 0 0 _ _ _ _ hstart (Nat.zero_le _) hinside _ hshifts
  rw [List.nil_append] at hscan hs'
  have hrecover : build = .recover → shift.fillers = 0 ∧ shift.taken = 0 := fun hbuild => by
    subst hbuild
    rw [shifts_recover hshifts]
    exact ⟨rfl, rfl⟩
  have hresult := (found payload answers frameListMax 0 0).2.stored_iff hs' hfresh hcut hrecover
  rw [hlength] at hresult
  rw [hscan, Option.map_some, hresult]
  constructor
  · intro hmet _ _
    exact ⟨hinside, shift, hshifts, hmet⟩
  · intro hstorable
    obtain ⟨-, shift', hshifts', hmet⟩ := hstorable hzero hroom
    obtain rfl := Option.some.inj (hshifts.symm.trans hshifts')
    exact hmet

/-- A packet is stored as it should be exactly if it has a first byte, its frames and what is traced are inside of it,
the adjustments are not refused, and either they do not show when the packet is not stored, or the list has room for all
that comes. -/
theorem storePacket_stored_iff (build : Build) (header : MediaHeader) (buffer : List UInt8)
    (answers : Answers (buffer.length - 1)) (s : Store) (hfresh : s.Fresh) :
    Stored build (Packet header buffer answers) buffer.length s (storePacket build header buffer answers s) ↔
      Storable build header buffer answers s := by
  cases buffer with
  | nil => exact Iff.rfl
  | cons frameNum payload => exact storeFrames_stored_iff hfresh

end Call

def emptyStore : Store := ⟨[], 0, none, 0, []⟩

theorem emptyStore_fresh : emptyStore.Fresh :=
  ⟨fun _ h => absurd h List.not_mem_nil, fun _ h => absurd h List.not_mem_nil⟩

/-- Two frames of two bytes. -/
def twoFrames : List UInt8 := [2, 0x9c, 1, 0x9c, 2]

/-- The parser says so, or it takes the second frame for a longer one. -/
def twoFramesAnswers (second : Nat) (h : second ≤ 4) : Answers (twoFrames.length - 1) where
  parser frameCnt _ := if frameCnt = 0 then ⟨true, 2, by decide⟩ else ⟨true, second, h⟩
  refill _ := 0
  memory _ := (0, 0)

theorem twoFrames_stored : Stored .stuckPatch (Packet ⟨7, 0⟩ twoFrames (twoFramesAnswers 2 (by decide))) 5 emptyStore
    (storePacket .stuckPatch ⟨7, 0⟩ twoFrames (twoFramesAnswers 2 (by decide)) emptyStore) := by
  apply (storePacket_stored_iff .stuckPatch ⟨7, 0⟩ twoFrames (twoFramesAnswers 2 (by decide)) emptyStore
    emptyStore_fresh).mpr
  refine ⟨by decide, fun _ _ => ⟨by decide, ⟨0, 0, 0⟩, rfl, ?_⟩⟩
  show 0 + 0 + 2 < sbcMtuLimiter
  decide

/-- The trace of a packet without frames goes past its end. -/
example (answers : Answers 0) : ¬Storable .stuckPatch ⟨7, 0⟩ [0] answers emptyStore := fun hstorable =>
  absurd (hstorable.1 rfl) (by decide)

/-- The second frame is copied past the end of the packet. -/
theorem twoFrames_not_stored :
    ¬Stored .stuckPatch (Packet ⟨7, 0⟩ twoFrames (twoFramesAnswers 3 (by decide))) 5 emptyStore
      (storePacket .stuckPatch ⟨7, 0⟩ twoFrames (twoFramesAnswers 3 (by decide)) emptyStore) := by
  have hnone : storePacket .stuckPatch ⟨7, 0⟩ twoFrames (twoFramesAnswers 3 (by decide)) emptyStore = none := rfl
  rw [hnone]
  exact id

end Best1307.Sbc
