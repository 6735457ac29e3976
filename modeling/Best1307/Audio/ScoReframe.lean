import Mathlib.Algebra.GroupWithZero.Nat
import Best1307.Lib.Run
import Best1307.Lib.WrapBuffer

/-!
# Reframing of a call

The callback brings a frame of every channel and gets a frame of the result. The thread works on longer frames: it takes
one out of the input queues, and puts what is made of it to the output queue. The room in the output queue is looked at
when the frame is out already; if there is none, the frame is gone.

Callback and thread run at the same time. A step is one look at a length, or one copy under the lock.
-/

namespace Best1307.ScoReframe

open WrapBuffer

def processFrameLen : Nat := 320
def queueBufPcmNum : Nat := processFrameLen * 4
def preCacheOutPcm : Nat := processFrameLen * 2

/-- `IO_FRAME_LEN`, with and without `LOW_DELAY_SCO` -/
def ioFrameLen (lowDelaySco : Bool) : Nat := if lowDelaySco then 120 else 240

inductive ReframeChannel
  | ff | fb | vp | ref
  deriving DecidableEq, Repr

/-- Where the callback is: before its copies to and from a queue, before the look at the output queue, and before the
signal. -/
inductive TxPc (α : Type*)
  | outside
  | copyIn (pcmBuf : ReframeChannel → Nat → α)
  | checkOut | copyOut | signalSet

/-- Where the thread is: waiting, before it takes a frame, before it looks for room, before the frame is processed, and
before the look and the copy of `_write_output_queue`. -/
inductive ThreadPc
  | waiting | reading | checking | processing | checkWrite | copyWrite
  deriving DecidableEq, Repr

/-- The queues and buffers, and where both are. Of every channel what was accepted and what was taken out again, and of
the result what was put to the output queue and what the callback got of that. -/
structure State (α : Type*) where
  inQueueLen : Nat
  outQueueLen : Nat
  inQueueBuf : ReframeChannel → Nat → α
  processBuf : ReframeChannel → Nat → α
  processOutBuf : Nat → α
  outQueueBuf : Nat → α
  signalWrite : Bool
  tx : TxPc α
  thread : ThreadPc
  accepted : ReframeChannel → List α
  taken : ReframeChannel → List α
  placed : List α
  played : List α

variable {α : Type*}

/-- What `bt_sco_chain_reframe_open` puts to the output queue; the copy goes past the end of `g_process_out_buf`, to
what lies `behind` it. -/
def preCache [Zero α] (behind : Nat → α) : List α :=
  read (write behind 0 (List.replicate processFrameLen 0)) 0 preCacheOutPcm

/-- `bt_sco_chain_reframe_open` -/
def opened [Zero α] (behind : Nat → α) : State α where
  inQueueLen := 0
  outQueueLen := preCacheOutPcm
  inQueueBuf := fun _ _ => 0
  processBuf := fun _ _ => 0
  processOutBuf := write behind 0 (List.replicate processFrameLen 0)
  outQueueBuf := write (fun _ => 0) 0 (preCache behind)
  signalWrite := false
  tx := .outside
  thread := .waiting
  accepted := fun _ => []
  taken := fun _ => []
  placed := preCache behind
  played := []

inductive Event (α : Type*)
  | txProcess (pcmBuf : ReframeChannel → Nat → α)
  | copyIn | checkOut | copyOut | signalSet
  | signalWait | readInput | checkRoom | process | checkWrite | copyWrite

/-- One that is elsewhere has no next step of that kind. -/
def step [Zero α] (lowDelaySco : Bool) (s : State α) : Event α → Option (State α)
  | .txProcess pcmBuf =>
      match s.tx with
      | .outside =>
          if queueBufPcmNum < s.inQueueLen + ioFrameLen lowDelaySco then some { s with tx := .checkOut }
          else some { s with tx := .copyIn pcmBuf }
      | _ => none
  | .copyIn =>
      match s.tx with
      | .copyIn pcmBuf =>
          some { s with
            inQueueBuf := fun ch =>
              write (s.inQueueBuf ch) s.inQueueLen (read (pcmBuf ch) 0 (ioFrameLen lowDelaySco))
            inQueueLen := s.inQueueLen + ioFrameLen lowDelaySco
            accepted := fun ch => s.accepted ch ++ read (pcmBuf ch) 0 (ioFrameLen lowDelaySco)
            tx := .checkOut }
      | _ => none
  | .checkOut =>
      match s.tx with
      | .checkOut =>
          if s.outQueueLen < ioFrameLen lowDelaySco then some { s with tx := .signalSet }
          else some { s with tx := .copyOut }
      | _ => none
  | .copyOut =>
      match s.tx with
      | .copyOut =>
          some { s with
            outQueueBuf := write s.outQueueBuf 0
              (read s.outQueueBuf (ioFrameLen lowDelaySco) (s.outQueueLen - ioFrameLen lowDelaySco))
            outQueueLen := s.outQueueLen - ioFrameLen lowDelaySco
            played := s.played ++ read s.outQueueBuf 0 (ioFrameLen lowDelaySco)
            tx := .signalSet }
      | _ => none
  | .signalSet =>
      match s.tx with
      | .signalSet => some { s with signalWrite := true, tx := .outside }
      | _ => none
  | .signalWait =>
      if s.thread = .waiting ∧ s.signalWrite then some { s with signalWrite := false, thread := .reading } else none
  | .readInput =>
      if s.thread = .reading then
        if processFrameLen ≤ s.inQueueLen then
          some { s with
            processBuf := fun ch => write (s.processBuf ch) 0 (read (s.inQueueBuf ch) 0 processFrameLen)
            inQueueBuf := fun ch =>
              write (s.inQueueBuf ch) 0 (read (s.inQueueBuf ch) processFrameLen (s.inQueueLen - processFrameLen))
            inQueueLen := s.inQueueLen - processFrameLen
            taken := fun ch => s.taken ch ++ read (s.inQueueBuf ch) 0 processFrameLen
            thread := .checking }
        else
          some { s with
            processBuf := fun ch => write (s.processBuf ch) 0 (List.replicate processFrameLen 0)
            thread := .waiting }
      else none
  | .checkRoom =>
      if s.thread = .checking then
        if s.outQueueLen + processFrameLen ≤ queueBufPcmNum then some { s with thread := .processing }
        else some { s with thread := .waiting }
      else none
  | .process =>
      if s.thread = .processing then
        some { s with
          processOutBuf := write s.processOutBuf 0 (read (s.processBuf .vp) 0 processFrameLen)
          thread := .checkWrite }
      else none
  | .checkWrite =>
      if s.thread = .checkWrite then
        if queueBufPcmNum < s.outQueueLen + processFrameLen then some { s with thread := .reading }
        else some { s with thread := .copyWrite }
      else none
  | .copyWrite =>
      if s.thread = .copyWrite then
        some { s with
          outQueueBuf := write s.outQueueBuf s.outQueueLen (read s.processOutBuf 0 processFrameLen)
          outQueueLen := s.outQueueLen + processFrameLen
          placed := s.placed ++ read s.processOutBuf 0 processFrameLen
          thread := .reading }
      else none

/-- The frame the thread has taken out and not yet put in. -/
def State.hand (s : State α) : List α :=
  match s.thread with
  | .waiting | .reading => []
  | .checking | .processing => read (s.processBuf .vp) 0 processFrameLen
  | .checkWrite | .copyWrite => read s.processOutBuf 0 processFrameLen

/-- What is accepted is in the queues or was taken out, from all channels alike; what was put to the output queue is
there or was played; and that is, after what was there at first, all that was taken out. -/
structure Sound (pre : List α) (s : State α) : Prop where
  lossless : s.placed ++ s.hand = pre ++ s.taken .vp
  aligned : ∀ ch, (s.taken ch).length = (s.taken .vp).length
  input : ∀ ch, s.accepted ch = s.taken ch ++ read (s.inQueueBuf ch) 0 s.inQueueLen
  output : s.placed = s.played ++ read s.outQueueBuf 0 s.outQueueLen

def HasRoom (s : State α) : Event α → Prop
  | .checkRoom => s.outQueueLen + processFrameLen ≤ queueBufPcmNum
  | _ => True

/-! ### What every step keeps, whether or not a frame is lost -/

/-- The callback reads only what is there, and the thread writes only where there is room. -/
structure Streams (lowDelaySco : Bool) (s : State α) : Prop where
  aligned : ∀ ch, (s.taken ch).length = (s.taken .vp).length
  input : ∀ ch, s.accepted ch = s.taken ch ++ read (s.inQueueBuf ch) 0 s.inQueueLen
  output : s.placed = s.played ++ read s.outQueueBuf 0 s.outQueueLen
  room : s.thread = .processing ∨ s.thread = .checkWrite ∨ s.thread = .copyWrite →
    s.outQueueLen + processFrameLen ≤ queueBufPcmNum
  plays : s.tx = .copyOut → ioFrameLen lowDelaySco ≤ s.outQueueLen

/-- What comes out of the input queues goes on to the output queue, or is in the hand of the thread. -/
def Moves (s s' : State α) : Prop :=
  ∃ frame, s'.placed ++ s'.hand = s.placed ++ s.hand ++ frame ∧ s'.taken .vp = s.taken .vp ++ frame

variable {lowDelaySco : Bool} {s s' : State α}

theorem hand_of_taken (h : s.thread = .checking ∨ s.thread = .processing) :
    s.hand = read (s.processBuf .vp) 0 processFrameLen := by
  rcases h with h | h <;> rw [State.hand, h]

theorem moves_of_same (hplaced : s'.placed = s.placed) (hhand : s'.hand = s.hand) (htaken : s'.taken = s.taken) :
    Moves s s' := by
  refine ⟨[], ?_, ?_⟩
  · rw [hplaced, hhand, List.append_nil]
  · rw [htaken, List.append_nil]

/-- A frame that was taken out is lost. -/
def Behind (pre : List α) (s : State α) : Prop :=
  s.placed.length + s.hand.length < pre.length + (s.taken .vp).length

theorem Sound.not_behind {pre : List α} (h : Sound pre s) : ¬Behind pre s := by
  have hlength := congrArg List.length h.lossless
  rw [List.length_append, List.length_append] at hlength
  rw [Behind, hlength]
  exact Nat.lt_irrefl _

theorem Moves.behind {pre : List α} (h : Moves s s') (hs : Behind pre s) : Behind pre s' := by
  obtain ⟨frame, hplaced, htaken⟩ := h
  have hlength := congrArg List.length hplaced
  simp only [List.length_append] at hlength
  rw [Behind, htaken, List.length_append]
  rw [Behind] at hs
  omega

theorem Moves.lossless {pre : List α} (h : Moves s s') (hs : s.placed ++ s.hand = pre ++ s.taken .vp) :
    s'.placed ++ s'.hand = pre ++ s'.taken .vp := by
  obtain ⟨frame, hplaced, htaken⟩ := h
  rw [hplaced, htaken, hs, List.append_assoc]

theorem opened_streams [Zero α] (lowDelaySco : Bool) (behind : Nat → α) : Streams lowDelaySco (opened behind) where
  aligned _ := rfl
  input _ := rfl
  output := by
    have hread := @read_write_read α (fun _ => 0) 0 preCacheOutPcm (write behind 0 (List.replicate processFrameLen 0))
    simp only [opened, preCache, List.nil_append, hread]
  room h := by rcases h with h | h | h <;> cases h
  plays h := by cases h

variable [Zero α]

theorem step_callback {e : Event α} (he : e matches .txProcess _ | .copyIn | .checkOut | .copyOut | .signalSet)
    (hs : Streams lowDelaySco s) (h : step lowDelaySco s e = some s') : Streams lowDelaySco s' ∧ Moves s s' := by
  cases e with
  | txProcess pcmBuf =>
      rw [step] at h
      split at h
      · split at h
        · rw [← Option.some.inj h]
          exact ⟨⟨hs.aligned, hs.input, hs.output, hs.room, fun h => by cases h⟩, moves_of_same rfl rfl rfl⟩
        · rw [← Option.some.inj h]
          exact ⟨⟨hs.aligned, hs.input, hs.output, hs.room, fun h => by cases h⟩, moves_of_same rfl rfl rfl⟩
      · cases h
  | copyIn =>
      rw [step] at h
      split at h
      next pcmBuf htx =>
        rw [← Option.some.inj h]
        refine ⟨⟨hs.aligned, fun ch => ?_, hs.output, hs.room, fun h => by cases h⟩, moves_of_same rfl rfl rfl⟩
        show s.accepted ch ++ _ = s.taken ch ++ read (write _ _ _) 0 (s.inQueueLen + _)
        rw [read_write_behind, hs.input ch, List.append_assoc]
      · cases h
  | checkOut =>
      rw [step] at h
      split at h
      · split at h
        · rw [← Option.some.inj h]
          exact ⟨⟨hs.aligned, hs.input, hs.output, hs.room, fun h => by cases h⟩, moves_of_same rfl rfl rfl⟩
        next hfull =>
          rw [← Option.some.inj h]
          exact ⟨⟨hs.aligned, hs.input, hs.output, hs.room, fun _ => Nat.not_lt.mp hfull⟩,
            moves_of_same rfl rfl rfl⟩
      · cases h
  | copyOut =>
      rw [step] at h
      split at h
      next htx =>
        rw [← Option.some.inj h]
        refine ⟨⟨hs.aligned, hs.input, ?_, fun hpc => ?_, fun h => by cases h⟩, moves_of_same rfl rfl rfl⟩
        · show s.placed = s.played ++ read s.outQueueBuf 0 (ioFrameLen lowDelaySco) ++
            read (write s.outQueueBuf 0 (read s.outQueueBuf (ioFrameLen lowDelaySco)
              (s.outQueueLen - ioFrameLen lowDelaySco))) 0 (s.outQueueLen - ioFrameLen lowDelaySco)
          rw [read_write_read, List.append_assoc, ← read_split (hs.plays htx)]
          exact hs.output
        · have hroom := hs.room hpc
          show s.outQueueLen - ioFrameLen lowDelaySco + processFrameLen ≤ queueBufPcmNum
          omega
      · cases h
  | signalSet =>
      rw [step] at h
      split at h
      · rw [← Option.some.inj h]
        exact ⟨⟨hs.aligned, hs.input, hs.output, hs.room, fun h => by cases h⟩, moves_of_same rfl rfl rfl⟩
      · cases h
  | signalWait => cases he
  | readInput => cases he
  | checkRoom => cases he
  | process => cases he
  | checkWrite => cases he
  | copyWrite => cases he

theorem step_thread {e : Event α}
    (he : e matches .signalWait | .readInput | .checkRoom | .process | .checkWrite | .copyWrite)
    (hs : Streams lowDelaySco s) (hroom : HasRoom s e) (h : step lowDelaySco s e = some s') :
    Streams lowDelaySco s' ∧ Moves s s' := by
  cases e with
  | signalWait =>
      rw [step] at h
      split at h
      next hpc =>
        rw [← Option.some.inj h]
        have hhand : s.hand = [] := by rw [State.hand, hpc.1]
        refine ⟨⟨hs.aligned, hs.input, hs.output, fun h => ?_, hs.plays⟩, moves_of_same rfl hhand.symm rfl⟩
        rcases h with h | h | h <;> cases h
      next => cases h
  | readInput =>
      rw [step] at h
      split at h
      next hpc =>
        have hhand : s.hand = [] := by rw [State.hand, hpc]
        split at h
        next hmany =>
          rw [← Option.some.inj h]
          refine ⟨⟨fun ch => ?_, fun ch => ?_, hs.output, fun h => ?_, hs.plays⟩,
            read (s.inQueueBuf .vp) 0 processFrameLen, ?_, rfl⟩
          · simp only [List.length_append, length_read, hs.aligned ch]
          · have hinput := hs.input ch
            rw [read_split hmany] at hinput
            simp only [hinput, read_write_read, List.append_assoc]
          · rcases h with h | h | h <;> cases h
          · rw [hhand, List.append_nil, hand_of_taken (.inl rfl), read_write_read]
        next =>
          rw [← Option.some.inj h]
          refine ⟨⟨hs.aligned, hs.input, hs.output, fun h => ?_, hs.plays⟩, moves_of_same rfl hhand.symm rfl⟩
          rcases h with h | h | h <;> cases h
      next => cases h
  | checkRoom =>
      rw [step] at h
      split at h
      next hpc =>
        have hroom : s.outQueueLen + processFrameLen ≤ queueBufPcmNum := hroom
        rw [if_pos hroom] at h
        rw [← Option.some.inj h]
        have hhand := hand_of_taken (.inl hpc)
        exact ⟨⟨hs.aligned, hs.input, hs.output, fun _ => hroom, hs.plays⟩, moves_of_same rfl hhand.symm rfl⟩
      next => cases h
  | process =>
      rw [step] at h
      split at h
      next hpc =>
        rw [← Option.some.inj h]
        have hhand := hand_of_taken (.inr hpc)
        refine ⟨⟨hs.aligned, hs.input, hs.output, fun _ => hs.room (.inl hpc), hs.plays⟩, moves_of_same rfl ?_ rfl⟩
        rw [hhand]
        exact read_write_read
      next => cases h
  | checkWrite =>
      rw [step] at h
      split at h
      next hpc =>
        rw [if_neg (Nat.not_lt.mpr (hs.room (.inr (.inl hpc))))] at h
        rw [← Option.some.inj h]
        have hhand : s.hand = read s.processOutBuf 0 processFrameLen := by rw [State.hand, hpc]
        exact ⟨⟨hs.aligned, hs.input, hs.output, fun _ => hs.room (.inr (.inl hpc)), hs.plays⟩,
          moves_of_same rfl hhand.symm rfl⟩
      next => cases h
  | copyWrite =>
      rw [step] at h
      split at h
      next hpc =>
        rw [← Option.some.inj h]
        have hhand : s.hand = read s.processOutBuf 0 processFrameLen := by rw [State.hand, hpc]
        refine ⟨⟨hs.aligned, hs.input, ?_, fun h => ?_, fun htx => ?_⟩, [], ?_, (List.append_nil _).symm⟩
        · show s.placed ++ _ = s.played ++ read (write s.outQueueBuf s.outQueueLen
            (read s.processOutBuf 0 processFrameLen)) 0 (s.outQueueLen + processFrameLen)
          rw [read_write_behind, hs.output, List.append_assoc]
        · rcases h with h | h | h <;> cases h
        · exact Nat.le_trans (hs.plays htx) (Nat.le_add_right _ _)
        · show s.placed ++ read s.processOutBuf 0 processFrameLen ++ [] = _
          rw [hhand, List.append_nil]
      next => cases h
  | txProcess pcmBuf => cases he
  | copyIn => cases he
  | checkOut => cases he
  | copyOut => cases he
  | signalSet => cases he

theorem step_moves {e : Event α} (hs : Streams lowDelaySco s) (hroom : HasRoom s e)
    (h : step lowDelaySco s e = some s') : Streams lowDelaySco s' ∧ Moves s s' := by
  cases e with
  | txProcess pcmBuf => exact step_callback rfl hs h
  | copyIn => exact step_callback rfl hs h
  | checkOut => exact step_callback rfl hs h
  | copyOut => exact step_callback rfl hs h
  | signalSet => exact step_callback rfl hs h
  | signalWait => exact step_thread rfl hs hroom h
  | readInput => exact step_thread rfl hs hroom h
  | checkRoom => exact step_thread rfl hs hroom h
  | process => exact step_thread rfl hs hroom h
  | checkWrite => exact step_thread rfl hs hroom h
  | copyWrite => exact step_thread rfl hs hroom h

/-! ### Every run -/

/-- Without room the frame in the hand of the thread is gone. -/
theorem step_full {e : Event α} (hs : Streams lowDelaySco s) (hfull : ¬HasRoom s e)
    (h : step lowDelaySco s e = some s') : Streams lowDelaySco s' ∧
      s'.placed.length + s'.hand.length < s.placed.length + s.hand.length ∧ s'.taken = s.taken := by
  cases e with
  | checkRoom =>
      rw [step] at h
      split at h
      next hpc =>
        have hfull : ¬s.outQueueLen + processFrameLen ≤ queueBufPcmNum := hfull
        rw [if_neg hfull] at h
        rw [← Option.some.inj h]
        have hhand := hand_of_taken (.inl hpc)
        refine ⟨⟨hs.aligned, hs.input, hs.output, fun h => ?_, hs.plays⟩, ?_, rfl⟩
        · rcases h with h | h | h <;> cases h
        · show s.placed.length + 0 < _
          rw [hhand, length_read]
          exact Nat.lt_add_of_pos_right (by decide)
      next => cases h
  | txProcess pcmBuf => exact absurd trivial hfull
  | copyIn => exact absurd trivial hfull
  | checkOut => exact absurd trivial hfull
  | copyOut => exact absurd trivial hfull
  | signalSet => exact absurd trivial hfull
  | signalWait => exact absurd trivial hfull
  | readInput => exact absurd trivial hfull
  | process => exact absurd trivial hfull
  | checkWrite => exact absurd trivial hfull
  | copyWrite => exact absurd trivial hfull

theorem step_behind {e : Event α} {pre : List α} (hs : Streams lowDelaySco s ∧ Behind pre s)
    (h : step lowDelaySco s e = some s') : Streams lowDelaySco s' ∧ Behind pre s' := by
  by_cases hroom : HasRoom s e
  · exact (step_moves hs.1 hroom h).imp_right fun hmoves => hmoves.behind hs.2
  · obtain ⟨hstreams, hless, htaken⟩ := step_full hs.1 hroom h
    refine ⟨hstreams, ?_⟩
    rw [Behind, htaken]
    exact Nat.lt_trans hless hs.2

/-- From a state where nothing is lost, nothing is lost exactly if there is always room. -/
theorem run_lossless_iff {pre : List α} {events : List (Event α)} (hs : Streams lowDelaySco s)
    (hlossless : s.placed ++ s.hand = pre ++ s.taken .vp) (hrun : run (step lowDelaySco) s events = some s') :
    Sound pre s' ↔ Along (step lowDelaySco) HasRoom s events := by
  induction events generalizing s with
  | nil =>
      obtain rfl := Option.some.inj hrun
      exact iff_of_true ⟨hlossless, hs.aligned, hs.input, hs.output⟩ trivial
  | cons e events ih =>
      obtain ⟨t, ht, hrest⟩ := (run_cons_eq_some _).mp hrun
      by_cases hroom : HasRoom s e
      · obtain ⟨hstreams, hmoves⟩ := step_moves hs hroom ht
        rw [ih hstreams (hmoves.lossless hlossless) hrest]
        constructor
        · intro halong
          exact ⟨hroom, fun u hu => Option.some.inj (ht.symm.trans hu) ▸ halong⟩
        · intro halong
          exact halong.2 t ht
      · obtain ⟨hstreams, hless, htaken⟩ := step_full hs hroom ht
        have hbehind : Behind pre t := by
          have hlength := congrArg List.length hlossless
          rw [List.length_append, List.length_append] at hlength
          rw [Behind, htaken, ← hlength]
          exact hless
        have hend : Streams lowDelaySco s' ∧ Behind pre s' :=
          run_invariant (fun s => Streams lowDelaySco s ∧ Behind pre s) (fun _ _ _ hs h => step_behind hs h)
            ⟨hstreams, hbehind⟩ hrest
        exact iff_of_false (fun hsound => hsound.not_behind hend.2) fun halong => hroom halong.1

/-- Callback and thread in any order: all that is taken out of the input queues is put to the output queue, and all
channels stay together, exactly if there is room whenever the thread looks for it. -/
theorem run_reframes_iff (lowDelaySco : Bool) (behind : Nat → α) (events : List (Event α)) (s : State α)
    (hrun : run (step lowDelaySco) (opened behind) events = some s) :
    Sound (preCache behind) s ↔ Along (step lowDelaySco) HasRoom (opened behind) events := by
  apply run_lossless_iff (opened_streams lowDelaySco behind) _ hrun
  simp only [opened, State.hand]

instance (s : State α) (e : Event α) : Decidable (HasRoom s e) :=
  match e with
  | .checkRoom => inferInstanceAs (Decidable (s.outQueueLen + processFrameLen ≤ queueBufPcmNum))
  | .txProcess _ | .copyIn | .checkOut | .copyOut | .signalSet | .signalWait | .readInput | .process | .checkWrite
  | .copyWrite => inferInstanceAs (Decidable True)

/-- A call that finds room and a frame, and one that finds room only. -/
def call : List (Event Nat) := [.txProcess fun _ i => i, .copyIn, .checkOut, .copyOut, .signalSet]

def callEmpty : List (Event Nat) := [.txProcess fun _ i => i, .copyIn, .checkOut, .signalSet]

def round : List (Event Nat) := [.readInput, .checkRoom, .process, .checkWrite, .copyWrite]

/-- The callback comes in while the thread works. -/
def steadyEvents : List (Event Nat) :=
  call ++ call ++ [.signalWait, .readInput, .txProcess fun _ i => i, .checkRoom, .copyIn, .process, .checkWrite,
    .copyWrite, .checkOut, .readInput, .copyOut, .checkRoom, .signalSet]

theorem steadyEvents_sound : ∃ s, run (step false) (opened fun _ => 0) steadyEvents = some s ∧
    Sound (preCache fun _ => 0) s := by
  obtain ⟨s, hs⟩ := Option.isSome_iff_exists.mp
    (by decide +kernel : (run (step false) (opened fun _ => 0) steadyEvents).isSome)
  exact ⟨s, hs, (run_reframes_iff false (fun _ => 0) steadyEvents s hs).mpr (by decide +kernel)⟩

/-- The thread does not come to work for five calls, the last three of which find no frame. Later there is a whole frame
in the input queues and no room for what would be made of it. -/
def stalledEvents : List (Event Nat) :=
  call ++ call ++ callEmpty ++ callEmpty ++ callEmpty ++ .signalWait :: round ++ round ++ round ++ .readInput :: call ++
    .signalWait :: round ++ .readInput :: call ++ .signalWait :: round ++ .readInput :: call ++
    [.signalWait, .readInput, .checkRoom]

theorem stalledEvents_not_sound : ∃ s, run (step false) (opened fun _ => 0) stalledEvents = some s ∧
    ¬Sound (preCache fun _ => 0) s := by
  obtain ⟨s, hs⟩ := Option.isSome_iff_exists.mp
    (by decide +kernel : (run (step false) (opened fun _ => 0) stalledEvents).isSome)
  have hlossless : ∀ behind : Nat → Nat,
      (opened behind).placed ++ (opened behind).hand = preCache behind ++ (opened behind).taken .vp := fun behind => by
    simp only [opened, State.hand]
  refine ⟨s, hs, fun hsound => ?_⟩
  have halong := (run_lossless_iff (opened_streams false _) (hlossless _) hs).mp hsound
  exact absurd halong (by decide +kernel)

end Best1307.ScoReframe
