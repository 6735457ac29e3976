import Best1307.Audio.CpOutFrames
import Best1307.Audio.InCache

/-!
# The pipe of the A2DP source encoder

`a2dp_encoder_cp.c`: the main core puts frames into a cache for the encoder core, and gets the encoded ones back from a
ring of three. The cache is that of the decoder with frames in one piece, and the ring is that of the decoder; here both
are there at the same time. No reset is asked for in between.

A put is refused when more frames are buffered than `max_buffer_frames`, so that it is not refused when there are as
many.
-/

namespace Best1307.EncodeCp

open WrapBuffer
open InCache (Config defaultConfig)
open CpOutFrames (ProcDelay HandsOver)

variable {cfg : Config} {α : Type*}

/-- What `a2dp_encode_cp_put_in_frame` is given. Like the cache, and apart from it, it lies in a 32-bit address space.
-/
structure Frame (cfg : Config) where
  buf1 : List UInt8
  inMemory : buf1.length + cfg.cacheSize ≤ 2 ^ 32
  deriving DecidableEq

def Frame.pieces (frame : Frame cfg) : InCache.Frame cfg := ⟨frame.buf1, [], frame.inMemory⟩

/-- An access of `a2dp_encode_cp_put_in_frame`, or one of the other two functions of the cache -/
inductive InEvent (cfg : Config)
  | put (frame : Frame cfg)
  | putPos
  | putInfo
  | putCopy
  | putDone
  | get
  | consume
  deriving DecidableEq

/-- `a2dp_encode_cp_put_in_frame`, `a2dp_encode_cp_get_in_frame` and `a2dp_encode_cp_consume_in_frame`. There is one
copy, as there is nothing in the second piece. -/
def inStep (s : InCache.State cfg) : InEvent cfg → Option (InCache.State cfg)
  | .put frame => InCache.step s (.put frame.pieces)
  | .putPos => InCache.step s .putPos
  | .putInfo => InCache.step s .putInfo
  | .putCopy => (InCache.step s .putCopy1).bind fun s => InCache.step s .putCopy2
  | .putDone => InCache.step s .putDone
  | .get => InCache.step s .get
  | .consume => InCache.step s .consume

def InEvent.isPut : InEvent cfg → Bool
  | .put _ | .putPos | .putInfo | .putCopy | .putDone => true
  | .get | .consume => false

/-- The functions of the output frames, `a2dp_encode_cp_get_emtpy_out_frame` and the others, access by access -/
def outStep (s : CpOutFrames.State α) (e : CpOutFrames.Event α) : Option (CpOutFrames.State α) := CpOutFrames.step s e

/-- Both directions; the flag `reset_frames` is told in both, and is never set here. -/
structure State (cfg : Config) (α : Type*) where
  input : InCache.State cfg
  output : CpOutFrames.State α

def resetFrameInfo (delay : ProcDelay) (s : State cfg α) : State cfg α where
  input := InCache.State.resetFrameInfo s.input.inFrames s.input.cpInCache
  output := CpOutFrames.resetFrameInfo delay s.output

inductive Event (cfg : Config) (α : Type*)
  | input (e : InEvent cfg)
  | output (e : CpOutFrames.Event α)

def step (s : State cfg α) : Event cfg α → Option (State cfg α)
  | .input e => (inStep s.input e).map fun input => { s with input := input }
  | .output e => (outStep s.output e).map fun output => { s with output := output }

/-- The frames are held as in the cache of the decoder, and no more of them than may be buffered. With fewer of them a
frame for which there is a place is entered behind the others, whatever the encoder core does meanwhile; one for which
there is none is refused and leaves all as it is. -/
structure Keeps (s : InCache.State cfg) (blocks : List (Block UInt8)) : Prop extends InCache.Holds s blocks where
  few : blocks.length ≤ cfg.maxBufferFrames.toNat
  enters : ∀ (frame : Frame cfg) (events : List (InEvent cfg)), s.producer = .idle → s.resetFrames = false →
    blocks.length < cfg.maxBufferFrames.toNat → InCache.HasPlace cfg blocks frame.buf1.length →
    events.filter InEvent.isPut = [.putPos, .putInfo, .putCopy, .putDone] →
    ∃ s', run inStep s (.put frame :: events) = some s' ∧ s'.accepted = s.accepted ++ [frame.buf1] ∧ s'.putRet = 0
  refuses : ∀ frame : Frame cfg, s.producer = .idle → s.resetFrames = false →
    ¬ InCache.HasPlace cfg blocks frame.buf1.length →
    ∃ ret, ret ≠ 0 ∧ run inStep s [.put frame, .putPos] = some { s with putRet := ret }

/-- Both directions are in order, and no more frames are buffered than may be. -/
structure Meets (delay : ProcDelay) (s : State cfg α) : Prop where
  input : ∃ blocks, Keeps s.input blocks
  output : HandsOver delay s.output

/-- The checks of a put do not come when as many frames are buffered as there may be. -/
def NotAtLimit (s : State cfg α) : Event cfg α → Prop
  | .input .putPos => InCache.getInFrameCnt cfg s.input.cpInWidx s.input.cpInRidx ≠ cfg.maxBufferFrames.toNat
  | _ => True

instance (s : State cfg α) : (e : Event cfg α) → Decidable (NotAtLimit s e)
  | .input .putPos => inferInstanceAs (Decidable (_ ≠ _))
  | .input (.put _) => inferInstanceAs (Decidable True)
  | .input .putInfo => inferInstanceAs (Decidable True)
  | .input .putCopy => inferInstanceAs (Decidable True)
  | .input .putDone => inferInstanceAs (Decidable True)
  | .input .get => inferInstanceAs (Decidable True)
  | .input .consume => inferInstanceAs (Decidable True)
  | .output _ => inferInstanceAs (Decidable True)

/-! ### How many frames are buffered -/

section Few

variable {s s' : InCache.State cfg}

/-- A put that has passed its checks has found fewer frames than there may be, and the encoder core only takes some
away. -/
structure Few (s : InCache.State cfg) : Prop where
  le : s.accepted.length - s.consumed ≤ cfg.maxBufferFrames.toNat
  lt : s.producer.writing ≠ [] → s.accepted.length - s.consumed < cfg.maxBufferFrames.toNat

theorem Few.congr (h : Few s) (haccepted : s'.accepted = s.accepted) (hconsumed : s.consumed ≤ s'.consumed)
    (hwriting : s'.producer.writing ≠ [] → s.producer.writing ≠ []) : Few s' where
  le := by
    have := h.le
    rw [haccepted]
    omega
  lt := fun hne => by
    have := h.lt (hwriting hne)
    rw [haccepted]
    omega

/-- The checks let a put through only with fewer frames, unless there are exactly as many. -/
theorem Few.putPos (hinv : InCache.Inv s) (h : Few s)
    (hlimit : InCache.getInFrameCnt cfg s.cpInWidx s.cpInRidx ≠ cfg.maxBufferFrames.toNat)
    (hstep : InCache.step s .putPos = some s') : Few s' := by
  simp only [InCache.step] at hstep
  split at hstep
  · split at hstep
    · obtain rfl := Option.some.inj hstep
      exact h.congr rfl (Nat.le_refl _) fun hne => absurd rfl hne
    · rename_i hpos
      obtain rfl := Option.some.inj hstep
      rw [InCache.State.putPos] at hpos
      split at hpos
      case isTrue => cases hpos
      case isFalse hle =>
        refine ⟨h.le, fun _ => ?_⟩
        obtain ⟨base, front, back, hring, -⟩ := hinv
        rw [hring.getInFrameCnt_eq] at hle hlimit
        change s.accepted.length - s.consumed < _
        omega
  · cases hstep

theorem Few.putDone (h : Few s) (hstep : InCache.step s .putDone = some s') : Few s' := by
  simp only [InCache.step] at hstep
  split at hstep
  · rename_i hproducer
    obtain rfl := Option.some.inj hstep
    have hlt := h.lt (by rw [hproducer]; exact List.cons_ne_nil _ _)
    refine ⟨?_, fun hne => absurd rfl hne⟩
    change (s.accepted ++ [_]).length - s.consumed ≤ _
    rw [List.length_append, List.length_singleton]
    omega
  · cases hstep

theorem Few.inStep {e : InEvent cfg} (hinv : InCache.Inv s) (h : Few s)
    (hlimit : e = .putPos → InCache.getInFrameCnt cfg s.cpInWidx s.cpInRidx ≠ cfg.maxBufferFrames.toNat)
    (hstep : EncodeCp.inStep s e = some s') : Few s' := by
  cases e with
  | put frame =>
      simp only [EncodeCp.inStep, InCache.step] at hstep
      split at hstep
      · split at hstep
        · obtain rfl := Option.some.inj hstep
          exact h.congr rfl (Nat.le_refl _) id
        · obtain rfl := Option.some.inj hstep
          exact h.congr rfl (Nat.le_refl _) fun hne => absurd rfl hne
      · cases hstep
  | putPos => exact h.putPos hinv (hlimit rfl) hstep
  | putInfo =>
      simp only [EncodeCp.inStep, InCache.step] at hstep
      split at hstep
      · rename_i hproducer
        obtain rfl := Option.some.inj hstep
        exact h.congr rfl (Nat.le_refl _) fun _ => by rw [hproducer]; exact List.cons_ne_nil _ _
      · cases hstep
  | putCopy =>
      simp only [EncodeCp.inStep, InCache.step] at hstep
      split at hstep
      · rename_i hproducer
        obtain rfl := Option.some.inj hstep
        exact h.congr rfl (Nat.le_refl _) fun _ => by rw [hproducer]; exact List.cons_ne_nil _ _
      · cases hstep
  | putDone => exact h.putDone hstep
  | get =>
      simp only [EncodeCp.inStep, InCache.step] at hstep
      split at hstep <;> obtain rfl := Option.some.inj hstep
      · exact h
      · exact h.congr rfl (Nat.le_refl _) id
  | consume =>
      obtain rfl := Option.some.inj hstep
      rw [InCache.State.a2dpCpConsumeInFrame]
      split
      · exact h
      split
      · exact h
      · exact h.congr rfl (Nat.le_succ _) id

theorem inv_inStep {e : InEvent cfg} (h : InCache.Inv s) (hstep : inStep s e = some s') : InCache.Inv s' := by
  cases e <;> rw [inStep] at hstep
  case putCopy =>
    obtain ⟨s₁, hfirst, hsecond⟩ := Option.bind_eq_some_iff.mp hstep
    exact (h.step hfirst).step hsecond
  all_goals exact h.step hstep

/-- The accesses of the decoder's cache that an access here comes to -/
def InEvent.accesses : InEvent cfg → List (InCache.Event cfg)
  | .put frame => [.put frame.pieces]
  | .putPos => [.putPos]
  | .putInfo => [.putInfo]
  | .putCopy => [.putCopy1, .putCopy2]
  | .putDone => [.putDone]
  | .get => [.get]
  | .consume => [.consume]

theorem inStep_eq_run (s : InCache.State cfg) (e : InEvent cfg) :
    EncodeCp.inStep s e = run InCache.step s e.accesses := by
  cases e <;> simp only [EncodeCp.inStep, InEvent.accesses, run_cons, run_nil, Option.bind_fun_some]

theorem run_inStep_eq (s : InCache.State cfg) (events : List (InEvent cfg)) :
    run EncodeCp.inStep s events = run InCache.step s (events.flatMap InEvent.accesses) := by
  induction events generalizing s with
  | nil => rfl
  | cons e events ih =>
      rw [run_cons, List.flatMap_cons, run_append, inStep_eq_run]
      exact congrArg _ (funext ih)

theorem filter_flatMap_accesses (events : List (InEvent cfg)) :
    (events.flatMap InEvent.accesses).filter InCache.Event.isPut =
      (events.filter InEvent.isPut).flatMap InEvent.accesses := by
  induction events with
  | nil => rfl
  | cons e events ih =>
      rw [List.flatMap_cons, List.filter_append, ih]
      cases e <;> rfl

theorem Few.keeps (hinv : InCache.Inv s) (h : Few s) : ∃ blocks, Keeps s blocks := by
  obtain ⟨blocks, hkeeps⟩ := hinv.exists_blocks
  have hlen := congrArg List.length hkeeps.inOrder
  obtain ⟨base, front, back, hring, -⟩ := hinv
  have htaken : s.taken.length = s.consumed := by
    rw [hring.taken, List.length_take, Nat.min_eq_left hring.consumed_le]
  rw [List.length_append, List.length_map, htaken] at hlen
  have hle := h.le
  refine ⟨blocks, hkeeps.toHolds, by omega, fun frame events hidle hreset hfew hplace hevents => ?_,
    fun frame hidle hreset hplace => ?_⟩
  · have hpieces : (events.flatMap InEvent.accesses).filter InCache.Event.isPut =
        [.putPos, .putInfo, .putCopy1, .putCopy2, .putDone] := by
      rw [filter_flatMap_accesses, hevents]
      rfl
    obtain ⟨s', hrun, haccepted, hret⟩ :=
      hkeeps.enters frame.pieces _ hidle hreset ⟨Nat.le_of_lt hfew, hplace⟩ hpieces
    refine ⟨s', (run_inStep_eq s _).trans hrun, ?_, hret⟩
    rw [haccepted]
    exact congrArg (s.accepted ++ [·]) (List.append_nil frame.buf1)
  · obtain ⟨ret, hret, hrun⟩ := hkeeps.refuses frame.pieces hidle hreset fun hroom => hplace hroom.2
    exact ⟨ret, hret, (run_inStep_eq s _).trans hrun⟩

end Few

/-! ### Every run -/

section Run

variable {delay : ProcDelay} {s s' t : State cfg α}

structure Inv (delay : ProcDelay) (s : State cfg α) : Prop where
  input : InCache.Inv s.input
  few : Few s.input
  output : CpOutFrames.Inv delay s.output

theorem inv_resetFrameInfo (delay : ProcDelay) (s : State cfg α) : Inv delay (resetFrameInfo delay s) where
  input := InCache.inv_resetFrameInfo s.input.inFrames s.input.cpInCache
  few := ⟨Nat.zero_le _, fun hne => absurd rfl hne⟩
  output := CpOutFrames.resetFrameInfo_inv delay s.output

theorem Inv.step {e : Event cfg α} (h : Inv delay s) (hlimit : NotAtLimit s e)
    (hstep : EncodeCp.step s e = some s') : Inv delay s' := by
  cases e with
  | input e =>
      obtain ⟨input, hinput, rfl⟩ := Option.map_eq_some_iff.mp hstep
      exact ⟨inv_inStep h.input hinput, h.few.inStep h.input (fun he => by subst he; exact hlimit) hinput, h.output⟩
  | output e =>
      obtain ⟨output, houtput, rfl⟩ := Option.map_eq_some_iff.mp hstep
      exact ⟨h.input, h.few, CpOutFrames.step_inv h.output houtput⟩

/-- As long as no put is checked at the limit, every state that is reached is in order. -/
theorem encodeCp_works (delay : ProcDelay) (s₀ : State cfg α) (events : List (Event cfg α))
    (hlimit : Along step NotAtLimit (resetFrameInfo delay s₀) events)
    (hrun : run step (resetFrameInfo delay s₀) events = some t) : Meets delay t := by
  have h : Inv delay t := run_invariant_along (Inv delay) (fun _ _ _ hs he hstep => hs.step he hstep) hlimit
    (inv_resetFrameInfo delay s₀) hrun
  exact ⟨h.few.keeps h.input, h.output.handsOver⟩

end Run

/-! ### One frame, and one frame too many

`CP_IN_CACHE_SIZE`, `CP_IN_FRAME_CNT` and `max_buffer_frames` are at first what they are in the decoder. -/

def freshState : State defaultConfig Nat where
  input := InCache.State.resetFrameInfo (fun _ => ⟨0, 0⟩) fun _ => 0
  output := CpOutFrames.resetFrameInfo .frames2 ⟨fun _ => .idle, fun _ => 0, 0, 0, true, .outside, .outside, [], []⟩

def putEvents (buf1 : List UInt8) (h : buf1.length + defaultConfig.cacheSize ≤ 2 ^ 32) :
    List (Event defaultConfig Nat) :=
  [.input (.put ⟨buf1, h⟩), .input .putPos, .input .putInfo, .input .putCopy, .input .putDone]

/-- A frame goes through both directions. -/
def oneFrame : List (Event defaultConfig Nat) :=
  putEvents [1, 2, 3] (by decide) ++ [.input .get, .output .getEmpty, .output .markWorking, .output (.fill 7),
    .input .consume, .output .consumeEmpty, .output .markDone, .output .advanceWidx, .output .getFull]

theorem encodeCp_works_oneFrame :
    ∃ t, run step (resetFrameInfo .frames2 freshState) oneFrame = some t ∧ t.input.accepted = [[1, 2, 3]] ∧
      t.input.taken = [[1, 2, 3]] ∧ Meets .frames2 t := by
  have hlogs : (run step (resetFrameInfo .frames2 freshState) oneFrame).map
      (fun t => (t.input.accepted, t.input.taken)) = some ([[1, 2, 3]], [[1, 2, 3]]) := by decide
  obtain ⟨t, hrun, hlogs⟩ := Option.map_eq_some_iff.mp hlogs
  obtain ⟨haccepted, htaken⟩ := Prod.mk.inj hlogs
  exact ⟨t, hrun, haccepted, htaken, encodeCp_works .frames2 freshState oneFrame (by decide) hrun⟩

/-- Three frames, and the encoder core does not come. -/
def threeFrames : List (Event defaultConfig Nat) :=
  putEvents [1, 2, 3] (by decide) ++ putEvents [4] (by decide) ++ putEvents [5, 6] (by decide)

theorem not_meets_threeFrames :
    ∃ t, run step (resetFrameInfo .frames2 freshState) threeFrames = some t ∧ ¬ Meets .frames2 t := by
  have hrun : ∃ t, run step (resetFrameInfo .frames2 freshState) threeFrames = some t ∧
      t.input.accepted.length = 3 ∧ t.input.taken.length = 0 := ⟨_, rfl, rfl, rfl⟩
  obtain ⟨t, hrun, haccepted, htaken⟩ := hrun
  refine ⟨t, hrun, fun hmeets => ?_⟩
  obtain ⟨blocks, hblocks⟩ := hmeets.input
  have hlen := congrArg List.length hblocks.inOrder
  have hfew : blocks.length ≤ 2 := hblocks.few
  rw [List.length_append, List.length_map] at hlen
  omega

end Best1307.EncodeCp
