import Mathlib.Logic.Function.Basic
import Best1307.Lib.Run
import Best1307.Lib.SlotRing

/-!
# The frames the decoder core puts out

The decoder core fills the frames of a small ring one after the other, the main core plays them. A frame has a state of
its own, and each core goes round with an index only it uses; whose turn it is with a frame is said by its state alone.
At the beginning the main core is one or two frames behind, and these are marked as done without anything in them.

The cores run at the same time. Every function looks at the state of one frame and changes it later, if at all; a step
here is one such access, so that the other core may come in between.
-/

namespace Best1307.CpOutFrames

open SlotRing

def cpOutFrameCnt : Nat := 3

/-- `CP_DEC_STATE_T` -/
inductive DecState
  | idle | working | done | initDone
  deriving DecidableEq, Repr

/-- `CP_PROC_DELAY_T` -/
inductive ProcDelay
  | frame0 | frame1 | frames2
  deriving DecidableEq, Repr

/-- The frames the decoder core may fill at first. -/
def ProcDelay.idleCnt : ProcDelay → Nat
  | .frame0 => cpOutFrameCnt
  | .frame1 => cpOutFrameCnt - 1
  | .frames2 => cpOutFrameCnt - 2

/-- Where the decoder core is: outside of the functions, in `a2dp_cp_get_emtpy_out_frame` before an idle frame is
marked, filling the frame, in `a2dp_cp_consume_emtpy_out_frame` before the frame is marked, and there before the index
goes on. -/
inductive DecPc
  | outside | claiming | filling | releasing | advancing
  deriving DecidableEq, Repr

/-- Where the main core is: outside, playing a frame, and the same two points of `a2dp_cp_consume_full_out_frame`. -/
inductive MainPc
  | outside | playing | releasing | advancing
  deriving DecidableEq, Repr

/-- The frames with what is in their part of `cp_out_cache`, the indexes, and where the cores are. `produced` are the
frames the decoder core has released, `delivered` those the main core has; without anything in it a frame is `none`. -/
structure State (α : Type*) where
  state : Nat → DecState
  cache : Nat → α
  outWidx : Nat
  outRidx : Nat
  resetFrames : Bool
  dec : DecPc
  main : MainPc
  produced : List α
  delivered : List (Option α)

variable {α : Type*}

def next (idx : Nat) : Nat := if cpOutFrameCnt ≤ idx + 1 then idx + 1 - cpOutFrameCnt else idx + 1

/-- What the main core gets of a frame: its part of the cache, or `NULL` for a frame of the delay. -/
def State.content (s : State α) (idx : Nat) : Option α := if s.state idx = .done then some (s.cache idx) else none

/-- `reset_frame_info`; both cores are outside, and counting begins anew. -/
def resetFrameInfo (delay : ProcDelay) (s : State α) : State α where
  state := fun i => if i < delay.idleCnt then .idle else .initDone
  cache := s.cache
  outWidx := 0
  outRidx := delay.idleCnt % cpOutFrameCnt
  resetFrames := false
  dec := .outside
  main := .outside
  produced := []
  delivered := []

/-- An access of one of the cores, or what it does between the functions. -/
inductive Event (α : Type*)
  | getEmpty | markWorking | fill (x : α) | leave | consumeEmpty | markDone | advanceWidx
  | getFull | stop | consumeFull | markIdle | advanceRidx

def State.setState (s : State α) (idx : Nat) (st : DecState) : State α :=
  { s with state := Function.update s.state idx st }

/-- A core that is elsewhere has no next step of that kind. -/
def step (s : State α) : Event α → Option (State α)
  | .getEmpty =>
      if s.dec = .outside then
        if s.resetFrames then some s
        else
          match s.state s.outWidx with
          | .idle => some { s with dec := .claiming }
          | .working => some { s with dec := .filling }
          | .done | .initDone => some s
      else none
  | .markWorking =>
      if s.dec = .claiming then some { s.setState s.outWidx .working with dec := .filling } else none
  | .fill x =>
      if s.dec = .filling then some { s with cache := Function.update s.cache s.outWidx x } else none
  | .leave => if s.dec = .filling then some { s with dec := .outside } else none
  | .consumeEmpty =>
      if s.dec = .filling then
        if s.resetFrames then some { s with dec := .outside }
        else if s.state s.outWidx ≠ .working then some { s with dec := .outside }
        else some { s with dec := .releasing }
      else none
  | .markDone =>
      if s.dec = .releasing then
        some { s.setState s.outWidx .done with
          dec := .advancing
          produced := s.produced ++ [s.cache s.outWidx] }
      else none
  | .advanceWidx =>
      if s.dec = .advancing then some { s with outWidx := next s.outWidx, dec := .outside } else none
  | .getFull =>
      if s.main = .outside then
        if s.resetFrames then some s
        else if s.state s.outRidx ≠ .done ∧ s.state s.outRidx ≠ .initDone then some s
        else some { s with main := .playing }
      else none
  | .stop => if s.main = .playing then some { s with main := .outside } else none
  | .consumeFull =>
      if s.main = .playing then
        if s.resetFrames then some { s with main := .outside }
        else if s.state s.outRidx ≠ .done ∧ s.state s.outRidx ≠ .initDone then some { s with main := .outside }
        else some { s with main := .releasing }
      else none
  | .markIdle =>
      if s.main = .releasing then
        some { s.setState s.outRidx .idle with
          main := .advancing
          delivered := s.delivered ++ [s.content s.outRidx] }
      else none
  | .advanceRidx =>
      if s.main = .advancing then some { s with outRidx := next s.outRidx, main := .outside } else none

attribute [local simp] step

/-! ### Positions

The frames are numbered in the order they are used: the first turn of the decoder core is number 3, so that the frames
of the delay come right before it. Frame `k` lies at `k % 3`. -/

/-- The number of the frame the decoder core is at, or comes to once it has gone on. -/
def State.writePos (s : State α) : Nat := cpOutFrameCnt + s.produced.length

def State.readPos (delay : ProcDelay) (s : State α) : Nat := delay.idleCnt + s.delivered.length

/-- What the main core should get, in order: the frames of the delay, then those that are decoded. -/
def State.expected (delay : ProcDelay) (s : State α) : List (Option α) :=
  List.replicate (cpOutFrameCnt - delay.idleCnt) none ++ s.produced.map some

/-- What the frames hold: those the decoder core has released wait for the main core, and the others are idle, except
that the decoder core may work on its own. -/
structure Ring (delay : ProcDelay) (s : State α) : Prop where
  le : s.readPos delay ≤ s.writePos
  room : s.writePos ≤ s.readPos delay + cpOutFrameCnt
  full : ∀ k, s.readPos delay ≤ k → k < s.writePos →
    (s.state (k % cpOutFrameCnt) = .done ∨ s.state (k % cpOutFrameCnt) = .initDone) ∧
      (s.expected delay)[k - delay.idleCnt]? = some (s.content (k % cpOutFrameCnt))
  free : ∀ k, s.writePos ≤ k → k < s.readPos delay + cpOutFrameCnt →
    s.state (k % cpOutFrameCnt) = .idle ∨ k = s.writePos ∧ s.state (k % cpOutFrameCnt) = .working
  inOrder : s.delivered = (s.expected delay).take s.delivered.length

/-- The decoder core is at a frame that is free. -/
structure DecInv (delay : ProcDelay) (s : State α) : Prop where
  widx : s.outWidx = (if s.dec = .advancing then s.writePos - 1 else s.writePos) % cpOutFrameCnt
  claiming : s.dec = .claiming → s.writePos < s.readPos delay + cpOutFrameCnt
  working : s.dec = .filling ∨ s.dec = .releasing →
    s.writePos < s.readPos delay + cpOutFrameCnt ∧ s.state (s.writePos % cpOutFrameCnt) = .working
  started : s.dec = .advancing → 0 < s.produced.length

/-- The main core is at a frame that is full. -/
structure MainInv (delay : ProcDelay) (s : State α) : Prop where
  ridx : s.outRidx = (if s.main = .advancing then s.readPos delay - 1 else s.readPos delay) % cpOutFrameCnt
  holding : s.main = .playing ∨ s.main = .releasing → s.readPos delay < s.writePos
  begun : s.main = .advancing → 0 < s.delivered.length

structure Inv (delay : ProcDelay) (s : State α) : Prop where
  noReset : s.resetFrames = false
  ring : Ring delay s
  dec : DecInv delay s
  main : MainInv delay s

variable {delay : ProcDelay} {s s' : State α}

theorem idleCnt_bounds (delay : ProcDelay) : 0 < delay.idleCnt ∧ delay.idleCnt ≤ cpOutFrameCnt := by
  cases delay <;> decide

theorem next_mod (k : Nat) : next (k % cpOutFrameCnt) = (k + 1) % cpOutFrameCnt := by
  have hlt : k % cpOutFrameCnt < 3 := Nat.mod_lt k (by decide)
  have hcnt : cpOutFrameCnt = 3 := rfl
  rw [next, succ_mod (by decide)]
  split <;> omega

theorem expected_length (delay : ProcDelay) (s : State α) :
    (s.expected delay).length + delay.idleCnt = s.writePos := by
  have hidle := (idleCnt_bounds delay).2
  rw [State.expected, State.writePos, List.length_append, List.length_replicate, List.length_map]
  omega

theorem resetFrameInfo_inv (delay : ProcDelay) (s : State α) : Inv delay (resetFrameInfo delay s) := by
  obtain ⟨hpos, hidle⟩ := idleCnt_bounds delay
  have hcnt : cpOutFrameCnt = 3 := rfl
  have hwrite : (resetFrameInfo delay s).writePos = cpOutFrameCnt := rfl
  have hread : (resetFrameInfo delay s).readPos delay = delay.idleCnt := rfl
  have hdec : (resetFrameInfo delay s).dec ≠ .advancing := fun h => by cases h
  have hmain : (resetFrameInfo delay s).main ≠ .advancing := fun h => by cases h
  refine ⟨rfl, ⟨?_, ?_, ?_, ?_, ?_⟩, ⟨?_, ?_, ?_, hdec.elim⟩, ⟨?_, ?_, hmain.elim⟩⟩
  · omega
  · omega
  · intro k hlo hhi
    rw [hread] at hlo
    rw [hwrite] at hhi
    have hinit : (resetFrameInfo delay s).state (k % cpOutFrameCnt) = .initDone := by
      rw [Nat.mod_eq_of_lt hhi]
      exact if_neg (Nat.not_lt.mpr hlo)
    have hnone : (resetFrameInfo delay s).content (k % cpOutFrameCnt) = none := by
      rw [State.content, hinit]
      exact if_neg (by decide)
    refine ⟨.inr hinit, ?_⟩
    rw [hnone]
    show (List.replicate (cpOutFrameCnt - delay.idleCnt) none ++ [])[k - delay.idleCnt]? = some none
    rw [List.append_nil, List.getElem?_replicate, if_pos (by omega)]
  · intro k hlo hhi
    rw [hwrite] at hlo
    rw [hread] at hhi
    have hmod : k % cpOutFrameCnt = k - 3 := by
      show k % 3 = k - 3
      omega
    rw [hmod]
    exact .inl (if_pos (by omega))
  · rfl
  · rw [if_neg hdec, hwrite]
    rfl
  · exact fun h => by cases h
  · exact fun h => by rcases h with h | h <;> cases h
  · rw [if_neg hmain, hread]
    rfl
  · exact fun h => by rcases h with h | h <;> cases h

/-! ### What an access does to the ring -/

/-- The decoder core changes the state or the cache of the frame it is at, and that frame is not full. -/
theorem Ring.at_writePos (hs : Ring delay s) (hroom : s.writePos < s.readPos delay + cpOutFrameCnt) {st : DecState}
    (hst : st = .idle ∨ st = .working) (hstate : s'.state = Function.update s.state (s.writePos % cpOutFrameCnt) st)
    (hcache : ∀ i, i ≠ s.writePos % cpOutFrameCnt → s'.cache i = s.cache i) (hproduced : s'.produced = s.produced)
    (hdelivered : s'.delivered = s.delivered) : Ring delay s' := by
  have hwrite : s'.writePos = s.writePos := by rw [State.writePos, hproduced, State.writePos]
  have hread : s'.readPos delay = s.readPos delay := by rw [State.readPos, hdelivered, State.readPos]
  have hexpected : s'.expected delay = s.expected delay := by rw [State.expected, hproduced, State.expected]
  have hother : ∀ k, s.readPos delay ≤ k → k < s.readPos delay + cpOutFrameCnt → k ≠ s.writePos →
      s'.state (k % cpOutFrameCnt) = s.state (k % cpOutFrameCnt) ∧
        s'.content (k % cpOutFrameCnt) = s.content (k % cpOutFrameCnt) := fun k hlo hhi hne => by
    have hslot := mod_ne hlo hhi hs.le hroom hne
    have hsame : s'.state (k % cpOutFrameCnt) = s.state (k % cpOutFrameCnt) := by
      rw [hstate, Function.update_of_ne hslot]
    rw [State.content, State.content, hsame, hcache _ hslot]
    exact ⟨rfl, rfl⟩
  refine ⟨by rw [hwrite, hread]; exact hs.le, by rw [hwrite, hread]; exact hs.room, ?_, ?_, ?_⟩
  · intro k hlo hhi
    rw [hread] at hlo
    rw [hwrite] at hhi
    obtain ⟨hsame, hcontent⟩ := hother k hlo (by omega) (by omega)
    rw [hexpected, hcontent, hsame]
    exact hs.full k hlo hhi
  · intro k hlo hhi
    rw [hwrite] at hlo
    rw [hread] at hhi
    rw [hwrite]
    by_cases hk : k = s.writePos
    · rw [hk, hstate, Function.update_self]
      exact hst.imp id fun hworking => ⟨rfl, hworking⟩
    · have hle := hs.le
      rw [(hother k (by omega) hhi hk).1]
      exact hs.free k hlo hhi
  · rw [hexpected, hdelivered]
    exact hs.inOrder

theorem Ring.markDone (hs : Ring delay s) (hroom : s.writePos < s.readPos delay + cpOutFrameCnt)
    (hstate : s'.state = Function.update s.state (s.writePos % cpOutFrameCnt) .done) (hcache : s'.cache = s.cache)
    (hproduced : s'.produced = s.produced ++ [s.cache (s.writePos % cpOutFrameCnt)])
    (hdelivered : s'.delivered = s.delivered) : Ring delay s' := by
  have hle := hs.le
  have hlength := expected_length delay s
  have hwrite : s'.writePos = s.writePos + 1 := by
    rw [State.writePos, hproduced, List.length_append, State.writePos]
    rfl
  have hread : s'.readPos delay = s.readPos delay := by rw [State.readPos, hdelivered, State.readPos]
  have hexpected : s'.expected delay = s.expected delay ++ [some (s.cache (s.writePos % cpOutFrameCnt))] := by
    rw [State.expected, hproduced, List.map_append, State.expected, List.append_assoc]
    rfl
  have hother : ∀ k, s.readPos delay ≤ k → k < s.readPos delay + cpOutFrameCnt → k ≠ s.writePos →
      s'.state (k % cpOutFrameCnt) = s.state (k % cpOutFrameCnt) := fun k hlo hhi hne => by
    rw [hstate, Function.update_of_ne (mod_ne hlo hhi hs.le hroom hne)]
  refine ⟨by omega, by omega, ?_, ?_, ?_⟩
  · intro k hlo hhi
    rw [hread] at hlo
    by_cases hk : k = s.writePos
    · have hdone : s'.state (k % cpOutFrameCnt) = .done := by rw [hk, hstate, Function.update_self]
      have hlast : k - delay.idleCnt = (s.expected delay).length := by omega
      refine ⟨.inl hdone, ?_⟩
      rw [hexpected, hlast, List.getElem?_concat_length, State.content, if_pos hdone, hcache, hk]
    · have hsame := hother k hlo (by omega) hk
      obtain ⟨hfull, hitem⟩ := hs.full k hlo (by omega)
      have hidle : delay.idleCnt ≤ s.readPos delay := Nat.le_add_right _ _
      rw [hsame, State.content, hsame, hcache, hexpected]
      refine ⟨hfull, ?_⟩
      rw [List.getElem?_append_left (by omega)]
      exact hitem
  · intro k hlo hhi
    rw [hread] at hhi
    rw [hother k (by omega) hhi (by omega)]
    rcases hs.free k (by omega) hhi with hidle | ⟨hk, -⟩
    · exact .inl hidle
    · omega
  · have hdone : s.delivered.length ≤ (s.expected delay).length := by
      have hread' : s.readPos delay = delay.idleCnt + s.delivered.length := rfl
      omega
    rw [hexpected, hdelivered, List.take_append_of_le_length hdone]
    exact hs.inOrder

theorem Ring.markIdle (hs : Ring delay s) (hfull : s.readPos delay < s.writePos)
    (hstate : s'.state = Function.update s.state (s.readPos delay % cpOutFrameCnt) .idle) (hcache : s'.cache = s.cache)
    (hproduced : s'.produced = s.produced)
    (hdelivered : s'.delivered = s.delivered ++ [s.content (s.readPos delay % cpOutFrameCnt)]) : Ring delay s' := by
  have hroom := hs.room
  have hlt : s.readPos delay < s.readPos delay + cpOutFrameCnt := Nat.lt_add_of_pos_right (by decide)
  have hwrite : s'.writePos = s.writePos := by rw [State.writePos, hproduced, State.writePos]
  have hread : s'.readPos delay = s.readPos delay + 1 := by
    rw [State.readPos, hdelivered, List.length_append, State.readPos]
    rfl
  have hexpected : s'.expected delay = s.expected delay := by rw [State.expected, hproduced, State.expected]
  have hother : ∀ k, s.readPos delay < k → k < s.readPos delay + cpOutFrameCnt →
      s'.state (k % cpOutFrameCnt) = s.state (k % cpOutFrameCnt) := fun k hlo hhi => by
    rw [hstate, Function.update_of_ne (mod_ne (Nat.le_of_lt hlo) hhi (Nat.le_refl _) hlt (Nat.ne_of_gt hlo))]
  refine ⟨by omega, by omega, ?_, ?_, ?_⟩
  · intro k hlo hhi
    have hsame := hother k (by omega) (by omega)
    rw [State.content, hsame, hcache, hexpected]
    exact hs.full k (by omega) (by omega)
  · intro k hlo hhi
    rw [hwrite]
    by_cases hk : k = s.readPos delay + cpOutFrameCnt
    · rw [hk, Nat.add_mod_right, hstate, Function.update_self]
      exact .inl rfl
    · rw [hother k (by omega) (by omega)]
      exact hs.free k (by omega) (by omega)
  · have hitem := (hs.full _ (Nat.le_refl _) hfull).2
    have hindex : s.readPos delay - delay.idleCnt = s.delivered.length := Nat.add_sub_cancel_left _ _
    rw [hindex] at hitem
    rw [hdelivered, List.length_append, List.length_singleton, hexpected, List.take_add_one, hitem, ← hs.inOrder]
    rfl

/-! ### The other core -/

theorem Ring.congr (hs : Ring delay s) (hstate : s'.state = s.state) (hcache : s'.cache = s.cache)
    (hproduced : s'.produced = s.produced) (hdelivered : s'.delivered = s.delivered) : Ring delay s' := by
  obtain ⟨hle, hroom, hfull, hfree, hinOrder⟩ := hs
  simp only [State.readPos, State.writePos, State.expected, State.content] at hle hroom hfull hfree hinOrder
  constructor <;>
    simp only [State.readPos, State.writePos, State.expected, State.content, hstate, hcache, hproduced, hdelivered]
  · exact hle
  · exact hroom
  · exact hfull
  · exact hfree
  · exact hinOrder

theorem DecInv.congr (hs : DecInv delay s) (hwidx : s'.outWidx = s.outWidx) (hdec : s'.dec = s.dec)
    (hproduced : s'.produced = s.produced) (hread : s.readPos delay ≤ s'.readPos delay)
    (hstate : s.writePos < s.readPos delay + cpOutFrameCnt →
      s'.state (s.writePos % cpOutFrameCnt) = s.state (s.writePos % cpOutFrameCnt)) : DecInv delay s' := by
  have hwrite : s'.writePos = s.writePos := by rw [State.writePos, hproduced, State.writePos]
  refine ⟨?_, ?_, ?_, ?_⟩
  · rw [hwidx, hdec, hwrite]
    exact hs.widx
  · intro h
    have hroom := hs.claiming (hdec ▸ h)
    omega
  · intro h
    obtain ⟨hroom, hworking⟩ := hs.working (hdec ▸ h)
    rw [hwrite, hstate hroom]
    exact ⟨by omega, hworking⟩
  · intro h
    rw [hproduced]
    exact hs.started (hdec ▸ h)

theorem MainInv.congr (hs : MainInv delay s) (hridx : s'.outRidx = s.outRidx) (hmain : s'.main = s.main)
    (hdelivered : s'.delivered = s.delivered) (hwrite : s.writePos ≤ s'.writePos) : MainInv delay s' := by
  have hread : s'.readPos delay = s.readPos delay := by rw [State.readPos, hdelivered, State.readPos]
  refine ⟨?_, ?_, ?_⟩
  · rw [hridx, hmain, hread]
    exact hs.ridx
  · intro h
    have hlt := hs.holding (hmain ▸ h)
    omega
  · intro h
    rw [hdelivered]
    exact hs.begun (hmain ▸ h)

/-! ### The steps of the decoder core -/

theorem Inv.not_reset (hs : Inv delay s) : ¬s.resetFrames = true := by
  rw [hs.noReset]
  exact Bool.false_ne_true

theorem Inv.dec_goto (hs : Inv delay s) {pc : DecPc} (hwidx : s.dec ≠ .advancing) (hpc : pc ≠ .advancing)
    (hclaiming : pc = .claiming → s.writePos < s.readPos delay + cpOutFrameCnt)
    (hworking : pc = .filling ∨ pc = .releasing →
      s.writePos < s.readPos delay + cpOutFrameCnt ∧ s.state (s.writePos % cpOutFrameCnt) = .working) :
    Inv delay { s with dec := pc } := by
  have hidx := hs.dec.widx
  rw [if_neg hwidx] at hidx
  refine ⟨hs.noReset, hs.ring.congr rfl rfl rfl rfl, ⟨?_, hclaiming, hworking, hpc.elim⟩,
    hs.main.congr rfl rfl rfl (Nat.le_refl _)⟩
  rw [if_neg hpc]
  exact hidx

/-- The frame at the index of the decoder core, while it is not about to go on, is free if it is idle or working. -/
theorem Inv.free_of_state (hs : Inv delay s)
    (hstate : s.state (s.writePos % cpOutFrameCnt) = .idle ∨ s.state (s.writePos % cpOutFrameCnt) = .working) :
    s.writePos < s.readPos delay + cpOutFrameCnt := by
  by_contra hfull
  have hroom := hs.ring.room
  have hpos : s.readPos delay + cpOutFrameCnt = s.writePos := by omega
  have hlt : s.readPos delay < s.writePos := by
    rw [← hpos]
    exact Nat.lt_add_of_pos_right (by decide)
  have hslot : s.writePos % cpOutFrameCnt = s.readPos delay % cpOutFrameCnt := by rw [← hpos, Nat.add_mod_right]
  have hdone := (hs.ring.full _ (Nat.le_refl _) hlt).1
  rw [← hslot] at hdone
  rcases hstate with h | h <;> rw [h] at hdone <;> rcases hdone with h' | h' <;> cases h'

theorem getEmpty_inv (hs : Inv delay s) (h : step s .getEmpty = some s') : Inv delay s' := by
  have hidx := hs.dec.widx
  rw [step] at h
  split at h
  next hpc =>
    have hgoes : s.dec ≠ .advancing := by rw [hpc]; decide
    rw [if_neg hgoes] at hidx
    rw [if_neg hs.not_reset] at h
    cases hstate : s.state s.outWidx with
    | idle =>
        rw [hstate] at h
        rw [hidx] at hstate
        rw [← Option.some.inj h]
        apply hs.dec_goto hgoes
        · exact fun h => by cases h
        · exact fun _ => hs.free_of_state (.inl hstate)
        · exact fun h => by rcases h with h | h <;> cases h
    | working =>
        rw [hstate] at h
        rw [hidx] at hstate
        rw [← Option.some.inj h]
        apply hs.dec_goto hgoes
        · exact fun h => by cases h
        · exact fun h => by cases h
        · exact fun _ => ⟨hs.free_of_state (.inr hstate), hstate⟩
    | done => rw [hstate] at h; exact Option.some.inj h ▸ hs
    | initDone => rw [hstate] at h; exact Option.some.inj h ▸ hs
  next => cases h

theorem markWorking_inv (hs : Inv delay s) (h : step s .markWorking = some s') : Inv delay s' := by
  have hidx := hs.dec.widx
  rw [step] at h
  split at h
  next hpc =>
    obtain rfl := Option.some.inj h
    rw [if_neg (by rw [hpc]; decide)] at hidx
    have hroom := hs.dec.claiming hpc
    refine ⟨hs.noReset, ?_, ⟨hidx, fun hdec => (by cases hdec), fun _ => ⟨hroom, ?_⟩, fun hdec => (by cases hdec)⟩,
      hs.main.congr rfl rfl rfl (Nat.le_refl _)⟩
    · exact hs.ring.at_writePos hroom (.inr rfl) (hidx ▸ rfl) (fun _ _ => rfl) rfl rfl
    · show Function.update s.state s.outWidx .working (s.writePos % cpOutFrameCnt) = .working
      rw [hidx, Function.update_self]
  next => cases h

theorem fill_inv (hs : Inv delay s) {x : α} (h : step s (.fill x) = some s') : Inv delay s' := by
  have hidx := hs.dec.widx
  rw [step] at h
  split at h
  next hpc =>
    obtain rfl := Option.some.inj h
    rw [if_neg (by rw [hpc]; decide)] at hidx
    obtain ⟨hroom, hworking⟩ := hs.dec.working (.inl hpc)
    refine ⟨hs.noReset, hs.ring.at_writePos hroom (.inr rfl) ?_ (fun i hi => ?_) rfl rfl,
      hs.dec.congr rfl rfl rfl (Nat.le_refl _) fun _ => rfl, hs.main.congr rfl rfl rfl (Nat.le_refl _)⟩
    · show s.state = _
      rw [← hworking, Function.update_eq_self]
    · show Function.update s.cache s.outWidx x i = s.cache i
      rw [hidx, Function.update_of_ne hi]
  next => cases h

theorem leave_inv (hs : Inv delay s) (h : step s .leave = some s') : Inv delay s' := by
  rw [step] at h
  split at h
  next hpc =>
    rw [← Option.some.inj h]
    apply hs.dec_goto
    · rw [hpc]
      decide
    · exact fun h => by cases h
    · exact fun h => by cases h
    · exact fun h => by rcases h with h | h <;> cases h
  next => cases h

theorem consumeEmpty_inv (hs : Inv delay s) (h : step s .consumeEmpty = some s') : Inv delay s' := by
  have hidx := hs.dec.widx
  rw [step] at h
  split at h
  next hpc =>
    have hgoes : s.dec ≠ .advancing := by rw [hpc]; decide
    rw [if_neg hgoes] at hidx
    obtain ⟨hroom, hworking⟩ := hs.dec.working (.inl hpc)
    have hstate : ¬s.state s.outWidx ≠ .working := by
      rw [hidx]
      exact not_not.mpr hworking
    rw [if_neg hs.not_reset, if_neg hstate] at h
    rw [← Option.some.inj h]
    apply hs.dec_goto hgoes
    · exact fun h => by cases h
    · exact fun h => by cases h
    · exact fun _ => ⟨hroom, hworking⟩
  next => cases h

theorem markDone_inv (hs : Inv delay s) (h : step s .markDone = some s') : Inv delay s' := by
  have hidx := hs.dec.widx
  rw [step] at h
  split at h
  next hpc =>
    obtain rfl := Option.some.inj h
    rw [if_neg (by rw [hpc]; decide)] at hidx
    obtain ⟨hroom, -⟩ := hs.dec.working (.inr hpc)
    have hlength : (s.produced ++ [s.cache s.outWidx]).length = s.produced.length + 1 := List.length_append
    refine ⟨hs.noReset, hs.ring.markDone hroom (hidx ▸ rfl) rfl (hidx ▸ rfl) rfl, ⟨?_, fun hdec => (by cases hdec),
      fun hdec => (by rcases hdec with hdec | hdec <;> cases hdec), fun _ => ?_⟩, hs.main.congr rfl rfl rfl ?_⟩
    · show s.outWidx = (cpOutFrameCnt + (s.produced ++ [_]).length - 1) % cpOutFrameCnt
      rw [hlength, hidx]
      rfl
    · show 0 < (s.produced ++ [_]).length
      rw [hlength]
      exact Nat.succ_pos _
    · show cpOutFrameCnt + s.produced.length ≤ cpOutFrameCnt + (s.produced ++ [_]).length
      rw [hlength]
      exact Nat.le_succ _
  next => cases h

theorem advanceWidx_inv (hs : Inv delay s) (h : step s .advanceWidx = some s') : Inv delay s' := by
  have hidx := hs.dec.widx
  rw [step] at h
  split at h
  next hpc =>
    obtain rfl := Option.some.inj h
    have hstarted := hs.dec.started hpc
    rw [if_pos hpc] at hidx
    refine ⟨hs.noReset, hs.ring.congr rfl rfl rfl rfl, ⟨?_, fun hdec => (by cases hdec),
      fun hdec => (by rcases hdec with hdec | hdec <;> cases hdec), fun hdec => (by cases hdec)⟩,
      hs.main.congr rfl rfl rfl (Nat.le_refl _)⟩
    show next s.outWidx = s.writePos % cpOutFrameCnt
    have hpos : s.writePos - 1 + 1 = s.writePos := by
      rw [State.writePos]
      omega
    rw [hidx, next_mod, hpos]
  next => cases h

/-! ### The steps of the main core -/

theorem Inv.main_goto (hs : Inv delay s) {pc : MainPc} (hridx : s.main ≠ .advancing) (hpc : pc ≠ .advancing)
    (hholding : pc = .playing ∨ pc = .releasing → s.readPos delay < s.writePos) :
    Inv delay { s with main := pc } := by
  have hidx := hs.main.ridx
  rw [if_neg hridx] at hidx
  refine ⟨hs.noReset, hs.ring.congr rfl rfl rfl rfl, hs.dec.congr rfl rfl rfl (Nat.le_refl _) fun _ => rfl,
    ⟨?_, hholding, hpc.elim⟩⟩
  rw [if_neg hpc]
  exact hidx

theorem Inv.full_of_state (hs : Inv delay s)
    (hstate : s.state (s.readPos delay % cpOutFrameCnt) = .done ∨
      s.state (s.readPos delay % cpOutFrameCnt) = .initDone) : s.readPos delay < s.writePos := by
  by_contra hempty
  have hpos : s.readPos delay = s.writePos := Nat.le_antisymm hs.ring.le (Nat.not_lt.mp hempty)
  have hlt : s.readPos delay < s.readPos delay + cpOutFrameCnt := Nat.lt_add_of_pos_right (by decide)
  rcases hs.ring.free _ (Nat.le_of_eq hpos.symm) hlt with hidle | ⟨-, hworking⟩
  · rw [hidle] at hstate
    rcases hstate with h | h <;> cases h
  · rw [hworking] at hstate
    rcases hstate with h | h <;> cases h

theorem getFull_inv (hs : Inv delay s) (h : step s .getFull = some s') : Inv delay s' := by
  have hidx := hs.main.ridx
  rw [step] at h
  split at h
  next hpc =>
    have hgoes : s.main ≠ .advancing := by rw [hpc]; decide
    rw [if_neg hgoes] at hidx
    rw [if_neg hs.not_reset] at h
    split at h
    · exact Option.some.inj h ▸ hs
    next hfull =>
      rw [hidx, ← not_or, not_not] at hfull
      rw [← Option.some.inj h]
      apply hs.main_goto hgoes
      · exact fun h => by cases h
      · exact fun _ => hs.full_of_state hfull
  next => cases h

theorem stop_inv (hs : Inv delay s) (h : step s .stop = some s') : Inv delay s' := by
  rw [step] at h
  split at h
  next hpc =>
    rw [← Option.some.inj h]
    apply hs.main_goto
    · rw [hpc]
      decide
    · exact fun h => by cases h
    · exact fun h => by rcases h with h | h <;> cases h
  next => cases h

theorem consumeFull_inv (hs : Inv delay s) (h : step s .consumeFull = some s') : Inv delay s' := by
  have hidx := hs.main.ridx
  rw [step] at h
  split at h
  next hpc =>
    have hgoes : s.main ≠ .advancing := by rw [hpc]; decide
    have hlt := hs.main.holding (.inl hpc)
    have hfull := (hs.ring.full _ (Nat.le_refl _) hlt).1
    rw [if_neg hgoes] at hidx
    rw [← hidx] at hfull
    rw [if_neg hs.not_reset, if_neg fun hother => hfull.elim hother.1 hother.2] at h
    rw [← Option.some.inj h]
    apply hs.main_goto hgoes
    · exact fun h => by cases h
    · exact fun _ => hlt
  next => cases h

theorem markIdle_inv (hs : Inv delay s) (h : step s .markIdle = some s') : Inv delay s' := by
  have hidx := hs.main.ridx
  rw [step] at h
  split at h
  next hpc =>
    obtain rfl := Option.some.inj h
    have hlt := hs.main.holding (.inr hpc)
    have hlength : (s.delivered ++ [s.content s.outRidx]).length = s.delivered.length + 1 := List.length_append
    rw [if_neg (by rw [hpc]; decide)] at hidx
    refine ⟨hs.noReset, hs.ring.markIdle hlt (hidx ▸ rfl) rfl rfl (hidx ▸ rfl), hs.dec.congr rfl rfl rfl ?_ ?_,
      ⟨?_, fun hmain => (by rcases hmain with hmain | hmain <;> cases hmain), fun _ => ?_⟩⟩
    · show delay.idleCnt + s.delivered.length ≤ delay.idleCnt + (s.delivered ++ [_]).length
      rw [hlength]
      exact Nat.le_succ _
    · intro hroom
      have hslot := mod_ne hs.ring.le hroom (Nat.le_refl _) (Nat.lt_add_of_pos_right (by decide)) (Nat.ne_of_gt hlt)
      show Function.update s.state s.outRidx .idle (s.writePos % cpOutFrameCnt) = _
      rw [hidx, Function.update_of_ne hslot]
    · show s.outRidx = (delay.idleCnt + (s.delivered ++ [_]).length - 1) % cpOutFrameCnt
      rw [hlength, hidx]
      rfl
    · show 0 < (s.delivered ++ [_]).length
      rw [hlength]
      exact Nat.succ_pos _
  next => cases h

theorem advanceRidx_inv (hs : Inv delay s) (h : step s .advanceRidx = some s') : Inv delay s' := by
  have hidx := hs.main.ridx
  rw [step] at h
  split at h
  next hpc =>
    obtain rfl := Option.some.inj h
    have hbegun := hs.main.begun hpc
    rw [if_pos hpc] at hidx
    refine ⟨hs.noReset, hs.ring.congr rfl rfl rfl rfl, hs.dec.congr rfl rfl rfl (Nat.le_refl _) fun _ => rfl,
      ⟨?_, fun hmain => (by rcases hmain with hmain | hmain <;> cases hmain), fun hmain => (by cases hmain)⟩⟩
    show next s.outRidx = s.readPos delay % cpOutFrameCnt
    have hpos : s.readPos delay - 1 + 1 = s.readPos delay := by
      rw [State.readPos]
      omega
    rw [hidx, next_mod, hpos]
  next => cases h

theorem step_inv {e : Event α} (hs : Inv delay s) (h : step s e = some s') : Inv delay s' := by
  cases e with
  | getEmpty => exact getEmpty_inv hs h
  | markWorking => exact markWorking_inv hs h
  | fill x => exact fill_inv hs h
  | leave => exact leave_inv hs h
  | consumeEmpty => exact consumeEmpty_inv hs h
  | markDone => exact markDone_inv hs h
  | advanceWidx => exact advanceWidx_inv hs h
  | getFull => exact getFull_inv hs h
  | stop => exact stop_inv hs h
  | consumeFull => exact consumeFull_inv hs h
  | markIdle => exact markIdle_inv hs h
  | advanceRidx => exact advanceRidx_inv hs h

/-! ### Every run -/

/-- Each frame that is decoded is delivered once, in order, after the frames of the delay; a core that holds a frame
holds it alone, and there is a frame for it as soon as there is one at all. -/
structure HandsOver (delay : ProcDelay) (s : State α) : Prop where
  inOrder : s.delivered <+: s.expected delay
  played : s.main = .playing ∨ s.main = .releasing →
    (s.expected delay)[s.delivered.length]? = some (s.content s.outRidx)
  apart : s.dec = .claiming ∨ s.dec = .filling ∨ s.dec = .releasing → s.main = .playing ∨ s.main = .releasing →
    s.outWidx ≠ s.outRidx
  getsFull : s.main = .outside → s.delivered.length < (s.expected delay).length →
    step s .getFull = some { s with main := .playing }
  getsEmpty : s.dec = .outside → (s.expected delay).length < s.delivered.length + cpOutFrameCnt →
    step s .getEmpty = some { s with dec := .claiming } ∨ step s .getEmpty = some { s with dec := .filling }

theorem Inv.apart (hs : Inv delay s) (hdec : s.dec = .claiming ∨ s.dec = .filling ∨ s.dec = .releasing)
    (hmain : s.main = .playing ∨ s.main = .releasing) : s.outWidx ≠ s.outRidx := by
  have hlt := hs.main.holding hmain
  have hroom : s.writePos < s.readPos delay + cpOutFrameCnt :=
    hdec.elim hs.dec.claiming fun hworking => (hs.dec.working hworking).1
  have hwidx : s.dec ≠ .advancing := fun h => by rw [h] at hdec; rcases hdec with hdec | hdec | hdec <;> cases hdec
  have hridx : s.main ≠ .advancing := fun h => by rw [h] at hmain; rcases hmain with hmain | hmain <;> cases hmain
  rw [hs.dec.widx, hs.main.ridx, if_neg hwidx, if_neg hridx]
  exact mod_ne (Nat.le_of_lt hlt) hroom (Nat.le_refl _) (Nat.lt_add_of_pos_right (by decide)) (Nat.ne_of_gt hlt)

theorem Inv.played (hs : Inv delay s) (hmain : s.main = .playing ∨ s.main = .releasing) :
    (s.expected delay)[s.delivered.length]? = some (s.content s.outRidx) := by
  have hridx : s.main ≠ .advancing := fun h => by rw [h] at hmain; rcases hmain with hmain | hmain <;> cases hmain
  have hitem := (hs.ring.full _ (Nat.le_refl _) (hs.main.holding hmain)).2
  have hindex : s.readPos delay - delay.idleCnt = s.delivered.length := Nat.add_sub_cancel_left _ _
  rw [hindex] at hitem
  rw [hs.main.ridx, if_neg hridx]
  exact hitem

theorem Inv.getsFull (hs : Inv delay s) (hmain : s.main = .outside)
    (hmore : s.delivered.length < (s.expected delay).length) :
    step s .getFull = some { s with main := .playing } := by
  have hlength := expected_length delay s
  have hlt : s.readPos delay < s.writePos := by
    rw [State.readPos]
    omega
  have hfull := (hs.ring.full _ (Nat.le_refl _) hlt).1
  have hidx := hs.main.ridx
  rw [if_neg (by rw [hmain]; decide)] at hidx
  rw [← hidx] at hfull
  rw [step, if_pos hmain, if_neg hs.not_reset, if_neg fun hother => hfull.elim hother.1 hother.2]

theorem Inv.getsEmpty (hs : Inv delay s) (hdec : s.dec = .outside)
    (hmore : (s.expected delay).length < s.delivered.length + cpOutFrameCnt) :
    step s .getEmpty = some { s with dec := .claiming } ∨ step s .getEmpty = some { s with dec := .filling } := by
  have hlength := expected_length delay s
  have hlt : s.writePos < s.readPos delay + cpOutFrameCnt := by
    rw [State.readPos]
    omega
  have hidx := hs.dec.widx
  rw [if_neg (by rw [hdec]; decide)] at hidx
  rw [step, if_pos hdec, if_neg hs.not_reset, hidx]
  rcases hs.ring.free _ (Nat.le_refl _) hlt with hidle | ⟨-, hworking⟩
  · rw [hidle]
    exact .inl rfl
  · rw [hworking]
    exact .inr rfl

theorem Inv.handsOver (hs : Inv delay s) : HandsOver delay s := by
  refine ⟨?_, hs.played, hs.apart, hs.getsFull, hs.getsEmpty⟩
  rw [hs.ring.inOrder]
  exact List.take_prefix _ _

/-- However the two cores come in between each other, after the reset every frame is handed over. -/
theorem run_handsOver (delay : ProcDelay) (s₀ : State α) (events : List (Event α)) (s : State α)
    (h : run step (resetFrameInfo delay s₀) events = some s) : HandsOver delay s :=
  (run_invariant (Inv delay) (fun _ _ _ hs h => step_inv hs h) (resetFrameInfo_inv delay s₀) h).handsOver

/-- With two frames of delay, one frame decoded while the first is played. -/
def delayedState : State Nat := ⟨fun _ => .idle, fun _ => 0, 0, 0, true, .outside, .outside, [], []⟩

def delayedEvents : List (Event Nat) :=
  [.getFull, .getEmpty, .consumeFull, .markWorking, .fill 7, .markIdle, .advanceRidx, .consumeEmpty, .getFull,
    .markDone, .consumeFull, .markIdle, .advanceWidx, .advanceRidx, .getFull, .getEmpty, .consumeFull, .markIdle]

theorem handsOver_delayed : ∃ s, run step (resetFrameInfo .frames2 delayedState) delayedEvents = some s ∧
    s.delivered = [none, none, some 7] ∧ HandsOver .frames2 s :=
  ⟨_, rfl, rfl, run_handsOver .frames2 delayedState delayedEvents _ rfl⟩

end Best1307.CpOutFrames
