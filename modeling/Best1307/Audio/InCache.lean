import Mathlib.Data.List.Infix
import Best1307.Lib.Run
import Best1307.Lib.SlotRing
import Best1307.Lib.WrapBuffer

/-!
# The input cache of the A2DP co-processor

The decoder thread puts encoded frames into `cp_in_cache`, each in one piece from a word boundary on; the
co-processor gets the oldest one, decodes it where it lies and consumes it. The two share the frame infos and
the two indexes, of which each side writes one, so a put goes by an index that may be old.

An old read index only makes the put see more unconsumed frames than there are. What it sees is laid out so
that the frame it puts lies apart from all of them.
-/

namespace Best1307.InCache

open WrapBuffer SlotRing

/-- `CP_IN_CACHE_SIZE`, `CP_IN_FRAME_CNT` and `max_buffer_frames`. -/
structure Config where
  cacheSize : Nat
  frameCnt : Nat
  maxBufferFrames : UInt8
  cacheSize_aligned : cacheSize % 4 = 0
  cacheSize_pos : 0 < cacheSize
  cacheSize_lt : cacheSize < 2 ^ 32
  frameCnt_pos : 0 < frameCnt
  frameCnt_lt : frameCnt < 2 ^ 16

def defaultConfig : Config := ⟨1024 * 10, 100, 2, by decide, by decide, by decide, by decide, by decide⟩

/-- The two pieces of a frame. Like the cache, and apart from it, they lie in a 32-bit address space. -/
structure Frame (cfg : Config) where
  buf1 : List UInt8
  buf2 : List UInt8
  inMemory : buf1.length + buf2.length + cfg.cacheSize ≤ 2 ^ 32
  deriving DecidableEq

/-- `struct CP_IN_FRAME_INFO_T` -/
structure FrameInfo where
  pos : Nat
  len : Nat
  deriving DecidableEq, Repr

/-- Where `a2dp_cp_put_in_frame` stands: not running, behind its read of the indexes, behind its choice of
`in_wpos`, behind the frame info, behind the first and the second copy. -/
inductive Producer (cfg : Config)
  | idle
  | begun (frame : Frame cfg) (inWidx inRidx : Nat)
  | placed (frame : Frame cfg) (inWidx inWpos : Nat)
  | informed (frame : Frame cfg) (inWidx inWpos : Nat)
  | copied1 (frame : Frame cfg) (inWidx inWpos : Nat)
  | copied2 (frame : Frame cfg) (inWidx inWpos : Nat)
  deriving DecidableEq

/-- The memory of both sides, the put under way, its last result, and the frame the consumer holds. The last
three fields log the frames put, how many were consumed, and what lay there when they were. -/
structure State (cfg : Config) where
  cpInWidx : Nat
  cpInRidx : Nat
  inFrames : Nat → FrameInfo
  cpInCache : Nat → UInt8
  resetFrames : Bool
  producer : Producer cfg
  putRet : Int
  held : Option (Nat × Nat)
  accepted : List (List UInt8)
  consumed : Nat
  taken : List (List UInt8)

variable {cfg : Config}

/-- What `reset_frame_info` leaves, whatever the memory holds. -/
def State.resetFrameInfo (inFrames : Nat → FrameInfo) (cpInCache : Nat → UInt8) : State cfg where
  cpInWidx := 0
  cpInRidx := 0
  inFrames := inFrames
  cpInCache := cpInCache
  resetFrames := false
  producer := .idle
  putRet := 0
  held := none
  accepted := []
  consumed := 0
  taken := []

def getInFrameCnt (cfg : Config) (inWidx inRidx : Nat) : Nat :=
  if inRidx ≤ inWidx then inWidx - inRidx else cfg.frameCnt - inRidx + inWidx

def getInFrameFreeCnt (cfg : Config) (inWidx inRidx : Nat) : Nat :=
  (if inRidx ≤ inWidx then cfg.frameCnt - inWidx + inRidx else inRidx - inWidx) - 1

/-- `(x + 3) & ~3` in 32 bits. -/
def alignWord (x : Nat) : Nat := (x + 3) % 2 ^ 32 / 4 * 4

def wrapPos (cfg : Config) (pos : Nat) : Nat := if cfg.cacheSize ≤ pos then pos - cfg.cacheSize else pos

def nextIdx (cfg : Config) (idx : Nat) : Nat := if cfg.frameCnt ≤ idx + 1 then idx + 1 - cfg.frameCnt else idx + 1

/-- Where a frame of `alignedLen` bytes goes, given the word at which it may start and the oldest frame. -/
def choosePos (cfg : Config) (inWpos inRpos alignedLen : Nat) : Except Int Nat :=
  if inRpos ≤ inWpos then
    let freeLen := if inRpos = 0 then cfg.cacheSize - inWpos - 1 else cfg.cacheSize - inWpos
    if freeLen < alignedLen then
      -- skip to the start of the cache
      if (if 0 < inRpos then inRpos - 1 else 0) < alignedLen then .error 2 else .ok 0
    else .ok inWpos
  else if inRpos - inWpos - 1 < alignedLen then .error 3 else .ok inWpos

namespace State

variable (s : State cfg)

/-- The positions behind the newest frame and of the oldest one. -/
def inPositions (inWidx inRidx : Nat) : Nat × Nat :=
  if inWidx = inRidx then (0, 0)
  else
    let prevInWidx := if inWidx = 0 then cfg.frameCnt - 1 else inWidx - 1
    (wrapPos cfg ((s.inFrames prevInWidx).pos + (s.inFrames prevInWidx).len), (s.inFrames inRidx).pos)

/-- The checks of `a2dp_cp_put_in_frame`, which looks at both indexes once more, and the position. -/
def putPos (frame : Frame cfg) (inWidx inRidx : Nat) : Except Int Nat :=
  if cfg.maxBufferFrames.toNat < getInFrameCnt cfg s.cpInWidx s.cpInRidx then .error 1
  else if getInFrameFreeCnt cfg inWidx inRidx = 0 then .error 1
  else
    choosePos cfg (wrapPos cfg (alignWord (s.inPositions inWidx inRidx).1)) (s.inPositions inWidx inRidx).2
      (alignWord (frame.buf1.length + frame.buf2.length))

def a2dpCpGetInFrame : Except Int (Nat × Nat) :=
  if s.resetFrames then .error (-1)
  else if s.cpInWidx = s.cpInRidx then .error 1
  else .ok ((s.inFrames s.cpInRidx).pos, (s.inFrames s.cpInRidx).len)

def a2dpCpConsumeInFrame : Int × State cfg :=
  if s.resetFrames then (0, s)
  else if s.cpInWidx = s.cpInRidx then (1, s)
  else (0, { s with
    cpInRidx := nextIdx cfg s.cpInRidx
    held := none
    consumed := s.consumed + 1
    taken := s.taken ++ [read s.cpInCache (s.inFrames s.cpInRidx).pos (s.inFrames s.cpInRidx).len] })

end State

/-- A put begins or goes on by one access to the shared memory, the consumer gets or consumes, or a reset is
asked for (`a2dp_cp_reset_frame`). -/
inductive Event (cfg : Config)
  | put (frame : Frame cfg)
  | putPos
  | putInfo
  | putCopy1
  | putCopy2
  | putDone
  | get
  | consume
  | resetFrame
  deriving DecidableEq

def step (s : State cfg) : Event cfg → Option (State cfg)
  | .put frame =>
      match s.producer with
      | .idle =>
          if s.resetFrames then some { s with putRet := -1 }
          else some { s with producer := .begun frame s.cpInWidx s.cpInRidx }
      | _ => none
  | .putPos =>
      match s.producer with
      | .begun frame inWidx inRidx =>
          match s.putPos frame inWidx inRidx with
          | .error ret => some { s with producer := .idle, putRet := ret }
          | .ok inWpos => some { s with producer := .placed frame inWidx inWpos }
      | _ => none
  | .putInfo =>
      match s.producer with
      | .placed frame inWidx inWpos => some { s with
          producer := .informed frame inWidx inWpos
          inFrames := Function.update s.inFrames inWidx
            ⟨inWpos, (frame.buf1.length + frame.buf2.length) % 2 ^ 32⟩ }
      | _ => none
  | .putCopy1 =>
      match s.producer with
      | .informed frame inWidx inWpos => some { s with
          producer := .copied1 frame inWidx inWpos
          cpInCache := write s.cpInCache inWpos frame.buf1 }
      | _ => none
  | .putCopy2 =>
      match s.producer with
      | .copied1 frame inWidx inWpos => some { s with
          producer := .copied2 frame inWidx inWpos
          cpInCache := write s.cpInCache (inWpos + frame.buf1.length) frame.buf2 }
      | _ => none
  | .putDone =>
      match s.producer with
      | .copied2 frame inWidx _ => some { s with
          producer := .idle
          cpInWidx := nextIdx cfg inWidx
          putRet := 0
          accepted := s.accepted ++ [frame.buf1 ++ frame.buf2] }
      | _ => none
  | .get =>
      match s.a2dpCpGetInFrame with
      | .error _ => some s
      | .ok frame => some { s with held := some frame }
  | .consume => some s.a2dpCpConsumeInFrame.2
  | .resetFrame => some { s with resetFrames := true }

/-- The accesses that a put makes, the other events being those of the consumer and of a reset -/
def Event.isPut : Event cfg → Bool
  | .put _ | .putPos | .putInfo | .putCopy1 | .putCopy2 | .putDone => true
  | .get | .consume | .resetFrame => false

/-- What a put that is not refused has still to do -/
def Producer.rest : Producer cfg → List (Event cfg)
  | .idle => []
  | .begun _ _ _ => [.putPos, .putInfo, .putCopy1, .putCopy2, .putDone]
  | .placed _ _ _ => [.putInfo, .putCopy1, .putCopy2, .putDone]
  | .informed _ _ _ => [.putCopy1, .putCopy2, .putDone]
  | .copied1 _ _ _ => [.putCopy2, .putDone]
  | .copied2 _ _ _ => [.putDone]

/-- The block an accepted put writes. -/
def Producer.writing : Producer cfg → List (Block UInt8)
  | .idle => []
  | .begun _ _ _ => []
  | .placed frame _ inWpos => [⟨inWpos, frame.buf1 ++ frame.buf2⟩]
  | .informed frame _ inWpos => [⟨inWpos, frame.buf1 ++ frame.buf2⟩]
  | .copied1 frame _ inWpos => [⟨inWpos, frame.buf1 ++ frame.buf2⟩]
  | .copied2 frame _ inWpos => [⟨inWpos, frame.buf1 ++ frame.buf2⟩]

/-! ### Where the unconsumed frames lie -/

section Layout

variable {front back blocks : List (Block UInt8)} {b : Block UInt8} {data : List UInt8} {x y : Nat}

theorem alignWord_spec (h : x + 3 < 2 ^ 32) : x ≤ alignWord x ∧ alignWord x < x + 4 ∧ alignWord x % 4 = 0 := by
  rw [alignWord, Nat.mod_eq_of_lt h]
  omega

theorem alignWord_zero : alignWord 0 = 0 := rfl

theorem alignWord_add (hx : x % 4 = 0) (h : x + y + 3 < 2 ^ 32) : alignWord (x + y) = x + alignWord y := by
  rw [alignWord, alignWord, Nat.mod_eq_of_lt h, Nat.mod_eq_of_lt (by omega)]
  omega

/-- From the oldest block up; or first from it up, then from the start of the cache up to less than a word
before it. The oldest block is never at the start of a cache that is full up to its end. -/
def Layout (cfg : Config) (front back : List (Block UInt8)) : Prop :=
  Chain (firstPos front) cfg.cacheSize front ∧
    (back = [] ∧ (firstPos front = 0 → alignWord (endOf 0 front) < cfg.cacheSize) ∨
      front ≠ [] ∧ back ≠ [] ∧ Chain 0 (firstPos front) back ∧ alignWord (endOf 0 back) < firstPos front)

namespace Layout

theorem nil (cfg : Config) : Layout cfg [] [] := ⟨Nat.zero_le _, .inl ⟨rfl, fun _ => cfg.cacheSize_pos⟩⟩

theorem firstPos_le (h : Layout cfg front back) : firstPos front ≤ cfg.cacheSize := h.1.le

theorem pairwise (h : Layout cfg front back) : (front ++ back).Pairwise Block.Apart := by
  obtain ⟨hfront, ⟨rfl, -⟩ | ⟨-, -, hback, -⟩⟩ := h
  · rw [List.append_nil]
    exact hfront.pairwise
  · exact List.pairwise_append.mpr ⟨hfront.pairwise, hback.pairwise, fun c hc c' hc' =>
      hfront.apart hback (Nat.le_refl _) hc hc'⟩

theorem fin_le (h : Layout cfg front back) (hb : b ∈ front ++ back) : b.fin ≤ cfg.cacheSize := by
  have hfirst := h.firstPos_le
  obtain ⟨hfront, ⟨rfl, -⟩ | ⟨-, -, hback, -⟩⟩ := h
  · rw [List.append_nil] at hb
    exact (hfront.mem hb).2
  · rcases List.mem_append.mp hb with hb | hb
    · exact (hfront.mem hb).2
    · exact Nat.le_trans (hback.mem hb).2 hfirst

theorem tail (h : Layout cfg front back) (hcons : front ++ back = b :: blocks) :
    ∃ front' back', front' ++ back' = blocks ∧ Layout cfg front' back' := by
  have hfirst := h.firstPos_le
  obtain ⟨hfront, hside⟩ := h
  cases front with
  | nil =>
      rcases hside with ⟨rfl, -⟩ | ⟨hne, -⟩
      · cases hcons
      · exact absurd rfl hne
  | cons c front =>
      obtain ⟨rfl, rfl⟩ := List.cons.inj hcons
      change c.pos ≤ cfg.cacheSize at hfirst
      have htail : Chain c.fin cfg.cacheSize front := hfront.2
      cases front with
      | nil =>
          rcases hside with ⟨rfl, -⟩ | ⟨-, hne, hback, hless⟩
          · exact ⟨[], [], rfl, Layout.nil cfg⟩
          · refine ⟨back, [], List.append_nil back, hback.trim.mono (Nat.le_refl _) ?_, .inl ⟨rfl, fun _ => ?_⟩⟩
            · refine Nat.le_trans ?_ hfirst
              cases back with
              | nil => exact absurd rfl hne
              | cons d back => exact hback.2.endOf_le.2
            · exact Nat.lt_of_lt_of_le hless hfirst
      | cons d front =>
          have hc : c.pos ≤ d.pos := Nat.le_trans (Nat.le_add_right _ _) htail.1
          refine ⟨d :: front, back, rfl, ⟨Nat.le_refl _, htail.2⟩, ?_⟩
          rcases hside with ⟨rfl, hless⟩ | ⟨-, hne, hback, hless⟩
          · refine .inl ⟨rfl, fun hzero => hless ?_⟩
            change d.pos = 0 at hzero
            change c.pos = 0
            omega
          · exact .inr ⟨List.cons_ne_nil _ _, hne, hback.mono (Nat.le_refl _) hc, Nat.lt_of_lt_of_le hless hc⟩

theorem drop (h : Layout cfg front back) (n : Nat) :
    ∃ front' back', front' ++ back' = (front ++ back).drop n ∧ Layout cfg front' back' := by
  induction n generalizing front back with
  | zero => exact ⟨front, back, rfl, h⟩
  | succ n ih =>
      cases hblocks : front ++ back with
      | nil => exact ⟨[], [], rfl, Layout.nil cfg⟩
      | cons c blocks =>
          obtain ⟨front', back', rfl, htail⟩ := h.tail hblocks
          exact ih htail

theorem endOf_le (h : Layout cfg front back) : endOf 0 (front ++ back) ≤ cfg.cacheSize := by
  rcases List.eq_nil_or_concat' (front ++ back) with hnil | ⟨blocks, b, hblocks⟩
  · rw [hnil]
    exact Nat.zero_le _
  · rw [hblocks, endOf_append]
    exact h.fin_le (hblocks ▸ List.mem_append_right _ List.mem_cons_self)

end Layout

theorem wrapPos_alignWord {e : Nat} (he : e ≤ cfg.cacheSize) :
    wrapPos cfg (alignWord (wrapPos cfg e)) = if cfg.cacheSize ≤ alignWord e then 0 else alignWord e := by
  have haligned := cfg.cacheSize_aligned
  have hlt := cfg.cacheSize_lt
  have hpos := cfg.cacheSize_pos
  obtain ⟨hge, hless, hmod⟩ := alignWord_spec (x := e) (by omega)
  rcases Nat.lt_or_eq_of_le he with hin | rfl
  · rw [wrapPos, wrapPos, if_neg (Nat.not_le.mpr hin)]
    split <;> omega
  · rw [wrapPos, wrapPos, if_pos (Nat.le_refl _), Nat.sub_self, alignWord_zero, if_pos hge,
      if_neg (Nat.not_le.mpr hpos)]

/-- Behind the newest frame, or skipped to the start of the cache, or behind the newest frame that is there. -/
theorem choosePos_cases {w r len p : Nat} (hw : w < cfg.cacheSize) (h : choosePos cfg w r len = .ok p) :
    (r ≤ w ∧ p = w ∧ w + len ≤ cfg.cacheSize ∧ (r = 0 → w + len < cfg.cacheSize)) ∨
      (r ≤ w ∧ p = 0 ∧ len < r) ∨ (w < r ∧ p = w ∧ w + len < r) := by
  rw [choosePos] at h
  by_cases hbehind : r ≤ w
  · rw [if_pos hbehind] at h
    by_cases hstart : r = 0
    · simp only [if_pos hstart, if_neg (show ¬ 0 < r by omega)] at h
      split at h
      · split at h
        · cases h
        · omega
      · exact .inl ⟨hbehind, (Except.ok.inj h).symm, by omega, by omega⟩
    · simp only [if_neg hstart, if_pos (Nat.pos_of_ne_zero hstart)] at h
      split at h
      · split at h
        · cases h
        · exact .inr (.inl ⟨hbehind, (Except.ok.inj h).symm, by omega⟩)
      · exact .inl ⟨hbehind, (Except.ok.inj h).symm, by omega, by omega⟩
  · rw [if_neg hbehind] at h
    split at h
    · cases h
    · exact .inr (.inr ⟨by omega, (Except.ok.inj h).symm, by omega⟩)

/-- The frame fits behind the newest one, or at the start of the cache before the oldest. -/
def FitsAt (cfg : Config) (w r len : Nat) : Prop :=
  r ≤ w ∧ (w + len < cfg.cacheSize ∨ 0 < r ∧ w + len = cfg.cacheSize ∨ len < r) ∨ w < r ∧ w + len < r

instance (w r len : Nat) : Decidable (FitsAt cfg w r len) := inferInstanceAs (Decidable (_ ∨ _))

theorem choosePos_isOk {w r len : Nat} (hw : w < cfg.cacheSize) :
    (∃ p, choosePos cfg w r len = .ok p) ↔ FitsAt cfg w r len := by
  have hok : ∀ p : Nat, ∃ p', (Except.ok p : Except Int Nat) = .ok p' := fun p => ⟨p, rfl⟩
  have herror : ∀ ret : Int, ¬ ∃ p', (Except.error ret : Except Int Nat) = .ok p' := fun ret ⟨_, h⟩ => by cases h
  rw [choosePos, FitsAt]
  by_cases hbehind : r ≤ w
  · rw [if_pos hbehind]
    by_cases hstart : r = 0
    · simp only [if_pos hstart, if_neg (show ¬ 0 < r by omega)]
      split
      · rw [if_pos (by omega)]
        exact iff_of_false (herror 2) (by omega)
      · exact iff_of_true (hok w) (by omega)
    · simp only [if_neg hstart, if_pos (Nat.pos_of_ne_zero hstart)]
      split
      · split
        · exact iff_of_false (herror 2) (by omega)
        · exact iff_of_true (hok 0) (by omega)
      · exact iff_of_true (hok w) (by omega)
  · rw [if_neg hbehind]
    split
    · exact iff_of_false (herror 3) (by omega)
    · exact iff_of_true (hok w) (by omega)

theorem choosePos_error {w r len : Nat} {ret : Int} (h : choosePos cfg w r len = .error ret) : ret ≠ 0 := by
  have hoccupied : ∀ {P : Prop} [Decidable P] {n : Int} {p : Nat}, n ≠ 0 →
      (if P then .error n else .ok p : Except Int Nat) = .error ret → ret ≠ 0 := by
    intro P _ n p hn h
    split at h
    · exact Except.error.inj h ▸ hn
    · cases h
  rw [choosePos] at h
  by_cases hbehind : r ≤ w
  · simp only [if_pos hbehind] at h
    generalize (if r = 0 then cfg.cacheSize - w - 1 else cfg.cacheSize - w) = freeLen at h
    by_cases hskip : freeLen < len
    · rw [if_pos hskip] at h
      exact hoccupied (by decide) h
    · rw [if_neg hskip] at h
      cases h
  · rw [if_neg hbehind] at h
    exact hoccupied (by decide) h

theorem Layout.place (h : Layout cfg front back) (hlen : data.length + cfg.cacheSize ≤ 2 ^ 32) {p : Nat}
    (hchoose : choosePos cfg (wrapPos cfg (alignWord (wrapPos cfg (endOf 0 (front ++ back)))))
      (firstPos (front ++ back)) (alignWord data.length) = .ok p) :
    ∃ front' back', front' ++ back' = front ++ back ++ [⟨p, data⟩] ∧ Layout cfg front' back' := by
  have haligned := cfg.cacheSize_aligned
  have hlt := cfg.cacheSize_lt
  have hpos := cfg.cacheSize_pos
  have hend := h.endOf_le
  have hfirstLe := h.firstPos_le
  obtain ⟨hge, hless, hmod⟩ := alignWord_spec (x := endOf 0 (front ++ back)) (by omega)
  obtain ⟨hdata, -, hdataMod⟩ := alignWord_spec (x := data.length) (by omega)
  rw [wrapPos_alignWord hend] at hchoose
  have hcases := choosePos_cases (by split <;> omega) hchoose
  obtain ⟨hfront, ⟨rfl, hfull⟩ | ⟨hne, hne', hback, hgap⟩⟩ := h
  · rw [List.append_nil] at *
    have hlast : firstPos front ≤ endOf 0 front := by
      cases front with
      | nil => exact Nat.le_refl 0
      | cons c front => exact Nat.le_trans (Nat.le_add_right _ _) hfront.2.endOf_le.1
    -- what is put at the start of the cache ends below the oldest frame
    have hskip : p = 0 → alignWord data.length < firstPos front →
        ∃ front' back', front' ++ back' = front ++ [⟨p, data⟩] ∧ Layout cfg front' back' := by
      rintro rfl hroom
      have hne : front ≠ [] := by
        rintro rfl
        exact Nat.not_lt_zero _ hroom
      refine ⟨front, [⟨0, data⟩], rfl, hfront, .inr ⟨hne, List.cons_ne_nil _ _, ⟨Nat.le_refl 0, ?_⟩, ?_⟩⟩
      · change 0 + data.length ≤ _
        omega
      · change alignWord (0 + data.length) < _
        rw [Nat.zero_add]
        exact hroom
    rcases hcases with ⟨hbehind, rfl, hroom, hstart⟩ | ⟨-, hzero, hroom⟩ | ⟨hbelow, hp, hroom⟩
    · -- the end of the cache is reached only with the oldest frame behind its start
      have hin : ¬ cfg.cacheSize ≤ alignWord (endOf 0 front) := by
        intro hwrap
        rw [if_pos hwrap] at hbehind
        have := hfull (Nat.le_zero.mp hbehind)
        omega
      rw [if_neg hin] at hroom hstart ⊢
      have hsum := alignWord_add hmod (y := data.length) (by omega)
      refine ⟨front ++ [⟨alignWord (endOf 0 front), data⟩], [], List.append_nil _, ?_, .inl ⟨rfl, ?_⟩⟩
      · cases front with
        | nil =>
            refine ⟨Nat.le_refl _, ?_⟩
            change alignWord 0 + data.length ≤ _
            change alignWord 0 + alignWord data.length ≤ _ at hroom
            omega
        | cons c front =>
            refine ⟨Nat.le_refl _, hfront.2.below_endOf.concat hge ?_⟩
            change alignWord (endOf 0 (c :: front)) + data.length ≤ _
            omega
      · intro hzero
        have hzero' : firstPos front = 0 := by
          cases front with
          | nil => rfl
          | cons c front => exact hzero
        rw [endOf_append]
        change alignWord (alignWord (endOf 0 front) + data.length) < _
        rw [hsum]
        exact hstart hzero'
    · exact hskip hzero hroom
    · have hwrap : cfg.cacheSize ≤ alignWord (endOf 0 front) := by
        by_contra hin
        rw [if_neg hin] at hbelow
        omega
      rw [if_pos hwrap] at hp hroom
      exact hskip hp (by omega)
  · rw [firstPos_append hne, endOf_append] at *
    have hlast : endOf (endOf 0 front) back = endOf 0 back := by
      cases back with
      | nil => exact absurd rfl hne'
      | cons d back => rfl
    rw [hlast] at hge hless hmod hcases
    rw [if_neg (show ¬ cfg.cacheSize ≤ alignWord (endOf 0 back) by omega)] at hcases
    obtain ⟨-, rfl, hroom⟩ := (hcases.resolve_left fun h => by omega).resolve_left fun h => by omega
    have hsum := alignWord_add hmod (y := data.length) (by omega)
    refine ⟨front, back ++ [⟨alignWord (endOf 0 back), data⟩], (List.append_assoc ..).symm, hfront, .inr ⟨hne,
      List.append_ne_nil_of_left_ne_nil hne' _, hback.below_endOf.concat hge ?_, ?_⟩⟩
    · change alignWord (endOf 0 back) + data.length ≤ _
      omega
    · rw [endOf_append]
      change alignWord (alignWord (endOf 0 back) + data.length) < _
      omega

end Layout

/-! ### The invariant -/

/-- The frames from number `base` on, those the put under way takes for unconsumed, lie in `front` and `back`. -/
structure Ring (s : State cfg) (base : Nat) (front back : List (Block UInt8)) : Prop where
  inWidx_eq : s.cpInWidx = s.accepted.length % cfg.frameCnt
  inRidx_eq : s.cpInRidx = s.consumed % cfg.frameCnt
  base_le : base ≤ s.consumed
  consumed_le : s.consumed ≤ s.accepted.length
  free : s.accepted.length < base + cfg.frameCnt
  frames : s.accepted.drop base = (front ++ back).map Block.data
  info : ∀ i (hi : i < (front ++ back).length),
    s.inFrames ((base + i) % cfg.frameCnt) = ⟨(front ++ back)[i].pos, (front ++ back)[i].data.length⟩
  layout : Layout cfg front back
  stored : ∀ b ∈ front ++ back, b.Stored s.cpInCache
  taken : s.taken = s.accepted.take s.consumed
  held : ∀ frame, s.held = some frame →
    s.consumed < s.accepted.length ∧ s.inFrames s.cpInRidx = ⟨frame.1, frame.2⟩

structure Room (s : State cfg) (base : Nat) (front back : List (Block UInt8)) (inWidx : Nat) (b : Block UInt8) :
    Prop where
  inWidx_eq : inWidx = s.cpInWidx
  free : s.accepted.length + 1 < base + cfg.frameCnt
  layout : ∃ front' back', front' ++ back' = front ++ back ++ [b] ∧ Layout cfg front' back'

/-- How far the put has come. -/
def Puts (s : State cfg) (base : Nat) (front back : List (Block UInt8)) : Producer cfg → Prop
  | .idle => True
  | .begun _ inWidx inRidx => inWidx = s.cpInWidx ∧ inRidx = base % cfg.frameCnt
  | .placed frame inWidx inWpos => Room s base front back inWidx ⟨inWpos, frame.buf1 ++ frame.buf2⟩
  | .informed frame inWidx inWpos => Room s base front back inWidx ⟨inWpos, frame.buf1 ++ frame.buf2⟩ ∧
      s.inFrames inWidx = ⟨inWpos, (frame.buf1 ++ frame.buf2).length⟩
  | .copied1 frame inWidx inWpos => Room s base front back inWidx ⟨inWpos, frame.buf1 ++ frame.buf2⟩ ∧
      s.inFrames inWidx = ⟨inWpos, (frame.buf1 ++ frame.buf2).length⟩ ∧
      ∃ cache, s.cpInCache = write cache inWpos frame.buf1
  | .copied2 frame inWidx inWpos => Room s base front back inWidx ⟨inWpos, frame.buf1 ++ frame.buf2⟩ ∧
      s.inFrames inWidx = ⟨inWpos, (frame.buf1 ++ frame.buf2).length⟩ ∧
      Block.Stored s.cpInCache ⟨inWpos, frame.buf1 ++ frame.buf2⟩

def Inv (s : State cfg) : Prop :=
  ∃ base front back, Ring s base front back ∧ Puts s base front back s.producer

theorem nextIdx_mod (cfg : Config) (k : Nat) : nextIdx cfg (k % cfg.frameCnt) = (k + 1) % cfg.frameCnt := by
  have hlt := Nat.mod_lt k cfg.frameCnt_pos
  rw [succ_mod cfg.frameCnt_pos, nextIdx]
  split <;> omega

theorem prevIdx_mod (cfg : Config) (k : Nat) :
    (if (k + 1) % cfg.frameCnt = 0 then cfg.frameCnt - 1 else (k + 1) % cfg.frameCnt - 1) = k % cfg.frameCnt := by
  have hlt := Nat.mod_lt k cfg.frameCnt_pos
  rw [succ_mod cfg.frameCnt_pos]
  split <;> split <;> omega

theorem getInFrameFreeCnt_mod {lo hi : Nat} (hle : lo ≤ hi) (hfree : hi < lo + cfg.frameCnt) :
    getInFrameFreeCnt cfg (hi % cfg.frameCnt) (lo % cfg.frameCnt) = cfg.frameCnt - (hi - lo) - 1 := by
  have hlo := Nat.mod_lt lo cfg.frameCnt_pos
  have hhi := Nat.mod_lt hi cfg.frameCnt_pos
  have hdist := mod_sub_mod hle hfree
  rw [getInFrameFreeCnt, ← hdist]
  split <;> omega

theorem getInFrameCnt_mod {lo hi : Nat} (hle : lo ≤ hi) (hfree : hi < lo + cfg.frameCnt) :
    getInFrameCnt cfg (hi % cfg.frameCnt) (lo % cfg.frameCnt) = hi - lo := mod_sub_mod hle hfree

theorem inv_resetFrameInfo (inFrames : Nat → FrameInfo) (cpInCache : Nat → UInt8) :
    Inv (State.resetFrameInfo inFrames cpInCache : State cfg) := by
  refine ⟨0, [], [], ⟨?_, ?_, Nat.le_refl 0, Nat.le_refl 0, ?_, rfl, ?_, Layout.nil cfg, ?_, rfl, ?_⟩, trivial⟩
  · exact (Nat.zero_mod _).symm
  · exact (Nat.zero_mod _).symm
  · exact Nat.lt_of_lt_of_eq cfg.frameCnt_pos (Nat.zero_add _).symm
  · intro i hi
    exact absurd hi (Nat.not_lt_zero i)
  · intro b hb
    cases hb
  · intro frame hheld
    cases hheld

namespace Ring

variable {s : State cfg} {base : Nat} {front back : List (Block UInt8)}

theorem length_blocks (h : Ring s base front back) : (front ++ back).length = s.accepted.length - base := by
  rw [← List.length_map Block.data, ← h.frames, List.length_drop]

theorem inWidx_eq_add (h : Ring s base front back) :
    s.cpInWidx = (base + (front ++ back).length) % cfg.frameCnt := by
  have := h.base_le
  have := h.consumed_le
  rw [h.inWidx_eq, h.length_blocks, Nat.add_sub_cancel' (by omega)]

theorem indexes_eq_iff (h : Ring s base front back) : s.cpInWidx = s.cpInRidx ↔ s.consumed = s.accepted.length := by
  have hle := h.consumed_le
  have hbase := h.base_le
  have hfree := h.free
  have hmod : (s.consumed + (s.accepted.length - s.consumed)) % cfg.frameCnt = (s.consumed + 0) % cfg.frameCnt ↔ _ :=
    mod_eq_mod_iff (by omega) cfg.frameCnt_pos
  rw [h.inWidx_eq, h.inRidx_eq]
  rw [Nat.add_sub_cancel' hle, Nat.add_zero] at hmod
  rw [hmod]
  omega

theorem getInFrameCnt_eq (h : Ring s base front back) :
    getInFrameCnt cfg s.cpInWidx s.cpInRidx = s.accepted.length - s.consumed := by
  have hbase := h.base_le
  have hfree := h.free
  rw [h.inWidx_eq, h.inRidx_eq, getInFrameCnt_mod h.consumed_le (by omega)]

theorem oldest_lt (h : Ring s base front back) (hmore : s.consumed < s.accepted.length) :
    s.consumed - base < (front ++ back).length := by
  have := h.length_blocks
  have := h.base_le
  omega

theorem info_oldest (h : Ring s base front back) (hmore : s.consumed < s.accepted.length) :
    ∃ b ∈ front ++ back, s.accepted[s.consumed]? = some b.data ∧
      s.inFrames s.cpInRidx = ⟨b.pos, b.data.length⟩ := by
  have hlt := h.oldest_lt hmore
  have hsum : base + (s.consumed - base) = s.consumed := Nat.add_sub_cancel' h.base_le
  have hget : s.accepted[base + (s.consumed - base)]? = some (front ++ back)[s.consumed - base].data := by
    rw [← List.getElem?_drop, h.frames, List.getElem?_map, List.getElem?_eq_getElem hlt, Option.map_some]
  rw [hsum] at hget
  refine ⟨(front ++ back)[s.consumed - base], List.getElem_mem hlt, hget, ?_⟩
  · rw [← h.info _ hlt, hsum, h.inRidx_eq]

theorem inPositions_eq (h : Ring s base front back) :
    s.inPositions s.cpInWidx (base % cfg.frameCnt) =
      (wrapPos cfg (endOf 0 (front ++ back)), firstPos (front ++ back)) := by
  have hlen := h.length_blocks
  have hfree := h.free
  have hbase := h.base_le
  have hle := h.consumed_le
  rw [State.inPositions, h.inWidx_eq_add]
  cases hcount : (front ++ back).length with
  | zero =>
      rw [Nat.add_zero, if_pos rfl, List.length_eq_zero_iff.mp hcount, endOf, firstPos, wrapPos,
        if_neg (Nat.not_le.mpr cfg.cacheSize_pos)]
  | succ n =>
      have hmod : (base + (n + 1)) % cfg.frameCnt = (base + 0) % cfg.frameCnt ↔ _ :=
        mod_eq_mod_iff (by omega) cfg.frameCnt_pos
      have hne : (base + (n + 1)) % cfg.frameCnt ≠ base % cfg.frameCnt := fun heq => by
        have := hmod.mp heq
        omega
      have hfirst := h.info 0 (by omega)
      have hlast := h.info n (by omega)
      rw [Nat.add_zero, getElem_zero_pos] at hfirst
      simp only [if_neg hne]
      simp only [← Nat.add_assoc, prevIdx_mod, hlast, hfirst]
      rw [endOf_eq_getElem hcount]
      rfl

end Ring

/-! ### A put goes on -/

section Put

variable {s : State cfg} {base inWidx inRidx inWpos : Nat} {front back : List (Block UInt8)} {frame : Frame cfg}

theorem Ring.keep (h : Ring s base front back) (producer : Producer cfg) (putRet : Int) (resetFrames : Bool) :
    Ring { s with producer := producer, putRet := putRet, resetFrames := resetFrames } base front back :=
  ⟨h.inWidx_eq, h.inRidx_eq, h.base_le, h.consumed_le, h.free, h.frames, h.info, h.layout, h.stored, h.taken,
    h.held⟩

/-- A put that begins sees all that is unconsumed. -/
theorem Ring.rebase (h : Ring s base front back) :
    ∃ front' back', front' ++ back' = (front ++ back).drop (s.consumed - base) ∧ Ring s s.consumed front' back' := by
  have hsum : base + (s.consumed - base) = s.consumed := Nat.add_sub_cancel' h.base_le
  obtain ⟨front', back', hblocks, hlayout⟩ := h.layout.drop (s.consumed - base)
  refine ⟨front', back', hblocks, ⟨h.inWidx_eq, h.inRidx_eq, Nat.le_refl _, h.consumed_le, ?_, ?_, ?_, hlayout,
    ?_, h.taken, h.held⟩⟩
  · exact Nat.lt_of_lt_of_le h.free (Nat.add_le_add_right h.base_le _)
  · have hdrop : s.accepted.drop (base + (s.consumed - base)) = _ := (List.drop_drop ..).symm
    rw [hsum, h.frames] at hdrop
    rw [hblocks, List.map_drop, hdrop]
  · intro i hi
    rw [hblocks, List.length_drop] at hi
    have hinfo := h.info (s.consumed - base + i) (by omega)
    rw [← Nat.add_assoc, hsum] at hinfo
    simp only [hinfo, hblocks, List.getElem_drop]
  · intro b hb
    rw [hblocks] at hb
    exact h.stored b (List.mem_of_mem_drop hb)

theorem Inv.put (h : Inv s) : Inv { s with producer := .begun frame s.cpInWidx s.cpInRidx } := by
  obtain ⟨base, front, back, hring, -⟩ := h
  obtain ⟨front', back', -, hring'⟩ := hring.rebase
  exact ⟨s.consumed, front', back', hring'.keep _ _ _, rfl, hring'.inRidx_eq⟩

theorem putPos_ok {p : Nat} (h : s.putPos frame inWidx inRidx = .ok p) :
    getInFrameFreeCnt cfg inWidx inRidx ≠ 0 ∧
      choosePos cfg (wrapPos cfg (alignWord (s.inPositions inWidx inRidx).1)) (s.inPositions inWidx inRidx).2
        (alignWord (frame.buf1.length + frame.buf2.length)) = .ok p := by
  rw [State.putPos] at h
  split at h
  · cases h
  split at h
  · cases h
  · exact ⟨‹_›, h⟩

theorem Inv.putPos (h : Inv s) (hproducer : s.producer = .begun frame inWidx inRidx)
    (hpos : s.putPos frame inWidx inRidx = .ok inWpos) :
    Inv { s with producer := .placed frame inWidx inWpos } := by
  obtain ⟨base, front, back, hring, hputs⟩ := h
  rw [hproducer] at hputs
  obtain ⟨rfl, rfl⟩ := hputs
  obtain ⟨hcnt, hchoose⟩ := putPos_ok hpos
  have hmemory := frame.inMemory
  have hle := hring.consumed_le
  have hbase := hring.base_le
  rw [hring.inWidx_eq, getInFrameFreeCnt_mod (by omega) hring.free] at hcnt
  rw [hring.inPositions_eq, ← List.length_append] at hchoose
  refine ⟨base, front, back, hring.keep _ _ _, rfl, ?_, hring.layout.place ?_ hchoose⟩
  · change s.accepted.length + 1 < base + cfg.frameCnt
    omega
  · rw [List.length_append]
    exact hmemory

theorem Inv.putInfo (h : Inv s) (hproducer : s.producer = .placed frame inWidx inWpos) :
    Inv { s with
      producer := .informed frame inWidx inWpos
      inFrames := Function.update s.inFrames inWidx
        ⟨inWpos, (frame.buf1.length + frame.buf2.length) % 2 ^ 32⟩ } := by
  obtain ⟨base, front, back, hring, hputs⟩ := h
  rw [hproducer] at hputs
  obtain ⟨rfl, hfree, hlayout⟩ := hputs
  have hlen := hring.length_blocks
  have hbase := hring.base_le
  have hmemory := frame.inMemory
  have hcache := cfg.cacheSize_pos
  have hother : ∀ i, i < (front ++ back).length → (base + i) % cfg.frameCnt ≠ s.cpInWidx := by
    intro i hi
    rw [hring.inWidx_eq_add, ne_eq, mod_eq_mod_iff (by omega) (by omega)]
    omega
  refine ⟨base, front, back, ⟨hring.inWidx_eq, hring.inRidx_eq, hring.base_le, hring.consumed_le, hring.free,
    hring.frames, ?_, hring.layout, hring.stored, hring.taken, ?_⟩, ⟨rfl, hfree, hlayout⟩, ?_⟩
  · intro i hi
    exact (Function.update_of_ne (hother i hi) ..).trans (hring.info i hi)
  · intro held hheld
    obtain ⟨hmore, hinfo⟩ := hring.held held hheld
    refine ⟨hmore, (Function.update_of_ne ?_ ..).trans hinfo⟩
    have hne := hother _ (hring.oldest_lt hmore)
    rw [Nat.add_sub_cancel' hbase, ← hring.inRidx_eq] at hne
    exact hne
  · refine (Function.update_self ..).trans ?_
    rw [List.length_append, Nat.mod_eq_of_lt (by omega)]

theorem Room.apart {b c : Block UInt8} (h : Room s base front back inWidx b) (hc : c ∈ front ++ back) :
    Block.Apart c b := by
  obtain ⟨front', back', hblocks, hlayout⟩ := h.layout
  have hpairwise := hlayout.pairwise
  rw [hblocks, List.pairwise_append] at hpairwise
  exact hpairwise.2.2 c hc b List.mem_cons_self

/-- Copying into the block leaves the unconsumed frames alone. -/
theorem Ring.copy (h : Ring s base front back) {b : Block UInt8} (hroom : Room s base front back inWidx b)
    {pos : Nat} {data : List UInt8} (hlo : b.pos ≤ pos) (hhi : pos + data.length ≤ b.fin) (producer : Producer cfg) :
    Ring { s with producer := producer, cpInCache := write s.cpInCache pos data } base front back := by
  refine ⟨h.inWidx_eq, h.inRidx_eq, h.base_le, h.consumed_le, h.free, h.frames, h.info, h.layout, ?_, h.taken,
    h.held⟩
  intro c hc
  refine (read_write_of_apart ?_).trans (h.stored c hc)
  rcases hroom.apart hc with hapart | hapart
  · exact .inl (Nat.le_trans hapart hlo)
  · exact .inr (Nat.le_trans hhi hapart)

theorem Inv.putCopy1 (h : Inv s) (hproducer : s.producer = .informed frame inWidx inWpos) :
    Inv { s with
      producer := .copied1 frame inWidx inWpos
      cpInCache := write s.cpInCache inWpos frame.buf1 } := by
  obtain ⟨base, front, back, hring, hputs⟩ := h
  rw [hproducer] at hputs
  obtain ⟨hroom, hinfo⟩ := hputs
  refine ⟨base, front, back, hring.copy hroom (Nat.le_refl _) ?_ _,
    ⟨hroom.inWidx_eq, hroom.free, hroom.layout⟩, hinfo, s.cpInCache, rfl⟩
  simp only [Block.fin, List.length_append]
  omega

theorem Inv.putCopy2 (h : Inv s) (hproducer : s.producer = .copied1 frame inWidx inWpos) :
    Inv { s with
      producer := .copied2 frame inWidx inWpos
      cpInCache := write s.cpInCache (inWpos + frame.buf1.length) frame.buf2 } := by
  obtain ⟨base, front, back, hring, hputs⟩ := h
  rw [hproducer] at hputs
  obtain ⟨hroom, hinfo, cache, hcache⟩ := hputs
  refine ⟨base, front, back, hring.copy hroom (Nat.le_add_right _ _) ?_ _,
    ⟨hroom.inWidx_eq, hroom.free, hroom.layout⟩, hinfo, ?_⟩
  · simp only [Block.fin, List.length_append]
    omega
  · change Block.Stored (write s.cpInCache (inWpos + frame.buf1.length) frame.buf2) _
    rw [hcache, write_write]
    exact Block.stored_write cache ⟨inWpos, frame.buf1 ++ frame.buf2⟩

theorem Inv.putDone (h : Inv s) (hproducer : s.producer = .copied2 frame inWidx inWpos) :
    Inv ({ s with
      producer := .idle
      cpInWidx := nextIdx cfg inWidx
      putRet := 0
      accepted := s.accepted ++ [frame.buf1 ++ frame.buf2] } : State cfg) := by
  obtain ⟨base, front, back, hring, hputs⟩ := h
  rw [hproducer] at hputs
  obtain ⟨⟨rfl, hfree, front', back', hblocks, hlayout⟩, hinfo, hstored⟩ := hputs
  have hlen := hring.length_blocks
  have hbase := hring.base_le
  have hle := hring.consumed_le
  refine ⟨base, front', back', ⟨?_, hring.inRidx_eq, hbase, ?_, ?_, ?_, ?_, hlayout, ?_, ?_, ?_⟩, trivial⟩
  · simp only [hring.inWidx_eq, nextIdx_mod, List.length_append, List.length_singleton]
  · simp only [List.length_append]
    omega
  · simp only [List.length_append, List.length_singleton]
    omega
  · change (s.accepted ++ _).drop base = _
    rw [List.drop_append_of_le_length (by omega), hring.frames, hblocks]
    simp only [List.map_append, List.map_cons, List.map_nil]
  · intro i hi
    change s.inFrames _ = _
    simp only [hblocks, List.length_append, List.length_singleton] at hi
    rw [← List.length_append] at hi
    rcases Nat.lt_succ_iff_lt_or_eq.mp hi with hold | rfl
    · simp only [hring.info i hold, hblocks, List.getElem_append_left hold]
    · simp only [← hring.inWidx_eq_add, hinfo, hblocks, List.getElem_concat_length]
  · intro b hb
    rw [hblocks] at hb
    rcases List.mem_append.mp hb with hold | hnew
    · exact hring.stored b hold
    · obtain rfl := List.mem_singleton.mp hnew
      exact hstored
  · exact hring.taken.trans (List.take_append_of_le_length hle).symm
  · intro held hheld
    obtain ⟨hmore, hinfo⟩ := hring.held held hheld
    refine ⟨?_, hinfo⟩
    simp only [List.length_append]
    omega

end Put

/-! ### The consumer goes on -/

section Consumer

variable {s s' : State cfg} {base : Nat} {front back : List (Block UInt8)}

/-- The put sees only what its own side writes. -/
theorem Puts.of_same {producer : Producer cfg} (h : Puts s base front back producer)
    (hwidx : s'.cpInWidx = s.cpInWidx) (haccepted : s'.accepted = s.accepted) (hframes : s'.inFrames = s.inFrames)
    (hcache : s'.cpInCache = s.cpInCache) : Puts s' base front back producer := by
  have hroom : ∀ {inWidx b}, Room s base front back inWidx b → Room s' base front back inWidx b := fun h =>
    ⟨h.inWidx_eq.trans hwidx.symm, haccepted.symm ▸ h.free, h.layout⟩
  cases producer with
  | idle => trivial
  | begun frame inWidx inRidx => exact ⟨h.1.trans hwidx.symm, h.2⟩
  | placed frame inWidx inWpos => exact hroom h
  | informed frame inWidx inWpos => exact ⟨hroom h.1, hframes ▸ h.2⟩
  | copied1 frame inWidx inWpos => exact ⟨hroom h.1, hframes ▸ h.2.1, hcache ▸ h.2.2⟩
  | copied2 frame inWidx inWpos => exact ⟨hroom h.1, hframes ▸ h.2.1, hcache ▸ h.2.2⟩

theorem Ring.more_of_ne (h : Ring s base front back) (hne : s.cpInWidx ≠ s.cpInRidx) :
    s.consumed < s.accepted.length :=
  Nat.lt_of_le_of_ne h.consumed_le fun heq => hne (h.indexes_eq_iff.mpr heq)

theorem getInFrame_ok {found : Nat × Nat} (h : s.a2dpCpGetInFrame = .ok found) :
    s.cpInWidx ≠ s.cpInRidx ∧ found = ((s.inFrames s.cpInRidx).pos, (s.inFrames s.cpInRidx).len) := by
  rw [State.a2dpCpGetInFrame] at h
  split at h
  · cases h
  split at h
  · cases h
  · exact ⟨‹_›, (Except.ok.inj h).symm⟩

theorem Inv.get {found : Nat × Nat} (h : Inv s) (hget : s.a2dpCpGetInFrame = .ok found) :
    Inv { s with held := some found } := by
  obtain ⟨base, front, back, hring, hputs⟩ := h
  obtain ⟨hne, rfl⟩ := getInFrame_ok hget
  refine ⟨base, front, back, ⟨hring.inWidx_eq, hring.inRidx_eq, hring.base_le, hring.consumed_le, hring.free,
    hring.frames, hring.info, hring.layout, hring.stored, hring.taken, ?_⟩, hputs.of_same rfl rfl rfl rfl⟩
  intro held hheld
  obtain rfl := Option.some.inj hheld
  exact ⟨hring.more_of_ne hne, rfl⟩

theorem Inv.consume (h : Inv s) : Inv s.a2dpCpConsumeInFrame.2 := by
  rw [State.a2dpCpConsumeInFrame]
  split
  · exact h
  split
  · exact h
  · obtain ⟨base, front, back, hring, hputs⟩ := h
    have hmore := hring.more_of_ne ‹_›
    obtain ⟨b, hb, hget, hinfo⟩ := hring.info_oldest hmore
    have hbase := hring.base_le
    refine ⟨base, front, back, ⟨hring.inWidx_eq, ?_, ?_, hmore, hring.free, hring.frames, hring.info, hring.layout,
      hring.stored, ?_, ?_⟩, hputs.of_same rfl rfl rfl rfl⟩
    · simp only [hring.inRidx_eq, nextIdx_mod]
    · change base ≤ s.consumed + 1
      omega
    · have hstored : read s.cpInCache b.pos b.data.length = b.data := hring.stored b hb
      simp only [hinfo, hstored, hring.taken, List.take_add_one, hget, Option.toList_some]
    · intro held hheld
      cases hheld

end Consumer

/-! ### Every run -/

section Run

variable {s s' t : State cfg}

theorem Inv.step {e : Event cfg} (h : Inv s) (hstep : InCache.step s e = some s') : Inv s' := by
  cases e with
  | put frame =>
      simp only [InCache.step] at hstep
      split at hstep
      · split at hstep
        · obtain rfl := Option.some.inj hstep
          obtain ⟨base, front, back, hring, hputs⟩ := h
          exact ⟨base, front, back, hring.keep _ _ _, hputs.of_same rfl rfl rfl rfl⟩
        · obtain rfl := Option.some.inj hstep
          exact h.put
      · cases hstep
  | putPos =>
      simp only [InCache.step] at hstep
      split at hstep
      · rename_i hproducer
        split at hstep
        · obtain rfl := Option.some.inj hstep
          obtain ⟨base, front, back, hring, -⟩ := h
          exact ⟨base, front, back, hring.keep _ _ _, trivial⟩
        · rename_i hpos
          obtain rfl := Option.some.inj hstep
          exact h.putPos hproducer hpos
      · cases hstep
  | putInfo =>
      simp only [InCache.step] at hstep
      split at hstep
      · obtain rfl := Option.some.inj hstep
        exact h.putInfo ‹_›
      · cases hstep
  | putCopy1 =>
      simp only [InCache.step] at hstep
      split at hstep
      · obtain rfl := Option.some.inj hstep
        exact h.putCopy1 ‹_›
      · cases hstep
  | putCopy2 =>
      simp only [InCache.step] at hstep
      split at hstep
      · obtain rfl := Option.some.inj hstep
        exact h.putCopy2 ‹_›
      · cases hstep
  | putDone =>
      simp only [InCache.step] at hstep
      split at hstep
      · obtain rfl := Option.some.inj hstep
        exact h.putDone ‹_›
      · cases hstep
  | get =>
      simp only [InCache.step] at hstep
      split at hstep
      · obtain rfl := Option.some.inj hstep
        exact h
      · obtain rfl := Option.some.inj hstep
        exact h.get ‹_›
  | consume =>
      obtain rfl := Option.some.inj hstep
      exact h.consume
  | resetFrame =>
      obtain rfl := Option.some.inj hstep
      obtain ⟨base, front, back, hring, hputs⟩ := h
      exact ⟨base, front, back, hring.keep _ _ _, hputs.of_same rfl rfl rfl rfl⟩

theorem Ring.head?_eq {front back : List (Block UInt8)} (h : Ring s s.consumed front back)
    (hmore : s.consumed < s.accepted.length) :
    (front ++ back).head?.map (fun b => (b.pos, b.data.length)) =
      some ((s.inFrames s.cpInRidx).pos, (s.inFrames s.cpInRidx).len) := by
  have hlen := h.length_blocks
  have hinfo := h.info 0 (by omega)
  rw [Nat.add_zero, ← h.inRidx_eq] at hinfo
  rw [hinfo, List.head?_eq_getElem?, List.getElem?_eq_getElem (by omega), Option.map_some]

theorem Puts.writing {base : Nat} {front back : List (Block UInt8)} {producer : Producer cfg}
    (hring : Ring s base front back) (h : Puts s base front back producer) :
    (front ++ back ++ producer.writing).Pairwise Block.Apart ∧
      ∀ b ∈ front ++ back ++ producer.writing, b.fin ≤ cfg.cacheSize := by
  have hnone : producer.writing = [] → (front ++ back ++ producer.writing).Pairwise Block.Apart ∧
      ∀ b ∈ front ++ back ++ producer.writing, b.fin ≤ cfg.cacheSize := by
    intro hnil
    rw [hnil, List.append_nil]
    exact ⟨hring.layout.pairwise, fun b hb => hring.layout.fin_le hb⟩
  have hroom : ∀ {inWidx b}, Room s base front back inWidx b →
      (front ++ back ++ [b]).Pairwise Block.Apart ∧ ∀ c ∈ front ++ back ++ [b], c.fin ≤ cfg.cacheSize := by
    intro inWidx b hroom
    obtain ⟨front', back', hblocks, hlayout⟩ := hroom.layout
    rw [← hblocks]
    exact ⟨hlayout.pairwise, fun c hc => hlayout.fin_le hc⟩
  cases producer with
  | idle => exact hnone rfl
  | begun frame inWidx inRidx => exact hnone rfl
  | placed frame inWidx inWpos => exact hroom h
  | informed frame inWidx inWpos => exact hroom h.1
  | copied1 frame inWidx inWpos => exact hroom h.1
  | copied2 frame inWidx inWpos => exact hroom h.1

/-! ### What can be put -/

/-- The word behind the newest block, or the start of the cache if that is its end -/
def nextPos (cfg : Config) (blocks : List (Block UInt8)) : Nat :=
  if cfg.cacheSize ≤ alignWord (endOf 0 blocks) then 0 else alignWord (endOf 0 blocks)

def HasPlace (cfg : Config) (blocks : List (Block UInt8)) (len : Nat) : Prop :=
  blocks.length + 1 < cfg.frameCnt ∧ FitsAt cfg (nextPos cfg blocks) (firstPos blocks) (alignWord len)

instance (blocks : List (Block UInt8)) (len : Nat) : Decidable (HasPlace cfg blocks len) :=
  inferInstanceAs (Decidable (_ ∧ _))

/-- No more frames are buffered than may be, and there is a place for one more. -/
def HasRoom (cfg : Config) (blocks : List (Block UInt8)) (len : Nat) : Prop :=
  blocks.length ≤ cfg.maxBufferFrames.toNat ∧ HasPlace cfg blocks len

instance (blocks : List (Block UInt8)) (len : Nat) : Decidable (HasRoom cfg blocks len) :=
  inferInstanceAs (Decidable (_ ∧ _))

/-- The checks, made at once, look for room. -/
theorem Ring.putPos_isOk {front back : List (Block UInt8)} (h : Ring s s.consumed front back) (frame : Frame cfg) :
    (∃ pos, s.putPos frame s.cpInWidx s.cpInRidx = .ok pos) ↔
      HasRoom cfg (front ++ back) (frame.buf1.length + frame.buf2.length) := by
  have herror : ∀ ret : Int, ¬ ∃ p', (Except.error ret : Except Int Nat) = .ok p' := fun ret ⟨_, h⟩ => by cases h
  have hlen := h.length_blocks
  have hfree := h.free
  have hend := h.layout.endOf_le
  have hpos := cfg.cacheSize_pos
  have hcnt : getInFrameFreeCnt cfg s.cpInWidx s.cpInRidx = cfg.frameCnt - (s.accepted.length - s.consumed) - 1 := by
    rw [h.inWidx_eq, h.inRidx_eq, getInFrameFreeCnt_mod h.consumed_le hfree]
  have hplace := h.inPositions_eq
  rw [← h.inRidx_eq] at hplace
  rw [State.putPos, h.getInFrameCnt_eq, hcnt, ← hlen, hplace, wrapPos_alignWord hend, HasRoom, HasPlace, nextPos]
  split
  · exact iff_of_false (herror 1) (by omega)
  split
  · exact iff_of_false (herror 1) (by omega)
  rw [choosePos_isOk (by split <;> omega)]
  exact ⟨fun hfits => ⟨by omega, by omega, hfits⟩, fun hroom => hroom.2.2⟩

theorem putPos_error {frame : Frame cfg} {inWidx inRidx : Nat} {ret : Int}
    (h : s.putPos frame inWidx inRidx = .error ret) : ret ≠ 0 := by
  rw [State.putPos] at h
  split at h
  · exact Except.error.inj h ▸ by decide
  split at h
  · exact Except.error.inj h ▸ by decide
  · exact choosePos_error h

/-- A put that passes its checks, until its frame is entered behind those accepted before -/
def Goes (accepted : List (List UInt8)) (frame : Frame cfg) (s : State cfg) : Prop :=
  match s.producer with
  | .idle => s.accepted = accepted ++ [frame.buf1 ++ frame.buf2] ∧ s.putRet = 0
  | .begun frame' inWidx inRidx =>
      frame' = frame ∧ s.accepted = accepted ∧ ∃ pos, s.putPos frame inWidx inRidx = .ok pos
  | .placed frame' _ _ => frame' = frame ∧ s.accepted = accepted
  | .informed frame' _ _ => frame' = frame ∧ s.accepted = accepted
  | .copied1 frame' _ _ => frame' = frame ∧ s.accepted = accepted
  | .copied2 frame' _ _ => frame' = frame ∧ s.accepted = accepted

section Goes

variable {accepted : List (List UInt8)} {frame : Frame cfg} {e : Event cfg}

/-- The consumer only takes away frames, which lets no check fail. -/
theorem putPos_of_consumed {inWidx inRidx pos : Nat} (hinv : Inv s) (hinv' : Inv s')
    (hframes : s'.inFrames = s.inFrames) (haccepted : s'.accepted = s.accepted) (hconsumed : s.consumed ≤ s'.consumed)
    (h : s.putPos frame inWidx inRidx = .ok pos) : s'.putPos frame inWidx inRidx = .ok pos := by
  obtain ⟨base, front, back, hring, -⟩ := hinv
  obtain ⟨base', front', back', hring', -⟩ := hinv'
  have hpositions : s'.inPositions inWidx inRidx = s.inPositions inWidx inRidx := by
    rw [State.inPositions, State.inPositions, hframes]
  rw [State.putPos, hring.getInFrameCnt_eq] at h
  rw [State.putPos, hring'.getInFrameCnt_eq, haccepted, hpositions]
  split at h
  · cases h
  · rw [if_neg (by omega)]
    exact h

theorem Goes.consumer (hinv : Inv s) (h : Goes accepted frame s) (he : e.isPut = false) :
    ∃ s', InCache.step s e = some s' ∧ s'.producer = s.producer ∧ Goes accepted frame s' := by
  have hkeep : ∀ s' : State cfg, Inv s' → s'.producer = s.producer → s'.putRet = s.putRet →
      s'.inFrames = s.inFrames → s'.accepted = s.accepted → s.consumed ≤ s'.consumed → Goes accepted frame s' := by
    intro s' hinv' hproducer hret hframes haccepted hconsumed
    rw [Goes] at h ⊢
    rw [hproducer, haccepted, hret]
    split at h
    case h_2 =>
      obtain ⟨hframe, hsame, pos, hpos⟩ := h
      exact ⟨hframe, hsame, pos, putPos_of_consumed hinv hinv' hframes haccepted hconsumed hpos⟩
    all_goals exact h
  cases e with
  | put _ => cases he
  | putPos => cases he
  | putInfo => cases he
  | putCopy1 => cases he
  | putCopy2 => cases he
  | putDone => cases he
  | get =>
      cases hget : s.a2dpCpGetInFrame with
      | error ret =>
          have hstep : InCache.step s .get = some s := by simp only [InCache.step, hget]
          exact ⟨s, hstep, rfl, h⟩
      | ok found =>
          have hstep : InCache.step s .get = some { s with held := some found } := by simp only [InCache.step, hget]
          exact ⟨_, hstep, rfl, hkeep _ (hinv.get hget) rfl rfl rfl rfl (Nat.le_refl _)⟩
  | consume =>
      have hgoes : Inv s.a2dpCpConsumeInFrame.2 → s.a2dpCpConsumeInFrame.2.producer = s.producer ∧
          Goes accepted frame s.a2dpCpConsumeInFrame.2 := by
        rw [State.a2dpCpConsumeInFrame]
        split
        · exact fun _ => ⟨rfl, h⟩
        split
        · exact fun _ => ⟨rfl, h⟩
        · exact fun hinv' => ⟨rfl, hkeep _ hinv' rfl rfl rfl rfl (Nat.le_succ _)⟩
      exact ⟨_, rfl, hgoes hinv.consume⟩
  | resetFrame =>
      have hinv' := hinv.step (e := .resetFrame) rfl
      exact ⟨_, rfl, rfl, hkeep _ hinv' rfl rfl rfl rfl (Nat.le_refl _)⟩

theorem Goes.producer {rest : List (Event cfg)} (h : Goes accepted frame s) (hrest : s.producer.rest = e :: rest) :
    ∃ s', InCache.step s e = some s' ∧ s'.producer.rest = rest ∧ Goes accepted frame s' := by
  cases hproducer : s.producer <;> rw [hproducer] at hrest <;>
    simp only [Goes, hproducer] at h <;> cases hrest
  case begun frame' inWidx inRidx =>
    obtain ⟨rfl, hsame, pos, hpos⟩ := h
    have hstep : InCache.step s .putPos = some { s with producer := .placed frame' inWidx pos } := by
      simp only [InCache.step, hproducer, hpos]
    exact ⟨_, hstep, rfl, rfl, hsame⟩
  case copied2 frame' inWidx inWpos =>
    obtain ⟨rfl, rfl⟩ := h
    refine ⟨_, by simp only [InCache.step, hproducer]; rfl, ?_⟩
    exact ⟨rfl, rfl, rfl⟩
  all_goals
    obtain ⟨rfl, hsame⟩ := h
    refine ⟨_, by simp only [InCache.step, hproducer]; rfl, ?_⟩
    exact ⟨rfl, rfl, hsame⟩

theorem Goes.run {events : List (Event cfg)} (hinv : Inv s) (h : Goes accepted frame s)
    (hevents : events.filter Event.isPut = s.producer.rest) :
    ∃ t, Best1307.run InCache.step s events = some t ∧ t.accepted = accepted ++ [frame.buf1 ++ frame.buf2] ∧
      t.putRet = 0 := by
  induction events generalizing s with
  | nil =>
      refine ⟨s, rfl, ?_⟩
      cases hproducer : s.producer <;> rw [hproducer] at hevents <;> cases hevents
      simp only [Goes, hproducer] at h
      exact h
  | cons e events ih =>
      rw [List.filter_cons] at hevents
      have hstep : ∃ s', InCache.step s e = some s' ∧ events.filter Event.isPut = s'.producer.rest ∧
          Goes accepted frame s' := by
        cases he : e.isPut with
        | false =>
            obtain ⟨s', hstep, hproducer, hgoes⟩ := h.consumer hinv he
            rw [he] at hevents
            exact ⟨s', hstep, hproducer ▸ hevents, hgoes⟩
        | true =>
            rw [he, if_pos rfl] at hevents
            obtain ⟨s', hstep, hrest, hgoes⟩ := h.producer hevents.symm
            exact ⟨s', hstep, hrest.symm, hgoes⟩
      obtain ⟨s', hs', hevents', hgoes⟩ := hstep
      obtain ⟨t, hrun, hentered⟩ := ih (hinv.step hs') hgoes hevents'
      exact ⟨t, (run_cons_eq_some _).mpr ⟨s', hs', hrun⟩, hentered⟩

end Goes

/-! ### What is kept -/

/-- The frames taken are the first ones put, with their bytes. The others are the blocks; these lie in the cache, apart
from one another and from what is being put. The consumer gets the oldest one, and consuming it moves on. -/
structure Holds (t : State cfg) (blocks : List (Block UInt8)) : Prop where
  inOrder : t.taken ++ blocks.map Block.data = t.accepted
  apart : (blocks ++ t.producer.writing).Pairwise Block.Apart
  inside : ∀ b ∈ blocks ++ t.producer.writing, b.fin ≤ cfg.cacheSize
  stored : ∀ b ∈ blocks, b.Stored t.cpInCache
  gets : t.resetFrames = false →
    t.a2dpCpGetInFrame = (blocks.head?.map fun b => (b.pos, b.data.length)).elim (.error 1) .ok
  held : ∀ frame, t.held = some frame → blocks.head?.map (fun b => (b.pos, b.data.length)) = some frame
  consumesNone : t.resetFrames = false → blocks = [] → t.a2dpCpConsumeInFrame = (1, t)
  consumes : ∀ b rest, t.resetFrames = false → blocks = b :: rest →
    t.a2dpCpConsumeInFrame.1 = 0 ∧ t.a2dpCpConsumeInFrame.2.taken = t.taken ++ [b.data] ∧
      t.a2dpCpConsumeInFrame.2.accepted = t.accepted

/-- A frame for which there is room is entered behind the others, whatever the consumer does meanwhile, and one for
which there is none is refused and leaves all as it is. -/
structure Keeps (t : State cfg) (blocks : List (Block UInt8)) : Prop extends Holds t blocks where
  enters : ∀ (frame : Frame cfg) (events : List (Event cfg)), t.producer = .idle → t.resetFrames = false →
    HasRoom cfg blocks (frame.buf1.length + frame.buf2.length) →
    events.filter Event.isPut = [.putPos, .putInfo, .putCopy1, .putCopy2, .putDone] →
    ∃ t', run step t (.put frame :: events) = some t' ∧ t'.accepted = t.accepted ++ [frame.buf1 ++ frame.buf2] ∧
      t'.putRet = 0
  refuses : ∀ frame : Frame cfg, t.producer = .idle → t.resetFrames = false →
    ¬ HasRoom cfg blocks (frame.buf1.length + frame.buf2.length) →
    ∃ ret, ret ≠ 0 ∧ run step t [.put frame, .putPos] = some { t with putRet := ret }

theorem Ring.holds {base : Nat} {front back front' back' : List (Block UInt8)} (hring : Ring t base front back)
    (hputs : Puts t base front back t.producer) (hblocks : front' ++ back' = (front ++ back).drop (t.consumed - base))
    (hring' : Ring t t.consumed front' back') : Holds t (front' ++ back') := by
  obtain ⟨hapart, hin⟩ := hputs.writing hring
  have hsub : (front' ++ back' ++ t.producer.writing).Sublist (front ++ back ++ t.producer.writing) := by
    rw [hblocks]
    exact (List.drop_sublist _ _).append (List.Sublist.refl _)
  have hlen := hring'.length_blocks
  have hreset : t.resetFrames = false → ¬ t.resetFrames = true := fun h => by rw [h]; exact Bool.false_ne_true
  refine ⟨?_, hapart.sublist hsub, fun b hb => hin b (hsub.subset hb), hring'.stored, fun hnot => ?_,
    fun frame hheld => ?_, fun hnot hnil => ?_, fun b rest hnot hcons => ?_⟩
  · rw [hring'.taken, ← hring'.frames, List.take_append_drop]
  · rw [State.a2dpCpGetInFrame, if_neg (hreset hnot)]
    by_cases hmore : t.consumed < t.accepted.length
    · rw [if_neg fun heq => Nat.ne_of_lt hmore (hring.indexes_eq_iff.mp heq), hring'.head?_eq hmore]
      rfl
    · rw [if_pos (hring.indexes_eq_iff.mpr (Nat.le_antisymm hring.consumed_le (Nat.not_lt.mp hmore)))]
      rw [List.length_eq_zero_iff.mp (show (front' ++ back').length = 0 by omega)]
      rfl
  · obtain ⟨hmore, hinfo⟩ := hring'.held frame hheld
    rw [hring'.head?_eq hmore, hinfo]
  · have hle := hring'.consumed_le
    have hnone := hlen.symm.trans (congrArg List.length hnil)
    rw [List.length_nil] at hnone
    rw [State.a2dpCpConsumeInFrame, if_neg (hreset hnot), if_pos (hring.indexes_eq_iff.mpr (by omega))]
  · have hone := hlen.symm.trans (congrArg List.length hcons)
    rw [List.length_cons] at hone
    have hmore : t.consumed < t.accepted.length := by omega
    have hne : ¬ t.cpInWidx = t.cpInRidx := fun heq => Nat.ne_of_lt hmore (hring.indexes_eq_iff.mp heq)
    have hhead := hring'.head?_eq hmore
    rw [hcons, List.head?_cons, Option.map_some, Option.some.injEq, Prod.mk.injEq] at hhead
    have hstored : read t.cpInCache b.pos b.data.length = b.data :=
      hring'.stored b (hcons ▸ List.mem_cons_self)
    rw [State.a2dpCpConsumeInFrame, if_neg (hreset hnot), if_neg hne]
    refine ⟨rfl, ?_, rfl⟩
    simp only [← hhead.1, ← hhead.2, hstored]

theorem Inv.exists_blocks (hinv : Inv t) : ∃ blocks, Keeps t blocks := by
  have hbegun := fun frame : Frame cfg => @Inv.put cfg t frame hinv
  obtain ⟨base, front, back, hring, hputs⟩ := hinv
  obtain ⟨front', back', hblocks, hring'⟩ := hring.rebase
  have hbegin : ∀ frame, t.producer = .idle → t.resetFrames = false →
      InCache.step t (.put frame) = some { t with producer := .begun frame t.cpInWidx t.cpInRidx } := by
    intro frame hidle hreset
    simp only [InCache.step, hidle, hreset, Bool.false_eq_true, if_false]
  refine ⟨front' ++ back', hring.holds hputs hblocks hring', fun frame events hidle hreset hroom hevents => ?_,
    fun frame hidle hreset hroom => ?_⟩
  · obtain ⟨pos, hpos⟩ := (hring'.putPos_isOk frame).mpr hroom
    have hgoes : Goes t.accepted frame { t with producer := .begun frame t.cpInWidx t.cpInRidx } :=
      ⟨rfl, rfl, pos, hpos⟩
    rw [run_cons, hbegin frame hidle hreset]
    exact hgoes.run (hbegun frame) hevents
  · cases hpos : t.putPos frame t.cpInWidx t.cpInRidx with
    | ok pos => exact absurd ((hring'.putPos_isOk frame).mp ⟨pos, hpos⟩) hroom
    | error ret =>
        have hcheck : InCache.step { t with producer := .begun frame t.cpInWidx t.cpInRidx } .putPos =
            some { t with producer := .idle, putRet := ret } := by
          have hsame : State.putPos { t with producer := .begun frame t.cpInWidx t.cpInRidx } frame t.cpInWidx
              t.cpInRidx = .error ret := hpos
          simp only [InCache.step, hsame]
        refine ⟨ret, putPos_error hpos, ?_⟩
        rw [run_cons, hbegin frame hidle hreset, Option.bind_some, run_cons, hcheck, ← hidle]
        rfl

/-- After the reset, whatever the order in which the two sides come. -/
theorem inCache_keeps {inFrames : Nat → FrameInfo} {cpInCache : Nat → UInt8} {events : List (Event cfg)}
    (hrun : run step (State.resetFrameInfo inFrames cpInCache) events = some t) : ∃ blocks, Keeps t blocks :=
  (run_invariant Inv (fun _ _ _ hs hstep => hs.step hstep) (inv_resetFrameInfo inFrames cpInCache) hrun).exists_blocks

theorem inCache_keeps_oneOfTwo :
    let frame : Frame defaultConfig := ⟨[1, 2, 3], [4, 5], by decide⟩
    let events := [Event.put frame, .putPos, .putInfo, .putCopy1, .putCopy2, .putDone, .put frame, .get, .putPos,
      .putInfo, .consume, .putCopy1, .putCopy2, .putDone, .get]
    ∃ t, run step (State.resetFrameInfo (fun _ => ⟨0, 0⟩) fun _ => 0) events = some t ∧
      t.accepted = [[1, 2, 3, 4, 5], [1, 2, 3, 4, 5]] ∧ t.taken = [[1, 2, 3, 4, 5]] ∧ t.held = some (8, 5) ∧
      ∃ blocks, Keeps t blocks := by
  intro frame events
  have hlogs : (run step (State.resetFrameInfo (fun _ => ⟨0, 0⟩) fun _ => 0) events).map
      (fun t => (t.accepted, t.taken, t.held)) =
        some ([[1, 2, 3, 4, 5], [1, 2, 3, 4, 5]], [[1, 2, 3, 4, 5]], some (8, 5)) := by
    decide
  obtain ⟨t, hrun, hlogs⟩ := Option.map_eq_some_iff.mp hlogs
  simp only [Prod.mk.injEq] at hlogs
  obtain ⟨haccepted, htaken, hheld⟩ := hlogs
  exact ⟨t, hrun, haccepted, htaken, hheld, inCache_keeps hrun⟩

end Run

end Best1307.InCache
