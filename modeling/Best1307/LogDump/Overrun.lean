import Best1307.LogDump.Remain

/-!
# Overrunning the flusher

When all buffers wait the output handler begins the oldest one anew. From then on what waits need not be in order: the
buffer being filled comes first, with full ones behind it, and a free one may be met before the rest.
-/

namespace Best1307.LogDump

open NvRecord (NorflashRet)

variable {cfg : Config} {s s' : State} {n : Nat} {remain : List UInt8}

/-! ### The output handler -/

structure SameBut (s s' : State) : Prop where
  fSeqnum : s'.fSeqnum = s.fSeqnum
  wSeqnum : s'.wSeqnum = s.wSeqnum
  flashOffs : s'.flashOffs = s.flashOffs
  flashState : s'.flashState = s.flashState
  others : ∀ i, i ≠ s.wSeqnum → s'.dataBufferList i = s.dataBufferList i

theorem SameBut.trans {r s t : State} (h : SameBut r s) (h' : SameBut s t) : SameBut r t where
  fSeqnum := h'.fSeqnum.trans h.fSeqnum
  wSeqnum := h'.wSeqnum.trans h.wSeqnum
  flashOffs := h'.flashOffs.trans h.flashOffs
  flashState := h'.flashState.trans h.flashState
  others i hi := (h'.others i (h.wSeqnum ▸ hi)).trans (h.others i hi)

theorem sameBut_setDataBuff (s : State) (b : DataBuffer) : SameBut s (s.setDataBuff b) :=
  ⟨rfl, rfl, rfl, rfl, fun _ hi => Function.update_of_ne hi ..⟩

theorem Basic.congr (h : Basic cfg s) (hsame : SameBut s s') (hsound : Sound s'.dataBuff) : Basic cfg s' := by
  refine ⟨hsame.fSeqnum ▸ h.fSeqnum, hsame.wSeqnum ▸ h.wSeqnum, hsame.flashOffs ▸ h.flashOffs,
    hsame.flashState ▸ h.flashState, fun i => ?_, fun i hi => ?_⟩
  · by_cases hself : i = s'.wSeqnum
    · rw [hself]
      exact hsound
    · rw [hsame.others i (hsame.wSeqnum ▸ hself)]
      exact h.sound i
  · rw [hsame.wSeqnum] at hi
    rw [hsame.others i hi]
    exact h.others i hi

theorem sameBut_putBytes (s : State) (bytes : List UInt8) : SameBut s (s.putBytes bytes) := sameBut_setDataBuff s _

/-- How far the buffer the next byte goes to is filled. -/
def State.filled (s : State) : Nat := if s.dataBuff.state = .writting then s.dataBuff.offset else LogDumpHeader.size

theorem Basic.begun (h : Basic cfg s) :
    SameBut s s.begin.putHeader ∧ s.begin.putHeader.dataBuff.state = .writting ∧
      s.begin.putHeader.dataBuff.offset = s.filled := by
  by_cases hstate : s.dataBuff.state = .writting
  · have hbegin : s.begin = s := if_neg (by rw [hstate]; rintro (h | h) <;> cases h)
    have hheader : s.putHeader = s := if_neg (Nat.ne_of_gt ((h.sound s.wSeqnum).writting hstate).1)
    rw [hbegin, hheader, State.filled, if_pos hstate]
    exact ⟨⟨rfl, rfl, rfl, rfl, fun _ _ => rfl⟩, hstate, rfl⟩
  · have hfresh : s.dataBuff.state = .free ∨ s.dataBuff.state = .written := by
      cases hs : s.dataBuff.state with
      | free => exact .inl rfl
      | writting => exact absurd hs hstate
      | written => exact .inr rfl
    have hbegin : s.begin = s.setDataBuff ⟨.writting, 0, List.replicate sectorSize 0⟩ := if_pos hfresh
    have hheader : s.begin.putHeader = s.replace ⟨.writting, 0 + LogDumpHeader.size,
        memcpy (List.replicate sectorSize 0) 0 (LogDumpHeader.filled s.curDumpSeqnum s.isBootup).bytes⟩ false
        (s.curDumpSeqnum + 1) := by
      rw [hbegin, State.putHeader, dataBuff_setDataBuff, if_pos rfl]
      simp only [State.setDataBuff, State.replace, Function.update_idem]
    rw [hheader, dataBuff_replace, State.filled, if_neg hstate]
    exact ⟨⟨rfl, rfl, rfl, rfl, fun _ hi => Function.update_of_ne hi ..⟩, rfl, Nat.zero_add _⟩

theorem Basic.filled_lt (h : Basic cfg s) : 0 < s.filled ∧ s.filled < sectorSize := by
  rw [State.filled]
  split
  case isTrue hstate => exact (h.sound s.wSeqnum).writting hstate
  case isFalse => decide

/-- What a turn of the loop stores of what remains, before it looks whether the buffer is full. -/
structure Turn (s : State) (remain : List UInt8) (s' : State) (rest : List UInt8) : Prop where
  same : SameBut s s'
  state : s'.dataBuff.state = .writting
  pos : 0 < s'.dataBuff.offset
  le : s'.dataBuff.offset ≤ sectorSize
  stored : s'.dataBuff.offset + rest.length = s.filled + remain.length
  all : s'.dataBuff.offset ≠ sectorSize → rest = []

theorem Basic.turn (h : Basic cfg s) (turns : Nat) (remain : List UInt8) :
    ∃ s' rest, Turn s remain s' rest ∧ State.outputLoop (turns + 1) s remain =
      if s'.dataBuff.offset = sectorSize then
        if s'.markWritten.wSeqnum = s'.markWritten.fSeqnum then
          some { s'.markWritten with lost := s'.markWritten.lost ++ [rest.length] }
        else if s'.markWritten.dataBuff.state = .writting then none
        else if rest = [] then some s'.markWritten
        else State.outputLoop turns s'.markWritten rest
      else some s' := by
  obtain ⟨hsame, hstate, hoffset⟩ := h.begun
  obtain ⟨hpos, hlt⟩ := h.filled_lt
  simp only [State.outputLoop]
  generalize s.begin.putHeader = s₁ at hsame hstate hoffset ⊢
  have hlen := writeLen_eq (s := s₁) (by omega) remain.length
  have hput : (s₁.putBytes (remain.take (s₁.writeLen remain.length))).dataBuff = _ := dataBuff_setDataBuff
  have htake : (remain.take (s₁.writeLen remain.length)).length = s₁.writeLen remain.length := by
    rw [List.length_take]
    omega
  have hrest : (remain.drop (s₁.writeLen remain.length)).length = remain.length - s₁.writeLen remain.length :=
    List.length_drop
  have hsame₂ := hsame.trans (sameBut_putBytes s₁ (remain.take (s₁.writeLen remain.length)))
  generalize s₁.putBytes (remain.take (s₁.writeLen remain.length)) = s₂ at *
  generalize remain.drop (s₁.writeLen remain.length) = rest at *
  have hoffset₂ : s₂.dataBuff.offset = s₁.dataBuff.offset + s₁.writeLen remain.length := by rw [hput, htake]
  have hall : s₂.dataBuff.offset ≠ sectorSize → rest = [] := by
    intro hne
    refine List.length_eq_zero_iff.mp ?_
    omega
  refine ⟨s₂, rest, ⟨hsame₂, by rw [hput]; exact hstate, by omega, by omega, by omega, hall⟩, ?_⟩
  by_cases hfull : s₂.dataBuff.offset = sectorSize
  · rw [if_pos hfull, if_pos hfull]
  · rw [if_neg hfull, if_neg hfull, if_pos (hall hfull)]

theorem marked_same (s : State) :
    s.markWritten.fSeqnum = s.fSeqnum ∧ s.markWritten.flashOffs = s.flashOffs ∧
      s.markWritten.flashState = s.flashState ∧ s.markWritten.wSeqnum = State.nextSeqnum s.wSeqnum ∧
      s.markWritten.dataBufferList s.wSeqnum = { s.dataBuff with state := .written } ∧
      ∀ i, i ≠ s.wSeqnum → s.markWritten.dataBufferList i = s.dataBufferList i :=
  ⟨rfl, rfl, rfl, rfl, Function.update_self .., fun _ hi => Function.update_of_ne hi ..⟩

theorem nextSeqnum_ne {i : Nat} (hi : i < sectorBufferCount) :
    State.nextSeqnum i ≠ i ∧ State.nextSeqnum i < sectorBufferCount := by
  rw [State.nextSeqnum]
  split
  case isTrue hlast =>
    simp only [sectorBufferCount] at *
    omega
  case isFalse hnot =>
    omega

theorem Basic.mark (h : Basic cfg s) {rest : List UInt8} (hturn : Turn s remain s' rest)
    (hfull : s'.dataBuff.offset = sectorSize) :
    Basic cfg s'.markWritten ∧ s'.markWritten.dataBuff.state ≠ .writting := by
  have hw : s'.wSeqnum < sectorBufferCount := hturn.same.wSeqnum ▸ h.wSeqnum
  obtain ⟨hne, hlt⟩ := nextSeqnum_ne hw
  obtain ⟨hf, hoffs, hstate, hnext, hself, hother⟩ := marked_same s'
  have hnot (i : Nat) : (s'.markWritten.dataBufferList i).state ≠ .writting := by
    by_cases hi : i = s'.wSeqnum
    · rw [hi, hself]
      nofun
    · rw [hother i hi, hturn.same.others i (hturn.same.wSeqnum ▸ hi)]
      exact h.others i (hturn.same.wSeqnum ▸ hi)
  refine ⟨⟨?_, ?_, ?_, ?_, fun i => ?_, fun i _ => hnot i⟩, hnot _⟩
  · rw [hf, hturn.same.fSeqnum]
    exact h.fSeqnum
  · rw [hnext]
    exact hlt
  · rw [hoffs, hturn.same.flashOffs]
    exact h.flashOffs
  · rw [hstate, hturn.same.flashState]
    exact h.flashState
  · by_cases hi : i = s'.wSeqnum
    · rw [hi, hself]
      exact ⟨fun _ => hfull, nofun⟩
    · rw [hother i hi, hturn.same.others i (hturn.same.wSeqnum ▸ hi)]
      exact h.sound i

/-! ### No overrun -/

/-- The next `n` buffers to be flushed are full, the handler fills the one behind them, and the others are free. -/
structure Tidy (s : State) (n : Nat) : Prop where
  le : n ≤ sectorBufferCount
  wSeqnum : s.wSeqnum = (s.fSeqnum + n) % sectorBufferCount
  written : ∀ i < n, (s.ahead i).state = .written
  current : n < sectorBufferCount → s.dataBuff.state ≠ .written
  free : ∀ i, n < i → i < sectorBufferCount → (s.ahead i).state = .free

theorem Tidy.dataBuff_eq (h : Tidy s n) : s.dataBuff = s.ahead n := by
  rw [State.dataBuff, h.wSeqnum]
  rfl

theorem Tidy.inOrder (h : Tidy s n) : s.InOrder := by
  have hle := h.le
  by_cases hfilling : n < sectorBufferCount ∧ s.dataBuff.state ≠ .free
  · refine ⟨n + 1, hfilling.1, fun i hi => ?_, fun i hi hi' => h.free i hi hi', fun i hi => h.written i (by omega)⟩
    by_cases hlast : i = n
    · rw [hlast, ← h.dataBuff_eq]
      exact hfilling.2
    · rw [h.written i (by omega)]
      decide
  · refine ⟨n, hle, fun i hi => ?_, fun i hi hi' => ?_, fun i hi => h.written i (by omega)⟩
    · rw [h.written i hi]
      decide
    · by_cases hlast : i = n
      · rw [hlast, ← h.dataBuff_eq]
        by_cases hstate : s.dataBuff.state = .free
        · exact hstate
        · exact absurd ⟨hlast ▸ hi', hstate⟩ hfilling
      · exact h.free i (by omega) hi'

/-- In an overrun it is not: the buffer being filled comes before full ones. -/
theorem Tidy.overrun (h : Tidy s sectorBufferCount) (hf : s.fSeqnum < sectorBufferCount) (hsame : SameBut s s')
    (hstate : s'.dataBuff.state = .writting) : ¬s'.InOrder := by
  have hw : s.wSeqnum = s.fSeqnum := by rw [h.wSeqnum, Nat.add_mod_right, Nat.mod_eq_of_lt hf]
  have hzero : (s'.ahead 0).state = .writting := by
    rw [← hstate, State.ahead, hsame.fSeqnum, Nat.add_zero, Nat.mod_eq_of_lt hf, State.dataBuff, hsame.wSeqnum, hw]
  have hone : (s'.ahead 1).state = .written := by
    have hne : (s.fSeqnum + 1) % sectorBufferCount ≠ s.wSeqnum := by
      rw [hw]
      simp only [sectorBufferCount] at *
      omega
    rw [State.ahead, hsame.fSeqnum, hsame.others _ hne]
    exact h.written 1 (by decide)
  rintro ⟨n, hwaiting⟩
  have hmore : 1 < n := by
    refine Nat.lt_of_not_le fun hle => ?_
    have hfree := hwaiting.free 1 hle (by decide)
    rw [hone] at hfree
    cases hfree
  have hfirst := hwaiting.written 0 hmore
  rw [hzero] at hfirst
  cases hfirst

theorem Tidy.mark (h : Tidy s n) (hbasic : Basic cfg s) (hroom : n < sectorBufferCount) {rest : List UInt8}
    (hturn : Turn s remain s' rest) :
    Tidy s'.markWritten (n + 1) ∧ (n + 1 < sectorBufferCount → s'.markWritten.wSeqnum ≠ s'.markWritten.fSeqnum) := by
  obtain ⟨hf, -, -, hnext, hself, hother⟩ := marked_same s'
  have hflt := hbasic.fSeqnum
  have hw := h.wSeqnum
  have hsame (i : Nat) (hi : i < sectorBufferCount) (hne : i ≠ n) : s'.markWritten.ahead i = s.ahead i := by
    have hplace : (s.fSeqnum + i) % sectorBufferCount ≠ s.wSeqnum := by
      rw [hw]
      simp only [sectorBufferCount] at *
      omega
    rw [State.ahead, hf, hturn.same.fSeqnum, hother _ (hturn.same.wSeqnum ▸ hplace), hturn.same.others _ hplace]
    rfl
  have hhere : (s'.markWritten.ahead n).state = .written := by
    rw [State.ahead, hf, hturn.same.fSeqnum, ← hw, ← hturn.same.wSeqnum, hself]
  have hwnext : s'.markWritten.wSeqnum = (s.fSeqnum + (n + 1)) % sectorBufferCount := by
    rw [hnext, hturn.same.wSeqnum, hw, nextSeqnum_mod, Nat.add_assoc]
  have hwf : s'.markWritten.fSeqnum = s.fSeqnum := hf.trans hturn.same.fSeqnum
  refine ⟨⟨hroom, by rw [hwnext, hwf], fun i hi => ?_, fun hlt => ?_, fun i hi hi' => ?_⟩, fun hlt => ?_⟩
  · by_cases hlast : i = n
    · rw [hlast, hhere]
    · rw [hsame i (by omega) hlast]
      exact h.written i (by omega)
  · have hahead : s'.markWritten.dataBuff = s'.markWritten.ahead (n + 1) := by
      rw [State.dataBuff, hwnext, State.ahead, hwf]
    rw [hahead, hsame (n + 1) hlt (Nat.succ_ne_self n), h.free (n + 1) (Nat.lt_succ_self n) hlt]
    decide
  · rw [hsame i hi' (by omega)]
    exact h.free i (by omega) hi'
  · rw [hwnext, hwf]
    simp only [sectorBufferCount] at *
    omega

theorem Tidy.turn (h : Tidy s n) (hbasic : Basic cfg s) (hroom : n < sectorBufferCount) {rest : List UInt8}
    (hturn : Turn s remain s' rest) : Tidy s' n := by
  have hflt := hbasic.fSeqnum
  have hsame (i : Nat) (hi : i < sectorBufferCount) (hne : i ≠ n) : s'.ahead i = s.ahead i := by
    have hplace : (s.fSeqnum + i) % sectorBufferCount ≠ s.wSeqnum := by
      rw [h.wSeqnum]
      simp only [sectorBufferCount] at *
      omega
    rw [State.ahead, hturn.same.fSeqnum, hturn.same.others _ hplace]
    rfl
  refine ⟨h.le, ?_, fun i hi => ?_, fun _ => ?_, fun i hi hi' => ?_⟩
  · rw [hturn.same.wSeqnum, hturn.same.fSeqnum, h.wSeqnum]
  · rw [hsame i (by omega) (by omega)]
    exact h.written i hi
  · rw [hturn.state]
    decide
  · rw [hsame i hi' (by omega)]
    exact h.free i hi hi'

/-- How many buffers the handler can fill before its index meets `log_dump_f_seqnum`. -/
def State.gap (s : State) : Nat := (s.fSeqnum + sectorBufferCount - 1 - s.wSeqnum) % sectorBufferCount + 1

theorem gap_next {w f : Nat} (hw : w < sectorBufferCount) (hf : f < sectorBufferCount)
    (hmeet : State.nextSeqnum w ≠ f) :
    (f + sectorBufferCount - 1 - State.nextSeqnum w) % sectorBufferCount + 1 =
      (f + sectorBufferCount - 1 - w) % sectorBufferCount := by
  by_cases hlast : w + 1 = sectorBufferCount
  · have hnext : State.nextSeqnum w = 0 := if_pos hlast
    rw [hnext] at hmeet ⊢
    simp only [sectorBufferCount] at *
    omega
  · have hnext : State.nextSeqnum w = w + 1 := if_neg hlast
    rw [hnext] at hmeet ⊢
    simp only [sectorBufferCount] at *
    omega

/-- The handler comes to its end. If it does not begin in a buffer that waits, it fills one after another: either all
are full then, or everything is stored. -/
theorem outputLoop_tidy (h : Basic cfg s) {turns : Nat} (hgap : s.gap ≤ turns) (remain : List UInt8) :
    ∃ s', State.outputLoop turns s remain = some s' ∧ Basic cfg s' ∧ ∀ n < sectorBufferCount, Tidy s n →
      ∃ n', Tidy s' n' ∧ (n' < sectorBufferCount →
        n' * payloadSize + s'.filled = n * payloadSize + s.filled + remain.length) := by
  induction turns generalizing s remain with
  | zero => exact absurd hgap (Nat.not_succ_le_zero _)
  | succ turns ih =>
      obtain ⟨s₂, rest, hturn, hloop⟩ := h.turn turns remain
      rw [hloop]
      have hstored := hturn.stored
      by_cases hfull : s₂.dataBuff.offset = sectorSize
      · obtain ⟨hbasic, hmarked⟩ := h.mark hturn hfull
        obtain ⟨hf, -, -, hnext, -, -⟩ := marked_same s₂
        have hfilled : s₂.markWritten.filled = LogDumpHeader.size := if_neg hmarked
        -- the buffer is counted with its header, and the next one starts with its own
        have hcount (n : Nat) : (n + 1) * payloadSize + s₂.markWritten.filled + rest.length =
            n * payloadSize + s.filled + remain.length := by
          have hpayload : payloadSize + LogDumpHeader.size = sectorSize := by decide
          rw [hfilled, Nat.succ_mul]
          omega
        rw [if_pos hfull]
        by_cases hmeet : s₂.markWritten.wSeqnum = s₂.markWritten.fSeqnum
        · rw [if_pos hmeet]
          refine ⟨_, rfl, ⟨hbasic.fSeqnum, hbasic.wSeqnum, hbasic.flashOffs, hbasic.flashState, hbasic.sound,
            hbasic.others⟩, fun n hn htidy => ?_⟩
          obtain ⟨htidy, hapart⟩ := htidy.mark h hn hturn
          exact ⟨n + 1, ⟨htidy.le, htidy.wSeqnum, htidy.written, htidy.current, htidy.free⟩,
            fun hlt => absurd hmeet (hapart hlt)⟩
        · rw [if_neg hmeet, if_neg hmarked]
          by_cases hrest : rest = []
          · rw [if_pos hrest]
            refine ⟨_, rfl, hbasic, fun n hn htidy => ⟨n + 1, (htidy.mark h hn hturn).1, fun _ => ?_⟩⟩
            have := hcount n
            rwa [hrest, List.length_nil, Nat.add_zero] at this
          · rw [if_neg hrest]
            have hgap' : s₂.markWritten.gap ≤ turns := by
              rw [hf, hnext, hturn.same.fSeqnum, hturn.same.wSeqnum] at hmeet
              have hless := gap_next h.wSeqnum h.fSeqnum hmeet
              rw [State.gap] at hgap ⊢
              rw [hf, hnext, hturn.same.fSeqnum, hturn.same.wSeqnum]
              omega
            obtain ⟨s', hs', hbasic', htidy'⟩ := ih hbasic hgap' rest
            refine ⟨s', hs', hbasic', fun n hn htidy => ?_⟩
            obtain ⟨htidy, -⟩ := htidy.mark h hn hturn
            have hmore : n + 1 < sectorBufferCount := by
              refine Nat.lt_of_le_of_ne hn fun hall => hmeet ?_
              rw [htidy.wSeqnum, hall, Nat.add_mod_right, Nat.mod_eq_of_lt hbasic.fSeqnum]
            obtain ⟨n', htidy', hend⟩ := htidy' (n + 1) hmore htidy
            exact ⟨n', htidy', fun hlt => (hend hlt).trans (hcount n)⟩
      · rw [if_neg hfull]
        have hlt : s₂.dataBuff.offset < sectorSize := Nat.lt_of_le_of_ne hturn.le hfull
        refine ⟨s₂, rfl, h.congr hturn.same ⟨fun hstate => ?_, fun _ => ⟨hturn.pos, hlt⟩⟩, fun n hn htidy => ?_⟩
        · rw [hturn.state] at hstate
          cases hstate
        · refine ⟨n, htidy.turn h hn hturn, fun _ => ?_⟩
          have hfilled : s₂.filled = s₂.dataBuff.offset := if_pos hturn.state
          rw [hturn.all hfull, List.length_nil, Nat.add_zero] at hstored
          rw [hfilled, hstored, Nat.add_assoc]

/-! ### Runs -/

def Event.IsBackground : Event → Prop
  | .flushRemain _ => False
  | _ => True

/-- The handler does not begin in a buffer that waits to be flushed. -/
def FindsRoom (s : State) : Event → Prop
  | .output buf behind => State.IsOwnTrace buf behind ∨ s.dataBuff.state ≠ .written
  | _ => True

theorem getSeqnum_lt (cfg : Config) (flash : Nat → List UInt8) : (getSeqnum cfg flash).2 < cfg.sectorCount := by
  rw [getSeqnum]
  split
  · dsimp only
    split
    case isTrue => exact cfg.sectorCount_pos
    case isFalse hmore => exact Nat.lt_of_not_le hmore
  · exact cfg.sectorCount_pos

theorem basic_logDumpInit (cfg : Config) (flash : Nat → List UInt8) (earlier : List (Nat × List UInt8)) :
    Basic cfg (logDumpInit cfg flash earlier) ∧ Tidy (logDumpInit cfg flash earlier) 0 :=
  ⟨⟨Nat.succ_pos 15, Nat.succ_pos 15, ⟨_, getSeqnum_lt cfg flash, rfl⟩, nofun, fun _ => ⟨nofun, nofun⟩,
      fun _ _ => nofun⟩,
    ⟨Nat.zero_le _, rfl, nofun, fun _ => nofun, fun _ _ _ => rfl⟩⟩

theorem Tidy.writeOk (h : Tidy s n) (hbasic : Basic cfg s)
    (hwritten : (s.dataBufferList s.fSeqnum).state = .written) : ∃ m, Tidy (s.writeOk cfg) m := by
  have hnext (i : Nat) (hi : i + 1 < sectorBufferCount) : (s.writeOk cfg).ahead i = s.ahead (i + 1) :=
    (hbasic.ahead_writeOk (Nat.lt_of_succ_lt hi)).1 hi
  have hround (i : Nat) (hi : i + 1 = sectorBufferCount) : ((s.writeOk cfg).ahead i).state = .free :=
    (hbasic.ahead_writeOk (by omega)).2 hi
  have hle := h.le
  rcases n with _ | m
  · have hcurrent := h.current (by decide)
    rw [h.dataBuff_eq, hbasic.ahead_zero] at hcurrent
    exact absurd hwritten hcurrent
  have hw : (s.writeOk cfg).wSeqnum = ((s.writeOk cfg).fSeqnum + m) % sectorBufferCount := by
    have hplace : State.nextSeqnum s.fSeqnum = (s.fSeqnum + 1) % sectorBufferCount := by
      rw [← nextSeqnum_mod, Nat.mod_eq_of_lt hbasic.fSeqnum]
    show s.wSeqnum = (State.nextSeqnum s.fSeqnum + m) % sectorBufferCount
    rw [h.wSeqnum, hplace, Nat.mod_add_mod, Nat.add_right_comm, Nat.add_assoc]
  refine ⟨m, Nat.le_of_succ_le hle, hw, fun i hi => ?_, fun _ => ?_, fun i hi hi' => ?_⟩
  · rw [hnext i (by omega)]
    exact h.written (i + 1) (by omega)
  · have hahead : (s.writeOk cfg).dataBuff = (s.writeOk cfg).ahead m := by
      rw [State.dataBuff, hw]
      rfl
    rw [hahead]
    by_cases hlast : m + 1 = sectorBufferCount
    · rw [hround m hlast]
      decide
    · rw [hnext m (by omega), ← h.dataBuff_eq]
      exact h.current (by omega)
  · by_cases hlast : i + 1 = sectorBufferCount
    · exact hround i hlast
    · rw [hnext i (by omega)]
      exact h.free (i + 1) (by omega) (by omega)

theorem Basic.logDumpFlush (h : Basic cfg s) (ret : NorflashRet) :
    Basic cfg (s.logDumpFlush cfg ret) ∧ ∀ n, Tidy s n → ∃ n', Tidy (s.logDumpFlush cfg ret) n' := by
  rw [State.logDumpFlush]
  have hflushed : Flushed cfg s BufferState.written.bits (s.flush cfg BufferState.written.bits true ret) :=
    flushed BufferState.written.bits true ret
  generalize s.flush cfg BufferState.written.bits true ret = s' at hflushed ⊢
  cases hflushed with
  | same => exact ⟨h, fun n htidy => ⟨n, htidy⟩⟩
  | erase hidle haligned =>
      exact ⟨h.eraseOk, fun n htidy => ⟨n, htidy.le, htidy.wSeqnum, htidy.written, htidy.current, htidy.free⟩⟩
  | refused hstate =>
      exact ⟨⟨h.fSeqnum, h.wSeqnum, h.flashOffs, nofun, h.sound, h.others⟩,
        fun n htidy => ⟨n, htidy.le, htidy.wSeqnum, htidy.written, htidy.current, htidy.free⟩⟩
  | write hstate hbuff =>
      have hwritten : (s.dataBufferList s.fSeqnum).state = .written := by
        cases hs : (s.dataBufferList s.fSeqnum).state with
        | free => exact absurd (by rw [hs]; rfl) hbuff
        | writting => exact absurd (by rw [hs]; rfl) hbuff
        | written => rfl
      exact ⟨h.writeOk hwritten, fun n htidy => htidy.writeOk h hwritten⟩

theorem Basic.outputHandler (h : Basic cfg s) (buf behind : List UInt8) :
    ∃ s', s.outputHandler buf behind = some s' ∧ Basic cfg s' ∧
      (FindsRoom s (.output buf behind) → ∀ n, Tidy s n → ∃ n', Tidy s' n') := by
  rw [State.outputHandler]
  split
  · exact ⟨s, rfl, h, fun _ n htidy => ⟨n, htidy⟩⟩
  · next hown =>
      have hgap : s.gap ≤ sectorBufferCount := Nat.succ_le_of_lt (Nat.mod_lt _ (by decide))
      obtain ⟨s', hs', hbasic, htidy⟩ := outputLoop_tidy h hgap buf
      refine ⟨s', hs', hbasic, fun hroom n hn => ?_⟩
      have hlt : n < sectorBufferCount := by
        refine Nat.lt_of_le_of_ne hn.le ?_
        rintro rfl
        have hw : s.wSeqnum = s.fSeqnum := by rw [hn.wSeqnum, Nat.add_mod_right, Nat.mod_eq_of_lt h.fSeqnum]
        have hfirst := hn.written 0 (by decide)
        rw [h.ahead_zero, ← hw] at hfirst
        exact hroom.resolve_left hown hfirst
      obtain ⟨n', hn', -⟩ := htidy n hlt hn
      exact ⟨n', hn'⟩

theorem Basic.step (h : Basic cfg s) {e : Event} (hbackground : e.IsBackground) (hstep : step cfg s e = some s') :
    Basic cfg s' ∧ (FindsRoom s e → (∃ n, Tidy s n) → ∃ n, Tidy s' n) := by
  cases e with
  | output buf behind =>
      obtain ⟨t, ht, hbasic, htidy⟩ := h.outputHandler buf behind
      obtain rfl := Option.some.inj (ht.symm.trans hstep)
      exact ⟨hbasic, fun hroom ⟨n, hn⟩ => htidy hroom n hn⟩
  | flush ret =>
      obtain rfl := Option.some.inj hstep
      obtain ⟨hbasic, htidy⟩ := h.logDumpFlush ret
      exact ⟨hbasic, fun _ ⟨n, hn⟩ => htidy n hn⟩
  | flushImmediately =>
      obtain rfl := Option.some.inj hstep
      exact ⟨⟨h.fSeqnum, h.wSeqnum, h.flashOffs, h.flashState, h.sound, h.others⟩,
        fun _ ⟨n, hn⟩ => ⟨n, hn.le, hn.wSeqnum, hn.written, hn.current, hn.free⟩⟩
  | flushRemain ret => exact absurd hbackground id
  | flashFinish =>
      obtain ⟨flash, -, rfl⟩ := Option.map_eq_some_iff.mp hstep
      exact ⟨⟨h.fSeqnum, h.wSeqnum, h.flashOffs, h.flashState, h.sound, h.others⟩,
        fun _ ⟨n, hn⟩ => ⟨n, hn.le, hn.wSeqnum, hn.written, hn.current, hn.free⟩⟩
  | flashTear content =>
      obtain ⟨flash, -, rfl⟩ := Option.map_eq_some_iff.mp hstep
      exact ⟨⟨h.fSeqnum, h.wSeqnum, h.flashOffs, h.flashState, h.sound, h.others⟩,
        fun _ ⟨n, hn⟩ => ⟨n, hn.le, hn.wSeqnum, hn.written, hn.current, hn.free⟩⟩
  | reboot =>
      obtain rfl := Option.some.inj hstep
      obtain ⟨hbasic, htidy⟩ := basic_logDumpInit cfg s.flash.physical (s.earlier ++ s.handed)
      exact ⟨hbasic, fun _ _ => ⟨0, htidy⟩⟩

theorem basic_run {events : List Event} (h : Basic cfg s) (hbackground : ∀ e ∈ events, e.IsBackground)
    (hrun : run (step cfg) s events = some s') :
    Basic cfg s' ∧ (Along (step cfg) FindsRoom s events → (∃ n, Tidy s n) → ∃ n, Tidy s' n) := by
  induction events generalizing s with
  | nil =>
      obtain rfl := Option.some.inj hrun
      exact ⟨h, fun _ htidy => htidy⟩
  | cons e events ih =>
      obtain ⟨t, ht, hrun⟩ := (run_cons_eq_some (step cfg)).mp hrun
      obtain ⟨hbasic, hkeeps⟩ := h.step (hbackground e List.mem_cons_self) ht
      obtain ⟨hend, hall⟩ := ih hbasic (fun e he => hbackground e (List.mem_cons_of_mem _ he)) hrun
      exact ⟨hend, fun hroom htidy => hall (hroom.2 t ht) (hkeeps hroom.1 htidy)⟩

/-- In every state that trace output and flushes in the background lead to, the loop of `_log_dump_flush_remain` ends
with everything given to the flash if and only if what waits is in order, and in a run without an overrun it is. -/
theorem flushRemain_ends_iff (cfg : Config) (flash : Nat → List UInt8) (events : List Event) (s : State)
    (hbackground : ∀ e ∈ events, e.IsBackground)
    (hrun : run (step cfg) (logDumpInit cfg flash []) events = some s) :
    (s.FlushRemainEnds cfg ↔ s.InOrder) ∧
      (Along (step cfg) FindsRoom (logDumpInit cfg flash []) events → s.FlushRemainEnds cfg) := by
  obtain ⟨hinit, htidy⟩ := basic_logDumpInit cfg flash []
  obtain ⟨hbasic, hall⟩ := basic_run hinit hbackground hrun
  refine ⟨hbasic.ends_iff, fun hroom => ?_⟩
  obtain ⟨n, hn⟩ := hall hroom ⟨0, htidy⟩
  exact hbasic.ends_iff.mpr hn.inOrder

/-- A chunk fills three buffers, and the background erases a sector and writes one of them to it. -/
def threeBuffers : List Event := [.output (List.replicate (3 * payloadSize) 0) [], .flush .ok, .flush .ok]

theorem flushRemain_ends_after_chunk :
    ∃ s, run (step ⟨4, by decide⟩) (logDumpInit ⟨4, by decide⟩ (fun _ => []) []) threeBuffers = some s ∧
      s.FlushRemainEnds ⟨4, by decide⟩ := by
  obtain ⟨s, hs, -⟩ :=
    (basic_logDumpInit ⟨4, by decide⟩ (fun _ => []) []).1.outputHandler (List.replicate (3 * payloadSize) 0) []
  have hrun : run (step ⟨4, by decide⟩) (logDumpInit ⟨4, by decide⟩ (fun _ => []) []) threeBuffers =
      some ((s.logDumpFlush ⟨4, by decide⟩ .ok).logDumpFlush ⟨4, by decide⟩ .ok) :=
    (run_cons_eq_some _).mpr ⟨s, hs, rfl⟩
  have hbackground : ∀ e ∈ threeBuffers, e.IsBackground := List.forall_mem_cons.mpr
    ⟨trivial, List.forall_mem_cons.mpr ⟨trivial, List.forall_mem_singleton.mpr trivial⟩⟩
  have hends := flushRemain_ends_iff ⟨4, by decide⟩ (fun _ => []) threeBuffers _ hbackground hrun
  exact ⟨_, hrun, hends.2 ⟨.inr nofun, fun _ _ => ⟨trivial, fun _ _ => ⟨trivial, fun _ _ => trivial⟩⟩⟩⟩

/-! ### An overrun -/

theorem Basic.fill (h : Basic cfg s) (htidy : Tidy s n) (hroom : n < sectorBufferCount) {buf behind : List UInt8}
    (hown : ¬State.IsOwnTrace buf behind)
    (hlen : (sectorBufferCount - n) * payloadSize + LogDumpHeader.size ≤ buf.length) :
    ∃ s', s.outputHandler buf behind = some s' ∧ Basic cfg s' ∧ Tidy s' sectorBufferCount := by
  have hgap : s.gap ≤ sectorBufferCount := Nat.succ_le_of_lt (Nat.mod_lt _ (by decide))
  obtain ⟨s', hs', hbasic, hkeeps⟩ := outputLoop_tidy h hgap buf
  obtain ⟨n', hn', hcount⟩ := hkeeps n hroom htidy
  refine ⟨s', (if_neg hown).trans hs', hbasic, ?_⟩
  have hall : n' = sectorBufferCount := by
    refine Nat.le_antisymm hn'.le (Nat.le_of_not_lt fun hlt => ?_)
    have hstored := hcount hlt
    have hfilled := hbasic.filled_lt.2
    simp only [sectorBufferCount, payloadSize, sectorSize, LogDumpHeader.size] at *
    omega
  exact hall ▸ hn'

/-- When all wait, a chunk that does not fill the oldest puts them out of order. -/
theorem Tidy.overrun_outputHandler (htidy : Tidy s sectorBufferCount) (h : Basic cfg s) {buf behind : List UInt8}
    (hown : ¬State.IsOwnTrace buf behind) (hlen : buf.length < payloadSize) :
    ∃ s', s.outputHandler buf behind = some s' ∧ ¬s'.InOrder := by
  obtain ⟨s', rest, hturn, hloop⟩ := h.turn (sectorBufferCount - 1) buf
  have hwritten : s.dataBuff.state = .written := by
    have hfirst := htidy.written 0 (by decide)
    rwa [h.ahead_zero, ← show s.wSeqnum = s.fSeqnum by
      rw [htidy.wSeqnum, Nat.add_mod_right, Nat.mod_eq_of_lt h.fSeqnum]] at hfirst
  have hfilled : s.filled = LogDumpHeader.size := if_neg (by rw [hwritten]; nofun)
  have hstored := hturn.stored
  have hpart : s'.dataBuff.offset ≠ sectorSize := by
    rw [hfilled] at hstored
    simp only [payloadSize] at hlen
    omega
  rw [if_neg hpart] at hloop
  exact ⟨s', (if_neg hown).trans hloop, htidy.overrun h.fSeqnum hturn.same hturn.state⟩

theorem not_isOwnTrace_replicate (len : Nat) : ¬State.IsOwnTrace (List.replicate (len + 1) 0) [] := by
  intro hinfix
  have hnil : (List.replicate (len + 1) (0 : UInt8) ++ []).takeWhile (· ≠ 0) = [] := rfl
  rw [State.IsOwnTrace, hnil] at hinfix
  exact absurd (List.infix_nil.mp hinfix) (by decide)

/-- After an overrun the loop need not end. -/
theorem overrun_never_ends :
    ¬∀ (cfg : Config) (flash : Nat → List UInt8) (events : List Event) (s : State), (∀ e ∈ events, e.IsBackground) →
      run (step cfg) (logDumpInit cfg flash []) events = some s → s.FlushRemainEnds cfg := by
  intro h
  let cfg : Config := ⟨1, by decide⟩
  obtain ⟨hinit, htidy⟩ := basic_logDumpInit cfg (fun _ => []) []
  obtain ⟨s, hs, hbasic, hfull⟩ := hinit.fill htidy (by decide)
    (not_isOwnTrace_replicate (sectorBufferCount * sectorSize)) (by rw [List.length_replicate]; decide)
  obtain ⟨s', hs', hnot⟩ := hfull.overrun_outputHandler hbasic (not_isOwnTrace_replicate 0) (by decide)
  let events : List Event := [.output (List.replicate (sectorBufferCount * sectorSize + 1) 0) [], .output [0] []]
  have hbackground : ∀ e ∈ events, e.IsBackground := by
    intro e he
    rcases List.mem_pair.mp he with rfl | rfl
    · exact trivial
    · exact trivial
  have hrun : run (step cfg) (logDumpInit cfg (fun _ => []) []) events = some s' :=
    (run_cons_eq_some _).mpr ⟨s, hs, (run_cons_eq_some _).mpr ⟨s', hs', rfl⟩⟩
  exact hnot ((basic_run hinit hbackground hrun).1.ends_iff.mp (h cfg _ events s' hbackground hrun))

end Best1307.LogDump
