import Best1307.LogDump.Order

/-!
# Flushing what remains

The loop of `_log_dump_flush_remain` writes one buffer after another from `log_dump_f_seqnum` on, until all are free. It
goes round forever where the next buffer is free, or a sector has been written in part, while other buffers wait.
-/

namespace Best1307.LogDump

open NvRecord (NorflashRet)

variable {cfg : Config} {s s' t : State} {n : Nat}

namespace State

/-- The loop of `_log_dump_flush_remain`, if it takes no more than `turns` turns. -/
def flushRemainLoop (cfg : Config) : Nat → State → Option State
  | 0, _ => none
  | turns + 1, s => (s.flushRemain cfg .ok).elim (some s) (flushRemainLoop cfg turns)

/-- The buffer that is flushed after `i` others. -/
def ahead (s : State) (i : Nat) : DataBuffer := s.dataBufferList ((s.fSeqnum + i) % sectorBufferCount)

def remaining (s : State) : List (List UInt8) :=
  ((List.range sectorBufferCount).filter fun i => (s.ahead i).state ≠ .free).map fun i =>
    (s.ahead i).buffer.take (s.ahead i).offset

/-- The loop comes to its end, with all that the buffers hold given to the flash. -/
def FlushRemainEnds (cfg : Config) (s : State) : Prop :=
  ∃ turns t, flushRemainLoop cfg turns s = some t ∧ t.handed.map (·.2) = s.handed.map (·.2) ++ s.remaining

/-- The `n` buffers that are not free are the next ones to be flushed, and all but the last of them are full. -/
structure Waiting (s : State) (n : Nat) : Prop where
  le : n ≤ sectorBufferCount
  unfree : ∀ i < n, (s.ahead i).state ≠ .free
  free : ∀ i, n ≤ i → i < sectorBufferCount → (s.ahead i).state = .free
  written : ∀ i, i + 1 < n → (s.ahead i).state = .written

def InOrder (s : State) : Prop := ∃ n, s.Waiting n

end State

/-! ### What holds in every state -/

/-- A buffer that waits is full, and one being filled is neither full nor empty. -/
structure Sound (b : DataBuffer) : Prop where
  written : b.state = .written → b.offset = sectorSize
  writting : b.state = .writting → 0 < b.offset ∧ b.offset < sectorSize

structure Basic (cfg : Config) (s : State) : Prop where
  fSeqnum : s.fSeqnum < sectorBufferCount
  wSeqnum : s.wSeqnum < sectorBufferCount
  flashOffs : ∃ k < cfg.sectorCount, s.flashOffs = k * sectorSize
  flashState : s.flashState ≠ .written
  sound : ∀ i, Sound (s.dataBufferList i)
  others : ∀ i, i ≠ s.wSeqnum → (s.dataBufferList i).state ≠ .writting

theorem Sound.pos (h : Sound (s.dataBufferList n)) (hunfree : (s.dataBufferList n).state ≠ .free) :
    0 < (s.dataBufferList n).offset := by
  cases hstate : (s.dataBufferList n).state with
  | free => exact absurd hstate hunfree
  | writting => exact (h.writting hstate).1
  | written =>
      rw [h.written hstate]
      decide

theorem unfree_iff (hf : s.fSeqnum < sectorBufferCount) :
    s.Unfree ↔ ∃ i < sectorBufferCount, (s.ahead i).state ≠ .free := by
  constructor
  · rintro ⟨i, hi, hstate⟩
    refine ⟨(i + sectorBufferCount - s.fSeqnum) % sectorBufferCount, Nat.mod_lt _ (by decide), ?_⟩
    have hplace : (s.fSeqnum + (i + sectorBufferCount - s.fSeqnum) % sectorBufferCount) % sectorBufferCount = i := by
      simp only [sectorBufferCount] at *
      omega
    rwa [State.ahead, hplace]
  · rintro ⟨i, -, hstate⟩
    exact ⟨_, Nat.mod_lt _ (by decide), hstate⟩

namespace Basic

theorem ahead_zero (h : Basic cfg s) : s.ahead 0 = s.dataBufferList s.fSeqnum := by
  rw [State.ahead, Nat.add_zero, Nat.mod_eq_of_lt h.fSeqnum]

theorem aligned (h : Basic cfg s) : s.flashOffs % sectorSize = 0 := by
  obtain ⟨k, -, hk⟩ := h.flashOffs
  rw [hk, offset_mod]

/-- After a write the others come one sooner, and the buffer written is the last. -/
theorem ahead_writeOk (h : Basic cfg s) {i : Nat} (hi : i < sectorBufferCount) :
    (i + 1 < sectorBufferCount → (s.writeOk cfg).ahead i = s.ahead (i + 1)) ∧
      (i + 1 = sectorBufferCount → ((s.writeOk cfg).ahead i).state = .free) := by
  have hf := h.fSeqnum
  have hplace : (State.nextSeqnum s.fSeqnum + i) % sectorBufferCount = (s.fSeqnum + (i + 1)) % sectorBufferCount := by
    rw [State.nextSeqnum]
    by_cases hround : s.fSeqnum + 1 = sectorBufferCount
    · rw [if_pos hround, Nat.add_comm i, ← Nat.add_assoc, hround, Nat.zero_add, Nat.add_mod_left]
    · rw [if_neg hround, Nat.add_assoc, Nat.add_comm 1]
  have hahead : (s.writeOk cfg).ahead i = (s.writeOk cfg).dataBufferList ((s.fSeqnum + (i + 1)) % sectorBufferCount) :=
    congrArg (s.writeOk cfg).dataBufferList hplace
  refine ⟨fun hlt => ?_, fun hlast => ?_⟩
  · have hne : (s.fSeqnum + (i + 1)) % sectorBufferCount ≠ s.fSeqnum := by
      simp only [sectorBufferCount] at *
      omega
    rw [hahead]
    exact Function.update_of_ne hne ..
  · have hsame : (s.fSeqnum + (i + 1)) % sectorBufferCount = s.fSeqnum := by
      rw [hlast, Nat.add_mod_right, Nat.mod_eq_of_lt hf]
    have hself : (s.writeOk cfg).dataBufferList s.fSeqnum = { s.dataBufferList s.fSeqnum with state := .free } :=
      Function.update_self ..
    rw [hahead, hsame, hself]

theorem eraseOk (h : Basic cfg s) : Basic cfg s.eraseOk :=
  ⟨h.fSeqnum, h.wSeqnum, h.flashOffs, nofun, h.sound, h.others⟩

theorem sound_writeOk (h : Basic cfg s) (i : Nat) : Sound ((s.writeOk cfg).dataBufferList i) := by
  by_cases hself : i = s.fSeqnum
  · have hfree : (s.writeOk cfg).dataBufferList i = { s.dataBufferList s.fSeqnum with state := .free } := by
      rw [hself]
      exact Function.update_self ..
    rw [hfree]
    exact ⟨nofun, nofun⟩
  · have hsame : (s.writeOk cfg).dataBufferList i = s.dataBufferList i := Function.update_of_ne hself ..
    rw [hsame]
    exact h.sound i

theorem others_writeOk (h : Basic cfg s) (i : Nat) (hi : i ≠ s.wSeqnum) :
    ((s.writeOk cfg).dataBufferList i).state ≠ .writting := by
  by_cases hself : i = s.fSeqnum
  · have hfree : (s.writeOk cfg).dataBufferList i = { s.dataBufferList s.fSeqnum with state := .free } := by
      rw [hself]
      exact Function.update_self ..
    rw [hfree]
    nofun
  · have hsame : (s.writeOk cfg).dataBufferList i = s.dataBufferList i := Function.update_of_ne hself ..
    rw [hsame]
    exact h.others i hi

theorem fSeqnum_writeOk (h : Basic cfg s) : (s.writeOk cfg).fSeqnum < sectorBufferCount := by
  have hf := h.fSeqnum
  show State.nextSeqnum s.fSeqnum < _
  rw [State.nextSeqnum]
  split <;> omega

theorem writeOk (h : Basic cfg s) (hwritten : (s.dataBufferList s.fSeqnum).state = .written) :
    Basic cfg (s.writeOk cfg) := by
  refine ⟨h.fSeqnum_writeOk, h.wSeqnum, ?_, nofun, h.sound_writeOk, h.others_writeOk⟩
  obtain ⟨k, hk, hoffs⟩ := h.flashOffs
  refine ⟨(k + 1) % cfg.sectorCount, Nat.mod_lt _ cfg.sectorCount_pos, ?_⟩
  have hnext := nextOffs cfg k
  rw [Nat.mod_eq_of_lt hk, ← hoffs] at hnext
  have hoffset : (s.dataBufferList s.fSeqnum).offset = sectorSize := (h.sound s.fSeqnum).written hwritten
  rw [← hnext]
  simp only [State.writeOk, hoffset]

theorem writeOk_part (h : Basic cfg s) (hwritting : (s.dataBufferList s.fSeqnum).state = .writting) :
    (s.writeOk cfg).flashOffs % sectorSize ≠ 0 := by
  obtain ⟨k, hk, hoffs⟩ := h.flashOffs
  obtain ⟨hpos, hlt⟩ := (h.sound s.fSeqnum).writting hwritting
  have hroom : (k + 1) * sectorSize ≤ cfg.sectorCount * sectorSize := Nat.mul_le_mul_right _ hk
  rw [Nat.succ_mul] at hroom
  have hnext : (s.writeOk cfg).flashOffs = s.flashOffs + (s.dataBufferList s.fSeqnum).offset := if_neg (by omega)
  rw [hnext, hoffs, Nat.mul_comm, Nat.mul_add_mod, Nat.mod_eq_of_lt hlt]
  exact Nat.ne_of_gt hpos

end Basic

/-! ### The loop -/

theorem flushRemain_cases (h : Basic cfg s) (hunfree : s.Unfree) :
    (s.flashState = .idle ∧ s.flushRemain cfg .ok = some s.eraseOk) ∨
    (s.flashState ≠ .idle ∧ (s.ahead 0).state = .free ∧ s.flushRemain cfg .ok = some s) ∨
    (s.flashState ≠ .idle ∧ (s.ahead 0).state ≠ .free ∧ s.flushRemain cfg .ok = some (s.writeOk cfg)) := by
  have hret : s.flashApiRet false .ok = .ok := rfl
  rw [State.flushRemain, if_pos hunfree, h.ahead_zero, State.flush]
  by_cases hidle : s.flashState = .idle
  · rw [if_pos ⟨hidle, h.aligned⟩, hret]
    exact .inl ⟨hidle, rfl⟩
  · have hstate : s.flashState = .erased ∨ s.flashState = .writting := by
      cases hs : s.flashState with
      | idle => exact absurd hs hidle
      | erased => exact .inl rfl
      | writting => exact .inr rfl
      | written => exact absurd hs h.flashState
    rw [if_neg fun hboth => hidle hboth.1, if_pos hstate]
    by_cases hfree : (s.dataBufferList s.fSeqnum).state = .free
    · refine .inr (.inl ⟨hidle, hfree, ?_⟩)
      simp only [hfree]
      rw [if_neg fun hboth => hboth.1 (by decide)]
    · refine .inr (.inr ⟨hidle, hfree, ?_⟩)
      have hbits : (s.dataBufferList s.fSeqnum).state.bits &&&
          (BufferState.writting.bits ||| BufferState.written.bits) ≠ 0 := by
        cases hs : (s.dataBufferList s.fSeqnum).state with
        | free => exact absurd hs hfree
        | writting => decide
        | written => decide
      simp only
      rw [if_pos ⟨hbits, (h.sound s.fSeqnum).pos hfree⟩, hret]

theorem flushRemainLoop_some {turns : Nat} (h : s.flushRemain cfg .ok = some s') :
    State.flushRemainLoop cfg (turns + 1) s = State.flushRemainLoop cfg turns s' :=
  congrArg (Option.elim · (some s) (State.flushRemainLoop cfg turns)) h

theorem flushRemainLoop_none {turns : Nat} (h : ¬s.Unfree) : State.flushRemainLoop cfg (turns + 1) s = some s := by
  have hturn : s.flushRemain cfg .ok = none := if_neg h
  exact congrArg (Option.elim · (some s) (State.flushRemainLoop cfg turns)) hturn

/-- Behind part of a sector nothing more is written. -/
theorem flushRemainLoop_part (hidle : s.flashState = .idle) (hoffs : s.flashOffs % sectorSize ≠ 0) {turns : Nat}
    (hends : State.flushRemainLoop cfg turns s = some t) : ¬s.Unfree := by
  intro hunfree
  have hsame : s.flushRemain cfg .ok = some s := by
    have hnot : ¬(s.flashState = .erased ∨ s.flashState = .writting) := by
      rw [hidle]
      rintro (h | h) <;> cases h
    rw [State.flushRemain, if_pos hunfree, State.flush, if_neg fun hboth => hoffs hboth.2, if_neg hnot]
  induction turns with
  | zero => exact absurd hends (Option.some_ne_none t).symm
  | succ turns ih =>
      rw [flushRemainLoop_some hsame] at hends
      exact ih hends

/-! ### The order -/

theorem waiting_zero_iff (hf : s.fSeqnum < sectorBufferCount) : s.Waiting 0 ↔ ¬s.Unfree := by
  rw [unfree_iff hf]
  constructor
  · rintro hwaiting ⟨i, hi, hstate⟩
    exact hstate (hwaiting.free i (Nat.zero_le i) hi)
  · intro hnone
    refine ⟨Nat.zero_le _, nofun, fun i _ hi => ?_, nofun⟩
    by_cases hstate : (s.ahead i).state = .free
    · exact hstate
    · exact absurd ⟨i, hi, hstate⟩ hnone

theorem waiting_writeOk (h : Basic cfg s) (hunfree : (s.ahead 0).state ≠ .free)
    (hlast : (s.ahead 0).state = .written ∨ n = 0) : (s.writeOk cfg).Waiting n ↔ s.Waiting (n + 1) := by
  have hnext (i : Nat) (hi : i + 1 < sectorBufferCount) : (s.writeOk cfg).ahead i = s.ahead (i + 1) :=
    (h.ahead_writeOk (Nat.lt_of_succ_lt hi)).1 hi
  have hround : ((s.writeOk cfg).ahead (sectorBufferCount - 1)).state = .free :=
    (h.ahead_writeOk (by decide)).2 (by decide)
  constructor
  · intro hwaiting
    have hle := hwaiting.le
    have hlt : n < sectorBufferCount := by
      refine Nat.lt_of_le_of_ne hle ?_
      rintro rfl
      exact hwaiting.unfree (sectorBufferCount - 1) (by decide) hround
    refine ⟨hlt, fun i hi => ?_, fun i hi hi' => ?_, fun i hi => ?_⟩
    · rcases i with _ | i
      · exact hunfree
      · rw [← hnext i (by omega)]
        exact hwaiting.unfree i (by omega)
    · rcases i with _ | i
      · exact absurd hi (Nat.not_succ_le_zero n)
      · rw [← hnext i hi']
        exact hwaiting.free i (by omega) (by omega)
    · rcases i with _ | i
      · exact hlast.resolve_right (by omega)
      · rw [← hnext i (by omega)]
        exact hwaiting.written i (by omega)
  · intro hwaiting
    have hle := hwaiting.le
    refine ⟨Nat.le_of_succ_le hle, fun i hi => ?_, fun i hi hi' => ?_, fun i hi => ?_⟩
    · rw [hnext i (by omega)]
      exact hwaiting.unfree (i + 1) (by omega)
    · by_cases hend : i = sectorBufferCount - 1
      · rw [hend]
        exact hround
      · rw [hnext i (by omega)]
        exact hwaiting.free (i + 1) (by omega) (by omega)
    · rw [hnext i (by omega)]
      exact hwaiting.written (i + 1) (by omega)

/-- The loop ends only where the buffers that wait are in order. -/
theorem Basic.inOrder_of_ends (h : Basic cfg s) {turns : Nat} (hends : State.flushRemainLoop cfg turns s = some t) :
    s.InOrder := by
  induction turns generalizing s with
  | zero => exact absurd hends (Option.some_ne_none t).symm
  | succ turns ih =>
      by_cases hunfree : s.Unfree
      · rcases flushRemain_cases h hunfree with ⟨-, hturn⟩ | ⟨-, -, hturn⟩ | ⟨-, hstate, hturn⟩
        · rw [flushRemainLoop_some hturn] at hends
          obtain ⟨n, hwaiting⟩ := ih h.eraseOk hends
          exact ⟨n, hwaiting.le, hwaiting.unfree, hwaiting.free, hwaiting.written⟩
        · rw [flushRemainLoop_some hturn] at hends
          exact ih h hends
        · rw [flushRemainLoop_some hturn] at hends
          cases hs : (s.ahead 0).state with
          | free => exact absurd hs hstate
          | written =>
              obtain ⟨n, hwaiting⟩ := ih (h.writeOk (h.ahead_zero ▸ hs)) hends
              exact ⟨n + 1, (waiting_writeOk h hstate (.inl hs)).mp hwaiting⟩
          | writting =>
              have hnone := flushRemainLoop_part rfl (h.writeOk_part (h.ahead_zero ▸ hs)) hends
              exact ⟨1, (waiting_writeOk h hstate (.inr rfl)).mp ((waiting_zero_iff h.fSeqnum_writeOk).mpr hnone)⟩
      · exact ⟨0, (waiting_zero_iff h.fSeqnum).mpr hunfree⟩

theorem remaining_of_waiting (hwaiting : s.Waiting n) :
    s.remaining = (List.range n).map fun i => (s.ahead i).buffer.take (s.ahead i).offset := by
  have hfirst : (List.range n).filter (fun i => (s.ahead i).state ≠ .free) = List.range n := by
    refine List.filter_eq_self.mpr fun i hi => decide_eq_true ?_
    exact hwaiting.unfree i (List.mem_range.mp hi)
  have hrest : ((List.range (sectorBufferCount - n)).map (n + ·)).filter (fun i => (s.ahead i).state ≠ .free) = [] := by
    refine List.filter_eq_nil_iff.mpr fun i hi => ?_
    obtain ⟨j, hj, rfl⟩ := List.mem_map.mp hi
    rw [List.mem_range] at hj
    rw [hwaiting.free (n + j) (Nat.le_add_right n j) (by omega)]
    decide
  rw [State.remaining, ← Nat.add_sub_cancel' hwaiting.le, List.range_add, List.filter_append, hfirst, hrest,
    List.append_nil]

theorem remaining_writeOk (h : Basic cfg s) (hwaiting : s.Waiting (n + 1)) (hrest : (s.writeOk cfg).Waiting n) :
    s.remaining = (s.ahead 0).buffer.take (s.ahead 0).offset :: (s.writeOk cfg).remaining := by
  have hle := hwaiting.le
  rw [remaining_of_waiting hwaiting, remaining_of_waiting hrest, List.range_succ_eq_map, List.map_cons, List.map_map]
  refine congrArg _ (List.map_congr_left fun i hi => ?_)
  rw [List.mem_range] at hi
  rw [(h.ahead_writeOk (by omega)).1 (by omega), Function.comp_apply]

theorem Basic.ends_of_waiting (h : Basic cfg s) (hwaiting : s.Waiting n) : s.FlushRemainEnds cfg := by
  induction n generalizing s with
  | zero =>
      have hnone := (waiting_zero_iff h.fSeqnum).mp hwaiting
      refine ⟨1, s, flushRemainLoop_none hnone, ?_⟩
      rw [remaining_of_waiting hwaiting, List.range_zero, List.map_nil, List.append_nil]
  | succ n ih =>
      have hunfree : s.Unfree := (unfree_iff h.fSeqnum).mpr ⟨0, by decide, hwaiting.unfree 0 (Nat.succ_pos n)⟩
      -- once the sector has been erased, the next buffer is written
      have hwrite (s : State) (h : Basic cfg s) (hwaiting : s.Waiting (n + 1)) (hstate : s.flashState ≠ .idle)
          (hunfree : s.Unfree) : s.FlushRemainEnds cfg := by
        have hfirst := hwaiting.unfree 0 (Nat.succ_pos n)
        have hturn : s.flushRemain cfg .ok = some (s.writeOk cfg) := by
          rcases flushRemain_cases h hunfree with ⟨hidle, -⟩ | ⟨-, hfree, -⟩ | ⟨-, -, hturn⟩
          · exact absurd hidle hstate
          · exact absurd hfree hfirst
          · exact hturn
        have hlast : (s.ahead 0).state = .written ∨ n = 0 := by
          rcases n with _ | n
          · exact .inr rfl
          · exact .inl (hwaiting.written 0 (by omega))
        have hrest := (waiting_writeOk h hfirst hlast).mpr hwaiting
        have hremaining := remaining_writeOk h hwaiting hrest
        have hhanded : (s.writeOk cfg).handed.map (·.2) =
            s.handed.map (·.2) ++ [(s.ahead 0).buffer.take (s.ahead 0).offset] := by
          rw [h.ahead_zero]
          exact List.map_append
        obtain ⟨turns, t, hends, hgiven⟩ : (s.writeOk cfg).FlushRemainEnds cfg := by
          rcases hlast with hwritten | rfl
          · exact ih (h.writeOk (h.ahead_zero ▸ hwritten)) hrest
          · refine ⟨1, s.writeOk cfg, flushRemainLoop_none ((waiting_zero_iff h.fSeqnum_writeOk).mp hrest), ?_⟩
            rw [remaining_of_waiting hrest, List.range_zero, List.map_nil, List.append_nil]
        refine ⟨turns + 1, t, (flushRemainLoop_some hturn).trans hends, ?_⟩
        rw [hgiven, hhanded, hremaining, List.append_assoc, List.singleton_append]
      rcases flushRemain_cases h hunfree with ⟨-, hturn⟩ | ⟨hstate, -, -⟩ | ⟨hstate, -, -⟩
      · obtain ⟨turns, t, hends, hgiven⟩ := hwrite s.eraseOk h.eraseOk
          ⟨hwaiting.le, hwaiting.unfree, hwaiting.free, hwaiting.written⟩ nofun hunfree
        exact ⟨turns + 1, t, (flushRemainLoop_some hturn).trans hends, hgiven⟩
      · exact hwrite s h hwaiting hstate hunfree
      · exact hwrite s h hwaiting hstate hunfree

/-- The loop ends, and everything is given to the flash, if and only if the buffers that wait are in order. -/
theorem Basic.ends_iff (h : Basic cfg s) : s.FlushRemainEnds cfg ↔ s.InOrder := by
  constructor
  · rintro ⟨turns, t, hends, -⟩
    exact h.inOrder_of_ends hends
  · rintro ⟨n, hwaiting⟩
    exact h.ends_of_waiting hwaiting

end Best1307.LogDump
