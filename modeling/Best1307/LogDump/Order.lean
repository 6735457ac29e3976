import Best1307.LogDump.Buffers
import Best1307.LogDump.Recovery

/-!
# The order of the sectors

Over all boots the sectors make up one log, in which the sector with number `k` lies at place `k` modulo their
count. A boot goes on with it behind the last sector that was written whole, so that what was handed to the flash
and did not get there is numbered anew.
-/

namespace Best1307.LogDump

open FlashQueue FlashRing SlotRing
open NvRecord (NorflashRet)

variable {cfg : Config} {s s' : State} {log : List (List UInt8)} {data : List UInt8}

def image (data : List UInt8) : List UInt8 := program 0 data erasedSector

/-- The log as far as the flash has been given it. The sectors before `base` were written in earlier boots. -/
structure Logged (cfg : Config) (s : State) (log : List (List UInt8)) : Prop where
  length : log.length = s.base + s.handed.length
  handed : ∀ (k : Nat) (entry : Nat × List UInt8), s.handed[k]? = some entry →
    entry.1 = (s.base + k) % cfg.sectorCount * sectorSize ∧ log[s.base + k]? = some entry.2
  entry : ∀ k data, log[k]? = some data → (k % cfg.sectorCount * sectorSize, data) ∈ s.earlier ++ s.handed
  lengths : ∀ entry ∈ s.earlier ++ s.handed, 12 ≤ entry.2.length ∧ entry.2.length ≤ sectorSize
  holds : Holds shown erasedSector cfg.sectorCount (log.map image) (decide (s.flashState ≠ .idle)) s.flash
  resumed : s.resumed.2 = s.base % cfg.sectorCount

structure Running (cfg : Config) (s : State) : Prop where
  buffers : Buffers s
  unfilled : Unfilled s
  given : ∀ (k : Nat) (entry : Nat × List UInt8), s.handed[k]? = some entry → s.marked[k]? = some entry.2
  flashOffs : s.flashOffs = (s.base + s.handed.length) % cfg.sectorCount * sectorSize
  flashState : s.flashState ≠ .written

/-- The last buffer was written before it was full: the flash has everything, and takes no more. -/
structure Closed (s : State) : Prop where
  free : ∀ i < sectorBufferCount, (s.dataBufferList i).state = .free
  flashState : s.flashState = .idle
  flashOffs : s.flashOffs % sectorSize ≠ 0
  length : s.handed.length = s.marked.length + 1
  given : ∀ (k : Nat) (data : List UInt8), s.marked[k]? = some data →
    ∃ entry : Nat × List UInt8, s.handed[k]? = some entry ∧ entry.2 = data
  number : s.curDumpSeqnum.toNat = s.base + s.handed.length

def Inv (cfg : Config) (s : State) : Prop := ∃ log, Logged cfg s log ∧ (Running cfg s ∨ Closed s)

/-! ### Flushing -/

/-- What `_log_dump_flush` does: nothing; it erases the next sector; it is refused the write of the next buffer; it
writes it. -/
inductive Flushed (cfg : Config) (s : State) (buffState : UInt32) : State → Prop
  | same : Flushed cfg s buffState s
  | erase (hidle : s.flashState = .idle) (haligned : s.flashOffs % sectorSize = 0) :
      Flushed cfg s buffState s.eraseOk
  | refused (hstate : s.flashState = .erased ∨ s.flashState = .writting) :
      Flushed cfg s buffState { s with flashState := .writting }
  | write (hstate : s.flashState = .erased ∨ s.flashState = .writting)
      (hbuff : (s.dataBufferList s.fSeqnum).state.bits &&& buffState ≠ 0) : Flushed cfg s buffState (s.writeOk cfg)

theorem flushed (buffState : UInt32) (isAsync : Bool) (ret : NorflashRet) :
    Flushed cfg s buffState (s.flush cfg buffState isAsync ret) := by
  simp only [State.flush]
  split
  · next hidle =>
      split
      · exact .erase hidle.1 hidle.2
      · exact .same
  · split
    · next hstate =>
        split
        · next hbuff =>
            split
            · exact .write hstate hbuff.1
            · exact .refused hstate
        · exact .same
    · exact .same

theorem Logged.congr (h : Logged cfg s log) (hsame : SameFlash s s') : Logged cfg s' log := by
  have hbase : s'.base = s.base := congrArg (fun r => r.1.toNat) hsame.resumed
  refine ⟨?_, ?_, ?_, ?_, ?_, ?_⟩
  · rw [hbase, hsame.handed, h.length]
  · rw [hbase, hsame.handed]
    exact h.handed
  · rw [hsame.handed, hsame.earlier]
    exact h.entry
  · rw [hsame.handed, hsame.earlier]
    exact h.lengths
  · rw [hsame.flash, hsame.flashState]
    exact h.holds
  · rw [hbase, hsame.resumed]
    exact h.resumed

theorem offset_div (k : Nat) : k * sectorSize / sectorSize = k := Nat.mul_div_cancel k (by decide)

theorem offset_mod (k : Nat) : k * sectorSize % sectorSize = 0 := Nat.mul_mod_left k sectorSize

theorem Logged.erase (h : Logged cfg s log) (hidle : s.flashState = .idle)
    (hoffs : s.flashOffs = log.length % cfg.sectorCount * sectorSize) : Logged cfg s.eraseOk log where
  length := h.length
  handed := h.handed
  entry := h.entry
  lengths := h.lengths
  holds := by
    have hholds := h.holds
    rw [hidle] at hholds
    have herase := Holds.erase hholds
    rw [List.length_map] at herase
    show Holds _ _ _ _ _ (s.flash.enqueue ⟨s.flashOffs / sectorSize, fun _ => erasedSector⟩)
    rw [hoffs, offset_div]
    exact herase
  resumed := h.resumed

theorem Logged.write (h : Logged cfg s log) (hstate : s.flashState ≠ .idle)
    (hoffs : s.flashOffs = log.length % cfg.sectorCount * sectorSize)
    (hdata : (s.dataBufferList s.fSeqnum).buffer.take (s.dataBufferList s.fSeqnum).offset = data)
    (hmin : 12 ≤ data.length) (hmax : data.length ≤ sectorSize) (hshown : shown data = some log.length) :
    Logged cfg (s.writeOk cfg) (log ++ [data]) := by
  have hhanded : (s.writeOk cfg).handed = s.handed ++ [(log.length % cfg.sectorCount * sectorSize, data)] := by
    rw [← hoffs, ← hdata]
    rfl
  have hbase : (s.writeOk cfg).base = s.base := rfl
  refine ⟨?_, ?_, ?_, ?_, ?_, h.resumed⟩
  · rw [hhanded, hbase, List.length_append, List.length_append, h.length]
    rfl
  · intro k entry hk
    rw [hhanded] at hk
    rw [hbase]
    rcases getElem?_concat_cases hk with ⟨hlt, hold⟩ | ⟨rfl, rfl⟩
    · rw [List.getElem?_append_left (by rw [h.length]; omega)]
      exact h.handed k entry hold
    · rw [← h.length]
      exact ⟨rfl, List.getElem?_concat_length⟩
  · intro k other hk
    rw [hhanded, ← List.append_assoc]
    show _ ∈ s.earlier ++ s.handed ++ _
    rcases getElem?_concat_cases hk with ⟨-, hold⟩ | ⟨rfl, rfl⟩
    · exact List.mem_append_left _ (h.entry k other hold)
    · exact List.mem_append_right _ (List.mem_singleton.mpr rfl)
  · rw [hhanded, ← List.append_assoc]
    intro entry hentry
    rcases List.mem_append.mp hentry with hold | hnew
    · exact h.lengths entry hold
    · rw [List.mem_singleton.mp hnew]
      exact ⟨hmin, hmax⟩
  · have hholds := h.holds
    rw [decide_eq_true hstate] at hholds
    have hwrite := Holds.write hholds (program 0 data) (by
      rw [List.length_map]
      exact (shown_program hmin hmax).trans hshown)
    rw [List.length_map] at hwrite
    have hflash : (s.writeOk cfg).flash = s.flash.enqueue ⟨log.length % cfg.sectorCount, program 0 data⟩ := by
      simp only [State.writeOk]
      rw [hdata, hoffs, offset_div, offset_mod]
    rw [hflash, List.map_append]
    exact hwrite

theorem nextOffs (cfg : Config) (k : Nat) :
    (if cfg.sectorCount * sectorSize ≤ k % cfg.sectorCount * sectorSize + sectorSize then 0
      else k % cfg.sectorCount * sectorSize + sectorSize) = (k + 1) % cfg.sectorCount * sectorSize := by
  have hiff : cfg.sectorCount * sectorSize ≤ k % cfg.sectorCount * sectorSize + sectorSize ↔
      cfg.sectorCount ≤ k % cfg.sectorCount + 1 := by
    rw [← Nat.succ_mul]
    exact Nat.mul_le_mul_right_iff (by decide)
  rw [succ_mod cfg.sectorCount_pos, ite_mul, Nat.zero_mul, Nat.succ_mul]
  simp only [hiff]

theorem Running.write (h : Running cfg s) (hlog : Logged cfg s log) (hstate : s.flashState ≠ .idle)
    (hdata : s.marked[s.handed.length]? = some data) :
    Logged cfg (s.writeOk cfg) (log ++ [data]) ∧ Running cfg (s.writeOk cfg) := by
  obtain ⟨hlt, -⟩ := List.getElem?_eq_some_iff.mp hdata
  obtain ⟨hlength, hshown⟩ := h.buffers.marked _ _ hdata
  have hbuff := h.buffers.oldest hdata
  have htake : (s.dataBufferList s.fSeqnum).buffer.take (s.dataBufferList s.fSeqnum).offset = data := by
    rw [hbuff, ← hlength, List.take_length]
  have hbase : (s.writeOk cfg).base = s.base := rfl
  have hhanded : (s.writeOk cfg).handed = s.handed ++ [(s.flashOffs, data)] := by
    rw [← htake]
    rfl
  have hoffs : s.flashOffs = log.length % cfg.sectorCount * sectorSize := by rw [hlog.length, h.flashOffs]
  refine ⟨hlog.write hstate hoffs htake (by rw [hlength]; decide) (Nat.le_of_eq hlength)
    (by rw [hlog.length, hshown]), h.buffers.release hlt cfg, h.unfilled.release cfg, ?_, ?_, ?_⟩
  · intro k entry hk
    rw [hhanded] at hk
    rcases FlashRing.getElem?_concat_cases hk with ⟨-, hold⟩ | ⟨rfl, rfl⟩
    · exact h.given k entry hold
    · exact hdata
  · rw [hhanded, List.length_append, List.length_singleton, hbase, ← Nat.add_assoc, ← nextOffs, ← h.flashOffs]
    simp only [State.writeOk, hbuff]
  · show FlushState.idle ≠ .written
    decide

/-- A write of the buffer being filled, with none waiting. -/
theorem Running.close (h : Running cfg s) (hlog : Logged cfg s log) (hstate : s.flashState ≠ .idle)
    (hall : s.marked.length = s.handed.length) (hbuff : (s.dataBufferList s.fSeqnum).state ≠ .free) :
    (∃ log', Logged cfg (s.writeOk cfg) log') ∧ Closed (s.writeOk cfg) := by
  have hw : s.wSeqnum = s.fSeqnum := h.buffers.wSeqnum_eq_iff.mpr (.inl hall)
  have hdataBuff : s.dataBuff = s.dataBufferList s.fSeqnum := by rw [State.dataBuff, hw]
  rw [← hdataBuff] at hbuff
  have hfree : s.marked.length < s.handed.length + sectorBufferCount := by
    rw [hall]
    exact Nat.lt_add_of_pos_right (by decide)
  have hfilling : Filling s.dataBuff (s.base + s.marked.length) := (h.buffers.current hfree).resolve_left hbuff
  have hunfilled := h.unfilled hfilling.state
  have hheader := hfilling.header
  have hlength : (s.dataBuff.buffer.take s.dataBuff.offset).length = s.dataBuff.offset := by
    rw [List.length_take, hfilling.length, Nat.min_eq_left hfilling.le]
  have hhanded := length_handed_writeOk (s := s) cfg
  have hoffs : s.flashOffs = log.length % cfg.sectorCount * sectorSize := by rw [hlog.length, h.flashOffs]
  have hwritten := hlog.write hstate hoffs (congrArg (fun b => b.buffer.take b.offset) hdataBuff.symm)
    (by rw [hlength]; exact Nat.le_trans (by decide) hheader) (by rw [hlength]; exact hfilling.le)
    (by rw [hlog.length, ← hall]; exact hfilling.shown)
  refine ⟨⟨_, hwritten⟩, ?_, rfl, ?_, ?_, ?_, ?_⟩
  · intro i hi
    by_cases hself : i = s.fSeqnum
    · have hnow : (s.writeOk cfg).dataBufferList i = { s.dataBufferList s.fSeqnum with state := .free } := by
        rw [hself]
        exact Function.update_self ..
      rw [hnow]
    · have hother : (s.writeOk cfg).dataBufferList i = s.dataBufferList i := Function.update_of_ne hself ..
      obtain ⟨k, hk, hround, rfl⟩ := exists_entry hi (show i < s.handed.length + sectorBufferCount by omega)
      rw [hother]
      refine h.buffers.behind k (Nat.lt_of_le_of_ne (by omega) ?_) hk
      rintro rfl
      exact hself (by rw [h.buffers.fSeqnum, hall])
  · have hnext : (s.writeOk cfg).flashOffs = s.flashOffs + s.dataBuff.offset := by
      have hlt := Nat.mod_lt log.length cfg.sectorCount_pos
      have hroom : (log.length % cfg.sectorCount + 1) * sectorSize ≤ cfg.sectorCount * sectorSize :=
        Nat.mul_le_mul_right _ hlt
      rw [Nat.succ_mul] at hroom
      rw [hdataBuff] at hunfilled ⊢
      exact if_neg (by omega)
    rw [hnext, hoffs, Nat.mul_comm, Nat.mul_add_mod, Nat.mod_eq_of_lt hunfilled]
    exact Nat.ne_of_gt (Nat.lt_of_lt_of_le (by decide) hheader)
  · rw [hhanded, ← hall]
    rfl
  · intro k data hk
    obtain ⟨hlt, -⟩ := List.getElem?_eq_some_iff.mp hk
    change k < s.marked.length at hlt
    have hentry := List.getElem?_eq_getElem (l := s.handed) (i := k) (by omega)
    refine ⟨_, (List.getElem?_append_left (by omega)).trans hentry, ?_⟩
    exact Option.some.inj ((h.given k _ hentry).symm.trans hk)
  · have hnumber := h.buffers.number
    rw [if_pos hfilling.state] at hnumber
    rw [hhanded, ← hall]
    exact hnumber

/-- Nothing but `log_dump_flash_state` and the queue of the flash is different. -/
theorem Running.setFlash (h : Running cfg s) {flashState : FlushState} {flash : Device Nat (List UInt8)}
    (hstate : flashState ≠ .written) : Running cfg { s with flashState := flashState, flash := flash } :=
  ⟨⟨h.buffers.le, h.buffers.fits, h.buffers.fSeqnum, h.buffers.wSeqnum, h.buffers.marked, h.buffers.waiting,
    h.buffers.current, h.buffers.behind, h.buffers.number⟩, h.unfilled, h.given, h.flashOffs, hstate⟩

theorem ne_idle_of {flashState : FlushState} (h : flashState = .erased ∨ flashState = .writting) :
    flashState ≠ .idle := by
  rintro rfl
  rcases h with h | h <;> cases h

/-- No flush puts the sectors out of order. -/
theorem Inv.flushed (h : Inv cfg s) {buffState : UInt32} (hflush : Flushed cfg s buffState s') : Inv cfg s' := by
  obtain ⟨log, hlog, hphase⟩ := h
  cases hflush with
  | same => exact ⟨log, hlog, hphase⟩
  | erase hidle haligned =>
      rcases hphase with hrunning | hclosed
      · have hoffs : s.flashOffs = log.length % cfg.sectorCount * sectorSize := by
          rw [hlog.length, hrunning.flashOffs]
        exact ⟨log, hlog.erase hidle hoffs, .inl (hrunning.setFlash (by decide))⟩
      · exact absurd haligned hclosed.flashOffs
  | refused hstate =>
      rcases hphase with hrunning | hclosed
      · refine ⟨log, ⟨hlog.length, hlog.handed, hlog.entry, hlog.lengths, ?_, hlog.resumed⟩,
          .inl (hrunning.setFlash (by decide))⟩
        have hholds := hlog.holds
        rw [decide_eq_true (ne_idle_of hstate)] at hholds
        exact hholds
      · exact absurd hclosed.flashState (ne_idle_of hstate)
  | write hstate hbuff =>
      rcases hphase with hrunning | hclosed
      · have hnotFree : (s.dataBufferList s.fSeqnum).state ≠ .free := by
          intro hfree
          rw [hfree] at hbuff
          exact hbuff UInt32.zero_and
        rcases Nat.eq_or_lt_of_le hrunning.buffers.le with hall | hlt
        · obtain ⟨⟨log', hlog'⟩, hclosed⟩ := hrunning.close hlog (ne_idle_of hstate) hall.symm hnotFree
          exact ⟨log', hlog', .inr hclosed⟩
        · obtain ⟨hlog', hrunning'⟩ := hrunning.write hlog (ne_idle_of hstate) (List.getElem?_eq_getElem hlt)
          exact ⟨_, hlog', .inl hrunning'⟩
      · exact absurd hclosed.flashState (ne_idle_of hstate)

/-! ### Booting -/

theorem Logged.length_lt (hlog : Logged cfg s log) (hphase : Running cfg s ∨ Closed s) : log.length < 2 ^ 32 := by
  have hseqnum := s.curDumpSeqnum.toNat_lt
  rw [hlog.length]
  rcases hphase with hrunning | hclosed
  · have hnumber := hrunning.buffers.number
    have hle := hrunning.buffers.le
    omega
  · rw [← hclosed.number]
    exact hseqnum

/-- A boot on a flash that holds the log up to where `_get_seqnum` goes on. -/
theorem inv_logDumpInit (log : List (List UInt8)) {flash : Nat → List UInt8} {earlier : List (Nat × List UInt8)}
    (hnumbered : Numbered shown (log.map image))
    (hready : Ready shown cfg.sectorCount (log.map image) log.length flash)
    (hentry : ∀ k data, log[k]? = some data → (k % cfg.sectorCount * sectorSize, data) ∈ earlier)
    (hlengths : ∀ entry ∈ earlier, 12 ≤ entry.2.length ∧ entry.2.length ≤ sectorSize)
    (hseqnum : (getSeqnum cfg flash).1.toNat = log.length)
    (hsector : (getSeqnum cfg flash).2 = log.length % cfg.sectorCount) : Inv cfg (logDumpInit cfg flash earlier) := by
  have hbase : (logDumpInit cfg flash earlier).base = log.length := hseqnum
  have hnil : (logDumpInit cfg flash earlier).handed = [] := rfl
  have hearlier : (logDumpInit cfg flash earlier).earlier = earlier := rfl
  refine ⟨log, ⟨?_, ?_, ?_, ?_, ?_, ?_⟩, .inl ⟨?_, ?_, ?_, ?_, ?_⟩⟩
  · rw [hbase]
    rfl
  · rw [hnil]
    exact fun k entry hk => absurd hk (by simp only [List.getElem?_nil, reduceCtorEq, not_false_eq_true])
  · rw [hnil, hearlier, List.append_nil]
    exact hentry
  · rw [hnil, hearlier, List.append_nil]
    exact hlengths
  · refine Holds.ofReady hnumbered ?_
    rw [List.length_map]
    exact hready
  · rw [hbase]
    exact hsector
  · exact buffers_logDumpInit cfg flash earlier
  · exact fun h => by cases h
  · rw [hnil]
    exact fun k entry hk => absurd hk (by simp only [List.getElem?_nil, reduceCtorEq, not_false_eq_true])
  · rw [hbase]
    exact congrArg (· * sectorSize) hsector
  · show FlushState.idle ≠ .written
    decide

/-- The log goes on after a power cut that left no sector half written but numbered. -/
theorem Inv.reboot (h : Inv cfg s) (hcut : CleanCut shown s.flash) :
    Inv cfg (logDumpInit cfg s.flash.physical (s.earlier ++ s.handed)) := by
  obtain ⟨log, hlog, hphase⟩ := h
  obtain ⟨n, hle, hready⟩ := hlog.holds.ready_physical cfg.sectorCount_pos shown_erasedSector hcut
  rw [List.length_map] at hle
  have hbound := Nat.lt_of_le_of_lt hle (hlog.length_lt hphase)
  rcases getSeqnum_of_ready hready hlog.holds.numbered hbound with ⟨hblank, hzero⟩ | ⟨last, -, -, hseqnum, hsector⟩
  · refine inv_logDumpInit [] ?_ (.zero cfg.sectorCount_pos hblank) ?_ hlog.lengths ?_ ?_
    · exact hlog.holds.numbered.take 0
    · exact fun k data hk => absurd hk (by simp only [List.getElem?_nil, reduceCtorEq, not_false_eq_true])
    · rw [hzero]
      rfl
    · rw [hzero]
      exact (Nat.zero_mod _).symm
  · have hlength : (log.take n).length = n := by rw [List.length_take, Nat.min_eq_left hle]
    refine inv_logDumpInit (log.take n) ?_ ?_ ?_ hlog.lengths ?_ ?_
    · rw [List.map_take]
      exact hlog.holds.numbered.take n
    · rw [hlength]
      refine hready.congr fun k hk => ?_
      rw [List.map_take, List.getElem?_take_of_lt hk]
    · intro k data hk
      rw [List.getElem?_take] at hk
      split at hk
      · exact hlog.entry k data hk
      · cases hk
    · rw [hlength, hseqnum]
    · rw [hlength, hsector]

/-! ### Runs -/

/-- The output handler is not called with a chunk to store while the buffer it would put it in still waits to be
written, nor once a buffer was written that was not full, nor does it run out of sector numbers; and power is
not cut while a sector that is not whole shows a number it did not show before. -/
def Admitted (s : State) : Event → Prop
  | .output buf behind => State.IsOwnTrace buf behind ∨ s.dataBuff.state ≠ .written ∧ s.flashOffs % sectorSize = 0 ∧
      s.curDumpSeqnum.toNat + s.sectorsNeeded buf.length < 2 ^ 32
  | .reboot => CleanCut shown s.flash
  | _ => True

theorem Inv.outputHandler (h : Inv cfg s) {buf behind : List UInt8} (hadmitted : Admitted s (.output buf behind)) :
    ∃ s', s.outputHandler buf behind = some s' ∧ Inv cfg s' := by
  rw [State.outputHandler]
  split
  · exact ⟨s, rfl, h⟩
  · next hown =>
      obtain ⟨hstate, haligned, hnumbers⟩ := hadmitted.resolve_left hown
      obtain ⟨log, hlog, hrunning | hclosed⟩ := h
      · have hfree : s.marked.length < s.handed.length + sectorBufferCount := by
          refine Nat.lt_of_le_of_ne hrunning.buffers.fits fun hall => hstate ?_
          have hw := hrunning.buffers.wSeqnum_eq_iff.mpr (.inr hall)
          have hlt : s.handed.length < s.marked.length := by
            rw [hall]
            exact Nat.lt_add_of_pos_right (by decide)
          rw [State.dataBuff, hw, hrunning.buffers.oldest (List.getElem?_eq_getElem hlt)]
        have hmargin := hrunning.buffers.le
        obtain ⟨s', hs', hbuffers, hunfilled, hsame, hprefix⟩ :=
          outputLoop_spec sectorBufferCount s buf hrunning.buffers hrunning.unfilled hfree (by omega) hnumbers
        refine ⟨s', hs', log, hlog.congr hsame, .inl ⟨hbuffers, hunfilled, ?_, ?_, ?_⟩⟩
        · rw [hsame.handed]
          intro k entry hk
          have hmarked := hrunning.given k entry hk
          obtain ⟨hlt, -⟩ := List.getElem?_eq_some_iff.mp hmarked
          rw [← hmarked]
          exact (List.prefix_iff_getElem?.mp hprefix k hlt).trans (List.getElem?_eq_getElem hlt).symm
        · have hbase : s'.base = s.base := congrArg (fun r => r.1.toNat) hsame.resumed
          rw [hsame.flashOffs, hsame.handed, hbase]
          exact hrunning.flashOffs
        · rw [hsame.flashState]
          exact hrunning.flashState
      · exact absurd haligned hclosed.flashOffs

theorem Inv.setFlash (h : Inv cfg s) {flash : Device Nat (List UInt8)}
    (hflash : ∀ log erased, Holds shown erasedSector cfg.sectorCount log erased s.flash →
      Holds shown erasedSector cfg.sectorCount log erased flash) : Inv cfg { s with flash := flash } := by
  obtain ⟨log, hlog, hphase⟩ := h
  refine ⟨log, ⟨hlog.length, hlog.handed, hlog.entry, hlog.lengths, hflash _ _ hlog.holds, hlog.resumed⟩, ?_⟩
  rcases hphase with hrunning | hclosed
  · exact .inl (hrunning.setFlash hrunning.flashState)
  · exact .inr ⟨hclosed.free, hclosed.flashState, hclosed.flashOffs, hclosed.length, hclosed.given, hclosed.number⟩

theorem Inv.step (h : Inv cfg s) {e : Event} (hadmitted : Admitted s e) (hstep : LogDump.step cfg s e = some s') :
    Inv cfg s' := by
  cases e with
  | output buf behind =>
      obtain ⟨t, ht, hinv⟩ := h.outputHandler hadmitted
      obtain rfl := Option.some.inj (ht.symm.trans hstep)
      exact hinv
  | flush ret =>
      obtain rfl := Option.some.inj hstep
      exact h.flushed (LogDump.flushed _ _ _)
  | flushImmediately =>
      obtain rfl := Option.some.inj hstep
      obtain ⟨log, hlog, hphase⟩ := h
      refine ⟨log, hlog.congr ⟨rfl, rfl, rfl, rfl, rfl, rfl⟩, ?_⟩
      rcases hphase with hrunning | hclosed
      · obtain ⟨hb, hunfilled, hgiven, hoffs, hstate⟩ := hrunning
        exact .inl ⟨⟨hb.le, hb.fits, hb.fSeqnum, hb.wSeqnum, hb.marked, hb.waiting, hb.current, hb.behind, hb.number⟩,
          hunfilled, hgiven, hoffs, hstate⟩
      · exact .inr ⟨hclosed.free, hclosed.flashState, hclosed.flashOffs, hclosed.length, hclosed.given,
          hclosed.number⟩
  | flushRemain ret =>
      simp only [LogDump.step, State.flushRemain] at hstep
      split at hstep
      · obtain rfl := Option.some.inj hstep
        exact h.flushed (LogDump.flushed _ _ _)
      · cases hstep
  | flashFinish =>
      obtain ⟨flash, hfinish, rfl⟩ := Option.map_eq_some_iff.mp hstep
      exact h.setFlash fun log erased hholds => hholds.finish cfg.sectorCount_pos shown_erasedSector hfinish
  | flashTear content =>
      obtain ⟨flash, htear, rfl⟩ := Option.map_eq_some_iff.mp hstep
      exact h.setFlash fun log erased hholds => hholds.tear htear
  | reboot =>
      obtain rfl := Option.some.inj hstep
      exact h.reboot hadmitted

end Best1307.LogDump
