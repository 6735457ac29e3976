import Best1307.LogDump.Sector

/-!
# The sector buffers

The buffers marked written are counted from `log_dump_init` on, and so are those the flash has been given. The ones
between lie in the ring from `log_dump_f_seqnum` up to `log_dump_w_seqnum`, each as it was marked. The next one is free
or being filled, and behind it all are free. The output handler keeps this as long as it does not begin anew a buffer
that still waits.
-/

namespace Best1307.LogDump

open SlotRing

/-- The number of the first sector since `log_dump_init`. -/
def State.base (s : State) : Nat := s.resumed.1.toNat

structure Filling (b : DataBuffer) (number : Nat) : Prop where
  state : b.state = .writting
  header : LogDumpHeader.size ≤ b.offset
  le : b.offset ≤ sectorSize
  length : b.buffer.length = sectorSize
  shown : shown (b.buffer.take b.offset) = some number

structure Buffers (s : State) : Prop where
  le : s.handed.length ≤ s.marked.length
  fits : s.marked.length ≤ s.handed.length + sectorBufferCount
  fSeqnum : s.fSeqnum = s.handed.length % sectorBufferCount
  wSeqnum : s.wSeqnum = s.marked.length % sectorBufferCount
  marked : ∀ k data, s.marked[k]? = some data → data.length = sectorSize ∧ shown data = some (s.base + k)
  waiting : ∀ k data, s.handed.length ≤ k → s.marked[k]? = some data →
    s.dataBufferList (k % sectorBufferCount) = ⟨.written, sectorSize, data⟩
  current : s.marked.length < s.handed.length + sectorBufferCount →
    s.dataBuff.state = .free ∨ Filling s.dataBuff (s.base + s.marked.length)
  behind : ∀ k, s.marked.length < k → k < s.handed.length + sectorBufferCount →
    (s.dataBufferList (k % sectorBufferCount)).state = .free
  number : s.curDumpSeqnum.toNat = s.base + s.marked.length + if s.dataBuff.state = .writting then 1 else 0

/-- No buffer is full without being marked. -/
def Unfilled (s : State) : Prop := s.dataBuff.state = .writting → s.dataBuff.offset < sectorSize

/-- All that concerns the flash is the same. -/
structure SameFlash (s s' : State) : Prop where
  flash : s'.flash = s.flash
  flashState : s'.flashState = s.flashState
  flashOffs : s'.flashOffs = s.flashOffs
  handed : s'.handed = s.handed
  earlier : s'.earlier = s.earlier
  resumed : s'.resumed = s.resumed

theorem SameFlash.trans {r s t : State} (h : SameFlash r s) (h' : SameFlash s t) : SameFlash r t where
  flash := h'.flash.trans h.flash
  flashState := h'.flashState.trans h.flashState
  flashOffs := h'.flashOffs.trans h.flashOffs
  handed := h'.handed.trans h.handed
  earlier := h'.earlier.trans h.earlier
  resumed := h'.resumed.trans h.resumed

variable {s : State} {b : DataBuffer} {n : Nat}

theorem nextSeqnum_mod (k : Nat) :
    State.nextSeqnum (k % sectorBufferCount) = (k + 1) % sectorBufferCount := by
  have hlt := Nat.mod_lt k (show 0 < sectorBufferCount by decide)
  rw [succ_mod (by decide), State.nextSeqnum]
  split <;> split <;> omega

@[simp] theorem length_handed_writeOk (cfg : Config) :
    (s.writeOk cfg).handed.length = s.handed.length + 1 := List.length_append

@[simp] theorem dataBuff_setDataBuff : (s.setDataBuff b).dataBuff = b := Function.update_self ..

/-- The current buffer is another one, and so is the number of the sector to be begun next. -/
def State.replace (s : State) (b : DataBuffer) (isBootup : Bool) (seqnum : UInt32) : State :=
  { s.setDataBuff b with
    isBootup := isBootup
    curDumpSeqnum := seqnum }

@[simp] theorem dataBuff_replace {isBootup : Bool} {seqnum : UInt32} :
    (s.replace b isBootup seqnum).dataBuff = b :=
  Function.update_self ..

theorem Filling.putBytes (h : Filling b n) {bytes : List UInt8} (hroom : b.offset + bytes.length ≤ sectorSize) :
    Filling { b with
      offset := b.offset + bytes.length
      buffer := memcpy b.buffer b.offset bytes } n where
  state := h.state
  header := Nat.le_trans h.header (Nat.le_add_right _ _)
  le := hroom
  length := (length_memcpy _ _ (by rw [h.length]; exact hroom)).trans h.length
  shown := by
    have hlen : 12 ≤ (b.buffer.take b.offset).length := by
      have := h.header
      rw [List.length_take, h.length, Nat.min_eq_left h.le]
      exact Nat.le_trans (by decide) this
    rw [take_memcpy _ _ (by rw [h.length]; exact h.le), shown_append hlen, h.shown]

theorem filling_header (seqnum : UInt32) (isBootup : Bool) :
    Filling ⟨.writting, 0 + LogDumpHeader.size, memcpy (List.replicate sectorSize 0) 0
      (LogDumpHeader.filled seqnum isBootup).bytes⟩ seqnum.toNat where
  state := rfl
  header := Nat.le_add_left _ _
  le := show 0 + LogDumpHeader.size ≤ sectorSize by decide
  length := by
    rw [length_memcpy _ _ (by rw [length_bytes, List.length_replicate]; decide), List.length_replicate]
  shown := by
    have htake := take_memcpy (List.replicate sectorSize (0 : UInt8)) (LogDumpHeader.filled seqnum isBootup).bytes
      (Nat.zero_le _)
    rw [length_bytes, List.take_zero, List.nil_append] at htake
    rw [htake, shown_filled]

theorem buffers_logDumpInit (cfg : Config) (flash : Nat → List UInt8) (earlier : List (Nat × List UInt8)) :
    Buffers (logDumpInit cfg flash earlier) where
  le := Nat.le_refl 0
  fits := Nat.zero_le _
  fSeqnum := rfl
  wSeqnum := rfl
  marked k data hdata := absurd hdata (by simp only [logDumpInit, List.getElem?_nil, reduceCtorEq, not_false_eq_true])
  waiting k data _ hdata :=
    absurd hdata (by simp only [logDumpInit, List.getElem?_nil, reduceCtorEq, not_false_eq_true])
  current _ := .inl rfl
  behind _ _ _ := rfl
  number := rfl

namespace Buffers

theorem put (h : Buffers s) (hfree : s.marked.length < s.handed.length + sectorBufferCount)
    (hb : Filling b (s.base + s.marked.length)) (isBootup : Bool) {seqnum : UInt32}
    (hseqnum : seqnum.toNat = s.base + s.marked.length + 1) : Buffers (s.replace b isBootup seqnum) where
  le := h.le
  fits := h.fits
  fSeqnum := h.fSeqnum
  wSeqnum := h.wSeqnum
  marked := h.marked
  waiting k data hk hdata := by
    change s.handed.length ≤ k at hk
    change s.marked[k]? = some data at hdata
    obtain ⟨hlt, -⟩ := List.getElem?_eq_some_iff.mp hdata
    have hne := mod_ne hk (by omega) h.le hfree (Nat.ne_of_lt hlt)
    rw [← h.wSeqnum] at hne
    exact (Function.update_of_ne hne ..).trans (h.waiting k data hk hdata)
  current _ := .inr (by
    rw [dataBuff_replace]
    exact hb)
  behind k hk hk' := by
    have hne := mod_ne (Nat.le_trans h.le (Nat.le_of_lt hk)) hk' h.le hfree (Nat.ne_of_gt hk)
    rw [← h.wSeqnum] at hne
    have hold : (s.setDataBuff b).dataBufferList (k % sectorBufferCount) = _ := Function.update_of_ne hne ..
    exact (congrArg DataBuffer.state hold).trans (h.behind k hk hk')
  number := by
    rw [dataBuff_replace, if_pos hb.state]
    exact hseqnum

theorem mark (h : Buffers s) (hfree : s.marked.length < s.handed.length + sectorBufferCount)
    (hb : Filling s.dataBuff (s.base + s.marked.length)) (hfull : s.dataBuff.offset = sectorSize) :
    Buffers s.markWritten ∧ s.markWritten.dataBuff.state ≠ .writting := by
  have hshown : shown s.dataBuff.buffer = some (s.base + s.marked.length) := by
    rw [← hb.shown, hfull, ← hb.length, List.take_length]
  have hlength : s.markWritten.marked.length = s.marked.length + 1 := List.length_append
  have hw : s.markWritten.wSeqnum = (s.marked.length + 1) % sectorBufferCount := by
    rw [← nextSeqnum_mod, ← h.wSeqnum]
    rfl
  have hsame (k : Nat) (hk : s.handed.length ≤ k) (hk' : k < s.handed.length + sectorBufferCount)
      (hne : k ≠ s.marked.length) :
      s.markWritten.dataBufferList (k % sectorBufferCount) = s.dataBufferList (k % sectorBufferCount) := by
    have hmod := mod_ne hk hk' h.le hfree hne
    rw [← h.wSeqnum] at hmod
    exact Function.update_of_ne hmod ..
  have hwaiting (k : Nat) (data : List UInt8) (hk : s.handed.length ≤ k)
      (hdata : s.markWritten.marked[k]? = some data) :
      s.markWritten.dataBufferList (k % sectorBufferCount) = ⟨.written, sectorSize, data⟩ := by
    rcases FlashRing.getElem?_concat_cases hdata with ⟨hlt, hold⟩ | ⟨rfl, rfl⟩
    · rw [hsame k hk (by omega) (Nat.ne_of_lt hlt)]
      exact h.waiting k data hk hold
    · have hbuff : s.markWritten.dataBufferList s.wSeqnum = { s.dataBuff with state := .written } :=
        Function.update_self ..
      rw [← h.wSeqnum, hbuff, ← hfull]
  -- the next buffer is free, or with all of them marked the oldest
  have hnext : s.markWritten.dataBuff.state ≠ .writting ∧
      (s.marked.length + 1 < s.handed.length + sectorBufferCount → s.markWritten.dataBuff.state = .free) := by
    rw [State.dataBuff, hw]
    rcases Nat.lt_or_ge (s.marked.length + 1) (s.handed.length + sectorBufferCount) with hlt | hge
    · have hstate := h.behind _ (Nat.lt_succ_self _) hlt
      rw [hsame _ (by have := h.le; omega) hlt (Nat.succ_ne_self _), hstate]
      exact ⟨by decide, fun _ => rfl⟩
    · have hround : s.marked.length + 1 = s.handed.length + sectorBufferCount := by omega
      have hpos : s.handed.length < s.markWritten.marked.length := by
        have := h.le
        omega
      rw [hround, Nat.add_mod_right, hwaiting _ _ (Nat.le_refl _) (List.getElem?_eq_getElem hpos)]
      exact ⟨by simp only [ne_eq, reduceCtorEq, not_false_eq_true], fun hlt => absurd hlt (Nat.lt_irrefl _)⟩
  refine ⟨?_, hnext.1⟩
  exact {
    le := Nat.le_trans h.le (by rw [hlength]; exact Nat.le_succ _)
    fits := by
      rw [hlength]
      exact hfree
    fSeqnum := h.fSeqnum
    wSeqnum := by rw [hw, hlength]
    marked := by
      intro k data hdata
      rcases FlashRing.getElem?_concat_cases hdata with ⟨-, hold⟩ | ⟨rfl, rfl⟩
      · exact h.marked k data hold
      · exact ⟨hb.length, hshown⟩
    waiting := hwaiting
    current := by
      rw [hlength]
      exact fun hlt => .inl (hnext.2 hlt)
    behind := by
      intro k hk hk'
      rw [hlength] at hk
      have hle := h.le
      rw [hsame k (by omega) hk' (by omega)]
      exact h.behind k (by omega) hk'
    number := by
      have hnumber := h.number
      rw [if_pos hb.state] at hnumber
      rw [if_neg hnext.1, hlength]
      exact hnumber }

/-- The index meets `log_dump_f_seqnum` when all buffers wait, or none does. -/
theorem wSeqnum_eq_iff (h : Buffers s) : s.wSeqnum = s.fSeqnum ↔
    s.marked.length = s.handed.length ∨ s.marked.length = s.handed.length + sectorBufferCount := by
  have hslots : slotAt 0 _ _ = slotAt 0 _ _ ↔ _ := slotAt_eq_iff h.le h.fits
  simp only [slotAt, Nat.zero_add] at hslots
  rw [h.wSeqnum, h.fSeqnum, hslots]

theorem oldest (h : Buffers s) {data : List UInt8} (hdata : s.marked[s.handed.length]? = some data) :
    s.dataBufferList s.fSeqnum = ⟨.written, sectorSize, data⟩ := by
  rw [h.fSeqnum]
  exact h.waiting _ data (Nat.le_refl _) hdata

theorem release (h : Buffers s) (hlt : s.handed.length < s.marked.length) (cfg : Config) :
    Buffers (s.writeOk cfg) := by
  have hhanded := length_handed_writeOk (s := s) cfg
  have hstate : (s.dataBufferList s.fSeqnum).state = .written := by
    rw [h.oldest (List.getElem?_eq_getElem hlt)]
  have hself : ((s.writeOk cfg).dataBufferList s.fSeqnum).state = .free := by
    have hbuff : (s.writeOk cfg).dataBufferList s.fSeqnum = { s.dataBufferList s.fSeqnum with state := .free } :=
      Function.update_self ..
    rw [hbuff]
  have hsame (k : Nat) (hk : s.handed.length < k) (hk' : k < s.handed.length + sectorBufferCount) :
      (s.writeOk cfg).dataBufferList (k % sectorBufferCount) = s.dataBufferList (k % sectorBufferCount) := by
    have hne := mod_ne (Nat.le_of_lt hk) hk' (Nat.le_refl _) (by omega) (Nat.ne_of_gt hk)
    rw [← h.fSeqnum] at hne
    exact Function.update_of_ne hne ..
  have hfits := h.fits
  -- the current buffer is the one released if all waited
  have hcurrent : s.marked.length < s.handed.length + sectorBufferCount ∧ (s.writeOk cfg).dataBuff = s.dataBuff ∨
      s.marked.length = s.handed.length + sectorBufferCount ∧ (s.writeOk cfg).dataBuff.state = .free ∧
        s.dataBuff.state = .written := by
    rcases Nat.eq_or_lt_of_le hfits with hall | hfree
    · have hw : s.wSeqnum = s.fSeqnum := h.wSeqnum_eq_iff.mpr (.inr hall)
      refine .inr ⟨hall, ?_, ?_⟩
      · show ((s.writeOk cfg).dataBufferList s.wSeqnum).state = _
        rw [hw, hself]
      · rw [State.dataBuff, hw, hstate]
    · refine .inl ⟨hfree, ?_⟩
      show (s.writeOk cfg).dataBufferList s.wSeqnum = s.dataBufferList s.wSeqnum
      rw [h.wSeqnum]
      exact hsame _ hlt hfree
  exact {
    le := by
      rw [hhanded]
      exact hlt
    fits := by
      rw [hhanded]
      exact Nat.le_trans hfits (by omega)
    fSeqnum := by
      rw [hhanded, ← nextSeqnum_mod, ← h.fSeqnum]
      rfl
    wSeqnum := h.wSeqnum
    marked := h.marked
    waiting := by
      intro k data hk hdata
      rw [hhanded] at hk
      obtain ⟨hk', -⟩ := List.getElem?_eq_some_iff.mp hdata
      rw [hsame k hk (Nat.lt_of_lt_of_le hk' hfits)]
      exact h.waiting k data (Nat.le_of_lt hk) hdata
    current := by
      intro _
      rcases hcurrent with ⟨hfree, hsame⟩ | ⟨-, hfree, -⟩
      · rw [hsame]
        exact h.current hfree
      · exact .inl hfree
    behind := by
      intro k hk hk'
      rw [hhanded] at hk'
      change s.marked.length < k at hk
      rcases Nat.lt_or_ge k (s.handed.length + sectorBufferCount) with hround | hlast
      · rw [hsame k (by omega) hround]
        exact h.behind k hk hround
      · rw [show k = s.handed.length + sectorBufferCount by omega, Nat.add_mod_right, ← h.fSeqnum, hself]
    number := by
      have hnumber := h.number
      rcases hcurrent with ⟨-, hsame⟩ | ⟨-, hfree, hwritten⟩
      · rw [hsame]
        exact hnumber
      · rw [hwritten] at hnumber
        rw [hfree]
        exact hnumber }

theorem addLost (h : Buffers s) (len : Nat) : Buffers { s with lost := s.lost ++ [len] } :=
  ⟨h.le, h.fits, h.fSeqnum, h.wSeqnum, h.marked, h.waiting, h.current, h.behind, h.number⟩

end Buffers

theorem Unfilled.release (h : Unfilled s) (cfg : Config) : Unfilled (s.writeOk cfg) := by
  intro hstate
  by_cases hw : s.wSeqnum = s.fSeqnum
  · have hbuff : (s.writeOk cfg).dataBuff = { s.dataBufferList s.fSeqnum with state := .free } := by
      show (s.writeOk cfg).dataBufferList s.wSeqnum = _
      rw [hw]
      exact Function.update_self ..
    rw [hbuff] at hstate
    cases hstate
  · have hbuff : (s.writeOk cfg).dataBuff = s.dataBuff := Function.update_of_ne hw ..
    rw [hbuff] at hstate ⊢
    exact h hstate

/-! ### The output handler -/

/-- The bytes of a sector behind its header. -/
def payloadSize : Nat := sectorSize - LogDumpHeader.size

/-- How many sectors have to be begun to store a chunk of this length. -/
def State.sectorsNeeded (s : State) (len : Nat) : Nat :=
  if s.dataBuff.state = .writting then (len - (sectorSize - s.dataBuff.offset) + (payloadSize - 1)) / payloadSize
  else max 1 ((len + (payloadSize - 1)) / payloadSize)

theorem sectorsNeeded_of_writting (h : s.dataBuff.state = .writting) (len : Nat) :
    s.sectorsNeeded len = (len - (sectorSize - s.dataBuff.offset) + (payloadSize - 1)) / payloadSize := if_pos h

theorem sectorsNeeded_of_not (h : s.dataBuff.state ≠ .writting) (len : Nat) :
    s.sectorsNeeded len = max 1 ((len + (payloadSize - 1)) / payloadSize) := if_neg h

theorem writeLen_eq (hb : s.dataBuff.offset ≤ sectorSize) (len : Nat) :
    s.writeLen len = min len (sectorSize - s.dataBuff.offset) := by
  rw [State.writeLen]
  split <;> omega

structure Opened (s s' : State) : Prop where
  buffers : Buffers s'
  filling : Filling s'.dataBuff (s'.base + s'.marked.length)
  unfilled : s'.dataBuff.offset < sectorSize
  same : SameFlash s s'
  marked : s'.marked = s.marked
  needed : ∀ len, s'.curDumpSeqnum.toNat + s'.sectorsNeeded len ≤ s.curDumpSeqnum.toNat + s.sectorsNeeded len

theorem Buffers.opened (h : Buffers s) (hunfilled : Unfilled s)
    (hfree : s.marked.length < s.handed.length + sectorBufferCount)
    (hnumbers : s.dataBuff.state = .free → s.curDumpSeqnum.toNat + 1 < 2 ^ 32) : Opened s s.begin.putHeader := by
  rcases h.current hfree with hstate | hfilling
  · have hnumber := h.number
    rw [hstate, if_neg (by decide), Nat.add_zero] at hnumber
    have hbegin : s.begin = s.setDataBuff ⟨.writting, 0, List.replicate sectorSize 0⟩ := if_pos (.inl hstate)
    have hheader : s.begin.putHeader = s.replace ⟨.writting, 0 + LogDumpHeader.size,
        memcpy (List.replicate sectorSize 0) 0 (LogDumpHeader.filled s.curDumpSeqnum s.isBootup).bytes⟩ false
        (s.curDumpSeqnum + 1) := by
      rw [hbegin, State.putHeader, dataBuff_setDataBuff, if_pos rfl]
      simp only [State.setDataBuff, State.replace, Function.update_idem]
    have hb := filling_header s.curDumpSeqnum s.isBootup
    rw [hnumber] at hb
    have hseqnum : (s.curDumpSeqnum + 1).toNat = s.base + s.marked.length + 1 := by
      have := hnumbers hstate
      rw [UInt32.toNat_add, ← hnumber]
      exact Nat.mod_eq_of_lt this
    rw [hheader]
    refine ⟨h.put hfree hb false hseqnum, ?_, ?_, ⟨rfl, rfl, rfl, rfl, rfl, rfl⟩, rfl, fun len => ?_⟩
    · rw [dataBuff_replace]
      exact hb
    · rw [dataBuff_replace]
      exact show 0 + LogDumpHeader.size < sectorSize by decide
    · have hnot : s.dataBuff.state ≠ .writting := by
        rw [hstate]
        decide
      rw [sectorsNeeded_of_not hnot, sectorsNeeded_of_writting (by rw [dataBuff_replace]), dataBuff_replace]
      show (s.curDumpSeqnum + 1).toNat + _ ≤ _
      rw [hseqnum, ← hnumber]
      simp only [payloadSize, sectorSize, LogDumpHeader.size]
      omega
  · have hbegin : s.begin = s := if_neg (by rw [hfilling.state]; decide)
    have hheader : s.begin.putHeader = s := by
      have := hfilling.header
      rw [hbegin]
      exact if_neg (Nat.ne_of_gt (Nat.lt_of_lt_of_le (by decide) this))
    rw [hheader]
    exact ⟨h, hfilling, hunfilled hfilling.state, ⟨rfl, rfl, rfl, rfl, rfl, rfl⟩, rfl, fun len => Nat.le_refl _⟩

theorem Opened.put {s' : State} (h : Opened s s') (hfree : s.marked.length < s.handed.length + sectorBufferCount)
    (bytes : List UInt8) (hroom : s'.dataBuff.offset + bytes.length ≤ sectorSize) :
    Buffers (s'.putBytes bytes) ∧
      Filling (s'.putBytes bytes).dataBuff ((s'.putBytes bytes).base + (s'.putBytes bytes).marked.length) ∧
      (s'.putBytes bytes).dataBuff.offset = s'.dataBuff.offset + bytes.length := by
  have hnumber := h.buffers.number
  rw [if_pos h.filling.state] at hnumber
  have hb := h.filling.putBytes hroom
  have hput := h.buffers.put (by rw [h.marked, h.same.handed]; exact hfree) hb s'.isBootup hnumber
  have hbuff : (s'.putBytes bytes).dataBuff = _ := dataBuff_setDataBuff
  exact ⟨hput, by rw [hbuff]; exact hb, by rw [hbuff]⟩

theorem outputLoop_spec (turns : Nat) (s : State) (remain : List UInt8) (h : Buffers s) (hunfilled : Unfilled s)
    (hfree : s.marked.length < s.handed.length + sectorBufferCount)
    (hturns : s.handed.length + sectorBufferCount ≤ s.marked.length + turns)
    (hnumbers : s.curDumpSeqnum.toNat + s.sectorsNeeded remain.length < 2 ^ 32) :
    ∃ s', State.outputLoop turns s remain = some s' ∧ Buffers s' ∧ Unfilled s' ∧ SameFlash s s' ∧
      s.marked <+: s'.marked := by
  induction turns generalizing s remain with
  | zero => omega
  | succ turns ih =>
      have hnext : s.dataBuff.state = .free → s.curDumpSeqnum.toNat + 1 < 2 ^ 32 := by
        intro hstate
        rw [sectorsNeeded_of_not (by rw [hstate]; decide)] at hnumbers
        omega
      have hopened := h.opened hunfilled hfree hnext
      simp only [State.outputLoop]
      generalize s.begin.putHeader = s₁ at hopened ⊢
      have hneeded := hopened.needed remain.length
      rw [sectorsNeeded_of_writting hopened.filling.state] at hneeded
      have hlen := writeLen_eq hopened.filling.le remain.length
      obtain ⟨hbuffers, hfilling, hoffset⟩ := hopened.put hfree (remain.take (s₁.writeLen remain.length))
        (by
          have := hopened.unfilled
          rw [List.length_take]
          omega)
      rw [List.length_take] at hoffset
      have hsame : SameFlash s (s₁.putBytes (remain.take (s₁.writeLen remain.length))) :=
        hopened.same.trans ⟨rfl, rfl, rfl, rfl, rfl, rfl⟩
      have hmarked : (s₁.putBytes (remain.take (s₁.writeLen remain.length))).marked = s.marked := hopened.marked
      have hseqnum : (s₁.putBytes (remain.take (s₁.writeLen remain.length))).curDumpSeqnum = s₁.curDumpSeqnum := rfl
      generalize s₁.putBytes (remain.take (s₁.writeLen remain.length)) = s₂ at *
      have hrest : (remain.drop (s₁.writeLen remain.length)).length =
          remain.length - (sectorSize - s₁.dataBuff.offset) := by
        rw [List.length_drop]
        omega
      generalize remain.drop (s₁.writeLen remain.length) = rest at hrest ⊢
      split
      · next hfull =>
          have hfree₂ : s₂.marked.length < s₂.handed.length + sectorBufferCount := by
            rw [hmarked, hsame.handed]
            exact hfree
          obtain ⟨hbuffers', hstate⟩ := hbuffers.mark hfree₂ hfilling hfull
          have hsame' : SameFlash s s₂.markWritten := hsame.trans ⟨rfl, rfl, rfl, rfl, rfl, rfl⟩
          have hlength : s₂.markWritten.marked.length = s.marked.length + 1 := by
            rw [← hmarked]
            exact List.length_append
          have hseqnum' : s₂.markWritten.curDumpSeqnum = s₁.curDumpSeqnum := hseqnum
          have hprefix : s.marked <+: s₂.markWritten.marked := by
            rw [← hmarked]
            exact List.prefix_append _ _
          generalize s₂.markWritten = s₃ at *
          rw [if_neg hstate]
          split
          · exact ⟨_, rfl, hbuffers'.addLost rest.length, fun hwritting => absurd hwritting hstate,
              hsame'.trans ⟨rfl, rfl, rfl, rfl, rfl, rfl⟩, hprefix⟩
          · next hapart =>
              split
              · exact ⟨s₃, rfl, hbuffers', fun hwritting => absurd hwritting hstate, hsame', hprefix⟩
              · next hmore =>
                  rw [hbuffers'.wSeqnum_eq_iff] at hapart
                  have hfits := hbuffers'.fits
                  have hhanded := congrArg List.length hsame'.handed
                  have hpos := List.length_pos_iff.mpr hmore
                  have hnumbers' : s₃.curDumpSeqnum.toNat + s₃.sectorsNeeded rest.length < 2 ^ 32 := by
                    rw [hseqnum', sectorsNeeded_of_not hstate, hrest]
                    simp only [payloadSize, sectorSize, LogDumpHeader.size] at hneeded hrest ⊢
                    omega
                  obtain ⟨s', hs', hbuffers₄, hunfilled₄, hsame₄, hprefix₄⟩ := ih s₃ rest hbuffers'
                    (fun hwritting => absurd hwritting hstate) (by omega) (by omega) hnumbers'
                  exact ⟨s', hs', hbuffers₄, hunfilled₄, hsame'.trans hsame₄, hprefix.trans hprefix₄⟩
      · next hnot =>
          have hempty : rest = [] := by
            refine List.length_eq_zero_iff.mp ?_
            have := hopened.unfilled
            omega
          rw [if_pos hempty]
          exact ⟨s₂, rfl, hbuffers, fun _ => Nat.lt_of_le_of_ne hfilling.le hnot, hsame, hmarked ▸ List.prefix_rfl⟩

end Best1307.LogDump
