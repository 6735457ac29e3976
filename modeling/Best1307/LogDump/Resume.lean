import Best1307.LogDump.Order

/-!
# What the log dump keeps

The sectors follow one another in number and place, a buffer once full gets to the flash as it is, and after a power
cut the log goes on behind the newest sector that is whole. The exceptions are an output into a pool of sixteen full
buffers, which begins the oldest of them anew; one after `_log_dump_flush_remain`, which leaves the flash off a sector
boundary; and a power cut while a sector has its header but not all of the rest.
-/

namespace Best1307.LogDump

open FlashQueue FlashRing
open NvRecord (NorflashRet)

/-- The `k`-th buffer marked written is still to be written, as it was marked. -/
def State.Waits (s : State) (k : Nat) (data : List UInt8) : Prop :=
  s.handed.length ≤ k ∧ k < s.handed.length + sectorBufferCount ∧
    s.dataBufferList ((s.fSeqnum + (k - s.handed.length)) % sectorBufferCount) = ⟨.written, sectorSize, data⟩

structure Orderly (cfg : Config) (s : State) : Prop where
  /-- The sectors given to the flash lie one behind the other and are numbered so. -/
  numbered : ∀ (k : Nat) (entry : Nat × List UInt8), s.handed[k]? = some entry →
    entry.1 = (s.resumed.2 + k) % cfg.sectorCount * sectorSize ∧ shown entry.2 = some (s.resumed.1.toNat + k)
  /-- A buffer marked written has been given to the flash, or waits for it. -/
  kept : ∀ (k : Nat) (data : List UInt8), s.marked[k]? = some data →
    (∃ entry : Nat × List UInt8, s.handed[k]? = some entry ∧ entry.2 = data) ∨ s.Waits k data
  /-- What has been given to the flash will be there until its sector is due again. -/
  stored : ∀ (k : Nat) (entry : Nat × List UInt8), s.handed[k]? = some entry →
    s.handed.length < k + cfg.sectorCount → entry.2 <+: s.flash.settled (entry.1 / sectorSize)
  /-- With a buffer waiting, two flushes that are not refused write one. -/
  progress : s.handed.length < s.marked.length →
    ∃ s', run (step cfg) s [.flush .ok, .flush .ok] = some s' ∧ s.handed.length < s'.handed.length
  /-- The sector due next has no number above that of another. -/
  oldest : (s.flashState = .idle → s.flashOffs % sectorSize = 0) →
    ∀ m, shown (s.flash.settled (s.flashOffs / sectorSize)) = some m →
      ∀ c < cfg.sectorCount, ∀ m', shown (s.flash.settled c) = some m' → m ≤ m'

/-- The sector holds all of what was given to the flash for it, with this number. -/
def Complete (s : State) (c m : Nat) : Prop :=
  ∃ data, (c * sectorSize, data) ∈ s.earlier ++ s.handed ∧ shown data = some m ∧ s.flash.physical c = image data

/-- If there is a complete sector, a reboot now goes on behind the newest. -/
def Resumes (cfg : Config) (s : State) : Prop :=
  ∀ c m, c < cfg.sectorCount → Complete s c m → (∀ c' m', c' < cfg.sectorCount → Complete s c' m' → m' ≤ m) →
    ∀ s', step cfg s .reboot = some s' →
      s'.curDumpSeqnum.toNat = m + 1 ∧ s'.flashOffs = (c + 1) % cfg.sectorCount * sectorSize

variable {cfg : Config} {s s' : State} {log : List (List UInt8)} {data : List UInt8}

theorem flush_of_idle (hidle : s.flashState = .idle) (haligned : s.flashOffs % sectorSize = 0) :
    s.logDumpFlush cfg .ok = s.eraseOk := by
  have hret : s.flashApiRet true .ok = .ok := ite_self _
  simp only [State.logDumpFlush, State.flush, hidle, haligned, and_self, if_true, hret]

theorem flush_of_erased (hstate : s.flashState = .erased ∨ s.flashState = .writting)
    (hbuff : s.dataBufferList s.fSeqnum = ⟨.written, sectorSize, data⟩) :
    s.logDumpFlush cfg .ok = s.writeOk cfg := by
  have hret : s.flashApiRet true .ok = .ok := ite_self _
  have hwritten : (s.dataBufferList s.fSeqnum).state.bits &&& BufferState.written.bits ≠ 0 ∧
      0 < (s.dataBufferList s.fSeqnum).offset := by
    rw [hbuff]
    exact ⟨show BufferState.written.bits &&& BufferState.written.bits ≠ 0 by decide, show 0 < sectorSize by decide⟩
  rw [State.logDumpFlush, State.flush, if_neg fun h => ne_idle_of hstate h.1, if_pos hstate]
  simp only [hret]
  rw [if_pos hwritten]

theorem length_handed_le (ret : NorflashRet) : s.handed.length ≤ (s.logDumpFlush cfg ret).handed.length := by
  have hflush : Flushed cfg s BufferState.written.bits (s.logDumpFlush cfg ret) := flushed ..
  generalize s.logDumpFlush cfg ret = s' at hflush
  cases hflush with
  | same | erase _ _ | refused _ => exact Nat.le_refl _
  | write _ _ =>
      rw [length_handed_writeOk]
      exact Nat.le_succ _

theorem Running.progress (h : Running cfg s) (hlt : s.handed.length < s.marked.length) :
    s.handed.length < ((s.logDumpFlush cfg .ok).logDumpFlush cfg .ok).handed.length := by
  have hbuff := h.buffers.oldest (List.getElem?_eq_getElem hlt)
  have hwrite : s.handed.length < (s.writeOk cfg).handed.length := by
    rw [length_handed_writeOk]
    exact Nat.lt_succ_self _
  cases hstate : s.flashState with
  | idle =>
      rw [flush_of_idle hstate (by rw [h.flashOffs, offset_mod])]
      rw [flush_of_erased (s := s.eraseOk) (.inl rfl) hbuff]
      exact hwrite
  | erased =>
      rw [flush_of_erased (.inl hstate) hbuff]
      exact Nat.lt_of_lt_of_le hwrite (length_handed_le _)
  | writting =>
      rw [flush_of_erased (.inr hstate) hbuff]
      exact Nat.lt_of_lt_of_le hwrite (length_handed_le _)
  | written => exact absurd hstate h.flashState

theorem Logged.shown_entry (h : Logged cfg s log) {k : Nat} {entry : Nat × List UInt8}
    (hk : s.handed[k]? = some entry) : shown entry.2 = some (s.base + k) := by
  obtain ⟨-, hlog⟩ := h.handed k entry hk
  obtain ⟨hmin, hmax⟩ := h.lengths entry (List.mem_append_right _ (List.mem_of_getElem? hk))
  rw [← shown_program hmin hmax]
  exact h.holds.numbered _ _ (by rw [List.getElem?_map, hlog]; rfl)

theorem Inv.orderly (h : Inv cfg s) : Orderly cfg s := by
  obtain ⟨log, hlog, hphase⟩ := h
  have hsettled := hlog.holds.settled cfg.sectorCount_pos shown_erasedSector
  have hlength : (log.map image).length = s.base + s.handed.length := by rw [List.length_map, hlog.length]
  refine ⟨?_, ?_, ?_, ?_, ?_⟩
  · intro k entry hk
    refine ⟨?_, hlog.shown_entry hk⟩
    rw [hlog.resumed, Nat.mod_add_mod]
    exact (hlog.handed k entry hk).1
  · intro k data hk
    rcases hphase with hrunning | hclosed
    · rcases Nat.lt_or_ge k s.handed.length with hgiven | hwaits
      · have hentry := List.getElem?_eq_getElem hgiven
        exact .inl ⟨_, hentry, Option.some.inj ((hrunning.given k _ hentry).symm.trans hk)⟩
      · obtain ⟨hlt, -⟩ := List.getElem?_eq_some_iff.mp hk
        refine .inr ⟨hwaits, Nat.lt_of_lt_of_le hlt hrunning.buffers.fits, ?_⟩
        rw [hrunning.buffers.fSeqnum, Nat.mod_add_mod, Nat.add_sub_cancel' hwaits]
        exact hrunning.buffers.waiting k data hwaits hk
    · exact .inl (hclosed.given k data hk)
  · intro k entry hk hlt
    obtain ⟨hplace, hentry⟩ := hlog.handed k entry hk
    obtain ⟨-, hmax⟩ := hlog.lengths entry (List.mem_append_right _ (List.mem_of_getElem? hk))
    obtain ⟨hk', -⟩ := List.getElem?_eq_some_iff.mp hk
    have hkept := hsettled.ready.kept (s.base + k) (by omega) (by omega)
    rw [List.getElem?_map, hentry] at hkept
    rw [hplace, offset_div, ← Option.some.inj hkept]
    exact ⟨_, (program_erasedSector hmax).symm⟩
  · intro hlt
    rcases hphase with hrunning | hclosed
    · exact ⟨_, rfl, hrunning.progress hlt⟩
    · have := hclosed.length
      omega
  · intro haligned m hm c hc m' hm'
    rcases hphase with hrunning | hclosed
    · rw [hrunning.flashOffs, offset_div, ← hlength] at hm
      have hoff := hsettled.ready.oldest m hm
      obtain ⟨-, hle, -⟩ := hsettled.ready.shown_eq hlog.holds.numbered hc hm'
      omega
    · exact absurd (haligned hclosed.flashState) hclosed.flashOffs

theorem Inv.resumes (h : Inv cfg s) (hcut : CleanCut shown s.flash) : Resumes cfg s := by
  obtain ⟨log, hlog, hphase⟩ := h
  obtain ⟨n, hle, hready⟩ := hlog.holds.ready_physical cfg.sectorCount_pos shown_erasedSector hcut
  rw [List.length_map] at hle
  have hbound := Nat.lt_of_le_of_lt hle (hlog.length_lt hphase)
  intro c m hc ⟨data, hdata, hm, hphysical⟩ hnewest s' hs'
  obtain rfl := Option.some.inj hs'
  obtain ⟨hmin, hmax⟩ := hlog.lengths _ hdata
  have hshown : shown (s.flash.physical c) = some m := by
    rw [hphysical, ← hm]
    exact shown_program hmin hmax
  obtain ⟨hlt, -, hplace⟩ := hready.shown_eq hlog.holds.numbered hc hshown
  rcases getSeqnum_of_ready hready hlog.holds.numbered hbound with
    ⟨hblank, -⟩ | ⟨last, rfl, hlast, hseqnum, hsector⟩
  · rw [hblank c hc] at hshown
    cases hshown
  · have heq : m = last := by
      refine Nat.le_antisymm (Nat.le_of_lt_succ hlt) ?_
      rcases Nat.lt_or_ge 1 cfg.sectorCount with hmany | hone
      · -- the sector of the last number is complete
        have hkept := hready.kept last (Nat.lt_succ_self last) (by omega)
        rw [List.getElem?_map, Option.map_eq_some_iff] at hkept
        obtain ⟨other, hother, himage⟩ := hkept
        refine hnewest _ last (Nat.mod_lt _ cfg.sectorCount_pos) ⟨other, hlog.entry last other hother, ?_, himage.symm⟩
        obtain ⟨hmin', hmax'⟩ := hlog.lengths _ (hlog.entry last other hother)
        rw [← shown_program hmin' hmax', ← hlast, ← himage]
        rfl
      · have hone : cfg.sectorCount = 1 := Nat.le_antisymm hone cfg.sectorCount_pos
        rw [hone, Nat.mod_one] at hlast
        rw [show c = 0 by omega, hlast] at hshown
        exact Nat.le_of_eq (Option.some.inj hshown)
    subst heq
    refine ⟨hseqnum, ?_⟩
    show (getSeqnum cfg s.flash.physical).2 * sectorSize = _
    rw [hsector, ← hplace, Nat.mod_add_mod]

theorem inv_of_run {flash : Nat → List UInt8} (hblank : ∀ c < cfg.sectorCount, shown (flash c) = none)
    {events : List Event} (halong : Along (step cfg) Admitted (logDumpInit cfg flash []) events)
    (hrun : run (step cfg) (logDumpInit cfg flash []) events = some s) : Inv cfg s := by
  have hinit : Inv cfg (logDumpInit cfg flash []) := by
    have hzero := getSeqnum_of_blank hblank
    refine inv_logDumpInit [] (fun k content hk => ?_) (.zero cfg.sectorCount_pos hblank) (fun k data hk => ?_)
      (fun entry hentry => absurd hentry List.not_mem_nil) ?_ ?_
    · cases hk
    · cases hk
    · rw [hzero]
      rfl
    · rw [hzero]
      exact (Nat.zero_mod _).symm
  exact run_invariant_along (Inv cfg) (fun _ _ _ h hadmitted hstep => h.step hadmitted hstep) halong hinit hrun

/-- On a partition with no log at first, whatever is output, flushed and lost to power cuts. -/
theorem logDump_ordered {flash : Nat → List UInt8} (hblank : ∀ c < cfg.sectorCount, shown (flash c) = none)
    {events : List Event} (halong : Along (step cfg) Admitted (logDumpInit cfg flash []) events)
    (hrun : run (step cfg) (logDumpInit cfg flash []) events = some s) :
    Orderly cfg s ∧ (Admitted s .reboot → Resumes cfg s) := by
  have hinv := inv_of_run hblank halong hrun
  exact ⟨hinv.orderly, fun hcut => hinv.resumes hcut⟩

/-! ### Runs on a partition of four sectors -/

def fourSectors : Config := ⟨4, by decide⟩

def State.fresh : State := logDumpInit fourSectors (fun _ => erasedSector) []

def sectorful : Event := .output (List.replicate payloadSize 0) []

instance (op : Op Nat (List UInt8)) (cells : Nat → List UInt8) (content : List UInt8) :
    Decidable (Clean shown cells op content) := inferInstanceAs (Decidable (_ ∨ _ ∨ _))

instance (flash : Device Nat (List UInt8)) : Decidable (CleanCut shown flash) :=
  inferInstanceAs (Decidable (∀ op ∈ flash.queue.head?, ∀ content ∈ flash.torn, Clean shown flash.cells op content))

instance (s : State) : (e : Event) → Decidable (Admitted s e)
  | .output _ _ => inferInstanceAs (Decidable (_ ∨ _ ∧ _ ∧ _))
  | .reboot => inferInstanceAs (Decidable (CleanCut shown s.flash))
  | .flush _ => inferInstanceAs (Decidable True)
  | .flushImmediately => inferInstanceAs (Decidable True)
  | .flushRemain _ => inferInstanceAs (Decidable True)
  | .flashFinish => inferInstanceAs (Decidable True)
  | .flashTear _ => inferInstanceAs (Decidable True)

/-- Two sectors are filled, of which the first is on the flash when power is cut, and a third is begun. -/
def orderlyEvents : List Event :=
  [sectorful, .flush .ok, .flush .bufferFull, sectorful, .flush .ok, .flashFinish, .flashTear erasedSector,
    .flashFinish, .flush .ok, .reboot, .output [76, 79, 71] [0], .flush .ok, .flushImmediately,
    .flushRemain .bufferFull]

theorem logDump_ordered_fourSectors : ∃ s, run (step fourSectors) .fresh orderlyEvents = some s ∧
    s.resumed = (1, 1) ∧ s.handed.length = 1 ∧ Orderly fourSectors s ∧
    (Admitted s .reboot → Resumes fourSectors s) := by
  have hresult : (run (step fourSectors) .fresh orderlyEvents).map (fun s => (s.resumed, s.handed.length)) =
      some ((1, 1), 1) := by decide +kernel
  obtain ⟨s, hrun, hs⟩ := Option.map_eq_some_iff.mp hresult
  obtain ⟨hresumed, hhanded⟩ := Prod.mk.inj hs
  exact ⟨s, hrun, hresumed, hhanded,
    logDump_ordered (fun _ _ => shown_erasedSector) (by decide +kernel) hrun⟩

/-- Sixteen sectors are filled, and another one, before the flash gets to the first. -/
def overrunEvents : List Event :=
  List.replicate 17 sectorful ++ [.flush .ok, .flush .ok, .flush .ok, .flush .ok]

/-- Power is cut when the second sector has its header. -/
def halfWrittenEvents : List Event :=
  [sectorful, .flush .ok, .flush .ok, .flashFinish, .flashFinish, sectorful, .flush .ok, .flush .ok, .flashFinish,
    .flashTear ((LogDumpHeader.filled 1 false).bytes ++ List.replicate payloadSize 0xFF)]

/-- With one operation left for the second sector, the first is whole. -/
theorem Inv.complete_first (h : Inv fourSectors s) (hlength : s.base + s.handed.length = 2)
    (hqueue : s.flash.queue.map Op.cell = [1]) : Complete s 0 0 := by
  obtain ⟨log, hlog, -⟩ := h
  obtain ⟨n, erased, hstage, hpending⟩ := hlog.holds.pending
  have hle := hpending.le
  have hge := hpending.le_add_length
  have hops := congrArg List.length hqueue
  rw [List.length_map, List.length_singleton] at hops
  rw [List.length_map, hlog.length, hlength] at hle hge
  have hkept := hstage.ready.kept 0 (by omega) (show n < 0 + 4 by omega)
  rw [List.getElem?_map, Option.map_eq_some_iff] at hkept
  obtain ⟨data, hdata, himage⟩ := hkept
  have hmem := hlog.entry 0 data hdata
  obtain ⟨hmin, hmax⟩ := hlog.lengths _ hmem
  have hphysical : s.flash.physical 0 = s.flash.cells 0 := by
    refine Device.physical_of_head_ne fun op hop => ?_
    have hcell := congrArg List.head? hqueue
    rw [List.head?_map, hop, Option.map_some, List.head?_cons, Option.some.injEq] at hcell
    rw [hcell]
    decide
  refine ⟨data, hmem, ?_, hphysical.trans himage.symm⟩
  rw [← shown_program hmin hmax]
  exact hlog.holds.numbered 0 _ (by rw [List.getElem?_map, hdata]; rfl)

/-- The overrun puts number 16 where number 0 belongs, before number 1, and the only loss reported with it is one of
no bytes. The half-written sector counts as the newest. -/
theorem logDump_ordered_fails :
    (∃ s, run (step fourSectors) .fresh overrunEvents = some s ∧
      s.handed.map (fun entry => (entry.1, shown entry.2)) = [(0, some 16), (0x1000, some 1)] ∧ s.lost = [0] ∧
      ¬ Orderly fourSectors s) ∧
    ∃ s, run (step fourSectors) .fresh halfWrittenEvents = some s ∧ ¬ Resumes fourSectors s := by
  constructor
  · have hresult : (run (step fourSectors) .fresh overrunEvents).map (fun s =>
        (s.handed.map (fun entry => (entry.1, shown entry.2)), s.lost, s.resumed)) =
        some ([(0, some 16), (0x1000, some 1)], [0], (0, 0)) := by decide +kernel
    obtain ⟨s, hrun, hs⟩ := Option.map_eq_some_iff.mp hresult
    obtain ⟨hhanded, hrest⟩ := Prod.mk.inj hs
    obtain ⟨hlost, hresumed⟩ := Prod.mk.inj hrest
    refine ⟨s, hrun, hhanded, hlost, fun horderly => ?_⟩
    have hfirst := congrArg (fun l : List (Nat × Option Nat) => l[0]?) hhanded
    rw [List.getElem?_map, show ([(0, some 16), (0x1000, some 1)] : List (Nat × Option Nat))[0]? = some (0, some 16)
      from rfl, Option.map_eq_some_iff] at hfirst
    obtain ⟨entry, hentry, hshown⟩ := hfirst
    have hnumber := (horderly.numbered 0 entry hentry).2
    rw [hresumed, (Prod.mk.inj hshown).2] at hnumber
    revert hnumber
    decide
  · have hresult : (run (step fourSectors) .fresh halfWrittenEvents).map (fun s =>
        (s.resumed.1.toNat + s.handed.length, s.flash.queue.map Op.cell,
          decide (∀ entry ∈ s.earlier ++ s.handed, shown entry.2 = some 0 ∨
            (s.flash.physical (entry.1 / sectorSize))[LogDumpHeader.size]? ≠ (image entry.2)[LogDumpHeader.size]?),
          (logDumpInit fourSectors s.flash.physical (s.earlier ++ s.handed)).curDumpSeqnum)) =
        some (2, [1], true, 2) := by decide +kernel
    obtain ⟨s, hrun, hs⟩ := Option.map_eq_some_iff.mp hresult
    obtain ⟨hlength, hrest⟩ := Prod.mk.inj hs
    obtain ⟨hqueue, hrest⟩ := Prod.mk.inj hrest
    obtain ⟨hothers, hseqnum⟩ := Prod.mk.inj hrest
    have hothers := of_decide_eq_true hothers
    refine ⟨s, hrun, fun hresumes => ?_⟩
    have hcomplete : Complete s 0 0 :=
      (inv_of_run (fun _ _ => shown_erasedSector) (by decide +kernel) hrun).complete_first hlength hqueue
    have hnewest : ∀ c m, c < fourSectors.sectorCount → Complete s c m → m ≤ 0 := by
      intro c m _ ⟨other, hother, hm, hc⟩
      rcases hothers _ hother with hzero | hnot
      · rw [hm] at hzero
        exact Nat.le_of_eq (Option.some.inj hzero)
      · rw [offset_div] at hnot
        exact absurd (congrArg (fun l : List UInt8 => l[LogDumpHeader.size]?) hc) hnot
    have hnext := (hresumes 0 0 (by decide) hcomplete hnewest _ rfl).1
    rw [hseqnum] at hnext
    revert hnext
    decide

end Best1307.LogDump
