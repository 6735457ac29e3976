import Best1307.NvRecord.CrashSafety

/-!
# The flash and the RAM record agree

When the flush is idle and no update waits, both sectors hold the RAM record, and a synchronous flush gets
there from wherever the asynchronous one has left the store. Both rest on the boot: it takes two valid
sectors as they are, and nothing compares them with each other or with the record it makes of them.
-/

namespace Best1307.NvRecord

open FlashQueue FlashQueue.Device Build

variable {b : Build} {main bak : NvExtensionRecord}

/-- Both sectors hold the RAM record, and its CRC is right. -/
def Machine.Agrees (b : Build) (m : Machine) : Prop :=
  b.SameRecord (m.inFlash .main) m.nv.ram ∧ b.SameRecord (m.inFlash .bak) m.nv.ram ∧
    m.nv.ram.header.crc32 = b.crc32C (b.payload m.nv.ram)

/-- The flush or the flash makes a step. A refused request and a wait leave everything as it was; they
are not counted. -/
def Productive (b : Build) (m : Machine) (e : Event) : Prop :=
  ((∃ ret, e = .syncStep ret) ∨ e = .flashDone) ∧ step b m e ≠ some m

/-- After every run from this boot: if nothing is left to do, the flash agrees with the RAM record, and a
synchronous flush called now ends with the flash agreeing with the RAM record of this moment. -/
def Agreement (b : Build) (main bak : NvExtensionRecord) : Prop :=
  ∀ events m, run (step b) (b.nvRecordExtensionInit main bak) events = some m →
    (m.nv.state = .idle → m.nv.isUpdate = false → m.nv.flash.queue = [] → m.Agrees b) ∧
      ∀ m', step b m .syncFlush = some m' →
        Inevitable (step b) (Productive b)
          (fun t => t.sync = .off ∧ t.Agrees b ∧ t.nv.ram.data = m.nv.ram.data) m'

/-! ### How far a synchronous flush has to go -/

def NvState.beforeSnapshot : NvState → Bool
  | .idle | .mainErasing | .mainErased => true
  | _ => false

def Machine.stage (m : Machine) : Nat :=
  match m.sync with
  | .off => 0
  | .loop => if m.nv.state = .idle ∧ m.nv.isUpdate = false then 1 else 10
  | .mainErase => 9
  | .mainSnapshot => 8
  | .mainWrite => 7
  | .mainDrain => 6
  | .bakErase => 5
  | .bakRead => 4
  | .bakWrite => 3
  | .bakDrain => 2

/-- An update that has missed the snapshot of this cycle costs one more cycle. -/
def Machine.rank (m : Machine) : Nat :=
  2 * m.stage + m.nv.flash.queue.length +
    if m.nv.isUpdate = true ∧ m.nv.state.beforeSnapshot = false then 30 else 0

/-- A step of the synchronous flush keeps the bytes of the RAM record, ends only when nothing is left to
do, and otherwise waits or comes nearer to that. -/
theorem syncStep_progress {m m' : Machine} {ret : NorflashRet} (halign : m.Aligned)
    (h : m.syncStep b ret = some m') :
    m'.nv.ram.data = m.nv.ram.data ∧
      (m'.sync = .off → m'.nv.state = .idle ∧ m'.nv.isUpdate = false) ∧ (m' = m ∨ m'.rank < m.rank) := by
  obtain ⟨s, sync⟩ := m
  unfold Machine.Aligned at halign
  cases sync with
  | off => simp [Machine.syncStep] at h
  | loop =>
      simp only [Machine.syncStep] at h
      split at h
      · next hdone =>
          obtain rfl := Option.some.inj h
          exact ⟨rfl, fun _ => hdone, .inr (by simp [Machine.rank, Machine.stage, hdone])⟩
      · next hwork =>
          split at h <;> obtain rfl := Option.some.inj h <;>
            exact ⟨rfl, by simp, .inr (by simp [Machine.rank, Machine.stage, hwork])⟩
  | mainErase =>
      simp only [Machine.syncStep] at h
      split at h
      · next hstate =>
          cases ret with
          | ok =>
              obtain rfl := Option.some.inj h
              refine ⟨rfl, by simp, .inr ?_⟩
              simp [Machine.rank, Machine.stage, NvStore.norflashErase, Device.enqueue,
                NvState.beforeSnapshot]
              omega
          | bufferFull =>
              obtain rfl := Option.some.inj h
              exact ⟨rfl, by simp, .inl rfl⟩
      · obtain rfl := Option.some.inj h
        exact ⟨rfl, by simp, .inr (by simp [Machine.rank, Machine.stage])⟩
  | mainSnapshot =>
      simp only [Machine.syncStep] at h
      split at h
      · obtain ⟨s', hs', rfl⟩ := Option.map_eq_some_iff.mp h
        obtain ⟨_, rfl⟩ := snapshot_eq_some hs'
        refine ⟨rfl, by simp, .inr ?_⟩
        simp [Machine.rank, Machine.stage]
        omega
      · obtain rfl := Option.some.inj h
        exact ⟨rfl, by simp, .inr (by simp [Machine.rank, Machine.stage])⟩
  | mainWrite =>
      simp only [Machine.syncStep] at h
      split at h
      · next hstate =>
          cases ret with
          | ok =>
              obtain rfl := Option.some.inj h
              refine ⟨rfl, by simp, .inr ?_⟩
              simp [Machine.rank, Machine.stage, NvStore.norflashWrite, Device.enqueue,
                NvState.beforeSnapshot, hstate]
              omega
          | bufferFull =>
              obtain rfl := Option.some.inj h
              exact ⟨rfl, by simp, .inl rfl⟩
      · obtain rfl := Option.some.inj h
        exact ⟨rfl, by simp, .inr (by simp [Machine.rank, Machine.stage])⟩
  | mainDrain =>
      have hstate : s.state = .mainWritten := by
        cases hs : s.state <;> simp_all [SyncPoint.admits]
      simp only [Machine.syncStep] at h
      split at h
      · obtain rfl := Option.some.inj h
        exact ⟨rfl, by simp, .inr (by simp [Machine.rank, Machine.stage, NvState.beforeSnapshot, hstate])⟩
      · obtain rfl := Option.some.inj h
        exact ⟨rfl, by simp, .inl rfl⟩
  | bakErase =>
      simp only [Machine.syncStep] at h
      split at h
      · next hstate =>
          cases ret with
          | ok =>
              obtain rfl := Option.some.inj h
              refine ⟨rfl, by simp, .inr ?_⟩
              rcases hstate with hstate | hstate <;>
                simp [Machine.rank, Machine.stage, NvStore.norflashErase, Device.enqueue,
                  NvState.beforeSnapshot, hstate] <;> omega
          | bufferFull =>
              obtain rfl := Option.some.inj h
              exact ⟨rfl, by simp, .inl rfl⟩
      · obtain rfl := Option.some.inj h
        exact ⟨rfl, by simp, .inr (by simp [Machine.rank, Machine.stage])⟩
  | bakRead =>
      simp only [Machine.syncStep] at h
      split at h
      · next hstate =>
          obtain rfl := Option.some.inj h
          refine ⟨rfl, by simp, .inr ?_⟩
          rcases hstate with hstate | hstate <;>
            simp [Machine.rank, Machine.stage, NvStore.norflashRead, NvState.beforeSnapshot, hstate]
      · obtain rfl := Option.some.inj h
        exact ⟨rfl, by simp, .inr (by simp [Machine.rank, Machine.stage])⟩
  | bakWrite =>
      have hstate : s.state = .bakWritePending := by
        cases hs : s.state <;> simp_all [SyncPoint.admits]
      simp only [Machine.syncStep, if_pos hstate] at h
      cases ret with
      | ok =>
          obtain rfl := Option.some.inj h
          refine ⟨rfl, by simp, .inr ?_⟩
          simp [Machine.rank, Machine.stage, NvStore.norflashWrite, Device.enqueue,
            NvState.beforeSnapshot, hstate]
          omega
      | bufferFull =>
          obtain rfl := Option.some.inj h
          exact ⟨rfl, by simp, .inl rfl⟩
  | bakDrain =>
      have hstate : s.state = .bakWritten := by
        cases hs : s.state <;> simp_all [SyncPoint.admits]
      simp only [Machine.syncStep] at h
      split at h
      · next hused =>
          obtain rfl := Option.some.inj h
          refine ⟨rfl, by simp, .inr ?_⟩
          cases hupdate : s.isUpdate with
          | false =>
              simp [Machine.rank, Machine.stage, NvStore.flushBakEnd, NvState.beforeSnapshot, hupdate]
          | true =>
              -- the update came after the snapshot: one more cycle, which begins before its snapshot
              simp [Machine.rank, Machine.stage, NvStore.flushBakEnd, NvState.beforeSnapshot, hstate,
                hupdate]
              omega
      · obtain rfl := Option.some.inj h
        exact ⟨rfl, by simp, .inl rfl⟩

/-- Where it does not wait for the flash, a synchronous flush whose requests are taken moves on. -/
theorem syncStep_advances {m : Machine} (hshape : Shaped b m.nv) (hsync : m.sync ≠ .off)
    (hdrained : m.sync = .mainDrain ∨ m.sync = .bakDrain → m.nv.norflashUsedCount = 0) :
    ∃ m', m.syncStep b .ok = some m' ∧ m'.sync ≠ m.sync := by
  obtain ⟨s, sync⟩ := m
  unfold Machine.syncStep
  cases sync with
  | off => exact absurd rfl hsync
  | loop =>
      dsimp only
      split
      · exact ⟨_, rfl, by simp⟩
      · split <;> exact ⟨_, rfl, by simp⟩
  | mainSnapshot =>
      dsimp only
      split
      · obtain ⟨s', hs'⟩ := hshape.snapshot
        exact ⟨⟨s', .mainWrite⟩, by rw [hs']; rfl, by simp⟩
      · exact ⟨_, rfl, by simp⟩
  | mainDrain | bakDrain =>
      dsimp only at hdrained ⊢
      rw [if_pos (hdrained (by simp))]
      exact ⟨_, rfl, by simp⟩
  | mainErase | mainWrite | bakErase | bakRead | bakWrite =>
      dsimp only
      split <;> exact ⟨_, rfl, by simp⟩

/-- While a synchronous flush runs, it or the flash can make a step that counts. -/
theorem productive_enabled {m : Machine} (hshape : Shaped b m.nv) (hsync : m.sync ≠ .off) :
    ∃ e m', Productive b m e ∧ step b m e = some m' := by
  by_cases hdrained : m.sync = .mainDrain ∨ m.sync = .bakDrain → m.nv.norflashUsedCount = 0
  · obtain ⟨m', hstep, hne⟩ := syncStep_advances hshape hsync hdrained
    refine ⟨.syncStep .ok, m', ⟨.inl ⟨.ok, rfl⟩, fun hsame => ?_⟩, hstep⟩
    rw [step, hstep] at hsame
    exact hne (congrArg Machine.sync (Option.some.inj hsame))
  · rcases hqueue : m.nv.flash.queue with _ | ⟨op, rest⟩
    · simp [NvStore.norflashUsedCount, hqueue] at hdrained
    · refine ⟨.flashDone, _, ⟨.inr rfl, fun hsame => ?_⟩, by rw [step, finish, hqueue]; rfl⟩
      rw [step, finish, hqueue] at hsame
      have hlength := congrArg (fun t => t.nv.flash.queue.length) (Option.some.inj hsame)
      simp [hqueue] at hlength

/-! ### Agreement -/

theorem Synced.agrees {m : Machine} (hshape : Shaped b m.nv) (h : Synced b m.nv)
    (hstate : m.nv.state = .idle) (hupdate : m.nv.isUpdate = false) : m.Agrees b := by
  have hflash := hshape.flash
  have hcarried := h.carried hupdate
  simp only [FlashShape, hstate] at hflash
  simp only [Carried, hstate] at hcarried
  refine ⟨?_, ?_, ?_⟩
  · rw [Machine.inFlash, physical_of_drained hflash]
    exact hcarried.1
  · rw [Machine.inFlash, physical_of_drained hflash]
    exact hcarried.2
  · rw [h.sealed hupdate]
    rfl

/-- What the machine keeps while a synchronous flush works towards the bytes `data`. -/
structure Flushing (b : Build) (data : Nat → UInt8) (m : Machine) : Prop where
  aligned : m.Aligned
  shaped : Shaped b m.nv
  synced : Synced b m.nv
  data_eq : m.nv.ram.data = data
  done : m.sync = .off → m.nv.state = .idle ∧ m.nv.isUpdate = false

theorem Flushing.next {data : Nat → UInt8} {m m' : Machine} {e : Event} (h : Flushing b data m)
    (he : Productive b m e) (hstep : step b m e = some m') : Flushing b data m' ∧ m'.rank < m.rank := by
  obtain ⟨hmove, halign⟩ := step_move (fun _ => True) h.aligned (fun _ _ => trivial) hstep
  have hshape := h.shaped.move hmove
  have hsync := h.synced.move h.shaped hmove
  obtain ⟨⟨ret, rfl⟩ | rfl, hchanges⟩ := he
  · obtain ⟨hdata, hend, hrank⟩ := syncStep_progress h.aligned hstep
    refine ⟨⟨halign, hshape, hsync, hdata.trans h.data_eq, hend⟩, hrank.resolve_left ?_⟩
    rintro rfl
    exact hchanges hstep
  · obtain ⟨flash, hflash, rfl⟩ := Option.map_eq_some_iff.mp hstep
    obtain ⟨op, rest, hqueue, rfl⟩ := finish_eq_some hflash
    refine ⟨⟨halign, hshape, hsync, h.data_eq, h.done⟩, ?_⟩
    simp only [Machine.rank, Machine.stage, hqueue, List.length_cons]
    omega

theorem Flushing.ends {data : Nat → UInt8} {m : Machine} (h : Flushing b data m) :
    Inevitable (step b) (Productive b)
      (fun t => t.sync = .off ∧ t.Agrees b ∧ t.nv.ram.data = data) m := by
  have hgoal : ∀ t, Flushing b data t → t.sync = .off →
      t.sync = .off ∧ t.Agrees b ∧ t.nv.ram.data = data := by
    intro t ht hoff
    obtain ⟨hstate, hupdate⟩ := ht.done hoff
    exact ⟨hoff, ht.synced.agrees ht.shaped hstate hupdate, ht.data_eq⟩
  refine Inevitable.of_rank Machine.rank (fun t ht hnot => ?_) (fun t e t' ht _ he hstep => ht.next he hstep) h
  exact productive_enabled ht.shaped fun hoff => hnot (hgoal t ht hoff)

/-- The boot starts in step: a pair of valid sectors is one it would leave as it is. -/
theorem init_synced (hagree : b.accepts main = true → b.accepts bak = true →
    b.SameRecord main (b.loadRecord main) ∧ b.SameRecord bak (b.loadRecord main)) :
    Synced b (b.nvRecordExtensionInit main bak).nv := by
  refine ⟨fun _ => init_sealed b main bak, fun hupdate => ?_⟩
  rw [init_isUpdate, Bool.not_eq_false', Bool.and_eq_true] at hupdate
  obtain ⟨hmain, hbak⟩ := hupdate
  have hstate : (b.nvRecordExtensionInit main bak).nv.state = .idle := by
    rw [init_state, if_neg (by simp [hbak])]
  have hram : (b.nvRecordExtensionInit main bak).nv.ram = b.loadRecord main := by
    rw [init_ram, loadedSector, if_pos hmain]
  simp only [Carried, hstate, hram, init_flash]
  exact hagree hmain hbak

theorem run_synced {events : List Event} {m : Machine}
    (hinit : Synced b (b.nvRecordExtensionInit main bak).nv)
    (hrun : run (step b) (b.nvRecordExtensionInit main bak) events = some m) : Synced b m.nv := by
  refine (run_invariant (fun m => (m.Aligned ∧ Shaped b m.nv) ∧ Synced b m.nv) (fun t e t' ht hstep => ?_)
    ⟨⟨init_aligned b main bak, init_shaped b main bak⟩, hinit⟩ hrun).2
  obtain ⟨hmove, halign⟩ := step_move (fun _ => True) ht.1.1 (fun _ _ => trivial) hstep
  exact ⟨⟨halign, ht.1.2.move hmove⟩, ht.2.move ht.1.2 hmove⟩

/-- Two valid sectors are as a boot would write them: of this build's length and version, and the same. -/
def Settled (b : Build) (main bak : NvExtensionRecord) : Prop :=
  b.accepts main = true → b.accepts bak = true →
    main.header.minorVersion = b.minorVersion ∧ main.header.validLen = UInt32.ofNat b.validLen ∧
      b.SameRecord main bak

/-- An accepted record equals what the boot makes of it if it is of this build's version and length. -/
theorem sameRecord_loadRecord_iff {r : NvExtensionRecord} (h : b.accepts r = true) :
    b.SameRecord r (b.loadRecord r) ↔
      r.header.minorVersion = b.minorVersion ∧ r.header.validLen = UInt32.ofNat b.validLen := by
  obtain ⟨hmajor, hmagic, _, hcrc⟩ := (b.accepts_iff r).mp h
  rw [loadRecord_eq_sealed]
  have hdata : ∀ i < b.validLen, (if i < b.validLen then r.data i else b.initialData i) = r.data i :=
    fun i hi => if_pos hi
  constructor
  · rintro ⟨hheader, _⟩
    rw [hheader]
    exact ⟨rfl, rfl⟩
  · rintro ⟨hminor, hlen⟩
    refine ⟨?_, fun i hi => (hdata i hi).symm⟩
    rw [hlen, b.validLen_toNat] at hcrc
    obtain ⟨⟨magic, major, minor, len, crc⟩, data⟩ := r
    simp only [Build.sealed, header, NvrecordHeader.mk.injEq]
    exact ⟨hmagic, hmajor, hminor, hlen, hcrc.trans (congrArg _ (dataBytes_congr hdata).symm)⟩

theorem settled_iff : Settled b main bak ↔ (b.accepts main = true → b.accepts bak = true →
    b.SameRecord main (b.loadRecord main) ∧ b.SameRecord bak (b.loadRecord main)) := by
  refine forall_congr' fun hmain => forall_congr' fun hbak => ?_
  rw [sameRecord_loadRecord_iff hmain, and_assoc]
  refine and_congr_right fun hminor => and_congr_right fun hlen => ?_
  have hloaded := (sameRecord_loadRecord_iff hmain).mpr ⟨hminor, hlen⟩
  exact ⟨fun hsame => hsame.symm.trans hloaded, fun hsame => hloaded.trans hsame.symm⟩

theorem agreement_of_settled (h : Settled b main bak) : Agreement b main bak := by
  intro events m hrun
  obtain ⟨halign, hshape⟩ := run_shaped hrun
  have hsync := run_synced (init_synced (settled_iff.mp h)) hrun
  refine ⟨fun hstate hupdate _ => hsync.agrees hshape hstate hupdate, fun m' hstart => ?_⟩
  obtain ⟨hmove, halign'⟩ := step_move (fun _ => True) halign (fun _ _ => trivial) hstart
  simp only [step] at hstart
  split at hstart
  · obtain rfl := Option.some.inj hstart
    exact Flushing.ends ⟨halign', hshape, hsync, rfl, by simp⟩
  · contradiction

/-- Nothing brings two sectors together that the boot has found valid and different. -/
theorem settled_of_agreement (h : Agreement b main bak) : Settled b main bak := by
  rw [settled_iff]
  intro hmain hbak
  have hram : (b.nvRecordExtensionInit main bak).nv.ram = b.loadRecord main := by
    rw [init_ram, loadedSector, if_pos hmain]
  have hqueue : (b.nvRecordExtensionInit main bak).nv.flash.queue = [] := by rw [init_flash]
  have hagrees := (h [] _ rfl).1 (by rw [init_state, if_neg (by simp [hbak])])
    (by rw [init_isUpdate, hmain, hbak]; rfl) hqueue
  obtain ⟨hinMain, hinBak, _⟩ := hagrees
  rw [Machine.inFlash, physical_of_drained hqueue, hram, init_flash] at hinMain hinBak
  exact ⟨hinMain, hinBak⟩

/-- The flash comes to agree with the RAM record exactly if the boot did not find two valid sectors one of
which it would have had to rewrite. -/
theorem agreement_iff (b : Build) (main bak : NvExtensionRecord) :
    Agreement b main bak ↔ Settled b main bak :=
  ⟨settled_of_agreement, agreement_of_settled⟩

/-- The flush is cut after it has rewritten the main sector; the boot leaves the backup as it is. -/
theorem agreement_fails_after_cut :
    ∃ m, run (step smallBuild)
        (smallBuild.nvRecordExtensionInit (smallBuild.sealed fun _ => 0) (smallBuild.sealed fun _ => 0))
        [.update fun _ => 1, .asyncFlush .ok, .asyncFlush .ok, .asyncFlush .ok, .flashDone, .flashDone] =
          some m ∧
      ¬ Agreement smallBuild (m.inFlash .main) (m.inFlash .bak) := by
  have hleft : (run (step smallBuild)
      (smallBuild.nvRecordExtensionInit (smallBuild.sealed fun _ => 0) (smallBuild.sealed fun _ => 0))
      [.update fun _ => 1, .asyncFlush .ok, .asyncFlush .ok, .asyncFlush .ok, .flashDone, .flashDone]).any
      (fun m => smallBuild.accepts (m.inFlash .main) && smallBuild.accepts (m.inFlash .bak) &&
        (m.inFlash .main).header != (m.inFlash .bak).header) = true := by
    decide +kernel
  obtain ⟨m, hm, hsectors⟩ := (Option.any_eq_true _ _).mp hleft
  simp only [Bool.and_eq_true, bne_iff_ne, ne_eq] at hsectors
  refine ⟨m, hm, fun h => hsectors.2 ?_⟩
  exact (settled_of_agreement h hsectors.1.1 hsectors.1.2).2.2.1

end Best1307.NvRecord
