import Best1307.NvRecord.Moves
import Mathlib.Data.Set.Basic

/-!
# What the flush keeps

The invariants of the store, each kept by every move. `Shaped` ties the state to what is queued and to
what the queue will leave. `Guarded` says that one sector is always good, out of reach of the queue, and
that the other never comes to hold a record that would be accepted and is not allowed. `Carried` says how
far a cycle has brought its snapshot, and `Synced` that this is the RAM record while no update waits.
-/

namespace Best1307.NvRecord

open FlashQueue FlashQueue.Device Build

variable (b : Build)

/-! ### Shape -/

/-- Which sector the queue works on in each state, and what it will leave there. -/
def FlashShape (s : NvStore) : Prop :=
  match s.state with
  | .idle | .mainErasing | .mainDone | .bakErasing => s.flash.queue = []
  | .mainErased | .mainWritePending => s.flash.Confined .main ∧ s.flash.settled .main = erased
  | .mainWritten => s.flash.Confined .main ∧ s.flash.settled .main = b.written s.burnBuf
  | .bakErased => s.flash.Confined .bak ∧ s.flash.settled .bak = erased
  | .bakWritePending =>
      s.flash.Confined .bak ∧ s.burnBuf = s.flash.cells .main ∧
        b.program s.burnBuf (s.flash.settled .bak) = b.written s.burnBuf
  | .bakWritten => s.flash.Confined .bak ∧ s.flash.settled .bak = b.written (s.flash.cells .main)
  | .mainWritting | .bakWritting | .bakDone => False

structure Shaped (s : NvStore) : Prop where
  ram : ∃ crc32, s.ram.header = b.header crc32
  flash : FlashShape b s

def NvState.kept : NvState → Sector
  | .idle | .mainErasing | .mainErased | .mainWritting | .mainWritePending | .mainWritten => .bak
  | _ => .main

def NvState.worked : NvState → Sector
  | .idle | .mainErasing | .mainErased | .mainWritting | .mainWritePending | .mainWritten => .main
  | _ => .bak

theorem NvState.kept_ne_worked (state : NvState) : state.kept ≠ state.worked := by
  cases state <;> decide

variable {b} {Tear : NvExtensionRecord → Prop}

theorem Shaped.confined {s : NvStore} (h : Shaped b s) : s.flash.Confined s.state.worked := by
  have hflash := h.flash
  unfold FlashShape at hflash
  cases hstate : s.state <;> simp only [hstate] at hflash
  case idle | mainErasing | mainDone | bakErasing => exact Confined.of_drained hflash _
  all_goals exact hflash.1

theorem Shaped.move {s s' : NvStore} (h : Shaped b s) (hmove : FlushMove b Tear s s') : Shaped b s' := by
  obtain ⟨⟨crc32, hram⟩, hflash⟩ := h
  have hconfined := (Shaped.mk ⟨crc32, hram⟩ hflash : Shaped b s).confined
  cases hmove with
  | stay => exact ⟨⟨crc32, hram⟩, hflash⟩
  | update data => exact ⟨⟨crc32, hram⟩, hflash⟩
  | mainRefused hstate =>
      refine ⟨⟨crc32, hram⟩, ?_⟩
      rcases hstate with hstate | hstate <;> simpa only [FlashShape, hstate] using hflash
  | mainErase hstate =>
      refine ⟨⟨crc32, hram⟩, ?_⟩
      have hqueue : s.flash.queue = [] := by
        rcases hstate with hstate | hstate <;> simpa only [FlashShape, hstate] using hflash
      refine ⟨(Confined.of_drained hqueue _).enqueue, ?_⟩
      exact (congrFun (settled_enqueue _ _) _).trans (Op.apply_self _ _)
  | snapshot _ hstate hs' =>
      obtain ⟨_, rfl⟩ := snapshot_eq_some hs'
      refine ⟨⟨b.crc32C (dataBytes s.ram.data b.validLen), ?_⟩, ?_⟩
      · simp only [NvStore.sealRam, hram, header]
      · simpa only [FlashShape, hstate] using hflash
  | mainWrite hstate =>
      simp only [FlashShape, hstate] at hflash
      refine ⟨⟨crc32, hram⟩, hflash.1.enqueue, ?_⟩
      calc (s.flash.enqueue ⟨.main, b.program s.burnBuf⟩).settled .main
          = b.program s.burnBuf (s.flash.settled .main) :=
            (congrFun (settled_enqueue _ _) _).trans (Op.apply_self _ _)
        _ = b.written s.burnBuf := by rw [hflash.2, program_erased]
  | mainDone hstate hdrained => exact ⟨⟨crc32, hram⟩, hdrained⟩
  | bakRefused hstate =>
      refine ⟨⟨crc32, hram⟩, ?_⟩
      rcases hstate with hstate | hstate <;> simpa only [FlashShape, hstate] using hflash
  | bakErase hstate =>
      refine ⟨⟨crc32, hram⟩, ?_⟩
      have hqueue : s.flash.queue = [] := by
        rcases hstate with hstate | hstate <;> simpa only [FlashShape, hstate] using hflash
      refine ⟨(Confined.of_drained hqueue _).enqueue, ?_⟩
      exact (congrFun (settled_enqueue _ _) _).trans (Op.apply_self _ _)
  | bakRead hstate =>
      refine ⟨⟨crc32, hram⟩, ?_⟩
      rcases hstate with hstate | hstate <;> simp only [FlashShape, hstate] at hflash
      · have hread : s.flash.settled .main = s.flash.cells .main := hflash.1.settled (by decide)
        refine ⟨hflash.1, hread, ?_⟩
        change b.program (s.flash.settled .main) (s.flash.settled .bak) = _
        rw [hflash.2, program_erased]
        rfl
      · -- the backup write is already queued, so this one goes over a sector that holds the same bytes
        have hread : s.flash.settled .main = s.flash.cells .main := hflash.1.settled (by decide)
        refine ⟨hflash.1, hread, ?_⟩
        change b.program (s.flash.settled .main) (s.flash.settled .bak) =
          b.written (s.flash.settled .main)
        rw [hflash.2, hread, program_written]
  | bakWrite hstate =>
      simp only [FlashShape, hstate] at hflash
      obtain ⟨hbak, hburn, hprogram⟩ := hflash
      refine ⟨⟨crc32, hram⟩, hbak.enqueue, ?_⟩
      calc (s.flash.enqueue ⟨.bak, b.program s.burnBuf⟩).settled .bak
          = b.program s.burnBuf (s.flash.settled .bak) :=
            (congrFun (settled_enqueue _ _) _).trans (Op.apply_self _ _)
        _ = b.written (s.flash.cells .main) := by rw [hprogram, hburn]
  | bakDone hstate hdrained => exact ⟨⟨crc32, hram⟩, hdrained⟩
  | flashDone flash hfinish =>
      refine ⟨⟨crc32, hram⟩, ?_⟩
      have hsettled := settled_finish hfinish
      have hconfined' := hconfined.finish hfinish
      have hkept := hconfined.cells_finish s.state.kept_ne_worked hfinish
      obtain ⟨op, rest, hqueue, rfl⟩ := finish_eq_some hfinish
      unfold FlashShape at hflash ⊢
      cases hstate : s.state <;> simp only [hstate, NvState.kept, NvState.worked] at hflash hkept hconfined' ⊢
      case idle | mainErasing | mainDone | bakErasing => simp [hqueue] at hflash
      case mainErased | mainWritePending | mainWritten | bakErased =>
        exact ⟨hconfined', by rw [hsettled]; exact hflash.2⟩
      case bakWritePending =>
        exact ⟨hconfined', by rw [hkept]; exact hflash.2.1, by rw [hsettled]; exact hflash.2.2⟩
      case bakWritten => exact ⟨hconfined', by rw [hsettled, hkept]; exact hflash.2⟩
  | flashTear flash content _ htear =>
      obtain ⟨_, rfl⟩ := tear_eq_some htear
      exact ⟨⟨crc32, hram⟩, hflash⟩

/-! ### Guard -/

variable (b)

def Good (allowed : Set (List UInt8)) (r : NvExtensionRecord) : Prop :=
  b.accepts r = true ∧ b.payload r ∈ allowed

/-- A sector content the boot either refuses or finds an allowed payload in. -/
def Harmless (allowed : Set (List UInt8)) (r : NvExtensionRecord) : Prop :=
  b.accepts r = true → b.payload r ∈ allowed

structure Guarded (allowed : Set (List UInt8)) (s : NvStore) : Prop where
  harmless : ∀ sector, s.flash.Throughout (Harmless b allowed) sector
  kept : Good b allowed (s.flash.cells s.state.kept)
  burnBuf : s.state = .mainWritePending ∨ s.state = .mainWritten → Good b allowed s.burnBuf

variable {b} {allowed : Set (List UInt8)}

theorem Good.harmless {r : NvExtensionRecord} (h : Good b allowed r) : Harmless b allowed r := fun _ => h.2

theorem Good.congr {left right : NvExtensionRecord} (h : Good b allowed left)
    (hsame : b.SameRecord left right) : Good b allowed right :=
  ⟨hsame.accepts.mp h.1, hsame.payload ▸ h.2⟩

theorem Good.written {r : NvExtensionRecord} (h : Good b allowed r) : Good b allowed (b.written r) :=
  h.congr (b.sameRecord_written r).symm

theorem harmless_erased : Harmless b allowed erased := by
  intro h
  rw [accepts_erased] at h
  contradiction

/-- Queueing an operation whose outcome is harmless keeps every sector harmless throughout. -/
private theorem throughout_enqueue {flash : Device Sector NvExtensionRecord}
    {op : Op Sector NvExtensionRecord}
    (h : ∀ sector, flash.Throughout (Harmless b allowed) sector)
    (hop : Harmless b allowed (op.effect (flash.settled op.cell))) (sector : Sector) :
    (flash.enqueue op).Throughout (Harmless b allowed) sector := by
  refine (h sector).enqueue ?_
  by_cases hsector : sector = op.cell
  · subst hsector
    rw [op.apply_self]
    exact hop
  · rw [op.apply_of_ne _ hsector]
    exact (h sector).settled

theorem Guarded.move {s s' : NvStore} (hshape : Shaped b s) (h : Guarded b allowed s)
    (hmove : FlushMove b Tear s s') (htear : ∀ content, Tear content → Harmless b allowed content)
    (htaken : ∀ payload ∈ s'.taken, payload ∈ allowed) : Guarded b allowed s' := by
  have hconfined := hshape.confined
  obtain ⟨hharmless, hkept, hburn⟩ := h
  have hflash := hshape.flash
  cases hmove with
  | stay => exact ⟨hharmless, hkept, hburn⟩
  | update data => exact ⟨hharmless, hkept, hburn⟩
  | mainRefused hstate =>
      refine ⟨hharmless, ?_, fun hs => by simp at hs⟩
      rcases hstate with hstate | hstate <;> simpa [hstate, NvState.kept] using hkept
  | mainErase hstate =>
      refine ⟨throughout_enqueue hharmless harmless_erased, ?_, fun hs => by simp at hs⟩
      rcases hstate with hstate | hstate <;> simpa [hstate, NvState.kept] using hkept
  | snapshot _ hstate hs' =>
      obtain ⟨haccepts, rfl⟩ := snapshot_eq_some hs'
      refine ⟨hharmless, by simpa [hstate, NvState.kept] using hkept, fun _ => ⟨haccepts, ?_⟩⟩
      exact htaken _ (List.mem_append_right _ (List.mem_singleton_self _))
  | mainWrite hstate =>
      simp only [FlashShape, hstate] at hflash
      have hgood := hburn (.inl hstate)
      refine ⟨throughout_enqueue hharmless ?_, by simpa [hstate, NvState.kept] using hkept, fun _ => hgood⟩
      change Harmless b allowed (b.program s.burnBuf (s.flash.settled .main))
      rw [hflash.2, program_erased]
      exact hgood.written.harmless
  | mainDone hstate hdrained =>
      simp only [FlashShape, hstate] at hflash
      refine ⟨hharmless, ?_, fun hs => by simp at hs⟩
      change Good b allowed (s.flash.cells .main)
      rw [← settled_of_drained hdrained, hflash.2]
      exact (hburn (.inr hstate)).written
  | bakRefused hstate =>
      refine ⟨hharmless, ?_, fun hs => by simp at hs⟩
      rcases hstate with hstate | hstate <;> simpa [hstate, NvState.kept] using hkept
  | bakErase hstate =>
      refine ⟨throughout_enqueue hharmless harmless_erased, ?_, fun hs => by simp at hs⟩
      rcases hstate with hstate | hstate <;> simpa [hstate, NvState.kept] using hkept
  | bakRead hstate =>
      refine ⟨hharmless, ?_, fun hs => by simp at hs⟩
      rcases hstate with hstate | hstate <;> simpa [hstate, NvState.kept] using hkept
  | bakWrite hstate =>
      simp only [FlashShape, hstate] at hflash
      obtain ⟨_, hcopy, hprogram⟩ := hflash
      have hmain : Good b allowed (s.flash.cells .main) := by
        simpa [hstate, NvState.kept] using hkept
      refine ⟨throughout_enqueue hharmless ?_, hmain, fun hs => by simp at hs⟩
      change Harmless b allowed (b.program s.burnBuf (s.flash.settled .bak))
      rw [hprogram, hcopy]
      exact hmain.written.harmless
  | bakDone hstate hdrained =>
      simp only [FlashShape, hstate] at hflash
      have hmain : Good b allowed (s.flash.cells .main) := by
        simpa [hstate, NvState.kept] using hkept
      refine ⟨hharmless, ?_, fun hs => by simp at hs⟩
      change Good b allowed (s.flash.cells .bak)
      rw [← settled_of_drained hdrained, hflash.2]
      exact hmain.written
  | flashDone flash hfinish =>
      refine ⟨fun sector => (hharmless sector).finish hfinish, ?_, hburn⟩
      change Good b allowed (flash.cells s.state.kept)
      rw [hconfined.cells_finish s.state.kept_ne_worked hfinish]
      exact hkept
  | flashTear flash content hcontent hflash' =>
      refine ⟨fun sector => (hharmless sector).tear (htear content hcontent) hflash', ?_, hburn⟩
      obtain ⟨_, rfl⟩ := tear_eq_some hflash'
      exact hkept

/-- In a guarded store the sector the queue leaves alone is accepted, whatever is cut short. -/
theorem Guarded.physical_kept {s : NvStore} (hshape : Shaped b s) (h : Guarded b allowed s) :
    Good b allowed (s.flash.physical s.state.kept) := by
  rw [hshape.confined.physical s.state.kept_ne_worked]
  exact h.kept

/-! ### What a cycle carries -/

variable (b)

/-- What the flush has brought where in each state, for a property of records: from its snapshot in the
burn buffer to the main sector, and from there to the backup. -/
def Carried (P : NvExtensionRecord → Prop) (s : NvStore) : Prop :=
  match s.state with
  | .idle => P (s.flash.cells .main) ∧ P (s.flash.cells .bak)
  | .mainErasing | .mainErased | .mainWritting => True
  | .mainWritePending | .mainWritten => P s.burnBuf
  | _ => P (s.flash.cells .main)

/-- A property of the bytes of a record, whatever else is in the sector it stands in. -/
def OfRecord (P : NvExtensionRecord → Prop) : Prop :=
  ∀ left right, b.SameRecord left right → P right → P left

variable {b} {P : NvExtensionRecord → Prop}

theorem Carried.move {s s' : NvStore} (hP : OfRecord b P) (hshape : Shaped b s) (h : Carried P s)
    (hmove : FlushMove b Tear s s') (hsnapshot : s.snapshot b = some s' → P (s.sealRam b)) :
    Carried P s' := by
  have hconfined := hshape.confined
  have hflash := hshape.flash
  cases hmove with
  | stay => exact h
  | update data => exact h
  | mainRefused => trivial
  | mainErase => trivial
  | snapshot _ _ hs' =>
      obtain ⟨_, rfl⟩ := snapshot_eq_some hs'
      exact hsnapshot hs'
  | mainWrite hstate =>
      simp only [Carried, hstate] at h
      exact h
  | mainDone hstate hdrained =>
      simp only [Carried, hstate] at h
      simp only [FlashShape, hstate] at hflash
      change P (s.flash.cells .main)
      rw [← settled_of_drained hdrained, hflash.2]
      exact hP _ _ (b.sameRecord_written _) h
  | bakRefused hstate | bakErase hstate | bakRead hstate =>
      rcases hstate with hstate | hstate <;> simp only [Carried, hstate] at h <;> exact h
  | bakWrite hstate =>
      simp only [Carried, hstate] at h
      exact h
  | bakDone hstate hdrained =>
      simp only [Carried, hstate] at h
      simp only [FlashShape, hstate] at hflash
      refine ⟨h, ?_⟩
      change P (s.flash.cells .bak)
      rw [← settled_of_drained hdrained, hflash.2]
      exact hP _ _ (b.sameRecord_written _) h
  | flashDone flash hfinish =>
      have hkept := hconfined.cells_finish s.state.kept_ne_worked hfinish
      obtain ⟨op, rest, hqueue, rfl⟩ := finish_eq_some hfinish
      unfold FlashShape at hflash
      unfold Carried at h ⊢
      cases hstate : s.state <;> simp only [hstate, NvState.kept] at hflash h hkept ⊢
      case idle => simp [hqueue] at hflash
      case mainWritePending | mainWritten => exact h
      all_goals
        rw [hkept]
        exact h
  | flashTear flash content _ htear =>
      obtain ⟨_, rfl⟩ := tear_eq_some htear
      exact h

/-- Only an update and a snapshot touch the RAM record and the update flag. -/
theorem FlushMove.ram_cases {s s' : NvStore} (hmove : FlushMove b Tear s s') :
    (s'.ram = s.ram ∧ s'.isUpdate = s.isUpdate ∧ s'.taken = s.taken) ∨
      (∃ data, s' = s.nvRecordExtensionUpdate data) ∨ s.snapshot b = some s' := by
  cases hmove with
  | update data => exact .inr (.inl ⟨data, rfl⟩)
  | snapshot _ _ hs' => exact .inr (.inr hs')
  | _ => exact .inl ⟨rfl, rfl, rfl⟩

/-! ### Synchrony with the RAM record -/

variable (b)

/-- While no update waits, the RAM record has its CRC and is what the flush carries. -/
structure Synced (s : NvStore) : Prop where
  sealed : s.isUpdate = false → s.ram = b.sealed s.ram.data
  carried : s.isUpdate = false → Carried (b.SameRecord · s.ram) s

variable {b}

theorem sealRam_eq_sealed {s : NvStore} (h : ∃ crc32, s.ram.header = b.header crc32) :
    s.sealRam b = b.sealed s.ram.data := by
  obtain ⟨crc32, hram⟩ := h
  simp only [NvStore.sealRam, hram, Build.sealed, header]

/-- The assertion of the snapshot holds: the record just given its CRC is valid. -/
theorem Shaped.snapshot {s : NvStore} (h : Shaped b s) : ∃ s', s.snapshot b = some s' := by
  unfold NvStore.snapshot
  rw [sealRam_eq_sealed h.ram, if_pos (b.accepts_sealed _)]
  exact ⟨_, rfl⟩

theorem ofRecord_sameRecord (r : NvExtensionRecord) : OfRecord b (b.SameRecord · r) :=
  fun _ _ hsame h => hsame.trans h

theorem Synced.move {s s' : NvStore} (hshape : Shaped b s) (h : Synced b s)
    (hmove : FlushMove b Tear s s') : Synced b s' := by
  rcases hmove.ram_cases with ⟨hram, hupdate, _⟩ | ⟨data, rfl⟩ | hs'
  · refine ⟨fun hclear => ?_, fun hclear => ?_⟩
    · rw [hram]
      exact h.sealed (hupdate ▸ hclear)
    · rw [hram]
      refine (h.carried (hupdate ▸ hclear)).move (ofRecord_sameRecord _) hshape hmove fun hs' => ?_
      -- a snapshot that left the RAM record as it was
      obtain ⟨_, rfl⟩ := snapshot_eq_some hs'
      rw [← hram]
      exact SameRecord.refl _
  · exact ⟨fun hclear => by simp [NvStore.nvRecordExtensionUpdate] at hclear,
      fun hclear => by simp [NvStore.nvRecordExtensionUpdate] at hclear⟩
  · obtain ⟨_, rfl⟩ := snapshot_eq_some hs'
    refine ⟨fun _ => ?_, fun _ => SameRecord.refl _⟩
    change s.sealRam b = b.sealed s.ram.data
    exact sealRam_eq_sealed hshape.ram

end Best1307.NvRecord
