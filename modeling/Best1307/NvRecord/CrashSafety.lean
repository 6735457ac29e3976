import Best1307.NvRecord.Invariant
import Mathlib.Data.List.Induction

/-!
# A power cut never loses both sectors

From a boot that finds a valid sector on, one of the two sectors is valid at every moment of every run,
whatever the sector being erased or written holds: the queue never reaches the sector the state keeps.
-/

namespace Best1307.NvRecord

open FlashQueue FlashQueue.Device Build

variable {b : Build}

/-! ### The state a boot starts from -/

theorem loadedSector_eq_some {main bak r : NvExtensionRecord} (h : b.loadedSector main bak = some r) :
    b.accepts r = true ∧ (r = main ∨ r = bak) := by
  unfold loadedSector at h
  split at h
  · next haccepts =>
      obtain rfl := Option.some.inj h
      exact ⟨haccepts, .inl rfl⟩
  · split at h
    · next haccepts =>
        obtain rfl := Option.some.inj h
        exact ⟨haccepts, .inr rfl⟩
    · contradiction

theorem loadedSector_of_accepts {main bak : NvExtensionRecord}
    (h : b.accepts main = true ∨ b.accepts bak = true) : ∃ r, b.loadedSector main bak = some r := by
  unfold loadedSector
  rcases h with h | h
  · exact ⟨main, if_pos h⟩
  · split
    · exact ⟨main, rfl⟩
    · exact ⟨bak, rfl⟩

theorem loadRecord_eq_sealed (r : NvExtensionRecord) :
    b.loadRecord r = b.sealed fun i => if i < b.validLen then r.data i else b.initialData i := by
  simp only [loadRecord, Build.sealed, header, validLen_toNat]

variable (b) (main bak : NvExtensionRecord)

theorem init_flash : (b.nvRecordExtensionInit main bak).nv.flash =
    ⟨foundFlash main bak, [], none⟩ := by
  unfold nvRecordExtensionInit loadedSector
  by_cases hmain : b.accepts main = true <;> by_cases hbak : b.accepts bak = true <;> simp [hmain, hbak]

theorem init_taken : (b.nvRecordExtensionInit main bak).nv.taken = [] := by
  unfold nvRecordExtensionInit loadedSector
  by_cases hmain : b.accepts main = true <;> by_cases hbak : b.accepts bak = true <;> simp [hmain, hbak]

/-- The RAM record after the boot: the loaded sector's, or the default one. -/
theorem init_ram : (b.nvRecordExtensionInit main bak).nv.ram =
    match b.loadedSector main bak with
    | some r => b.loadRecord r
    | none => b.nvRecordSetDefault := by
  unfold nvRecordExtensionInit
  cases b.loadedSector main bak <;> rfl

theorem init_sealed : (b.nvRecordExtensionInit main bak).nv.ram =
    b.sealed (b.nvRecordExtensionInit main bak).nv.ram.data := by
  rw [init_ram]
  split
  · rw [loadRecord_eq_sealed]
    rfl
  · rfl

theorem init_state : (b.nvRecordExtensionInit main bak).nv.state =
    if b.accepts main = true ∧ b.accepts bak = false then .mainDone else .idle := by
  unfold nvRecordExtensionInit loadedSector
  by_cases hmain : b.accepts main = true <;> by_cases hbak : b.accepts bak = true <;> simp [hmain, hbak]

theorem init_isUpdate : (b.nvRecordExtensionInit main bak).nv.isUpdate =
    !(b.accepts main && b.accepts bak) := by
  unfold nvRecordExtensionInit loadedSector
  by_cases hmain : b.accepts main = true <;> by_cases hbak : b.accepts bak = true <;> simp [hmain, hbak]

theorem init_sync : (b.nvRecordExtensionInit main bak).sync =
    if (b.nvRecordExtensionInit main bak).nv.isUpdate then .loop else .off := rfl

theorem init_aligned : (b.nvRecordExtensionInit main bak).Aligned := by
  have hresting : (b.nvRecordExtensionInit main bak).nv.state.resting = true := by
    rw [init_state]
    split <;> rfl
  unfold Machine.Aligned
  rw [init_sync]
  split <;> exact hresting

theorem init_shaped : Shaped b (b.nvRecordExtensionInit main bak).nv := by
  refine ⟨⟨_, congrArg NvExtensionRecord.header (init_sealed b main bak)⟩, ?_⟩
  have hqueue : (b.nvRecordExtensionInit main bak).nv.flash.queue = [] := by rw [init_flash]
  have hstate := init_state b main bak
  unfold FlashShape
  by_cases h : b.accepts main = true ∧ b.accepts bak = false
  · rw [hstate, if_pos h]
    exact hqueue
  · rw [hstate, if_neg h]
    exact hqueue

variable {b main bak}

theorem init_guarded {allowed : Set (List UInt8)} (hvalid : b.accepts main = true ∨ b.accepts bak = true)
    (hmain : Harmless b allowed main) (hbak : Harmless b allowed bak) :
    Guarded b allowed (b.nvRecordExtensionInit main bak).nv := by
  have hflash := init_flash b main bak
  refine ⟨fun sector => ?_, ?_, fun hs => ?_⟩
  · rw [hflash]
    refine ⟨?_, fun content h => by simp at h⟩
    cases sector
    · exact hmain
    · exact hbak
  · rw [init_state, hflash]
    split
    · next h => exact ⟨h.1, hmain h.1⟩
    · next h =>
        have hbak' : b.accepts bak = true := by
          by_contra hnot
          exact h ⟨hvalid.resolve_right hnot, Bool.eq_false_iff.mpr hnot⟩
        exact ⟨hbak', hbak hbak'⟩
  · rw [init_state] at hs
    split at hs <;> simp at hs

/-! ### Every run -/

/-- What holds of the machine in every reachable state: the flush is aligned and the store well shaped. -/
theorem run_shaped {events : List Event} {m : Machine}
    (hrun : run (step b) (b.nvRecordExtensionInit main bak) events = some m) :
    m.Aligned ∧ Shaped b m.nv := by
  have hinit : (b.nvRecordExtensionInit main bak).Aligned ∧
      Shaped b (b.nvRecordExtensionInit main bak).nv :=
    ⟨init_aligned b main bak, init_shaped b main bak⟩
  refine run_invariant (fun m => m.Aligned ∧ Shaped b m.nv) (fun m e m' hm hstep => ?_) hinit hrun
  obtain ⟨hmove, halign'⟩ := step_move (fun _ => True) hm.1 (fun _ _ => trivial) hstep
  exact ⟨halign', hm.2.move hmove⟩

theorem FlushMove.taken_subset {Tear : NvExtensionRecord → Prop} {s s' : NvStore}
    (hmove : FlushMove b Tear s s') : s.taken ⊆ s'.taken := by
  cases hmove with
  | snapshot _ _ hs' =>
      obtain ⟨_, rfl⟩ := snapshot_eq_some hs'
      exact List.subset_append_left _ _
  | _ => exact List.Subset.refl _

/-- A run keeps the store guarded for the payloads that were allowed at the boot together with those
taken from RAM since, as long as what half-done operations leave is harmless. -/
theorem run_guarded {allowed : Set (List UInt8)} {G : Machine → Event → Prop} {events : List Event}
    {m : Machine}
    (hG : ∀ m content, Guarded b allowed m.nv → G m (.flashTear content) → (m.nv.flash.tear content).isSome →
      Harmless b allowed content)
    (halong : Along (step b) G (b.nvRecordExtensionInit main bak) events)
    (hinit : Guarded b allowed (b.nvRecordExtensionInit main bak).nv)
    (hrun : run (step b) (b.nvRecordExtensionInit main bak) events = some m)
    (htaken : ∀ payload ∈ m.nv.taken, payload ∈ allowed) : Guarded b allowed m.nv := by
  induction events using List.reverseRecOn generalizing m with
  | nil =>
      obtain rfl := Option.some.inj hrun
      exact hinit
  | append_singleton events e ih =>
      obtain ⟨m₀, hrun₀, hstep⟩ := (run_snoc_eq_some _).mp hrun
      obtain ⟨halong₀, hlast⟩ := along_snoc.mp halong
      obtain ⟨halign, hshape⟩ := run_shaped hrun₀
      -- the payloads allowed do not grow backwards, so the induction hypothesis applies
      have hbefore : ∀ payload ∈ m₀.nv.taken, payload ∈ allowed := by
        obtain ⟨hmove, _⟩ := step_move (fun _ => True) halign (fun _ _ => trivial) hstep
        exact fun payload hmem => htaken payload (hmove.taken_subset hmem)
      have hguarded := ih halong₀ hrun₀ hbefore
      have htear : ∀ content, e = .flashTear content → Harmless b allowed content := by
        rintro content rfl
        obtain ⟨flash, hflash, _⟩ := Option.map_eq_some_iff.mp hstep
        exact hG m₀ content hguarded (hlast m₀ hrun₀) (by rw [hflash]; rfl)
      obtain ⟨hmove, _⟩ := step_move (Harmless b allowed) halign htear hstep
      exact hguarded.move hshape hmove (fun _ h => h) htaken

/-! ### One sector is always valid -/

theorem accepts_kept {events : List Event} {m : Machine}
    (hboot : b.accepts main = true ∨ b.accepts bak = true)
    (hrun : run (step b) (b.nvRecordExtensionInit main bak) events = some m) :
    b.accepts (m.inFlash m.nv.state.kept) = true := by
  have hguarded : Guarded b Set.univ m.nv :=
    run_guarded (fun _ _ _ _ _ _ => trivial) along_true
      (init_guarded hboot (fun _ => trivial) fun _ => trivial) hrun fun _ _ => trivial
  exact (hguarded.physical_kept (run_shaped hrun).2).1

/-- At every moment of every run from a boot with a valid sector, some sector physically in flash is valid,
and a boot from there takes its record from such a sector. -/
theorem one_sector_always_valid (b : Build) (main bak : NvExtensionRecord)
    (hboot : b.accepts main = true ∨ b.accepts bak = true) (events : List Event) (m : Machine)
    (hrun : run (step b) (b.nvRecordExtensionInit main bak) events = some m) :
    (b.accepts (m.inFlash .main) = true ∨ b.accepts (m.inFlash .bak) = true) ∧
      ∃ r, b.loadedSector (m.inFlash .main) (m.inFlash .bak) = some r ∧ b.accepts r = true ∧
        (b.nvRecordExtensionInit (m.inFlash .main) (m.inFlash .bak)).nv.ram = b.loadRecord r := by
  have hvalid : b.accepts (m.inFlash .main) = true ∨ b.accepts (m.inFlash .bak) = true := by
    have hkept := accepts_kept hboot hrun
    cases hsector : m.nv.state.kept <;> rw [hsector] at hkept
    · exact .inl hkept
    · exact .inr hkept
  obtain ⟨r, hr⟩ := loadedSector_of_accepts hvalid
  refine ⟨hvalid, r, hr, (loadedSector_eq_some hr).1, ?_⟩
  rw [init_ram, hr]

/-- Both sectors hold a record of zeros; it is changed, flushed, and changed again while the flash is busy. -/
def busyEvents : List Event :=
  [.update fun _ => 7, .asyncFlush .bufferFull, .asyncFlush .ok, .asyncFlush .ok, .flashTear Build.erased,
    .asyncFlush .ok, .flashDone, .update fun _ => 9, .flashTear Build.erased]

theorem one_sector_always_valid_busy :
    ∃ m, run (step smallBuild)
        (smallBuild.nvRecordExtensionInit (smallBuild.sealed fun _ => 0) (smallBuild.sealed fun _ => 0))
        busyEvents = some m ∧
      (smallBuild.accepts (m.inFlash .main) = true ∨ smallBuild.accepts (m.inFlash .bak) = true) := by
  have hsome : (run (step smallBuild)
      (smallBuild.nvRecordExtensionInit (smallBuild.sealed fun _ => 0) (smallBuild.sealed fun _ => 0))
      busyEvents).isSome = true := by decide +kernel
  obtain ⟨m, hm⟩ := Option.isSome_iff_exists.mp hsome
  exact ⟨m, hm, (one_sector_always_valid smallBuild _ _ (.inl (smallBuild.accepts_sealed _)) _ m hm).1⟩

end Best1307.NvRecord
