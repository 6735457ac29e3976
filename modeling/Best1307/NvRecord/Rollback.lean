import Best1307.NvRecord.CrashSafety

/-!
# Two crashes in a row

A first power cut can leave two valid sectors that differ: the flush rewrites the main sector first. The
boot takes the main one and leaves the older backup standing, and the next flush begins by erasing the
main sector. This is the one way back to an older record.
-/

namespace Best1307.NvRecord

open FlashQueue FlashQueue.Device Build

variable {b : Build} {main bak : NvExtensionRecord}

/-- The CRC tells a sector whose operation was cut short from a record, unless the sector holds the very
record it held before the operation or will hold after it. -/
def CrcTells (b : Build) (m : Machine) : Event → Prop
  | .flashTear content => b.accepts content = true → ∃ op rest, m.nv.flash.queue = op :: rest ∧
      (b.SameRecord (m.nv.flash.cells op.cell) content ∨
        b.SameRecord (op.effect (m.nv.flash.cells op.cell)) content)
  | _ => True

/-- Once a boot has loaded a record, the next boot loads that record or a snapshot taken since, whatever
happens in between and wherever it is cut. -/
def NoRollback (b : Build) (main bak : NvExtensionRecord) : Prop :=
  ∀ r, b.loadedSector main bak = some r →
    ∀ events m, Along (step b) (CrcTells b) (b.nvRecordExtensionInit main bak) events →
      run (step b) (b.nvRecordExtensionInit main bak) events = some m →
      ∃ r', b.loadedSector (m.inFlash .main) (m.inFlash .bak) = some r' ∧
        b.payload r' ∈ b.payload r :: m.nv.taken

theorem Harmless.congr {allowed : Set (List UInt8)} {left right : NvExtensionRecord}
    (h : Harmless b allowed left) (hsame : b.SameRecord left right) : Harmless b allowed right := by
  intro haccepts
  rw [← hsame.payload]
  exact h (hsame.accepts.mpr haccepts)

/-- Where the CRC tells, an operation that is cut short leaves its sector harmless. -/
theorem Guarded.torn {allowed : Set (List UInt8)} {m : Machine} {content : NvExtensionRecord}
    (h : Guarded b allowed m.nv) (htells : CrcTells b m (.flashTear content)) :
    Harmless b allowed content := by
  intro haccepts
  obtain ⟨op, rest, hqueue, hsame⟩ := htells haccepts
  have hstages := (h.harmless op.cell).stages
  rw [hqueue] at hstages
  rcases hsame with hsame | hsame
  · exact Harmless.congr hstages.1 hsame haccepts
  · have hafter := hstages.2.head
    rw [op.apply_self] at hafter
    exact Harmless.congr hafter hsame haccepts

/-- With no second valid record on the flash, nothing older can come back. -/
theorem noRollback_of_agree (hagree : b.accepts main = true → b.accepts bak = true →
    b.payload main = b.payload bak) : NoRollback b main bak := by
  intro r hr events m halong hrun
  obtain ⟨haccepts, hwhich⟩ := loadedSector_eq_some hr
  have hvalid : b.accepts main = true ∨ b.accepts bak = true := by
    rcases hwhich with rfl | rfl
    · exact .inl haccepts
    · exact .inr haccepts
  -- a valid sector that was not loaded holds the payload of the one that was
  have hpayload : ∀ sector, b.accepts (foundFlash main bak sector) = true →
      b.payload (foundFlash main bak sector) = b.payload r := by
    intro sector hsector
    cases sector <;> rcases hwhich with rfl | rfl
    · rfl
    · exact hagree hsector haccepts
    · exact (hagree haccepts hsector).symm
    · rfl
  have hguarded : Guarded b {p | p ∈ b.payload r :: m.nv.taken} m.nv := by
    refine run_guarded (fun _ _ h htells _ => h.torn htells) halong ?_ hrun
      fun payload hmem => List.mem_cons_of_mem _ hmem
    refine init_guarded hvalid (fun hmain => ?_) fun hbak => ?_
    · exact List.mem_cons.mpr (.inl (hpayload .main hmain))
    · exact List.mem_cons.mpr (.inl (hpayload .bak hbak))
  have hkept := accepts_kept hvalid hrun
  have hstill : b.accepts (m.inFlash .main) = true ∨ b.accepts (m.inFlash .bak) = true := by
    cases hsector : m.nv.state.kept <;> rw [hsector] at hkept
    · exact .inl hkept
    · exact .inr hkept
  obtain ⟨r', hr'⟩ := loadedSector_of_accepts hstill
  obtain ⟨haccepts', hwhich'⟩ := loadedSector_eq_some hr'
  refine ⟨r', hr', ?_⟩
  rcases hwhich' with rfl | rfl
  · exact (hguarded.harmless .main).physical haccepts'
  · exact (hguarded.harmless .bak).physical haccepts'

/-! ### The way back -/

/-- An update, and the erase of the main sector it starts. -/
def eraseEvents : List Event := [.update fun _ => 0, .asyncFlush .ok, .flashDone]

theorem run_eraseEvents (hmain : b.accepts main = true) (hbak : b.accepts bak = true) :
    ∃ m, run (step b) (b.nvRecordExtensionInit main bak) eraseEvents = some m ∧
      m.inFlash .main = erased ∧ m.inFlash .bak = bak ∧ m.nv.taken = [] := by
  have hinit : b.nvRecordExtensionInit main bak =
      ⟨⟨b.loadRecord main, ⟨⟨0, 0, 0, 0, 0⟩, fun _ => 0⟩, false, .idle,
        ⟨foundFlash main bak, [], none⟩, []⟩, .off⟩ := by
    simp [nvRecordExtensionInit, loadedSector, hmain, hbak]
  rw [hinit]
  exact ⟨_, rfl, rfl, rfl, rfl⟩

theorem rollback_of_differ (hmain : b.accepts main = true) (hbak : b.accepts bak = true)
    (hdiffer : b.payload main ≠ b.payload bak) : ¬ NoRollback b main bak := by
  intro h
  obtain ⟨m, hrun, hinMain, hinBak, htaken⟩ := run_eraseEvents hmain hbak
  have halong : Along (step b) (CrcTells b) (b.nvRecordExtensionInit main bak) eraseEvents :=
    ⟨trivial, fun _ _ => ⟨trivial, fun _ _ => ⟨trivial, fun _ _ => trivial⟩⟩⟩
  obtain ⟨r', hr', hmem⟩ := h main (if_pos hmain) eraseEvents m halong hrun
  rw [hinMain, hinBak, loadedSector, accepts_erased, if_neg (by simp), if_pos hbak] at hr'
  obtain rfl := Option.some.inj hr'
  rw [htaken, List.mem_singleton] at hmem
  exact hdiffer hmem.symm

/-- A boot is safe from rollback exactly if it does not find two valid records that differ. -/
theorem noRollback_iff (b : Build) (main bak : NvExtensionRecord) : NoRollback b main bak ↔
    ¬ (b.accepts main = true ∧ b.accepts bak = true ∧ b.payload main ≠ b.payload bak) := by
  constructor
  · rintro h ⟨hmain, hbak, hdiffer⟩
    exact rollback_of_differ hmain hbak hdiffer h
  · intro h
    refine noRollback_of_agree fun hmain hbak => ?_
    by_contra hdiffer
    exact h ⟨hmain, hbak, hdiffer⟩

/-- A flush that has rewritten the main sector and is cut before it comes to the backup. -/
def halfFlush : List Event :=
  [.update fun _ => 1, .asyncFlush .ok, .flashDone, .asyncFlush .ok, .asyncFlush .ok, .flashDone]

theorem halfFlush_rolls_back :
    ∃ m, run (step smallBuild)
        (smallBuild.nvRecordExtensionInit (smallBuild.sealed fun _ => 0) (smallBuild.sealed fun _ => 0))
        halfFlush = some m ∧
      ¬ NoRollback smallBuild (m.inFlash .main) (m.inFlash .bak) := by
  have hleft : (run (step smallBuild)
      (smallBuild.nvRecordExtensionInit (smallBuild.sealed fun _ => 0) (smallBuild.sealed fun _ => 0))
      halfFlush).any (fun m =>
        smallBuild.accepts (m.inFlash .main) && smallBuild.accepts (m.inFlash .bak) &&
          smallBuild.payload (m.inFlash .main) != smallBuild.payload (m.inFlash .bak)) = true := by
    decide +kernel
  obtain ⟨m, hm, hsectors⟩ := (Option.any_eq_true _ _).mp hleft
  simp only [Bool.and_eq_true, bne_iff_ne, ne_eq] at hsectors
  exact ⟨m, hm, rollback_of_differ hsectors.1.1 hsectors.1.2 hsectors.2⟩

end Best1307.NvRecord
