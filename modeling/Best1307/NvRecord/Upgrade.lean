import Best1307.NvRecord.CrashSafety

/-!
# A longer record after a firmware upgrade

New items go to the end of the record and get their first content where `local_extension_data` is
initialised. A build whose record is longer than the one in flash accepts the shorter one, and its boot
copies the new length out of the sector: past the old record that is whatever the sector holds there.
-/

namespace Best1307.NvRecord

open FlashQueue FlashQueue.Device Build

variable {b : Build} {main bak r : NvExtensionRecord}

/-- A valid record of this build's own length. -/
def Current (b : Build) (r : NvExtensionRecord) : Prop :=
  b.accepts r = true ∧ r.header.validLen.toNat = b.validLen ∧
    r.header.crc32 = b.crc32C (b.payload r)

/-- The boot from the shorter record `r` keeps its bytes, leaves the bytes past them as this build
initialises them, and what is flushed from then on is valid over the new length. -/
def UpgradeKeeps (b : Build) (main bak r : NvExtensionRecord) : Prop :=
  (∀ i < r.header.validLen.toNat, (b.nvRecordExtensionInit main bak).nv.ram.data i = r.data i) ∧
    (∀ i, r.header.validLen.toNat ≤ i → i < b.validLen →
      (b.nvRecordExtensionInit main bak).nv.ram.data i = b.initialData i) ∧
    ∀ events m, run (step b) (b.nvRecordExtensionInit main bak) events = some m →
      m.nv.state = .idle → m.nv.taken ≠ [] → ∀ sector, Current b (m.inFlash sector)

/-! ### What is flushed -/

theorem current_sealed (data : Nat → UInt8) : Current b (b.sealed data) :=
  ⟨b.accepts_sealed data, b.validLen_toNat, rfl⟩

theorem ofRecord_current : OfRecord b (Current b) := by
  rintro left right hsame ⟨haccepts, hlen, hcrc⟩
  exact ⟨hsame.accepts.mpr haccepts, by rw [hsame.1]; exact hlen, by rw [hsame.1, hsame.payload]; exact hcrc⟩

/-- Once a snapshot has been taken, what the flush carries is current. -/
theorem run_carries_current {events : List Event} {m : Machine}
    (hrun : run (step b) (b.nvRecordExtensionInit main bak) events = some m) (htaken : m.nv.taken ≠ []) :
    Carried (Current b) m.nv := by
  refine (run_invariant (fun m => (m.Aligned ∧ Shaped b m.nv) ∧ (m.nv.taken ≠ [] → Carried (Current b) m.nv))
    (fun t e t' ht hstep => ?_) ⟨⟨init_aligned b main bak, init_shaped b main bak⟩, fun h => ?_⟩ hrun).2 htaken
  · obtain ⟨⟨halign, hshape⟩, hcarried⟩ := ht
    obtain ⟨hmove, halign'⟩ := step_move (fun _ => True) halign (fun _ _ => trivial) hstep
    refine ⟨⟨halign', hshape.move hmove⟩, fun htaken' => ?_⟩
    have hsnapshot : Current b (t.nv.sealRam b) := by
      rw [sealRam_eq_sealed hshape.ram]
      exact current_sealed _
    rcases hmove.ram_cases with ⟨_, _, hsame⟩ | ⟨data, hs'⟩ | hs'
    · exact (hcarried (hsame ▸ htaken')).move ofRecord_current hshape hmove fun _ => hsnapshot
    · rw [hs'] at htaken' ⊢
      exact hcarried htaken'
    · obtain ⟨_, hs'⟩ := snapshot_eq_some hs'
      rw [hs']
      exact hsnapshot
  · exact absurd (init_taken b main bak) h

theorem flushed_current {events : List Event} {m : Machine}
    (hrun : run (step b) (b.nvRecordExtensionInit main bak) events = some m) (hstate : m.nv.state = .idle)
    (htaken : m.nv.taken ≠ []) (sector : Sector) : Current b (m.inFlash sector) := by
  have hcarried := run_carries_current hrun htaken
  have hflash := (run_shaped hrun).2.flash
  simp only [FlashShape, hstate] at hflash
  simp only [Carried, hstate] at hcarried
  rw [Machine.inFlash, physical_of_drained hflash]
  cases sector
  · exact hcarried.1
  · exact hcarried.2

/-! ### What is loaded -/

/-- Every byte of this build's record comes from the loaded sector, also past the end of its record. -/
theorem init_data_of_loaded (hloaded : b.loadedSector main bak = some r) {i : Nat} (hi : i < b.validLen) :
    (b.nvRecordExtensionInit main bak).nv.ram.data i = r.data i := by
  rw [init_ram, hloaded]
  exact if_pos hi

theorem initialData_of_upgradeKeeps (hloaded : b.loadedSector main bak = some r)
    (h : UpgradeKeeps b main bak r) :
    ∀ i, r.header.validLen.toNat ≤ i → i < b.validLen → r.data i = b.initialData i := by
  intro i hlow hi
  rw [← init_data_of_loaded hloaded hi]
  exact h.2.1 i hlow hi

/-- The upgrade goes as meant exactly if the sector happens to hold the initial content past the old
record. -/
theorem upgradeKeeps_iff (b : Build) (main bak r : NvExtensionRecord)
    (hloaded : b.loadedSector main bak = some r) (hshort : r.header.validLen.toNat < b.validLen) :
    UpgradeKeeps b main bak r ↔
      ∀ i, r.header.validLen.toNat ≤ i → i < b.validLen → r.data i = b.initialData i := by
  constructor
  · exact initialData_of_upgradeKeeps hloaded
  · intro hinitial
    refine ⟨fun i hi => init_data_of_loaded hloaded (lt_trans hi hshort), fun i hlow hi => ?_,
      fun events m hrun hstate htaken sector => flushed_current hrun hstate htaken sector⟩
    rw [init_data_of_loaded hloaded hi]
    exact hinitial i hlow hi

/-- A record of two bytes, as a build before `smallBuild` has left it in an erased sector. -/
def shortRecord : NvExtensionRecord where
  header := ⟨nvExtensionMagicNumber, 1, 0, 2, crc32Bytes [5, 6]⟩
  data := fun i => if i = 0 then 5 else if i = 1 then 6 else 0xFF

private theorem loaded_shortRecord :
    smallBuild.loadedSector shortRecord shortRecord = some shortRecord :=
  if_pos (by decide +kernel)

/-- Its third byte should start at zero and comes up as the flash's `0xFF`. -/
theorem shortRecord_loses_initialData :
    smallBuild.loadedSector shortRecord shortRecord = some shortRecord ∧
      shortRecord.header.validLen.toNat < smallBuild.validLen ∧
      ¬ UpgradeKeeps smallBuild shortRecord shortRecord shortRecord := by
  refine ⟨loaded_shortRecord, by decide, fun h => ?_⟩
  have hbyte := initialData_of_upgradeKeeps loaded_shortRecord h 2 (by decide) (by decide)
  exact absurd hbyte (by decide)

theorem upgradeKeeps_iff_shortRecord : UpgradeKeeps smallBuild shortRecord shortRecord shortRecord ↔
    ∀ i, shortRecord.header.validLen.toNat ≤ i → i < smallBuild.validLen →
      shortRecord.data i = smallBuild.initialData i :=
  upgradeKeeps_iff smallBuild shortRecord shortRecord shortRecord loaded_shortRecord (by decide)

end Best1307.NvRecord
