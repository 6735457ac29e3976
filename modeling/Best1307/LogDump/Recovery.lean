import Best1307.LogDump.Sector

/-!
# Finding the place to go on

`_get_seqnum` reads the header of every sector and remembers the highest number with its sector. It starts from
number 0 in sector 0, so a sector that shows 0 is never remembered; the log having begun there, it need not be.
-/

namespace Best1307.LogDump

open FlashRing SlotRing

variable {cfg : Config} {flash : Nat → List UInt8} {i : Nat} {scan : Scan}

theorem shown_eq_some_iff {sector : List UInt8} {m : Nat} : shown sector = some m ↔
    (LogDumpHeader.read sector).Existed ∧ (LogDumpHeader.read sector).seqnum.toNat = m := by
  rw [shown]
  split
  · next h => rw [Option.some.injEq, and_iff_right h]
  · next h => simp only [reduceCtorEq, h, false_and]

/-- What is known when the first `i` sectors have been read. -/
structure Scanned (flash : Nat → List UInt8) (i : Nat) (scan : Scan) : Prop where
  isExisted : scan.isExisted = true ↔ ∃ c < i, ∃ m, shown (flash c) = some m
  le_max : ∀ c < i, ∀ m, shown (flash c) = some m → m ≤ scan.maxDumpSeqnum.toNat
  max : scan.maxDumpSeqnum = 0 ∧ scan.maxSectorSeqnum = 0 ∨
    scan.maxSectorSeqnum < i ∧ shown (flash scan.maxSectorSeqnum) = some scan.maxDumpSeqnum.toNat

theorem Scanned.sector (h : Scanned flash i scan) : Scanned flash (i + 1) (scan.sector flash i) := by
  have hold {c m : Nat} (hc : c < i + 1) (hm : shown (flash c) = some m) :
      c < i ∨ c = i ∧ (LogDumpHeader.read (flash i)).Existed ∧ (LogDumpHeader.read (flash i)).seqnum.toNat = m := by
    rcases Nat.lt_succ_iff_lt_or_eq.mp hc with hlt | rfl
    · exact .inl hlt
    · exact .inr ⟨rfl, shown_eq_some_iff.mp hm⟩
  simp only [Scan.sector]
  split
  · next hexisted =>
      have hshown : shown (flash i) = some (LogDumpHeader.read (flash i)).seqnum.toNat :=
        shown_eq_some_iff.mpr ⟨hexisted, rfl⟩
      split
      · next hlt =>
          rw [UInt32.lt_iff_toNat_lt] at hlt
          refine ⟨⟨fun _ => ⟨i, Nat.lt_succ_self i, _, hshown⟩, fun _ => rfl⟩, fun c hc m hm => ?_,
            .inr ⟨Nat.lt_succ_self i, hshown⟩⟩
          rcases hold hc hm with hc | ⟨-, -, rfl⟩
          · exact Nat.le_trans (h.le_max c hc m hm) (Nat.le_of_lt hlt)
          · exact Nat.le_refl _
      · next hge =>
          rw [UInt32.lt_iff_toNat_lt, Nat.not_lt] at hge
          refine ⟨⟨fun _ => ⟨i, Nat.lt_succ_self i, _, hshown⟩, fun _ => rfl⟩, fun c hc m hm => ?_, ?_⟩
          · rcases hold hc hm with hc | ⟨-, -, rfl⟩
            · exact h.le_max c hc m hm
            · exact hge
          · exact h.max.imp_right fun hmax => ⟨Nat.lt_succ_of_lt hmax.1, hmax.2⟩
  · next hnone =>
      refine ⟨?_, fun c hc m hm => ?_, h.max.imp_right fun hmax => ⟨Nat.lt_succ_of_lt hmax.1, hmax.2⟩⟩
      · rw [h.isExisted]
        constructor
        · rintro ⟨c, hc, hm⟩
          exact ⟨c, Nat.lt_succ_of_lt hc, hm⟩
        · rintro ⟨c, hc, m, hm⟩
          rcases hold hc hm with hc | ⟨-, hexisted, -⟩
          · exact ⟨c, hc, m, hm⟩
          · exact absurd hexisted hnone
      · rcases hold hc hm with hc | ⟨-, hexisted, -⟩
        · exact h.le_max c hc m hm
        · exact absurd hexisted hnone

theorem scanned_range (flash : Nat → List UInt8) (i : Nat) :
    Scanned flash i ((List.range i).foldl (Scan.sector flash) ⟨0, 0, false⟩) := by
  induction i with
  | zero =>
      refine ⟨⟨(nomatch ·), ?_⟩, fun c hc => absurd hc (Nat.not_lt_zero c), .inl ⟨rfl, rfl⟩⟩
      rintro ⟨c, hc, -⟩
      exact absurd hc (Nat.not_lt_zero c)
  | succ i ih =>
      rw [List.range_succ, List.foldl_append]
      exact ih.sector

theorem getSeqnum_of_blank (hblank : ∀ c, c < cfg.sectorCount → shown (flash c) = none) :
    getSeqnum cfg flash = (0, 0) := by
  have hscan := scanned_range flash cfg.sectorCount
  rw [getSeqnum]
  refine if_neg fun hexisted => ?_
  obtain ⟨c, hc, m, hm⟩ := hscan.isExisted.mp hexisted
  rw [hblank c hc] at hm
  cases hm

/-- With the sectors in order up to number `last`, the log goes on behind it. -/
theorem getSeqnum_of_last {last : Nat} (hlast : shown (flash (last % cfg.sectorCount)) = some last)
    (hnumbers : ∀ c, c < cfg.sectorCount → ∀ m, shown (flash c) = some m → m ≤ last ∧ m % cfg.sectorCount = c)
    (hbound : last + 1 < 2 ^ 32) :
    (getSeqnum cfg flash).1.toNat = last + 1 ∧ (getSeqnum cfg flash).2 = (last + 1) % cfg.sectorCount := by
  have hscan := scanned_range flash cfg.sectorCount
  rw [getSeqnum]
  generalize (List.range cfg.sectorCount).foldl (Scan.sector flash) ⟨0, 0, false⟩ = scan at hscan ⊢
  have hsector := Nat.mod_lt last cfg.sectorCount_pos
  have hle := hscan.le_max _ hsector last hlast
  have hmax : scan.maxDumpSeqnum.toNat = last ∧ scan.maxSectorSeqnum = last % cfg.sectorCount := by
    rcases hscan.max with ⟨hzero, hfirst⟩ | ⟨hlt, hshown⟩
    · rw [hzero] at hle ⊢
      obtain rfl := Nat.le_zero.mp hle
      exact ⟨rfl, by rw [hfirst, Nat.zero_mod]⟩
    · obtain ⟨hle', hmod⟩ := hnumbers _ hlt _ hshown
      have heq := Nat.le_antisymm hle' hle
      exact ⟨heq, by rw [← hmod, heq]⟩
  have hexisted := hscan.isExisted.mpr ⟨_, hsector, last, hlast⟩
  simp only [hexisted, if_true]
  constructor
  · rw [UInt32.toNat_add, hmax.1]
    exact Nat.mod_eq_of_lt hbound
  · rw [hmax.2, succ_mod cfg.sectorCount_pos]

/-- Where the log goes on, from sectors that hold it up to number `n`. -/
theorem getSeqnum_of_ready {log : List (List UInt8)} {n : Nat} (hready : Ready shown cfg.sectorCount log n flash)
    (hlog : Numbered shown log) (hbound : n < 2 ^ 32) :
    (∀ c, c < cfg.sectorCount → shown (flash c) = none) ∧ getSeqnum cfg flash = (0, 0) ∨
      ∃ last, n = last + 1 ∧ shown (flash (last % cfg.sectorCount)) = some last ∧
        (getSeqnum cfg flash).1.toNat = n ∧ (getSeqnum cfg flash).2 = n % cfg.sectorCount := by
  rcases hready.takeUp cfg.sectorCount_pos hlog with hblank | ⟨last, rfl, hlast⟩
  · exact .inl ⟨hblank, getSeqnum_of_blank hblank⟩
  · refine .inr ⟨last, rfl, hlast, getSeqnum_of_last hlast (fun c hc m hm => ?_) hbound⟩
    obtain ⟨hlt, -, hmod⟩ := hready.shown_eq hlog hc hm
    exact ⟨Nat.le_of_lt_succ hlt, hmod⟩

end Best1307.LogDump
