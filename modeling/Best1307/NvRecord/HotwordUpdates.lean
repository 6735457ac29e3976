import Best1307.NvRecord.HotwordClean

/-!
# Updates of hotword models

An update with a new id is given free sectors: those behind the largest address, or those that were cleaned. One with
an id in the table is given the place recorded there, which is right only if it is a model's and large enough. What a
run of such updates keeps is that no two models have a sector in common.
-/

namespace Best1307.NvHotword

variable {sec : FlashSection} {s : State} {m : ModelInfo} {u : Update}

namespace State

/-- An id that is found is that of a model behind the embedded one, and what is given fits its sectors. Where models
have to go for a new one, that works. -/
def Orderly (sec : FlashSection) (s : State) (u : Update) : Prop :=
  match s.find u.modelId with
  | some i => i ∈ s.indices ∧ u.len ≤ (s.modelInfo i).cleanSize
  | none => s.NeedsClean sec u.len → s.Cleanable u.len

instance (sec : FlashSection) (s : State) (u : Update) : Decidable (s.Orderly sec u) :=
  match h : s.find u.modelId with
  | some i => decidable_of_iff (i ∈ s.indices ∧ u.len ≤ (s.modelInfo i).cleanSize) (by simp only [Orderly, h])
  | none => decidable_of_iff (s.NeedsClean sec u.len → s.Cleanable u.len) (by simp only [Orderly, h])

/-- What an update is given in the table `s'`: a region of its own, and adding it keeps the models apart. -/
structure Given (sec : FlashSection) (s' : State) (u : Update) (addr : Nat) : Prop where
  stored : s'.Stored sec
  added : (s'.addNewModel ⟨u.modelId, addr, u.len⟩).1.Stored sec
  start_le : sec.start ≤ addr
  le_stop : addr + u.len ≤ sec.stop
  apart : ∀ i < s'.supportedModelCnt, (s'.modelInfo i).modelId ≠ u.modelId →
    addr + u.len ≤ (s'.modelInfo i).startAddr ∨ (s'.modelInfo i).startAddr + (s'.modelInfo i).len ≤ addr

theorem Stored.apart_entries (h : s.Stored sec) {addr : Nat} (hlo : sec.start ≤ addr) (hhi : addr + u.len ≤ sec.stop)
    (hmodels : ∀ n ∈ s.models, n.modelId ≠ u.modelId →
      addr + u.len ≤ n.startAddr ∨ n.startAddr + n.len ≤ addr) :
    ∀ i < s.supportedModelCnt, (s.modelInfo i).modelId ≠ u.modelId →
      addr + u.len ≤ (s.modelInfo i).startAddr ∨ (s.modelInfo i).startAddr + (s.modelInfo i).len ≤ addr := by
  intro i hi
  refine h.forall_entries (P := fun n => n.modelId ≠ u.modelId →
    addr + u.len ≤ n.startAddr ∨ n.startAddr + n.len ≤ addr) (fun _ => ?_) hmodels hi
  rcases sec.apart with hbehind | hbefore
  · exact .inl (Nat.le_trans hhi hbehind)
  · exact .inr (Nat.le_trans hbefore hlo)

theorem apart_bytes {n : ModelInfo} (h : m.extent.Apart n.extent) :
    m.startAddr + m.len ≤ n.startAddr ∨ n.startAddr + n.len ≤ m.startAddr :=
  h.imp (Nat.le_trans m.addr_le) (Nat.le_trans n.addr_le)

theorem Stored.given (h : s.Stored sec) (hcnt : s.supportedModelCnt < hotwordModleMaxNum)
    (hfresh : s.find u.modelId = none) {addr : Nat} (hinside : (ModelInfo.mk u.modelId addr u.len).Inside sec)
    (hapart : ∀ n ∈ s.models, (ModelInfo.mk u.modelId addr u.len).extent.Apart n.extent) :
    Given sec s u addr := by
  have hend : addr + u.len ≤ sec.stop := Nat.le_trans (ModelInfo.addr_le ⟨u.modelId, addr, u.len⟩) hinside.le_stop
  exact ⟨h, h.add hcnt hfresh hinside hapart, hinside.start_le, hend,
    h.apart_entries hinside.start_le hend fun n hn _ => apart_bytes (hapart n hn)⟩

/-- The model found in the table gives up its place to the new version. -/
theorem Stored.given_found (h : s.Stored sec) {i : Nat} (hfind : s.find u.modelId = some i) (hi : i ∈ s.indices)
    (hlen : u.len ≤ (s.modelInfo i).cleanSize) : Given sec s u (s.modelInfo i).startAddr := by
  have hinside := Clean.modelInfo_inside h hi
  rw [hinside.cleanSize_eq] at hlen
  have hend : (s.modelInfo i).startAddr + u.len ≤ (s.modelInfo i).extent.hi := Nat.add_le_add_left hlen _
  have hkept := addNewModel_found (m := ⟨u.modelId, (s.modelInfo i).startAddr, u.len⟩) h hfind rfl hinside
  refine ⟨h, by rw [hkept]; exact h, hinside.start_le, Nat.le_trans hend hinside.le_stop,
    h.apart_entries hinside.start_le (Nat.le_trans hend hinside.le_stop) fun n hn hid => ?_⟩
  have hother : n ∈ (s.remove i).models := by
    rcases List.mem_cons.mp ((models_remove hi h.cnt_le).mem_iff.mpr hn) with rfl | hrest
    · exact absurd (of_find_eq_some hfind) hid
    · exact hrest
  exact (h.apart_removed hi n hother).imp (Nat.le_trans hend) (Nat.le_trans n.addr_le)

theorem Stored.given_behind (h : s.Stored sec) (hlen : u.len ≤ sec.size) (hfresh : s.find u.modelId = none)
    (hroom : ¬ s.NeedsClean sec u.len) : Given sec s u (f4kAlign (s.largestAddr sec)) := by
  obtain ⟨hge, hle, haligned, hall⟩ := h.largestAddr
  have hsize := sec.fits
  have hstop := sec.stop_lt
  have hmod := sec.stop_mod
  rw [NeedsClean, add32_eq (by omega), not_or] at hroom
  refine h.given (Nat.lt_of_not_le hroom.2) hfresh ⟨haligned, hge, ?_⟩ fun n hn => .inr (hall n hn)
  have hsectors : sectors u.len ≤ sec.stop - f4kAlign (s.largestAddr sec) := sectors_le (by omega) (by omega)
  change f4kAlign (s.largestAddr sec) + sectors u.len ≤ sec.stop
  omega

/-- There are models to take out: an update fits the empty section. -/
theorem one_lt_cnt {len : Nat} (hlen : len ≤ sec.size) (hneeds : s.NeedsClean sec len) :
    1 < s.supportedModelCnt := by
  rcases Nat.lt_or_ge 1 s.supportedModelCnt with hlt | hge
  · exact hlt
  · have hnone : s.indices = [] := by
      rw [indices, defaultModelNum, Nat.sub_eq_zero_of_le hge]
      rfl
    have hstart : s.largestAddr sec = sec.start := by rw [State.largestAddr, hnone, List.foldl_nil]
    have hmod := sec.start_mod
    have hstop := sec.stop_lt
    have hdef : sec.stop = sec.start + sec.size := rfl
    rw [NeedsClean, hstart, f4kAlign_eq (by omega), sectors, add32_eq (by omega), hotwordModleMaxNum] at hneeds
    omega

theorem Stored.given_cleaned (h : s.Stored sec) (hlen : u.len ≤ sec.size) (hfresh : s.find u.modelId = none)
    (hneeds : s.NeedsClean sec u.len) (hclean : s.Cleanable u.len) :
    ∃ c, Clean.rounds u.len s.supportedModelCnt (.ofFirst s) = some c ∧
      Given sec c.table.markEmpty u c.addr := by
  have hcnt := one_lt_cnt hlen hneeds
  obtain ⟨c, hrounds, hspace, hsize, hless, hfind⟩ := Clean.rounds_ofFirst h hcnt hclean
  obtain ⟨free, hlo, hfits, hstop, hapart⟩ := hspace.free
  have hmark : c.table.markEmpty = c.table := if_neg (Nat.ne_of_gt hspace.stored.cnt_pos)
  have hsectors : sectors u.len ≤ c.cleanSize := sectors_le hsize hspace.size_mod
  have hfull := h.cnt_le
  refine ⟨c, hrounds, ?_⟩
  rw [hmark]
  refine hspace.stored.given (by omega) (hfind _ hfresh)
    ⟨hspace.aligned, hspace.start_le, ?_⟩ fun n hn => (hapart n hn).of_le (Nat.le_of_eq hlo) ?_
  · change c.addr + sectors u.len ≤ sec.stop
    omega
  · change c.addr + sectors u.len ≤ free.hi
    omega

theorem Stored.getHotwordModelAddr (h : s.Stored sec) (hlen : u.len ≤ sec.size) (horderly : s.Orderly sec u) :
    ∃ addr s', s.getHotwordModelAddr sec u.modelId true u.len = some (addr, s') ∧ Given sec s' u addr := by
  rw [Orderly] at horderly
  rw [State.getHotwordModelAddr]
  cases hfind : s.find u.modelId with
  | some i =>
      rw [hfind] at horderly
      exact ⟨_, _, rfl, h.given_found hfind horderly.1 horderly.2⟩
  | none =>
      rw [hfind] at horderly
      simp only [Bool.true_eq_false, if_false, if_neg h.cnt_ne_invalid]
      by_cases hneeds : s.NeedsClean sec u.len
      · obtain ⟨c, hrounds, hgiven⟩ := h.given_cleaned hlen hfind hneeds (horderly hneeds)
        rw [if_pos hneeds, hrounds]
        exact ⟨_, _, rfl, hgiven⟩
      · rw [if_neg hneeds]
        exact ⟨_, _, rfl, h.given_behind hlen hfind hneeds⟩

theorem Stored.step (h : s.Stored sec) (hlen : u.len ≤ sec.size) (horderly : s.Orderly sec u) :
    ∃ t, s.step sec u = some t ∧ t.Stored sec := by
  obtain ⟨addr, s', hget, hgiven⟩ := h.getHotwordModelAddr hlen horderly
  rw [State.step, hget, Option.map_some]
  cases happlied : u.applied with
  | false => exact ⟨_, rfl, hgiven.stored⟩
  | true => exact ⟨_, rfl, hgiven.added⟩

theorem stored_init : (init sec).Stored sec where
  cnt_pos := Nat.one_pos
  cnt_le := Nat.le_of_ble_eq_true rfl
  embedded := rfl
  inside := fun _ hm => absurd hm List.not_mem_nil
  apart := List.Pairwise.nil

/-- Every update of an orderly run is given a region of its own. -/
theorem grants_of_orderly (sec : FlashSection) {updates : List Update}
    (halong : Along (step sec) (fun s u => u.len ≤ sec.size ∧ s.Orderly sec u) (init sec) updates) :
    ∃ t, run (step sec) (init sec) updates = some t ∧
      ∀ u : Update, u.len ≤ sec.size → t.Orderly sec u → t.Grants sec u := by
  obtain ⟨t, ht, hstored⟩ := halong.exists_run_invariant (fun s => s.Stored sec)
    (fun s u hs hu => hs.step hu.1 hu.2) stored_init
  refine ⟨t, ht, fun u hlen horderly => ?_⟩
  obtain ⟨addr, s', hget, hgiven⟩ := hstored.getHotwordModelAddr hlen horderly
  exact ⟨addr, s', hget, hgiven.start_le, hgiven.le_stop, hgiven.apart⟩

/-! ### Small runs -/

/-- 240 KB, and an embedded model elsewhere. -/
def smallSection : FlashSection where
  offset := 0x200000
  size := 0x3C000
  embeddedModelFile := 0x2C010000
  offset_aligned := rfl
  size_aligned := rfl
  fits := Nat.le_of_ble_eq_true rfl
  apart := .inl (Nat.le_of_ble_eq_true rfl)

/-- Three models fill the section; then one and two of them make room, above and below. -/
def orderlyUpdates : List Update :=
  [⟨1, 0x14000, true⟩, ⟨2, 0x14000, true⟩, ⟨3, 0x14000, true⟩, ⟨4, 0xF000, true⟩, ⟨3, 0x13800, true⟩,
    ⟨5, 0xF000, true⟩, ⟨6, 0x19000, false⟩]

theorem orderlyUpdates_grants : ∃ t, run (step smallSection) (init smallSection) orderlyUpdates = some t ∧
    ∀ u : Update, u.len ≤ smallSection.size → t.Orderly smallSection u → t.Grants smallSection u :=
  grants_of_orderly smallSection (by decide)

/-- After a model of 80 KB there is no room for one of 200 KB, and the first is too small to make it. -/
def soleUpdate : Update := ⟨1, 0x14000, true⟩

/-- Models of 80 and 40 KB; then the oldest one lies at the end, and the newest below is not the nearest. -/
def spreadUpdates : List Update :=
  [⟨1, 0x14000, true⟩, ⟨2, 0x14000, true⟩, ⟨3, 0xA000, true⟩, ⟨4, 0x14000, true⟩, ⟨5, 0xA000, true⟩,
    ⟨6, 0x14000, true⟩, ⟨7, 0xA000, true⟩, ⟨8, 0x14000, true⟩]

/-- The loop reads outside the table, and it cleans a model below that is not next to the space it has. -/
theorem soleUpdate_not_grants :
    (∃ t, run (step smallSection) (init smallSection) [soleUpdate] = some t ∧
      ¬ t.Grants smallSection ⟨2, 0x32000, true⟩) ∧
    ∃ t, run (step smallSection) (init smallSection) spreadUpdates = some t ∧
      ¬ t.Grants smallSection ⟨9, 0x1E000, true⟩ := by
  constructor
  · have hnone : (run (step smallSection) (init smallSection) [soleUpdate]).any fun t =>
        (t.getHotwordModelAddr smallSection 2 true 0x32000).isNone := by decide
    cases hrun : run (step smallSection) (init smallSection) [soleUpdate] with
    | none =>
        rw [hrun] at hnone
        cases hnone
    | some t =>
        refine ⟨t, rfl, fun hgrants => ?_⟩
        obtain ⟨addr, s', hget, -⟩ := hgrants
        rw [hrun, Option.any_some, hget] at hnone
        cases hnone
  · have hmeets : (run (step smallSection) (init smallSection) spreadUpdates).any fun t =>
        (t.getHotwordModelAddr smallSection 9 true 0x1E000).any fun given =>
          1 < given.2.supportedModelCnt ∧ (given.2.modelInfo 1).modelId ≠ 9 ∧
            (given.2.modelInfo 1).startAddr < given.1 + 0x1E000 ∧
            given.1 < (given.2.modelInfo 1).startAddr + (given.2.modelInfo 1).len := by decide
    cases hrun : run (step smallSection) (init smallSection) spreadUpdates with
    | none =>
        rw [hrun] at hmeets
        cases hmeets
    | some t =>
        refine ⟨t, rfl, fun hgrants => ?_⟩
        obtain ⟨addr, s', hget, -, -, hapart⟩ := hgrants
        rw [hrun, Option.any_some, hget, Option.any_some, decide_eq_true_eq] at hmeets
        obtain ⟨hcnt, hid, hbegins, hends⟩ := hmeets
        rcases hapart 1 hcnt hid with hbefore | hbehind
        · exact absurd hbegins (Nat.not_lt.mpr hbefore)
        · exact absurd hends (Nat.not_lt.mpr hbehind)

end State

end Best1307.NvHotword
