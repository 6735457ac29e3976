import Mathlib.Data.List.Nodup
import Mathlib.Algebra.Order.Ring.Nat
import Best1307.Lib.Extent
import Best1307.NvRecord.Hotword

/-!
# Models that lie apart

Each model behind the embedded one lies in the section and in sectors of its own. Taking a model out of the table and
adding one in free sectors keep this, and the largest address is behind all of them.
-/

namespace Best1307.NvHotword

open List

variable {sec : FlashSection} {s : State} {m : ModelInfo} {a b val : Nat}

/-! ### Numbers -/

theorem add32_eq (h : a + b < 2 ^ 32) : add32 a b = a + b := Nat.mod_eq_of_lt h

theorem sub32_eq (hle : b ≤ a) (hlt : a < 2 ^ 32) : sub32 a b = a - b := by
  rw [sub32]
  omega

theorem sub32_wrap (hlt : a < b) (hb : b < 2 ^ 32) : sub32 a b = 2 ^ 32 - (b - a) := by
  rw [sub32]
  omega

def sectors (len : Nat) : Nat := (len + 0xFFF) / 0x1000 * 0x1000

theorem le_sectors (len : Nat) : len ≤ sectors len := by
  rw [sectors]
  omega

theorem sectors_mod (len : Nat) : sectors len % 0x1000 = 0 := Nat.mul_mod_left _ _

theorem sectors_le {len size : Nat} (h : len ≤ size) (haligned : size % 0x1000 = 0) : sectors len ≤ size := by
  rw [sectors]
  omega

theorem f4kAlign_eq (h : val + 0xFFF < 2 ^ 32) : f4kAlign val = sectors val := by
  rw [f4kAlign, sectors, Nat.mod_eq_of_lt h]

namespace FlashSection

theorem start_mod (sec : FlashSection) : sec.start % 0x1000 = 0 := by
  have := sec.offset_aligned
  rw [start, otaFlashLogicAddr]
  omega

theorem stop_mod (sec : FlashSection) : sec.stop % 0x1000 = 0 := by
  have := sec.start_mod
  have := sec.size_aligned
  rw [stop]
  omega

theorem le_start (sec : FlashSection) : 0x28000000 ≤ sec.start := Nat.le_add_right _ _

theorem stop_lt (sec : FlashSection) : sec.stop < 0x28000000 + 2 ^ 24 := by
  have := sec.fits
  rw [stop, start, otaFlashLogicAddr]
  omega

theorem or_logicAddr {addr : Nat} (hlo : sec.start ≤ addr) (hhi : addr ≤ sec.stop) :
    addr ||| otaFlashLogicAddr = addr := by
  have hle := Nat.le_trans sec.le_start hlo
  have hlt := Nat.lt_of_le_of_lt hhi sec.stop_lt
  obtain ⟨low, rfl⟩ := Nat.exists_eq_add_of_le hle
  have hlow : low < 2 ^ 24 := by omega
  have hparts : 0x28000000 + low = 0x28 <<< 24 ||| low := Nat.shiftLeft_add_eq_or_of_lt hlow 0x28
  have hbase : otaFlashLogicAddr = 0x28 <<< 24 := rfl
  rw [hparts, hbase, Nat.or_comm, ← Nat.or_assoc, Nat.or_self]

end FlashSection

/-! ### Models in the section -/

namespace ModelInfo

def extent (m : ModelInfo) : Extent Nat := ⟨m.startAddr, m.startAddr + sectors m.len, Nat.le_add_right _ _⟩

structure Inside (sec : FlashSection) (m : ModelInfo) : Prop where
  aligned : m.startAddr % 0x1000 = 0
  start_le : sec.start ≤ m.startAddr
  le_stop : m.extent.hi ≤ sec.stop

theorem addr_le (m : ModelInfo) : m.startAddr + m.len ≤ m.extent.hi :=
  Nat.add_le_add_left (le_sectors m.len) m.startAddr

namespace Inside

theorem startAddr_le (h : m.Inside sec) : m.startAddr ≤ sec.stop := Nat.le_trans m.extent.le h.le_stop

theorem tempAddr_eq (h : m.Inside sec) : add32 m.startAddr m.len = m.startAddr + m.len := by
  have := m.addr_le
  have := h.le_stop
  have := sec.stop_lt
  exact add32_eq (by omega)

theorem cleanSize_eq (h : m.Inside sec) : m.cleanSize = sectors m.len := by
  have hstart := h.aligned
  have haddr := m.addr_le
  have hstop := h.le_stop
  have hlt := sec.stop_lt
  have hup : sectors (m.startAddr + m.len) = m.startAddr + sectors m.len := by
    rw [sectors, sectors]
    omega
  have hhi : m.extent.hi = m.startAddr + sectors m.len := rfl
  rw [cleanSize, h.tempAddr_eq, f4kAlign_eq (by omega), hup, sub32_eq (by omega) (by omega), Nat.add_sub_cancel_left]

end Inside

end ModelInfo

/-- The entry of the embedded model. -/
def FlashSection.embedded (sec : FlashSection) : ModelInfo :=
  ⟨defaultHotwordModelId, sec.embeddedModelFile ||| otaFlashLogicAddr, hotwordModelMaxSize⟩

namespace State

def models (s : State) : List ModelInfo := s.indices.map s.modelInfo

theorem mem_indices {i : Nat} : i ∈ s.indices ↔ 0 < i ∧ i < s.supportedModelCnt := by
  rw [indices, List.mem_range'_1, defaultModelNum]
  omega

theorem mem_models {i : Nat} (hpos : 0 < i) (hlt : i < s.supportedModelCnt) : s.modelInfo i ∈ s.models :=
  List.mem_map_of_mem (mem_indices.mpr ⟨hpos, hlt⟩)

theorem length_models : s.models.length = s.supportedModelCnt - 1 := by
  rw [models, List.length_map, indices, List.length_range', defaultModelNum]

theorem getElem_models {k : Nat} (hk : k < s.models.length) : s.models[k] = s.modelInfo (k + 1) := by
  simp only [models, indices, List.getElem_map, List.getElem_range', defaultModelNum, Nat.one_mul, Nat.add_comm 1]

theorem find_eq_none_iff {modelId : ModelId} :
    s.find modelId = none ↔ ∀ i < hotwordModleMaxNum, (s.modelInfo i).modelId ≠ modelId := by
  simp only [find, List.find?_eq_none, List.mem_range, decide_eq_true_eq, ne_eq]

theorem of_find_eq_some {modelId : ModelId} {i : Nat} (h : s.find modelId = some i) :
    (s.modelInfo i).modelId = modelId := by
  have hfound := List.find?_some h
  exact of_decide_eq_true hfound

/-- The table is that of an initialised record, and no two models have a sector in common. -/
structure Stored (sec : FlashSection) (s : State) : Prop where
  cnt_pos : 0 < s.supportedModelCnt
  cnt_le : s.supportedModelCnt ≤ hotwordModleMaxNum
  embedded : s.modelInfo 0 = sec.embedded
  inside : ∀ m ∈ s.models, m.Inside sec
  apart : s.models.Pairwise fun m n => m.extent.Apart n.extent

namespace Stored

theorem forall_entries (h : Stored sec s) {P : ModelInfo → Prop} (hembedded : P sec.embedded)
    (hmodels : ∀ m ∈ s.models, P m) {i : Nat} (hi : i < s.supportedModelCnt) : P (s.modelInfo i) := by
  cases Nat.eq_zero_or_pos i with
  | inl hzero =>
      subst hzero
      rw [h.embedded]
      exact hembedded
  | inr hpos => exact hmodels _ (mem_models hpos hi)

theorem cnt_ne_invalid (h : Stored sec s) : s.supportedModelCnt ≠ invalidModelNum :=
  Nat.ne_of_lt (Nat.lt_of_le_of_lt h.cnt_le (by decide))

end Stored

/-! ### Taking a model out -/

section Remove

variable {k : Nat}

theorem cnt_remove (hpos : 0 < s.supportedModelCnt) (hle : s.supportedModelCnt ≤ hotwordModleMaxNum) :
    (s.remove k).supportedModelCnt = s.supportedModelCnt - 1 := by
  rw [hotwordModleMaxNum] at hle
  change (s.supportedModelCnt + 0xFF) % 2 ^ 8 = _
  omega

theorem models_remove (hk : k ∈ s.indices) (hle : s.supportedModelCnt ≤ hotwordModleMaxNum) :
    s.modelInfo k :: (s.remove k).models ~ s.models := by
  obtain ⟨hpos, hlt⟩ := mem_indices.mp hk
  have hcnt := cnt_remove (k := k) (Nat.zero_lt_of_lt hlt) hle
  have hlen : k - 1 < s.models.length := by
    rw [length_models]
    omega
  have herase : (s.remove k).models = s.models.eraseIdx (k - 1) := by
    refine List.ext_getElem ?_ fun j hj hj' => ?_
    · rw [List.length_eraseIdx_of_lt hlen, length_models, length_models, hcnt]
    · have hj'' := hj
      rw [length_models, hcnt] at hj''
      rw [getElem_models, List.getElem_eraseIdx]
      by_cases hbefore : j < k - 1
      · rw [dif_pos hbefore, getElem_models]
        exact if_neg fun h => absurd h.1 (by omega)
      · rw [dif_neg hbefore, getElem_models]
        exact if_pos ⟨by omega, by omega⟩
  have hhead : s.modelInfo k = s.models[k - 1] := by
    rw [getElem_models, Nat.sub_add_cancel hpos]
  rw [herase, hhead]
  exact List.getElem_cons_eraseIdx_perm hlen

theorem Stored.remove (h : Stored sec s) (hk : k ∈ s.indices) : Stored sec (s.remove k) := by
  obtain ⟨hpos, hlt⟩ := mem_indices.mp hk
  have hperm := models_remove hk h.cnt_le
  have hcnt := cnt_remove (k := k) h.cnt_pos h.cnt_le
  have hpairwise := (hperm.pairwise_iff fun {_ _} hab => hab.symm).mpr h.apart
  refine ⟨?_, ?_, ?_, ?_, (List.pairwise_cons.mp hpairwise).2⟩
  · rw [hcnt]
    omega
  · rw [hcnt]
    exact Nat.le_trans (Nat.sub_le _ _) h.cnt_le
  · have hzero : (s.remove k).modelInfo 0 = s.modelInfo 0 := if_neg fun hle => absurd hle.1 (by omega)
    rw [hzero, h.embedded]
  · intro m hm
    exact h.inside m (hperm.subset (List.mem_cons_of_mem _ hm))

theorem Stored.apart_removed (h : Stored sec s) (hk : k ∈ s.indices) :
    ∀ m ∈ (s.remove k).models, (s.modelInfo k).extent.Apart m.extent := by
  have hpairwise := ((models_remove hk h.cnt_le).pairwise_iff fun {_ _} hab => hab.symm).mpr h.apart
  exact (List.pairwise_cons.mp hpairwise).1

theorem find_remove {modelId : ModelId} (hle : s.supportedModelCnt ≤ hotwordModleMaxNum)
    (h : s.find modelId = none) : (s.remove k).find modelId = none := by
  rw [find_eq_none_iff] at h ⊢
  intro i hi
  change (if k ≤ i ∧ i + 1 < s.supportedModelCnt then s.modelInfo (i + 1) else s.modelInfo i).modelId ≠ modelId
  by_cases hmove : k ≤ i ∧ i + 1 < s.supportedModelCnt
  · rw [if_pos hmove]
    exact h (i + 1) (Nat.lt_of_lt_of_le hmove.2 hle)
  · rw [if_neg hmove]
    exact h i hi

end Remove

/-! ### The largest address -/

theorem low24_lt_iff (ha : 0x28000000 ≤ a ∧ a < 0x28000000 + 2 ^ 24) (hb : 0x28000000 ≤ b ∧ b < 0x28000000 + 2 ^ 24) :
    low24 a < low24 b ↔ a < b := by
  rw [low24, low24]
  omega

theorem foldl_largest {models : List ModelInfo} (hinside : ∀ m ∈ models, m.Inside sec) {addr : Nat}
    (hlo : sec.start ≤ addr) (hhi : addr ≤ sec.stop) :
    let largest := models.foldl (fun addr m =>
      if low24 addr < low24 (add32 m.startAddr m.len) then add32 m.startAddr m.len else addr) addr
    addr ≤ largest ∧ largest ≤ sec.stop ∧ ∀ m ∈ models, m.startAddr + m.len ≤ largest := by
  induction models generalizing addr with
  | nil => exact ⟨Nat.le_refl addr, hhi, fun _ hm => absurd hm List.not_mem_nil⟩
  | cons m models ih =>
      have hm := hinside m List.mem_cons_self
      have hstart := hm.start_le
      have hend := Nat.le_trans m.addr_le hm.le_stop
      have hbase := sec.le_start
      have hlt := sec.stop_lt
      have hrest : ∀ n ∈ models, n.Inside sec := fun n hn => hinside n (List.mem_cons_of_mem m hn)
      rw [List.foldl_cons, hm.tempAddr_eq]
      simp only [low24_lt_iff ⟨Nat.le_trans hbase hlo, Nat.lt_of_le_of_lt hhi hlt⟩
        ⟨(by omega : 0x28000000 ≤ m.startAddr + m.len), Nat.lt_of_le_of_lt hend hlt⟩]
      by_cases hmore : addr < m.startAddr + m.len
      · rw [if_pos hmore]
        obtain ⟨hge, hle, hall⟩ := ih hrest (Nat.le_trans hlo (Nat.le_of_lt hmore)) hend
        exact ⟨Nat.le_trans (Nat.le_of_lt hmore) hge, hle, List.forall_mem_cons.mpr ⟨hge, hall⟩⟩
      · rw [if_neg hmore]
        obtain ⟨hge, hle, hall⟩ := ih hrest hlo hhi
        exact ⟨hge, hle, List.forall_mem_cons.mpr ⟨Nat.le_trans (Nat.le_of_not_lt hmore) hge, hall⟩⟩

theorem Stored.largestAddr (h : Stored sec s) :
    sec.start ≤ f4kAlign (s.largestAddr sec) ∧ f4kAlign (s.largestAddr sec) ≤ sec.stop ∧
      f4kAlign (s.largestAddr sec) % 0x1000 = 0 ∧
      ∀ m ∈ s.models, m.extent.hi ≤ f4kAlign (s.largestAddr sec) := by
  obtain ⟨hge, hle, hall⟩ := foldl_largest h.inside (Nat.le_refl sec.start) (Nat.le_add_right _ _)
  rw [models, List.foldl_map] at hge hle hall
  change sec.start ≤ s.largestAddr sec at hge
  change s.largestAddr sec ≤ sec.stop at hle
  change ∀ m ∈ s.models, m.startAddr + m.len ≤ s.largestAddr sec at hall
  have hlt := sec.stop_lt
  rw [f4kAlign_eq (by omega)]
  refine ⟨Nat.le_trans hge (le_sectors _), sectors_le hle sec.stop_mod, sectors_mod _, fun m hm => ?_⟩
  have hend := hall m hm
  have haligned := (h.inside m hm).aligned
  change m.startAddr + sectors m.len ≤ _
  rw [sectors, sectors]
  omega

/-! ### Adding a model -/

/-- A model with an id that is not in the table is added behind the others, if it lies apart from them. -/
theorem Stored.add (h : Stored sec s) (hcnt : s.supportedModelCnt < hotwordModleMaxNum)
    (hfresh : s.find m.modelId = none) (hinside : m.Inside sec)
    (hapart : ∀ n ∈ s.models, m.extent.Apart n.extent) : Stored sec (s.addNewModel m).1 := by
  have hinfo : { m with startAddr := m.startAddr ||| otaFlashLogicAddr } = m := by
    rw [FlashSection.or_logicAddr hinside.start_le hinside.startAddr_le]
  have hadd : (s.addNewModel m).1 =
      ⟨s.supportedModelCnt + 1, Function.update s.modelInfo s.supportedModelCnt m⟩ := by
    rw [addNewModel, if_neg h.cnt_ne_invalid, if_pos hcnt]
    simp only [hinfo, hfresh]
  have hmodels : (s.addNewModel m).1.models = s.models ++ [m] := by
    have hcount : s.supportedModelCnt + 1 - 1 = s.supportedModelCnt - 1 + 1 := by
      have := h.cnt_pos
      omega
    rw [hadd]
    change (List.range' 1 (s.supportedModelCnt + 1 - 1)).map _ = _
    rw [hcount, List.range'_1_concat, List.map_append, List.map_singleton]
    refine congrArg₂ (· ++ ·) (List.map_congr_left fun i hi => ?_) ?_
    · have hlt := (List.mem_range'_1.mp hi).2
      exact Function.update_of_ne (by omega) _ _
    · have hlast : 1 + (s.supportedModelCnt - 1) = s.supportedModelCnt := by omega
      rw [hlast]
      exact congrArg (fun n => [n]) (Function.update_self _ _ _)
  refine ⟨?_, ?_, ?_, ?_, ?_⟩
  · rw [hadd]
    exact Nat.succ_pos _
  · rw [hadd]
    exact hcnt
  · rw [hadd]
    exact (Function.update_of_ne (Nat.ne_of_lt h.cnt_pos) _ _).trans h.embedded
  · rw [hmodels]
    intro n hn
    rcases List.mem_append.mp hn with hn | hn
    · exact h.inside n hn
    · rw [List.mem_singleton.mp hn]
      exact hinside
  · rw [hmodels, List.pairwise_append]
    refine ⟨h.apart, List.pairwise_singleton _ _, fun n hn k hk => ?_⟩
    rw [List.mem_singleton.mp hk]
    exact (hapart n hn).symm

theorem addNewModel_found (h : Stored sec s) {i : Nat} (hfind : s.find m.modelId = some i)
    (haddr : m.startAddr = (s.modelInfo i).startAddr) (hinside : (s.modelInfo i).Inside sec) :
    (s.addNewModel m).1 = s := by
  have hlogic : m.startAddr ||| otaFlashLogicAddr = (s.modelInfo i).startAddr := by
    rw [haddr, FlashSection.or_logicAddr hinside.start_le hinside.startAddr_le]
  rw [addNewModel, if_neg h.cnt_ne_invalid]
  by_cases hcnt : s.supportedModelCnt < hotwordModleMaxNum
  · rw [if_pos hcnt]
    simp only [hfind, hlogic]
    by_cases hzero : (s.modelInfo i).startAddr ≠ 0
    · rw [if_pos hzero, Function.update_eq_self]
    · rw [if_neg hzero]
  · rw [if_neg hcnt]

end State

end Best1307.NvHotword
