import Best1307.NvRecord.HotwordTable

/-!
# Making room

The space cleaned is a free extent that grows over its nearest neighbours. The neighbour above that the loop finds is
the nearest one; the one below is only the last of the table, so that the space grows over other models unless that
is the nearest as well. The sizes of the models taken out are added up without the gaps between them, so there must be
models enough to make up the size of the new one.
-/

namespace Best1307.NvHotword

open List

variable {sec : FlashSection} {s : State} {c : Clean} {newModelLen total : Nat}

/-! ### When it works -/

namespace Clean

/-- A round that takes out the model found below takes out the nearest one below. -/
def HeadNearest (c : Clean) : Prop :=
  c.adjacent.headAdjacentIdx ≤ c.adjacent.tailAdjacentIdx → ∀ i ∈ c.table.indices,
    (c.table.modelInfo i).startAddr < c.addr →
      (c.table.modelInfo i).startAddr ≤ (c.table.modelInfo c.adjacent.headAdjacentIdx).startAddr

instance (c : Clean) : Decidable c.HeadNearest := inferInstanceAs (Decidable (_ → ∀ i ∈ _, _ → _))

/-- All rounds of the loop do. -/
def HeadsNearest (newModelLen : Nat) : Nat → Clean → Prop
  | 0, _ => True
  | n + 1, c => c.cleanSize < newModelLen → c.HeadNearest ∧ ∀ c' ∈ c.round, c'.HeadsNearest newModelLen n

instance HeadsNearest.decidable (newModelLen : Nat) : (n : Nat) → (c : Clean) → Decidable (c.HeadsNearest newModelLen n)
  | 0, _ => inferInstanceAs (Decidable True)
  | n + 1, c =>
      have : ∀ c', Decidable (HeadsNearest newModelLen n c') := HeadsNearest.decidable newModelLen n
      inferInstanceAs (Decidable (c.cleanSize < newModelLen → c.HeadNearest ∧ ∀ c' ∈ c.round, _))

end Clean

def State.occupied (s : State) : Nat := (s.models.map ModelInfo.cleanSize).sum

/-- Space can be made: there are models enough, and if the first one is too small no two begin at one address and the
rounds go to the nearest. -/
structure State.Cleanable (s : State) (newModelLen : Nat) : Prop where
  enough : newModelLen ≤ s.occupied
  starts : (Clean.ofFirst s).cleanSize < newModelLen → (s.models.map ModelInfo.startAddr).Nodup
  nearest : (Clean.ofFirst s).HeadsNearest newModelLen s.supportedModelCnt

instance (s : State) (newModelLen : Nat) : Decidable (s.Cleanable newModelLen) :=
  decidable_of_iff (newModelLen ≤ s.occupied ∧
      ((Clean.ofFirst s).cleanSize < newModelLen → (s.models.map ModelInfo.startAddr).Nodup) ∧
      (Clean.ofFirst s).HeadsNearest newModelLen s.supportedModelCnt)
    ⟨fun h => ⟨h.1, h.2.1, h.2.2⟩, fun h => ⟨h.enough, h.starts, h.nearest⟩⟩

/-! ### The neighbours -/

namespace Clean

variable {n idx off : Nat}

/-- After `n` entries: the nearest model above. -/
def IsTail (c : Clean) (n idx off : Nat) : Prop :=
  idx = 0xFF ∧ off = 0xFFFFFFFF ∧ (∀ i, 0 < i → i ≤ n → ¬ c.addr < (c.table.modelInfo i).startAddr) ∨
    (0 < idx ∧ idx ≤ n) ∧ c.addr < (c.table.modelInfo idx).startAddr ∧
      off = (c.table.modelInfo idx).startAddr - c.addr ∧
      ∀ i, 0 < i → i ≤ n → c.addr < (c.table.modelInfo i).startAddr →
        (c.table.modelInfo idx).startAddr ≤ (c.table.modelInfo i).startAddr

/-- After `n` entries: a model below, with a distance that does not keep others from taking its place. -/
def IsHead (c : Clean) (n idx off : Nat) : Prop :=
  2 ^ 31 ≤ off ∧ (idx = 0xFF ∧ (∀ i, 0 < i → i ≤ n → ¬ (c.table.modelInfo i).startAddr < c.addr) ∨
    (0 < idx ∧ idx ≤ n) ∧ (c.table.modelInfo idx).startAddr < c.addr)

theorem forall_le_succ {P : Nat → Prop} (h : ∀ i, 0 < i → i ≤ n → P i) (hlast : P (n + 1)) :
    ∀ i, 0 < i → i ≤ n + 1 → P i := by
  intro i hpos hle
  rcases Nat.lt_or_eq_of_le hle with hlt | rfl
  · exact h i hpos (Nat.le_of_lt_succ hlt)
  · exact hlast

theorem IsTail.keep (h : c.IsTail n idx off)
    (hfar : c.addr < (c.table.modelInfo (n + 1)).startAddr → off ≤ (c.table.modelInfo (n + 1)).startAddr - c.addr)
    (hin : (c.table.modelInfo (n + 1)).startAddr < 0xFFFFFFFF) : c.IsTail (n + 1) idx off := by
  rcases h with ⟨hidx, hoff, hnone⟩ | ⟨⟨hpos, hle⟩, habove, hoff, hnear⟩
  · exact .inl ⟨hidx, hoff, forall_le_succ hnone fun hlt => by
      have := hfar hlt
      omega⟩
  · exact .inr ⟨⟨hpos, Nat.le_succ_of_le hle⟩, habove, hoff, forall_le_succ hnear fun hlt => by
      have := hfar hlt
      omega⟩

theorem IsTail.take (h : c.IsTail n idx off) (habove : c.addr < (c.table.modelInfo (n + 1)).startAddr)
    (hnearer : (c.table.modelInfo (n + 1)).startAddr - c.addr < off) :
    c.IsTail (n + 1) (n + 1) ((c.table.modelInfo (n + 1)).startAddr - c.addr) := by
  refine .inr ⟨⟨Nat.succ_pos n, Nat.le_refl _⟩, habove, rfl, ?_⟩
  apply forall_le_succ
  · intro i hpos hi hlt
    rcases h with ⟨_, _, hnone⟩ | ⟨_, _, hoff, hnear⟩
    · exact absurd hlt (hnone i hpos hi)
    · have := hnear i hpos hi hlt
      omega
  · intro _
    exact Nat.le_refl _

theorem IsHead.keep (h : c.IsHead n idx off) (hnot : ¬ (c.table.modelInfo (n + 1)).startAddr < c.addr) :
    c.IsHead (n + 1) idx off := by
  rcases h with ⟨hoff, ⟨hidx, hnone⟩ | ⟨⟨hpos, hle⟩, hbelow⟩⟩
  · exact ⟨hoff, .inl ⟨hidx, forall_le_succ hnone hnot⟩⟩
  · exact ⟨hoff, .inr ⟨⟨hpos, Nat.le_succ_of_le hle⟩, hbelow⟩⟩

def InFlash (addr : Nat) : Prop := 0x28000000 ≤ addr ∧ addr < 0x28000000 + 2 ^ 24

theorem lookAt_spec {a : Adjacent} (haddr : InFlash c.addr) (hmodel : InFlash (c.table.modelInfo (n + 1)).startAddr)
    (htail : c.IsTail n a.tailAdjacentIdx a.tailAdjacentOffset)
    (hhead : c.IsHead n a.headAdjacentIdx a.headAdjacentOffset) :
    c.IsTail (n + 1) (c.lookAt a (n + 1)).tailAdjacentIdx (c.lookAt a (n + 1)).tailAdjacentOffset ∧
      c.IsHead (n + 1) (c.lookAt a (n + 1)).headAdjacentIdx (c.lookAt a (n + 1)).headAdjacentOffset := by
  obtain ⟨hlo, hhi⟩ := haddr
  obtain ⟨hmlo, hmhi⟩ := hmodel
  have hin : (c.table.modelInfo (n + 1)).startAddr < 0xFFFFFFFF := by omega
  rw [lookAt]
  rcases Nat.lt_trichotomy c.addr (c.table.modelInfo (n + 1)).startAddr with habove | hsame | hbelow
  · have hdist : sub32 (c.table.modelInfo (n + 1)).startAddr c.addr = (c.table.modelInfo (n + 1)).startAddr - c.addr :=
      sub32_eq (Nat.le_of_lt habove) (by omega)
    have hhead' := hhead.keep (Nat.lt_asymm habove)
    simp only [if_pos habove, hdist]
    by_cases hnearer : (c.table.modelInfo (n + 1)).startAddr - c.addr < a.tailAdjacentOffset
    · rw [if_pos hnearer]
      exact ⟨htail.take habove hnearer, hhead'⟩
    · rw [if_neg hnearer]
      exact ⟨htail.keep (fun _ => Nat.le_of_not_lt hnearer) hin, hhead'⟩
  · have hne : ¬ c.addr < (c.table.modelInfo (n + 1)).startAddr := hsame ▸ Nat.lt_irrefl _
    have hne' : ¬ (c.table.modelInfo (n + 1)).startAddr < c.addr := hsame ▸ Nat.lt_irrefl _
    simp only [if_neg hne, if_neg hne']
    exact ⟨htail.keep (fun hlt => absurd hlt hne) hin, hhead.keep hne'⟩
  · have hdist : sub32 c.addr (c.table.modelInfo (n + 1)).startAddr < 2 ^ 31 := by
      rw [sub32_eq (Nat.le_of_lt hbelow) (by omega)]
      omega
    have hwrong : 2 ^ 31 ≤ sub32 (c.table.modelInfo (n + 1)).startAddr c.addr := by
      rw [sub32_wrap hbelow (by omega)]
      omega
    simp only [if_neg (Nat.lt_asymm hbelow), if_pos hbelow, if_pos (Nat.lt_of_lt_of_le hdist hhead.1)]
    exact ⟨htail.keep (fun hlt => absurd hlt (Nat.lt_asymm hbelow)) hin,
      hwrong, .inr ⟨⟨Nat.succ_pos n, Nat.le_refl _⟩, hbelow⟩⟩

theorem adjacent_spec (haddr : InFlash c.addr)
    (hmodels : ∀ i ∈ c.table.indices, InFlash (c.table.modelInfo i).startAddr) :
    c.IsTail (c.table.supportedModelCnt - 1) c.adjacent.tailAdjacentIdx c.adjacent.tailAdjacentOffset ∧
      c.IsHead (c.table.supportedModelCnt - 1) c.adjacent.headAdjacentIdx c.adjacent.headAdjacentOffset := by
  have hall : ∀ n ≤ c.table.supportedModelCnt - 1,
      let a := (List.range' 1 n).foldl c.lookAt ⟨0xFF, 0xFF, 0xFFFFFFFF, 0xFFFFFFFF⟩
      c.IsTail n a.tailAdjacentIdx a.tailAdjacentOffset ∧ c.IsHead n a.headAdjacentIdx a.headAdjacentOffset := by
    intro n
    induction n with
    | zero =>
        intro _
        exact ⟨.inl ⟨rfl, rfl, fun i hpos hle => absurd hpos (Nat.not_lt.mpr hle)⟩,
          (by decide : 2 ^ 31 ≤ 0xFFFFFFFF), .inl ⟨rfl, fun i hpos hle => absurd hpos (Nat.not_lt.mpr hle)⟩⟩
    | succ n ih =>
        intro hn
        obtain ⟨htail, hhead⟩ := ih (Nat.le_of_succ_le hn)
        have hmodel := hmodels (n + 1) (State.mem_indices.mpr ⟨Nat.succ_pos n, by omega⟩)
        rw [List.range'_1_concat, List.foldl_append, Nat.add_comm 1 n]
        exact lookAt_spec haddr hmodel htail hhead
  exact hall _ (Nat.le_refl _)

/-! ### The space cleaned -/

/-- The space cleaned is free. -/
structure Space (sec : FlashSection) (c : Clean) : Prop where
  stored : c.table.Stored sec
  aligned : c.addr % 0x1000 = 0
  size_mod : c.cleanSize % 0x1000 = 0
  start_le : sec.start ≤ c.addr
  free : ∃ free : Extent Nat, free.lo = c.addr ∧ c.addr + c.cleanSize ≤ free.hi ∧ free.hi ≤ sec.stop ∧
    ∀ m ∈ c.table.models, free.Apart m.extent

/-- No other model begins where it does; with the models left it makes up `total`. -/
structure Cleaning (sec : FlashSection) (total : Nat) (c : Clean) : Prop extends Space sec c where
  starts : (c.addr :: c.table.models.map ModelInfo.startAddr).Nodup
  total : c.cleanSize + c.table.occupied = total

theorem occupied_remove {k : Nat} (hk : k ∈ s.indices) (hle : s.supportedModelCnt ≤ hotwordModleMaxNum) :
    s.occupied = (s.modelInfo k).cleanSize + (s.remove k).occupied := by
  have hperm := (State.models_remove hk hle).map ModelInfo.cleanSize
  rw [State.occupied, ← hperm.sum_nat, List.map_cons, List.sum_cons]
  rfl

theorem modelInfo_inside (h : s.Stored sec) {k : Nat} (hk : k ∈ s.indices) : (s.modelInfo k).Inside sec :=
  h.inside _ (State.mem_models (State.mem_indices.mp hk).1 (State.mem_indices.mp hk).2)

theorem inFlash_of_inside {m : ModelInfo} (h : m.Inside sec) : InFlash m.startAddr :=
  ⟨Nat.le_trans sec.le_start h.start_le, Nat.lt_of_le_of_lt h.startAddr_le sec.stop_lt⟩

namespace Cleaning

variable {k : Nat}

theorem starts_removed (h : Cleaning sec total c) (hk : k ∈ c.table.indices) :
    (c.addr :: (c.table.modelInfo k).startAddr :: (c.table.remove k).models.map ModelInfo.startAddr).Nodup := by
  have hperm := (State.models_remove hk h.stored.cnt_le).map ModelInfo.startAddr
  exact (hperm.cons c.addr).nodup_iff.mpr h.starts

/-- A model is taken out and the space grows to a free extent with its sectors. -/
theorem grow (h : Cleaning sec total c) (hk : k ∈ c.table.indices) {addr : Nat} (free : Extent Nat)
    (hlo : free.lo = addr) (hfits : addr + (c.cleanSize + sectors (c.table.modelInfo k).len) ≤ free.hi)
    (hstop : free.hi ≤ sec.stop) (hapart : ∀ m ∈ (c.table.remove k).models, free.Apart m.extent)
    (haddr : addr = c.addr ∨ addr = (c.table.modelInfo k).startAddr) :
    Cleaning sec total ⟨c.table.remove k, addr, add32 c.cleanSize (c.table.modelInfo k).cleanSize⟩ := by
  have hinside := modelInfo_inside h.stored hk
  have hlt := sec.stop_lt
  have hsize : add32 c.cleanSize (c.table.modelInfo k).cleanSize =
      c.cleanSize + sectors (c.table.modelInfo k).len := by
    rw [hinside.cleanSize_eq]
    exact add32_eq (by omega)
  have hstarts := h.starts_removed hk
  rw [hsize]
  refine ⟨⟨h.stored.remove hk, ?_, ?_, ?_, free, hlo, hfits, hstop, hapart⟩, ?_, ?_⟩
  · rcases haddr with rfl | rfl
    · exact h.aligned
    · exact hinside.aligned
  · have hmod := h.size_mod
    have hmod' := sectors_mod (c.table.modelInfo k).len
    change (c.cleanSize + sectors _) % 0x1000 = 0
    omega
  · rcases haddr with rfl | rfl
    · exact h.start_le
    · exact hinside.start_le
  · rcases haddr with rfl | rfl
    · exact hstarts.sublist ((List.sublist_cons_self _ _).cons_cons _)
    · exact (List.nodup_cons.mp hstarts).2
  · have htotal := h.total
    rw [occupied_remove hk h.stored.cnt_le, hinside.cleanSize_eq] at htotal
    change c.cleanSize + sectors _ + (c.table.remove k).occupied = total
    omega

/-- The models left are elsewhere than the one taken out and the space cleaned. -/
theorem startAddr_ne (h : Cleaning sec total c) (hk : k ∈ c.table.indices) {m : ModelInfo}
    (hm : m ∈ (c.table.remove k).models) :
    m.startAddr ≠ c.addr ∧ m.startAddr ≠ (c.table.modelInfo k).startAddr := by
  have hstarts := h.starts_removed hk
  have hmem := List.mem_map_of_mem (f := ModelInfo.startAddr) hm
  rw [List.nodup_cons, List.nodup_cons] at hstarts
  constructor
  · intro heq
    exact hstarts.1 (List.mem_cons_of_mem _ (heq ▸ hmem))
  · intro heq
    exact hstarts.2.1 (heq ▸ hmem)

theorem mem_of_remove (h : Cleaning sec total c) (hk : k ∈ c.table.indices) {m : ModelInfo}
    (hm : m ∈ (c.table.remove k).models) : m ∈ c.table.models :=
  (State.models_remove hk h.stored.cnt_le).subset (List.mem_cons_of_mem _ hm)

theorem exists_index {m : ModelInfo} (hm : m ∈ s.models) : ∃ i ∈ s.indices, s.modelInfo i = m :=
  List.mem_map.mp hm

theorem tail (h : Cleaning sec total c) (hk : k ∈ c.table.indices) (habove : c.addr < (c.table.modelInfo k).startAddr)
    (hnear : ∀ i ∈ c.table.indices, c.addr < (c.table.modelInfo i).startAddr →
      (c.table.modelInfo k).startAddr ≤ (c.table.modelInfo i).startAddr) :
    Cleaning sec total ⟨c.table.remove k, c.addr, add32 c.cleanSize (c.table.modelInfo k).cleanSize⟩ := by
  obtain ⟨free, hlo, hfits, hstop, hapart⟩ := h.free
  have hinside := modelInfo_inside h.stored hk
  have hlt : free.lo < (c.table.modelInfo k).extent.lo := hlo ▸ habove
  have hmem := State.mem_models (State.mem_indices.mp hk).1 (State.mem_indices.mp hk).2
  have hbefore : free.hi ≤ (c.table.modelInfo k).startAddr := (hapart _ hmem).hi_le_lo hlt
  refine h.grow hk (free.join (c.table.modelInfo k).extent (Nat.le_of_lt (Nat.lt_of_lt_of_le hlt (Extent.le _))))
    hlo ?_ hinside.le_stop (fun m hm => ?_) (.inl rfl)
  · change _ ≤ (c.table.modelInfo k).startAddr + sectors (c.table.modelInfo k).len
    omega
  · obtain ⟨hne, hne'⟩ := h.startAddr_ne hk hm
    have hmold := h.mem_of_remove hk hm
    refine Extent.apart_join_above hlt (hapart m hmold) (h.stored.apart_removed hk m hm) (hlo ▸ hne) hne' fun hm' => ?_
    obtain ⟨i, hi, rfl⟩ := exists_index hmold
    exact hnear i hi (hlo ▸ hm')

theorem head (h : Cleaning sec total c) (hk : k ∈ c.table.indices) (hbelow : (c.table.modelInfo k).startAddr < c.addr)
    (hnear : ∀ i ∈ c.table.indices, (c.table.modelInfo i).startAddr < c.addr →
      (c.table.modelInfo i).startAddr ≤ (c.table.modelInfo k).startAddr) :
    Cleaning sec total ⟨c.table.remove k, (c.table.modelInfo k).startAddr,
      add32 c.cleanSize (c.table.modelInfo k).cleanSize⟩ := by
  obtain ⟨free, hlo, hfits, hstop, hapart⟩ := h.free
  have hlt : (c.table.modelInfo k).extent.lo < free.lo := hlo ▸ hbelow
  have hmem := State.mem_models (State.mem_indices.mp hk).1 (State.mem_indices.mp hk).2
  have hbefore : (c.table.modelInfo k).startAddr + sectors (c.table.modelInfo k).len ≤ free.lo :=
    (hapart _ hmem).symm.hi_le_lo hlt
  refine h.grow hk ((c.table.modelInfo k).extent.join free (Nat.le_of_lt (Nat.lt_of_lt_of_le hlt free.le)))
    rfl ?_ hstop (fun m hm => ?_) (.inr rfl)
  · change _ ≤ free.hi
    omega
  · obtain ⟨hne, hne'⟩ := h.startAddr_ne hk hm
    have hmold := h.mem_of_remove hk hm
    refine Extent.apart_join_below hlt (hapart m hmold) (h.stored.apart_removed hk m hm) (hlo ▸ hne) hne' fun hm' => ?_
    obtain ⟨i, hi, rfl⟩ := exists_index hmold
    exact hnear i hi (hlo ▸ hm')

/-! ### The rounds -/

theorem exists_model (h : Cleaning sec total c) (hless : c.cleanSize < total) : ∃ k, k ∈ c.table.indices := by
  cases hindices : c.table.indices with
  | nil =>
      have htotal := h.total
      rw [State.occupied, State.models, hindices, List.map_nil, List.map_nil, List.sum_nil] at htotal
      omega
  | cons k rest => exact ⟨k, List.mem_cons_self⟩

theorem inFlash (h : Cleaning sec total c) : InFlash c.addr := by
  obtain ⟨free, hlo, hfits, hstop, -⟩ := h.free
  have hlt := sec.stop_lt
  have hbase := sec.le_start
  have hstart := h.start_le
  exact ⟨by omega, by omega⟩

theorem round (h : Cleaning sec total c) (hless : c.cleanSize < total) (hnearest : c.HeadNearest) :
    ∃ c', c.round = some c' ∧ Cleaning sec total c' ∧
      c'.table.supportedModelCnt = c.table.supportedModelCnt - 1 ∧
      ∀ modelId, c.table.find modelId = none → c'.table.find modelId = none := by
  obtain ⟨htail, hoff, hhead⟩ := adjacent_spec h.inFlash fun i hi => inFlash_of_inside (modelInfo_inside h.stored hi)
  have hcnt := h.stored.cnt_le
  rw [hotwordModleMaxNum] at hcnt
  have hindex : ∀ k, 0 < k ∧ k ≤ c.table.supportedModelCnt - 1 → k ∈ c.table.indices := fun k hk =>
    State.mem_indices.mpr ⟨hk.1, by omega⟩
  have hrange : ∀ i ∈ c.table.indices, 0 < i ∧ i ≤ c.table.supportedModelCnt - 1 := fun i hi => by
    have := State.mem_indices.mp hi
    omega
  have hremoved : ∀ k, (c.table.remove k).supportedModelCnt = c.table.supportedModelCnt - 1 := fun k =>
    State.cnt_remove h.stored.cnt_pos h.stored.cnt_le
  rw [Clean.round]
  by_cases hside : c.adjacent.tailAdjacentIdx < c.adjacent.headAdjacentIdx
  · -- the older neighbour is above
    rcases htail with ⟨hnone, -, -⟩ | ⟨hk, habove, -, hnear⟩
    · rcases hhead with ⟨hidx, -⟩ | ⟨hidx, -⟩
      · omega
      · omega
    · have hgrown := h.tail (hindex _ hk) habove fun i hi => hnear i (hrange i hi).1 (hrange i hi).2
      have hmax : c.adjacent.tailAdjacentIdx < hotwordModleMaxNum := by
        rw [hotwordModleMaxNum]
        omega
      simp only [if_pos hside, if_pos hmax]
      exact ⟨_, rfl, hgrown, hremoved _, fun modelId => State.find_remove h.stored.cnt_le⟩
  · rcases hhead with ⟨hidx, hnohead⟩ | ⟨hk, hbelow⟩
    · -- there is none below, so there is one above
      obtain ⟨k, hk⟩ := h.exists_model hless
      have hmem := List.mem_map_of_mem (f := ModelInfo.startAddr)
        (State.mem_models (State.mem_indices.mp hk).1 (State.mem_indices.mp hk).2)
      have hne : (c.table.modelInfo k).startAddr ≠ c.addr := fun heq =>
        (List.nodup_cons.mp h.starts).1 (heq ▸ hmem)
      obtain ⟨hpos, hle⟩ := hrange k hk
      have hnotbelow := hnohead k hpos hle
      rcases htail with ⟨-, -, hnotail⟩ | ⟨hk', -⟩
      · have hnotabove := hnotail k hpos hle
        omega
      · omega
    · have hgrown := h.head (hindex _ hk) hbelow (hnearest (Nat.le_of_not_lt hside))
      have hmax : c.adjacent.headAdjacentIdx < hotwordModleMaxNum := by
        rw [hotwordModleMaxNum]
        omega
      simp only [if_neg hside, if_pos hmax]
      exact ⟨_, rfl, hgrown, hremoved _, fun modelId => State.find_remove h.stored.cnt_le⟩

theorem rounds (h : Cleaning sec total c) (henough : newModelLen ≤ total) {n : Nat}
    (hn : c.table.supportedModelCnt ≤ n + 1) (hnearest : c.HeadsNearest newModelLen n) :
    ∃ c', c.rounds newModelLen n = some c' ∧ Cleaning sec total c' ∧ newModelLen ≤ c'.cleanSize ∧
      c'.table.supportedModelCnt ≤ c.table.supportedModelCnt ∧
      ∀ modelId, c.table.find modelId = none → c'.table.find modelId = none := by
  induction n generalizing c with
  | zero =>
      have hdone : ¬ c.cleanSize < newModelLen := by
        intro hless
        obtain ⟨k, hk⟩ := h.exists_model (Nat.lt_of_lt_of_le hless henough)
        have := State.mem_indices.mp hk
        omega
      exact ⟨c, if_neg hdone, h, Nat.le_of_not_lt hdone, Nat.le_refl _, fun _ hfind => hfind⟩
  | succ n ih =>
      rw [Clean.rounds]
      by_cases hless : c.cleanSize < newModelLen
      · obtain ⟨hhead, hrest⟩ := hnearest hless
        obtain ⟨c', hround, hc', hcnt, hfind⟩ := h.round (Nat.lt_of_lt_of_le hless henough) hhead
        obtain ⟨d, hd, hdclean, hdsize, hdcnt, hdfind⟩ := ih hc' (by omega) (hrest c' hround)
        rw [if_pos hless, hround]
        exact ⟨d, hd, hdclean, hdsize, by omega, fun modelId hnone => hdfind modelId (hfind modelId hnone)⟩
      · rw [if_neg hless]
        exact ⟨c, rfl, h, Nat.le_of_not_lt hless, Nat.le_refl _, fun _ hfind => hfind⟩

end Cleaning

theorem rounds_of_le (h : newModelLen ≤ c.cleanSize) (n : Nat) : c.rounds newModelLen n = some c := by
  cases n with
  | zero => exact if_neg (Nat.not_lt.mpr h)
  | succ n => exact if_neg (Nat.not_lt.mpr h)

theorem space_ofFirst (h : s.Stored sec) (hk : defaultModelNum ∈ s.indices) : Space sec (ofFirst s) := by
  have hinside := modelInfo_inside h hk
  refine ⟨h.remove hk, hinside.aligned, ?_, hinside.start_le,
    (s.modelInfo defaultModelNum).extent, rfl, ?_, hinside.le_stop, h.apart_removed hk⟩
  · change (s.modelInfo defaultModelNum).cleanSize % 0x1000 = 0
    rw [hinside.cleanSize_eq]
    exact sectors_mod _
  · change (s.modelInfo defaultModelNum).startAddr + (s.modelInfo defaultModelNum).cleanSize ≤ _
    rw [hinside.cleanSize_eq]
    exact Nat.le_refl _

theorem cleaning_ofFirst (h : s.Stored sec) (hk : defaultModelNum ∈ s.indices)
    (hstarts : (s.models.map ModelInfo.startAddr).Nodup) : Cleaning sec s.occupied (ofFirst s) where
  toSpace := space_ofFirst h hk
  starts := ((State.models_remove hk h.cnt_le).map ModelInfo.startAddr).nodup_iff.mpr hstarts
  total := (occupied_remove hk h.cnt_le).symm

theorem rounds_ofFirst (h : s.Stored sec) (hcnt : 1 < s.supportedModelCnt) (hclean : s.Cleanable newModelLen) :
    ∃ c, (ofFirst s).rounds newModelLen s.supportedModelCnt = some c ∧ Space sec c ∧ newModelLen ≤ c.cleanSize ∧
      c.table.supportedModelCnt < s.supportedModelCnt ∧
      ∀ modelId, s.find modelId = none → c.table.find modelId = none := by
  have hk : defaultModelNum ∈ s.indices := State.mem_indices.mpr ⟨Nat.one_pos, hcnt⟩
  have hremoved : (ofFirst s).table.supportedModelCnt = s.supportedModelCnt - 1 :=
    State.cnt_remove h.cnt_pos h.cnt_le
  have hfirst : ∀ modelId, s.find modelId = none → (ofFirst s).table.find modelId = none :=
    fun modelId => State.find_remove h.cnt_le
  by_cases hless : (ofFirst s).cleanSize < newModelLen
  · obtain ⟨c, hrounds, hspace, hsize, hle, hfind⟩ :=
      (cleaning_ofFirst h hk (hclean.starts hless)).rounds hclean.enough (by omega) hclean.nearest
    exact ⟨c, hrounds, hspace.toSpace, hsize, by omega, fun modelId hnone => hfind modelId (hfirst modelId hnone)⟩
  · exact ⟨ofFirst s, rounds_of_le (Nat.le_of_not_lt hless) _, space_ofFirst h hk, Nat.le_of_not_lt hless,
      by omega, hfirst⟩

/-! ### The oldest model is the lowest -/

/-- No model lies below the space cleaned. -/
structure Lowest (sec : FlashSection) (c : Clean) : Prop where
  stored : c.table.Stored sec
  inFlash : InFlash c.addr
  le : ∀ m ∈ c.table.models, c.addr ≤ m.startAddr

theorem Lowest.round (h : Lowest sec c) {c' : Clean} (hround : c.round = some c') :
    c.adjacent.headAdjacentIdx = 0xFF ∧ ∃ k ∈ c.table.indices, k = c.adjacent.tailAdjacentIdx ∧
      (∀ i ∈ c.table.indices, c.addr < (c.table.modelInfo i).startAddr →
        (c.table.modelInfo k).startAddr ≤ (c.table.modelInfo i).startAddr) ∧
      c' = ⟨c.table.remove k, c.addr, add32 c.cleanSize (c.table.modelInfo k).cleanSize⟩ := by
  have hcnt := h.stored.cnt_le
  rw [hotwordModleMaxNum] at hcnt
  have hrange : ∀ i, i ∈ c.table.indices ↔ 0 < i ∧ i ≤ c.table.supportedModelCnt - 1 := fun i => by
    rw [State.mem_indices]
    omega
  obtain ⟨htail, -, hhead⟩ := adjacent_spec h.inFlash fun i hi => inFlash_of_inside (modelInfo_inside h.stored hi)
  have hnone : c.adjacent.headAdjacentIdx = 0xFF := by
    rcases hhead with ⟨hnone, -⟩ | ⟨hidx, hbelow⟩
    · exact hnone
    · have hmem := (hrange _).mpr hidx
      have hle := h.le _ (State.mem_models (State.mem_indices.mp hmem).1 (State.mem_indices.mp hmem).2)
      exact absurd hbelow (Nat.not_lt.mpr hle)
  refine ⟨hnone, c.adjacent.tailAdjacentIdx, ?_⟩
  rw [Clean.round, hnone] at hround
  rcases htail with ⟨hidx, -⟩ | ⟨hidx, -, -, hnear⟩
  · rw [hidx] at hround
    cases hround
  · have hless : c.adjacent.tailAdjacentIdx < 0xFF := by omega
    have hmax : c.adjacent.tailAdjacentIdx < hotwordModleMaxNum := by
      rw [hotwordModleMaxNum]
      omega
    simp only [if_pos hless, if_pos hmax, Option.some.injEq] at hround
    exact ⟨(hrange _).mpr hidx, rfl, fun i hi => hnear i ((hrange i).mp hi).1 ((hrange i).mp hi).2, hround.symm⟩

theorem Lowest.rounded (h : Lowest sec c) {c' : Clean} (hround : c.round = some c') : Lowest sec c' := by
  obtain ⟨-, k, hk, -, -, rfl⟩ := h.round hround
  exact ⟨h.stored.remove hk, h.inFlash, fun m hm =>
    h.le m ((State.models_remove hk h.stored.cnt_le).subset (List.mem_cons_of_mem _ hm))⟩

/-- As long as the oldest model is the lowest, none is taken out below. -/
theorem Lowest.headsNearest (h : Lowest sec c) (n : Nat) : c.HeadsNearest newModelLen n := by
  induction n generalizing c with
  | zero => trivial
  | succ n ih =>
      refine fun _ => ⟨fun _ i hi hbelow => ?_, fun c' hc' => ih (h.rounded hc')⟩
      have hle := h.le _ (State.mem_models (State.mem_indices.mp hi).1 (State.mem_indices.mp hi).2)
      exact absurd hbelow (Nat.not_lt.mpr hle)

theorem lowest_ofFirst (h : s.Stored sec) (hk : defaultModelNum ∈ s.indices)
    (hlow : ∀ m ∈ s.models, (s.modelInfo defaultModelNum).startAddr ≤ m.startAddr) : Lowest sec (ofFirst s) :=
  ⟨h.remove hk, inFlash_of_inside (modelInfo_inside h hk), fun m hm =>
    hlow m ((State.models_remove hk h.cnt_le).subset (List.mem_cons_of_mem _ hm))⟩

end Clean

/-- On a table whose oldest model begins below all others, space can be made if there are models enough. -/
theorem State.Stored.cleanable (h : s.Stored sec) (hcnt : 1 < s.supportedModelCnt) (henough : newModelLen ≤ s.occupied)
    (hstarts : (s.models.map ModelInfo.startAddr).Nodup)
    (hlow : ∀ m ∈ s.models, (s.modelInfo defaultModelNum).startAddr ≤ m.startAddr) : s.Cleanable newModelLen where
  enough := henough
  starts _ := hstarts
  nearest := (Clean.lowest_ofFirst h (State.mem_indices.mpr ⟨Nat.one_pos, hcnt⟩) hlow).headsNearest _

end Best1307.NvHotword
