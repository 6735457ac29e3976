import Best1307.NvRecord.HotwordUpdates

/-!
# What becomes of a hotword model

Models are looked for in the whole table, but only the entries up to the count are kept in order. When a model is taken
out, the last one stays behind the new count, and a model that was the last one is still found there.
-/

namespace Best1307.NvHotword

variable {sec : FlashSection} {s t : State} {k : Nat} {id : ModelId}

namespace State

def listed (s : State) : List ModelInfo :=
  if s.supportedModelCnt = invalidModelNum then [] else (List.range s.supportedModelCnt).map s.modelInfo

def ids (s : State) : List ModelId := s.listed.map ModelInfo.modelId

end State

/-! ### Calls -/

inductive Call where
  | getAddr (modelId : ModelId) (addNew : Bool) (newModelLen : Nat)
  | addModel (info : ModelInfo)
  deriving DecidableEq, Repr

/-- The table, and the ids of the models that requests have taken out and that have not been added since. -/
structure History where
  table : State
  evicted : List ModelId

namespace History

variable (sec : FlashSection) (h : History)

def step : Call → Option History
  | .getAddr modelId addNew newModelLen =>
      (h.table.getHotwordModelAddr sec modelId addNew newModelLen).map fun given =>
        ⟨given.2, h.evicted ++ h.table.ids.filter (· ∉ given.2.ids)⟩
  | .addModel info =>
      some ⟨(h.table.addNewModel info).1,
        if (h.table.addNewModel info).2 then h.evicted.filter (· ≠ info.modelId) else h.evicted⟩

def init : History := ⟨State.init sec, []⟩

/-- The count is one of the table, no id is listed twice, and no evicted model is found. -/
structure Sound (h : History) : Prop where
  counted : h.table.supportedModelCnt = invalidModelNum ∨ h.table.supportedModelCnt ≤ hotwordModleMaxNum
  distinct : h.table.ids.Nodup
  gone : ∀ id ∈ h.evicted, h.table.find id = none

/-- What a call leaves: a model that is added is listed with its address and its length, and every other one that is
still listed keeps its own. -/
structure Keeps (h : History) (c : Call) (h' : History) : Prop where
  added : ∀ info, c = .addModel info → (h.table.addNewModel info).2 = true →
    ⟨info.modelId, info.startAddr ||| otaFlashLogicAddr, info.len⟩ ∈ h'.table.listed
  kept : ∀ m ∈ h.table.listed, m.modelId ∈ h'.table.ids →
    (∀ info, c = .addModel info → info.modelId ≠ m.modelId) → m ∈ h'.table.listed

/-- The call ends, and leaves the table as it should be. -/
def Meets (c : Call) : Prop := ∃ h', h.step sec c = some h' ∧ h'.Sound ∧ h.Keeps c h'

end History

/-! ### Copies -/

namespace State

/-- The entry is not the last one listed, and its id is at no other place of the table. -/
def Unique (s : State) (k : Nat) : Prop :=
  k + 1 < s.supportedModelCnt ∧ ∀ j < hotwordModleMaxNum, j ≠ k → (s.modelInfo j).modelId ≠ (s.modelInfo k).modelId

instance : Decidable (s.Unique k) := inferInstanceAs (Decidable (_ ∧ _))

end State

namespace Clean

/-- The entry that a round takes out. -/
def cleanIdx (c : Clean) : Nat :=
  if c.adjacent.tailAdjacentIdx < c.adjacent.headAdjacentIdx then c.adjacent.tailAdjacentIdx
  else c.adjacent.headAdjacentIdx

/-- Every round of the loop takes out a model of which there is no copy. -/
def Clears (newModelLen : Nat) : Nat → Clean → Prop
  | 0, c => newModelLen ≤ c.cleanSize
  | n + 1, c => newModelLen ≤ c.cleanSize ∨
      c.table.Unique c.cleanIdx ∧ ∃ c', c.round = some c' ∧ c'.Clears newModelLen n

instance Clears.decidable (newModelLen : Nat) : (n : Nat) → (c : Clean) → Decidable (c.Clears newModelLen n)
  | 0, c => inferInstanceAs (Decidable (newModelLen ≤ c.cleanSize))
  | n + 1, c =>
      match h : c.round with
      | none => decidable_of_iff (newModelLen ≤ c.cleanSize)
          (by simp only [Clears, h, reduceCtorEq, false_and, exists_false, and_false, or_false])
      | some c' =>
          have : Decidable (c'.Clears newModelLen n) := Clears.decidable newModelLen n c'
          decidable_of_iff (newModelLen ≤ c.cleanSize ∨ c.table.Unique c.cleanIdx ∧ c'.Clears newModelLen n)
            (by simp only [Clears, h, Option.some.injEq, exists_eq_left'])

end Clean

namespace State

def ClearsFor (s : State) (newModelLen : Nat) : Prop :=
  s.Unique defaultModelNum ∧ (Clean.ofFirst s).Clears newModelLen s.supportedModelCnt

instance (newModelLen : Nat) : Decidable (s.ClearsFor newModelLen) := inferInstanceAs (Decidable (_ ∧ _))

/-- A model with the id that is found is listed, and has the length. -/
def Fits (s : State) (info : ModelInfo) : Prop :=
  ∀ i ∈ s.find info.modelId, i < s.supportedModelCnt ∧ (s.modelInfo i).len = info.len

instance (info : ModelInfo) : Decidable (s.Fits info) := inferInstanceAs (Decidable (∀ i ∈ _, _))

end State

/-- The call meets no copy behind the models that are listed, and leaves none. -/
def History.Plain (sec : FlashSection) (h : History) : Call → Prop
  | .getAddr modelId addNew newModelLen =>
      h.table.find modelId = none → addNew = true → h.table.NeedsClean sec newModelLen → h.table.ClearsFor newModelLen
  | .addModel info => h.table.supportedModelCnt < hotwordModleMaxNum → h.table.Fits info

instance (sec : FlashSection) (h : History) : (c : Call) → Decidable (h.Plain sec c)
  | .getAddr .. => inferInstanceAs (Decidable (_ → _ → _ → _))
  | .addModel _ => inferInstanceAs (Decidable (_ → _))

/-! ### The entries -/

namespace State

/-- The table is that of a device that has started. -/
structure Proper (s : State) : Prop where
  cnt_pos : 0 < s.supportedModelCnt
  cnt_le : s.supportedModelCnt ≤ hotwordModleMaxNum
  distinct : ∀ i < s.supportedModelCnt, ∀ j < s.supportedModelCnt,
    (s.modelInfo i).modelId = (s.modelInfo j).modelId → i = j

theorem cnt_ne_invalid_of_le (hle : s.supportedModelCnt ≤ hotwordModleMaxNum) : s.supportedModelCnt ≠ invalidModelNum :=
  Nat.ne_of_lt (Nat.lt_of_le_of_lt hle (by decide))

theorem mem_listed (hle : s.supportedModelCnt ≤ hotwordModleMaxNum) {m : ModelInfo} :
    m ∈ s.listed ↔ ∃ i < s.supportedModelCnt, s.modelInfo i = m := by
  rw [listed, if_neg (cnt_ne_invalid_of_le hle), List.mem_map]
  simp only [List.mem_range]

theorem mem_ids (hle : s.supportedModelCnt ≤ hotwordModleMaxNum) :
    id ∈ s.ids ↔ ∃ i < s.supportedModelCnt, (s.modelInfo i).modelId = id := by
  rw [ids, List.mem_map]
  constructor
  · intro h
    obtain ⟨m, hm, hid⟩ := h
    obtain ⟨i, hi, hmodel⟩ := (mem_listed hle).mp hm
    exact ⟨i, hi, hmodel.symm ▸ hid⟩
  · intro h
    obtain ⟨i, hi, hid⟩ := h
    exact ⟨s.modelInfo i, (mem_listed hle).mpr ⟨i, hi, rfl⟩, hid⟩

theorem Proper.ids_nodup (h : s.Proper) : s.ids.Nodup := by
  rw [ids, listed, if_neg (cnt_ne_invalid_of_le h.cnt_le), List.map_map]
  refine List.Nodup.map_on (fun i hi j hj => ?_) List.nodup_range
  exact h.distinct i (List.mem_range.mp hi) j (List.mem_range.mp hj)

theorem Proper.find_ne_none (h : s.Proper) (hid : id ∈ s.ids) : s.find id ≠ none := by
  obtain ⟨i, hi, hmodel⟩ := (mem_ids h.cnt_le).mp hid
  intro hnone
  exact find_eq_none_iff.mp hnone i (Nat.lt_of_lt_of_le hi h.cnt_le) hmodel

theorem lt_of_find_eq_some {i j : Nat} (h : s.find id = some i) (hj : j < i) : (s.modelInfo j).modelId ≠ id := by
  rw [find, List.find?_range_eq_some] at h
  intro hid
  have hnot := h.2.2 j hj
  rw [decide_eq_true hid] at hnot
  exact absurd hnot (by decide)

/-! ### Taking an entry out -/

theorem modelInfo_remove (i : Nat) : (s.remove k).modelInfo i =
    if k ≤ i ∧ i + 1 < s.supportedModelCnt then s.modelInfo (i + 1) else s.modelInfo i := rfl

theorem modelInfo_remove_behind {i : Nat} (hi : s.supportedModelCnt ≤ i + 1) :
    (s.remove k).modelInfo i = s.modelInfo i := by
  rw [modelInfo_remove, if_neg (fun h => Nat.not_lt.mpr hi h.2)]

theorem modelInfo_remove_listed {i : Nat} (hi : i + 1 < s.supportedModelCnt) :
    ∃ j < s.supportedModelCnt, j ≠ k ∧ (j = i ∧ i < k ∨ j = i + 1 ∧ k ≤ i) ∧
      (s.remove k).modelInfo i = s.modelInfo j := by
  rw [modelInfo_remove]
  by_cases hle : k ≤ i
  · exact ⟨i + 1, hi, by omega, .inr ⟨rfl, hle⟩, if_pos ⟨hle, hi⟩⟩
  · exact ⟨i, by omega, by omega, .inl ⟨rfl, by omega⟩, if_neg fun h => hle h.1⟩

theorem exists_modelInfo_remove (hk : k < s.supportedModelCnt) {j : Nat} (hj : j < s.supportedModelCnt) (hne : j ≠ k) :
    ∃ i, i + 1 < s.supportedModelCnt ∧ (s.remove k).modelInfo i = s.modelInfo j := by
  by_cases hlt : j < k
  · exact ⟨j, by omega, if_neg fun h => absurd h.1 (by omega)⟩
  · have hbelow := Nat.lt_of_le_of_ne (Nat.not_lt.mp hlt) (Ne.symm hne)
    obtain ⟨i, rfl⟩ := Nat.exists_eq_add_of_lt (Nat.zero_lt_of_lt hbelow)
    rw [Nat.zero_add] at *
    exact ⟨i, hj, if_pos ⟨by omega, hj⟩⟩

theorem Proper.remove (h : s.Proper) (hmore : 1 < s.supportedModelCnt) :
    (s.remove k).Proper := by
  have hcnt := cnt_remove (k := k) h.cnt_pos h.cnt_le
  refine ⟨by omega, by have := h.cnt_le; omega, fun i hi j hj hid => ?_⟩
  obtain ⟨i', hi', -, hplace, hmodel⟩ := modelInfo_remove_listed (k := k) (s := s) (i := i) (by omega)
  obtain ⟨j', hj', -, hplace', hmodel'⟩ := modelInfo_remove_listed (k := k) (s := s) (i := j) (by omega)
  rw [hmodel, hmodel'] at hid
  have hsame := h.distinct i' hi' j' hj' hid
  omega

/-- What is left of a table when models have been taken out of which there is no copy: no entry is new, and what is not
listed any more is not found. -/
structure Thinned (s t : State) : Prop where
  proper : t.Proper
  listed : ∀ i < t.supportedModelCnt, ∃ j < s.supportedModelCnt, t.modelInfo i = s.modelInfo j
  gone : ∀ j < s.supportedModelCnt, (∃ i < t.supportedModelCnt, t.modelInfo i = s.modelInfo j) ∨
    t.find (s.modelInfo j).modelId = none
  find_none : ∀ id, s.find id = none → t.find id = none

theorem Thinned.refl (h : s.Proper) : Thinned s s :=
  ⟨h, fun i hi => ⟨i, hi, rfl⟩, fun j hj => .inl ⟨j, hj, rfl⟩, fun _ hid => hid⟩

theorem find_remove_unique (hle : s.supportedModelCnt ≤ hotwordModleMaxNum) (h : s.Unique k) :
    (s.remove k).find (s.modelInfo k).modelId = none := by
  apply find_eq_none_iff.mpr
  intro i hi
  rw [modelInfo_remove]
  by_cases hmove : k ≤ i ∧ i + 1 < s.supportedModelCnt
  · rw [if_pos hmove]
    exact h.2 (i + 1) (Nat.lt_of_lt_of_le hmove.2 hle) (by omega)
  · rw [if_neg hmove]
    refine h.2 i hi fun hik => hmove ⟨Nat.le_of_eq hik.symm, ?_⟩
    rw [hik]
    exact h.1

theorem Thinned.remove (h : Thinned s t) (hunique : t.Unique k) : Thinned s (t.remove k) := by
  have hmore : k + 1 < t.supportedModelCnt := hunique.1
  have hcnt := cnt_remove (k := k) h.proper.cnt_pos h.proper.cnt_le
  refine ⟨h.proper.remove (by omega), ?_, ?_, ?_⟩
  · intro i hi
    obtain ⟨i', hi', -, -, hmodel⟩ := modelInfo_remove_listed (k := k) (s := t) (i := i) (by omega)
    rw [hmodel]
    exact h.listed i' hi'
  · intro j hj
    cases h.gone j hj with
    | inr hnone => exact .inr (find_remove h.proper.cnt_le hnone)
    | inl hlisted =>
        obtain ⟨i, hi, hmodel⟩ := hlisted
        by_cases hik : i = k
        · refine .inr ?_
          rw [← hmodel, hik]
          exact find_remove_unique h.proper.cnt_le hunique
        · obtain ⟨i', hi', hmodel'⟩ := exists_modelInfo_remove (by omega) hi hik
          exact .inl ⟨i', by omega, hmodel'.trans hmodel⟩
  · exact fun id hid => find_remove h.proper.cnt_le (h.find_none id hid)

/-- An id that is found behind the models that are listed, and is not listed. -/
structure Stale (s : State) (id : ModelId) : Prop where
  behind : ∃ i < hotwordModleMaxNum, s.supportedModelCnt ≤ i ∧ (s.modelInfo i).modelId = id
  not_listed : ∀ i < s.supportedModelCnt, (s.modelInfo i).modelId ≠ id

theorem Stale.remove (h : Stale s id) (hpos : 0 < s.supportedModelCnt)
    (hle : s.supportedModelCnt ≤ hotwordModleMaxNum) : Stale (s.remove k) id := by
  have hcnt := cnt_remove (k := k) hpos hle
  obtain ⟨i, hi, hbehind, hid⟩ := h.behind
  refine ⟨⟨i, hi, by omega, ?_⟩, fun j hj => ?_⟩
  · rw [modelInfo_remove_behind (by omega), hid]
  · obtain ⟨j', hj', -, -, hmodel⟩ := modelInfo_remove_listed (k := k) (s := s) (i := j) (by omega)
    rw [hmodel]
    exact h.not_listed j' hj'

/-- A model that is not unique stays behind when it is taken out. -/
theorem Proper.stale_remove (h : s.Proper) (hk : k < s.supportedModelCnt) (hnot : ¬s.Unique k) :
    Stale (s.remove k) (s.modelInfo k).modelId := by
  have hle := h.cnt_le
  have hcnt := cnt_remove (k := k) h.cnt_pos hle
  constructor
  · by_cases hlast : k + 1 < s.supportedModelCnt
    · have hcopy : ∃ j < hotwordModleMaxNum, j ≠ k ∧ (s.modelInfo j).modelId = (s.modelInfo k).modelId := by
        by_contra hno
        exact hnot ⟨hlast, fun j hj hne hid => hno ⟨j, hj, hne, hid⟩⟩
      obtain ⟨j, hj, hne, hid⟩ := hcopy
      have hbehind : s.supportedModelCnt ≤ j := by
        by_contra hlt
        exact hne (h.distinct j (Nat.lt_of_not_le hlt) k hk hid)
      refine ⟨j, hj, by omega, ?_⟩
      rw [modelInfo_remove_behind (by omega), hid]
    · refine ⟨k, by omega, by omega, ?_⟩
      rw [modelInfo_remove_behind (by omega)]
  · intro i hi
    obtain ⟨j, hj, hne, -, hmodel⟩ := modelInfo_remove_listed (k := k) (s := s) (i := i) (by omega)
    rw [hmodel]
    exact fun hid => hne (h.distinct j hj k hk hid)

end State

/-! ### The loop -/

namespace Clean

variable {c c' : Clean} {newModelLen n : Nat}

theorem round_eq_some (h : c.round = some c') :
    c.cleanIdx < hotwordModleMaxNum ∧ c'.table = c.table.remove c.cleanIdx := by
  have hround : c.round = if c.cleanIdx < hotwordModleMaxNum then some ⟨c.table.remove c.cleanIdx,
      if c.adjacent.tailAdjacentIdx < c.adjacent.headAdjacentIdx then c.addr
      else (c.table.modelInfo c.cleanIdx).startAddr,
      add32 c.cleanSize (c.table.modelInfo c.cleanIdx).cleanSize⟩ else none := rfl
  rw [hround] at h
  by_cases hlt : c.cleanIdx < hotwordModleMaxNum
  · rw [if_pos hlt, Option.some.injEq] at h
    exact ⟨hlt, h ▸ rfl⟩
  · rw [if_neg hlt] at h
    cases h

theorem mem_indices_lookAt {a : Adjacent} {i : Nat} {is : List Nat}
    (ha : (a.headAdjacentIdx = 0xFF ∨ a.headAdjacentIdx ∈ is) ∧ (a.tailAdjacentIdx = 0xFF ∨ a.tailAdjacentIdx ∈ is))
    (hi : i ∈ is) : ((c.lookAt a i).headAdjacentIdx = 0xFF ∨ (c.lookAt a i).headAdjacentIdx ∈ is) ∧
      ((c.lookAt a i).tailAdjacentIdx = 0xFF ∨ (c.lookAt a i).tailAdjacentIdx ∈ is) := by
  rw [lookAt]
  split
  · split
    · exact ⟨ha.1, .inr hi⟩
    · exact ha
  · split
    · split
      · exact ⟨.inr hi, ha.2⟩
      · exact ha
    · exact ha

theorem cleanIdx_mem (h : c.cleanIdx < hotwordModleMaxNum) : c.cleanIdx ∈ c.table.indices := by
  have hfold : ∀ (js : List Nat) (a : Adjacent), (∀ j ∈ js, j ∈ c.table.indices) →
      (a.headAdjacentIdx = 0xFF ∨ a.headAdjacentIdx ∈ c.table.indices) ∧
        (a.tailAdjacentIdx = 0xFF ∨ a.tailAdjacentIdx ∈ c.table.indices) →
      ((js.foldl c.lookAt a).headAdjacentIdx = 0xFF ∨ (js.foldl c.lookAt a).headAdjacentIdx ∈ c.table.indices) ∧
        ((js.foldl c.lookAt a).tailAdjacentIdx = 0xFF ∨ (js.foldl c.lookAt a).tailAdjacentIdx ∈ c.table.indices) := by
    intro js
    induction js with
    | nil => exact fun a _ ha => ha
    | cons j js ih =>
        intro a hjs ha
        exact ih _ (fun j' hj' => hjs j' (List.mem_cons_of_mem _ hj'))
          (mem_indices_lookAt ha (hjs j List.mem_cons_self))
  obtain ⟨hhead, htail⟩ := hfold c.table.indices ⟨0xFF, 0xFF, 0xFFFFFFFF, 0xFFFFFFFF⟩ (fun _ hj => hj)
    ⟨.inl rfl, .inl rfl⟩
  have hno : ¬0xFF < hotwordModleMaxNum := by decide
  rw [cleanIdx] at h ⊢
  split at h
  case isTrue hlt =>
    rw [if_pos hlt]
    exact htail.resolve_left fun heq => hno (heq ▸ h)
  case isFalse hge =>
    rw [if_neg hge]
    exact hhead.resolve_left fun heq => hno (heq ▸ h)

theorem rounds_zero : c.rounds newModelLen 0 = if c.cleanSize < newModelLen then none else some c := rfl

theorem rounds_succ : c.rounds newModelLen (n + 1) =
    if c.cleanSize < newModelLen then c.round.bind (rounds newModelLen n) else some c := rfl

theorem Clears.exists_rounds (h : c.Clears newModelLen n) (hthin : State.Thinned s c.table) :
    ∃ c', c.rounds newModelLen n = some c' ∧ State.Thinned s c'.table := by
  induction n generalizing c with
  | zero =>
      have henough : newModelLen ≤ c.cleanSize := h
      exact ⟨c, by rw [rounds_zero, if_neg (Nat.not_lt.mpr henough)], hthin⟩
  | succ n ih =>
      by_cases henough : newModelLen ≤ c.cleanSize
      · exact ⟨c, by rw [rounds_succ, if_neg (Nat.not_lt.mpr henough)], hthin⟩
      · obtain ⟨hunique, c₁, hround, hclears⟩ := h.resolve_left henough
        have hthin₁ : State.Thinned s c₁.table := (round_eq_some hround).2 ▸ hthin.remove hunique
        obtain ⟨c', hc', hthin'⟩ := ih hclears hthin₁
        exact ⟨c', by rw [rounds_succ, if_pos (Nat.lt_of_not_le henough), hround, Option.bind_some, hc'], hthin'⟩

theorem rounds_stale (h : c.rounds newModelLen n = some c') (hstale : State.Stale c.table id)
    (hle : c.table.supportedModelCnt ≤ hotwordModleMaxNum) :
    State.Stale c'.table id ∧ c'.table.supportedModelCnt ≤ hotwordModleMaxNum := by
  induction n generalizing c with
  | zero =>
      rw [rounds_zero] at h
      split at h
      · cases h
      · exact Option.some.inj h ▸ ⟨hstale, hle⟩
  | succ n ih =>
      rw [rounds_succ] at h
      split at h
      · obtain ⟨c₁, hround, hrest⟩ := Option.bind_eq_some_iff.mp h
        obtain ⟨hidx, htable⟩ := round_eq_some hround
        obtain ⟨-, hlt⟩ := State.mem_indices.mp (cleanIdx_mem hidx)
        have hpos : 0 < c.table.supportedModelCnt := Nat.zero_lt_of_lt hlt
        apply ih hrest
        · exact htable ▸ hstale.remove hpos hle
        · rw [htable, State.cnt_remove hpos hle]
          exact Nat.le_trans (Nat.sub_le _ _) hle
      · exact Option.some.inj h ▸ ⟨hstale, hle⟩

/-- A model that was listed is listed still, or it is not found. -/
def Leaves (s t : State) : Prop :=
  ∀ j < s.supportedModelCnt, (∃ i < t.supportedModelCnt, (t.modelInfo i).modelId = (s.modelInfo j).modelId) ∨
    t.find (s.modelInfo j).modelId = none

theorem not_leaves_of_stale (hstale : State.Stale t id) {j : Nat} (hj : j < s.supportedModelCnt)
    (hid : (s.modelInfo j).modelId = id) : ¬Leaves s t := by
  intro hleaves
  cases hleaves j hj with
  | inl hlisted =>
      obtain ⟨i, hi, heq⟩ := hlisted
      exact hstale.not_listed i hi (heq.trans hid)
  | inr hnone =>
      obtain ⟨i, hi, -, heq⟩ := hstale.behind
      exact State.find_eq_none_iff.mp hnone i hi (heq.trans hid.symm)

/-- Had a round taken out a model that is not unique, it would be found now. -/
theorem clears_of_rounds (hthin : State.Thinned s c.table) (h : c.rounds newModelLen n = some c')
    (hleaves : Leaves s c'.table) : c.Clears newModelLen n := by
  induction n generalizing c with
  | zero =>
      rw [rounds_zero] at h
      split at h
      case isTrue => cases h
      case isFalse henough => exact Nat.not_lt.mp henough
  | succ n ih =>
      rw [rounds_succ] at h
      split at h
      case isFalse henough => exact .inl (Nat.not_lt.mp henough)
      case isTrue =>
        obtain ⟨c₁, hround, hrest⟩ := Option.bind_eq_some_iff.mp h
        obtain ⟨hidx, htable⟩ := round_eq_some hround
        obtain ⟨-, hlt⟩ := State.mem_indices.mp (cleanIdx_mem hidx)
        have hle := hthin.proper.cnt_le
        have hunique : c.table.Unique c.cleanIdx := by
          by_contra hnot
          have hstale := htable ▸ hthin.proper.stale_remove hlt hnot
          have hle₁ : c₁.table.supportedModelCnt ≤ hotwordModleMaxNum := by
            rw [htable, State.cnt_remove hthin.proper.cnt_pos hle]
            exact Nat.le_trans (Nat.sub_le _ _) hle
          obtain ⟨j, hj, hmodel⟩ := hthin.listed _ hlt
          exact not_leaves_of_stale (rounds_stale hrest hstale hle₁).1 hj (hmodel ▸ rfl) hleaves
        exact .inr ⟨hunique, c₁, hround, ih (htable ▸ hthin.remove hunique) hrest⟩

end Clean

/-! ### Models in the order of their addresses -/

/-- The models lie one above the other as they follow in the table, and only of the last one there may be a copy. -/
structure State.Ordered (s : State) : Prop where
  above : ∀ i ∈ s.indices, ∀ j ∈ s.indices, i < j → (s.modelInfo i).startAddr < (s.modelInfo j).startAddr
  single : ∀ i ∈ s.indices, i + 1 < s.supportedModelCnt → ∀ j < hotwordModleMaxNum, j ≠ i →
    (s.modelInfo j).modelId ≠ (s.modelInfo i).modelId

namespace State

theorem Ordered.remove (h : s.Ordered) (hpos : 0 < s.supportedModelCnt)
    (hle : s.supportedModelCnt ≤ hotwordModleMaxNum) : (s.remove defaultModelNum).Ordered := by
  have hcnt := cnt_remove (k := defaultModelNum) hpos hle
  have hmoved : ∀ i ∈ (s.remove defaultModelNum).indices, i + 1 ∈ s.indices ∧
      (s.remove defaultModelNum).modelInfo i = s.modelInfo (i + 1) := fun i hi => by
    rw [mem_indices, hcnt] at hi
    exact ⟨mem_indices.mpr (by omega), if_pos ⟨hi.1, by omega⟩⟩
  constructor
  · intro i hi j hj hlt
    obtain ⟨hi', hmodel⟩ := hmoved i hi
    obtain ⟨hj', hmodel'⟩ := hmoved j hj
    rw [hmodel, hmodel']
    exact h.above _ hi' _ hj' (Nat.succ_lt_succ hlt)
  · intro i hi hlast j hj hne
    obtain ⟨hi', hmodel⟩ := hmoved i hi
    rw [hcnt] at hlast
    rw [hmodel, modelInfo_remove]
    split
    case isTrue hmove => exact h.single _ hi' (by omega) _ (by omega) (by omega)
    case isFalse hstay =>
      refine h.single _ hi' (by omega) _ hj fun heq => hstay ?_
      rw [defaultModelNum]
      omega

theorem modelInfo_last_remove (hcnt : 2 < s.supportedModelCnt) :
    (s.remove defaultModelNum).modelInfo (s.supportedModelCnt - 1 - 1) = s.modelInfo (s.supportedModelCnt - 1) := by
  have hpos : 1 ≤ s.supportedModelCnt - 1 - 1 := by omega
  have hmoved : s.supportedModelCnt - 1 - 1 + 1 = s.supportedModelCnt - 1 := by omega
  rw [modelInfo_remove, if_pos ⟨hpos, by omega⟩, hmoved]

theorem Ordered.le (h : s.Ordered) {m : ModelInfo} (hm : m ∈ s.models) :
    (s.modelInfo defaultModelNum).startAddr ≤ m.startAddr := by
  obtain ⟨i, hi, rfl⟩ := List.mem_map.mp hm
  obtain ⟨hpos, hlt⟩ := mem_indices.mp hi
  rcases Nat.lt_or_eq_of_le hpos with hmore | heq
  · exact Nat.le_of_lt (h.above _ (mem_indices.mpr ⟨Nat.one_pos, Nat.lt_trans hmore hlt⟩) i hi hmore)
  · exact heq ▸ Nat.le_refl _

theorem Ordered.nodup (h : s.Ordered) : (s.models.map ModelInfo.startAddr).Nodup := by
  rw [models, List.map_map]
  refine List.Nodup.map_on (fun i hi j hj hsame => ?_) (List.nodup_range' ..)
  rcases Nat.lt_trichotomy i j with hlt | heq | hlt
  · exact absurd hsame (Nat.ne_of_lt (h.above i hi j hj hlt))
  · exact heq
  · exact absurd hsame.symm (Nat.ne_of_lt (h.above j hj i hi hlt))

end State

namespace Clean

variable {total : Nat}

theorem Cleaning.le_of_last (h : Cleaning sec total c) (hcnt : c.table.supportedModelCnt = 2)
    (hroom : newModelLen + (c.table.modelInfo (c.table.supportedModelCnt - 1)).cleanSize ≤ total) :
    newModelLen ≤ c.cleanSize := by
  have htotal : c.cleanSize + (c.table.modelInfo (c.table.supportedModelCnt - 1)).cleanSize = total := by
    have htotal := h.total
    rw [State.occupied, State.models, State.indices, hcnt] at htotal
    rwa [hcnt]
  omega

/-- The lowest model is taken out in each round, until there is room. -/
theorem Cleaning.clears (h : Cleaning sec total c) (hlow : Lowest sec c) (hordered : c.table.Ordered)
    (hcnt : 1 < c.table.supportedModelCnt) (hn : c.table.supportedModelCnt ≤ n + 2)
    (hroom : newModelLen + (c.table.modelInfo (c.table.supportedModelCnt - 1)).cleanSize ≤ total) :
    c.Clears newModelLen n := by
  induction n generalizing c with
  | zero => exact h.le_of_last (by omega) hroom
  | succ n ih =>
      by_cases henough : newModelLen ≤ c.cleanSize
      · exact .inl henough
      have hmore : 2 < c.table.supportedModelCnt :=
        Nat.lt_of_le_of_ne hcnt fun heq => henough (h.le_of_last heq.symm hroom)
      have hless := Nat.lt_of_not_le henough
      obtain ⟨c', hround, hclean, hcnt', -⟩ := h.round (by omega) (hlow.headsNearest 1 hless).1
      obtain ⟨hhead, k, hk, hidx, hnear, hc'⟩ := hlow.round hround
      have hfirst : defaultModelNum ∈ c.table.indices := State.mem_indices.mpr ⟨Nat.one_pos, hcnt⟩
      have habove : c.addr < (c.table.modelInfo defaultModelNum).startAddr := by
        have hmem := State.mem_models Nat.one_pos hcnt
        refine Nat.lt_of_le_of_ne (hlow.le _ hmem) fun heq => ?_
        exact (List.nodup_cons.mp h.starts).1 (heq ▸ List.mem_map_of_mem hmem)
      have hone : k = defaultModelNum := by
        by_contra hne
        have hlt := hordered.above _ hfirst k hk (Nat.lt_of_le_of_ne (State.mem_indices.mp hk).1 (Ne.symm hne))
        exact Nat.not_lt.mpr (hnear _ hfirst habove) hlt
      have hclean' : c.cleanIdx = defaultModelNum := by
        rw [cleanIdx, hhead, ← hidx, hone]
        rfl
      have hle := h.stored.cnt_le
      have htable : c'.table = c.table.remove defaultModelNum := by rw [hc', hone]
      have hlast : c'.table.modelInfo (c'.table.supportedModelCnt - 1) =
          c.table.modelInfo (c.table.supportedModelCnt - 1) := by
        rw [hcnt', htable]
        exact State.modelInfo_last_remove hmore
      refine .inr ⟨?_, c', hround, ih hclean (hlow.rounded hround) ?_ (by omega) (by omega) (hlast.symm ▸ hroom)⟩
      · rw [hclean']
        exact ⟨hmore, hordered.single _ hfirst hmore⟩
      · rw [htable]
        exact hordered.remove (Nat.zero_lt_of_lt hcnt) hle

end Clean

/-- The models in front of the last one make room, if they follow each other in the flash as in the table. -/
theorem State.Ordered.clearsFor {newModelLen : Nat} (h : s.Ordered) (hstored : s.Stored sec)
    (hcnt : 2 < s.supportedModelCnt)
    (hroom : newModelLen + (s.modelInfo (s.supportedModelCnt - 1)).cleanSize ≤ s.occupied) :
    s.ClearsFor newModelLen := by
  have hone := Nat.lt_of_succ_lt hcnt
  have hfirst : defaultModelNum ∈ s.indices := mem_indices.mpr ⟨Nat.one_pos, hone⟩
  have hcnt' : (Clean.ofFirst s).table.supportedModelCnt = s.supportedModelCnt - 1 :=
    cnt_remove hstored.cnt_pos hstored.cnt_le
  have hlow := Clean.lowest_ofFirst hstored hfirst fun m => h.le
  refine ⟨⟨hcnt, h.single _ hfirst hcnt⟩, (Clean.cleaning_ofFirst hstored hfirst h.nodup).clears hlow
    (h.remove hstored.cnt_pos hstored.cnt_le) (by omega) (by omega) ?_⟩
  have hlast : (Clean.ofFirst s).table.modelInfo (s.supportedModelCnt - 1 - 1) =
      s.modelInfo (s.supportedModelCnt - 1) := modelInfo_last_remove hcnt
  rwa [hcnt', hlast]

namespace State

variable {newModelLen : Nat}

/-- Models make room without leaving a copy exactly if they are unique. -/
theorem Proper.rounds_iff (h : s.Proper) :
    s.ClearsFor newModelLen ↔
      ∃ c', (Clean.ofFirst s).rounds newModelLen s.supportedModelCnt = some c' ∧ Clean.Leaves s c'.table := by
  constructor
  · intro hclears
    have hthin : Thinned s (Clean.ofFirst s).table := (Thinned.refl h).remove hclears.1
    obtain ⟨c', hc', hthin'⟩ := hclears.2.exists_rounds hthin
    exact ⟨c', hc', fun j hj => (hthin'.gone j hj).imp_left fun ⟨i, hi, hmodel⟩ => ⟨i, hi, by rw [hmodel]⟩⟩
  · intro hrounds
    obtain ⟨c', hc', hleaves⟩ := hrounds
    have hle : (Clean.ofFirst s).table.supportedModelCnt ≤ hotwordModleMaxNum :=
      Nat.le_trans (Nat.le_of_eq (cnt_remove h.cnt_pos h.cnt_le)) (Nat.le_trans (Nat.sub_le _ _) h.cnt_le)
    have hunique : s.Unique defaultModelNum := by
      by_contra hnot
      by_cases hmore : defaultModelNum < s.supportedModelCnt
      · have hstale : Stale (Clean.ofFirst s).table _ := h.stale_remove hmore hnot
        exact Clean.not_leaves_of_stale (Clean.rounds_stale hc' hstale hle).1 hmore rfl hleaves
      · -- only the embedded model is listed, and the count leaves it behind
        have hcnt := cnt_remove (k := defaultModelNum) h.cnt_pos h.cnt_le
        have hpos := h.cnt_pos
        rw [defaultModelNum] at hmore
        have hstale : Stale (Clean.ofFirst s).table (s.modelInfo 0).modelId := by
          have hzero : (Clean.ofFirst s).table.supportedModelCnt = 0 := hcnt.trans (by omega)
          refine ⟨⟨0, by decide, Nat.le_of_eq hzero, ?_⟩, fun i hi => absurd hi (by omega)⟩
          exact congrArg ModelInfo.modelId (modelInfo_remove_behind (by omega))
        exact Clean.not_leaves_of_stale (Clean.rounds_stale hc' hstale hle).1 hpos rfl hleaves
    exact ⟨hunique, Clean.clears_of_rounds ((Thinned.refl h).remove hunique) hc' hleaves⟩

end State

/-! ### One call -/

namespace State

theorem exists_of_mem_ids (h : id ∈ s.ids) : ∃ i < s.supportedModelCnt, (s.modelInfo i).modelId = id := by
  rw [ids, listed] at h
  split at h
  · cases h
  · obtain ⟨m, hm, hid⟩ := List.mem_map.mp h
    obtain ⟨i, hi, hmodel⟩ := List.mem_map.mp hm
    exact ⟨i, List.mem_range.mp hi, hmodel.symm ▸ hid⟩

theorem find_markEmpty : s.markEmpty.find id = s.find id := by
  rw [markEmpty]
  split <;> rfl

theorem exists_of_mem_ids_markEmpty (h : id ∈ s.markEmpty.ids) :
    ∃ i < s.supportedModelCnt, (s.modelInfo i).modelId = id := by
  rw [markEmpty] at h
  split at h
  · rw [ids, listed, if_pos rfl] at h
    cases h
  · exact exists_of_mem_ids h

theorem Proper.markEmpty (h : s.Proper) : s.markEmpty = s := if_neg (Nat.ne_of_gt h.cnt_pos)

theorem Thinned.mem_listed (h : Thinned s t) (hs : s.Proper) {m : ModelInfo} (hm : m ∈ s.listed)
    (hid : m.modelId ∈ t.ids) : m ∈ t.listed := by
  obtain ⟨j, hj, rfl⟩ := (State.mem_listed hs.cnt_le).mp hm
  cases h.gone j hj with
  | inl hlisted =>
      obtain ⟨i, hi, hmodel⟩ := hlisted
      exact (State.mem_listed h.proper.cnt_le).mpr ⟨i, hi, hmodel⟩
  | inr hnone => exact absurd hnone (h.proper.find_ne_none hid)

theorem Thinned.find_eq_none (h : Thinned s t) (hs : s.Proper) (hid : id ∈ s.ids) (hnot : id ∉ t.ids) :
    t.find id = none := by
  obtain ⟨j, hj, rfl⟩ := (mem_ids hs.cnt_le).mp hid
  refine (h.gone j hj).resolve_left fun hlisted => hnot ?_
  obtain ⟨i, hi, hmodel⟩ := hlisted
  exact (mem_ids h.proper.cnt_le).mpr ⟨i, hi, congrArg ModelInfo.modelId hmodel⟩

end State

namespace History

variable {h h' : History} {c : Call}

/-- The table is proper, and no evicted model is found in it. -/
structure Inv (h : History) : Prop where
  proper : h.table.Proper
  gone : ∀ id ∈ h.evicted, h.table.find id = none

theorem Inv.sound (hinv : h.Inv) : h.Sound := ⟨.inr hinv.proper.cnt_le, hinv.proper.ids_nodup, hinv.gone⟩

/-- The call does what it should exactly if it is a plain one, and a plain one keeps the invariant. -/
structure Settled (sec : FlashSection) (h : History) (c : Call) : Prop where
  meets_iff : h.Meets sec c ↔ h.Plain sec c
  inv : h.Plain sec c → ∀ h', h.step sec c = some h' → h'.Inv

theorem Inv.settled_same (hinv : h.Inv) {modelId : ModelId} {addNew : Bool} {newModelLen addr : Nat}
    (hget : h.table.getHotwordModelAddr sec modelId addNew newModelLen = some (addr, h.table))
    (hplain : h.Plain sec (.getAddr modelId addNew newModelLen)) :
    h.Settled sec (.getAddr modelId addNew newModelLen) := by
  have hnone : h.table.ids.filter (· ∉ h.table.ids) = [] := by
    rw [List.filter_eq_nil_iff]
    intro id hid
    rw [decide_eq_true_eq]
    exact fun hnot => hnot hid
  have hstep : h.step sec (.getAddr modelId addNew newModelLen) = some h := by
    rw [step, hget, Option.map_some, hnone, List.append_nil]
  constructor
  case meets_iff =>
    exact iff_of_true ⟨h, hstep, hinv.sound, fun _ hc => (nomatch hc), fun m hm _ _ => hm⟩ hplain
  case inv => exact fun _ h' hh' => Option.some.inj (hstep.symm.trans hh') ▸ hinv

theorem Inv.thinned (hinv : h.Inv) (hthin : State.Thinned h.table t) :
    Inv ⟨t, h.evicted ++ h.table.ids.filter (· ∉ t.ids)⟩ := by
  refine ⟨hthin.proper, fun id hid => ?_⟩
  cases List.mem_append.mp hid with
  | inl hold => exact hthin.find_none id (hinv.gone id hold)
  | inr hnew =>
      obtain ⟨hlisted, hnot⟩ := List.mem_filter.mp hnew
      exact hthin.find_eq_none hinv.proper hlisted (of_decide_eq_true hnot)

theorem Inv.settled_clean (hinv : h.Inv) {modelId : ModelId} {newModelLen : Nat}
    (hget : h.table.getHotwordModelAddr sec modelId true newModelLen =
      ((Clean.ofFirst h.table).rounds newModelLen h.table.supportedModelCnt).map fun c =>
        (c.addr, c.table.markEmpty))
    (hplain : h.Plain sec (.getAddr modelId true newModelLen) ↔ h.table.ClearsFor newModelLen) :
    h.Settled sec (.getAddr modelId true newModelLen) := by
  have hclears : h.table.ClearsFor newModelLen → ∃ t, State.Thinned h.table t ∧
      h.step sec (.getAddr modelId true newModelLen) = some ⟨t, h.evicted ++ h.table.ids.filter (· ∉ t.ids)⟩ := by
    intro hclears
    obtain ⟨c, hc, hthin⟩ := hclears.2.exists_rounds ((State.Thinned.refl hinv.proper).remove hclears.1)
    refine ⟨c.table, hthin, ?_⟩
    rw [step, hget, hc, Option.map_some, Option.map_some, hthin.proper.markEmpty]
  constructor
  case meets_iff =>
    rw [hplain]
    constructor
    · intro hmeets
      obtain ⟨h', hstep, hsound, -⟩ := hmeets
      rw [step, hget, Option.map_map] at hstep
      obtain ⟨c, hc, hh'⟩ := Option.map_eq_some_iff.mp hstep
      refine hinv.proper.rounds_iff.mpr ⟨c, hc, fun j hj => ?_⟩
      by_cases hlisted : (h.table.modelInfo j).modelId ∈ c.table.markEmpty.ids
      · exact .inl (State.exists_of_mem_ids_markEmpty hlisted)
      · have hid := (State.mem_ids hinv.proper.cnt_le).mpr ⟨j, hj, rfl⟩
        have hgone := hsound.gone (h.table.modelInfo j).modelId
          (hh' ▸ List.mem_append_right _ (List.mem_filter.mpr ⟨hid, decide_eq_true hlisted⟩))
        rw [← hh'] at hgone
        exact .inr (State.find_markEmpty.symm.trans hgone)
    · intro hplain
      obtain ⟨t, hthin, hstep⟩ := hclears hplain
      exact ⟨_, hstep, (hinv.thinned hthin).sound, fun _ hc => (nomatch hc),
        fun m hm hid _ => hthin.mem_listed hinv.proper hm hid⟩
  case inv =>
    intro hp h' hstep
    obtain ⟨t, hthin, hstep'⟩ := hclears (hplain.mp hp)
    rw [Option.some.inj (hstep.symm.trans hstep')]
    exact hinv.thinned hthin

theorem Inv.settled_getAddr (hinv : h.Inv) (modelId : ModelId) (addNew : Bool) (newModelLen : Nat) :
    h.Settled sec (.getAddr modelId addNew newModelLen) := by
  have hvalid := State.cnt_ne_invalid_of_le hinv.proper.cnt_le
  cases hfind : h.table.find modelId with
  | some i =>
      have hget : h.table.getHotwordModelAddr sec modelId addNew newModelLen =
          some ((h.table.modelInfo i).startAddr, h.table) := by rw [State.getHotwordModelAddr, hfind]
      apply hinv.settled_same hget
      exact fun hnone => absurd (hfind.symm.trans hnone) (Option.some_ne_none i)
  | none =>
      cases addNew with
      | false =>
          have hget : h.table.getHotwordModelAddr sec modelId false newModelLen = some (0, h.table) := by
            rw [State.getHotwordModelAddr, hfind]
            exact if_pos rfl
          exact hinv.settled_same hget fun _ hadd => absurd hadd Bool.false_ne_true
      | true =>
          by_cases hneeds : h.table.NeedsClean sec newModelLen
          · have hget : h.table.getHotwordModelAddr sec modelId true newModelLen =
                ((Clean.ofFirst h.table).rounds newModelLen h.table.supportedModelCnt).map fun c =>
                  (c.addr, c.table.markEmpty) := by
              rw [State.getHotwordModelAddr, hfind, if_neg hvalid, if_pos hneeds]
              exact if_neg (by decide)
            exact hinv.settled_clean hget ⟨fun hplain => hplain hfind rfl hneeds, fun hclears _ _ _ => hclears⟩
          · have hget : h.table.getHotwordModelAddr sec modelId true newModelLen =
                some (f4kAlign (h.table.largestAddr sec), h.table) := by
              rw [State.getHotwordModelAddr, hfind, if_neg hvalid, if_neg hneeds]
              exact if_neg (by decide)
            exact hinv.settled_same hget fun _ _ hneeds' => absurd hneeds' hneeds

end History

/-! ### Adding a model -/

namespace State

variable {info : ModelInfo}

theorem addNewModel_full (info : ModelInfo) (hvalid : s.supportedModelCnt ≠ invalidModelNum)
    (hfull : ¬s.supportedModelCnt < hotwordModleMaxNum) : s.addNewModel info = (s, false) := by
  rw [addNewModel, if_neg hvalid, if_neg hfull]

theorem addNewModel_some (hvalid : s.supportedModelCnt ≠ invalidModelNum)
    (hroom : s.supportedModelCnt < hotwordModleMaxNum) {i : Nat} (hfind : s.find info.modelId = some i) :
    ∃ t, s.addNewModel info = (t, true) ∧ t.supportedModelCnt = s.supportedModelCnt ∧
      t.modelInfo i = ⟨(s.modelInfo i).modelId, info.startAddr ||| otaFlashLogicAddr, (s.modelInfo i).len⟩ ∧
      ∀ j, j ≠ i → t.modelInfo j = s.modelInfo j := by
  have hstart : info.startAddr ||| otaFlashLogicAddr ≠ 0 :=
    fun hzero => absurd (Nat.or_eq_zero_iff.mp hzero).2 (by decide)
  rw [addNewModel, if_neg hvalid, if_pos hroom]
  dsimp only
  rw [hfind]
  exact ⟨_, if_pos hstart, rfl, Function.update_self .., fun j hne => Function.update_of_ne hne ..⟩

theorem addNewModel_none (hvalid : s.supportedModelCnt ≠ invalidModelNum)
    (hroom : s.supportedModelCnt < hotwordModleMaxNum) (hfind : s.find info.modelId = none) :
    ∃ t, s.addNewModel info = (t, true) ∧ t.supportedModelCnt = s.supportedModelCnt + 1 ∧
      t.modelInfo s.supportedModelCnt = { info with startAddr := info.startAddr ||| otaFlashLogicAddr } ∧
      ∀ j, j ≠ s.supportedModelCnt → t.modelInfo j = s.modelInfo j := by
  rw [addNewModel, if_neg hvalid, if_pos hroom]
  dsimp only
  rw [hfind]
  exact ⟨_, rfl, rfl, Function.update_self .., fun j hne => Function.update_of_ne hne ..⟩

end State

namespace History

variable {h h' : History} {info : ModelInfo}

theorem Inv.settled_full (hinv : h.Inv) (hfull : ¬h.table.supportedModelCnt < hotwordModleMaxNum) :
    h.Settled sec (.addModel info) := by
  have hadd := State.addNewModel_full info (State.cnt_ne_invalid_of_le hinv.proper.cnt_le) hfull
  have hstep : h.step sec (.addModel info) = some h := by
    rw [step, hadd]
    rfl
  constructor
  case meets_iff =>
    refine iff_of_true ⟨h, hstep, hinv.sound, fun info' hinfo hadded => ?_, fun m hm _ _ => hm⟩
      fun hroom => absurd hroom hfull
    cases hinfo
    rw [hadd] at hadded
    cases hadded
  case inv => exact fun _ h' hh' => Option.some.inj (hstep.symm.trans hh') ▸ hinv

theorem Inv.settled_some (hinv : h.Inv) (hroom : h.table.supportedModelCnt < hotwordModleMaxNum) {i : Nat}
    (hfind : h.table.find info.modelId = some i) : h.Settled sec (.addModel info) := by
  have hle := hinv.proper.cnt_le
  obtain ⟨t, hadd, hcnt, hentry, hother⟩ := State.addNewModel_some (State.cnt_ne_invalid_of_le hle) hroom hfind
  have hids : ∀ j, (t.modelInfo j).modelId = (h.table.modelInfo j).modelId := by
    intro j
    by_cases hj : j = i
    · rw [hj, hentry]
    · rw [hother j hj]
  have hproper : t.Proper := by
    refine ⟨hcnt ▸ hinv.proper.cnt_pos, hcnt ▸ hle, fun j hj k hk hid => ?_⟩
    rw [hids, hids] at hid
    exact hinv.proper.distinct j (hcnt ▸ hj) k (hcnt ▸ hk) hid
  have hfinds : ∀ id, h.table.find id = none → t.find id = none := by
    intro id hnone
    apply State.find_eq_none_iff.mpr
    intro j hj
    rw [hids]
    exact State.find_eq_none_iff.mp hnone j hj
  have hstep : h.step sec (.addModel info) = some ⟨t, h.evicted.filter (· ≠ info.modelId)⟩ := by
    rw [step, hadd]
    rfl
  have hinv' : Inv ⟨t, h.evicted.filter (· ≠ info.modelId)⟩ :=
    ⟨hproper, fun id hid => hfinds id (hinv.gone id (List.mem_filter.mp hid).1)⟩
  have hsameId : (h.table.modelInfo i).modelId = info.modelId := State.of_find_eq_some hfind
  have hplain : h.Plain sec (.addModel info) ↔
      i < h.table.supportedModelCnt ∧ (h.table.modelInfo i).len = info.len := by
    constructor
    · exact fun hfits => hfits hroom i hfind
    · intro hi _ j hj
      rw [← Option.some.inj (hfind.symm.trans hj)]
      exact hi
  constructor
  case meets_iff =>
    rw [hplain]
    constructor
    · intro hmeets
      obtain ⟨h', hh', -, hkeeps⟩ := hmeets
      rw [← Option.some.inj (hstep.symm.trans hh')] at hkeeps
      obtain ⟨j, hj, hmodel⟩ := (State.mem_listed hproper.cnt_le).mp (hkeeps.added info rfl (by rw [hadd]))
      have hjid : (h.table.modelInfo j).modelId = info.modelId := by rw [← hids, hmodel]
      have hij : i = j := by
        by_contra hne
        cases Nat.lt_or_gt_of_ne hne with
        | inl hlt => exact hne (hinv.proper.distinct i (by omega) j (hcnt ▸ hj) (hsameId.trans hjid.symm))
        | inr hgt => exact State.lt_of_find_eq_some hfind hgt hjid
      subst hij
      rw [hentry, ModelInfo.mk.injEq] at hmodel
      exact ⟨hcnt ▸ hj, hmodel.2.2⟩
    · intro hlisted
      refine ⟨_, hstep, hinv'.sound, fun info' hinfo _ => ?_, fun m hm hid hne => ?_⟩
      · cases hinfo
        refine (State.mem_listed hproper.cnt_le).mpr ⟨i, hcnt ▸ hlisted.1, ?_⟩
        rw [hentry, hsameId, hlisted.2]
      · obtain ⟨j, hj, rfl⟩ := (State.mem_listed hle).mp hm
        have hji : j ≠ i := fun heq => hne info rfl (by rw [heq, hsameId])
        exact (State.mem_listed hproper.cnt_le).mpr ⟨j, hcnt ▸ hj, hother j hji⟩
  case inv => exact fun _ h' hh' => Option.some.inj (hstep.symm.trans hh') ▸ hinv'

theorem Inv.settled_none (hinv : h.Inv) (hroom : h.table.supportedModelCnt < hotwordModleMaxNum)
    (hfind : h.table.find info.modelId = none) : h.Settled sec (.addModel info) := by
  obtain ⟨t, hadd, hcnt, hlast, hother⟩ :=
    State.addNewModel_none (State.cnt_ne_invalid_of_le hinv.proper.cnt_le) hroom hfind
  have hfresh := State.find_eq_none_iff.mp hfind
  have hproper : t.Proper := by
    refine ⟨by omega, by omega, fun j hj k hk hid => ?_⟩
    by_cases hjl : j = h.table.supportedModelCnt <;> by_cases hkl : k = h.table.supportedModelCnt
    · rw [hjl, hkl]
    · rw [hjl, hlast, hother k hkl] at hid
      exact absurd hid.symm (hfresh k (by omega))
    · rw [hkl, hlast, hother j hjl] at hid
      exact absurd hid (hfresh j (by omega))
    · rw [hother j hjl, hother k hkl] at hid
      exact hinv.proper.distinct j (by omega) k (by omega) hid
  have hstep : h.step sec (.addModel info) = some ⟨t, h.evicted.filter (· ≠ info.modelId)⟩ := by
    rw [step, hadd]
    rfl
  have hinv' : Inv ⟨t, h.evicted.filter (· ≠ info.modelId)⟩ := by
    refine ⟨hproper, fun id hid => State.find_eq_none_iff.mpr fun j hj => ?_⟩
    obtain ⟨hold, hne⟩ := List.mem_filter.mp hid
    by_cases hjl : j = h.table.supportedModelCnt
    · rw [hjl, hlast]
      exact fun heq => of_decide_eq_true hne heq.symm
    · rw [hother j hjl]
      exact State.find_eq_none_iff.mp (hinv.gone id hold) j hj
  constructor
  case meets_iff =>
    refine iff_of_true ⟨_, hstep, hinv'.sound, fun info' hinfo _ => ?_, fun m hm hid hne => ?_⟩ fun _ i hi => ?_
    · cases hinfo
      exact (State.mem_listed hproper.cnt_le).mpr ⟨_, by omega, hlast⟩
    · obtain ⟨j, hj, rfl⟩ := (State.mem_listed hinv.proper.cnt_le).mp hm
      exact (State.mem_listed hproper.cnt_le).mpr ⟨j, by omega, hother j (by omega)⟩
    · rw [hfind] at hi
      cases hi
  case inv => exact fun _ h' hh' => Option.some.inj (hstep.symm.trans hh') ▸ hinv'

theorem Inv.settled (hinv : h.Inv) (c : Call) : h.Settled sec c := by
  cases c with
  | getAddr modelId addNew newModelLen => exact hinv.settled_getAddr modelId addNew newModelLen
  | addModel info =>
      by_cases hroom : h.table.supportedModelCnt < hotwordModleMaxNum
      · cases hfind : h.table.find info.modelId with
        | some i => exact hinv.settled_some hroom hfind
        | none => exact hinv.settled_none hroom hfind
      · exact hinv.settled_full hroom

/-! ### Runs -/

theorem inv_init : (init sec).Inv := by
  refine ⟨⟨Nat.one_pos, Nat.le_of_ble_eq_true rfl, fun i hi j hj _ => ?_⟩, fun _ hid => absurd hid List.not_mem_nil⟩
  have hone : (init sec).table.supportedModelCnt = 1 := rfl
  omega

/-- From the initial table on, every call does what it should exactly if every call is a plain one. -/
theorem run_meets_iff (sec : FlashSection) (calls : List Call) :
    Along (step sec) (Meets sec) (init sec) calls ↔ Along (step sec) (Plain sec) (init sec) calls :=
  along_iff_of_invariant Inv (fun _ c hinv => (hinv.settled c).meets_iff)
    (fun _ c h' hinv hplain hstep => (hinv.settled c).inv hplain h' hstep) inv_init

/-- A model that fills the section, and a request for which it has to go -/
def replacedModel : List Call :=
  [.getAddr 1 true 0x3C000, .addModel ⟨1, 0x28200000, 0x3C000⟩, .getAddr 2 true 0x3C000]

/-- The model has been taken out, and it is found. -/
theorem not_meets_replacedModel : ¬∀ (sec : FlashSection) (calls : List Call),
    Along (step sec) (Meets sec) (init sec) calls := by
  intro hall
  have hfound : (run (step State.smallSection) (init State.smallSection) replacedModel).any
      (fun h => h.evicted.any fun id => (h.table.find id).isSome) = true := by decide
  obtain ⟨h, hrun, hany⟩ := (Option.any_eq_true _ _).mp hfound
  obtain ⟨id, hid, hsome⟩ := List.any_eq_true.mp hany
  have hsound := run_invariant_along (fun h => h = init State.smallSection ∨ h.Sound)
    (fun h c h' _ hmeets hstep => by
      obtain ⟨h'', hstep', hsound, -⟩ := hmeets
      exact .inr (Option.some.inj (hstep'.symm.trans hstep) ▸ hsound))
    (hall State.smallSection replacedModel) (.inl rfl) hrun
  cases hsound with
  | inl heq =>
      rw [heq] at hid
      cases hid
  | inr hsound =>
      rw [hsound.gone id hid] at hsome
      cases hsome

end History

end Best1307.NvHotword
