import Best1307.Hal.Sysfreq

/-!
# Voltage before frequency

With `PMU_CTRL_ENABLE` a request that switches the clock also configures the PMU, before the clock is raised and
after it is lowered. The clock also changes with `min_sysfreq`, and there the PMU is not told. And the code tells
raising from lowering by the frequencies requested, where 32K is the lowest; it stands for 26M, so that a request
for 6.5M or 13M behind it lowers the clock.
-/

namespace Best1307.Sysfreq

open CmuFreq

inductive HwCall
  | pmuSysFreqConfig (freq : CmuFreq)
  | halCmuSysSetFreq (freq : CmuFreq)
  deriving DecidableEq, Repr

namespace State

variable (s : State)

def setMinFreqCalls (freq : CmuFreq) : List HwCall :=
  if s.minSysfreq ≠ freq then
    let curFreq := s.halSysfreqGet
    let oldRevisedFreq := s.halSysfreqReviseFreq curFreq
    let newRevisedFreq := { s with minSysfreq := freq }.halSysfreqReviseFreq curFreq
    if oldRevisedFreq ≠ newRevisedFreq then [.halCmuSysSetFreq newRevisedFreq] else []
  else []

def raiseCalls (curFreq freq : CmuFreq) : List HwCall :=
  let realFreq := s.halSysfreqReviseFreq freq
  let realCurFreq := s.halSysfreqReviseFreq curFreq
  if realFreq ≠ realCurFreq then [.pmuSysFreqConfig realFreq, .halCmuSysSetFreq realFreq] else []

def lowerCalls (curFreq freq : CmuFreq) : List HwCall :=
  let realFreq := s.halSysfreqReviseFreq freq
  let realCurFreq := s.halSysfreqReviseFreq curFreq
  if realFreq ≠ realCurFreq then [.halCmuSysSetFreq realFreq, .pmuSysFreqConfig realFreq] else []

def reqCalls (user : Nat) (freq : CmuFreq) : List HwCall :=
  if userQty ≤ user then []
  else if qty ≤ freq then []
  else
    let curFreq := s.halSysfreqGet
    let s := { s with sysfreqPerUser := Function.update s.sysfreqPerUser user freq }
    if freq = curFreq then []
    else if curFreq < freq then s.raiseCalls curFreq freq
    else if s.topUser = user ∨ s.topUser = userQty then
      let freq := if s.topUser = user then s.findTop.1 else freq
      if freq ≠ curFreq then s.lowerCalls curFreq freq else []
    else []

def hwCalls : Op → List HwCall
  | .req user freq => s.reqCalls user freq
  | .setMinFreq freq => s.setMinFreqCalls freq
  | .incMinFreq freq => if s.minSysfreq < freq then s.setMinFreqCalls freq else []

end State

/-- What the PMU was last configured for and what was last passed to `hal_cmu_sys_set_freq`. -/
structure Hw where
  pmu : CmuFreq
  clock : CmuFreq
  deriving DecidableEq, Repr

def Hw.apply (hw : Hw) : HwCall → Hw
  | .pmuSysFreqConfig freq => { hw with pmu := freq }
  | .halCmuSysSetFreq freq => { hw with clock := freq }

/-- Before, between and behind the calls the PMU is configured for at least the clock. -/
def Hw.Covers : Hw → List HwCall → Prop
  | hw, [] => hw.clock ≤ hw.pmu
  | hw, call :: calls => hw.clock ≤ hw.pmu ∧ (hw.apply call).Covers calls

instance Hw.decidableCovers : (hw : Hw) → (calls : List HwCall) → Decidable (hw.Covers calls)
  | hw, [] => inferInstanceAs (Decidable (hw.clock ≤ hw.pmu))
  | hw, call :: calls =>
      have : Decidable ((hw.apply call).Covers calls) := Hw.decidableCovers (hw.apply call) calls
      inferInstanceAs (Decidable (_ ∧ _))

structure Board where
  sysfreq : State
  hw : Hw

namespace Board

def call (b : Board) (op : Op) : Board := ⟨b.sysfreq.call op, (b.sysfreq.hwCalls op).foldl Hw.apply b.hw⟩

def step (b : Board) (op : Op) : Option Board := some (b.call op)

/-- At every moment of the call the PMU is configured for at least the clock. -/
def Covered (b : Board) (op : Op) : Prop := b.hw.Covers (b.sysfreq.hwCalls op)

end Board

/-- The frequencies below the one that stands for 32K. -/
def Low (freq : CmuFreq) : Prop := freq32K < freq ∧ freq < freq26M

instance : DecidablePred Low := fun _ => inferInstanceAs (Decidable (_ ∧ _))

/-- The minimum stays within what the PMU is configured for. The highest request does not rise from 32K to a
lower clock, nor fall to 32K and thereby raise the clock above what the PMU is configured for. -/
def Board.Orderly (b : Board) : Op → Prop
  | .req user freq =>
      user < userQty → freq < qty → b.sysfreq.minSysfreq < freq26M →
        let highest := (b.sysfreq.demand.call (.req user freq)).highest
        ¬ (b.sysfreq.halSysfreqGet = freq32K ∧ Low highest) ∧
          ¬ (Low b.sysfreq.halSysfreqGet ∧ highest = freq32K ∧ b.hw.pmu < freq26M)
  | .setMinFreq freq => freq ≤ b.hw.pmu
  | .incMinFreq freq => freq ≤ b.hw.pmu

/-! ### The calls -/

namespace State

variable {s : State} {user : Nat} {freq cur next : CmuFreq}

theorem setMinFreqCalls_eq (hs : Inv s) (freq : CmuFreq) :
    s.setMinFreqCalls freq =
      if s.cmuSysFreq = max freq (raise32K s.halSysfreqGet) then []
      else [.halCmuSysSetFreq (max freq (raise32K s.halSysfreqGet))] := by
  have hclock := hs.clock_eq
  have hnew : { s with minSysfreq := freq }.halSysfreqReviseFreq s.halSysfreqGet =
      max freq (raise32K s.halSysfreqGet) := halSysfreqReviseFreq_eq ..
  simp only [setMinFreqCalls, hnew, ← hclock]
  by_cases hsame : s.minSysfreq = freq
  · have hkeep : s.cmuSysFreq = max freq (raise32K s.halSysfreqGet) := by
      rw [hclock, halSysfreqReviseFreq_eq, hsame]
    rw [if_neg (not_not.mpr hsame), if_pos hkeep]
  · simp only [ne_eq, hsame, not_false_eq_true, if_true, ite_not]

theorem cmuSysFreq_setMinFreq (hs : Inv s) (hfreq : freq < qty) :
    (s.halSysfreqSetMinFreq freq).cmuSysFreq = max freq (raise32K s.halSysfreqGet) := by
  have hclock := hs.clock_eq
  have hnew : { s with minSysfreq := freq }.halSysfreqReviseFreq s.halSysfreqGet =
      max freq (raise32K s.halSysfreqGet) := halSysfreqReviseFreq_eq ..
  simp only [halSysfreqSetMinFreq, hnew, ← hclock, halCmuSysSetFreq_eq (max_lt hfreq (raise32K_lt hs.get_lt))]
  by_cases hsame : s.minSysfreq = freq
  · rw [if_neg (not_not.mpr hsame), hclock, halSysfreqReviseFreq_eq, hsame]
  · rw [if_pos hsame]
    split
    case isTrue => rfl
    case isFalse heq => exact not_not.mp heq

/-- The calls of a request go by the highest request before and after it. -/
theorem reqCalls_eq (hs : Inv s) (huser : user < userQty) (hfreq : freq < qty) :
    let highest := (s.demand.call (.req user freq)).highest
    s.reqCalls user freq =
      if highest = s.halSysfreqGet then []
      else if s.halSysfreqGet < highest then s.raiseCalls s.halSysfreqGet highest
      else s.lowerCalls s.halSysfreqGet highest := by
  intro highest
  have hself : Function.update s.sysfreqPerUser user freq user = freq := Function.update_self ..
  have hhighest (u : Nat) (hu : u < userQty) (hmax : ∀ v < userQty,
      Function.update s.sysfreqPerUser user freq v ≤ Function.update s.sysfreqPerUser user freq u) :
      highest = Function.update s.sysfreqPerUser user freq u := Demand.highest_eq hu hmax
  simp only [reqCalls, if_neg (not_le.mpr huser), if_neg (not_le.mpr hfreq)]
  rcases lt_trichotomy freq s.halSysfreqGet with hless | hsame | hmore
  · rw [if_neg hless.ne, if_neg hless.not_gt]
    by_cases htop : s.topUser = user
    · -- the holder asks for less: the scan finds the highest
      subst htop
      obtain ⟨hlt, hbest, hmax⟩ := findTop_spec { s with
        sysfreqPerUser := Function.update s.sysfreqPerUser s.topUser freq }
      have hnew := hhighest _ hlt fun u hu => (hmax u hu).trans hbest.le
      have hle : highest ≤ s.halSysfreqGet := by
        rw [hnew]
        exact hs.request_le_update le_rfl hless.le hlt
      rw [if_neg hle.not_gt]
      simp only [true_or, if_true, hbest, ← hnew, ne_eq, ite_not]
      rfl
    · rcases hs.top_le.lt_or_eq with hset | hunset
      · -- another user holds the maximum and keeps it
        have hkeep : Function.update s.sysfreqPerUser user freq s.topUser = s.sysfreqPerUser s.topUser :=
          Function.update_of_ne htop ..
        have hnew := hhighest _ hset fun u hu => by
          rw [hkeep, ← Inv.get_set hset]
          exact hs.request_le_update le_rfl hless.le hu
        rw [hkeep, ← Inv.get_set hset] at hnew
        rw [if_neg (by simp only [htop, hset.ne, or_self, not_false_eq_true]), if_pos hnew]
      · -- the first request asks for less than what the boot code left
        have hnew := hhighest user huser fun u hu => by
          rw [hself, Function.update_apply]
          split
          · exact le_rfl
          · rw [(hs.unset hunset).1 u]
            exact (bot_le : freq32K ≤ freq)
        rw [hself] at hnew
        rw [hnew, if_neg hless.ne, if_neg hless.not_gt]
        simp only [hunset, or_true, if_true, if_neg (fun h => htop (hunset.trans h)), ne_eq, hless.ne,
          not_false_eq_true]
        rfl
  · have hnew := hhighest user huser fun u hu => by
      rw [hself]
      exact hs.request_le_update hsame.ge le_rfl hu
    rw [if_pos hsame, if_pos (hnew.trans (hself.trans hsame))]
  · have hnew := hhighest user huser fun u hu => by
      rw [hself]
      exact hs.request_le_update hmore.le le_rfl hu
    rw [hself] at hnew
    rw [hnew, if_neg hmore.ne', if_pos hmore, if_neg hmore.ne', if_pos hmore]
    rfl

theorem highest_req (hs : Inv s) (huser : user < userQty) (hfreq : freq < qty) :
    let highest := (s.demand.call (.req user freq)).highest
    highest < qty ∧ (s.halSysfreqReq user freq).2.cmuSysFreq = s.halSysfreqReviseFreq highest := by
  intro highest
  obtain ⟨top, htop, hmax, heq⟩ := halSysfreqReq_spec hs huser hfreq
  have hhighest : highest = Function.update s.sysfreqPerUser user freq top := Demand.highest_eq htop hmax
  have hlt : highest < qty := by
    rw [hhighest]
    exact hs.request_lt_update hfreq top
  let s' : State := { s with
    sysfreqPerUser := Function.update s.sysfreqPerUser user freq
    topUser := top }
  have hswitch : s'.switchClock s.halSysfreqGet highest = _ := switchClock_eq hs.min_lt hlt hs.clock_eq
  rw [heq, ← hhighest]
  exact ⟨hlt, congrArg State.cmuSysFreq hswitch⟩

end State

/-! ### What covers the clock -/

section Covers

variable {s : State} {hw : Hw} {cur next : CmuFreq}

theorem Hw.Covers.clock_le {hw : Hw} {calls : List HwCall} (h : hw.Covers calls) :
    (calls.foldl Hw.apply hw).clock ≤ (calls.foldl Hw.apply hw).pmu := by
  induction calls generalizing hw with
  | nil => exact h
  | cons call calls ih => exact ih h.2

theorem covers_raiseCalls (hclock : hw.clock = s.halSysfreqReviseFreq cur) (hle : hw.clock ≤ hw.pmu) :
    hw.Covers (s.raiseCalls cur next) ↔ s.halSysfreqReviseFreq cur ≤ s.halSysfreqReviseFreq next := by
  simp only [State.raiseCalls, ne_eq, ite_not]
  split
  case isTrue hsame => simp only [Hw.Covers, hle, hsame, le_refl]
  case isFalse =>
    rw [hclock] at hle
    simp only [Hw.Covers, Hw.apply, hclock, hle, le_refl, true_and, and_true]

theorem covers_lowerCalls (hclock : hw.clock = s.halSysfreqReviseFreq cur) (hle : hw.clock ≤ hw.pmu) :
    hw.Covers (s.lowerCalls cur next) ↔ s.halSysfreqReviseFreq next ≤ hw.pmu := by
  simp only [State.lowerCalls, ne_eq, ite_not]
  split
  case isTrue hsame => simp only [Hw.Covers, hle, hsame, ← hclock]
  case isFalse => simp only [Hw.Covers, Hw.apply, hle, le_refl, true_and, and_true]

/-- The revised frequency follows the requested one, except from 32K to a low one. -/
theorem revise_le_of_lt (hless : cur < next) :
    s.halSysfreqReviseFreq cur ≤ s.halSysfreqReviseFreq next ↔
      (s.minSysfreq < freq26M → ¬ (cur = freq32K ∧ Low next)) := by
  have hnext : next ≠ freq32K := (lt_of_le_of_lt (bot_le : freq32K ≤ cur) hless).ne'
  rw [State.halSysfreqReviseFreq_eq, State.halSysfreqReviseFreq_eq, raise32K, raise32K, if_neg hnext]
  by_cases hcur : cur = freq32K
  · subst hcur
    rw [if_pos rfl, max_le_iff, and_iff_right (le_max_left _ _), le_max_iff]
    simp only [Low, hless, true_and, not_lt]
    constructor
    · intro h hmin
      exact h.resolve_left (not_le.mpr hmin)
    · intro h
      exact (le_or_gt freq26M s.minSysfreq).imp_right h
  · rw [if_neg hcur]
    simp only [hcur, false_and, not_false_eq_true, implies_true, iff_true]
    exact max_le_max le_rfl hless.le

theorem revise_le_of_gt {pmu : CmuFreq} (hless : next < cur) (hpmu : s.halSysfreqReviseFreq cur ≤ pmu) :
    s.halSysfreqReviseFreq next ≤ pmu ↔
      (s.minSysfreq < freq26M → ¬ (Low cur ∧ next = freq32K ∧ pmu < freq26M)) := by
  have hcur : cur ≠ freq32K := (lt_of_le_of_lt (bot_le : freq32K ≤ next) hless).ne'
  rw [State.halSysfreqReviseFreq_eq, raise32K, if_neg hcur, max_le_iff] at hpmu
  rw [State.halSysfreqReviseFreq_eq, raise32K, max_le_iff]
  by_cases hnext : next = freq32K
  · subst hnext
    simp only [if_true, hpmu.1, true_and, Low, hless, not_and, not_lt]
    constructor
    · intro h _ _
      exact h
    · intro h
      by_contra hlow
      have hpmuLow := not_le.mp hlow
      exact hlow (h (hpmu.1.trans_lt hpmuLow) (hpmu.2.trans_lt hpmuLow))
  · rw [if_neg hnext]
    simp only [hpmu.1, hless.le.trans hpmu.2, hnext, false_and, and_false, not_false_eq_true, implies_true,
      and_self]

/-- A request leaves the clock at the revised frequency, and the PMU at that or as it was. -/
theorem foldl_raiseCalls (hclock : hw.clock = s.halSysfreqReviseFreq cur) :
    let hw' := (s.raiseCalls cur next).foldl Hw.apply hw
    hw'.clock = s.halSysfreqReviseFreq next ∧ (hw'.pmu = hw.pmu ∨ hw'.pmu = s.halSysfreqReviseFreq next) := by
  simp only [State.raiseCalls, ne_eq, ite_not]
  split
  case isTrue hsame => exact ⟨hclock.trans hsame.symm, .inl rfl⟩
  case isFalse => exact ⟨rfl, .inr rfl⟩

theorem foldl_lowerCalls (hclock : hw.clock = s.halSysfreqReviseFreq cur) :
    let hw' := (s.lowerCalls cur next).foldl Hw.apply hw
    hw'.clock = s.halSysfreqReviseFreq next ∧ (hw'.pmu = hw.pmu ∨ hw'.pmu = s.halSysfreqReviseFreq next) := by
  simp only [State.lowerCalls, ne_eq, ite_not]
  split
  case isTrue hsame => exact ⟨hclock.trans hsame.symm, .inl rfl⟩
  case isFalse => exact ⟨rfl, .inr rfl⟩

end Covers

/-! ### Every sequence of calls -/

/-- The PMU covers the clock, which is the one of `hal_sysfreq`. -/
structure Board.Inv (b : Board) : Prop where
  sysfreq : Sysfreq.Inv b.sysfreq
  clock : b.hw.clock = b.sysfreq.cmuSysFreq
  covered : b.hw.clock ≤ b.hw.pmu
  pmu_lt : b.hw.pmu < qty

namespace Board

variable {b : Board} {user : Nat} {freq : CmuFreq} {op : Op}

namespace Inv

theorem hw_clock (h : b.Inv) : b.hw.clock = b.sysfreq.halSysfreqReviseFreq b.sysfreq.halSysfreqGet :=
  h.clock.trans h.sysfreq.clock_eq

theorem covered_setMinFreq (h : b.Inv) (freq : CmuFreq) :
    b.hw.Covers (b.sysfreq.setMinFreqCalls freq) ↔ freq ≤ b.hw.pmu := by
  have hrequest : raise32K b.sysfreq.halSysfreqGet ≤ b.hw.pmu := by
    refine le_trans ?_ h.covered
    rw [h.hw_clock, State.halSysfreqReviseFreq_eq]
    exact le_max_right _ _
  rw [State.setMinFreqCalls_eq h.sysfreq]
  split
  case isTrue hsame =>
    have hfreq : freq ≤ b.hw.clock := by
      rw [h.clock, hsame]
      exact le_max_left _ _
    simp only [Hw.Covers, h.covered, hfreq.trans h.covered]
  case isFalse => simp only [Hw.Covers, Hw.apply, h.covered, true_and, max_le_iff, hrequest, and_true]

theorem covered_req (h : b.Inv) (huser : user < userQty) (hfreq : freq < qty) :
    b.hw.Covers (b.sysfreq.reqCalls user freq) ↔ b.Orderly (.req user freq) := by
  have hclock := h.hw_clock
  have hpmu := h.covered
  rw [State.reqCalls_eq h.sysfreq huser hfreq]
  simp only [Orderly, huser, hfreq, forall_const]
  generalize (b.sysfreq.demand.call (.req user freq)).highest = highest
  rcases lt_trichotomy highest b.sysfreq.halSysfreqGet with hless | hsame | hmore
  · have hget : b.sysfreq.halSysfreqGet ≠ freq32K := (lt_of_le_of_lt (bot_le : freq32K ≤ highest) hless).ne'
    rw [if_neg hless.ne, if_neg hless.not_gt, covers_lowerCalls hclock hpmu, revise_le_of_gt hless (hclock ▸ hpmu)]
    simp only [hget, false_and, not_false_eq_true, true_and]
  · rw [if_pos hsame, hsame]
    simp only [Hw.Covers, hpmu, Low, true_iff]
    intro _
    refine ⟨?_, ?_⟩
    · rintro ⟨hget, hlow, -⟩
      exact hlow.ne' hget
    · rintro ⟨⟨hlow, -⟩, hget, -⟩
      exact hlow.ne' hget
  · have hhighest : highest ≠ freq32K := (lt_of_le_of_lt (bot_le : freq32K ≤ _) hmore).ne'
    rw [if_neg hmore.ne', if_pos hmore, covers_raiseCalls hclock hpmu, revise_le_of_lt hmore]
    simp only [hhighest, false_and, and_false, not_false_eq_true, and_true]

theorem covered_iff (h : b.Inv) (op : Op) : b.Covered op ↔ b.Orderly op := by
  cases op with
  | req user freq =>
      by_cases huser : user < userQty
      · by_cases hfreq : freq < qty
        · exact h.covered_req huser hfreq
        · simp only [Covered, Orderly, State.hwCalls, State.reqCalls, if_neg (not_le.mpr huser),
            if_pos (not_lt.mp hfreq), Hw.Covers, h.covered, hfreq, false_implies, implies_true]
      · simp only [Covered, Orderly, State.hwCalls, State.reqCalls, if_pos (not_lt.mp huser), Hw.Covers,
          h.covered, huser, false_implies]
  | setMinFreq freq => exact h.covered_setMinFreq freq
  | incMinFreq freq =>
      simp only [Covered, Orderly, State.hwCalls]
      split
      case isTrue => exact h.covered_setMinFreq freq
      case isFalse hnot =>
        have hfreq : freq ≤ b.hw.clock := by
          rw [h.hw_clock, State.halSysfreqReviseFreq_eq]
          exact (not_lt.mp hnot).trans (le_max_left _ _)
        simp only [Hw.Covers, h.covered, hfreq.trans h.covered]

theorem setMinFreq (h : b.Inv) (hfreq : freq ≤ b.hw.pmu) :
    Board.Inv ⟨b.sysfreq.halSysfreqSetMinFreq freq, (b.sysfreq.setMinFreqCalls freq).foldl Hw.apply b.hw⟩ := by
  have hlt := hfreq.trans_lt h.pmu_lt
  have hcovers := (h.covered_setMinFreq freq).mpr hfreq
  refine ⟨(h.sysfreq.setMinFreq hlt).1, ?_, hcovers.clock_le, ?_⟩
  · rw [State.cmuSysFreq_setMinFreq h.sysfreq hlt, State.setMinFreqCalls_eq h.sysfreq]
    split
    case isTrue hsame => exact h.clock.trans hsame
    case isFalse => rfl
  · rw [State.setMinFreqCalls_eq h.sysfreq]
    split
    case isTrue => exact h.pmu_lt
    case isFalse => exact h.pmu_lt

theorem req (h : b.Inv) (huser : user < userQty) (hfreq : freq < qty) (horderly : b.Orderly (.req user freq)) :
    (b.call (.req user freq)).Inv := by
  obtain ⟨hlt, hclock⟩ := State.highest_req h.sysfreq huser hfreq
  have hcovers : b.Covered (.req user freq) := (h.covered_req huser hfreq).mpr horderly
  have hhw : (b.call (.req user freq)).hw.clock =
        b.sysfreq.halSysfreqReviseFreq (b.sysfreq.demand.call (.req user freq)).highest ∧
      ((b.call (.req user freq)).hw.pmu = b.hw.pmu ∨ (b.call (.req user freq)).hw.pmu =
        b.sysfreq.halSysfreqReviseFreq (b.sysfreq.demand.call (.req user freq)).highest) := by
    simp only [call, State.hwCalls, State.reqCalls_eq h.sysfreq huser hfreq]
    split
    case isTrue hsame => exact ⟨h.hw_clock.trans (congrArg _ hsame.symm), .inl rfl⟩
    case isFalse =>
      split
      case isTrue => exact foldl_raiseCalls h.hw_clock
      case isFalse => exact foldl_lowerCalls h.hw_clock
  refine ⟨(h.sysfreq.req huser hfreq).1, hhw.1.trans hclock.symm, hcovers.clock_le, ?_⟩
  rcases hhw.2 with hpmu | hpmu
  · rw [hpmu]
    exact h.pmu_lt
  · rw [hpmu]
    exact State.revise_lt h.sysfreq.min_lt hlt

theorem call (h : b.Inv) (horderly : b.Orderly op) : (b.call op).Inv := by
  cases op with
  | req user freq =>
      by_cases haccepted : user < userQty ∧ freq < qty
      · exact h.req haccepted.1 haccepted.2 horderly
      · have hrefused : b.call (.req user freq) = b := by
          simp only [Board.call, State.call, State.hwCalls, State.halSysfreqReq, State.reqCalls]
          split
          · rfl
          · rename_i huser
            rw [if_pos (not_lt.mp fun hfreq => haccepted ⟨not_le.mp huser, hfreq⟩),
              if_pos (not_lt.mp fun hfreq => haccepted ⟨not_le.mp huser, hfreq⟩)]
            rfl
        rw [hrefused]
        exact h
  | setMinFreq freq => exact h.setMinFreq horderly
  | incMinFreq freq =>
      simp only [Board.call, State.call, State.halSysfreqIncMinFreq, State.hwCalls]
      split
      case isTrue => exact h.setMinFreq horderly
      case isFalse => exact h

end Inv

/-- The PMU covers the clock all along exactly in the orderly sequences of calls, from wherever the accepted calls
before have left `hal_sysfreq`. -/
theorem covered_iff_orderly {clock : CmuFreq} (hlow : freq26M ≤ clock) (hhigh : clock < qty) {before : List Op}
    (haccepted : ∀ op ∈ before, op.Accepted) (ops : List Op) :
    let s := before.foldl State.call (.boot clock)
    let b : Board := ⟨s, s.cmuSysFreq, s.cmuSysFreq⟩
    Along step Covered b ops ↔ Along step Orderly b ops := by
  intro s b
  have hs : Sysfreq.Inv s := ((inv_boot hlow hhigh).calls haccepted).1
  have hinv : b.Inv := by
    refine ⟨hs, rfl, le_rfl, ?_⟩
    change s.cmuSysFreq < qty
    rw [hs.clock_eq]
    exact State.revise_lt hs.min_lt hs.get_lt
  exact along_iff_of_invariant Board.Inv (fun b op h => h.covered_iff op)
    (fun b op b' h horderly hstep => Option.some.inj hstep ▸ h.call horderly) hinv

theorem covered_iff_orderly_lowered :
    let s := [Op.req 0 freq104M].foldl State.call (.boot freq26M)
    let b : Board := ⟨s, s.cmuSysFreq, s.cmuSysFreq⟩
    let ops := [Op.incMinFreq freq104M, .req 4 freq208M, .req 4 freq32K, .setMinFreq freq52M]
    Along step Covered b ops ↔ Along step Orderly b ops :=
  covered_iff_orderly (by decide) (by decide) (by decide) _

instance : DecidablePred b.Covered := fun op => Hw.decidableCovers b.hw (b.sysfreq.hwCalls op)

/-- The minimum raises the clock and the PMU is not told. -/
theorem setMinFreq_not_covered :
    ¬ Along step Covered ⟨.boot freq26M, freq26M, freq26M⟩ [.setMinFreq freq52M] := by
  decide

/-- A request for 13M behind one for 32K configures the PMU below the clock. -/
example : ¬ Along step Covered ⟨.boot freq26M, freq26M, freq26M⟩ [.req 0 freq32K, .req 0 freq13M] := by
  decide

end Board

end Best1307.Sysfreq
