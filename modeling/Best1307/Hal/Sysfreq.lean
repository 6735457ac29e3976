import Mathlib.Data.Finset.Lattice.Fold
import Mathlib.Order.Lattice
import Best1307.Lib.Run

/-!
# The arbitration of the system frequency

Each user asks for a frequency; the clock runs at the highest one asked for, or at `min_sysfreq` where that
is higher. The maximum is not computed anew on every call: `top_user` caches a user who holds it, and is
unset until the first request.
-/

namespace Best1307.Sysfreq

/-- `HAL_CMU_FREQ_T` -/
inductive CmuFreq
  | freq32K | freq6P5M | freq13M | freq26M | freq52M | freq78M | freq104M | freq144M | freq208M | qty
  deriving DecidableEq, Repr

namespace CmuFreq

def toNat : CmuFreq → Nat
  | freq32K => 0
  | freq6P5M => 1
  | freq13M => 2
  | freq26M => 3
  | freq52M => 4
  | freq78M => 5
  | freq104M => 6
  | freq144M => 7
  | freq208M => 8
  | qty => 9

theorem toNat_injective : Function.Injective toNat := by
  intro f g
  cases f <;> cases g <;> decide

instance : LinearOrder CmuFreq := LinearOrder.lift' toNat toNat_injective

instance : OrderBot CmuFreq where
  bot := freq32K
  bot_le _ := Nat.zero_le _

end CmuFreq

open CmuFreq

/-- `HAL_SYSFREQ_USER_QTY` -/
def userQty : Nat := 39

/-- The static variables, and the frequency of the last `hal_cmu_sys_set_freq` that took effect. -/
structure State where
  sysfreqPerUser : Nat → CmuFreq
  topUser : Nat
  minSysfreq : CmuFreq
  cmuSysFreq : CmuFreq

/-- The static initialisers; boot code has set the clock to `clock` before. -/
def State.boot (clock : CmuFreq) : State := ⟨fun _ => freq32K, userQty, freq32K, clock⟩

/-- `hal_cmu_sys_get_freq` reads the clock registers back. Built without `LOW_SYS_FREQ`,
`hal_cmu_sys_set_freq` runs the two lowest crystal divisions at 26M. -/
def halCmuSysGetFreq : CmuFreq → CmuFreq
  | freq6P5M => freq26M
  | freq13M => freq26M
  | freq => freq

namespace State

variable (s : State)

def halCmuSysSetFreq (freq : CmuFreq) : State := if qty ≤ freq then s else { s with cmuSysFreq := freq }

def halSysfreqReviseFreq (freq : CmuFreq) : CmuFreq :=
  let freq := if freq = freq32K then freq26M else freq
  if s.minSysfreq < freq then freq else s.minSysfreq

def halSysfreqGet : CmuFreq :=
  if s.topUser < userQty then s.sysfreqPerUser s.topUser else halCmuSysGetFreq s.cmuSysFreq

def halSysfreqSetMinFreq (freq : CmuFreq) : State :=
  if s.minSysfreq ≠ freq then
    let curFreq := s.halSysfreqGet
    let oldRevisedFreq := s.halSysfreqReviseFreq curFreq
    let s := { s with minSysfreq := freq }
    let newRevisedFreq := s.halSysfreqReviseFreq curFreq
    if oldRevisedFreq ≠ newRevisedFreq then s.halCmuSysSetFreq newRevisedFreq else s
  else s

/-- `hal_sysfreq_inc_min_freq`, with the minimum it returns. -/
def halSysfreqIncMinFreq (freq : CmuFreq) : CmuFreq × State :=
  (s.minSysfreq, if s.minSysfreq < freq then s.halSysfreqSetMinFreq freq else s)

/-- The loop that looks for the next `top_user` when the old one asks for less. -/
def findTop : CmuFreq × Nat :=
  (List.range' 1 (userQty - 1)).foldl
    (fun best i => if best.1 < s.sysfreqPerUser i then (s.sysfreqPerUser i, i) else best)
    (s.sysfreqPerUser 0, 0)

/-- The clock is switched if the revised frequencies differ. -/
def switchClock (curFreq freq : CmuFreq) : State :=
  let realFreq := s.halSysfreqReviseFreq freq
  let realCurFreq := s.halSysfreqReviseFreq curFreq
  if realFreq ≠ realCurFreq then s.halCmuSysSetFreq realFreq else s

/-- `hal_sysfreq_req`, with what it returns. -/
def halSysfreqReq (user : Nat) (freq : CmuFreq) : Nat × State :=
  if userQty ≤ user then (1, s)
  else if qty ≤ freq then (2, s)
  else
    let curFreq := s.halSysfreqGet
    let s := { s with sysfreqPerUser := Function.update s.sysfreqPerUser user freq }
    if freq = curFreq then (0, { s with topUser := user })
    else if curFreq < freq then (0, { s with topUser := user }.switchClock curFreq freq)
    else if s.topUser = user ∨ s.topUser = userQty then
      let (freq, user) := if s.topUser = user then s.findTop else (freq, user)
      let s := { s with topUser := user }
      if freq ≠ curFreq then (0, s.switchClock curFreq freq) else (0, s)
    else (0, s)

end State

inductive Op
  | req (user : Nat) (freq : CmuFreq)
  | setMinFreq (freq : CmuFreq)
  | incMinFreq (freq : CmuFreq)
  deriving DecidableEq, Repr

/-- The user exists, the frequency is one the clock has. -/
def Op.Accepted : Op → Prop
  | req user freq => user < userQty ∧ freq < qty
  | setMinFreq freq => freq < qty
  | incMinFreq freq => freq < qty

instance : DecidablePred Op.Accepted
  | .req _ _ => inferInstanceAs (Decidable (_ ∧ _))
  | .setMinFreq _ => inferInstanceAs (Decidable (_ < _))
  | .incMinFreq _ => inferInstanceAs (Decidable (_ < _))

def Op.IsReq : Op → Prop
  | req _ _ => True
  | _ => False

instance : DecidablePred Op.IsReq
  | .req _ _ => inferInstanceAs (Decidable True)
  | .setMinFreq _ => inferInstanceAs (Decidable False)
  | .incMinFreq _ => inferInstanceAs (Decidable False)

def State.call (s : State) : Op → State
  | .req user freq => (s.halSysfreqReq user freq).2
  | .setMinFreq freq => s.halSysfreqSetMinFreq freq
  | .incMinFreq freq => (s.halSysfreqIncMinFreq freq).2

/-! ### What is asked for -/

/-- 32K is raised to 26M. -/
def raise32K (freq : CmuFreq) : CmuFreq := if freq = freq32K then freq26M else freq

/-- The last request of every user and the minimum set last. -/
structure Demand where
  requests : Nat → CmuFreq
  minimum : CmuFreq

namespace Demand

def none : Demand := ⟨fun _ => freq32K, freq32K⟩

def call (d : Demand) : Op → Demand
  | .req user freq => { d with requests := Function.update d.requests user freq }
  | .setMinFreq freq => { d with minimum := freq }
  | .incMinFreq freq => { d with minimum := max d.minimum freq }

def highest (d : Demand) : CmuFreq := (Finset.range userQty).sup d.requests

def frequency (d : Demand) : CmuFreq := max d.minimum (raise32K d.highest)

theorem le_highest (d : Demand) {user : Nat} (huser : user < userQty) : d.requests user ≤ d.highest :=
  Finset.le_sup (Finset.mem_range.mpr huser)

theorem highest_eq {d : Demand} {user : Nat} (huser : user < userQty)
    (hmax : ∀ u < userQty, d.requests u ≤ d.requests user) : d.highest = d.requests user :=
  le_antisymm (Finset.sup_le fun u hu => hmax u (Finset.mem_range.mp hu)) (d.le_highest huser)

end Demand

def State.demand (s : State) : Demand := ⟨s.sysfreqPerUser, s.minSysfreq⟩

/-! ### The operations -/

theorem le_raise32K (freq : CmuFreq) : freq ≤ raise32K freq := by
  cases freq <;> decide

theorem raise32K_of_le {freq : CmuFreq} (h : freq26M ≤ freq) : raise32K freq = freq :=
  if_neg fun heq => absurd (heq ▸ h) (by decide)

theorem raise32K_lt {freq : CmuFreq} (h : freq < qty) : raise32K freq < qty := by
  rw [raise32K]
  split
  · decide
  · exact h

theorem halCmuSysGetFreq_eq {freq : CmuFreq} (h : freq26M ≤ freq) : halCmuSysGetFreq freq = freq := by
  cases freq <;> first | rfl | exact absurd h (by decide)

namespace State

variable {s : State} {user : Nat} {freq curFreq : CmuFreq}

theorem halSysfreqReviseFreq_eq (s : State) (freq : CmuFreq) :
    s.halSysfreqReviseFreq freq = max s.minSysfreq (raise32K freq) := by
  rw [max_def_lt]
  rfl

theorem halCmuSysSetFreq_eq (h : freq < qty) : s.halCmuSysSetFreq freq = { s with cmuSysFreq := freq } :=
  if_neg (not_le.mpr h)

theorem revise_lt (hmin : s.minSysfreq < qty) (h : freq < qty) : s.halSysfreqReviseFreq freq < qty := by
  rw [halSysfreqReviseFreq_eq]
  exact max_lt hmin (raise32K_lt h)

/-- Once the clock runs at the revised old frequency it runs at the revised new one. -/
theorem switchClock_eq (hmin : s.minSysfreq < qty) (h : freq < qty)
    (hclock : s.cmuSysFreq = s.halSysfreqReviseFreq curFreq) :
    s.switchClock curFreq freq = { s with cmuSysFreq := s.halSysfreqReviseFreq freq } := by
  rw [switchClock]
  by_cases hsame : s.halSysfreqReviseFreq freq = s.halSysfreqReviseFreq curFreq
  · rw [if_neg (not_not.mpr hsame), hsame, ← hclock]
  · rw [if_pos hsame, halCmuSysSetFreq_eq (revise_lt hmin h)]

/-- The scan ends at a user who holds the highest frequency of those looked at. -/
theorem scan_spec (requests : Nat → CmuFreq) (n : Nat) :
    let best := (List.range' 1 n).foldl
      (fun best i => if best.1 < requests i then (requests i, i) else best) (requests 0, 0)
    best.2 < n + 1 ∧ best.1 = requests best.2 ∧ ∀ u < n + 1, requests u ≤ best.1 := by
  induction n with
  | zero => exact ⟨Nat.zero_lt_one, rfl, fun u hu => by rw [Nat.lt_one_iff.mp hu]; exact le_rfl⟩
  | succ n ih =>
      obtain ⟨hlt, heq, hmax⟩ := ih
      simp only [List.range'_1_concat, List.foldl_append, List.foldl_cons, List.foldl_nil]
      split
      case isTrue hless =>
        refine ⟨by omega, rfl, fun u hu => ?_⟩
        rcases Nat.lt_or_ge u (n + 1) with hu' | hu'
        · exact (hmax u hu').trans hless.le
        · rw [show u = 1 + n by omega]
      case isFalse hnot =>
        refine ⟨by omega, heq, fun u hu => ?_⟩
        rcases Nat.lt_or_ge u (n + 1) with hu' | hu'
        · exact hmax u hu'
        · rw [show u = 1 + n by omega]
          exact not_lt.mp hnot

theorem findTop_spec (s : State) : s.findTop.2 < userQty ∧ s.findTop.1 = s.sysfreqPerUser s.findTop.2 ∧
    ∀ u < userQty, s.sysfreqPerUser u ≤ s.findTop.1 :=
  scan_spec s.sysfreqPerUser (userQty - 1)

end State

/-! ### The invariant -/

/-- Only frequencies the clock has are stored. Until `top_user` is set nobody has asked for anything and the
clock is no slower than the minimum; from then on `top_user` holds the maximum and the clock runs at its
revision. -/
structure Inv (s : State) : Prop where
  min_lt : s.minSysfreq < qty
  request_lt : ∀ u, s.sysfreqPerUser u < qty
  top_le : s.topUser ≤ userQty
  unset : s.topUser = userQty → (∀ u, s.sysfreqPerUser u = freq32K) ∧ freq26M ≤ s.cmuSysFreq ∧
    s.minSysfreq ≤ s.cmuSysFreq ∧ s.cmuSysFreq < qty
  set : s.topUser < userQty → (∀ u < userQty, s.sysfreqPerUser u ≤ s.sysfreqPerUser s.topUser) ∧
    s.cmuSysFreq = s.halSysfreqReviseFreq (s.sysfreqPerUser s.topUser)

theorem inv_boot {clock : CmuFreq} (hlow : freq26M ≤ clock) (hhigh : clock < qty) : Inv (.boot clock) where
  min_lt := show freq32K < qty by decide
  request_lt _ := show freq32K < qty by decide
  top_le := le_rfl
  unset _ := ⟨fun _ => rfl, hlow, (bot_le : freq32K ≤ clock), hhigh⟩
  set h := absurd h (lt_irrefl _)

namespace Inv

variable {s : State} {user : Nat} {freq : CmuFreq}

theorem get_set (h : s.topUser < userQty) : s.halSysfreqGet = s.sysfreqPerUser s.topUser := if_pos h

theorem get_unset (hs : Inv s) (h : s.topUser = userQty) : s.halSysfreqGet = s.cmuSysFreq := by
  rw [State.halSysfreqGet, if_neg (by omega), halCmuSysGetFreq_eq (hs.unset h).2.1]

theorem get_lt (hs : Inv s) : s.halSysfreqGet < qty := by
  rcases hs.top_le.lt_or_eq with h | h
  · rw [get_set h]
    exact hs.request_lt _
  · rw [hs.get_unset h]
    exact (hs.unset h).2.2.2

/-- The clock runs at the revision of what `hal_sysfreq_get` returns, in the unset state too. -/
theorem clock_eq (hs : Inv s) : s.cmuSysFreq = s.halSysfreqReviseFreq s.halSysfreqGet := by
  rcases hs.top_le.lt_or_eq with h | h
  · rw [get_set h]
    exact (hs.set h).2
  · obtain ⟨-, hlow, hmin, -⟩ := hs.unset h
    rw [hs.get_unset h, State.halSysfreqReviseFreq_eq, raise32K_of_le hlow, max_eq_right hmin]

theorem request_le_get (hs : Inv s) {u : Nat} (hu : u < userQty) : s.sysfreqPerUser u ≤ s.halSysfreqGet := by
  rcases hs.top_le.lt_or_eq with h | h
  · rw [get_set h]
    exact (hs.set h).1 u hu
  · rw [(hs.unset h).1 u]
    exact (bot_le : freq32K ≤ _)

theorem of_switch {s' : State} {curFreq : CmuFreq} (hmin : s'.minSysfreq < qty)
    (hrequest : ∀ u, s'.sysfreqPerUser u < qty) (htop : s'.topUser < userQty)
    (hmax : ∀ u < userQty, s'.sysfreqPerUser u ≤ s'.sysfreqPerUser s'.topUser)
    (hclock : s'.cmuSysFreq = s'.halSysfreqReviseFreq curFreq) :
    Inv (s'.switchClock curFreq (s'.sysfreqPerUser s'.topUser)) := by
  rw [State.switchClock_eq hmin (hrequest _) hclock]
  exact {
    min_lt := hmin
    request_lt := hrequest
    top_le := htop.le
    unset := fun h => absurd h htop.ne
    set := fun _ => ⟨hmax, rfl⟩ }

theorem request_lt_update (hs : Inv s) (hfreq : freq < qty) (u : Nat) :
    Function.update s.sysfreqPerUser user freq u < qty := by
  rw [Function.update_apply]
  split
  · exact hfreq
  · exact hs.request_lt u

theorem request_le_update (hs : Inv s) {bound : CmuFreq} (hget : s.halSysfreqGet ≤ bound)
    (hfreq : freq ≤ bound) {u : Nat} (hu : u < userQty) :
    Function.update s.sysfreqPerUser user freq u ≤ bound := by
  rw [Function.update_apply]
  split
  · exact hfreq
  · exact (hs.request_le_get hu).trans hget

theorem setMinFreq (hs : Inv s) (hfreq : freq < qty) :
    Inv (s.halSysfreqSetMinFreq freq) ∧
      (s.halSysfreqSetMinFreq freq).topUser = s.topUser ∧
      (s.halSysfreqSetMinFreq freq).demand = { s.demand with minimum := freq } := by
  rw [State.halSysfreqSetMinFreq]
  by_cases hsame : s.minSysfreq = freq
  · rw [if_neg (not_not.mpr hsame)]
    exact ⟨hs, rfl, by rw [← hsame]; rfl⟩
  rw [if_pos hsame]
  let s' : State := { s with minSysfreq := freq }
  have hnew : s'.halSysfreqReviseFreq s.halSysfreqGet < qty := State.revise_lt hfreq hs.get_lt
  have hinv : Inv { s' with cmuSysFreq := s'.halSysfreqReviseFreq s.halSysfreqGet } := by
    refine ⟨hfreq, hs.request_lt, hs.top_le, fun h => ?_, fun h => ?_⟩
    · obtain ⟨hnone, hlow, -, -⟩ := hs.unset h
      refine ⟨hnone, ?_, ?_, hnew⟩
      · change freq26M ≤ s'.halSysfreqReviseFreq s.halSysfreqGet
        rw [State.halSysfreqReviseFreq_eq, hs.get_unset h]
        exact le_max_of_le_right (hlow.trans (le_raise32K _))
      · change freq ≤ s'.halSysfreqReviseFreq s.halSysfreqGet
        rw [State.halSysfreqReviseFreq_eq]
        exact le_max_left _ _
    · refine ⟨(hs.set h).1, ?_⟩
      change s'.halSysfreqReviseFreq s.halSysfreqGet = s'.halSysfreqReviseFreq (s.sysfreqPerUser s.topUser)
      rw [get_set (s := s) h]
  by_cases hrevised : s.halSysfreqReviseFreq s.halSysfreqGet = s'.halSysfreqReviseFreq s.halSysfreqGet
  · rw [if_neg (not_not.mpr hrevised)]
    have hclock : s' = { s' with cmuSysFreq := s'.halSysfreqReviseFreq s.halSysfreqGet } := by
      rw [← hrevised, ← hs.clock_eq]
    refine ⟨?_, rfl, rfl⟩
    change Inv s'
    rw [hclock]
    exact hinv
  · rw [if_pos hrevised, State.halCmuSysSetFreq_eq hnew]
    exact ⟨hinv, rfl, rfl⟩

end Inv

/-! ### A request -/

@[simp] theorem State.switchClock_self (s : State) (freq : CmuFreq) : s.switchClock freq freq = s :=
  if_neg (not_not.mpr rfl)

theorem State.demand_switchClock (s : State) (curFreq freq : CmuFreq) :
    (s.switchClock curFreq freq).demand = s.demand := by
  rw [switchClock, halCmuSysSetFreq]
  split
  · split <;> rfl
  · rfl

theorem State.topUser_switchClock (s : State) (curFreq freq : CmuFreq) :
    (s.switchClock curFreq freq).topUser = s.topUser := by
  rw [switchClock, halCmuSysSetFreq]
  split
  · split <;> rfl
  · rfl

section Req

variable {s : State} {user : Nat} {freq : CmuFreq}

/-- An accepted request makes `top_user` the holder of the maximum of the new requests and switches the clock
from the old maximum to the new one. -/
theorem State.halSysfreqReq_spec (hs : Inv s) (huser : user < userQty) (hfreq : freq < qty) :
    ∃ top < userQty,
      (∀ u < userQty, Function.update s.sysfreqPerUser user freq u ≤
        Function.update s.sysfreqPerUser user freq top) ∧
      s.halSysfreqReq user freq = (0, { s with
        sysfreqPerUser := Function.update s.sysfreqPerUser user freq
        topUser := top }.switchClock s.halSysfreqGet (Function.update s.sysfreqPerUser user freq top)) := by
  have hself : Function.update s.sysfreqPerUser user freq user = freq := Function.update_self ..
  simp only [halSysfreqReq, if_neg (not_le.mpr huser), if_neg (not_le.mpr hfreq)]
  rcases lt_trichotomy freq s.halSysfreqGet with hless | hsame | hmore
  · rw [if_neg hless.ne, if_neg hless.not_gt]
    by_cases htop : s.topUser = user
    · -- the holder asks for less: the maximum is looked for again
      subst htop
      obtain ⟨hlt, hbest, hmax⟩ := findTop_spec { s with
        sysfreqPerUser := Function.update s.sysfreqPerUser s.topUser freq }
      refine ⟨_, hlt, fun u hu => (hmax u hu).trans hbest.le, ?_⟩
      simp only [true_or, if_true, hbest, ne_eq]
      split
      · rfl
      · rename_i hno
        rw [not_not.mp hno, switchClock_self]
    · rcases hs.top_le.lt_or_eq with hset | hunset
      · -- another user holds the maximum and keeps it
        rw [if_neg (by simp only [htop, hset.ne, or_self, not_false_eq_true])]
        have hkeep : Function.update s.sysfreqPerUser user freq s.topUser = s.sysfreqPerUser s.topUser :=
          Function.update_of_ne htop ..
        refine ⟨s.topUser, hset, fun u hu => ?_, ?_⟩
        · rw [hkeep, ← Inv.get_set hset]
          exact hs.request_le_update le_rfl hless.le hu
        · rw [hkeep, Inv.get_set hset, switchClock_self]
      · -- the first request asks for less than what the boot code left
        refine ⟨user, huser, fun u hu => ?_, ?_⟩
        · rw [hself, Function.update_apply]
          split
          · exact le_rfl
          · rw [(hs.unset hunset).1 u]
            exact (bot_le : freq32K ≤ freq)
        · simp only [hunset, or_true, if_true, hself, if_neg (fun h => htop (hunset.trans h)), ne_eq,
            hless.ne, not_false_eq_true]
  · refine ⟨user, huser, fun u hu => ?_, ?_⟩
    · rw [hself]
      exact hs.request_le_update hsame.ge le_rfl hu
    · rw [if_pos hsame, hself, hsame, switchClock_self]
  · refine ⟨user, huser, fun u hu => ?_, ?_⟩
    · rw [hself]
      exact hs.request_le_update hmore.le le_rfl hu
    · rw [if_neg hmore.ne', if_pos hmore, hself]

theorem Inv.req (hs : Inv s) (huser : user < userQty) (hfreq : freq < qty) :
    Inv (s.halSysfreqReq user freq).2 ∧ (s.halSysfreqReq user freq).2.topUser < userQty ∧
      (s.halSysfreqReq user freq).2.demand = s.demand.call (.req user freq) := by
  obtain ⟨top, htop, hmax, heq⟩ := State.halSysfreqReq_spec hs huser hfreq
  rw [heq]
  refine ⟨Inv.of_switch hs.min_lt (hs.request_lt_update hfreq) htop hmax hs.clock_eq, ?_, ?_⟩
  · rw [State.topUser_switchClock]
    exact htop
  · rw [State.demand_switchClock]
    rfl

end Req

/-! ### Every sequence of calls -/

theorem Inv.call {s : State} {op : Op} (hs : Inv s) (haccepted : op.Accepted) :
    Inv (s.call op) ∧ (s.call op).demand = s.demand.call op ∧
      (s.topUser < userQty ∨ op.IsReq → (s.call op).topUser < userQty) := by
  cases op with
  | req user freq =>
      obtain ⟨hinv, htop, hdemand⟩ := hs.req haccepted.1 haccepted.2
      exact ⟨hinv, hdemand, fun _ => htop⟩
  | setMinFreq freq =>
      obtain ⟨hinv, htop, hdemand⟩ := hs.setMinFreq haccepted
      exact ⟨hinv, hdemand, fun h => htop ▸ h.resolve_right id⟩
  | incMinFreq freq =>
      simp only [State.call, State.halSysfreqIncMinFreq]
      split
      case isTrue hmore =>
        obtain ⟨hinv, htop, hdemand⟩ := hs.setMinFreq haccepted
        refine ⟨hinv, ?_, fun h => htop ▸ h.resolve_right id⟩
        rw [hdemand, Demand.call, State.demand, max_eq_right hmore.le]
      case isFalse hnot =>
        refine ⟨hs, ?_, fun h => h.resolve_right id⟩
        rw [Demand.call, State.demand, max_eq_left (not_lt.mp hnot)]

theorem Inv.calls {s : State} (hs : Inv s) {ops : List Op} (haccepted : ∀ op ∈ ops, op.Accepted) :
    Inv (ops.foldl State.call s) ∧
      (ops.foldl State.call s).demand = ops.foldl Demand.call s.demand ∧
      (s.topUser < userQty ∨ (∃ op ∈ ops, op.IsReq) → (ops.foldl State.call s).topUser < userQty) := by
  induction ops generalizing s with
  | nil => exact ⟨hs, rfl, fun h => h.resolve_right (by simp only [List.not_mem_nil, false_and, exists_false,
      not_false_eq_true])⟩
  | cons op ops ih =>
      obtain ⟨hinv, hdemand, htop⟩ := hs.call (haccepted op List.mem_cons_self)
      obtain ⟨hinv', hdemand', htop'⟩ := ih hinv fun o ho => haccepted o (List.mem_cons_of_mem _ ho)
      rw [hdemand] at hdemand'
      refine ⟨hinv', hdemand', fun h => htop' ?_⟩
      simp only [List.mem_cons, exists_eq_or_imp] at h
      rcases h with h | h | h
      · exact .inl (htop (.inl h))
      · exact .inl (htop (.inr h))
      · exact .inr h

/-- After any accepted calls of which one was a request, `top_user` is a user who asked for the maximum, the
clock was last set to that maximum, revised, and no user asked for more. -/
theorem sysfreq_arbitrates {clock : CmuFreq} (hlow : freq26M ≤ clock) (hhigh : clock < qty) {ops : List Op}
    (haccepted : ∀ op ∈ ops, op.Accepted) (hreq : ∃ op ∈ ops, op.IsReq) :
    let s := ops.foldl State.call (.boot clock)
    let demand := ops.foldl Demand.call .none
    s.topUser < userQty ∧ demand.requests s.topUser = demand.highest ∧ s.cmuSysFreq = demand.frequency ∧
      ∀ user < userQty, demand.requests user ≤ s.cmuSysFreq := by
  intro s demand
  obtain ⟨hinv, hdemand, htop⟩ := (inv_boot hlow hhigh).calls haccepted
  have hset : s.topUser < userQty := htop (.inr hreq)
  have hdemand : s.demand = demand := hdemand
  obtain ⟨hmax, hclock⟩ := hinv.set hset
  have hhighest : demand.highest = demand.requests s.topUser := by
    rw [← hdemand]
    exact Demand.highest_eq hset hmax
  have hfrequency : s.cmuSysFreq = demand.frequency := by
    rw [Demand.frequency, hhighest, ← hdemand]
    exact hclock.trans (State.halSysfreqReviseFreq_eq ..)
  refine ⟨hset, hhighest.symm, hfrequency, fun user huser => ?_⟩
  rw [hfrequency]
  exact ((demand.le_highest huser).trans (le_raise32K _)).trans (le_max_right _ _)

theorem sysfreq_arbitrates_withdrawn :
    let ops := [Op.req 0 freq104M, .incMinFreq freq52M, .req 4 freq208M, .req 4 freq32K]
    let s := ops.foldl State.call (.boot freq26M)
    let demand := ops.foldl Demand.call .none
    s.topUser < userQty ∧ demand.requests s.topUser = demand.highest ∧ s.cmuSysFreq = demand.frequency ∧
      ∀ user < userQty, demand.requests user ≤ s.cmuSysFreq :=
  sysfreq_arbitrates (by decide) (by decide) (by decide) (by decide)

example : (([Op.req 0 freq104M, .incMinFreq freq52M, .req 4 freq208M, .req 4 freq32K].foldl State.call
    (.boot freq26M)).cmuSysFreq) = freq104M := by
  decide +kernel

end Best1307.Sysfreq
