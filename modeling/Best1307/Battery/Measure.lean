import Mathlib.Algebra.Order.Ring.Nat
import Mathlib.Data.Fin.Basic
import Mathlib.Logic.Function.Basic
import Best1307.Lib.Run

/-!
# Level and status of the battery

`app_battery.cpp`: the readings of the ADC, a quarter of the voltage each, are kept in a small ring. The level is first
worked out from single readings, and later, when a message with their mean and its status is handled.
-/

namespace Best1307.Battery

def appBatteryErrMv : Nat := 2800
def appBatteryMinMv : Nat := 3200
def appBatteryMaxMv : Nat := 4200
def appBatteryPdMv : Nat := 3100
def appBatteryLevelMin : Int := 0
def appBatteryLevelMax : Int := 9

/-- `(APP_BATTERY_MAX_MV - APP_BATTERY_PD_MV) / APP_BATTERY_LEVEL_NUM` -/
def appBatteryMvBase : Nat := (appBatteryMaxMv - appBatteryPdMv) / 10

def appBatteryStableCount : Nat := 5
def halGpadcBadValue : Nat := 0xffff

/-- `APP_BATTERY_STATUS_T` -/
inductive Status where
  | normal | charging | overvolt | undervolt | pdvolt | pluginout | invalid
  deriving DecidableEq, Repr

def Status.toNat : Status → Nat
  | normal => 0
  | charging => 1
  | overvolt => 2
  | undervolt => 3
  | pdvolt => 4
  | pluginout => 5
  | invalid => 6

/-! ### Messages -/

/-- `APP_BATTERY_SET_MESSAGE` -/
def setMessage (status : Status) (volt : Nat) : Nat := status.toNat % 2 ^ 16 * 2 ^ 16 + volt % 2 ^ 16

/-- `APP_BATTERY_GET_STATUS`, into a variable of 8 bits -/
def getStatus (appevt : Nat) : Nat := appevt / 2 ^ 16 % 2 ^ 16 % 2 ^ 8

/-- `APP_BATTERY_GET_PRAMS` -/
def getPrams (appevt : Nat) : Nat := appevt % 2 ^ 16

/-! ### Levels -/

/-- A level in 8 bits with a sign, between the least and the greatest one -/
def clampLevel (level : Int) : Int :=
  let level := level.bmod (2 ^ 8)
  let level := if level < appBatteryLevelMin then appBatteryLevelMin else level
  if appBatteryLevelMax < level then appBatteryLevelMax else level

/-- The level in `app_battery_irqhandler`, where the difference has 32 bits and no sign -/
def irqLevel (meanBattVolt : Nat) : Int :=
  clampLevel ((meanBattVolt + 2 ^ 32 - appBatteryPdMv) % 2 ^ 32 / appBatteryMvBase : Nat)

/-- The level in `app_battery_handle_process_normal`, where the difference has a sign -/
def messageLevel (volt : Nat) : Int := clampLevel (((volt : Int) - appBatteryPdMv).tdiv appBatteryMvBase)

/-- The status of a mean, with the bounds that `app_battery_open` sets -/
def statusOf (meanBattVolt : Nat) : Status :=
  if appBatteryMaxMv < meanBattVolt then .overvolt
  else if appBatteryPdMv < meanBattVolt ∧ meanBattVolt < appBatteryMinMv then .undervolt
  else if meanBattVolt < appBatteryPdMv then .pdvolt
  else .normal

/-! ### Readings -/

/-- The part of `app_battery_measure` that readings change; `readings` are the voltages of all of them, the last one
first. -/
structure Measure where
  voltage : Nat → Nat
  index : Nat
  currvolt : Nat
  currlevel : Int
  readings : List Nat

def opened : Measure where
  voltage := fun _ => 0
  index := 0
  currvolt := appBatteryMaxMv
  currlevel := appBatteryLevelMax
  readings := []

/-- Neither the bad value nor a voltage that cannot be -/
def Valid (vbat : Nat) : Prop := vbat ≠ halGpadcBadValue ∧ appBatteryErrMv < vbat * 4

instance (vbat : Nat) : Decidable (Valid vbat) := inferInstanceAs (Decidable (_ ∧ _))

/-- `app_battery_irqhandler`, with the message that `app_battery_event_process` puts in the mailbox -/
def appBatteryIrqhandler (m : Measure) (vbat : Nat) : Measure × Option Nat :=
  if Valid vbat then
    let next : Measure :=
      { m with
        voltage := Function.update m.voltage (m.index % appBatteryStableCount) (vbat * 4 % 2 ^ 16)
        index := (m.index + 1) % 2 ^ 16
        readings := vbat * 4 :: m.readings }
    if appBatteryStableCount < next.index then
      let meanBattVolt := (next.voltage 0 + next.voltage 1 + next.voltage 2 + next.voltage 3 + next.voltage 4) /
        appBatteryStableCount
      (next, some (setMessage (statusOf meanBattVolt) meanBattVolt))
    else ({ next with currvolt := vbat * 4 % 2 ^ 16, currlevel := irqLevel (vbat * 4) }, none)
  else (m, some (setMessage .invalid vbat))

/-- `app_battery_handle_process_normal`, as far as it changes the level -/
def appBatteryHandleProcessNormal (m : Measure) (status : Status) (volt : Nat) : Measure :=
  match status with
  | .undervolt | .normal | .overvolt => { m with currvolt := volt, currlevel := messageLevel volt }
  | .pdvolt | .charging | .pluginout | .invalid => m

abbrev Reading : Type := Fin (2 ^ 16)

def step (m : Measure) (vbat : Reading) : Option Measure := some (appBatteryIrqhandler m vbat).1

/-! ### The laws -/

def meanOf (readings : List Nat) : Nat := (readings.take appBatteryStableCount).sum / appBatteryStableCount

/-- When enough valid readings have been taken, a further one puts the status of the mean in the mailbox. -/
def Reports (m : Measure) (vbat : Reading) : Prop :=
  Valid vbat → appBatteryStableCount ≤ m.readings.length →
    ∃ appevt, (appBatteryIrqhandler m vbat).2 = some appevt ∧
      getStatus appevt = (statusOf (meanOf (vbat * 4 :: m.readings))).toNat ∧
      getPrams appevt = meanOf (vbat * 4 :: m.readings)

/-- From power-down to over-voltage -/
def Status.rank : Status → Nat
  | pdvolt => 0
  | undervolt => 1
  | normal => 2
  | overvolt => 3
  | charging | pluginout | invalid => 4

/-- The laws for two voltages, the second not below the first: each has the same level wherever it is worked out, the
levels do not decrease and are within their bounds; the statuses do not decrease, and a voltage that is not above that
of power-down is not normal. -/
structure Laws (v w : Nat) : Prop where
  level_left : irqLevel v = messageLevel v
  level_right : irqLevel w = messageLevel w
  level_mono : messageLevel v ≤ messageLevel w
  level_bounds : ∀ level ∈ [messageLevel v, messageLevel w], appBatteryLevelMin ≤ level ∧ level ≤ appBatteryLevelMax
  status_mono : (statusOf v).rank ≤ (statusOf w).rank
  not_normal : ∀ mean ∈ [v, w], mean ≤ appBatteryPdMv → statusOf mean ≠ .normal

/-! ### When they hold -/

/-- The counter of the readings has not just begun anew, and the last voltages fit 16 bits. -/
def Counts (m : Measure) (vbat : Reading) : Prop :=
  Valid vbat → appBatteryStableCount ≤ m.readings.length →
    appBatteryStableCount < (m.readings.length + 1) % 2 ^ 16 ∧
      ∀ volt ∈ ((vbat : Nat) * 4 :: m.readings).take appBatteryStableCount, volt < 2 ^ 16

def levelsAbove (v : Nat) : Nat := (v - appBatteryPdMv) / appBatteryMvBase

/-- Both voltages are above that of power-down; and, of the levels they are above it, cut to 8 bits with a sign, those
of the first are not positive, or those of the second are not negative, and are as many, or at least the greatest level.
-/
def InRange (v w : Nat) : Prop :=
  appBatteryPdMv < v ∧ (levelsAbove v % 2 ^ 8 = 0 ∨ 2 ^ 7 ≤ levelsAbove v % 2 ^ 8 ∨
    levelsAbove w % 2 ^ 8 < 2 ^ 7 ∧ (levelsAbove v % 2 ^ 8 ≤ levelsAbove w % 2 ^ 8 ∨ 9 ≤ levelsAbove w % 2 ^ 8))

section Proofs

variable {m m' : Measure} {v w mean : Nat} {vbat : Reading} {status : Status}

theorem getStatus_setMessage : getStatus (setMessage status mean) = status.toNat := by
  have hsmall : status.toNat < 2 ^ 8 := by cases status <;> decide
  have hmod := Nat.mod_lt mean (show 0 < 2 ^ 16 by decide)
  rw [getStatus, setMessage]
  omega

theorem getPrams_setMessage (hmean : mean < 2 ^ 16) : getPrams (setMessage status mean) = mean := by
  rw [getPrams, setMessage]
  omega

/-! ### Levels of one voltage -/

theorem clampLevel_nat (levels : Nat) :
    clampLevel levels = if levels % 2 ^ 8 < 2 ^ 7 then min (levels % 2 ^ 8 : Nat) 9 else 0 := by
  have hmin : appBatteryLevelMin = 0 := rfl
  have hmax : appBatteryLevelMax = 9 := rfl
  rw [clampLevel, Int.bmod_def]
  simp only [hmin, hmax]
  split_ifs <;> omega

theorem irqLevel_of_le (hle : appBatteryPdMv ≤ v) (hlt : v < 2 ^ 16) : irqLevel v = clampLevel (levelsAbove v) := by
  have hdiff : (v + 2 ^ 32 - appBatteryPdMv) % 2 ^ 32 = v - appBatteryPdMv := by omega
  rw [irqLevel, hdiff, levelsAbove]

theorem messageLevel_of_le (hle : appBatteryPdMv ≤ v) : messageLevel v = clampLevel (levelsAbove v) := by
  rw [messageLevel, levelsAbove, ← Int.ofNat_sub hle]
  rfl

/-- Below the voltage of power-down the levels differ: without a sign the difference is too great for the least level.
-/
theorem irqLevel_ne_of_lt (hlt : v < appBatteryPdMv) : irqLevel v ≠ messageLevel v := by
  have hpd : appBatteryPdMv = 3100 := rfl
  have hbase : appBatteryMvBase = 110 := by decide
  have hirq : irqLevel v = 9 := by
    rw [irqLevel, clampLevel_nat, hbase]
    split <;> omega
  have hmessage : messageLevel v = 0 := by
    have hneg : (v : Int) - appBatteryPdMv = -((appBatteryPdMv - v : Nat) : Int) := by omega
    have hmin : appBatteryLevelMin = 0 := rfl
    have hmax : appBatteryLevelMax = 9 := rfl
    rw [messageLevel, clampLevel, hneg, Int.neg_tdiv, hbase, ← Int.ofNat_tdiv, Int.bmod_def]
    simp only [hmin, hmax]
    split_ifs <;> omega
  rw [hirq, hmessage]
  decide

theorem clampLevel_bounds (level : Int) :
    appBatteryLevelMin ≤ clampLevel level ∧ clampLevel level ≤ appBatteryLevelMax := by
  have hbounds : appBatteryLevelMin ≤ appBatteryLevelMax := by decide
  rw [clampLevel]
  split_ifs <;> omega

theorem irqhandler_currlevel (hvalid : Valid vbat)
    (hfirst : (m.index + 1) % 2 ^ 16 ≤ appBatteryStableCount) :
    (appBatteryIrqhandler m vbat).1.currlevel = irqLevel (vbat * 4) := by
  rw [appBatteryIrqhandler, if_pos hvalid]
  simp only
  rw [if_neg (Nat.not_lt.mpr hfirst)]

theorem handleProcessNormal_currlevel (hstatus : (statusOf mean).rank ≠ 0) :
    (appBatteryHandleProcessNormal m (statusOf mean) mean).currlevel = messageLevel mean := by
  revert hstatus
  rw [statusOf]
  split_ifs
  · exact fun _ => rfl
  · exact fun _ => rfl
  · exact fun hstatus => absurd rfl hstatus
  · exact fun _ => rfl

/-! ### The status of one mean -/

theorem statusOf_rank_mono (hle : v ≤ w) (hpd : appBatteryPdMv < v) : (statusOf v).rank ≤ (statusOf w).rank := by
  have hmin : appBatteryMinMv = 3200 := rfl
  have hmax : appBatteryMaxMv = 4200 := rfl
  rw [statusOf, statusOf]
  split_ifs <;> first | exact absurd ‹_› (by omega) | decide

theorem statusOf_pd : statusOf appBatteryPdMv = .normal := by decide

/-- **The laws for two voltages hold exactly in this range.** -/
theorem laws_iff (hle : v ≤ w) (hlt : w < 2 ^ 16) : Laws v w ↔ InRange v w := by
  have hmono : appBatteryPdMv ≤ v → (messageLevel v ≤ messageLevel w ↔ levelsAbove v % 2 ^ 8 = 0 ∨
      2 ^ 7 ≤ levelsAbove v % 2 ^ 8 ∨ levelsAbove w % 2 ^ 8 < 2 ^ 7 ∧
        (levelsAbove v % 2 ^ 8 ≤ levelsAbove w % 2 ^ 8 ∨ 9 ≤ levelsAbove w % 2 ^ 8)) := by
    intro hpd
    rw [messageLevel_of_le hpd, messageLevel_of_le (Nat.le_trans hpd hle), clampLevel_nat, clampLevel_nat]
    split_ifs <;> omega
  constructor
  · intro h
    have hpd : appBatteryPdMv < v := by
      rcases Nat.lt_trichotomy v appBatteryPdMv with hbelow | heq | habove
      · exact absurd h.level_left (irqLevel_ne_of_lt hbelow)
      · exact absurd (heq ▸ statusOf_pd) (h.not_normal v List.mem_cons_self (Nat.le_of_eq heq))
      · exact habove
    exact ⟨hpd, (hmono (Nat.le_of_lt hpd)).mp h.level_mono⟩
  · intro h
    have hpd := Nat.le_of_lt h.1
    have hpdRight := Nat.le_trans hpd hle
    refine ⟨?_, ?_, (hmono hpd).mpr h.2, ?_, statusOf_rank_mono hle h.1, ?_⟩
    · rw [irqLevel_of_le hpd (Nat.lt_of_le_of_lt hle hlt), messageLevel_of_le hpd]
    · rw [irqLevel_of_le hpdRight hlt, messageLevel_of_le hpdRight]
    · intro level hlevel
      rcases List.mem_pair.mp hlevel with rfl | rfl
      · exact clampLevel_bounds _
      · exact clampLevel_bounds _
    · intro mean hmean hlow
      rcases List.mem_pair.mp hmean with rfl | rfl
      · exact absurd hlow (Nat.not_le.mpr h.1)
      · exact absurd hlow (Nat.not_le.mpr (Nat.lt_of_lt_of_le h.1 hle))

/-! ### The ring of readings -/

/-- As many of the last readings as have been counted since the counter began anew are in the ring. -/
structure Inv (m : Measure) : Prop where
  index_eq : m.index = m.readings.length % 2 ^ 16
  holds : ∀ back, back < appBatteryStableCount → back < m.index →
    ∃ volt, m.readings[back]? = some volt ∧ m.voltage ((m.index - 1 - back) % appBatteryStableCount) = volt % 2 ^ 16

theorem opened_inv : Inv opened where
  index_eq := rfl
  holds := fun _ _ h => absurd h (Nat.not_lt_zero _)

theorem Inv.push (hm : Inv m) {volt : Nat} (hindex : m'.index = (m.index + 1) % 2 ^ 16)
    (hvoltage : m'.voltage = Function.update m.voltage (m.index % appBatteryStableCount) (volt % 2 ^ 16))
    (hreadings : m'.readings = volt :: m.readings) : Inv m' := by
  have hcount : appBatteryStableCount = 5 := rfl
  have hlast := hm.index_eq
  refine ⟨?_, ?_⟩
  · rw [hindex, hreadings, List.length_cons]
    omega
  · intro back hback hlt
    have hnext : m'.index = m.index + 1 := by omega
    rw [hreadings, hvoltage, hnext]
    cases back with
    | zero => exact ⟨volt, rfl, Function.update_self _ _ _⟩
    | succ back =>
      obtain ⟨old, hold, hslot⟩ := hm.holds back (by omega) (by omega)
      have hpos : m.index + 1 - 1 - (back + 1) = m.index - 1 - back := by omega
      have hother : (m.index - 1 - back) % appBatteryStableCount ≠ m.index % appBatteryStableCount := by
        rw [hcount]
        omega
      rw [hpos, Function.update_of_ne hother]
      exact ⟨old, hold, hslot⟩

theorem step_inv (hm : Inv m) (h : step m vbat = some m') : Inv m' := by
  obtain rfl := Option.some.inj h
  rw [appBatteryIrqhandler]
  split
  · simp only
    split
    · exact hm.push rfl rfl rfl
    · exact hm.push rfl rfl rfl
  · exact hm

theorem sum_slots (voltage : Nat → Nat) {pos : Nat} (hpos : 4 ≤ pos) :
    voltage (pos % 5) + voltage ((pos - 1) % 5) + voltage ((pos - 2) % 5) + voltage ((pos - 3) % 5) +
        voltage ((pos - 4) % 5) =
      voltage 0 + voltage 1 + voltage 2 + voltage 3 + voltage 4 := by
  induction pos, hpos using Nat.le_induction with
  | base =>
    show voltage 4 + voltage 3 + voltage 2 + voltage 1 + voltage 0 = _
    omega
  | succ pos hpos ih =>
    have hround : (pos + 1) % 5 = (pos - 4) % 5 := by omega
    rw [hround, show pos + 1 - 1 = pos by omega, show pos + 1 - 2 = pos - 1 by omega,
      show pos + 1 - 3 = pos - 2 by omega, show pos + 1 - 4 = pos - 3 by omega]
    omega

/-- When the ring has been filled since the counter began anew, its mean is that of the last readings, each cut to 16
bits. -/
theorem Inv.sum_eq (hm : Inv m) (hfull : appBatteryStableCount < m.index) :
    m.voltage 0 + m.voltage 1 + m.voltage 2 + m.voltage 3 + m.voltage 4 =
      ((m.readings.take appBatteryStableCount).map (· % 2 ^ 16)).sum := by
  have hcount : appBatteryStableCount = 5 := rfl
  have hslot : ∀ back, back < 5 → ∃ volt, m.readings[back]? = some volt ∧
      m.voltage ((m.index - 1 - back) % 5) = volt % 2 ^ 16 := fun back hback => hm.holds back hback (by omega)
  obtain ⟨a, ha, ha'⟩ := hslot 0 (by decide)
  obtain ⟨b, hb, hb'⟩ := hslot 1 (by decide)
  obtain ⟨c, hc, hc'⟩ := hslot 2 (by decide)
  obtain ⟨d, hd, hd'⟩ := hslot 3 (by decide)
  obtain ⟨e, he, he'⟩ := hslot 4 (by decide)
  have htake : m.readings.take 5 = [a, b, c, d, e] := by
    rw [List.take_add_one, List.take_add_one, List.take_add_one, List.take_add_one, List.take_add_one, List.take_zero,
      ha, hb, hc, hd, he]
    rfl
  rw [Nat.sub_zero] at ha'
  rw [hcount, htake, ← sum_slots m.voltage (show 4 ≤ m.index - 1 by omega), ha', hb', hc', hd', he']
  simp only [List.map_cons, List.map_nil, List.sum_cons, List.sum_nil]
  omega

/-! ### Reports -/

theorem sum_mod_le (volts : List Nat) : (volts.map (· % 2 ^ 16)).sum ≤ volts.sum := by
  induction volts with
  | nil => exact Nat.le_refl 0
  | cons volt volts ih =>
    have hle := Nat.mod_le volt (2 ^ 16)
    simp only [List.map_cons, List.sum_cons]
    omega

theorem sum_mod_eq {volts : List Nat} (hfit : ∀ volt ∈ volts, volt < 2 ^ 16) :
    (volts.map (· % 2 ^ 16)).sum = volts.sum := by
  have hmap : volts.map (· % 2 ^ 16) = volts.map id :=
    List.map_congr_left fun volt hvolt => Nat.mod_eq_of_lt (hfit volt hvolt)
  rw [hmap, List.map_id]

theorem sum_mod_add_le {volts : List Nat} {volt : Nat} (hvolt : volt ∈ volts) (hbig : 2 ^ 16 ≤ volt) :
    (volts.map (· % 2 ^ 16)).sum + 2 ^ 16 ≤ volts.sum := by
  induction volts with
  | nil => exact absurd hvolt List.not_mem_nil
  | cons first volts ih =>
    simp only [List.map_cons, List.sum_cons]
    cases List.mem_cons.mp hvolt with
    | inl hfirst =>
      have hle := sum_mod_le volts
      omega
    | inr hrest =>
      have hle := Nat.mod_le first (2 ^ 16)
      have hrest := ih hrest
      omega

theorem mean_mod_lt (readings : List Nat) :
    ((readings.take appBatteryStableCount).map (· % 2 ^ 16)).sum / appBatteryStableCount < 2 ^ 16 := by
  have hcount : appBatteryStableCount = 5 := rfl
  have hbound : ∀ volts : List Nat, (volts.map (· % 2 ^ 16)).sum ≤ volts.length * (2 ^ 16 - 1) := by
    intro volts
    induction volts with
    | nil => exact Nat.le_refl 0
    | cons volt volts ih =>
      have hlt := Nat.mod_lt volt (show 0 < 2 ^ 16 by decide)
      simp only [List.map_cons, List.sum_cons, List.length_cons]
      omega
  have hlen : (readings.take appBatteryStableCount).length ≤ 5 := List.length_take_le _ _
  have hsum := hbound (readings.take appBatteryStableCount)
  rw [hcount] at *
  omega

theorem mean_mod_eq_iff (readings : List Nat) :
    ((readings.take appBatteryStableCount).map (· % 2 ^ 16)).sum / appBatteryStableCount = meanOf readings ↔
      ∀ volt ∈ readings.take appBatteryStableCount, volt < 2 ^ 16 := by
  have hcount : appBatteryStableCount = 5 := rfl
  constructor
  · intro heq volt hvolt
    by_contra hbig
    have hless := sum_mod_add_le hvolt (Nat.le_of_not_lt hbig)
    rw [meanOf, hcount] at heq
    rw [hcount] at hless
    omega
  · intro hfit
    rw [sum_mod_eq hfit, meanOf]

theorem Inv.message (hm : Inv m) (hvalid : Valid vbat) :
    (appBatteryIrqhandler m vbat).2 =
      let mean := (((((vbat : Nat) * 4 :: m.readings).take appBatteryStableCount).map (· % 2 ^ 16)).sum /
        appBatteryStableCount)
      if appBatteryStableCount < (m.readings.length + 1) % 2 ^ 16 then some (setMessage (statusOf mean) mean)
      else none := by
  have hindex : (m.index + 1) % 2 ^ 16 = (m.readings.length + 1) % 2 ^ 16 := by
    rw [hm.index_eq, Nat.mod_add_mod]
  rw [appBatteryIrqhandler, if_pos hvalid, ← hindex]
  simp only
  split
  · rename_i hfull
    have hnext : Inv { m with
        voltage := Function.update m.voltage (m.index % appBatteryStableCount) ((vbat : Nat) * 4 % 2 ^ 16)
        index := (m.index + 1) % 2 ^ 16
        readings := (vbat : Nat) * 4 :: m.readings } := hm.push rfl rfl rfl
    have hsum := hnext.sum_eq hfull
    rw [hsum]
  · rfl

theorem Inv.reports_iff (hm : Inv m) : Reports m vbat ↔ Counts m vbat := by
  rw [Reports, Counts]
  apply imp_congr_right
  intro hvalid
  apply imp_congr_right
  intro _
  rw [hm.message hvalid, ← mean_mod_eq_iff]
  constructor
  · rintro ⟨appevt, hsome, _, hprams⟩
    simp only at hsome
    split at hsome
    · rename_i hcount
      obtain rfl := Option.some.inj hsome
      rw [getPrams_setMessage (mean_mod_lt _)] at hprams
      exact ⟨hcount, hprams⟩
    · exact absurd hsome nofun
  · rintro ⟨hcount, hmean⟩
    refine ⟨setMessage (statusOf (meanOf (vbat * 4 :: m.readings))) (meanOf (vbat * 4 :: m.readings)), ?_,
      getStatus_setMessage, ?_⟩
    · simp only
      rw [if_pos hcount, hmean]
    · rw [← hmean]
      exact getPrams_setMessage (mean_mod_lt _)

end Proofs

/-- **Exactly when the battery is measured as it should be**: for all readings, the further ones report the status of
their mean exactly when the counter never begins anew and the voltages fit; and the laws hold for two voltages exactly
in their range. The levels they speak of are those that the first readings and the messages set. -/
theorem readings_meet_iff (readings : List Reading) (v w : Reading) :
    (Along step Reports opened readings ∧ ((v : Nat) ≤ w → Laws v w) ↔
      Along step Counts opened readings ∧ ((v : Nat) ≤ w → InRange v w)) ∧
    (∀ m (vbat : Reading), Valid vbat → (m.index + 1) % 2 ^ 16 ≤ appBatteryStableCount →
      (appBatteryIrqhandler m vbat).1.currlevel = irqLevel (vbat * 4)) ∧
    ∀ m mean, (statusOf mean).rank ≠ 0 →
      (appBatteryHandleProcessNormal m (statusOf mean) mean).currlevel = messageLevel mean := by
  refine ⟨and_congr ?_ ?_, fun _ _ => irqhandler_currlevel, fun _ _ => handleProcessNormal_currlevel⟩
  · exact along_iff_of_invariant Inv (fun _ _ hm => hm.reports_iff) (fun _ _ _ hm _ h => step_inv hm h) opened_inv
  · exact imp_congr_right fun hle => laws_iff hle w.isLt

/-- The level of a single reading just below the voltage of power-down is the greatest one, and a mean at that voltage
is normal. -/
theorem not_readings_meet_low :
    ¬ ∀ (readings : List Reading) (v w : Reading),
      Along step Reports opened readings ∧ ((v : Nat) ≤ w → Laws v w) := by
  intro h
  have hlaws : Laws 3096 3100 := (h [] 3096 3100).2 (by decide)
  have hlevel : irqLevel 3096 ≠ messageLevel 3096 := by decide
  exact absurd hlaws.level_left hlevel

end Best1307.Battery
