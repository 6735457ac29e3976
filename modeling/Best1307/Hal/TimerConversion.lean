import Mathlib.Algebra.Order.Ring.Nat

/-!
# Ticks and times

`hal_timer.c` without floating point: times are converted to ticks of the calibrated frequency and back. Small arguments
are converted with 32 bits, greater ones with 64.
-/

namespace Best1307.TimerConversion

/-- Whether `FPGA` is defined -/
inductive Target
  | fpga | chip
  deriving DecidableEq, Repr

def configSystickHzNominal : Target → UInt32
  | .fpga => 32000
  | .chip => 16000

def maxCalibSystickHz (t : Target) : UInt32 := configSystickHzNominal t * 2

/-- A frequency that `sys_tick_hz` may have after the calibration -/
structure SysTickHz (t : Target) where
  hz : UInt32
  pos : 1 ≤ hz
  le_max : hz ≤ maxCalibSystickHz t
  deriving DecidableEq

variable {t : Target}

/-! ### The functions -/

/-- `hal_sys_timer_ms_to_ticks` -/
def msToTicks (f : SysTickHz t) (ms : UInt32) : UInt32 :=
  if ms ≤ ~~~0 / maxCalibSystickHz t then (ms * f.hz + 1000 - 1) / 1000
  else ((ms.toUInt64 * f.hz.toUInt64 + 1000 - 1) / 1000).toUInt32

/-- `hal_sys_timer_us_to_ticks` -/
def usToTicks (f : SysTickHz t) (us : UInt32) : UInt32 :=
  let ticks :=
    if us ≤ ~~~0 / maxCalibSystickHz t then (us * f.hz / 1000 + 1000 - 1) / 1000
    else ((us.toUInt64 * f.hz.toUInt64 / 1000 + 1000 - 1) / 1000).toUInt32
  if ticks ≤ 1 then ticks + 1 else ticks

/-- `hal_sys_timer_ticks_to_ms` -/
def ticksToMs (f : SysTickHz t) (tick : UInt32) : UInt32 :=
  if tick ≤ (~~~0 - maxCalibSystickHz t / 2) / 1000 then (tick * 1000 + f.hz / 2) / f.hz
  else ((tick.toUInt64 * 1000 + (f.hz / 2).toUInt64) / f.hz.toUInt64).toUInt32

/-- `hal_sys_timer_ticks_to_us` -/
def ticksToUs (f : SysTickHz t) (tick : UInt32) : UInt32 :=
  if tick ≤ ~~~0 / (1000 * 1000) then tick * (1000 * 1000) / f.hz
  else (tick.toUInt64 * (1000 * 1000) / f.hz.toUInt64).toUInt32

inductive Conversion
  | msToTicks | usToTicks | ticksToMs | ticksToUs
  deriving DecidableEq, Repr

def Conversion.apply (f : SysTickHz t) : Conversion → UInt32 → UInt32
  | .msToTicks => TimerConversion.msToTicks f
  | .usToTicks => TimerConversion.usToTicks f
  | .ticksToMs => TimerConversion.ticksToMs f
  | .ticksToUs => TimerConversion.ticksToUs f

/-! ### The formulas with numbers of any size -/

/-- At least one tick more than none, and than one -/
def atLeastTwo (ticks : Nat) : Nat := if ticks ≤ 1 then ticks + 1 else ticks

def Conversion.exact (hz : Nat) : Conversion → Nat → Nat
  | .msToTicks, ms => (ms * hz + 1000 - 1) / 1000
  | .usToTicks, us => atLeastTwo ((us * hz / 1000 + 1000 - 1) / 1000)
  | .ticksToMs, tick => (tick * 1000 + hz / 2) / hz
  | .ticksToUs, tick => tick * (1000 * 1000) / hz

theorem exact_ticksToMs_zero (hz : Nat) : Conversion.ticksToMs.exact hz 0 = 0 := by
  rw [Conversion.exact, Nat.zero_mul, Nat.zero_add]
  rcases Nat.eq_zero_or_pos hz with rfl | hpos
  · rfl
  · exact Nat.div_eq_of_lt (Nat.div_lt_self hpos (by decide))

def Conversion.Fits (c : Conversion) (f : SysTickHz t) (x : UInt32) : Prop := c.exact f.hz.toNat x.toNat < 2 ^ 32

instance (c : Conversion) (f : SysTickHz t) (x : UInt32) : Decidable (c.Fits f x) := inferInstanceAs (Decidable (_ < _))

structure Meets (f : SysTickHz t) (x : UInt32) : Prop where
  exact_eq : ∀ c : Conversion, c.Fits f x → (c.apply f x).toNat = c.exact f.hz.toNat x.toNat
  ms_not_shortened : Conversion.msToTicks.Fits f x → x.toNat * f.hz.toNat ≤ (msToTicks f x).toNat * 1000
  us_not_shortened : Conversion.usToTicks.Fits f x → x.toNat * f.hz.toNat ≤ (usToTicks f x).toNat * 1000000
  monotone : ∀ (c : Conversion) (y : UInt32), x ≤ y → c.Fits f y → c.apply f x ≤ c.apply f y

/-- The fraction of a tick that the first of two divisions leaves out is all there is of the last tick. -/
def CutShort (f : SysTickHz t) (us : UInt32) : Prop :=
  Conversion.usToTicks.Fits f us ∧ 2000000 ≤ us.toNat * f.hz.toNat ∧ 0 < us.toNat * f.hz.toNat % 1000000 ∧
    us.toNat * f.hz.toNat % 1000000 < 1000

instance (f : SysTickHz t) (us : UInt32) : Decidable (CutShort f us) := inferInstanceAs (Decidable (_ ∧ _ ∧ _ ∧ _))

variable {f : SysTickHz t} {x y : UInt32}

/-! ### Both sides of the switch -/

theorem SysTickHz.toNat_le (f : SysTickHz t) : f.hz.toNat ≤ 64000 := by
  have hle := UInt32.le_iff_toNat_le.mp f.le_max
  cases t with
  | fpga => exact hle
  | chip => exact Nat.le_trans hle (by decide)

/-- The term for rounding, which the bound leaves out, still fits. -/
theorem mul_hz_lt (hx : x ≤ ~~~0 / maxCalibSystickHz t) : x.toNat * f.hz.toNat + 999 < 2 ^ 32 := by
  have hx := UInt32.le_iff_toNat_le.mp hx
  have hhz := UInt32.le_iff_toNat_le.mp f.le_max
  have hmul := Nat.mul_le_mul hx hhz
  refine Nat.lt_of_le_of_lt (Nat.add_le_add_right hmul 999) ?_
  cases t <;> decide

theorem mul_hz_lt64 (f : SysTickHz t) (x : UInt32) : x.toNat * f.hz.toNat + 999 < 2 ^ 64 := by
  have hmul := Nat.mul_le_mul (Nat.le_of_lt x.toNat_lt) f.toNat_le
  exact Nat.lt_of_le_of_lt (Nat.add_le_add_right hmul 999) (by decide)

theorem msToTicks_eq (hfits : Conversion.msToTicks.Fits f x) :
    (msToTicks f x).toNat = Conversion.msToTicks.exact f.hz.toNat x.toNat := by
  have hwide := mul_hz_lt64 f x
  rw [Conversion.Fits, Conversion.exact] at hfits
  rw [msToTicks, Conversion.exact]
  split
  case isTrue hx =>
    have hnarrow := mul_hz_lt (f := f) hx
    simp only [UInt32.toNat_div, UInt32.toNat_sub, UInt32.toNat_add, UInt32.toNat_mul, UInt32.reduceToNat]
    omega
  case isFalse =>
    simp only [UInt64.toNat_toUInt32, UInt64.toNat_div, UInt64.toNat_sub, UInt64.toNat_add, UInt64.toNat_mul,
      UInt32.toNat_toUInt64, UInt64.reduceToNat]
    omega

theorem usToTicks_eq (hfits : Conversion.usToTicks.Fits f x) :
    (usToTicks f x).toNat = Conversion.usToTicks.exact f.hz.toNat x.toNat := by
  have hwide := mul_hz_lt64 f x
  obtain ⟨ticks, hticks⟩ : ∃ ticks, ticks = (x.toNat * f.hz.toNat / 1000 + 1000 - 1) / 1000 := ⟨_, rfl⟩
  have hexact : Conversion.usToTicks.exact f.hz.toNat x.toNat = atLeastTwo ticks := by rw [hticks]; rfl
  rw [Conversion.Fits, hexact, atLeastTwo] at hfits
  have hlt : ticks < 2 ^ 32 := by split at hfits <;> omega
  -- the ticks before the last correction
  have hcode : (if x ≤ ~~~0 / maxCalibSystickHz t then (x * f.hz / 1000 + 1000 - 1) / 1000
      else ((x.toUInt64 * f.hz.toUInt64 / 1000 + 1000 - 1) / 1000).toUInt32).toNat = ticks := by
    split
    case isTrue hx =>
      have hnarrow := mul_hz_lt (f := f) hx
      simp only [UInt32.toNat_div, UInt32.toNat_sub, UInt32.toNat_add, UInt32.toNat_mul, UInt32.reduceToNat]
      omega
    case isFalse =>
      simp only [UInt64.toNat_toUInt32, UInt64.toNat_div, UInt64.toNat_sub, UInt64.toNat_add, UInt64.toNat_mul,
        UInt32.toNat_toUInt64, UInt64.reduceToNat]
      omega
  rw [usToTicks, hexact, atLeastTwo]
  simp only [apply_ite UInt32.toNat, UInt32.le_iff_toNat_le, UInt32.toNat_add, UInt32.reduceToNat] at hcode ⊢
  rw [hcode]
  split <;> omega

theorem ticksToMs_eq (hfits : Conversion.ticksToMs.Fits f x) :
    (ticksToMs f x).toNat = Conversion.ticksToMs.exact f.hz.toNat x.toNat := by
  have hle := f.toNat_le
  have hlt := x.toNat_lt
  rw [Conversion.Fits, Conversion.exact] at hfits
  rw [ticksToMs, Conversion.exact]
  split
  case isTrue hx =>
    -- the bound leaves room for half of the frequency
    have hnarrow : x.toNat * 1000 + f.hz.toNat / 2 < 2 ^ 32 := by
      have hx := UInt32.le_iff_toNat_le.mp hx
      have hhz := UInt32.le_iff_toNat_le.mp f.le_max
      cases t
      case fpga =>
        have hbound : ((~~~0 - maxCalibSystickHz .fpga / 2) / 1000 : UInt32).toNat = 4294935 := by decide
        have hmax : (maxCalibSystickHz .fpga).toNat = 64000 := rfl
        omega
      case chip =>
        have hbound : ((~~~0 - maxCalibSystickHz .chip / 2) / 1000 : UInt32).toNat = 4294951 := by decide
        have hmax : (maxCalibSystickHz .chip).toNat = 32000 := rfl
        omega
    have hmul : x.toNat * 1000 % 2 ^ 32 = x.toNat * 1000 :=
      Nat.mod_eq_of_lt (Nat.lt_of_le_of_lt (Nat.le_add_right _ _) hnarrow)
    simp only [UInt32.toNat_div, UInt32.toNat_add, UInt32.toNat_mul, UInt32.reduceToNat]
    rw [hmul, Nat.mod_eq_of_lt hnarrow]
  case isFalse =>
    have hmul : x.toNat * 1000 % 2 ^ 64 = x.toNat * 1000 := Nat.mod_eq_of_lt (by omega)
    have hsum : (x.toNat * 1000 + f.hz.toNat / 2) % 2 ^ 64 = x.toNat * 1000 + f.hz.toNat / 2 :=
      Nat.mod_eq_of_lt (by omega)
    simp only [UInt64.toNat_toUInt32, UInt64.toNat_div, UInt64.toNat_add, UInt64.toNat_mul, UInt32.toNat_toUInt64,
      UInt32.toNat_div, UInt64.reduceToNat, UInt32.reduceToNat]
    rw [hmul, hsum, Nat.mod_eq_of_lt hfits]

theorem ticksToUs_eq (hfits : Conversion.ticksToUs.Fits f x) :
    (ticksToUs f x).toNat = Conversion.ticksToUs.exact f.hz.toNat x.toNat := by
  have hlt := x.toNat_lt
  rw [Conversion.Fits, Conversion.exact] at hfits
  rw [ticksToUs, Conversion.exact]
  split
  case isTrue hx =>
    have hx : x.toNat ≤ 4294 := UInt32.le_iff_toNat_le.mp hx
    simp only [UInt32.toNat_div, UInt32.toNat_mul, UInt32.reduceToNat]
    rw [Nat.mod_eq_of_lt (by omega)]
  case isFalse =>
    have hmul : x.toNat * (1000 * 1000 % 2 ^ 64) % 2 ^ 64 = x.toNat * (1000 * 1000) := Nat.mod_eq_of_lt (by omega)
    simp only [UInt64.toNat_toUInt32, UInt64.toNat_div, UInt64.toNat_mul, UInt32.toNat_toUInt64, UInt64.reduceToNat]
    rw [hmul, Nat.mod_eq_of_lt hfits]

theorem apply_eq (c : Conversion) (hfits : c.Fits f x) : (c.apply f x).toNat = c.exact f.hz.toNat x.toNat := by
  cases c with
  | msToTicks => exact msToTicks_eq hfits
  | usToTicks => exact usToTicks_eq hfits
  | ticksToMs => exact ticksToMs_eq hfits
  | ticksToUs => exact ticksToUs_eq hfits

/-! ### Order -/

theorem atLeastTwo_mono {a b : Nat} (h : a ≤ b) : atLeastTwo a ≤ atLeastTwo b := by
  rw [atLeastTwo, atLeastTwo]
  split <;> split <;> omega

theorem exact_mono (c : Conversion) (hz : Nat) {a b : Nat} (h : a ≤ b) : c.exact hz a ≤ c.exact hz b := by
  have hmul := Nat.mul_le_mul_right hz h
  cases c with
  | msToTicks => exact Nat.div_le_div_right (by omega)
  | usToTicks =>
      have hfirst := Nat.div_le_div_right (c := 1000) hmul
      exact atLeastTwo_mono (Nat.div_le_div_right (by omega))
  | ticksToMs => exact Nat.div_le_div_right (by omega)
  | ticksToUs => exact Nat.div_le_div_right (by omega)

theorem apply_mono (c : Conversion) (hxy : x ≤ y) (hfits : c.Fits f y) : c.apply f x ≤ c.apply f y := by
  have hexact := exact_mono c f.hz.toNat (UInt32.le_iff_toNat_le.mp hxy)
  rw [UInt32.le_iff_toNat_le, apply_eq c hfits, apply_eq c (Nat.lt_of_le_of_lt hexact hfits)]
  exact hexact

/-! ### Delays -/

theorem exact_ms_ge (hz ms : Nat) : ms * hz ≤ Conversion.msToTicks.exact hz ms * 1000 := by
  rw [Conversion.exact]
  omega

/-- Rounding up behind a division that rounds down loses what the first division has left over, unless the correction
of small numbers makes up for it. -/
theorem exact_us_ge_iff (hz us : Nat) : us * hz ≤ Conversion.usToTicks.exact hz us * 1000000 ↔
    ¬ (2000000 ≤ us * hz ∧ 0 < us * hz % 1000000 ∧ us * hz % 1000000 < 1000) := by
  rw [Conversion.exact, atLeastTwo]
  split <;> omega

theorem conversions_meet_iff (f : SysTickHz t) (x : UInt32) : Meets f x ↔ ¬ CutShort f x := by
  constructor
  · rintro hmeets ⟨hfits, hcut⟩
    have hge := hmeets.us_not_shortened hfits
    rw [usToTicks_eq hfits] at hge
    exact (exact_us_ge_iff _ _).mp hge hcut
  · intro hnot
    exact {
      exact_eq := fun c hfits => apply_eq c hfits
      ms_not_shortened := fun hfits => by
        rw [msToTicks_eq hfits]
        exact exact_ms_ge _ _
      us_not_shortened := fun hfits => by
        rw [usToTicks_eq hfits]
        exact (exact_us_ge_iff _ _).mpr fun hcut => hnot ⟨hfits, hcut⟩
      monotone := fun c y hxy hfits => apply_mono c hxy hfits }

/-- A frequency a little above the nominal one -/
def hz16001 : SysTickHz .chip := ⟨16001, by decide, by decide⟩

/-- 125 microseconds are a little more than two ticks, and are made two. -/
theorem not_meets_125 : ¬ Meets hz16001 125 := fun hmeets =>
  absurd (hmeets.us_not_shortened (by decide)) (by decide)

end Best1307.TimerConversion
