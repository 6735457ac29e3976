import Mathlib.Data.List.Basic
import Best1307.Lib.Run
import Best1307.Lib.SlotRing

/-!
# Debouncing of the GPIO keys

A key's pin raises its interrupt, which switches the pin's interrupt off and puts the pin in one of two sets:
down, to be debounced, or up again, to be dithered. The timer handler moves the pins between these sets and that
of the keys held down, and switches the interrupt on again for those it takes out. A pin interrupt may come
between any two steps of the timer handler.

At any time each configured pin is in one place: in one of the sets, with its interrupt on, or on its way out
of a set in the timer handler. What the code does is to move pins from place to place.
-/

namespace Best1307.GpioKey

open SlotRing

abbrev Code := BitVec 32

/-- `struct HAL_KEY_GPIOKEY_CFG_T` -/
structure KeyCfg where
  keyCode : Code
  pin : Nat
  keyDown : Bool
  deriving DecidableEq

/-- `cfg_hw_gpio_key_cfg`, the number of pins, and the intervals in ticks. -/
structure Config where
  gpioPinNum : Nat
  keys : List KeyCfg
  debounceInterval : UInt32
  ditherInterval : UInt32
  pin_lt : ∀ key ∈ keys, key.pin < gpioPinNum

variable {cfg : Config}

/-- `GPIO_MAP_T`, its words in a row. -/
abbrev GpioMap (cfg : Config) := BitVec cfg.gpioPinNum

def gpioMapSetPin (map : GpioMap cfg) (pin : Nat) : GpioMap cfg := map ||| BitVec.twoPow _ pin

def gpioMapClearPin (map : GpioMap cfg) (pin : Nat) : GpioMap cfg := map &&& ~~~BitVec.twoPow _ pin

def gpioMapSetMap (map1 map2 : GpioMap cfg) : GpioMap cfg := map1 ||| map2

def gpioMapClearMap (map1 map2 : GpioMap cfg) : GpioMap cfg := map1 &&& ~~~map2

def gpioMapTestSetMap (map1 map2 : GpioMap cfg) : Bool := map1 &&& map2 ≠ 0

def firstPin (map : GpioMap cfg) : Option Nat := (List.range cfg.gpioPinNum).find? map.getLsbD

/-- Where the timer handler stands: not running; before, at and behind the pins whose dithering is over; before
and at the pins down; before and at the pins to be debounced; or stopped by an assertion. -/
inductive Handler (cfg : Config)
  | idle
  | dither (time : UInt32)
  | ditherClear (time : UInt32) (pinMap : GpioMap cfg)
  | ditherEnable (time : UInt32) (pinMap : GpioMap cfg)
  | down (time : UInt32)
  | downPins (time : UInt32) (pinMap : GpioMap cfg)
  | downEnable (time : UInt32) (pinMap : GpioMap cfg) (gpio : Nat)
  | debounce (time : UInt32)
  | debouncePins (time : UInt32) (pinMap downAdded ditherAdded : GpioMap cfg)
  | failed
  deriving DecidableEq

/-- `gpio_key`, the pins whose interrupt is on, the code of the keys found down, and the timer handler. -/
structure State (cfg : Config) where
  pinDebounce : GpioMap cfg
  pinDither : GpioMap cfg
  pinDown : GpioMap cfg
  timeDebounce : UInt32
  timeDither : UInt32
  irqEnabled : GpioMap cfg
  codeDown : Code
  handler : Handler cfg
  deriving DecidableEq

/-- `hal_gpiokey_enable_allint` -/
def enableAllint (cfg : Config) : GpioMap cfg :=
  cfg.keys.foldl (fun map key => if key.keyCode = 0 then map else gpioMapSetPin map key.pin) 0

/-- After `hal_gpiokey_open` and `hal_key_enable_allint`. -/
def State.opened (cfg : Config) : State cfg := ⟨0, 0, 0, 0, 0, enableAllint cfg, 0, .idle⟩

/-- `hal_gpiokey_find_index` -/
def findKey (cfg : Config) (pin : Nat) : Option KeyCfg := cfg.keys.find? fun key => key.pin = pin

namespace State

variable (s : State cfg)

/-- `hal_gpiokey_irqhandler`, which finds `val` at the pin. -/
def irqHandler (pin : Nat) (val : Bool) (time : UInt32) : State cfg :=
  let s := { s with irqEnabled := gpioMapClearPin s.irqEnabled pin }
  match findKey cfg pin with
  | none => { s with handler := .failed }
  | some key =>
      if val = key.keyDown then { s with pinDebounce := gpioMapSetPin s.pinDebounce pin, timeDebounce := time }
      else { s with pinDither := gpioMapSetPin s.pinDither pin, timeDither := time }

/-- The assertion at the start of the timer handler. -/
def startTimer (time : UInt32) : State cfg :=
  if gpioMapTestSetMap s.pinDebounce s.pinDither ∨ gpioMapTestSetMap s.pinDebounce s.pinDown ∨
      gpioMapTestSetMap s.pinDown s.pinDither then { s with handler := .failed }
  else { s with handler := .dither time, codeDown := 0 }

def checkDown (time : UInt32) (pinMap : GpioMap cfg) (gpio : Nat) (val : Bool) : State cfg :=
  match findKey cfg gpio with
  | none => { s with handler := .failed }
  | some key =>
      if val = key.keyDown then
        { s with codeDown := s.codeDown ||| key.keyCode, handler := .downPins time (gpioMapClearPin pinMap gpio) }
      else
        { s with
          pinDown := gpioMapClearPin s.pinDown gpio
          handler := .downEnable time (gpioMapClearPin pinMap gpio) gpio }

def checkDebounce (time : UInt32) (pinMap downAdded ditherAdded : GpioMap cfg) (gpio : Nat) (val : Bool) :
    State cfg :=
  match findKey cfg gpio with
  | none => { s with handler := .failed }
  | some key =>
      if val = key.keyDown then
        if cfg.debounceInterval ≤ time - s.timeDebounce then
          { s with
            codeDown := s.codeDown ||| key.keyCode
            pinDown := gpioMapSetPin s.pinDown gpio
            handler := .debouncePins time (gpioMapClearPin pinMap gpio) (gpioMapSetPin downAdded gpio) ditherAdded }
        else { s with handler := .debouncePins time (gpioMapClearPin pinMap gpio) downAdded ditherAdded }
      else
        { s with
          handler := .debouncePins time (gpioMapClearPin pinMap gpio) downAdded (gpioMapSetPin ditherAdded gpio) }

/-- The timer handler takes its next step; `val` is the level of the pin it looks at. -/
def goOn (val : Bool) : Option (State cfg) :=
  match s.handler with
  | .idle => none
  | .dither time =>
      if s.pinDither ≠ 0 ∧ cfg.ditherInterval ≤ time - s.timeDither then
        some { s with handler := .ditherClear time s.pinDither }
      else some { s with handler := .down time }
  | .ditherClear time pinMap =>
      some { s with pinDither := gpioMapClearMap s.pinDither pinMap, handler := .ditherEnable time pinMap }
  | .ditherEnable time pinMap =>
      match firstPin pinMap with
      | none => some { s with handler := .down time }
      | some gpio => some { s with
          irqEnabled := gpioMapSetPin s.irqEnabled gpio
          handler := .ditherEnable time (gpioMapClearPin pinMap gpio) }
  | .down time => some { s with handler := .downPins time s.pinDown }
  | .downPins time pinMap =>
      match firstPin pinMap with
      | none => some { s with handler := .debounce time }
      | some gpio => some (s.checkDown time pinMap gpio val)
  | .downEnable time pinMap gpio =>
      some { s with irqEnabled := gpioMapSetPin s.irqEnabled gpio, handler := .downPins time pinMap }
  | .debounce time => some { s with handler := .debouncePins time s.pinDebounce 0 0 }
  | .debouncePins time pinMap downAdded ditherAdded =>
      match firstPin pinMap with
      | some gpio => some (s.checkDebounce time pinMap downAdded ditherAdded gpio val)
      | none => some { s with
          pinDebounce := gpioMapClearMap (gpioMapClearMap s.pinDebounce downAdded) ditherAdded
          pinDither := gpioMapSetMap s.pinDither ditherAdded
          handler := .idle }
  | .failed => none

end State

/-- An interrupt of a pin that finds `val`, a timer tick, or the next step of the timer handler. -/
inductive Event
  | irq (pin : Nat) (val : Bool) (time : UInt32)
  | tick (time : UInt32)
  | goOn (val : Bool)
  deriving DecidableEq, Repr

def step (s : State cfg) : Event → Option (State cfg)
  | .irq pin val time =>
      if s.irqEnabled.getLsbD pin ∧ s.handler ≠ .failed then some (s.irqHandler pin val time) else none
  | .tick time => if s.handler = .idle then some (s.startTimer time) else none
  | .goOn val => s.goOn val

/-! ### Where a pin is -/

inductive Place
  | debounce
  | dither
  | down
  | enabled
  | transit
  deriving DecidableEq

/-- The pins taken out of the sets that are yet to be enabled. -/
def Handler.transit : Handler cfg → GpioMap cfg
  | .ditherEnable _ pinMap => pinMap
  | .downEnable _ _ gpio => BitVec.twoPow _ gpio
  | _ => 0

/-- The pins already in `pin_down` that are yet to be taken out of `pin_debounce`. -/
def Handler.downAdded : Handler cfg → GpioMap cfg
  | .debouncePins _ _ downAdded _ => downAdded
  | _ => 0

/-- A place as the code's own maps have it. -/
def State.At (s : State cfg) : Place → Nat → Prop
  | .debounce, pin => s.pinDebounce.getLsbD pin = true
  | .dither, pin => s.pinDither.getLsbD pin = true
  | .down, pin => s.pinDown.getLsbD pin = true ∧ ¬ s.handler.downAdded.getLsbD pin = true
  | .enabled, pin => s.irqEnabled.getLsbD pin = true
  | .transit, pin => s.handler.transit.getLsbD pin = true

def Config.Configured (cfg : Config) (pin : Nat) : Prop := ∃ key ∈ cfg.keys, key.keyCode ≠ 0 ∧ key.pin = pin

/-- The pins the timer handler still has to look at are where it saw them. -/
def Sees (s : State cfg) : Handler cfg → Prop
  | .ditherClear _ pinMap => ∀ pin, pinMap.getLsbD pin = true → s.pinDither.getLsbD pin = true
  | .downPins _ pinMap => ∀ pin, pinMap.getLsbD pin = true → s.pinDown.getLsbD pin = true
  | .downEnable _ pinMap gpio =>
      (∀ pin, pinMap.getLsbD pin = true → s.pinDown.getLsbD pin = true) ∧ gpio < cfg.gpioPinNum
  | .debouncePins _ pinMap downAdded ditherAdded => ∀ pin,
      (pinMap.getLsbD pin = true → s.pinDebounce.getLsbD pin = true ∧ ¬ downAdded.getLsbD pin = true ∧
        ¬ ditherAdded.getLsbD pin = true) ∧
      (downAdded.getLsbD pin = true → s.pinDebounce.getLsbD pin = true ∧ s.pinDown.getLsbD pin = true ∧
        ¬ ditherAdded.getLsbD pin = true) ∧
      (ditherAdded.getLsbD pin = true → s.pinDebounce.getLsbD pin = true)
  | .failed => False
  | _ => True

/-- The maps are those of pins each of which, if configured, is in one place. -/
structure Placed (s : State cfg) (place : Nat → Option Place) : Prop where
  at_iff : ∀ x pin, s.At x pin ↔ place pin = some x
  configured : ∀ pin, (place pin).isSome ↔ cfg.Configured pin
  sees : Sees s s.handler

section Maps

variable {map map' : GpioMap cfg} {pin gpio : Nat}

@[simp] theorem gpioMapSetPin_iff (hgpio : gpio < cfg.gpioPinNum) :
    (gpioMapSetPin map gpio).getLsbD pin = true ↔ map.getLsbD pin = true ∨ pin = gpio := getLsbD_or_twoPow hgpio

@[simp] theorem gpioMapClearPin_iff :
    (gpioMapClearPin map gpio).getLsbD pin = true ↔ map.getLsbD pin = true ∧ pin ≠ gpio := getLsbD_andNot_twoPow

@[simp] theorem gpioMapSetMap_iff :
    (gpioMapSetMap map map').getLsbD pin = true ↔ map.getLsbD pin = true ∨ map'.getLsbD pin = true := by
  rw [gpioMapSetMap, BitVec.getLsbD_or, Bool.or_eq_true]

@[simp] theorem gpioMapClearMap_iff :
    (gpioMapClearMap map map').getLsbD pin = true ↔ map.getLsbD pin = true ∧ ¬ map'.getLsbD pin = true :=
  getLsbD_andNot

@[simp] theorem zero_iff : (0 : GpioMap cfg).getLsbD pin = true ↔ False := by
  rw [BitVec.ofNat_eq_ofNat, BitVec.getLsbD_zero]
  exact Bool.false_eq_true.to_iff

theorem gpioMapTestSetMap_iff : gpioMapTestSetMap map map' = true ↔
    ∃ pin, map.getLsbD pin = true ∧ map'.getLsbD pin = true := by
  rw [gpioMapTestSetMap, decide_eq_true_eq]
  exact and_ne_zero

theorem firstPin_some (h : firstPin map = some gpio) : map.getLsbD gpio = true := List.find?_some h

theorem firstPin_none (h : firstPin map = none) (pin : Nat) : ¬ map.getLsbD pin = true := by
  intro hpin
  have hnot := List.find?_eq_none.mp h pin (List.mem_range.mpr (lt_of_getLsbD hpin))
  exact hnot hpin

end Maps

/-! ### The pins at the start -/

theorem enableAllint_iff (cfg : Config) (pin : Nat) : (enableAllint cfg).getLsbD pin = true ↔ cfg.Configured pin := by
  have hfold : ∀ (keys : List KeyCfg) (map : GpioMap cfg), (∀ key ∈ keys, key.pin < cfg.gpioPinNum) →
      ((keys.foldl (fun map key => if key.keyCode = 0 then map else gpioMapSetPin map key.pin) map).getLsbD pin = true ↔
        map.getLsbD pin = true ∨ ∃ key ∈ keys, key.keyCode ≠ 0 ∧ key.pin = pin) := by
    intro keys
    induction keys with
    | nil =>
        intro map _
        simp only [List.foldl_nil, List.not_mem_nil, false_and, exists_false, or_false]
    | cons key keys ih =>
        intro map hlt
        have hkey := hlt key List.mem_cons_self
        rw [List.foldl_cons, ih _ fun k hk => hlt k (List.mem_cons_of_mem _ hk)]
        simp only [List.mem_cons, exists_eq_or_imp]
        by_cases hnone : key.keyCode = 0
        · simp only [hnone, if_true, ne_eq, not_true_eq_false, false_and, false_or]
        · rw [if_neg hnone, gpioMapSetPin_iff hkey, or_assoc, @eq_comm _ pin]
          simp only [hnone, ne_eq, not_false_eq_true, true_and]
  rw [enableAllint, hfold _ _ cfg.pin_lt, zero_iff, false_or]
  rfl

open Classical in
theorem placed_opened (cfg : Config) :
    Placed (State.opened cfg) fun pin => if cfg.Configured pin then some .enabled else none := by
  refine ⟨fun x pin => ?_, fun pin => ?_, trivial⟩
  · have henabled := enableAllint_iff cfg pin
    by_cases hpin : cfg.Configured pin
    · rw [if_pos hpin]
      cases x <;> simp only [State.At, State.opened, Handler.downAdded, Handler.transit, zero_iff, false_and,
        henabled, hpin, Option.some.injEq, reduceCtorEq]
    · rw [if_neg hpin]
      cases x <;> simp only [State.At, State.opened, Handler.downAdded, Handler.transit, zero_iff, false_and,
        henabled, hpin, reduceCtorEq]
  · split <;> simp only [Option.isSome_some, Option.isSome_none, Bool.false_eq_true, *]

/-! ### Moving pins -/

namespace Placed

variable {s s' : State cfg} {place : Nat → Option Place} {pin gpio : Nat} {x y : Place}

theorem unique (h : Placed s place) (hx : s.At x pin) (hy : s.At y pin) : x = y :=
  Option.some.inj (((h.at_iff x pin).mp hx).symm.trans ((h.at_iff y pin).mp hy))

theorem configured_of_at (h : Placed s place) (hx : s.At x pin) : cfg.Configured pin := by
  rw [← h.configured, (h.at_iff x pin).mp hx]
  rfl

theorem move (h : Placed s place) (moved : Nat → Option Place)
    (hconfigured : ∀ pin x, moved pin = some x → cfg.Configured pin)
    (hat : ∀ x pin, s'.At x pin ↔ moved pin = some x ∨ moved pin = none ∧ s.At x pin) (hsees : Sees s' s'.handler) :
    Placed s' fun pin => (moved pin).or (place pin) := by
  refine ⟨fun x pin => ?_, fun pin => ?_, hsees⟩
  · rw [hat, h.at_iff]
    cases moved pin <;> simp only [Option.none_or, Option.some_or, reduceCtorEq, true_and, false_or,
      false_and, or_false]
  · cases hmoved : moved pin with
    | none => exact h.configured pin
    | some x => exact iff_of_true rfl (hconfigured pin x hmoved)

theorem stay (h : Placed s place) (hat : ∀ x pin, s'.At x pin ↔ s.At x pin) (hsees : Sees s' s'.handler) :
    Placed s' place :=
  ⟨fun x pin => (hat x pin).trans (h.at_iff x pin), h.configured, hsees⟩

open Classical in
theorem moveFrom (h : Placed s place) (x₀ y : Place) (M : Nat → Prop) (hne : x₀ ≠ y) (hM : ∀ pin, M pin → s.At y pin)
    (hto : ∀ pin, s'.At x₀ pin ↔ s.At x₀ pin ∨ M pin) (hfrom : ∀ pin, s'.At y pin ↔ s.At y pin ∧ ¬ M pin)
    (hother : ∀ x pin, x ≠ x₀ → x ≠ y → (s'.At x pin ↔ s.At x pin)) (hsees : Sees s' s'.handler) :
    ∃ place', Placed s' place' := by
  refine ⟨_, h.move (fun pin => if M pin then some x₀ else none) (fun pin x hmoved => ?_) (fun x pin => ?_) hsees⟩
  · split at hmoved
    · exact h.configured_of_at (hM pin ‹_›)
    · cases hmoved
  · by_cases hpin : M pin
    · have hold : ∀ x, s.At x pin → x = y := fun x hx => h.unique hx (hM pin hpin)
      rw [if_pos hpin]
      simp only [reduceCtorEq, false_and, or_false, Option.some.injEq]
      by_cases hx₀ : x = x₀
      · subst hx₀
        simp only [hto, hpin, or_true]
      · by_cases hy : x = y
        · subst hy
          simp only [hfrom, hpin, not_true_eq_false, and_false, hne]
        · rw [hother x pin hx₀ hy]
          exact iff_of_false (fun hx => hy (hold x hx)) fun heq => hx₀ heq.symm
    · rw [if_neg hpin]
      simp only [reduceCtorEq, true_and, false_or]
      by_cases hx₀ : x = x₀
      · subst hx₀
        simp only [hto, hpin, or_false]
      · by_cases hy : x = y
        · subst hy
          simp only [hfrom, hpin, not_false_eq_true, and_true]
        · exact hother x pin hx₀ hy

end Placed

def Inv (s : State cfg) : Prop := ∃ place, Placed s place

section Steps

variable {s : State cfg} {place : Nat → Option Place} {pin gpio : Nat} {val : Bool} {time : UInt32}
  {pinMap downAdded ditherAdded : GpioMap cfg}

theorem Config.Configured.lt (h : cfg.Configured pin) : pin < cfg.gpioPinNum := by
  obtain ⟨key, hkey, -, rfl⟩ := h
  exact cfg.pin_lt key hkey

theorem Config.Configured.findKey (h : cfg.Configured pin) : ∃ key, GpioKey.findKey cfg pin = some key := by
  obtain ⟨key, hkey, -, hpin⟩ := h
  refine Option.isSome_iff_exists.mp (List.find?_isSome.mpr ⟨key, hkey, ?_⟩)
  rw [hpin]
  exact decide_eq_true rfl

theorem Sees.mono {s' : State cfg} {handler : Handler cfg} (h : Sees s handler)
    (hdebounce : ∀ pin, s.pinDebounce.getLsbD pin = true → s'.pinDebounce.getLsbD pin = true)
    (hdither : ∀ pin, s.pinDither.getLsbD pin = true → s'.pinDither.getLsbD pin = true)
    (hdown : ∀ pin, s.pinDown.getLsbD pin = true → s'.pinDown.getLsbD pin = true) : Sees s' handler := by
  cases handler with
  | ditherClear time pinMap => exact fun pin hpin => hdither pin (h pin hpin)
  | downPins time pinMap => exact fun pin hpin => hdown pin (h pin hpin)
  | downEnable time pinMap gpio => exact ⟨fun pin hpin => hdown pin (h.1 pin hpin), h.2⟩
  | debouncePins time pinMap downAdded ditherAdded =>
      intro pin
      obtain ⟨hmap, hadded, hdithered⟩ := h pin
      exact ⟨fun hpin => ⟨hdebounce pin (hmap hpin).1, (hmap hpin).2⟩,
        fun hpin => ⟨hdebounce pin (hadded hpin).1, hdown pin (hadded hpin).2.1, (hadded hpin).2.2⟩,
        fun hpin => hdebounce pin (hdithered hpin)⟩
  | failed => exact h
  | _ => trivial

theorem Inv.irq (h : Inv s) (hirq : s.irqEnabled.getLsbD pin = true) : Inv (s.irqHandler pin val time) := by
  obtain ⟨place, h⟩ := h
  have hat : s.At .enabled pin := hirq
  have hconfigured := h.configured_of_at hat
  have hlt := hconfigured.lt
  obtain ⟨key, hkey⟩ := hconfigured.findKey
  simp only [State.irqHandler, hkey]
  split
  · refine h.moveFrom .debounce .enabled (· = pin) (by decide) (fun p hp => hp ▸ hat)
      (fun p => gpioMapSetPin_iff hlt) (fun p => gpioMapClearPin_iff) (fun x p hx hy => ?_) ?_
    · cases x with
      | debounce => exact absurd rfl hx
      | enabled => exact absurd rfl hy
      | dither => exact Iff.rfl
      | down => exact Iff.rfl
      | transit => exact Iff.rfl
    · exact h.sees.mono (fun p hp => (gpioMapSetPin_iff hlt).mpr (.inl hp)) (fun _ hp => hp) fun _ hp => hp
  · refine h.moveFrom .dither .enabled (· = pin) (by decide) (fun p hp => hp ▸ hat)
      (fun p => gpioMapSetPin_iff hlt) (fun p => gpioMapClearPin_iff) (fun x p hx hy => ?_) ?_
    · cases x with
      | dither => exact absurd rfl hx
      | enabled => exact absurd rfl hy
      | debounce => exact Iff.rfl
      | down => exact Iff.rfl
      | transit => exact Iff.rfl
    · exact h.sees.mono (fun _ hp => hp) (fun p hp => (gpioMapSetPin_iff hlt).mpr (.inl hp)) fun _ hp => hp

/-- A pin in `pin_down` is down, or still in `pin_debounce` too. -/
theorem Placed.down_or (h : Placed s place) {pin : Nat} (hpin : s.pinDown.getLsbD pin = true) :
    s.At .down pin ∨ s.At .debounce pin := by
  by_cases hadded : s.handler.downAdded.getLsbD pin = true
  · refine .inr ?_
    have hsees := h.sees
    cases hhandler : s.handler with
    | debouncePins time pinMap downAdded ditherAdded =>
        rw [hhandler] at hadded hsees
        exact ((hsees pin).2.1 hadded).1
    | _ =>
        rw [hhandler] at hadded
        exact (zero_iff.mp hadded).elim
  · exact .inl ⟨hpin, hadded⟩

theorem Placed.debounceDither (h : Placed s place) : gpioMapTestSetMap s.pinDebounce s.pinDither = false := by
  simp only [Bool.eq_false_iff, ne_eq, gpioMapTestSetMap_iff, not_exists, not_and]
  intro pin hdebounce hdither
  exact absurd (h.unique (show s.At .debounce pin from hdebounce) (show s.At .dither pin from hdither)) (by decide)

theorem Placed.downDither (h : Placed s place) : gpioMapTestSetMap s.pinDown s.pinDither = false := by
  simp only [Bool.eq_false_iff, ne_eq, gpioMapTestSetMap_iff, not_exists, not_and]
  intro pin hdown hdither
  have hat : s.At .dither pin := hdither
  rcases h.down_or hdown with hdown | hdebounce
  · exact absurd (h.unique hdown hat) (by decide)
  · exact absurd (h.unique hdebounce hat) (by decide)

theorem Placed.disjoint (h : Placed s place) (hidle : s.handler = .idle) :
    gpioMapTestSetMap s.pinDebounce s.pinDither = false ∧ gpioMapTestSetMap s.pinDebounce s.pinDown = false ∧
      gpioMapTestSetMap s.pinDown s.pinDither = false := by
  refine ⟨h.debounceDither, ?_, h.downDither⟩
  simp only [Bool.eq_false_iff, ne_eq, gpioMapTestSetMap_iff, not_exists, not_and]
  intro pin hdebounce hdown
  have hat : s.At .down pin := ⟨hdown, by simp only [hidle, Handler.downAdded, zero_iff, not_false_eq_true]⟩
  exact absurd (h.unique (show s.At .debounce pin from hdebounce) hat) (by decide)

theorem Inv.startTimer (h : Inv s) (hidle : s.handler = .idle) : Inv (s.startTimer time) := by
  obtain ⟨place, h⟩ := h
  obtain ⟨hdither, hdown, hboth⟩ := h.disjoint hidle
  rw [State.startTimer, if_neg (by rw [hdither, hdown, hboth]; decide)]
  refine ⟨place, h.stay (fun x p => ?_) trivial⟩
  cases x <;> simp only [State.At, hidle, Handler.downAdded, Handler.transit]

/-- The pins whose dithering is over are on their way out of the set. -/
theorem Inv.ditherClear (h : Inv s) (hhandler : s.handler = .ditherClear time pinMap) :
    Inv { s with pinDither := gpioMapClearMap s.pinDither pinMap, handler := .ditherEnable time pinMap } := by
  obtain ⟨place, h⟩ := h
  have hsees := h.sees
  rw [hhandler] at hsees
  refine h.moveFrom .transit .dither (pinMap.getLsbD · = true) (by decide) hsees (fun p => ?_)
    (fun p => gpioMapClearMap_iff) (fun x p hx hy => ?_) trivial
  · simp only [State.At, hhandler, Handler.transit, zero_iff, false_or]
  · cases x with
    | transit => exact absurd rfl hx
    | dither => exact absurd rfl hy
    | debounce => exact Iff.rfl
    | down => simp only [State.At, hhandler, Handler.downAdded]
    | enabled => exact Iff.rfl

theorem Inv.ditherEnable (h : Inv s) (hhandler : s.handler = .ditherEnable time pinMap)
    (hgpio : pinMap.getLsbD gpio = true) :
    Inv { s with
      irqEnabled := gpioMapSetPin s.irqEnabled gpio
      handler := .ditherEnable time (gpioMapClearPin pinMap gpio) } := by
  obtain ⟨place, h⟩ := h
  refine h.moveFrom .enabled .transit (· = gpio) (by decide) (fun p hp => ?_)
    (fun p => gpioMapSetPin_iff (lt_of_getLsbD hgpio)) (fun p => ?_) (fun x p hx hy => ?_) trivial
  · simp only [State.At, hhandler, Handler.transit, hp, hgpio]
  · simp only [State.At, hhandler, Handler.transit, gpioMapClearPin_iff, ne_eq]
  · cases x with
    | enabled => exact absurd rfl hx
    | transit => exact absurd rfl hy
    | debounce => exact Iff.rfl
    | down => simp only [State.At, hhandler, Handler.downAdded]
    | dither => exact Iff.rfl

theorem Inv.checkDown (h : Inv s) (hhandler : s.handler = .downPins time pinMap) (hgpio : pinMap.getLsbD gpio = true) :
    Inv (s.checkDown time pinMap gpio val) := by
  obtain ⟨place, h⟩ := h
  have hsees := h.sees
  rw [hhandler] at hsees
  have hat : s.At .down gpio := ⟨hsees gpio hgpio, by simp only [hhandler, Handler.downAdded, zero_iff,
    not_false_eq_true]⟩
  obtain ⟨key, hkey⟩ := (h.configured_of_at hat).findKey
  simp only [State.checkDown, hkey]
  split
  · refine ⟨place, h.stay (fun x p => ?_) fun p hp => hsees p (gpioMapClearPin_iff.mp hp).1⟩
    cases x <;> simp only [State.At, hhandler, Handler.downAdded, Handler.transit]
  · refine h.moveFrom .transit .down (· = gpio) (by decide) (fun p hp => hp ▸ hat) (fun p => ?_) (fun p => ?_)
      (fun x p hx hy => ?_) ⟨fun p hp => ?_, lt_of_getLsbD hgpio⟩
    · simp only [State.At, hhandler, Handler.transit, zero_iff, false_or, BitVec.getLsbD_twoPow, Bool.and_eq_true,
        decide_eq_true_eq, lt_of_getLsbD hgpio, true_and, @eq_comm _ gpio]
    · simp only [State.At, hhandler, Handler.downAdded, zero_iff, not_false_eq_true, and_true, gpioMapClearPin_iff,
        ne_eq]
    · cases x with
      | transit => exact absurd rfl hx
      | down => exact absurd rfl hy
      | debounce => exact Iff.rfl
      | enabled => exact Iff.rfl
      | dither => exact Iff.rfl
    · obtain ⟨hp, hne⟩ := gpioMapClearPin_iff.mp hp
      exact gpioMapClearPin_iff.mpr ⟨hsees p hp, hne⟩

theorem Inv.downEnable (h : Inv s) (hhandler : s.handler = .downEnable time pinMap gpio) :
    Inv { s with irqEnabled := gpioMapSetPin s.irqEnabled gpio, handler := .downPins time pinMap } := by
  obtain ⟨place, h⟩ := h
  have hsees := h.sees
  rw [hhandler] at hsees
  obtain ⟨hsees, hlt⟩ := hsees
  have htransit : ∀ p, s.At .transit p ↔ p = gpio := by
    intro p
    simp only [State.At, hhandler, Handler.transit, BitVec.getLsbD_twoPow, Bool.and_eq_true, decide_eq_true_eq, hlt,
      true_and, @eq_comm _ gpio]
  refine h.moveFrom .enabled .transit (· = gpio) (by decide) (fun p hp => (htransit p).mpr hp)
    (fun p => gpioMapSetPin_iff hlt) (fun p => ?_) (fun x p hx hy => ?_) hsees
  · rw [htransit, and_not_self_iff]
    simp only [State.At, Handler.transit, zero_iff]
  · cases x with
    | enabled => exact absurd rfl hx
    | transit => exact absurd rfl hy
    | debounce => exact Iff.rfl
    | down => simp only [State.At, hhandler, Handler.downAdded]
    | dither => exact Iff.rfl

/-- A pin found down is debounced, one found up again is dithered, at the end of the loop. -/
theorem Inv.checkDebounce (h : Inv s) (hhandler : s.handler = .debouncePins time pinMap downAdded ditherAdded)
    (hgpio : pinMap.getLsbD gpio = true) :
    Inv (s.checkDebounce time pinMap downAdded ditherAdded gpio val) := by
  obtain ⟨place, h⟩ := h
  have hsees := h.sees
  rw [hhandler] at hsees
  obtain ⟨hdebounce, hnotDown, hnotDither⟩ := (hsees gpio).1 hgpio
  have hat : s.At .debounce gpio := hdebounce
  have hlt := lt_of_getLsbD hgpio
  obtain ⟨key, hkey⟩ := (h.configured_of_at hat).findKey
  have hdown : ¬ s.pinDown.getLsbD gpio = true := by
    intro hpin
    have hat' : s.At .down gpio := ⟨hpin, by rw [hhandler]; exact hnotDown⟩
    exact absurd (h.unique hat hat') (by decide)
  simp only [State.checkDebounce, hkey]
  split
  · split
    · refine ⟨place, h.stay (fun x p => ?_) fun p => ⟨fun hp => ?_, fun hp => ?_, fun hp => ?_⟩⟩
      · cases x with
        | down =>
            simp only [State.At, hhandler, Handler.downAdded, gpioMapSetPin_iff hlt, not_or]
            constructor
            · rintro ⟨hp | rfl, hnot, hne⟩
              · exact ⟨hp, hnot⟩
              · exact absurd rfl hne
            · rintro ⟨hp, hnot⟩
              refine ⟨.inl hp, hnot, ?_⟩
              rintro rfl
              exact hdown hp
        | _ => simp only [State.At, hhandler, Handler.transit]
      · obtain ⟨hp, hne⟩ := gpioMapClearPin_iff.mp hp
        obtain ⟨hin, hnot, hnot'⟩ := (hsees p).1 hp
        refine ⟨hin, fun hadded => ?_, hnot'⟩
        exact ((gpioMapSetPin_iff hlt).mp hadded).elim hnot hne
      · rcases (gpioMapSetPin_iff hlt).mp hp with hp | rfl
        · obtain ⟨hin, hin', hnot⟩ := (hsees p).2.1 hp
          exact ⟨hin, (gpioMapSetPin_iff hlt).mpr (.inl hin'), hnot⟩
        · exact ⟨hdebounce, (gpioMapSetPin_iff hlt).mpr (.inr rfl), hnotDither⟩
      · exact (hsees p).2.2 hp
    · refine ⟨place, h.stay (fun x p => ?_) fun p => ⟨fun hp => ?_, (hsees p).2⟩⟩
      · cases x <;> simp only [State.At, hhandler, Handler.downAdded, Handler.transit]
      · exact (hsees p).1 (gpioMapClearPin_iff.mp hp).1
  · refine ⟨place, h.stay (fun x p => ?_) fun p => ⟨fun hp => ?_, fun hp => ?_, fun hp => ?_⟩⟩
    · cases x <;> simp only [State.At, hhandler, Handler.downAdded, Handler.transit]
    · obtain ⟨hp, hne⟩ := gpioMapClearPin_iff.mp hp
      obtain ⟨hin, hnot, hnot'⟩ := (hsees p).1 hp
      exact ⟨hin, hnot, fun hadded => ((gpioMapSetPin_iff hlt).mp hadded).elim hnot' hne⟩
    · obtain ⟨hin, hin', hnot⟩ := (hsees p).2.1 hp
      refine ⟨hin, hin', fun hadded => ((gpioMapSetPin_iff hlt).mp hadded).elim hnot ?_⟩
      rintro rfl
      exact hnotDown hp
    · rcases (gpioMapSetPin_iff hlt).mp hp with hp | rfl
      · exact (hsees p).2.2 hp
      · exact hdebounce

open Classical in
theorem Inv.debounceEnd (h : Inv s) (hhandler : s.handler = .debouncePins time pinMap downAdded ditherAdded) :
    Inv { s with
      pinDebounce := gpioMapClearMap (gpioMapClearMap s.pinDebounce downAdded) ditherAdded
      pinDither := gpioMapSetMap s.pinDither ditherAdded
      handler := .idle } := by
  obtain ⟨place, h⟩ := h
  have hsees := h.sees
  rw [hhandler] at hsees
  have hadded : ∀ p, downAdded.getLsbD p = true → s.At .debounce p := fun p hp => ((hsees p).2.1 hp).1
  have hdithered : ∀ p, ditherAdded.getLsbD p = true → s.At .debounce p := (hsees · |>.2.2)
  refine ⟨_, h.move (fun p => if downAdded.getLsbD p = true then some .down else
    if ditherAdded.getLsbD p = true then some .dither else none) (fun p x hmoved => ?_) (fun x p => ?_) trivial⟩
  · split at hmoved
    · exact h.configured_of_at (hadded p ‹_›)
    · split at hmoved
      · exact h.configured_of_at (hdithered p ‹_›)
      · cases hmoved
  · by_cases hdown : downAdded.getLsbD p = true
    · have hold : ∀ x, s.At x p → x = .debounce := fun x hx => h.unique hx (hadded p hdown)
      obtain ⟨hin, hin', hnot⟩ := (hsees p).2.1 hdown
      rw [if_pos hdown]
      cases x with
      | debounce => simp only [State.At, gpioMapClearMap_iff, hdown, not_true_eq_false, and_false, false_and,
          Option.some.injEq, reduceCtorEq, or_self]
      | dither =>
          have hclear : ¬ s.pinDither.getLsbD p = true := fun hp => absurd (hold .dither hp) (by decide)
          simp only [State.At, gpioMapSetMap_iff, hclear, hnot, or_self, Option.some.injEq, reduceCtorEq, false_and]
      | down => simp only [State.At, hin', Handler.downAdded, zero_iff, not_false_eq_true, and_self, true_or]
      | enabled =>
          have hoff : ¬ s.irqEnabled.getLsbD p = true := fun hp => absurd (hold .enabled hp) (by decide)
          simp only [State.At, hoff, Option.some.injEq, reduceCtorEq, false_and, or_self]
      | transit => simp only [State.At, Handler.transit, zero_iff, Option.some.injEq, reduceCtorEq, false_and, or_self]
    · rw [if_neg hdown]
      by_cases hdither : ditherAdded.getLsbD p = true
      · have hold : ∀ x, s.At x p → x = .debounce := fun x hx => h.unique hx (hdithered p hdither)
        rw [if_pos hdither]
        cases x with
        | debounce => simp only [State.At, gpioMapClearMap_iff, hdither, not_true_eq_false, and_false,
            Option.some.injEq, reduceCtorEq, false_and, or_self]
        | dither => simp only [State.At, gpioMapSetMap_iff, hdither, or_true, true_or]
        | down =>
            have hnot : ¬ s.pinDown.getLsbD p = true := fun hp =>
              absurd (hold .down ⟨hp, by rw [hhandler]; exact hdown⟩) (by decide)
            simp only [State.At, hnot, false_and, Option.some.injEq, reduceCtorEq, or_self]
        | enabled =>
            have hoff : ¬ s.irqEnabled.getLsbD p = true := fun hp => absurd (hold .enabled hp) (by decide)
            simp only [State.At, hoff, Option.some.injEq, reduceCtorEq, false_and, or_self]
        | transit =>
            simp only [State.At, Handler.transit, zero_iff, Option.some.injEq, reduceCtorEq, false_and, or_self]
      · rw [if_neg hdither]
        cases x <;> simp only [State.At, hhandler, gpioMapClearMap_iff, gpioMapSetMap_iff, Handler.downAdded,
          Handler.transit, zero_iff, hdown, hdither, not_false_eq_true, and_true, or_false, reduceCtorEq, false_or,
          true_and]

theorem Inv.stay (h : Inv s) {handler : Handler cfg}
    (htransit : ∀ p, handler.transit.getLsbD p = s.handler.transit.getLsbD p)
    (hdown : ∀ p, handler.downAdded.getLsbD p = s.handler.downAdded.getLsbD p)
    (hsees : Sees { s with handler := handler } handler) : Inv { s with handler := handler } := by
  obtain ⟨place, h⟩ := h
  refine ⟨place, h.stay (fun x p => ?_) hsees⟩
  cases x with
  | down => simp only [State.At, hdown]
  | transit => simp only [State.At, htransit]
  | _ => exact Iff.rfl

theorem Inv.goOn {s' : State cfg} (h : Inv s) (hstep : s.goOn val = some s') : Inv s' := by
  rw [State.goOn] at hstep
  split at hstep
  · cases hstep
  · rename_i time hhandler
    split at hstep
    · obtain rfl := Option.some.inj hstep
      exact h.stay (by rw [hhandler]; exact fun _ => rfl) (by rw [hhandler]; exact fun _ => rfl) fun _ hp => hp
    · obtain rfl := Option.some.inj hstep
      exact h.stay (by rw [hhandler]; exact fun _ => rfl) (by rw [hhandler]; exact fun _ => rfl) trivial
  · obtain rfl := Option.some.inj hstep
    exact h.ditherClear ‹_›
  · rename_i time pinMap hhandler
    split at hstep
    · rename_i hnone
      obtain rfl := Option.some.inj hstep
      refine h.stay (fun p => ?_) (by rw [hhandler]; exact fun _ => rfl) trivial
      rw [hhandler]
      simp only [Handler.transit, Bool.eq_false_iff.mpr (firstPin_none hnone p), BitVec.ofNat_eq_ofNat,
        BitVec.getLsbD_zero]
    · obtain rfl := Option.some.inj hstep
      exact h.ditherEnable hhandler (firstPin_some ‹_›)
  · rename_i time hhandler
    obtain rfl := Option.some.inj hstep
    exact h.stay (by rw [hhandler]; exact fun _ => rfl) (by rw [hhandler]; exact fun _ => rfl) fun _ hp => hp
  · rename_i time pinMap hhandler
    split at hstep
    · obtain rfl := Option.some.inj hstep
      exact h.stay (by rw [hhandler]; exact fun _ => rfl) (by rw [hhandler]; exact fun _ => rfl) trivial
    · obtain rfl := Option.some.inj hstep
      exact h.checkDown hhandler (firstPin_some ‹_›)
  · obtain rfl := Option.some.inj hstep
    exact h.downEnable ‹_›
  · rename_i time hhandler
    obtain rfl := Option.some.inj hstep
    refine h.stay (by rw [hhandler]; exact fun _ => rfl) (by rw [hhandler]; exact fun _ => rfl) fun p => ?_
    simp only [zero_iff, not_false_eq_true, and_self, and_true, false_implies, imp_self]
  · rename_i time pinMap downAdded ditherAdded hhandler
    split at hstep
    · obtain rfl := Option.some.inj hstep
      exact h.checkDebounce hhandler (firstPin_some ‹_›)
    · obtain rfl := Option.some.inj hstep
      exact h.debounceEnd hhandler
  · cases hstep

theorem Inv.step {s' : State cfg} {e : Event} (h : Inv s) (hstep : GpioKey.step s e = some s') : Inv s' := by
  cases e with
  | irq pin val time =>
      simp only [GpioKey.step] at hstep
      split at hstep
      · obtain rfl := Option.some.inj hstep
        exact h.irq (And.left ‹_›)
      · cases hstep
  | tick time =>
      simp only [GpioKey.step] at hstep
      split at hstep
      · obtain rfl := Option.some.inj hstep
        exact h.startTimer ‹_›
      · cases hstep
  | goOn val => exact h.goOn hstep

end Steps

/-! ### The claim of the driver -/

/-- The assertion at the start of the timer handler does not fail, no pin is in two of the sets but one the
debouncing loop has just put down, and a configured pin that is in none of them has its interrupt on or is about
to get it from the timer handler. -/
structure State.Sound (s : State cfg) : Prop where
  asserted : s.handler ≠ .failed
  debounceDither : gpioMapTestSetMap s.pinDebounce s.pinDither = false
  downDither : gpioMapTestSetMap s.pinDown s.pinDither = false
  debounceDown : ∀ pin, s.pinDebounce.getLsbD pin = true → s.pinDown.getLsbD pin = true →
    s.handler.downAdded.getLsbD pin = true
  enabled : ∀ pin, cfg.Configured pin → ¬ s.pinDebounce.getLsbD pin = true → ¬ s.pinDither.getLsbD pin = true →
    ¬ s.pinDown.getLsbD pin = true → s.irqEnabled.getLsbD pin = true ∨ s.handler.transit.getLsbD pin = true

theorem Placed.sound {s : State cfg} {place : Nat → Option Place} (h : Placed s place) : s.Sound where
  asserted := by
    intro hfailed
    have hsees := h.sees
    rw [hfailed] at hsees
    exact hsees
  debounceDither := h.debounceDither
  downDither := h.downDither
  debounceDown := by
    intro pin hpin hpin'
    by_contra hnot
    exact absurd (h.unique (show s.At .debounce pin from hpin) (show s.At .down pin from ⟨hpin', hnot⟩)) (by decide)
  enabled := by
    intro pin hpin hdebounce hdither hdown
    obtain ⟨x, hx⟩ := Option.isSome_iff_exists.mp ((h.configured pin).mpr hpin)
    have hat := (h.at_iff x pin).mpr hx
    cases x with
    | debounce => exact absurd hat hdebounce
    | dither => exact absurd hat hdither
    | down => exact absurd hat.1 hdown
    | enabled => exact .inl hat
    | transit => exact .inr hat

/-- In every state the driver reaches the sets are sound; whenever the timer handler is not running they are
pairwise disjoint, and every configured pin in none of them has its interrupt on. -/
theorem gpioKey_pins {events : List Event} {s : State cfg} (hrun : run step (State.opened cfg) events = some s) :
    s.Sound ∧ (s.handler = .idle →
      gpioMapTestSetMap s.pinDebounce s.pinDither = false ∧ gpioMapTestSetMap s.pinDebounce s.pinDown = false ∧
        gpioMapTestSetMap s.pinDown s.pinDither = false ∧
        (∀ time, (s.startTimer time).handler ≠ .failed) ∧
        ∀ pin, cfg.Configured pin → ¬ s.pinDebounce.getLsbD pin = true → ¬ s.pinDither.getLsbD pin = true →
          ¬ s.pinDown.getLsbD pin = true → s.irqEnabled.getLsbD pin = true) := by
  obtain ⟨place, h⟩ := run_invariant Inv (fun _ _ _ h hstep => h.step hstep) ⟨_, placed_opened cfg⟩ hrun
  refine ⟨h.sound, fun hidle => ?_⟩
  obtain ⟨hdither, hdown, hboth⟩ := h.disjoint hidle
  refine ⟨hdither, hdown, hboth, fun time => ?_, fun pin hpin hdebounce hdither hdown => ?_⟩
  · have hstarted : Inv (s.startTimer time) := Inv.startTimer ⟨place, h⟩ hidle
    obtain ⟨place', h'⟩ := hstarted
    exact h'.sound.asserted
  · have hon := h.sound.enabled pin hpin hdebounce hdither hdown
    simpa only [hidle, Handler.transit, zero_iff, or_false] using hon

/-- Three function keys that pull their pins low. -/
def defaultConfig : Config where
  gpioPinNum := 16
  keys := [⟨2, 3, false⟩, ⟨4, 10, false⟩, ⟨8, 7, false⟩]
  debounceInterval := 1280
  ditherInterval := 640
  pin_lt := by decide

/-- A key is debounced; while it is put down another one is pressed. -/
theorem gpioKey_pins_twoKeys :
    ∃ s, run step (State.opened defaultConfig) [.irq 3 false 100, .tick 2000, .goOn false, .goOn false, .goOn false,
        .goOn false, .goOn false, .irq 10 false 2001, .goOn false] = some s ∧ s.Sound ∧ (s.handler = .idle →
      gpioMapTestSetMap s.pinDebounce s.pinDither = false ∧ gpioMapTestSetMap s.pinDebounce s.pinDown = false ∧
        gpioMapTestSetMap s.pinDown s.pinDither = false ∧
        (∀ time, (s.startTimer time).handler ≠ .failed) ∧
        ∀ pin, defaultConfig.Configured pin → ¬ s.pinDebounce.getLsbD pin = true →
          ¬ s.pinDither.getLsbD pin = true → ¬ s.pinDown.getLsbD pin = true → s.irqEnabled.getLsbD pin = true) := by
  obtain ⟨s, hs⟩ : ∃ s, run step (State.opened defaultConfig) [.irq 3 false 100, .tick 2000, .goOn false, .goOn false,
      .goOn false, .goOn false, .goOn false, .irq 10 false 2001, .goOn false] = some s :=
    Option.isSome_iff_exists.mp (by decide)
  exact ⟨s, hs, gpioKey_pins hs⟩

end Best1307.GpioKey
