import Best1307.Lib.Highest
import Best1307.Lib.Run
import Best1307.Lib.SlotRing
import Mathlib.Logic.Function.Basic

/-!
# The parameters of a BLE connection

`app_ble.c`: each use of a connection enables a mode while it lasts, and each mode asks for connection parameters with a
priority. For every connection there is a mask of the modes that are enabled. What is requested is worked out from it
at each call, unless the call finds that the request made before still stands.

The table has an entry for every mode, but the last one, `BLE_CONN_PARAM_MODE_RATE_TEST`, is not written down. It is
zero, so that it counts as one more entry of the mode `BLE_CONN_PARAM_MODE_DEFAULT`.
-/

namespace Best1307.ConnParam

open Highest (highest)

/-- `BLE_CONN_PARAM_MODE_E` -/
inductive Mode
  | default
  | aiStreamOn
  | a2dpOn
  | hfpOn
  | ota
  | otaSlower
  | snoopExchange
  | svcDisc
  | isoData
  | rateTest
  deriving DecidableEq

def Mode.toNat : Mode → Nat
  | default => 0
  | aiStreamOn => 1
  | a2dpOn => 2
  | hfpOn => 3
  | ota => 4
  | otaSlower => 5
  | snoopExchange => 6
  | svcDisc => 7
  | isoData => 8
  | rateTest => 9

/-- `BLE_CONN_PARAM_PRIORITY_E` -/
inductive Priority
  | normal
  | aboveNormal0
  | aboveNormal1
  | aboveNormal2
  | high
  deriving DecidableEq

def Priority.toNat : Priority → Nat
  | normal => 0
  | aboveNormal0 => 1
  | aboveNormal1 => 2
  | aboveNormal2 => 3
  | high => 4

/-- `gap_update_params_t`, as far as it is filled in -/
structure Params where
  connIntervalMin : Nat
  connIntervalMax : Nat
  maxPeripheralLatency : Nat
  deriving DecidableEq

/-- `BLE_CONN_PARAM_CONFIG_T` -/
structure Config where
  mode : Mode
  priority : Priority
  connIntervalMin : Nat
  connIntervalMax : Nat
  connSlaveLatencyCnt : Nat
  deriving DecidableEq

def Config.params (config : Config) : Params :=
  ⟨config.connIntervalMin, config.connIntervalMax, config.connSlaveLatencyCnt⟩

/-- The entries of `ble_conn_param_config` that are written down -/
def writtenConfig : List Config :=
  [⟨.default, .normal, 36, 36, 0⟩,
    ⟨.aiStreamOn, .aboveNormal1, 16, 16, 0⟩,
    ⟨.a2dpOn, .aboveNormal0, 48, 48, 0⟩,
    ⟨.hfpOn, .aboveNormal2, 48, 48, 0⟩,
    ⟨.ota, .high, 12, 12, 0⟩,
    ⟨.otaSlower, .high, 20, 20, 0⟩,
    ⟨.snoopExchange, .high, 8, 24, 0⟩,
    ⟨.svcDisc, .aboveNormal2, 8, 24, 0⟩,
    ⟨.isoData, .high, 48, 48, 0⟩]

/-- The entry that is left zero -/
def zeroConfig : Config := ⟨.default, .normal, 0, 0, 0⟩

def bleConnParamConfig : List Config := writtenConfig ++ [zeroConfig]

theorem Mode.toNat_lt (mode : Mode) : mode.toNat < bleConnParamConfig.length := by
  cases mode <;> decide

def configOf (mode : Mode) : Config := bleConnParamConfig.get ⟨mode.toNat, mode.toNat_lt⟩

def priorityOf (mode : Mode) : Nat := (configOf mode).priority.toNat

/-- `1 << mode` -/
def Mode.bit (mode : Mode) : BitVec 32 := BitVec.twoPow 32 mode.toNat

def Config.rank (config : Config) : Nat := config.priority.toNat

def Config.isIn (modes : BitVec 32) (config : Config) : Bool := modes.getLsbD config.mode.toNat

/-- One connection: its entry of `existingBleConnParamModes` and what was last passed to
`gap_update_le_conn_parameters`. What the calls have asked for since it was opened is kept beside it. -/
structure Conn where
  modes : BitVec 32
  requested : Option Params
  enabled : Mode → Bool
  asked : Bool

/-- `app_ble_reset_conn_param_mode`, when a connection is opened or closed -/
def Conn.reset : Conn := ⟨0, none, fun _ => false, false⟩

/-- What a call does: the modes that are enabled after it, and what it requests, if it does -/
structure Outcome where
  modes : BitVec 32
  request : Option Config

/-- The branch `if (enable)` -/
def enableMode (modes : BitVec 32) (mode : Mode) : Outcome :=
  if modes.getLsbD mode.toNat then
    ⟨modes, none⟩
  else
    let modes := modes ||| mode.bit
    if bleConnParamConfig.any fun config => config.isIn modes && decide ((configOf mode).rank < config.rank) then
      ⟨modes, none⟩
    else
      ⟨modes, some (configOf mode)⟩

/-- The other branch; undefined when the parameters are read through a pointer that is still `NULL`. -/
def disableMode (modes : BitVec 32) (mode : Mode) : Option Outcome :=
  if modes.getLsbD mode.toNat then
    let modes := modes &&& ~~~mode.bit
    if modes = 0 then
      some ⟨modes, some (configOf .default)⟩
    else
      (highest Config.rank (Config.isIn modes) none bleConnParamConfig).map fun config =>
        if (configOf mode).rank < config.rank then ⟨modes, none⟩ else ⟨modes, some config⟩
  else
    some ⟨modes, none⟩

def arbitrate (modes : BitVec 32) (mode : Mode) (enable : Bool) : Option Outcome :=
  if enable then some (enableMode modes mode) else disableMode modes mode

def Conn.update (conn : Conn) (mode : Mode) (enable : Bool) : Option Conn :=
  (arbitrate conn.modes mode enable).map fun outcome =>
    { modes := outcome.modes
      requested := (outcome.request.map Config.params).or conn.requested
      enabled := Function.update conn.enabled mode enable
      asked := conn.asked || enable }

/-- The connections, by their zero-based index -/
abbrev State := Nat → Conn

def gapZeroBasedConidx (conIdx : Nat) : Nat := conIdx % 16

/-- `app_ble_update_conn_param_mode_of_specific_connection` -/
def updateConnParamModeOfSpecificConnection (s : State) (conIdx : Nat) (mode : Mode) (enable : Bool) : Option State :=
  ((s (gapZeroBasedConidx conIdx)).update mode enable).map fun conn =>
    Function.update s (gapZeroBasedConidx conIdx) conn

/-- `app_ble_update_conn_param_mode`; the connections come in the order `gap_conn_foreach` has for them. -/
def updateConnParamMode (s : State) (conns : List Nat) (mode : Mode) (enable : Bool) : Option State :=
  conns.foldlM (fun s conIdx => updateConnParamModeOfSpecificConnection s conIdx mode enable) s

inductive Event
  | opened (conIdx : Nat)
  | closed (conIdx : Nat)
  | specific (conIdx : Nat) (mode : Mode) (enable : Bool)
  | every (conns : List Nat) (mode : Mode) (enable : Bool)

def step (s : State) : Event → Option State
  | .opened conIdx => some (Function.update s (gapZeroBasedConidx conIdx) .reset)
  | .closed conIdx => some (Function.update s (gapZeroBasedConidx conIdx) .reset)
  | .specific conIdx mode enable => updateConnParamModeOfSpecificConnection s conIdx mode enable
  | .every conns mode enable => updateConnParamMode s conns mode enable

def init : State := fun _ => .reset

/-! ### What is asked of it -/

/-- Of the enabled modes it is one with the highest priority; with none it is the default one. -/
structure IsBest (enabled : Mode → Bool) (mode : Mode) : Prop where
  of_some : (∃ m, enabled m = true) → enabled mode = true
  of_none : (∀ m, enabled m = false) → mode = .default
  highest : ∀ m, enabled m = true → priorityOf m ≤ priorityOf mode

def Conn.Settled (conn : Conn) : Prop :=
  conn.asked = true → ∃ mode, IsBest conn.enabled mode ∧ conn.requested = some (configOf mode).params

/-- A call for one connection leaves what was requested for the others. -/
def Apart (s : State) : Event → Prop
  | .specific conIdx mode enable => ∀ s', step s (.specific conIdx mode enable) = some s' →
      ∀ i, i ≠ gapZeroBasedConidx conIdx → (s' i).requested = (s i).requested
  | _ => True

structure Meets (events : List Event) : Prop where
  settles : ∃ s, run step init events = some s ∧ ∀ i, (s i).Settled
  apart : Along step Apart init events

/-- A mode is to be disabled, and then only the mode without an entry of its own is left. -/
def Conn.Stranded (conn : Conn) (mode : Mode) (enable : Bool) : Prop :=
  enable = false ∧ mode ≠ .rateTest ∧ ∀ m, conn.enabled m = true ↔ m = mode ∨ m = .rateTest

def NotStranded (s : State) : Event → Prop
  | .specific conIdx mode enable => ¬ (s (gapZeroBasedConidx conIdx)).Stranded mode enable
  | .every conns mode enable => ∀ conIdx ∈ conns, ¬ (s (gapZeroBasedConidx conIdx)).Stranded mode enable
  | _ => True

/-! ### The table -/

theorem Mode.toNat_injective : Function.Injective Mode.toNat := by
  intro m m' h
  cases m <;> cases m' <;> first | rfl | exact absurd h (by decide)

theorem Mode.toNat_lt_32 (mode : Mode) : mode.toNat < 32 := by
  cases mode <;> decide

theorem configOf_mode {config : Config} (h : config ∈ writtenConfig) : configOf config.mode = config :=
  (by decide : ∀ config ∈ writtenConfig, configOf config.mode = config) config h

theorem configOf_mem {mode : Mode} (h : mode ≠ .rateTest) :
    configOf mode ∈ writtenConfig ∧ (configOf mode).mode = mode := by
  cases mode <;> first | decide | exact absurd rfl h

theorem rank_eq {config : Config} (h : config ∈ bleConnParamConfig) : config.rank = priorityOf config.mode :=
  (by decide : ∀ config ∈ bleConnParamConfig, config.rank = priorityOf config.mode) config h

theorem priorityOf_rateTest : priorityOf .rateTest = 0 := rfl

theorem mode_ne_rateTest {config : Config} (h : config ∈ bleConnParamConfig) : config.mode ≠ .rateTest :=
  (by decide : ∀ config ∈ bleConnParamConfig, config.mode ≠ .rateTest) config h

/-- The entry that is left zero comes after the one of the same mode, and so is never found. -/
theorem highest_config (modes : BitVec 32) :
    highest Config.rank (Config.isIn modes) none bleConnParamConfig =
      highest Config.rank (Config.isIn modes) none writtenConfig :=
  Highest.highest_concat fun h => ⟨configOf .default, by decide, h, by decide⟩

/-! ### The mask -/

/-- The bits that are set are those of the modes that are enabled. -/
def Tells (modes : BitVec 32) (enabled : Mode → Bool) : Prop :=
  ∀ i, modes.getLsbD i = true ↔ ∃ m, m.toNat = i ∧ enabled m = true

variable {modes : BitVec 32} {enabled : Mode → Bool} {mode m : Mode} {config : Config}

theorem Tells.getLsbD (h : Tells modes enabled) (m : Mode) : modes.getLsbD m.toNat = enabled m := by
  rw [Bool.eq_iff_iff, h]
  constructor
  · rintro ⟨m', heq, hm'⟩
    rwa [← Mode.toNat_injective heq]
  · exact fun hm => ⟨m, rfl, hm⟩

theorem Tells.isIn (h : Tells modes enabled) : config.isIn modes = enabled config.mode := h.getLsbD config.mode

theorem Tells.set (h : Tells modes enabled) : Tells (modes ||| mode.bit) (Function.update enabled mode true) := by
  intro i
  rw [Mode.bit, SlotRing.getLsbD_or_twoPow mode.toNat_lt_32, h]
  constructor
  · rintro (⟨m, rfl, hm⟩ | rfl)
    · refine ⟨m, rfl, ?_⟩
      by_cases hmode : m = mode
      · rw [hmode, Function.update_self]
      · rwa [Function.update_of_ne hmode]
    · exact ⟨mode, rfl, Function.update_self ..⟩
  · rintro ⟨m, rfl, hm⟩
    by_cases hmode : m = mode
    · exact .inr (congrArg Mode.toNat hmode)
    · rw [Function.update_of_ne hmode] at hm
      exact .inl ⟨m, rfl, hm⟩

theorem Tells.clear (h : Tells modes enabled) : Tells (modes &&& ~~~mode.bit) (Function.update enabled mode false) := by
  intro i
  rw [Mode.bit, SlotRing.getLsbD_andNot_twoPow, h]
  constructor
  · rintro ⟨⟨m, rfl, hm⟩, hne⟩
    have hmode : m ≠ mode := fun heq => hne (congrArg Mode.toNat heq)
    exact ⟨m, rfl, by rwa [Function.update_of_ne hmode]⟩
  · rintro ⟨m, rfl, hm⟩
    by_cases hmode : m = mode
    · rw [hmode, Function.update_self] at hm
      exact absurd hm Bool.false_ne_true
    · rw [Function.update_of_ne hmode] at hm
      exact ⟨⟨m, rfl, hm⟩, fun heq => hmode (Mode.toNat_injective heq)⟩

theorem Tells.eq_zero_iff (h : Tells modes enabled) : modes = 0 ↔ ∀ m, enabled m = false := by
  constructor
  · rintro rfl m
    rw [← h.getLsbD m]
    exact BitVec.getLsbD_zero
  · intro hnone
    refine BitVec.eq_of_getLsbD_eq fun i _ => ?_
    have hbit : ¬ modes.getLsbD i = true := fun hbit => by
      obtain ⟨m, -, hm⟩ := (h i).mp hbit
      rw [hnone m] at hm
      exact Bool.false_ne_true hm
    rw [Bool.not_eq_true _ |>.mp hbit]
    exact BitVec.getLsbD_zero.symm

/-! ### The best mode -/

/-- A mode that is not above one of the enabled ones is enabled as well. -/
theorem IsBest.set (h : IsBest enabled mode) (hm : enabled m = true) {new : Mode}
    (hle : priorityOf new ≤ priorityOf m) :
    IsBest (Function.update enabled new true) mode where
  of_some := fun _ => by
    by_cases hmode : mode = new
    · rw [hmode, Function.update_self]
    · rw [Function.update_of_ne hmode]
      exact h.of_some ⟨m, hm⟩
  of_none := fun hnone => absurd (hnone new) (by rw [Function.update_self]; exact Bool.true_eq_false.mp)
  highest := fun m' hm' => by
    by_cases hnew : m' = new
    · rw [hnew]
      exact Nat.le_trans hle (h.highest m hm)
    · rw [Function.update_of_ne hnew] at hm'
      exact h.highest m' hm'

theorem IsBest.clear (h : IsBest enabled mode) {old : Mode} (hm : Function.update enabled old false m = true)
    (hlt : priorityOf old < priorityOf m) : IsBest (Function.update enabled old false) mode := by
  have hle : ∀ m', Function.update enabled old false m' = true → enabled m' = true := fun m' hm' => by
    by_cases hold : m' = old
    · rw [hold, Function.update_self] at hm'
      exact absurd hm' Bool.false_ne_true
    · rwa [Function.update_of_ne hold] at hm'
  have hne : mode ≠ old := by
    rintro rfl
    exact absurd (h.highest m (hle m hm)) (Nat.not_le.mpr hlt)
  refine ⟨fun _ => ?_, fun hnone => absurd (hnone m) ?_, fun m' hm' => h.highest m' (hle m' hm')⟩
  · rw [Function.update_of_ne hne]
    exact h.of_some ⟨m, hle m hm⟩
  · rw [hm]
    exact Bool.true_eq_false.mp

theorem IsBest.of_none_enabled (hnone : ∀ m, enabled m = false) : IsBest enabled .default where
  of_some := fun ⟨m, hm⟩ => absurd (hnone m) (by rw [hm]; exact Bool.true_eq_false.mp)
  of_none := fun _ => rfl
  highest := fun m hm => absurd (hnone m) (by rw [hm]; exact Bool.true_eq_false.mp)

/-- The mode that is enabled is the best one, if no entry that counts is above it. -/
theorem IsBest.of_enabled (hmode : enabled mode = true)
    (h : ∀ config ∈ bleConnParamConfig, enabled config.mode = true → config.rank ≤ priorityOf mode) :
    IsBest enabled mode where
  of_some := fun _ => hmode
  of_none := fun hnone => absurd (hnone mode) (by rw [hmode]; exact Bool.true_eq_false.mp)
  highest := fun m hm => by
    by_cases hrate : m = .rateTest
    · rw [hrate, priorityOf_rateTest]
      exact Nat.zero_le _
    · obtain ⟨hmem, hconfig⟩ := configOf_mem hrate
      exact h (configOf m) (List.mem_append_left _ hmem) (by rwa [hconfig])

theorem isBest_of_highest (htells : Tells modes enabled)
    (h : highest Config.rank (Config.isIn modes) none bleConnParamConfig = some config) :
    configOf config.mode = config ∧ enabled config.mode = true ∧ IsBest enabled config.mode := by
  have hall := (Highest.rank_le_of_highest h).2
  rw [highest_config] at h
  rcases Highest.mem_of_highest h with ⟨hmem, hcounts⟩ | hbefore
  · rw [htells.isIn] at hcounts
    have hconfig := configOf_mode hmem
    have hrank : config.rank = priorityOf config.mode := rank_eq (List.mem_append_left _ hmem)
    refine ⟨hconfig, hcounts, .of_enabled hcounts fun other hother hcounted => ?_⟩
    rw [← hrank]
    exact hall other hother (by rwa [htells.isIn])
  · cases hbefore

theorem highest_eq_none_iff (htells : Tells modes enabled) :
    highest Config.rank (Config.isIn modes) none bleConnParamConfig = none ↔
      ∀ m, enabled m = true → m = .rateTest := by
  rw [Highest.highest_eq_none]
  constructor
  · rintro ⟨-, hnone⟩ m hm
    by_contra hrate
    obtain ⟨hmem, hconfig⟩ := configOf_mem hrate
    have := hnone (configOf m) (List.mem_append_left _ hmem)
    rw [htells.isIn, hconfig, hm] at this
    exact absurd this (by decide)
  · refine fun hrate => ⟨rfl, fun config hconfig => ?_⟩
    rw [htells.isIn]
    exact Bool.eq_false_iff.mpr fun hm => mode_ne_rateTest hconfig (hrate _ hm)

/-! ### One call -/

section Stranded

variable {conn : Conn}

/-- Without `mode` there is still something, and it is without an entry. -/
theorem stranded_iff : conn.Stranded mode false ↔
    conn.enabled mode = true ∧ (∃ m, Function.update conn.enabled mode false m = true) ∧
      ∀ m, Function.update conn.enabled mode false m = true → m = .rateTest := by
  constructor
  · rintro ⟨-, hne, hall⟩
    refine ⟨(hall mode).mpr (.inl rfl), ⟨.rateTest, ?_⟩, fun m hm => ?_⟩
    · rw [Function.update_of_ne (Ne.symm hne)]
      exact (hall .rateTest).mpr (.inr rfl)
    · by_cases hmode : m = mode
      · rw [hmode, Function.update_self] at hm
        exact absurd hm Bool.false_ne_true
      · rw [Function.update_of_ne hmode] at hm
        exact ((hall m).mp hm).resolve_left hmode
  · rintro ⟨hset, ⟨left, hleft⟩, hall⟩
    obtain rfl := hall left hleft
    have hne : mode ≠ .rateTest := by
      rintro rfl
      rw [Function.update_self] at hleft
      exact Bool.false_ne_true hleft
    rw [Function.update_of_ne (Ne.symm hne)] at hleft
    refine ⟨rfl, hne, fun m => ⟨fun hm => ?_, ?_⟩⟩
    · by_cases hmode : m = mode
      · exact .inl hmode
      · exact .inr (hall m (by rwa [Function.update_of_ne hmode]))
    · rintro (rfl | rfl)
      · exact hset
      · exact hleft

end Stranded

/-- What the calls have asked for is what the connection has. -/
structure Conn.Inv (conn : Conn) : Prop where
  tells : Tells conn.modes conn.enabled
  settled : conn.Settled
  quiet : conn.asked = false → ∀ m, conn.enabled m = false

variable {conn conn' : Conn} {enable : Bool}

theorem Conn.inv_reset : Conn.reset.Inv where
  tells := fun i => by
    refine iff_of_false ?_ fun ⟨_, _, hm⟩ => Bool.false_ne_true hm
    rw [show Conn.reset.modes.getLsbD i = false from BitVec.getLsbD_zero]
    exact Bool.false_ne_true
  settled := fun h => absurd h Bool.false_ne_true
  quiet := fun _ _ => rfl

theorem Conn.Inv.asked (h : conn.Inv) (hm : conn.enabled m = true) : conn.asked = true := by
  by_contra hasked
  have := h.quiet (Bool.not_eq_true _ |>.mp hasked) m
  rw [hm] at this
  exact absurd this (by decide)

theorem update_eq (h : enabled mode = enable) : Function.update enabled mode enable = enabled := by
  rw [← h, Function.update_eq_self]

/-- A mode is enabled: the one requested before stands, or the new one is the best. -/
theorem Conn.Inv.update_true (h : conn.Inv) : ∃ conn', conn.update mode true = some conn' ∧ conn'.Inv := by
  refine ⟨_, rfl, ?_⟩
  have hquiet : (conn.asked || true) = false → ∀ m, Function.update conn.enabled mode true m = false := fun hasked => by
    rw [Bool.or_true] at hasked
    exact absurd hasked (by decide)
  by_cases hset : conn.enabled mode = true
  · have hstays : enableMode conn.modes mode = ⟨conn.modes, none⟩ := if_pos ((h.tells.getLsbD mode).trans hset)
    rw [hstays]
    rw [update_eq hset] at hquiet ⊢
    exact ⟨h.tells, fun _ => h.settled (h.asked hset), hquiet⟩
  · have hnot : ¬ conn.modes.getLsbD mode.toNat = true := by rwa [h.tells.getLsbD]
    have htells : Tells (conn.modes ||| mode.bit) (Function.update conn.enabled mode true) := h.tells.set
    rw [enableMode, if_neg hnot]
    dsimp only
    split
    case isTrue hany =>
      obtain ⟨config, hmem, hcounts⟩ := List.any_eq_true.mp hany
      rw [Bool.and_eq_true, htells.isIn, decide_eq_true_eq, rank_eq hmem] at hcounts
      obtain ⟨hcounts, hlt⟩ := hcounts
      have hne : config.mode ≠ mode := fun heq => Nat.lt_irrefl _ (heq ▸ hlt)
      rw [Function.update_of_ne hne] at hcounts
      obtain ⟨best, hbest, hrequested⟩ := h.settled (h.asked hcounts)
      exact ⟨htells, fun _ => ⟨best, hbest.set hcounts (Nat.le_of_lt hlt), hrequested⟩, hquiet⟩
    case isFalse hany =>
      refine ⟨htells, fun _ => ⟨mode, .of_enabled (Function.update_self ..) fun config hmem hcounts => ?_, rfl⟩, hquiet⟩
      refine Nat.le_of_not_lt fun hlt => hany (List.any_eq_true.mpr ⟨config, hmem, ?_⟩)
      rw [Bool.and_eq_true, htells.isIn, decide_eq_true_eq]
      exact ⟨hcounts, hlt⟩

/-- A mode is disabled: nothing is left, or the one requested before stands, or the best of those left is found. -/
theorem Conn.Inv.update_false (h : conn.Inv) (hstranded : ¬ conn.Stranded mode false) :
    ∃ conn', conn.update mode false = some conn' ∧ conn'.Inv := by
  rw [Conn.update, arbitrate, if_neg Bool.false_ne_true, disableMode]
  by_cases hset : conn.enabled mode = true
  · have hasked := h.asked hset
    have hquiet : (conn.asked || false) = false → ∀ m, Function.update conn.enabled mode false m = false := by
      intro hnot
      rw [hasked] at hnot
      exact absurd hnot (by decide)
    have htells : Tells (conn.modes &&& ~~~mode.bit) (Function.update conn.enabled mode false) := h.tells.clear
    rw [if_pos ((h.tells.getLsbD mode).trans hset)]
    dsimp only
    split
    case isTrue hzero =>
      exact ⟨_, rfl, htells, fun _ => ⟨.default, .of_none_enabled (htells.eq_zero_iff.mp hzero), rfl⟩, hquiet⟩
    case isFalse hzero =>
      cases hbest : highest Config.rank (Config.isIn (conn.modes &&& ~~~mode.bit)) none bleConnParamConfig with
      | none =>
          refine absurd (stranded_iff.mpr ⟨hset, ?_, (highest_eq_none_iff htells).mp hbest⟩) hstranded
          by_contra hall
          exact hzero (htells.eq_zero_iff.mpr fun m => Bool.eq_false_iff.mpr fun hm => hall ⟨m, hm⟩)
      | some config =>
          obtain ⟨hconfig, hcounts, hisBest⟩ := isBest_of_highest htells hbest
          refine ⟨_, rfl, ?_⟩
          dsimp only
          split
          case isTrue hlt =>
            have hbelow : priorityOf mode < priorityOf config.mode := by
              rwa [priorityOf, priorityOf, hconfig]
            obtain ⟨best, hbest, hrequested⟩ := h.settled hasked
            exact ⟨htells, fun _ => ⟨best, hbest.clear hcounts hbelow, hrequested⟩, hquiet⟩
          case isFalse =>
            refine ⟨htells, fun _ => ⟨config.mode, hisBest, ?_⟩, hquiet⟩
            rw [hconfig]
            rfl
  · rw [if_neg (by rwa [h.tells.getLsbD])]
    refine ⟨_, rfl, ?_⟩
    rw [update_eq (Bool.not_eq_true _ |>.mp hset), Bool.or_false]
    exact ⟨h.tells, h.settled, h.quiet⟩

theorem Conn.Inv.update (h : conn.Inv) (hstranded : ¬ conn.Stranded mode enable) :
    ∃ conn', conn.update mode enable = some conn' ∧ conn'.Inv := by
  cases enable with
  | false => exact h.update_false hstranded
  | true => exact h.update_true

/-- Only the mode without an entry is left, and the pointer stays `NULL`. -/
theorem Conn.Inv.update_stranded (h : conn.Inv) (hstranded : conn.Stranded mode enable) :
    conn.update mode enable = none := by
  obtain rfl := hstranded.1
  obtain ⟨hset, ⟨left, hleft⟩, hall⟩ := stranded_iff.mp hstranded
  have htells : Tells (conn.modes &&& ~~~mode.bit) (Function.update conn.enabled mode false) := h.tells.clear
  have hzero : conn.modes &&& ~~~mode.bit ≠ 0 := fun hzero => by
    rw [htells.eq_zero_iff.mp hzero left] at hleft
    exact Bool.false_ne_true hleft
  rw [Conn.update, arbitrate, if_neg Bool.false_ne_true, disableMode, if_pos ((h.tells.getLsbD mode).trans hset)]
  dsimp only
  rw [if_neg hzero, (highest_eq_none_iff htells).mpr hall]
  rfl

theorem Conn.not_stranded_of_update (h : conn.update mode enable = some conn') : ¬ conn'.Stranded mode enable := by
  rintro ⟨rfl, -, hall⟩
  obtain ⟨outcome, -, rfl⟩ := Option.map_eq_some_iff.mp h
  have hmode := (hall mode).mpr (.inl rfl)
  dsimp only at hmode
  rw [Function.update_self] at hmode
  exact Bool.false_ne_true hmode

/-! ### All connections -/

def Inv (s : State) : Prop := ∀ i, (s i).Inv

variable {s s' : State} {conIdx i : Nat} {conns : List Nat}

theorem inv_init : Inv init := fun _ => Conn.inv_reset

theorem Inv.set (h : Inv s) (hconn : conn.Inv) : Inv (Function.update s i conn) := fun j => by
  by_cases hj : j = i
  · rw [hj, Function.update_self]
    exact hconn
  · rw [Function.update_of_ne hj]
    exact h j

theorem Inv.specific (h : Inv s) (hstranded : ¬ (s (gapZeroBasedConidx conIdx)).Stranded mode enable) :
    ∃ s', updateConnParamModeOfSpecificConnection s conIdx mode enable = some s' ∧ Inv s' := by
  obtain ⟨conn, hconn, hinv⟩ := (h (gapZeroBasedConidx conIdx)).update hstranded
  exact ⟨_, Option.map_eq_some_iff.mpr ⟨conn, hconn, rfl⟩, h.set hinv⟩

theorem Inv.specific_stranded (h : Inv s) (hstranded : (s (gapZeroBasedConidx conIdx)).Stranded mode enable) :
    updateConnParamModeOfSpecificConnection s conIdx mode enable = none := by
  rw [updateConnParamModeOfSpecificConnection, (h (gapZeroBasedConidx conIdx)).update_stranded hstranded]
  rfl

theorem specific_apart (h : updateConnParamModeOfSpecificConnection s conIdx mode enable = some s')
    (hi : i ≠ gapZeroBasedConidx conIdx) : s' i = s i := by
  obtain ⟨conn, -, rfl⟩ := Option.map_eq_some_iff.mp h
  exact Function.update_of_ne hi ..

/-- After a call for one connection the same call for any of them strands no mode it would not have before. -/
theorem not_stranded_of_specific (h : updateConnParamModeOfSpecificConnection s conIdx mode enable = some s')
    (hi : ¬ (s i).Stranded mode enable) : ¬ (s' i).Stranded mode enable := by
  by_cases hcon : i = gapZeroBasedConidx conIdx
  · obtain ⟨conn, hconn, rfl⟩ := Option.map_eq_some_iff.mp h
    rw [hcon, Function.update_self]
    exact Conn.not_stranded_of_update hconn
  · rwa [specific_apart h hcon]

theorem updateConnParamMode_cons : updateConnParamMode s (conIdx :: conns) mode enable =
    (updateConnParamModeOfSpecificConnection s conIdx mode enable).bind
      fun s => updateConnParamMode s conns mode enable := List.foldlM_cons ..

theorem Inv.every (h : Inv s) (hstranded : ∀ conIdx ∈ conns, ¬ (s (gapZeroBasedConidx conIdx)).Stranded mode enable) :
    ∃ s', updateConnParamMode s conns mode enable = some s' ∧ Inv s' := by
  induction conns generalizing s with
  | nil => exact ⟨s, rfl, h⟩
  | cons conIdx conns ih =>
      obtain ⟨hfirst, hrest⟩ := List.forall_mem_cons.mp hstranded
      obtain ⟨s₁, hs₁, hinv⟩ := h.specific hfirst
      rw [updateConnParamMode_cons, hs₁]
      exact ih hinv fun other hother => not_stranded_of_specific hs₁ (hrest other hother)

theorem Inv.every_stranded (h : Inv s) (hmem : conIdx ∈ conns)
    (hstranded : (s (gapZeroBasedConidx conIdx)).Stranded mode enable) :
    updateConnParamMode s conns mode enable = none := by
  induction conns generalizing s with
  | nil => exact absurd hmem List.not_mem_nil
  | cons first conns ih =>
      rw [updateConnParamMode_cons]
      by_cases hfirst : (s (gapZeroBasedConidx first)).Stranded mode enable
      · rw [h.specific_stranded hfirst]
        rfl
      · obtain ⟨s₁, hs₁, hinv⟩ := h.specific hfirst
        have hne : gapZeroBasedConidx conIdx ≠ gapZeroBasedConidx first := fun heq => hfirst (heq ▸ hstranded)
        have hrest : conIdx ∈ conns := (List.mem_cons.mp hmem).resolve_left fun heq => hne (congrArg _ heq)
        rw [hs₁]
        exact ih hinv hrest (by rwa [specific_apart hs₁ hne])

/-- A step goes through, and keeps what holds, exactly where no connection is stranded. -/
theorem Inv.step {e : Event} (h : Inv s) (hstranded : NotStranded s e) : ∃ s', step s e = some s' ∧ Inv s' := by
  cases e with
  | opened conIdx => exact ⟨_, rfl, h.set Conn.inv_reset⟩
  | closed conIdx => exact ⟨_, rfl, h.set Conn.inv_reset⟩
  | specific conIdx mode enable => exact h.specific hstranded
  | every conns mode enable => exact h.every hstranded

theorem Inv.not_stranded {e : Event} (h : Inv s) (hstep : ConnParam.step s e = some s') : NotStranded s e := by
  cases e with
  | opened conIdx => trivial
  | closed conIdx => trivial
  | specific conIdx mode enable =>
      intro hstranded
      rw [ConnParam.step, h.specific_stranded hstranded] at hstep
      cases hstep
  | every conns mode enable =>
      intro conIdx hmem hstranded
      rw [ConnParam.step, h.every_stranded hmem hstranded] at hstep
      cases hstep

theorem apart_of_step (s : State) (e : Event) : Apart s e := by
  cases e with
  | specific conIdx mode enable => exact fun s' hstep i hi => congrArg Conn.requested (specific_apart hstep hi)
  | opened conIdx => trivial
  | closed conIdx => trivial
  | every conns mode enable => trivial

/-- The calls that leave the right request are those of runs in which no connection is stranded. -/
theorem arbitration_meets_iff (events : List Event) : Meets events ↔ Along step NotStranded init events := by
  constructor
  · rintro ⟨⟨s, hrun, -⟩, -⟩
    exact along_of_run Inv (fun s e s' h hstep => ⟨h.not_stranded hstep, by
      obtain ⟨t, ht, hinv⟩ := h.step (h.not_stranded hstep)
      rwa [Option.some.inj (hstep.symm.trans ht)]⟩) inv_init hrun
  · intro halong
    obtain ⟨s, hrun, hinv⟩ := halong.exists_run_invariant Inv (fun s e h => h.step) inv_init
    exact ⟨⟨s, hrun, fun i => (hinv i).settled⟩, along_of_forall fun e _ s => apart_of_step s e⟩

/-- An update over the air ends while a rate test goes on. -/
theorem not_meets_rateTest :
    ¬ Meets [.opened 0x30, .specific 0x30 .rateTest true, .specific 0x30 .ota true, .specific 0x30 .ota false] := by
  rintro ⟨⟨s, hrun, -⟩, -⟩
  have hnone : (run step init [.opened 0x30, .specific 0x30 .rateTest true, .specific 0x30 .ota true,
      .specific 0x30 .ota false]).isNone = true := by decide
  rw [hrun] at hnone
  exact Bool.false_ne_true hnone

end Best1307.ConnParam
