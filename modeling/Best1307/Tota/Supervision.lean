import Mathlib.Algebra.Group.Nat.Defs
import Mathlib.Data.List.Nodup
import Best1307.Hal.TimerConversion
import Best1307.Lib.Run

/-!
# Commands that wait for their response

The commands that want a response are kept with what is left of their time, the one due first in front. When one is
added, the list is built anew in one loop over the old one. That loop puts the new command in the place of every one
that has more time left, and the new command stands at the end as well.
-/

namespace Best1307.TotaCmd

/-- `APP_TOTA_CMD_HANDLER_WAITING_RSP_TIMEOUT_SUPERVISOR_COUNT` -/
def supervisorCount : Nat := 8

open TimerConversion (Conversion)

/-- `timeoutWaitingRspInMs` of the command table, and the frequency of the system timer -/
structure Config where
  timeoutWaitingRspInMs : Nat → Nat
  sysTickHz : Nat

/-- `APP_TOTA_CMD_WAITING_RSP_SUPERVISOR_T` -/
structure Supervisor where
  entryIndex : Nat
  msTillTimeout : Nat
  deriving DecidableEq, Repr

/-- `tota_cmd_handler_env`, what the timer was started with, and the clock. -/
structure Env where
  waitingRspTimeoutInstance : List Supervisor
  lastSysTicks : Nat
  supervisorTimer : Option Nat
  clock : Nat
  deriving DecidableEq, Repr

def Supervisor.countDown (deltaMs : Nat) (x : Supervisor) : Supervisor :=
  { x with msTillTimeout := if deltaMs < x.msTillTimeout then x.msTillTimeout - deltaMs else 0 }

/-- The loop over the old entries: those kept, and the new one in the place of some. -/
def rebuild (entryIndex timeout : Nat) : List Supervisor → List Supervisor
  | [] => []
  | x :: rest =>
      if x.entryIndex ≠ entryIndex ∧ x.msTillTimeout ≤ timeout then x :: rebuild entryIndex timeout rest
      else if timeout < x.msTillTimeout then ⟨entryIndex, timeout⟩ :: rebuild entryIndex timeout rest
      else rebuild entryIndex timeout rest

namespace Env

variable (cfg : Config) (s : Env)

def init : Env := ⟨[], 0, none, 0⟩

def currentTicks : Nat := s.clock % 2 ^ 32

def passedTicks : Nat :=
  if s.lastSysTicks ≤ s.currentTicks then s.currentTicks - s.lastSysTicks
  else 0xFFFFFFFF - s.lastSysTicks + 1 + s.currentTicks

/-- `TICKS_TO_MS`, which goes to the nearest millisecond; with floating point it does so as well. -/
def deltaMs : Nat := Conversion.ticksToMs.exact cfg.sysTickHz s.passedTicks % 2 ^ 32

/-- `app_tota_cmd_refresh_supervisor_env` -/
def refreshSupervisorEnv : Env :=
  { s with
    waitingRspTimeoutInstance :=
      if 0 < s.waitingRspTimeoutInstance.length then
        s.waitingRspTimeoutInstance.map (Supervisor.countDown (s.deltaMs cfg))
      else s.waitingRspTimeoutInstance
    lastSysTicks := s.currentTicks }

def startTimer : Env := { s with supervisorTimer := s.waitingRspTimeoutInstance.head?.map Supervisor.msTillTimeout }

/-- `app_tota_cmd_handler_remove_waiting_rsp_timeout_supervision`, which asserts that there is a command at all. -/
def removeWaitingRspTimeoutSupervision (entryIndex : Nat) : Option Env :=
  if 0 < s.waitingRspTimeoutInstance.length then
    if s.waitingRspTimeoutInstance.any (·.entryIndex == entryIndex) then
      let s := { s with
        waitingRspTimeoutInstance := s.waitingRspTimeoutInstance.eraseP (·.entryIndex == entryIndex) }
      some (if 0 < s.waitingRspTimeoutInstance.length then (s.refreshSupervisorEnv cfg).startTimer
        else { s with supervisorTimer := none })
    else some s
  else none

/-- `app_tota_cmd_handler_add_waiting_rsp_timeout_supervision`, which asserts that there is room. Behind its loop the
index is the count in any case. -/
def addWaitingRspTimeoutSupervision (entryIndex : Nat) : Option Env :=
  if s.waitingRspTimeoutInstance.length < supervisorCount then
    let s := s.refreshSupervisorEnv cfg
    let timeout := cfg.timeoutWaitingRspInMs entryIndex
    let rebuilt := rebuild entryIndex timeout s.waitingRspTimeoutInstance
    some { s with waitingRspTimeoutInstance := rebuilt ++ [⟨entryIndex, timeout⟩] : Env }.startTimer
  else none

end Env

inductive Event
  | add (entryIndex : Nat)
  | remove (entryIndex : Nat)
  | refresh
  | pass (ticks : Nat)
  deriving DecidableEq, Repr

def step (cfg : Config) (s : Env) : Event → Option Env
  | .add entryIndex => s.addWaitingRspTimeoutSupervision cfg entryIndex
  | .remove entryIndex => s.removeWaitingRspTimeoutSupervision cfg entryIndex
  | .refresh => some (s.refreshSupervisorEnv cfg)
  | .pass ticks => some { s with clock := s.clock + ticks }

/-! ### What the list is for -/

/-- Every command once, and the one with the least time left first. -/
structure Listed (l : List Supervisor) : Prop where
  once : (l.map Supervisor.entryIndex).Nodup
  ascending : l.Pairwise (·.msTillTimeout ≤ ·.msTillTimeout)

/-- The commands with what they have left by now. -/
def Env.remaining (cfg : Config) (s : Env) : List Supervisor :=
  s.waitingRspTimeoutInstance.map (Supervisor.countDown (s.deltaMs cfg))

/-- The commands other than `entryIndex` keep what they have left. -/
def KeepsOthers (entryIndex : Nat) (l l' : List Supervisor) : Prop :=
  ∀ x : Supervisor, x.entryIndex ≠ entryIndex → (x ∈ l' ↔ x ∈ l)

def Does (cfg : Config) (s s' : Env) : Event → Prop
  | .add entryIndex =>
      ⟨entryIndex, cfg.timeoutWaitingRspInMs entryIndex⟩ ∈ s'.remaining cfg ∧
        KeepsOthers entryIndex (s.remaining cfg) (s'.remaining cfg)
  | .remove entryIndex =>
      (∀ x ∈ s'.remaining cfg, x.entryIndex ≠ entryIndex) ∧
        KeepsOthers entryIndex (s.remaining cfg) (s'.remaining cfg)
  | .refresh => s'.remaining cfg = s.remaining cfg
  | .pass _ => True

def Right (cfg : Config) (s : Env) (e : Event) : Prop :=
  ∀ s', step cfg s e = some s' → Listed s'.waitingRspTimeoutInstance ∧ Does cfg s s' e

/-- No command has more time left than the one that is added gets. -/
def Orderly (cfg : Config) (s : Env) : Event → Prop
  | .add entryIndex =>
      s.waitingRspTimeoutInstance.length < supervisorCount →
        ∀ x ∈ s.remaining cfg, x.msTillTimeout ≤ cfg.timeoutWaitingRspInMs entryIndex
  | _ => True

instance (cfg : Config) (s : Env) : (e : Event) → Decidable (Orderly cfg s e)
  | .add _ => inferInstanceAs (Decidable (_ → ∀ x ∈ _, _))
  | .remove _ => inferInstanceAs (Decidable True)
  | .refresh => inferInstanceAs (Decidable True)
  | .pass _ => inferInstanceAs (Decidable True)

/-! ### The operations -/

variable {cfg : Config} {s s' : Env} {l : List Supervisor} {entryIndex timeout : Nat}

namespace Listed

theorem sublist {l' : List Supervisor} (h : Listed l) (hsub : l'.Sublist l) : Listed l' where
  once := h.once.sublist (hsub.map _)
  ascending := h.ascending.sublist hsub

theorem countDown (h : Listed l) (deltaMs : Nat) : Listed (l.map (Supervisor.countDown deltaMs)) where
  once := by
    rw [List.map_map]
    exact h.once
  ascending := by
    refine List.pairwise_map.mpr (h.ascending.imp fun {x y} hle => ?_)
    simp only [Supervisor.countDown]
    split <;> split <;> omega

/-- A command that is not among the others, and has no less time left than they have. -/
theorem concat (h : Listed l) (hnew : ∀ x ∈ l, x.entryIndex ≠ entryIndex)
    (hlast : ∀ x ∈ l, x.msTillTimeout ≤ timeout) : Listed (l ++ [⟨entryIndex, timeout⟩]) where
  once := by
    rw [List.map_append, List.map_singleton]
    refine List.Nodup.append h.once (List.nodup_singleton _) ?_
    intro index hmem hindex
    obtain ⟨x, hx, rfl⟩ := List.mem_map.mp hmem
    exact hnew x hx (List.mem_singleton.mp hindex)
  ascending := by
    refine List.pairwise_append.mpr ⟨h.ascending, List.pairwise_singleton _ _, ?_⟩
    intro x hx y hy
    rw [List.mem_singleton.mp hy]
    exact hlast x hx

end Listed

theorem countDown_zero (x : Supervisor) : x.countDown 0 = x := by
  simp only [Supervisor.countDown, Nat.sub_zero]
  split
  case isTrue => rfl
  case isFalse hnone =>
    have hzero : x.msTillTimeout = 0 := by omega
    rw [← hzero]

namespace Env

theorem refreshSupervisorEnv_eq (cfg : Config) (s : Env) : s.refreshSupervisorEnv cfg =
    { s with
      waitingRspTimeoutInstance := s.remaining cfg
      lastSysTicks := s.currentTicks } := by
  rw [refreshSupervisorEnv, remaining]
  split
  case isTrue => rfl
  case isFalse hnone =>
    rw [List.eq_nil_of_length_eq_zero (Nat.eq_zero_of_not_pos hnone), List.map_nil]

theorem remaining_of_refreshed (h : s.lastSysTicks = s.currentTicks) :
    s.remaining cfg = s.waitingRspTimeoutInstance := by
  have hdelta : s.deltaMs cfg = 0 := by
    rw [deltaMs, passedTicks, h, if_pos (Nat.le_refl _), Nat.sub_self, TimerConversion.exact_ticksToMs_zero]
    rfl
  rw [remaining, hdelta, funext countDown_zero, List.map_id']

end Env

/-- In an orderly list the loop only takes the command itself out. -/
theorem rebuild_of_le (h : ∀ x ∈ l, x.msTillTimeout ≤ timeout) :
    rebuild entryIndex timeout l = l.filter (·.entryIndex ≠ entryIndex) := by
  induction l with
  | nil => rfl
  | cons x rest ih =>
      have hx := h x List.mem_cons_self
      have hrest := ih fun y hy => h y (List.mem_cons_of_mem x hy)
      rw [rebuild, List.filter_cons, hrest]
      by_cases hother : x.entryIndex ≠ entryIndex
      · rw [if_pos ⟨hother, hx⟩, if_pos (decide_eq_true hother)]
      · rw [if_neg fun hboth => hother hboth.1, if_neg (Nat.not_lt.mpr hx)]
        exact (if_neg fun hdec => hother (of_decide_eq_true hdec)).symm

/-- A command with more time left has the new one take its place. -/
theorem mem_rebuild_of_lt {x : Supervisor} (hx : x ∈ l) (hmore : timeout < x.msTillTimeout) :
    ⟨entryIndex, timeout⟩ ∈ rebuild entryIndex timeout l := by
  induction l with
  | nil => cases hx
  | cons y rest ih =>
      rw [rebuild]
      rcases List.mem_cons.mp hx with rfl | hrest
      · rw [if_neg fun hkept => Nat.not_le.mpr hmore hkept.2, if_pos hmore]
        exact List.mem_cons_self
      · split
        · exact List.mem_cons_of_mem _ (ih hrest)
        · split
          · exact List.mem_cons_self
          · exact ih hrest

theorem add_eq (cfg : Config) (entryIndex : Nat) (hroom : s.waitingRspTimeoutInstance.length < supervisorCount) :
    ∃ t : Env, s.addWaitingRspTimeoutSupervision cfg entryIndex = some t ∧ t.lastSysTicks = t.currentTicks ∧
      t.waitingRspTimeoutInstance =
        rebuild entryIndex (cfg.timeoutWaitingRspInMs entryIndex) (s.remaining cfg) ++
          [⟨entryIndex, cfg.timeoutWaitingRspInMs entryIndex⟩] := by
  rw [Env.addWaitingRspTimeoutSupervision, if_pos hroom, s.refreshSupervisorEnv_eq cfg]
  exact ⟨_, rfl, rfl, rfl⟩

theorem add_right (hlisted : Listed s.waitingRspTimeoutInstance) :
    Right cfg s (.add entryIndex) ↔ Orderly cfg s (.add entryIndex) := by
  constructor
  · intro hright hroom x hx
    obtain ⟨t, ht, -, hl⟩ := add_eq cfg entryIndex hroom
    by_contra hmore
    have honce := (hright t ht).1.once
    rw [hl, List.map_append, List.map_singleton] at honce
    -- the new command is in the list that was built and behind it
    refine List.disjoint_of_nodup_append honce ?_ List.mem_cons_self
    exact List.mem_map_of_mem (mem_rebuild_of_lt hx (Nat.not_le.mp hmore))
  · intro horderly t ht
    have hroom : s.waitingRspTimeoutInstance.length < supervisorCount := by
      by_contra hfull
      rw [step, Env.addWaitingRspTimeoutSupervision, if_neg hfull] at ht
      cases ht
    obtain ⟨t', ht', hticks, hl⟩ := add_eq cfg entryIndex hroom
    obtain rfl := Option.some.inj (ht'.symm.trans ht)
    rw [rebuild_of_le (horderly hroom)] at hl
    rw [Does, KeepsOthers, Env.remaining_of_refreshed hticks, hl]
    refine ⟨?_, List.mem_append_right _ List.mem_cons_self, fun x hx => ?_⟩
    · refine ((hlisted.countDown _).sublist List.filter_sublist).concat ?_ ?_
      · intro x hx
        exact of_decide_eq_true (List.mem_filter.mp hx).2
      · intro x hx
        exact horderly hroom x (List.mem_filter.mp hx).1
    · rw [List.mem_append, List.mem_filter, List.mem_singleton]
      constructor
      · rintro (hkept | rfl)
        · exact hkept.1
        · exact absurd rfl hx
      · exact fun hmem => .inl ⟨hmem, decide_eq_true hx⟩

/-- Half a millisecond is as good as a whole one. -/
example : Along (step ⟨fun entryIndex => if entryIndex = 0 then 5000 else 4999, 16000⟩)
    (Orderly ⟨fun entryIndex => if entryIndex = 0 then 5000 else 4999, 16000⟩) .init [.add 0, .pass 8, .add 1] := by
  decide

end Best1307.TotaCmd
