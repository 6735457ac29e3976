import Mathlib.Algebra.Order.Group.Nat
import Best1307.Bt.Sync
import Best1307.Lib.Run

/-!
# One timer for all supervisors

The timer goes off when the first supervisor has nothing left. Then the others must have something left, and they
have if each was added when the ones before had been counted down by a millisecond at least. Milliseconds are rounded to
the nearest one, so that the first supervisor has nothing left already half a millisecond before the timer goes off.

A supervisor is taken away by its operation. If it gets the message of another request for the same operation, its own
request is forgotten.
-/

namespace Best1307.BtSync

variable {cfg : Config} {s t : State} {last : Nat} {l : List StatusInfo}

/-! ### Supervisors that wait -/

/-- Counted down last at the given time, the supervisors time out one after the other, each not much later or earlier
than it should: by half a millisecond for each time it was counted down. -/
structure Waiting (cfg : Config) (last : Nat) (l : List StatusInfo) : Prop where
  ascending : l.Pairwise (·.msTillTimeout < ·.msTillTimeout)
  le_timeout : ∀ x ∈ l, x.msTillTimeout ≤ timeoutInMs
  index_lt : ∀ x ∈ l, x.indexLocInfo < channelMax
  late : ∀ x ∈ l, 2 * (last + x.msTillTimeout * cfg.ticksPerMs) ≤
    2 * (x.start + timeoutInMs * cfg.ticksPerMs) + x.refreshes * cfg.ticksPerMs
  early : ∀ x ∈ l, 2 * (x.start + timeoutInMs * cfg.ticksPerMs) ≤
    2 * (last + x.msTillTimeout * cfg.ticksPerMs) + x.refreshes * cfg.ticksPerMs

/-- The milliseconds that have passed, to the nearest one -/
theorem deltaMs_eq (cfg : Config) (s : State) :
    s.deltaMs cfg = (2 * s.passedTicks + cfg.ticksPerMs) / (2 * cfg.ticksPerMs) := by
  have hhalf : 1000 * cfg.ticksPerMs / 2 = 500 * cfg.ticksPerMs := by omega
  have hsum : s.passedTicks * 1000 + 500 * cfg.ticksPerMs = 500 * (2 * s.passedTicks + cfg.ticksPerMs) := by omega
  have hhz : 1000 * cfg.ticksPerMs = 500 * (2 * cfg.ticksPerMs) := by omega
  rw [State.deltaMs, TimerConversion.Conversion.exact, hhalf, hsum, hhz, Nat.mul_div_mul_left _ _ (by decide)]

namespace Waiting

theorem nil : Waiting cfg last [] where
  ascending := List.Pairwise.nil
  le_timeout _ hx := absurd hx List.not_mem_nil
  index_lt _ hx := absurd hx List.not_mem_nil
  late _ hx := absurd hx List.not_mem_nil
  early _ hx := absurd hx List.not_mem_nil

theorem sublist {l' : List StatusInfo} (h : Waiting cfg last l) (hsub : l'.Sublist l) : Waiting cfg last l' where
  ascending := h.ascending.sublist hsub
  le_timeout x hx := h.le_timeout x (hsub.mem hx)
  index_lt x hx := h.index_lt x (hsub.mem hx)
  late x hx := h.late x (hsub.mem hx)
  early x hx := h.early x (hsub.mem hx)

/-- Counting down moves the time out of a supervisor by half a millisecond at most. -/
theorem countDown_close {ticks ms clock delta : Nat} (hlast : last ≤ clock)
    (hle : delta * (2 * ticks) ≤ 2 * (clock - last) + ticks)
    (hlt : 2 * (clock - last) + ticks < delta * (2 * ticks) + 2 * ticks) (hdelta : delta < ms) :
    2 * (clock + (ms - delta) * ticks) ≤ 2 * (last + ms * ticks) + ticks ∧
      2 * (last + ms * ticks) ≤ 2 * (clock + (ms - delta) * ticks) + ticks := by
  have hleft : (ms - delta) * ticks + delta * ticks = ms * ticks := by
    rw [← Nat.add_mul, Nat.sub_add_cancel (Nat.le_of_lt hdelta)]
  have htwice : delta * (2 * ticks) = 2 * (delta * ticks) := Nat.mul_left_comm delta 2 ticks
  omega

theorem countDown (h : Waiting cfg last l) {clock delta : Nat} (hlast : last ≤ clock)
    (hdelta : delta = (2 * (clock - last) + cfg.ticksPerMs) / (2 * cfg.ticksPerMs))
    (hmore : ∀ x ∈ l, delta < x.msTillTimeout) : Waiting cfg clock (l.map (StatusInfo.countDown delta)) := by
  have hpos := cfg.ticksPerMs_pos
  have hpassed := Nat.div_add_mod' (2 * (clock - last) + cfg.ticksPerMs) (2 * cfg.ticksPerMs)
  have hpart := Nat.mod_lt (2 * (clock - last) + cfg.ticksPerMs) (show 0 < 2 * cfg.ticksPerMs by omega)
  rw [← hdelta] at hpassed
  have hclose := fun x hx => @countDown_close last cfg.ticksPerMs x.msTillTimeout clock delta hlast (by omega)
    (by omega) (hmore x hx)
  refine ⟨?_, fun y hy => ?_, fun y hy => ?_, fun y hy => ?_, fun y hy => ?_⟩
  · rw [List.pairwise_map]
    refine h.ascending.imp_of_mem fun {x y} hx hy hxy => ?_
    have := hmore x hx
    simp only [StatusInfo.countDown]
    omega
  · obtain ⟨x, hx, rfl⟩ := List.mem_map.mp hy
    exact (Nat.sub_le _ _).trans (h.le_timeout x hx)
  · obtain ⟨x, hx, rfl⟩ := List.mem_map.mp hy
    exact h.index_lt x hx
  · obtain ⟨x, hx, rfl⟩ := List.mem_map.mp hy
    have hbefore := h.late x hx
    have := hclose x hx
    simp only [StatusInfo.countDown, Nat.succ_mul]
    omega
  · obtain ⟨x, hx, rfl⟩ := List.mem_map.mp hy
    have hbefore := h.early x hx
    have := hclose x hx
    simp only [StatusInfo.countDown, Nat.succ_mul]
    omega

/-- A new supervisor waits longest if the others have been waiting for a while. -/
theorem concat (h : Waiting cfg last l) (hlt : ∀ x ∈ l, x.msTillTimeout < timeoutInMs) {opCode index request : Nat}
    (hindex : index < channelMax) : Waiting cfg last (l ++ [⟨opCode, timeoutInMs, index, request, last, 0⟩]) where
  ascending := by
    refine List.pairwise_append.mpr ⟨h.ascending, List.pairwise_singleton _ _, fun x hx y hy => ?_⟩
    rw [List.mem_singleton.mp hy]
    exact hlt x hx
  le_timeout x hx := by
    rcases List.mem_append.mp hx with hold | hnew
    · exact h.le_timeout x hold
    · rw [List.mem_singleton.mp hnew]
  index_lt x hx := by
    rcases List.mem_append.mp hx with hold | hnew
    · exact h.index_lt x hold
    · rw [List.mem_singleton.mp hnew]
      exact hindex
  late x hx := by
    rcases List.mem_append.mp hx with hold | hnew
    · exact h.late x hold
    · rw [List.mem_singleton.mp hnew]
      exact Nat.le_add_right _ _
  early x hx := by
    rcases List.mem_append.mp hx with hold | hnew
    · exact h.early x hold
    · rw [List.mem_singleton.mp hnew]
      exact Nat.le_add_right _ _

end Waiting

/-! ### The timer -/

/-- The timer goes off when the first supervisor has nothing left. -/
structure Running (cfg : Config) (last : Nat) (s : State) : Prop where
  last_le : last ≤ s.clock
  lastSysTicks_eq : s.lastSysTicks = last % 2 ^ 32
  timer_eq : s.timer = s.statusInstance.head?.map fun x => last + x.msTillTimeout * cfg.ticksPerMs
  clock_le : ∀ due ∈ s.timer, s.clock ≤ due
  waiting : Waiting cfg last s.statusInstance

theorem Running.due_le (h : Running cfg last s) {due : Nat} (hdue : s.timer = some due) :
    ∀ x ∈ s.statusInstance, due ≤ last + x.msTillTimeout * cfg.ticksPerMs := by
  intro x hx
  have htimer := h.timer_eq
  have hascending := h.waiting.ascending
  cases hl : s.statusInstance with
  | nil =>
      rw [hl] at hx
      cases hx
  | cons first rest =>
      rw [hl] at hx htimer hascending
      rw [hdue, List.head?_cons, Option.map_some, Option.some.injEq] at htimer
      rw [htimer]
      refine Nat.add_le_add_left (Nat.mul_le_mul_right _ ?_) last
      rcases List.mem_cons.mp hx with rfl | hx
      · exact Nat.le_refl _
      · exact Nat.le_of_lt ((List.pairwise_cons.mp hascending).1 x hx)

theorem Running.timer_of_mem (h : Running cfg last s) {x : StatusInfo} (hx : x ∈ s.statusInstance) :
    ∃ due, s.timer = some due := by
  cases hl : s.statusInstance with
  | nil =>
      rw [hl] at hx
      cases hx
  | cons first rest => exact ⟨_, by rw [h.timer_eq, hl]; rfl⟩

/-- The ticks that have passed, also where the timer of the system has begun anew. -/
theorem passedTicks_eq (hlast : last ≤ s.clock) (heq : s.lastSysTicks = last % 2 ^ 32)
    (hlt : s.clock - last < 2 ^ 32) : s.passedTicks = s.clock - last := by
  rw [State.passedTicks, State.currentTicks, heq]
  split <;> omega

/-- While each of them has more than half a millisecond left the supervisors are counted down. -/
theorem refreshSupervisorEnv_eq (hlast : last ≤ s.clock) (heq : s.lastSysTicks = last % 2 ^ 32)
    (hwaiting : Waiting cfg last s.statusInstance)
    (hdue : ∀ x ∈ s.statusInstance,
      2 * s.clock + cfg.ticksPerMs < 2 * (last + x.msTillTimeout * cfg.ticksPerMs)) :
    s.refreshSupervisorEnv cfg = some { s with
        statusInstance := s.statusInstance.map (StatusInfo.countDown (s.deltaMs cfg))
        lastSysTicks := s.clock % 2 ^ 32 } ∧
      Waiting cfg s.clock (s.statusInstance.map (StatusInfo.countDown (s.deltaMs cfg))) := by
  by_cases hnil : s.statusInstance = []
  · rw [State.refreshSupervisorEnv, if_pos hnil, hnil]
    refine ⟨?_, Waiting.nil⟩
    rw [List.map_nil, ← hnil]
    rfl
  · have hlt : s.clock - last < 2 ^ 32 := by
      obtain ⟨x, hx⟩ := List.exists_mem_of_ne_nil _ hnil
      have hleft := hdue x hx
      have hmul := Nat.mul_le_mul_right cfg.ticksPerMs (hwaiting.le_timeout x hx)
      have := cfg.timeout_lt
      omega
    have hdelta : s.deltaMs cfg = (2 * (s.clock - last) + cfg.ticksPerMs) / (2 * cfg.ticksPerMs) := by
      rw [deltaMs_eq, passedTicks_eq hlast heq hlt]
    have hsome : ∀ x ∈ s.statusInstance, s.deltaMs cfg < x.msTillTimeout := by
      intro x hx
      have hleft := hdue x hx
      have hpos := cfg.ticksPerMs_pos
      have htwice : x.msTillTimeout * (2 * cfg.ticksPerMs) = 2 * (x.msTillTimeout * cfg.ticksPerMs) :=
        Nat.mul_left_comm _ _ _
      rw [hdelta]
      refine (Nat.div_lt_iff_lt_mul (by omega)).mpr ?_
      omega
    rw [State.refreshSupervisorEnv, if_neg hnil, if_pos hsome]
    exact ⟨rfl, hwaiting.countDown hlast hdelta hsome⟩

theorem startTimer_running (heq : s.lastSysTicks = s.clock % 2 ^ 32) (hwaiting : Waiting cfg s.clock s.statusInstance) :
    Running cfg s.clock (s.startTimer cfg) where
  last_le := Nat.le_refl _
  lastSysTicks_eq := heq
  timer_eq := rfl
  clock_le due hdue := by
    obtain ⟨x, -, hx⟩ := Option.map_eq_some_iff.mp hdue
    rw [← hx]
    exact Nat.le_add_right _ _
  waiting := hwaiting

theorem eraseP_cases {α : Type*} {l : List α} {p : α → Bool} (h : l.any p) :
    ∃ before x after, l = before ++ x :: after ∧ l.eraseP p = before ++ after ∧ l.find? p = some x := by
  obtain ⟨y, hy, hp⟩ := List.any_eq_true.mp h
  obtain ⟨x, before, after, hbefore, hx, hl, herase⟩ := List.exists_of_eraseP hy hp
  refine ⟨before, x, after, hl, herase, List.find?_eq_some_iff_append.mpr ⟨hx, before, after, hl, ?_⟩⟩
  intro z hz
  rw [Bool.eq_false_iff.mpr (hbefore z hz)]
  rfl

/-- Where a supervisor goes the timer runs on for those that are left. -/
theorem removeWaitingRspTimeoutSupervision_spec (opCode : Nat) (hlast : last ≤ s.clock)
    (heq : s.lastSysTicks = last % 2 ^ 32) (hany : s.statusInstance.any (·.opCode == opCode))
    (hwaiting : Waiting cfg last (s.statusInstance.eraseP (·.opCode == opCode)))
    (hdue : ∀ x ∈ s.statusInstance.eraseP (·.opCode == opCode),
      2 * s.clock + cfg.ticksPerMs < 2 * (last + x.msTillTimeout * cfg.ticksPerMs)) :
    ∃ left ticks timer, s.removeWaitingRspTimeoutSupervision cfg opCode =
        some { s with statusInstance := left, lastSysTicks := ticks, timer := timer } ∧
      left.map (·.request) = (s.statusInstance.eraseP (·.opCode == opCode)).map (·.request) ∧
      ∃ last', Running cfg last' { s with statusInstance := left, lastSysTicks := ticks, timer := timer } := by
  rw [State.removeWaitingRspTimeoutSupervision, if_pos hany]
  generalize hleft : s.statusInstance.eraseP (·.opCode == opCode) = left at *
  by_cases hnil : left = []
  · refine ⟨left, s.lastSysTicks, none, if_pos hnil, rfl, last, hlast, heq, ?_, ?_, hwaiting⟩
    · rw [hnil]
      rfl
    · intro due hnone
      cases hnone
  · obtain ⟨hrefresh, hcounted⟩ := refreshSupervisorEnv_eq (s := { s with statusInstance := left }) hlast heq
      hwaiting hdue
    have hrunning := startTimer_running (s := { s with
      statusInstance := left.map (StatusInfo.countDown (s.deltaMs cfg))
      lastSysTicks := s.clock % 2 ^ 32 }) rfl hcounted
    refine ⟨_, _, _, ?_, ?_, s.clock, hrunning⟩
    · simp only [if_neg hnil]
      rw [hrefresh]
      rfl
    · rw [List.map_map]
      rfl

/-- A supervisor that is added waits longest if the others have been waiting for a while. -/
theorem addWaitingIrqTimeoutSupervision_spec (opCode request : Nat) {index : Nat} (hlast : last ≤ s.clock)
    (heq : s.lastSysTicks = last % 2 ^ 32) (hwaiting : Waiting cfg last s.statusInstance)
    (hdue : ∀ x ∈ s.statusInstance,
      2 * s.clock + cfg.ticksPerMs < 2 * (last + x.msTillTimeout * cfg.ticksPerMs))
    (hroom : s.statusInstance.length < channelMax) (hindex : index < channelMax)
    (hwaited : ∀ x ∈ s.statusInstance, x.msTillTimeout - s.deltaMs cfg < timeoutInMs) :
    ∃ left ticks timer, s.addWaitingIrqTimeoutSupervision cfg opCode index request =
        some { s with statusInstance := left, lastSysTicks := ticks, timer := timer } ∧
      left.map (·.request) = s.statusInstance.map (·.request) ++ [request] ∧
      ∃ last', Running cfg last' { s with statusInstance := left, lastSysTicks := ticks, timer := timer } := by
  obtain ⟨hrefresh, hcounted⟩ := refreshSupervisorEnv_eq hlast heq hwaiting hdue
  have hlt : ∀ x ∈ s.statusInstance.map (StatusInfo.countDown (s.deltaMs cfg)), x.msTillTimeout < timeoutInMs := by
    intro x hx
    obtain ⟨y, hy, rfl⟩ := List.mem_map.mp hx
    exact hwaited y hy
  have hrunning := startTimer_running (s := { s with
    statusInstance := s.statusInstance.map (StatusInfo.countDown (s.deltaMs cfg)) ++
      [⟨opCode, timeoutInMs, index, request, s.clock, 0⟩]
    lastSysTicks := s.clock % 2 ^ 32 }) rfl (hcounted.concat hlt hindex)
  rw [State.addWaitingIrqTimeoutSupervision, if_pos hroom, hrefresh]
  refine ⟨_, _, _, rfl, ?_, s.clock, hrunning⟩
  rw [List.map_append, List.map_map]
  rfl

/-! ### Requests -/

def State.supervised (s : State) : List Nat := s.statusInstance.map (·.request)

/-- Every request is supervised, was given up, or its trigger has come. -/
structure Known (s : State) : Prop where
  request_lt : ∀ r ∈ s.supervised, r < s.requests
  distinct : s.supervised.Nodup
  accounted : ∀ r < s.requests, r ∈ s.supervised ∨ r ∈ s.timedOut ∨ r ∈ s.interrupted
  removed : ∀ r ∈ s.supervised, r ∉ s.timedOut
  timedOut_lt : ∀ r ∈ s.timedOut, r < s.requests
  posted : ∀ msg ∈ s.mailbox, msg.request ∈ s.interrupted

theorem Known.erase (h : Known s) {before after : List Nat} {r : Nat} (hl : s.supervised = before ++ r :: after)
    (hcame : r ∈ s.interrupted) (hleft : t.supervised = before ++ after) (hrequests : t.requests = s.requests)
    (hinterrupted : t.interrupted = s.interrupted) (htimedOut : t.timedOut = s.timedOut)
    (hmailbox : ∀ msg ∈ t.mailbox, msg ∈ s.mailbox) : Known t := by
  have hsub : t.supervised.Sublist s.supervised := by
    rw [hl, hleft]
    exact List.Sublist.append_left (List.sublist_cons_self r after) before
  refine ⟨?_, h.distinct.sublist hsub, ?_, ?_, ?_, ?_⟩
  · rw [hrequests]
    exact fun x hx => h.request_lt x (hsub.mem hx)
  · rw [hrequests, htimedOut, hinterrupted, hleft]
    intro x hx
    rcases h.accounted x hx with hsup | hgone
    · rw [hl] at hsup
      rcases List.mem_append.mp hsup with hbefore | hrest
      · exact .inl (List.mem_append_left _ hbefore)
      · rcases List.mem_cons.mp hrest with rfl | hafter
        · exact .inr (.inr hcame)
        · exact .inl (List.mem_append_right _ hafter)
    · exact .inr hgone
  · rw [htimedOut]
    exact fun x hx => h.removed x (hsub.mem hx)
  · rw [htimedOut, hrequests]
    exact h.timedOut_lt
  · rw [hinterrupted]
    exact fun msg hmsg => h.posted msg (hmailbox msg hmsg)

theorem Known.giveUp (h : Known s) {r : Nat} {after : List Nat} (hl : s.supervised = r :: after)
    (hleft : t.supervised = after) (hrequests : t.requests = s.requests)
    (hinterrupted : t.interrupted = s.interrupted) (htimedOut : t.timedOut = r :: s.timedOut)
    (hmailbox : t.mailbox = s.mailbox) : Known t := by
  have hmem : r ∈ s.supervised := hl ▸ List.mem_cons_self
  have hdistinct := h.distinct
  rw [hl] at hdistinct
  have hsub : ∀ x ∈ t.supervised, x ∈ s.supervised := by
    rw [hl, hleft]
    exact fun x hx => List.mem_cons_of_mem r hx
  refine ⟨?_, ?_, ?_, ?_, ?_, ?_⟩
  · rw [hrequests]
    exact fun x hx => h.request_lt x (hsub x hx)
  · rw [hleft]
    exact (List.nodup_cons.mp hdistinct).2
  · rw [hrequests, htimedOut, hinterrupted, hleft]
    intro x hx
    rcases h.accounted x hx with hsup | htimed | hcame
    · rw [hl] at hsup
      rcases List.mem_cons.mp hsup with rfl | hafter
      · exact .inr (.inl List.mem_cons_self)
      · exact .inl hafter
    · exact .inr (.inl (List.mem_cons_of_mem r htimed))
    · exact .inr (.inr hcame)
  · rw [htimedOut]
    intro x hx hgone
    rcases List.mem_cons.mp hgone with rfl | hbefore
    · rw [hleft] at hx
      exact (List.nodup_cons.mp hdistinct).1 hx
    · exact h.removed x (hsub x hx) hbefore
  · rw [htimedOut, hrequests]
    intro x hx
    rcases List.mem_cons.mp hx with rfl | hbefore
    · exact h.request_lt x hmem
    · exact h.timedOut_lt x hbefore
  · rw [hmailbox, hinterrupted]
    exact h.posted

theorem Known.add (h : Known s) (hadd : t.supervised = s.supervised ++ [s.requests])
    (hrequests : t.requests = s.requests + 1) (hinterrupted : t.interrupted = s.interrupted)
    (htimedOut : t.timedOut = s.timedOut) (hmailbox : t.mailbox = s.mailbox) : Known t := by
  refine ⟨?_, ?_, ?_, ?_, ?_, ?_⟩
  · rw [hadd, hrequests]
    intro x hx
    rcases List.mem_append.mp hx with hold | hnew
    · exact Nat.lt_succ_of_lt (h.request_lt x hold)
    · rw [List.mem_singleton.mp hnew]
      exact Nat.lt_succ_self _
  · rw [hadd]
    refine List.nodup_append.mpr ⟨h.distinct, List.nodup_singleton _, fun x hx y hy => ?_⟩
    rw [List.mem_singleton.mp hy]
    exact Nat.ne_of_lt (h.request_lt x hx)
  · rw [hadd, hrequests, htimedOut, hinterrupted]
    intro x hx
    rcases Nat.lt_succ_iff_lt_or_eq.mp hx with hold | rfl
    · exact (h.accounted x hold).imp_left (List.mem_append_left _)
    · exact .inl (List.mem_append_right _ (List.mem_singleton.mpr rfl))
  · rw [hadd, htimedOut]
    intro x hx hgone
    rcases List.mem_append.mp hx with hold | hnew
    · exact h.removed x hold hgone
    · rw [List.mem_singleton.mp hnew] at hgone
      exact absurd (h.timedOut_lt _ hgone) (Nat.lt_irrefl _)
  · rw [htimedOut, hrequests]
    exact fun x hx => Nat.lt_succ_of_lt (h.timedOut_lt x hx)
  · rw [hmailbox, hinterrupted]
    exact h.posted

/-! ### What happens -/

/-- Time passes, the application asks for a trigger, a trigger comes, its message is handled, or the timer goes off and
its message is handled at once. -/
inductive Occurrence
  | pass (ticks : Nat)
  | enable (r : Request)
  | irq (i : Fin channelMax)
  | handle
  | expire
  deriving DecidableEq, Repr

namespace State

variable (cfg : Config) (s : State)

/-- It fails where the assertion does. -/
def occur (s : State) : Occurrence → Option State
  | .pass ticks => some { s with clock := s.clock + ticks }
  | .enable r => (s.enable cfg r).map Prod.snd
  | .irq i => some (s.irqHandler cfg i)
  | .handle =>
      match s.mailbox with
      | [] => some s
      | msg :: rest => { s with mailbox := rest }.handleMsg cfg msg
  | .expire => s.timeoutHandler.bind fun (msg, t) => t.handleMsg cfg msg

/-- The timer goes off exactly when it should, before anything else is done; a trigger comes only if it is set. -/
def Timely (s : State) : Occurrence → Prop
  | .pass ticks => ∀ due ∈ s.timer, s.clock + ticks ≤ due
  | .enable _ => ∀ due ∈ s.timer, s.clock < due
  | .irq i => s.triggers (i + channelOffset)
  | .handle => ∀ due ∈ s.timer, s.clock < due
  | .expire => s.timer = some s.clock

/-- More than half a millisecond is left until the timer goes off. -/
def MoreThanHalf (s : State) : Prop := ∀ due ∈ s.timer, 2 * s.clock + cfg.ticksPerMs < 2 * due

/-- When a supervisor is added the others have waited long enough to be counted down, and a message is that of the
request whose supervisor it takes away. Neither comes in the last half millisecond before the timer goes off, unless
the message is that of the first supervisor. -/
def Spaced (s : State) : Occurrence → Prop
  | .enable r => s.passes r → r.link.role = .master → (s.findChannel r.opCode).isSome →
      s.MoreThanHalf cfg ∧ ∀ x ∈ s.statusInstance, x.msTillTimeout - s.deltaMs cfg < timeoutInMs
  | .handle => ∀ msg ∈ s.mailbox.head?, ∀ x ∈ s.statusInstance.find? (·.opCode == msg.opCode),
      x.request = msg.request ∧ (s.statusInstance.head? = some x ∨ s.MoreThanHalf cfg)
  | _ => True

/-- Every request is supervised until its trigger has come or it is given up; while any is supervised the timer runs.
None is supervised longer than it should, and the first is not given up earlier, but for half a millisecond for each
time it was counted down. -/
structure Supervised (s : State) : Prop where
  accounted : ∀ r < s.requests, r ∈ s.supervised ∨ r ∈ s.timedOut ∨ r ∈ s.interrupted
  removed : ∀ r ∈ s.supervised, r ∉ s.timedOut
  running : s.statusInstance ≠ [] → ∃ due, s.timer = some due ∧ s.clock ≤ due
  bounded : ∀ x ∈ s.statusInstance,
    2 * s.clock ≤ 2 * (x.start + timeoutInMs * cfg.ticksPerMs) + x.refreshes * cfg.ticksPerMs
  notEarly : ∀ x ∈ s.statusInstance.head?, ∀ due ∈ s.timer,
    2 * (x.start + timeoutInMs * cfg.ticksPerMs) ≤ 2 * due + x.refreshes * cfg.ticksPerMs

end State

structure Inv (cfg : Config) (s : State) : Prop where
  running : ∃ last, Running cfg last s
  known : Known s

theorem inv_init : Inv cfg .init where
  running := ⟨0, Nat.le_refl 0, rfl, rfl, fun due hdue => absurd hdue (Option.not_mem_none due), Waiting.nil⟩
  known := by
    refine ⟨?_, List.nodup_nil, fun r hr => absurd hr (Nat.not_lt_zero r), ?_, ?_, ?_⟩
    · exact fun r hr => absurd hr List.not_mem_nil
    · exact fun r hr => absurd hr List.not_mem_nil
    · exact fun r hr => absurd hr List.not_mem_nil
    · exact fun msg hmsg => absurd hmsg List.not_mem_nil

theorem Inv.supervised (h : Inv cfg s) : s.Supervised cfg := by
  obtain ⟨⟨last, hrunning⟩, hknown⟩ := h
  refine ⟨hknown.accounted, hknown.removed, fun hsome => ?_, fun x hx => ?_, fun x hx due hdue => ?_⟩
  · obtain ⟨x, hx⟩ := List.exists_mem_of_ne_nil _ hsome
    obtain ⟨due, hdue⟩ := hrunning.timer_of_mem hx
    exact ⟨due, hdue, hrunning.clock_le due hdue⟩
  · obtain ⟨due, hdue⟩ := hrunning.timer_of_mem hx
    have hclock := (hrunning.clock_le due hdue).trans (hrunning.due_le hdue x hx)
    exact (Nat.mul_le_mul_left 2 hclock).trans (hrunning.waiting.late x hx)
  · have htimer := hrunning.timer_eq
    rw [Option.mem_def] at hx hdue
    rw [hdue, hx, Option.map_some, Option.some.injEq] at htimer
    rw [htimer]
    exact hrunning.waiting.early x (List.mem_of_mem_head? hx)

theorem Inv.pass (h : Inv cfg s) {ticks : Nat} (htimely : s.Timely (.pass ticks)) :
    Inv cfg { s with clock := s.clock + ticks } := by
  obtain ⟨⟨last, hrunning⟩, hknown⟩ := h
  exact ⟨⟨last, hrunning.last_le.trans (Nat.le_add_right _ _), hrunning.lastSysTicks_eq, hrunning.timer_eq, htimely,
    hrunning.waiting⟩, hknown.request_lt, hknown.distinct, hknown.accounted, hknown.removed, hknown.timedOut_lt,
    hknown.posted⟩

theorem Running.congr (h : Running cfg last s) (hclock : t.clock = s.clock)
    (hlast : t.lastSysTicks = s.lastSysTicks) (htimer : t.timer = s.timer)
    (hstatus : t.statusInstance = s.statusInstance) : Running cfg last t where
  last_le := hclock ▸ h.last_le
  lastSysTicks_eq := hlast.trans h.lastSysTicks_eq
  timer_eq := by
    rw [htimer, hstatus]
    exact h.timer_eq
  clock_le := by
    rw [htimer, hclock]
    exact h.clock_le
  waiting := hstatus ▸ h.waiting

theorem Inv.irq (h : Inv cfg s) (i : Fin channelMax) : Inv cfg (s.irqHandler cfg i) := by
  obtain ⟨⟨last, hrunning⟩, hknown⟩ := h
  have hirq : ∃ mailbox, s.irqHandler cfg i = { s.release i with
      triggers := Function.update s.triggers (i + channelOffset) false
      interrupted := (s.locTriggerInfo i).request :: s.interrupted
      mailbox := mailbox } ∧
      ∀ msg ∈ mailbox, msg ∈ s.mailbox ∨ msg.request = (s.locTriggerInfo i).request := by
    rw [State.irqHandler, State.mailboxPut]
    split
    · refine ⟨_, rfl, fun msg hmsg => ?_⟩
      rcases List.mem_append.mp hmsg with hold | hnew
      · exact .inl hold
      · rw [List.mem_singleton.mp hnew]
        exact .inr rfl
    · exact ⟨s.mailbox, rfl, fun msg hmsg => .inl hmsg⟩
  obtain ⟨mailbox, hirq, hposted⟩ := hirq
  rw [hirq]
  refine ⟨⟨last, hrunning.congr rfl rfl rfl rfl⟩, hknown.request_lt, hknown.distinct, fun r hr => ?_, hknown.removed,
    hknown.timedOut_lt, fun msg hmsg => ?_⟩
  · rcases hknown.accounted r hr with hsup | htimed | hcame
    · exact .inl hsup
    · exact .inr (.inl htimed)
    · exact .inr (.inr (List.mem_cons_of_mem _ hcame))
  · rcases hposted msg hmsg with hold | hnew
    · exact List.mem_cons_of_mem _ (hknown.posted msg hold)
    · rw [hnew]
      exact List.mem_cons_self

/-- The timer does not go off before the first supervisor has nothing left, and then the others have a millisecond. -/
theorem Running.later (h : Running cfg last s) {first : StatusInfo} {rest : List StatusInfo}
    (hl : s.statusInstance = first :: rest) :
    ∀ x ∈ rest, 2 * s.clock + cfg.ticksPerMs < 2 * (last + x.msTillTimeout * cfg.ticksPerMs) := by
  intro x hx
  have htimer := h.timer_eq
  have hascending := h.waiting.ascending
  rw [hl] at htimer hascending
  have hclock : s.clock ≤ last + first.msTillTimeout * cfg.ticksPerMs := h.clock_le _ htimer
  have hlt := (List.pairwise_cons.mp hascending).1 x hx
  have hmul := Nat.mul_le_mul_right cfg.ticksPerMs (Nat.succ_le_of_lt hlt)
  have hpos := cfg.ticksPerMs_pos
  rw [Nat.succ_mul] at hmul
  omega

theorem Running.moreThanHalf (h : Running cfg last s) (hmore : s.MoreThanHalf cfg) :
    ∀ x ∈ s.statusInstance, 2 * s.clock + cfg.ticksPerMs < 2 * (last + x.msTillTimeout * cfg.ticksPerMs) := by
  intro x hx
  obtain ⟨due, hdue⟩ := h.timer_of_mem hx
  exact (hmore due hdue).trans_le (Nat.mul_le_mul_left 2 (h.due_le hdue x hx))

theorem Inv.handle (h : Inv cfg s) (hspaced : s.Spaced cfg .handle) :
    ∃ t, s.occur cfg .handle = some t ∧ Inv cfg t := by
  obtain ⟨⟨last, hrunning⟩, hknown⟩ := h
  cases hmailbox : s.mailbox with
  | nil => exact ⟨s, by simp only [State.occur, hmailbox], ⟨last, hrunning⟩, hknown⟩
  | cons msg rest =>
      have hrest : ∀ m ∈ rest, m ∈ s.mailbox := by
        rw [hmailbox]
        exact fun m hm => List.mem_cons_of_mem msg hm
      have hmsg : msg ∈ s.mailbox := by
        rw [hmailbox]
        exact List.mem_cons_self
      have hoccur : s.occur cfg .handle = { s with mailbox := rest }.handleMsg cfg msg := by
        simp only [State.occur, hmailbox]
      rw [hoccur, State.handleMsg]
      by_cases hany : s.statusInstance.any (·.opCode == msg.opCode)
      · obtain ⟨before, x, after, hl, herase, hfind⟩ := eraseP_cases hany
        obtain ⟨hrequest, hhead⟩ := hspaced msg (by rw [hmailbox]; rfl) x hfind
        have hsub : (s.statusInstance.eraseP (·.opCode == msg.opCode)).Sublist s.statusInstance :=
          List.eraseP_sublist
        have hdue : ∀ y ∈ s.statusInstance.eraseP (·.opCode == msg.opCode),
            2 * s.clock + cfg.ticksPerMs < 2 * (last + y.msTillTimeout * cfg.ticksPerMs) := by
          rcases hhead with hfirst | hmore
          · obtain ⟨tail, hcons⟩ := List.head?_eq_some_iff.mp hfirst
            have hop : (x.opCode == msg.opCode) = true := @List.find?_some StatusInfo (·.opCode == msg.opCode) _ _ hfind
            have htail : s.statusInstance.eraseP (·.opCode == msg.opCode) = tail := by
              rw [hcons]
              exact List.eraseP_cons_of_pos hop
            rw [htail]
            exact hrunning.later hcons
          · exact fun y hy => hrunning.moreThanHalf hmore y (hsub.mem hy)
        obtain ⟨left, ticks, timer, hremove, hleft, last', hrunning'⟩ :=
          removeWaitingRspTimeoutSupervision_spec (s := { s with mailbox := rest }) msg.opCode
            hrunning.last_le hrunning.lastSysTicks_eq hany (hrunning.waiting.sublist hsub) hdue
        rw [if_pos hany, hremove]
        refine ⟨_, rfl, ⟨last', hrunning'⟩, ?_⟩
        have hsupervised : s.supervised = before.map (·.request) ++ x.request :: after.map (·.request) := by
          rw [State.supervised, hl, List.map_append, List.map_cons]
        refine hknown.erase hsupervised ?_ ?_ rfl rfl rfl hrest
        · rw [hrequest]
          exact hknown.posted msg hmsg
        · rw [← List.map_append, ← herase]
          exact hleft
      · rw [if_neg hany]
        refine ⟨_, rfl, ⟨last, hrunning.congr rfl rfl rfl rfl⟩, hknown.request_lt, hknown.distinct,
          hknown.accounted, hknown.removed, hknown.timedOut_lt, fun m hm => hknown.posted m (hrest m hm)⟩

theorem Inv.expire (h : Inv cfg s) (htimely : s.Timely .expire) : ∃ t, s.occur cfg .expire = some t ∧ Inv cfg t := by
  obtain ⟨⟨last, hrunning⟩, hknown⟩ := h
  have htimer := hrunning.timer_eq
  have hwaiting := hrunning.waiting
  have hnow : s.timer = some s.clock := htimely
  cases hl : s.statusInstance with
  | nil =>
      rw [hl, hnow] at htimer
      cases htimer
  | cons x rest =>
      rw [hl] at htimer hwaiting
      rw [hnow, List.head?_cons, Option.map_some, Option.some.injEq] at htimer
      have hindex := hwaiting.index_lt x List.mem_cons_self
      have hany : s.statusInstance.any (·.opCode == x.opCode) := by
        rw [hl, List.any_cons, beq_self_eq_true, Bool.true_or]
      have herase : s.statusInstance.eraseP (·.opCode == x.opCode) = rest := by
        rw [hl]
        exact List.eraseP_cons_of_pos (beq_self_eq_true x.opCode)
      have hrest : Waiting cfg last (s.statusInstance.eraseP (·.opCode == x.opCode)) := by
        rw [herase]
        exact hwaiting.sublist (List.sublist_cons_self x rest)
      have hlater : ∀ y ∈ s.statusInstance.eraseP (·.opCode == x.opCode),
          2 * s.clock + cfg.ticksPerMs < 2 * (last + y.msTillTimeout * cfg.ticksPerMs) := by
        rw [herase]
        exact hrunning.later hl
      have hhandler : s.timeoutHandler = some (⟨invalidChannel, x.opCode, x.request⟩,
          { s.release ⟨x.indexLocInfo, hindex⟩ with timer := none, timedOut := x.request :: s.timedOut }) := by
        rw [State.timeoutHandler, hl, List.head?_cons, Option.bind_some, dif_pos hindex]
      obtain ⟨left, ticks, timer, hremove, hleft, last', hrunning'⟩ :=
        removeWaitingRspTimeoutSupervision_spec
          (s := { s.release ⟨x.indexLocInfo, hindex⟩ with timer := none, timedOut := x.request :: s.timedOut }) x.opCode
          hrunning.last_le hrunning.lastSysTicks_eq hany hrest hlater
      refine ⟨_, ?_, ⟨last', hrunning'⟩, ?_⟩
      · simp only [State.occur, hhandler, Option.bind_some]
        exact (if_pos hany).trans hremove
      · have hsupervised : s.supervised = x.request :: rest.map (·.request) := by
          rw [State.supervised, hl, List.map_cons]
        refine hknown.giveUp hsupervised ?_ rfl rfl rfl rfl
        rw [← herase]
        exact hleft

/-- A request that gets a channel is supervised, if the others have waited. -/
theorem Inv.enable (h : Inv cfg s) {r : Request} (hspaced : s.Spaced cfg (.enable r)) :
    ∃ t, s.occur cfg (.enable r) = some t ∧ Inv cfg t := by
  have henable : s.occur cfg (.enable r) = (s.enable cfg r).map Prod.snd := rfl
  rw [henable]
  by_cases hmaster : s.passes r ∧ r.link.role = .master
  case neg =>
    obtain ⟨b, hsame⟩ : ∃ b, s.enable cfg r = some (b, s) := State.enable_of_not_master hmaster
    exact ⟨s, by rw [hsame]; rfl, h⟩
  obtain ⟨hpasses, hmaster⟩ := hmaster
  cases hfind : s.findChannel r.opCode with
  | none => exact ⟨s, by rw [State.enable_of_none hpasses hmaster hfind]; rfl, h⟩
  | some i =>
      obtain ⟨hmore, hwaited⟩ := hspaced hpasses hmaster (by rw [hfind]; rfl)
      obtain ⟨⟨last, hrunning⟩, hknown⟩ := h
      have hroom : s.statusInstance.length < channelMax := by
        simp only [State.passes, Bool.and_eq_true, decide_eq_true_eq] at hpasses
        exact hpasses.1.1.1.1.1
      obtain ⟨left, ticks, timer, hadd, hleft, last', hrunning'⟩ :=
        addWaitingIrqTimeoutSupervision_spec (s := (s.handOut i r.opCode).setTrigger (i + channelOffset))
          r.opCode s.requests hrunning.last_le hrunning.lastSysTicks_eq hrunning.waiting (hrunning.moreThanHalf hmore)
          hroom i.isLt hwaited
      rw [State.enable_of_some hpasses hmaster hfind, hadd]
      exact ⟨_, rfl, ⟨last', hrunning'⟩, hknown.add hleft rfl rfl rfl rfl⟩

theorem Inv.occur (h : Inv cfg s) {e : Occurrence} (htimely : s.Timely e) (hspaced : s.Spaced cfg e) :
    ∃ t, s.occur cfg e = some t ∧ Inv cfg t := by
  cases e with
  | pass ticks => exact ⟨_, rfl, h.pass htimely⟩
  | enable r => exact h.enable hspaced
  | irq i => exact ⟨_, rfl, h.irq i⟩
  | handle => exact h.handle hspaced
  | expire => exact h.expire htimely

instance (s : State) (e : Occurrence) : Decidable (s.Timely e) :=
  match e with
  | .pass ticks => inferInstanceAs (Decidable (∀ due ∈ s.timer, s.clock + ticks ≤ due))
  | .enable _ => inferInstanceAs (Decidable (∀ due ∈ s.timer, s.clock < due))
  | .irq i => inferInstanceAs (Decidable (s.triggers (i + channelOffset) = true))
  | .handle => inferInstanceAs (Decidable (∀ due ∈ s.timer, s.clock < due))
  | .expire => inferInstanceAs (Decidable (s.timer = some s.clock))

instance (s : State) : Decidable (s.MoreThanHalf cfg) := inferInstanceAs (Decidable (∀ due ∈ s.timer, _))

instance (s : State) (e : Occurrence) : Decidable (s.Spaced cfg e) :=
  match e with
  | .pass _ => inferInstanceAs (Decidable True)
  | .enable r => inferInstanceAs (Decidable (s.passes r → r.link.role = .master → (s.findChannel r.opCode).isSome →
      s.MoreThanHalf cfg ∧ ∀ x ∈ s.statusInstance, x.msTillTimeout - s.deltaMs cfg < timeoutInMs))
  | .irq _ => inferInstanceAs (Decidable True)
  | .handle => inferInstanceAs (Decidable (∀ msg ∈ s.mailbox.head?,
      ∀ x ∈ s.statusInstance.find? (·.opCode == msg.opCode),
        x.request = msg.request ∧ (s.statusInstance.head? = some x ∨ s.MoreThanHalf cfg)))
  | .expire => inferInstanceAs (Decidable True)

/-- The message of the second supervisor is handled a tick before the timer goes off, when the first one has nothing
left already. -/
example : run (State.occur smallConfig) .init
    [.enable ⟨opRetrigger, 0, false, false, masterLink⟩, .pass 16, .enable ⟨opSwitch, 0, false, false, masterLink⟩,
      .pass 47983, .irq channel1, .handle] = none :=
  Option.isNone_iff_eq_none.mp (by decide)

end Best1307.BtSync
