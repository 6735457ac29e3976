import Best1307.Bt.Sync
import Best1307.Lib.Run

/-!
# Channels, supervisors and triggers agree

A supervisor knows its channel by its number and its request by the operation. Both stay good as long as a channel is
handed out only when no supervisor knows it any more, and an operation is asked for only when none is supervised.
-/

namespace Best1307.BtSync

variable {cfg : Config} {s t : State}

/-! ### What can happen, in any order -/

inductive Event
  | pass (ticks : Nat)
  | enable (r : Request)
  | twsCmd (c : SyncCmd)
  | irq (i : Fin channelMax)
  | timeout
  | handle
  deriving DecidableEq, Repr

namespace State

variable (cfg : Config)

/-- A trigger comes only if it is set, the timer goes off only if it runs. -/
def step (s : State) : Event → Option State
  | .pass ticks => some { s with clock := s.clock + ticks }
  | .enable r => (s.enable cfg r).map Prod.snd
  | .twsCmd c => s.twsCmdHandler cfg c
  | .irq i => if s.triggers (i + channelOffset) then some (s.irqHandler cfg i) else none
  | .timeout => if s.timer.isSome then s.timeoutHandler.map fun (msg, t) => t.mailboxPut cfg msg else none
  | .handle =>
      match s.mailbox with
      | [] => none
      | msg :: rest => { s with mailbox := rest }.handleMsg cfg msg

/-- The channel is in use for the operation, or what became of it is still to be handled. -/
def Supports (s : State) (opCode index : Nat) : Prop :=
  ∃ i : Fin channelMax, i.val = index ∧
    ((s.locTriggerInfo i).used ∧ (s.locTriggerInfo i).opCode = opCode ∨
      ∃ msg ∈ s.mailbox, msg.opCode = opCode ∧ (msg.triSrc = index ∨ msg.triSrc = invalidChannel))

/-- Every supervisor has its channel, no two have the same, and triggers are set for these channels only. -/
structure Correct (s : State) : Prop where
  supported : ∀ x ∈ s.statusInstance, s.Supports x.opCode x.indexLocInfo
  distinct : (s.statusInstance.map (·.indexLocInfo)).Nodup
  managed : ∀ chnl, s.triggers chnl → channelOffset ≤ chnl ∧ chnl < channelOffset + channelMax

/-- A channel in use stays with its request until the trigger comes or its supervisor times out; then it is free. -/
def Keeps (s : State) (e : Event) (t : State) : Prop :=
  ∀ i, (s.locTriggerInfo i).used → t.locTriggerInfo i = s.locTriggerInfo i ∨
    t.locTriggerInfo i = { s.locTriggerInfo i with used := false } ∧
      (e = .irq i ∨ e = .timeout ∧ ∃ x ∈ s.statusInstance.head?, x.indexLocInfo = i)

/-- The channel that is handed out is free, and no supervisor knows it or waits for the operation. -/
def OrderlyEnable (s : State) (r : Request) : Prop :=
  s.passes r → r.link.role = .master → ∀ i ∈ s.findChannel r.opCode,
    (s.locTriggerInfo i).used = false ∧ ∀ x ∈ s.statusInstance, x.indexLocInfo ≠ i ∧ x.opCode ≠ r.opCode

/-- On the slave's side there has to be a channel, and only a supervisor of the operation knows it. -/
def OrderlyCmd (s : State) (c : SyncCmd) : Prop :=
  triggerInfoSize ≤ c.length → c.link.twsExists →
    (c.link.role = .slave → c.exceeded = false → ∃ i ∈ s.findChannel c.opCode, (s.locTriggerInfo i).used = false ∧
      ∀ x ∈ s.statusInstance, x.indexLocInfo = i → x.opCode = c.opCode) ∧
    (c.link.role = .master → c.retriggerOnProcess = false →
      s.OrderlyEnable ⟨c.opCode, 0, false, false, c.link⟩)

/-- What is posted for a supervisor finds room in the mailbox. -/
def Orderly (s : State) : Event → Prop
  | .enable r => s.OrderlyEnable r
  | .twsCmd c => s.OrderlyCmd c
  | .irq i => (∃ x ∈ s.statusInstance, x.indexLocInfo = i) → s.mailbox.length < cfg.mailboxMax
  | .timeout => s.mailbox.length < cfg.mailboxMax
  | _ => True

end State

/-! ### The supervisors as far as time does not matter -/

section Map

variable {α : Type*} {f : StatusInfo → α}

theorem refreshSupervisorEnv_map (hf : ∀ delta x, f (StatusInfo.countDown delta x) = f x)
    (h : s.refreshSupervisorEnv cfg = some t) : ∃ left ticks,
      t = { s with statusInstance := left, lastSysTicks := ticks } ∧ left.map f = s.statusInstance.map f := by
  rw [State.refreshSupervisorEnv] at h
  by_cases hnil : s.statusInstance = []
  · rw [if_pos hnil, Option.some.injEq] at h
    exact ⟨_, _, h.symm, rfl⟩
  · rw [if_neg hnil] at h
    split at h
    case isTrue =>
      rw [Option.some.injEq] at h
      refine ⟨_, _, h.symm, ?_⟩
      rw [List.map_map]
      exact List.map_congr_left fun x _ => hf _ x
    case isFalse => cases h

theorem addWaitingIrqTimeoutSupervision_map {opCode index request : Nat}
    (hf : ∀ delta x, f (StatusInfo.countDown delta x) = f x)
    (h : s.addWaitingIrqTimeoutSupervision cfg opCode index request = some t) : ∃ left ticks timer,
      t = { s with statusInstance := left, lastSysTicks := ticks, timer := timer } ∧
      left.map f = s.statusInstance.map f ++ [f ⟨opCode, timeoutInMs, index, request, s.clock, 0⟩] := by
  rw [State.addWaitingIrqTimeoutSupervision] at h
  split at h
  case isFalse => cases h
  case isTrue =>
    obtain ⟨u, hu, hadd⟩ := Option.map_eq_some_iff.mp h
    obtain ⟨left, ticks, rfl, hleft⟩ := refreshSupervisorEnv_map hf hu
    exact ⟨_, _, _, hadd.symm, by rw [List.map_append, hleft]; rfl⟩

theorem removeWaitingRspTimeoutSupervision_map {opCode : Nat}
    (hf : ∀ delta x, f (StatusInfo.countDown delta x) = f x)
    (h : s.removeWaitingRspTimeoutSupervision cfg opCode = some t) : ∃ left ticks timer,
      t = { s with statusInstance := left, lastSysTicks := ticks, timer := timer } ∧
      left.map f = (s.statusInstance.eraseP (·.opCode == opCode)).map f := by
  rw [State.removeWaitingRspTimeoutSupervision] at h
  by_cases hany : s.statusInstance.any (·.opCode == opCode)
  · rw [if_pos hany] at h
    simp only at h
    split at h
    case isTrue =>
      rw [Option.some.injEq] at h
      exact ⟨_, _, _, h.symm, rfl⟩
    case isFalse =>
      obtain ⟨u, hu, hstart⟩ := Option.map_eq_some_iff.mp h
      obtain ⟨left, ticks, rfl, hleft⟩ := refreshSupervisorEnv_map hf hu
      exact ⟨_, _, _, hstart.symm, hleft⟩
  · rw [if_neg hany, Option.some.injEq] at h
    have hnone : s.statusInstance.eraseP (·.opCode == opCode) = s.statusInstance :=
      List.eraseP_of_forall_not fun x hx hop => hany (List.any_eq_true.mpr ⟨x, hx, hop⟩)
    rw [hnone]
    exact ⟨s.statusInstance, s.lastSysTicks, s.timer, h.symm, rfl⟩

end Map

def StatusInfo.key (x : StatusInfo) : Nat × Nat := (x.opCode, x.indexLocInfo)

def State.keys (s : State) : List (Nat × Nat) := s.statusInstance.map StatusInfo.key

theorem addWaitingIrqTimeoutSupervision_keys {opCode index request : Nat}
    (h : s.addWaitingIrqTimeoutSupervision cfg opCode index request = some t) :
    ∃ left ticks timer, t = { s with statusInstance := left, lastSysTicks := ticks, timer := timer } ∧
      left.map StatusInfo.key = s.keys ++ [(opCode, index)] :=
  addWaitingIrqTimeoutSupervision_map (fun _ _ => rfl) h

theorem removeWaitingRspTimeoutSupervision_keys {opCode : Nat}
    (h : s.removeWaitingRspTimeoutSupervision cfg opCode = some t) :
    ∃ left ticks timer, t = { s with statusInstance := left, lastSysTicks := ticks, timer := timer } ∧
      left.map StatusInfo.key = s.keys.eraseP (·.1 == opCode) := by
  rw [State.keys, List.eraseP_map]
  exact removeWaitingRspTimeoutSupervision_map (fun _ _ => rfl) h

theorem handleMsg_eq (msg : Msg) : s.handleMsg cfg msg = s.removeWaitingRspTimeoutSupervision cfg msg.opCode := by
  rw [State.handleMsg]
  split
  case isTrue => rfl
  case isFalse hnone => exact (if_neg hnone).symm

/-! ### What every step keeps -/

/-- Supervisors also wait for different operations. -/
structure Held (s : State) : Prop where
  supported : ∀ k ∈ s.keys, s.Supports k.1 k.2
  indices : (s.keys.map Prod.snd).Nodup
  opCodes : (s.keys.map Prod.fst).Nodup
  managed : ∀ chnl, s.triggers chnl → channelOffset ≤ chnl ∧ chnl < channelOffset + channelMax

theorem Held.correct (h : Held s) : s.Correct where
  supported _ hx := h.supported _ (List.mem_map_of_mem hx)
  distinct := by
    have hindices := h.indices
    rw [State.keys, List.map_map] at hindices
    exact hindices
  managed := h.managed

theorem held_init : Held .init where
  supported _ hk := absurd hk List.not_mem_nil
  indices := List.nodup_nil
  opCodes := List.nodup_nil
  managed _ hset := Bool.noConfusion hset

theorem managed_set {triggers : Nat → Bool} {i : Fin channelMax}
    (h : ∀ chnl, triggers chnl → channelOffset ≤ chnl ∧ chnl < channelOffset + channelMax) (chnl : Nat)
    (hset : Function.update triggers (i.val + channelOffset) true chnl) :
    channelOffset ≤ chnl ∧ chnl < channelOffset + channelMax := by
  by_cases hchnl : chnl = i.val + channelOffset
  · have := i.isLt
    omega
  · rw [Function.update_of_ne hchnl] at hset
    exact h chnl hset

theorem managed_clear {triggers : Nat → Bool} {cleared : Nat}
    (h : ∀ chnl, triggers chnl → channelOffset ≤ chnl ∧ chnl < channelOffset + channelMax) (chnl : Nat)
    (hset : Function.update triggers cleared false chnl) :
    channelOffset ≤ chnl ∧ chnl < channelOffset + channelMax := by
  by_cases hchnl : chnl = cleared
  · rw [hchnl, Function.update_self] at hset
    exact Bool.noConfusion hset
  · rw [Function.update_of_ne hchnl] at hset
    exact h chnl hset

/-- A channel that no supervisor of the operation knows says nothing about it. -/
theorem Supports.of_same {opCode index : Nat} (h : s.Supports opCode index)
    (hloc : ∀ i : Fin channelMax, i.val = index → t.locTriggerInfo i = s.locTriggerInfo i)
    (hmailbox : ∀ msg ∈ s.mailbox, msg.opCode = opCode → msg ∈ t.mailbox) : t.Supports opCode index := by
  obtain ⟨i, hi, hused | ⟨msg, hmsg, hop, hsrc⟩⟩ := h
  · exact ⟨i, hi, .inl (by rw [hloc i hi]; exact hused)⟩
  · exact ⟨i, hi, .inr ⟨msg, hmailbox msg hmsg hop, hop, hsrc⟩⟩

theorem Held.add (h : Held s) {i : Fin channelMax} {opCode : Nat}
    (hother : ∀ x ∈ s.statusInstance, x.indexLocInfo ≠ i ∧ x.opCode ≠ opCode)
    (hkeys : t.keys = s.keys ++ [(opCode, i.val)]) (hloc : t.locTriggerInfo = (s.handOut i opCode).locTriggerInfo)
    (hmailbox : t.mailbox = s.mailbox) (htriggers : t.triggers = Function.update s.triggers (i + channelOffset) true) :
    Held t := by
  have hknown : ∀ k ∈ s.keys, k.2 ≠ i.val ∧ k.1 ≠ opCode := by
    intro k hk
    obtain ⟨x, hx, rfl⟩ := List.mem_map.mp hk
    exact hother x hx
  refine ⟨fun k hk => ?_, ?_, ?_, ?_⟩
  · rw [hkeys] at hk
    rcases List.mem_append.mp hk with hold | hnew
    · refine Supports.of_same (h.supported k hold) (fun j hj => ?_) (fun msg hmsg _ => hmailbox ▸ hmsg)
      have hne : j ≠ i := fun heq => (hknown k hold).1 (heq ▸ hj.symm)
      rw [hloc, State.handOut_of_ne hne]
    · rw [List.mem_singleton.mp hnew]
      refine ⟨i, rfl, .inl ?_⟩
      rw [hloc, State.handOut_same]
      exact ⟨rfl, rfl⟩
  · rw [hkeys, List.map_append]
    refine List.nodup_append.mpr ⟨h.indices, List.nodup_singleton _, fun a ha b hb => ?_⟩
    obtain ⟨k, hk, rfl⟩ := List.mem_map.mp ha
    rw [List.mem_singleton.mp hb]
    exact (hknown k hk).1
  · rw [hkeys, List.map_append]
    refine List.nodup_append.mpr ⟨h.opCodes, List.nodup_singleton _, fun a ha b hb => ?_⟩
    obtain ⟨k, hk, rfl⟩ := List.mem_map.mp ha
    rw [List.mem_singleton.mp hb]
    exact (hknown k hk).2
  · rw [htriggers]
    exact managed_set h.managed

theorem fst_ne_of_mem_eraseP {keys : List (Nat × Nat)} (h : (keys.map Prod.fst).Nodup) {opCode : Nat} {k : Nat × Nat}
    (hk : k ∈ keys.eraseP (·.1 == opCode)) : k.1 ≠ opCode := by
  induction keys with
  | nil => exact absurd hk List.not_mem_nil
  | cons first rest ih =>
      obtain ⟨hfirst, hrest⟩ := List.nodup_cons.mp h
      by_cases hop : first.1 = opCode
      · have herase : (first :: rest).eraseP (·.1 == opCode) = rest := List.eraseP_cons_of_pos (beq_iff_eq.mpr hop)
        rw [herase] at hk
        intro heq
        exact hfirst (hop.trans heq.symm ▸ List.mem_map_of_mem hk)
      · have herase : (first :: rest).eraseP (·.1 == opCode) = first :: rest.eraseP (·.1 == opCode) :=
          List.eraseP_cons_of_neg fun heq => hop (beq_iff_eq.mp heq)
        rw [herase] at hk
        rcases List.mem_cons.mp hk with rfl | hk
        · exact hop
        · exact ih hrest hk

theorem Held.handle (h : Held s) {msg : Msg} {rest : List Msg} (hmsg : s.mailbox = msg :: rest)
    (hkeys : t.keys = s.keys.eraseP (·.1 == msg.opCode)) (hloc : t.locTriggerInfo = s.locTriggerInfo)
    (hmailbox : t.mailbox = rest) (htriggers : t.triggers = s.triggers) : Held t := by
  have hsub : t.keys.Sublist s.keys := hkeys ▸ List.eraseP_sublist
  refine ⟨fun k hk => ?_, h.indices.sublist (hsub.map _), h.opCodes.sublist (hsub.map _), htriggers ▸ h.managed⟩
  refine Supports.of_same (h.supported k (hsub.mem hk)) (fun j _ => congrFun hloc j) fun m hm hop => ?_
  rw [hkeys] at hk
  rw [hmsg] at hm
  rw [hmailbox]
  rcases List.mem_cons.mp hm with rfl | hm
  · exact absurd hop.symm (fst_ne_of_mem_eraseP h.opCodes hk)
  · exact hm

theorem Held.release (h : Held s) {i : Fin channelMax} {msg : Msg} (hsrc : msg.triSrc = i ∨ msg.triSrc = invalidChannel)
    (hposted : ∀ k ∈ s.keys, k.2 = i.val → (s.locTriggerInfo i).opCode = k.1 → msg ∈ t.mailbox ∧ msg.opCode = k.1)
    (hkeys : t.keys = s.keys) (hloc : t.locTriggerInfo = (s.release i).locTriggerInfo)
    (hmailbox : ∀ m ∈ s.mailbox, m ∈ t.mailbox)
    (hmanaged : ∀ chnl, t.triggers chnl → channelOffset ≤ chnl ∧ chnl < channelOffset + channelMax) : Held t := by
  refine ⟨fun k hk => ?_, hkeys ▸ h.indices, hkeys ▸ h.opCodes, hmanaged⟩
  rw [hkeys] at hk
  by_cases hi : k.2 = i.val
  · obtain ⟨j, hj, ⟨-, hop⟩ | ⟨m, hm, hmsg⟩⟩ := h.supported k hk
    · obtain rfl : j = i := Fin.ext (hj.trans hi)
      obtain ⟨hin, hsame⟩ := hposted k hk hi hop
      exact ⟨j, hj, .inr ⟨msg, hin, hsame, hi ▸ hsrc⟩⟩
    · exact ⟨j, hj, .inr ⟨m, hmailbox m hm, hmsg⟩⟩
  · refine Supports.of_same (h.supported k hk) (fun j hj => ?_) fun m hm _ => hmailbox m hm
    have hne : j ≠ i := fun heq => hi (heq ▸ hj.symm)
    rw [hloc, State.release_of_ne hne]

/-! ### The supervisor of the operation gets another channel -/

section UpdateFirst

variable {opCode index : Nat} {l : List StatusInfo}

theorem updateFirst_opCodes :
    (State.updateFirst opCode index l).map (·.opCode) = l.map (·.opCode) := by
  induction l with
  | nil => rfl
  | cons x rest ih =>
      rw [State.updateFirst]
      split
      · rfl
      · rw [List.map_cons, List.map_cons, ih]

theorem mem_updateFirst (h : (l.map (·.opCode)).Nodup) {y : StatusInfo} (hy : y ∈ State.updateFirst opCode index l) :
    y ∈ l ∧ y.opCode ≠ opCode ∨ y.opCode = opCode ∧ y.indexLocInfo = index := by
  induction l with
  | nil => exact absurd hy List.not_mem_nil
  | cons x rest ih =>
      obtain ⟨hfirst, hrest⟩ := List.nodup_cons.mp h
      rw [State.updateFirst] at hy
      split at hy
      case isTrue hop =>
        rcases List.mem_cons.mp hy with rfl | hy
        · exact .inr ⟨hop, rfl⟩
        · refine .inl ⟨List.mem_cons_of_mem x hy, fun hsame => hfirst ?_⟩
          exact List.mem_map.mpr ⟨y, hy, hsame.trans hop.symm⟩
      case isFalse hop =>
        rcases List.mem_cons.mp hy with rfl | hy
        · exact .inl ⟨List.mem_cons_self, hop⟩
        · exact (ih hrest hy).imp_left fun ⟨hmem, hne⟩ => ⟨List.mem_cons_of_mem x hmem, hne⟩

theorem updateFirst_indices (hops : (l.map (·.opCode)).Nodup) (h : (l.map (·.indexLocInfo)).Nodup)
    (hknown : ∀ x ∈ l, x.indexLocInfo = index → x.opCode = opCode) :
    ((State.updateFirst opCode index l).map (·.indexLocInfo)).Nodup := by
  induction l with
  | nil => exact List.nodup_nil
  | cons x rest ih =>
      obtain ⟨hop, hops'⟩ := List.nodup_cons.mp hops
      obtain ⟨hindex, hrest⟩ := List.nodup_cons.mp h
      rw [State.updateFirst]
      split
      case isTrue hsame =>
        refine List.nodup_cons.mpr ⟨fun hin => ?_, hrest⟩
        obtain ⟨y, hy, hyindex⟩ := List.mem_map.mp hin
        have hyop := hknown y (List.mem_cons_of_mem x hy) hyindex
        exact hop (List.mem_map.mpr ⟨y, hy, hyop.trans hsame.symm⟩)
      case isFalse hother =>
        refine List.nodup_cons.mpr ⟨fun hin => ?_, ih hops' hrest fun y hy => hknown y (List.mem_cons_of_mem x hy)⟩
        obtain ⟨y, hy, hyindex⟩ := List.mem_map.mp hin
        rcases mem_updateFirst hops' hy with ⟨hmem, -⟩ | ⟨-, hnew⟩
        · exact hindex (hyindex ▸ List.mem_map_of_mem hmem)
        · exact hother (hknown x List.mem_cons_self (hyindex.symm.trans hnew))

end UpdateFirst

theorem Held.update (h : Held s) {i : Fin channelMax} {opCode : Nat}
    (hknown : ∀ x ∈ s.statusInstance, x.indexLocInfo = i → x.opCode = opCode) :
    Held (((s.handOut i opCode).setTrigger (i + channelOffset)).updateSupervisor opCode i) := by
  have hops : (s.statusInstance.map (·.opCode)).Nodup := by
    have hopCodes := h.opCodes
    rw [State.keys, List.map_map] at hopCodes
    exact hopCodes
  have hindices : (s.statusInstance.map (·.indexLocInfo)).Nodup := h.correct.distinct
  refine ⟨fun k hk => ?_, ?_, ?_, managed_set h.managed⟩
  · obtain ⟨y, hy, rfl⟩ := List.mem_map.mp hk
    rcases mem_updateFirst hops hy with ⟨hold, hne⟩ | ⟨hop, hindex⟩
    · refine Supports.of_same (h.supported y.key (List.mem_map_of_mem hold)) (fun j hj => ?_) fun msg hmsg _ => hmsg
      have hne : j ≠ i := fun heq => hne (hknown y hold (heq ▸ hj.symm))
      exact State.handOut_of_ne hne
    · refine ⟨i, hindex.symm, .inl ?_⟩
      have hsame : (((s.handOut i opCode).setTrigger (i + channelOffset)).updateSupervisor opCode i).locTriggerInfo i =
          ⟨opCode, i + channelOffset, true, s.requests⟩ := State.handOut_same
      rw [hsame]
      exact ⟨rfl, hop.symm⟩
  · rw [State.keys, List.map_map]
    exact updateFirst_indices hops hindices hknown
  · rw [State.keys, List.map_map]
    change ((State.updateFirst opCode i.val s.statusInstance).map (·.opCode)).Nodup
    rw [updateFirst_opCodes]
    exact hops

/-! ### Steps and runs -/

theorem handOut_keeps {e : Event} {i : Fin channelMax} {opCode : Nat} (hfree : (s.locTriggerInfo i).used = false)
    (hloc : t.locTriggerInfo = (s.handOut i opCode).locTriggerInfo) : s.Keeps e t := by
  intro j hused
  have hne : j ≠ i := by
    rintro rfl
    rw [hfree] at hused
    exact Bool.noConfusion hused
  rw [hloc, State.handOut_of_ne hne]
  exact .inl rfl

theorem release_keeps {e : Event} {i : Fin channelMax} (hloc : t.locTriggerInfo = (s.release i).locTriggerInfo)
    (he : e = .irq i ∨ e = .timeout ∧ ∃ x ∈ s.statusInstance.head?, x.indexLocInfo = i) : s.Keeps e t := by
  intro j _
  rw [hloc]
  by_cases hi : j = i
  · rw [hi, State.release_same]
    exact .inr ⟨rfl, he⟩
  · rw [State.release_of_ne hi]
    exact .inl rfl

theorem keeps_of_same {e : Event} (hloc : t.locTriggerInfo = s.locTriggerInfo) : s.Keeps e t :=
  fun i _ => .inl (congrFun hloc i)

theorem Held.enable (h : Held s) {r : Request} {e : Event} (horderly : s.OrderlyEnable r) {b : Bool}
    (hstep : s.enable cfg r = some (b, t)) : Held t ∧ s.Keeps e t := by
  by_cases hmaster : s.passes r ∧ r.link.role = .master
  case neg =>
    obtain ⟨b', hsame⟩ : ∃ b, s.enable cfg r = some (b, s) := State.enable_of_not_master hmaster
    rw [hsame, Option.some.injEq, Prod.mk.injEq] at hstep
    exact hstep.2 ▸ ⟨h, keeps_of_same rfl⟩
  obtain ⟨hpasses, hmaster⟩ := hmaster
  cases hfind : s.findChannel r.opCode with
  | none =>
      rw [State.enable_of_none hpasses hmaster hfind, Option.some.injEq, Prod.mk.injEq] at hstep
      exact hstep.2 ▸ ⟨h, keeps_of_same rfl⟩
  | some i =>
      obtain ⟨hfree, hother⟩ := horderly hpasses hmaster i hfind
      rw [State.enable_of_some hpasses hmaster hfind] at hstep
      obtain ⟨u, hadd, hu⟩ := Option.map_eq_some_iff.mp hstep
      obtain ⟨-, rfl⟩ := Prod.mk.inj hu
      obtain ⟨left, ticks, timer, rfl, hkeys⟩ := addWaitingIrqTimeoutSupervision_keys hadd
      exact ⟨h.add hother hkeys rfl rfl rfl, handOut_keeps hfree rfl⟩

theorem Held.twsCmd (h : Held s) {c : SyncCmd} {e : Event} (horderly : s.OrderlyCmd c)
    (hstep : s.twsCmdHandler cfg c = some t) : Held t ∧ s.Keeps e t := by
  rw [State.twsCmdHandler] at hstep
  by_cases hignored : c.length < triggerInfoSize ∨ ¬ c.link.twsExists
  · rw [if_pos hignored, Option.some.injEq] at hstep
    exact hstep ▸ ⟨h, keeps_of_same rfl⟩
  rw [if_neg hignored] at hstep
  obtain ⟨hlen, htws⟩ := not_or.mp hignored
  obtain ⟨hslave, hmaster⟩ := horderly (Nat.not_lt.mp hlen) (not_not.mp htws)
  cases hrole : c.link.role with
  | unknown =>
      simp only [hrole, Option.some.injEq] at hstep
      exact hstep ▸ ⟨h, keeps_of_same rfl⟩
  | master =>
      simp only [hrole] at hstep
      cases hprocess : c.retriggerOnProcess with
      | true =>
          rw [hprocess, if_pos rfl, Option.some.injEq] at hstep
          exact hstep ▸ ⟨h, keeps_of_same rfl⟩
      | false =>
          rw [hprocess, if_neg Bool.false_ne_true] at hstep
          obtain ⟨⟨b, u⟩, henable, rfl⟩ := Option.map_eq_some_iff.mp hstep
          exact h.enable (hmaster hrole hprocess) henable
  | slave =>
      simp only [hrole] at hstep
      cases hexceeded : c.exceeded with
      | true =>
          rw [hexceeded, if_pos rfl, Option.some.injEq] at hstep
          exact hstep ▸ ⟨h, keeps_of_same rfl⟩
      | false =>
          obtain ⟨i, hfind, hfree, hknown⟩ := hslave hrole hexceeded
          have hfind : s.findChannel c.opCode = some i := hfind
          have hindex : (i.val + channelOffset + 256 - channelOffset) % 256 = i.val := by
            have : i.val < 2 := i.isLt
            have : channelOffset = 2 := rfl
            omega
          rw [hexceeded, if_neg Bool.false_ne_true, State.getAvaliableTriggerChannel, hfind] at hstep
          simp only [hindex, Option.some.injEq] at hstep
          exact hstep ▸ ⟨h.update hknown, handOut_keeps hfree rfl⟩

theorem mailboxPut_eq (cfg : Config) (msg : Msg) : ∃ mailbox, s.mailboxPut cfg msg = { s with mailbox := mailbox } ∧
    (∀ m ∈ s.mailbox, m ∈ mailbox) ∧ (s.mailbox.length < cfg.mailboxMax → msg ∈ mailbox) := by
  rw [State.mailboxPut]
  split
  case isTrue =>
    exact ⟨_, rfl, fun m hm => List.mem_append_left _ hm, fun _ => List.mem_append_right _ List.mem_cons_self⟩
  case isFalse hfull => exact ⟨_, rfl, fun m hm => hm, fun hroom => absurd hroom hfull⟩

theorem Held.irq (h : Held s) {i : Fin channelMax}
    (horderly : (∃ x ∈ s.statusInstance, x.indexLocInfo = i) → s.mailbox.length < cfg.mailboxMax) :
    Held (s.irqHandler cfg i) ∧ s.Keeps (.irq i) (s.irqHandler cfg i) := by
  obtain ⟨mailbox, hput, hold, hnew⟩ := mailboxPut_eq cfg (s := { s.release i with
    triggers := Function.update s.triggers (i + channelOffset) false
    interrupted := (s.locTriggerInfo i).request :: s.interrupted })
    ⟨i, (s.locTriggerInfo i).opCode, (s.locTriggerInfo i).request⟩
  rw [State.irqHandler, hput]
  refine ⟨h.release (.inl rfl) (fun k hk hindex hop => ⟨hnew ?_, hop⟩) rfl rfl hold (managed_clear h.managed),
    release_keeps rfl (.inl rfl)⟩
  obtain ⟨x, hx, rfl⟩ := List.mem_map.mp hk
  exact horderly ⟨x, hx, hindex⟩

theorem Held.timeout (h : Held s) (horderly : s.mailbox.length < cfg.mailboxMax) {msg : Msg} {u : State}
    (hhandler : s.timeoutHandler = some (msg, u)) :
    Held (u.mailboxPut cfg msg) ∧ s.Keeps .timeout (u.mailboxPut cfg msg) := by
  obtain ⟨x, hx, hhandler⟩ := Option.bind_eq_some_iff.mp hhandler
  split at hhandler
  case isFalse => cases hhandler
  case isTrue hindex =>
    obtain ⟨rfl, rfl⟩ := Prod.mk.inj (Option.some.inj hhandler)
    have hmem : x ∈ s.statusInstance := List.mem_of_mem_head? hx
    obtain ⟨mailbox, hput, hold, hnew⟩ := mailboxPut_eq cfg (s := { s.release ⟨x.indexLocInfo, hindex⟩ with
      timer := none
      timedOut := x.request :: s.timedOut }) ⟨invalidChannel, x.opCode, x.request⟩
    rw [hput]
    refine ⟨h.release (.inr rfl) (fun k hk hsame _ => ⟨hnew horderly, ?_⟩) rfl rfl hold h.managed,
      release_keeps rfl (.inr ⟨rfl, x, hx, rfl⟩)⟩
    -- no other supervisor knows the channel
    have hkey : x.key = k := List.inj_on_of_nodup_map h.indices (List.mem_map_of_mem hmem) hk hsame.symm
    exact congrArg Prod.fst hkey

theorem Held.step (h : Held s) {e : Event} (horderly : s.Orderly cfg e) (hstep : s.step cfg e = some t) :
    Held t ∧ s.Keeps e t := by
  cases e with
  | pass ticks =>
      obtain rfl := Option.some.inj hstep
      exact ⟨⟨h.supported, h.indices, h.opCodes, h.managed⟩, keeps_of_same rfl⟩
  | enable r =>
      obtain ⟨⟨b, u⟩, henable, rfl⟩ := Option.map_eq_some_iff.mp hstep
      exact h.enable horderly henable
  | twsCmd c => exact h.twsCmd horderly hstep
  | irq i =>
      rw [State.step] at hstep
      split at hstep
      case isTrue => exact Option.some.inj hstep ▸ h.irq horderly
      case isFalse => cases hstep
  | timeout =>
      rw [State.step] at hstep
      split at hstep
      case isTrue =>
        obtain ⟨⟨msg, u⟩, hhandler, rfl⟩ := Option.map_eq_some_iff.mp hstep
        exact h.timeout horderly hhandler
      case isFalse => cases hstep
  | handle =>
      cases hmailbox : s.mailbox with
      | nil =>
          simp only [State.step, hmailbox] at hstep
          cases hstep
      | cons msg rest =>
          simp only [State.step, hmailbox] at hstep
          rw [handleMsg_eq] at hstep
          obtain ⟨left, ticks, timer, rfl, hkeys⟩ := removeWaitingRspTimeoutSupervision_keys hstep
          exact ⟨h.handle hmailbox hkeys rfl rfl rfl, keeps_of_same rfl⟩

/-- As long as channels are handed out in order every state reached is correct, and what is done next in order keeps
every channel with its request. -/
theorem correct_of_orderly {events : List Event}
    (h : Along (State.step cfg) (State.Orderly cfg) .init events) (t : State)
    (hrun : run (State.step cfg) .init events = some t) :
    t.Correct ∧ ∀ e u, t.Orderly cfg e → t.step cfg e = some u → t.Keeps e u := by
  have hheld : Held t :=
    run_invariant_along Held (fun s e s' hs horderly hs' => (hs.step horderly hs').1) h held_init hrun
  exact ⟨hheld.correct, fun e u horderly hu => (hheld.step horderly hu).2⟩

instance (s : State) (r : Request) : Decidable (s.OrderlyEnable r) :=
  inferInstanceAs (Decidable (_ → _ → ∀ _ ∈ _, _ ∧ ∀ _ ∈ _, _))

instance (s : State) (c : SyncCmd) : Decidable (s.OrderlyCmd c) :=
  inferInstanceAs (Decidable (_ → _ → (_ → _ → ∃ _ ∈ _, _ ∧ ∀ _ ∈ _, _ → _) ∧ (_ → _ → State.OrderlyEnable _ _)))

instance (s : State) (e : Event) : Decidable (s.Orderly cfg e) :=
  match e with
  | .pass _ => inferInstanceAs (Decidable True)
  | .enable r => inferInstanceAs (Decidable (s.OrderlyEnable r))
  | .twsCmd c => inferInstanceAs (Decidable (s.OrderlyCmd c))
  | .irq i => inferInstanceAs (Decidable ((∃ x ∈ s.statusInstance, x.indexLocInfo = i) →
      s.mailbox.length < cfg.mailboxMax))
  | .timeout => inferInstanceAs (Decidable (s.mailbox.length < cfg.mailboxMax))
  | .handle => inferInstanceAs (Decidable True)

def slaveLink : Link := ⟨.slave, true, true, false, true⟩

/-- Two requests of the master, the first timed out, the trigger of the second after the roles have changed. -/
def orderlyEvents : List Event :=
  [.enable ⟨opRetrigger, 0, false, false, masterLink⟩, .pass 16, .enable ⟨opSwitch, 0, false, false, masterLink⟩,
    .pass 47984, .timeout, .handle, .twsCmd ⟨10, opVolume, false, false, slaveLink⟩, .irq channel1, .handle]

theorem orderlyEvents_correct : ∃ t, run (State.step smallConfig) .init orderlyEvents = some t ∧ t.Correct ∧
    ∀ e u, t.Orderly smallConfig e → t.step smallConfig e = some u → t.Keeps e u := by
  obtain ⟨t, ht⟩ : ∃ t, run (State.step smallConfig) .init orderlyEvents = some t :=
    Option.isSome_iff_exists.mp (by decide)
  exact ⟨t, ht, correct_of_orderly (by decide) t ht⟩

/-- On the slave's side both channels are in use, and a third command sets a trigger that is none of theirs. -/
theorem thirdCmd_not_correct : ∃ t, run (State.step smallConfig) .init
    [.twsCmd ⟨10, opRetrigger, false, false, slaveLink⟩, .twsCmd ⟨10, opVolume, false, false, slaveLink⟩,
      .twsCmd ⟨10, opSwitch, false, false, slaveLink⟩] = some t ∧ ¬ t.Correct := by
  refine ⟨_, rfl, fun hcorrect => ?_⟩
  have hmanaged := hcorrect.managed invalidChannel (by decide)
  exact absurd hmanaged.2 (by decide)

end Best1307.BtSync
