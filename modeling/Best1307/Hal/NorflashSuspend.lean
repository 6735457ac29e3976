import Mathlib.Algebra.Order.Group.Nat
import Best1307.Hal.Norflash

/-!
# Operations suspended and resumed

A range is split into operations, each where the one before ends. A call that is suspended does them all when it is
resumed often enough, wherever it breaks off; only the errors of those that were suspended are overlooked.
-/

namespace Best1307.Norflash

open Pieces

variable {cfg : Config} {plan : Plan} {kind : Kind} {c : Cursor} {s t : State}

/-! ### The operations of a range -/

/-- A program stays within a page, an erase is that of a whole unit. -/
def FlashOp.Fits (cfg : Config) : FlashOp → Prop
  | .erase type addr => cfg.eraseSize type ∣ addr
  | .program addr data => addr % cfg.pageSize + data.length ≤ cfg.pageSize

/-- What is left lies on the chip, and is made of units or is what the buffer holds. -/
def Cursor.Good (cfg : Config) (kind : Kind) (c : Cursor) : Prop :=
  c.addr + c.remain ≤ cfg.totalSize ∧
    match kind with
    | .erase => cfg.eraseUnit ∣ c.addr ∧ cfg.eraseUnit ∣ c.remain
    | .program => c.buf.length = c.remain

def Cursor.IsChip (cfg : Config) (kind : Kind) (c : Cursor) : Prop :=
  kind = .erase ∧ c.addr = 0 ∧ cfg.totalSize ≤ c.remain

instance : Decidable (c.IsChip cfg kind) := inferInstanceAs (Decidable (_ ∧ _ ∧ _))

theorem land_pow_sub_one (n k : Nat) : n &&& (2 ^ k - 1) = n % 2 ^ k := Nat.and_two_pow_sub_one_eq_mod n k

namespace Config

theorem eraseSize_eq {type : EraseType} (h : type ≠ .chip) : ∃ k, cfg.eraseSize type = 2 ^ k := by
  cases type with
  | chip => exact absurd rfl h
  | page => exact ⟨_, rfl⟩
  | sector => exact ⟨_, rfl⟩
  | block32K => exact ⟨_, rfl⟩
  | block64K => exact ⟨_, rfl⟩

theorem pageSize_dvd_sectorSize : cfg.pageSize ∣ cfg.sectorSize :=
  Nat.pow_dvd_pow 2 (Nat.le_trans cfg.pageBits_le (Nat.le_add_right _ _))

theorem eraseUnit_dvd_sectorSize : cfg.eraseUnit ∣ cfg.sectorSize := by
  rw [eraseUnit]
  split
  · exact pageSize_dvd_sectorSize
  · exact Nat.dvd_refl _

theorem eraseUnit_eq : ∃ k, cfg.eraseUnit = 2 ^ k := by
  rw [eraseUnit]
  split
  · exact ⟨_, rfl⟩
  · exact ⟨_, rfl⟩

theorem eraseUnit_dvd_totalSize : cfg.eraseUnit ∣ cfg.totalSize :=
  Nat.dvd_trans eraseUnit_dvd_sectorSize cfg.sector_dvd

theorem sectorSize_dvd_block32K : cfg.sectorSize ∣ cfg.eraseSize .block32K :=
  Nat.pow_dvd_pow 2 (by omega)

theorem block32K_dvd_block64K : cfg.eraseSize .block32K ∣ cfg.eraseSize .block64K :=
  Nat.pow_dvd_pow 2 (by omega)

theorem eraseSize_pos {type : EraseType} (h : type ≠ .chip) : 0 < cfg.eraseSize type := by
  obtain ⟨k, hk⟩ : ∃ k, cfg.eraseSize type = 2 ^ k := eraseSize_eq h
  rw [hk]
  exact Nat.two_pow_pos k

theorem land_eraseSize {type : EraseType} (h : type ≠ .chip) (addr : Nat) :
    (addr &&& (cfg.eraseSize type - 1) = 0) ↔ cfg.eraseSize type ∣ addr := by
  obtain ⟨k, hk⟩ : ∃ k, cfg.eraseSize type = 2 ^ k := eraseSize_eq h
  rw [hk, land_pow_sub_one, Nat.dvd_iff_mod_eq_zero]

end Config

theorem eraseFits_iff {type : EraseType} (h : type ≠ .chip) :
    eraseFits cfg c type ↔ cfg.eraseSize type ≤ c.remain ∧ cfg.eraseSize type ∣ c.addr := by
  rw [eraseFits, Bool.and_eq_true, decide_eq_true_iff, beq_iff_eq, Config.land_eraseSize h]

/-- The unit an erase chooses is aligned, and no larger than what is left. -/
theorem eraseType_spec (h : c.Good cfg .erase) (hpos : 0 < c.remain) :
    let type := eraseType cfg c
    type ≠ .chip ∧ cfg.eraseSize type ∣ c.addr ∧ cfg.eraseSize type ≤ c.remain ∧
      cfg.eraseUnit ∣ cfg.eraseSize type := by
  obtain ⟨-, haddr, hremain⟩ := h
  have hunit : cfg.eraseUnit ≤ c.remain := Nat.le_of_dvd hpos hremain
  have hsector : cfg.eraseUnit ∣ cfg.eraseSize .sector := Config.eraseUnit_dvd_sectorSize
  have h32 : cfg.eraseUnit ∣ cfg.eraseSize .block32K :=
    Nat.dvd_trans hsector Config.sectorSize_dvd_block32K
  have h64 : cfg.eraseUnit ∣ cfg.eraseSize .block64K := Nat.dvd_trans h32 Config.block32K_dvd_block64K
  have hfits {type : EraseType} (hchip : type ≠ .chip) (hdvd : cfg.eraseUnit ∣ cfg.eraseSize type)
      (hfit : eraseFits cfg c type) : type ≠ .chip ∧ cfg.eraseSize type ∣ c.addr ∧
        cfg.eraseSize type ≤ c.remain ∧ cfg.eraseUnit ∣ cfg.eraseSize type := by
    obtain ⟨hle, haligned⟩ := (eraseFits_iff hchip).mp hfit
    exact ⟨hchip, haligned, hle, hdvd⟩
  have hlast {type : EraseType} (hchip : type ≠ .chip) (hsame : cfg.eraseUnit = cfg.eraseSize type) :
      type ≠ .chip ∧ cfg.eraseSize type ∣ c.addr ∧ cfg.eraseSize type ≤ c.remain ∧
        cfg.eraseUnit ∣ cfg.eraseSize type := by
    rw [hsame] at haddr hunit
    exact ⟨hchip, haddr, hunit, hsame ▸ Nat.dvd_refl _⟩
  have hblk : ∃ blkCmd : EraseType, blkCmd ≠ .chip ∧ cfg.eraseUnit ∣ cfg.eraseSize blkCmd ∧
      (if cfg.flashLargeBlock then .block64K else .block32K) = blkCmd := by
    cases cfg.flashLargeBlock with
    | true => exact ⟨.block64K, EraseType.noConfusion, h64, rfl⟩
    | false => exact ⟨.block32K, EraseType.noConfusion, h32, rfl⟩
  obtain ⟨blkCmd, hchip, hdvd, hcmd⟩ := hblk
  simp only [eraseType, hcmd]
  by_cases hlarge : eraseFits cfg c blkCmd
  · rw [if_pos hlarge]
    exact hfits hchip hdvd hlarge
  rw [if_neg hlarge]
  by_cases hsmall : cfg.flashLargeBlock && eraseFits cfg c .block32K
  · rw [if_pos hsmall]
    exact hfits EraseType.noConfusion h32 (Bool.and_eq_true_iff.mp hsmall).2
  rw [if_neg hsmall]
  by_cases hpage : cfg.puyaFlashErasePageEnable
  · rw [if_pos hpage]
    by_cases hwhole : eraseFits cfg c .sector
    · rw [if_pos hwhole]
      exact hfits EraseType.noConfusion hsector hwhole
    · rw [if_neg hwhole]
      exact hlast EraseType.noConfusion (if_pos hpage)
  · rw [if_neg hpage]
    exact hlast EraseType.noConfusion (if_neg hpage)

theorem writeNext_eq (cfg : Config) (hpos : 0 < c.remain) :
    ∃ size, 0 < size ∧ size ≤ c.remain ∧ c.addr % cfg.pageSize + size ≤ cfg.pageSize ∧ writeNext cfg c =
      (.program c.addr (c.buf.take size), ⟨c.addr + size, c.buf.drop size, c.remain - size⟩) := by
  have hpage : 0 < cfg.pageSize := Nat.two_pow_pos _
  have hmod : c.addr % cfg.pageSize < cfg.pageSize := Nat.mod_lt _ hpage
  have hland : c.addr &&& (cfg.pageSize - 1) = c.addr % cfg.pageSize := land_pow_sub_one _ _
  refine ⟨_, ?_, ?_, ?_, rfl⟩ <;> simp only [hland] <;> split <;> split <;> omega

theorem next_spec (h : c.Good cfg kind) (hpos : 0 < c.remain) :
    let op := (kind.next cfg c).1
    let c' := (kind.next cfg c).2
    op.start = c.addr ∧ op.fin cfg = c'.addr ∧ c.addr < c'.addr ∧ c'.remain < c.remain ∧
      c'.addr + c'.remain = c.addr + c.remain ∧ c'.Good cfg kind ∧ op.Fits cfg := by
  cases kind with
  | erase =>
      obtain ⟨hchip, hdvd, hle, hunit⟩ := eraseType_spec h hpos
      have hsize : 0 < cfg.eraseSize _ := Config.eraseSize_pos hchip
      obtain ⟨hin, haddr, hremain⟩ := h
      refine ⟨rfl, rfl, Nat.lt_add_of_pos_right hsize, Nat.sub_lt hpos hsize, ?_, ⟨?_, ?_, ?_⟩, hdvd⟩
      · simp only [Kind.next, eraseNext]
        omega
      · simp only [Kind.next, eraseNext]
        omega
      · exact Nat.dvd_add haddr hunit
      · exact Nat.dvd_sub hremain hunit
  | program =>
      obtain ⟨size, hsize, hle, hpage, hnext⟩ := writeNext_eq cfg hpos
      obtain ⟨hin, hlen⟩ := h
      have htake : (c.buf.take size).length = size := by
        rw [List.length_take]
        omega
      simp only [Kind.next, hnext]
      refine ⟨rfl, congrArg (c.addr + ·) htake, by omega, by omega, by omega, ⟨?_, ?_⟩, ?_⟩
      · change c.addr + size + (c.remain - size) ≤ cfg.totalSize
        omega
      · change (c.buf.drop size).length = c.remain - size
        rw [List.length_drop, hlen]
      · change c.addr % cfg.pageSize + (c.buf.take size).length ≤ cfg.pageSize
        rw [htake]
        exact hpage

def opsOf (next : Cursor → FlashOp × Cursor) : Nat → Cursor → List FlashOp
  | 0, _ => []
  | n + 1, c => if c.remain = 0 then [] else (next c).1 :: opsOf next n (next c).2

def Cursor.ops (cfg : Config) (kind : Kind) (c : Cursor) : List FlashOp := opsOf (kind.next cfg) c.remain c

theorem opsOf_eq_ops (h : c.Good cfg kind) {n : Nat} (hn : c.remain ≤ n) :
    opsOf (kind.next cfg) n c = c.ops cfg kind := by
  suffices hsame : ∀ n m c, c.Good cfg kind → c.remain ≤ n → c.remain ≤ m →
      opsOf (kind.next cfg) n c = opsOf (kind.next cfg) m c from hsame n c.remain c h hn (Nat.le_refl _)
  intro n
  induction n with
  | zero =>
      intro m c _ hn _
      cases m with
      | zero => rfl
      | succ m => exact (if_pos (Nat.le_zero.mp hn)).symm
  | succ n ih =>
      intro m c hc hn hm
      cases m with
      | zero => exact if_pos (Nat.le_zero.mp hm)
      | succ m =>
          simp only [opsOf]
          split
          case isTrue => rfl
          case isFalse hpos =>
            obtain ⟨-, -, -, hless, -, hgood, -⟩ := next_spec hc (Nat.pos_of_ne_zero hpos)
            rw [ih m _ hgood (by omega) (by omega)]

theorem ops_of_zero (h : c.remain = 0) : c.ops cfg kind = [] := by
  rw [Cursor.ops, h]
  rfl

theorem ops_of_pos (h : c.Good cfg kind) (hpos : 0 < c.remain) :
    c.ops cfg kind = (kind.next cfg c).1 :: (kind.next cfg c).2.ops cfg kind := by
  obtain ⟨-, -, -, hless, -, hgood, -⟩ := next_spec h hpos
  obtain ⟨n, hn⟩ := Nat.exists_eq_add_of_lt hpos
  rw [Nat.zero_add] at hn
  rw [← opsOf_eq_ops hgood (n := n) (by omega), Cursor.ops, hn]
  exact if_neg (by omega)

theorem consecutive_ops (h : c.Good cfg kind) :
    Consecutive FlashOp.start (FlashOp.fin cfg) c.addr (c.addr + c.remain) (c.ops cfg kind) ∧
      ∀ op ∈ c.ops cfg kind, op.Fits cfg := by
  induction hremain : c.remain using Nat.strongRecOn generalizing c with
  | _ n ih =>
      rcases Nat.eq_zero_or_pos c.remain with hzero | hpos
      · rw [ops_of_zero hzero, ← hremain, hzero]
        exact ⟨rfl, fun op hop => absurd hop List.not_mem_nil⟩
      · obtain ⟨hstart, hfin, hlt, hless, hsum, hgood, hfits⟩ := next_spec h hpos
        obtain ⟨hrest, hall⟩ := ih _ (hremain ▸ hless) hgood rfl
        rw [ops_of_pos h hpos]
        rw [hsum, ← hfin, hremain] at hrest
        refine ⟨⟨hstart, hfin ▸ hlt, hrest⟩, fun op hop => ?_⟩
        rcases List.mem_cons.mp hop with rfl | hop
        · exact hfits
        · exact hall op hop

/-! ### Calls that are resumed -/

/-- The operations that are suspended: when they are resumed their errors are overlooked. -/
def Plan.overlooked (plan : Plan) (suspend : Bool) (k : Nat) : Bool := suspend && decide (0 < plan.suspensions k)

/-- From here the call, resumed where it breaks off, does the operations behind those done and returns the error
that was not overlooked. -/
def Finishes (cfg : Config) (plan : Plan) (suspend : Bool) (kind : Kind) (done : List (FlashOp × Option Nat))
    (ops : List FlashOp) (x : Ret × State) : Prop :=
  let result := perform plan.error (plan.overlooked suspend) done.length ops
  ∃ t : State, Ends .suspended (State.halNorflashResume cfg plan suspend kind) x (result.1.elim .ok .err, t) ∧
    t.completed = done ++ result.2 ∧ t.suspendState = .none

section Finishes

variable {suspend : Bool} {done : List (FlashOp × Option Nat)} {op : FlashOp} {ops : List FlashOp} {x : Ret × State}

theorem Finishes.later (h : Finishes cfg plan suspend kind done ops (s.halNorflashResume cfg plan suspend kind)) :
    Finishes cfg plan suspend kind done ops (.suspended, s) := by
  obtain ⟨t, hends, ht⟩ := h
  exact ⟨t, .later hends, ht⟩

theorem finishes_nil (hdone : t.completed = done) (hnone : t.suspendState = .none) :
    Finishes cfg plan suspend kind done [] (.ok, t) :=
  ⟨t, .here Ret.noConfusion, hdone.trans (List.append_nil _).symm, hnone⟩

theorem Finishes.cons (h : Finishes cfg plan suspend kind (done ++ [(op, plan.error done.length)]) ops x)
    (hpass : plan.error done.length = none ∨ plan.overlooked suspend done.length) :
    Finishes cfg plan suspend kind done (op :: ops) x := by
  have hgo : ((plan.error done.length).isNone || plan.overlooked suspend done.length) = true := by
    rcases hpass with hnone | hover
    · rw [hnone]
      rfl
    · rw [hover, Bool.or_true]
  obtain ⟨t, hends, hdone, hnone⟩ := h
  rw [List.length_append, List.length_singleton] at hends hdone
  rw [Finishes, perform, if_pos hgo]
  exact ⟨t, hends, by rw [hdone, List.append_assoc, List.singleton_append], hnone⟩

theorem finishes_fail {code : Nat} (herror : plan.error done.length = some code)
    (hover : plan.overlooked suspend done.length = false) (hdone : t.completed = done ++ [(op, some code)])
    (hnone : t.suspendState = .none) : Finishes cfg plan suspend kind done (op :: ops) (.err code, t) := by
  have hstop : ¬ ((plan.error done.length).isNone || plan.overlooked suspend done.length) = true := by
    rw [herror, hover]
    exact Bool.noConfusion
  rw [Finishes, perform, if_neg hstop, herror]
  exact ⟨t, .here Ret.noConfusion, hdone, hnone⟩

end Finishes

/-- Resuming where an operation could not begin, or where it is done and something is left, goes on from the
cursor. -/
theorem nextOp_eq (h : c.Good cfg kind) (hlt : c.addr < cfg.totalSize) (hnext : s.next = c) {suspend : Bool} :
    s.nextOp cfg plan suspend kind = State.work cfg plan suspend kind s c := by
  obtain ⟨hin, hkind⟩ := h
  have haddr : c.addr &&& (2 ^ cfg.addrBits - 1) = c.addr := by
    rw [land_pow_sub_one, Nat.mod_eq_of_lt (hlt.trans_le cfg.totalSize_le)]
  have hbad : ¬ cfg.totalSize ≤ c.addr := Nat.not_le.mpr hlt
  have hlen : ¬ cfg.totalSize - c.addr < c.remain := by omega
  cases kind with
  | erase =>
      obtain ⟨k, hk⟩ : ∃ k, cfg.eraseUnit = 2 ^ k := Config.eraseUnit_eq
      have hland (n : Nat) (hdvd : cfg.eraseUnit ∣ n) : n &&& (cfg.eraseUnit - 1) = 0 := by
        rw [hk] at hdvd ⊢
        rw [land_pow_sub_one, Nat.mod_eq_zero_of_dvd hdvd]
      have hrange : State.eraseRange cfg c.addr c.remain = (c.addr, c.remain) := by
        simp only [State.eraseRange, hland _ hkind.1, hland _ hkind.2, ne_eq, not_true_eq_false, if_false]
      simp only [State.nextOp, State.halNorflashEraseInt, hnext, haddr, if_neg hbad, if_neg hlen, hrange]
  | program =>
      simp only [State.nextOp, State.halNorflashWriteInt, hnext, haddr, if_neg hbad, if_neg hlen]

section Run

variable {suspend : Bool} {done : List (FlashOp × Option Nat)} {op : FlashOp} {ops : List FlashOp}

/-- A call that could not begin does when it is resumed often enough. -/
theorem work_finishes (hmode : suspend → cfg.opModeSuspend) (hgood : c.Good cfg kind) (hlt : c.addr < cfg.totalSize)
    (hoperate : ∀ s : State, s.completed = done →
      Finishes cfg plan suspend kind done ops (State.operate cfg plan suspend kind s c))
    (hdone : s.completed = done) :
    Finishes cfg plan suspend kind done ops (State.work cfg plan suspend kind s c) := by
  induction hleft : plan.cancels done.length - s.cancelled generalizing s with
  | zero =>
      have hbegin : ¬ (cfg.flashMemReadBusLock ∧ suspend ∧ s.cancelled < plan.cancels s.opNum) := by
        rw [State.opNum, hdone]
        omega
      simp only [State.work, State.preOperation, if_neg hbegin, Bool.false_eq_true, if_false]
      exact hoperate s hdone
  | succ left ih =>
      by_cases hskip : cfg.flashMemReadBusLock ∧ suspend ∧ s.cancelled < plan.cancels s.opNum
      · simp only [State.work, State.preOperation, if_pos hskip, if_true, State.leave]
        refine Finishes.later ?_
        have hmode := hmode hskip.2.1
        simp only [State.halNorflashResume, hmode, not_true_eq_false, if_false, hskip.1, true_and, if_true]
        rw [nextOp_eq hgood hlt rfl]
        exact ih hdone (by simp only; omega)
      · simp only [State.work, State.preOperation, if_neg hskip, Bool.false_eq_true, if_false]
        exact hoperate s hdone

theorem halNorflashResume_eq (hmode : cfg.opModeSuspend) (hstate : s.suspendState = .suspend kind) :
    s.halNorflashResume cfg plan suspend kind =
      let (ret, s) := s.norflashResume plan suspend
      if ret = .suspended then (ret, s)
      else if s.next.remain = 0 then (.ok, { s with suspendState := .none })
      else s.nextOp cfg plan suspend kind := by
  simp only [State.halNorflashResume, hmode, hstate, not_true_eq_false, if_false, reduceCtorEq, and_false, ne_eq]

/-- A suspended operation is done when it is resumed often enough, and then the call goes on with the rest. -/
theorem pending_finishes (hmode : suspend → cfg.opModeSuspend) (hgood : c.Good cfg kind) {left : Nat}
    (hover : plan.overlooked suspend done.length)
    (hrest : 0 < c.remain → ∀ s : State, s.completed = done ++ [(op, plan.error done.length)] →
      Finishes cfg plan suspend kind (done ++ [(op, plan.error done.length)]) (c.ops cfg kind)
        (State.work cfg plan suspend kind s c))
    (hpending : s.pending = some (op, left)) (hstate : s.suspendState = .suspend kind) (hnext : s.next = c)
    (hdone : s.completed = done) :
    Finishes cfg plan suspend kind done (op :: c.ops cfg kind) (.suspended, s) := by
  have hsuspend : suspend = true := (Bool.and_eq_true_iff.mp hover).1
  have hmode := hmode hsuspend
  induction left generalizing s with
  | zero =>
      refine Finishes.later (Finishes.cons ?_ (.inr hover))
      have hret : (plan.error s.opNum).elim Ret.ok .err ≠ .suspended := by
        cases plan.error s.opNum <;> exact Ret.noConfusion
      rw [halNorflashResume_eq hmode hstate]
      simp only [State.norflashResume, hpending, Nat.lt_irrefl, and_false, if_false, State.completeOp, if_neg hret,
        hnext]
      have hcompleted : s.completed ++ [(op, plan.error s.opNum)] = done ++ [(op, plan.error done.length)] := by
        rw [State.opNum, hdone]
      split
      case isTrue hzero =>
        rw [ops_of_zero hzero]
        exact finishes_nil hcompleted rfl
      case isFalse hmore =>
        have hpos := Nat.pos_of_ne_zero hmore
        have hlt : c.addr < cfg.totalSize := by
          have := hgood.1
          omega
        rw [nextOp_eq hgood hlt rfl]
        exact hrest hpos _ hcompleted
  | succ left ih =>
      refine Finishes.later ?_
      have hagain : s.halNorflashResume cfg plan suspend kind =
          (.suspended, { s with pending := some (op, left) }) := by
        rw [halNorflashResume_eq hmode hstate]
        simp only [State.norflashResume, hpending, hsuspend, Nat.zero_lt_succ, and_self, if_true,
          Nat.add_sub_cancel]
      rw [hagain]
      exact ih rfl hstate hnext hdone

/-- What becomes of the end of a loop. -/
def leaveLoop (kind : Kind) (x : Ret × State × Cursor) : Ret × State := State.leave kind false x.1 x.2.1 x.2.2

/-- The loop does the operations of what is left, resumed where they are suspended. -/
theorem loop_finishes (hmode : suspend → cfg.opModeSuspend) (hgood : c.Good cfg kind) {n : Nat} (hn : c.remain ≤ n)
    (hdone : s.completed = done) :
    Finishes cfg plan suspend kind done (c.ops cfg kind)
      (leaveLoop kind (State.loop plan suspend (kind.next cfg) n s c)) := by
  induction hremain : c.remain using Nat.strongRecOn generalizing c n s done with
  | _ m ih =>
      rcases Nat.eq_zero_or_pos c.remain with hzero | hpos
      · have hloop : State.loop plan suspend (kind.next cfg) n s c = (.ok, s, c) := by
          cases n with
          | zero => rfl
          | succ n => exact if_pos hzero
        rw [hloop, ops_of_zero hzero]
        exact finishes_nil hdone rfl
      obtain ⟨-, -, hlt, hless, -, hnext, -⟩ := next_spec hgood hpos
      obtain ⟨n, rfl⟩ : ∃ k, n = k + 1 := ⟨n - 1, by omega⟩
      rw [ops_of_pos hgood hpos]
      generalize hop : (kind.next cfg c).1 = op at *
      generalize hc : (kind.next cfg c).2 = c' at *
      have hloop : State.loop plan suspend (kind.next cfg) (n + 1) s c =
          if (s.norflashOp plan suspend op).1 = .ok then
            State.loop plan suspend (kind.next cfg) n (s.norflashOp plan suspend op).2 c'
          else ((s.norflashOp plan suspend op).1, (s.norflashOp plan suspend op).2, c') := by
        simp only [State.loop, if_neg (Nat.pos_iff_ne_zero.mp hpos), hop, hc]
      rw [hloop]
      cases hover : plan.overlooked suspend done.length with
      | true =>
          -- suspended: the call breaks off and is resumed
          have hbreak : suspend ∧ 0 < plan.suspensions s.opNum := by
            rw [State.opNum, hdone]
            exact (Bool.and_eq_true_iff.mp hover).imp_right of_decide_eq_true
          have hop : s.norflashOp plan suspend op =
            (.suspended, { s with pending := some (op, plan.suspensions s.opNum - 1) }) := if_pos hbreak
          rw [hop, if_neg Ret.noConfusion]
          refine pending_finishes hmode hnext hover (fun hmore s hdone => ?_) rfl rfl rfl hdone
          have hin : c'.addr < cfg.totalSize := by
            have := hnext.1
            omega
          refine work_finishes hmode hnext hin (fun s hdone => ?_) hdone
          have hchip : ¬ (kind = .erase ∧ c'.addr = 0 ∧ cfg.totalSize ≤ c'.remain) := by omega
          rw [State.operate, if_neg hchip]
          exact ih _ (hremain ▸ hless) hnext (Nat.le_refl _) hdone rfl
      | false =>
          -- done at once: the loop goes on unless it has failed
          have hgo : ¬ (suspend ∧ 0 < plan.suspensions s.opNum) := by
            rw [State.opNum, hdone]
            rintro ⟨hsuspend, hsome⟩
            rw [Plan.overlooked, hsuspend, decide_eq_true hsome] at hover
            cases hover
          have hop : s.norflashOp plan suspend op = s.completeOp plan op := if_neg hgo
          have hcompleted : (s.completeOp plan op).2.completed = done ++ [(op, plan.error done.length)] := by
            simp only [State.completeOp, State.opNum, hdone]
          rw [hop]
          cases herror : plan.error done.length with
          | none =>
              have hret : (s.completeOp plan op).1 = .ok := by
                rw [State.completeOp, State.opNum, hdone, herror]
                rfl
              rw [if_pos hret]
              exact Finishes.cons (ih _ (hremain ▸ hless) hnext (by omega) hcompleted rfl) (.inl herror)
          | some code =>
              have hret : (s.completeOp plan op).1 = .err code := by
                rw [State.completeOp, State.opNum, hdone, herror]
                rfl
              rw [herror] at hcompleted
              rw [hret, if_neg Ret.noConfusion]
              exact finishes_fail herror hover hcompleted rfl

theorem operate_finishes (hmode : suspend → cfg.opModeSuspend) (hgood : c.Good cfg kind) (hchip : ¬ c.IsChip cfg kind)
    (hdone : s.completed = done) :
    Finishes cfg plan suspend kind done (c.ops cfg kind) (State.operate cfg plan suspend kind s c) := by
  have hloop : ¬ (kind = .erase ∧ c.addr = 0 ∧ cfg.totalSize ≤ c.remain) := hchip
  rw [State.operate, if_neg hloop]
  exact loop_finishes hmode hgood (Nat.le_refl _) hdone

theorem operate_chip_finishes (hchip : c.IsChip cfg kind) (hover : plan.overlooked suspend done.length = false)
    (hdone : s.completed = done) :
    Finishes cfg plan suspend kind done [.erase .chip 0] (State.operate cfg plan suspend kind s c) := by
  have hgo : ¬ (suspend ∧ 0 < plan.suspensions s.opNum) := by
    rw [State.opNum, hdone]
    rintro ⟨hsuspend, hsome⟩
    rw [Plan.overlooked, hsuspend, decide_eq_true hsome] at hover
    cases hover
  have hop : s.norflashOp plan suspend (.erase .chip c.addr) = s.completeOp plan (.erase .chip 0) := by
    rw [hchip.2.1]
    exact if_neg hgo
  have hcompleted : (s.completeOp plan (.erase .chip 0)).2.completed =
      done ++ [(.erase .chip 0, plan.error done.length)] := by
    simp only [State.completeOp, State.opNum, hdone]
  have hwhole : kind = .erase ∧ c.addr = 0 ∧ cfg.totalSize ≤ c.remain := hchip
  rw [State.operate, if_pos hwhole]
  simp only [hop]
  cases herror : plan.error done.length with
  | none =>
      have hret : (s.completeOp plan (.erase .chip 0)).1 = .ok := by
        rw [State.completeOp, State.opNum, hdone, herror]
        rfl
      rw [State.leave, hret, if_neg Ret.noConfusion]
      exact Finishes.cons (finishes_nil hcompleted rfl) (.inl herror)
  | some code =>
      have hret : (s.completeOp plan (.erase .chip 0)).1 = .err code := by
        rw [State.completeOp, State.opNum, hdone, herror]
        rfl
      rw [herror] at hcompleted
      rw [State.leave, hret, if_neg Ret.noConfusion]
      exact finishes_fail herror hover hcompleted rfl

end Run

end Best1307.Norflash
