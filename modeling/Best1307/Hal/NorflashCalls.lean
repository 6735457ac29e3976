import Best1307.Hal.NorflashSuspend

/-!
# Suspended and plain calls alike

A call that is suspended and resumed does the operations of the plain call with its result exactly if no operation
that was suspended is the first one to fail, and the whole chip is erased without being suspended.
-/

namespace Best1307.Norflash

open Pieces

inductive Call
  | erase (startAddress len : Nat)
  | write (startAddress : Nat) (buffer : List UInt8)
  deriving DecidableEq, Repr

namespace Call

variable (cfg : Config) (plan : Plan)

def kind : Call → Kind
  | erase .. => .erase
  | write .. => .program

def issue (suspend : Bool) (s : State) : Call → Ret × State
  | erase startAddress len => s.halNorflashEraseSuspend cfg plan suspend startAddress len
  | write startAddress buffer => s.halNorflashWriteSuspend cfg plan suspend startAddress buffer

/-- The address on the chip. -/
def addr : Call → Nat
  | erase startAddress _ => startAddress % 2 ^ cfg.addrBits
  | write startAddress _ => startAddress % 2 ^ cfg.addrBits

def len : Call → Nat
  | erase _ len => len
  | write _ buffer => buffer.length

def Accepted (call : Call) : Prop := call.addr cfg < cfg.totalSize ∧ call.addr cfg + call.len ≤ cfg.totalSize

/-- The range that is worked on, an erase extended to whole units. -/
def range : Call → Nat × Nat
  | erase startAddress len =>
      (startAddress % 2 ^ cfg.addrBits / cfg.eraseUnit * cfg.eraseUnit,
        (startAddress % 2 ^ cfg.addrBits + len + (cfg.eraseUnit - 1)) / cfg.eraseUnit * cfg.eraseUnit)
  | write startAddress buffer =>
      (startAddress % 2 ^ cfg.addrBits, startAddress % 2 ^ cfg.addrBits + buffer.length)

def effect (call : Call) (a : Nat) (cell : UInt8) : UInt8 :=
  match call with
  | erase .. => 0xFF
  | write _ buffer => cell &&& buffer[a - call.addr cfg]!

def buf (s : State) : Call → List UInt8
  | erase .. => s.next.buf
  | write _ buffer => buffer

/-- Where the call begins. -/
def cursor (s : State) (call : Call) : Cursor :=
  ⟨(call.range cfg).1, call.buf s, (call.range cfg).2 - (call.range cfg).1⟩

/-- The operations of the call: the whole chip at once, or those of the range. -/
def ops (s : State) (call : Call) : List FlashOp :=
  if (call.cursor cfg s).IsChip cfg call.kind then [.erase .chip 0] else (call.cursor cfg s).ops cfg call.kind

end Call

variable {cfg : Config} {plan : Plan} {call : Call} {kind : Kind} {c : Cursor} {s : State}

/-! ### The range of a call -/

theorem roundUp_eq (n : Nat) {unit : Nat} (h : 0 < unit) :
    (n + (unit - 1)) / unit * unit = if n % unit ≠ 0 then n + (unit - n % unit) else n := by
  have hmod := Nat.mod_lt n h
  have hdiv := Nat.div_add_mod' n unit
  split
  case isTrue hover =>
    have hsplit : n + (unit - 1) = n % unit - 1 + (n / unit + 1) * unit := by
      rw [Nat.succ_mul]
      omega
    rw [hsplit, Nat.add_mul_div_right _ _ h, Nat.div_eq_of_lt (by omega), Nat.zero_add, Nat.succ_mul]
    omega
  case isFalse hzero =>
    have hsplit : n + (unit - 1) = unit - 1 + n / unit * unit := by omega
    rw [hsplit, Nat.add_mul_div_right _ _ h, Nat.div_eq_of_lt (by omega), Nat.zero_add]
    omega

theorem eraseRange_eq (addr len : Nat) :
    State.eraseRange cfg addr len = (addr / cfg.eraseUnit * cfg.eraseUnit,
      (addr + len + (cfg.eraseUnit - 1)) / cfg.eraseUnit * cfg.eraseUnit - addr / cfg.eraseUnit * cfg.eraseUnit) := by
  obtain ⟨k, hk⟩ : ∃ k, cfg.eraseUnit = 2 ^ k := Config.eraseUnit_eq
  have hunit : 0 < cfg.eraseUnit := hk ▸ Nat.two_pow_pos k
  have hland (n : Nat) : n &&& (cfg.eraseUnit - 1) = n % cfg.eraseUnit := by
    rw [hk, land_pow_sub_one]
  have haddr := Nat.div_add_mod' addr cfg.eraseUnit
  have hsplit : addr + len + (cfg.eraseUnit - 1) =
      len + addr % cfg.eraseUnit + (cfg.eraseUnit - 1) + addr / cfg.eraseUnit * cfg.eraseUnit := by omega
  have hup : (addr + len + (cfg.eraseUnit - 1)) / cfg.eraseUnit * cfg.eraseUnit =
      (len + addr % cfg.eraseUnit + (cfg.eraseUnit - 1)) / cfg.eraseUnit * cfg.eraseUnit +
        addr / cfg.eraseUnit * cfg.eraseUnit := by
    rw [hsplit, Nat.add_mul_div_right _ _ hunit, Nat.add_mul]
  rw [hup, Nat.add_sub_cancel, roundUp_eq _ hunit]
  simp only [State.eraseRange, hland]
  by_cases hbefore : addr % cfg.eraseUnit = 0
  · rw [if_neg (not_not_intro hbefore), hbefore, Nat.add_zero]
    exact Prod.ext (by simp only; omega) rfl
  · rw [if_pos hbefore]
    exact Prod.ext (by simp only; omega) rfl

theorem eraseUnit_pos : 0 < cfg.eraseUnit := by
  obtain ⟨k, hk⟩ : ∃ k, cfg.eraseUnit = 2 ^ k := Config.eraseUnit_eq
  exact hk ▸ Nat.two_pow_pos k

namespace Call

theorem range_le (h : call.Accepted cfg) :
    (call.range cfg).1 ≤ call.addr cfg ∧ call.addr cfg + call.len ≤ (call.range cfg).2 ∧
      (call.range cfg).2 ≤ cfg.totalSize := by
  obtain ⟨hlt, hlen⟩ := h
  have hunit : 0 < cfg.eraseUnit := eraseUnit_pos
  cases call with
  | write startAddress buffer => exact ⟨Nat.le_refl _, Nat.le_refl _, hlen⟩
  | erase startAddress len =>
      refine ⟨Nat.div_mul_le_self _ _, ?_, ?_⟩
      · simp only [range, roundUp_eq _ hunit, addr, Call.len]
        split <;> omega
      · -- the chip ends where a unit does
        obtain ⟨n, hn⟩ : cfg.eraseUnit ∣ cfg.totalSize := Config.eraseUnit_dvd_totalSize
        have hle : startAddress % 2 ^ cfg.addrBits + len ≤ n * cfg.eraseUnit := by
          rw [Nat.mul_comm, ← hn]
          exact hlen
        rw [hn, Nat.mul_comm cfg.eraseUnit n]
        refine Nat.mul_le_mul_right _ (Nat.lt_succ_iff.mp ((Nat.div_lt_iff_lt_mul hunit).mpr ?_))
        rw [Nat.succ_mul]
        omega

theorem cursor_good (h : call.Accepted cfg) : (call.cursor cfg s).Good cfg call.kind := by
  obtain ⟨hlo, hhi, hin⟩ := range_le h
  refine ⟨?_, ?_⟩
  · change (call.range cfg).1 + ((call.range cfg).2 - (call.range cfg).1) ≤ cfg.totalSize
    omega
  · cases call with
    | erase startAddress len =>
        exact ⟨Nat.dvd_mul_left _ _, Nat.dvd_sub (Nat.dvd_mul_left _ _) (Nat.dvd_mul_left _ _)⟩
    | write startAddress buffer => exact (Nat.add_sub_cancel_left _ _).symm

theorem cursor_lt (h : call.Accepted cfg) : (call.cursor cfg s).addr < cfg.totalSize :=
  Nat.lt_of_le_of_lt (range_le h).1 h.1

theorem issue_eq (h : call.Accepted cfg) (hidle : s.suspendState = .none) (suspend : Bool) :
    call.issue cfg plan suspend s =
      State.work cfg plan (cfg.opModeSuspend && suspend) call.kind s (call.cursor cfg s) := by
  obtain ⟨hlt, hlen⟩ := h
  cases call with
  | erase startAddress len =>
      have haddr : ¬ cfg.totalSize ≤ startAddress % 2 ^ cfg.addrBits := Nat.not_le.mpr hlt
      have hin : ¬ cfg.totalSize - startAddress % 2 ^ cfg.addrBits < len := by
        have : startAddress % 2 ^ cfg.addrBits + len ≤ cfg.totalSize := hlen
        omega
      simp only [issue, State.halNorflashEraseSuspend, hidle, ne_eq, not_true_eq_false, if_false,
        State.halNorflashEraseInt, land_pow_sub_one, if_neg haddr, if_neg hin, eraseRange_eq]
      rfl
  | write startAddress buffer =>
      have haddr : ¬ cfg.totalSize ≤ startAddress % 2 ^ cfg.addrBits := Nat.not_le.mpr hlt
      have hin : ¬ cfg.totalSize - startAddress % 2 ^ cfg.addrBits < buffer.length := by
        have : startAddress % 2 ^ cfg.addrBits + buffer.length ≤ cfg.totalSize := hlen
        omega
      simp only [issue, State.halNorflashWriteSuspend, hidle, ne_eq, not_true_eq_false, if_false,
        State.halNorflashWriteInt, land_pow_sub_one, if_neg haddr, if_neg hin, kind, cursor, range, buf,
        Nat.add_sub_cancel_left]

end Call

/-! ### What the operations do -/

theorem erase_ops (h : c.Good cfg .erase) : ∀ op ∈ c.ops cfg .erase, ∃ type addr, op = .erase type addr := by
  induction hremain : c.remain using Nat.strongRecOn generalizing c with
  | _ n ih =>
      intro op hop
      rcases Nat.eq_zero_or_pos c.remain with hzero | hpos
      · rw [ops_of_zero hzero] at hop
        cases hop
      · obtain ⟨-, -, -, hless, -, hgood, -⟩ := next_spec h hpos
        rw [ops_of_pos h hpos] at hop
        rcases List.mem_cons.mp hop with rfl | hop
        · exact ⟨_, _, rfl⟩
        · exact ih _ (hremain ▸ hless) hgood rfl op hop

theorem program_ops (h : c.Good cfg .program) : ∀ op ∈ c.ops cfg .program, ∃ k size,
    k + size ≤ c.remain ∧ op = .program (c.addr + k) ((c.buf.drop k).take size) := by
  induction hremain : c.remain using Nat.strongRecOn generalizing c with
  | _ n ih =>
      intro op hop
      rcases Nat.eq_zero_or_pos c.remain with hzero | hpos
      · rw [ops_of_zero hzero] at hop
        cases hop
      · obtain ⟨-, -, -, hless, -, hgood, -⟩ := next_spec h hpos
        obtain ⟨size, hsize, hle, -, hnext⟩ := writeNext_eq cfg hpos
        rw [ops_of_pos h hpos] at hop
        simp only [Kind.next, hnext] at hop hless hgood
        rcases List.mem_cons.mp hop with rfl | hop
        · exact ⟨0, size, by omega, rfl⟩
        · obtain ⟨k, length, hk, hop⟩ := ih _ (hremain ▸ hless) hgood rfl op hop
          refine ⟨size + k, length, ?_, ?_⟩
          · simp only at hk
            omega
          · rw [hop, List.drop_drop, Nat.add_assoc]

theorem program_apply {buffer : List UInt8} {base k size : Nat} (h : k + size ≤ buffer.length) (cells : Nat → UInt8)
    (a : Nat) :
    let op := FlashOp.program (base + k) ((buffer.drop k).take size)
    op.apply cfg cells a = if op.start ≤ a ∧ a < op.fin cfg then cells a &&& buffer[a - base]! else cells a := by
  simp only [FlashOp.apply, FlashOp.start, FlashOp.fin, List.length_take, List.length_drop]
  by_cases hlo : base + k ≤ a
  · by_cases hhi : a - (base + k) < size
    · have hindex : k + (a - (base + k)) = a - base := by omega
      have hbound : a - base < buffer.length := by omega
      rw [if_pos hlo, if_pos (by omega), List.getElem?_take_of_lt hhi, List.getElem?_drop, hindex,
        List.getElem?_eq_getElem hbound, getElem!_pos buffer _ hbound]
      rfl
    · rw [if_pos hlo, if_neg (by omega),
        List.getElem?_eq_none (by rw [List.length_take, List.length_drop]; omega)]
      rfl
  · rw [if_neg hlo, if_neg (by omega)]

namespace Call

theorem ops_consecutive (h : call.Accepted cfg) :
    Consecutive FlashOp.start (FlashOp.fin cfg) (call.range cfg).1 (call.range cfg).2 (call.ops cfg s) ∧
      ∀ op ∈ call.ops cfg s, op.Fits cfg := by
  obtain ⟨hlo, hhi, hin⟩ := range_le h
  have hend : (call.cursor cfg s).addr + (call.cursor cfg s).remain = (call.range cfg).2 :=
    Nat.add_sub_cancel' (hlo.trans ((Nat.le_add_right _ _).trans hhi))
  rw [ops]
  split
  case isTrue hchip =>
    obtain ⟨-, haddr, hwhole⟩ := hchip
    have hlo : (call.range cfg).1 = 0 := haddr
    have hhi : (call.range cfg).2 = cfg.totalSize := by omega
    have hpos : 0 < cfg.totalSize := Nat.lt_of_le_of_lt (Nat.zero_le _) h.1
    have hfin : FlashOp.fin cfg (.erase .chip 0) = cfg.totalSize := Nat.zero_add _
    rw [hlo, hhi]
    refine ⟨⟨rfl, hfin ▸ hpos, hfin⟩, fun op hop => ?_⟩
    rw [List.mem_singleton.mp hop]
    exact Nat.dvd_zero _
  case isFalse =>
    rw [← hend]
    exact consecutive_ops (cursor_good h)

theorem ops_apply (h : call.Accepted cfg) : ∀ op ∈ call.ops cfg s, ∀ cells a, FlashOp.apply cfg cells op a =
    if op.start ≤ a ∧ a < op.fin cfg then call.effect cfg a (cells a) else cells a := by
  intro op hop cells a
  cases call with
  | erase startAddress len =>
      have herase : ∃ type addr, op = .erase type addr := by
        rw [ops] at hop
        split at hop
        case isTrue => exact ⟨_, _, List.mem_singleton.mp hop⟩
        case isFalse => exact erase_ops (cursor_good h) op hop
      obtain ⟨type, addr, rfl⟩ := herase
      rfl
  | write startAddress buffer =>
      have hprogram : ¬ (cursor cfg s (write startAddress buffer)).IsChip cfg .program := by
        rintro ⟨hkind, -⟩
        cases hkind
      rw [ops, kind, if_neg hprogram] at hop
      obtain ⟨k, size, hk, rfl⟩ := program_ops (cursor_good h) op hop
      have hremain : (cursor cfg s (write startAddress buffer)).remain = buffer.length :=
        Nat.add_sub_cancel_left _ _
      rw [hremain] at hk
      exact program_apply hk cells a

end Call

/-! ### Calls that break off -/

theorem work_plain : (State.work cfg plan false kind s c).1 ≠ .suspended := by
  have hbegin : ¬ (cfg.flashMemReadBusLock ∧ false = true ∧ s.cancelled < plan.cancels s.opNum) := by
    rintro ⟨-, hfalse, -⟩
    cases hfalse
  have hop (s : State) (op : FlashOp) : (s.norflashOp plan false op).1 ≠ .suspended := by
    have hgo : ¬ (false = true ∧ 0 < plan.suspensions s.opNum) := by
      rintro ⟨hfalse, -⟩
      cases hfalse
    rw [State.norflashOp, if_neg hgo, State.completeOp]
    cases plan.error s.opNum <;> exact Ret.noConfusion
  have hleave (ret : Ret) (s : State) (c : Cursor) : (State.leave kind false ret s c).1 = ret := by
    rw [State.leave]
    split <;> rfl
  have hloop (n : Nat) (s : State) (c : Cursor) : (State.loop plan false (kind.next cfg) n s c).1 ≠ .suspended := by
    induction n generalizing s c with
    | zero => exact Ret.noConfusion
    | succ n ih =>
        rw [State.loop]
        split
        · exact Ret.noConfusion
        · simp only
          split
          · exact ih _ _
          · exact hop s (kind.next cfg c).1
  have hbefore : s.preOperation cfg plan false = (false, s) := if_neg hbegin
  have hwork : State.work cfg plan false kind s c = State.operate cfg plan false kind s c := by
    rw [State.work, hbefore]
    rfl
  rw [hwork, State.operate]
  split
  · rw [hleave]
    exact hop s _
  · rw [hleave]
    exact hloop _ _ _

/-- Broken off, the flash is held for the kind of the call. -/
def BrokenOff (kind : Kind) (x : Ret × State) : Prop :=
  x.1 = .suspended → x.2.suspendState = .cancel kind ∨ x.2.suspendState = .suspend kind

theorem leave_brokenOff (skipModeChange : Bool) (ret : Ret) :
    BrokenOff kind (State.leave kind skipModeChange ret s c) := by
  intro hret
  rw [State.leave] at hret ⊢
  split
  case isTrue =>
    cases skipModeChange with
    | true => exact .inl rfl
    | false => exact .inr rfl
  case isFalse hends =>
    rw [if_neg hends] at hret
    exact absurd hret hends

theorem work_brokenOff {suspend : Bool} : BrokenOff kind (State.work cfg plan suspend kind s c) := by
  rw [State.work]
  simp only
  split
  · exact leave_brokenOff _ _
  · rw [State.operate]
    split
    · exact leave_brokenOff _ _
    · exact leave_brokenOff _ _

theorem nextOp_brokenOff {suspend : Bool} : BrokenOff kind (s.nextOp cfg plan suspend kind) := by
  cases kind with
  | erase =>
      simp only [State.nextOp, State.halNorflashEraseInt]
      split
      · exact Ret.noConfusion
      · split
        · exact Ret.noConfusion
        · exact work_brokenOff
  | program =>
      simp only [State.nextOp, State.halNorflashWriteInt]
      split
      · exact Ret.noConfusion
      · split
        · exact Ret.noConfusion
        · exact work_brokenOff

theorem halNorflashResume_brokenOff {suspend : Bool} :
    BrokenOff kind (s.halNorflashResume cfg plan suspend kind) := by
  rw [State.halNorflashResume]
  by_cases hmode : ¬ cfg.opModeSuspend
  · rw [if_pos hmode]
    exact Ret.noConfusion
  rw [if_neg hmode]
  by_cases hcancel : cfg.flashMemReadBusLock ∧ s.suspendState = .cancel kind
  · rw [if_pos hcancel]
    exact nextOp_brokenOff
  rw [if_neg hcancel]
  by_cases hsuspend : s.suspendState ≠ .suspend kind
  · rw [if_pos hsuspend]
    exact Ret.noConfusion
  rw [if_neg hsuspend]
  have hstate : s.suspendState = .suspend kind := not_not.mp hsuspend
  have hkeeps : (s.norflashResume plan suspend).2.suspendState = .suspend kind := by
    rw [State.norflashResume]
    cases s.pending with
    | none => exact hstate
    | some pending =>
        simp only
        split
        · exact hstate
        · exact hstate
  simp only
  split
  · exact fun _ => .inr hkeeps
  · split
    · exact Ret.noConfusion
    · exact nextOp_brokenOff

/-! ### The whole chip -/

/-- The chip is held for an erase of the whole of it, which could not begin or was suspended. -/
structure State.HoldsChip (cfg : Config) (done : List (FlashOp × Option Nat)) (s : State) : Prop where
  addr_eq : s.next.addr = 0
  remain_eq : s.next.remain = cfg.totalSize
  state_eq :
    (cfg.flashMemReadBusLock ∧ s.suspendState = .cancel .erase ∧
      (s.completed = done ∨ done.length < s.completed.length)) ∨
    (s.suspendState = .suspend .erase ∧ (∃ op left, s.pending = some (op, left)) ∧ done.length ≤ s.completed.length)

/-- The chip is held, or was erased more than once. -/
def ErasesAgain (cfg : Config) (done : List (FlashOp × Option Nat)) (x : Ret × State) : Prop :=
  (x.1 = .suspended → x.2.HoldsChip cfg done) ∧ (x.1 ≠ .suspended → done.length + 2 ≤ x.2.completed.length)

section Chip

variable {done : List (FlashOp × Option Nat)}

theorem elim_not_suspended (error : Option Nat) : error.elim Ret.ok .err ≠ .suspended := by
  cases error <;> exact Ret.noConfusion

theorem completeOp_not_suspended (op : FlashOp) : (s.completeOp plan op).1 ≠ .suspended := elim_not_suspended _

theorem work_erasesAgain (hover : 0 < plan.suspensions done.length) (haddr : c.addr = 0)
    (hremain : c.remain = cfg.totalSize) (hdone : s.completed = done ∨ done.length < s.completed.length) :
    ErasesAgain cfg done (State.work cfg plan true .erase s c) := by
  by_cases hskip : cfg.flashMemReadBusLock ∧ true = true ∧ s.cancelled < plan.cancels s.opNum
  · have hbefore : s.preOperation cfg plan true = (true, { s with cancelled := s.cancelled + 1 }) := if_pos hskip
    rw [State.work, hbefore]
    exact ⟨fun _ => ⟨haddr, hremain, .inl ⟨hskip.1, rfl, hdone⟩⟩, fun hends => absurd rfl hends⟩
  have hbefore : s.preOperation cfg plan true = (false, s) := if_neg hskip
  have hchip : Kind.erase = .erase ∧ c.addr = 0 ∧ cfg.totalSize ≤ c.remain :=
    ⟨rfl, haddr, Nat.le_of_eq hremain.symm⟩
  have hwork : State.work cfg plan true .erase s c =
      State.leave .erase false (s.norflashOp plan true (.erase .chip c.addr)).1
        (s.norflashOp plan true (.erase .chip c.addr)).2 c := by
    rw [State.work, hbefore]
    exact if_pos hchip
  rw [hwork]
  by_cases hbreak : true = true ∧ 0 < plan.suspensions s.opNum
  · have hop : s.norflashOp plan true (.erase .chip c.addr) =
        (.suspended, { s with pending := some (.erase .chip c.addr, plan.suspensions s.opNum - 1) }) := if_pos hbreak
    have hle : done.length ≤ s.completed.length := hdone.elim (fun h => h ▸ Nat.le_refl _) Nat.le_of_lt
    rw [hop]
    exact ⟨fun _ => ⟨haddr, hremain, .inr ⟨rfl, ⟨_, _, rfl⟩, hle⟩⟩, fun hends => absurd rfl hends⟩
  · -- the first time it is suspended
    have hlt : done.length < s.completed.length := by
      refine hdone.resolve_left fun hfirst => hbreak ⟨rfl, ?_⟩
      rw [State.opNum, hfirst]
      exact hover
    have hop : s.norflashOp plan true (.erase .chip c.addr) = s.completeOp plan (.erase .chip c.addr) := if_neg hbreak
    rw [hop, State.leave, if_neg (completeOp_not_suspended _)]
    refine ⟨fun hret => absurd hret (completeOp_not_suspended (.erase .chip c.addr)), fun _ => ?_⟩
    simp only [State.completeOp, List.length_append, List.length_singleton]
    omega

theorem resume_erasesAgain (hmode : cfg.opModeSuspend) (hover : 0 < plan.suspensions done.length)
    (hpos : 0 < cfg.totalSize) (h : s.HoldsChip cfg done) :
    ErasesAgain cfg done (s.halNorflashResume cfg plan true .erase) := by
  obtain ⟨haddr, hremain, hstate⟩ := h
  have hnext {s : State} (haddr : s.next.addr = 0) (hremain : s.next.remain = cfg.totalSize)
      (hdone : s.completed = done ∨ done.length < s.completed.length) :
      ErasesAgain cfg done (s.nextOp cfg plan true .erase) := by
    have hgood : s.next.Good cfg .erase := by
      refine ⟨by omega, ?_, ?_⟩
      · rw [haddr]
        exact Nat.dvd_zero _
      · rw [hremain]
        exact Config.eraseUnit_dvd_totalSize
    rw [nextOp_eq hgood (haddr ▸ hpos) rfl]
    exact work_erasesAgain hover haddr hremain hdone
  rcases hstate with ⟨hlock, hcancel, hdone⟩ | ⟨hsuspend, ⟨op, left, hpending⟩, hle⟩
  · have hresume : s.halNorflashResume cfg plan true .erase = s.nextOp cfg plan true .erase := by
      simp only [State.halNorflashResume, hmode, not_true_eq_false, if_false, hlock, hcancel, and_self, if_true]
    rw [hresume]
    exact hnext haddr hremain hdone
  · rw [halNorflashResume_eq hmode hsuspend]
    by_cases hbreak : true = true ∧ 0 < left
    · have hagain : s.norflashResume plan true = (.suspended, { s with pending := some (op, left - 1) }) := by
        rw [State.norflashResume, hpending]
        exact if_pos hbreak
      rw [hagain]
      exact ⟨fun _ => ⟨haddr, hremain, .inr ⟨hsuspend, ⟨_, _, rfl⟩, hle⟩⟩, fun hends => absurd rfl hends⟩
    · -- the chip is erased, but nothing was counted
      have hdone : s.norflashResume plan true = s.completeOp plan op := by
        rw [State.norflashResume, hpending]
        exact if_neg hbreak
      have hmore : ¬ (s.completeOp plan op).2.next.remain = 0 := by
        change ¬ s.next.remain = 0
        omega
      rw [hdone]
      simp only [if_neg (completeOp_not_suspended op), if_neg hmore]
      refine hnext haddr hremain (.inr ?_)
      simp only [State.completeOp, List.length_append, List.length_singleton]
      omega

end Chip

/-! ### Suspended and plain calls -/

/-- The operations done, with their results, are those a call that returned so has to do. -/
structure Call.DoneBy (cfg : Config) (call : Call) (ret : Ret) (results : List (FlashOp × Option Nat)) : Prop where
  once : ∃ mid ≤ (call.range cfg).2,
    Consecutive FlashOp.start (FlashOp.fin cfg) (call.range cfg).1 mid (results.map Prod.fst)
  fits : ∀ op ∈ results.map Prod.fst, op.Fits cfg
  returned : ∀ op code, (op, some code) ∈ results → ret = .err code
  whole : ret = .ok →
    Consecutive FlashOp.start (FlashOp.fin cfg) (call.range cfg).1 (call.range cfg).2 (results.map Prod.fst) ∧
    ∀ cells a, (results.map Prod.fst).foldl (FlashOp.apply cfg) cells a =
      if (call.range cfg).1 ≤ a ∧ a < (call.range cfg).2 then call.effect cfg a (cells a) else cells a

/-- The call, resumed wherever it breaks off, does what it does when it is not to be suspended, and nothing else is
begun before it ends. -/
structure Call.Complies (cfg : Config) (plan : Plan) (s : State) (call : Call) : Prop where
  same : ∃ t : State,
    Ends .suspended (State.halNorflashResume cfg plan true call.kind) (call.issue cfg plan true s)
      ((call.issue cfg plan false s).1, t) ∧
    t.completed = (call.issue cfg plan false s).2.completed ∧ t.suspendState = .none
  plain : ∃ results, (call.issue cfg plan false s).2.completed = s.completed ++ results ∧
    call.DoneBy cfg (call.issue cfg plan false s).1 results
  refused : ∀ t, BreaksAt .suspended (State.halNorflashResume cfg plan true call.kind) (call.issue cfg plan true s) t →
    ∀ (other : Call) (suspend : Bool), other.issue cfg plan suspend t = (.badOp, t) ∧
      (other.kind ≠ call.kind → t.halNorflashResume cfg plan suspend other.kind = (.badOp, t))

theorem elim_inj {error error' : Option Nat} (h : error.elim Ret.ok .err = error'.elim .ok .err) : error = error' := by
  cases error <;> cases error' <;> cases h <;> rfl

namespace Call

/-- The operations of the call are done, if it is not the whole chip that is suspended. -/
theorem issue_finishes (plan : Plan) (h : call.Accepted cfg) (hidle : s.suspendState = .none) (suspend : Bool)
    (hchip : (call.cursor cfg s).IsChip cfg call.kind →
      plan.overlooked (cfg.opModeSuspend && suspend) s.opNum = false) :
    Finishes cfg plan (cfg.opModeSuspend && suspend) call.kind s.completed (call.ops cfg s)
      (call.issue cfg plan suspend s) := by
  have hmode : cfg.opModeSuspend && suspend → cfg.opModeSuspend := fun h => (Bool.and_eq_true_iff.mp h).1
  rw [issue_eq h hidle]
  refine work_finishes hmode (cursor_good h) (cursor_lt h) (fun t hdone => ?_) rfl
  rw [ops]
  split
  case isTrue hwhole => exact operate_chip_finishes hwhole (hchip hwhole) hdone
  case isFalse hpart => exact operate_finishes hmode (cursor_good h) hpart hdone

/-- The plain call returns the error of the first operation that fails. -/
theorem issue_plain (plan : Plan) (h : call.Accepted cfg) (hidle : s.suspendState = .none) :
    let result := perform plan.error (fun _ => false) s.opNum (call.ops cfg s)
    (call.issue cfg plan false s).1 = result.1.elim .ok .err ∧
      (call.issue cfg plan false s).2.completed = s.completed ++ result.2 ∧
      (call.issue cfg plan false s).2.suspendState = .none := by
  have hfalse : (cfg.opModeSuspend && false) = false := Bool.and_false _
  obtain ⟨t, hends, hdone, hnone⟩ := issue_finishes plan h hidle false fun _ => by rw [hfalse]; rfl
  have hplain : (call.issue cfg plan false s).1 ≠ .suspended := by
    rw [issue_eq h hidle, hfalse]
    exact work_plain
  rw [hfalse] at hends hdone
  have hsame := hends.unique (.here hplain)
  rw [← hsame]
  exact ⟨rfl, hdone, hnone⟩

theorem doneBy_plain (h : call.Accepted cfg) :
    let result := perform plan.error (fun _ => false) s.opNum (call.ops cfg s)
    call.DoneBy cfg (result.1.elim .ok .err) result.2 := by
  obtain ⟨hpieces, hfits⟩ := ops_consecutive (s := s) h
  obtain ⟨n, hn⟩ := perform_prefix plan.error (fun _ => false) s.opNum (call.ops cfg s)
  refine ⟨?_, ?_, ?_, ?_⟩
  · rw [hn]
    exact hpieces.take n
  · rw [hn]
    exact fun op hop => hfits op (List.mem_of_mem_take hop)
  · intro op code hop
    rw [perform_returns hop]
    rfl
  · intro hok
    have hnone : (perform plan.error (fun _ => false) s.opNum (call.ops cfg s)).1 = none := by
      cases herror : (perform plan.error (fun _ => false) s.opNum (call.ops cfg s)).1 with
      | none => rfl
      | some code =>
          rw [herror] at hok
          cases hok
    have hall : (perform plan.error (fun _ => false) s.opNum (call.ops cfg s)).2.map Prod.fst = call.ops cfg s := by
      rw [perform_eq_none hnone, List.map_map]
      exact List.map_id _
    rw [hall]
    exact ⟨hpieces, fun cells a => hpieces.foldl_apply (ops_apply h) cells a⟩

theorem refused_of_breaksAt (plan : Plan) (h : call.Accepted cfg) (hidle : s.suspendState = .none) {t : State}
    (ht : BreaksAt .suspended (State.halNorflashResume cfg plan true call.kind) (call.issue cfg plan true s) t)
    (other : Call) (suspend : Bool) : other.issue cfg plan suspend t = (.badOp, t) ∧
      (other.kind ≠ call.kind → t.halNorflashResume cfg plan suspend other.kind = (.badOp, t)) := by
  have hfirst : BrokenOff call.kind (call.issue cfg plan true s) := by
    rw [issue_eq h hidle]
    exact work_brokenOff
  have hstate : t.suspendState = .cancel call.kind ∨ t.suspendState = .suspend call.kind :=
    ht.invariant (P := BrokenOff call.kind) hfirst (fun s _ => halNorflashResume_brokenOff) rfl
  have hbusy : t.suspendState ≠ .none := by
    rintro hnone
    rw [hnone] at hstate
    rcases hstate with hcancel | hsuspend
    · cases hcancel
    · cases hsuspend
  constructor
  · cases other with
    | erase startAddress len => exact if_pos hbusy
    | write startAddress buffer => exact if_pos hbusy
  · intro hother
    have hcancel : ¬ (cfg.flashMemReadBusLock ∧ t.suspendState = .cancel other.kind) := by
      rintro ⟨-, heq⟩
      rw [heq] at hstate
      rcases hstate with hcancel | hsuspend
      · exact hother (SuspendState.cancel.inj hcancel)
      · cases hsuspend
    have hsuspend : t.suspendState ≠ .suspend other.kind := by
      intro heq
      rw [heq] at hstate
      rcases hstate with hcancel | hsuspend
      · cases hcancel
      · exact hother (SuspendState.suspend.inj hsuspend)
    rw [State.halNorflashResume, if_neg hcancel, if_pos hsuspend]
    exact ite_self _

/-- A suspended erase of the whole chip erases it more than once. -/
theorem twice_of_chip (h : call.Accepted cfg) (hidle : s.suspendState = .none) (hmode : cfg.opModeSuspend)
    (hchip : (call.cursor cfg s).IsChip cfg call.kind) (hover : 0 < plan.suspensions s.opNum) {x : Ret × State}
    (hends : Ends .suspended (State.halNorflashResume cfg plan true call.kind) (call.issue cfg plan true s) x) :
    s.completed.length + 2 ≤ x.2.completed.length := by
  obtain ⟨hkind, haddr, hwhole⟩ := hchip
  have hremain : (call.cursor cfg s).remain = cfg.totalSize := by
    have hin := (cursor_good (s := s) h).1
    omega
  have hpos : 0 < cfg.totalSize := Nat.lt_of_le_of_lt (Nat.zero_le _) h.1
  have hfirst : ErasesAgain cfg s.completed (call.issue cfg plan true s) := by
    rw [issue_eq h hidle, hmode, hkind]
    exact work_erasesAgain hover haddr hremain (.inl rfl)
  rw [hkind] at hends
  obtain ⟨hlast, hend⟩ := hends.invariant (P := ErasesAgain cfg s.completed) hfirst fun t ht =>
    resume_erasesAgain hmode hover hpos (ht.1 rfl)
  exact hlast.2 hend

/-- Calls that are suspended comply exactly if the first operation that fails is not one that was suspended, and the
whole chip is not. -/
theorem complies_iff (h : call.Accepted cfg) (hidle : s.suspendState = .none) :
    call.Complies cfg plan s ↔
      Noticed plan.error (plan.overlooked cfg.opModeSuspend) s.opNum (call.ops cfg s).length ∧
        ((call.cursor cfg s).IsChip cfg call.kind → plan.overlooked cfg.opModeSuspend s.opNum = false) := by
  obtain ⟨hret, hdone, hnone⟩ := issue_plain plan h hidle
  have hplain : ∃ results, (call.issue cfg plan false s).2.completed = s.completed ++ results ∧
      call.DoneBy cfg (call.issue cfg plan false s).1 results := by
    rw [hret]
    exact ⟨_, hdone, doneBy_plain h⟩
  have hrefused := fun t ht => refused_of_breaksAt plan (t := t) h hidle ht
  cases hmode : cfg.opModeSuspend with
  | false =>
      -- a chip that cannot suspend operations works as if it was not asked to
      have hsame : call.issue cfg plan true s = call.issue cfg plan false s := by
        rw [issue_eq h hidle, issue_eq h hidle, hmode]
        rfl
      have hends : (call.issue cfg plan false s).1 ≠ .suspended := by
        rw [hret]
        exact elim_not_suspended _
      refine iff_of_true ⟨⟨_, ?_, rfl, hnone⟩, hplain, hrefused⟩ ⟨fun _ _ _ _ => rfl, fun _ => rfl⟩
      rw [hsame]
      exact .here hends
  | true =>
      have hfinishes := issue_finishes plan h hidle true
      rw [hmode, Bool.true_and] at hfinishes
      constructor
      · rintro ⟨⟨t, hends, hcompleted, -⟩, -, -⟩
        rw [hdone] at hcompleted
        have hchip : (call.cursor cfg s).IsChip cfg call.kind → plan.overlooked true s.opNum = false := by
          intro hwhole
          refine Bool.eq_false_iff.mpr fun hover => ?_
          have htwice := twice_of_chip h hidle hmode hwhole (of_decide_eq_true hover) hends
          -- the plain call erases it once
          obtain ⟨n, hn⟩ := perform_prefix plan.error (fun _ => false) s.opNum (call.ops cfg s)
          have hlen := congrArg List.length hn
          have hlen' := congrArg List.length hcompleted
          have hone : (call.ops cfg s).length = 1 := by
            rw [ops, if_pos hwhole]
            rfl
          rw [List.length_map, List.length_take] at hlen
          rw [List.length_append] at hlen'
          simp only at htwice
          omega
        refine ⟨?_, hchip⟩
        obtain ⟨t', hends', hcompleted', -⟩ := hfinishes hchip
        obtain ⟨hret', hstate⟩ := Prod.mk.inj (hends.unique hends')
        rw [← hstate, hcompleted] at hcompleted'
        refine perform_eq_iff.mp (Prod.ext (elim_inj ?_) (List.append_cancel_left hcompleted').symm)
        rw [← hret]
        exact hret'.symm
      · rintro ⟨hnoticed, hchip⟩
        obtain ⟨t, hends, hcompleted', hidle'⟩ := hfinishes hchip
        have hsame := perform_eq_iff.mpr hnoticed
        refine ⟨⟨t, ?_, ?_, hidle'⟩, hplain, hrefused⟩
        · rw [hret, ← hsame]
          exact hends
        · rw [hdone, ← hsame]
          exact hcompleted'

/-- A chip of sixteen sectors. -/
def smallChip : Config where
  totalSize := 0x10000
  pageBits := 8
  addrBits := 24
  dualChip := false
  flashLargeBlock := false
  puyaFlashErasePageEnable := false
  flashMemReadBusLock := true
  opModeSuspend := true
  pageBits_le := Nat.le_of_ble_eq_true rfl
  totalSize_le := Nat.le_of_ble_eq_true rfl
  sector_dvd := Dvd.intro 16 rfl

/-- Every operation is held back once and suspended twice, and none fails. -/
def interrupted : Plan := ⟨fun _ => 1, fun _ => 2, fun _ => none⟩

theorem interrupted_complies : (erase 0x1800 0x3000).Complies smallChip interrupted .opened := by
  have haccepted : (erase 0x1800 0x3000).Accepted smallChip := by
    constructor <;> decide
  have hchip : ¬ ((erase 0x1800 0x3000).cursor smallChip .opened).IsChip smallChip .erase := by decide
  exact (complies_iff haccepted rfl).mpr ⟨fun _ _ _ herror => absurd rfl herror, fun hwhole => absurd hwhole hchip⟩

/-- The operation is suspended once, and fails. -/
def failing : Plan := ⟨fun _ => 0, fun _ => 1, fun _ => some 1⟩

/-- The error of a suspended write is lost. -/
theorem failing_not_complies : ¬ (write 0 [0]).Complies smallChip failing .opened := by
  rintro ⟨⟨t, hends, -⟩, -⟩
  have hplain : ((write 0 [0]).issue smallChip failing false .opened).1 = .err 1 := by decide
  have hresumed : ∃ t, Ends .suspended (State.halNorflashResume smallChip failing true .program)
      ((write 0 [0]).issue smallChip failing true .opened) (.ok, t) := ⟨_, .later (.here Ret.noConfusion)⟩
  obtain ⟨t', hends'⟩ := hresumed
  have hsame := (Prod.mk.inj (hends.unique hends')).1
  rw [hplain] at hsame
  cases hsame

end Call

end Best1307.Norflash
