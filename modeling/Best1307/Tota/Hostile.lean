import Best1307.Lib.Checked
import Best1307.Tota.RoundTrip

/-!
# The receiver on arbitrary bytes

The length of a frame comes from the peer. The checks of the receiver add to it in 32 bits, and its
decryption fills up the last block inside the buffer on the stack. Apart from these two cases, no received
byte leads an index out of the buffer or leaves a frame in the queue that is all there.
-/

namespace Best1307.Tota

open Framing
open Checked (bind_eq_ok)

variable {cfg : Config} {env env' : TotaEnv} {ret : Int}

namespace TotaEnv

/-- By the receiver's own arithmetic, the frame at the head of the queue is all there. -/
def LooksComplete (env : TotaEnv) : Prop :=
  env.HasHead ∧ (totaPacketTotalSize env.bufLen).toNat ≤ env.rxDataQueue.length

/-- The length in the header wraps around with the size of an empty frame added to it. -/
def Wraps (env : TotaEnv) : Prop := env.HasHead ∧ 2 ^ 32 ≤ env.bufLen.toNat + 16

/-- The frame at the head of the queue is all there, and its tail and CRC are right. -/
def Valid (cfg : Config) (env : TotaEnv) : Prop :=
  env.HasHead ∧ env.bufLen.toNat + 16 ≤ maxSppPacketSize cfg ∧
    env.bufLen.toNat + 16 ≤ env.rxDataQueue.length ∧ env.frameTail = totaTail ∧
    cfg.crc32C env.payload = env.frameCrc

/-- A valid frame is to be decrypted, and its last block does not fit the buffer on the stack: with wide
packets, a payload of 993 to 995 bytes. -/
def Overpads (cfg : Config) (env : TotaEnv) : Prop :=
  env.connectStatus = .shakeHanded ∧ env.Valid cfg ∧
    maxSppPacketSize cfg < totaPacketBufOffset + paddedLen env.bufLen.toNat

end TotaEnv

/-- What `app_tota_rx_unpack` leaves behind when it is called in `env`. -/
structure SafeReturn (cfg : Config) (env : TotaEnv) (ret : Int) (env' : TotaEnv) : Prop where
  accepts : ret = 0 → env.bufLen.toNat + 16 ≤ maxSppPacketSize cfg
  consumes : env.LooksComplete →
    (env.bufLen.toNat + 16 ≤ env.rxDataQueue.length ∧
      env'.rxDataQueue = env.rxDataQueue.drop (env.bufLen.toNat + 16)) ∨
    (env'.rxDataQueue = [] ∧ env'.resets = env.resets + 1)
  waits : ret = -3 → env' = env ∧ env.rxDataQueue.length < env.bufLen.toNat + 16 ∧
    env.bufLen.toNat + 16 ≤ maxSppPacketSize cfg

/-- A call of `app_tota_rx_unpack` that stays inside its buffer and returns safely. -/
def SafeCall (cfg : Config) (env : TotaEnv) : Prop :=
  ∃ ret env', appTotaRxUnpack cfg env env.rxDataQueue.length = .ok (ret, env') ∧ SafeReturn cfg env ret env'

/-! ### What a call leaves alone -/

theorem passOn_rxDataQueue {p : List UInt8} (h : passOn cfg env p = .ok env') :
    env'.rxDataQueue = env.rxDataQueue := by
  have hpass : passOn cfg env p = .ok (env'.withQueue env.rxDataQueue) := by
    change passOn cfg (env.withQueue env.rxDataQueue) p = _
    rw [passOn_withQueue, h]
    rfl
  have hsame : env' = env'.withQueue env.rxDataQueue := Except.ok.inj (h.symm.trans hpass)
  rw [hsame, TotaEnv.withQueue_rxDataQueue]

theorem unpackPopped_long {temp : List UInt8} {bufLen : UInt32} (hlong : maxSppPacketSize cfg < bufLen.toNat)
    (h : unpackPopped cfg env temp bufLen = .ok (ret, env')) : ret = -6 ∧ env' = env := by
  obtain ⟨crc, -, h⟩ := bind_eq_ok.mp h
  obtain ⟨tail, -, h⟩ := bind_eq_ok.mp h
  split at h
  · cases h
    exact ⟨rfl, rfl⟩
  · obtain ⟨pbuf, hpbuf, -⟩ := bind_eq_ok.mp h
    rw [readTemp, if_neg (by omega)] at hpbuf
    cases hpbuf

/-! ### One call -/

/-- The wrapped total passes both checks of the header, and what is popped is less than an empty frame. -/
theorem wraps_not_safe (hlong : 16 < env.rxDataQueue.length) (hwraps : env.Wraps) : ¬ SafeCall cfg env := by
  rintro ⟨ret, env', hunpack, hsafe⟩
  obtain ⟨hhead, hwraps⟩ := hwraps
  have hbound := env.bufLen.toNat_lt
  have hmax := maxSppPacketSize_eq cfg
  have htotal : (totaPacketTotalSize env.bufLen).toNat = env.bufLen.toNat + 16 - 2 ^ 32 := by
    rw [totaPacketTotalSize, UInt32.toNat_add]
    change (env.bufLen.toNat + 16) % 2 ^ 32 = _
    omega
  rw [unpack_eq hlong, if_neg (not_not.mpr hhead), if_neg (by omega), if_neg (by omega)] at hunpack
  obtain ⟨-, rfl⟩ := unpackPopped_long (by omega) hunpack
  have hcomplete : env.LooksComplete := ⟨hhead, by omega⟩
  rcases hsafe.consumes hcomplete with ⟨-, hqueue⟩ | ⟨hqueue, -⟩
  · have hlength := congrArg List.length hqueue
    rw [TotaEnv.withQueue_rxDataQueue, List.length_drop, List.length_drop] at hlength
    omega
  · have hlength := congrArg List.length hqueue
    rw [TotaEnv.withQueue_rxDataQueue, List.length_drop, List.length_nil] at hlength
    omega

theorem length_payload (hall : env.bufLen.toNat + 16 ≤ env.rxDataQueue.length) :
    env.payload.length = env.bufLen.toNat := by
  rw [TotaEnv.payload, slice, List.length_take, List.length_drop, totaPacketBufOffset, totaHeadSize, totaLenSize]
  omega

theorem unpack_valid (hlong : 16 < env.rxDataQueue.length) (hvalid : env.Valid cfg) :
    appTotaRxUnpack cfg env env.rxDataQueue.length =
      (passOn cfg env.dropFrame env.payload).map fun env' => (0, env') := by
  obtain ⟨hhead, hfits, hall, htail, hcrc⟩ := hvalid
  rw [unpack_whole hlong hhead hfits hall, if_neg (not_not.mpr htail), if_neg (not_not.mpr hcrc)]

theorem overpads_not_safe (hlong : 16 < env.rxDataQueue.length) (hpads : env.Overpads cfg) :
    ¬ SafeCall cfg env := by
  rintro ⟨ret, env', hunpack, -⟩
  obtain ⟨hstatus, hvalid, hpads⟩ := hpads
  have hdecrypt : passOn cfg env.dropFrame env.payload = .error .outOfRange := by
    have hshaken : env.dropFrame.connectStatus = .shakeHanded := hstatus
    rw [passOn, hshaken]
    dsimp only
    rw [totaDecrypt, if_neg (by rw [length_payload hvalid.2.2.1]; omega)]
    rfl
  rw [unpack_valid hlong hvalid, hdecrypt] at hunpack
  cases hunpack

theorem safeReturn_dropFrame (hfits : env.bufLen.toNat + 16 ≤ maxSppPacketSize cfg)
    (hall : env.bufLen.toNat + 16 ≤ env.rxDataQueue.length) (hret : ret ≠ -3)
    (hqueue : env'.rxDataQueue = env.dropFrame.rxDataQueue) : SafeReturn cfg env ret env' where
  accepts _ := hfits
  consumes _ := .inl ⟨hall, hqueue⟩
  waits h := absurd h hret

theorem safeCall_whole (hlong : 16 < env.rxDataQueue.length) (hpads : ¬ env.Overpads cfg)
    (hhead : env.HasHead) (hfits : env.bufLen.toNat + 16 ≤ maxSppPacketSize cfg)
    (hall : env.bufLen.toNat + 16 ≤ env.rxDataQueue.length) : SafeCall cfg env := by
  have hunpack := unpack_whole hlong hhead hfits hall
  by_cases htail : env.frameTail = totaTail
  · by_cases hcrc : cfg.crc32C env.payload = env.frameCrc
    · have hvalid : env.Valid cfg := ⟨hhead, hfits, hall, htail, hcrc⟩
      have hroomy : Roomy cfg env.dropFrame env.payload := fun hshaken => by
        rw [length_payload hall]
        exact Nat.not_lt.mp fun hpad => hpads ⟨hshaken, hvalid, hpad⟩
      obtain ⟨env', hpass⟩ := Option.isSome_iff_exists.mp (passStep_isSome.mpr hroomy)
      have hok : passOn cfg env.dropFrame env.payload = .ok env' := by
        unfold passStep at hpass
        cases hresult : passOn cfg env.dropFrame env.payload with
        | error fault => rw [hresult] at hpass; cases hpass
        | ok env'' => rw [hresult] at hpass; exact congrArg _ (Option.some.inj hpass)
      refine ⟨0, env', ?_, safeReturn_dropFrame hfits hall (by decide) (passOn_rxDataQueue hok)⟩
      rw [unpack_valid hlong hvalid, hok]
      rfl
    · rw [if_neg (not_not.mpr htail), if_pos hcrc] at hunpack
      exact ⟨-7, _, hunpack, safeReturn_dropFrame hfits hall (by decide) rfl⟩
  · rw [if_pos htail] at hunpack
    exact ⟨-6, _, hunpack, safeReturn_dropFrame hfits hall (by decide) rfl⟩

theorem safeCall_of_input (hlong : 16 < env.rxDataQueue.length) (hwraps : ¬ env.Wraps)
    (hpads : ¬ env.Overpads cfg) : SafeCall cfg env := by
  have hmax := maxSppPacketSize_le cfg
  have hunpack := @unpack_eq cfg env hlong
  by_cases hhead : env.HasHead
  · have hbound : env.bufLen.toNat + 16 < 2 ^ 32 := Nat.not_le.mp fun h => hwraps ⟨hhead, h⟩
    rw [if_neg (not_not.mpr hhead), toNat_totaPacketTotalSize hbound] at hunpack
    by_cases hbig : maxSppPacketSize cfg < env.bufLen.toNat + 16
    · rw [if_pos hbig] at hunpack
      exact ⟨-2, _, hunpack, fun h => absurd h (by decide), fun _ => .inr ⟨rfl, rfl⟩,
        fun h => absurd h (by decide)⟩
    · by_cases hwait : env.rxDataQueue.length < env.bufLen.toNat + 16
      · rw [if_neg hbig, if_pos hwait] at hunpack
        refine ⟨-3, env, hunpack, fun h => absurd h (by decide), fun hcomplete => ?_,
          fun _ => ⟨rfl, hwait, Nat.not_lt.mp hbig⟩⟩
        have htotal := hcomplete.2
        rw [toNat_totaPacketTotalSize hbound] at htotal
        exact absurd hwait (Nat.not_lt.mpr htotal)
      · exact safeCall_whole hlong hpads hhead (Nat.not_lt.mp hbig) (Nat.not_lt.mp hwait)
  · rw [if_pos hhead] at hunpack
    exact ⟨-1, _, hunpack, fun h => absurd h (by decide), fun hcomplete => absurd hcomplete.1 hhead,
      fun h => absurd h (by decide)⟩

theorem safeCall_iff (hlong : 16 < env.rxDataQueue.length) :
    SafeCall cfg env ↔ ¬ env.Wraps ∧ ¬ env.Overpads cfg :=
  ⟨fun h => ⟨fun hwraps => wraps_not_safe hlong hwraps h, fun hpads => overpads_not_safe hlong hpads h⟩,
    fun h => safeCall_of_input hlong h.1 h.2⟩

/-! ### The calls of a run -/

/-- The states in which the loop of `s_app_tota_rx` calls `app_tota_rx_unpack`. -/
def loopCalls (cfg : Config) : Nat → TotaEnv → List TotaEnv
  | 0, _ => []
  | passes + 1, env =>
      if totaPacketVerifySize < env.rxDataQueue.length then
        env :: match appTotaRxUnpack cfg env env.rxDataQueue.length with
          | .error _ => []
          | .ok (ret, env') => if ret ≠ 0 then [] else loopCalls cfg passes env'
      else []

/-- The states in which it is called for one chunk. -/
def rxCalls (cfg : Config) (env : TotaEnv) (chunk : List UInt8) : List TotaEnv :=
  match env.totaRxQueuePush cfg chunk with
  | none => []
  | some env => loopCalls cfg env.rxDataQueue.length env

theorem loopCalls_long {passes : Nat} {call : TotaEnv} (h : call ∈ loopCalls cfg passes env) :
    16 < call.rxDataQueue.length := by
  induction passes generalizing env with
  | zero => cases h
  | succ passes ih =>
      rw [loopCalls] at h
      split at h
      · rename_i hlong
        rcases List.mem_cons.mp h with rfl | h
        · exact hlong
        · split at h
          · cases h
          · split at h
            · cases h
            · exact ih h
      · cases h

theorem rxCalls_long {chunk : List UInt8} {call : TotaEnv} (h : call ∈ rxCalls cfg env chunk) :
    16 < call.rxDataQueue.length := by
  unfold rxCalls at h
  split at h
  · cases h
  · exact loopCalls_long h

theorem rxLoop_ok {passes : Nat} (h : ∀ call ∈ loopCalls cfg passes env, SafeCall cfg call) :
    ∃ env', rxLoop cfg passes env = .ok env' := by
  induction passes generalizing env with
  | zero => exact ⟨env, rfl⟩
  | succ passes ih =>
      rw [loopCalls] at h
      rw [rxLoop]
      split
      · rename_i hlong
        rw [if_pos hlong] at h
        obtain ⟨ret, env', hunpack, -⟩ := h env List.mem_cons_self
        rw [hunpack]
        by_cases hret : ret ≠ 0
        · exact ⟨env', if_pos hret⟩
        · rw [hunpack] at h
          dsimp only at h
          rw [if_neg hret] at h
          obtain ⟨last, hlast⟩ := ih fun call hcall => h call (List.mem_cons_of_mem _ hcall)
          exact ⟨last, (if_neg hret).trans hlast⟩
      · exact ⟨env, rfl⟩

/-- A chunk is received without a fault, and every call for it is safe. -/
def SafeChunk (cfg : Config) (env : TotaEnv) (chunk : List UInt8) : Prop :=
  (rxStep cfg env chunk).isSome ∧ ∀ call ∈ rxCalls cfg env chunk, SafeCall cfg call

/-- No call for the chunk finds a wrapping length or a payload that does not fit its padding. -/
def PlainChunk (cfg : Config) (env : TotaEnv) (chunk : List UInt8) : Prop :=
  ∀ call ∈ rxCalls cfg env chunk, ¬ call.Wraps ∧ ¬ call.Overpads cfg

theorem safeChunk_iff {chunk : List UInt8} (hfits : Fits cfg env chunk) :
    SafeChunk cfg env chunk ↔ PlainChunk cfg env chunk := by
  refine ⟨fun h call hcall => (safeCall_iff (rxCalls_long hcall)).mp (h.2 call hcall), fun h => ?_⟩
  have hcalls : ∀ call ∈ rxCalls cfg env chunk, SafeCall cfg call :=
    fun call hcall => (safeCall_iff (rxCalls_long hcall)).mpr (h call hcall)
  refine ⟨?_, hcalls⟩
  rw [Fits] at hfits
  rw [rxCalls, TotaEnv.totaRxQueuePush, if_pos hfits] at hcalls
  obtain ⟨env', hloop⟩ := rxLoop_ok hcalls
  rw [rxStep, sAppTotaRx, TotaEnv.totaRxQueuePush, if_pos hfits]
  dsimp only
  rw [hloop]
  rfl

/-- Whatever bytes arrive: the chunks that fit the queue are received safely exactly as long as no length
wraps around and no decrypted payload outgrows the buffer. -/
theorem hostile_safe_iff (cfg : Config) (env : TotaEnv) (chunks : List (List UInt8)) :
    Along (rxStep cfg) (fun env chunk => Fits cfg env chunk → SafeChunk cfg env chunk) env chunks ↔
      Along (rxStep cfg) (fun env chunk => Fits cfg env chunk → PlainChunk cfg env chunk) env chunks :=
  along_congr fun _ _ => forall_congr' safeChunk_iff

/-- A header whose length wraps to a total of 0, and nine bytes more. -/
def wrappingChunk : List UInt8 := totaHead ++ wordBytes 0xFFFFFFF0 ++ List.replicate 9 0

/-- Nothing is popped for it, and the CRC is read eight bytes before the buffer. -/
theorem wrappingChunk_unsafe :
    ¬ Along (rxStep wideConfig) (fun env chunk => Fits wideConfig env chunk → SafeChunk wideConfig env chunk)
      { totaCommonInit [] with connectStatus := .connected } [wrappingChunk] := by
  intro h
  have hfits : Fits wideConfig { totaCommonInit [] with connectStatus := .connected } wrappingChunk := by
    decide
  have hfault : rxStep wideConfig { totaCommonInit [] with connectStatus := .connected } wrappingChunk = none := by
    decide
  have hsome := (h.1 hfits).1
  rw [hfault] at hsome
  cases hsome

end Best1307.Tota
