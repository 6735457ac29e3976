import Best1307.Lib.Framing
import Best1307.Tota.Frame

/-!
# The receiver of the test-over-the-air link

Received bytes go to a queue. As long as more than an empty frame is queued, `app_tota_rx_unpack` takes the
frame at its head into a buffer on the stack, checks it and passes its bytes on as the connection status
says. An index outside that buffer and a chunk the queue has no room for are faults.
-/

namespace Best1307.Tota

open Framing

inductive Fault
  | outOfRange | queueFull
  deriving DecidableEq, Repr

inductive StoreStatus
  | ok | onGoing | fail
  deriving DecidableEq, Repr

/-- command head, head of the layer above and 4096 bytes -/
def totaDataCacheBufferSize : Nat := 4 + 32 + 4096

def totaDataHeadSize : Nat := 4

/-- The first `RxDataCacheBufferOffset` bytes of `pRxDataCacheBuffer`. The bytes behind them are zero. -/
structure DataCache where
  bytes : List UInt8
  fits : bytes.length ≤ totaDataCacheBufferSize
  deriving DecidableEq

def DataCache.empty : DataCache := ⟨[], Nat.zero_le _⟩

/-- Room is checked with the `uint16_t` `store_pos`, which a frame's bytes behind a full cache do not wrap. -/
def DataCache.append (cache : DataCache) (pdata : List UInt8) : Option DataCache :=
  if h : cache.bytes.length + pdata.length ≤ totaDataCacheBufferSize then
    some ⟨cache.bytes ++ pdata, by rw [List.length_append]; exact h⟩
  else none

/-- The part of `totaEnv` the receive path works on. `resets` counts the calls of `tota_rx_queue_deinit`,
`handed` lists what `app_tota_store` was called with. -/
structure TotaEnv extends Session where
  rxDataQueue : List UInt8
  cache : DataCache
  resets : Nat
  handed : List (List UInt8)
  deriving DecidableEq

/-- `tota_common_init`; the key is what the static array holds. -/
def totaCommonInit (key : List UInt8) : TotaEnv := ⟨⟨.disconnected, key⟩, [], .empty, 0, []⟩

namespace TotaEnv

def withQueue (env : TotaEnv) (queue : List UInt8) : TotaEnv := { env with rxDataQueue := queue }

@[simp] theorem withQueue_rxDataQueue (env : TotaEnv) (queue : List UInt8) :
    (env.withQueue queue).rxDataQueue = queue := rfl

@[simp] theorem withQueue_withQueue (env : TotaEnv) (queue queue' : List UInt8) :
    (env.withQueue queue).withQueue queue' = env.withQueue queue' := rfl

/-! ### The queue -/

def totaRxQueuePush (cfg : Config) (env : TotaEnv) (buff : List UInt8) : Option TotaEnv :=
  if env.rxDataQueue.length + buff.length ≤ totaRxBufSize cfg then
    some (env.withQueue (env.rxDataQueue ++ buff))
  else none

def totaRxQueuePop (env : TotaEnv) (len : Nat) : Option (List UInt8 × TotaEnv) :=
  if len ≤ env.rxDataQueue.length then
    some (env.rxDataQueue.take len, env.withQueue (env.rxDataQueue.drop len))
  else none

def totaRxQueuePeek (env : TotaEnv) (len : Nat) : List UInt8 :=
  if len ≤ env.rxDataQueue.length then env.rxDataQueue.take len else List.replicate len 0

def totaRxQueueDeinit (env : TotaEnv) : TotaEnv := { env with rxDataQueue := [], resets := env.resets + 1 }

/-! ### What is passed on -/

def appTotaStoreReset (env : TotaEnv) : TotaEnv := { env with cache := .empty }

/-- `paramLen` of the command the cache begins with -/
def paramLen (cache : List UInt8) : Nat := (cache.getD 2 0).toNat + 2 ^ 8 * (cache.getD 3 0).toNat

def appTotaStore (env : TotaEnv) (pdata : List UInt8) : StoreStatus × TotaEnv :=
  let env := { env with handed := env.handed ++ [pdata] }
  match env.cache.append pdata with
  | some cache =>
      (if cache.bytes.length < paramLen cache.bytes + totaDataHeadSize then .onGoing else .ok,
        { env with cache := cache })
  | none => (.fail, env.appTotaStoreReset)

/-- The end of `app_tota_rx_unpack`: a complete command is handled. -/
def afterStore (cfg : Config) : StoreStatus × TotaEnv → TotaEnv
  | (.ok, env) =>
      { env with toSession := cfg.cmdReceived env.cache.bytes env.toSession }.appTotaStoreReset
  | (_, env) => env

end TotaEnv

def encryptKeySize : Nat := 16

/-- A length rounded up to whole blocks of the cipher. -/
def paddedLen (inLen : Nat) : Nat :=
  if inLen % encryptKeySize = 0 then inLen else inLen + encryptKeySize - inLen % encryptKeySize

/-- `tota_decrypt` of the bytes at `pbuf`. It fills up the last block in `temp_buf` itself. -/
def totaDecrypt (cfg : Config) (key input : List UInt8) : Except Fault (List UInt8) :=
  if totaPacketBufOffset + paddedLen input.length ≤ maxSppPacketSize cfg then
    .ok (cfg.aesDecrypt key (input ++ List.replicate (paddedLen input.length - input.length) 0))
  else .error .outOfRange

/-- The switch of `app_tota_rx_unpack` on the connection status, and what follows it. -/
def passOn (cfg : Config) (env : TotaEnv) (pbuf : List UInt8) : Except Fault TotaEnv :=
  match env.connectStatus with
  | .connected => .ok (TotaEnv.afterStore cfg (env.appTotaStore pbuf))
  | .shakeHanded =>
      (totaDecrypt cfg env.key pbuf).map fun plain => TotaEnv.afterStore cfg (env.appTotaStore plain)
  | .disconnected => .ok env

/-! ### A frame -/

/-- `temp_buf` with the popped bytes in it; the others, not initialised in the source, are never read. -/
def tempBuf (cfg : Config) (popped : List UInt8) : List UInt8 :=
  popped ++ List.replicate (maxSppPacketSize cfg - popped.length) 0

def readTemp (cfg : Config) (temp : List UInt8) (offset len : Nat) : Except Fault (List UInt8) :=
  if offset + len ≤ maxSppPacketSize cfg then .ok (slice temp offset len) else .error .outOfRange

/-- `app_tota_rx_unpack` from the pop on. -/
def unpackPopped (cfg : Config) (env : TotaEnv) (temp : List UInt8) (bufLen : UInt32) :
    Except Fault (Int × TotaEnv) := do
  let crc ← readTemp cfg temp (totaPacketCrcOffset bufLen).toNat totaCrcSize
  let tail ← readTemp cfg temp (totaPacketTailOffset bufLen).toNat totaTailSize
  if tail ≠ totaTail then
    return (-6, env)
  let pbuf ← readTemp cfg temp totaPacketBufOffset bufLen.toNat
  if cfg.crc32C pbuf ≠ wordOfBytes crc then
    return (-7, env)
  let env ← passOn cfg env pbuf
  return (0, env)

def appTotaRxUnpack (cfg : Config) (env : TotaEnv) (dataLen : Nat) : Except Fault (Int × TotaEnv) :=
  let dataLen := if dataLen < maxSppPacketSize cfg then dataLen else maxSppPacketSize cfg
  let header := env.totaRxQueuePeek (totaHeadSize + totaLenSize)
  let bufLen := wordOfBytes (header.drop totaHeadSize)
  if header.take totaHeadSize ≠ totaHead then .ok (-1, env.totaRxQueueDeinit)
  else if maxSppPacketSize cfg < (totaPacketTotalSize bufLen).toNat then .ok (-2, env.totaRxQueueDeinit)
  else if dataLen < (totaPacketTotalSize bufLen).toNat then .ok (-3, env)
  else match env.totaRxQueuePop (totaPacketTotalSize bufLen).toNat with
    | none => .ok (-4, env.totaRxQueueDeinit)
    | some (popped, env) => unpackPopped cfg env (tempBuf cfg popped) bufLen

/-- The loop of `s_app_tota_rx`. A pass that goes round again has taken a frame from the queue, so its
length bounds the passes. -/
def rxLoop (cfg : Config) : Nat → TotaEnv → Except Fault TotaEnv
  | 0, env => .ok env
  | passes + 1, env =>
      if totaPacketVerifySize < env.rxDataQueue.length then
        (appTotaRxUnpack cfg env env.rxDataQueue.length).bind fun (ret, env) =>
          if ret ≠ 0 then .ok env else rxLoop cfg passes env
      else .ok env

/-- `s_app_tota_rx` of the `len` bytes at `cmd_buf`, which may be `NULL`. -/
def sAppTotaRx (cfg : Config) (env : TotaEnv) (cmdBuf : Option (List UInt8)) : Except Fault TotaEnv :=
  match cmdBuf with
  | none => .ok env
  | some buf =>
      match env.totaRxQueuePush cfg buf with
      | none => .error .queueFull
      | some env => rxLoop cfg env.rxDataQueue.length env

/-- A chunk is received; there is no next state after a fault. -/
def rxStep (cfg : Config) (env : TotaEnv) (chunk : List UInt8) : Option TotaEnv :=
  (sAppTotaRx cfg env (some chunk)).toOption

/-! ### What one call of `app_tota_rx_unpack` does -/

variable {cfg : Config} {env : TotaEnv}

/-- The length in the header at the head of the queue. -/
def TotaEnv.bufLen (env : TotaEnv) : UInt32 := wordOfBytes (slice env.rxDataQueue totaHeadSize totaLenSize)

/-- The queue begins with the bytes every frame begins with. -/
def TotaEnv.HasHead (env : TotaEnv) : Prop := env.rxDataQueue.take totaHeadSize = totaHead

instance (env : TotaEnv) : Decidable env.HasHead := inferInstanceAs (Decidable (_ = _))

theorem unpack_eq (hlong : 16 < env.rxDataQueue.length) :
    appTotaRxUnpack cfg env env.rxDataQueue.length =
      if ¬ env.HasHead then .ok (-1, env.totaRxQueueDeinit)
      else if maxSppPacketSize cfg < (totaPacketTotalSize env.bufLen).toNat then
        .ok (-2, env.totaRxQueueDeinit)
      else if env.rxDataQueue.length < (totaPacketTotalSize env.bufLen).toNat then .ok (-3, env)
      else unpackPopped cfg (env.withQueue (env.rxDataQueue.drop (totaPacketTotalSize env.bufLen).toNat))
        (tempBuf cfg (env.rxDataQueue.take (totaPacketTotalSize env.bufLen).toNat)) env.bufLen := by
  have hpeek : env.totaRxQueuePeek (totaHeadSize + totaLenSize) = env.rxDataQueue.take 8 :=
    if_pos (by simp only [totaHeadSize, totaLenSize]; omega)
  have hhead : (env.rxDataQueue.take 8).take totaHeadSize = env.rxDataQueue.take totaHeadSize := by
    rw [List.take_take]
    rfl
  have hlen : wordOfBytes ((env.rxDataQueue.take 8).drop totaHeadSize) = env.bufLen := by
    rw [List.drop_take]
    rfl
  simp only [appTotaRxUnpack, hpeek, hhead, hlen]
  by_cases hmagic : env.HasHead
  · have hsame : ¬ env.rxDataQueue.take totaHeadSize ≠ totaHead := not_not.mpr hmagic
    rw [if_neg hsame, if_neg (not_not.mpr hmagic)]
    by_cases hbig : maxSppPacketSize cfg < (totaPacketTotalSize env.bufLen).toNat
    · rw [if_pos hbig, if_pos hbig]
    · rw [if_neg hbig, if_neg hbig]
      by_cases hwait : env.rxDataQueue.length < (totaPacketTotalSize env.bufLen).toNat
      · rw [if_pos hwait, if_pos (by split <;> omega)]
      · have hpop : env.totaRxQueuePop (totaPacketTotalSize env.bufLen).toNat =
            some (env.rxDataQueue.take (totaPacketTotalSize env.bufLen).toNat,
              env.withQueue (env.rxDataQueue.drop (totaPacketTotalSize env.bufLen).toNat)) :=
          if_pos (Nat.not_lt.mp hwait)
        rw [if_neg hwait, if_neg (by split <;> omega), hpop]
  · have hother : env.rxDataQueue.take totaHeadSize ≠ totaHead := hmagic
    rw [if_pos hother, if_pos hmagic]

/-! ### A whole frame -/

namespace TotaEnv

/-- The bytes of the frame at the head of the queue, its CRC and its tail, if it is all there. -/
def payload (env : TotaEnv) : List UInt8 := slice env.rxDataQueue totaPacketBufOffset env.bufLen.toNat

def frameCrc (env : TotaEnv) : UInt32 := wordOfBytes (slice env.rxDataQueue (env.bufLen.toNat + 8) totaCrcSize)

def frameTail (env : TotaEnv) : List UInt8 := slice env.rxDataQueue (env.bufLen.toNat + 12) totaTailSize

/-- Behind the frame at the head. -/
def dropFrame (env : TotaEnv) : TotaEnv := env.withQueue (env.rxDataQueue.drop (env.bufLen.toNat + 16))

end TotaEnv

theorem readTemp_popped {queue : List UInt8} {total offset len : Nat} (hread : offset + len ≤ total)
    (htotal : total ≤ maxSppPacketSize cfg) (hqueue : total ≤ queue.length) :
    readTemp cfg (tempBuf cfg (queue.take total)) offset len = .ok (slice queue offset len) := by
  have hpopped : (queue.take total).length = total := List.length_take_of_le hqueue
  have hsame : slice queue offset len = slice (queue.take total) offset len := by
    conv_lhs => rw [← List.take_append_drop total queue]
    exact slice_append (by omega)
  rw [readTemp, if_pos (by omega), tempBuf, slice_append (by omega), hsame]

/-- A frame that is all there and fits the buffer is taken from the queue and judged by its own bytes. -/
theorem unpack_whole (hlong : 16 < env.rxDataQueue.length) (hhead : env.HasHead)
    (hfits : env.bufLen.toNat + 16 ≤ maxSppPacketSize cfg)
    (hall : env.bufLen.toNat + 16 ≤ env.rxDataQueue.length) :
    appTotaRxUnpack cfg env env.rxDataQueue.length =
      if env.frameTail ≠ totaTail then .ok (-6, env.dropFrame)
      else if cfg.crc32C env.payload ≠ env.frameCrc then .ok (-7, env.dropFrame)
      else (passOn cfg env.dropFrame env.payload).map fun env' => (0, env') := by
  have hmax := maxSppPacketSize_le cfg
  have htotal := @toNat_totaPacketTotalSize env.bufLen (by omega)
  rw [unpack_eq hlong, if_neg (not_not.mpr hhead), if_neg (by omega), if_neg (by omega), unpackPopped, htotal,
    toNat_totaPacketCrcOffset (by omega), toNat_totaPacketTailOffset (by omega),
    readTemp_popped (by simp only [totaCrcSize]; omega) hfits hall,
    readTemp_popped (by simp only [totaTailSize]; omega) hfits hall,
    readTemp_popped (by simp only [totaPacketBufOffset, totaHeadSize, totaLenSize]; omega) hfits hall]
  by_cases htail : env.frameTail = totaTail
  · by_cases hcrc : cfg.crc32C env.payload = env.frameCrc
    · rw [if_neg (not_not.mpr htail), if_neg (not_not.mpr hcrc)]
      simp only [TotaEnv.frameTail] at htail
      simp only [TotaEnv.frameCrc, TotaEnv.payload] at hcrc
      simp only [htail, hcrc, bind, Except.bind, ne_eq, not_true_eq_false, if_false, pure, Except.pure]
      rfl
    · rw [if_neg (not_not.mpr htail), if_pos hcrc]
      simp only [TotaEnv.frameTail] at htail
      simp only [TotaEnv.frameCrc, TotaEnv.payload] at hcrc
      simp only [htail, hcrc, bind, Except.bind, ne_eq, not_true_eq_false, if_false, not_false_eq_true,
        if_true, pure, Except.pure]
      rfl
  · rw [if_pos htail]
    simp only [TotaEnv.frameTail] at htail
    simp only [htail, bind, Except.bind, ne_eq, not_false_eq_true, if_true, pure, Except.pure]
    rfl

end Best1307.Tota
