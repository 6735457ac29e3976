import Mathlib.Logic.Equiv.Basic
import Best1307.Tota.RoundTrip

/-!
# Long messages

A message longer than a frame is sent in segments: the header of the command and its data are cut every
`DONGLE_DATA_FRAME` bytes, and each segment is filled up to whole blocks, encrypted and framed. The receiver does
not know of segments. It decrypts each frame and appends it to its cache, until as many bytes are there as the
header at the beginning of the cache says. As the cut is a multiple of the block only the last segment is filled up,
so what has been cached is the beginning of the message all along.
-/

namespace Best1307.Tota

open Framing

/-- `OP_TOTA_STRING`, the first command code. -/
def opTotaString : Nat := 0x1000

def opTotaCommandCount : Nat := 0x9101

def dongleDataFrame : Nat := 624

/-- The codes in the table of command handlers. No command in it needs a response. -/
structure CmdTable where
  codes : List Nat
  valid : ∀ code ∈ codes, opTotaString ≤ code ∧ code < opTotaCommandCount

/-- `AES128_CBC_encrypt_buffer`, which the decryption inverts on whole blocks. -/
structure Cipher (cfg : Config) where
  aesEncrypt : List UInt8 → List UInt8 → List UInt8
  length_aesEncrypt : ∀ key data, (aesEncrypt key data).length = data.length
  decrypt_encrypt : ∀ key data, data.length % encryptKeySize = 0 → cfg.aesDecrypt key (aesEncrypt key data) = data

inductive RetStatus
  | noError | invalidCmd | parameterLengthTooShort
  deriving DecidableEq, Repr

def halfBytes (n : Nat) : List UInt8 := [UInt8.ofNat n, UInt8.ofNat (n / 2 ^ 8)]

/-- `cmdCode` and `paramLen` of a payload -/
def cmdHeader (opCode dataLen : Nat) : List UInt8 := halfBytes opCode ++ halfBytes dataLen

def zeroPad (input : List UInt8) : List UInt8 := input ++ List.replicate (paddedLen input.length - input.length) 0

def totaEncrypt {cfg : Config} (cipher : Cipher cfg) (key input : List UInt8) : List UInt8 :=
  cipher.aesEncrypt key (zeroPad input)

/-- The loop of `app_tota_send_data`: `sendBuf` is what lies in the buffer already, and a pass that goes round again
has sent some of the `leftBytes`, which bounds the passes. -/
def sendLoop : Nat → List UInt8 → List UInt8 → Nat → List (List UInt8)
  | 0, _, _, _ => []
  | passes + 1, sendBuf, pData, leftBytes =>
      let sendBytes := if leftBytes ≤ dongleDataFrame then leftBytes else dongleDataFrame
      let segment := sendBuf ++ pData.take (sendBytes - sendBuf.length)
      if 0 < leftBytes - sendBytes then
        segment :: sendLoop passes [] (pData.drop (sendBytes - sendBuf.length)) (leftBytes - sendBytes)
      else [segment]

/-- The segments the loop sends for a command. -/
def sendSegments (opCode : Nat) (data : List UInt8) : List (List UInt8) :=
  sendLoop (data.length + 4) (cmdHeader opCode data.length) data (data.length + 4)

/-- `app_tota_send_data`: whether it succeeds, and the frames it sends; a segment that cannot be packed is not sent. -/
def appTotaSendData (cfg : Config) (cipher : Cipher cfg) (table : CmdTable) (session : Session) (opCode : Nat)
    (data : List UInt8) : Bool × List (List UInt8) :=
  if opTotaCommandCount ≤ opCode then (false, [])
  else if opCode ∉ table.codes then (false, [])
  else if session.connectStatus ≠ .shakeHanded then (false, [])
  else
    (true, (sendSegments opCode data).filterMap fun segment =>
      appTotaTxPack cfg (totaEncrypt cipher session.key segment))

/-- `app_tota_cmd_received`: its status, and what it calls the handler of the command with. -/
def appTotaCmdReceived (table : CmdTable) (ptrData : List UInt8) : RetStatus × Option (Nat × List UInt8) :=
  let cmdCode := (ptrData.getD 0 0).toNat + 2 ^ 8 * (ptrData.getD 1 0).toNat
  if opTotaCommandCount ≤ cmdCode ∨ cmdCode < opTotaString then (.invalidCmd, none)
  else if ptrData.length % 2 ^ 16 < TotaEnv.paramLen ptrData + totaDataHeadSize then (.parameterLengthTooShort, none)
  else
    (.noError,
      if cmdCode ∈ table.codes then some (cmdCode, slice ptrData totaDataHeadSize (TotaEnv.paramLen ptrData)) else none)

/-- What `app_tota_store` returns for one payload, and the state it leaves. -/
def storedOf (cfg : Config) (env : TotaEnv) (p : List UInt8) : List (StoreStatus × TotaEnv) :=
  (handedOf cfg env p).map env.appTotaStore

/-- What it returns for several, each in the state it is passed on in. -/
def storedAlong (cfg : Config) : TotaEnv → List (List UInt8) → List (StoreStatus × TotaEnv)
  | _, [] => []
  | env, p :: payloads =>
      storedOf cfg env p ++ ((passStep cfg env p).map fun env' => storedAlong cfg env' payloads).getD []

/-- The caches `app_tota_cmd_received` is called with. -/
def dispatched (stored : List (StoreStatus × TotaEnv)) : List (List UInt8) :=
  stored.filterMap fun (status, env) => if status = .ok then some env.cache.bytes else none

/-! ### Cutting -/

theorem sendLoop_cut {passes leftBytes : Nat} {sendBuf pData : List UInt8} (hpasses : leftBytes ≤ passes)
    (hpos : 0 < leftBytes) (hleft : sendBuf.length + pData.length = leftBytes)
    (hbuf : sendBuf.length ≤ dongleDataFrame) :
    Cut dongleDataFrame (sendBuf ++ pData) (sendLoop passes sendBuf pData leftBytes) := by
  induction passes generalizing sendBuf pData leftBytes with
  | zero => omega
  | succ passes ih =>
      have hlength : (sendBuf ++ pData).length = leftBytes := by rw [List.length_append, hleft]
      rw [sendLoop]
      by_cases hshort : leftBytes ≤ dongleDataFrame
      · simp only [if_pos hshort, Nat.sub_self, Nat.lt_irrefl, if_false]
        rw [List.take_of_length_le (by omega)]
        exact .last (by omega)
      · simp only [if_neg hshort]
        rw [if_pos (by omega)]
        have htake : sendBuf ++ pData.take (dongleDataFrame - sendBuf.length) =
            (sendBuf ++ pData).take dongleDataFrame := by
          rw [List.take_append, List.take_of_length_le hbuf]
        have hdrop : pData.drop (dongleDataFrame - sendBuf.length) = (sendBuf ++ pData).drop dongleDataFrame := by
          rw [List.drop_append, List.drop_of_length_le hbuf, List.nil_append]
        rw [htake, hdrop]
        refine .more (by omega) ?_
        have hrest := @ih (leftBytes - dongleDataFrame) [] ((sendBuf ++ pData).drop dongleDataFrame)
          (by have : 0 < dongleDataFrame := by decide
              omega) (by omega) (by rw [List.length_nil, List.length_drop]; omega) (Nat.zero_le _)
        rw [List.nil_append] at hrest
        exact hrest

/-! ### Padding -/

theorem paddedLen_mod (n : Nat) : paddedLen n % 16 = 0 := by
  rw [paddedLen, encryptKeySize]
  split <;> omega

theorem le_paddedLen (n : Nat) : n ≤ paddedLen n := by
  rw [paddedLen, encryptKeySize]
  split <;> omega

theorem paddedLen_of_mod {n : Nat} (h : n % 16 = 0) : paddedLen n = n := if_pos h

theorem paddedLen_add {blocks n : Nat} (h : blocks % 16 = 0) : paddedLen (blocks + n) = blocks + paddedLen n := by
  rw [paddedLen, paddedLen, encryptKeySize]
  split <;> split <;> omega

theorem paddedLen_le_frame {n : Nat} (h : n ≤ dongleDataFrame) : paddedLen n ≤ dongleDataFrame := by
  rw [dongleDataFrame] at h ⊢
  rw [paddedLen, encryptKeySize]
  split <;> omega

theorem length_zeroPad (input : List UInt8) : (zeroPad input).length = paddedLen input.length := by
  have hle := le_paddedLen input.length
  rw [zeroPad, List.length_append, List.length_replicate]
  omega

theorem zeroPad_of_mod {input : List UInt8} (h : input.length % 16 = 0) : zeroPad input = input := by
  rw [zeroPad, paddedLen_of_mod h, Nat.sub_self, List.replicate_zero, List.append_nil]

theorem zeroPad_append {blocks input : List UInt8} (h : blocks.length % 16 = 0) :
    zeroPad (blocks ++ input) = blocks ++ zeroPad input := by
  rw [zeroPad, zeroPad, List.length_append, paddedLen_add h, Nat.add_sub_add_left, List.append_assoc]

/-! ### One segment -/

section Segment

variable {cfg : Config} {cipher : Cipher cfg} {env env' : TotaEnv} {segment plain p : List UInt8}

theorem length_totaEncrypt (cipher : Cipher cfg) (key segment : List UInt8) :
    (totaEncrypt cipher key segment).length = paddedLen segment.length := by
  rw [totaEncrypt, cipher.length_aesEncrypt, length_zeroPad]

/-- The receiver hands over a segment as it was, filled up to whole blocks. -/
theorem handedOf_totaEncrypt (hshake : env.connectStatus = .shakeHanded) :
    handedOf cfg env (totaEncrypt cipher env.key segment) = [zeroPad segment] := by
  have hmod : (totaEncrypt cipher env.key segment).length % 16 = 0 := by
    rw [length_totaEncrypt]
    exact paddedLen_mod _
  have hblocks : (zeroPad segment).length % encryptKeySize = 0 := by
    rw [length_zeroPad]
    exact paddedLen_mod _
  simp only [handedOf, hshake]
  rw [paddedLen_of_mod hmod, Nat.sub_self, List.replicate_zero, List.append_nil, totaEncrypt,
    cipher.decrypt_encrypt _ _ hblocks]

/-- An encrypted segment fits a frame, and the buffer it is decrypted from. -/
theorem room_totaEncrypt (cipher : Cipher cfg) (env : TotaEnv) (key : List UInt8)
    (hseg : segment.length ≤ dongleDataFrame) :
    (totaEncrypt cipher key segment).length + 16 ≤ maxSppPacketSize cfg ∧
      Roomy cfg env (totaEncrypt cipher key segment) := by
  have hlength := length_totaEncrypt cipher key segment
  have hframe := paddedLen_le_frame hseg
  have hmax := maxSppPacketSize_eq cfg
  have hsame := paddedLen_of_mod (paddedLen_mod segment.length)
  have hoffset : totaPacketBufOffset = 8 := rfl
  have hdongle : dongleDataFrame = 624 := rfl
  refine ⟨by omega, fun _ => ?_⟩
  rw [hlength, hsame]
  omega

theorem passStep_shakeHanded (hshake : env.connectStatus = .shakeHanded) (hroom : Roomy cfg env p)
    (hplain : handedOf cfg env p = [plain]) :
    passStep cfg env p = some (TotaEnv.afterStore cfg (env.appTotaStore plain)) := by
  simp only [handedOf, hshake, List.cons.injEq, and_true] at hplain
  simp only [passStep, passOn, hshake, totaDecrypt]
  rw [if_pos (hroom hshake), hplain]
  rfl

theorem appTotaStore_eq (hfits : env.cache.bytes.length + plain.length ≤ totaDataCacheBufferSize) :
    ∃ cache : DataCache, cache.bytes = env.cache.bytes ++ plain ∧ env.appTotaStore plain =
      (if cache.bytes.length < TotaEnv.paramLen cache.bytes + totaDataHeadSize then .onGoing else .ok,
        { env with handed := env.handed ++ [plain], cache := cache }) := by
  have hlength : (env.cache.bytes ++ plain).length ≤ totaDataCacheBufferSize := by
    rw [List.length_append]
    exact hfits
  have happend : env.cache.append plain = some ⟨env.cache.bytes ++ plain, hlength⟩ := dif_pos hfits
  refine ⟨⟨env.cache.bytes ++ plain, hlength⟩, rfl, ?_⟩
  simp only [TotaEnv.appTotaStore, happend]

/-- A segment that is cut as the sender cuts it and fits the cache is passed on, filled up to whole blocks. -/
theorem pass_segment (cipher : Cipher cfg) (hshake : env.connectStatus = .shakeHanded)
    (hseg : segment.length ≤ dongleDataFrame)
    (hfits : env.cache.bytes.length + (zeroPad segment).length ≤ totaDataCacheBufferSize) :
    ∃ cache : DataCache, cache.bytes = env.cache.bytes ++ zeroPad segment ∧
      env.appTotaStore (zeroPad segment) =
        (if cache.bytes.length < TotaEnv.paramLen cache.bytes + totaDataHeadSize then .onGoing else .ok,
          { env with handed := env.handed ++ [zeroPad segment], cache := cache }) ∧
      handedOf cfg env (totaEncrypt cipher env.key segment) = [zeroPad segment] ∧
      passStep cfg env (totaEncrypt cipher env.key segment) =
        some (TotaEnv.afterStore cfg (env.appTotaStore (zeroPad segment))) := by
  obtain ⟨cache, hbytes, hstore⟩ := appTotaStore_eq hfits
  have hhanded := @handedOf_totaEncrypt cfg cipher env segment hshake
  have hroom := (room_totaEncrypt cipher env env.key hseg).2
  exact ⟨cache, hbytes, hstore, hhanded, passStep_shakeHanded hshake hroom hhanded⟩

end Segment

/-! ### The header -/

theorem toNat_ofNat_div {n : Nat} (h : n < 2 ^ 16) :
    (UInt8.ofNat n).toNat + 2 ^ 8 * (UInt8.ofNat (n / 2 ^ 8)).toNat = n := by
  simp only [UInt8.toNat_ofNat']
  omega

theorem paramLen_header (opCode : Nat) {dataLen : Nat} {bytes : List UInt8} (hlen : dataLen < 2 ^ 16)
    (h : cmdHeader opCode dataLen <+: bytes) : TotaEnv.paramLen bytes = dataLen := by
  obtain ⟨rest, rfl⟩ := h
  exact toNat_ofNat_div hlen

theorem cmdCode_header {opCode dataLen : Nat} {bytes : List UInt8} (hcode : opCode < 2 ^ 16)
    (h : cmdHeader opCode dataLen <+: bytes) :
    (bytes.getD 0 0).toNat + 2 ^ 8 * (bytes.getD 1 0).toNat = opCode := by
  obtain ⟨rest, rfl⟩ := h
  exact toNat_ofNat_div hcode

/-! ### All segments -/

section Segments

variable {cfg : Config} {env : TotaEnv} {opCode dataLen : Nat}

/-- The segments of a message are cached one after the other, and with the last one the message is handled. -/
theorem pass_segments (cipher : Cipher cfg) {done rest : List UInt8} {segments : List (List UInt8)}
    (hcut : Cut dongleDataFrame rest segments) (hshake : env.connectStatus = .shakeHanded)
    (hcache : env.cache.bytes = done) (hheader : cmdHeader opCode dataLen <+: done ++ rest)
    (hlength : (done ++ rest).length = dataLen + 4) (hblocks : done.length % 16 = 0)
    (hfits : paddedLen (dataLen + 4) ≤ totaDataCacheBufferSize) :
    (storedAlong cfg env (segments.map (totaEncrypt cipher env.key))).map (·.1) =
        List.replicate (segments.length - 1) .onGoing ++ [.ok] ∧
      dispatched (storedAlong cfg env (segments.map (totaEncrypt cipher env.key))) = [zeroPad (done ++ rest)] ∧
      ∃ env', run (passStep cfg) env (segments.map (totaEncrypt cipher env.key)) = some env' ∧
        env'.toSession = cfg.cmdReceived (zeroPad (done ++ rest)) env.toSession ∧ env'.cache = .empty := by
  have hsize : dataLen < 2 ^ 16 := by
    have hle := le_paddedLen (dataLen + 4)
    have hcacheSize : totaDataCacheBufferSize = 4132 := rfl
    omega
  rw [List.length_append] at hlength
  induction hcut generalizing env done with
  | @last rest hlen =>
      have hpadded : paddedLen (dataLen + 4) = done.length + paddedLen rest.length := by
        rw [← hlength, paddedLen_add hblocks]
      obtain ⟨cache, hbytes, hstore, hhanded, hpass⟩ := pass_segment cipher hshake hlen (by
        rw [hcache, length_zeroPad]
        omega)
      rw [hcache, ← zeroPad_append hblocks] at hbytes
      have hparam : TotaEnv.paramLen cache.bytes = dataLen := by
        refine paramLen_header opCode hsize (hheader.trans ?_)
        rw [hbytes]
        exact List.prefix_append _ _
      have hdone : ¬ cache.bytes.length < TotaEnv.paramLen cache.bytes + totaDataHeadSize := by
        have hle := le_paddedLen (done ++ rest).length
        rw [List.length_append] at hle
        rw [hparam, hbytes, length_zeroPad, List.length_append]
        have hhead : totaDataHeadSize = 4 := rfl
        omega
      rw [if_neg hdone] at hstore
      rw [hstore] at hpass
      simp only [List.map_cons, List.map_nil, storedAlong, storedOf, hhanded, hstore, hpass, Option.map_some,
        Option.getD_some, List.append_nil, dispatched, List.filterMap_cons, List.filterMap_nil, if_true, hbytes,
        List.length_singleton, Nat.sub_self, List.replicate_zero, List.nil_append, run_cons, run_nil,
        Option.bind_some, Option.some.injEq, true_and, exists_eq_left']
      exact ⟨congrArg (cfg.cmdReceived · env.toSession) hbytes, rfl⟩
  | @more rest segments hlen hcut ih =>
      have hframe : dongleDataFrame = 624 := rfl
      have hseg : (rest.take dongleDataFrame).length = 624 := by
        rw [List.length_take]
        omega
      have hplain : zeroPad (rest.take dongleDataFrame) = rest.take dongleDataFrame := zeroPad_of_mod (by rw [hseg])
      have hjoin : done ++ rest.take dongleDataFrame ++ rest.drop dongleDataFrame = done ++ rest := by
        rw [List.append_assoc, List.take_append_drop]
      have hle := le_paddedLen (dataLen + 4)
      obtain ⟨cache, hbytes, hstore, hhanded, hpass⟩ := pass_segment cipher hshake (Nat.le_of_eq hseg) (by
        rw [hcache, hplain, hseg]
        omega)
      rw [hplain] at hbytes hstore hhanded hpass
      rw [hcache] at hbytes
      have hparam : TotaEnv.paramLen cache.bytes = dataLen := by
        refine paramLen_header opCode hsize ?_
        rw [hbytes]
        refine List.prefix_of_prefix_length_le hheader ?_ ?_
        · rw [← hjoin]
          exact List.prefix_append _ _
        · rw [List.length_append, hseg]
          exact Nat.le_trans (show 4 ≤ 624 by decide) (Nat.le_add_left _ _)
      have hmore : cache.bytes.length < TotaEnv.paramLen cache.bytes + totaDataHeadSize := by
        rw [hparam, hbytes, List.length_append, hseg]
        have hhead : totaDataHeadSize = 4 := rfl
        omega
      rw [if_pos hmore] at hstore
      rw [hstore] at hpass
      have hnonempty : segments.length ≠ 0 := by cases hcut <;> exact Nat.succ_ne_zero _
      obtain ⟨hstatus, hdispatched, env', hrun, hsession, hempty⟩ := @ih
        { env with handed := env.handed ++ [rest.take dongleDataFrame], cache := cache }
        (done ++ rest.take dongleDataFrame) hshake hbytes (by rw [hjoin]; exact hheader)
        (by rw [List.length_append, hseg, List.length_drop]; omega)
        (by rw [List.length_append, hseg]; omega)
      rw [hjoin] at hdispatched hsession
      refine ⟨?_, ?_, env', ?_, hsession, hempty⟩
      · simp only [List.map_cons, storedAlong, storedOf, hhanded, hstore, hpass, Option.map_some, Option.getD_some,
          List.map_nil, List.map_append, TotaEnv.afterStore, List.length_cons, Nat.add_sub_cancel]
        rw [hstatus, ← List.append_assoc, List.singleton_append, ← List.replicate_succ,
          Nat.sub_add_cancel (Nat.pos_of_ne_zero hnonempty)]
      · simp only [List.map_cons, storedAlong, storedOf, hhanded, hstore, hpass, Option.map_some, Option.getD_some,
          List.map_nil, TotaEnv.afterStore, dispatched, List.singleton_append, List.filterMap_cons, reduceCtorEq,
          if_false]
        exact hdispatched
      · rw [List.map_cons, run_cons, hpass, Option.bind_some]
        exact hrun

end Segments

/-! ### A message -/

section Message

variable {cfg : Config}

theorem fits_frames (env : TotaEnv) {payloads frames : List (List UInt8)} (hpacked : Packed cfg payloads frames)
    (hpos : ∀ p ∈ payloads, p ≠ []) : Along (rxStep cfg) (Fits cfg) (env.withQueue []) frames := by
  induction hpacked generalizing env with
  | nil => trivial
  | @cons p f payloads frames hpack _ ih =>
      obtain ⟨hp, hpos⟩ := List.forall_mem_cons.mp hpos
      have hfits : Fits cfg (env.withQueue []) f := by
        have hlength := length_pack hpack
        have hmax := pack_fits hpack
        rw [Fits, totaRxBufSize, TotaEnv.withQueue_rxDataQueue, List.length_nil]
        omega
      refine ⟨hfits, fun env' hstep => ?_⟩
      have hone : Packed cfg [p] [f] := .cons hpack .nil
      have hqueue : [] ++ f = [f].flatten ++ [] := by
        rw [List.flatten_singleton, List.append_nil, List.nil_append]
      rw [rxStep_frames hone (fun q hq => List.mem_singleton.mp hq ▸ hp) (.inl rfl) hqueue hfits,
        Option.map_eq_some_iff] at hstep
      obtain ⟨next, -, rfl⟩ := hstep
      exact ih next hpos

theorem packed_segments (cipher : Cipher cfg) (key : List UInt8) {bytes : List UInt8} {segments : List (List UInt8)}
    (hcut : Cut dongleDataFrame bytes segments) :
    Packed cfg (segments.map (totaEncrypt cipher key))
      (segments.filterMap fun segment => appTotaTxPack cfg (totaEncrypt cipher key segment)) := by
  have hpack : ∀ segment ∈ segments, (appTotaTxPack cfg (totaEncrypt cipher key segment)).isSome := by
    intro segment hsegment
    have hroom := (room_totaEncrypt cipher (totaCommonInit key) key (hcut.length_le hsegment)).1
    rw [appTotaTxPack, totaPacketVerifySize_eq, if_neg (by omega)]
    rfl
  clear hcut
  induction segments with
  | nil => exact .nil
  | cons segment segments ih =>
      obtain ⟨f, hf⟩ := Option.isSome_iff_exists.mp (hpack segment List.mem_cons_self)
      rw [List.map_cons, List.filterMap_cons, hf]
      exact .cons hf (ih fun s hs => hpack s (List.mem_cons_of_mem segment hs))

/-- A complete command is handled with its own data, whatever fills up its last block. -/
theorem cmdReceived_header {table : CmdTable} {opCode : Nat} {data : List UInt8} (hcode : opCode ∈ table.codes)
    (hfits : paddedLen (data.length + 4) ≤ totaDataCacheBufferSize) :
    appTotaCmdReceived table (zeroPad (cmdHeader opCode data.length ++ data)) = (.noError, some (opCode, data)) := by
  obtain ⟨hstring, hcount⟩ := table.valid opCode hcode
  have hle := le_paddedLen (data.length + 4)
  have hcacheSize : totaDataCacheBufferSize = 4132 := rfl
  have hlast : opTotaCommandCount = 0x9101 := rfl
  have hprefix : cmdHeader opCode data.length <+: zeroPad (cmdHeader opCode data.length ++ data) :=
    (List.prefix_append _ data).trans (List.prefix_append _ _)
  have hlength : (zeroPad (cmdHeader opCode data.length ++ data)).length = paddedLen (data.length + 4) := by
    rw [length_zeroPad, List.length_append, Nat.add_comm]
    rfl
  have hslice : slice (zeroPad (cmdHeader opCode data.length ++ data)) totaDataHeadSize data.length = data := by
    rw [zeroPad, List.append_assoc]
    exact slice_middle rfl rfl
  have hhead : totaDataHeadSize = 4 := rfl
  simp only [appTotaCmdReceived, cmdCode_header (by omega) hprefix, paramLen_header opCode (by omega) hprefix,
    hlength, hslice, hcode, if_true]
  rw [if_neg (by omega), if_neg (by omega)]

/-- A command of both tables whose padded length fits the cache is sent as frames that fit the receiver's queue one
by one. However they are cut into chunks that fit it, the receiver stores the segments one after the other, all but
the last of them with more to come; with the last one it calls the handler of the command, once, with the data, and
resets the cache. -/
theorem message_reassembled (cfg : Config) (cipher : Cipher cfg) (sender receiver : CmdTable) (session : Session)
    (env : TotaEnv) (opCode : Nat) (data : List UInt8) (hsender : opCode ∈ sender.codes)
    (hreceiver : opCode ∈ receiver.codes) (hshake : session.connectStatus = .shakeHanded)
    (hshake' : env.connectStatus = .shakeHanded) (hkey : session.key = env.key) (hqueue : env.rxDataQueue = [])
    (hcache : env.cache = .empty) (hfits : paddedLen (data.length + 4) ≤ totaDataCacheBufferSize) :
    ∃ payloads frames, appTotaSendData cfg cipher sender session opCode data = (true, frames) ∧
      Packed cfg payloads frames ∧ Along (rxStep cfg) (Fits cfg) env frames ∧
      (storedAlong cfg env payloads).map (·.1) = List.replicate (frames.length - 1) .onGoing ++ [.ok] ∧
      dispatched (storedAlong cfg env payloads) = [zeroPad (cmdHeader opCode data.length ++ data)] ∧
      appTotaCmdReceived receiver (zeroPad (cmdHeader opCode data.length ++ data)) = (.noError, some (opCode, data)) ∧
      ∀ chunks, chunks.flatten = frames.flatten → Along (rxStep cfg) (Fits cfg) env chunks →
        ∃ env', run (rxStep cfg) env chunks = some env' ∧ env'.rxDataQueue = [] ∧ env'.cache = .empty ∧
          env'.resets = env.resets ∧ env'.handed = env.handed ++ handedAlong cfg env payloads ∧
          env'.toSession = cfg.cmdReceived (zeroPad (cmdHeader opCode data.length ++ data)) env.toSession := by
  obtain ⟨hstring, hcount⟩ := sender.valid opCode hsender
  have hheader : (cmdHeader opCode data.length).length = 4 := rfl
  have hlength : ([] ++ (cmdHeader opCode data.length ++ data)).length = data.length + 4 := by
    rw [List.nil_append, List.length_append, hheader, Nat.add_comm]
  have hsize : data.length < 2 ^ 16 := by
    have hle := le_paddedLen (data.length + 4)
    have hcacheSize : totaDataCacheBufferSize = 4132 := rfl
    omega
  have hcut : Cut dongleDataFrame (cmdHeader opCode data.length ++ data) (sendSegments opCode data) :=
    sendLoop_cut (Nat.le_refl _) (Nat.succ_pos _) (by rw [hheader, Nat.add_comm]) (by rw [hheader]; decide)
  have hpacked := packed_segments cipher env.key hcut
  have hsend : appTotaSendData cfg cipher sender session opCode data = (true,
      (sendSegments opCode data).filterMap fun segment =>
        appTotaTxPack cfg (totaEncrypt cipher env.key segment)) := by
    rw [appTotaSendData, if_neg (by omega), if_neg (not_not.mpr hsender), if_neg (not_not.mpr hshake), hkey]
  obtain ⟨hstatus, hdispatched, env', hpass, hsession, hempty⟩ := pass_segments cipher hcut hshake'
    (show env.cache.bytes = [] by rw [hcache]; rfl) (by exact List.prefix_append _ _) hlength rfl hfits
  rw [List.nil_append] at hdispatched hsession
  have hne : cmdHeader opCode data.length ++ data ≠ [] :=
    List.append_ne_nil_of_left_ne_nil (List.cons_ne_nil _ _) data
  have hpos : ∀ p ∈ (sendSegments opCode data).map (totaEncrypt cipher env.key), p ≠ [] := by
    intro p hp
    obtain ⟨segment, hsegment, rfl⟩ := List.mem_map.mp hp
    have hsegpos := List.length_pos_iff.mpr (hcut.ne_nil hne (by decide) hsegment)
    refine List.ne_nil_of_length_pos ?_
    rw [length_totaEncrypt]
    exact Nat.lt_of_lt_of_le hsegpos (le_paddedLen _)
  have hroom : Along (passStep cfg) (Roomy cfg) env
      ((sendSegments opCode data).map (totaEncrypt cipher env.key)) := by
    refine along_of_forall fun p hp next => ?_
    obtain ⟨segment, hsegment, rfl⟩ := List.mem_map.mp hp
    exact (room_totaEncrypt cipher next env.key (hcut.length_le hsegment)).2
  have hsame : env.withQueue [] = env := by rw [TotaEnv.withQueue, ← hqueue]
  have hframes := fits_frames env hpacked hpos
  rw [hsame] at hframes
  have hcount' := hpacked.length_eq
  rw [List.length_map] at hcount'
  rw [hcount'] at hstatus
  refine ⟨_, _, hsend, hpacked, hframes, hstatus, hdispatched, cmdReceived_header hreceiver hfits,
    fun chunks hchunks hfitting => ?_⟩
  rw [← hsame] at hfitting
  obtain ⟨k, rest, next, hrest, hcutoff, hpart, hrun⟩ := run_rxStep hpacked hpos (.nil _)
    ⟨[], by rw [List.append_nil, List.nil_append, hchunks]⟩ hfitting hroom
  rw [List.nil_append] at hrest
  obtain ⟨rfl, hall⟩ := cut_all hpacked (hchunks.symm.trans hrest) hcutoff
  rw [hall, hpass] at hpart
  obtain rfl := Option.some.inj hpart
  obtain ⟨hresets, hhanded⟩ := run_passStep_frame hpass
  rw [hsame] at hrun
  exact ⟨env'.withQueue [], hrun, rfl, hempty, hresets, hhanded, hsession⟩

/-! ### A message of two segments

621 bytes under the default key; `segmentCipher` does to the two segments what the cipher does. -/

def defaultKey : List UInt8 :=
  [0x2b, 0x7e, 0x15, 0x16, 0x28, 0xae, 0xd2, 0xa6, 0xab, 0xf7, 0x15, 0x88, 0x09, 0xcf, 0x4f, 0x3c]

def longData : List UInt8 := (List.range 621).map UInt8.ofNat

/-- The bytes of a block, the first one highest -/
def blockBytes (block : Nat) : List UInt8 := (List.range 16).map fun i => UInt8.ofNat (block >>> (8 * (15 - i)))

def firstPlain : List UInt8 := cmdHeader 0x6101 621 ++ longData.take 620

def firstCode : List UInt8 :=
  List.flatMap blockBytes [
    0xba7daaf05dc4c9e1470ba01d3760ffbe, 0x22d847de2f1544b5128ee356c71da3dd, 0x9f5a3f09d63c06f64d925574330342b9,
    0x4ba69cd1ba697b4620ba81bcd28dd9ff, 0x88842617579014c3fff88c16755cda6d, 0xef1510409a913d6440e60e4fbf66a928,
    0xe0817390786349caa69204b18883d18a, 0x2a695dc7a73a76c3cfc278d4b6c9af90, 0x4bf330b3b8e5383221a1d6af3ff69bed,
    0x0c873414a27e3a13faa6ecbf4ac3b502, 0xc235a12eb906f7056d948d46c56dfd68, 0xd36c34a2457ec827aaaaac10b25fd085,
    0xc24b10617ae39c84d4f505a6c8680240, 0xb796e927c1eeffd155511ac5c9b899c6, 0xd0d22f089ce8226978af4de17b8b0870,
    0xc73330824160feec5956ee01d5ac34f4, 0x77c180aedc79c8dbfa20e90fd2db9907, 0xfea3049167a371854502bf653588370e,
    0x2d5b894a86c54c4cc0a3a28328da1605, 0xf206c2194db2aac0e5e0192a2ddfbc8c, 0x50f7efc4f8c9acf1ef8972bb0904c9e2,
    0xb691e53477d917c764728ad0a77dc267, 0xd76c24f2d976f7bd695a81e06b3bc187, 0xc7a6de2822043a91d26c5979e338171e,
    0xb849be60f069128c3fc55f0fc5be8908, 0xcd571f6887e52abb6cf45920961e297f, 0xb73d2a476dfae5a5becedab178684265,
    0xd7b33b996b20a5ab15da2d6a5a5bc010, 0x1882d15f293c2e2080b4a88788031af5, 0x15997bfbd080fba5225e3b39d3862554,
    0x32158736026a19a9ca28e3e1c457a3e7, 0xf9ca6a77bcc766401c9581380f3336a6, 0xe702910a8bd64402a4c31bbdaf980e4b,
    0x63f7bdd86de27fdadfd7428bda356abf, 0x93bc6f2d8d79081ba84fca54c4d4f176, 0xa0d047f3c18e4206dd657b8c7e8bcd89,
    0x34caaf7412429c47b9b06058b932db2a, 0x159d18805eeeca4738915a9b953cea46, 0x1ba2821d217ac5e27f7fd1e44f0c6b43]

def lastPlain : List UInt8 := 108 :: List.replicate 15 0

def lastCode : List UInt8 := blockBytes 0x3d526cf8f792a22a62805f7e095ec982

/-- Exchanges each padded segment and its code. -/
def exchangeSegments : Equiv.Perm (List UInt8) :=
  (Equiv.swap firstPlain firstCode).trans (Equiv.swap lastPlain lastCode)

theorem length_swap {a b : List UInt8} (hlength : a.length = b.length) (data : List UInt8) :
    (Equiv.swap a b data).length = data.length := by
  rw [Equiv.swap_apply_def]
  split
  · rename_i ha
    rw [ha, hlength]
  · split
    · rename_i hb
      rw [hb, hlength]
    · rfl

theorem length_exchangeSegments (data : List UInt8) : (exchangeSegments data).length = data.length := by
  rw [exchangeSegments, Equiv.trans_apply, length_swap (by decide +kernel), length_swap (by decide +kernel)]

theorem length_exchangeSegments_symm (data : List UInt8) : (exchangeSegments.symm data).length = data.length := by
  rw [← length_exchangeSegments (exchangeSegments.symm data), Equiv.apply_symm_apply]

def segmentConfig : Config where
  pack3M := false
  crc32C := crc32Bytes
  aesDecrypt := fun _ data => exchangeSegments.symm data
  length_aesDecrypt := fun _ data => length_exchangeSegments_symm data
  cmdReceived := fun _ session => session

def segmentCipher : Cipher segmentConfig where
  aesEncrypt := fun _ data => exchangeSegments data
  length_aesEncrypt := fun _ data => length_exchangeSegments data
  decrypt_encrypt := fun _ data _ => exchangeSegments.symm_apply_apply data

def oneCommand : CmdTable := ⟨[0x6101], by decide⟩

/-- What the cipher is given are these two segments. -/
example : (sendSegments 0x6101 longData).map zeroPad = [firstPlain, lastPlain] := by decide +kernel

/-- The first segment leaves more to come, and with the second one the message is handled. -/
theorem message_reassembled_twoSegments :
    ∃ payloads frames, appTotaSendData segmentConfig segmentCipher oneCommand ⟨.shakeHanded, defaultKey⟩ 0x6101
        longData = (true, frames) ∧ Packed segmentConfig payloads frames ∧ frames.length = 2 ∧
      (storedAlong segmentConfig { totaCommonInit defaultKey with connectStatus := .shakeHanded } payloads).map (·.1) =
        [.onGoing, .ok] ∧
      dispatched (storedAlong segmentConfig { totaCommonInit defaultKey with connectStatus := .shakeHanded } payloads) =
        [zeroPad (cmdHeader 0x6101 longData.length ++ longData)] ∧
      ∃ env', run (rxStep segmentConfig) { totaCommonInit defaultKey with connectStatus := .shakeHanded } frames =
        some env' ∧ env'.cache = .empty := by
  obtain ⟨payloads, frames, hsend, hpacked, hframes, hstatus, hdispatched, -, hrun⟩ := message_reassembled
    segmentConfig segmentCipher oneCommand oneCommand ⟨.shakeHanded, defaultKey⟩
    { totaCommonInit defaultKey with connectStatus := .shakeHanded } 0x6101 longData (by decide) (by decide) rfl rfl
    rfl rfl rfl (by decide +kernel)
  have htwo : (appTotaSendData segmentConfig segmentCipher oneCommand ⟨.shakeHanded, defaultKey⟩ 0x6101
      longData).2.length = 2 := by decide +kernel
  rw [hsend] at htwo
  rw [htwo] at hstatus
  obtain ⟨env', henv', -, hempty, -⟩ := hrun frames rfl hframes
  exact ⟨payloads, frames, hsend, hpacked, htwo, hstatus, hdispatched, env', henv', hempty⟩

end Message

end Best1307.Tota
