import Mathlib.Data.List.Forall2
import Best1307.Lib.Run
import Best1307.Tota.Receiver

/-!
# From packed payloads to the receiver

The concatenated frames may be cut into chunks anywhere. After every chunk the receiver has taken the whole
frames of what has arrived, in order, and keeps the beginning of the next one.
-/

namespace Best1307.Tota

open Framing

variable {cfg : Config} {env env' : TotaEnv} {p f : List UInt8}

/-- The frames are the payloads, each packed. -/
def Packed (cfg : Config) (payloads frames : List (List UInt8)) : Prop :=
  List.Forall₂ (fun p f => appTotaTxPack cfg p = some f) payloads frames

/-- A payload is passed on; there is no next state after a fault. -/
def passStep (cfg : Config) (env : TotaEnv) (p : List UInt8) : Option TotaEnv := (passOn cfg env p).toOption

/-- The last block of an encrypted payload, filled up, still lies in the buffer on the stack. -/
def Roomy (cfg : Config) (env : TotaEnv) (p : List UInt8) : Prop :=
  env.connectStatus = .shakeHanded → totaPacketBufOffset + paddedLen p.length ≤ maxSppPacketSize cfg

instance (env : TotaEnv) (p : List UInt8) : Decidable (Roomy cfg env p) := by
  unfold Roomy
  infer_instance

def Fits (cfg : Config) (env : TotaEnv) (chunk : List UInt8) : Prop :=
  env.rxDataQueue.length + chunk.length ≤ totaRxBufSize cfg

instance (env : TotaEnv) (chunk : List UInt8) : Decidable (Fits cfg env chunk) :=
  inferInstanceAs (Decidable (_ ≤ _))

/-- What `app_tota_store` gets of one payload: itself while the link is only connected, decrypted once hands
are shaken, nothing before the connection. -/
def handedOf (cfg : Config) (env : TotaEnv) (p : List UInt8) : List (List UInt8) :=
  match env.connectStatus with
  | .connected => [p]
  | .shakeHanded => [cfg.aesDecrypt env.key (p ++ List.replicate (paddedLen p.length - p.length) 0)]
  | .disconnected => []

/-- What it gets of several, each in the state it is passed on in. -/
def handedAlong (cfg : Config) : TotaEnv → List (List UInt8) → List (List UInt8)
  | _, [] => []
  | env, p :: payloads =>
      handedOf cfg env p ++ ((passStep cfg env p).map fun env' => handedAlong cfg env' payloads).getD []

/-! ### Passing on -/

theorem appTotaStore_withQueue (env : TotaEnv) (pdata queue : List UInt8) :
    (env.withQueue queue).appTotaStore pdata =
      ((env.appTotaStore pdata).1, (env.appTotaStore pdata).2.withQueue queue) := by
  simp only [TotaEnv.appTotaStore, TotaEnv.withQueue]
  cases env.cache.append pdata <;> rfl

theorem afterStore_withQueue (stored : StoreStatus × TotaEnv) (queue : List UInt8) :
    TotaEnv.afterStore cfg (stored.1, stored.2.withQueue queue) =
      (TotaEnv.afterStore cfg stored).withQueue queue := by
  obtain ⟨status, env⟩ := stored
  cases status <;> rfl

theorem passOn_withQueue (env : TotaEnv) (p queue : List UInt8) :
    passOn cfg (env.withQueue queue) p = (passOn cfg env p).map fun env' => env'.withQueue queue := by
  have hstatus : (env.withQueue queue).connectStatus = env.connectStatus := rfl
  have hkey : (env.withQueue queue).key = env.key := rfl
  simp only [passOn, hstatus, hkey, appTotaStore_withQueue, afterStore_withQueue]
  cases env.connectStatus with
  | connected => rfl
  | shakeHanded => cases totaDecrypt cfg env.key p <;> rfl
  | disconnected => rfl

theorem afterStore_store_frame (env : TotaEnv) (pdata : List UInt8) :
    (TotaEnv.afterStore cfg (env.appTotaStore pdata)).resets = env.resets ∧
      (TotaEnv.afterStore cfg (env.appTotaStore pdata)).handed = env.handed ++ [pdata] := by
  simp only [TotaEnv.appTotaStore]
  cases env.cache.append pdata with
  | none => exact ⟨rfl, rfl⟩
  | some cache => dsimp only; split <;> exact ⟨rfl, rfl⟩

theorem passStep_isSome : (passStep cfg env p).isSome ↔ Roomy cfg env p := by
  unfold passStep passOn Roomy
  cases env.connectStatus with
  | connected => simp [Except.toOption]
  | disconnected => simp [Except.toOption]
  | shakeHanded =>
      simp only [totaDecrypt, forall_const]
      split <;> simp_all [Except.toOption, Except.map]

theorem passStep_frame (h : passStep cfg env p = some env') :
    env'.resets = env.resets ∧ env'.handed = env.handed ++ handedOf cfg env p := by
  unfold passStep passOn at h
  unfold handedOf
  cases hstatus : env.connectStatus with
  | connected =>
      simp only [hstatus, Except.toOption, Option.some.injEq] at h
      exact h ▸ afterStore_store_frame env p
  | disconnected =>
      simp only [hstatus, Except.toOption, Option.some.injEq] at h
      exact h ▸ ⟨rfl, (List.append_nil _).symm⟩
  | shakeHanded =>
      simp only [hstatus, totaDecrypt] at h
      split at h
      · simp only [Except.map, Except.toOption, Option.some.injEq] at h
        exact h ▸ afterStore_store_frame env _
      · cases h

theorem run_passStep_frame {payloads : List (List UInt8)} (h : run (passStep cfg) env payloads = some env') :
    env'.resets = env.resets ∧ env'.handed = env.handed ++ handedAlong cfg env payloads := by
  induction payloads generalizing env with
  | nil =>
      obtain rfl := Option.some.inj h
      exact ⟨rfl, (List.append_nil _).symm⟩
  | cons p payloads ih =>
      obtain ⟨next, hnext, hrest⟩ := (run_cons_eq_some _).mp h
      obtain ⟨hresets, hhanded⟩ := passStep_frame hnext
      obtain ⟨hresets', hhanded'⟩ := ih hrest
      refine ⟨hresets'.trans hresets, ?_⟩
      rw [hhanded', hhanded, handedAlong, hnext, List.append_assoc]
      rfl

/-- As long as the link is only connected, the payloads are handed over as they are. -/
theorem handedAlong_connected {payloads : List (List UInt8)}
    (h : Along (passStep cfg) (fun env _ => env.connectStatus = .connected) env payloads) :
    handedAlong cfg env payloads = payloads := by
  induction payloads generalizing env with
  | nil => rfl
  | cons p payloads ih =>
      obtain ⟨hstatus, hrest⟩ := h
      have hsome : (passStep cfg env p).isSome := passStep_isSome.mpr fun hshake => by
        rw [hstatus] at hshake
        cases hshake
      obtain ⟨next, hnext⟩ := Option.isSome_iff_exists.mp hsome
      rw [handedAlong, hnext, Option.map_some, Option.getD_some, ih (hrest next hnext)]
      simp only [handedOf, hstatus, List.singleton_append]

/-! ### A packed frame at the head of the queue -/

/-- The header of a packed frame, whatever follows the frame or is still missing of it. -/
theorem packed_header (hpack : appTotaTxPack cfg p = some f) (env : TotaEnv) {queue : List UInt8}
    (hqueue : ∃ more more', queue ++ more = f ++ more') (hlong : 8 ≤ queue.length) :
    (env.withQueue queue).HasHead ∧ (env.withQueue queue).bufLen.toNat = p.length := by
  obtain ⟨more, more', hqueue⟩ := hqueue
  have hhead : slice queue 0 4 = totaHead := by
    rw [← slice_append (by omega), hqueue, pack_eq hpack]
    simp only [List.append_assoc]
    exact slice_left rfl
  have hlen : slice queue 4 4 = wordBytes (UInt32.ofNat p.length) := by
    rw [← slice_append (by omega), hqueue, pack_eq hpack]
    simp only [List.append_assoc]
    exact slice_middle rfl rfl
  refine ⟨hhead, ?_⟩
  rw [← toNat_packedLen hpack, ← wordOfBytes_wordBytes (UInt32.ofNat p.length), ← hlen]
  rfl

/-- The bytes of a frame with this CRC and this tail. -/
def frameOf (body : List UInt8) (crc : UInt32) (tail : List UInt8) : List UInt8 :=
  totaHead ++ wordBytes (UInt32.ofNat body.length) ++ body ++ wordBytes crc ++ tail

theorem length_frameOf {body tail : List UInt8} {crc : UInt32} (htail : tail.length = totaTailSize) :
    (frameOf body crc tail).length = body.length + 16 := by
  simp only [frameOf, List.length_append, length_wordBytes, totaHead, List.length_cons, List.length_nil, htail,
    totaTailSize]
  omega

theorem unpack_frameOf {body tail : List UInt8} (crc : UInt32) (htail : tail.length = totaTailSize)
    (hfits : body.length + 16 ≤ maxSppPacketSize cfg) (env : TotaEnv) (rest : List UInt8)
    (hlong : 16 < (frameOf body crc tail ++ rest).length) :
    appTotaRxUnpack cfg (env.withQueue (frameOf body crc tail ++ rest)) (frameOf body crc tail ++ rest).length =
      if tail ≠ totaTail then .ok (-6, env.withQueue rest)
      else if cfg.crc32C body ≠ crc then .ok (-7, env.withQueue rest)
      else (passOn cfg (env.withQueue rest) body).map fun env' => (0, env') := by
  have hmax := maxSppPacketSize_le cfg
  have hbefore : (totaHead ++ wordBytes (UInt32.ofNat body.length)).length = 8 := rfl
  have hqueue : (frameOf body crc tail ++ rest).length = body.length + 16 + rest.length := by
    rw [List.length_append, length_frameOf htail]
  have hhead : (env.withQueue (frameOf body crc tail ++ rest)).HasHead := by
    show slice (frameOf body crc tail ++ rest) 0 4 = totaHead
    simp only [frameOf, List.append_assoc]
    exact slice_left rfl
  have hlen : (env.withQueue (frameOf body crc tail ++ rest)).bufLen.toNat = body.length := by
    have hword : slice (frameOf body crc tail ++ rest) 4 4 = wordBytes (UInt32.ofNat body.length) := by
      simp only [frameOf, List.append_assoc]
      exact slice_middle rfl rfl
    show (wordOfBytes (slice (frameOf body crc tail ++ rest) 4 4)).toNat = body.length
    rw [hword, wordOfBytes_wordBytes, UInt32.toNat_ofNat']
    exact Nat.mod_eq_of_lt (by omega)
  have hpayload : (env.withQueue (frameOf body crc tail ++ rest)).payload = body := by
    rw [TotaEnv.payload, hlen, TotaEnv.withQueue_rxDataQueue, frameOf, List.append_assoc _ tail,
      List.append_assoc _ (wordBytes _), List.append_assoc _ body]
    exact slice_middle hbefore rfl
  have hcrc : (env.withQueue (frameOf body crc tail ++ rest)).frameCrc = crc := by
    rw [TotaEnv.frameCrc, hlen, TotaEnv.withQueue_rxDataQueue, frameOf, List.append_assoc _ tail,
      List.append_assoc _ (wordBytes _)]
    refine (congrArg wordOfBytes (slice_middle ?_ rfl)).trans (wordOfBytes_wordBytes _)
    rw [List.length_append, hbefore, Nat.add_comm]
  have hend : (env.withQueue (frameOf body crc tail ++ rest)).frameTail = tail := by
    rw [TotaEnv.frameTail, hlen, TotaEnv.withQueue_rxDataQueue, frameOf, List.append_assoc _ tail]
    apply slice_middle _ htail
    rw [List.length_append, List.length_append, hbefore, length_wordBytes]
    omega
  have hdrop : (env.withQueue (frameOf body crc tail ++ rest)).dropFrame = env.withQueue rest := by
    rw [TotaEnv.dropFrame, hlen, ← length_frameOf htail, TotaEnv.withQueue_withQueue,
      TotaEnv.withQueue_rxDataQueue, List.drop_left]
  have hunpack := @unpack_whole cfg (env.withQueue (frameOf body crc tail ++ rest)) hlong hhead
    (by rw [hlen]; exact hfits) (by rw [hlen, TotaEnv.withQueue_rxDataQueue]; omega)
  rw [hend, hcrc, hpayload, hdrop] at hunpack
  exact hunpack

theorem unpack_frame (hpack : appTotaTxPack cfg p = some f) (env : TotaEnv) (rest : List UInt8)
    (hlong : 16 < (f ++ rest).length) :
    appTotaRxUnpack cfg (env.withQueue (f ++ rest)) (f ++ rest).length =
      (passOn cfg (env.withQueue rest) p).map fun env' => (0, env') := by
  have hparts : f = frameOf p (cfg.crc32C p) totaTail := pack_eq hpack
  have hunpack := unpack_frameOf (cfg.crc32C p) rfl (pack_fits hpack) env rest (by rw [← hparts]; exact hlong)
  rw [if_neg (not_not.mpr rfl), if_neg (not_not.mpr rfl), ← hparts] at hunpack
  exact hunpack

theorem unpack_partial (hpack : appTotaTxPack cfg p = some f) {rest : List UInt8} (hstart : rest <+: f)
    (hshort : rest.length < f.length) (hlong : 16 < rest.length) (env : TotaEnv) :
    appTotaRxUnpack cfg (env.withQueue rest) rest.length = .ok (-3, env.withQueue rest) := by
  obtain ⟨more, rfl⟩ := hstart
  have hlength := length_pack hpack
  have hfits := pack_fits hpack
  have hmax := maxSppPacketSize_le cfg
  obtain ⟨hhead, hlen⟩ := packed_header hpack env ⟨more, [], (List.append_nil _).symm⟩ (by omega)
  have htotal := @toNat_totaPacketTotalSize (env.withQueue rest).bufLen (by omega)
  rw [hlen] at htotal
  have hunpack := @unpack_eq cfg (env.withQueue rest) hlong
  rw [htotal, if_neg (not_not.mpr hhead), if_neg (by omega),
    if_pos (show (env.withQueue rest).rxDataQueue.length < _ by rw [TotaEnv.withQueue_rxDataQueue]; omega)] at hunpack
  exact hunpack

/-! ### The loop -/

theorem length_le_flatten {payloads frames : List (List UInt8)} (hpacked : Packed cfg payloads frames) :
    frames.length ≤ frames.flatten.length := by
  induction hpacked with
  | nil => exact Nat.le_refl _
  | cons hpack _ ih =>
      rw [List.flatten_cons, List.length_append, List.length_cons, length_pack hpack]
      omega

/-- Whole frames are taken one after the other; the loop goes on with what stands behind them. An empty frame is
taken only if something does. -/
theorem rxLoop_whole {payloads frames : List (List UInt8)} (hpacked : Packed cfg payloads frames)
    {rest : List UInt8} (hpos : (∀ p ∈ payloads, p ≠ []) ∨ rest ≠ []) (passes : Nat) (env : TotaEnv) :
    (rxLoop cfg (frames.length + passes) (env.withQueue (frames.flatten ++ rest))).toOption =
      (run (passStep cfg) env payloads).bind fun env' => (rxLoop cfg passes (env'.withQueue rest)).toOption := by
  induction hpacked generalizing env with
  | nil => rw [List.flatten_nil, List.nil_append, List.length_nil, Nat.zero_add, run_nil, Option.bind_some]
  | @cons p f payloads frames hpack hpacked ih =>
      have hlong : 16 < (f ++ (frames.flatten ++ rest)).length := by
        rw [List.length_append, List.length_append, length_pack hpack]
        rcases hpos with hpos | hrest
        · have hp := List.length_pos_iff.mpr (hpos p List.mem_cons_self)
          omega
        · have hlength := List.length_pos_iff.mpr hrest
          omega
      have hpasses : (f :: frames).length + passes = frames.length + passes + 1 := by
        rw [List.length_cons]
        omega
      have hpos' : (∀ p ∈ payloads, p ≠ []) ∨ rest ≠ [] :=
        hpos.imp_left fun hpos q hq => hpos q (List.mem_cons_of_mem _ hq)
      rw [hpasses, rxLoop, TotaEnv.withQueue_rxDataQueue, totaPacketVerifySize_eq, List.flatten_cons,
        List.append_assoc, if_pos hlong, unpack_frame hpack env _ hlong, passOn_withQueue, run_cons, passStep]
      cases hpass : passOn cfg env p with
      | error fault => rfl
      | ok env' => exact ih hpos' env'

theorem rxLoop_frames {payloads frames : List (List UInt8)} (hpacked : Packed cfg payloads frames)
    (hpos : ∀ p ∈ payloads, p ≠ []) {rest : List UInt8}
    (hrest : rest = [] ∨ ∃ p f, appTotaTxPack cfg p = some f ∧ rest <+: f ∧ rest.length < f.length)
    {passes : Nat} (hpasses : frames.length ≤ passes) (env : TotaEnv) :
    (rxLoop cfg passes (env.withQueue (frames.flatten ++ rest))).toOption =
      (run (passStep cfg) env payloads).map fun env' => env'.withQueue rest := by
  have hstays : ∀ passes (env : TotaEnv),
      (rxLoop cfg passes (env.withQueue rest)).toOption = some (env.withQueue rest) := fun passes env => by
    cases passes with
    | zero => rfl
    | succ passes =>
        rw [rxLoop, TotaEnv.withQueue_rxDataQueue, totaPacketVerifySize_eq]
        by_cases hlong : 16 < rest.length
        · obtain rfl | ⟨p, f, hpack, hstart, hshort⟩ := hrest
          · exact absurd hlong (by simp)
          · rw [if_pos hlong, unpack_partial hpack hstart hshort hlong]
            rfl
        · rw [if_neg hlong]
          rfl
  obtain ⟨more, rfl⟩ := Nat.exists_eq_add_of_le hpasses
  rw [rxLoop_whole hpacked (.inl hpos), Option.map_eq_bind]
  exact congrArg _ (funext fun env' => hstays more env')

/-- One chunk: the frames it completes are taken, and what is left of the next one stays. -/
theorem rxStep_frames {payloads frames : List (List UInt8)} (hpacked : Packed cfg payloads frames)
    (hpos : ∀ p ∈ payloads, p ≠ []) {rest : List UInt8}
    (hrest : rest = [] ∨ ∃ p f, appTotaTxPack cfg p = some f ∧ rest <+: f ∧ rest.length < f.length)
    {waiting chunk : List UInt8} (hqueue : waiting ++ chunk = frames.flatten ++ rest)
    (hfits : Fits cfg (env.withQueue waiting) chunk) :
    rxStep cfg (env.withQueue waiting) chunk =
      (run (passStep cfg) env payloads).map fun env' => env'.withQueue rest := by
  rw [Fits] at hfits
  have hpush : (env.withQueue waiting).totaRxQueuePush cfg chunk =
      some (env.withQueue (frames.flatten ++ rest)) := by
    rw [TotaEnv.totaRxQueuePush, if_pos hfits, TotaEnv.withQueue_withQueue, TotaEnv.withQueue_rxDataQueue,
      hqueue]
  have hpasses : frames.length ≤ (frames.flatten ++ rest).length := by
    rw [List.length_append]
    exact Nat.le_trans (length_le_flatten hpacked) (Nat.le_add_right _ _)
  rw [rxStep, sAppTotaRx, hpush]
  exact rxLoop_frames hpacked hpos hrest hpasses env

/-! ### A run of chunks -/

theorem Packed.exists_payload {payloads frames : List (List UInt8)} (hpacked : Packed cfg payloads frames)
    (hf : f ∈ frames) : ∃ p, appTotaTxPack cfg p = some f := by
  induction hpacked with
  | nil => cases hf
  | @cons p g _ _ hpack _ ih =>
      rcases List.mem_cons.mp hf with rfl | hf
      · exact ⟨p, hpack⟩
      · exact ih hf

theorem partial_packed {payloads frames : List (List UInt8)} (hpacked : Packed cfg payloads frames) {k : Nat}
    {rest : List UInt8} (hcutoff : Partial (frames.drop k) rest) :
    rest = [] ∨ ∃ p f, appTotaTxPack cfg p = some f ∧ rest <+: f ∧ rest.length < f.length := by
  refine hcutoff.imp_right fun ⟨f, hf, hstart, hshort⟩ => ?_
  obtain ⟨p, hp⟩ := hpacked.exists_payload (List.mem_of_mem_drop (List.mem_of_mem_head? hf))
  exact ⟨p, f, hp, hstart, hshort⟩

theorem run_rxStep {payloads frames chunks : List (List UInt8)} (hpacked : Packed cfg payloads frames)
    (hpos : ∀ p ∈ payloads, p ≠ []) {waiting : List UInt8} (hwaiting : Partial frames waiting)
    (hcut : waiting ++ chunks.flatten <+: frames.flatten)
    (hfits : Along (rxStep cfg) (Fits cfg) (env.withQueue waiting) chunks)
    (hroom : Along (passStep cfg) (Roomy cfg) env payloads) :
    ∃ k rest env', waiting ++ chunks.flatten = (frames.take k).flatten ++ rest ∧
      Partial (frames.drop k) rest ∧ run (passStep cfg) env (payloads.take k) = some env' ∧
      run (rxStep cfg) (env.withQueue waiting) chunks = some (env'.withQueue rest) := by
  induction chunks generalizing env waiting payloads frames with
  | nil => exact ⟨0, waiting, env, List.append_nil _, hwaiting, rfl, rfl⟩
  | cons chunk chunks ih =>
      rw [List.flatten_cons, ← List.append_assoc] at hcut
      obtain ⟨k, rest, -, hqueue, hcutoff⟩ := exists_cut ((List.prefix_append _ _).trans hcut)
      rw [← List.take_append_drop k payloads] at hroom
      obtain ⟨hroom, hroom'⟩ := hroom.append
      obtain ⟨next, hnext⟩ := hroom.exists_run fun _ _ => passStep_isSome.mpr
      have hstep : rxStep cfg (env.withQueue waiting) chunk = some (next.withQueue rest) := by
        rw [rxStep_frames (List.forall₂_take k hpacked) (fun p hp => hpos p (List.mem_of_mem_take hp))
          (partial_packed hpacked hcutoff) hqueue hfits.1, hnext, Option.map_some]
      rw [hqueue, List.append_assoc] at hcut
      obtain ⟨k', rest', env', hrest', hcutoff', hpass, hrun⟩ :=
        ih (List.forall₂_drop k hpacked) (fun p hp => hpos p (List.mem_of_mem_drop hp)) hcutoff
          (prefix_drop hcut) (hfits.2 _ hstep) (hroom' next hnext)
      refine ⟨k + k', rest', env', ?_, by rwa [← List.drop_drop], ?_, ?_⟩
      · rw [List.flatten_cons, ← List.append_assoc, hqueue, List.append_assoc, hrest', List.take_add,
          List.flatten_append, List.append_assoc]
      · rw [List.take_add]
        exact (run_append_eq_some _).mpr ⟨next, hnext, hpass⟩
      · exact (run_cons_eq_some _).mpr ⟨_, hstep, hrun⟩

theorem cut_all {payloads frames : List (List UInt8)} (hpacked : Packed cfg payloads frames) {k : Nat}
    {rest : List UInt8} (hwhole : frames.flatten = (frames.take k).flatten ++ rest)
    (hcutoff : Partial (frames.drop k) rest) : rest = [] ∧ payloads.take k = payloads := by
  have hne : ∀ f ∈ frames, f ≠ [] := fun f hf hnil => by
    obtain ⟨p, hp⟩ := hpacked.exists_payload hf
    have hlength := length_pack hp
    rw [hnil, List.length_nil] at hlength
    omega
  obtain ⟨hnil, hk⟩ := cut_whole hne hwhole hcutoff
  exact ⟨hnil, List.take_of_length_le (hpacked.length_eq ▸ hk)⟩

/-- From an empty queue, on any chunks a stream of packed payloads is cut into: no fault, no reset of the
queue, the whole frames that have arrived are passed on in order, and the queue keeps a proper prefix of the
next one. -/
theorem rx_roundTrip (cfg : Config) (env : TotaEnv) (payloads frames chunks : List (List UInt8))
    (hempty : env.rxDataQueue = []) (hpacked : Packed cfg payloads frames) (hpos : ∀ p ∈ payloads, p ≠ [])
    (hcut : chunks.flatten <+: frames.flatten) (hfits : Along (rxStep cfg) (Fits cfg) env chunks)
    (hroom : Along (passStep cfg) (Roomy cfg) env payloads) :
    ∃ k rest env', run (rxStep cfg) env chunks = some env' ∧
      chunks.flatten = (frames.take k).flatten ++ rest ∧
      env'.rxDataQueue = rest ∧ Partial (frames.drop k) rest ∧ env'.resets = env.resets ∧
      env'.handed = env.handed ++ handedAlong cfg env (payloads.take k) ∧
      (Along (passStep cfg) (fun env _ => env.connectStatus = .connected) env (payloads.take k) →
        env'.handed = env.handed ++ payloads.take k) ∧
      (chunks.flatten = frames.flatten → rest = [] ∧ payloads.take k = payloads) := by
  have hsame : env.withQueue [] = env := by rw [TotaEnv.withQueue, ← hempty]
  rw [← hsame] at hfits
  obtain ⟨k, rest, env', hrest, hcutoff, hpass, hrun⟩ :=
    run_rxStep hpacked hpos (.nil frames) (by rwa [List.nil_append]) hfits hroom
  obtain ⟨hresets, hhanded⟩ := run_passStep_frame hpass
  rw [hsame] at hrun
  refine ⟨k, rest, env'.withQueue rest, hrun, hrest, rfl, hcutoff, hresets, hhanded,
    fun hconnected => ?_, fun hwhole => ?_⟩
  · rw [← handedAlong_connected hconnected]
    exact hhanded
  · exact cut_all hpacked (hwhole.symm.trans hrest) hcutoff

/-- A build with wide packets. The commands it receives do not touch the link. -/
def wideConfig : Config where
  pack3M := true
  crc32C := crc32Bytes
  aesDecrypt := fun _ data => data
  length_aesDecrypt := fun _ _ => rfl
  cmdReceived := fun _ session => session

def twoFrames : List (List UInt8) := [[1], [2, 3]].map fun p => (appTotaTxPack wideConfig p).getD []

/-- The first packet is cut inside its length, the second one inside its CRC. -/
def threeChunks : List (List UInt8) :=
  [twoFrames.flatten.take 6, slice twoFrames.flatten 6 23, twoFrames.flatten.drop 29]

theorem packed_twoFrames : Packed wideConfig [[1], [2, 3]] twoFrames :=
  .cons (by decide +kernel) (.cons (by decide +kernel) .nil)

theorem rx_roundTrip_threeChunks :
    ∃ env', run (rxStep wideConfig) { totaCommonInit [] with connectStatus := .connected } threeChunks =
      some env' ∧ env'.handed = [[1], [2, 3]] := by
  obtain ⟨k, rest, env', hrun, -, -, -, -, -, hhanded, hwhole⟩ :=
    rx_roundTrip wideConfig { totaCommonInit [] with connectStatus := .connected } [[1], [2, 3]] twoFrames
      threeChunks rfl packed_twoFrames (by decide) (by decide +kernel) (by decide +kernel) (by decide +kernel)
  rw [(hwhole (by decide +kernel)).2] at hhanded
  exact ⟨env', hrun, hhanded (by decide +kernel)⟩

/-- The receiver gets every payload as it was packed. -/
def HandsOver (cfg : Config) (env : TotaEnv) : Prop :=
  ∀ payloads frames chunks : List (List UInt8), Packed cfg payloads frames → (∀ p ∈ payloads, p ≠ []) →
    chunks.flatten = frames.flatten → Along (rxStep cfg) (Fits cfg) env chunks →
    ∃ env', run (rxStep cfg) env chunks = some env' ∧ env'.handed = env.handed ++ payloads

/-- Before the connection is up, a packet is taken from the queue and dropped. -/
theorem disconnected_drops : ¬ HandsOver wideConfig (totaCommonInit []) := by
  intro h
  have hpacked : Packed wideConfig [[1]] [(appTotaTxPack wideConfig [1]).getD []] :=
    .cons (by decide +kernel) .nil
  obtain ⟨env', hrun, hhanded⟩ := h [[1]] _ [(appTotaTxPack wideConfig [1]).getD []] hpacked (by decide) rfl
    (by decide +kernel)
  have hdropped : (run (rxStep wideConfig) (totaCommonInit []) [(appTotaTxPack wideConfig [1]).getD []]).map
      (·.handed) = some [] := by decide +kernel
  rw [hrun, Option.map_some, hhanded] at hdropped
  cases hdropped

end Best1307.Tota
