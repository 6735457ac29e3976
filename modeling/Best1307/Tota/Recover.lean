import Best1307.Tota.RoundTrip

/-!
# A damaged frame

A frame that came with its head and its length but with a wrong CRC or tail is taken from the queue, and the
receiver says so by a value that is not zero. The loop of `s_app_tota_rx` takes every such value for the end of
what it can do now: the frames behind the damaged one wait for the next chunk.
-/

namespace Best1307.Tota

/-- The parts of a frame whose head and length are right and whose CRC or tail is not. -/
structure DamagedFrame (cfg : Config) where
  body : List UInt8
  crc : UInt32
  tail : List UInt8
  length_tail : tail.length = totaTailSize
  fits : body.length + totaPacketVerifySize ≤ maxSppPacketSize cfg
  damaged : crc ≠ cfg.crc32C body ∨ tail ≠ totaTail

def DamagedFrame.bytes {cfg : Config} (d : DamagedFrame cfg) : List UInt8 := frameOf d.body d.crc d.tail

/-- A whole packed frame stands at the head. -/
def BeginsWithFrame (cfg : Config) (queue : List UInt8) : Prop :=
  ∃ p f, appTotaTxPack cfg p = some f ∧ f <+: queue

/-- Of the frames in the queue only the damaged one is lost: the payloads before it are handed over, then those of all
whole frames that `more`, which stands behind it, begins with, and the rest of `more` is kept. -/
def Recovers (cfg : Config) (env : TotaEnv) (chunk : List UInt8) (before : List (List UInt8)) (more : List UInt8) :
    Prop :=
  ∃ after frames rest env', Packed cfg after frames ∧ more = frames.flatten ++ rest ∧ ¬ BeginsWithFrame cfg rest ∧
    rxStep cfg env chunk = some env' ∧ env'.handed = env.handed ++ handedAlong cfg env (before ++ after) ∧
    env'.rxDataQueue = rest

variable {cfg : Config} {env : TotaEnv} {chunk more : List UInt8} {before frames : List (List UInt8)}

theorem DamagedFrame.length_bytes (d : DamagedFrame cfg) : d.bytes.length = d.body.length + 16 :=
  length_frameOf d.length_tail

/-! ### Taking it -/

/-- The damage is noticed: the frame is gone from the queue, and nothing else has changed. -/
theorem DamagedFrame.unpack_bytes (d : DamagedFrame cfg) (env : TotaEnv) (hlong : 16 < (d.bytes ++ more).length) :
    ∃ ret, ret ≠ 0 ∧ appTotaRxUnpack cfg (env.withQueue (d.bytes ++ more)) (d.bytes ++ more).length =
      .ok (ret, env.withQueue more) := by
  have hunpack := unpack_frameOf d.crc d.length_tail d.fits env more hlong
  by_cases htail : d.tail = totaTail
  · have hcrc : cfg.crc32C d.body ≠ d.crc := fun h => d.damaged.elim (fun hne => hne h.symm) (fun hne => hne htail)
    rw [if_neg (not_not.mpr htail), if_pos hcrc] at hunpack
    exact ⟨-7, by decide, hunpack⟩
  · rw [if_pos htail] at hunpack
    exact ⟨-6, by decide, hunpack⟩

/-- With it the loop ends, whatever stands behind. An empty frame with nothing behind it is not looked at. -/
theorem DamagedFrame.rxLoop_bytes (d : DamagedFrame cfg) (env : TotaEnv) (passes : Nat) :
    rxLoop cfg (passes + 1) (env.withQueue (d.bytes ++ more)) =
      .ok (env.withQueue (if 0 < d.body.length + more.length then more else d.bytes ++ more)) := by
  have hlength : (d.bytes ++ more).length = d.body.length + 16 + more.length := by
    rw [List.length_append, d.length_bytes]
  rw [rxLoop, TotaEnv.withQueue_rxDataQueue, totaPacketVerifySize_eq]
  by_cases hpos : 0 < d.body.length + more.length
  · have hlong : 16 < (d.bytes ++ more).length := by omega
    obtain ⟨ret, hret, hunpack⟩ := d.unpack_bytes env hlong
    rw [if_pos hlong, if_pos hpos, hunpack]
    exact if_pos hret
  · have hshort : ¬ 16 < (d.bytes ++ more).length := by omega
    rw [if_neg hshort, if_neg hpos]

/-- The frames before the damaged one are passed on, and it is the last one that is taken. -/
theorem rxStep_damaged (hpacked : Packed cfg before frames) (d : DamagedFrame cfg)
    (hqueue : env.rxDataQueue ++ chunk = frames.flatten ++ (d.bytes ++ more)) (hfits : Fits cfg env chunk) :
    rxStep cfg env chunk = (run (passStep cfg) env before).map fun env' =>
      env'.withQueue (if 0 < d.body.length + more.length then more else d.bytes ++ more) := by
  have hpush : env.totaRxQueuePush cfg chunk = some (env.withQueue (frames.flatten ++ (d.bytes ++ more))) := by
    rw [Fits] at hfits
    rw [TotaEnv.totaRxQueuePush, if_pos hfits, hqueue]
  have hne : d.bytes ++ more ≠ [] := by
    apply List.ne_nil_of_length_pos
    rw [List.length_append, d.length_bytes]
    omega
  obtain ⟨passes, hpasses⟩ : ∃ passes, (frames.flatten ++ (d.bytes ++ more)).length =
      frames.length + (passes + 1) := by
    have hframes := length_le_flatten hpacked
    refine ⟨(frames.flatten ++ (d.bytes ++ more)).length - frames.length - 1, ?_⟩
    rw [List.length_append, List.length_append, d.length_bytes]
    omega
  rw [rxStep, sAppTotaRx, hpush]
  show (rxLoop cfg (frames.flatten ++ (d.bytes ++ more)).length _).toOption = _
  rw [hpasses, rxLoop_whole hpacked (.inr hne), Option.map_eq_bind]
  apply congrArg
  funext env'
  rw [d.rxLoop_bytes]
  rfl

/-! ### What follows it -/

theorem run_passStep_isSome {payloads : List (List UInt8)} :
    (run (passStep cfg) env payloads).isSome ↔ Along (passStep cfg) (Roomy cfg) env payloads := by
  induction payloads generalizing env with
  | nil => exact iff_of_true rfl trivial
  | cons p payloads ih =>
      rw [run_cons, Along, ← passStep_isSome]
      cases hpass : passStep cfg env p with
      | none => exact iff_of_false Bool.false_ne_true fun h => Bool.false_ne_true h.1
      | some next =>
          simp only [Option.bind_some, ih, Option.isSome_some, true_and, Option.some.injEq, forall_eq']

theorem rxStep_isSome (hpacked : Packed cfg before frames) (d : DamagedFrame cfg)
    (hqueue : env.rxDataQueue ++ chunk = frames.flatten ++ (d.bytes ++ more)) :
    (rxStep cfg env chunk).isSome ↔ Fits cfg env chunk ∧ Along (passStep cfg) (Roomy cfg) env before := by
  by_cases hfits : Fits cfg env chunk
  · rw [rxStep_damaged hpacked d hqueue hfits, Option.isSome_map, run_passStep_isSome]
    exact (and_iff_right hfits).symm
  · have hfull : ¬ env.rxDataQueue.length + chunk.length ≤ totaRxBufSize cfg := hfits
    rw [rxStep, sAppTotaRx, TotaEnv.totaRxQueuePush, if_neg hfull]
    exact iff_of_false Bool.false_ne_true fun h => hfits h.1

/-- A damaged frame is recovered from within its chunk only if no whole frame stands behind it. -/
theorem recovers_iff (cfg : Config) (env : TotaEnv) (chunk more : List UInt8) (before frames : List (List UInt8))
    (d : DamagedFrame cfg) (hpacked : Packed cfg before frames)
    (hqueue : env.rxDataQueue ++ chunk = frames.flatten ++ (d.bytes ++ more)) :
    Recovers cfg env chunk before more ↔
      (Fits cfg env chunk ∧ Along (passStep cfg) (Roomy cfg) env before ∧ 0 < d.body.length + more.length) ∧
        ¬ BeginsWithFrame cfg more := by
  constructor
  · rintro ⟨after, frames', rest, env', hpacked', rfl, hrest, hstep, -, hleft⟩
    have hsome := (rxStep_isSome hpacked d hqueue).mp (Option.isSome_of_eq_some hstep)
    rw [rxStep_damaged hpacked d hqueue hsome.1, Option.map_eq_some_iff] at hstep
    obtain ⟨passed, -, rfl⟩ := hstep
    rw [TotaEnv.withQueue_rxDataQueue] at hleft
    have hlength := congrArg List.length hleft
    split at hleft
    next hpos =>
      have hnil : frames'.flatten = [] := List.append_left_eq_self.mp hleft
      rw [hnil] at hpos ⊢
      exact ⟨⟨hsome.1, hsome.2, hpos⟩, hrest⟩
    next hpos =>
      rw [if_neg hpos, List.length_append, d.length_bytes, List.length_append] at hlength
      omega
  · rintro ⟨⟨hfits, hroom, hpos⟩, hmore⟩
    obtain ⟨passed, hpassed⟩ := Option.isSome_iff_exists.mp (run_passStep_isSome.mpr hroom)
    refine ⟨[], [], more, passed.withQueue more, .nil, rfl, hmore, ?_, ?_, rfl⟩
    · rw [rxStep_damaged hpacked d hqueue hfits, hpassed, if_pos hpos]
      rfl
    · rw [List.append_nil]
      exact (run_passStep_frame hpassed).2

/-! ### A frame with a wrong CRC -/

/-- The packet `[1]`, the lowest bit of its CRC turned over. -/
def wrongCrc : DamagedFrame wideConfig where
  body := [1]
  crc := crc32Bytes [1] ^^^ 1
  tail := totaTail
  length_tail := rfl
  fits := by decide
  damaged := .inl (by decide +kernel)

def connectedEnv : TotaEnv := { totaCommonInit [] with connectStatus := .connected }

/-- The beginning of a frame behind the damaged one waits, as it should. -/
theorem recovers_wrongCrc :
    Recovers wideConfig connectedEnv (twoFrames.flatten ++ (wrongCrc.bytes ++ totaHead)) [[1], [2, 3]] totaHead := by
  apply (recovers_iff wideConfig connectedEnv _ totaHead [[1], [2, 3]] twoFrames wrongCrc packed_twoFrames rfl).mpr
  refine ⟨by decide +kernel, ?_⟩
  rintro ⟨p, f, hpack, hstart⟩
  have hlength := hstart.length_le
  rw [length_pack hpack] at hlength
  exact absurd hlength (by simp [totaHead])

/-- Two whole frames behind the damaged one are not handed over. -/
theorem not_recovers_wrongCrc :
    ¬ Recovers wideConfig connectedEnv (wrongCrc.bytes ++ twoFrames.flatten) [] twoFrames.flatten := by
  rintro ⟨-, -, rest, env', -, -, hrest, hstep, -, rfl⟩
  have hleft : (rxStep wideConfig connectedEnv (wrongCrc.bytes ++ twoFrames.flatten)).map (·.rxDataQueue) =
      some twoFrames.flatten := by decide +kernel
  rw [hstep, Option.map_some, Option.some.injEq] at hleft
  rw [hleft] at hrest
  apply hrest
  exact ⟨[1], (appTotaTxPack wideConfig [1]).getD [], by decide +kernel, List.prefix_append _ _⟩

end Best1307.Tota
