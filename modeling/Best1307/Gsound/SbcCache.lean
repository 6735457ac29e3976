import Mathlib.Algebra.Group.Nat.Defs
import Mathlib.Data.List.Basic
import Best1307.Lib.Run

/-!
# The cache of encoded data for the hotword

`gsound_custom_hotword_external.cpp`: the frames of the SBC encoder are kept in a queue of bytes until the hotword has
been found. If the queue is full, the oldest data is dropped; when libgsound asks for data for the first time, the queue
is brought to the length of the preamble.
-/

namespace Best1307.SbcCache

def gsoundTargetMaxSbcFrameLen : Nat := 52

def hotwordSbcDataCacheBufMaxLen : Nat :=
  2000 * 16000 / 1000 * 2 / 4 / gsoundTargetMaxSbcFrameLen * gsoundTargetMaxSbcFrameLen

def emptyFrame : List UInt8 := [0x00, 0x00, 0x00, 0x00] ++ (List.replicate 16 [0x6d, 0xb6, 0xdb]).flatten

/-! ### The queue -/

/-- `EnCQueue`, which fails if there is no room -/
def enCQueue (queue data : List UInt8) : Option (List UInt8) :=
  if data.length ≤ hotwordSbcDataCacheBufMaxLen - queue.length then some (queue ++ data) else none

/-- `DeCQueue`, which fails if there is less in the queue -/
def deCQueue (queue : List UInt8) (len : Nat) : List UInt8 := if len ≤ queue.length then queue.drop len else queue

/-- `EnCQueueFront`, so many times, each with its assertion -/
def enqueueEmptyFrames : Nat → List UInt8 → Option (List UInt8)
  | 0, queue => some queue
  | count + 1, queue =>
      if emptyFrame.length ≤ hotwordSbcDataCacheBufMaxLen - queue.length then
        enqueueEmptyFrames count (emptyFrame ++ queue)
      else none

def emptyFrameNum (dataCnt : Nat) : Nat :=
  (dataCnt / emptyFrame.length + if dataCnt % emptyFrame.length ≠ 0 then 1 else 0) % 2 ^ 16

/-! ### The cache -/

inductive DetectStatus where
  | idle | ongoing | startUpstream | upstreaming
  deriving DecidableEq, Repr

abbrev Frame (frameLen : Nat) : Type := Vector UInt8 frameLen

/-- The part of `EHWctx` that the cache consists of. `preambleFrames` is `(uint32_t)(frameCntPerMs * preambleMs)`, and
`received` are the frames that have been cached since the beginning. -/
structure Cache (frameLen : Nat) where
  queue : List UInt8
  detectStatus : DetectStatus
  preambleFrames : Nat
  received : List (Frame frameLen)

variable {frameLen : Nat}

def bytes (frames : List (Frame frameLen)) : List UInt8 := frames.flatMap Vector.toList

/-- What `gsound_custom_hotword_external_start_detection` makes of the cache -/
def startDetection (preambleFrames : Nat) : Cache frameLen where
  queue := []
  detectStatus := .ongoing
  preambleFrames := preambleFrames
  received := []

/-- Frames that are cached, the hotword found with the frames of its preamble, a request of libgsound, frames it has
done with, and the end of the stream -/
inductive Event (frameLen : Nat) where
  | fill (encoded : List (Frame frameLen))
  | detected (preambleFrames : Nat)
  | requestData (maxNumBytes bytesPerFrame : Nat)
  | dataConsumed (frames : Nat)
  | stopStream

namespace Cache

variable (c : Cache frameLen)

/-- `gsound_custom_hotword_encoded_data_fill_in_target_cache` -/
def fillInTargetCache (encoded : List (Frame frameLen)) : Cache frameLen :=
  let availableCacheQueue := hotwordSbcDataCacheBufMaxLen - c.queue.length
  let queue :=
    if availableCacheQueue < (bytes encoded).length then
      -- `removeLen`, which is whole frames, is worked out, but it is not what is removed
      deCQueue c.queue ((bytes encoded).length - availableCacheQueue)
    else c.queue
  match enCQueue queue (bytes encoded) with
  | some queue => { c with queue := queue, received := c.received ++ encoded }
  | none => { c with queue := queue }

/-- The branch of `gsound_custom_hotword_external_detect_kws_process` where the hotword is found -/
def detected (preambleFrames : Nat) : Cache frameLen :=
  if c.detectStatus = .ongoing then { c with detectStatus := .startUpstream, preambleFrames := preambleFrames } else c

/-- What the first request does to the queue -/
def adjustPreamble : Option (Cache frameLen) :=
  let dataCnt := c.preambleFrames * frameLen % 2 ^ 32
  if c.queue.length < dataCnt then
    (enqueueEmptyFrames (emptyFrameNum (dataCnt - c.queue.length)) c.queue).map fun queue => { c with queue := queue }
  else some { c with queue := deCQueue c.queue (c.queue.length - dataCnt) }

/-- `gsound_custom_hotword_external_request_data`, with the data that is handed out. A number of bytes from `2 ^ 31` on
is negative, and `PeekCQueue` fails. -/
def requestData (maxNumBytes bytesPerFrame : Nat) : Option (List UInt8 × Cache frameLen) :=
  if bytesPerFrame ≠ frameLen then none
  else
    (if c.detectStatus = .startUpstream then c.adjustPreamble else some c).bind fun c =>
      let maxOutput := maxNumBytes / bytesPerFrame * bytesPerFrame
      if c.queue = [] then some ([], { c with detectStatus := .upstreaming })
      else if 2 ^ 31 ≤ maxOutput then none
      else some (c.queue.take maxOutput, { c with detectStatus := .upstreaming })

/-- `gsound_custom_hotword_data_consumed` -/
def dataConsumed (frames : Nat) : Cache frameLen := { c with queue := deCQueue c.queue (frames * frameLen) }

/-- `gsound_custom_hotword_external_stop_stream` -/
def stopStream : Option (Cache frameLen) :=
  if c.detectStatus = .upstreaming then
    some { c with queue := deCQueue c.queue c.queue.length, detectStatus := .ongoing }
  else none

end Cache

def step (c : Cache frameLen) : Event frameLen → Option (Cache frameLen)
  | .fill encoded => some (c.fillInTargetCache encoded)
  | .detected preambleFrames => some (c.detected preambleFrames)
  | .requestData maxNumBytes bytesPerFrame => (c.requestData maxNumBytes bytesPerFrame).map Prod.snd
  | .dataConsumed frames => some (c.dataConsumed frames)
  | .stopStream => c.stopStream

/-! ### Whole frames -/

/-- The queue consists of `fillers` and of the newest of the frames that have been cached. -/
def Holds (fillers received : List (Frame frameLen)) (queue : List UInt8) : Prop :=
  ∃ newest, newest <:+ received ∧ queue = bytes fillers ++ bytes newest

/-- The queue consists of whole frames: what is left of the empty data in front, and the newest frames. -/
def Whole (c : Cache frameLen) : Prop :=
  ∃ fillers emptyFrames, bytes fillers <:+ (List.replicate emptyFrames emptyFrame).flatten ∧
    Holds fillers c.received c.queue

/-- After a step the queue consists of whole frames; what is handed out is from its beginning on; and the first request
leaves as many frames as the preamble has. -/
structure Meets (c : Cache frameLen) (e : Event frameLen) : Prop where
  whole : ∀ c', step c e = some c' → Whole c'
  handed : ∀ maxNumBytes bytesPerFrame, e = .requestData maxNumBytes bytesPerFrame →
    ∀ result ∈ c.requestData maxNumBytes bytesPerFrame, result.1 <+: result.2.queue
  preamble : ∀ maxNumBytes, e = .requestData maxNumBytes frameLen → c.detectStatus = .startUpstream →
    ∃ c', c.adjustPreamble = some c' ∧ c'.queue.length = c.preambleFrames * frameLen

/-- Frames that do not fit the free part of the cache, but fit the cache, are of a length that divides that of the
cache; and the preamble fits the cache, and what it lacks is made up of empty frames of the greatest length. -/
def KeepsFrames (c : Cache frameLen) : Event frameLen → Prop
  | .fill encoded =>
      hotwordSbcDataCacheBufMaxLen - c.queue.length < encoded.length * frameLen →
        encoded.length * frameLen ≤ hotwordSbcDataCacheBufMaxLen → frameLen ∣ hotwordSbcDataCacheBufMaxLen
  | .requestData _ bytesPerFrame =>
      bytesPerFrame = frameLen → c.detectStatus = .startUpstream →
        c.preambleFrames * frameLen ≤ hotwordSbcDataCacheBufMaxLen ∧
          (c.queue.length < c.preambleFrames * frameLen →
            gsoundTargetMaxSbcFrameLen ∣ c.preambleFrames * frameLen - c.queue.length)
  | _ => True

section Proofs

variable {c c' : Cache frameLen} {e : Event frameLen} {fillers received encoded frames : List (Frame frameLen)}
  {queue queue' : List UInt8}

theorem bytes_append (left right : List (Frame frameLen)) : bytes (left ++ right) = bytes left ++ bytes right :=
  List.flatMap_append

theorem bytes_length (frames : List (Frame frameLen)) : (bytes frames).length = frames.length * frameLen := by
  induction frames with
  | nil => exact (Nat.zero_mul _).symm
  | cons frame frames ih =>
    show (frame.toList ++ bytes frames).length = _
    rw [List.length_append, ih, Vector.length_toList, List.length_cons, Nat.succ_mul, Nat.add_comm]

theorem drop_bytes (frames : List (Frame frameLen)) (k : Nat) :
    (bytes frames).drop (k * frameLen) = bytes (frames.drop k) := by
  rcases Nat.le_total k frames.length with h | h
  · have hsplit : bytes frames = bytes (frames.take k) ++ bytes (frames.drop k) := by
      rw [← bytes_append, List.take_append_drop]
    have hlength : (bytes (frames.take k)).length = k * frameLen := by
      rw [bytes_length, List.length_take, Nat.min_eq_left h]
    rw [hsplit, ← hlength, List.drop_left]
  · rw [List.drop_eq_nil_of_le h, List.drop_eq_nil_of_le]
    · rfl
    · rw [bytes_length]
      exact Nat.mul_le_mul_right _ h

theorem exists_bytes (h : frameLen ∣ queue.length) : ∃ frames : List (Frame frameLen), bytes frames = queue := by
  obtain ⟨count, hcount⟩ := h
  induction count generalizing queue with
  | zero => exact ⟨[], (List.eq_nil_of_length_eq_zero hcount).symm⟩
  | succ count ih =>
    rw [Nat.mul_succ] at hcount
    have hrest : (queue.drop frameLen).length = frameLen * count := by
      rw [List.length_drop]
      omega
    obtain ⟨frames, hframes⟩ := ih hrest
    refine ⟨⟨(queue.take frameLen).toArray, ?_⟩ :: frames, ?_⟩
    · rw [List.size_toArray, List.length_take]
      omega
    · show queue.take frameLen ++ bytes frames = queue
      rw [hframes, List.take_append_drop]

/-! ### What the queue holds -/

theorem Holds.drop (h : Holds fillers received queue) (k : Nat) :
    Holds (fillers.drop k) received (queue.drop (k * frameLen)) := by
  obtain ⟨newest, hnewest, hqueue⟩ := h
  refine ⟨newest.drop (k - fillers.length), (List.drop_suffix _ _).trans hnewest, ?_⟩
  rw [hqueue, ← bytes_append, drop_bytes, List.drop_append, bytes_append]

theorem Holds.append (h : Holds fillers received queue) (encoded : List (Frame frameLen)) :
    Holds fillers (received ++ encoded) (queue ++ bytes encoded) := by
  obtain ⟨newest, ⟨older, holder⟩, hqueue⟩ := h
  refine ⟨newest ++ encoded, ⟨older, ?_⟩, ?_⟩
  · rw [← List.append_assoc, holder]
  · rw [hqueue, bytes_append, List.append_assoc]

theorem Holds.dvd_length (h : Holds fillers received queue) : frameLen ∣ queue.length := by
  obtain ⟨newest, -, hqueue⟩ := h
  rw [hqueue, ← bytes_append, bytes_length]
  exact Nat.dvd_mul_left _ _

theorem bytes_drop_suffix (fillers : List (Frame frameLen)) (k : Nat) : bytes (fillers.drop k) <:+ bytes fillers := by
  rw [← drop_bytes]
  exact List.drop_suffix _ _

/-- Whole frames are taken out, or none. -/
theorem Holds.deCQueue (h : Holds fillers received queue) {len : Nat} (hlen : frameLen ∣ len) :
    ∃ k, Holds (fillers.drop k) received (deCQueue queue len) := by
  obtain ⟨k, rfl⟩ := hlen
  rw [SbcCache.deCQueue]
  split
  · rw [Nat.mul_comm]
    exact ⟨k, h.drop k⟩
  · exact ⟨0, h⟩

theorem emptyFrame_length : emptyFrame.length = gsoundTargetMaxSbcFrameLen := by decide

theorem enqueueEmptyFrames_eq {count : Nat} (h : enqueueEmptyFrames count queue = some queue')
    (hfits : queue.length ≤ hotwordSbcDataCacheBufMaxLen) :
    queue' = (List.replicate count emptyFrame).flatten ++ queue ∧
      queue'.length ≤ hotwordSbcDataCacheBufMaxLen := by
  induction count generalizing queue with
  | zero =>
    obtain rfl := Option.some.inj h
    exact ⟨rfl, hfits⟩
  | succ count ih =>
    rw [enqueueEmptyFrames] at h
    split at h
    next hroom =>
      obtain ⟨heq, hle⟩ := ih h (by rw [List.length_append]; omega)
      refine ⟨?_, hle⟩
      rw [heq, List.replicate_succ', List.flatten_append, List.flatten_singleton, List.append_assoc]
    next => cases h

theorem enqueueEmptyFrames_of_room {count : Nat}
    (h : queue.length + count * gsoundTargetMaxSbcFrameLen ≤ hotwordSbcDataCacheBufMaxLen) :
    ∃ queue', enqueueEmptyFrames count queue = some queue' := by
  induction count generalizing queue with
  | zero => exact ⟨queue, rfl⟩
  | succ count ih =>
    rw [Nat.succ_mul] at h
    rw [enqueueEmptyFrames, emptyFrame_length, if_pos (by omega)]
    apply ih
    rw [List.length_append, emptyFrame_length]
    omega

theorem emptyFrames_length (count : Nat) :
    (List.replicate count emptyFrame).flatten.length = count * gsoundTargetMaxSbcFrameLen := by
  rw [List.length_flatten, List.map_replicate, List.sum_replicate_nat, emptyFrame_length]

/-! ### What keeps -/

/-- The queue fits, it consists of whole frames, and there is no empty data in it before libgsound gets any. -/
structure Inv (c : Cache frameLen) : Prop where
  fits : c.queue.length ≤ hotwordSbcDataCacheBufMaxLen
  whole : Whole c
  unfilled : c.detectStatus ≠ .upstreaming → Holds [] c.received c.queue

theorem Whole.dvd_length (h : Whole c) : frameLen ∣ c.queue.length := by
  obtain ⟨fillers, emptyFrames, -, hholds⟩ := h
  exact hholds.dvd_length

theorem startDetection_inv (preambleFrames : Nat) : Inv (startDetection preambleFrames : Cache frameLen) where
  fits := Nat.zero_le _
  whole := ⟨[], 0, List.suffix_refl _, [], List.suffix_refl _, rfl⟩
  unfilled := fun _ => ⟨[], List.suffix_refl _, rfl⟩

theorem Inv.update (hc : Inv c) {len : Nat} (hlen : frameLen ∣ len) (hreceived : c'.received = c.received ++ encoded)
    (hqueue : c'.queue = deCQueue c.queue len ++ bytes encoded) (hfits : c'.queue.length ≤ hotwordSbcDataCacheBufMaxLen)
    (hstatus : c'.detectStatus ≠ .upstreaming → c.detectStatus ≠ .upstreaming ∨ c'.queue = []) : Inv c' := by
  refine ⟨hfits, ?_, ?_⟩
  · obtain ⟨fillers, emptyFrames, hfillers, hholds⟩ := hc.whole
    obtain ⟨k, hk⟩ := hholds.deCQueue hlen
    refine ⟨fillers.drop k, emptyFrames, (bytes_drop_suffix _ _).trans hfillers, ?_⟩
    rw [hreceived, hqueue]
    exact hk.append encoded
  · intro hnot
    cases hstatus hnot with
    | inl hbefore =>
      obtain ⟨k, hk⟩ := (hc.unfilled hbefore).deCQueue hlen
      rw [List.drop_nil] at hk
      rw [hreceived, hqueue]
      exact hk.append encoded
    | inr hempty => exact ⟨[], List.nil_suffix, hempty⟩

/-! ### Frames that are cached -/

theorem fillInTargetCache_of_room
    (h : encoded.length * frameLen ≤ hotwordSbcDataCacheBufMaxLen - c.queue.length) :
    c.fillInTargetCache encoded =
      { c with queue := c.queue ++ bytes encoded, received := c.received ++ encoded } := by
  rw [← bytes_length] at h
  have henqueue : enCQueue c.queue (bytes encoded) = some (c.queue ++ bytes encoded) := if_pos h
  rw [Cache.fillInTargetCache, if_neg (Nat.not_lt.mpr h), henqueue]

/-- What is removed is only what the frames lack, so that the cache is full then. -/
theorem fillInTargetCache_of_overflow (hfits : c.queue.length ≤ hotwordSbcDataCacheBufMaxLen)
    (hover : hotwordSbcDataCacheBufMaxLen - c.queue.length < encoded.length * frameLen)
    (hle : encoded.length * frameLen ≤ hotwordSbcDataCacheBufMaxLen) :
    c.fillInTargetCache encoded =
        { c with
          queue := deCQueue c.queue
            (encoded.length * frameLen - (hotwordSbcDataCacheBufMaxLen - c.queue.length)) ++ bytes encoded
          received := c.received ++ encoded } ∧
      (c.fillInTargetCache encoded).queue.length = hotwordSbcDataCacheBufMaxLen := by
  have hdequeue : deCQueue c.queue (encoded.length * frameLen - (hotwordSbcDataCacheBufMaxLen - c.queue.length)) =
      c.queue.drop (encoded.length * frameLen - (hotwordSbcDataCacheBufMaxLen - c.queue.length)) :=
    if_pos (by omega)
  have hlength : (deCQueue c.queue (encoded.length * frameLen -
      (hotwordSbcDataCacheBufMaxLen - c.queue.length))).length =
        hotwordSbcDataCacheBufMaxLen - encoded.length * frameLen := by
    rw [hdequeue, List.length_drop]
    omega
  have henqueue : enCQueue (deCQueue c.queue (encoded.length * frameLen -
      (hotwordSbcDataCacheBufMaxLen - c.queue.length))) (bytes encoded) =
        some (deCQueue c.queue (encoded.length * frameLen - (hotwordSbcDataCacheBufMaxLen - c.queue.length)) ++
          bytes encoded) := by
    apply if_pos
    rw [hlength, bytes_length]
    omega
  have heq : c.fillInTargetCache encoded =
      { c with
        queue := deCQueue c.queue
          (encoded.length * frameLen - (hotwordSbcDataCacheBufMaxLen - c.queue.length)) ++ bytes encoded
        received := c.received ++ encoded } := by
    rw [Cache.fillInTargetCache, bytes_length, if_pos hover, henqueue]
  refine ⟨heq, ?_⟩
  rw [heq]
  show (_ ++ bytes encoded).length = _
  rw [List.length_append, hlength, bytes_length]
  omega

theorem fillInTargetCache_of_gt (h : hotwordSbcDataCacheBufMaxLen < encoded.length * frameLen)
    (hfits : c.queue.length ≤ hotwordSbcDataCacheBufMaxLen) : c.fillInTargetCache encoded = c := by
  have hdequeue : deCQueue c.queue (encoded.length * frameLen - (hotwordSbcDataCacheBufMaxLen - c.queue.length)) =
      c.queue := if_neg (by omega)
  have henqueue : enCQueue c.queue (bytes encoded) = none := by
    apply if_neg
    rw [bytes_length]
    omega
  rw [Cache.fillInTargetCache, bytes_length, if_pos (by omega), hdequeue, henqueue]

theorem fill_inv (hc : Inv c) (h : KeepsFrames c (.fill encoded)) : Inv (c.fillInTargetCache encoded) := by
  rcases Nat.lt_or_ge (hotwordSbcDataCacheBufMaxLen - c.queue.length) (encoded.length * frameLen) with hover | hroom
  · rcases Nat.lt_or_ge hotwordSbcDataCacheBufMaxLen (encoded.length * frameLen) with hgt | hle
    · rw [fillInTargetCache_of_gt hgt hc.fits]
      exact hc
    · obtain ⟨heq, hfull⟩ := fillInTargetCache_of_overflow hc.fits hover hle
      have hdvd : frameLen ∣ encoded.length * frameLen - (hotwordSbcDataCacheBufMaxLen - c.queue.length) :=
        Nat.dvd_sub (Nat.dvd_mul_left _ _) (Nat.dvd_sub (h hover hle) hc.whole.dvd_length)
      refine hc.update hdvd (congrArg Cache.received heq) (congrArg Cache.queue heq) (Nat.le_of_eq hfull) ?_
      rw [heq]
      exact .inl
  · rw [fillInTargetCache_of_room hroom]
    refine hc.update (Nat.dvd_zero _) rfl ?_ ?_ .inl
    · rw [deCQueue, if_pos (Nat.zero_le _), List.drop_zero]
    · show (c.queue ++ bytes encoded).length ≤ _
      have hfits := hc.fits
      rw [List.length_append, bytes_length]
      omega

/-- Frames that overflow the cache leave it full, and so it consists of whole frames only if their length divides its
length. -/
theorem fill_keeps (hc : Inv c) (h : Whole (c.fillInTargetCache encoded)) : KeepsFrames c (.fill encoded) := by
  intro hover hle
  rw [← (fillInTargetCache_of_overflow hc.fits hover hle).2]
  exact h.dvd_length

/-! ### The first request -/

/-- A preamble that fits is left, if what it lacks is made up of empty frames. -/
theorem adjustPreamble_of_fits (hc : Inv c) (hstatus : c.detectStatus ≠ .upstreaming)
    (hle : c.preambleFrames * frameLen ≤ hotwordSbcDataCacheBufMaxLen)
    (hdvd : c.queue.length < c.preambleFrames * frameLen →
      gsoundTargetMaxSbcFrameLen ∣ c.preambleFrames * frameLen - c.queue.length) :
    ∃ c', c.adjustPreamble = some c' ∧ c'.queue.length = c.preambleFrames * frameLen ∧ c'.received = c.received ∧
      Whole c' := by
  have hmax : hotwordSbcDataCacheBufMaxLen < 2 ^ 16 := by decide
  have hunfilled := hc.unfilled hstatus
  have hmod : c.preambleFrames * frameLen % 2 ^ 32 = c.preambleFrames * frameLen := Nat.mod_eq_of_lt (by omega)
  rw [Cache.adjustPreamble, hmod]
  rcases Nat.lt_or_ge c.queue.length (c.preambleFrames * frameLen) with hlacks | hhas
  · obtain ⟨count, hcount⟩ := hdvd hlacks
    have hnum : emptyFrameNum (c.preambleFrames * frameLen - c.queue.length) = count := by
      rw [emptyFrameNum, hcount, emptyFrame_length, Nat.mul_mod_right, if_neg (not_not.mpr rfl), Nat.add_zero,
        Nat.mul_div_cancel_left _ (by decide), Nat.mod_eq_of_lt]
      have hbig : count ≤ gsoundTargetMaxSbcFrameLen * count := Nat.le_mul_of_pos_left _ (by decide)
      omega
    have hroom : c.queue.length + count * gsoundTargetMaxSbcFrameLen ≤ hotwordSbcDataCacheBufMaxLen := by
      rw [Nat.mul_comm, ← hcount]
      omega
    obtain ⟨queue', hqueue'⟩ := enqueueEmptyFrames_of_room hroom
    obtain ⟨heq, -⟩ := enqueueEmptyFrames_eq hqueue' hc.fits
    have hlength := congrArg List.length heq
    rw [List.length_append, emptyFrames_length, Nat.mul_comm, ← hcount] at hlength
    refine ⟨{ c with queue := queue' }, ?_, ?_, rfl, ?_⟩
    · rw [if_pos hlacks, hnum, hqueue']
      rfl
    · show queue'.length = _
      omega
    · have hempty : frameLen ∣ (List.replicate count emptyFrame).flatten.length := by
        rw [emptyFrames_length, Nat.mul_comm, ← hcount]
        exact Nat.dvd_sub (Nat.dvd_mul_left _ _) hunfilled.dvd_length
      obtain ⟨fillers, hfillers⟩ := exists_bytes hempty
      obtain ⟨newest, hnewest, hqueue⟩ := hunfilled
      refine ⟨fillers, count, ?_, newest, hnewest, ?_⟩
      · exact hfillers ▸ List.suffix_refl _
      · show queue' = bytes fillers ++ bytes newest
        rw [hfillers, heq]
        exact congrArg (_ ++ ·) hqueue
  · refine ⟨_, if_neg (Nat.not_lt.mpr hhas), ?_, rfl, ?_⟩
    · show (deCQueue c.queue (c.queue.length - c.preambleFrames * frameLen)).length = _
      rw [deCQueue, if_pos (Nat.sub_le _ _), List.length_drop]
      omega
    · have hmultiple := Nat.dvd_sub hunfilled.dvd_length (Nat.dvd_mul_left frameLen c.preambleFrames)
      obtain ⟨k, hk⟩ := hunfilled.deCQueue hmultiple
      exact ⟨[], 0, List.suffix_refl _, List.drop_nil ▸ hk⟩

theorem adjustPreamble_fits (hc : Inv c) (h : c.adjustPreamble = some c') :
    c'.queue.length ≤ hotwordSbcDataCacheBufMaxLen := by
  have hfits := hc.fits
  rw [Cache.adjustPreamble] at h
  split at h
  · obtain ⟨queue', hqueue', rfl⟩ := Option.map_eq_some_iff.mp h
    exact (enqueueEmptyFrames_eq hqueue' hfits).2
  · obtain rfl := Option.some.inj h
    show (deCQueue _ _).length ≤ _
    rw [deCQueue]
    split
    · rw [List.length_drop]
      omega
    · exact hfits

/-- A preamble of the right length is one that fits and lacks only empty frames. -/
theorem fits_of_adjustPreamble (hc : Inv c) (h : c.adjustPreamble = some c')
    (hlength : c'.queue.length = c.preambleFrames * frameLen) :
    c.preambleFrames * frameLen ≤ hotwordSbcDataCacheBufMaxLen ∧
      (c.queue.length < c.preambleFrames * frameLen →
        gsoundTargetMaxSbcFrameLen ∣ c.preambleFrames * frameLen - c.queue.length) := by
  have hmax : hotwordSbcDataCacheBufMaxLen < 2 ^ 16 := by decide
  have hle := adjustPreamble_fits hc h
  rw [hlength] at hle
  have hmod : c.preambleFrames * frameLen % 2 ^ 32 = c.preambleFrames * frameLen := Nat.mod_eq_of_lt (by omega)
  refine ⟨hle, fun hlacks => ?_⟩
  rw [Cache.adjustPreamble, hmod] at h
  rw [if_pos hlacks] at h
  obtain ⟨queue', hqueue', rfl⟩ := Option.map_eq_some_iff.mp h
  have heq := congrArg List.length (enqueueEmptyFrames_eq hqueue' hc.fits).1
  rw [List.length_append, emptyFrames_length] at heq
  rw [← hlength]
  show _ ∣ queue'.length - _
  rw [heq, Nat.add_sub_cancel]
  exact Nat.dvd_mul_left _ _

/-! ### A request -/

theorem requestData_eq_some {maxNumBytes bytesPerFrame : Nat} {result : List UInt8 × Cache frameLen}
    (h : c.requestData maxNumBytes bytesPerFrame = some result) :
    bytesPerFrame = frameLen ∧ result.1 <+: result.2.queue ∧ result.2.detectStatus = .upstreaming ∧
      ∃ adjusted, (if c.detectStatus = .startUpstream then c.adjustPreamble else some c) = some adjusted ∧
        result.2 = { adjusted with detectStatus := .upstreaming } := by
  rw [Cache.requestData] at h
  split at h
  · cases h
  next hframe =>
    obtain ⟨adjusted, hadjusted, hresult⟩ := Option.bind_eq_some_iff.mp h
    have hstate : result.1 <+: result.2.queue ∧ result.2 = { adjusted with detectStatus := .upstreaming } := by
      simp only at hresult
      split at hresult
      · obtain rfl := Option.some.inj hresult
        exact ⟨List.nil_prefix, rfl⟩
      · split at hresult
        · cases hresult
        · obtain rfl := Option.some.inj hresult
          exact ⟨List.take_prefix _ _, rfl⟩
    exact ⟨not_not.mp hframe, hstate.1, hstate.2 ▸ rfl, adjusted, hadjusted, hstate.2⟩

theorem requestData_inv (hc : Inv c) {maxNumBytes bytesPerFrame : Nat} {result : List UInt8 × Cache frameLen}
    (hkeeps : KeepsFrames c (.requestData maxNumBytes bytesPerFrame))
    (h : c.requestData maxNumBytes bytesPerFrame = some result) : Inv result.2 := by
  obtain ⟨hframe, -, hstatus, adjusted, hadjusted, hresult⟩ := requestData_eq_some h
  have hinv : adjusted.queue.length ≤ hotwordSbcDataCacheBufMaxLen ∧ Whole adjusted := by
    split at hadjusted
    next hfirst =>
      obtain ⟨hle, hdvd⟩ := hkeeps hframe hfirst
      obtain ⟨c', hc', -, -, hwhole⟩ := adjustPreamble_of_fits hc (by rw [hfirst]; decide) hle hdvd
      obtain rfl := Option.some.inj (hadjusted.symm.trans hc')
      exact ⟨adjustPreamble_fits hc hc', hwhole⟩
    next =>
      obtain rfl := Option.some.inj hadjusted
      exact ⟨hc.fits, hc.whole⟩
  rw [hresult]
  exact ⟨hinv.1, hinv.2, fun hnot => absurd rfl hnot⟩

/-! ### Every step -/

theorem deCQueue_length_le (queue : List UInt8) (len : Nat) : (deCQueue queue len).length ≤ queue.length := by
  rw [deCQueue]
  split
  · rw [List.length_drop]
    exact Nat.sub_le _ _
  · exact Nat.le_refl _

theorem step_inv (hc : Inv c) (hkeeps : KeepsFrames c e) (h : step c e = some c') : Inv c' := by
  cases e with
  | fill encoded =>
    obtain rfl := Option.some.inj h
    exact fill_inv hc hkeeps
  | detected preambleFrames =>
    obtain rfl := Option.some.inj h
    rw [Cache.detected]
    split
    next hongoing =>
      have hnot : c.detectStatus ≠ .upstreaming := by
        rw [hongoing]
        decide
      exact ⟨hc.fits, hc.whole, fun _ => hc.unfilled hnot⟩
    next => exact hc
  | requestData maxNumBytes bytesPerFrame =>
    obtain ⟨result, hresult, rfl⟩ := Option.map_eq_some_iff.mp h
    exact requestData_inv hc hkeeps hresult
  | dataConsumed frames =>
    obtain rfl := Option.some.inj h
    refine @Inv.update _ _ _ [] hc _ (Nat.dvd_mul_left frameLen frames) ?_ ?_ ?_ .inl
    · exact (List.append_nil _).symm
    · exact (List.append_nil _).symm
    · exact Nat.le_trans (deCQueue_length_le _ _) hc.fits
  | stopStream =>
    obtain ⟨-, h⟩ := Option.ite_none_right_eq_some.mp h
    obtain rfl := Option.some.inj h
    have hempty : deCQueue c.queue c.queue.length = [] := by
      rw [deCQueue, if_pos (Nat.le_refl _), List.drop_length]
    refine @Inv.update _ _ _ [] hc _ hc.whole.dvd_length ?_ ?_ ?_ fun _ => .inr hempty
    · exact (List.append_nil _).symm
    · exact (List.append_nil _).symm
    · exact Nat.le_trans (deCQueue_length_le _ _) hc.fits

theorem Inv.meets_iff (hc : Inv c) : Meets c e ↔ KeepsFrames c e := by
  constructor
  · intro h
    cases e with
    | fill encoded => exact fill_keeps hc (h.whole _ rfl)
    | requestData maxNumBytes bytesPerFrame =>
      intro hframe hfirst
      obtain rfl := hframe
      obtain ⟨c', hc', hlength⟩ := h.preamble _ rfl hfirst
      exact fits_of_adjustPreamble hc hc' hlength
    | detected preambleFrames => trivial
    | dataConsumed frames => trivial
    | stopStream => trivial
  · intro h
    refine ⟨fun c' hc' => (step_inv hc h hc').whole, ?_, ?_⟩
    · intro maxNumBytes bytesPerFrame _ result hresult
      exact (requestData_eq_some hresult).2.1
    · intro maxNumBytes he hfirst
      obtain rfl := he
      obtain ⟨hle, hdvd⟩ := h rfl hfirst
      obtain ⟨c', hc', hlength, -, -⟩ := adjustPreamble_of_fits hc (by rw [hfirst]; decide) hle hdvd
      exact ⟨c', hc', hlength⟩

/-- **In a session the cache holds whole frames exactly as long as overflow and preamble are of lengths that suit it.**
-/
theorem run_meets_iff_keepsFrames (frameLen preambleFrames : Nat) (events : List (Event frameLen)) :
    Along step Meets (startDetection preambleFrames) events ↔
      Along step KeepsFrames (startDetection preambleFrames) events :=
  along_iff_of_invariant Inv (fun _ _ hc => hc.meets_iff) (fun _ _ _ hc he h => step_inv hc he h)
    (startDetection_inv preambleFrames)

/-- As many frames of 48 bytes as fit the cache -/
def fullFrames : List (Frame 48) := List.replicate 332 (Vector.replicate 48 0)

/-- The length of the cache is no multiple of 48, so with one frame more the oldest one is not removed as a whole. -/
theorem not_meets_fullFrames :
    ¬ Along step Meets (startDetection 0) [.fill fullFrames, .fill [Vector.replicate 48 0]] := by
  intro h
  have hcount : fullFrames.length = 332 := List.length_replicate
  have hroom : fullFrames.length * 48 ≤ hotwordSbcDataCacheBufMaxLen - (startDetection 0 : Cache 48).queue.length := by
    rw [hcount]
    decide
  have hfirst := @fill_inv _ _ fullFrames (startDetection_inv 0) fun hover _ =>
    absurd hroom (Nat.not_le.mpr hover)
  have hlength : ((startDetection 0 : Cache 48).fillInTargetCache fullFrames).queue.length = 332 * 48 := by
    rw [fillInTargetCache_of_room hroom]
    show ([] ++ bytes fullFrames).length = _
    rw [List.nil_append, bytes_length, hcount]
  have hkeeps : KeepsFrames _ (.fill [Vector.replicate 48 0]) := hfirst.meets_iff.mp (h.2 _ rfl).1
  refine absurd (hkeeps ?_ ?_) (by decide)
  · rw [hlength]
    decide
  · decide

end Proofs

end Best1307.SbcCache
