import Mathlib.Algebra.Order.Ring.Int
import Mathlib.Logic.Function.Basic
import Best1307.Lib.While

/-!
# Two streams from the host at once

`usb_audio_app.c`: with `USB_AUDIO_MULTIFUNC` the playback handler adds the frames of two streams, with two loops for
samples of four bytes and for samples of two. Both streams are valid here, and the volume of both stays at one. Then a
sample is turned into a number of single precision and back, which rounds those of more than 24 bits.
-/

namespace Best1307.UsbMixing

/-! ### The code -/

/-- The combinations of `sample_size_play` and `sample_size_recv` there are -/
inductive SampleSizes
  | play4Recv4
  | play4Recv3
  | play4Recv2
  | play2Recv2
  deriving DecidableEq

def SampleSizes.usbStep : SampleSizes → Nat
  | play4Recv4 => 8
  | play4Recv3 => 6
  | play4Recv2 => 4
  | play2Recv2 => 4

def SampleSizes.codecStep : SampleSizes → Nat
  | play4Recv4 => 8
  | play4Recv3 => 8
  | play4Recv2 => 8
  | play2Recv2 => 4

/-- By how many bits a sample of 32 bits is more than one that is played: they are of 24 or of 16 bits. -/
def SampleSizes.shift : SampleSizes → Nat
  | play4Recv4 => 8
  | play4Recv3 => 8
  | play4Recv2 => 8
  | play2Recv2 => 16

def signed (bits n : Nat) : Int := if n < 2 ^ (bits - 1) then n else n - 2 ^ bits

/-- `__SSAT`, and for 32 bits what `__QADD` does with a sum -/
def saturate (bits : Nat) (x : Int) : Int := max (-2 ^ (bits - 1)) (min (2 ^ (bits - 1) - 1) x)

section Samples

variable (buf : Nat → UInt8) (pos : Nat)

/-- `*(int16_t *)` -/
def sample16 : Int := signed 16 ((buf pos).toNat + (buf (pos + 1)).toNat * 2 ^ 8)

def sample24 : Int :=
  signed 32 ((buf pos).toNat * 2 ^ 8 + (buf (pos + 1)).toNat * 2 ^ 16 + (buf (pos + 2)).toNat * 2 ^ 24)

/-- `*(int32_t *)` -/
def sample32 : Int :=
  signed 32 ((buf pos).toNat + (buf (pos + 1)).toNat * 2 ^ 8 + (buf (pos + 2)).toNat * 2 ^ 16 +
    (buf (pos + 3)).toNat * 2 ^ 24)

end Samples

/-- A number rounded to the 24 bits of single precision, to an even one from the middle -/
def toSingle (x : Int) : Int :=
  let m := x.natAbs
  let unit := 2 ^ (Nat.log2 m - 23)
  let q := m / unit
  let q := if unit < 2 * (m % unit) ∨ 2 * (m % unit) = unit ∧ q % 2 = 1 then q + 1 else q
  x.sign * (q * unit : Nat)

/-- `(int32_t)(x * cur_gain)` where `cur_gain` is one; the conversion back saturates. -/
def scaleByOne (x : Int) : Int := saturate 32 (toSingle x)

structure Frame where
  left : Int
  right : Int
  deriving DecidableEq

def Frame.map (f : Int → Int) (frame : Frame) : Frame := ⟨f frame.left, f frame.right⟩

def Frame.zipWith (f : Int → Int → Int) (frame frame2 : Frame) : Frame :=
  ⟨f frame.left frame2.left, f frame.right frame2.right⟩

/-- A ring of whole frames of so many bytes, which is read from the beginning of one of them on -/
structure Ring (usbStep : Nat) where
  buf : Nat → UInt8
  size : Nat
  rpos : Nat
  whole : usbStep ∣ size
  aligned : usbStep ∣ rpos
  rpos_lt : rpos < size

variable {usbStep : Nat}

/-- The check of a cursor at the beginning of a turn -/
def Ring.wrap (ring : Ring usbStep) (usbCur : Nat) : Nat := if ring.size < usbCur + usbStep then 0 else usbCur

/-- The cursors of a loop, by their distance from the beginning of the buffers, and the samples written -/
structure Cursors where
  cur : Nat
  usbCur : Nat
  usbCur2 : Nat
  out : Nat → Int

/-- A frame as it is taken from a ring for samples of four bytes -/
def recvFrame32 (usbStep : Nat) (buf : Nat → UInt8) (pos : Nat) : Frame :=
  if usbStep = 8 then ⟨sample32 buf pos, sample32 buf (pos + 4)⟩
  else if usbStep = 6 then ⟨sample24 buf pos, sample24 buf (pos + 3)⟩
  else ⟨sample16 buf pos * 2 ^ 16, sample16 buf (pos + 2) * 2 ^ 16⟩

def recvFrame16 (buf : Nat → UInt8) (pos : Nat) : Frame := ⟨sample16 buf pos, sample16 buf (pos + 2)⟩

def store (sampleSize : Nat) (out : Nat → Int) (cur : Nat) (frame : Frame) : Nat → Int :=
  Function.update (Function.update out cur frame.left) (cur + sampleSize) frame.right

def turn32 (recv recv2 : Ring usbStep) (c : Cursors) : Cursors :=
  let usbCur := recv.wrap c.usbCur
  let usbCur2 := recv2.wrap c.usbCur2
  let frame := (recvFrame32 usbStep recv.buf usbCur).map scaleByOne
  let frame2 := (recvFrame32 usbStep recv2.buf usbCur2).map scaleByOne
  let sum := frame.zipWith (fun x y => saturate 32 (x + y)) frame2
  { cur := c.cur + 8
    usbCur := usbCur + usbStep
    usbCur2 := usbCur2 + usbStep
    out := store 4 c.out c.cur (sum.map fun x => x / 2 ^ 8) }

/-- A turn of the loop for samples of two bytes; only one of the cursors in the rings goes on. -/
def turn16 (recv recv2 : Ring 4) (c : Cursors) : Cursors :=
  let usbCur := recv.wrap c.usbCur
  let usbCur2 := recv2.wrap c.usbCur2
  let frame := (recvFrame16 recv.buf usbCur).map scaleByOne
  let frame2 := (recvFrame16 recv2.buf usbCur2).map scaleByOne
  { cur := c.cur + 4
    usbCur := usbCur + 4
    usbCur2 := usbCur2
    out := store 2 c.out c.cur (frame.zipWith (fun x y => saturate 16 (x + y)) frame2) }

/-- The loops go on as long as there is room for one more frame. -/
def mix (codecStep len : Nat) (turn : Cursors → Cursors) (c : Cursors) : Option Cursors :=
  whileLoop (fun c => decide (c.cur + codecStep ≤ len)) (fun c => some (turn c)) len c

def start (recv recv2 : Ring usbStep) (out : Nat → Int) : Cursors := ⟨0, recv.rpos, recv2.rpos, out⟩

def mix32 (recv recv2 : Ring usbStep) (len : Nat) (out : Nat → Int) : Option (Nat → Int) :=
  (mix 8 len (turn32 recv recv2) (start recv recv2 out)).map Cursors.out

def mix16 (recv recv2 : Ring 4) (len : Nat) (out : Nat → Int) : Option (Nat → Int) :=
  (mix 4 len (turn16 recv recv2) (start recv recv2 out)).map Cursors.out

/-- What `usb_audio_data_playback` leaves in the buffer -/
def playback :
    (sizes : SampleSizes) → (recv recv2 : Ring sizes.usbStep) → (len : Nat) → (Nat → Int) → Option (Nat → Int)
  | .play4Recv4, recv, recv2, len, out => mix32 recv recv2 len out
  | .play4Recv3, recv, recv2, len, out => mix32 recv recv2 len out
  | .play4Recv2, recv, recv2, len, out => mix32 recv recv2 len out
  | .play2Recv2, recv, recv2, len, out => mix16 recv recv2 len out

/-! ### What is asked of it -/

/-- Where frame `k` of a stream is, counted from the read position around the ring -/
def Ring.place (ring : Ring usbStep) (k : Nat) : Nat := (ring.rpos + k * usbStep) % ring.size

def Ring.frame (ring : Ring usbStep) (k : Nat) : Frame := recvFrame32 usbStep ring.buf (ring.place k)

def outFrame (codecStep : Nat) (out : Nat → Int) (k : Nat) : Frame :=
  ⟨out (k * codecStep), out (k * codecStep + codecStep / 2)⟩

def mixed (sizes : SampleSizes) (x y : Int) : Int := saturate 32 (x + y) / 2 ^ sizes.shift

/-- Every frame there is room for is the sum of those of the streams, and there are no others. Samples of two bytes are
what they would be if they were played as samples of four. -/
structure Sums (sizes : SampleSizes) (recv recv2 : Ring sizes.usbStep) (len : Nat) (out out' : Nat → Int) : Prop where
  frame : ∀ k < len / sizes.codecStep,
    outFrame sizes.codecStep out' k = (recv.frame k).zipWith (mixed sizes) (recv2.frame k)
  behind : ∀ i, len / sizes.codecStep * sizes.codecStep ≤ i → out' i = out i
  agrees : ∀ len32 out32 out32', mix32 recv recv2 len32 out32 = some out32' →
    ∀ k < len / sizes.codecStep, k < len32 / 8 →
      outFrame sizes.codecStep out' k = (outFrame 8 out32' k).map fun x => x / 2 ^ (sizes.shift - 8)

def Meets (sizes : SampleSizes) (recv recv2 : Ring sizes.usbStep) (len : Nat) (out : Nat → Int) : Prop :=
  ∃ out', playback sizes recv recv2 len out = some out' ∧ Sums sizes recv recv2 len out out'

/-! ### Samples -/

variable {x y : Int} {bits : Nat}

theorem saturate_of_mem (hlo : -2 ^ (bits - 1) ≤ x) (hhi : x ≤ 2 ^ (bits - 1) - 1) : saturate bits x = x := by
  rw [saturate, Int.min_eq_right hhi, Int.max_eq_right hlo]

theorem signed_mem {n : Nat} (hbits : 0 < bits) (h : n < 2 ^ bits) :
    -2 ^ (bits - 1) ≤ signed bits n ∧ signed bits n ≤ 2 ^ (bits - 1) - 1 := by
  obtain ⟨b, rfl⟩ := Nat.exists_eq_add_one.mpr hbits
  rw [Nat.pow_succ] at h
  have hcast : ((2 ^ b : Nat) : Int) = 2 ^ b := Int.natCast_pow 2 b
  rw [signed, Nat.add_sub_cancel, Int.pow_succ, ← hcast]
  split <;> omega

theorem toSingle_of_dvd {j : Nat} (hdvd : 2 ^ j ∣ x.natAbs) (hlt : x.natAbs < 2 ^ (j + 24)) : toSingle x = x := by
  have hexp : Nat.log2 x.natAbs - 23 ≤ j := by
    by_cases hzero : x.natAbs = 0
    · rw [hzero, Nat.log2_zero]
      exact Nat.zero_le _
    · have := (Nat.log2_lt hzero).mpr hlt
      omega
  have hunit : 2 ^ (Nat.log2 x.natAbs - 23) ∣ x.natAbs := Nat.dvd_trans (Nat.pow_dvd_pow 2 hexp) hdvd
  have hpos : 0 < 2 ^ (Nat.log2 x.natAbs - 23) := Nat.two_pow_pos _
  rw [toSingle, Nat.mod_eq_zero_of_dvd hunit, if_neg (by omega), Nat.div_mul_cancel hunit]
  exact Int.sign_mul_natAbs x

/-- A sample of 32 bits, those of which that are set lie within 24 in a row. -/
structure Single (x : Int) : Prop where
  mem : -2 ^ 31 ≤ x ∧ x ≤ 2 ^ 31 - 1
  bits : ∃ j, 2 ^ j ∣ x.natAbs ∧ x.natAbs < 2 ^ (j + 24)

theorem Single.scaleByOne (h : Single x) : scaleByOne x = x := by
  obtain ⟨j, hdvd, hlt⟩ := h.bits
  rw [UsbMixing.scaleByOne, toSingle_of_dvd hdvd hlt]
  exact saturate_of_mem h.mem.1 h.mem.2

section

variable (buf : Nat → UInt8) (pos : Nat)

theorem sample16_mem : -2 ^ 15 ≤ sample16 buf pos ∧ sample16 buf pos ≤ 2 ^ 15 - 1 := by
  have h0 := (buf pos).toNat_lt
  have h1 := (buf (pos + 1)).toNat_lt
  exact signed_mem (by decide) (by omega)

theorem single_sample16 : Single (sample16 buf pos) := by
  have hmem := sample16_mem buf pos
  exact ⟨by omega, 0, Nat.one_dvd _, by omega⟩

theorem single_sample16_mul : Single (sample16 buf pos * 2 ^ 16) := by
  have hmem := sample16_mem buf pos
  refine ⟨by omega, 16, ?_, by omega⟩
  rw [Int.natAbs_mul]
  exact Nat.dvd_mul_left ..

theorem single_sample24 : Single (sample24 buf pos) := by
  have h0 := (buf pos).toNat_lt
  have h1 := (buf (pos + 1)).toNat_lt
  have h2 := (buf (pos + 2)).toNat_lt
  have hmem : -2 ^ 31 ≤ sample24 buf pos ∧ sample24 buf pos ≤ 2 ^ 31 - 1 := signed_mem (by decide) (by omega)
  refine ⟨hmem, 8, ?_, by omega⟩
  rw [← Int.natAbs_natCast (2 ^ 8), Int.natAbs_dvd_natAbs, sample24, signed]
  split <;> omega

end

theorem saturate16 (x : Int) : saturate 16 x = max (-32768) (min 32767 x) := rfl

theorem saturate32 (x : Int) : saturate 32 x = max (-2147483648) (min 2147483647 x) := rfl

/-- Sums of samples of 16 bits saturate as those of the samples of 32 bits do. -/
theorem saturate16_eq (x y : Int) : saturate 16 (x + y) = saturate 32 (x * 2 ^ 16 + y * 2 ^ 16) / 2 ^ 16 := by
  rw [saturate16, saturate32]
  omega

/-! ### Cursors -/

variable {usbStep codecStep sampleSize len k : Nat} {recv recv2 ring : Ring usbStep} {out out' : Nat → Int}
  {turn : Cursors → Cursors} {c : Cursors} {frame : Frame}

namespace Ring

theorem step_pos (ring : Ring usbStep) : 0 < usbStep :=
  Nat.pos_of_dvd_of_pos ring.whole (Nat.zero_lt_of_lt ring.rpos_lt)

variable (ring : Ring usbStep)

theorem place_lt (k : Nat) : ring.place k < ring.size := Nat.mod_lt _ (Nat.zero_lt_of_lt ring.rpos_lt)

theorem dvd_place (k : Nat) : usbStep ∣ ring.place k :=
  (Nat.dvd_mod_iff ring.whole).mpr (Nat.dvd_add ring.aligned (Nat.dvd_mul_left ..))

theorem place_add_le (k : Nat) : ring.place k + usbStep ≤ ring.size := by
  obtain ⟨frames, hframes⟩ := ring.whole
  obtain ⟨i, hi⟩ := ring.dvd_place k
  have hlt := ring.place_lt k
  rw [hi, hframes] at hlt ⊢
  have := Nat.lt_of_mul_lt_mul_left hlt
  rw [← Nat.mul_succ]
  exact Nat.mul_le_mul_left _ this

theorem place_zero : ring.place 0 = ring.rpos := by
  rw [place, Nat.zero_mul, Nat.add_zero, Nat.mod_eq_of_lt ring.rpos_lt]

theorem wrap_place (k : Nat) : ring.wrap (ring.place k) = ring.place k :=
  if_neg (Nat.not_lt.mpr (ring.place_add_le k))

theorem wrap_rpos : ring.wrap ring.rpos = ring.place 0 := by
  rw [← ring.place_zero]
  exact ring.wrap_place 0

/-- Behind a frame the next one is found, at the beginning if the ring ends there. -/
theorem wrap_place_add (k : Nat) : ring.wrap (ring.place k + usbStep) = ring.place (k + 1) := by
  have hpos := ring.step_pos
  have hle := ring.place_add_le k
  have hnext : ring.place (k + 1) = (ring.place k + usbStep) % ring.size := by
    rw [place, place, Nat.mod_add_mod, Nat.succ_mul, Nat.add_assoc]
  rcases Nat.lt_or_eq_of_le hle with hlt | heq
  · rw [Nat.mod_eq_of_lt hlt] at hnext
    rw [← hnext]
    exact ring.wrap_place _
  · rw [hnext, heq, Nat.mod_self]
    exact if_pos (Nat.lt_add_of_pos_right hpos)

end Ring

/-! ### The buffer -/

theorem outFrame_store (hsize : 0 < sampleSize) (j k : Nat) :
    outFrame (2 * sampleSize) (store sampleSize out (k * (2 * sampleSize)) frame) j =
      if j = k then frame else outFrame (2 * sampleSize) out j := by
  have hhalf : 2 * sampleSize / 2 = sampleSize := Nat.mul_div_cancel_left _ (by decide)
  rw [outFrame, outFrame, hhalf, store]
  split
  case isTrue heq =>
    rw [heq, Function.update_self, Function.update_of_ne (by omega), Function.update_self]
  case isFalse hne =>
    have hapart : j * (2 * sampleSize) + 2 * sampleSize ≤ k * (2 * sampleSize) ∨
        k * (2 * sampleSize) + 2 * sampleSize ≤ j * (2 * sampleSize) := by
      rcases Nat.lt_or_gt_of_ne hne with hlt | hgt
      · exact .inl (by rw [← Nat.succ_mul]; exact Nat.mul_le_mul_right _ hlt)
      · exact .inr (by rw [← Nat.succ_mul]; exact Nat.mul_le_mul_right _ hgt)
    rw [Function.update_of_ne (by omega), Function.update_of_ne (by omega), Function.update_of_ne (by omega),
      Function.update_of_ne (by omega)]

theorem store_of_le {i cur : Nat} (hsize : 0 < sampleSize) (hi : cur + 2 * sampleSize ≤ i) :
    store sampleSize out cur frame i = out i := by
  rw [store, Function.update_of_ne (by omega), Function.update_of_ne (by omega)]

/-- After so many turns the cursors are at these places, and the frames before them are these. -/
structure At (recv recv2 : Ring usbStep) (sampleSize : Nat) (place2 : Nat → Nat) (result : Nat → Frame)
    (out : Nat → Int) (k : Nat) (c : Cursors) : Prop where
  cur : c.cur = k * (2 * sampleSize)
  usbCur : recv.wrap c.usbCur = recv.place k
  usbCur2 : recv2.wrap c.usbCur2 = place2 k
  frame : ∀ j < k, outFrame (2 * sampleSize) c.out j = result j
  behind : ∀ i, k * (2 * sampleSize) ≤ i → c.out i = out i

theorem start_at {place2 : Nat → Nat} {result : Nat → Frame} (hplace2 : recv2.wrap recv2.rpos = place2 0) :
    At recv recv2 sampleSize place2 result out 0 (start recv recv2 out) where
  cur := (Nat.zero_mul _).symm
  usbCur := recv.wrap_rpos
  usbCur2 := hplace2
  frame := fun j hj => absurd hj (Nat.not_lt_zero j)
  behind := fun _ _ => rfl

theorem At.next {place2 : Nat → Nat} {result : Nat → Frame} {c' : Cursors}
    (h : At recv recv2 sampleSize place2 result out k c) (hsize : 0 < sampleSize)
    (hcur : c'.cur = c.cur + 2 * sampleSize) (husbCur : c'.usbCur = recv.place k + usbStep)
    (husbCur2 : recv2.wrap c'.usbCur2 = place2 (k + 1)) (hout : c'.out = store sampleSize c.out c.cur (result k)) :
    At recv recv2 sampleSize place2 result out (k + 1) c' where
  cur := by rw [hcur, h.cur, Nat.succ_mul k]
  usbCur := by
    rw [husbCur]
    exact recv.wrap_place_add k
  usbCur2 := husbCur2
  frame := fun j hj => by
    rw [hout, h.cur, outFrame_store hsize]
    split
    case isTrue heq => rw [heq]
    case isFalse hne => exact h.frame j (Nat.lt_of_le_of_ne (Nat.le_of_lt_succ hj) hne)
  behind := fun i hi => by
    rw [Nat.succ_mul k] at hi
    rw [hout, h.cur, store_of_le hsize hi]
    exact h.behind i (Nat.le_of_add_right_le hi)

theorem mix_eq {place2 : Nat → Nat} {result : Nat → Frame} (hsize : 0 < sampleSize)
    (hstart : At recv recv2 sampleSize place2 result out 0 c)
    (hturn : ∀ k c, At recv recv2 sampleSize place2 result out k c →
      At recv recv2 sampleSize place2 result out (k + 1) (turn c)) :
    ∃ c', mix (2 * sampleSize) len turn c = some c' ∧
      At recv recv2 sampleSize place2 result out (len / (2 * sampleSize)) c' := by
  have hpos : 0 < 2 * sampleSize := by omega
  have hat : ∀ k, At recv recv2 sampleSize place2 result out k (turn^[k] c) := fun k => by
    induction k with
    | zero => exact hstart
    | succ k ih =>
        rw [Function.iterate_succ_apply']
        exact hturn k _ ih
  have hguard : ∀ k, (turn^[k] c).cur + 2 * sampleSize ≤ len ↔ k < len / (2 * sampleSize) := fun k => by
    rw [(hat k).cur, ← Nat.succ_mul, ← Nat.le_div_iff_mul_le hpos, Nat.succ_le_iff]
  refine ⟨_, whileLoop_iterate (fun k hk => decide_eq_true ((hguard k).mpr hk)) (decide_eq_false fun hroom => ?_)
    (Nat.div_le_self ..), hat _⟩
  exact Nat.lt_irrefl _ ((hguard _).mp hroom)

/-! ### The two loops -/

/-- What the loop for samples of four bytes writes as frame `k` -/
def written32 (recv recv2 : Ring usbStep) (k : Nat) : Frame :=
  (((recv.frame k).map scaleByOne).zipWith (fun x y => saturate 32 (x + y)) ((recv2.frame k).map scaleByOne)).map
    fun x => x / 2 ^ 8

theorem mix32_eq (recv recv2 : Ring usbStep) (len : Nat) (out : Nat → Int) : ∃ out',
    mix32 recv recv2 len out = some out' ∧ (∀ k < len / 8, outFrame 8 out' k = written32 recv recv2 k) ∧
      ∀ i, len / 8 * 8 ≤ i → out' i = out i := by
  have hturn : ∀ k c, At recv recv2 4 recv2.place (written32 recv recv2) out k c →
      At recv recv2 4 recv2.place (written32 recv recv2) out (k + 1) (turn32 recv recv2 c) := by
    intro k c hk
    refine hk.next (by decide) rfl ?_ ?_ ?_
    · exact congrArg (· + usbStep) hk.usbCur
    · show recv2.wrap (recv2.wrap c.usbCur2 + usbStep) = _
      rw [hk.usbCur2, recv2.wrap_place_add]
    · rw [turn32, hk.usbCur, hk.usbCur2]
      rfl
  have hstart : At recv recv2 4 recv2.place (written32 recv recv2) out 0 (start recv recv2 out) :=
    start_at recv2.wrap_rpos
  obtain ⟨c, hc, hat⟩ := mix_eq (by decide) hstart hturn
  exact ⟨c.out, congrArg _ hc, hat.frame, hat.behind⟩

/-- What the loop for samples of two bytes writes as frame `k` has always the first frame of the second stream in it. -/
def written16 (recv recv2 : Ring 4) (k : Nat) : Frame :=
  ((recvFrame16 recv.buf (recv.place k)).map scaleByOne).zipWith (fun x y => saturate 16 (x + y))
    ((recvFrame16 recv2.buf (recv2.place 0)).map scaleByOne)

theorem mix16_eq (recv recv2 : Ring 4) (len : Nat) (out : Nat → Int) : ∃ out',
    mix16 recv recv2 len out = some out' ∧ (∀ k < len / 4, outFrame 4 out' k = written16 recv recv2 k) ∧
      ∀ i, len / 4 * 4 ≤ i → out' i = out i := by
  have hturn : ∀ k c, At recv recv2 2 (fun _ => recv2.place 0) (written16 recv recv2) out k c →
      At recv recv2 2 (fun _ => recv2.place 0) (written16 recv recv2) out (k + 1) (turn16 recv recv2 c) := by
    intro k c hk
    refine hk.next (by decide) rfl ?_ ?_ ?_
    · exact congrArg (· + 4) hk.usbCur
    · show recv2.wrap (recv2.wrap c.usbCur2) = _
      rw [hk.usbCur2, recv2.wrap_place]
    · rw [turn16, hk.usbCur, hk.usbCur2]
      rfl
  have hstart : At recv recv2 2 (fun _ => recv2.place 0) (written16 recv recv2) out 0 (start recv recv2 out) :=
    start_at recv2.wrap_rpos
  obtain ⟨c, hc, hat⟩ := mix_eq (by decide) hstart hturn
  exact ⟨c.out, congrArg _ hc, hat.frame, hat.behind⟩

/-! ### When the frames are right -/

/-- The rounding of both samples leaves the bits of their sum that are played. -/
def Rounds (x y : Int) : Prop := saturate 32 (scaleByOne x + scaleByOne y) / 2 ^ 8 = saturate 32 (x + y) / 2 ^ 8

/-- Samples whose lowest byte is zero are right, as are all that have 24 significant bits. -/
theorem rounds_of_single (hx : Single x) (hy : Single y) : Rounds x y := by
  rw [Rounds, hx.scaleByOne, hy.scaleByOne]

/-- The sample of the second stream does not show, as it is the first one or both sums are as high or as low as they
can be. -/
def Hidden (x y first : Int) : Prop :=
  first = y ∨ 32767 ≤ x + first ∧ 32767 ≤ x + y ∨ x + first ≤ -32768 ∧ x + y ≤ -32768

theorem saturate16_eq_iff (x y first : Int) : saturate 16 (x + first) = saturate 16 (x + y) ↔ Hidden x y first := by
  rw [saturate16, saturate16, Hidden]
  omega

def Ring.frame16 (ring : Ring 4) (k : Nat) : Frame := recvFrame16 ring.buf (ring.place k)

def Condition : (sizes : SampleSizes) → (recv recv2 : Ring sizes.usbStep) → (k : Nat) → Prop
  | .play4Recv4, recv, recv2, k =>
      Rounds (recv.frame k).left (recv2.frame k).left ∧ Rounds (recv.frame k).right (recv2.frame k).right
  | .play4Recv3, _, _, _ => True
  | .play4Recv2, _, _, _ => True
  | .play2Recv2, recv, recv2, k =>
      Hidden (recv.frame16 k).left (recv2.frame16 k).left (recv2.frame16 0).left ∧
        Hidden (recv.frame16 k).right (recv2.frame16 k).right (recv2.frame16 0).right

theorem frame16_map (ring : Ring 4) (k : Nat) : (ring.frame16 k).map scaleByOne = ring.frame16 k :=
  Frame.mk.injEq .. |>.mpr ⟨(single_sample16 ..).scaleByOne, (single_sample16 ..).scaleByOne⟩

/-- Only samples of four bytes are rounded. -/
theorem frame_single (ring : Ring usbStep) (hstep : usbStep ≠ 8) (k : Nat) :
    Single (ring.frame k).left ∧ Single (ring.frame k).right := by
  rw [Ring.frame, recvFrame32, if_neg hstep]
  split
  case isTrue => exact ⟨single_sample24 .., single_sample24 ..⟩
  case isFalse => exact ⟨single_sample16_mul .., single_sample16_mul ..⟩

theorem frame_map (ring : Ring usbStep) (hstep : usbStep ≠ 8) (k : Nat) :
    (ring.frame k).map scaleByOne = ring.frame k :=
  Frame.mk.injEq .. |>.mpr ⟨(frame_single ring hstep k).1.scaleByOne, (frame_single ring hstep k).2.scaleByOne⟩

theorem meets32_iff {sizes : SampleSizes} {recv recv2 : Ring sizes.usbStep}
    (hplayback : playback sizes recv recv2 len out = mix32 recv recv2 len out) (hstep : sizes.codecStep = 8)
    (hshift : sizes.shift = 8) : Meets sizes recv recv2 len out ↔
      ∀ k < len / sizes.codecStep, Rounds (recv.frame k).left (recv2.frame k).left ∧
        Rounds (recv.frame k).right (recv2.frame k).right := by
  obtain ⟨out', hout', hframe, hbehind⟩ := mix32_eq recv recv2 len out
  rw [Meets, hplayback]
  constructor
  · rintro ⟨out'', hout'', hsums⟩ k hk
    obtain rfl := Option.some.inj (hout'.symm.trans hout'')
    have heq := hsums.frame k hk
    rw [hstep] at hk
    rw [hstep, hframe k hk] at heq
    have hmixed := Frame.mk.injEq .. |>.mp heq
    rwa [mixed, mixed, hshift] at hmixed
  · intro hrounds
    rw [← hstep] at hframe hbehind
    refine ⟨out', hout', fun k hk => ?_, hbehind, fun len32 out32 out32' hout32 k hk hk' => ?_⟩
    · rw [hframe k hk]
      refine Frame.mk.injEq .. |>.mpr ?_
      rw [mixed, mixed, hshift]
      exact hrounds k hk
    · obtain ⟨other, hother, hframe', -⟩ := mix32_eq recv recv2 len32 out32
      obtain rfl := Option.some.inj (hother.symm.trans hout32)
      rw [hframe k hk, hframe' k hk', hshift]
      exact Frame.mk.injEq .. |>.mpr ⟨(Int.ediv_one _).symm, (Int.ediv_one _).symm⟩

theorem rounds_of_step {recv recv2 : Ring usbStep} (hstep : usbStep ≠ 8) (k : Nat) :
    Rounds (recv.frame k).left (recv2.frame k).left ∧ Rounds (recv.frame k).right (recv2.frame k).right := by
  obtain ⟨hleft, hright⟩ := frame_single recv hstep k
  obtain ⟨hleft2, hright2⟩ := frame_single recv2 hstep k
  exact ⟨rounds_of_single hleft hleft2, rounds_of_single hright hright2⟩

theorem meets16_iff (recv recv2 : Ring 4) (len : Nat) (out : Nat → Int) :
    Meets .play2Recv2 recv recv2 len out ↔ ∀ k < len / 4, Condition .play2Recv2 recv recv2 k := by
  obtain ⟨out', hout', hframe, hbehind⟩ := mix16_eq recv recv2 len out
  have hwritten : ∀ k, written16 recv recv2 k =
      (recv.frame16 k).zipWith (fun x y => saturate 16 (x + y)) (recv2.frame16 0) := fun k => by
    rw [written16, ← Ring.frame16, ← Ring.frame16, frame16_map, frame16_map]
  have hmixed : ∀ k, (recv.frame k).zipWith (mixed .play2Recv2) (recv2.frame k) =
      (recv.frame16 k).zipWith (fun x y => saturate 16 (x + y)) (recv2.frame16 k) := fun k =>
    Frame.mk.injEq .. |>.mpr ⟨(saturate16_eq _ _).symm, (saturate16_eq _ _).symm⟩
  constructor
  · rintro ⟨out'', hout'', hsums⟩ k hk
    obtain rfl := Option.some.inj (hout'.symm.trans hout'')
    have heq := (hwritten k).symm.trans ((hframe k hk).symm.trans ((hsums.frame k hk).trans (hmixed k)))
    have hparts := Frame.mk.injEq .. |>.mp heq
    exact ⟨(saturate16_eq_iff _ _ _).mp hparts.1, (saturate16_eq_iff _ _ _).mp hparts.2⟩
  · intro hcondition
    have hsums : ∀ k < len / 4, outFrame 4 out' k = (recv.frame k).zipWith (mixed .play2Recv2) (recv2.frame k) := by
      intro k hk
      rw [hframe k hk, hwritten, hmixed]
      obtain ⟨hleft, hright⟩ := hcondition k hk
      exact Frame.mk.injEq .. |>.mpr ⟨(saturate16_eq_iff _ _ _).mpr hleft, (saturate16_eq_iff _ _ _).mpr hright⟩
    refine ⟨out', hout', hsums, hbehind, fun len32 out32 out32' hout32 k hk hk' => ?_⟩
    obtain ⟨other, hother, hframe', -⟩ := mix32_eq recv recv2 len32 out32
    obtain rfl := Option.some.inj (hother.symm.trans hout32)
    rw [show outFrame SampleSizes.play2Recv2.codecStep out' k = outFrame 4 out' k from rfl, hsums k hk, hframe' k hk',
      written32, frame_map recv (by decide), frame_map recv2 (by decide)]
    have hdiv : ∀ x : Int, x / 2 ^ 16 = x / 2 ^ 8 / 2 ^ 8 := fun x => by omega
    exact Frame.mk.injEq .. |>.mpr ⟨hdiv _, hdiv _⟩

/-- **When two streams are added right**: samples of four bytes must not be rounded where it is heard, and with samples
of two bytes the second stream must not show behind its first frame. -/
theorem playback_meets_iff (sizes : SampleSizes) (recv recv2 : Ring sizes.usbStep) (len : Nat) (out : Nat → Int) :
    Meets sizes recv recv2 len out ↔ ∀ k < len / sizes.codecStep, Condition sizes recv recv2 k := by
  cases sizes with
  | play4Recv4 => exact meets32_iff rfl rfl rfl
  | play4Recv3 =>
      rw [meets32_iff rfl rfl rfl]
      exact forall₂_congr fun k _ => iff_of_true (rounds_of_step (by decide) k) trivial
  | play4Recv2 =>
      rw [meets32_iff rfl rfl rfl]
      exact forall₂_congr fun k _ => iff_of_true (rounds_of_step (by decide) k) trivial
  | play2Recv2 => exact meets16_iff recv recv2 len out

/-- A ring of two frames of which only the second one is to be heard -/
def secondFrame : Ring 4 := ⟨fun i => if i = 4 then 1 else 0, 8, 0, by decide, by decide, by decide⟩

def silence : Ring 4 := ⟨fun _ => 0, 8, 0, by decide, by decide, by decide⟩

/-- With samples of two bytes the second frame of the second stream is not heard. -/
theorem not_meets_secondFrame : ¬ Meets .play2Recv2 silence secondFrame 8 fun _ => 0 := by
  rintro ⟨out', hout', hsums⟩
  have hsecond : (playback .play2Recv2 silence secondFrame 8 fun _ => 0).map (fun out => outFrame 4 out 1) =
      some ⟨0, 0⟩ := by decide +kernel
  have hsum : (silence.frame 1).zipWith (mixed .play2Recv2) (secondFrame.frame 1) = ⟨1, 0⟩ := by decide +kernel
  rw [hout'] at hsecond
  have heq := (Option.some.inj hsecond).symm.trans ((hsums.frame 1 (by decide)).trans hsum)
  exact absurd heq (by decide)

end Best1307.UsbMixing
