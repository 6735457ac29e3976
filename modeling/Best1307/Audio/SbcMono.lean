import Mathlib.Logic.Function.Basic
import Mathlib.Order.Basic

/-!
# Two channels out of one

`a2dp_decoder_sbc.cpp`: a mono frame is decoded to the first half of the buffer, and then every sample is written twice
over, from the last one back. Samples are numbered from the start of the buffer, so those before it have negative
numbers.
-/

namespace Best1307.SbcMono

variable {α : Type*}

/-- The memory around the buffer with the two pointers, and the samples that were read and written through them. -/
structure UpMix (α : Type*) where
  buffer : Int → α
  dest : Int
  src : Int
  read : List Int
  written : List Int

namespace UpMix

/-- `*dest = *src; dest--;` -/
def copy (s : UpMix α) : UpMix α where
  buffer := Function.update s.buffer s.dest (s.buffer s.src)
  dest := s.dest - 1
  src := s.src
  read := s.src :: s.read
  written := s.dest :: s.written

def turn (s : UpMix α) : UpMix α :=
  let s := s.copy.copy
  { s with src := s.src - 1 }

/-- `for (; i>=0; i--)` -/
def loop (i : Int) (s : UpMix α) : UpMix α := if 0 ≤ i then loop (i - 1) s.turn else s
termination_by (i + 1).toNat
decreasing_by omega

end UpMix

def upMix (buffer : Int → α) (bufferBytes : Nat) : UpMix α :=
  let i : Int := bufferBytes / 2
  let dest := i - 1
  let i := i / 2
  let src := i - 1
  UpMix.loop i ⟨buffer, dest, src, [], []⟩

/-- `a2dp_audio_sbc_decode_frame`: `decode` is `a2dp_audio_sbc_mcu_decode_frame`, or `a2dp_cp_sbc_mcu_decode`. Of the
accesses only those of the up-mix are told. -/
def decodeFrame (decode : (Int → α) → Nat → (Int → α) × Int) (sbcChnlModeMono : Bool) (buffer : Int → α)
    (bufferBytes : Nat) : UpMix α × Int :=
  if sbcChnlModeMono then
    let (buffer, nRet) := decode buffer (bufferBytes / 2)
    (upMix buffer bufferBytes, nRet)
  else
    let (buffer, nRet) := decode buffer bufferBytes
    (⟨buffer, 0, 0, [], []⟩, nRet)

/-- Every sample of the first half stands at two places behind one another. -/
def Doubled (mono : Int → α) (n : Nat) (s : UpMix α) : Prop :=
  ∀ k : Nat, k < n → s.buffer (2 * k) = mono k ∧ s.buffer (2 * k + 1) = mono k

/-- No sample outside of the buffer was read or written. -/
def Inside (n : Nat) (s : UpMix α) : Prop :=
  ∀ x : Int, x ∈ s.read ∨ x ∈ s.written → 0 ≤ x ∧ x < 2 * n

def Meets (mono : Int → α) (n : Nat) (s : UpMix α) : Prop := Doubled mono n s ∧ Inside n s

/-- What it does instead: it goes on before the buffer, by one sample that is read and two that are written. -/
structure OneTurnTooMany (mono : Int → α) (n : Nat) (s : UpMix α) : Prop where
  doubled : Doubled mono n s
  read_iff : ∀ x : Int, x ∈ s.read ↔ -1 ≤ x ∧ x < n
  written_iff : ∀ x : Int, x ∈ s.written ↔ -2 ≤ x ∧ x < 2 * n

/-! ### The turns of the loop

Before a turn the samples from `j` on have been written twice, and nothing below has been touched. The samples not yet
read lie below those written, so that none of them is lost. -/

structure Mixed (mono : Int → α) (n j : Int) (s : UpMix α) : Prop where
  dest_eq : s.dest = 2 * j - 1
  src_eq : s.src = j - 1
  below : ∀ x, x < 2 * j → s.buffer x = mono x
  doubled : ∀ x, 2 * j ≤ x → x < 2 * n → s.buffer x = mono (x / 2)
  read_iff : ∀ x, x ∈ s.read ↔ j ≤ x ∧ x < n
  written_iff : ∀ x, x ∈ s.written ↔ 2 * j ≤ x ∧ x < 2 * n

section Loop

variable {mono : Int → α} {n j : Int} {s : UpMix α}

theorem mixed_start : Mixed mono n n ⟨mono, 2 * n - 1, n - 1, [], []⟩ where
  dest_eq := rfl
  src_eq := rfl
  below := fun _ _ => rfl
  doubled := fun x hge hlt => absurd hge (Int.not_le.mpr hlt)
  read_iff := fun x => iff_of_false List.not_mem_nil (by omega)
  written_iff := fun x => iff_of_false List.not_mem_nil (by omega)

/-- Both copies of a turn give the sample that lay at the source before it, also where they overwrite it. -/
theorem Mixed.turn_buffer (h : Mixed mono n j s) (x : Int) :
    s.turn.buffer x = if x = 2 * j - 1 ∨ x = 2 * j - 2 then s.buffer (j - 1) else s.buffer x := by
  have hsource : Function.update s.buffer s.dest (s.buffer s.src) s.src = s.buffer (j - 1) := by
    rw [Function.update_apply, ← h.src_eq]
    split <;> rfl
  have hbuffer : s.turn.buffer = Function.update (Function.update s.buffer s.dest (s.buffer s.src)) (s.dest - 1)
      (Function.update s.buffer s.dest (s.buffer s.src) s.src) := rfl
  rw [hbuffer, hsource, Function.update_apply, Function.update_apply, h.dest_eq, h.src_eq]
  by_cases hlow : x = 2 * j - 2
  · rw [if_pos (by omega), if_pos (.inr hlow)]
  · rw [if_neg (by omega)]
    exact if_congr (by omega) rfl rfl

theorem Mixed.turn (h : Mixed mono n j s) (hj : 0 ≤ j) (hjn : j ≤ n) : Mixed mono n (j - 1) s.turn where
  dest_eq := by
    have hdest : s.turn.dest = s.dest - 1 - 1 := rfl
    rw [hdest, h.dest_eq]
    omega
  src_eq := by
    have hsrc : s.turn.src = s.src - 1 := rfl
    rw [hsrc, h.src_eq]
  below := fun x hx => by
    rw [h.turn_buffer, if_neg (by omega)]
    exact h.below x (by omega)
  doubled := fun x hge hlt => by
    rw [h.turn_buffer]
    split
    case isTrue hnew =>
      have hhalf : x / 2 = j - 1 := by omega
      rw [hhalf]
      exact h.below _ (by omega)
    case isFalse hold => exact h.doubled x (by omega) hlt
  read_iff := fun x => by
    have hread : s.turn.read = s.src :: s.src :: s.read := rfl
    rw [hread, List.mem_cons, List.mem_cons, h.read_iff, h.src_eq]
    omega
  written_iff := fun x => by
    have hwritten : s.turn.written = (s.dest - 1) :: s.dest :: s.written := rfl
    rw [hwritten, List.mem_cons, List.mem_cons, h.written_iff, h.dest_eq]
    omega

/-- The test `i >= 0` still lets the turn through that begins with nothing left. -/
theorem Mixed.loop (i : Int) (s : UpMix α) (h : Mixed mono n i s) (hi : -1 ≤ i) (hin : i ≤ n) :
    Mixed mono n (-1) (UpMix.loop i s) := by
  induction i, s using UpMix.loop.induct with
  | case1 i s hge ih =>
      rw [UpMix.loop, if_pos hge]
      exact ih (h.turn hge hin) (by omega) (by omega)
  | case2 i s hlt =>
      obtain rfl : i = -1 := by omega
      rwa [UpMix.loop, if_neg hlt]

end Loop

theorem mixed_upMix (mono : Int → α) (n : Nat) : Mixed mono n (-1) (upMix mono (4 * n)) := by
  have hhalf : ((4 * n : Nat) : Int) / 2 = 2 * n := by omega
  have hquarter : (2 * n : Int) / 2 = n := by omega
  rw [upMix, hhalf, hquarter]
  exact mixed_start.loop n _ (by omega) (Int.le_refl _)

theorem doubled_upMix (mono : Int → α) (n : Nat) : Doubled mono n (upMix mono (4 * n)) := by
  intro k hk
  have h := (mixed_upMix mono n).doubled
  rw [h (2 * k) (by omega) (by omega), h (2 * k + 1) (by omega) (by omega)]
  have heven : (2 * k : Int) / 2 = k := by omega
  have hodd : (2 * k + 1 : Int) / 2 = k := by omega
  exact ⟨congrArg mono heven, congrArg mono hodd⟩

/-- Whatever the length, the last turn reads one sample before the buffer and writes two. -/
theorem not_inside_upMix (mono : Int → α) (n : Nat) : ¬ Inside n (upMix mono (4 * n)) := by
  intro h
  have hread := ((mixed_upMix mono n).read_iff (-1)).mpr (by omega)
  exact absurd (h (-1) (.inl hread)).1 (by decide)

/-- Nothing else goes wrong: inside of the buffer every sample is doubled, and outside of it only the two samples right
before it are touched. -/
theorem decodeFrame_never_meets (decode : (Int → α) → Nat → (Int → α) × Int) (buffer : Int → α) (n : Nat) :
    OneTurnTooMany (decode buffer (4 * n / 2)).1 n (decodeFrame decode true buffer (4 * n)).1 ∧
      ¬ Meets (decode buffer (4 * n / 2)).1 n (decodeFrame decode true buffer (4 * n)).1 := by
  have hmono : (decodeFrame decode true buffer (4 * n)).1 = upMix (decode buffer (4 * n / 2)).1 (4 * n) := rfl
  have h := mixed_upMix (decode buffer (4 * n / 2)).1 n
  rw [hmono]
  exact ⟨⟨doubled_upMix _ n, h.read_iff, h.written_iff⟩, fun hmeets => not_inside_upMix _ n hmeets.2⟩

/-- One sample that is decoded to 7. -/
theorem not_meets_oneSample :
    ¬ Meets (fun _ => (7 : Int)) 1 (decodeFrame (fun _ _ => (fun _ => 7, 0)) true (fun _ => 0) 4).1 :=
  fun hmeets => not_inside_upMix (fun _ => (7 : Int)) 1 hmeets.2

end Best1307.SbcMono
