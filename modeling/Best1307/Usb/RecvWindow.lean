import Mathlib.Algebra.Group.Nat.Defs
import Best1307.Lib.ByteRing

/-!
# What is read of the stream from the host

`usb_audio_app.c`: the stream from the host comes into a ring, and the playback handler reads a number of bytes of it at
a time. Before it reads it compares its place with the one that is written next. If it would overtake that one it begins
half a ring away from it; when no more comes it goes on, with zeros instead of what has not come.
-/

namespace Best1307.UsbPlayback

open ByteRing (wrap_eq_mod)
open WrapBuffer (write write_apply_add write_apply_of_not_mem)

/-- `AUDIO_ITF_STATE_T` -/
inductive ItfState
  | stopped
  | started
  deriving DecidableEq

/-- The variables `usb_recv_…` and `recv_state`, or those of the second stream; the ring is at the beginning of `buf`.
-/
structure Stream where
  size : Nat
  buf : Nat → UInt8
  rpos : Nat
  wpos : Nat
  valid : Bool
  initRpos : Bool
  state : ItfState

def zeroMem (buf : Nat → UInt8) (pos len : Nat) : Nat → UInt8 := write buf pos (List.replicate len 0)

namespace Stream

variable (s : Stream)

def wrap (pos : Nat) : Nat :=
  let pos := pos % 2 ^ 32
  if s.size ≤ pos then pos - s.size else pos

/-- `recv_valid`: when the interface has stopped what is there is read to its end. -/
def recvValid : Bool := s.valid && !(decide (s.state = .stopped) && decide (s.rpos = s.wpos))

def initPos : Bool := s.recvValid && !s.initRpos

end Stream

/-- What the check leaves: `usb_recv_…`, and the variables of the handler -/
structure Window where
  stream : Stream
  oldRpos : Nat
  newRpos : Nat
  conflicted : Bool

namespace Stream

variable (s : Stream) (usbLen : Nat)

/-- The read position is half a ring from where is written. -/
def resetRpos : Nat := s.wrap (s.wpos + s.size / 2)

/-- The part `if (conflicted)` -/
def reset : Window where
  stream := { s with rpos := s.resetRpos }
  oldRpos := s.resetRpos
  newRpos := s.wrap (s.resetRpos + usbLen)
  conflicted := true

/-- The bytes that have not come are zeros, and the write position comes behind them. -/
def fill (buf : Nat → UInt8) (newRpos : Nat) : Window where
  stream := { s with buf := buf, wpos := newRpos }
  oldRpos := s.rpos
  newRpos := newRpos
  conflicted := false

/-- The check for a conflict in `usb_audio_data_playback` -/
def checkConflict : Window :=
  if s.initPos then
    { stream := { s with rpos := s.resetRpos, initRpos := true }
      oldRpos := s.resetRpos
      newRpos := s.wrap (s.resetRpos + usbLen)
      conflicted := false }
  else
    let newRpos := s.wrap (s.rpos + usbLen)
    let untouched : Window := ⟨s, s.rpos, newRpos, false⟩
    if s.recvValid then
      if s.rpos ≤ s.wpos then
        if newRpos < s.rpos ∨ s.wpos < newRpos then
          if s.state = .stopped then
            if newRpos < s.rpos then
              s.fill (zeroMem (zeroMem s.buf s.wpos (s.size - s.wpos)) 0 newRpos) newRpos
            else s.fill (zeroMem s.buf s.wpos (newRpos - s.wpos)) newRpos
          else s.reset usbLen
        else untouched
      else
        if s.wpos < newRpos ∧ newRpos < s.rpos then
          if s.state = .stopped then s.fill (zeroMem s.buf s.wpos (newRpos - s.wpos)) newRpos
          else s.reset usbLen
        else untouched
    else untouched

end Stream

/-- The streams of `USB_AUDIO_MULTIFUNC`, each with a ring of its own -/
structure Streams where
  recv : Stream
  recv2 : Stream

/-- The same check is written out for each stream. -/
def Streams.checkConflict (s : Streams) (usbLen : Nat) : Window × Window :=
  (s.recv.checkConflict usbLen, s.recv2.checkConflict usbLen)

/-! ### What is asked of it -/

/-- The size is a multiple of four, and a place and half the ring go into 32 bits together. -/
structure Stream.WellFormed (s : Stream) : Prop where
  aligned : s.size % 4 = 0
  fits : s.size + s.size / 2 ≤ 2 ^ 32
  rpos_lt : s.rpos < s.size
  wpos_lt : s.wpos < s.size

/-- How many bytes have been written behind a place and before the one that is written next -/
def Stream.written (s : Stream) (pos : Nat) : Nat := (s.wpos + s.size - pos) % s.size

/-- Everything that is read has been written; the place that is written next is not among it. -/
structure Window.Behind (t : Window) (usbLen : Nat) : Prop where
  le : usbLen ≤ t.stream.written t.oldRpos
  ne_wpos : ∀ j < usbLen, (t.oldRpos + j) % t.stream.size ≠ t.stream.wpos

/-- What has not been written is zeros, and is counted as written. -/
structure Window.Filled (s : Stream) (t : Window) (usbLen : Nat) : Prop where
  oldRpos : t.oldRpos = s.rpos
  wpos : t.stream.wpos = (s.rpos + usbLen) % s.size
  zero : ∀ j, s.written s.rpos ≤ j → j < usbLen → t.stream.buf ((s.rpos + j) % s.size) = 0

/-- The positions are in the ring, and the bytes between them are so many. -/
structure Window.Positions (t : Window) (usbLen : Nat) : Prop where
  rpos_lt : t.stream.rpos < t.stream.size
  wpos_lt : t.stream.wpos < t.stream.size
  oldRpos_lt : t.oldRpos < t.stream.size
  newRpos_lt : t.newRpos < t.stream.size
  newRpos_eq : t.newRpos = (t.oldRpos + usbLen) % t.stream.size

/-- What the check is for: what is read has been written, or the interface has stopped and the rest is zeros. No byte
changes that had been written, nor any that is not read. -/
structure Meets (s : Stream) (t : Window) (usbLen : Nat) : Prop where
  size : t.stream.size = s.size
  window : s.recvValid = true → t.Behind usbLen ∨ s.state = .stopped ∧ t.Filled s usbLen
  unread : s.recvValid = false → t.stream = s
  unchanged : ∀ i, (∀ j, s.written s.rpos ≤ j → j < usbLen → i ≠ (s.rpos + j) % s.size) → t.stream.buf i = s.buf i
  written : ∀ j < s.written s.rpos, t.stream.buf ((s.rpos + j) % s.size) = s.buf ((s.rpos + j) % s.size)
  positions : t.Positions usbLen

/-! ### Places in the ring -/

variable {s : Stream} {t : Window} {usbLen pos len i j : Nat} {buf : Nat → UInt8}

theorem zeroMem_of_mem (hlo : pos ≤ i) (hhi : i < pos + len) : zeroMem buf pos len i = 0 := by
  obtain ⟨k, rfl⟩ := Nat.exists_eq_add_of_le hlo
  have hk : k < (List.replicate len (0 : UInt8)).length := by
    rw [List.length_replicate]
    omega
  rw [zeroMem, write_apply_add hk, List.getElem_replicate]

theorem zeroMem_of_not_mem (h : i < pos ∨ pos + len ≤ i) : zeroMem buf pos len i = buf i :=
  write_apply_of_not_mem (by rwa [List.length_replicate])

theorem add_mod_or {size : Nat} (hpos : pos < size) (hj : j ≤ size) :
    pos + j < size ∧ (pos + j) % size = pos + j ∨ size ≤ pos + j ∧ (pos + j) % size + size = pos + j := by
  rw [← wrap_eq_mod (show pos + j < 2 * size by omega)]
  split <;> omega

theorem add_mod_ne {size : Nat} (hpos : pos < size) (hij : i < j) (hj : j < size) :
    (pos + i) % size ≠ (pos + j) % size := by
  have hi' := add_mod_or hpos (Nat.le_of_lt (Nat.lt_trans hij hj))
  have hj' := add_mod_or hpos (Nat.le_of_lt hj)
  omega

namespace Stream.WellFormed

variable (h : s.WellFormed)

include h

theorem half : s.size = s.size / 2 + s.size / 2 := by
  have := h.aligned
  omega

theorem mod_lt (pos : Nat) : pos % s.size < s.size := Nat.mod_lt _ (Nat.zero_lt_of_lt h.wpos_lt)

theorem written_lt (pos : Nat) : s.written pos < s.size := h.mod_lt _

theorem wrap_add (hpos : pos < s.size) (hlen : len ≤ s.size / 2) : s.wrap (pos + len) = (pos + len) % s.size := by
  have := h.fits
  rw [Stream.wrap, Nat.mod_eq_of_lt (by omega)]
  exact wrap_eq_mod (by omega)

theorem written_or (hpos : pos < s.size) :
    pos ≤ s.wpos ∧ s.written pos + pos = s.wpos ∨ s.wpos < pos ∧ s.written pos + pos = s.wpos + s.size := by
  have hwpos := h.wpos_lt
  rw [Stream.written]
  rcases Nat.lt_or_ge s.wpos pos with hlt | hle
  · rw [Nat.mod_eq_of_lt (by omega)]
    omega
  · rw [show s.wpos + s.size - pos = s.wpos - pos + s.size by omega, Nat.add_mod_right, Nat.mod_eq_of_lt (by omega)]
    omega

/-- The place that is written next comes after all that has been written. -/
theorem add_written (hpos : pos < s.size) : (pos + s.written pos) % s.size = s.wpos := by
  have hwpos := h.wpos_lt
  have hwritten := h.written_or hpos
  have hadd := add_mod_or hpos (Nat.le_of_lt (h.written_lt pos))
  omega

theorem behind (hpos : pos < s.size) (hlen : len ≤ s.written pos) : ∀ j < len, (pos + j) % s.size ≠ s.wpos := by
  intro j hj
  have hne := add_mod_ne hpos (Nat.lt_of_lt_of_le hj hlen) (h.written_lt pos)
  rwa [h.add_written hpos] at hne

theorem resetRpos_eq : s.resetRpos = (s.wpos + s.size / 2) % s.size := h.wrap_add h.wpos_lt (Nat.le_refl _)

theorem resetRpos_lt : s.resetRpos < s.size := by
  rw [h.resetRpos_eq]
  exact h.mod_lt _

/-- Half a ring from where is written there is half a ring to read. -/
theorem written_resetRpos : s.written s.resetRpos = s.size / 2 := by
  have hhalf := h.half
  have hwpos := h.wpos_lt
  have hwritten := h.written_or h.resetRpos_lt
  have hadd := add_mod_or hwpos (show s.size / 2 ≤ s.size by omega)
  rw [← h.resetRpos_eq] at hadd
  omega

end Stream.WellFormed

/-! ### The ways a check ends -/

/-- The bytes that are read and have not been written are zeros, and all others are as before. -/
structure Fills (s : Stream) (usbLen : Nat) (buf : Nat → UInt8) : Prop where
  zero : ∀ j, s.written s.rpos ≤ j → j < usbLen → buf ((s.rpos + j) % s.size) = 0
  other : ∀ i, (∀ j, s.written s.rpos ≤ j → j < usbLen → i ≠ (s.rpos + j) % s.size) → buf i = s.buf i

section Ways

variable (h : s.WellFormed)

include h

theorem meets_untouched (hbehind : s.recvValid = true → usbLen ≤ s.written s.rpos) {conflicted : Bool} :
    Meets s ⟨s, s.rpos, (s.rpos + usbLen) % s.size, conflicted⟩ usbLen where
  size := rfl
  window := fun hvalid => .inl ⟨hbehind hvalid, h.behind h.rpos_lt (hbehind hvalid)⟩
  unread := fun _ => rfl
  unchanged := fun _ _ => rfl
  written := fun _ _ => rfl
  positions := ⟨h.rpos_lt, h.wpos_lt, h.rpos_lt, h.mod_lt _, rfl⟩

variable (hlen : usbLen ≤ s.size / 2)

include hlen

/-- What is read goes on at the beginning of the ring, behind what has been written. -/
theorem fills_both (hle : s.rpos ≤ s.wpos) (hnew : (s.rpos + usbLen) % s.size < s.rpos) :
    Fills s usbLen (zeroMem (zeroMem s.buf s.wpos (s.size - s.wpos)) 0 ((s.rpos + usbLen) % s.size)) := by
  have hrpos := h.rpos_lt
  have hwpos := h.wpos_lt
  have hwritten := h.written_or hrpos
  have hnew' := add_mod_or hrpos (show usbLen ≤ s.size by omega)
  constructor
  · intro j hlo hhi
    have hj := add_mod_or hrpos (show j ≤ s.size by omega)
    by_cases hover : s.size ≤ s.rpos + j
    · exact zeroMem_of_mem (Nat.zero_le _) (by omega)
    · rw [zeroMem_of_not_mem (by omega)]
      exact zeroMem_of_mem (by omega) (by omega)
  · intro i hi
    by_cases hbegin : i < (s.rpos + usbLen) % s.size
    · have hj := add_mod_or hrpos (show i + s.size - s.rpos ≤ s.size by omega)
      exact absurd (by omega) (hi (i + s.size - s.rpos) (by omega) (by omega))
    · rw [zeroMem_of_not_mem (by omega)]
      by_cases hend : s.wpos ≤ i ∧ i < s.size
      · have hj := add_mod_or hrpos (show i - s.rpos ≤ s.size by omega)
        exact absurd (by omega) (hi (i - s.rpos) (by omega) (by omega))
      · exact zeroMem_of_not_mem (by omega)

/-- What is read ends behind the place that is written next, in the same round as this. -/
theorem fills_one (hlt : s.wpos < (s.rpos + usbLen) % s.size)
    (hnew : s.rpos ≤ s.wpos ∧ s.rpos ≤ (s.rpos + usbLen) % s.size ∨
      s.wpos < s.rpos ∧ (s.rpos + usbLen) % s.size < s.rpos) :
    Fills s usbLen (zeroMem s.buf s.wpos ((s.rpos + usbLen) % s.size - s.wpos)) := by
  have hrpos := h.rpos_lt
  have hwritten := h.written_or hrpos
  have hnew' := add_mod_or hrpos (show usbLen ≤ s.size by omega)
  constructor
  · intro j hlo hhi
    have hj := add_mod_or hrpos (show j ≤ s.size by omega)
    exact zeroMem_of_mem (by omega) (by omega)
  · intro i hi
    by_cases hrange : s.wpos ≤ i ∧ i < (s.rpos + usbLen) % s.size
    · by_cases hle : s.rpos ≤ i
      · have hj := add_mod_or hrpos (show i - s.rpos ≤ s.size by omega)
        exact absurd (by omega) (hi (i - s.rpos) (by omega) (by omega))
      · have hj := add_mod_or hrpos (show i + s.size - s.rpos ≤ s.size by omega)
        exact absurd (by omega) (hi (i + s.size - s.rpos) (by omega) (by omega))
    · exact zeroMem_of_not_mem (by omega)

theorem Fills.meets (hfills : Fills s usbLen buf) (hvalid : s.recvValid = true) (hstate : s.state = .stopped) :
    Meets s (s.fill buf ((s.rpos + usbLen) % s.size)) usbLen where
  size := rfl
  window := fun _ => .inr ⟨hstate, rfl, rfl, hfills.zero⟩
  unread := fun hnot => absurd (hvalid.symm.trans hnot) Bool.true_eq_false.mp
  unchanged := hfills.other
  written := fun j hj => hfills.other _ fun k hlo hhi => by
    have := h.half
    have hrpos := h.rpos_lt
    exact add_mod_ne hrpos (Nat.lt_of_lt_of_le hj hlo) (by omega)
  positions := ⟨h.rpos_lt, h.mod_lt _, h.rpos_lt, h.mod_lt _, rfl⟩

theorem meets_reset (hvalid : s.recvValid = true) {initRpos conflicted : Bool} :
    Meets s ⟨{ s with rpos := s.resetRpos, initRpos := initRpos }, s.resetRpos, s.wrap (s.resetRpos + usbLen),
      conflicted⟩ usbLen where
  size := rfl
  window := fun _ => by
    have hle : usbLen ≤ s.written s.resetRpos := by rwa [h.written_resetRpos]
    exact .inl ⟨hle, h.behind h.resetRpos_lt hle⟩
  unread := fun hnot => absurd (hvalid.symm.trans hnot) Bool.true_eq_false.mp
  unchanged := fun _ _ => rfl
  written := fun _ _ => rfl
  positions := by
    have hnew := h.wrap_add h.resetRpos_lt hlen
    refine ⟨h.resetRpos_lt, h.wpos_lt, h.resetRpos_lt, ?_, hnew⟩
    rw [hnew]
    exact h.mod_lt _

theorem checkConflict_meets : Meets s (s.checkConflict usbLen) usbLen := by
  have hrpos := h.rpos_lt
  have hwpos := h.wpos_lt
  have hwritten := h.written_or hrpos
  have hnew := add_mod_or hrpos (show usbLen ≤ s.size by omega)
  rw [Stream.checkConflict, h.wrap_add hrpos hlen]
  by_cases hinit : s.initPos = true
  · rw [if_pos hinit]
    exact meets_reset h hlen (Bool.and_eq_true _ _ |>.mp hinit).1
  rw [if_neg hinit]
  dsimp only
  by_cases hvalid : s.recvValid = true
  swap
  · rw [if_neg hvalid]
    exact meets_untouched h fun hv => absurd hv hvalid
  rw [if_pos hvalid]
  split
  case isTrue hle =>
    split
    case isTrue hover =>
      split
      case isTrue hstate =>
        split
        case isTrue hbegin => exact (fills_both h hlen hle hbegin).meets h hlen hvalid hstate
        case isFalse hbegin => exact (fills_one h hlen (by omega) (by omega)).meets h hlen hvalid hstate
      case isFalse => exact meets_reset h hlen hvalid
    case isFalse hover => exact meets_untouched h fun _ => by omega
  case isFalse hgt =>
    split
    case isTrue hover =>
      split
      case isTrue hstate => exact (fills_one h hlen (by omega) (by omega)).meets h hlen hvalid hstate
      case isFalse => exact meets_reset h hlen hvalid
    case isFalse hover => exact meets_untouched h fun _ => by omega

end Ways

/-- **What is read of each stream**: all of it has been written, or is zero where nothing has come. -/
theorem playback_window (s : Streams) (usbLen : Nat) :
    (s.recv.WellFormed → usbLen ≤ s.recv.size / 2 → Meets s.recv (s.checkConflict usbLen).1 usbLen) ∧
      (s.recv2.WellFormed → usbLen ≤ s.recv2.size / 2 → Meets s.recv2 (s.checkConflict usbLen).2 usbLen) :=
  ⟨checkConflict_meets, checkConflict_meets⟩

/-- One stream has stopped, the other one is too slow. -/
def stoppedAndSlow : Streams where
  recv := ⟨16, fun _ => 1, 12, 14, true, true, .stopped⟩
  recv2 := ⟨16, fun _ => 1, 12, 14, true, true, .started⟩

theorem playback_window_stoppedAndSlow :
    Meets stoppedAndSlow.recv (stoppedAndSlow.checkConflict 8).1 8 ∧
      Meets stoppedAndSlow.recv2 (stoppedAndSlow.checkConflict 8).2 8 :=
  have hwindow := playback_window stoppedAndSlow 8
  ⟨hwindow.1 ⟨rfl, by decide, by decide, by decide⟩ (by decide),
    hwindow.2 ⟨rfl, by decide, by decide, by decide⟩ (by decide)⟩

end Best1307.UsbPlayback
