import Mathlib.Algebra.Group.Nat.Defs
import Mathlib.Data.List.Basic
import Best1307.Lib.Crc32

/-!
# The frames of the test-over-the-air link

A packet is sent as `HEAD`, its length, its bytes, their CRC and `TAIL`. The receiver computes the offsets
in a frame from the length in its header, in 32-bit arithmetic.
-/

namespace Best1307.Tota

inductive ConnectStatus
  | connected | shakeHanded | disconnected
  deriving DecidableEq, Repr

/-- What a received command can change of the link: its status and the key of its cipher. -/
structure Session where
  connectStatus : ConnectStatus
  key : List UInt8
  deriving DecidableEq, Repr

/-- The build options the framing depends on, and the code it calls. -/
structure Config where
  /-- `__3M_PACK__` -/
  pack3M : Bool
  /-- `crc32_c(0, ·, ·)` -/
  crc32C : List UInt8 → UInt32
  /-- `AES128_CBC_decrypt_buffer`, under a key -/
  aesDecrypt : List UInt8 → List UInt8 → List UInt8
  length_aesDecrypt : ∀ key data, (aesDecrypt key data).length = data.length
  /-- `app_tota_cmd_received`: the handler of a command may change the session -/
  cmdReceived : List UInt8 → Session → Session

def l2capCfgMtu (cfg : Config) : Nat := if cfg.pack3M then 1021 else 679

def rfcommPpbReserve : Nat := 8 + 2

def maxSppPacketSize (cfg : Config) : Nat := l2capCfgMtu cfg - rfcommPpbReserve

def totaRxBufSize (cfg : Config) : Nat := maxSppPacketSize cfg * 2

def totaHead : List UInt8 := [0x48, 0x45, 0x41, 0x44]

def totaTail : List UInt8 := [0x54, 0x41, 0x49, 0x4C]

def totaHeadSize : Nat := 4

def totaLenSize : Nat := 4

def totaCrcSize : Nat := 4

def totaTailSize : Nat := 4

def totaPacketBufOffset : Nat := totaHeadSize + totaLenSize

def totaPacketVerifySize : Nat := totaHeadSize + totaLenSize + totaCrcSize + totaTailSize

theorem totaPacketVerifySize_eq : totaPacketVerifySize = 16 := rfl

def totaPacketCrcOffset (len : UInt32) : UInt32 := len + 8

def totaPacketTailOffset (len : UInt32) : UInt32 := len + 12

def totaPacketTotalSize (len : UInt32) : UInt32 := len + 16

/-- `app_tota_tx_pack` on the `dataLen` bytes at `pdata`; `none` is its return of 0. -/
def appTotaTxPack (cfg : Config) (pdata : List UInt8) : Option (List UInt8) :=
  if maxSppPacketSize cfg < pdata.length + totaPacketVerifySize then none
  else some (totaHead ++ wordBytes (UInt32.ofNat pdata.length) ++ pdata ++ wordBytes (cfg.crc32C pdata) ++
    totaTail)

theorem maxSppPacketSize_eq (cfg : Config) :
    maxSppPacketSize cfg = 1011 ∨ maxSppPacketSize cfg = 669 := by
  unfold maxSppPacketSize l2capCfgMtu
  cases cfg.pack3M
  · exact .inr rfl
  · exact .inl rfl

theorem maxSppPacketSize_le (cfg : Config) : maxSppPacketSize cfg ≤ 1011 := by
  rcases maxSppPacketSize_eq cfg with h | h <;> omega

theorem toNat_totaPacketTotalSize {len : UInt32} (h : len.toNat + 16 < 2 ^ 32) :
    (totaPacketTotalSize len).toNat = len.toNat + 16 := by
  rw [totaPacketTotalSize, UInt32.toNat_add]
  exact Nat.mod_eq_of_lt h

theorem toNat_totaPacketCrcOffset {len : UInt32} (h : len.toNat + 8 < 2 ^ 32) :
    (totaPacketCrcOffset len).toNat = len.toNat + 8 := by
  rw [totaPacketCrcOffset, UInt32.toNat_add]
  exact Nat.mod_eq_of_lt h

theorem toNat_totaPacketTailOffset {len : UInt32} (h : len.toNat + 12 < 2 ^ 32) :
    (totaPacketTailOffset len).toNat = len.toNat + 12 := by
  rw [totaPacketTailOffset, UInt32.toNat_add]
  exact Nat.mod_eq_of_lt h

/-! ### What was packed -/

section

variable {cfg : Config} {pdata frame : List UInt8} (hpack : appTotaTxPack cfg pdata = some frame)
include hpack

theorem pack_fits : pdata.length + 16 ≤ maxSppPacketSize cfg := by
  rw [appTotaTxPack, totaPacketVerifySize_eq] at hpack
  split at hpack
  · cases hpack
  · omega

theorem pack_eq : frame = totaHead ++ wordBytes (UInt32.ofNat pdata.length) ++ pdata ++
    wordBytes (cfg.crc32C pdata) ++ totaTail := by
  rw [appTotaTxPack] at hpack
  split at hpack
  · cases hpack
  · exact (Option.some.inj hpack).symm

theorem length_pack : frame.length = pdata.length + 16 := by
  simp only [pack_eq hpack, List.length_append, length_wordBytes, totaHead, totaTail, List.length_cons,
    List.length_nil]
  omega

theorem toNat_packedLen : (UInt32.ofNat pdata.length).toNat = pdata.length := by
  have hfits := pack_fits hpack
  have hmax := maxSppPacketSize_le cfg
  rw [UInt32.toNat_ofNat']
  exact Nat.mod_eq_of_lt (by omega)

end

end Best1307.Tota
