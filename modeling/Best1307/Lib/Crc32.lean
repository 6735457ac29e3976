import Mathlib.Algebra.Group.Nat.Defs

/-!
# CRC-32

The reflected CRC with polynomial `0xEDB88320`, one bit at a time, and the little-endian words it is sent
in. The programs take their CRC as a function they are given; this is the one they are given in practice.
-/

namespace Best1307

def crcByte (crc : UInt32) (byte : UInt8) : UInt32 :=
  (List.range 8).foldl
    (fun c _ => if c &&& 1 = 1 then (c >>> 1) ^^^ 0xEDB88320 else c >>> 1) (crc ^^^ byte.toUInt32)

def crc32Bytes (bytes : List UInt8) : UInt32 := bytes.foldl crcByte 0xFFFFFFFF ^^^ 0xFFFFFFFF

/-- The check value of the polynomial. -/
example : crc32Bytes [0x31, 0x32, 0x33, 0x34, 0x35, 0x36, 0x37, 0x38, 0x39] = 0xCBF43926 := by decide +kernel

def wordBytes (word : UInt32) : List UInt8 :=
  [UInt8.ofNat word.toNat, UInt8.ofNat (word.toNat / 2 ^ 8), UInt8.ofNat (word.toNat / 2 ^ 16),
    UInt8.ofNat (word.toNat / 2 ^ 24)]

def wordOfBytes (bytes : List UInt8) : UInt32 :=
  UInt32.ofNat ((bytes.getD 0 0).toNat + 2 ^ 8 * (bytes.getD 1 0).toNat + 2 ^ 16 * (bytes.getD 2 0).toNat +
    2 ^ 24 * (bytes.getD 3 0).toNat)

@[simp] theorem length_wordBytes (word : UInt32) : (wordBytes word).length = 4 := rfl

theorem wordOfBytes_append (word : UInt32) (rest : List UInt8) :
    wordOfBytes (wordBytes word ++ rest) = word := by
  apply UInt32.toNat_inj.mp
  have hword := word.toNat_lt
  simp only [wordOfBytes, wordBytes, List.cons_append, List.getD_cons_zero, List.getD_cons_succ,
    UInt8.toNat_ofNat', UInt32.toNat_ofNat']
  omega

theorem wordOfBytes_wordBytes (word : UInt32) : wordOfBytes (wordBytes word) = word := by
  rw [← List.append_nil (wordBytes word), wordOfBytes_append]

end Best1307
