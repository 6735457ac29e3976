import Best1307.LogDump.Dump

/-!
# What a sector shows

A sector shows the number of its header from the moment the header is there. What follows the header, and what the
flash still holds behind a shorter write, makes no difference.
-/

namespace Best1307.LogDump

open Framing

variable {data rest : List UInt8} {n : Nat}

theorem read32_bytes32 (left : List UInt8) (x : UInt32) (right : List UInt8) :
    read32 (left ++ (bytes32 x ++ right)) left.length = x := by
  have hx := x.toNat_lt
  have hslice : slice (left ++ (bytes32 x ++ right)) left.length 4 = bytes32 x := slice_middle rfl rfl
  rw [read32, hslice]
  apply UInt32.toNat.inj
  simp only [bytes32, List.foldr_cons, List.foldr_nil, UInt8.toNat_ofNat', UInt32.toNat_ofNat']
  omega

theorem read32_append (hlen : n + 4 ≤ data.length) : read32 (data ++ rest) n = read32 data n := by
  rw [read32, slice_append hlen, read32]

theorem shown_append (hlen : 12 ≤ data.length) : shown (data ++ rest) = shown data := by
  simp only [shown, LogDumpHeader.read, LogDumpHeader.Existed, read32_append (show 0 + 4 ≤ data.length by omega),
    read32_append (show 4 + 4 ≤ data.length by omega), read32_append (show 8 + 4 ≤ data.length by omega)]
  congr

theorem length_bytes (seqnum : UInt32) (isBootup : Bool) :
    (LogDumpHeader.filled seqnum isBootup).bytes.length = LogDumpHeader.size := rfl

theorem shown_filled (seqnum : UInt32) (isBootup : Bool) :
    shown (LogDumpHeader.filled seqnum isBootup).bytes = some seqnum.toNat := by
  have hbytes : (LogDumpHeader.filled seqnum isBootup).bytes = bytes32 dumpLogMagic ++ (bytes32 dumpLogVersion ++
      (bytes32 seqnum ++ ([if isBootup then 1 else 0] ++ [0, 0, 10]))) := by
    simp only [LogDumpHeader.bytes, LogDumpHeader.filled, List.append_assoc]
  rw [hbytes]
  generalize ([if isBootup then 1 else 0] ++ [0, 0, 10] : List UInt8) = tail
  have hlength (x : UInt32) : (bytes32 x).length = 4 := rfl
  have hmagic := read32_bytes32 [] dumpLogMagic (bytes32 dumpLogVersion ++ (bytes32 seqnum ++ tail))
  have hversion := read32_bytes32 (bytes32 dumpLogMagic) dumpLogVersion (bytes32 seqnum ++ tail)
  have hseqnum := read32_bytes32 (bytes32 dumpLogMagic ++ bytes32 dumpLogVersion) seqnum tail
  rw [List.nil_append, List.length_nil] at hmagic
  rw [hlength] at hversion
  rw [List.length_append, hlength, hlength, List.append_assoc] at hseqnum
  have hexisted : (LogDumpHeader.read (bytes32 dumpLogMagic ++ (bytes32 dumpLogVersion ++
      (bytes32 seqnum ++ tail)))).Existed := ⟨hmagic, hversion⟩
  rw [shown, if_pos hexisted]
  exact congrArg (fun x => some x.toNat) hseqnum

theorem shown_erasedSector : shown erasedSector = none := by
  have hsplit : erasedSector = List.replicate 12 0xFF ++ List.replicate (sectorSize - 12) 0xFF := by
    rw [← List.replicate_add, Nat.add_sub_cancel' (by decide), erasedSector]
  rw [hsplit, shown_append (Nat.le_of_eq (List.length_replicate ..).symm)]
  decide

theorem program_erasedSector (hlen : data.length ≤ sectorSize) :
    program 0 data erasedSector = data ++ List.replicate (sectorSize - data.length) 0xFF := by
  have hzip : ∀ (bytes : List UInt8) (m : Nat), bytes.length ≤ m →
      List.zipWith (· &&& ·) bytes (List.replicate m 0xFF) = bytes := by
    intro bytes
    induction bytes with
    | nil => intro m _; rfl
    | cons byte bytes ih =>
        intro m hm
        obtain ⟨m, rfl⟩ := Nat.exists_eq_succ_of_ne_zero (show m ≠ 0 by rw [List.length_cons] at hm; omega)
        rw [List.replicate_succ, List.zipWith_cons_cons, ih m (by rw [List.length_cons] at hm; omega)]
        exact congrArg (· :: bytes) (UInt8.and_neg_one ..)
  rw [program, List.take_zero, List.drop_zero, List.nil_append, Nat.zero_add, erasedSector, hzip data _ hlen,
    List.drop_replicate]

theorem shown_program (hmin : 12 ≤ data.length) (hmax : data.length ≤ sectorSize) :
    shown (program 0 data erasedSector) = shown data := by
  rw [program_erasedSector hmax, shown_append hmin]

theorem take_memcpy (dst src : List UInt8) {offset : Nat} (hoffset : offset ≤ dst.length) :
    (memcpy dst offset src).take (offset + src.length) = dst.take offset ++ src := by
  rw [memcpy, List.take_left']
  rw [List.length_append, List.length_take, Nat.min_eq_left hoffset]

theorem length_memcpy (dst src : List UInt8) {offset : Nat} (hroom : offset + src.length ≤ dst.length) :
    (memcpy dst offset src).length = dst.length := by
  simp only [memcpy, List.length_append, List.length_take, List.length_drop]
  omega

end Best1307.LogDump
