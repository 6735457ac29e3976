import Mathlib.Algebra.Group.Nat.Defs
import Mathlib.Data.List.Basic
import Best1307.Lib.WrapBuffer

/-!
# Programming the flash from the other side

The commands write or erase any range of the flash. What the range takes of a sector at its head or tail is merged with
the rest of the sector, which is kept in a buffer while the sector is erased. Builds without that buffer only take
ranges that start with a sector, and lose what follows the range in its last one.
-/

namespace Best1307.TotaFlash

open WrapBuffer

/-- `FLASH_SECTOR_SIZE_IN_BYTES` -/
def sectorSize : Nat := 4096

structure State where
  flash : Nat → UInt8
  sectorBuffer : Nat → UInt8

/-! ### Flash operations -/

def erase (flash : Nat → UInt8) (addr len : Nat) : Nat → UInt8 :=
  fun a => if addr / sectorSize ≤ a / sectorSize ∧ a / sectorSize ≤ (addr + len - 1) / sectorSize then 0xFF else flash a

/-- Programming clears bits. -/
def program (flash : Nat → UInt8) (addr : Nat) (data : List UInt8) : Nat → UInt8 :=
  write flash addr (List.zipWith (· &&& ·) data (read flash addr data.length))

namespace State

variable (s : State)

def halNorflashErase (addr len : Nat) : State := { s with flash := erase s.flash addr len }

def halNorflashWrite (addr : Nat) (data : List UInt8) : State := { s with flash := program s.flash addr data }

end State

/-! ### With the sector buffer -/

/-- `pre_bytes`, `middle_bytes`, `post_bytes`, `base1` and `base2` -/
structure Split where
  preBytes : Nat
  middleBytes : Nat
  postBytes : Nat
  base1 : Nat
  base2 : Nat
  deriving DecidableEq, Repr

def split (startAddr dataLen : Nat) : Split :=
  let stop := (startAddr + dataLen) % 2 ^ 32
  let base1 := startAddr - startAddr % sectorSize
  let base2 := stop - stop % sectorSize
  if startAddr % sectorSize = 0 then
    let middleBytes := dataLen - dataLen % sectorSize
    ⟨0, middleBytes, dataLen - middleBytes, base1, base2⟩
  else if base1 = base2 then ⟨dataLen, 0, 0, base1, base2⟩
  else ⟨sectorSize - startAddr % sectorSize, base2 - base1 - sectorSize, stop - base2, base1, base2⟩

namespace State

variable (s : State)

/-- The head of a range: the sector from `base1` on is written back with `part` in it. -/
def headSector (base1 startAddr : Nat) (part : List UInt8) : State :=
  let sectorBuffer := write s.sectorBuffer 0 (read s.flash base1 sectorSize)
  let s := { s with sectorBuffer := write sectorBuffer (startAddr - base1) part }
  (s.halNorflashErase base1 sectorSize).halNorflashWrite base1 (read s.sectorBuffer 0 sectorSize)

def wholeSector (addr : Nat) (part : Option (List UInt8)) : State :=
  let s := s.halNorflashErase addr sectorSize
  match part with
  | some part => s.halNorflashWrite addr part
  | none => s

/-- The tail of a range: the first `postBytes` of the sector from `base2` on, where the others are written back. -/
def tailSector (base2 postBytes : Nat) (part : Option (List UInt8)) : State :=
  let existBytes := sectorSize - postBytes
  let s := { s with sectorBuffer := write s.sectorBuffer 0 (read s.flash (base2 + postBytes) existBytes) }
  (s.wholeSector base2 part).halNorflashWrite (base2 + postBytes) (read s.sectorBuffer 0 existBytes)

/-- What `_write_flash`, `_erase_flash` and `tota_write_flash` do with a range: `dataBuf` is written, or without it
the range is erased. -/
def flashRange (dataBuf : Option (List UInt8)) (startAddr dataLen : Nat) : State :=
  let r := split startAddr dataLen
  let s :=
    if r.preBytes ≠ 0 then
      let len := if r.base1 = r.base2 then dataLen else sectorSize - (startAddr - r.base1)
      s.headSector r.base1 startAddr ((dataBuf.map (·.take len)).getD (List.replicate len 0xFF))
    else s
  let s :=
    if r.middleBytes ≠ 0 then
      let middleStartAddr := if r.base1 ≠ startAddr then r.base1 + sectorSize else r.base1
      let bufferOffset := middleStartAddr - startAddr
      (List.range (r.middleBytes / sectorSize)).foldl (fun s i =>
        s.wholeSector (middleStartAddr + i * sectorSize)
          (dataBuf.map fun data => (data.drop (bufferOffset + i * sectorSize)).take sectorSize)) s
    else s
  if r.postBytes ≠ 0 then
    s.tailSector r.base2 r.postBytes (dataBuf.map fun data => (data.drop (r.base2 - startAddr)).take r.postBytes)
  else s

/-- `tota_write_flash`, which only builds with the sector buffer have; it reads back what it has written. -/
def totaWriteFlash (startAddr : Nat) (dataBuf : List UInt8) : Bool × State :=
  let s := s.flashRange (some dataBuf) startAddr dataBuf.length
  (read s.flash startAddr dataBuf.length == dataBuf, s)

end State

/-! ### Without the sector buffer -/

namespace State

variable (s : State)

/-- What `_write_flash` and `_erase_flash` do with a range. -/
def flashSectors (dataBuf : Option (List UInt8)) (startAddr dataLen : Nat) : State :=
  if startAddr % sectorSize ≠ 0 ∨ dataLen = 0 then s
  else
    let sectorNum := dataLen / sectorSize
    let s := (List.range sectorNum).foldl (fun s i =>
      s.wholeSector (startAddr + i * sectorSize)
        (dataBuf.map fun data => (data.drop (i * sectorSize)).take sectorSize)) s
    if dataLen - sectorNum * sectorSize ≠ 0 then
      s.wholeSector (startAddr + sectorNum * sectorSize)
        (dataBuf.map fun data => (data.drop (sectorNum * sectorSize)).take (dataLen - sectorNum * sectorSize))
    else s

/-! ### Commands -/

/-- `_write_flash` of a build with or without `TOTA_FLASH_SECTOR_BUF_USED` -/
def writeFlash (sectorBufUsed : Bool) (startAddr : Nat) (dataBuf : List UInt8) : State :=
  if sectorBufUsed then s.flashRange (some dataBuf) startAddr dataBuf.length
  else s.flashSectors (some dataBuf) startAddr dataBuf.length

/-- `_erase_flash` of a build with or without `TOTA_FLASH_SECTOR_BUF_USED` -/
def eraseFlash (sectorBufUsed : Bool) (startAddr dataLen : Nat) : State :=
  if sectorBufUsed then s.flashRange none startAddr dataLen else s.flashSectors none startAddr dataLen

end State

/-! ### Cells -/

variable {flash : Nat → UInt8} {addr pos len : Nat} {data part : List UInt8} {s : State}

theorem ff_and (x : UInt8) : x &&& 0xFF = x := by
  refine UInt8.toNat_inj.mp ?_
  rw [UInt8.toNat_and]
  exact Nat.and_two_pow_sub_one_of_lt_two_pow (n := 8) x.toNat_lt

theorem program_erased (h : read flash addr data.length = List.replicate data.length 0xFF) :
    program flash addr data = write flash addr data := by
  have hand : List.zipWith (· &&& ·) data (List.replicate data.length (0xFF : UInt8)) = data := by
    refine List.ext_getElem ?_ fun i hi hi' => ?_
    · rw [List.length_zipWith, List.length_replicate, Nat.min_self]
    · rw [List.getElem_zipWith, List.getElem_replicate]
      exact ff_and _
  rw [program, h, hand]

theorem erase_sector (haligned : addr % sectorSize = 0) :
    erase flash addr sectorSize = write flash addr (List.replicate sectorSize 0xFF) := by
  have hsector (a : Nat) : (addr / sectorSize ≤ a / sectorSize ∧
      a / sectorSize ≤ (addr + sectorSize - 1) / sectorSize) ↔ addr ≤ a ∧ a < addr + sectorSize := by
    simp only [sectorSize] at haligned ⊢
    omega
  funext a
  simp only [erase, hsector]
  split
  case isTrue hin =>
    obtain ⟨k, rfl⟩ := Nat.exists_eq_add_of_le hin.1
    rw [write_apply_add (by rw [List.length_replicate]; omega), List.getElem_replicate]
  case isFalse hout => exact (write_apply_of_not_mem (by rw [List.length_replicate]; omega)).symm

/-! ### Sectors -/

theorem program_write {i : Nat} (hin : i + part.length ≤ data.length)
    (herased : (data.drop i).take part.length = List.replicate part.length 0xFF) :
    program (write flash addr data) (addr + i) part =
      write flash addr (data.take i ++ part ++ data.drop (i + part.length)) := by
  rw [program_erased ((read_write_inside hin).trans herased), write_inside hin]

namespace State

theorem wholeSector_flash {p : Option (List UInt8)} (haligned : addr % sectorSize = 0)
    (hlen : (p.getD []).length ≤ sectorSize) :
    (s.wholeSector addr p).flash = write s.flash addr
      (p.getD [] ++ List.replicate (sectorSize - (p.getD []).length) 0xFF) := by
  cases p with
  | none => exact erase_sector haligned
  | some part =>
      rw [Option.getD_some] at hlen ⊢
      have hin : 0 + part.length ≤ (List.replicate sectorSize (0xFF : UInt8)).length := by
        rw [List.length_replicate, Nat.zero_add]
        exact hlen
      have herased : ((List.replicate sectorSize (0xFF : UInt8)).drop 0).take part.length =
          List.replicate part.length 0xFF := by
        rw [List.drop_zero, List.take_replicate, Nat.min_eq_left hlen]
      have hprogram : program (write s.flash addr (List.replicate sectorSize 0xFF)) (addr + 0) part = _ :=
        program_write hin herased
      rw [List.take_zero, List.nil_append, Nat.zero_add, List.drop_replicate, Nat.add_zero] at hprogram
      simp only [wholeSector, halNorflashErase, halNorflashWrite]
      rw [erase_sector haligned, hprogram]

/-- The head of the range is written, and the rest of its sector is what it was. -/
theorem headSector_flash {base1 startAddr : Nat} (haligned : base1 % sectorSize = 0) (hle : base1 ≤ startAddr)
    (hin : startAddr - base1 + part.length ≤ sectorSize) :
    (s.headSector base1 startAddr part).flash = write s.flash startAddr part := by
  let sector := read s.flash base1 sectorSize
  have hsector : startAddr - base1 + part.length ≤ sector.length := by
    rw [length_read]
    exact hin
  let content := sector.take (startAddr - base1) ++ part ++ sector.drop (startAddr - base1 + part.length)
  have hlen : content.length = sectorSize := by
    rw [length_read] at hsector
    simp only [content, sector, List.length_append, List.length_take, List.length_drop, length_read]
    omega
  -- the buffer holds the sector with the data in it
  have hbuffer : read (write (write s.sectorBuffer 0 sector) (startAddr - base1) part) 0 sectorSize = content := by
    have hwrite : write (write s.sectorBuffer 0 sector) (0 + (startAddr - base1)) part = _ := write_inside hsector
    rw [Nat.zero_add] at hwrite
    rw [hwrite, ← hlen]
    exact read_write_self
  have hsame : write s.flash base1 content = write s.flash startAddr part := by
    have hwrite : write (write s.flash base1 sector) (base1 + (startAddr - base1)) part = _ := write_inside hsector
    rw [write_read_self, Nat.add_sub_cancel' hle] at hwrite
    exact hwrite.symm
  have hwhole : ((s.halNorflashErase base1 sectorSize).halNorflashWrite base1 content).flash = _ :=
    wholeSector_flash (s := s) (p := some content) haligned (Nat.le_of_eq hlen)
  rw [Option.getD_some, hlen, Nat.sub_self, List.replicate_zero, List.append_nil] at hwhole
  rw [← hsame, ← hwhole, ← hbuffer]
  rfl

theorem tailSector_flash {base2 postBytes : Nat} {p : Option (List UInt8)} (haligned : base2 % sectorSize = 0)
    (hpost : postBytes ≤ sectorSize) (hlen : ∀ part ∈ p, part.length = postBytes) :
    (s.tailSector base2 postBytes p).flash = write s.flash base2 (p.getD (List.replicate postBytes 0xFF)) := by
  let part := p.getD (List.replicate postBytes 0xFF)
  let exist := read s.flash (base2 + postBytes) (sectorSize - postBytes)
  have hpart : part.length = postBytes := by
    cases p with
    | none => exact List.length_replicate
    | some part => exact hlen part rfl
  have hexist : exist.length = sectorSize - postBytes := length_read
  let t := { s with sectorBuffer := write s.sectorBuffer 0 exist }
  have hwhole : (t.wholeSector base2 p).flash =
      write s.flash base2 (part ++ List.replicate (sectorSize - postBytes) 0xFF) := by
    cases p with
    | none =>
        rw [wholeSector_flash haligned (Nat.zero_le _)]
        simp only [t, part, Option.getD_none, List.nil_append, List.replicate_append_replicate, List.length_nil]
        congr 2
        omega
    | some data =>
        rw [wholeSector_flash haligned (by rw [Option.getD_some, hlen data rfl]; exact hpost)]
        simp only [t, part, Option.getD_some, hlen data rfl]
  have hbuffer : read t.sectorBuffer 0 (sectorSize - postBytes) = exist := by
    have hread : read (write s.sectorBuffer 0 exist) 0 exist.length = exist := read_write_self
    rwa [hexist] at hread
  have htail : program (write s.flash base2 (part ++ List.replicate (sectorSize - postBytes) 0xFF))
      (base2 + postBytes) exist = write s.flash base2 (part ++ exist) := by
    have herased : ((part ++ List.replicate (sectorSize - postBytes) (0xFF : UInt8)).drop postBytes).take
        exist.length = List.replicate exist.length 0xFF := by
      rw [← hpart, List.drop_left, hexist, List.take_replicate, hpart, Nat.min_self]
    have hin : postBytes + exist.length ≤ (part ++ List.replicate (sectorSize - postBytes) (0xFF : UInt8)).length := by
      exact Nat.le_of_eq (by rw [List.length_append, List.length_replicate, hpart, hexist])
    rw [program_write hin herased, ← hpart, List.take_left, ← List.drop_drop, List.drop_left, hexist, hpart,
      List.drop_replicate, Nat.sub_self, List.replicate_zero, List.append_nil]
  have hexists : exist = read (write s.flash base2 part) (base2 + part.length) (sectorSize - postBytes) := by
    rw [read_write_of_apart (.inr (Nat.le_refl _)), hpart]
  have hsame : write s.flash base2 (part ++ exist) = write s.flash base2 part := by
    rw [← write_write, hexists]
    exact write_read_self
  change program (t.wholeSector base2 p).flash (base2 + postBytes)
    (read t.sectorBuffer 0 (sectorSize - postBytes)) = _
  rw [hbuffer, hwhole, htail, hsame]

/-- The loop over whole sectors, with data for all of them or for none. -/
theorem wholeSectors_flash {p : Nat → Option (List UInt8)} (fill : List UInt8) (haligned : addr % sectorSize = 0)
    {n : Nat} (hfill : n * sectorSize ≤ fill.length)
    (hparts : ∀ i < n, (p i).getD (List.replicate sectorSize 0xFF) = (fill.drop (i * sectorSize)).take sectorSize) :
    ((List.range n).foldl (fun s i => s.wholeSector (addr + i * sectorSize) (p i)) s).flash =
      write s.flash addr (fill.take (n * sectorSize)) := by
  induction n with
  | zero => rw [List.range_zero, List.foldl_nil, Nat.zero_mul, List.take_zero, write_nil]
  | succ n ih =>
      have hmore : n * sectorSize + sectorSize ≤ fill.length := by rwa [← Nat.succ_mul]
      have hhere : (addr + n * sectorSize) % sectorSize = 0 := by rw [Nat.add_mul_mod_self_right, haligned]
      have hpart := hparts n (Nat.lt_succ_self n)
      have hlen : ((fill.drop (n * sectorSize)).take sectorSize).length = sectorSize := by
        rw [List.length_take, List.length_drop]
        omega
      have hsector : (p n).getD [] ++ List.replicate (sectorSize - ((p n).getD []).length) 0xFF =
          (fill.drop (n * sectorSize)).take sectorSize := by
        cases hp : p n with
        | none => exact (hp ▸ hpart :)
        | some part =>
            rw [hp, Option.getD_some] at hpart
            rw [Option.getD_some, hpart, hlen, Nat.sub_self, List.replicate_zero, List.append_nil]
      have hle : ((p n).getD []).length ≤ sectorSize := by
        have hboth := congrArg List.length hsector
        rw [List.length_append, hlen] at hboth
        omega
      have hbefore := ih (by omega) fun i hi => hparts i (Nat.lt_succ_of_lt hi)
      have htake : (fill.take (n * sectorSize)).length = n * sectorSize := List.length_take_of_le (by omega)
      have hjoin : write (write s.flash addr (fill.take (n * sectorSize))) (addr + n * sectorSize)
          ((fill.drop (n * sectorSize)).take sectorSize) = write s.flash addr (fill.take ((n + 1) * sectorSize)) := by
        rw [Nat.succ_mul, List.take_add, ← write_write, htake]
      rw [List.range_succ, List.foldl_append, List.foldl_cons, List.foldl_nil, wholeSector_flash hhere hle, hsector,
        hbefore, hjoin]

end State

/-! ### The range -/

/-- The head, the whole sectors and the tail are the range, and each lies where its sectors are. -/
structure Split.Covers (r : Split) (startAddr dataLen : Nat) : Prop where
  base1 : r.base1 % sectorSize = 0 ∧ r.base1 ≤ startAddr
  total : r.preBytes + r.middleBytes + r.postBytes = dataLen
  pre : r.preBytes ≠ 0 → startAddr - r.base1 + r.preBytes ≤ sectorSize ∧
    (r.base1 = r.base2 ∧ r.preBytes = dataLen ∨
      r.base1 ≠ r.base2 ∧ r.preBytes = sectorSize - (startAddr - r.base1))
  middle : r.middleBytes % sectorSize = 0
  whole : r.middleBytes ≠ 0 → (startAddr + r.preBytes) % sectorSize = 0 ∧
    (r.base1 ≠ startAddr ∧ r.base1 + sectorSize = startAddr + r.preBytes ∨
      r.base1 = startAddr ∧ r.preBytes = 0)
  post : r.postBytes ≠ 0 → r.base2 % sectorSize = 0 ∧ r.postBytes ≤ sectorSize ∧
    r.base2 = startAddr + r.preBytes + r.middleBytes

theorem split_covers {startAddr dataLen : Nat} (hin : startAddr + dataLen < 2 ^ 32) :
    (split startAddr dataLen).Covers startAddr dataLen := by
  have hsector : 0 < sectorSize := by decide
  have hstart : startAddr % sectorSize < sectorSize := Nat.mod_lt _ hsector
  have hstop : (startAddr + dataLen) % sectorSize < sectorSize := Nat.mod_lt _ hsector
  rw [split, Nat.mod_eq_of_lt hin]
  by_cases haligned : startAddr % sectorSize = 0
  · have htail : (startAddr + dataLen) % sectorSize = dataLen % sectorSize := by
      rw [Nat.add_mod, haligned, Nat.zero_add, Nat.mod_mod]
    have hbase2 : (startAddr + (dataLen - dataLen % sectorSize)) % sectorSize = 0 := by
      rw [Nat.add_mod, haligned, Nat.zero_add, Nat.mod_mod]
      exact Nat.mod_eq_zero_of_dvd (Nat.dvd_sub_mod dataLen)
    rw [if_pos haligned, htail, Nat.add_sub_assoc (Nat.mod_le _ _)]
    refine ⟨?_, ?_, fun hpre => absurd rfl hpre, ?_, fun _ => ⟨haligned, .inr ⟨?_, rfl⟩⟩,
      fun _ => ⟨hbase2, ?_, rfl⟩⟩ <;> simp only [sectorSize] at * <;> omega
  rw [if_neg haligned]
  by_cases hone : startAddr - startAddr % sectorSize = startAddr + dataLen - (startAddr + dataLen) % sectorSize
  · rw [if_pos hone]
    refine ⟨?_, rfl, ?_, rfl, fun hmiddle => absurd rfl hmiddle, fun hpost => absurd rfl hpost⟩
    · simp only [sectorSize] at *
      omega
    · intro _
      refine ⟨?_, .inl ⟨hone, rfl⟩⟩
      simp only [sectorSize] at *
      omega
  · rw [if_neg hone]
    refine ⟨?_, ?_, ?_, ?_, ?_, ?_⟩
    case refine_3 =>
      intro _
      refine ⟨?_, .inr ⟨hone, ?_⟩⟩ <;> simp only [sectorSize] at * <;> omega
    all_goals
      simp only [sectorSize] at *
      omega

/-- What the range is to hold: the data, or what is read from erased flash. -/
def filled (dataBuf : Option (List UInt8)) (dataLen : Nat) : List UInt8 :=
  dataBuf.getD (List.replicate dataLen 0xFF)

/-- A piece of the data, or as much of erased flash, is that piece of what the range is to hold. -/
theorem filled_piece {dataBuf : Option (List UInt8)} {dataLen i : Nat} (hin : i + len ≤ dataLen) :
    (dataBuf.map fun data => (data.drop i).take len).getD (List.replicate len 0xFF) =
      ((filled dataBuf dataLen).drop i).take len := by
  cases dataBuf with
  | none =>
      rw [Option.map_none, Option.getD_none, filled, Option.getD_none, List.drop_replicate, List.take_replicate]
      congr 1
      omega
  | some data => rfl

theorem length_filled {dataBuf : Option (List UInt8)} {dataLen : Nat} (hlen : ∀ data ∈ dataBuf, data.length = dataLen) :
    (filled dataBuf dataLen).length = dataLen := by
  cases dataBuf with
  | none => exact List.length_replicate
  | some data => exact hlen data rfl

namespace State

variable {dataBuf : Option (List UInt8)} {startAddr dataLen : Nat}

theorem head_flash {r : Split} (h : r.Covers startAddr dataLen) (hlen : ∀ data ∈ dataBuf, data.length = dataLen) :
    (if r.preBytes ≠ 0 then
      let len := if r.base1 = r.base2 then dataLen else sectorSize - (startAddr - r.base1)
      s.headSector r.base1 startAddr ((dataBuf.map (·.take len)).getD (List.replicate len 0xFF))
    else s).flash = write s.flash startAddr ((filled dataBuf dataLen).take r.preBytes) := by
  have htotal := h.total
  by_cases hnone : r.preBytes = 0
  · rw [hnone, List.take_zero, write_nil, if_neg (not_not_intro rfl)]
  rw [if_pos hnone]
  obtain ⟨hroom, hpre⟩ := h.pre hnone
  have hpreLen : (if r.base1 = r.base2 then dataLen else sectorSize - (startAddr - r.base1)) = r.preBytes := by
    rcases hpre with ⟨heq, hpre⟩ | ⟨hne, hpre⟩
    · rw [if_pos heq]
      exact hpre.symm
    · rw [if_neg hne]
      exact hpre.symm
  have hpart : (dataBuf.map (·.take r.preBytes)).getD (List.replicate r.preBytes 0xFF) =
      (filled dataBuf dataLen).take r.preBytes := by
    have hpiece := @filled_piece r.preBytes dataBuf dataLen 0 (by omega)
    simpa only [List.drop_zero] using hpiece
  simp only [hpreLen, hpart]
  refine headSector_flash h.base1.1 h.base1.2 ?_
  rw [List.length_take_of_le (by rw [length_filled hlen]; omega)]
  exact hroom

theorem middle_flash {r : Split} (h : r.Covers startAddr dataLen) (hlen : ∀ data ∈ dataBuf, data.length = dataLen) :
    (if r.middleBytes ≠ 0 then
      let middleStartAddr := if r.base1 ≠ startAddr then r.base1 + sectorSize else r.base1
      let bufferOffset := middleStartAddr - startAddr
      (List.range (r.middleBytes / sectorSize)).foldl (fun s i =>
        s.wholeSector (middleStartAddr + i * sectorSize)
          (dataBuf.map fun data => (data.drop (bufferOffset + i * sectorSize)).take sectorSize)) s
    else s).flash =
      write s.flash (startAddr + r.preBytes) (((filled dataBuf dataLen).drop r.preBytes).take r.middleBytes) := by
  have htotal := h.total
  by_cases hnone : r.middleBytes = 0
  · rw [hnone, List.take_zero, write_nil, if_neg (not_not_intro rfl)]
  rw [if_pos hnone]
  obtain ⟨haligned, hwhole⟩ := h.whole hnone
  have hmiddle : (if r.base1 ≠ startAddr then r.base1 + sectorSize else r.base1) = startAddr + r.preBytes := by
    rcases hwhole with ⟨hne, hbase⟩ | ⟨heq, hpre⟩
    · rw [if_pos hne]
      exact hbase
    · rw [if_neg (not_not_intro heq), heq, hpre, Nat.add_zero]
  have hsectors : r.middleBytes / sectorSize * sectorSize = r.middleBytes :=
    Nat.div_mul_cancel (Nat.dvd_of_mod_eq_zero h.middle)
  simp only [hmiddle, Nat.add_sub_cancel_left]
  rw [wholeSectors_flash ((filled dataBuf dataLen).drop r.preBytes) haligned, hsectors]
  · rw [hsectors, List.length_drop, length_filled hlen]
    omega
  · intro i hi
    have hin : r.preBytes + i * sectorSize + sectorSize ≤ dataLen := by
      have hnext : (i + 1) * sectorSize ≤ r.middleBytes / sectorSize * sectorSize := Nat.mul_le_mul_right _ hi
      rw [Nat.succ_mul, hsectors] at hnext
      omega
    rw [filled_piece hin, List.drop_drop]

theorem tail_flash {r : Split} (h : r.Covers startAddr dataLen) (hlen : ∀ data ∈ dataBuf, data.length = dataLen) :
    (if r.postBytes ≠ 0 then
      s.tailSector r.base2 r.postBytes (dataBuf.map fun data => (data.drop (r.base2 - startAddr)).take r.postBytes)
    else s).flash =
      write s.flash (startAddr + r.preBytes + r.middleBytes)
        ((filled dataBuf dataLen).drop (r.preBytes + r.middleBytes)) := by
  have htotal := h.total
  have hall := length_filled hlen
  by_cases hnone : r.postBytes = 0
  · rw [if_neg (not_not_intro hnone), List.drop_of_length_le (by omega), write_nil]
  rw [if_pos hnone]
  obtain ⟨haligned, hroom, hbase⟩ := h.post hnone
  have hdrop : r.base2 - startAddr = r.preBytes + r.middleBytes := by omega
  have hpart : ∀ part ∈ dataBuf.map fun data => (data.drop (r.base2 - startAddr)).take r.postBytes,
      part.length = r.postBytes := by
    intro part hpart
    obtain ⟨data, hdata, rfl⟩ := Option.map_eq_some_iff.mp hpart
    rw [List.length_take, List.length_drop, hlen data hdata]
    omega
  have hend : ((filled dataBuf dataLen).drop (r.preBytes + r.middleBytes)).length ≤ r.postBytes := by
    rw [List.length_drop, hall]
    omega
  rw [tailSector_flash haligned hroom hpart, hdrop, @filled_piece r.postBytes dataBuf dataLen _ (by omega), hbase,
    List.take_of_length_le hend]

/-- A range is written or erased, and nothing but the range. -/
theorem flashRange_flash (hlen : ∀ data ∈ dataBuf, data.length = dataLen) (hin : startAddr + dataLen < 2 ^ 32) :
    (s.flashRange dataBuf startAddr dataLen).flash = write s.flash startAddr (filled dataBuf dataLen) := by
  have h := split_covers hin
  have htotal := h.total
  rw [flashRange, tail_flash h hlen, middle_flash h hlen, head_flash h hlen,
    write_take_drop_drop (by rw [length_filled hlen]; omega)]

/-! ### Sectors only -/

/-- What whole sectors hold of the range: the last one is erased behind it. -/
def padded (dataBuf : Option (List UInt8)) (dataLen : Nat) : List UInt8 :=
  filled dataBuf dataLen ++ List.replicate ((sectorSize - dataLen % sectorSize) % sectorSize) 0xFF

theorem lastSector_flash (hlen : ∀ data ∈ dataBuf, data.length = dataLen) {addr pos : Nat}
    (haligned : addr % sectorSize = 0) (hroom : dataLen - pos ≤ sectorSize) :
    (s.wholeSector addr (dataBuf.map fun data => (data.drop pos).take (dataLen - pos))).flash =
      write s.flash addr ((filled dataBuf dataLen).drop pos ++ List.replicate (sectorSize - (dataLen - pos)) 0xFF) := by
  cases dataBuf with
  | none =>
      rw [wholeSector_flash haligned (Nat.zero_le _)]
      simp only [filled, Option.map_none, Option.getD_none, List.nil_append, List.length_nil, List.drop_replicate,
        List.replicate_append_replicate]
      congr 2
      omega
  | some data =>
      have hdata : data.length = dataLen := hlen data rfl
      have htake : (data.drop pos).take (dataLen - pos) = data.drop pos :=
        List.take_of_length_le (Nat.le_of_eq (by rw [List.length_drop, hdata]))
      rw [wholeSector_flash haligned (by rw [Option.map_some, Option.getD_some, htake, List.length_drop, hdata]; omega)]
      simp only [filled, Option.map_some, Option.getD_some, htake, List.length_drop, hdata]

/-- Without the sector buffer a range that starts with a sector is written or erased, and the last sector is erased
behind it. -/
theorem flashSectors_flash (hlen : ∀ data ∈ dataBuf, data.length = dataLen) (haligned : startAddr % sectorSize = 0)
    (hpos : dataLen ≠ 0) :
    (s.flashSectors dataBuf startAddr dataLen).flash = write s.flash startAddr (padded dataBuf dataLen) := by
  have hsector : 0 < sectorSize := by decide
  have hmod : dataLen / sectorSize * sectorSize + dataLen % sectorSize = dataLen := Nat.div_add_mod' _ _
  have hrest : dataLen % sectorSize < sectorSize := Nat.mod_lt _ hsector
  have hfilled := length_filled hlen
  have hwhole : ((List.range (dataLen / sectorSize)).foldl (fun s i =>
      s.wholeSector (startAddr + i * sectorSize)
        (dataBuf.map fun data => (data.drop (i * sectorSize)).take sectorSize)) s).flash =
      write s.flash startAddr ((filled dataBuf dataLen).take (dataLen / sectorSize * sectorSize)) := by
    refine wholeSectors_flash _ haligned (by rw [hfilled]; omega) fun i hi => filled_piece ?_
    have hnext : (i + 1) * sectorSize ≤ dataLen / sectorSize * sectorSize := Nat.mul_le_mul_right _ hi
    rw [Nat.succ_mul] at hnext
    omega
  rw [flashSectors, if_neg (by omega)]
  by_cases hnone : dataLen - dataLen / sectorSize * sectorSize = 0
  · have hzero : dataLen % sectorSize = 0 := by omega
    simp only [hnone, ne_eq, not_true_eq_false, if_false]
    rw [hwhole, List.take_of_length_le (by omega), padded, hzero, Nat.sub_zero, Nat.mod_self, List.replicate_zero,
      List.append_nil]
  · have hpad : (sectorSize - dataLen % sectorSize) % sectorSize =
        sectorSize - (dataLen - dataLen / sectorSize * sectorSize) := by
      rw [Nat.mod_eq_of_lt (by omega)]
      omega
    simp only [hnone, ne_eq, not_false_eq_true, if_true]
    rw [lastSector_flash hlen (by rw [Nat.add_mul_mod_self_right, haligned]) (by omega), hwhole, padded, hpad]
    have hjoin := @write_take_drop _ s.flash (filled dataBuf dataLen ++
      List.replicate (sectorSize - (dataLen - dataLen / sectorSize * sectorSize)) 0xFF) startAddr
      (dataLen / sectorSize * sectorSize) (by rw [List.length_append]; omega)
    rwa [List.take_append_of_le_length (by omega), List.drop_append_of_le_length (by omega)] at hjoin

theorem flashSectors_refused (h : startAddr % sectorSize ≠ 0 ∨ dataLen = 0) :
    s.flashSectors dataBuf startAddr dataLen = s := if_pos h

end State

/-! ### Commands -/

/-- Without the sector buffer all sectors of a range are erased, if it starts with one. -/
theorem eraseSectors_flash (s : State) (startAddr dataLen : Nat) :
    (s.eraseFlash false startAddr dataLen).flash =
      if startAddr % sectorSize ≠ 0 then s.flash
      else write s.flash startAddr (List.replicate ((dataLen + sectorSize - 1) / sectorSize * sectorSize) 0xFF) := by
  have herase : s.eraseFlash false startAddr dataLen = s.flashSectors none startAddr dataLen := rfl
  have hnone : ∀ data ∈ (none : Option (List UInt8)), data.length = dataLen := nofun
  rw [herase]
  by_cases haligned : startAddr % sectorSize = 0
  · rw [if_neg (not_not_intro haligned)]
    by_cases hpos : dataLen = 0
    · rw [State.flashSectors_refused (.inr hpos), hpos]
      exact write_nil.symm
    · have hcount : dataLen + (sectorSize - dataLen % sectorSize) % sectorSize =
          (dataLen + sectorSize - 1) / sectorSize * sectorSize := by
        simp only [sectorSize]
        omega
      rw [State.flashSectors_flash hnone haligned hpos, State.padded, filled, Option.getD_none,
        List.replicate_append_replicate, hcount]
  · rw [if_pos haligned, State.flashSectors_refused (.inl haligned)]

/-- What the commands do to the flash with the sector buffer, and what is erased without it. -/
theorem programs_exactly (s : State) (startAddr dataLen : Nat) (dataBuf : List UInt8)
    (hwrite : startAddr + dataBuf.length < 2 ^ 32) (herase : startAddr + dataLen < 2 ^ 32) :
    (s.totaWriteFlash startAddr dataBuf).1 = true ∧
    (s.totaWriteFlash startAddr dataBuf).2.flash = write s.flash startAddr dataBuf ∧
    (s.writeFlash true startAddr dataBuf).flash = write s.flash startAddr dataBuf ∧
    (s.eraseFlash true startAddr dataLen).flash = write s.flash startAddr (List.replicate dataLen 0xFF) ∧
    (s.eraseFlash false startAddr dataLen).flash =
      if startAddr % sectorSize ≠ 0 then s.flash
      else write s.flash startAddr (List.replicate ((dataLen + sectorSize - 1) / sectorSize * sectorSize) 0xFF) := by
  have hdata : ∀ data ∈ some dataBuf, data.length = dataBuf.length := by
    rintro data ⟨⟩
    rfl
  have hwritten : (s.flashRange (some dataBuf) startAddr dataBuf.length).flash = write s.flash startAddr dataBuf :=
    State.flashRange_flash hdata hwrite
  have hnone : ∀ data ∈ (none : Option (List UInt8)), data.length = dataLen := nofun
  refine ⟨?_, hwritten, hwritten, State.flashRange_flash hnone herase, eraseSectors_flash s startAddr dataLen⟩
  rw [State.totaWriteFlash, hwritten, read_write_self]
  exact beq_self_eq_true dataBuf

theorem programs_exactly_across :
    let s : State := ⟨fun _ => 0, fun _ => 0⟩
    (s.totaWriteFlash 4090 (List.replicate 10 7)).2.flash = write s.flash 4090 (List.replicate 10 7) ∧
      (s.eraseFlash true 4090 8200).flash = write s.flash 4090 (List.replicate 8200 0xFF) :=
  have h := programs_exactly ⟨fun _ => 0, fun _ => 0⟩ 4090 8200 (List.replicate 10 7)
    (by rw [List.length_replicate]; decide) (by decide)
  ⟨h.2.1, h.2.2.2.1⟩

/-- Without the sector buffer, erasing ten bytes erases their sector. -/
theorem erase_ten_not_exact :
    ¬∀ (s : State) (startAddr dataLen : Nat), startAddr + dataLen < 2 ^ 32 →
      (s.eraseFlash false startAddr dataLen).flash = write s.flash startAddr (List.replicate dataLen 0xFF) := by
  intro h
  let s : State := ⟨fun _ => 0, fun _ => 0⟩
  have herased : (s.eraseFlash false 0 10).flash (0 + 10) = 0xFF := by
    rw [eraseSectors_flash, if_neg (by decide), write_apply_add (by rw [List.length_replicate]; decide),
      List.getElem_replicate]
  rw [h s 0 10 (by decide), write_apply_of_not_mem (.inr (Nat.le_of_eq (by rw [List.length_replicate])))] at herased
  exact absurd herased (by decide)

end Best1307.TotaFlash
