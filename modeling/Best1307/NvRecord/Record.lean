import Best1307.Lib.Crc32
import Mathlib.Algebra.Group.Nat.Defs
import Mathlib.Data.List.Basic
import Mathlib.Logic.Function.Basic

/-!
# The NV record and its validity check

`NV_EXTENSION_RECORD_T` as RAM and flash hold it: a header and the bytes after it. A flash sector is
read through the same type, so a sector is a record whose bytes run on past the record's own length.
The sizes are those of one firmware build, and two builds may disagree about them.
-/

namespace Best1307.NvRecord

structure NvrecordHeader where
  magicNumber : UInt32
  majorVersion : UInt16
  minorVersion : UInt16
  validLen : UInt32
  crc32 : UInt32
  deriving DecidableEq

/-- A record in RAM, or a sector read as a record. `data i` is the `i`-th byte after the header. -/
structure NvExtensionRecord where
  header : NvrecordHeader
  data : Nat → UInt8

def nvExtensionMagicNumber : UInt32 := 0x4E455854

def dataBytes (data : Nat → UInt8) (len : Nat) : List UInt8 := (List.range len).map data

theorem dataBytes_congr {left right : Nat → UInt8} {len : Nat} (h : ∀ i < len, left i = right i) :
    dataBytes left len = dataBytes right len :=
  List.map_congr_left fun i hi => h i (List.mem_range.mp hi)

/-- What one firmware build fixes about its NV record. The length bound is the one
`nv_record_extension_init` asserts of its own record before it reads the flash. -/
structure Build where
  /-- `NV_EXTENSION_MAJOR_VERSION` and `NV_EXTENSION_MINOR_VERSION`. -/
  majorVersion : UInt16
  minorVersion : UInt16
  /-- `NV_EXTENSION_SIZE - NV_EXTENSION_HEADER_SIZE`. -/
  sectorDataLen : Nat
  /-- `NV_EXTENSION_VALID_LEN`. -/
  validLen : Nat
  validLen_lt : validLen < sectorDataLen
  sectorDataLen_lt : sectorDataLen < 2 ^ 32
  /-- `crc32_c(0, buf, len)`. -/
  crc32C : List UInt8 → UInt32
  /-- The bytes `local_extension_data` is initialised with. -/
  initialData : Nat → UInt8
  /-- The bytes `nv_record_set_default(.., NV_REBUILD_ALL)` leaves. -/
  defaultData : Nat → UInt8

namespace Build

variable (b : Build)

/-- The header `local_extension_data` starts with and every rebuild restores, up to its CRC. -/
def header (crc32 : UInt32) : NvrecordHeader :=
  ⟨nvExtensionMagicNumber, b.majorVersion, b.minorVersion, UInt32.ofNat b.validLen, crc32⟩

def nvRecordDataIsValid (r : NvExtensionRecord) : Bool :=
  if b.majorVersion = r.header.majorVersion ∧ nvExtensionMagicNumber = r.header.magicNumber then
    if r.header.validLen.toNat ≤ b.sectorDataLen then
      if b.crc32C (dataBytes r.data r.header.validLen.toNat) = r.header.crc32 then
        -- a record longer than this build knows is refused, a shorter one is taken
        if b.validLen < r.header.validLen.toNat then false else true
      else false
    else false
  else false

/-- `nv_record_items_is_valid`: the check of the items is still to be written in the source. -/
def nvRecordItemsIsValid (_ : NvExtensionRecord) : Bool := true

/-- What `nv_record_extension_init` asks of a sector. -/
def accepts (r : NvExtensionRecord) : Bool := b.nvRecordDataIsValid r && nvRecordItemsIsValid r

theorem accepts_iff (r : NvExtensionRecord) :
    b.accepts r = true ↔ r.header.majorVersion = b.majorVersion ∧
      r.header.magicNumber = nvExtensionMagicNumber ∧ r.header.validLen.toNat ≤ b.validLen ∧
      r.header.crc32 = b.crc32C (dataBytes r.data r.header.validLen.toNat) := by
  have hlen := b.validLen_lt
  unfold accepts nvRecordItemsIsValid nvRecordDataIsValid
  rw [Bool.and_true]
  constructor
  · intro h
    split at h <;> try contradiction
    split at h <;> try contradiction
    split at h <;> try contradiction
    split at h <;> try contradiction
    rename_i hversion _ hcrc hlonger
    exact ⟨hversion.1.symm, hversion.2.symm, Nat.le_of_not_lt hlonger, hcrc.symm⟩
  · rintro ⟨hmajor, hmagic, hshort, hcrc⟩
    rw [if_pos ⟨hmajor.symm, hmagic.symm⟩, if_pos (by omega), if_pos hcrc.symm, if_neg (by omega)]

/-- The part of a record that `NV_EXTENSION_VALID_LEN` bytes carry. -/
def payload (r : NvExtensionRecord) : List UInt8 := dataBytes r.data b.validLen

def SameRecord (left right : NvExtensionRecord) : Prop :=
  left.header = right.header ∧ ∀ i < b.validLen, left.data i = right.data i

variable {b}

theorem SameRecord.refl (r : NvExtensionRecord) : b.SameRecord r r := ⟨rfl, fun _ _ => rfl⟩

theorem SameRecord.symm {left right : NvExtensionRecord} (h : b.SameRecord left right) :
    b.SameRecord right left := ⟨h.1.symm, fun i hi => (h.2 i hi).symm⟩

theorem SameRecord.trans {left mid right : NvExtensionRecord} (h : b.SameRecord left mid)
    (h' : b.SameRecord mid right) : b.SameRecord left right :=
  ⟨h.1.trans h'.1, fun i hi => (h.2 i hi).trans (h'.2 i hi)⟩

theorem SameRecord.payload {left right : NvExtensionRecord} (h : b.SameRecord left right) :
    b.payload left = b.payload right :=
  dataBytes_congr h.2

/-- The check reads nothing past the record's own length. -/
theorem SameRecord.accepts {left right : NvExtensionRecord} (h : b.SameRecord left right) :
    b.accepts left = true ↔ b.accepts right = true := by
  rw [accepts_iff, accepts_iff, h.1]
  refine and_congr_right fun _ => and_congr_right fun _ => and_congr_right fun hlen => ?_
  rw [dataBytes_congr (fun i hi => h.2 i (by omega) : ∀ i < right.header.validLen.toNat,
    left.data i = right.data i)]

/-! ### A record with a fresh CRC -/

variable (b)

/-- A record whose header carries the CRC of its own bytes, as the flush leaves the RAM record. -/
def sealed (data : Nat → UInt8) : NvExtensionRecord :=
  ⟨b.header (b.crc32C (dataBytes data b.validLen)), data⟩

theorem validLen_toNat : (UInt32.ofNat b.validLen).toNat = b.validLen :=
  UInt32.toNat_ofNat_of_lt' (Nat.lt_trans b.validLen_lt b.sectorDataLen_lt)

theorem accepts_sealed (data : Nat → UInt8) : b.accepts (b.sealed data) = true := by
  rw [accepts_iff]
  refine ⟨rfl, rfl, ?_, ?_⟩
  · exact Nat.le_of_eq b.validLen_toNat
  · simp only [sealed, header, validLen_toNat]

/-! ### NOR flash

Erasing sets every bit of a sector, writing can only clear bits. -/

def erased : NvExtensionRecord :=
  ⟨⟨0xFFFFFFFF, 0xFFFF, 0xFFFF, 0xFFFFFFFF, 0xFFFFFFFF⟩, fun _ => 0xFF⟩

/-- `sizeof(NV_EXTENSION_RECORD_T)` bytes of `r` are written over `old`. -/
def program (r old : NvExtensionRecord) : NvExtensionRecord where
  header :=
    ⟨old.header.magicNumber &&& r.header.magicNumber, old.header.majorVersion &&& r.header.majorVersion,
      old.header.minorVersion &&& r.header.minorVersion, old.header.validLen &&& r.header.validLen,
      old.header.crc32 &&& r.header.crc32⟩
  data := fun i => if i < b.validLen then old.data i &&& r.data i else old.data i

def written (r : NvExtensionRecord) : NvExtensionRecord :=
  ⟨r.header, fun i => if i < b.validLen then r.data i else 0xFF⟩

private theorem uint32_ones_and (x : UInt32) : 0xFFFFFFFF &&& x = x := by
  apply UInt32.eq_of_toBitVec_eq
  exact BitVec.allOnes_and

private theorem uint16_ones_and (x : UInt16) : 0xFFFF &&& x = x := by
  apply UInt16.eq_of_toBitVec_eq
  exact BitVec.allOnes_and

private theorem uint8_ones_and (x : UInt8) : 0xFF &&& x = x := by
  apply UInt8.eq_of_toBitVec_eq
  exact BitVec.allOnes_and

theorem program_erased (r : NvExtensionRecord) : b.program r erased = b.written r := by
  simp only [program, erased, written, uint32_ones_and, uint16_ones_and, uint8_ones_and]

theorem program_written (r : NvExtensionRecord) : b.program r (b.written r) = b.written r := by
  simp only [program, written, UInt32.and_self, UInt16.and_self, NvExtensionRecord.mk.injEq, true_and]
  funext i
  split
  · exact UInt8.and_self
  · rfl

theorem sameRecord_written (r : NvExtensionRecord) : b.SameRecord (b.written r) r :=
  ⟨rfl, fun i hi => by simp only [written, if_pos hi]⟩

/-- An erased sector is refused: its magic number is not the record's. -/
theorem accepts_erased : b.accepts erased = false := by
  rw [Bool.eq_false_iff]
  intro h
  have hmagic := ((b.accepts_iff erased).mp h).2.1
  exact absurd hmagic (by decide)

end Build

/-! ### A build small enough to run -/

/-- A build whose record is four bytes long in a sector of 4096. -/
def smallBuild : Build where
  majorVersion := 1
  minorVersion := 0
  sectorDataLen := 4080
  validLen := 4
  validLen_lt := by decide
  sectorDataLen_lt := by decide
  crc32C := crc32Bytes
  initialData := fun _ => 0
  defaultData := fun _ => 0

end Best1307.NvRecord
