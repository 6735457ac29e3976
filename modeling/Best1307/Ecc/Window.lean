import Best1307.Ecc.KeyTable
import Best1307.Lib.Comb
import Best1307.Lib.While

/-!
# Multiples by the window method

`ecc_p256.c`: a step takes one bit of each quarter of the secret key, adds the entry of the table that these four bits
choose, and doubles. Other steps fill a table for a point of the caller.
-/

namespace Best1307.Ecc

open BigHex256 JacobianPoint256

/-! ### The steps -/

inductive KeyType
  | publickeyGeneration
  | dhkeyGeneration
  | tableGenerationPt1
  | tableGenerationPt2
  deriving DecidableEq

/-- `struct ecc_elt_tag` -/
structure EccElt where
  pointMulWord256 : Nat
  jacobianPointQ256 : JacobianPoint256
  jacobianPointR256 : JacobianPoint256
  pk256 : BigHex256
  bitCursor : Nat
  keyType : KeyType
  win4Table : List JacobianPoint256

/-- `(Pk256.num[((top-i)/32)+1] >> (i%32)) & 0x01` -/
def keyBit (pk : BigHex256) (top i : Nat) : Nat := ((pk.num.words.getD ((top - i) / 32 + 1) 0).val >>> (i % 32)) &&& 1

def indexVal (pk : BigHex256) (i : Nat) : Nat :=
  keyBit pk 255 i + keyBit pk 191 i * 2 + keyBit pk 127 i * 4 + keyBit pk 63 i * 8

def entry (table : List JacobianPoint256) (i : Nat) : JacobianPoint256 := table.getD i infinityPoint256

namespace EccElt

variable (e : EccElt)

def index : Nat := indexVal e.pk256 e.bitCursor

def summed (table : List JacobianPoint256) : JacobianPoint256 :=
  if e.index ≠ 0 then (gfJacobianPointAddition256 (entry table (e.index - 1)) e.jacobianPointQ256).2
  else e.jacobianPointQ256

/-- The part for `ECC_PUBLICKEY_GENERATION` and `ECC_DHKEY_GENERATION` -/
def window (table : List JacobianPoint256) : EccElt :=
  if e.bitCursor ≠ 0 then
    { e with
      jacobianPointQ256 := (gfJacobianPointDouble256 (e.summed table)).2
      bitCursor := e.bitCursor - 1 }
  else { e with jacobianPointQ256 := e.summed table, pointMulWord256 := 0 }

/-- The part for `ECC_4BIT_TABLE_GENERATION_PT1` -/
def tablePt1 : EccElt :=
  let R := (gfJacobianPointDouble256 e.jacobianPointR256).2
  let e := { e with jacobianPointR256 := R, bitCursor := e.bitCursor + 1 }
  if e.bitCursor = 64 then { e with win4Table := e.win4Table.set 1 R }
  else if e.bitCursor = 128 then { e with win4Table := e.win4Table.set 3 R }
  else if e.bitCursor = 192 then
    { e with win4Table := e.win4Table.set 7 R, keyType := .tableGenerationPt2, bitCursor := 3 }
  else e

def addEntries (i j k : Nat) : EccElt :=
  { e with win4Table :=
      e.win4Table.set k (gfJacobianPointAddition256 (entry e.win4Table i) (entry e.win4Table j)).2 }

/-- The part for `ECC_4BIT_TABLE_GENERATION_PT2` -/
def tablePt2 : EccElt :=
  if e.bitCursor = 3 then { e.addEntries 0 1 2 with bitCursor := 5 }
  else if e.bitCursor = 5 then { e.addEntries 0 3 4 with bitCursor := 6 }
  else if e.bitCursor = 6 then { e.addEntries 1 3 5 with bitCursor := 7 }
  else if e.bitCursor = 7 then { e.addEntries 0 5 6 with bitCursor := 9 }
  else if 9 ≤ e.bitCursor ∧ e.bitCursor ≤ 15 then
    if e.bitCursor = 15 then
      { e.addEntries 7 (e.bitCursor - 9) (e.bitCursor - 1) with keyType := .dhkeyGeneration, bitCursor := 63 }
    else { e.addEntries 7 (e.bitCursor - 9) (e.bitCursor - 1) with bitCursor := e.bitCursor + 1 }
  else e

def eccPointMultiplicationWin256 : EccElt :=
  match e.keyType with
  | .publickeyGeneration => e.window ecc4WinLookUpTable
  | .dhkeyGeneration => e.window e.win4Table
  | .tableGenerationPt1 => e.tablePt1
  | .tableGenerationPt2 => e.tablePt2

end EccElt

/-! ### The bits of the key -/

section Bits

variable {pk : BigHex256} {top i : Nat}

/-- The bit of a quarter of the key; the quarters end at the bits 63, 127, 191 and 255. -/
theorem keyBit_eq (htop : top % 32 = 31) (hlt : top < 256) (hi : i ≤ top) :
    keyBit pk top i = pk.value / 2 ^ (255 - top + i) % 2 := by
  have hword : (pk.num.words.getD ((top - i) / 32 + 1) 0).val =
      pk.value / radix ^ ((255 - top + i) / 32) % radix := by
    have hplace : (top - i) / 32 + 1 = 8 - (255 - top + i) / 32 := by omega
    rw [hplace]
    exact pk.num.val_word (by omega)
  have hbit : i % 32 = (255 - top + i) % 32 := by omega
  have hradix : radix = 2 ^ 32 := rfl
  rw [keyBit, hword, Nat.and_one_is_mod, Nat.shiftRight_eq_div_pow, hbit, hradix, ← pow_mul,
    Comb.bit_mod (Nat.mod_lt _ (by decide)), Nat.div_div_eq_div_mul, ← pow_add, Nat.div_add_mod]

/-- The index chooses the multiple of the base point that is told by the bits of all four quarters. -/
theorem tableMultiple_indexVal (hi : i < 64) : tableMultiple (indexVal pk i) = Comb.teeth 64 4 pk.value i := by
  have hteeth : Comb.teeth 64 4 pk.value i = pk.value / 2 ^ i % 2 + 2 ^ 64 * (pk.value / 2 ^ (64 + i) % 2) +
      2 ^ 128 * (pk.value / 2 ^ (128 + i) % 2) + 2 ^ 192 * (pk.value / 2 ^ (192 + i) % 2) := by
    rw [Comb.teeth, Finset.sum_range_succ, Finset.sum_range_succ, Finset.sum_range_succ, Finset.sum_range_one]
    simp only [mul_zero, pow_zero, zero_add, one_mul, mul_one]
  have h0 := @keyBit_eq pk 255 i (by decide) (by decide) (by omega)
  have h1 := @keyBit_eq pk 191 i (by decide) (by decide) (by omega)
  have h2 := @keyBit_eq pk 127 i (by decide) (by decide) (by omega)
  have h3 := @keyBit_eq pk 63 i (by decide) (by decide) (by omega)
  simp only [Nat.reduceSub, zero_add] at h0 h1 h2 h3
  rw [hteeth, indexVal, h0, h1, h2, h3, tableMultiple]
  omega

theorem indexVal_lt : indexVal pk i < 16 := by
  have hlt : ∀ top, keyBit pk top i < 2 := by
    intro top
    rw [keyBit, Nat.and_one_is_mod]
    exact Nat.mod_lt _ (by decide)
  have h0 := hlt 255
  have h1 := hlt 191
  have h2 := hlt 127
  have h3 := hlt 63
  rw [indexVal]
  omega

end Bits

/-! ### A turn -/

namespace EccElt

/-- None of the defects of the sums of points shows in the step. -/
structure Undisturbed (e : EccElt) : Prop where
  adds : e.index ≠ 0 → AddsWhole (entry ecc4WinLookUpTable (e.index - 1)) e.jacobianPointQ256
  stored : e.index ≠ 0 → e.jacobianPointQ256.isInfinite256 = false →
    isOppositeStored (entry ecc4WinLookUpTable (e.index - 1)) e.jacobianPointQ256 = false
  doubles : e.bitCursor ≠ 0 → DoublesWhole (e.summed ecc4WinLookUpTable)

instance (e : EccElt) : Decidable e.Undisturbed :=
  decidable_of_iff
    ((e.index ≠ 0 → AddsWhole (entry ecc4WinLookUpTable (e.index - 1)) e.jacobianPointQ256) ∧
      (e.index ≠ 0 → e.jacobianPointQ256.isInfinite256 = false →
        isOppositeStored (entry ecc4WinLookUpTable (e.index - 1)) e.jacobianPointQ256 = false) ∧
      (e.bitCursor ≠ 0 → DoublesWhole (e.summed ecc4WinLookUpTable)))
    ⟨fun ⟨adds, stored, doubles⟩ => ⟨adds, stored, doubles⟩, fun ⟨adds, stored, doubles⟩ => ⟨adds, stored, doubles⟩⟩

/-- Before a step the bits above the cursor have been gone through, and doubled. -/
structure At (e : EccElt) (k i : Nat) : Prop where
  keyType : e.keyType = .publickeyGeneration
  key : e.pk256.value = k
  cursor : e.bitCursor = i
  running : e.pointMulWord256 ≠ 0
  point : e.jacobianPointQ256.Represents ((2 * Comb.scanned 64 4 k (i + 1)) • basePoint)

variable {e : EccElt} {k i : Nat}

theorem represents_entry {index : Nat} (hpos : index ≠ 0) (hlt : index < 16) :
    (entry ecc4WinLookUpTable (index - 1)).Represents (tableMultiple index • basePoint) := by
  have hentry := represents_of_isMultiple (table_isMultiple (index - 1) (by omega))
  rwa [Nat.sub_add_cancel (Nat.pos_of_ne_zero hpos)] at hentry

theorem At.summed (h : e.At k i) (hi : i < 64) (hwhole : e.Undisturbed) :
    (e.summed ecc4WinLookUpTable).Represents (Comb.scanned 64 4 k i • basePoint) := by
  have hmultiple : tableMultiple e.index = Comb.teeth 64 4 k i := by
    rw [index, h.cursor, tableMultiple_indexVal hi, h.key]
  rw [EccElt.summed, Comb.scanned_eq 4 k hi, ← hmultiple]
  split
  · rename_i hindex
    rw [Nat.add_comm, add_nsmul]
    exact gfJacobianPointAddition256_represents (represents_entry hindex indexVal_lt) h.point (hwhole.adds hindex)
      fun _ => hwhole.stored hindex
  · rename_i hindex
    rw [not_not.mp hindex]
    exact h.point

theorem At.window (h : e.At k (i + 1)) (hi : i + 1 < 64) (hwhole : e.Undisturbed) :
    e.eccPointMultiplicationWin256.At k i := by
  have hstep : e.eccPointMultiplicationWin256 = e.window ecc4WinLookUpTable := by
    rw [eccPointMultiplicationWin256, h.keyType]
  have hcursor : e.bitCursor ≠ 0 := by
    rw [h.cursor]
    exact Nat.succ_ne_zero i
  rw [hstep, EccElt.window, if_pos hcursor]
  refine ⟨h.keyType, h.key, ?_, h.running, ?_⟩
  · dsimp only
    rw [h.cursor, Nat.add_sub_cancel]
  · rw [mul_nsmul', two_nsmul]
    exact gfJacobianPointDouble256_represents (h.summed hi hwhole) (hwhole.doubles hcursor)

/-- The last step does not double, and it ends the loop. -/
theorem At.last (h : e.At k 0) (hwhole : e.Undisturbed) :
    e.eccPointMultiplicationWin256.pointMulWord256 = 0 ∧
      e.eccPointMultiplicationWin256.jacobianPointQ256.Represents (Comb.scanned 64 4 k 0 • basePoint) := by
  have hstep : e.eccPointMultiplicationWin256 = e.window ecc4WinLookUpTable := by
    rw [eccPointMultiplicationWin256, h.keyType]
  rw [hstep, EccElt.window, if_neg (not_not.mpr h.cursor)]
  exact ⟨rfl, h.summed (by decide) hwhole⟩

/-! ### The loop -/

/-- The loop `while(ecc_elt.Point_Mul_Word256 > 0)` -/
def multiply (fuel : Nat) (e : EccElt) : Option EccElt :=
  whileLoop (fun e => decide (0 < e.pointMulWord256)) (fun e => some e.eccPointMultiplicationWin256) fuel e

/-- None of the defects of the sums of points shows in any step. -/
def UndisturbedRun (e : EccElt) : Prop := ∀ j < 64, (eccPointMultiplicationWin256^[j] e).Undisturbed

theorem UndisturbedRun.at (hwhole : e.UndisturbedRun) (h : e.At k 63) {j : Nat} (hj : j < 64) :
    (eccPointMultiplicationWin256^[j] e).At k (63 - j) := by
  induction j with
  | zero => exact h
  | succ j ih =>
      have hprev := ih (Nat.lt_of_succ_lt hj)
      rw [show 63 - j = 63 - (j + 1) + 1 by omega] at hprev
      rw [Function.iterate_succ_apply']
      exact hprev.window (by omega) (hwhole j (Nat.lt_of_succ_lt hj))

/-- After 64 steps the base point has been multiplied by the key, whatever the point of the caller. -/
theorem UndisturbedRun.multiply {fuel : Nat} (hwhole : e.UndisturbedRun) (h : e.At k 63) (hk : k < 2 ^ 256)
    (hfuel : 64 ≤ fuel) : e.multiply fuel = some (eccPointMultiplicationWin256^[64] e) ∧
      (eccPointMultiplicationWin256^[64] e).jacobianPointQ256.Represents (k • basePoint) := by
  have hlast := (hwhole.at h (Nat.lt_succ_self 63)).last (hwhole 63 (Nat.lt_succ_self 63))
  rw [← Function.iterate_succ_apply' eccPointMultiplicationWin256, Comb.scanned_zero, Nat.mod_eq_of_lt hk] at hlast
  refine ⟨whileLoop_iterate (fun j hj => ?_) ?_ hfuel, hlast.2⟩
  · exact decide_eq_true (Nat.pos_of_ne_zero (hwhole.at h hj).running)
  · rw [hlast.1]
    rfl

end EccElt

end Best1307.Ecc
