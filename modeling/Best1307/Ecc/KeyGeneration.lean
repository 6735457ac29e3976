import Best1307.Ecc.Inversion
import Best1307.Ecc.Window

/-!
# Keys

`ecc_p256.c`: the multiple of a point by a secret key, as the caller gets it. Keys are given in bytes, the least
significant one first. The kind of key that is asked for is not looked at: a multiple of the base point is worked out
whatever the point is.
-/

namespace Best1307.Ecc

open Words (Number)
open BinaryEuclid (coefficient)
open BigHex256 JacobianPoint256

/-! ### Bytes -/

def leValue (bytes : List UInt8) : Nat := Nat.ofDigits 256 (bytes.map UInt8.toNat)

structure Key where
  bytes : List UInt8
  length : bytes.length = 32

def Key.value (key : Key) : Nat := leValue key.bytes

def wordOf (b0 b1 b2 b3 : UInt8) : Word :=
  Fin.ofNat radix (b3.toNat * 2 ^ 24 + b2.toNat * 2 ^ 16 + b1.toNat * 2 ^ 8 + b0.toNat)

def keyWords : List UInt8 → List Word
  | b0 :: b1 :: b2 :: b3 :: bytes => wordOf b0 b1 b2 b3 :: keyWords bytes
  | _ => []

theorem leValue_cons (b : UInt8) (bytes : List UInt8) : leValue (b :: bytes) = b.toNat + 256 * leValue bytes := by
  rw [leValue, List.map_cons, Nat.ofDigits_cons]
  rfl

theorem leValue_append (front bytes : List UInt8) :
    leValue (front ++ bytes) = leValue front + 256 ^ front.length * leValue bytes := by
  rw [leValue, List.map_append, Nat.ofDigits_append, List.length_map]
  rfl

theorem val_wordOf (b0 b1 b2 b3 : UInt8) :
    (wordOf b0 b1 b2 b3).val = b3.toNat * 2 ^ 24 + b2.toNat * 2 ^ 16 + b1.toNat * 2 ^ 8 + b0.toNat := by
  have h0 := b0.toNat_lt
  have h1 := b1.toNat_lt
  have h2 := b2.toNat_lt
  have h3 := b3.toNat_lt
  apply Nat.mod_eq_of_lt
  show _ < 4294967296
  omega

theorem keyWords_spec {n : Nat} {bytes : List UInt8} (hlength : bytes.length = 4 * n) :
    (keyWords bytes).length = n ∧ Nat.ofDigits radix ((keyWords bytes).map Fin.val) = leValue bytes := by
  induction n generalizing bytes with
  | zero =>
      rw [List.length_eq_zero_iff.mp hlength]
      exact ⟨rfl, rfl⟩
  | succ n ih =>
      obtain ⟨b0, bytes1, rfl⟩ := List.exists_cons_of_length_eq_add_one hlength
      obtain ⟨b1, bytes2, rfl⟩ := List.exists_cons_of_length_eq_add_one (Nat.succ.inj hlength)
      obtain ⟨b2, bytes3, rfl⟩ := List.exists_cons_of_length_eq_add_one (Nat.succ.inj (Nat.succ.inj hlength))
      obtain ⟨b3, bytes4, rfl⟩ :=
        List.exists_cons_of_length_eq_add_one (Nat.succ.inj (Nat.succ.inj (Nat.succ.inj hlength)))
      obtain ⟨hcount, hvalue⟩ := ih (Nat.succ.inj (Nat.succ.inj (Nat.succ.inj (Nat.succ.inj hlength))))
      rw [keyWords, List.length_cons, hcount, List.map_cons, Nat.ofDigits_cons, hvalue, val_wordOf, leValue_cons,
        leValue_cons, leValue_cons, leValue_cons]
      refine ⟨rfl, ?_⟩
      have hradix : radix * leValue bytes4 = 4294967296 * leValue bytes4 := rfl
      omega

/-- The number of a key, with the word of its first bytes as the last one -/
def Key.toBigHex (key : Key) : BigHex256 :=
  setBigNumberLength256 ⟨⟨0 :: (keyWords key.bytes).reverse, by
    rw [List.length_cons, List.length_reverse, (keyWords_spec (n := 8) key.length).1]⟩, 0, false⟩

theorem Key.value_toBigHex (key : Key) : key.toBigHex.value = key.value := by
  have hdigits := (@keyWords_spec 8 key.bytes key.length).2
  have hwords : key.toBigHex.value = Words.value (0 :: (keyWords key.bytes).reverse) := rfl
  rw [hwords, Words.value_cons, Fin.val_zero, Nat.mul_zero, Nat.add_zero, Words.value, List.map_reverse,
    List.reverse_reverse, hdigits]
  rfl

/-- `num & 0x000000FF`, and so on -/
def bytesOf (w : Word) : List UInt8 :=
  [UInt8.ofNat w.val, UInt8.ofNat (w.val >>> 8), UInt8.ofNat (w.val >>> 16), UInt8.ofNat (w.val >>> 24)]

/-- `key_res_x`, or `key_res_y` -/
def keyRes (a : BigHex256) : List UInt8 := (a.num.words.drop 1).reverse.flatMap bytesOf

theorem leValue_bytesOf (w : Word) : leValue (bytesOf w) = w.val := by
  have hlt : w.val < 4294967296 := w.isLt
  have hbyte : ∀ n, (UInt8.ofNat n).toNat = n % 256 := fun n => UInt8.toNat_ofNat'
  have hnil : leValue [] = 0 := rfl
  rw [bytesOf, leValue_cons, leValue_cons, leValue_cons, leValue_cons, hnil, hbyte, hbyte, hbyte, hbyte]
  simp only [Nat.shiftRight_eq_div_pow]
  omega

theorem leValue_flatMap (ws : List Word) : leValue (ws.flatMap bytesOf) = Nat.ofDigits radix (ws.map Fin.val) := by
  induction ws with
  | nil => rfl
  | cons w ws ih =>
      have hlength : (bytesOf w).length = 4 := rfl
      have hradix : 256 ^ 4 = radix := rfl
      rw [List.flatMap_cons, leValue_append, leValue_bytesOf, ih, hlength, hradix, List.map_cons, Nat.ofDigits_cons]

theorem length_keyRes (a : BigHex256) : (keyRes a).length = 32 := by
  have hwords : ∀ ws : List Word, (ws.flatMap bytesOf).length = 4 * ws.length := by
    intro ws
    induction ws with
    | nil => rfl
    | cons w ws ih =>
        rw [List.flatMap_cons, List.length_append, ih, List.length_cons, Nat.mul_succ, Nat.add_comm]
        rfl
  rw [keyRes, hwords, List.length_reverse, List.length_drop, a.num.length]
  rfl

theorem leValue_keyRes {a : BigHex256} (h : a.value < radix ^ 8) : leValue (keyRes a) = a.value := by
  have hdrop := Words.value_drop h
  rw [a.num.length] at hdrop
  rw [keyRes, leValue_flatMap, List.map_reverse]
  exact hdrop

/-! ### The functions -/

/-- `ecc_is_valid_point`: `y² = x³ - 3x + b` -/
def eccIsValidPoint (X_coord Y_coord : BigHex256) : Bool :=
  let Y_square := multiplyBigHexModP256 Y_coord Y_coord
  let X_square := multiplyBigHexModP256 X_coord X_coord
  let X_cube := multiplyBigHexModP256 X_coord X_square
  let double_X := addBigHexModP256 X_coord X_coord
  let tripple_X := addBigHexModP256 double_X X_coord
  let interim_result1 := subtractBigHexMod256 X_cube tripple_X
  let interim_result2 := addBigHexModP256 interim_result1 coefB
  Y_square.num == interim_result2.num

def gfPointJacobianToAffine256 (fuel : Nat) (P : JacobianPoint256) : Option (BigHex256 × BigHex256) :=
  (bigHexInversion256 fuel P.z).map fun inverted_Z_jacobian =>
    (multiplyBigHexModP256 P.x inverted_Z_jacobian, multiplyBigHexModP256 P.y inverted_Z_jacobian)

/-- The values of `key_type` that `ecc_p256.h` defines -/
inductive RequestType
  | publickeyGeneration
  | dhkeyGeneration
  deriving DecidableEq

inductive Status
  | success
  | invalidParm
  deriving DecidableEq

/-- What the loop begins with -/
def eccElt (secretKey publicKeyX publicKeyY : Key) : EccElt where
  pointMulWord256 := elements
  jacobianPointQ256 := ⟨ofWord 0, ofWord 1, ofWord 0⟩
  jacobianPointR256 := ⟨publicKeyX.toBigHex, publicKeyY.toBigHex, ofWord 1⟩
  pk256 := secretKey.toBigHex
  bitCursor := 63
  keyType := .publickeyGeneration
  win4Table := []

/-- `ecc_generate_new_key256`, with what it writes to `output`, if none of its loops takes more than `fuel` turns -/
def eccGenerateNewKey256 (fuel : Nat) (_keyType : RequestType) (secretKey publicKeyX publicKeyY : Key) :
    Option (Status × List UInt8) :=
  if eccIsValidPoint publicKeyX.toBigHex publicKeyY.toBigHex then
    (EccElt.multiply fuel (eccElt secretKey publicKeyX publicKeyY)).bind fun ecc_elt =>
      (gfPointJacobianToAffine256 fuel ecc_elt.jacobianPointQ256).map fun pointQ256 =>
        (.success, keyRes pointQ256.1 ++ keyRes pointQ256.2)
  else some (.invalidParm, [])

/-! ### What is asked of them -/

/-- A secret key below the order, and a point of the curve -/
structure KeyRequest where
  keyType : RequestType
  secretKey : Key
  publicKeyX : Key
  publicKeyY : Key
  secretKey_pos : 0 < secretKey.value
  secretKey_lt : secretKey.value < orderP256
  x_lt : publicKeyX.value < p256
  y_lt : publicKeyY.value < p256
  nonsingular : curveP256.Nonsingular (publicKeyX.value : ZMod p256) (publicKeyY.value : ZMod p256)

namespace KeyRequest

variable (r : KeyRequest)

def publicPoint : curveP256.Point := .some _ _ r.nonsingular

def expected : curveP256.Point :=
  match r.keyType with
  | .publickeyGeneration => r.secretKey.value • basePoint
  | .dhkeyGeneration => r.secretKey.value • r.publicPoint

end KeyRequest

def IsPoint (output : List UInt8) : curveP256.Point → Prop
  | .zero => False
  | .some x y _ => output.length = 64 ∧ leValue (output.take 32) = x.val ∧ leValue (output.drop 32) = y.val

def KeyRequest.Meets (r : KeyRequest) : Prop :=
  ∃ output, (∀ fuel, 257 ≤ fuel →
    eccGenerateNewKey256 fuel r.keyType r.secretKey r.publicKeyX r.publicKeyY = some (.success, output)) ∧
      IsPoint output r.expected

/-- None of the defects of the arithmetic shows where the coordinates of a point are worked out. -/
structure AffineUndisturbed (P : JacobianPoint256) : Prop where
  inversion : ¬ Spoiled (coefficient p256 (P.z.value, 1) (p256, 0))
  x : IsWhole P.x.value (P.z.value : ZMod p256)⁻¹
  y : IsWhole P.y.value (P.z.value : ZMod p256)⁻¹

/-- None of the defects of the arithmetic shows on the way. -/
structure KeyRequest.Undisturbed (r : KeyRequest) : Prop where
  y_sqr : IsWhole (r.publicKeyY.value : ZMod p256) r.publicKeyY.value
  x_sqr : IsWhole (r.publicKeyX.value : ZMod p256) r.publicKeyX.value
  x_cube : IsWhole (r.publicKeyX.value : ZMod p256) (r.publicKeyX.value * r.publicKeyX.value)
  run : (eccElt r.secretKey r.publicKeyX r.publicKeyY).UndisturbedRun
  affine : AffineUndisturbed
    (EccElt.eccPointMultiplicationWin256^[64] (eccElt r.secretKey r.publicKeyX r.publicKeyY)).jacobianPointQ256

/-! ### The point of the caller -/

theorem Key.denotes {key : Key} (h : key.value < p256) : key.toBigHex.Denotes key.value :=
  ⟨⟨rfl, key.value_toBigHex ▸ h⟩, congrArg _ key.value_toBigHex, rfl⟩

theorem eccIsValidPoint_iff {X Y : BigHex256} {x y : ZMod p256} (hX : X.Denotes x) (hY : Y.Denotes y)
    (hy_sqr : IsWhole y y) (hx_sqr : IsWhole x x) (hx_cube : IsWhole x (x * x)) :
    eccIsValidPoint X Y = true ↔ y * y = x * (x * x) - (x + x + x) + coefB.value := by
  have hB : coefB.Denotes coefB.value := BigHex256.IsNormal.denotes (by decide)
  have hcube := hX.multiply (hX.multiply hX hx_sqr) hx_cube
  have hright := (hcube.subtract ((hX.add hX).add hX)).add hB
  rw [eccIsValidPoint, beq_iff_eq]
  exact (hY.multiply hY hy_sqr).num_eq_iff hright

theorem KeyRequest.Undisturbed.valid {r : KeyRequest} (h : r.Undisturbed) :
    eccIsValidPoint r.publicKeyX.toBigHex r.publicKeyY.toBigHex = true := by
  have hequation := (WeierstrassCurve.Affine.nonsingular_iff _ _).mp r.nonsingular |>.1
  rw [WeierstrassCurve.Affine.equation_iff] at hequation
  simp only [curve] at hequation
  rw [eccIsValidPoint_iff (Key.denotes r.x_lt) (Key.denotes r.y_lt) h.y_sqr h.x_sqr h.x_cube]
  linear_combination hequation

/-! ### The result -/

theorem eccElt_at (secretKey publicKeyX publicKeyY : Key) :
    (eccElt secretKey publicKeyX publicKeyY).At secretKey.value 63 := by
  refine ⟨rfl, secretKey.value_toBigHex, rfl, Nat.succ_ne_zero 8, ?_⟩
  rw [Comb.scanned_width, mul_zero, zero_nsmul, represents_zero]
  show isInfinite256 ⟨ofWord 0, ofWord 1, ofWord 0⟩ = true
  decide

theorem value_multiply_inverse {a z inverted : BigHex256} {x : ZMod p256} (ha : IsFieldElement a)
    (hinverse : inverted.IsInverse z) (hx : (a.value : ZMod p256) = x * z.value)
    (hwhole : IsWhole a.value (z.value : ZMod p256)⁻¹) :
    (multiplyBigHexModP256 a inverted).value = x.val := by
  obtain ⟨hsign, hlt, hone⟩ := hinverse
  have hmul : (inverted.value : ZMod p256) * z.value = 1 := by
    rw [← Nat.cast_mul, ← ZMod.natCast_mod, hone, Nat.cast_one]
  have hinv := eq_inv_of_mul_eq_one_left hmul
  rw [← hinv, IsWhole, ZMod.val_natCast_of_lt ha.lt, ZMod.val_natCast_of_lt hlt] at hwhole
  obtain ⟨hproduct, -⟩ := multiplyBigHexModP256_of_not_between ha ⟨hsign, hlt⟩ hwhole
  have hcast : x = (a.value * inverted.value : Nat) := by
    rw [Nat.cast_mul, hx, mul_assoc, mul_comm (z.value : ZMod p256), hmul, mul_one]
  rw [hproduct.value, hcast, ZMod.val_natCast]

theorem AffineUndisturbed.toAffine {P : JacobianPoint256} {x y : ZMod p256} {hxy : curveP256.Nonsingular x y}
    (h : AffineUndisturbed P) (hP : P.Represents (.some x y hxy)) :
    ∃ pointQ256, (∀ fuel, 257 ≤ fuel → gfPointJacobianToAffine256 fuel P = some pointQ256) ∧
      pointQ256.1.value = x.val ∧ pointQ256.2.value = y.val := by
  obtain ⟨c, hc, hof⟩ := hP
  have hpos : 0 < P.z.value := by
    apply Nat.pos_of_ne_zero
    intro hzero
    apply hof.z_ne_zero
    rw [← hc.z.value, hzero, Nat.cast_zero]
  obtain ⟨C, hfuel, hinverse, hcoefficient⟩ :=
    bigHexInversion256_eq_reduce P.z hc.z.hasLength hpos hc.z.isFieldElement.lt
  have hinverse := hinverse.mpr (hcoefficient ▸ h.inversion)
  refine ⟨(multiplyBigHexModP256 P.x (reduce C), multiplyBigHexModP256 P.y (reduce C)), ?_, ?_, ?_⟩
  · intro fuel hle
    rw [gfPointJacobianToAffine256, hfuel fuel hle]
    rfl
  · apply value_multiply_inverse hc.x.isFieldElement hinverse _ h.x
    rw [hc.x.value, hc.z.value, hof.x_eq]
  · apply value_multiply_inverse hc.y.isFieldElement hinverse _ h.y
    rw [hc.y.value, hc.z.value, hof.y_eq]

theorem isPoint_of_coordinates {X Y : BigHex256} {x y : ZMod p256} (hxy : curveP256.Nonsingular x y)
    (hX : X.value = x.val) (hY : Y.value = y.val) : IsPoint (keyRes X ++ keyRes Y) (.some x y hxy) := by
  have hlt : ∀ v : ZMod p256, v.val < radix ^ 8 := fun v => Nat.lt_trans (ZMod.val_lt v) p256_lt
  refine ⟨?_, ?_, ?_⟩
  · rw [List.length_append, length_keyRes, length_keyRes]
  · rw [List.take_left' (length_keyRes X), leValue_keyRes (hX ▸ hlt x), hX]
  · rw [List.drop_left' (length_keyRes X), leValue_keyRes (hY ▸ hlt y), hY]

theorem IsPoint.eq {output : List UInt8} {P Q : curveP256.Point} (hP : IsPoint output P) (hQ : IsPoint output Q) :
    P = Q := by
  cases P with
  | zero => exact hP.elim
  | some x y h =>
      cases Q with
      | zero => exact hQ.elim
      | some x' y' h' =>
          obtain ⟨-, hx, hy⟩ := hP
          obtain ⟨-, hx', hy'⟩ := hQ
          have hsame : x = x' ∧ y = y' :=
            ⟨ZMod.val_injective p256 (hx.symm.trans hx'), ZMod.val_injective p256 (hy.symm.trans hy')⟩
          obtain ⟨rfl, rfl⟩ := hsame
          rfl

/-- Whatever is asked for, the multiple of the base point is the result. -/
theorem KeyRequest.Undisturbed.generates {r : KeyRequest} (h : r.Undisturbed) :
    ∃ output, (∀ fuel, 257 ≤ fuel →
      eccGenerateNewKey256 fuel r.keyType r.secretKey r.publicKeyX r.publicKeyY = some (.success, output)) ∧
        IsPoint output (r.secretKey.value • basePoint) := by
  have hat := eccElt_at r.secretKey r.publicKeyX r.publicKeyY
  have hlt : r.secretKey.value < 2 ^ 256 := Nat.lt_trans r.secretKey_lt (by decide)
  have hmultiple := (h.run.multiply hat hlt (Nat.le_refl 64)).2
  have hloop := fun fuel (hfuel : 64 ≤ fuel) => (h.run.multiply hat hlt hfuel).1
  have hfinite : r.secretKey.value • basePoint ≠ 0 := by
    rw [ne_eq, nsmul_eq_zero_iff r.secretKey_pos r.secretKey_lt]
    exact WeierstrassCurve.Affine.Point.some_ne_zero _
  cases hpoint : r.secretKey.value • basePoint with
  | zero => exact absurd hpoint hfinite
  | some x y hxy =>
      rw [hpoint] at hmultiple
      obtain ⟨pointQ256, haffine, hx, hy⟩ := h.affine.toAffine hmultiple
      refine ⟨keyRes pointQ256.1 ++ keyRes pointQ256.2, fun fuel hfuel => ?_, isPoint_of_coordinates hxy hx hy⟩
      rw [eccGenerateNewKey256, if_pos h.valid, hloop fuel (Nat.le_trans (by decide) hfuel), Option.bind_some,
        haffine fuel hfuel]
      rfl

/-- **When the key is the one that is asked for**, if no defect of the arithmetic shows: a pair of keys is, and a
Diffie-Hellman key only with the base point. -/
theorem generateNewKey256_meets_iff (r : KeyRequest) (h : r.Undisturbed) :
    r.Meets ↔ r.keyType = .publickeyGeneration ∨ r.publicPoint = basePoint := by
  obtain ⟨output, hgenerates, hpoint⟩ := h.generates
  have hmeets : r.Meets ↔ r.expected = r.secretKey.value • basePoint := by
    constructor
    · intro hmeets
      obtain ⟨output', hgenerates', hpoint'⟩ := hmeets
      have hsame := (hgenerates 257 (Nat.le_refl 257)).symm.trans (hgenerates' 257 (Nat.le_refl 257))
      obtain rfl := (Prod.mk.inj (Option.some.inj hsame)).2
      exact hpoint'.eq hpoint
    · intro hexpected
      exact ⟨output, hgenerates, hexpected ▸ hpoint⟩
  rw [hmeets, KeyRequest.expected]
  cases r.keyType with
  | publickeyGeneration => exact iff_of_true rfl (.inl rfl)
  | dhkeyGeneration =>
      rw [nsmul_eq_nsmul_iff r.secretKey_pos r.secretKey_lt]
      exact (or_iff_right (fun h => by cases h)).symm

/-! ### A pair of keys -/

def basePointX256 : Key :=
  ⟨[0x96, 0xC2, 0x98, 0xD8, 0x45, 0x39, 0xA1, 0xF4, 0xA0, 0x33, 0xEB, 0x2D, 0x81, 0x7D, 0x03, 0x77,
    0xF2, 0x40, 0xA4, 0x63, 0xE5, 0xE6, 0xBC, 0xF8, 0x47, 0x42, 0x2C, 0xE1, 0xF2, 0xD1, 0x17, 0x6B], rfl⟩

def basePointY256 : Key :=
  ⟨[0xF5, 0x51, 0xBF, 0x37, 0x68, 0x40, 0xB6, 0xCB, 0xCE, 0x5E, 0x31, 0x6B, 0x57, 0x33, 0xCE, 0x2B,
    0x16, 0x9E, 0x0F, 0x7C, 0x4A, 0xEB, 0xE7, 0x8E, 0x9B, 0x7F, 0x1A, 0xFE, 0xE2, 0x42, 0xE3, 0x4F], rfl⟩

/-- `7 + 3 * 2 ^ 64`: the last three steps add an entry of the table, and two of them to a point that is finite. -/
def secretKeySeven : Key := ⟨7 :: List.replicate 7 0 ++ 3 :: List.replicate 23 0, rfl⟩

def pairRequest : KeyRequest where
  keyType := .publickeyGeneration
  secretKey := secretKeySeven
  publicKeyX := basePointX256
  publicKeyY := basePointY256
  secretKey_pos := by decide
  secretKey_lt := by decide
  x_lt := by decide
  y_lt := by decide
  nonsingular := nonsingular_base

/-- Nothing goes wrong at the end where the inverse that comes out is one, and makes no product that goes wrong. -/
theorem affineUndisturbed_of_inverse {P : JacobianPoint256} (hz : P.z.IsNormal) (hpos : 0 < P.z.value)
    (hinverse : ∀ inverted ∈ bigHexInversion256 257 P.z, inverted.IsInverse P.z ∧
      IsWhole (P.x.value : ZMod p256) inverted.value ∧ IsWhole (P.y.value : ZMod p256) inverted.value) :
    AffineUndisturbed P := by
  obtain ⟨C, hC, hiff, hcoefficient⟩ := bigHexInversion256_eq_reduce P.z (.inl hz.2.2) hpos hz.2.1
  obtain ⟨hinverted, hx, hy⟩ := hinverse _ (hC 257 (Nat.le_refl 257))
  have hmul : ((reduce C).value : ZMod p256) * P.z.value = 1 := by
    rw [← Nat.cast_mul, ← ZMod.natCast_mod, hinverted.2.2, Nat.cast_one]
  have hinv := eq_inv_of_mul_eq_one_left hmul
  exact ⟨hcoefficient ▸ hiff.mp hinverted, hinv ▸ hx, hinv ▸ hy⟩

theorem pairRequest_undisturbed : pairRequest.Undisturbed where
  y_sqr := by decide +kernel
  x_sqr := by decide +kernel
  x_cube := by decide +kernel
  run := by
    show ∀ j < 64, (EccElt.eccPointMultiplicationWin256^[j] _).Undisturbed
    decide +kernel
  affine := by
    apply affineUndisturbed_of_inverse <;> decide +kernel

theorem pairRequest_meets : pairRequest.Meets :=
  (generateNewKey256_meets_iff pairRequest pairRequest_undisturbed).mpr (.inl rfl)

/-! ### A Diffie-Hellman key -/

def secretKeyOne : Key := ⟨1 :: List.replicate 31 0, rfl⟩

/-- Twice the base point -/
def publicKeyX : Key :=
  ⟨[0x78, 0x99, 0x66, 0x47, 0xfc, 0x48, 0x0b, 0xa6, 0x35, 0x1b, 0xf2, 0x77, 0xe2, 0x69, 0x89, 0xc0,
    0xc3, 0x1a, 0xb5, 0x04, 0x03, 0x38, 0x52, 0x8a, 0x7e, 0x4f, 0x03, 0x8d, 0x18, 0x7b, 0xf2, 0x7c], rfl⟩

def publicKeyY : Key :=
  ⟨[0xd1, 0x73, 0x78, 0x22, 0x9d, 0xb7, 0x04, 0x9e, 0x29, 0x82, 0xe9, 0x3c, 0xe6, 0xad, 0x7d, 0xba,
    0xdb, 0x30, 0x74, 0x9f, 0xc6, 0x9a, 0x3d, 0x29, 0x40, 0xd0, 0x8e, 0xdb, 0x10, 0x55, 0x77, 0x07], rfl⟩

theorem nonsingular_publicKey :
    curveP256.Nonsingular (publicKeyX.value : ZMod p256) (publicKeyY.value : ZMod p256) :=
  nonsingular_curveP256 (by decide +kernel) (by decide +kernel)

def dhRequest : KeyRequest where
  keyType := .dhkeyGeneration
  secretKey := secretKeyOne
  publicKeyX := publicKeyX
  publicKeyY := publicKeyY
  secretKey_pos := by decide
  secretKey_lt := by decide
  x_lt := by decide
  y_lt := by decide
  nonsingular := nonsingular_publicKey

/-- The base point comes back, and not the point of the caller. -/
theorem not_meets_dhRequest : ¬ ∀ r : KeyRequest, r.Meets := by
  intro h
  obtain ⟨output, hgenerates, hpoint⟩ := h dhRequest
  have hexpected : dhRequest.expected = dhRequest.publicPoint := by
    have hone : dhRequest.secretKey.value = 1 := by decide
    rw [KeyRequest.expected]
    show dhRequest.secretKey.value • _ = _
    rw [hone, one_nsmul]
  rw [hexpected] at hpoint
  have hbase : (eccGenerateNewKey256 257 dhRequest.keyType dhRequest.secretKey dhRequest.publicKeyX
      dhRequest.publicKeyY).map (fun result => leValue (result.2.take 32)) = some baseNumbers.X := by
    decide +kernel
  rw [hgenerates 257 (Nat.le_refl 257)] at hbase
  have hx := hpoint.2.1.symm.trans (Option.some.inj hbase)
  rw [ZMod.val_natCast_of_lt dhRequest.x_lt] at hx
  exact absurd hx (by decide)

end Best1307.Ecc
