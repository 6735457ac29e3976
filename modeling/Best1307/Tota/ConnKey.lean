import Mathlib.Logic.Function.Basic
import Best1307.Tota.Segments

/-!
# The key of a connection

Both sides draw a random list, send it to the other and derive the key of the cipher from the two. The shorter list is
filled up with zeros, the lists are mixed byte by byte, and the hash of the outcome is what both sides have to agree
on. The lists are arrays of a fixed size; how much of one is in use comes with it, also from the other side. An access
outside of an array is a fault.
-/

namespace Best1307.Tota

def maxRandomKeySize : Nat := 128

def hashKeySize : Nat := 32

def opTotaConnInitiate : Nat := 0x1001
def opTotaConnResponse : Nat := 0x1002
def opTotaConnConfirm : Nat := 0x1003

/-- An array of `MAX_RANDOM_KEY_SIZE` bytes. -/
abbrev KeyArray := Fin maxRandomKeySize → UInt8

namespace KeyArray

variable (key : KeyArray)

def read (i : Nat) : Option UInt8 := if h : i < maxRandomKeySize then some (key ⟨i, h⟩) else none

def write (i : Nat) (byte : UInt8) : Option KeyArray :=
  if h : i < maxRandomKeySize then some (Function.update key ⟨i, h⟩ byte) else none

def readBytes : Nat → Option (List UInt8)
  | 0 => some []
  | count + 1 => (readBytes count).bind fun bytes => (key.read count).map fun byte => bytes ++ [byte]

def writeBytes : Nat → List UInt8 → KeyArray → Option KeyArray
  | _, [], key => some key
  | i, byte :: bytes, key => (key.write i byte).bind (writeBytes (i + 1) bytes)

/-- `memset(key + offset, 0, count)` -/
def clear (offset : Nat) : Nat → Option KeyArray
  | 0 => some key
  | count + 1 => (clear offset count).bind fun key => key.write (offset + count) 0

/-- The loop over the array as words. -/
def writeWords (word : Nat → UInt32) : Nat → Option KeyArray
  | 0 => some key
  | count + 1 => (writeWords word count).bind (writeBytes (4 * count) (wordBytes (word count)))

end KeyArray

structure RandomKey where
  length : UInt8
  randomKey : KeyArray

/-- `TOTA_CONN_PARAMETER_T` -/
structure KeyManager where
  randomA : RandomKey
  randomB : RandomKey
  hashKey : List UInt8

def generateRandomAlgorithm (id : Nat) (a b : UInt8) : UInt8 :=
  match id % 6 with
  | 0 => a + b
  | 1 => a * b
  | 2 => a &&& b
  | 3 => a ||| b
  | 4 => a ^^^ b
  | _ => a * a + b * b

/-- `_generate_random_key`, with what `rand` returns: the length first, then the words. -/
def generateRandomKey (rand : Nat → UInt32) (randomA : RandomKey) : Option RandomKey :=
  let randomLength := (rand 0).toNat % (maxRandomKeySize + 1)
  let randomLength := if randomLength < 16 then randomLength + 16 else randomLength
  (randomA.randomKey.writeWords (fun i => rand (i + 1)) ((randomLength + 3) / 4)).map fun key =>
    ⟨UInt8.ofNat randomLength, key⟩

/-- The shorter list is filled up to the length of the other. -/
def RandomKey.align (r : RandomKey) (length : UInt8) : Option RandomKey :=
  (r.randomKey.clear r.length.toNat (length.toNat - r.length.toNat)).map fun key => ⟨length, key⟩

/-- The loop that mixes the lists into `random_key`. -/
def mix (a b : KeyArray) (key : KeyArray) : Nat → Option KeyArray
  | 0 => some key
  | i + 1 => (mix a b key i).bind fun key =>
      (a.read i).bind fun x => (b.read i).bind fun y => key.write i (generateRandomAlgorithm i x y)

/-- Both lists get the length of the longer one. -/
def alignKeys (a b : RandomKey) : Option (RandomKey × RandomKey) :=
  if b.length < a.length then (b.align a.length).map fun b => (a, b)
  else if a.length < b.length then (a.align b.length).map fun a => (a, b)
  else some (a, b)

/-- `_calculate_encrypt_key`; `stack` is what the array on the stack holds. -/
def calculateEncryptKey (sha256 : List UInt8 → List UInt8) (stack : KeyArray) (keys : KeyManager) :
    Option KeyManager :=
  (alignKeys keys.randomA keys.randomB).bind fun (a, b) =>
    (mix a.randomKey b.randomKey stack a.length.toNat).bind fun key =>
      (key.readBytes a.length.toNat).map fun bytes => ⟨a, b, sha256 bytes⟩

/-- `tota_set_encrypt_key_from_hash_key` -/
def encryptKeyOf (hashKey : List UInt8) : List UInt8 := (List.range encryptKeySize).map fun i => hashKey.getD (2 * i) 0

structure ConnState extends Session where
  isTotaInitiate : Bool
  keyManager : KeyManager
  /-- what `app_tota_send` was called with -/
  sent : List (Nat × List UInt8)

/-- `_tota_conn_and_update_key_handle` of the structure the parameter points to. -/
def connAndUpdateKeyHandle (sha256 : List UInt8 → List UInt8) (rand : Nat → UInt32) (stack : KeyArray)
    (s : ConnState) (funcCode : Nat) (conn : RandomKey) : Option ConnState :=
  if funcCode = opTotaConnInitiate then do
    let randomA ← generateRandomKey rand s.keyManager.randomA
    let list ← randomA.randomKey.readBytes randomA.length.toNat
    let keys ← calculateEncryptKey sha256 stack ⟨randomA, conn, s.keyManager.hashKey⟩
    some { s with
      isTotaInitiate := true
      keyManager := keys
      sent := s.sent ++ [(opTotaConnResponse, randomA.length :: list)] }
  else if funcCode = opTotaConnConfirm then
    if s.isTotaInitiate then
      (conn.randomKey.readBytes hashKeySize).map fun confirmed =>
        if s.keyManager.hashKey = confirmed then
          { s with
            isTotaInitiate := false
            key := encryptKeyOf s.keyManager.hashKey
            connectStatus := .shakeHanded
            sent := s.sent ++ [(opTotaString, "connect success.".toUTF8.toList)] }
        else
          { s with
            isTotaInitiate := false
            connectStatus := .connected
            sent := s.sent ++ [(opTotaString, "shake hand failed.".toUTF8.toList)] }
    else some s
  else some s

/-! ### Accesses inside the arrays -/

namespace KeyArray

variable {key : KeyArray}

theorem read_eq {i : Nat} (h : i < maxRandomKeySize) : key.read i = some (key ⟨i, h⟩) := dif_pos h

theorem write_eq {i : Nat} (h : i < maxRandomKeySize) (byte : UInt8) :
    key.write i byte = some (Function.update key ⟨i, h⟩ byte) := dif_pos h

theorem readBytes_eq {count : Nat} (h : count ≤ maxRandomKeySize) :
    key.readBytes count = some ((List.ofFn key).take count) := by
  induction count with
  | zero => rfl
  | succ count ih =>
      have hlength : count < (List.ofFn key).length := by rw [List.length_ofFn]; exact h
      rw [readBytes, ih (Nat.le_of_succ_le h), Option.bind_some, read_eq h, Option.map_some,
        List.take_succ_eq_append_getElem hlength, List.getElem_ofFn]

theorem writeBytes_isSome {i : Nat} {bytes : List UInt8} (h : i + bytes.length ≤ maxRandomKeySize) :
    (writeBytes i bytes key).isSome := by
  induction bytes generalizing i key with
  | nil => rfl
  | cons byte bytes ih =>
      rw [List.length_cons] at h
      have hi : i < maxRandomKeySize := by omega
      rw [writeBytes, write_eq hi, Option.bind_some]
      apply ih
      omega

theorem writeWords_isSome {word : Nat → UInt32} {count : Nat} (h : 4 * count ≤ maxRandomKeySize) :
    (key.writeWords word count).isSome := by
  induction count with
  | zero => rfl
  | succ count ih =>
      obtain ⟨key', hkey'⟩ := Option.isSome_iff_exists.mp (ih (by omega))
      rw [writeWords, hkey', Option.bind_some]
      apply writeBytes_isSome
      rw [length_wordBytes]
      omega

theorem clear_eq {offset count : Nat} (h : offset + count ≤ maxRandomKeySize) :
    key.clear offset count = some fun i => if offset ≤ i.val ∧ i.val < offset + count then 0 else key i := by
  induction count with
  | zero =>
      rw [clear]
      apply congrArg
      funext i
      exact (if_neg (by omega)).symm
  | succ count ih =>
      have hlast : offset + count < maxRandomKeySize := by omega
      rw [clear, ih (by omega), Option.bind_some, write_eq hlast]
      apply congrArg
      funext i
      by_cases hi : i = ⟨offset + count, hlast⟩
      · subst hi
        rw [Function.update_self, if_pos ⟨Nat.le_add_right _ _, Nat.lt_succ_self _⟩]
      · have hne : i.val ≠ offset + count := fun h => hi (Fin.ext h)
        rw [Function.update_of_ne hi]
        have hsame : (offset ≤ i.val ∧ i.val < offset + count) ↔ (offset ≤ i.val ∧ i.val < offset + (count + 1)) := by
          omega
        simp only [hsame]

/-- A `memset` that leaves the array writes outside of it. -/
theorem clear_eq_none {offset count : Nat} (hpos : 0 < count) (h : maxRandomKeySize < offset + count) :
    key.clear offset count = none := by
  obtain ⟨count, rfl⟩ := Nat.exists_eq_add_one.mpr hpos
  rw [clear]
  cases key.clear offset count with
  | none => rfl
  | some key' => exact dif_neg (by omega)

end KeyArray

theorem mix_eq {a b key : KeyArray} {count : Nat} (h : count ≤ maxRandomKeySize) :
    mix a b key count = some fun i : Fin maxRandomKeySize =>
      if i.val < count then generateRandomAlgorithm i (a i) (b i) else key i := by
  induction count with
  | zero =>
      rw [mix]
      apply congrArg
      funext i
      exact (if_neg (Nat.not_lt_zero _)).symm
  | succ count ih =>
      rw [mix, ih (Nat.le_of_succ_le h), Option.bind_some, KeyArray.read_eq h, Option.bind_some,
        KeyArray.read_eq h, Option.bind_some, KeyArray.write_eq h]
      apply congrArg
      funext i
      by_cases hi : i = ⟨count, h⟩
      · subst hi
        rw [Function.update_self, if_pos (Nat.lt_succ_self _)]
      · have hne : i.val ≠ count := fun h => hi (Fin.ext h)
        have hsame : i.val < count ↔ i.val < count + 1 := by omega
        rw [Function.update_of_ne hi]
        simp only [hsame]

theorem randomLength_le (n : Nat) :
    (if n % (maxRandomKeySize + 1) < 16 then n % (maxRandomKeySize + 1) + 16 else n % (maxRandomKeySize + 1)) ≤
      maxRandomKeySize := by
  have hmod : n % (maxRandomKeySize + 1) ≤ 128 := Nat.le_of_lt_succ (Nat.mod_lt n (Nat.zero_lt_succ _))
  have hmax : maxRandomKeySize = 128 := rfl
  split <;> omega

/-- The list that is drawn here fits its array, and drawing it stays inside. -/
theorem generateRandomKey_eq_some (rand : Nat → UInt32) (randomA : RandomKey) :
    ∃ a, generateRandomKey rand randomA = some a ∧ a.length.toNat ≤ maxRandomKeySize := by
  have hlength := randomLength_le (rand 0).toNat
  have hwords : ∀ n, n ≤ 128 → 4 * ((n + 3) / 4) ≤ 128 := fun n hn => by omega
  obtain ⟨key, hkey⟩ := Option.isSome_iff_exists.mp
    (@KeyArray.writeWords_isSome randomA.randomKey (fun i => rand (i + 1)) _ (hwords _ hlength))
  refine ⟨_, congrArg (Option.map _) hkey, ?_⟩
  show (UInt8.ofNat _).toNat ≤ maxRandomKeySize
  rw [UInt8.toNat_ofNat', Nat.mod_eq_of_lt (Nat.lt_of_le_of_lt hlength (by decide))]
  exact hlength

/-! ### Two lists that fit their arrays -/

variable {sha256 : List UInt8 → List UInt8} {stack : KeyArray} {a b : RandomKey} {hash : List UInt8}

def RandomKey.padded (r : RandomKey) (i : Fin maxRandomKeySize) : UInt8 :=
  if i.val < r.length.toNat then r.randomKey i else 0

def mixed (a b : RandomKey) : List UInt8 :=
  (List.ofFn fun i : Fin maxRandomKeySize => generateRandomAlgorithm i (a.padded i) (b.padded i)).take
    (max a.length.toNat b.length.toNat)

theorem generateRandomAlgorithm_comm (id : Nat) (x y : UInt8) :
    generateRandomAlgorithm id x y = generateRandomAlgorithm id y x := by
  unfold generateRandomAlgorithm
  split
  · exact UInt8.add_comm x y
  · exact UInt8.mul_comm x y
  · exact UInt8.and_comm x y
  · exact UInt8.or_comm x y
  · exact UInt8.xor_comm x y
  · exact UInt8.add_comm _ _

theorem mixed_comm (a b : RandomKey) : mixed a b = mixed b a := by
  rw [mixed, mixed, Nat.max_comm]
  apply congrArg
  apply congrArg
  funext i
  exact generateRandomAlgorithm_comm i _ _

theorem align_eq {r : RandomKey} {length : UInt8} (hlt : r.length < length)
    (hfits : length.toNat ≤ maxRandomKeySize) :
    r.align length = some ⟨length, fun i => if r.length.toNat ≤ i.val ∧ i.val < length.toNat then 0
      else r.randomKey i⟩ := by
  have hlt' : r.length.toNat < length.toNat := UInt8.lt_iff_toNat_lt.mp hlt
  have hlength : r.length.toNat + (length.toNat - r.length.toNat) = length.toNat := by omega
  rw [RandomKey.align, KeyArray.clear_eq (by omega), Option.map_some, hlength]

theorem align_eq_none {r : RandomKey} {length : UInt8} (hlt : r.length < length)
    (hlong : maxRandomKeySize < length.toNat) : r.align length = none := by
  have hlt' : r.length.toNat < length.toNat := UInt8.lt_iff_toNat_lt.mp hlt
  rw [RandomKey.align, KeyArray.clear_eq_none (by omega) (by omega)]
  rfl

/-- Aligned, the lists are as long as the longer one and hold what they hold padded. -/
theorem alignKeys_eq_some (ha : a.length.toNat ≤ maxRandomKeySize) (hb : b.length.toNat ≤ maxRandomKeySize) :
    ∃ a' b', alignKeys a b = some (a', b') ∧ a'.length.toNat = max a.length.toNat b.length.toNat ∧
      ∀ i : Fin maxRandomKeySize, i.val < a'.length.toNat →
        a'.randomKey i = a.padded i ∧ b'.randomKey i = b.padded i := by
  have hpadded : ∀ (r : RandomKey) (i : Fin maxRandomKeySize) (n : Nat), i.val < n →
      (if r.length.toNat ≤ i.val ∧ i.val < n then 0 else r.randomKey i) = r.padded i := fun r i n hi => by
    rw [RandomKey.padded]
    by_cases hlt : i.val < r.length.toNat
    · rw [if_pos hlt, if_neg fun h => Nat.not_lt.mpr h.1 hlt]
    · rw [if_neg hlt, if_pos ⟨Nat.not_lt.mp hlt, hi⟩]
  have hown : ∀ (r : RandomKey) (i : Fin maxRandomKeySize), i.val < r.length.toNat → r.randomKey i = r.padded i :=
    fun r i hi => (if_pos hi).symm
  rw [alignKeys]
  by_cases hba : b.length < a.length
  · rw [if_pos hba, align_eq hba ha]
    have hmax : a.length.toNat = max a.length.toNat b.length.toNat :=
      (Nat.max_eq_left (Nat.le_of_lt (UInt8.lt_iff_toNat_lt.mp hba))).symm
    exact ⟨_, _, rfl, hmax, fun i hi => ⟨hown a i hi, hpadded b i _ hi⟩⟩
  · by_cases hab : a.length < b.length
    · rw [if_neg hba, if_pos hab, align_eq hab hb]
      have hmax : b.length.toNat = max a.length.toNat b.length.toNat :=
        (Nat.max_eq_right (Nat.le_of_lt (UInt8.lt_iff_toNat_lt.mp hab))).symm
      exact ⟨_, _, rfl, hmax, fun i hi => ⟨hpadded a i _ hi, hown b i hi⟩⟩
    · rw [if_neg hba, if_neg hab]
      rw [UInt8.lt_iff_toNat_lt] at hba hab
      have hmax : a.length.toNat = max a.length.toNat b.length.toNat := by omega
      exact ⟨a, b, rfl, hmax, fun i hi => ⟨hown a i hi, hown b i (by omega)⟩⟩

theorem calculateEncryptKey_eq_some (ha : a.length.toNat ≤ maxRandomKeySize)
    (hb : b.length.toNat ≤ maxRandomKeySize) :
    ∃ keys, calculateEncryptKey sha256 stack ⟨a, b, hash⟩ = some keys ∧ keys.hashKey = sha256 (mixed a b) := by
  obtain ⟨a', b', halign, hlength, hsame⟩ := alignKeys_eq_some ha hb
  have hfits : a'.length.toNat ≤ maxRandomKeySize := hlength ▸ Nat.max_le.mpr ⟨ha, hb⟩
  rw [calculateEncryptKey, halign, Option.bind_some]
  dsimp only
  rw [mix_eq hfits, Option.bind_some, KeyArray.readBytes_eq hfits, Option.map_some]
  refine ⟨_, rfl, congrArg sha256 ?_⟩
  rw [mixed, ← hlength]
  apply List.ext_getElem
  · simp only [List.length_take, List.length_ofFn]
  · intro i hi hi'
    have hlt : i < a'.length.toNat := Nat.lt_of_lt_of_le hi (List.length_take_le _ _)
    have hmax : i < maxRandomKeySize := Nat.lt_of_lt_of_le hlt hfits
    obtain ⟨hkeyA, hkeyB⟩ := hsame ⟨i, hmax⟩ hlt
    simp only [List.getElem_take, List.getElem_ofFn, if_pos hlt, hkeyA, hkeyB]

/-- A list of the other side that says it is longer than its array: the own list is cleared beyond its end. -/
theorem calculateEncryptKey_eq_none (ha : a.length.toNat ≤ maxRandomKeySize)
    (hb : maxRandomKeySize < b.length.toNat) : calculateEncryptKey sha256 stack ⟨a, b, hash⟩ = none := by
  have hab : a.length < b.length := UInt8.lt_iff_toNat_lt.mpr (by omega)
  have hba : ¬ b.length < a.length := fun h => by
    rw [UInt8.lt_iff_toNat_lt] at h
    omega
  rw [calculateEncryptKey, alignKeys, if_neg hba, if_pos hab, align_eq_none hab hb]
  rfl

/-! ### The agreement -/

/-- Two lists of one length with the same bytes in it; behind them the arrays may differ. -/
def RandomKey.Same (r r' : RandomKey) : Prop :=
  r.length = r'.length ∧ ∀ i : Fin maxRandomKeySize, i.val < r.length.toNat → r.randomKey i = r'.randomKey i

theorem RandomKey.Same.padded_eq {r r' : RandomKey} (h : r.Same r') : r.padded = r'.padded := by
  funext i
  rw [padded, padded, ← h.1]
  by_cases hi : i.val < r.length.toNat
  · rw [if_pos hi, if_pos hi, h.2 i hi]
  · rw [if_neg hi, if_neg hi]

/-- The request of the other side is answered without a fault with a list of the own; whoever has the two lists the
other way round, whatever their arrays hold behind them, gets the key that was derived here. -/
def AgreesOn (sha256 : List UInt8 → List UInt8) (rand : Nat → UInt32) (stack : KeyArray) (s : ConnState)
    (conn : RandomKey) : Prop :=
  ∃ own s', generateRandomKey rand s.keyManager.randomA = some own ∧
    connAndUpdateKeyHandle sha256 rand stack s opTotaConnInitiate conn = some s' ∧
    ∀ peerOwn peerOther stack' hash, peerOwn.Same conn → peerOther.Same own →
      ∃ keys, calculateEncryptKey sha256 stack' ⟨peerOwn, peerOther, hash⟩ = some keys ∧
        keys.hashKey = s'.keyManager.hashKey

theorem connAndUpdateKeyHandle_initiate {rand : Nat → UInt32} {s : ConnState} {conn own : RandomKey}
    (hown : generateRandomKey rand s.keyManager.randomA = some own) (hfits : own.length.toNat ≤ maxRandomKeySize) :
    connAndUpdateKeyHandle sha256 rand stack s opTotaConnInitiate conn =
      (calculateEncryptKey sha256 stack ⟨own, conn, s.keyManager.hashKey⟩).map fun keys => { s with
        isTotaInitiate := true
        keyManager := keys
        sent := s.sent ++ [(opTotaConnResponse, own.length :: (List.ofFn own.randomKey).take own.length.toNat)] } := by
  rw [connAndUpdateKeyHandle, if_pos rfl, hown, Option.bind_eq_bind, Option.bind_some,
    KeyArray.readBytes_eq hfits, Option.bind_eq_bind, Option.bind_some, Option.bind_eq_bind, Option.map_eq_bind]
  rfl

/-- The two sides agree on a key, inside of the arrays, exactly if the list of the other side is not longer than its
array. -/
theorem agreesOn_iff (sha256 : List UInt8 → List UInt8) (rand : Nat → UInt32) (stack : KeyArray) (s : ConnState)
    (conn : RandomKey) : AgreesOn sha256 rand stack s conn ↔ conn.length.toNat ≤ maxRandomKeySize := by
  obtain ⟨own, hown, hfits⟩ := generateRandomKey_eq_some rand s.keyManager.randomA
  rw [AgreesOn, connAndUpdateKeyHandle_initiate hown hfits]
  constructor
  · rintro ⟨-, s', -, hhandle, -⟩
    by_contra hlong
    rw [calculateEncryptKey_eq_none hfits (Nat.not_le.mp hlong)] at hhandle
    cases hhandle
  · intro hconn
    obtain ⟨keys, hkeys, hhash⟩ :=
      @calculateEncryptKey_eq_some sha256 stack own conn s.keyManager.hashKey hfits hconn
    rw [hkeys]
    refine ⟨own, _, hown, rfl, ?_⟩
    intro peerOwn peerOther stack' hash hsame hsame'
    obtain ⟨keys', hkeys', hhash'⟩ := @calculateEncryptKey_eq_some sha256 stack' peerOwn peerOther hash
      (hsame.1 ▸ hconn) (hsame'.1 ▸ hfits)
    refine ⟨keys', hkeys', ?_⟩
    show keys'.hashKey = keys.hashKey
    rw [hhash', hhash, mixed, hsame.padded_eq, hsame'.padded_eq, hsame.1, hsame'.1, ← mixed, mixed_comm]

/-- A list of 200 bytes is announced; its array has 128. -/
def longList : RandomKey := ⟨200, fun _ => 0⟩

def idleConn : ConnState := ⟨⟨.connected, []⟩, false, ⟨⟨0, fun _ => 0⟩, ⟨0, fun _ => 0⟩, []⟩, []⟩

theorem not_agreesOn_longList : ¬ AgreesOn id (fun _ => 16) (fun _ => 0) idleConn longList := by
  rintro ⟨-, s', -, hhandle, -⟩
  have hfault : (connAndUpdateKeyHandle id (fun _ => 16) (fun _ => 0) idleConn opTotaConnInitiate longList).isSome =
      false := by decide +kernel
  rw [hhandle] at hfault
  cases hfault

/-- The connection is up once the other side has confirmed the key, and is not up if it confirms another one. -/
theorem connAndUpdateKeyHandle_confirm {rand : Nat → UInt32} {s : ConnState} {conn : RandomKey}
    (hinit : s.isTotaInitiate) :
    ∃ s', connAndUpdateKeyHandle sha256 rand stack s opTotaConnConfirm conn = some s' ∧
      (s'.connectStatus = .shakeHanded ↔ s.keyManager.hashKey = (List.ofFn conn.randomKey).take hashKeySize) := by
  have hother : opTotaConnConfirm ≠ opTotaConnInitiate := by decide
  rw [connAndUpdateKeyHandle, if_neg hother, if_pos rfl, if_pos hinit, KeyArray.readBytes_eq (by decide),
    Option.map_some]
  refine ⟨_, rfl, ?_⟩
  by_cases hkey : s.keyManager.hashKey = (List.ofFn conn.randomKey).take hashKeySize
  · rw [if_pos hkey]
    exact iff_of_true rfl hkey
  · rw [if_neg hkey]
    exact iff_of_false (fun h => by cases h) hkey

end Best1307.Tota
