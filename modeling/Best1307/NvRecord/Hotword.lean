import Mathlib.Algebra.Group.Nat.Defs
import Mathlib.Logic.Function.Basic
import Best1307.Lib.Run

/-!
# The hotword models in flash

The record keeps where each hotword model lies in its flash section. A new model is put behind the model with the
largest end. If there is no room or the table is full, the oldest model is taken out, and then models next to the
space it leaves, until their sizes add up to that of the new one. A model that is found in the table keeps its place.
-/

namespace Best1307.NvHotword

def hotwordModleMaxNum : Nat := 11
def invalidModelNum : Nat := 0xFF
def defaultModelNum : Nat := 1
def hotwordModelMaxSize : Nat := 80 * 1024
def otaFlashLogicAddr : Nat := 0x28000000

/-! ### Numbers of 32 bits -/

def add32 (a b : Nat) : Nat := (a + b) % 2 ^ 32

def sub32 (a b : Nat) : Nat := (a + (2 ^ 32 - b % 2 ^ 32)) % 2 ^ 32

def f4kAlign (val : Nat) : Nat := (val + 0xFFF) % 2 ^ 32 / 0x1000 * 0x1000

def low24 (addr : Nat) : Nat := addr % 2 ^ 24

/-! ### The section and the table -/

/-- The four characters of an id that are compared, as a number. -/
abbrev ModelId := UInt32

def defaultHotwordModelId : ModelId := 0x51303032

/-- `HOTWORD_MODEL_INFO_T` -/
structure ModelInfo where
  modelId : ModelId
  startAddr : Nat
  len : Nat
  deriving DecidableEq, Repr

/-- The hotword section: whole sectors of the flash. The embedded model lies outside of it. -/
structure FlashSection where
  offset : Nat
  size : Nat
  embeddedModelFile : Nat
  offset_aligned : offset % 0x1000 = 0
  size_aligned : size % 0x1000 = 0
  fits : offset + size < 2 ^ 24
  apart : otaFlashLogicAddr + offset + size ≤ embeddedModelFile ||| otaFlashLogicAddr ∨
    (embeddedModelFile ||| otaFlashLogicAddr) + hotwordModelMaxSize ≤ otaFlashLogicAddr + offset

namespace FlashSection

variable (sec : FlashSection)

/-- `__hotword_model_start` -/
def start : Nat := otaFlashLogicAddr + sec.offset

/-- `__hotword_model_end` -/
def stop : Nat := sec.start + sec.size

end FlashSection

structure State where
  supportedModelCnt : Nat
  modelInfo : Nat → ModelInfo

namespace State

variable (sec : FlashSection) (s : State)

/-- The first entry with the id, among all entries of the table. -/
def find (modelId : ModelId) : Option Nat :=
  (List.range hotwordModleMaxNum).find? fun i => (s.modelInfo i).modelId = modelId

/-- `nv_record_gsound_rec_add_new_model`, and what it returns -/
def addNewModel (info : ModelInfo) : State × Bool :=
  let s := if s.supportedModelCnt = invalidModelNum then { s with supportedModelCnt := 0 } else s
  if s.supportedModelCnt < hotwordModleMaxNum then
    let info := { info with startAddr := info.startAddr ||| otaFlashLogicAddr }
    match s.find info.modelId with
    | some i =>
        if info.startAddr ≠ 0 then
          ({ s with modelInfo :=
            Function.update s.modelInfo i { s.modelInfo i with startAddr := info.startAddr } }, true)
        else (s, true)
    | none =>
        ({ supportedModelCnt := s.supportedModelCnt + 1
           modelInfo := Function.update s.modelInfo s.supportedModelCnt info }, true)
  else (s, false)

def indices : List Nat := List.range' defaultModelNum (s.supportedModelCnt - defaultModelNum)

/-- The largest flash address, from the start of the section on. -/
def largestAddr : Nat :=
  s.indices.foldl (fun addr i =>
    let tempAddr := add32 (s.modelInfo i).startAddr (s.modelInfo i).len
    if low24 addr < low24 tempAddr then tempAddr else addr) sec.start

/-- The entries behind `cleanIdx` move down by one. -/
def remove (cleanIdx : Nat) : State where
  supportedModelCnt := (s.supportedModelCnt + 0xFF) % 2 ^ 8
  modelInfo := fun i =>
    if cleanIdx ≤ i ∧ i + 1 < s.supportedModelCnt then s.modelInfo (i + 1) else s.modelInfo i

end State

def ModelInfo.cleanSize (m : ModelInfo) : Nat := sub32 (f4kAlign (add32 m.startAddr m.len)) m.startAddr

/-! ### Cleaning -/

structure Adjacent where
  headAdjacentIdx : Nat
  tailAdjacentIdx : Nat
  headAdjacentOffset : Nat
  tailAdjacentOffset : Nat
  deriving DecidableEq, Repr

/-- The table, the anchor point and the size cleaned. -/
structure Clean where
  table : State
  addr : Nat
  cleanSize : Nat

namespace Clean

variable (c : Clean)

/-- One entry is looked at. The distance to one below is computed the wrong way round when it is kept. -/
def lookAt (a : Adjacent) (i : Nat) : Adjacent :=
  let startAddr := (c.table.modelInfo i).startAddr
  if c.addr < startAddr then
    if sub32 startAddr c.addr < a.tailAdjacentOffset then
      { a with
        tailAdjacentOffset := sub32 startAddr c.addr
        tailAdjacentIdx := i }
    else a
  else if startAddr < c.addr then
    if sub32 c.addr startAddr < a.headAdjacentOffset then
      { a with
        headAdjacentOffset := sub32 startAddr c.addr
        headAdjacentIdx := i }
    else a
  else a

def adjacent : Adjacent := c.table.indices.foldl c.lookAt ⟨0xFF, 0xFF, 0xFFFFFFFF, 0xFFFFFFFF⟩

/-- One round of the loop: the older of the two neighbours goes. Without any it reads outside the table. -/
def round : Option Clean :=
  let a := c.adjacent
  let isTail := a.tailAdjacentIdx < a.headAdjacentIdx
  let cleanIdx := if isTail then a.tailAdjacentIdx else a.headAdjacentIdx
  if cleanIdx < hotwordModleMaxNum then
    some {
      table := c.table.remove cleanIdx
      addr := if isTail then c.addr else (c.table.modelInfo cleanIdx).startAddr
      cleanSize := add32 c.cleanSize (c.table.modelInfo cleanIdx).cleanSize }
  else none

/-- The loop. A round takes a model out of the table, so there are no more rounds than models. -/
def rounds (newModelLen : Nat) : Nat → Clean → Option Clean
  | 0, c => if c.cleanSize < newModelLen then none else some c
  | n + 1, c => if c.cleanSize < newModelLen then c.round.bind (rounds newModelLen n) else some c

/-- The oldest model goes first. -/
def ofFirst (s : State) : Clean where
  table := s.remove defaultModelNum
  addr := (s.modelInfo defaultModelNum).startAddr
  cleanSize := (s.modelInfo defaultModelNum).cleanSize

end Clean

namespace State

variable (sec : FlashSection) (s : State)

/-- Whether models have to make room. -/
def NeedsClean (newModelLen : Nat) : Prop :=
  sec.stop < add32 newModelLen (f4kAlign (s.largestAddr sec)) ∨ hotwordModleMaxNum ≤ s.supportedModelCnt

instance (newModelLen : Nat) : Decidable (s.NeedsClean sec newModelLen) := inferInstanceAs (Decidable (_ ∨ _))

/-- An empty table is told from one that was never used. -/
def markEmpty : State :=
  if s.supportedModelCnt = 0 then { s with supportedModelCnt := invalidModelNum } else s

/-- `nv_record_gsound_rec_get_hotword_model_addr`; `none` where it reads outside the table -/
def getHotwordModelAddr (modelId : ModelId) (addNew : Bool) (newModelLen : Nat) : Option (Nat × State) :=
  match s.find modelId with
  | some i => some ((s.modelInfo i).startAddr, s)
  | none =>
      if addNew = false then some (0, s)
      else if s.supportedModelCnt = invalidModelNum then some (sec.start, s)
      else if s.NeedsClean sec newModelLen then
        (Clean.rounds newModelLen s.supportedModelCnt (.ofFirst s)).map fun c => (c.addr, c.table.markEmpty)
      else some (f4kAlign (s.largestAddr sec), s)

/-- `nv_record_gsound_rec_init` on an empty record -/
def init : State :=
  (addNewModel ⟨0, fun _ => ⟨0, 0, 0⟩⟩ ⟨defaultHotwordModelId, sec.embeddedModelFile, hotwordModelMaxSize⟩).1

end State

/-! ### Updates -/

/-- A model is downloaded to the address it is given, and added unless the update is aborted. -/
structure Update where
  modelId : ModelId
  len : Nat
  applied : Bool
  deriving DecidableEq, Repr

namespace State

variable (sec : FlashSection) (s : State)

def step (u : Update) : Option State :=
  (s.getHotwordModelAddr sec u.modelId true u.len).map fun (addr, s') =>
    if u.applied then (s'.addNewModel ⟨u.modelId, addr, u.len⟩).1 else s'

/-- The call ends, and gives the update a region in the section that is apart from those of the other models left. -/
def Grants (u : Update) : Prop :=
  ∃ addr s', s.getHotwordModelAddr sec u.modelId true u.len = some (addr, s') ∧
    sec.start ≤ addr ∧ addr + u.len ≤ sec.stop ∧
    ∀ i < s'.supportedModelCnt, (s'.modelInfo i).modelId ≠ u.modelId →
      addr + u.len ≤ (s'.modelInfo i).startAddr ∨ (s'.modelInfo i).startAddr + (s'.modelInfo i).len ≤ addr

end State

end Best1307.NvHotword
