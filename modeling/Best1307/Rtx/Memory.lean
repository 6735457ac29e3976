import Mathlib.Data.List.Nodup
import Best1307.Lib.FirstFit
import Best1307.Lib.Run
import Best1307.Lib.While

/-!
# Memory of the kernel

A memory pool holds blocks of any size. It starts with a head of two words, and each block with a header: a link to the
next header and a word with the length and the type of the block. The first header is always there, with no length when
its block is free; a header without a block closes the list. The words of the blocks lie between the headers, and their
owners write them as they please.
-/

namespace Best1307.Rtx

open FirstFit

abbrev Memory := ℕ → ℕ

namespace Memory

/-- `p->info & MB_INFO_LEN_MASK` -/
def blockLen (info : ℕ) : ℕ := info / 4 * 4

/-- The size of a block for so many bytes, with its header, in units of 8 bytes -/
def blockSize (size : ℕ) : ℕ := ((size + 8) % 2 ^ 32 + 7) % 2 ^ 32 / 8 * 8

variable (fuel mem size type n p : ℕ) (m : Memory)

def set (a v : ℕ) : Memory := Function.update m a v

/-- `(uint32_t)p->next - (uint32_t)p - (p->info & MB_INFO_LEN_MASK)` -/
def holeSize : ℕ := ((m p + 2 ^ 32 - p) % 2 ^ 32 + 2 ^ 32 - blockLen (m (p + 4))) % 2 ^ 32

def osRtxMemoryInit : ℕ × Memory :=
  if mem = 0 ∨ mem % 8 ≠ 0 ∨ size % 8 ≠ 0 ∨ size < 24 then (0, m)
  else
    (1, (((((m.set mem size).set (mem + 4) 16).set (mem + 8) (mem + size - 8)).set (mem + size - 8) 0).set
      (mem + size - 4) 16).set (mem + 12) 0)

/-- Where a search in the list is: at a header, with the header before it, or behind the end -/
inductive Search
  | at (prev : Option ℕ) (p : ℕ)
  | failed
  deriving DecidableEq, Repr

/-- The loop of `osRtxMemoryAlloc` goes on at a header whose hole is too small. -/
def tooSmall : Search → Bool
  | .at _ p => decide (m.holeSize p < n)
  | .failed => false

/-- `p = p->next; if (p->next == NULL)` -/
def nextHole : Search → Option Search
  | .at _ p => if m (m p) = 0 then some .failed else some (.at (some p) (m p))
  | .failed => none

/-- `osRtxMemoryAlloc` where it has found a hole behind the header `p` -/
def take : ℕ × Memory :=
  let used := (m (mem + 4) + n) % 2 ^ 32
  let last := mem + m mem - 8
  let m := m.set (mem + 4) used
  let m := if m (last + 4) < used then m.set (last + 4) used else m
  if m (p + 4) = 0 then (p + 8, m.set (p + 4) (n ||| type))
  else
    let new := p + blockLen (m (p + 4))
    (new + 8, ((m.set new (m p)).set (new + 4) (n ||| type)).set p new)

def osRtxMemoryAlloc : Option (ℕ × Memory) :=
  if mem = 0 ∨ size = 0 ∨ 4 ≤ type then some (0, m)
  else
    (whileLoop (m.tooSmall (blockSize size)) m.nextHole fuel (.at none (mem + 8))).map fun found =>
      match found with
      | .failed => (0, m)
      | .at _ p => m.take mem type (blockSize size) p

/-- The loop of `osRtxMemoryFree` goes on at a header that is not the one of the block. -/
def differs (ptr : ℕ) : Search → Bool
  | .at _ p => decide (p ≠ ptr)
  | .failed => false

/-- `p_prev = p; p = p->next; if (p == NULL)` -/
def nextHeader : Search → Option Search
  | .at _ p => if m p = 0 then some .failed else some (.at (some p) (m p))
  | .failed => none

/-- `osRtxMemoryFree` where it has found the header `p` of the block -/
def release (prev : Option ℕ) : Memory :=
  let m := m.set (mem + 4) ((m (mem + 4) + 2 ^ 32 - blockLen (m (p + 4))) % 2 ^ 32)
  match prev with
  | none => m.set (p + 4) 0
  | some q => m.set q (m p)

def osRtxMemoryFree (block : ℕ) : Option (ℕ × Memory) :=
  if mem = 0 ∨ block = 0 then some (0, m)
  else
    (whileLoop (differs ((block + 2 ^ 32 - 8) % 2 ^ 32)) m.nextHeader fuel (.at none (mem + 8))).map fun found =>
      match found with
      | .failed => (0, m)
      | .at prev p => (1, m.release mem p prev)

end Memory

/-- What happens to a pool: requests, and the words that the owners of blocks write -/
inductive MemoryEvent
  | alloc (size type : ℕ)
  | free (block : ℕ)
  | write (a v : ℕ)
  deriving DecidableEq, Repr

def Memory.step (fuel mem : ℕ) (m : Memory) : MemoryEvent → Option Memory
  | .alloc size type => (m.osRtxMemoryAlloc fuel mem size type).map Prod.snd
  | .free block => (m.osRtxMemoryFree fuel mem block).map Prod.snd
  | .write a v => some (m.set a v)

/-! ### The blocks that the words stand for -/

/-- A pool that `osRtxMemoryInit` accepts and that ends within the address space -/
structure Pool where
  mem : ℕ
  size : ℕ
  pos : 0 < mem
  aligned : mem % 8 = 0
  sizeAligned : size % 8 = 0
  room : 24 ≤ size
  word : mem + size ≤ 2 ^ 32

namespace Pool

variable (P : Pool)

def lo : ℕ := P.mem + 8

/-- The header that closes the list -/
def hi : ℕ := P.mem + P.size - 8

end Pool

/-- The blocks that are handed out, and what their owners have written -/
structure Handed where
  live : List Block
  cells : ℕ → Option ℕ

namespace Handed

variable (P : Pool) (h : Handed)

def init : Handed := ⟨[], fun _ => none⟩

/-- A new block at the first gap, with nothing written yet -/
def alloc (n : ℕ) : Handed :=
  match place n P.lo h.live P.hi with
  | none => h
  | some (before, addr, behind) =>
      { live := before ++ ⟨addr, n⟩ :: behind
        cells := fun a => if addr ≤ a ∧ a < addr + n then none else h.cells a }

def free (block : ℕ) : Handed := { h with live := h.live.filter fun b => b.addr + 8 ≠ block }

/-- A request has a size that is a word with its header, what is given back is not the end of the pool, and an owner
writes in its own block. -/
def Allowed : MemoryEvent → Prop
  | .alloc size _ => size ≤ 2 ^ 32 - 16
  | .free block => block ≠ P.mem + P.size ∧ block < 2 ^ 32
  | .write a _ => a % 4 = 0 ∧ ∃ b ∈ h.live, b.addr + 8 ≤ a ∧ a + 4 ≤ b.fin

instance Allowed.decidable : (e : MemoryEvent) → Decidable (h.Allowed P e)
  | .alloc size _ => inferInstanceAs (Decidable (size ≤ 2 ^ 32 - 16))
  | .free block => inferInstanceAs (Decidable (block ≠ P.mem + P.size ∧ block < 2 ^ 32))
  | .write a _ => inferInstanceAs (Decidable (a % 4 = 0 ∧ ∃ b ∈ h.live, b.addr + 8 ≤ a ∧ a + 4 ≤ b.fin))

def apply : MemoryEvent → Handed
  | .alloc size type => if size = 0 ∨ 4 ≤ type then h else h.alloc P (Memory.blockSize size)
  | .free block => h.free block
  | .write a v => { h with cells := Function.update h.cells a (some v) }

end Handed

namespace Memory

def lastAddr : ℕ → List Block → ℕ
  | p, [] => p
  | _, b :: l => lastAddr b.addr l

/-- The headers from `p` on, without the link of the last. -/
def Path (m : Memory) : ℕ → List Block → Prop
  | _, [] => True
  | p, b :: l => m p = b.addr ∧ (∃ type < 4, m (b.addr + 4) = b.len + type) ∧ Path m b.addr l

/-- The pool holds a first block of this length, or none, and these blocks behind it. -/
structure Holds (P : Pool) (m : Memory) (first : ℕ) (rest : List Block) : Prop where
  size : m P.mem = P.size
  used : m (P.mem + 4) = 16 + first + total rest
  last : m P.hi = 0
  info : if first = 0 then m (P.lo + 4) = 0 else ∃ type < 4, m (P.lo + 4) = first + type
  path : Path m P.lo rest
  next : m (lastAddr P.lo rest) = P.hi
  tiled : Tiled (P.lo + max first 8) rest P.hi
  first_shape : first = 0 ∨ 16 ≤ first ∧ first % 8 = 0
  shape : ∀ b ∈ rest, 16 ≤ b.len ∧ b.len % 8 = 0 ∧ b.addr % 8 = 0

def blocks (P : Pool) (first : ℕ) (rest : List Block) : List Block :=
  if first = 0 then rest else ⟨P.lo, first⟩ :: rest

/-- The pool holds these blocks, and in them what their owners have written. -/
structure Represents (P : Pool) (m : Memory) (h : Handed) : Prop where
  holds : ∃ first rest, h.live = blocks P first rest ∧ Holds P m first rest
  cells : ∀ b ∈ h.live, ∀ a, b.addr + 8 ≤ a → a < b.fin → a % 4 = 0 → ∀ v, h.cells a = some v → m a = v

end Memory

namespace Memory

variable {P : Pool} {m m' : Memory} {h : Handed} {first fuel n size type p q a v hi len addr : ℕ} {b : Block}
  {l l₁ l₂ rest before behind : List Block} {prev : Option ℕ}

/-! ### Paths of headers -/

@[simp] theorem set_self : (m.set a v) a = v := Function.update_self _ _ _

theorem set_of_ne (h : p ≠ a) : (m.set a v) p = m p := Function.update_of_ne h _ _

@[simp] theorem lastAddr_nil : lastAddr p [] = p := rfl

@[simp] theorem lastAddr_cons : lastAddr p (b :: l) = lastAddr b.addr l := rfl

theorem lastAddr_append : lastAddr p (l₁ ++ l₂) = lastAddr (lastAddr p l₁) l₂ := by
  induction l₁ generalizing p with
  | nil => rfl
  | cons b l₁ ih => exact ih

theorem lastAddr_mem : lastAddr p l ∈ p :: l.map Block.addr := by
  induction l generalizing p with
  | nil => exact List.mem_cons_self
  | cons b l ih => exact List.mem_cons_of_mem p ih

theorem path_append : Path m p (l₁ ++ l₂) ↔ Path m p l₁ ∧ Path m (lastAddr p l₁) l₂ := by
  induction l₁ generalizing p with
  | nil => exact ⟨fun h => ⟨trivial, h⟩, And.right⟩
  | cons b l₁ ih => simp only [List.cons_append, Path, lastAddr_cons, ih, and_assoc]

/-- A path uses the link of every header but the last, and the length of every header but the first. -/
theorem Path.congr (h : Path m p l) (hnodup : (p :: l.map Block.addr).Nodup)
    (hnext : ∀ a ∈ p :: l.map Block.addr, a ≠ lastAddr p l → m' a = m a)
    (hinfo : ∀ b ∈ l, m' (b.addr + 4) = m (b.addr + 4)) : Path m' p l := by
  induction l generalizing p with
  | nil => trivial
  | cons b l ih =>
      obtain ⟨hlink, htype, hrest⟩ := h
      obtain ⟨hp, hnodup⟩ := List.nodup_cons.mp hnodup
      refine ⟨?_, ?_, ih hrest hnodup ?_ ?_⟩
      · rw [hnext p List.mem_cons_self fun heq => hp (heq ▸ lastAddr_mem)]
        exact hlink
      · rw [hinfo b List.mem_cons_self]
        exact htype
      · exact fun a ha hne => hnext a (List.mem_cons_of_mem p ha) hne
      · exact fun c hc => hinfo c (List.mem_cons_of_mem b hc)

/-- A path may start from another header that has the link of the first. -/
theorem Path.relink (h : Path m p l) (hnodup : (l.map Block.addr).Nodup) (hlink : m' q = m p)
    (hnext : ∀ b ∈ l, m' b.addr = m b.addr) (hinfo : ∀ b ∈ l, m' (b.addr + 4) = m (b.addr + 4)) : Path m' q l := by
  cases l with
  | nil => trivial
  | cons b l =>
      refine ⟨hlink.trans h.1, ?_, h.2.2.congr hnodup (fun a ha _ => ?_) fun c hc => ?_⟩
      · rw [hinfo b List.mem_cons_self]
        exact h.2.1
      · obtain ⟨c, hc, rfl⟩ := List.mem_map.mp (show a ∈ (b :: l).map Block.addr from ha)
        exact hnext c hc
      · exact hinfo c (List.mem_cons_of_mem b hc)

theorem blockLen_add (hlen : len % 4 = 0) (htype : type < 4) : blockLen (len + type) = len := by
  rw [blockLen]
  omega

theorem holeSize_eq (hlen : blockLen (m (p + 4)) = len) (hle : p + len ≤ m p) (hword : m p < 2 ^ 32) :
    m.holeSize p = m p - (p + len) := by
  rw [holeSize, hlen]
  omega

/-! ### The searches -/

theorem tooSmall_at (h : m.holeSize p < n) : m.tooSmall n (.at prev p) = true := decide_eq_true h

theorem differs_at {ptr : ℕ} (h : p ≠ ptr) : differs ptr (.at prev p) = true := decide_eq_true h

/-- The request finds the header before the first gap that is wide enough, or the end. -/
theorem search_alloc (hpath : Path m p l) (hend : m (lastAddr p l) = hi) (hzero : m hi = 0) (hhi : 0 < hi)
    (hword : hi < 2 ^ 32) (hlen : blockLen (m (p + 4)) = len) (htiled : Tiled (p + len) l hi)
    (hshape : ∀ b ∈ l, b.len % 4 = 0 ∧ 0 < b.addr) (hfuel : l.length < fuel) :
    match place n (p + len) l hi with
    | none => whileLoop (m.tooSmall n) m.nextHole fuel (.at prev p) = some .failed
    | some (before, _, _) =>
        ∃ prev', whileLoop (m.tooSmall n) m.nextHole fuel (.at prev p) = some (.at prev' (lastAddr p before)) := by
  induction l generalizing p len fuel prev with
  | nil =>
      obtain ⟨fuel, rfl⟩ := Nat.exists_eq_add_one.mpr (Nat.zero_lt_of_lt hfuel)
      have hlink : m p = hi := hend
      have hhole : m.holeSize p = hi - (p + len) := hlink ▸ holeSize_eq hlen (hlink ▸ htiled) (hlink ▸ hword)
      rw [place]
      split
      case h_1 heq =>
        split at heq
        · cases heq
        case isFalse hn =>
          have hnext : m.nextHole (.at prev p) = some .failed := if_pos (hlink ▸ hzero)
          rw [whileLoop_of_true (tooSmall_at (hhole ▸ Nat.lt_of_not_le hn)) hnext]
          exact whileLoop_of_false rfl
      case h_2 heq =>
        split at heq
        case isTrue hn =>
          cases heq
          exact ⟨prev, whileLoop_of_false (decide_eq_false (hhole ▸ Nat.not_lt_of_le hn))⟩
        · cases heq
  | cons b l ih =>
      obtain ⟨fuel, rfl⟩ := Nat.exists_eq_add_one.mpr (Nat.zero_lt_of_lt hfuel)
      obtain ⟨hlink, ⟨type, htype, hinfo⟩, hrest⟩ := hpath
      obtain ⟨hbshape, hshape⟩ := List.forall_mem_cons.mp hshape
      have hbfin := htiled.2.le
      have hbword : b.addr < 2 ^ 32 := by
        rw [Block.fin] at hbfin
        omega
      have hhole : m.holeSize p = b.addr - (p + len) :=
        hlink ▸ holeSize_eq hlen (hlink ▸ htiled.1) (hlink ▸ hbword)
      rw [place]
      by_cases hn : n ≤ b.addr - (p + len)
      · rw [if_pos hn]
        exact ⟨prev, whileLoop_of_false (decide_eq_false (hhole ▸ Nat.not_lt_of_le hn))⟩
      · have hnonzero : m b.addr ≠ 0 := by
          cases l with
          | nil => exact fun heq => Nat.ne_of_gt hhi (hend.symm.trans heq)
          | cons c l =>
              rw [hrest.1]
              exact Nat.ne_of_gt (hshape c List.mem_cons_self).2
        have hnext : m.nextHole (.at prev p) = some (.at (some p) b.addr) := by
          rw [nextHole, hlink, if_neg hnonzero]
        have hloop := @ih fuel b.addr b.len (some p) hrest hend (by rw [hinfo, blockLen_add hbshape.1 htype]) htiled.2
          hshape
          (Nat.lt_of_succ_lt_succ hfuel)
        rw [if_neg hn, whileLoop_of_true (tooSmall_at (hhole ▸ Nat.lt_of_not_le hn)) hnext]
        rw [Block.fin]
        cases hplace : place n (b.addr + b.len) l hi with
        | none =>
            rw [hplace] at hloop
            exact hloop
        | some found =>
            rw [hplace] at hloop
            exact hloop

theorem search_free_here : whileLoop (differs p) m.nextHeader fuel (.at prev p) = some (.at prev p) :=
  whileLoop_of_false (decide_eq_false fun hne => hne rfl)

theorem search_free_found (hpath : Path m p (l₁ ++ b :: l₂)) (hshape : ∀ c ∈ l₁ ++ b :: l₂, 0 < c.addr)
    (hp : b.addr ∉ p :: l₁.map Block.addr) (hfuel : l₁.length < fuel) :
    whileLoop (differs b.addr) m.nextHeader fuel (.at prev p) = some (.at (some (lastAddr p l₁)) b.addr) := by
  induction l₁ generalizing p fuel prev with
  | nil =>
      obtain ⟨fuel, rfl⟩ := Nat.exists_eq_add_one.mpr hfuel
      have hpos := hshape b List.mem_cons_self
      have hlink : m p = b.addr := hpath.1
      have hnext : m.nextHeader (.at prev p) = some (.at (some p) b.addr) := by
        rw [nextHeader, hlink, if_neg (Nat.ne_of_gt hpos)]
      have hne : p ≠ b.addr := fun heq => hp (heq ▸ List.mem_cons_self)
      rw [whileLoop_of_true (differs_at hne) hnext]
      exact search_free_here
  | cons c l₁ ih =>
      obtain ⟨fuel, rfl⟩ := Nat.exists_eq_add_one.mpr (Nat.zero_lt_of_lt hfuel)
      obtain ⟨hlink, -, hrest⟩ := hpath
      obtain ⟨hpos, hshape⟩ := List.forall_mem_cons.mp hshape
      rw [List.map_cons, List.mem_cons, not_or] at hp
      have hnext : m.nextHeader (.at prev p) = some (.at (some p) c.addr) := by
        rw [nextHeader, hlink, if_neg (Nat.ne_of_gt hpos)]
      rw [whileLoop_of_true (differs_at (Ne.symm hp.1)) hnext]
      exact ih hrest hshape hp.2 (Nat.lt_of_succ_lt_succ hfuel)

theorem search_free_failed {ptr : ℕ} (hpath : Path m p l) (hend : m (lastAddr p l) = hi) (hzero : m hi = 0)
    (hhi : 0 < hi) (hshape : ∀ c ∈ l, 0 < c.addr) (hp : ptr ∉ p :: l.map Block.addr) (hne : ptr ≠ hi)
    (hfuel : l.length + 1 < fuel) :
    whileLoop (differs ptr) m.nextHeader fuel (.at prev p) = some .failed := by
  induction l generalizing p fuel prev with
  | nil =>
      obtain ⟨fuel, rfl⟩ := Nat.exists_eq_add_of_le' (show 2 ≤ fuel from hfuel)
      have hlink : m p = hi := hend
      have hnext : m.nextHeader (.at prev p) = some (.at (some p) hi) := by
        rw [nextHeader, hlink, if_neg (Nat.ne_of_gt hhi)]
      have hlast : m.nextHeader (.at (some p) hi) = some .failed := if_pos hzero
      rw [whileLoop_of_true (differs_at fun heq : p = ptr => hp (heq ▸ List.mem_cons_self)) hnext,
        whileLoop_of_true (differs_at (Ne.symm hne)) hlast]
      exact whileLoop_of_false rfl
  | cons c l ih =>
      obtain ⟨fuel, rfl⟩ := Nat.exists_eq_add_one.mpr (Nat.zero_lt_of_lt hfuel)
      obtain ⟨hlink, -, hrest⟩ := hpath
      obtain ⟨hpos, hshape⟩ := List.forall_mem_cons.mp hshape
      rw [List.map_cons, List.mem_cons, not_or] at hp
      have hnext : m.nextHeader (.at prev p) = some (.at (some p) c.addr) := by
        rw [nextHeader, hlink, if_neg (Nat.ne_of_gt hpos)]
      rw [whileLoop_of_true (differs_at (Ne.symm hp.1)) hnext]
      exact ih hrest hend hshape hp.2 (Nat.lt_of_succ_lt_succ hfuel)

/-! ### Where the headers lie -/

theorem Holds.rest_bounds (hm : Holds P m first rest) (hb : b ∈ rest) :
    P.lo + 8 ≤ b.addr ∧ P.lo + first ≤ b.addr ∧ b.addr + 16 ≤ b.fin ∧ b.fin ≤ P.hi ∧ b.addr % 8 = 0 := by
  obtain ⟨hlo, hhi⟩ := hm.tiled.bounds hb
  obtain ⟨hlen, -, haddr⟩ := hm.shape b hb
  rw [Block.fin] at hhi ⊢
  omega

theorem nodup_of_tiled (htiled : Tiled (p + len) l hi) (hlen : 0 < len) (hpos : ∀ b ∈ l, 0 < b.len) :
    (p :: l.map Block.addr).Nodup := by
  refine List.nodup_cons.mpr ⟨fun hmem => ?_, List.pairwise_map.mpr ?_⟩
  · obtain ⟨b, hb, heq⟩ := List.mem_map.mp hmem
    have := (htiled.bounds hb).1
    omega
  · refine htiled.pairwise.imp_of_mem fun {b c} hb _ hle heq => ?_
    have := hpos b hb
    rw [Block.fin] at hle
    omega

theorem Holds.nodup (hm : Holds P m first rest) : (P.lo :: rest.map Block.addr).Nodup :=
  nodup_of_tiled hm.tiled (by omega) fun b hb => Nat.lt_of_lt_of_le (by decide) (hm.shape b hb).1

theorem Holds.header_bounds (hm : Holds P m first rest) (ha : a ∈ P.lo :: rest.map Block.addr) :
    P.lo ≤ a ∧ a + 8 ≤ P.hi ∧ a % 8 = 0 := by
  have hroom := P.room
  have haligned := P.aligned
  rcases List.mem_cons.mp ha with rfl | ha
  · rw [Pool.lo, Pool.hi]
    omega
  · obtain ⟨b, hb, rfl⟩ := List.mem_map.mp ha
    have := hm.rest_bounds hb
    omega

/-- The words that the kernel keeps: the head, the headers and the last link. -/
def Kept (P : Pool) (rest : List Block) (a : ℕ) : Prop :=
  a = P.mem ∨ a = P.mem + 4 ∨ a = P.hi ∨ a = P.hi + 4 ∨ ∃ p ∈ P.lo :: rest.map Block.addr, a = p ∨ a = p + 4

theorem Holds.not_kept (hm : Holds P m first rest) (hb : b ∈ blocks P first rest) (ha : b.addr + 8 ≤ a)
    (hfin : a < b.fin) : ¬ Kept P rest a := by
  have hbounds : P.lo ≤ b.addr ∧ b.fin ≤ P.hi ∧ ∀ p ∈ P.lo :: rest.map Block.addr, p = b.addr ∨ p + 8 ≤ b.addr ∨
      b.fin ≤ p := by
    rw [blocks] at hb
    have hrest : b ∈ rest → P.lo ≤ b.addr ∧ b.fin ≤ P.hi ∧ ∀ p ∈ P.lo :: rest.map Block.addr, p = b.addr ∨
        p + 8 ≤ b.addr ∨ b.fin ≤ p := fun hb => by
      obtain ⟨hlo, -, -, hhi, -⟩ := hm.rest_bounds hb
      refine ⟨by omega, hhi, fun p hp => ?_⟩
      rcases List.mem_cons.mp hp with rfl | hp
      · exact .inr (.inl hlo)
      · obtain ⟨c, hc, rfl⟩ := List.mem_map.mp hp
        by_cases hne : c = b
        · exact .inl (congrArg Block.addr hne)
        · have hlen := (hm.rest_bounds hc).2.2.1
          rcases hm.tiled.apart hc hb hne with hle | hle
          · exact .inr (.inl (by omega))
          · exact .inr (.inr hle)
    split at hb
    · exact hrest hb
    case isFalse hfirst =>
      rcases List.mem_cons.mp hb with rfl | hb
      · refine ⟨Nat.le_refl _, ?_, fun p hp => ?_⟩
        · have := hm.tiled.le
          rw [Block.fin]
          dsimp only
          omega
        · rcases List.mem_cons.mp hp with rfl | hp
          · exact .inl rfl
          · obtain ⟨c, hc, rfl⟩ := List.mem_map.mp hp
            exact .inr (.inr (hm.rest_bounds hc).2.1)
      · exact hrest hb
  obtain ⟨hlo, hhi, hapart⟩ := hbounds
  have hbase : P.lo = P.mem + 8 := rfl
  rintro (rfl | rfl | rfl | rfl | ⟨p, hp, heq⟩)
  · omega
  · omega
  · omega
  · omega
  · have := hapart p hp
    omega

theorem Holds.congr (hm : Holds P m first rest) (hkept : ∀ a, Kept P rest a → m' a = m a) : Holds P m' first rest where
  size := (hkept _ (.inl rfl)).trans hm.size
  used := (hkept _ (.inr (.inl rfl))).trans hm.used
  last := (hkept _ (.inr (.inr (.inl rfl)))).trans hm.last
  info := by
    rw [hkept _ (.inr (.inr (.inr (.inr ⟨P.lo, List.mem_cons_self, .inr rfl⟩))))]
    exact hm.info
  path := hm.path.congr hm.nodup (fun a ha _ => hkept a (.inr (.inr (.inr (.inr ⟨a, ha, .inl rfl⟩))))) fun b hb =>
    hkept _ (.inr (.inr (.inr (.inr ⟨b.addr, List.mem_cons_of_mem _ (List.mem_map_of_mem hb), .inr rfl⟩))))
  next := (hkept _ (.inr (.inr (.inr (.inr ⟨_, lastAddr_mem, .inl rfl⟩))))).trans hm.next
  tiled := hm.tiled
  first_shape := hm.first_shape
  shape := hm.shape

/-! ### Requests -/

theorem place_blocks (hn : 0 < n) : place n P.lo (blocks P first rest) P.hi =
    (place n (P.lo + first) rest P.hi).map fun found => (blocks P first found.1, found.2) := by
  rw [blocks]
  split
  case isTrue hfirst =>
    subst hfirst
    rw [Nat.add_zero]
    cases place n P.lo rest P.hi <;> rfl
  case isFalse hfirst =>
    rw [place, Nat.sub_self, if_neg (Nat.not_le_of_lt hn)]
    refine congrArg₂ Option.map (funext fun found => ?_) rfl
    rw [blocks, if_neg hfirst]

/-- The header before a place has no block exactly if it is the first one and free. -/
theorem Holds.info_eq_zero (hm : Holds P m first (before ++ behind)) :
    m (lastAddr P.lo before + 4) = 0 ↔ first = 0 ∧ before = [] := by
  have hinfo := hm.info
  rcases List.eq_nil_or_concat' before with rfl | ⟨l, b, rfl⟩
  · rw [lastAddr_nil]
    split at hinfo
    case isTrue hfirst => exact iff_of_true hinfo ⟨hfirst, rfl⟩
    case isFalse hfirst =>
      obtain ⟨type, -, hinfo⟩ := hinfo
      refine iff_of_false (fun heq => hfirst ?_) fun h => hfirst h.1
      omega
  · have hb : b ∈ l ++ [b] ++ behind := List.mem_append_left _ (List.mem_append_right _ List.mem_cons_self)
    have hlen := (hm.shape b hb).1
    obtain ⟨-, ⟨type, -, hinfo⟩, -⟩ := (path_append.mp (path_append.mp hm.path).1).2
    have hlast : lastAddr P.lo (l ++ [b]) = b.addr := lastAddr_append
    rw [hlast, hinfo]
    exact iff_of_false (by omega) fun h => List.append_ne_nil_of_right_ne_nil l (List.cons_ne_nil b []) h.2

theorem Holds.lastAddr_len (hm : Holds P m first (before ++ behind)) :
    lastAddr P.lo before + blockLen (m (lastAddr P.lo before + 4)) = finOf (P.lo + first) before := by
  have hinfo := hm.info
  have hshape := hm.first_shape
  rcases List.eq_nil_or_concat' before with rfl | ⟨l, b, rfl⟩
  · rw [lastAddr_nil]
    split at hinfo
    case isTrue hfirst => rw [hinfo, hfirst, finOf, blockLen]
    case isFalse hfirst =>
      obtain ⟨type, htype, hinfo⟩ := hinfo
      rw [hinfo, blockLen_add (by omega) htype, finOf]
  · have hb : b ∈ l ++ [b] ++ behind := List.mem_append_left _ (List.mem_append_right _ List.mem_cons_self)
    have hlen := hm.shape b hb
    obtain ⟨-, ⟨type, htype, hinfo⟩, -⟩ := (path_append.mp (path_append.mp hm.path).1).2
    have hlast : lastAddr P.lo (l ++ [b]) = b.addr := lastAddr_append
    rw [hlast, hinfo, blockLen_add (by omega) htype, finOf_append]
    rfl

theorem Holds.finOf_shape (hm : Holds P m first (before ++ behind)) (hnot : ¬ (first = 0 ∧ before = [])) :
    lastAddr P.lo before + 16 ≤ finOf (P.lo + first) before ∧ finOf (P.lo + first) before % 8 = 0 := by
  have haligned := P.aligned
  have hlo : P.lo = P.mem + 8 := rfl
  have hshape := hm.first_shape
  rcases List.eq_nil_or_concat' before with rfl | ⟨l, b, rfl⟩
  · rw [lastAddr_nil, finOf]
    have hfirst : first ≠ 0 := fun heq => hnot ⟨heq, rfl⟩
    omega
  · have hb : b ∈ l ++ [b] ++ behind := List.mem_append_left _ (List.mem_append_right _ List.mem_cons_self)
    have hlen := hm.shape b hb
    have hlast : lastAddr P.lo (l ++ [b]) = b.addr := lastAddr_append
    have hfin : finOf (P.lo + first) (l ++ [b]) = b.addr + b.len := finOf_append
    omega

/-- The words that a request writes before the header -/
def account (m : Memory) (mem n : ℕ) : Memory :=
  let used := (m (mem + 4) + n) % 2 ^ 32
  if m (mem + m mem - 8 + 4) < used then (m.set (mem + 4) used).set (mem + m mem - 8 + 4) used
  else m.set (mem + 4) used

theorem account_of_ne {mem : ℕ} (hused : a ≠ mem + 4) (hpeak : a ≠ mem + m mem - 8 + 4) :
    account m mem n a = m a := by
  rw [account]
  split
  · rw [set_of_ne hpeak, set_of_ne hused]
  · rw [set_of_ne hused]

theorem account_used {mem : ℕ} (hne : mem + 4 ≠ mem + m mem - 8 + 4) :
    account m mem n (mem + 4) = (m (mem + 4) + n) % 2 ^ 32 := by
  rw [account]
  split
  · rw [set_of_ne hne, set_self]
  · rw [set_self]

/-- The type goes into the two bits that the length leaves free. -/
theorem or_type (hn : n % 8 = 0) (htype : type < 4) : n ||| type = n + type := by
  have h8 : n = 2 ^ 2 * (n / 4) := by omega
  rw [h8]
  exact (Nat.two_pow_add_eq_or_of_lt htype (n / 4)).symm

theorem take_eq {mem : ℕ} (hp : p + 4 ≠ mem + 4 ∧ p + 4 ≠ mem + m mem - 8 + 4) (hne : mem + m mem - 8 + 4 ≠ mem + 4) :
    m.take mem type n p =
      if m (p + 4) = 0 then (p + 8, (account m mem n).set (p + 4) (n ||| type))
      else (p + blockLen (m (p + 4)) + 8,
        (((account m mem n).set (p + blockLen (m (p + 4))) (account m mem n p)).set
          (p + blockLen (m (p + 4)) + 4) (n ||| type)).set p (p + blockLen (m (p + 4)))) := by
  have hlast : (m.set (mem + 4) ((m (mem + 4) + n) % 2 ^ 32)) (mem + m mem - 8 + 4) = m (mem + m mem - 8 + 4) :=
    set_of_ne hne
  have hinfo : account m mem n (p + 4) = m (p + 4) := account_of_ne hp.1 hp.2
  rw [take, hlast]
  rw [account] at hinfo ⊢
  dsimp only at hinfo ⊢
  rw [hinfo]

theorem Holds.take_first (hm : Holds P m 0 rest) (htype : type < 4) (hn : 16 ≤ n ∧ n % 8 = 0)
    (htiled : Tiled (P.lo + n) rest P.hi) :
    (m.take P.mem type n P.lo).1 = P.lo + 8 ∧ Holds P (m.take P.mem type n P.lo).2 n rest ∧
      ∀ a, ¬ Kept P rest a → (m.take P.mem type n P.lo).2 a = m a := by
  have hroom := P.room
  have hword := P.word
  have hpos := P.pos
  have haligned := P.aligned
  have hsize := hm.size
  have hlo : P.lo = P.mem + 8 := rfl
  have hhi : P.hi = P.mem + P.size - 8 := rfl
  have htotal := htiled.total_le
  have hinfo : m (P.lo + 4) = 0 := by simpa using hm.info
  have hused : (m (P.mem + 4) + n) % 2 ^ 32 = 16 + n + total rest := by
    rw [hm.used]
    omega
  rw [take_eq (by omega) (by omega), if_pos hinfo, or_type hn.2 htype]
  have hset : ∀ a, a ≠ P.mem + 4 → a ≠ P.hi + 4 → a ≠ P.lo + 4 →
      ((account m P.mem n).set (P.lo + 4) (n + type)) a = m a := fun a h₁ h₂ h₃ => by
    rw [set_of_ne h₃, account_of_ne h₁ (by omega)]
  refine ⟨rfl, ⟨(hset _ (by omega) (by omega) (by omega)).trans hsize, ?_,
    (hset _ (by omega) (by omega) (by omega)).trans hm.last, ?_, ?_, ?_, htiled.mono (by omega), .inr hn, hm.shape⟩,
    fun a ha => ?_⟩
  · exact (set_of_ne (by omega)).trans ((account_used (by omega)).trans hused)
  · rw [if_neg (by omega)]
    exact ⟨type, htype, set_self⟩
  · refine hm.path.congr hm.nodup (fun a ha _ => ?_) fun b hb => ?_
    · have := hm.header_bounds ha
      exact hset a (by omega) (by omega) (by omega)
    · have := hm.rest_bounds hb
      exact hset _ (by omega) (by omega) (by omega)
  · have := hm.header_bounds lastAddr_mem
    exact (hset _ (by omega) (by omega) (by omega)).trans hm.next
  · exact hset a (fun heq => ha (.inr (.inl heq))) (fun heq => ha (.inr (.inr (.inr (.inl heq)))))
      fun heq => ha (.inr (.inr (.inr (.inr ⟨P.lo, List.mem_cons_self, .inr heq⟩))))

theorem Holds.take_insert (hm : Holds P m first (before ++ behind)) (hnot : ¬ (first = 0 ∧ before = []))
    (haddr : addr = finOf (P.lo + first) before) (htype : type < 4) (hn : 16 ≤ n ∧ n % 8 = 0)
    (htiled : Tiled (P.lo + first) (before ++ ⟨addr, n⟩ :: behind) P.hi) :
    (m.take P.mem type n (lastAddr P.lo before)).1 = addr + 8 ∧
      Holds P (m.take P.mem type n (lastAddr P.lo before)).2 first (before ++ ⟨addr, n⟩ :: behind) ∧
      ∀ a, ¬ Kept P (before ++ ⟨addr, n⟩ :: behind) a → (m.take P.mem type n (lastAddr P.lo before)).2 a = m a := by
  have hroom := P.room
  have hword := P.word
  have hpos := P.pos
  have haligned := P.aligned
  have hsize := hm.size
  have hlo : P.lo = P.mem + 8 := rfl
  have hhi : P.hi = P.mem + P.size - 8 := rfl
  have htotal := htiled.total_le
  have hmem : lastAddr P.lo before ∈ P.lo :: (before ++ behind).map Block.addr := by
    rw [List.map_append]
    exact (List.sublist_append_left (P.lo :: before.map Block.addr) (behind.map Block.addr)).subset lastAddr_mem
  have hheader := hm.header_bounds hmem
  have hend : lastAddr P.lo before + blockLen (m (lastAddr P.lo before + 4)) = addr := hm.lastAddr_len.trans haddr.symm
  have hinfo : m (lastAddr P.lo before + 4) ≠ 0 := fun heq => hnot (hm.info_eq_zero.mp heq)
  -- the new header lies behind the one before it and before the next
  obtain ⟨htiled₁, haddr_le, htiled₂⟩ := tiled_append.mp htiled
  have haddr_hi : addr + n ≤ P.hi := htiled₂.le
  have hbehind : ∀ b ∈ behind, addr + n ≤ b.addr := fun b hb => (htiled₂.bounds hb).1
  have hbefore : ∀ b ∈ before, b.addr + 16 ≤ addr := fun b hb => by
    have := (hm.rest_bounds (List.mem_append_left behind hb)).2.2.1
    have := (htiled₁.bounds hb).2
    omega
  obtain ⟨hgap, haddr8⟩ := hm.finOf_shape hnot
  rw [← haddr] at hgap haddr8
  have hused : (m (P.mem + 4) + n) % 2 ^ 32 = 16 + first + total (before ++ ⟨addr, n⟩ :: behind) := by
    rw [hm.used, total_append, total_append, total_cons]
    rw [total_append, total_cons] at htotal
    dsimp only at htotal ⊢
    omega
  rw [take_eq (by omega) (by omega), if_neg hinfo, or_type hn.2 htype, hend]
  have hset : ∀ a, a ≠ P.mem + 4 → a ≠ P.hi + 4 → a ≠ lastAddr P.lo before → a ≠ addr → a ≠ addr + 4 →
      ((((account m P.mem n).set addr (account m P.mem n (lastAddr P.lo before))).set (addr + 4) (n + type)).set
        (lastAddr P.lo before) addr) a = m a := fun a h₁ h₂ h₃ h₄ h₅ => by
    rw [set_of_ne h₃, set_of_ne h₅, set_of_ne h₄, account_of_ne h₁ (by omega)]
  have hlink : ((((account m P.mem n).set addr (account m P.mem n (lastAddr P.lo before))).set (addr + 4)
      (n + type)).set (lastAddr P.lo before) addr) addr = m (lastAddr P.lo before) := by
    rw [set_of_ne (by omega), set_of_ne (by omega), set_self, account_of_ne (by omega) (by omega)]
  have hnew : ((((account m P.mem n).set addr (account m P.mem n (lastAddr P.lo before))).set (addr + 4)
      (n + type)).set (lastAddr P.lo before) addr) (addr + 4) = n + type := by
    rw [set_of_ne (by omega), set_self]
  have hbound : ∀ b ∈ behind, b.addr % 8 = 0 ∧ b.addr + 16 ≤ P.hi := fun b hb => by
    have := hm.rest_bounds (List.mem_append_right before hb)
    omega
  have hkeep : ∀ b ∈ behind, ∀ d, d = 0 ∨ d = 4 → ((((account m P.mem n).set addr
      (account m P.mem n (lastAddr P.lo before))).set (addr + 4) (n + type)).set (lastAddr P.lo before) addr)
      (b.addr + d) = m (b.addr + d) := fun b hb d hd => by
    have := hbehind b hb
    have := hbound b hb
    exact hset _ (by omega) (by omega) (by omega) (by omega) (by omega)
  obtain ⟨hpath₁, hpath₂⟩ := path_append.mp hm.path
  have hnodup := hm.nodup
  rw [List.map_append, ← List.cons_append] at hnodup
  refine ⟨rfl, ⟨(hset _ (by omega) (by omega) (by omega) (by omega) (by omega)).trans hsize, ?_,
    (hset _ (by omega) (by omega) (by omega) (by omega) (by omega)).trans hm.last, ?_, ?_, ?_, ?_, hm.first_shape, ?_⟩,
    fun a ha => ?_⟩
  · refine (set_of_ne (by omega)).trans ((set_of_ne (by omega)).trans ((set_of_ne (by omega)).trans ?_))
    exact (account_used (by omega)).trans hused
  · dsimp only
    rw [hset (P.lo + 4) (by omega) (by omega) (by omega) (by omega) (by omega)]
    exact hm.info
  · refine path_append.mpr ⟨hpath₁.congr (List.nodup_append.mp hnodup).1 (fun a ha hne => ?_) fun b hb => ?_,
      set_self, ⟨type, htype, hnew⟩, hpath₂.relink (List.nodup_append.mp hnodup).2.1 hlink
        (fun b hb => hkeep b hb 0 (.inl rfl)) fun b hb => hkeep b hb 4 (.inr rfl)⟩
    · have hbound : a % 8 = 0 ∧ P.lo ≤ a ∧ a + 16 ≤ addr := by
        have := hm.header_bounds (a := a) (by
          rw [List.map_append, ← List.cons_append]
          exact List.mem_append_left _ ha)
        rcases List.mem_cons.mp ha with rfl | ha
        · omega
        · obtain ⟨b, hb, rfl⟩ := List.mem_map.mp ha
          have := hbefore b hb
          omega
      exact hset a (by omega) (by omega) hne (by omega) (by omega)
    · have := hbefore b hb
      have := hm.rest_bounds (List.mem_append_left behind hb)
      exact hset _ (by omega) (by omega) (by omega) (by omega) (by omega)
  · have hnext := hm.next
    rw [lastAddr_append] at hnext ⊢
    rcases List.eq_nil_or_concat' behind with rfl | ⟨l, b, rfl⟩
    · exact hlink.trans hnext
    · have hlast : ∀ p, lastAddr p (l ++ [b]) = b.addr := fun p => lastAddr_append
      rw [hlast] at hnext
      rw [lastAddr_cons, hlast]
      exact (hkeep b (List.mem_append_right _ List.mem_cons_self) 0 (.inl rfl)).trans hnext
  · have hshape := hm.first_shape
    by_cases hfirst : first = 0
    · cases before with
      | nil => exact absurd ⟨hfirst, rfl⟩ hnot
      | cons b before =>
          have := hm.rest_bounds (b := b) List.mem_cons_self
          exact ⟨by omega, htiled.2⟩
    · rw [Nat.max_eq_left (by omega)]
      exact htiled
  · intro b hb
    rcases List.mem_cons.mp (List.perm_middle.mem_iff.mp hb) with rfl | hb
    · exact ⟨hn.1, hn.2, haddr8⟩
    · exact hm.shape b hb
  · have hheads : ∀ p ∈ P.lo :: (before ++ ⟨addr, n⟩ :: behind).map Block.addr, a ≠ p ∧ a ≠ p + 4 := fun p hp =>
      ⟨fun heq => ha (.inr (.inr (.inr (.inr ⟨p, hp, .inl heq⟩)))),
        fun heq => ha (.inr (.inr (.inr (.inr ⟨p, hp, .inr heq⟩))))⟩
    have haddr_mem : addr ∈ P.lo :: (before ++ ⟨addr, n⟩ :: behind).map Block.addr := by
      rw [List.map_append]
      exact List.mem_cons_of_mem _ (List.mem_append_right _ List.mem_cons_self)
    have hlast_mem : lastAddr P.lo before ∈ P.lo :: (before ++ ⟨addr, n⟩ :: behind).map Block.addr := by
      rw [List.map_append]
      exact (List.sublist_append_left (P.lo :: before.map Block.addr) _).subset lastAddr_mem
    exact hset a (fun heq => ha (.inr (.inl heq))) (fun heq => ha (.inr (.inr (.inr (.inl heq)))))
      (hheads _ hlast_mem).1 (hheads _ haddr_mem).1 (hheads _ haddr_mem).2

/-! ### What is given back -/

theorem Holds.blockLen_first (hm : Holds P m first rest) : blockLen (m (P.lo + 4)) = first := by
  have hinfo := hm.info
  have hshape := hm.first_shape
  split at hinfo
  case isTrue hfirst => rw [hinfo, hfirst, blockLen]
  case isFalse hfirst =>
    obtain ⟨type, htype, hinfo⟩ := hinfo
    rw [hinfo, blockLen_add (by omega) htype]

theorem Holds.release_first (hm : Holds P m first rest) :
    Holds P (m.release P.mem P.lo none) 0 rest ∧ ∀ a, ¬ Kept P rest a → m.release P.mem P.lo none a = m a := by
  have hroom := P.room
  have hword := P.word
  have hpos := P.pos
  have haligned := P.aligned
  have hlo : P.lo = P.mem + 8 := rfl
  have hhi : P.hi = P.mem + P.size - 8 := rfl
  have htotal := hm.tiled.total_le
  have hset : ∀ a, a ≠ P.mem + 4 → a ≠ P.lo + 4 → m.release P.mem P.lo none a = m a := fun a h₁ h₂ => by
    rw [release]
    exact (set_of_ne h₂).trans (set_of_ne h₁)
  refine ⟨⟨(hset _ (by omega) (by omega)).trans hm.size, ?_, (hset _ (by omega) (by omega)).trans hm.last, ?_, ?_,
    ?_, hm.tiled.mono (by omega), .inl rfl, hm.shape⟩, fun a ha => ?_⟩
  · rw [release, hm.blockLen_first, hm.used]
    refine (set_of_ne (by omega)).trans (set_self.trans ?_)
    omega
  · rw [if_pos rfl]
    exact set_self
  · refine hm.path.congr hm.nodup (fun a ha _ => ?_) fun b hb => ?_
    · have := hm.header_bounds ha
      exact hset a (by omega) (by omega)
    · have := hm.rest_bounds hb
      exact hset _ (by omega) (by omega)
  · have := hm.header_bounds lastAddr_mem
    exact (hset _ (by omega) (by omega)).trans hm.next
  · exact hset a (fun heq => ha (.inr (.inl heq)))
      fun heq => ha (.inr (.inr (.inr (.inr ⟨P.lo, List.mem_cons_self, .inr heq⟩))))

theorem Holds.release_rest (hm : Holds P m first (l₁ ++ b :: l₂)) :
    Holds P (m.release P.mem b.addr (some (lastAddr P.lo l₁))) first (l₁ ++ l₂) ∧
      ∀ a, ¬ Kept P (l₁ ++ b :: l₂) a → m.release P.mem b.addr (some (lastAddr P.lo l₁)) a = m a := by
  have hroom := P.room
  have hword := P.word
  have hpos := P.pos
  have haligned := P.aligned
  have hlo : P.lo = P.mem + 8 := rfl
  have hhi : P.hi = P.mem + P.size - 8 := rfl
  have htotal := hm.tiled.total_le
  obtain ⟨hpath₁, hlink, ⟨type, htype, hinfo⟩, hpath₂⟩ := path_append.mp hm.path
  have hmem : lastAddr P.lo l₁ ∈ P.lo :: (l₁ ++ b :: l₂).map Block.addr := by
    rw [List.map_append]
    exact (List.sublist_append_left (P.lo :: l₁.map Block.addr) _).subset lastAddr_mem
  have hheader := hm.header_bounds hmem
  have hb := hm.rest_bounds (b := b) (List.mem_append_right _ List.mem_cons_self)
  have hshape := hm.shape b (List.mem_append_right _ List.mem_cons_self)
  have hset : ∀ a, a ≠ P.mem + 4 → a ≠ lastAddr P.lo l₁ →
      m.release P.mem b.addr (some (lastAddr P.lo l₁)) a = m a := fun a h₁ h₂ => by
    rw [release]
    exact (set_of_ne h₂).trans (set_of_ne h₁)
  have hnewlink : m.release P.mem b.addr (some (lastAddr P.lo l₁)) (lastAddr P.lo l₁) = m b.addr := by
    rw [release]
    exact set_self.trans (set_of_ne (by omega))
  have hnodup := hm.nodup
  rw [List.map_append, ← List.cons_append] at hnodup
  obtain ⟨hnodup₁, hnodup₂, hcross⟩ := List.nodup_append.mp hnodup
  have hbehind : ∀ c ∈ l₂, ∀ d, d = 0 ∨ d = 4 →
      m.release P.mem b.addr (some (lastAddr P.lo l₁)) (c.addr + d) = m (c.addr + d) := fun c hc d hd => by
    have := hm.rest_bounds (List.mem_append_right l₁ (List.mem_cons_of_mem b hc))
    have hne : lastAddr P.lo l₁ ≠ c.addr := hcross _ lastAddr_mem _ (List.mem_map_of_mem (List.mem_cons_of_mem b hc))
    exact hset _ (by omega) (by omega)
  refine ⟨⟨(hset _ (by omega) (by omega)).trans hm.size, ?_, (hset _ (by omega) (by omega)).trans hm.last, ?_, ?_, ?_,
    hm.tiled.remove, hm.first_shape, fun c hc => hm.shape c ?_⟩, fun a ha => ?_⟩
  · rw [release, hinfo, blockLen_add (by omega) htype, hm.used]
    refine (set_of_ne (by omega)).trans (set_self.trans ?_)
    rw [total_append, total_cons] at htotal ⊢
    rw [total_append]
    omega
  · rw [hset _ (by omega) (by omega)]
    exact hm.info
  · refine path_append.mpr ⟨hpath₁.congr hnodup₁ (fun a ha hne => ?_) fun c hc => ?_, hpath₂.relink
      (List.nodup_cons.mp hnodup₂).2 hnewlink (fun c hc => hbehind c hc 0 (.inl rfl))
      fun c hc => hbehind c hc 4 (.inr rfl)⟩
    · have := hm.header_bounds (a := a) (by
        rw [List.map_append, ← List.cons_append]
        exact List.mem_append_left _ ha)
      exact hset a (by omega) hne
    · have := hm.rest_bounds (List.mem_append_left (b :: l₂) hc)
      exact hset _ (by omega) (by omega)
  · have hnext := hm.next
    rw [lastAddr_append, lastAddr_cons] at hnext
    rw [lastAddr_append]
    rcases List.eq_nil_or_concat' l₂ with rfl | ⟨l, c, rfl⟩
    · exact hnewlink.trans hnext
    · have hlast : ∀ p, lastAddr p (l ++ [c]) = c.addr := fun p => lastAddr_append
      rw [hlast] at hnext ⊢
      exact (hbehind c (List.mem_append_right _ List.mem_cons_self) 0 (.inl rfl)).trans hnext
  · exact List.perm_middle.mem_iff.mpr (List.mem_cons_of_mem b hc)
  · exact hset a (fun heq => ha (.inr (.inl heq)))
      fun heq => ha (.inr (.inr (.inr (.inr ⟨_, hmem, .inl heq⟩))))

/-! ### The blocks -/

theorem blocks_append : blocks P first (l₁ ++ l₂) = blocks P first l₁ ++ l₂ := by
  rw [blocks, blocks]
  split <;> rfl

theorem blockSize_eq (h : size ≤ 2 ^ 32 - 16) : blockSize size = (size + 15) / 8 * 8 := by
  rw [blockSize]
  omega

theorem Holds.tiled_blocks (hm : Holds P m first rest) : Tiled P.lo (blocks P first rest) P.hi := by
  rw [blocks]
  split
  · exact hm.tiled.mono (Nat.le_add_right _ _)
  · exact ⟨Nat.le_refl _, hm.tiled.mono (Nat.add_le_add_left (Nat.le_max_left _ _) _)⟩

theorem Holds.length_lt (hm : Holds P m first rest) : rest.length + 1 < P.size := by
  have hroom := P.room
  have hlo : P.lo = P.mem + 8 := rfl
  have hhi : P.hi = P.mem + P.size - 8 := rfl
  have htotal := hm.tiled.total_le
  have hlength : 16 * rest.length ≤ total rest := by
    have hshape := fun b hb => (hm.shape b hb).1
    clear hm htotal
    induction rest with
    | nil => exact Nat.le_refl _
    | cons b rest ih =>
        obtain ⟨hb, hshape⟩ := List.forall_mem_cons.mp hshape
        have := ih hshape
        rw [total_cons, List.length_cons]
        omega
  omega

/-- A request that can be met yields the place of the first gap, and one that cannot changes nothing. -/
theorem Represents.alloc (hr : Represents P m h) (hsize : 0 < size ∧ size ≤ 2 ^ 32 - 16) (htype : type < 4)
    (hfuel : P.size ≤ fuel) :
    ∃ m', m.osRtxMemoryAlloc fuel P.mem size type =
        some (match place (blockSize size) P.lo h.live P.hi with
          | none => 0
          | some (_, addr, _) => addr + 8, m') ∧
      Represents P m' (h.alloc P (blockSize size)) ∧ (place (blockSize size) P.lo h.live P.hi = none → m' = m) := by
  obtain ⟨⟨first, rest, hlive, hm⟩, hcells⟩ := hr
  have hroom := P.room
  have hword := P.word
  have hlo : P.lo = P.mem + 8 := rfl
  have hhi : P.hi = P.mem + P.size - 8 := rfl
  have hn : 16 ≤ blockSize size ∧ blockSize size % 8 = 0 := by
    rw [blockSize_eq hsize.2]
    omega
  have htiled : Tiled (P.lo + first) rest P.hi := hm.tiled.mono (Nat.add_le_add_left (Nat.le_max_left _ _) _)
  have hsearch := @search_alloc m fuel (blockSize size) P.lo P.hi first rest none hm.path hm.next hm.last (by omega)
    (by omega) hm.blockLen_first htiled (fun b hb => by
      have := hm.shape b hb
      have := hm.rest_bounds hb
      omega) (Nat.lt_of_lt_of_le (Nat.lt_of_succ_lt hm.length_lt) hfuel)
  rw [osRtxMemoryAlloc, if_neg (by have := P.pos; omega), Handed.alloc, hlive, place_blocks (by omega), ← hlo]
  cases hplace : place (blockSize size) (P.lo + first) rest P.hi with
  | none =>
      rw [hplace] at hsearch
      dsimp only at hsearch
      rw [hsearch]
      exact ⟨m, rfl, ⟨⟨first, rest, hlive, hm⟩, hcells⟩, fun _ => rfl⟩
  | some found =>
      obtain ⟨before, addr, behind⟩ := found
      rw [hplace] at hsearch
      obtain ⟨prev', hsearch⟩ := hsearch
      obtain ⟨rfl, haddr⟩ := place_split hplace
      rw [hsearch]
      have hdone : ∀ first' rest', blocks P first' rest' = blocks P first before ++ ⟨addr, blockSize size⟩ :: behind →
          (m.take P.mem type (blockSize size) (lastAddr P.lo before)).1 = addr + 8 →
          Holds P (m.take P.mem type (blockSize size) (lastAddr P.lo before)).2 first' rest' →
          (∀ a, ¬ Kept P rest' a → (m.take P.mem type (blockSize size) (lastAddr P.lo before)).2 a = m a) →
          ∃ m', some (m.take P.mem type (blockSize size) (lastAddr P.lo before)) = some (addr + 8, m') ∧
            Represents P m' ⟨blocks P first before ++ ⟨addr, blockSize size⟩ :: behind,
              fun a => if addr ≤ a ∧ a < addr + blockSize size then none else h.cells a⟩ := by
        intro first' rest' hblocks hptr hholds hkeep
        refine ⟨_, congrArg some (Prod.ext hptr rfl), ⟨first', rest', hblocks.symm, hholds⟩, ?_⟩
        intro b hb a hlow hfin ha v hv
        dsimp only at hb hv
        split at hv
        case isTrue => cases hv
        case isFalse hout =>
          refine (hkeep a (hholds.not_kept (hblocks ▸ hb) hlow hfin)).trans (hcells b ?_ a hlow hfin ha v hv)
          rw [hlive, blocks_append]
          rcases List.mem_cons.mp (List.perm_middle.mem_iff.mp hb) with rfl | hb
          · rw [Block.fin] at hfin
            exact absurd ⟨Nat.le_trans (Nat.le_add_right _ 8) hlow, hfin⟩ hout
          · exact hb
      by_cases hfree : first = 0 ∧ before = []
      · obtain ⟨rfl, rfl⟩ := hfree
        obtain rfl : addr = P.lo := haddr
        have htiled' : Tiled (P.lo + blockSize size) behind P.hi := (htiled.place hplace).2
        obtain ⟨hptr, hholds, hkeep⟩ := Holds.take_first hm htype hn htiled'
        obtain ⟨m', hm', hrep⟩ := hdone _ _ (by rw [blocks, if_neg (by omega)]; rfl) hptr hholds hkeep
        exact ⟨m', hm', hrep, fun h => by cases h⟩
      · obtain ⟨hptr, hholds, hkeep⟩ := hm.take_insert hfree haddr htype hn (htiled.place hplace)
        obtain ⟨m', hm', hrep⟩ := hdone _ _ blocks_append hptr hholds hkeep
        exact ⟨m', hm', hrep, fun h => by cases h⟩

theorem Holds.blocks_bounds (hm : Holds P m first rest) (hb : b ∈ blocks P first rest) :
    P.lo ≤ b.addr ∧ b.addr + 16 ≤ b.fin ∧ b.fin ≤ P.hi ∧ b.addr % 8 = 0 ∧ b.fin % 8 = 0 := by
  have haligned := P.aligned
  have hlo : P.lo = P.mem + 8 := rfl
  obtain ⟨hlow, hhigh⟩ := hm.tiled_blocks.bounds hb
  have hshape := hm.first_shape
  rw [blocks] at hb
  rw [Block.fin] at hhigh ⊢
  split at hb
  · have := hm.shape b hb
    omega
  · rcases List.mem_cons.mp hb with rfl | hb
    · dsimp only at hlow hhigh ⊢
      omega
    · have := hm.shape b hb
      omega

/-- What is given back is the block that starts there, if there is one. -/
theorem Represents.free (hr : Represents P m h) {block : ℕ} (hend : block ≠ P.mem + P.size) (hblock : block < 2 ^ 32)
    (hfuel : P.size ≤ fuel) :
    ∃ ret m', m.osRtxMemoryFree fuel P.mem block = some (ret, m') ∧ Represents P m' (h.free block) := by
  obtain ⟨⟨first, rest, hlive, hm⟩, hcells⟩ := hr
  have hroom := P.room
  have hword := P.word
  have hpos := P.pos
  have haligned := P.aligned
  have hlo : P.lo = P.mem + 8 := rfl
  have hhi : P.hi = P.mem + P.size - 8 := rfl
  have hlength := hm.length_lt
  have hrest_pos : ∀ c ∈ rest, 0 < c.addr := fun c hc => by
    have := hm.rest_bounds hc
    omega
  -- a block that stays keeps its words
  have hdone : ∀ first' rest' m', (h.live.filter fun b => b.addr + 8 ≠ block) = blocks P first' rest' →
      Holds P m' first' rest' → (∀ a, ¬ Kept P rest a → m' a = m a) → Represents P m' (h.free block) := by
    refine fun first' rest' m' hblocks hholds hkeep => ⟨⟨first', rest', hblocks, hholds⟩, ?_⟩
    intro b hb a hlow hfin ha v hv
    have hb := List.mem_of_mem_filter hb
    exact (hkeep a (hm.not_kept (hlive ▸ hb) hlow hfin)).trans (hcells b hb a hlow hfin ha v hv)
  by_cases hnull : block = 0
  · rw [osRtxMemoryFree, if_pos (.inr hnull)]
    refine ⟨_, _, rfl, hdone first rest m ?_ hm fun _ _ => rfl⟩
    rw [← hlive, List.filter_eq_self]
    exact fun b _ => decide_eq_true (by omega)
  rw [osRtxMemoryFree, if_neg (by omega), ← hlo]
  by_cases hfirst : block = P.lo + 8
  · have hptr : (block + 2 ^ 32 - 8) % 2 ^ 32 = P.lo := by omega
    rw [hptr, search_free_here]
    obtain ⟨hholds, hkeep⟩ := hm.release_first
    refine ⟨_, _, rfl, hdone 0 rest _ ?_ hholds hkeep⟩
    have hstay : rest.filter (fun b => b.addr + 8 ≠ block) = rest := List.filter_eq_self.mpr fun b hb => by
      have := hm.rest_bounds hb
      exact decide_eq_true (by omega)
    rw [hlive, blocks, blocks, if_pos rfl]
    split
    · exact hstay
    · rw [List.filter_cons_of_neg (by simp [hfirst])]
      exact hstay
  by_cases hmem : ∃ b ∈ rest, b.addr + 8 = block
  · obtain ⟨b, hb, rfl⟩ := hmem
    obtain ⟨l₁, l₂, rfl⟩ := List.append_of_mem hb
    have hbounds := hm.rest_bounds hb
    have hptr : (b.addr + 8 + 2 ^ 32 - 8) % 2 ^ 32 = b.addr := by omega
    have hnodup := hm.nodup
    rw [List.map_append, List.map_cons, ← List.cons_append] at hnodup
    have hnot : b.addr ∉ P.lo :: l₁.map Block.addr := fun hmem =>
      (List.nodup_append.mp hnodup).2.2 _ hmem _ List.mem_cons_self rfl
    rw [List.length_append, List.length_cons] at hlength
    rw [hptr, search_free_found hm.path hrest_pos hnot (by omega)]
    obtain ⟨hholds, hkeep⟩ := hm.release_rest
    refine ⟨_, _, rfl, hdone first (l₁ ++ l₂) _ ?_ hholds hkeep⟩
    have hstay : ∀ c ∈ l₁ ++ l₂, c.addr + 8 ≠ b.addr + 8 := fun c hc heq => by
      have hkeys := (List.nodup_cons.mp hm.nodup).2
      rw [List.map_append, List.map_cons] at hkeys
      have hb := (List.nodup_cons.mp (List.perm_middle.nodup_iff.mp hkeys)).1
      rw [← List.map_append] at hb
      have haddr : c.addr = b.addr := by omega
      exact hb (haddr ▸ List.mem_map_of_mem hc)
    have hlist : (l₁ ++ b :: l₂).filter (fun c => c.addr + 8 ≠ b.addr + 8) = l₁ ++ l₂ := by
      rw [List.filter_append, List.filter_cons_of_neg (by simp), ← List.filter_append]
      exact List.filter_eq_self.mpr fun c hc => decide_eq_true (hstay c hc)
    rw [hlive, blocks, blocks]
    split
    · exact hlist
    · rw [List.filter_cons_of_pos (by simpa using fun heq => hfirst (by omega)), hlist]
  · have hnone : ∀ b ∈ blocks P first rest, b.addr + 8 ≠ block := fun b hb heq => by
      rw [blocks] at hb
      split at hb
      · exact hmem ⟨b, hb, heq⟩
      · rcases List.mem_cons.mp hb with rfl | hb
        · exact hfirst heq.symm
        · exact hmem ⟨b, hb, heq⟩
    have hnot : (block + 2 ^ 32 - 8) % 2 ^ 32 ∉ P.lo :: rest.map Block.addr := fun hin => by
      have hbounds := hm.header_bounds hin
      rcases List.mem_cons.mp hin with heq | hin
      · omega
      · obtain ⟨b, hb, heq⟩ := List.mem_map.mp hin
        exact hmem ⟨b, hb, by omega⟩
    have hfail := @search_free_failed m fuel P.lo P.hi rest none _ hm.path hm.next hm.last (by omega) hrest_pos hnot
      (by omega) (by omega)
    rw [hfail]
    refine ⟨_, _, rfl, hdone first rest m ?_ hm fun _ _ => rfl⟩
    rw [hlive]
    exact List.filter_eq_self.mpr fun b hb => decide_eq_true (hnone b hb)

theorem Represents.write (hr : Represents P m h) (ha : a % 4 = 0)
    (howner : ∃ b ∈ h.live, b.addr + 8 ≤ a ∧ a + 4 ≤ b.fin) :
    Represents P (m.set a v) { h with cells := Function.update h.cells a (some v) } := by
  obtain ⟨⟨first, rest, hlive, hm⟩, hcells⟩ := hr
  obtain ⟨b, hb, hlow, hhigh⟩ := howner
  refine ⟨⟨first, rest, hlive, hm.congr fun p hp => set_of_ne ?_⟩, fun c hc p hlow hfin hp w hw => ?_⟩
  · rintro rfl
    exact hm.not_kept (hlive ▸ hb) hlow (by omega) hp
  · dsimp only at hw
    by_cases hpa : p = a
    · subst hpa
      rw [Function.update_self] at hw
      exact set_self.trans (Option.some.inj hw)
    · rw [Function.update_of_ne hpa] at hw
      exact (set_of_ne hpa).trans (hcells c hc p hlow hfin hp w hw)

/-! ### Runs -/

theorem init_eq : m.osRtxMemoryInit P.mem P.size = (1, (((((m.set P.mem P.size).set (P.mem + 4) 16).set P.lo P.hi).set
    P.hi 0).set (P.hi + 4) 16).set (P.lo + 4) 0) := by
  have hroom := P.room
  have haligned := P.aligned
  have hsize := P.sizeAligned
  have hpos := P.pos
  have hpeak : P.mem + P.size - 4 = P.hi + 4 := by
    rw [Pool.hi]
    omega
  rw [osRtxMemoryInit, if_neg (by omega), hpeak]
  rfl

/-- The words that the kernel keeps in a pool of which nothing is handed out -/
theorem init_holds : Holds P (m.osRtxMemoryInit P.mem P.size).2 0 [] := by
  have hroom := P.room
  have hlo : P.lo = P.mem + 8 := rfl
  have hhi : P.hi = P.mem + P.size - 8 := rfl
  rw [init_eq]
  dsimp only
  refine ⟨?_, ?_, ?_, ?_, trivial, ?_, ?_, .inl rfl, fun b hb => absurd hb List.not_mem_nil⟩
  · rw [set_of_ne (by omega), set_of_ne (by omega), set_of_ne (by omega), set_of_ne (by omega), set_of_ne (by omega),
      set_self]
  · rw [set_of_ne (by omega), set_of_ne (by omega), set_of_ne (by omega), set_of_ne (by omega), set_self, total_nil]
  · rw [set_of_ne (by omega), set_of_ne (by omega), set_self]
  · rw [if_pos rfl, set_self]
  · rw [lastAddr_nil, set_of_ne (by omega), set_of_ne (by omega), set_of_ne (by omega), set_self]
  · exact (by omega : P.lo + max 0 8 ≤ P.hi)

theorem init_represents : Represents P (m.osRtxMemoryInit P.mem P.size).2 .init :=
  ⟨⟨0, [], rfl, init_holds⟩, fun _ hb => absurd hb List.not_mem_nil⟩

theorem Represents.step (hr : Represents P m h) {e : MemoryEvent} (he : h.Allowed P e) :
    ∃ m', m.step P.size P.mem e = some m' ∧ Represents P m' (h.apply P e) := by
  cases e with
  | alloc size type =>
      rw [Memory.step, Handed.apply]
      by_cases hargs : size = 0 ∨ 4 ≤ type
      · rw [osRtxMemoryAlloc, if_pos (.inr hargs), if_pos hargs]
        exact ⟨m, rfl, hr⟩
      · rw [if_neg hargs]
        rw [not_or] at hargs
        have hsize : size ≤ 2 ^ 32 - 16 := he
        obtain ⟨m', hm', hrep, -⟩ := hr.alloc ⟨Nat.pos_of_ne_zero hargs.1, hsize⟩ (Nat.lt_of_not_le hargs.2)
          (Nat.le_refl P.size)
        exact ⟨m', congrArg (Option.map Prod.snd) hm', hrep⟩
  | free block =>
      obtain ⟨ret, m', hm', hrep⟩ := hr.free he.1 he.2 (Nat.le_refl P.size)
      exact ⟨m', congrArg (Option.map Prod.snd) hm', hrep⟩
  | write a v => exact ⟨_, rfl, hr.write he.1 he.2⟩

theorem Represents.run (hr : Represents P m h) {events : List MemoryEvent}
    (halong : Along (fun h e => some (Handed.apply P h e)) (Handed.Allowed P) h events) :
    ∃ m', Best1307.run (fun m => Memory.step P.size P.mem m) m events = some m' ∧
      Represents P m' (events.foldl (Handed.apply P) h) := by
  induction events generalizing m h with
  | nil => exact ⟨m, rfl, hr⟩
  | cons e events ih =>
      obtain ⟨m₁, hm₁, hrep⟩ := hr.step halong.1
      obtain ⟨m', hm', hfin⟩ := ih hrep (halong.2 _ rfl)
      exact ⟨m', (run_cons_eq_some _).mpr ⟨m₁, hm₁, hm'⟩, hfin⟩

/-- The place of a request lies in the pool, apart from every block that is handed out. -/
theorem place_apart {lo : ℕ} (h : Tiled lo l hi) (hplace : place n lo l hi = some (before, addr, behind)) :
    lo ≤ addr ∧ addr + n ≤ hi ∧ ∀ b ∈ l, addr + n ≤ b.addr ∨ b.fin ≤ addr := by
  obtain ⟨rfl, -⟩ := place_split hplace
  obtain ⟨hbefore, haddr, hbehind⟩ := tiled_append.mp (h.place hplace)
  refine ⟨Nat.le_trans hbefore.le haddr, hbehind.le, fun b hb => ?_⟩
  rcases List.mem_append.mp hb with hb | hb
  · exact .inr (Nat.le_trans (hbefore.bounds hb).2 haddr)
  · exact .inl (hbehind.bounds hb).1

theorem place_joins {found : List Block × ℕ × List Block} (hplace : place n P.lo h.live P.hi = some found) :
    h.live = found.1 ++ found.2.2 ∧ (h.alloc P n).live = found.1 ++ ⟨found.2.1, n⟩ :: found.2.2 := by
  refine ⟨(place_split hplace).1, ?_⟩
  rw [Handed.alloc, hplace]

/-- What a pool, whose words were once `m₀`, is to those who have these blocks of it: they lie apart in the pool, the
head tells what they take, and each holds what its owner wrote last. A request gets room for its bytes apart from all of
them, in the block that it adds, or nothing, and then it is refused or no gap is wide enough. When all is given back,
the words of the kernel are again as they were, but for the peak. -/
structure Serves (P : Pool) (m₀ m : Memory) (h : Handed) : Prop where
  tiled : Tiled P.lo h.live P.hi
  used : m (P.mem + 4) = 16 + total h.live
  cells : ∀ b ∈ h.live, ∀ a, b.addr + 8 ≤ a → a < b.fin → a % 4 = 0 → ∀ v, h.cells a = some v → m a = v
  refused : ∀ size type, size = 0 ∨ 4 ≤ type → m.osRtxMemoryAlloc P.size P.mem size type = some (0, m)
  request : ∀ size type, 0 < size → size ≤ 2 ^ 32 - 16 → type < 4 →
    ∃ p m', m.osRtxMemoryAlloc P.size P.mem size type = some (p, m') ∧
      (p = 0 ∧ m' = m ∧ (∀ g ∈ gaps P.lo h.live P.hi, g < blockSize size) ∨
        p % 8 = 0 ∧ P.lo + 8 ≤ p ∧ p + size ≤ P.hi ∧ (∀ b ∈ h.live, p + size ≤ b.addr ∨ b.fin + 8 ≤ p) ∧
          ∃ before behind, h.live = before ++ behind ∧
            (h.apply P (.alloc size type)).live = before ++ ⟨p - 8, blockSize size⟩ :: behind)
  emptied : h.live = [] → ∀ a, Kept P [] a → a ≠ P.hi + 4 → m a = m₀ a

/-- Whatever was requested, given back and written before, the pool serves those who have blocks of it. -/
theorem memory_run (m₀ : Memory) {events : List MemoryEvent}
    (halong : Along (fun h e => some (Handed.apply P h e)) (Handed.Allowed P) .init events)
    (hh : h = events.foldl (Handed.apply P) .init) :
    ∃ m, run (fun m => Memory.step P.size P.mem m) (m₀.osRtxMemoryInit P.mem P.size).2 events = some m ∧
      Serves P (m₀.osRtxMemoryInit P.mem P.size).2 m h := by
  obtain ⟨m, hm, hrep⟩ := (init_represents (m := m₀)).run halong
  rw [← hh] at hrep
  obtain ⟨first, rest, hlive, hholds⟩ := hrep.holds
  have htiled : Tiled P.lo h.live P.hi := hlive ▸ hholds.tiled_blocks
  have haligned := P.aligned
  have hlo : P.lo = P.mem + 8 := rfl
  refine ⟨m, hm, htiled, ?_, hrep.cells, fun size type hbad => ?_, fun size type hpos hsize htype => ?_,
    fun hempty a ha hpeak => ?_⟩
  · rw [hholds.used, hlive, blocks]
    split
    · omega
    · rw [total_cons, Nat.add_assoc]
  · rw [osRtxMemoryAlloc, if_pos (.inr hbad)]
  · obtain ⟨m', hm', -, hsame⟩ := hrep.alloc ⟨hpos, hsize⟩ htype (Nat.le_refl P.size)
    cases hplace : place (blockSize size) P.lo h.live P.hi with
    | none =>
        rw [hplace] at hm'
        exact ⟨0, m', hm', .inl ⟨rfl, hsame hplace, place_eq_none.mp hplace⟩⟩
    | some found =>
        obtain ⟨hsplit, hjoins⟩ := place_joins hplace
        obtain ⟨before, addr, behind⟩ := found
        rw [hplace] at hm'
        obtain ⟨hlow, hhigh, hapart⟩ := place_apart htiled hplace
        have hn := blockSize_eq hsize
        have haddr : addr % 8 = 0 := by
          have hfin := (place_split hplace).2
          rcases List.eq_nil_or_concat' before with rfl | ⟨l, b, rfl⟩
          · rw [hfin, finOf]
            omega
          · have hb := hholds.blocks_bounds (b := b) (hlive ▸ hsplit ▸ List.mem_append_left _
              (List.mem_append_right _ List.mem_cons_self))
            have hlast : finOf P.lo (l ++ [b]) = b.fin := finOf_append
            omega
        have happly : h.apply P (.alloc size type) = h.alloc P (blockSize size) := if_neg (by omega)
        refine ⟨addr + 8, m', hm', .inr ⟨by omega, by omega, by omega, fun b hb => ?_, before, behind, hsplit, ?_⟩⟩
        · have := hapart b hb
          omega
        · rw [happly, Nat.add_sub_cancel]
          exact hjoins
  · have hnone : first = 0 ∧ rest = [] := by
      rw [hempty, blocks] at hlive
      split at hlive
      case isTrue hfirst => exact ⟨hfirst, hlive.symm⟩
      case isFalse => cases hlive
    obtain ⟨rfl, rfl⟩ := hnone
    have hinit := init_holds (P := P) (m := m₀)
    rcases ha with rfl | rfl | rfl | rfl | ⟨p, hp, hap⟩
    · exact hholds.size.trans hinit.size.symm
    · exact hholds.used.trans hinit.used.symm
    · exact hholds.last.trans hinit.last.symm
    · exact absurd rfl hpeak
    · obtain rfl := List.mem_singleton.mp hp
      rcases hap with rfl | rfl
      · exact hholds.next.trans hinit.next.symm
      · exact hholds.info.trans hinit.info.symm

/-- A pool of eight kilobytes -/
def smallPool : Pool := ⟨0x20000000, 0x2000, by decide, by decide, by decide, by decide, by decide⟩

/-- Two blocks, the first of which is given back, and a word in the second. -/
def twoBlocks : List MemoryEvent :=
  [.alloc 10 0, .alloc 100 1, .write 0x20000028 7, .free 0x20000010, .free 0x20000010]

theorem memory_run_twoBlocks :
    ∃ m h, run (fun m => Memory.step 0x2000 0x20000000 m) (osRtxMemoryInit 0x20000000 0x2000 fun _ => 0).2 twoBlocks =
        some m ∧
      Serves smallPool (osRtxMemoryInit 0x20000000 0x2000 fun _ => 0).2 m h ∧ h.live = [⟨0x20000020, 112⟩] ∧
        h.cells 0x20000028 = some 7 := by
  obtain ⟨m, hm, hserves⟩ := @memory_run smallPool _ (fun _ => 0) twoBlocks (by decide) rfl
  exact ⟨m, _, hm, hserves, rfl, rfl⟩

end Memory

end Best1307.Rtx
