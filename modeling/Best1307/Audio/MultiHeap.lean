import Mathlib.Algebra.Group.Nat.Defs
import Mathlib.Data.List.Pairwise
import Best1307.Lib.Run

/-!
# Several heaps as one

The audio decoders allocate from the first of the registered heaps that has room. Nothing about where a block came from
is kept with it: `a2dp_audio_heap_free` finds the heap by the address of the block, `a2dp_audio_heap_realloc` asks the
heaps one after the other, beginning with the first, until one returns a block.

What the functions of one heap do with its own blocks is their documentation; with a block of another heap they may do
anything.
-/

namespace Best1307.MultiHeap

/-- A range of memory that was registered. The heap is initialised at its beginning, where its own data are; its handle
points to them. -/
structure Heap where
  addr : Nat
  size : Nat
  header : Nat
  header_pos : 0 < header
  size_lt : size < 2 ^ 31
  end_le : addr + size ≤ 2 ^ 32

def Heap.handle (h : Heap) : Nat := h.addr

def Heap.Apart (h h' : Heap) : Prop := h.addr + h.size ≤ h'.addr ∨ h'.addr + h'.size ≤ h.addr

instance (h h' : Heap) : Decidable (h.Apart h') := inferInstanceAs (Decidable (_ ∨ _))

/-- A live block, with the number of the heap it was allocated from. -/
structure Block where
  heap : Nat
  addr : Nat
  size : Nat
  deriving DecidableEq, Repr

/-- The addresses of the block; also one without bytes has an address of its own. -/
def Block.Has (b : Block) (a : Nat) : Prop := b.addr ≤ a ∧ a < b.addr + max b.size 1

def Block.Apart (b b' : Block) : Prop := ∀ a, ¬ (b.Has a ∧ b'.Has a)

abbrev Memory := Nat → UInt8

/-- What a function of one heap returns, and the memory it leaves. -/
structure Answer where
  ptr : Option Nat
  memory : Memory

structure State where
  memory : Memory
  live : List Block

/-- `a2dp_audio_heap_register`; `heapNum` is `A2DP_HEAP_NUM`. -/
def register (heapNum : Nat) (heaps : List Heap) (h : Heap) : List Heap :=
  if heapNum ≤ heaps.length then heaps else heaps ++ [h]

/-- `a2dp_audio_heap_init` and the calls of `a2dp_audio_heap_register` that follow. -/
def registered (heapNum : Nat) (heaps : List Heap) : List Heap := heaps.foldl (register heapNum) []

/-- The heaps from `i` on are asked until one returns a block: the heap and the block, the memory then, and the heaps
that were asked. -/
def ask (answers : Nat → Answer) (i : Nat) : Nat → Memory → Option (Nat × Nat) × Memory × List Nat
  | 0, memory => (none, memory, [])
  | count + 1, _ =>
      match (answers i).ptr with
      | some ptr => (some (i, ptr), (answers i).memory, [i])
      | none =>
          let rest := ask answers (i + 1) count (answers i).memory
          (rest.1, rest.2.1, i :: rest.2.2)

/-- `diff_addr`, an `int` -/
def diffAddr (rmem handle : Nat) : Int := Int.bmod ((rmem : Int) - handle) (2 ^ 32)

def Heap.Covers (h : Heap) (rmem : Nat) : Prop :=
  0 < diffAddr rmem h.handle ∧ diffAddr rmem h.handle < Int.bmod h.size (2 ^ 32)

instance (h : Heap) (rmem : Nat) : Decidable (h.Covers rmem) := inferInstanceAs (Decidable (_ ∧ _))

/-- The search of `a2dp_audio_heap_free`. -/
def findHeap (heaps : List Heap) (rmem : Nat) : Option Nat := heaps.findIdx? fun h => decide (h.Covers rmem)

/-- A call, with what the functions of the heaps answer if they are called in it, or a write to a block. -/
inductive Event
  | malloc (size : Nat) (answers : Nat → Answer)
  | cmalloc (size : Nat) (answers : Nat → Answer)
  | realloc (rmem newsize : Nat) (answers : Nat → Answer)
  | free (rmem : Nat) (memory : Memory)
  | write (addr : Nat) (byte : UInt8)

/-- `memset(ptr, 0, size)` -/
def clear (memory : Memory) (ptr size : Nat) : Memory := fun a => if ptr ≤ a ∧ a < ptr + size then 0 else memory a

def without (live : List Block) (rmem : Nat) : List Block := live.filter (·.addr ≠ rmem)

variable (heaps : List Heap)

/-- The functions of the allocator; there is no next state where an assertion fails. -/
def step (s : State) : Event → Option State
  | .malloc size answers =>
      let (found, memory, _) := ask answers 0 heaps.length s.memory
      found.map fun (i, ptr) => ⟨memory, ⟨i, ptr, size⟩ :: s.live⟩
  | .cmalloc size answers =>
      let (found, memory, _) := ask answers 0 heaps.length s.memory
      found.map fun (i, ptr) => ⟨clear memory ptr size, ⟨i, ptr, size⟩ :: s.live⟩
  | .realloc rmem newsize answers =>
      let (found, memory, _) := ask answers 0 heaps.length s.memory
      found.map fun (i, ptr) => ⟨memory, ⟨i, ptr, newsize⟩ :: without s.live rmem⟩
  | .free rmem memory => (findHeap heaps rmem).map fun _ => ⟨memory, without s.live rmem⟩
  | .write addr byte => some { s with memory := Function.update s.memory addr byte }

/-! ### What is documented -/

/-- Outside of its range, and in these blocks of its own, a heap changes nothing. -/
def Keeps (i : Nat) (live : List Block) (memory memory' : Memory) : Prop :=
  ∀ h, heaps[i]? = some h → ∀ a,
    (a < h.addr ∨ h.addr + h.size ≤ a ∨ ∃ b ∈ live, b.heap = i ∧ b.Has a) → memory' a = memory a

/-- Behind the header, inside of the range and apart from the other blocks. -/
def Placed (b : Block) (live : List Block) : Prop :=
  ∃ h, heaps[b.heap]? = some h ∧ h.addr + h.header ≤ b.addr ∧ b.addr + max b.size 1 ≤ h.addr + h.size ∧
    ∀ b' ∈ live, b'.heap = b.heap → b.Apart b'

/-- `heap_malloc` -/
def MallocDoc (size : Nat) (live : List Block) (i : Nat) (memory : Memory) (answer : Answer) : Prop :=
  Keeps heaps i live memory answer.memory ∧ ∀ ptr, answer.ptr = some ptr → Placed heaps ⟨i, ptr, size⟩ live

/-- `heap_realloc` of a block of this heap; nothing is said about other blocks. -/
def ReallocDoc (rmem newsize : Nat) (live : List Block) (i : Nat) (memory : Memory) (answer : Answer) : Prop :=
  ∀ b ∈ live, b.addr = rmem → b.heap = i →
    match answer.ptr with
    | none => Keeps heaps i live memory answer.memory
    | some ptr =>
        Keeps heaps i (without live rmem) memory answer.memory ∧
          Placed heaps ⟨i, ptr, newsize⟩ (without live rmem) ∧
          ∀ k, k < min b.size newsize → answer.memory (ptr + k) = memory (rmem + k)

/-- Every function that is asked answers as it is documented. -/
def AskDoc (doc : Nat → Memory → Answer → Prop) (answers : Nat → Answer) (i : Nat) : Nat → Memory → Prop
  | 0, _ => True
  | count + 1, memory =>
      doc i memory (answers i) ∧
        ((answers i).ptr = none → AskDoc doc answers (i + 1) count (answers i).memory)

/-- The heaps answer as documented, and the caller gives back and writes to live blocks only. -/
def Documented (s : State) : Event → Prop
  | .malloc size answers => AskDoc (MallocDoc heaps size s.live) answers 0 heaps.length s.memory
  | .cmalloc size answers => AskDoc (MallocDoc heaps size s.live) answers 0 heaps.length s.memory
  | .realloc rmem newsize answers =>
      (∃ b ∈ s.live, b.addr = rmem) ∧
        AskDoc (ReallocDoc heaps rmem newsize s.live) answers 0 heaps.length s.memory
  | .free rmem memory => ∃ b ∈ s.live, b.addr = rmem ∧ Keeps heaps b.heap (without s.live rmem) s.memory memory
  | .write addr _ => ∃ b ∈ s.live, b.Has addr

/-! ### What is asked for -/

def Owns (s : State) (i rmem : Nat) : Prop := ∃ b ∈ s.live, b.addr = rmem ∧ b.heap = i

instance (s : State) (i rmem : Nat) : Decidable (Owns s i rmem) := inferInstanceAs (Decidable (∃ b ∈ _, _))

/-- `heap_realloc` and `heap_free` are called for blocks of the heap only, and a block that `realloc` returns has the
old content, while the other blocks are as they were. -/
def Meets (s : State) : Event → Prop
  | .realloc rmem newsize answers =>
      let (found, memory, calls) := ask answers 0 heaps.length s.memory
      (∀ i ∈ calls, Owns s i rmem) ∧
        ∀ i ptr, found = some (i, ptr) → ∀ b ∈ s.live,
          (b.addr = rmem → ∀ k, k < min b.size newsize → memory (ptr + k) = s.memory (rmem + k)) ∧
          (b.addr ≠ rmem → ∀ a, b.Has a → memory a = s.memory a)
  | .free rmem _ => ∃ i, findHeap heaps rmem = some i ∧ Owns s i rmem
  | _ => True

/-- The block is one of the first heap, which has room for the new size unless there is no other heap. -/
def StaysFirst (s : State) : Event → Prop
  | .realloc rmem _ answers => Owns s 0 rmem ∧ (heaps.length = 1 ∨ (answers 0).ptr ≠ none)
  | _ => True

structure Inv (s : State) : Prop where
  inside : ∀ b ∈ s.live, ∃ h, heaps[b.heap]? = some h ∧ h.addr + h.header ≤ b.addr ∧
    b.addr + max b.size 1 ≤ h.addr + h.size
  apart : s.live.Pairwise Block.Apart

variable {heaps} {s s' : State} {b b' : Block}

theorem Block.Apart.symm (h : b.Apart b') : b'.Apart b := fun a hboth => h a ⟨hboth.2, hboth.1⟩

instance : Std.Symm Block.Apart := ⟨fun _ _ h => h.symm⟩

theorem Block.has_addr (b : Block) : b.Has b.addr := by
  refine ⟨Nat.le_refl _, ?_⟩
  omega

theorem Inv.owner_unique (hs : Inv heaps s) (hb : b ∈ s.live) (hb' : b' ∈ s.live) (haddr : b.addr = b'.addr) :
    b = b' := by
  by_contra hne
  have hapart := hs.apart.forall hb hb' hne
  apply hapart b.addr
  exact ⟨b.has_addr, haddr ▸ b'.has_addr⟩

theorem apart_of_ne (hheaps : heaps.Pairwise Heap.Apart) {i j : Nat} {h h' : Heap} (hi : heaps[i]? = some h)
    (hj : heaps[j]? = some h') (hne : i ≠ j) : h.Apart h' := by
  obtain ⟨hilt, rfl⟩ := List.getElem?_eq_some_iff.mp hi
  obtain ⟨hjlt, rfl⟩ := List.getElem?_eq_some_iff.mp hj
  rcases Nat.lt_or_gt_of_ne hne with hlt | hlt
  · exact List.pairwise_iff_getElem.mp hheaps i j hilt hjlt hlt
  · exact (List.pairwise_iff_getElem.mp hheaps j i hjlt hilt hlt).symm

/-! ### Finding the heap of a block -/

theorem covers_of_inside {h : Heap} {rmem : Nat} (hlo : h.addr + h.header ≤ rmem) (hhi : rmem < h.addr + h.size) :
    h.Covers rmem := by
  have hheader := h.header_pos
  have hsize := h.size_lt
  simp only [Heap.Covers, diffAddr, Heap.handle, Int.bmod_def]
  omega

/-- Also where the difference of the addresses goes round, it does not get into the range of another heap. -/
theorem not_covers_of_outside {h : Heap} {rmem : Nat} (hout : rmem < h.addr ∨ h.addr + h.size ≤ rmem)
    (hrmem : rmem < 2 ^ 32) : ¬ h.Covers rmem := by
  have hend := h.end_le
  have hsize := h.size_lt
  simp only [Heap.Covers, diffAddr, Heap.handle, Int.bmod_def]
  omega

theorem findHeap_eq (hheaps : heaps.Pairwise Heap.Apart) (hs : Inv heaps s) (hb : b ∈ s.live) :
    findHeap heaps b.addr = some b.heap := by
  obtain ⟨h, hheap, hlo, hhi⟩ := hs.inside b hb
  obtain ⟨hlt, hget⟩ := List.getElem?_eq_some_iff.mp hheap
  have hend := h.end_le
  rw [findHeap, List.findIdx?_eq_some_iff_getElem]
  refine ⟨hlt, ?_, fun j hj => ?_⟩
  · rw [hget, decide_eq_true_iff]
    exact covers_of_inside hlo (by omega)
  · have hjlt : j < heaps.length := Nat.lt_trans hj hlt
    have hapart := apart_of_ne hheaps (List.getElem?_eq_getElem hjlt) hheap (Nat.ne_of_lt hj)
    rw [decide_eq_true_iff]
    apply not_covers_of_outside
    · rcases hapart with hapart | hapart
      · exact .inr (by omega)
      · exact .inl (by omega)
    · omega

/-! ### Asking the heaps -/

variable {doc : Nat → Memory → Answer → Prop} {answers : Nat → Answer}

/-- The block that is returned was documented by the heap it comes from. -/
theorem ask_some {i count : Nat} {memory memory' : Memory} {j ptr : Nat} {calls : List Nat}
    (hdoc : AskDoc doc answers i count memory) (h : ask answers i count memory = (some (j, ptr), memory', calls)) :
    ∃ before, doc j before (answers j) ∧ (answers j).ptr = some ptr ∧ (answers j).memory = memory' := by
  induction count generalizing i memory calls with
  | zero => cases h
  | succ count ih =>
      rw [ask] at h
      cases hptr : (answers i).ptr with
      | some q =>
          rw [hptr] at h
          obtain ⟨hfound, hmemory, -⟩ := Prod.mk.inj h |>.imp_right Prod.mk.inj
          obtain ⟨rfl, rfl⟩ := Prod.mk.inj (Option.some.inj hfound)
          exact ⟨memory, hdoc.1, hptr, hmemory⟩
      | none =>
          rw [hptr] at h
          obtain ⟨hfound, hmemory, -⟩ := Prod.mk.inj h |>.imp_right Prod.mk.inj
          exact ih (hdoc.2 hptr) (Prod.ext hfound (Prod.ext hmemory rfl))

theorem forall_calls_iff {count : Nat} {memory : Memory} {P : Nat → Prop} (hP : ∀ i, P i → i = 0) :
    (∀ i ∈ (ask answers 0 (count + 1) memory).2.2, P i) ↔ P 0 ∧ (count + 1 = 1 ∨ (answers 0).ptr ≠ none) := by
  rw [ask]
  cases hptr : (answers 0).ptr with
  | some q =>
      simp only [List.mem_singleton, forall_eq, ne_eq, reduceCtorEq, not_false_eq_true, or_true, and_true]
  | none =>
      simp only [List.forall_mem_cons, ne_eq, not_true_eq_false, or_false]
      apply and_congr_right
      intro _
      cases count with
      | zero => exact iff_of_true (fun i hi => absurd hi List.not_mem_nil) rfl
      | succ count =>
          apply iff_of_false
          · intro hall
            have hone : (1 : Nat) = 0 := by
              apply hP
              apply hall
              rw [ask]
              cases (answers (0 + 1)).ptr with
              | some q => exact List.mem_cons_self
              | none => exact List.mem_cons_self
            exact absurd hone (by decide)
          · omega

/-! ### What a call does -/

theorem Inv.of_live {t : State} (hs : Inv heaps s) (hlive : t.live = s.live) : Inv heaps t :=
  ⟨hlive ▸ hs.inside, hlive ▸ hs.apart⟩

theorem Inv.without {t : State} {rmem : Nat} (hs : Inv heaps s) (hlive : t.live = without s.live rmem) :
    Inv heaps t := by
  refine ⟨fun b hb => hs.inside b ?_, ?_⟩
  · rw [hlive] at hb
    exact List.mem_of_mem_filter hb
  · rw [hlive]
    exact hs.apart.filter _

/-- A block that is placed in its heap is apart from those of the other heaps too. -/
theorem Inv.push {t : State} (hheaps : heaps.Pairwise Heap.Apart) (hs : Inv heaps s) (hb : Placed heaps b s.live)
    (hlive : t.live = b :: s.live) : Inv heaps t := by
  obtain ⟨h, hheap, hlo, hhi, hapart⟩ := hb
  refine ⟨?_, ?_⟩
  · rw [hlive]
    intro b' hb'
    rcases List.mem_cons.mp hb' with rfl | hb'
    · exact ⟨h, hheap, hlo, hhi⟩
    · exact hs.inside b' hb'
  · rw [hlive, List.pairwise_cons]
    refine ⟨fun b' hb' => ?_, hs.apart⟩
    by_cases hsame : b'.heap = b.heap
    · exact hapart b' hb' hsame
    · obtain ⟨h', hheap', hlo', hhi'⟩ := hs.inside b' hb'
      have haway := apart_of_ne hheaps hheap' hheap hsame
      intro a hboth
      obtain ⟨⟨hge, hlt⟩, hge', hlt'⟩ := hboth
      rcases haway with haway | haway <;> omega

theorem owns_first_iff (hs : Inv heaps s) (hb : b ∈ s.live) {i : Nat} : Owns s i b.addr ↔ b.heap = i := by
  constructor
  · rintro ⟨b', hb', haddr, hheap⟩
    rw [hs.owner_unique hb hb' haddr.symm]
    exact hheap
  · intro hheap
    exact ⟨b, hb, rfl, hheap⟩

/-- Only the first heap has been asked; what it documents for its own block is what is wanted. -/
theorem realloc_first (hheaps : heaps.Pairwise Heap.Apart) (hs : Inv heaps s) (hb : b ∈ s.live) {newsize : Nat}
    (hdoc : AskDoc (ReallocDoc heaps b.addr newsize s.live) answers 0 heaps.length s.memory) (hfirst : b.heap = 0)
    (hstays : heaps.length = 1 ∨ (answers 0).ptr ≠ none) {i ptr : Nat} {memory : Memory} {calls : List Nat}
    (hask : ask answers 0 heaps.length s.memory = (some (i, ptr), memory, calls)) :
    Placed heaps ⟨i, ptr, newsize⟩ (without s.live b.addr) ∧
      (∀ k, k < min b.size newsize → memory (ptr + k) = s.memory (b.addr + k)) ∧
      ∀ b' ∈ s.live, b'.addr ≠ b.addr → ∀ a, b'.Has a → memory a = s.memory a := by
  obtain ⟨h, hheap, -⟩ := hs.inside b hb
  obtain ⟨hlt, -⟩ := List.getElem?_eq_some_iff.mp hheap
  obtain ⟨count, hcount⟩ : ∃ count, heaps.length = count + 1 := Nat.exists_eq_add_one.mpr (by omega)
  rw [hcount] at hdoc hask hstays
  cases hptr : (answers 0).ptr with
  | none =>
      have hone : count = 0 := by
        rcases hstays with hone | hsome
        · omega
        · exact absurd hptr hsome
      subst hone
      rw [ask, hptr] at hask
      cases hask
  | some q =>
      rw [ask, hptr] at hask
      obtain ⟨hfound, hmemory, -⟩ := Prod.mk.inj hask |>.imp_right Prod.mk.inj
      obtain ⟨rfl, rfl⟩ := Prod.mk.inj (Option.some.inj hfound)
      have hown := hdoc.1 b hb rfl hfirst
      rw [hptr] at hown
      obtain ⟨hkeeps, hplaced, hcontent⟩ := hown
      rw [← hmemory]
      refine ⟨hplaced, hcontent, fun b' hb' hother a ha => ?_⟩
      obtain ⟨h', hheap', hlo', hhi'⟩ := hs.inside b' hb'
      rw [hfirst] at hheap
      apply hkeeps h hheap
      by_cases hsame : b'.heap = 0
      · refine .inr (.inr ⟨b', List.mem_filter.mpr ⟨hb', ?_⟩, hsame, ha⟩)
        exact decide_eq_true hother
      · obtain ⟨hge, hlt'⟩ := ha
        rcases apart_of_ne hheaps hheap' hheap hsame with haway | haway
        · exact .inl (by omega)
        · exact .inr (.inl (by omega))

/-- A call meets what is asked for exactly if a block that is resized stays in the first heap. -/
theorem meets_iff (hheaps : heaps.Pairwise Heap.Apart) (hs : Inv heaps s) {e : Event} (hdoc : Documented heaps s e) :
    Meets heaps s e ↔ StaysFirst heaps s e := by
  cases e with
  | malloc size answers => exact Iff.rfl
  | cmalloc size answers => exact Iff.rfl
  | write addr byte => exact Iff.rfl
  | free rmem memory =>
      obtain ⟨b, hb, rfl, -⟩ := hdoc
      exact iff_of_true ⟨b.heap, findHeap_eq hheaps hs hb, b, hb, rfl, rfl⟩ trivial
  | realloc rmem newsize answers =>
      obtain ⟨⟨b, hb, rfl⟩, hdoc⟩ := hdoc
      obtain ⟨h, hheap, -⟩ := hs.inside b hb
      obtain ⟨hlt, -⟩ := List.getElem?_eq_some_iff.mp hheap
      obtain ⟨count, hcount⟩ : ∃ count, heaps.length = count + 1 := Nat.exists_eq_add_one.mpr (by omega)
      -- all the calls are made on the owner
      have hcalls : (∀ i ∈ (ask answers 0 heaps.length s.memory).2.2, Owns s i b.addr) ↔
          StaysFirst heaps s (.realloc b.addr newsize answers) := by
        rw [StaysFirst, hcount]
        by_cases hfirst : b.heap = 0
        · apply forall_calls_iff
          intro i howns
          exact ((owns_first_iff hs hb).mp howns).symm.trans hfirst
        · apply iff_of_false
          · intro hall
            apply hfirst
            apply (owns_first_iff hs hb).mp
            apply hall
            rw [ask]
            cases (answers 0).ptr with
            | some q => exact List.mem_cons_self
            | none => exact List.mem_cons_self
          · intro hboth
            exact hfirst ((owns_first_iff hs hb).mp hboth.1)
      refine (and_congr_left' hcalls).trans (and_iff_left_of_imp fun hstays => ?_)
      obtain ⟨howns, hstays⟩ := hstays
      intro i ptr hfound b' hb'
      obtain ⟨-, hcontent, hothers⟩ := realloc_first hheaps hs hb hdoc ((owns_first_iff hs hb).mp howns) hstays
        (Prod.ext hfound rfl)
      refine ⟨fun haddr => ?_, hothers b' hb'⟩
      rw [hs.owner_unique hb' hb haddr]
      exact hcontent

theorem step_inv (hheaps : heaps.Pairwise Heap.Apart) (hs : Inv heaps s) {e : Event} (hdoc : Documented heaps s e)
    (hstays : StaysFirst heaps s e) (hstep : step heaps s e = some s') : Inv heaps s' := by
  cases e with
  | malloc size answers =>
      obtain ⟨⟨i, ptr⟩, hfound, rfl⟩ := Option.map_eq_some_iff.mp hstep
      obtain ⟨before, hanswer, hptr, -⟩ := ask_some hdoc (Prod.ext hfound rfl)
      exact hs.push hheaps (hanswer.2 ptr hptr) rfl
  | cmalloc size answers =>
      obtain ⟨⟨i, ptr⟩, hfound, rfl⟩ := Option.map_eq_some_iff.mp hstep
      obtain ⟨before, hanswer, hptr, -⟩ := ask_some hdoc (Prod.ext hfound rfl)
      exact hs.push hheaps (hanswer.2 ptr hptr) rfl
  | write addr byte =>
      obtain rfl := Option.some.inj hstep
      exact hs.of_live rfl
  | free rmem memory =>
      obtain ⟨i, -, rfl⟩ := Option.map_eq_some_iff.mp hstep
      exact hs.without rfl
  | realloc rmem newsize answers =>
      obtain ⟨⟨b, hb, rfl⟩, hdoc⟩ := hdoc
      obtain ⟨⟨i, ptr⟩, hfound, rfl⟩ := Option.map_eq_some_iff.mp hstep
      obtain ⟨howns, hstays⟩ := hstays
      obtain ⟨hplaced, -⟩ := realloc_first hheaps hs hb hdoc ((owns_first_iff hs hb).mp howns) hstays
        (Prod.ext hfound rfl)
      have hrest : Inv heaps ⟨s.memory, without s.live b.addr⟩ := hs.without rfl
      exact hrest.push hheaps hplaced rfl

/-! ### Runs -/

theorem registered_eq (heapNum : Nat) (all : List Heap) : registered heapNum all = all.take heapNum := by
  have hfoldl : ∀ acc : List Heap, acc.length ≤ heapNum →
      all.foldl (register heapNum) acc = acc ++ all.take (heapNum - acc.length) := by
    induction all with
    | nil => exact fun acc _ => by rw [List.take_nil, List.append_nil, List.foldl_nil]
    | cons h all ih =>
        intro acc hacc
        rw [List.foldl_cons, register]
        by_cases hfull : heapNum ≤ acc.length
        · have hzero : heapNum - acc.length = 0 := by omega
          rw [if_pos hfull, ih acc hacc, hzero, List.take_zero, List.take_zero]
        · have hlength : (acc ++ [h]).length = acc.length + 1 := List.length_append
          have hsucc : heapNum - acc.length = heapNum - (acc.length + 1) + 1 := by omega
          rw [if_neg hfull, ih _ (by omega), hlength, hsucc, List.take_succ_cons, List.append_assoc,
            List.singleton_append]
  exact hfoldl [] (Nat.zero_le _)

/-- However many heaps are registered: in every run in which the heaps do what is documented, all calls are made on the
heap that owns the block, and `realloc` keeps what it should, exactly if the blocks that are resized stay in the first
heap. -/
theorem meets_along_iff (heapNum : Nat) (all : List Heap) (memory : Memory) (events : List Event)
    (hheaps : all.Pairwise Heap.Apart)
    (hdoc : Along (step (registered heapNum all)) (Documented (registered heapNum all)) ⟨memory, []⟩ events) :
    Along (step (registered heapNum all)) (Meets (registered heapNum all)) ⟨memory, []⟩ events ↔
      Along (step (registered heapNum all)) (StaysFirst (registered heapNum all)) ⟨memory, []⟩ events := by
  have hregistered : (registered heapNum all).Pairwise Heap.Apart := by
    rw [registered_eq]
    exact hheaps.sublist (List.take_sublist _ _)
  have hinit : Inv (registered heapNum all) ⟨memory, []⟩ := ⟨fun b hb => absurd hb List.not_mem_nil, .nil⟩
  have hboth := @along_iff_of_invariant _ _ (step (registered heapNum all)) (Inv (registered heapNum all))
    (fun s e => Documented (registered heapNum all) s e ∧ Meets (registered heapNum all) s e)
    (fun s e => Documented (registered heapNum all) s e ∧ StaysFirst (registered heapNum all) s e)
    (fun s e hs => and_congr_right fun hdoc => meets_iff hregistered hs hdoc)
    (fun s e s' hs h hstep => step_inv hregistered hs h.1 h.2 hstep) ⟨memory, []⟩ events hinit
  rw [along_and, along_and, and_iff_right hdoc, and_iff_right hdoc] at hboth
  exact hboth

/-! ### Two heaps -/

instance (s : State) (e : Event) : Decidable (StaysFirst heaps s e) :=
  match e with
  | .malloc _ _ => inferInstanceAs (Decidable True)
  | .cmalloc _ _ => inferInstanceAs (Decidable True)
  | .realloc rmem _ answers =>
      inferInstanceAs (Decidable (Owns s 0 rmem ∧ (heaps.length = 1 ∨ (answers 0).ptr ≠ none)))
  | .free _ _ => inferInstanceAs (Decidable True)
  | .write _ _ => inferInstanceAs (Decidable True)

def lowHeap : Heap := ⟨0x1000, 0x100, 0x10, by decide, by decide, by decide⟩

def highHeap : Heap := ⟨0x2000, 0x100, 0x10, by decide, by decide, by decide⟩

def answer (ptr : Option Nat) : Answer := ⟨ptr, fun _ => 0⟩

theorem keeps_zero (i : Nat) (live : List Block) : Keeps heaps i live (fun _ => 0) fun _ => 0 :=
  fun _ _ _ _ => rfl

/-- A block is allocated in the first heap, resized there and freed. -/
def lowRun : List Event :=
  [.malloc 16 fun _ => answer (some 0x1010), .realloc 0x1010 32 fun _ => answer (some 0x1040),
    .free 0x1040 fun _ => 0]

/-- The first heap is full; a block of the second one is resized. -/
def highRun : List Event :=
  [.malloc 16 fun i => answer (if i = 0 then none else some 0x2010),
    .realloc 0x2010 32 fun i => answer (if i = 0 then none else some 0x2040)]

theorem placed_alone {b : Block} {h : Heap} (hheap : heaps[b.heap]? = some h) (hlo : h.addr + h.header ≤ b.addr)
    (hhi : b.addr + max b.size 1 ≤ h.addr + h.size) {live : List Block} (hlive : live = []) : Placed heaps b live :=
  ⟨h, hheap, hlo, hhi, fun _ hmem => absurd (hlive ▸ hmem) List.not_mem_nil⟩

theorem meets_along_lowRun :
    Along (step (registered 2 [lowHeap, highHeap])) (Meets (registered 2 [lowHeap, highHeap])) ⟨fun _ => 0, []⟩
      lowRun := by
  apply (meets_along_iff 2 [lowHeap, highHeap] (fun _ => 0) lowRun (by decide) _).mpr (by decide)
  refine ⟨⟨⟨keeps_zero _ _, fun ptr hptr => ?_⟩, fun hnone => by cases hnone⟩, fun s hs => ?_⟩
  · obtain rfl := Option.some.inj hptr
    exact placed_alone (h := lowHeap) rfl (by decide) (by decide) rfl
  · obtain rfl := Option.some.inj hs
    refine ⟨⟨⟨_, List.mem_singleton_self _, rfl⟩, fun b hb _ _ => ?_, fun hnone => by cases hnone⟩, fun t ht => ?_⟩
    · obtain rfl := List.mem_singleton.mp hb
      exact ⟨keeps_zero _ _, placed_alone (h := lowHeap) rfl (by decide) (by decide) rfl, fun _ _ => rfl⟩
    · obtain rfl := Option.some.inj ht
      exact ⟨⟨_, List.mem_singleton_self _, rfl, keeps_zero _ _⟩, fun _ _ => trivial⟩

theorem highRun_documented :
    Along (step (registered 2 [lowHeap, highHeap])) (Documented (registered 2 [lowHeap, highHeap])) ⟨fun _ => 0, []⟩
      highRun := by
  refine ⟨⟨⟨keeps_zero _ _, fun ptr hptr => by cases hptr⟩, fun _ => ⟨⟨keeps_zero _ _, fun ptr hptr => ?_⟩,
    fun hnone => by cases hnone⟩⟩, fun s hs => ?_⟩
  · obtain rfl := Option.some.inj hptr
    exact placed_alone (h := highHeap) rfl (by decide) (by decide) rfl
  · obtain rfl := Option.some.inj hs
    refine ⟨⟨⟨_, List.mem_singleton_self _, rfl⟩, fun b hb _ hheap => ?_, fun _ => ⟨fun b hb _ _ => ?_,
      fun hnone => by cases hnone⟩⟩, fun _ _ => trivial⟩
    · obtain rfl := List.mem_singleton.mp hb
      cases hheap
    · obtain rfl := List.mem_singleton.mp hb
      exact ⟨keeps_zero _ _, placed_alone (h := highHeap) rfl (by decide) (by decide) rfl, fun _ _ => rfl⟩

/-- The first heap is asked for a block that is not its own. -/
theorem not_meets_along_highRun :
    Along (step (registered 2 [lowHeap, highHeap])) (Documented (registered 2 [lowHeap, highHeap])) ⟨fun _ => 0, []⟩
        highRun ∧
      ¬ Along (step (registered 2 [lowHeap, highHeap])) (Meets (registered 2 [lowHeap, highHeap])) ⟨fun _ => 0, []⟩
        highRun := by
  refine ⟨highRun_documented, ?_⟩
  rintro ⟨-, hrest⟩
  obtain ⟨⟨hcalls, -⟩, -⟩ := hrest _ rfl
  exact absurd (hcalls 0 (by decide)) (by decide)

end Best1307.MultiHeap
