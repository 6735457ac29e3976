import Mathlib.Data.List.Basic
import Mathlib.Logic.Function.Basic

/-!
# A store whose writes are queued

A device with named cells and a first-in first-out queue of pending operations, each of which rewrites
one cell. Only the head of the queue is ever being carried out; while it is, its cell may hold anything.
Reads through the queue see the *settled* contents, a power cut sees the *physical* ones.
-/

namespace Best1307.FlashQueue

variable {Cell Content : Type*} [DecidableEq Cell]

/-- A pending operation: the cell it works on and what it turns the old content into. -/
structure Op (Cell Content : Type*) where
  cell : Cell
  effect : Content → Content

def Op.apply (op : Op Cell Content) (cells : Cell → Content) : Cell → Content :=
  Function.update cells op.cell (op.effect (cells op.cell))

theorem Op.apply_self (op : Op Cell Content) (cells : Cell → Content) :
    op.apply cells op.cell = op.effect (cells op.cell) := by
  simp only [Op.apply, Function.update_self]

theorem Op.apply_of_ne (op : Op Cell Content) (cells : Cell → Content) {c : Cell} (h : c ≠ op.cell) :
    op.apply cells c = cells c := by
  simp only [Op.apply, Function.update_of_ne h]

def applyAll (cells : Cell → Content) (ops : List (Op Cell Content)) : Cell → Content :=
  ops.foldl (fun cells op => op.apply cells) cells

structure Device (Cell Content : Type*) where
  cells : Cell → Content
  queue : List (Op Cell Content)
  /-- What the cell under the head operation holds, once that operation has begun. -/
  torn : Option Content

namespace Device

/-- What the flash holds at this moment, a half-done operation included. -/
def physical (d : Device Cell Content) (c : Cell) : Content :=
  match d.queue, d.torn with
  | op :: _, some content => if op.cell = c then content else d.cells c
  | _, _ => d.cells c

def settled (d : Device Cell Content) : Cell → Content := applyAll d.cells d.queue

def enqueue (d : Device Cell Content) (op : Op Cell Content) : Device Cell Content :=
  { d with queue := d.queue ++ [op] }

/-- The head operation is carried out to its end. -/
def finish (d : Device Cell Content) : Option (Device Cell Content) :=
  match d.queue with
  | [] => none
  | op :: rest => some { cells := op.apply d.cells, queue := rest, torn := none }

def tear (d : Device Cell Content) (content : Content) : Option (Device Cell Content) :=
  match d.queue with
  | [] => none
  | _ :: _ => some { d with torn := some content }

theorem finish_eq_some {d d' : Device Cell Content} (h : d.finish = some d') :
    ∃ op rest, d.queue = op :: rest ∧ d' = { cells := op.apply d.cells, queue := rest, torn := none } := by
  rcases hq : d.queue with _ | ⟨op, rest⟩
  · simp [finish, hq] at h
  · exact ⟨op, rest, rfl, by simpa [finish, hq] using h.symm⟩

omit [DecidableEq Cell] in
theorem tear_eq_some {d d' : Device Cell Content} {content : Content} (h : d.tear content = some d') :
    d.queue ≠ [] ∧ d' = { d with torn := some content } := by
  rcases hq : d.queue with _ | ⟨op, rest⟩
  · simp [tear, hq] at h
  · exact ⟨List.cons_ne_nil _ _, by simpa [tear, hq] using h.symm⟩

/-! ### Drained queues -/

theorem physical_of_drained {d : Device Cell Content} (h : d.queue = []) : d.physical = d.cells := by
  funext c
  simp only [physical, h]

theorem settled_of_drained {d : Device Cell Content} (h : d.queue = []) : d.settled = d.cells := by
  simp only [settled, h, applyAll, List.foldl_nil]

theorem physical_of_head_ne {d : Device Cell Content} {c : Cell}
    (h : ∀ op ∈ d.queue.head?, op.cell ≠ c) : d.physical c = d.cells c := by
  unfold physical
  split
  · next hqueue _ => rw [if_neg (h _ (by rw [hqueue]; rfl))]
  · rfl

/-! ### What the moves of the device do to the settled contents -/

@[simp] theorem settled_enqueue (d : Device Cell Content) (op : Op Cell Content) :
    (d.enqueue op).settled = op.apply d.settled := by
  simp only [settled, enqueue, applyAll, List.foldl_append, List.foldl_cons, List.foldl_nil]

theorem settled_finish {d d' : Device Cell Content} (h : d.finish = some d') : d'.settled = d.settled := by
  obtain ⟨op, rest, hqueue, rfl⟩ := finish_eq_some h
  simp only [settled, hqueue, applyAll, List.foldl_cons]

/-! ### Queues confined to one cell -/

def Confined (d : Device Cell Content) (c : Cell) : Prop := ∀ op ∈ d.queue, op.cell = c

omit [DecidableEq Cell] in
theorem Confined.of_drained {d : Device Cell Content} (h : d.queue = []) (c : Cell) : d.Confined c := by
  intro op hop
  rw [h] at hop
  exact absurd hop List.not_mem_nil

omit [DecidableEq Cell] in
theorem Confined.enqueue {d : Device Cell Content} {op : Op Cell Content} (h : d.Confined op.cell) :
    (d.enqueue op).Confined op.cell := by
  intro op' hop'
  rcases List.mem_append.mp hop' with hold | hnew
  · exact h op' hold
  · rw [List.mem_singleton.mp hnew]

theorem Confined.finish {d d' : Device Cell Content} {c : Cell} (h : d.Confined c)
    (hfinish : d.finish = some d') : d'.Confined c := by
  obtain ⟨op, rest, hqueue, rfl⟩ := finish_eq_some hfinish
  intro op' hop'
  exact h op' (by rw [hqueue]; exact List.mem_cons_of_mem op hop')

theorem Confined.cells_finish {d d' : Device Cell Content} {c other : Cell} (h : d.Confined c)
    (hne : other ≠ c) (hfinish : d.finish = some d') : d'.cells other = d.cells other := by
  obtain ⟨op, rest, hqueue, rfl⟩ := finish_eq_some hfinish
  have hop : op.cell = c := h op (by rw [hqueue]; exact List.mem_cons_self)
  exact op.apply_of_ne _ (by rw [hop]; exact hne)

theorem Confined.physical {d : Device Cell Content} {c other : Cell} (h : d.Confined c)
    (hne : other ≠ c) : d.physical other = d.cells other := by
  unfold Device.physical
  split
  · next op rest content hqueue _ =>
      have hop : op.cell = c := h op (by rw [hqueue]; exact List.mem_cons_self)
      rw [if_neg (by rw [hop]; exact fun he => hne he.symm)]
  · rfl

theorem Confined.settled {d : Device Cell Content} {c other : Cell} (h : d.Confined c)
    (hne : other ≠ c) : d.settled other = d.cells other := by
  obtain ⟨cells, queue, torn⟩ := d
  change applyAll cells queue other = cells other
  induction queue generalizing cells with
  | nil => rfl
  | cons op rest ih =>
      have hop : op.cell = c := h op List.mem_cons_self
      calc applyAll (op.apply cells) rest other
          = op.apply cells other := ih _ fun op' hop' => h op' (List.mem_cons_of_mem op hop')
        _ = cells other := op.apply_of_ne _ (by rw [hop]; exact hne)

/-! ### What a cell holds at every point while the queue drains -/

/-- `P` holds of the cell now and after each of the operations. -/
def Stages (P : Content → Prop) (c : Cell) : (Cell → Content) → List (Op Cell Content) → Prop
  | cells, [] => P (cells c)
  | cells, op :: rest => P (cells c) ∧ Stages P c (op.apply cells) rest

theorem Stages.head {P : Content → Prop} {c : Cell} {cells : Cell → Content}
    {ops : List (Op Cell Content)} (h : Stages P c cells ops) : P (cells c) := by
  cases ops with
  | nil => exact h
  | cons op rest => exact h.1

theorem Stages.last {P : Content → Prop} {c : Cell} {cells : Cell → Content}
    {ops : List (Op Cell Content)} (h : Stages P c cells ops) : P (applyAll cells ops c) := by
  induction ops generalizing cells with
  | nil => exact h
  | cons op rest ih => exact ih h.2

theorem stages_snoc {P : Content → Prop} {c : Cell} {cells : Cell → Content}
    {ops : List (Op Cell Content)} {op : Op Cell Content} (h : Stages P c cells ops)
    (hlast : P (op.apply (applyAll cells ops) c)) : Stages P c cells (ops ++ [op]) := by
  induction ops generalizing cells with
  | nil => exact ⟨h, hlast⟩
  | cons first rest ih => exact ⟨h.1, ih h.2 hlast⟩

/-- `P` holds of the physical content of `c` now and until the queue has drained, torn states included. -/
structure Throughout (d : Device Cell Content) (P : Content → Prop) (c : Cell) : Prop where
  stages : Stages P c d.cells d.queue
  torn : ∀ content, d.torn = some content → P content

theorem Throughout.physical {d : Device Cell Content} {P : Content → Prop} {c : Cell}
    (h : d.Throughout P c) : P (d.physical c) := by
  unfold Device.physical
  split
  · next op rest content _ htorn =>
      split
      · exact h.torn content htorn
      · exact h.stages.head
  · exact h.stages.head

theorem Throughout.settled {d : Device Cell Content} {P : Content → Prop} {c : Cell}
    (h : d.Throughout P c) : P (d.settled c) :=
  h.stages.last

theorem Throughout.enqueue {d : Device Cell Content} {P : Content → Prop} {c : Cell}
    {op : Op Cell Content} (h : d.Throughout P c) (hlast : P (op.apply d.settled c)) :
    (d.enqueue op).Throughout P c :=
  ⟨stages_snoc h.stages hlast, h.torn⟩

theorem Throughout.finish {d d' : Device Cell Content} {P : Content → Prop} {c : Cell}
    (h : d.Throughout P c) (hfinish : d.finish = some d') : d'.Throughout P c := by
  obtain ⟨op, rest, hqueue, rfl⟩ := finish_eq_some hfinish
  have hstages := h.stages
  rw [hqueue] at hstages
  exact ⟨hstages.2, fun content htorn => by simp at htorn⟩

theorem Throughout.tear {d d' : Device Cell Content} {P : Content → Prop} {c : Cell}
    {content : Content} (h : d.Throughout P c) (hcontent : P content)
    (htear : d.tear content = some d') : d'.Throughout P c := by
  obtain ⟨_, rfl⟩ := tear_eq_some htear
  refine ⟨h.stages, fun other hother => ?_⟩
  obtain rfl := Option.some.inj hother
  exact hcontent

end Device

end Best1307.FlashQueue
