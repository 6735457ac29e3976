import Mathlib.Data.List.Basic

/-!
# Blocks in a linear buffer

A writer puts blocks of any length into one buffer, each in one piece: behind the last block, or at the start
of the buffer again when what is left at its end is too short. The blocks not yet taken out then lie in two
chains, each from low to high positions. As long as the positions are in order no two blocks overlap, and
writing behind a chain leaves its blocks alone.
-/

namespace Best1307.WrapBuffer

variable {α : Type*} {buf : Nat → α} {data data' : List α} {pos len : Nat}

/-! ### Cells -/

def read (buf : Nat → α) (pos len : Nat) : List α := (List.range len).map fun i => buf (pos + i)

def write (buf : Nat → α) (pos : Nat) (data : List α) : Nat → α :=
  fun i => if pos ≤ i then (data[i - pos]?).getD (buf i) else buf i

@[simp] theorem length_read : (read buf pos len).length = len := by
  rw [read, List.length_map, List.length_range]

theorem read_add (buf : Nat → α) (pos len len' : Nat) :
    read buf pos (len + len') = read buf pos len ++ read buf (pos + len) len' := by
  rw [read, List.range_add, List.map_append, List.map_map]
  refine congrArg (_ ++ ·) (List.map_congr_left fun i _ => ?_)
  rw [Function.comp_apply, Nat.add_assoc]

theorem write_apply_add {i : Nat} (hi : i < data.length) : write buf pos data (pos + i) = data[i] := by
  rw [write, if_pos (Nat.le_add_right pos i), Nat.add_sub_cancel_left, List.getElem?_eq_getElem hi,
    Option.getD_some]

theorem write_apply_of_not_mem {i : Nat} (h : i < pos ∨ pos + data.length ≤ i) :
    write buf pos data i = buf i := by
  rw [write]
  split
  · rw [List.getElem?_eq_none (by omega), Option.getD_none]
  · rfl

theorem read_write_self : read (write buf pos data) pos data.length = data := by
  refine List.ext_getElem (by rw [length_read]) fun i hi hi' => ?_
  simp only [read, List.getElem_map, List.getElem_range]
  exact write_apply_add hi'

theorem read_write_of_apart {start : Nat} (h : start + len ≤ pos ∨ pos + data.length ≤ start) :
    read (write buf pos data) start len = read buf start len := by
  refine List.map_congr_left fun i hi => ?_
  rw [List.mem_range] at hi
  exact write_apply_of_not_mem (by omega)

theorem read_write_read {buf' : Nat → α} : read (write buf 0 (read buf' pos len)) 0 len = read buf' pos len := by
  have hself := @read_write_self α buf (read buf' pos len) 0
  rwa [length_read] at hself

theorem read_write_behind {buf' : Nat → α} {n : Nat} :
    read (write buf len (read buf' 0 n)) 0 (len + n) = read buf 0 len ++ read buf' 0 n := by
  have hself := @read_write_self α buf (read buf' 0 n) len
  rw [length_read] at hself
  rw [read_add, Nat.zero_add, hself, read_write_of_apart (.inl (Nat.le_of_eq (Nat.zero_add len)))]

theorem read_split {n : Nat} (h : n ≤ len) : read buf 0 len = read buf 0 n ++ read buf n (len - n) := by
  have hlen : n + (len - n) = len := Nat.add_sub_cancel' h
  have hread := read_add buf 0 n (len - n)
  rwa [hlen, Nat.zero_add] at hread

theorem write_write : write (write buf pos data) (pos + data.length) data' = write buf pos (data ++ data') := by
  funext i
  rcases Nat.lt_or_ge i pos with hlo | hlo
  · rw [write_apply_of_not_mem (.inl (by omega)), write_apply_of_not_mem (.inl hlo),
      write_apply_of_not_mem (.inl hlo)]
  obtain ⟨k, rfl⟩ := Nat.exists_eq_add_of_le hlo
  rcases Nat.lt_or_ge k data.length with hk | hk
  · rw [write_apply_of_not_mem (.inl (by omega)), write_apply_add hk,
      write_apply_add (by rw [List.length_append]; omega), List.getElem_append_left hk]
  obtain ⟨m, rfl⟩ := Nat.exists_eq_add_of_le hk
  rw [← Nat.add_assoc]
  rcases Nat.lt_or_ge m data'.length with hm | hm
  · rw [write_apply_add hm, Nat.add_assoc, write_apply_add (by rw [List.length_append]; omega),
      List.getElem_append_right hk]
    simp only [Nat.add_sub_cancel_left]
  · rw [write_apply_of_not_mem (.inr (by omega)), write_apply_of_not_mem (.inr (by omega)),
      write_apply_of_not_mem (.inr (by rw [List.length_append]; omega))]

theorem write_take_drop {n : Nat} (h : n ≤ data.length) :
    write (write buf pos (data.take n)) (pos + n) (data.drop n) = write buf pos data := by
  have hwrite := @write_write α buf (data.take n) (data.drop n) pos
  rwa [List.length_take_of_le h, List.take_append_drop] at hwrite

theorem write_take_drop_drop {n m : Nat} (h : n + m ≤ data.length) :
    write (write (write buf pos (data.take n)) (pos + n) ((data.drop n).take m)) (pos + n + m) (data.drop (n + m)) =
      write buf pos data := by
  have hfirst := @write_take_drop α buf (data.take (n + m)) pos n (by rw [List.length_take]; omega)
  rw [List.take_take, Nat.min_eq_left (Nat.le_add_right n m), List.drop_take, Nat.add_sub_cancel_left] at hfirst
  rw [hfirst, Nat.add_assoc, write_take_drop h]

theorem read_write_inside {i : Nat} (h : i + len ≤ data.length) :
    read (write buf pos data) (pos + i) len = (data.drop i).take len := by
  refine List.ext_getElem ?_ fun k hk hk' => ?_
  · rw [length_read, List.length_take, List.length_drop]
    omega
  · rw [length_read] at hk
    simp only [read, List.getElem_map, List.getElem_range, List.getElem_take, List.getElem_drop, Nat.add_assoc]
    exact write_apply_add (by omega)

theorem write_inside {i : Nat} (h : i + data'.length ≤ data.length) :
    write (write buf pos data) (pos + i) data' =
      write buf pos (data.take i ++ data' ++ data.drop (i + data'.length)) := by
  have htake : (data.take i).length = i := List.length_take_of_le (by omega)
  have hlen : (data.take i ++ data' ++ data.drop (i + data'.length)).length = data.length := by
    rw [List.length_append, List.length_append, htake, List.length_drop]
    omega
  funext c
  rcases Nat.lt_or_ge c pos with hbelow | hin
  · rw [write_apply_of_not_mem (.inl (by omega)), write_apply_of_not_mem (.inl hbelow),
      write_apply_of_not_mem (.inl hbelow)]
  obtain ⟨k, rfl⟩ := Nat.exists_eq_add_of_le hin
  rcases Nat.lt_or_ge k i with hhead | htail
  · rw [write_apply_of_not_mem (.inl (by omega)), write_apply_add (by omega), write_apply_add (by omega),
      List.getElem_append_left (by rw [List.length_append]; omega), List.getElem_append_left (by omega),
      List.getElem_take]
  obtain ⟨m, rfl⟩ := Nat.exists_eq_add_of_le htail
  rcases Nat.lt_or_ge m data'.length with hmid | hrest
  · rw [← Nat.add_assoc, write_apply_add hmid, Nat.add_assoc, write_apply_add (by omega),
      List.getElem_append_left (by rw [List.length_append]; omega), List.getElem_append_right (by omega)]
    simp only [htake, Nat.add_sub_cancel_left]
  · rw [write_apply_of_not_mem (.inr (by omega))]
    rcases Nat.lt_or_ge (i + m) data.length with hall | hbehind
    · rw [write_apply_add hall, write_apply_add (by omega),
        List.getElem_append_right (by rw [List.length_append]; omega), List.getElem_drop]
      congr 1
      rw [List.length_append, htake]
      omega
    · rw [write_apply_of_not_mem (.inr (by omega)), write_apply_of_not_mem (.inr (by omega))]

theorem write_read_self : write buf pos (read buf pos len) = buf := by
  funext i
  rcases Nat.lt_or_ge i pos with hbelow | hin
  · exact write_apply_of_not_mem (.inl hbelow)
  obtain ⟨k, rfl⟩ := Nat.exists_eq_add_of_le hin
  rcases Nat.lt_or_ge k len with hk | hk
  · rw [write_apply_add (by rw [length_read]; exact hk)]
    simp only [read, List.getElem_map, List.getElem_range]
  · exact write_apply_of_not_mem (.inr (by rw [length_read]; omega))

@[simp] theorem write_nil : write buf pos [] = buf := by
  funext i
  exact write_apply_of_not_mem (by rw [List.length_nil]; omega)

/-! ### Blocks -/

structure Block (α : Type*) where
  pos : Nat
  data : List α
  deriving DecidableEq

namespace Block

variable {b c : Block α}

def fin (b : Block α) : Nat := b.pos + b.data.length

def Stored (buf : Nat → α) (b : Block α) : Prop := read buf b.pos b.data.length = b.data

def Apart (b c : Block α) : Prop := b.fin ≤ c.pos ∨ c.fin ≤ b.pos

theorem stored_write (buf : Nat → α) (b : Block α) : b.Stored (write buf b.pos b.data) := read_write_self

/-- A block is still stored after one that lies apart has been written. -/
theorem Stored.write (h : b.Stored buf) (hapart : Apart b c) : b.Stored (write buf c.pos c.data) :=
  (read_write_of_apart hapart).trans h

end Block

def endOf : Nat → List (Block α) → Nat
  | e, [] => e
  | _, b :: blocks => endOf b.fin blocks

theorem endOf_append (e : Nat) (blocks blocks' : List (Block α)) :
    endOf e (blocks ++ blocks') = endOf (endOf e blocks) blocks' := by
  induction blocks generalizing e with
  | nil => rfl
  | cons c blocks ih => exact ih c.fin

theorem endOf_take_succ {e i : Nat} {blocks : List (Block α)} (hi : i < blocks.length) :
    endOf e (blocks.take (i + 1)) = blocks[i].fin := by
  rw [List.take_succ_eq_append_getElem hi, endOf_append]
  rfl

theorem endOf_eq_getElem {e i : Nat} {blocks : List (Block α)} (h : blocks.length = i + 1) :
    endOf e blocks = (blocks[i]).fin := by
  rw [← endOf_take_succ (e := e), ← h, List.take_length]

def firstPos : List (Block α) → Nat
  | [] => 0
  | b :: _ => b.pos

theorem getElem_zero_pos {blocks : List (Block α)} (h : 0 < blocks.length) : blocks[0].pos = firstPos blocks := by
  cases blocks with
  | nil => exact absurd h (Nat.lt_irrefl 0)
  | cons b blocks => rfl

theorem firstPos_append {blocks blocks' : List (Block α)} (h : blocks ≠ []) :
    firstPos (blocks ++ blocks') = firstPos blocks := by
  cases blocks with
  | nil => exact absurd rfl h
  | cons b blocks => rfl

/-! ### Chains -/

/-- The blocks lie one behind the other between `lo` and `hi`, possibly with gaps. -/
def Chain : Nat → Nat → List (Block α) → Prop
  | lo, hi, [] => lo ≤ hi
  | lo, hi, b :: blocks => lo ≤ b.pos ∧ Chain b.fin hi blocks

namespace Chain

variable {lo lo' mid hi hi' : Nat} {b : Block α} {blocks blocks' : List (Block α)}

theorem le (h : Chain lo hi blocks) : lo ≤ hi := by
  induction blocks generalizing lo with
  | nil => exact h
  | cons b blocks ih => exact Nat.le_trans (Nat.le_trans h.1 (Nat.le_add_right _ _)) (ih h.2)

theorem mono (h : Chain lo hi blocks) (hlo : lo' ≤ lo) (hhi : hi ≤ hi') : Chain lo' hi' blocks := by
  induction blocks generalizing lo lo' with
  | nil => exact Nat.le_trans hlo (Nat.le_trans h hhi)
  | cons b blocks ih => exact ⟨Nat.le_trans hlo h.1, ih h.2 (Nat.le_refl _)⟩

theorem mem (h : Chain lo hi blocks) (hb : b ∈ blocks) : lo ≤ b.pos ∧ b.fin ≤ hi := by
  induction blocks generalizing lo with
  | nil => exact absurd hb List.not_mem_nil
  | cons c blocks ih =>
      rcases List.mem_cons.mp hb with rfl | hb
      · exact ⟨h.1, h.2.le⟩
      · obtain ⟨hpos, hfin⟩ := ih h.2 hb
        exact ⟨Nat.le_trans (Nat.le_trans h.1 (Nat.le_add_right _ _)) hpos, hfin⟩

theorem pairwise (h : Chain lo hi blocks) : blocks.Pairwise Block.Apart := by
  induction blocks generalizing lo with
  | nil => exact List.Pairwise.nil
  | cons b blocks ih => exact List.Pairwise.cons (fun c hc => .inl (h.2.mem hc).1) (ih h.2)

theorem concat (h : Chain lo mid blocks) (hpos : mid ≤ b.pos) (hfin : b.fin ≤ hi) :
    Chain lo hi (blocks ++ [b]) := by
  induction blocks generalizing lo with
  | nil => exact ⟨Nat.le_trans h hpos, hfin⟩
  | cons c blocks ih => exact ⟨h.1, ih h.2⟩

theorem endOf_le (h : Chain lo hi blocks) : lo ≤ endOf lo blocks ∧ endOf lo blocks ≤ hi := by
  induction blocks generalizing lo with
  | nil => exact ⟨Nat.le_refl lo, h⟩
  | cons b blocks ih =>
      obtain ⟨hlo, hhi⟩ := ih h.2
      exact ⟨Nat.le_trans (Nat.le_trans h.1 (Nat.le_add_right _ _)) hlo, hhi⟩

theorem below_endOf (h : Chain lo hi blocks) : Chain lo (endOf lo blocks) blocks := by
  induction blocks generalizing lo with
  | nil => exact Nat.le_refl lo
  | cons b blocks ih => exact ⟨h.1, ih h.2⟩

theorem trim (h : Chain lo hi blocks) : Chain (firstPos blocks) (endOf (firstPos blocks) blocks) blocks := by
  cases blocks with
  | nil => exact Nat.le_refl 0
  | cons b blocks => exact ⟨Nat.le_refl _, h.2.below_endOf⟩

end Chain

theorem Chain.apart {lo hi lo' hi' : Nat} {blocks blocks' : List (Block α)} (h : Chain lo hi blocks)
    (h' : Chain lo' hi' blocks') (hbelow : hi' ≤ lo) {b c : Block α} (hb : b ∈ blocks) (hc : c ∈ blocks') :
    Block.Apart b c :=
  .inr (Nat.le_trans (Nat.le_trans (h'.mem hc).2 hbelow) (h.mem hb).1)

end Best1307.WrapBuffer
