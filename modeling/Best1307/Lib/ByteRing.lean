import Best1307.Lib.SlotRing
import Best1307.Lib.WrapBuffer

/-!
# A log in a ring of cells

The entries of a log go to the cells of a ring one after the other, entry `k` to cell `k` modulo the size. The ring
holds the log from some entry on as long as no more than the size is written behind that entry.
-/

namespace Best1307.ByteRing

open SlotRing WrapBuffer

variable {α : Type*} {size lo pos i c x : Nat} {buf : Nat → α} {log data : List α}

theorem wrap_eq_mod (h : x < 2 * size) : (if size ≤ x then x - size else x) = x % size := by
  split
  case isTrue hge => rw [Nat.mod_eq_sub_mod hge, Nat.mod_eq_of_lt (by omega)]
  case isFalse hlt => rw [Nat.mod_eq_of_lt (by omega)]

/-- A copy to the ring, in two pieces where it reaches the end. -/
def copyIn (size pos : Nat) (data : List α) (buf : Nat → α) : Nat → α :=
  let first := if data.length ≤ size - pos then data.length else size - pos
  let buf := write buf pos (data.take first)
  if first < data.length then write buf 0 (data.drop first) else buf

theorem copyIn_apply_add (hpos : pos < size) (hlen : data.length ≤ size) (hi : i < data.length) :
    copyIn size pos data buf ((pos + i) % size) = data[i] := by
  have hcell : (pos + i) % size = if size ≤ pos + i then pos + i - size else pos + i :=
    (wrap_eq_mod (by omega)).symm
  rw [copyIn, hcell]
  by_cases hfit : data.length ≤ size - pos
  · have hin : ¬ size ≤ pos + i := by omega
    rw [if_neg hin, if_pos hfit, if_neg (Nat.lt_irrefl _), List.take_length]
    exact write_apply_add hi
  · have hmore : size - pos < data.length := by omega
    rw [if_neg hfit, if_pos hmore]
    split
    case isTrue hwrap =>
      have hdrop : pos + i - size < (data.drop (size - pos)).length := by
        rw [List.length_drop]
        omega
      have hcopy : write (write buf pos (data.take (size - pos))) 0 (data.drop (size - pos))
          (0 + (pos + i - size)) = _ := write_apply_add hdrop
      rw [Nat.zero_add, List.getElem_drop] at hcopy
      rw [hcopy]
      congr 1
      omega
    case isFalse hnot =>
      have htake : i < (data.take (size - pos)).length := by
        rw [List.length_take]
        omega
      rw [write_apply_of_not_mem (.inr (by rw [List.length_drop]; omega)), write_apply_add htake,
        List.getElem_take]

theorem copyIn_apply_of_ne (hpos : pos < size) (hlen : data.length ≤ size) (hc : c < size)
    (hne : ∀ i < data.length, (pos + i) % size ≠ c) : copyIn size pos data buf c = buf c := by
  have hcell (i : Nat) (hi : i < data.length) : (if size ≤ pos + i then pos + i - size else pos + i) ≠ c := by
    rw [wrap_eq_mod (by omega)]
    exact hne i hi
  -- the cell lies neither behind `pos` nor in what is copied to the head
  have hbehind : c < pos ∨ pos + min data.length (size - pos) ≤ c := by
    by_contra hin
    have := hcell (c - pos) (by omega)
    rw [if_neg (by omega)] at this
    omega
  have hhead : data.length ≤ size - pos ∨ pos + data.length - size ≤ c := by
    by_contra hin
    have := hcell (c + size - pos) (by omega)
    rw [if_pos (by omega)] at this
    omega
  rw [copyIn]
  by_cases hfit : data.length ≤ size - pos
  · rw [if_pos hfit, if_neg (Nat.lt_irrefl _), List.take_length]
    exact write_apply_of_not_mem (by omega)
  · rw [if_neg hfit, if_pos (by omega), write_apply_of_not_mem (.inr (by rw [List.length_drop]; omega)),
      write_apply_of_not_mem (by rw [List.length_take]; omega)]

/-- A copy from the ring, in two pieces where it goes past the end. -/
def copyOut (size pos n : Nat) (buf : Nat → α) : List α :=
  if pos + n ≤ size then read buf pos n else read buf pos (size - pos) ++ read buf 0 (n - (size - pos))

theorem copyOut_eq_map {n : Nat} (hpos : pos < size) (hn : n ≤ size) :
    copyOut size pos n buf = (List.range n).map fun i => buf ((pos + i) % size) := by
  have hnear : ∀ i, pos + i < size → (pos + i) % size = pos + i := fun i hi => Nat.mod_eq_of_lt hi
  rw [copyOut]
  split
  case isTrue hfit =>
    refine List.map_congr_left fun i hi => ?_
    rw [hnear i (by have := List.mem_range.mp hi; omega)]
  case isFalse hwrap =>
    have hsplit : n = (size - pos) + (n - (size - pos)) := by omega
    conv_rhs => rw [hsplit]
    rw [List.range_add, List.map_append, List.map_map]
    congr 1
    · refine List.map_congr_left fun i hi => ?_
      rw [hnear i (by have := List.mem_range.mp hi; omega)]
    · refine List.map_congr_left fun i hi => ?_
      have hi := List.mem_range.mp hi
      have hcell : pos + (size - pos + i) = size + i := by omega
      rw [Function.comp_apply, hcell, Nat.add_mod_left, Nat.mod_eq_of_lt (by omega), Nat.zero_add]

def Queued (size pos : Nat) (buf : Nat → α) (queue : List α) : Prop :=
  ∀ i (hi : i < queue.length), buf ((pos + i) % size) = queue[i]

namespace Queued

variable {queue : List α}

theorem copyIn (h : Queued size pos buf queue) (data : List α) (hsize : 0 < size)
    (hfit : queue.length + data.length ≤ size) :
    Queued size pos (copyIn size ((pos + queue.length) % size) data buf) (queue ++ data) := by
  intro i hi
  have hstart : (pos + queue.length) % size < size := Nat.mod_lt _ hsize
  have hmod (j : Nat) : ((pos + queue.length) % size + j) % size = (pos + (queue.length + j)) % size := by
    rw [Nat.mod_add_mod, Nat.add_assoc]
  rcases Nat.lt_or_ge i queue.length with hlt | hge
  · rw [copyIn_apply_of_ne hstart (by omega) (Nat.mod_lt _ hsize), h i hlt, List.getElem_append_left hlt]
    intro j hj
    rw [hmod]
    exact mod_ne (Nat.le_add_right pos _) (by omega) (Nat.le_add_right pos _) (by omega) (by omega)
  · obtain ⟨j, rfl⟩ := Nat.exists_eq_add_of_le hge
    rw [List.length_append] at hi
    rw [← hmod, copyIn_apply_add hstart (by omega) (by omega), List.getElem_append_right hge]
    exact getElem_congr_idx (Nat.add_sub_cancel_left ..).symm

theorem copyOut_eq (h : Queued size pos buf queue) {n : Nat} (hpos : pos < size) (hn : n ≤ queue.length)
    (hlen : queue.length ≤ size) : copyOut size pos n buf = queue.take n := by
  rw [copyOut_eq_map hpos (Nat.le_trans hn hlen)]
  refine List.ext_getElem ?_ fun i hi hi' => ?_
  · rw [List.length_map, List.length_range, List.length_take, Nat.min_eq_left hn]
  · rw [List.length_map, List.length_range] at hi
    rw [List.getElem_map, List.getElem_range, List.getElem_take]
    exact h i (Nat.lt_of_lt_of_le hi hn)

theorem drop (h : Queued size pos buf queue) (n : Nat) : Queued size ((pos + n) % size) buf (queue.drop n) := by
  intro i hi
  rw [List.length_drop] at hi
  rw [Nat.mod_add_mod, Nat.add_assoc, h (n + i) (by omega), List.getElem_drop]

end Queued

def Holds (size lo : Nat) (buf : Nat → α) (log : List α) : Prop :=
  ∀ k entry, lo ≤ k → log[k]? = some entry → buf (k % size) = entry

namespace Holds

theorem mono {lo' : Nat} (h : Holds size lo buf log) (hle : lo ≤ lo') : Holds size lo' buf log :=
  fun k entry hk => h k entry (Nat.le_trans hle hk)

/-- What is copied behind the log is held with it as long as it leaves the first entry held alone. -/
theorem copyIn (h : Holds size lo buf log) (data : List α) (hsize : 0 < size) (hlo : lo ≤ log.length)
    (hfit : log.length + data.length ≤ lo + size) :
    Holds size lo (copyIn size (log.length % size) data buf) (log ++ data) := by
  intro k entry hk hentry
  have hpos : log.length % size < size := Nat.mod_lt _ hsize
  have hmod (i : Nat) : (log.length % size + i) % size = (log.length + i) % size := Nat.mod_add_mod ..
  rcases Nat.lt_or_ge k log.length with hlt | hge
  · rw [List.getElem?_append_left hlt] at hentry
    rw [copyIn_apply_of_ne hpos (by omega) (Nat.mod_lt _ hsize), h k entry hk hentry]
    intro i hi
    rw [hmod]
    exact mod_ne (by omega) (by omega) hk (by omega) (by omega)
  · obtain ⟨i, rfl⟩ := Nat.exists_eq_add_of_le hge
    rw [List.getElem?_append_right hge, Nat.add_sub_cancel_left] at hentry
    obtain ⟨hi, rfl⟩ := List.getElem?_eq_some_iff.mp hentry
    rw [← hmod]
    exact copyIn_apply_add hpos (by omega) hi

theorem read (h : Holds size lo buf log) {k : Nat} (hk : lo ≤ k) :
    ((List.range (log.length - k)).map fun i => buf ((k + i) % size)) = log.drop k := by
  refine List.ext_getElem ?_ fun i hi hi' => ?_
  · rw [List.length_map, List.length_range, List.length_drop]
  · rw [List.length_drop] at hi'
    rw [List.getElem_map, List.getElem_range, List.getElem_drop]
    exact h _ _ (by omega) (List.getElem?_eq_getElem (by omega))

end Holds

end Best1307.ByteRing
