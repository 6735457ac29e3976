import Mathlib.Data.List.InsertIdx
import Mathlib.Data.List.Nodup
import Mathlib.Data.List.Perm.Basic

/-!
# Lists kept in a fixed array

A list that lives in the first slots of an array of fixed size, kept by copying slots one by one. An index
outside the array is a failure. The two loops that open and close a gap are described slot by slot first;
together with the write that fills the end left over they move one element of the list.
-/

namespace Best1307.SlotArray

variable {α κ : Type*} {n : Nat}

def writeSlot (slots : Vector α n) (i : Nat) (x : α) : Option (Vector α n) :=
  if h : i < n then some (slots.set i x h) else none

def copySlot (slots : Vector α n) (dst src : Nat) : Option (Vector α n) :=
  slots[src]?.bind fun x => writeSlot slots dst x

def updateSlot (slots : Vector α n) (i : Nat) (f : α → α) : Option (Vector α n) :=
  slots[i]?.bind fun x => writeSlot slots i (f x)

/-- For `k` from zero to `count - 1`: slot `top - k` becomes slot `top - 1 - k`. -/
def moveUp (top count : Nat) (slots : Vector α n) : Option (Vector α n) :=
  (List.range count).foldlM (fun slots k => copySlot slots (top - k) (top - 1 - k)) slots

/-- For `k` from zero to `count - 1`: slot `bottom + k` becomes slot `bottom + 1 + k`. -/
def moveDown (bottom count : Nat) (slots : Vector α n) : Option (Vector α n) :=
  (List.range count).foldlM (fun slots k => copySlot slots (bottom + k) (bottom + 1 + k)) slots

/-- The slots behind slot `i` moved onto those from slot `i` on, all at once; the last one stays as it was. -/
def shiftDown (slots : Vector α n) (i : Nat) : Vector α n :=
  Vector.ofFn fun j => if h : i ≤ j.val ∧ j.val + 1 < n then slots[j.val + 1] else slots[j.val]

/-- The first of `left` slots from `i` on that satisfies `p`. -/
def findSlot (p : α → Bool) (slots : Vector α n) : Nat → Nat → Option (Option Nat)
  | 0, _ => some none
  | left + 1, i => slots[i]?.bind fun x => if p x then some (some i) else findSlot p slots left (i + 1)

theorem writeSlot_of_lt {slots : Vector α n} {i : Nat} (h : i < n) (x : α) :
    writeSlot slots i x = some (slots.set i x h) :=
  dif_pos h

theorem copySlot_of_lt {slots : Vector α n} {dst src : Nat} (hdst : dst < n) (hsrc : src < n) :
    copySlot slots dst src = some (slots.set dst slots[src] hdst) := by
  rw [copySlot, Vector.getElem?_eq_getElem hsrc, Option.bind_some, writeSlot_of_lt hdst]

theorem updateSlot_of_lt {slots : Vector α n} {i : Nat} (h : i < n) (f : α → α) :
    updateSlot slots i f = some (slots.set i (f slots[i]) h) := by
  rw [updateSlot, Vector.getElem?_eq_getElem h, Option.bind_some, writeSlot_of_lt h]

/-! ### The loops, slot by slot -/

theorem moveUp_spec {top count : Nat} (slots : Vector α n) (hcount : count ≤ top) (htop : top < n) :
    ∃ moved, moveUp top count slots = some moved ∧
      ∀ i (hi : i < n), moved[i] = if top - count < i ∧ i ≤ top then slots[i - 1] else slots[i] := by
  induction count with
  | zero => exact ⟨slots, rfl, fun i hi => (if_neg (by omega)).symm⟩
  | succ count ih =>
      obtain ⟨moved, hmoved, hslot⟩ := ih (by omega)
      refine ⟨moved.set (top - count) moved[top - 1 - count], ?_, fun i hi => ?_⟩
      · rw [moveUp, List.range_succ, List.foldlM_append]
        change (moveUp top count slots).bind _ = _
        rw [hmoved, Option.bind_some, List.foldlM_cons,
          copySlot_of_lt (by omega) (by omega)]
        rfl
      · rw [Vector.getElem_set]
        split
        · next heq =>
            subst heq
            rw [hslot _ (by omega), if_neg (by omega), if_pos (by omega)]
            congr 1
            omega
        · next hne =>
            rw [hslot i hi]
            exact if_congr (by omega) rfl rfl

theorem moveDown_spec {bottom count : Nat} (slots : Vector α n) (h : bottom + count < n) :
    ∃ moved, moveDown bottom count slots = some moved ∧
      ∀ i (hi : i < n), moved[i] =
        if hin : bottom ≤ i ∧ i < bottom + count then slots[i + 1] else slots[i] := by
  induction count with
  | zero => exact ⟨slots, rfl, fun i hi => by rw [dif_neg (by omega)]⟩
  | succ count ih =>
      obtain ⟨moved, hmoved, hslot⟩ := ih (by omega)
      refine ⟨moved.set (bottom + count) moved[bottom + 1 + count], ?_, fun i hi => ?_⟩
      · rw [moveDown, List.range_succ, List.foldlM_append]
        change (moveDown bottom count slots).bind _ = _
        rw [hmoved, Option.bind_some, List.foldlM_cons,
          copySlot_of_lt (by omega) (by omega)]
        rfl
      · rw [Vector.getElem_set]
        split
        · next heq =>
            subst heq
            rw [hslot _ (by omega), dif_neg (by omega), dif_pos (by omega)]
            congr 1
            omega
        · next hne =>
            rw [hslot i hi]
            split
            · rw [dif_pos (by omega)]
            · rw [dif_neg (by omega)]

theorem findSlot_spec (p : α → Bool) (slots : Vector α n) {left i : Nat} (h : i + left ≤ n) :
    findSlot p slots left i =
      some ((((slots.toList.drop i).take left).findIdx? p).map fun k => k + i) := by
  induction left generalizing i with
  | zero => simp [findSlot]
  | succ left ih =>
      have hi : i < slots.toList.length := by rw [Vector.length_toList]; omega
      rw [findSlot, Vector.getElem?_eq_getElem (by omega), Option.bind_some,
        List.drop_eq_getElem_cons hi, List.take_succ_cons, List.findIdx?_cons, ih (by omega)]
      simp only [Vector.getElem_toList]
      split
      · simp
      · simp only [Option.map_map, Option.some.injEq]
        congr 1
        funext k
        simp only [Function.comp_apply]
        omega

/-! ### One element moves -/

def relocate (l : List α) (src dst : Nat) (x : α) : List α := (l.eraseIdx src).insertIdx dst x

theorem length_relocate {l : List α} {src dst : Nat} (hsrc : src < l.length) (hdst : dst < l.length) (x : α) :
    (relocate l src dst x).length = l.length := by
  have hlen : (l.eraseIdx src).length = l.length - 1 := List.length_eraseIdx_of_lt hsrc
  rw [relocate, List.length_insertIdx_of_le_length (by omega), hlen]
  omega

theorem toList_moveUp_set {lo hi : Nat} {slots moved : Vector α n} (hlo : lo ≤ hi) (hhi : hi < n)
    (h : moveUp hi (hi - lo) slots = some moved) (x : α) :
    (moved.set lo x (by omega)).toList = relocate slots.toList hi lo x := by
  obtain ⟨moved', hmoved, hslot⟩ := moveUp_spec slots (Nat.sub_le hi lo) hhi
  obtain rfl := Option.some.inj (hmoved.symm.trans h)
  have hlen : slots.toList.length = n := Vector.length_toList
  refine List.ext_getElem ?_ fun i hi₁ hi₂ => ?_
  · rw [length_relocate (by omega) (by omega), hlen, Vector.length_toList]
  · rw [Vector.length_toList] at hi₁
    simp only [relocate, Vector.getElem_toList, Vector.getElem_set, List.getElem_insertIdx,
      List.getElem_eraseIdx, hslot]
    grind

theorem toList_moveDown_set {lo hi : Nat} {slots moved : Vector α n} (hlo : lo ≤ hi) (hhi : hi < n)
    (h : moveDown lo (hi - lo) slots = some moved) (x : α) :
    (moved.set hi x hhi).toList = relocate slots.toList lo hi x := by
  obtain ⟨moved', hmoved, hslot⟩ := moveDown_spec slots (show lo + (hi - lo) < n by omega)
  obtain rfl := Option.some.inj (hmoved.symm.trans h)
  have hlen : slots.toList.length = n := Vector.length_toList
  refine List.ext_getElem ?_ fun i hi₁ hi₂ => ?_
  · rw [length_relocate (by omega) (by omega), hlen, Vector.length_toList]
  · rw [Vector.length_toList] at hi₁
    simp only [relocate, Vector.getElem_toList, Vector.getElem_set, List.getElem_insertIdx,
      List.getElem_eraseIdx, hslot]
    grind

theorem relocate_zero (l : List α) (src : Nat) (x : α) : relocate l src 0 x = x :: l.eraseIdx src := by
  rw [relocate, List.insertIdx_zero]

/-! ### The list in the first slots -/

def listed (slots : Vector α n) (num : Nat) : List α := slots.toList.take num

theorem length_listed (slots : Vector α n) {num : Nat} (h : num ≤ n) : (listed slots num).length = num := by
  rw [listed, List.length_take, Vector.length_toList]
  exact Nat.min_eq_left h

theorem getElem_listed (slots : Vector α n) {num i : Nat} (hi : i < (listed slots num).length)
    (hslots : i < n) : slots[i] = (listed slots num)[i] := by
  simp only [listed, List.getElem_take, Vector.getElem_toList]

theorem slot_eq_listed (slots : Vector α n) {num i : Nat} (hi : i < (listed slots num).length) :
    slots[i]? = some (listed slots num)[i] := by
  have hslots : i < n := by
    rw [listed, List.length_take, Vector.length_toList] at hi
    omega
  rw [Vector.getElem?_eq_getElem hslots, getElem_listed slots hi hslots]

theorem listed_set (slots : Vector α n) {i : Nat} (hi : i < n) (num : Nat) (x : α) :
    listed (slots.set i x hi) num = (listed slots num).set i x := by
  rw [listed, Vector.toList_set, List.take_set, listed]

/-- A new head: the gap is opened where the list ends, and the list grows by it. -/
theorem listed_push {slots moved : Vector α n} {num : Nat} (hnum : num < n)
    (h : moveUp num num slots = some moved) (x : α) :
    listed (moved.set 0 x (by omega)) (num + 1) = x :: listed slots num := by
  rw [listed, toList_moveUp_set (Nat.zero_le num) hnum h, relocate_zero,
    List.take_succ_cons, List.take_eraseIdx_eq_take_of_le _ _ _ (Nat.le_refl _), listed]

private theorem take_relocate {l : List α} {src dst m : Nat} (hsrc : src < m) (hdst : dst < m)
    (hm : m ≤ l.length) (x : α) : (relocate l src dst x).take m = relocate (l.take m) src dst x := by
  have hlen : (l.take m).length = m := List.length_take_of_le hm
  refine List.ext_getElem ?_ fun i hi₁ hi₂ => ?_
  · rw [List.length_take, length_relocate (by omega) (by omega), length_relocate (by omega) (by omega),
      List.length_take]
  · simp only [relocate, List.getElem_take, List.getElem_insertIdx, List.getElem_eraseIdx]

theorem listed_moveUp_set {lo hi num : Nat} {slots moved : Vector α n} (hlo : lo ≤ hi) (hhi : hi < num)
    (hnum : num ≤ n) (h : moveUp hi (hi - lo) slots = some moved) (x : α) :
    listed (moved.set lo x (by omega)) num = relocate (listed slots num) hi lo x := by
  rw [listed, toList_moveUp_set hlo (by omega) h, take_relocate hhi (by omega) (by simpa using hnum)]
  rfl

theorem listed_moveDown_set {lo hi num : Nat} {slots moved : Vector α n} (hlo : lo ≤ hi) (hhi : hi < num)
    (hnum : num ≤ n) (h : moveDown lo (hi - lo) slots = some moved) (x : α) :
    listed (moved.set hi x (by omega)) num = relocate (listed slots num) lo hi x := by
  rw [listed, toList_moveDown_set hlo (by omega) h,
    take_relocate (by omega) hhi (by simpa using hnum)]
  rfl

theorem listed_erase {src num : Nat} {slots moved : Vector α n} (hsrc : src < num) (hnum : num ≤ n)
    (h : moveDown src (num - 1 - src) slots = some moved) (x : α) :
    listed (moved.set (num - 1) x (by omega)) (num - 1) = (listed slots num).eraseIdx src := by
  rw [listed, toList_moveDown_set (by omega) (by omega) h, relocate,
    List.take_insertIdx_eq_take_of_le _ _ _ _ (Nat.le_refl _)]
  have hlen := @Vector.length_toList _ _ slots
  refine List.ext_getElem ?_ fun i hi₁ hi₂ => ?_
  · rw [List.length_take, List.length_eraseIdx_of_lt (by omega),
      List.length_eraseIdx_of_lt (by rw [length_listed slots hnum]; exact hsrc), length_listed slots hnum]
    omega
  · simp only [listed, List.getElem_take, List.getElem_eraseIdx]

theorem listed_concat (slots : Vector α n) {num : Nat} (hnum : num < n) (x : α) :
    listed (slots.set num x hnum) (num + 1) = listed slots num ++ [x] := by
  have hlen : num < (slots.toList.set num x).length := by
    rw [List.length_set, Vector.length_toList]
    exact hnum
  rw [listed, Vector.toList_set, List.take_succ_eq_append_getElem hlen, List.getElem_set_self,
    List.take_set_of_le (Nat.le_refl num), listed]

theorem getElem_shiftDown_last (slots : Vector α n) (i : Nat) {j : Nat} (hj : j < n) (hlast : n ≤ j + 1) :
    (shiftDown slots i)[j] = slots[j] := by
  rw [shiftDown, Vector.getElem_ofFn, dif_neg fun h => Nat.not_lt.mpr hlast h.2]

/-- The gap is closed by moving all slots behind it. -/
theorem listed_shiftDown (slots : Vector α n) {i num : Nat} (hi : i < num) (hnum : num ≤ n) :
    listed (shiftDown slots i) (num - 1) = (listed slots num).eraseIdx i := by
  have hlen : ((listed slots num).eraseIdx i).length = num - 1 := by
    rw [List.length_eraseIdx_of_lt (by rw [length_listed slots hnum]; exact hi), length_listed slots hnum]
  refine List.ext_getElem ?_ fun j hj hj' => ?_
  · rw [hlen, length_listed _ (by omega)]
  · rw [hlen] at hj'
    simp only [listed, List.getElem_take, Vector.getElem_toList, shiftDown, Vector.getElem_ofFn, List.getElem_eraseIdx]
    by_cases hbefore : j < i
    · rw [dif_pos hbefore, dif_neg (by omega)]
    · rw [dif_neg hbefore, dif_pos ⟨by omega, by omega⟩]

theorem listed_shiftDown_set (slots : Vector α n) {i num : Nat} (hi : i < num) (hnum : num ≤ n) (x : α) :
    listed (shiftDown (slots.set i x (by omega)) i) (num - 1) = (listed slots num).eraseIdx i := by
  rw [listed_shiftDown _ hi hnum, listed_set, List.eraseIdx_set_eq]

theorem listed_set_last (slots : Vector α n) {i : Nat} (hi : i < n) (x : α) :
    listed (slots.set i x hi) i = (listed slots (i + 1)).eraseIdx i := by
  rw [listed, Vector.toList_set, List.take_set_of_le (Nat.le_refl i), listed, List.eraseIdx_eq_take_drop_succ,
    List.take_take, Nat.min_eq_left (Nat.le_succ i), List.drop_take_self, List.append_nil]

/-! ### Elements with distinct keys -/

variable (key : α → κ)

theorem eraseIdx_eq_filter [DecidableEq κ] {l : List α} (h : (l.map key).Nodup) {i : Nat} (hi : i < l.length) :
    l.eraseIdx i = l.filter fun x => key x ≠ key l[i] := by
  induction l generalizing i with
  | nil => simp at hi
  | cons first rest ih =>
      obtain ⟨hfirst, hrest⟩ := List.nodup_cons.mp h
      cases i with
      | zero =>
          have hall : ∀ x ∈ rest, decide (key x ≠ key first) = true := by
            intro x hx
            refine decide_eq_true fun heq => hfirst ?_
            rw [← heq]
            exact List.mem_map_of_mem hx
          change rest = (first :: rest).filter _
          rw [List.filter_cons, if_neg (by simp)]
          exact (List.filter_eq_self.mpr hall).symm
      | succ i =>
          have hi' : i < rest.length := by simpa using hi
          have hne : key first ≠ key rest[i] := by
            intro heq
            exact hfirst (heq ▸ List.mem_map_of_mem (List.getElem_mem hi'))
          simp [hne, ih hrest hi']

theorem relocate_perm {l : List α} {src dst : Nat} (hsrc : src < l.length) (hdst : dst < l.length)
    (x : α) : (relocate l src dst x).Perm (x :: l.eraseIdx src) :=
  List.perm_insertIdx x _ (by rw [List.length_eraseIdx_of_lt hsrc]; omega)

/-- Moving an element, and changing it otherwise than in its key, keeps the keys distinct. -/
theorem nodup_relocate {l : List α} (h : (l.map key).Nodup) {src dst : Nat} (hsrc : src < l.length)
    (hdst : dst < l.length) {x : α} (hx : key x = key l[src]) : ((relocate l src dst x).map key).Nodup := by
  rw [((relocate_perm hsrc hdst x).map key).nodup_iff, List.map_cons, hx, ← List.map_cons]
  exact ((List.getElem_cons_eraseIdx_perm hsrc).map key).nodup_iff.mpr h

theorem filter_insertIdx {p : α → Bool} {x : α} (hx : p x = false) (l : List α) (i : Nat) :
    (l.insertIdx i x).filter p = l.filter p := by
  induction l generalizing i with
  | nil => cases i <;> simp [hx]
  | cons first rest ih =>
      cases i with
      | zero => rw [List.insertIdx_zero, List.filter_cons, if_neg (by simp [hx])]
      | succ i => rw [List.insertIdx_succ_cons, List.filter_cons, List.filter_cons, ih]

/-- The elements of other keys neither move among themselves nor change. -/
theorem filter_relocate [DecidableEq κ] {l : List α} (h : (l.map key).Nodup) {src : Nat}
    (hsrc : src < l.length) (dst : Nat) {x : α} (hx : key x = key l[src]) :
    (relocate l src dst x).filter (fun y => key y ≠ key l[src]) =
      l.filter fun y => key y ≠ key l[src] := by
  rw [relocate, filter_insertIdx (by simp [hx]), eraseIdx_eq_filter key h hsrc, List.filter_filter]
  simp only [Bool.and_self]

theorem getElem?_relocate {l : List α} {src dst : Nat} (hsrc : src < l.length) (hdst : dst < l.length)
    (x : α) : (relocate l src dst x)[dst]? = some x := by
  have hlen : (l.eraseIdx src).length = l.length - 1 := List.length_eraseIdx_of_lt hsrc
  have hle : dst ≤ (l.eraseIdx src).length := by omega
  have hin : dst < (relocate l src dst x).length := by
    rw [relocate, List.length_insertIdx_of_le_length hle]
    omega
  rw [List.getElem?_eq_getElem hin]
  exact congrArg some (List.getElem_insertIdx_self hin)

theorem eq_getElem_of_key {l : List α} (h : (l.map key).Nodup) {x : α} (hx : x ∈ l) {i : Nat}
    (hi : i < l.length) (hkey : key x = key l[i]) : x = l[i] :=
  List.inj_on_of_nodup_map h hx (List.getElem_mem hi) hkey

/-- The search for a key finds the place of its element, or there is none. -/
theorem findSlot_cases [BEq κ] [LawfulBEq κ] (slots : Vector α n) {num : Nat} (hnum : num ≤ n) (k : κ) :
    (findSlot (fun x => key x == k) slots num 0 = some none ∧ ∀ x ∈ listed slots num, key x ≠ k) ∨
      ∃ i, ∃ hi : i < (listed slots num).length,
        findSlot (fun x => key x == k) slots num 0 = some (some i) ∧ key (listed slots num)[i] = k := by
  have hsearch : findSlot (fun x => key x == k) slots num 0 =
      some ((listed slots num).findIdx? fun x => key x == k) := by
    rw [findSlot_spec _ _ (by omega)]
    simp [listed]
  rw [hsearch]
  rcases hfind : (listed slots num).findIdx? fun x => key x == k with _ | i
  · left
    refine ⟨rfl, fun x hx => ?_⟩
    simpa using List.findIdx?_eq_none_iff.mp hfind x hx
  · right
    obtain ⟨hi, hhit, _⟩ := List.findIdx?_eq_some_iff_getElem.mp hfind
    exact ⟨i, hi, rfl, by simpa using hhit⟩

theorem listed_update [DecidableEq κ] {slots : Vector α n} {num i : Nat} (hnum : num ≤ n)
    (h : ((listed slots num).map key).Nodup) (hi : i < (listed slots num).length) (hslots : i < n)
    {k : κ} (hk : key (listed slots num)[i] = k) (f : α → α) :
    listed (slots.set i (f slots[i]) hslots) num =
      (listed slots num).map fun x => if key x = k then f x else x := by
  refine List.ext_getElem ?_ fun j hj₁ hj₂ => ?_
  · rw [List.length_map, length_listed _ hnum, length_listed _ hnum]
  · rw [List.length_map] at hj₂
    have hj : j < n := by
      rw [length_listed _ hnum] at hj₂
      omega
    rw [← getElem_listed _ hj₁ hj, List.getElem_map, Vector.getElem_set]
    by_cases hij : i = j
    · subst hij
      rw [if_pos rfl, if_pos hk, getElem_listed _ hi hj]
    · have hother : key (listed slots num)[j] ≠ k := by
        intro hsame
        have := (List.Nodup.getElem_inj_iff (List.Nodup.of_map _ h)).mp
          (eq_getElem_of_key key h (List.getElem_mem hj₂) hi (hsame.trans hk.symm))
        omega
      rw [if_neg hij, if_neg hother, getElem_listed _ hj₂ hj]

/-- A new key is put in front, and the last entry goes if there is no room. -/
theorem nodup_map_push {l : List α} {x : α} {full : Prop} [Decidable full] (h : (l.map key).Nodup)
    (habsent : ∀ y ∈ l, key y ≠ key x) : ((x :: if full then l.dropLast else l).map key).Nodup := by
  have hsublist : (if full then l.dropLast else l).Sublist l := by
    split
    · exact List.dropLast_sublist l
    · exact List.Sublist.refl l
  rw [List.map_cons, List.nodup_cons]
  refine ⟨fun hmem => ?_, h.sublist (hsublist.map key)⟩
  obtain ⟨y, hy, heq⟩ := List.mem_map.mp hmem
  exact habsent y (hsublist.subset hy) heq

theorem nodup_map_update [DecidableEq κ] {l : List α} (h : (l.map key).Nodup) {f : α → α}
    (hf : ∀ x, key (f x) = key x) (k : κ) :
    ((l.map fun x => if key x = k then f x else x).map key).Nodup := by
  rw [List.map_map]
  have hsame : key ∘ (fun x => if key x = k then f x else x) = key := by
    funext x
    simp only [Function.comp_apply]
    split
    · exact hf x
    · rfl
  rw [hsame]
  exact h

theorem find?_eq_getElem [BEq κ] [LawfulBEq κ] {l : List α} (h : (l.map key).Nodup) {i : Nat}
    (hi : i < l.length) {k : κ} (hk : key l[i] = k) : l.find? (fun x => key x == k) = some l[i] := by
  rcases hfind : l.find? (fun x => key x == k) with _ | x
  · exact absurd hk (by simpa using List.find?_eq_none.mp hfind _ (List.getElem_mem hi))
  · have hsame : key x = k := by simpa using List.find?_some hfind
    rw [eq_getElem_of_key key h (List.mem_of_find?_eq_some hfind) hi (hsame.trans hk.symm)]

end Best1307.SlotArray
