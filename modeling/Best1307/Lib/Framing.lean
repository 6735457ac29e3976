import Mathlib.Data.List.Basic

/-!
# Cutting a byte stream into frames

A stream is a concatenation of frames. What has arrived of it is a number of whole frames and less than
the next one, wherever the stream was cut on the way.
-/

namespace Best1307.Framing

variable {α : Type*}

def slice (bytes : List α) (offset len : Nat) : List α := (bytes.drop offset).take len

theorem slice_append {left right : List α} {offset len : Nat} (h : offset + len ≤ left.length) :
    slice (left ++ right) offset len = slice left offset len := by
  rw [slice, slice, List.drop_append_of_le_length (by omega),
    List.take_append_of_le_length (by rw [List.length_drop]; omega)]

theorem slice_left {left right : List α} {len : Nat} (hlen : left.length = len) :
    slice (left ++ right) 0 len = left := by
  rw [slice, List.drop_zero, ← hlen, List.take_left]

theorem slice_middle {left middle right : List α} {offset len : Nat} (hoffset : left.length = offset)
    (hlen : middle.length = len) : slice (left ++ (middle ++ right)) offset len = middle := by
  rw [slice, ← hoffset, ← hlen, List.drop_left, List.take_left]

/-- What waits behind the whole frames: less than the next one of `frames`. -/
def Partial (frames : List (List α)) (rest : List α) : Prop :=
  rest = [] ∨ ∃ f, frames.head? = some f ∧ rest <+: f ∧ rest.length < f.length

theorem partial_cons {f : List α} {frames : List (List α)} {rest : List α} (h : Partial (f :: frames) rest)
    (hf : f ≠ []) : rest <+: f ∧ rest.length < f.length := by
  rcases h with rfl | ⟨g, hg, hstart, hlength⟩
  · exact ⟨List.nil_prefix, List.length_pos_iff.mpr hf⟩
  · obtain rfl := Option.some.inj hg
    exact ⟨hstart, hlength⟩

theorem Partial.nil (frames : List (List α)) : Partial frames [] := .inl rfl

/-- Every prefix of a stream of frames is whole frames and a part of the next. -/
theorem exists_cut {frames : List (List α)} {bytes : List α} (h : bytes <+: frames.flatten) :
    ∃ k rest, k ≤ frames.length ∧ bytes = (frames.take k).flatten ++ rest ∧ Partial (frames.drop k) rest := by
  induction frames generalizing bytes with
  | nil =>
      have hbytes : bytes = [] := List.prefix_nil.mp h
      exact ⟨0, [], Nat.le_refl _, hbytes, .nil _⟩
  | cons f frames ih =>
      rw [List.flatten_cons] at h
      rcases Nat.lt_or_ge bytes.length f.length with hshort | hlong
      · have hstart := List.prefix_of_prefix_length_le h (List.prefix_append f _) (Nat.le_of_lt hshort)
        exact ⟨0, bytes, Nat.zero_le _, rfl, .inr ⟨f, rfl, hstart, hshort⟩⟩
      · obtain ⟨tail, rfl⟩ := List.prefix_of_prefix_length_le (List.prefix_append f _) h hlong
        obtain ⟨k, rest, hk, htail, hrest⟩ := ih ((List.prefix_append_right_inj f).mp h)
        refine ⟨k + 1, rest, Nat.succ_le_succ hk, ?_, hrest⟩
        rw [htail, List.take_succ_cons, List.flatten_cons, List.append_assoc]

theorem prefix_drop {frames : List (List α)} {k : Nat} {bytes : List α}
    (h : (frames.take k).flatten ++ bytes <+: frames.flatten) : bytes <+: (frames.drop k).flatten := by
  rw [← List.take_append_drop k frames, List.flatten_append, List.take_append_drop] at h
  exact (List.prefix_append_right_inj _).mp h

theorem cut_whole {frames : List (List α)} (hne : ∀ f ∈ frames, f ≠ []) {k : Nat} {rest : List α}
    (h : frames.flatten = (frames.take k).flatten ++ rest) (hrest : Partial (frames.drop k) rest) :
    rest = [] ∧ frames.length ≤ k := by
  have hleft : rest = (frames.drop k).flatten := by
    conv_lhs at h => rw [← List.take_append_drop k frames, List.flatten_append]
    exact (List.append_cancel_left h).symm
  cases hdrop : frames.drop k with
  | nil => exact ⟨by rw [hleft, hdrop, List.flatten_nil], List.drop_eq_nil_iff.mp hdrop⟩
  | cons f tail =>
      rw [hdrop] at hrest hleft
      have hf : f ∈ frames := List.mem_of_mem_drop (hdrop ▸ List.mem_cons_self)
      have hshort := (partial_cons hrest (hne f hf)).2
      rw [hleft, List.flatten_cons, List.length_append] at hshort
      omega

/-! ### Segments -/

/-- The bytes are cut into segments of `n`, the last of which may be shorter. -/
inductive Cut (n : Nat) : List α → List (List α) → Prop where
  | last {bytes : List α} (hlen : bytes.length ≤ n) : Cut n bytes [bytes]
  | more {bytes : List α} {segments : List (List α)} (hlen : n < bytes.length)
      (hcut : Cut n (bytes.drop n) segments) : Cut n bytes (bytes.take n :: segments)

theorem Cut.length_le {n : Nat} {bytes seg : List α} {segments : List (List α)} (h : Cut n bytes segments)
    (hseg : seg ∈ segments) : seg.length ≤ n := by
  induction h with
  | last hlen =>
      obtain rfl := List.mem_singleton.mp hseg
      exact hlen
  | more _ _ ih =>
      rcases List.mem_cons.mp hseg with rfl | hseg
      · exact List.length_take_le n _
      · exact ih hseg

theorem Cut.ne_nil {n : Nat} {bytes seg : List α} {segments : List (List α)} (h : Cut n bytes segments)
    (hbytes : bytes ≠ []) (hn : 0 < n) (hseg : seg ∈ segments) : seg ≠ [] := by
  induction h with
  | last =>
      obtain rfl := List.mem_singleton.mp hseg
      exact hbytes
  | more hlen _ ih =>
      rcases List.mem_cons.mp hseg with rfl | hseg
      · refine List.ne_nil_of_length_pos ?_
        rw [List.length_take]
        omega
      · refine ih (List.ne_nil_of_length_pos ?_) hseg
        rw [List.length_drop]
        omega

end Best1307.Framing
