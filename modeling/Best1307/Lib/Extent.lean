import Mathlib.Data.List.Perm.Basic
import Mathlib.Order.Lattice

/-!
# Extents that lie apart

Objects stand at extents of a linear store. When one is taken out, the free extent it leaves grows over the nearest
object above or below it, if that is taken out as well: an object further away is then apart from the larger free
extent too. This needs the extents to begin at different places, since the next one is found by where it begins.
-/

namespace Best1307

variable {α : Type*} [LinearOrder α]

structure Extent (α : Type*) [LinearOrder α] where
  lo : α
  hi : α
  le : lo ≤ hi

namespace Extent

variable {e f g : Extent α}

def Apart (e f : Extent α) : Prop := e.hi ≤ f.lo ∨ f.hi ≤ e.lo

theorem Apart.symm (h : e.Apart f) : f.Apart e := Or.symm h

theorem Apart.of_le (h : e.Apart f) (hlo : e.lo ≤ g.lo) (hhi : g.hi ≤ e.hi) : g.Apart f := by
  rcases h with h | h
  · exact .inl (le_trans hhi h)
  · exact .inr (le_trans h hlo)

theorem Apart.hi_le_lo (h : e.Apart f) (hlt : e.lo < f.lo) : e.hi ≤ f.lo := by
  rcases h with h | h
  · exact h
  · exact absurd (lt_of_lt_of_le hlt (le_trans f.le h)) (lt_irrefl e.lo)

/-- The smallest extent with the places of `e` and the later `f`. -/
def join (e f : Extent α) (h : e.lo ≤ f.hi) : Extent α := ⟨e.lo, f.hi, h⟩

/-- An extent that begins elsewhere is on one side of what is apart from it. -/
theorem Apart.lt_or_gt (h : e.Apart f) (hne : f.lo ≠ e.lo) : f.lo < e.lo ∧ f.hi ≤ e.lo ∨ e.lo < f.lo ∧ e.hi ≤ f.lo := by
  rcases lt_or_gt_of_ne hne with hlt | hlt
  · exact .inl ⟨hlt, h.symm.hi_le_lo hlt⟩
  · exact .inr ⟨hlt, h.hi_le_lo hlt⟩

/-- What is apart from `e`, and from the next extent `f` above it, is apart from both and what is between them. -/
theorem apart_join_above (hlt : e.lo < f.lo) (hg : e.Apart g) (hgf : f.Apart g) (hne : g.lo ≠ e.lo)
    (hne' : g.lo ≠ f.lo) (hnear : e.lo < g.lo → f.lo ≤ g.lo) :
    (e.join f (le_trans (le_of_lt hlt) f.le)).Apart g := by
  rcases hg.lt_or_gt hne with ⟨-, hhi⟩ | ⟨habove, -⟩
  · exact .inr hhi
  · have hbeyond : f.lo < g.lo := lt_of_le_of_ne (hnear habove) hne'.symm
    exact .inl (hgf.hi_le_lo hbeyond)

theorem apart_join_below (hlt : f.lo < e.lo) (hg : e.Apart g) (hgf : f.Apart g) (hne : g.lo ≠ e.lo)
    (hne' : g.lo ≠ f.lo) (hnear : g.lo < e.lo → g.lo ≤ f.lo) :
    (f.join e (le_trans (le_of_lt hlt) e.le)).Apart g := by
  rcases hg.lt_or_gt hne with ⟨hbelow, -⟩ | ⟨-, hlo⟩
  · have hbeyond : g.lo < f.lo := lt_of_le_of_ne (hnear hbelow) hne'
    exact .inr (hgf.symm.hi_le_lo hbeyond)
  · exact .inl hlo

end Extent

end Best1307
