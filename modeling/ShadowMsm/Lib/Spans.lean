import Mathlib.Data.List.Chain
import Mathlib.Order.CompletePartialOrder
import Mathlib.Order.Interval.Set.Disjoint

/-!
# Spans on a line

Half-open intervals `lo ≤ x < hi`, possibly empty, and when those of a list are pairwise disjoint.  In a list that is
sorted by the lower ends, comparing each span with the next one is enough.
-/

/-- A half-open interval; an empty one has `lo = hi`. -/
structure Span (α : Type*) [LE α] where
  lo : α
  hi : α
  le : lo ≤ hi

namespace Span

variable {α : Type*} [LinearOrder α] {s t : Span α} {l : List (Span α)}

def toSet (s : Span α) : Set α := Set.Ico s.lo s.hi

/-- `s` ends before `t` begins. -/
def Before (s t : Span α) : Prop := s.hi ≤ t.lo

def Apart (s t : Span α) : Prop := s.Before t ∨ t.Before s

instance : IsTrans (Span α) Before where
  trans _ t _ hst htu := hst.trans (t.le.trans htu)

theorem Apart.symm (h : s.Apart t) : t.Apart s := Or.symm h

/-- Spans that are apart have no point in common. -/
theorem Apart.disjoint (h : s.Apart t) : Disjoint s.toSet t.toSet := by
  rw [toSet, toSet, Set.Ico_disjoint_Ico]
  rcases h with h | h
  · exact (min_le_left _ _).trans (le_trans h (le_max_right _ _))
  · exact (min_le_right _ _).trans (le_trans h (le_max_left _ _))

/-- Two disjoint spans with points are apart. -/
theorem apart_of_disjoint (hs : s.lo < s.hi) (ht : t.lo < t.hi) (h : Disjoint s.toSet t.toSet) : s.Apart t := by
  rw [toSet, toSet, Set.Ico_disjoint_Ico] at h
  rcases min_le_iff.mp h with h | h <;> rcases le_max_iff.mp h with h' | h'
  · exact absurd h' (not_le.mpr hs)
  · exact .inl h'
  · exact .inr h'
  · exact absurd h' (not_le.mpr ht)

/-- Of two spans that are apart, the one that begins first ends first, unless the other one is empty. -/
theorem before_of_apart (ht : t.lo < t.hi) (hle : s.lo ≤ t.lo) (h : s.Apart t) : s.Before t := by
  rcases h with h | h
  · exact h
  · exact absurd (ht.trans_le h) (not_lt.mpr hle)

/-- Comparing neighbours compares all pairs. -/
theorem pairwise_apart_of_isChain (h : l.IsChain Before) : l.Pairwise Apart :=
  (List.isChain_iff_pairwise.mp h).imp .inl

/-- In a sorted list of spans with points, neighbours that are apart come one before the other. -/
theorem isChain_of_pairwise_apart (hne : ∀ s ∈ l, s.lo < s.hi) (hsorted : l.Pairwise fun s t => s.lo ≤ t.lo)
    (h : l.Pairwise Apart) : l.IsChain Before := by
  rw [List.isChain_iff_pairwise]
  refine (h.and hsorted).imp_of_mem ?_
  rintro s t - ht ⟨hapart, hle⟩
  exact before_of_apart (hne t ht) hle hapart

end Span
