import Mathlib.Data.List.Basic
import Mathlib.Data.List.Flatten

/-!
# Transparency by escaping

A delimiter `flag` is kept out of a body by replacing every occurrence of `flag` and of the escape symbol `esc` by
`esc` followed by a masked symbol.  The structure `Stuffing` carries what makes this reversible: masking undoes itself
and never gives the delimiter.

The decoder is written as a scan with one bit of memory ("the last symbol was an escape"), as serial receivers do it.
-/

/-- An escaping scheme over an alphabet `α`. -/
structure Stuffing (α : Type) where
  flag : α
  esc : α
  mask : α → α
  esc_ne_flag : esc ≠ flag
  mask_mask : ∀ x, mask (mask x) = x
  mask_flag_ne : mask flag ≠ flag
  mask_esc_ne : mask esc ≠ flag

namespace Stuffing

variable {α : Type} [DecidableEq α] (s : Stuffing α)

/-- The image of one symbol. -/
def escape (x : α) : List α :=
  if x = s.flag ∨ x = s.esc then [s.esc, s.mask x] else [x]

/-- The escaped form of a body. -/
def stuff (body : List α) : List α := body.flatMap s.escape

/-- Undo the escaping; the first argument says that the last symbol was an escape. -/
def unstuff : Bool → List α → List α
  | _, [] => []
  | true, x :: xs => s.mask x :: unstuff false xs
  | false, x :: xs => if x = s.esc then unstuff true xs else x :: unstuff false xs

@[simp] theorem stuff_nil : s.stuff [] = [] := rfl

theorem stuff_cons (x : α) (xs : List α) : s.stuff (x :: xs) = s.escape x ++ s.stuff xs := by
  simp [stuff]

theorem unstuff_escape (x : α) (xs : List α) :
    s.unstuff false (s.escape x ++ xs) = x :: s.unstuff false xs := by
  unfold escape
  split
  · simp [unstuff, s.mask_mask]
  · rename_i h
    have hx : x ≠ s.esc := fun he => h (Or.inr he)
    simp [unstuff, hx]

/-- Decoding an escaped body gives the body back. -/
theorem unstuff_stuff (body : List α) : s.unstuff false (s.stuff body) = body := by
  induction body with
  | nil => rfl
  | cons x xs ih => rw [stuff_cons, unstuff_escape, ih]

/-- The delimiter does not occur in an escaped body. -/
theorem flag_notMem_stuff (body : List α) : s.flag ∉ s.stuff body := by
  intro h
  obtain ⟨x, -, hx⟩ := List.mem_flatMap.1 h
  unfold escape at hx
  split at hx
  · rename_i he
    simp only [List.mem_cons, List.not_mem_nil, or_false] at hx
    rcases hx with hx | hx
    · exact s.esc_ne_flag hx.symm
    · rcases he with rfl | rfl
      · exact s.mask_flag_ne hx.symm
      · exact s.mask_esc_ne hx.symm
  · rename_i he
    simp only [List.mem_singleton] at hx
    exact he (Or.inl hx.symm)

theorem stuff_eq_nil_iff {body : List α} : s.stuff body = [] ↔ body = [] := by
  constructor
  · intro h
    have := s.unstuff_stuff body
    rw [h] at this
    exact this.symm
  · rintro rfl; rfl

end Stuffing
