import Mathlib.Data.Nat.ModEq
import Mathlib.Logic.Function.Basic

/-!
# Ring buffers

A ring of `N` slots with one slot kept empty: `head` is where the producer writes next, `tail` where the consumer reads
next.  The stored items are those from `tail` up to `head`, and writing and reading are appending and removing in front.
-/

/-- A ring buffer with `N` slots. -/
structure RingBuffer (α : Type*) (N : Nat) where
  slot : Nat → α
  head : Nat
  tail : Nat
  head_lt : head < N
  tail_lt : tail < N

namespace RingBuffer

variable {α : Type*} {N : Nat}

/-- The number of stored items. -/
def count (r : RingBuffer α N) : Nat := (r.head + N - r.tail) % N

/-- The `n` items from slot `i` on. -/
def items (N : Nat) (slot : Nat → α) (i : Nat) : Nat → List α
  | 0 => []
  | n + 1 => slot i :: items N slot ((i + 1) % N) n

/-- The stored items, oldest first. -/
def contents (r : RingBuffer α N) : List α := items N r.slot r.tail r.count

def IsEmpty (r : RingBuffer α N) : Prop := r.tail = r.head

/-- Another item would make the ring look empty. -/
def IsFull (r : RingBuffer α N) : Prop := (r.head + 1) % N = r.tail

instance (r : RingBuffer α N) : Decidable r.IsEmpty := inferInstanceAs (Decidable (_ = _))

instance (r : RingBuffer α N) : Decidable r.IsFull := inferInstanceAs (Decidable (_ = _))

def push (r : RingBuffer α N) (b : α) : RingBuffer α N where
  slot := Function.update r.slot r.head b
  head := (r.head + 1) % N
  tail := r.tail
  head_lt := Nat.mod_lt _ (Nat.zero_lt_of_lt r.head_lt)
  tail_lt := r.tail_lt

def pop (r : RingBuffer α N) : RingBuffer α N where
  slot := r.slot
  head := r.head
  tail := (r.tail + 1) % N
  head_lt := r.head_lt
  tail_lt := Nat.mod_lt _ (Nat.zero_lt_of_lt r.tail_lt)

/-- Append items until the ring is full. -/
def pushAll (r : RingBuffer α N) : List α → RingBuffer α N
  | [] => r
  | b :: bs => if r.IsFull then r else (r.push b).pushAll bs

/-- Remove up to `n` items. -/
def popMany (r : RingBuffer α N) : Nat → List α × RingBuffer α N
  | 0 => ([], r)
  | n + 1 =>
    if r.IsEmpty then ([], r)
    else (r.slot r.tail :: (r.pop.popMany n).1, (r.pop.popMany n).2)

@[simp] theorem length_items (slot : Nat → α) (i n : Nat) : (items N slot i n).length = n := by
  induction n generalizing i with
  | zero => rfl
  | succ n ih => simp [items, ih]

@[simp] theorem length_contents (r : RingBuffer α N) : r.contents.length = r.count := length_items _ _ _

theorem count_lt (r : RingBuffer α N) : r.count < N := Nat.mod_lt _ (Nat.zero_lt_of_lt r.head_lt)

private theorem mod_eq_sub {a N : Nat} (h : N ≤ a) (h2 : a < 2 * N) : a % N = a - N := by
  rw [Nat.mod_eq_sub_mod h, Nat.mod_eq_of_lt (by omega)]

theorem isEmpty_iff {r : RingBuffer α N} : r.IsEmpty ↔ r.count = 0 := by
  have := r.head_lt
  have := r.tail_lt
  rw [IsEmpty, count]
  by_cases h : r.tail ≤ r.head
  · rw [mod_eq_sub (by omega) (by omega)]
    omega
  · rw [Nat.mod_eq_of_lt (by omega)]
    omega

theorem isFull_iff {r : RingBuffer α N} : r.IsFull ↔ r.count + 1 = N := by
  have := r.head_lt
  have := r.tail_lt
  have hnext : (r.head + 1) % N = if r.head + 1 = N then 0 else r.head + 1 := by
    split
    · rename_i h
      rw [h, Nat.mod_self]
    · rw [Nat.mod_eq_of_lt (by omega)]
  rw [IsFull, count, hnext]
  by_cases h : r.tail ≤ r.head
  · rw [mod_eq_sub (by omega) (by omega)]
    split <;> omega
  · rw [Nat.mod_eq_of_lt (by omega)]
    split <;> omega

/-- Writing outside the range read does not change what is read. -/
private theorem items_update {slot : Nat → α} {i n j : Nat} {b : α} (hN : 0 < N)
    (h : ∀ k < n, (i + k) % N ≠ j) (hi : i < N) : items N (Function.update slot j b) i n = items N slot i n := by
  induction n generalizing i with
  | zero => rfl
  | succ n ih =>
    have h0 : i ≠ j := by simpa [Nat.mod_eq_of_lt hi] using h 0 (by omega)
    rw [items, items, Function.update_of_ne h0, ih (fun k hk => ?_) (Nat.mod_lt _ hN)]
    rw [Nat.mod_add_mod, Nat.add_assoc, Nat.add_comm 1 k]
    exact h (k + 1) (by omega)

private theorem items_concat (slot : Nat → α) {i n : Nat} (hi : i < N) :
    items N slot i (n + 1) = items N slot i n ++ [slot ((i + n) % N)] := by
  induction n generalizing i with
  | zero => simp [items, Nat.mod_eq_of_lt hi]
  | succ n ih =>
    have hN : 0 < N := by omega
    rw [items, ih (Nat.mod_lt _ hN), Nat.mod_add_mod, show i + 1 + n = i + (n + 1) by omega]
    rfl

private theorem tail_add_count (r : RingBuffer α N) : (r.tail + r.count) % N = r.head := by
  have := r.head_lt
  have := r.tail_lt
  rw [count, Nat.add_mod_mod, show r.tail + (r.head + N - r.tail) = r.head + N by omega, Nat.add_mod_right,
    Nat.mod_eq_of_lt r.head_lt]

private theorem count_push {r : RingBuffer α N} (b : α) (h : ¬ r.IsFull) : (r.push b).count = r.count + 1 := by
  have := r.head_lt
  have := r.tail_lt
  have hc := r.count_lt
  have hf : r.count + 1 ≠ N := fun e => h (isFull_iff.mpr e)
  have : ((r.head + 1) % N + N - r.tail) % N = (r.count + 1) % N := by
    rw [count, Nat.mod_add_mod]
    by_cases h1 : r.head + 1 = N
    · rw [h1, Nat.mod_self]
      rw [show r.head + N - r.tail + 1 = 0 + N - r.tail + N by omega, Nat.add_mod_right]
    · rw [Nat.mod_eq_of_lt (a := r.head + 1) (by omega)]
      rw [show r.head + N - r.tail + 1 = r.head + 1 + N - r.tail by omega]
  exact this.trans (Nat.mod_eq_of_lt (by omega))

/-- Writing appends. -/
theorem contents_push {r : RingBuffer α N} (b : α) (h : ¬ r.IsFull) : (r.push b).contents = r.contents ++ [b] := by
  have hN : 0 < N := Nat.zero_lt_of_lt r.head_lt
  have hf : r.count + 1 ≠ N := fun e => h (isFull_iff.mpr e)
  have hc := r.count_lt
  rw [contents, count_push b h]
  simp only [push]
  rw [items_concat _ r.tail_lt, tail_add_count, Function.update_self, items_update hN _ r.tail_lt, contents]
  -- the slot written is not among the `count` slots from the tail on
  intro k hk he
  have hmod : (r.tail + k) % N = (r.tail + r.count) % N := he.trans (tail_add_count r).symm
  have hk' : k % N = r.count % N := Nat.ModEq.add_left_cancel' r.tail hmod
  rw [Nat.mod_eq_of_lt (by omega), Nat.mod_eq_of_lt hc] at hk'
  omega

private theorem count_pop {r : RingBuffer α N} (h : ¬ r.IsEmpty) : r.count = r.pop.count + 1 := by
  have := r.head_lt
  have := r.tail_lt
  have hc := r.count_lt
  have h0 : r.count ≠ 0 := fun e => h (isEmpty_iff.mpr e)
  have hpos : (r.pop.count + 1) % N = r.count := by
    simp only [count, pop, Nat.mod_add_mod]
    by_cases h1 : r.tail + 1 = N
    · rw [h1, Nat.mod_self, show r.head + N - 0 + 1 = r.head + N - r.tail + N by omega, Nat.add_mod_right]
    · rw [Nat.mod_eq_of_lt (a := r.tail + 1) (by omega)]
      rw [show r.head + N - (r.tail + 1) + 1 = r.head + N - r.tail by omega]
  have hlt : r.pop.count + 1 ≤ N := r.pop.count_lt
  rcases Nat.lt_or_eq_of_le hlt with hl | he
  · rw [← hpos, Nat.mod_eq_of_lt hl]
  · rw [he, Nat.mod_self] at hpos
    omega

/-- Reading removes the oldest item. -/
theorem contents_pop {r : RingBuffer α N} (h : ¬ r.IsEmpty) : r.contents = r.slot r.tail :: r.pop.contents := by
  rw [contents, count_pop h]
  rfl

theorem contents_of_isEmpty {r : RingBuffer α N} (h : r.IsEmpty) : r.contents = [] := by
  rw [contents, isEmpty_iff.mp h]
  rfl

/-- Writing many items appends as many of them as there is room for. -/
theorem contents_pushAll (r : RingBuffer α N) (bs : List α) :
    (r.pushAll bs).contents = r.contents ++ bs.take (N - 1 - r.contents.length) := by
  induction bs generalizing r with
  | nil => simp [pushAll]
  | cons b bs ih =>
    have hc := r.count_lt
    rw [pushAll]
    split
    · rename_i h
      have := isFull_iff.mp h
      simp [show N - 1 - r.count = 0 by omega]
    · rename_i h
      have hf : r.count + 1 ≠ N := fun e => h (isFull_iff.mpr e)
      rw [ih, contents_push b h]
      simp [show N - 1 - r.count = N - 1 - (r.count + 1) + 1 by omega]

/-- Reading many items takes them from the front. -/
theorem popMany_eq (r : RingBuffer α N) (n : Nat) :
    (r.popMany n).1 = r.contents.take n ∧ (r.popMany n).2.contents = r.contents.drop n := by
  induction n generalizing r with
  | zero => simp [popMany]
  | succ n ih =>
    rw [popMany]
    split
    · rename_i h
      simp [contents_of_isEmpty h]
    · rename_i h
      rw [contents_pop h]
      simp [ih r.pop]

end RingBuffer
