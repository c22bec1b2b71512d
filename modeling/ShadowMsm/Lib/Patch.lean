import Mathlib.Data.List.Basic

/-!
# Patches

Slices of a list that are overwritten by as many elements.  Patches that keep apart can be made in any order: each slice
then holds what its patch says, and nothing else has changed.
-/

/-- An offset and the elements for the slice there. -/
structure Patch (α : Type) where
  offset : Nat
  new : List α

namespace Patch

variable {α : Type}

/-- `data[offset : offset + len(new)] = new` -/
def splice (data : List α) (offset : Nat) (new : List α) : List α :=
  data.take offset ++ (new ++ data.drop (offset + new.length))

/-- `data[offset : offset + n]` -/
def slice (data : List α) (offset n : Nat) : List α := (data.drop offset).take n

/-- The patches one after the other. -/
def applyAll (data : List α) (ps : List (Patch α)) : List α := ps.foldl (fun data p => splice data p.offset p.new) data

/-- The patch writes the element `i`. -/
def Covers (p : Patch α) (i : Nat) : Prop := p.offset ≤ i ∧ i < p.offset + p.new.length

/-- The patch writes only elements that are there. -/
def Fits (p : Patch α) (n : Nat) : Prop := p.offset + p.new.length ≤ n

/-- No element is written by both. -/
def Apart (p q : Patch α) : Prop := ∀ i, p.Covers i → ¬ q.Covers i

instance (p : Patch α) (i : Nat) : Decidable (p.Covers i) := inferInstanceAs (Decidable (_ ∧ _))

variable {data : List α} {p q : Patch α} {ps : List (Patch α)} {i : Nat}

theorem length_splice (h : p.Fits data.length) : (splice data p.offset p.new).length = data.length := by
  unfold Fits at h
  simp only [splice, List.length_append, List.length_take, List.length_drop]
  omega

theorem getElem?_splice (h : p.Fits data.length) (i : Nat) :
    (splice data p.offset p.new)[i]? = if p.Covers i then p.new[i - p.offset]? else data[i]? := by
  unfold Fits at h
  have htake : (data.take p.offset).length = p.offset := by
    rw [List.length_take]
    omega
  rw [splice]
  by_cases h1 : i < p.offset
  · rw [if_neg fun hc => by have := hc.1; omega, List.getElem?_append_left (by omega), List.getElem?_take_of_lt h1]
  rw [List.getElem?_append_right (by omega), htake]
  by_cases h2 : i < p.offset + p.new.length
  · rw [if_pos ⟨by omega, h2⟩, List.getElem?_append_left (by omega)]
  · rw [if_neg fun hc => h2 hc.2, List.getElem?_append_right (by omega), List.getElem?_drop]
    congr 1
    omega

theorem length_applyAll (h : ∀ p ∈ ps, p.Fits data.length) : (applyAll data ps).length = data.length := by
  induction ps generalizing data with
  | nil => rfl
  | cons p ps ih =>
    obtain ⟨hp, hps⟩ := List.forall_mem_cons.mp h
    have hlen := length_splice hp
    change (applyAll (splice data p.offset p.new) ps).length = _
    rw [ih (by rw [hlen]; exact hps), hlen]

/-- Elements that no patch writes. -/
theorem getElem?_applyAll_of_not (h : ∀ p ∈ ps, p.Fits data.length) (hi : ∀ p ∈ ps, ¬ p.Covers i) :
    (applyAll data ps)[i]? = data[i]? := by
  induction ps generalizing data with
  | nil => rfl
  | cons p ps ih =>
    obtain ⟨hp, hps⟩ := List.forall_mem_cons.mp h
    obtain ⟨hip, hips⟩ := List.forall_mem_cons.mp hi
    change (applyAll (splice data p.offset p.new) ps)[i]? = _
    rw [ih (by rw [length_splice hp]; exact hps) hips, getElem?_splice hp, if_neg hip]

/-- Elements of a patch, when the patches keep apart. -/
theorem getElem?_applyAll_of_covers (h : ∀ p ∈ ps, p.Fits data.length) (hd : ps.Pairwise Apart) (hp : p ∈ ps)
    (hi : p.Covers i) : (applyAll data ps)[i]? = p.new[i - p.offset]? := by
  induction ps generalizing data with
  | nil => simp at hp
  | cons q ps ih =>
    obtain ⟨hq, hps⟩ := List.forall_mem_cons.mp h
    obtain ⟨hdq, hd⟩ := List.pairwise_cons.mp hd
    change (applyAll (splice data q.offset q.new) ps)[i]? = _
    rcases List.mem_cons.mp hp with rfl | hp
    · rw [getElem?_applyAll_of_not (by rw [length_splice hq]; exact hps) fun r hr => hdq r hr i hi, getElem?_splice hq,
        if_pos hi]
    · exact ih (by rw [length_splice hq]; exact hps) hd hp

/-- The slice of a patch. -/
theorem slice_applyAll (h : ∀ p ∈ ps, p.Fits data.length) (hd : ps.Pairwise Apart) (hp : p ∈ ps) :
    slice (applyAll data ps) p.offset p.new.length = p.new := by
  apply List.ext_getElem?
  intro k
  rw [slice]
  by_cases hk : k < p.new.length
  · rw [List.getElem?_take_of_lt hk, List.getElem?_drop, getElem?_applyAll_of_covers h hd hp ⟨by omega, by omega⟩,
      Nat.add_sub_cancel_left]
  · rw [List.getElem?_eq_none (by rw [List.length_take]; omega), List.getElem?_eq_none (by omega)]

/-- A slice that no patch writes. -/
theorem slice_applyAll_of_not (h : ∀ p ∈ ps, p.Fits data.length) {offset n : Nat}
    (hi : ∀ p ∈ ps, ∀ i, offset ≤ i → i < offset + n → ¬ p.Covers i) :
    slice (applyAll data ps) offset n = slice data offset n := by
  apply List.ext_getElem?
  intro k
  rw [slice, slice]
  by_cases hk : k < n
  · rw [List.getElem?_take_of_lt hk, List.getElem?_take_of_lt hk, List.getElem?_drop, List.getElem?_drop]
    exact getElem?_applyAll_of_not h fun p hp => hi p hp _ (by omega) (by omega)
  · rw [List.getElem?_eq_none (by rw [List.length_take]; omega), List.getElem?_eq_none (by rw [List.length_take]; omega)]

/-- The list of which `data` is the original: as long, with what each patch says in its slice, and otherwise the same. -/
structure Applied (ps : List (Patch α)) (data data' : List α) : Prop where
  length : data'.length = data.length
  slice : ∀ p ∈ ps, Patch.slice data' p.offset p.new.length = p.new
  kept : ∀ i, (∀ p ∈ ps, ¬ p.Covers i) → data'[i]? = data[i]?

theorem getElem?_of_slice {data' : List α} (h : slice data' p.offset p.new.length = p.new) (hi : p.Covers i) :
    data'[i]? = p.new[i - p.offset]? := by
  obtain ⟨h1, h2⟩ := hi
  have hget := congrArg (fun l : List α => l[i - p.offset]?) h
  dsimp only [slice] at hget
  rwa [List.getElem?_take_of_lt (by omega), List.getElem?_drop, show p.offset + (i - p.offset) = i by omega] at hget

/-- Patches that keep apart have this one result. -/
theorem applied_iff {data' : List α} (h : ∀ p ∈ ps, p.Fits data.length) (hd : ps.Pairwise Apart) :
    Applied ps data data' ↔ data' = applyAll data ps := by
  constructor
  · intro ha
    apply List.ext_getElem?
    intro i
    by_cases hi : ∃ p ∈ ps, p.Covers i
    · obtain ⟨p, hp, hi⟩ := hi
      rw [getElem?_of_slice (ha.slice p hp) hi, getElem?_applyAll_of_covers h hd hp hi]
    · simp only [not_exists, not_and] at hi
      rw [ha.kept i hi, getElem?_applyAll_of_not h hi]
  · rintro rfl
    exact ⟨length_applyAll h, fun p hp => slice_applyAll h hd hp, fun i hi => getElem?_applyAll_of_not h hi⟩

private theorem exists_of_forall₂ {β γ : Type} {R : β → γ → Prop} {xs : List β} {ys : List γ} (h : List.Forall₂ R xs ys)
    {x : β} (hx : x ∈ xs) : ∃ y ∈ ys, R x y := by
  induction h with
  | nil => simp at hx
  | @cons a b xs ys hab _ ih =>
    rcases List.mem_cons.mp hx with rfl | hx
    · exact ⟨b, by simp, hab⟩
    · obtain ⟨y, hy, hR⟩ := ih hx
      exact ⟨y, List.mem_cons_of_mem _ hy, hR⟩

/-- Patches are apart when each lies in a slot of its own. -/
theorem pairwise_apart_of_slots {slots : List (Nat × Nat)} (hs : slots.Pairwise fun s t => s.2 ≤ t.1 ∨ t.2 ≤ s.1)
    (h : List.Forall₂ (fun (p : Patch α) s => s.1 ≤ p.offset ∧ p.offset + p.new.length ≤ s.2) ps slots) :
    ps.Pairwise Apart := by
  induction h with
  | nil => exact .nil
  | @cons p s ps slots hp hps ih =>
    obtain ⟨hs1, hs⟩ := List.pairwise_cons.mp hs
    refine List.pairwise_cons.mpr ⟨?_, ih hs⟩
    intro q hq
    obtain ⟨t, ht, hqt⟩ := exists_of_forall₂ hps hq
    rintro i ⟨h1, h2⟩ ⟨h3, h4⟩
    rcases hs1 t ht with h | h
    · omega
    · omega

theorem fits_of_slots {slots : List (Nat × Nat)} {n : Nat} (hs : ∀ s ∈ slots, s.2 ≤ n)
    (h : List.Forall₂ (fun (p : Patch α) s => s.1 ≤ p.offset ∧ p.offset + p.new.length ≤ s.2) ps slots) :
    ∀ p ∈ ps, p.Fits n := by
  intro p hp
  obtain ⟨s, hmem, -, hle⟩ := exists_of_forall₂ h hp
  exact Nat.le_trans hle (hs s hmem)

end Patch
