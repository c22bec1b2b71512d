import Mathlib.Tactic.IntervalCases
import ShadowMsm.Bl1.Handoff

/-!
# What the fingerprints of BL1 0.4 sample

The offsets step by `0x00040000` as far as `0x00300000`; behind that only the last word of the Image is compared.  A
contiguous region of more than 256 KiB is sampled unless it lies between these two words (`imageProbeOffsets_samples`).
-/

namespace ShadowMsm.Bl1

open Arm

/-- The last aligned word of an Image. -/
def lastWord (size : Nat) : Nat := (size - 4) / 4 * 4

/-- No two consecutive fingerprints are more than `stride` apart. -/
def GapsWithin (stride size : Nat) : Prop := ∀ p q, [p, q] <:+: imageProbeOffsets size → q ≤ p + stride

/-- One of the words that are compared has a byte in the region of `n` bytes from offset `a` on. -/
def Sampled (size a n : Nat) : Prop := ∃ o ∈ imageProbeOffsets size, o < a + n ∧ a < o + 4

/-- Every byte of the region is another one in memory than in the Image. -/
def CorruptOn (image : Bytes) (m : Machine) (a n : Nat) : Prop :=
  ∀ k, a ≤ k → k < a + n → m.mem (0x00208000 + BitVec.ofNat 32 k) ≠ image.getD k 0

/-- The fingerprints are words of the Image in increasing order, the first and the last one among them. -/
structure WellPlaced (size : Nat) : Prop where
  increasing : (imageProbeOffsets size).Pairwise (· < ·)
  aligned : ∀ o ∈ imageProbeOffsets size, 4 ∣ o
  inside : ∀ o ∈ imageProbeOffsets size, o + 4 ≤ size
  first : 0 ∈ imageProbeOffsets size
  last : lastWord size ∈ imageProbeOffsets size

/-! ### The sizes that are accepted -/

theorem buildImageBoot_length {image : Bytes} {p : Program Label} (h : buildImageBoot image = .ok p) :
    0x1000 ≤ image.length ∧ image.length ≤ 0x00578000 := by
  have hlimit := (buildImageBoot_ok h).2
  unfold IMAGE_ADDR IMAGE_LIMIT at hlimit
  refine ⟨?_, by omega⟩
  by_contra hsmall
  unfold buildImageBoot at h
  rw [if_pos (by omega)] at h
  cases h

theorem buildImageBoot_replicate {size : Nat} (hsmall : 0x1000 ≤ size) (hlimit : size ≤ 0x00578000) :
    buildImageBoot (List.replicate size 0) = .ok (imageBoot (List.replicate size 0)) := by
  unfold buildImageBoot IMAGE_ADDR IMAGE_LIMIT
  rw [List.length_replicate, if_neg (by omega), if_neg (by omega), if_pos stringsFit_imageBoot]

/-! ### The offsets -/

section

variable {size : Nat}

theorem mem_imageProbeOffsets {o : Nat} : o ∈ imageProbeOffsets size ↔ o ∈ probeOffsets size ∧ o + 4 ≤ size := by
  rw [imageProbeOffsets, List.mem_mergeSort, List.mem_filter, List.mem_dedup, decide_eq_true_eq]

theorem imageProbeOffsets_increasing (size : Nat) : (imageProbeOffsets size).Pairwise (· < ·) := by
  have hle : (imageProbeOffsets size).Pairwise (· ≤ ·) := List.sortedLE_mergeSort.pairwise
  have hnodup : (imageProbeOffsets size).Nodup :=
    (List.mergeSort_perm _ _).nodup_iff.mpr ((List.nodup_dedup _).filter _)
  exact (hle.and hnodup).imp fun h => Nat.lt_of_le_of_ne h.1 h.2

theorem lastWord_mem (h : 4 ≤ size) : lastWord size ∈ imageProbeOffsets size := by
  refine mem_imageProbeOffsets.mpr ⟨?_, ?_⟩
  · simp [probeOffsets, lastWord]
  · unfold lastWord; omega

theorem multiple_mem {j : Nat} (hj : j ≤ 12) (h : j * 0x40000 + 4 ≤ size) : j * 0x40000 ∈ imageProbeOffsets size := by
  refine mem_imageProbeOffsets.mpr ⟨?_, h⟩
  interval_cases j <;> simp [probeOffsets]

/-- Below the last word, a fingerprint is in the first words or at a multiple of the stride. -/
theorem probe_cases {o : Nat} (h : o ∈ imageProbeOffsets size) :
    o < 0x40000 ∨ (∃ j, j ≤ 12 ∧ o = j * 0x40000) ∨ o = lastWord size := by
  have ho := (mem_imageProbeOffsets.mp h).1
  simp only [probeOffsets, List.mem_cons, List.not_mem_nil, or_false] at ho
  unfold lastWord
  by_cases hlast : o = (size - 4) / 4 * 4
  · exact Or.inr (Or.inr hlast)
  · by_cases hsmall : o < 0x40000
    · exact Or.inl hsmall
    · refine Or.inr (Or.inl ⟨o / 0x40000, ?_, ?_⟩) <;> omega

theorem le_lastWord {o : Nat} (h : o ∈ imageProbeOffsets size) : o ≤ lastWord size := by
  have := imageProbeOffsets_spec h
  unfold lastWord
  omega

theorem wellPlaced (h : 4 ≤ size) : WellPlaced size where
  increasing := imageProbeOffsets_increasing size
  aligned _ ho := (imageProbeOffsets_spec ho).1
  inside _ ho := (imageProbeOffsets_spec ho).2
  first := multiple_mem (j := 0) (by omega) (by omega)
  last := lastWord_mem h

/-! ### Consecutive offsets -/

/-- Two members of a strictly increasing list are consecutive exactly if no other one is between them. -/
theorem infix_pair_iff {l : List Nat} (hl : l.Pairwise (· < ·)) {p q : Nat} :
    [p, q] <:+: l ↔ p ∈ l ∧ q ∈ l ∧ p < q ∧ ∀ r ∈ l, r ≤ p ∨ q ≤ r := by
  constructor
  · rintro ⟨before, after, rfl⟩
    rw [List.append_assoc, List.pairwise_append] at hl
    obtain ⟨-, hrest, hbefore⟩ := hl
    simp only [List.cons_append, List.nil_append, List.pairwise_cons, List.mem_cons] at hrest hbefore
    refine ⟨by simp, by simp, hrest.1 q (Or.inl rfl), ?_⟩
    intro r hr
    simp only [List.append_assoc, List.cons_append, List.nil_append, List.mem_append, List.mem_cons] at hr
    rcases hr with hr | rfl | rfl | hr
    · exact Or.inl (hbefore r hr p (Or.inl rfl)).le
    · exact Or.inl le_rfl
    · exact Or.inr le_rfl
    · exact Or.inr (hrest.2.1 r hr).le
  · rintro ⟨hp, hq, hlt, hbetween⟩
    obtain ⟨before, after, rfl⟩ := List.append_of_mem hp
    rw [List.pairwise_append, List.pairwise_cons] at hl
    obtain ⟨-, ⟨hafter, hsorted⟩, hbefore⟩ := hl
    have hqafter : q ∈ after := by
      rcases List.mem_append.mp hq with h | h
      · have := hbefore q h p (by simp)
        omega
      · exact (List.mem_cons.mp h).resolve_left (by omega)
    cases after with
    | nil => cases hqafter
    | cons r after =>
      have hqr : q = r := by
        rcases List.mem_cons.mp hqafter with rfl | h
        · rfl
        · have hrq := (List.pairwise_cons.mp hsorted).1 q h
          have hpr := hafter r (by simp)
          rcases hbetween r (by simp) with hle | hle <;> omega
      subst hqr
      exact ⟨before, after, by simp⟩

/-- The stride holds as far as `0x00300000`; the last gap ends at the last word. -/
theorem gap_cases {p q : Nat} (h : [p, q] <:+: imageProbeOffsets size) :
    q ≤ p + 0x40000 ∨ p = 0x00300000 ∧ q = lastWord size := by
  obtain ⟨hp, hq, hlt, hbetween⟩ := (infix_pair_iff (imageProbeOffsets_increasing size)).mp h
  have hqsize := (imageProbeOffsets_spec hq).2
  -- the next multiple of the stride is a fingerprint, or the Image ends before it
  have hnext (j : Nat) (hj : j ≤ 12) (hpj : p < j * 0x40000) : q ≤ j * 0x40000 := by
    by_cases hin : j * 0x40000 + 4 ≤ size
    · rcases hbetween _ (multiple_mem hj hin) with hle | hle <;> omega
    · omega
  rcases probe_cases hp with hsmall | ⟨j, hj, rfl⟩ | rfl
  · have := hnext 1 (by omega) (by omega)
    omega
  · by_cases hlast : j = 12
    · subst hlast
      rcases probe_cases hq with hsmall | ⟨i, hi, rfl⟩ | hq
      · omega
      · omega
      · exact Or.inr ⟨rfl, hq⟩
    · have := hnext (j + 1) (by omega) (by omega)
      omega
  · have := le_lastWord hq
    omega

theorem gapsWithin_iff : GapsWithin 0x40000 size ↔ size < 0x340008 := by
  constructor
  · intro hgaps
    by_contra hsize
    have hlast : 0x340004 ≤ lastWord size := by unfold lastWord; omega
    have hpair : [0x00300000, lastWord size] <:+: imageProbeOffsets size := by
      refine (infix_pair_iff (imageProbeOffsets_increasing size)).mpr ⟨?_, lastWord_mem (by omega), by omega, ?_⟩
      · exact multiple_mem (j := 12) le_rfl (by omega)
      · intro r hr
        rcases probe_cases hr with hsmall | ⟨j, hj, rfl⟩ | rfl <;> omega
    have := hgaps _ _ hpair
    omega
  · intro hsize p q h
    have hlast : lastWord size ≤ 0x340000 := by unfold lastWord; omega
    rcases gap_cases h with hle | ⟨rfl, rfl⟩ <;> omega

/-! ### The regions that are sampled -/

/-- Only a region between the last multiple of the stride and the last word is compared nowhere. -/
theorem sampled_iff {a n : Nat} (hn : 0x40000 < n) (hin : a + n ≤ size) :
    Sampled size a n ↔ ¬ (0x00300004 ≤ a ∧ a + n ≤ lastWord size) := by
  have hlast : lastWord size ∈ imageProbeOffsets size := lastWord_mem (by omega)
  have hlastlt : a < lastWord size + 4 := by unfold lastWord; omega
  constructor
  · rintro ⟨o, ho, hend, hstart⟩ ⟨hfar, hbefore⟩
    rcases probe_cases ho with hsmall | ⟨j, hj, rfl⟩ | rfl <;> omega
  · intro hnot
    by_cases hfar : a < 0x00300004
    · -- the first multiple of the stride that does not end before the region
      have hj : (a + 0x3FFFC) / 0x40000 ≤ 12 := by omega
      by_cases hsize : (a + 0x3FFFC) / 0x40000 * 0x40000 + 4 ≤ size
      · exact ⟨_, multiple_mem hj hsize, by omega, by omega⟩
      · exact ⟨_, hlast, by unfold lastWord; omega, hlastlt⟩
    · exact ⟨_, hlast, by omega, hlastlt⟩

end

/-! ### What the check sees -/

theorem append_bytes_eq_iff {a₃ a₂ a₁ a₀ b₃ b₂ b₁ b₀ : Byte} :
    (a₃ ++ a₂ ++ a₁ ++ a₀ : Word) = b₃ ++ b₂ ++ b₁ ++ b₀ ↔ a₀ = b₀ ∧ a₁ = b₁ ∧ a₂ = b₂ ∧ a₃ = b₃ := by
  constructor
  · intro h
    have hnat := congrArg BitVec.toNat h
    rw [toNat_append_bytes, toNat_append_bytes] at hnat
    have ha₀ := a₀.isLt; have ha₁ := a₁.isLt; have ha₂ := a₂.isLt; have ha₃ := a₃.isLt
    have hb₀ := b₀.isLt; have hb₁ := b₁.isLt; have hb₂ := b₂.isLt; have hb₃ := b₃.isLt
    refine ⟨?_, ?_, ?_, ?_⟩ <;> apply BitVec.eq_of_toNat_eq <;> omega
  · rintro ⟨rfl, rfl, rfl, rfl⟩
    rfl

section

variable {image : Bytes} {m : Machine}

/-- The check reads the words of the fingerprints byte by byte. -/
theorem passes_fingerprints_iff : Check.Passes image m .fingerprints ↔
    ∀ o ∈ imageProbeOffsets image.length, ∀ i, i < 4 →
      m.mem (0x00208000 + BitVec.ofNat 32 (o + i)) = image.getD (o + i) 0 := by
  have hword (o : Nat) : load32 m.mem (0x00208000 + BitVec.ofNat 32 o) = unpackFromI image o ↔
      ∀ i, i < 4 → m.mem (0x00208000 + BitVec.ofNat 32 (o + i)) = image.getD (o + i) 0 := by
    have haddr (i : Nat) : (0x00208000 : Word) + BitVec.ofNat 32 (o + i) =
        0x00208000 + BitVec.ofNat 32 o + BitVec.ofNat 32 i := by
      rw [BitVec.ofNat_add, BitVec.add_assoc]
    rw [load32, unpackFromI, append_bytes_eq_iff]
    constructor
    · rintro ⟨h0, h1, h2, h3⟩ i hi
      rw [haddr]
      interval_cases i
      · simpa using h0
      · exact h1
      · exact h2
      · exact h3
    · intro h
      have h0 := h 0 (by omega)
      rw [haddr, BitVec.add_zero, Nat.add_zero] at h0
      exact ⟨h0, haddr 1 ▸ h 1 (by omega), haddr 2 ▸ h 2 (by omega), haddr 3 ▸ h 3 (by omega)⟩
  simp only [Check.Passes, probes, List.forall_mem_map, hword]

/-- The memory of `m` with the Image in it, but for a region in which every byte is another one. -/
def corrupted (image : Bytes) (m : Machine) (a n : Nat) : Machine :=
  { m with mem := fun x =>
      let k := (x - 0x00208000).toNat
      if a ≤ k ∧ k < a + n then image.getD k 0 + 1 else image.getD k 0 }

theorem corrupted_mem {a n k : Nat} (hk : k < 2 ^ 32) :
    (corrupted image m a n).mem (0x00208000 + BitVec.ofNat 32 k) =
      if a ≤ k ∧ k < a + n then image.getD k 0 + 1 else image.getD k 0 := by
  have hback : ((0x00208000 : Word) + BitVec.ofNat 32 k - 0x00208000).toNat = k := by bv_omega
  simp only [corrupted, hback]

/-- The regions that cannot be corrupted throughout without the check failing are those that are sampled. -/
theorem not_passes_iff {a n : Nat} (hn : 0 < n) (hlimit : image.length ≤ 2 ^ 32) (hin : a + n ≤ image.length) :
    (∀ m, CorruptOn image m a n → ¬ Check.Passes image m .fingerprints) ↔ Sampled image.length a n := by
  constructor
  · intro h
    by_contra hnot
    refine h (corrupted image ⟨fun _ => 0, ⟨false, false, false, false⟩, 0, fun _ => 0, fun _ => 0, []⟩ a n) ?_ ?_
    · intro k hstart hend
      rw [corrupted_mem (by omega), if_pos ⟨hstart, hend⟩]
      bv_omega
    · refine passes_fingerprints_iff.mpr fun o ho i hi => ?_
      have hsize := (imageProbeOffsets_spec ho).2
      rw [corrupted_mem (by omega), if_neg]
      exact fun hk => hnot ⟨o, ho, by omega, by omega⟩
  · rintro ⟨o, ho, hend, hstart⟩ m hcorrupt hpass
    -- a byte of the region that is a byte of the fingerprint, too
    have hsize := (imageProbeOffsets_spec ho).2
    have hbyte := passes_fingerprints_iff.mp hpass o ho (max a o - o) (by omega)
    exact hcorrupt (o + (max a o - o)) (by omega) (by omega) hbyte

end

/-! ### The main result -/

/-- The fingerprints of an accepted Image are well placed.  Their gaps are within `0x00040000`, but for the last one of an
Image that goes on behind `0x00340007`; a region of more than 256 KiB can be corrupted unseen only inside that gap. -/
theorem imageProbeOffsets_samples {image : Bytes} {p : Program Label} (hp : buildImageBoot image = .ok p) :
    WellPlaced image.length ∧
      (∀ a b, [a, b] <:+: imageProbeOffsets image.length →
        b ≤ a + 0x40000 ∨ a = 0x00300000 ∧ b = lastWord image.length) ∧
      (GapsWithin 0x40000 image.length ↔ image.length < 0x340008) ∧
      ∀ a n, 0x40000 < n → a + n ≤ image.length →
        ((∀ m, CorruptOn image m a n → ¬ Check.Passes image m .fingerprints) ↔
          ¬ (0x00300004 ≤ a ∧ a + n ≤ lastWord image.length)) := by
  obtain ⟨hsmall, hlimit⟩ := buildImageBoot_length hp
  refine ⟨wellPlaced (by omega), fun a b => gap_cases, gapsWithin_iff, fun a n hn hin => ?_⟩
  rw [not_passes_iff (by omega) (by omega) hin, sampled_iff hn hin]

/-- An Image of 3.5 MiB: a region in front of the gap is seen, one inside it can go unseen. -/
theorem imageProbeOffsets_samples_beyond :
    WellPlaced 0x380000 ∧ ¬ GapsWithin 0x40000 0x380000 ∧
      (∀ m, CorruptOn (List.replicate 0x380000 0) m 0x001000 0x50000 →
        ¬ Check.Passes (List.replicate 0x380000 0) m .fingerprints) ∧
      ∃ m, CorruptOn (List.replicate 0x380000 0) m 0x00300004 0x50000 ∧
        Check.Passes (List.replicate 0x380000 0) m .fingerprints := by
  have hlength : (List.replicate 0x380000 (0 : Byte)).length = 0x380000 := List.length_replicate
  have haccepted := buildImageBoot_replicate (show 0x1000 ≤ 0x380000 by omega) (by omega)
  obtain ⟨hplaced, -, hgaps, hseen⟩ := imageProbeOffsets_samples haccepted
  have hfront := (hseen 0x001000 0x50000 (by omega) (by rw [hlength]; omega)).mpr (by omega)
  have hgap := mt (hseen 0x00300004 0x50000 (by omega) (by rw [hlength]; omega)).mp (by rw [hlength]; decide)
  rw [hlength] at hplaced hgaps
  push Not at hgap
  exact ⟨hplaced, mt hgaps.mp (by omega), hfront, hgap⟩

/-- In an Image of the size of the Linux Image that is booted, 2 MiB of it can be corrupted unseen. -/
theorem imageProbeOffsets_gap :
    ¬ ∀ (image : Bytes) (p : Program Label), buildImageBoot image = .ok p →
      WellPlaced image.length ∧ GapsWithin 0x40000 image.length ∧
        ∀ a n, 0x40000 < n → a + n ≤ image.length →
          ∀ m, CorruptOn image m a n → ¬ Check.Passes image m .fingerprints := by
  intro h
  have hlength : (List.replicate 5536428 (0 : Byte)).length = 5536428 := List.length_replicate
  have haccepted := buildImageBoot_replicate (show 0x1000 ≤ 5536428 by omega) (by omega)
  obtain ⟨-, -, hseen⟩ := h _ _ haccepted
  have hregion := hseen 0x00300004 0x200000 (by omega) (by rw [hlength]; omega)
  rw [not_passes_iff (by omega) (by rw [hlength]; omega) (by rw [hlength]; omega),
    sampled_iff (by omega) (by rw [hlength]; omega), hlength] at hregion
  exact hregion (by decide)

end ShadowMsm.Bl1
