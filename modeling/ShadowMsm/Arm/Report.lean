import ShadowMsm.Arm.Frames

/-!
# What a run reports

The accesses of a run that can be seen from outside, in order.  A call records all registers and all memory, so an access
is described by a predicate rather than given.  With it, what such listings print: strings from a table, each of which
ends with a zero byte.
-/

namespace Arm

/-! ### Strings in memory -/

theorem bytesAt_add (μ : Mem) (a : Word) (n k : Nat) :
    bytesAt μ a (n + k) = bytesAt μ a n ++ bytesAt μ (a + BitVec.ofNat 32 n) k := by
  induction n generalizing a with
  | zero => simp [bytesAt]
  | succ n ih =>
    have : a + 1 + BitVec.ofNat 32 n = a + BitVec.ofNat 32 (n + 1) := by rw [BitVec.ofNat_add]; ac_rfl
    rw [Nat.succ_add, bytesAt, ih, bytesAt, this, List.cons_append]

/-- A part of what memory holds. -/
theorem bytesAt_mid {μ : Mem} {a : Word} {x y z : List (BitVec 8)}
    (h : bytesAt μ a (x ++ (y ++ z)).length = x ++ (y ++ z)) : bytesAt μ (a + BitVec.ofNat 32 x.length) y.length = y := by
  rw [List.length_append, List.length_append, bytesAt_add, bytesAt_add] at h
  have h' := (List.append_inj h (by simp)).2
  exact (List.append_inj h' (by simp)).1

/-- Memory as before, up to bytes outside. -/
theorem bytesAt_congr {μ ν : Mem} {a : Word} {n : Nat} (h : ∀ x, Within x a n → μ x = ν x) (hn : n ≤ 2 ^ 32) :
    bytesAt μ a n = bytesAt ν a n :=
  SameOn.bytesAt h hn

section

variable {K : Type} [DecidableEq K]

/-- The strings of a table one after the other, each with its final zero. -/
def stringBlob (t : List (K × List (BitVec 8))) : List (BitVec 8) := t.flatMap fun s => s.2 ++ [0x00]

/-- Where the string of a key begins. -/
def stringOffset (t : List (K × List (BitVec 8))) (k : K) : Nat := (stringBlob (t.takeWhile fun s => s.1 ≠ k)).length

/-- The blob around the string of a key. -/
theorem stringBlob_split {t : List (K × List (BitVec 8))} (hn : (t.map Prod.fst).Nodup) {k : K} {s : List (BitVec 8)}
    (h : (k, s) ∈ t) :
    ∃ rest, stringBlob t = stringBlob (t.takeWhile fun s => s.1 ≠ k) ++ ((s ++ [0x00]) ++ rest) := by
  induction t with
  | nil => simp at h
  | cons c t ih =>
    obtain ⟨hc, hn⟩ := List.nodup_cons.mp hn
    by_cases hk : c.1 = k
    · have hs : c = (k, s) := by
        rcases List.mem_cons.mp h with h | h
        · exact h.symm
        · exact absurd (List.mem_map.mpr ⟨(k, s), h, hk.symm⟩) hc
      refine ⟨stringBlob t, ?_⟩
      rw [List.takeWhile_cons_of_neg (by simpa using hk), hs]
      rfl
    · have ht : (k, s) ∈ t := by
        rcases List.mem_cons.mp h with h | h
        · exact absurd (congrArg Prod.fst h.symm) hk
        · exact h
      obtain ⟨rest, hrest⟩ := ih hn ht
      refine ⟨rest, ?_⟩
      rw [List.takeWhile_cons_of_pos (by simpa using hk)]
      change c.2 ++ [0x00] ++ stringBlob t = c.2 ++ [0x00] ++ stringBlob _ ++ _
      rw [hrest, ← List.append_assoc (c.2 ++ [0x00])]

theorem stringOffset_add_le {t : List (K × List (BitVec 8))} (hn : (t.map Prod.fst).Nodup) {k : K}
    {s : List (BitVec 8)} (h : (k, s) ∈ t) : stringOffset t k + (s.length + 1) ≤ (stringBlob t).length := by
  obtain ⟨rest, hrest⟩ := stringBlob_split hn h
  rw [hrest, stringOffset]
  simp only [List.length_append, List.length_singleton]
  omega

/-- The string of a key where the table is in memory. -/
theorem bytesAt_string {t : List (K × List (BitVec 8))} (hn : (t.map Prod.fst).Nodup) {k : K} {s : List (BitVec 8)}
    (h : (k, s) ∈ t) {μ : Mem} {a : Word} (hμ : bytesAt μ a (stringBlob t).length = stringBlob t) :
    bytesAt μ (a + BitVec.ofNat 32 (stringOffset t k)) (s.length + 1) = s ++ [0x00] := by
  obtain ⟨rest, hrest⟩ := stringBlob_split hn h
  rw [hrest] at hμ
  have := bytesAt_mid hμ
  rwa [List.length_append] at this

end

/-! ### Reports -/

/-- From `m` to `m'` every access satisfies `A`, and those that `seen` selects are as `spec` says, one after the other. -/
def Reports (A : Access → Prop) (seen : Access → Bool) (m : Machine) (spec : List (Access → Prop)) (m' : Machine) :
    Prop :=
  ∃ l, m'.log = m.log ++ l ∧ (∀ a ∈ l, A a) ∧ List.Forall₂ (fun P a => P a) spec (l.filter seen)

section

variable {A : Access → Prop} {seen : Access → Bool} {m m' m'' : Machine} {spec spec' : List (Access → Prop)}
  {P : Access → Prop}

theorem Reports.refl (A : Access → Prop) (seen : Access → Bool) (m : Machine) : Reports A seen m [] m :=
  ⟨[], by simp, by simp, .nil⟩

/-- More accesses, none of which is seen. -/
theorem Reports.hidden (h : Reports A seen m spec m') {l : List Access} (hl : m''.log = m'.log ++ l)
    (hA : ∀ a ∈ l, A a) (hs : ∀ a ∈ l, seen a = false) : Reports A seen m spec m'' := by
  obtain ⟨l', hl', hA', hspec⟩ := h
  refine ⟨l' ++ l, by rw [hl, hl', List.append_assoc], ?_, ?_⟩
  · intro a ha
    rcases List.mem_append.mp ha with ha | ha
    · exact hA' a ha
    · exact hA a ha
  · have hnone : l.filter seen = [] := List.filter_eq_nil_iff.mpr fun a ha => by simp [hs a ha]
    rw [List.filter_append, hnone, List.append_nil]
    exact hspec

/-- One more access, which is seen. -/
theorem Reports.shown (h : Reports A seen m spec m') {a : Access} (hl : m''.log = m'.log ++ [a]) (hA : A a)
    (hs : seen a = true) (hP : P a) : Reports A seen m (spec ++ [P]) m'' := by
  obtain ⟨l', hl', hA', hspec⟩ := h
  refine ⟨l' ++ [a], by rw [hl, hl', List.append_assoc], ?_, ?_⟩
  · intro b hb
    rcases List.mem_append.mp hb with hb | hb
    · exact hA' b hb
    · rw [List.mem_singleton.mp hb]
      exact hA
  · have hone : [a].filter seen = [a] := by simp [hs]
    rw [List.filter_append, hone]
    exact List.rel_append hspec (.cons hP .nil)

/-- Nothing logged. -/
theorem Reports.same (h : Reports A seen m spec m') (hl : m''.log = m'.log) : Reports A seen m spec m'' :=
  h.hidden (l := []) (by rw [hl, List.append_nil]) (by simp) (by simp)

end

end Arm
