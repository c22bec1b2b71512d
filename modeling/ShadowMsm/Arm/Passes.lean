import ShadowMsm.Arm.Visits

/-!
# Stretches of a run

A stretch of a run that makes no call, with the machines it passes (`Passes`).  Stretches compose: a loop that counts
down is one, and a run that has arbitrarily long ones never leaves the listing (`Endless`); what holds along them then
holds of every machine that it ever passes.
-/

namespace Arm

namespace Program

variable {L : Type} [DecidableEq L] {p : Program L} {env : Word → Machine → Machine}

/-- More fuel only adds machines at the end. -/
theorem visited_prefix {n n' : Nat} (hn : n ≤ n') (k : List (Line L)) (m : Machine) :
    visited p env n k m <+: visited p env n' k m := by
  induction n generalizing n' k m with
  | zero => exact List.nil_prefix
  | succ n ih =>
    obtain ⟨n', rfl⟩ := Nat.exists_eq_add_of_le' (show 1 ≤ n' by omega)
    have hle : n ≤ n' := by omega
    rcases k with - | ⟨(l | i), k⟩
    · exact List.prefix_rfl
    · exact ih hle k m
    · cases i with
      | op c o => exact List.prefix_cons_inj m |>.mpr (ih hle _ _)
      | b c l =>
        simp only [visited]
        split
        · exact List.prefix_cons_inj m |>.mpr (ih hle _ _)
        · exact List.prefix_cons_inj m |>.mpr (ih hle _ _)
      | bl l =>
        simp only [visited]
        apply (List.prefix_cons_inj m).mpr
        cases hr : run p env n (p.codeAt l) (m.set .lr (p.addr k)) with
        | none =>
          simp only [List.append_nil]
          exact (ih hle _ _).trans (List.prefix_append _ _)
        | some q =>
          obtain ⟨e, m'⟩ := q
          rw [visited_mono hr hle, run_mono hr hle]
          by_cases he : e.target = p.addr k
          · simp only [he, if_true]
            exact (List.prefix_append_right_inj _).mpr (ih hle _ _)
          · simp only [he, if_false]
            exact List.prefix_rfl
      | call a => exact List.prefix_cons_inj m |>.mpr (ih hle _ _)
      | blx r => exact List.prefix_cons_inj m |>.mpr (ih hle _ _)
      | bAbs a => exact List.prefix_rfl
      | bx r => exact List.prefix_rfl
      | popPc rs => exact List.prefix_rfl

end Program

variable {L : Type} [DecidableEq L] {p : Program L} {env : Word → Machine → Machine}

/-- From the place `k` and the machine `m` a run gets to `k'` and `m'`, over the machines `t`. -/
inductive Passes (p : Program L) : List (Line L) → Machine → List Machine → List (Line L) → Machine → Prop
  | here {k m} : Passes p k m [] k m
  | label {l k m t k' m'} : Passes p k m t k' m' → Passes p (.label l :: k) m t k' m'
  | op {c o k m t k' m'} : Passes p k (if c.holds m.flags then o.exec m else m) t k' m' →
      Passes p (.instr (.op c o) :: k) m (m :: t) k' m'
  | b {c l k m t k' m'} : Passes p (if c.holds m.flags then p.codeAt l else k) m t k' m' →
      Passes p (.instr (.b c l) :: k) m (m :: t) k' m'

section

variable {k k' k'' : List (Line L)} {m m' m'' : Machine} {t t' : List Machine}

theorem Passes.trans (h : Passes p k m t k' m') (h' : Passes p k' m' t' k'' m'') : Passes p k m (t ++ t') k'' m'' := by
  induction h with
  | here => exact h'
  | label _ ih => exact .label (ih h')
  | op _ ih => exact .op (ih h')
  | b _ ih => exact .b (ih h')

theorem Passes.op_al {o : Op} (h : Passes p k (o.exec m) t k' m') :
    Passes p (.instr (.op .al o) :: k) m (m :: t) k' m' := .op h

/-- A stretch is the beginning of every run that has the fuel for it. -/
theorem Passes.run_eq (h : Passes p k m t k' m') (env : Word → Machine → Machine) :
    ∃ d, ∀ n, p.run env (n + d) k m = p.run env n k' m' ∧
      p.visited env (n + d) k m = t ++ p.visited env n k' m' := by
  induction h with
  | here => exact ⟨0, fun n => ⟨rfl, rfl⟩⟩
  | label _ ih =>
    obtain ⟨d, hd⟩ := ih
    exact ⟨d + 1, hd⟩
  | @op c o k m _ _ _ _ ih =>
    obtain ⟨d, hd⟩ := ih
    exact ⟨d + 1, fun n => ⟨(hd n).1, congrArg (m :: ·) (hd n).2⟩⟩
  | @b c l k m _ _ _ _ ih =>
    obtain ⟨d, hd⟩ := ih
    refine ⟨d + 1, fun n => ?_⟩
    obtain ⟨hrun, hvis⟩ := hd n
    rw [← Nat.add_assoc, Program.run, Program.visited]
    by_cases hc : c.holds m.flags = true
    · rw [if_pos hc] at hrun hvis
      rw [if_pos hc, if_pos hc, hrun, hvis]
      exact ⟨rfl, rfl⟩
    · rw [if_neg hc] at hrun hvis
      rw [if_neg hc, if_neg hc, hrun, hvis]
      exact ⟨rfl, rfl⟩

theorem Passes.wp (h : Passes p k m t k' m') {Q : Exit → Machine → Prop} (hQ : wp p env k' m' Q) : wp p env k m Q := by
  obtain ⟨n, r, hr, hq⟩ := hQ
  obtain ⟨d, hd⟩ := h.run_eq env
  exact ⟨n + d, r, (hd n).1.trans hr, hq⟩

/-! ### Counting down -/

/-- A loop that only counts down. -/
def countdown (l : L) (r : Reg) : List (Line L) := [.label l, .subs r r (.imm 1), .bne l]

private theorem set_setFlags_set (m : Machine) (r : Reg) (v w : Word) (f g : Flags) :
    ((((m.set r v).setFlags f).set r w).setFlags g) = (m.set r w).setFlags g := by
  simp [Machine.set, Machine.setFlags]

/-- From a counter `n` the loop takes `2 * n` instructions, and only counter and flags change. -/
theorem passes_countdown {l : L} {r : Reg} (hcode : p.codeAt l = countdown l r ++ k) {n : Nat} (hpos : 0 < n)
    (hn : n < 2 ^ 32) (hr : m.reg r = BitVec.ofNat 32 n) :
    ∃ t, Passes p (p.codeAt l) m t k ((m.set r 0).setFlags (subFlags 1 1)) ∧ t.length = 2 * n ∧
      ∀ s ∈ t, ∃ w f, s = (m.set r w).setFlags f := by
  induction n generalizing m with
  | zero => omega
  | succ n ih =>
    have hcount : (BitVec.ofNat 32 (n + 1) - 1 : Word) = BitVec.ofNat 32 n := by bv_omega
    have hz : (BitVec.ofNat 32 (n + 1) = (1 : Word)) ↔ n = 0 := by
      constructor
      · intro e
        bv_omega
      · rintro rfl
        rfl
    have hself : m = (m.set r (m.reg r)).setFlags m.flags := by simp [Machine.set, Machine.setFlags]
    have hsubs : (Op.subs r r (.imm 1)).exec m =
        (m.set r (BitVec.ofNat 32 n)).setFlags (subFlags (BitVec.ofNat 32 (n + 1)) 1) := by
      rw [← hcount, ← hr]
      rfl
    by_cases h0 : n = 0
    · subst h0
      refine ⟨[m, (m.set r 0).setFlags (subFlags 1 1)], ?_, rfl, ?_⟩
      · rw [hcode]
        apply Passes.label
        apply Passes.op_al
        rw [hsubs]
        exact Passes.b .here
      · intro s hs
        simp only [List.mem_cons, List.not_mem_nil, or_false] at hs
        rcases hs with rfl | rfl
        · exact ⟨_, _, hself⟩
        · exact ⟨_, _, rfl⟩
    · have hr' : ((m.set r (BitVec.ofNat 32 n)).setFlags (subFlags (BitVec.ofNat 32 (n + 1)) 1)).reg r =
          BitVec.ofNat 32 n := by simp [Machine.reg_set]
      obtain ⟨t, ht, hlen, hall⟩ := ih (by omega) (by omega) hr'
      rw [set_setFlags_set] at ht
      refine ⟨m :: (m.set r (BitVec.ofNat 32 n)).setFlags (subFlags (BitVec.ofNat 32 (n + 1)) 1) :: t, ?_, ?_, ?_⟩
      · rw [hcode]
        apply Passes.label
        apply Passes.op_al
        rw [hsubs]
        apply Passes.b
        rw [if_pos]
        · exact ht
        · rw [Machine.flags_setFlags, holds_ne_sub]
          exact decide_eq_true (mt hz.mp h0)
      · simp only [List.length_cons, hlen]
        omega
      · intro s hs
        rcases List.mem_cons.mp hs with rfl | hs
        · exact ⟨_, _, hself⟩
        rcases List.mem_cons.mp hs with rfl | hs
        · exact ⟨_, _, rfl⟩
        · obtain ⟨w, f, rfl⟩ := hall s hs
          exact ⟨w, f, set_setFlags_set ..⟩

/-! ### Runs without an end -/

/-- There are stretches of any length from `k` and `m`, all of whose machines satisfy `P` at their place. -/
def Endless (p : Program L) (P : Nat → Machine → Prop) (k : List (Line L)) (m : Machine) : Prop :=
  ∀ n, ∃ t k' m', Passes p k m t k' m' ∧ n ≤ t.length ∧ ∀ i (h : i < t.length), P i t[i]

variable {P : Nat → Machine → Prop}

theorem Endless.run_eq_none (h : Endless p P k m) (env : Word → Machine → Machine) (n : Nat) :
    p.run env n k m = none := by
  cases hr : p.run env n k m with
  | none => rfl
  | some r =>
    obtain ⟨t, k', m', hpass, hlen, -⟩ := h ((p.visited env n k m).length + 1)
    obtain ⟨d, hd⟩ := hpass.run_eq env
    have hvis := (hd n).2
    rw [Program.visited_mono hr (Nat.le_add_right n d)] at hvis
    have := congrArg List.length hvis
    rw [List.length_append] at this
    omega

/-- What holds along the stretches holds of every machine passed. -/
theorem Endless.visited (h : Endless p P k m) (env : Word → Machine → Machine) (n i : Nat)
    (hi : i < (p.visited env n k m).length) : P i (p.visited env n k m)[i] := by
  obtain ⟨t, k', m', hpass, hlen, hP⟩ := h ((p.visited env n k m).length)
  obtain ⟨d, hd⟩ := hpass.run_eq env
  have hprefix : p.visited env n k m <+: p.visited env (n + d) k m := Program.visited_prefix (Nat.le_add_right n d) k m
  rw [(hd n).2] at hprefix
  have hget := hprefix.getElem hi
  rw [List.getElem_append_left (by omega)] at hget
  rw [hget]
  exact hP i _

/-- The run passes any number of machines. -/
theorem Endless.length_visited (h : Endless p P k m) (env : Word → Machine → Machine) (n : Nat) :
    ∃ fuel, n ≤ (p.visited env fuel k m).length := by
  obtain ⟨t, k', m', hpass, hlen, -⟩ := h n
  obtain ⟨d, hd⟩ := hpass.run_eq env
  refine ⟨0 + d, ?_⟩
  rw [(hd 0).2, List.length_append]
  omega

end

end Arm
