import ShadowMsm.Arm.Footprint

/-!
# What a run passes through

`visited` lists the machines in front of the instructions of a run, those of the subroutines of the listing included.
`wpAlong p env A k m Q` is `wp p env k m Q` with a condition `A` on that list as well.  The conditions of interest grow
with a run: a machine that satisfies `W` may be put in front of every list.
-/

namespace Arm

namespace Program

variable {L : Type} [DecidableEq L] {p : Program L} {env : Word → Machine → Machine}

/-- The machines in front of the instructions that `run` follows, in order. -/
def visited (p : Program L) (env : Word → Machine → Machine) : Nat → List (Line L) → Machine → List Machine
  | 0, _, _ => []
  | _ + 1, [], _ => []
  | fuel + 1, .label _ :: k, m => visited p env fuel k m
  | fuel + 1, .instr i :: k, m =>
    m :: match i with
    | .op c o => visited p env fuel k (if c.holds m.flags then o.exec m else m)
    | .b c l => if c.holds m.flags then visited p env fuel (p.codeAt l) m else visited p env fuel k m
    | .bl l =>
      visited p env fuel (p.codeAt l) (m.set .lr (p.addr k)) ++
        match run p env fuel (p.codeAt l) (m.set .lr (p.addr k)) with
        | none => []
        | some (e, m') => if e.target = p.addr k then visited p env fuel k m' else []
    | .call a => visited p env fuel k (m.callOut env a (p.addr k))
    | .blx r => visited p env fuel k (m.callOut env (m.reg r) (p.addr k))
    | .bAbs _ | .bx _ | .popPc _ => []

theorem visited_succ {n : Nat} {k : List (Line L)} {m : Machine} {r : Exit × Machine}
    (h : run p env n k m = some r) : visited p env (n + 1) k m = visited p env n k m := by
  induction n generalizing k m r with
  | zero => simp [run] at h
  | succ n ih =>
    rcases k with - | ⟨(l | i), k⟩
    · simp [run] at h
    · exact ih h
    · cases i with
      | op c o => exact congrArg (m :: ·) (ih h)
      | b c l =>
        rw [run] at h
        simp only [visited]
        by_cases hc : c.holds m.flags = true
        · simp only [hc, if_true] at h ⊢
          rw [ih h]
        · simp only [hc, Bool.false_eq_true, if_false] at h ⊢
          rw [ih h]
      | bl l =>
        rw [run] at h
        simp only [visited]
        cases hr : run p env n (p.codeAt l) (m.set .lr (p.addr k)) with
        | none => simp [hr] at h
        | some q =>
          obtain ⟨e, m'⟩ := q
          simp only [hr, run_succ hr, ih hr] at h ⊢
          by_cases he : e.target = p.addr k
          · simp only [he, if_true] at h ⊢
            rw [ih h]
          · simp only [he, if_false]
      | call a => exact congrArg (m :: ·) (ih h)
      | blx r => exact congrArg (m :: ·) (ih h)
      | bAbs a => rfl
      | bx r => rfl
      | popPc rs => rfl

/-- More fuel than a run needs makes no difference. -/
theorem visited_mono {n n' : Nat} {k : List (Line L)} {m : Machine} {r : Exit × Machine}
    (h : run p env n k m = some r) (hn : n ≤ n') : visited p env n' k m = visited p env n k m := by
  induction hn with
  | refl => rfl
  | step hn ih => rw [visited_succ (run_mono h hn), ih]

end Program

/-! ### Conditions on the machines passed -/

/-- A machine that satisfies `W` may be put in front of a list that satisfies `A`. -/
def Grows (W : Machine → Prop) (A : List Machine → Prop) : Prop := ∀ m t, W m → A t → A (m :: t)

/-- Every machine passed satisfies `W`. -/
def AllAlong (W : Machine → Prop) (t : List Machine) : Prop := ∀ m ∈ t, W m

/-- Every machine passed satisfies `W`, and one of them `O`. -/
def MeetsAlong (W O : Machine → Prop) (t : List Machine) : Prop := AllAlong W t ∧ ∃ m ∈ t, O m

variable {W O : Machine → Prop} {A B : List Machine → Prop}

theorem grows_all : Grows W (AllAlong W) := fun _ _ hm ht => List.forall_mem_cons.mpr ⟨hm, ht⟩

theorem grows_meets : Grows W (MeetsAlong W O) := by
  rintro m t hm ⟨ht, s, hs, ho⟩
  exact ⟨grows_all m t hm ht, s, List.mem_cons_of_mem _ hs, ho⟩

theorem meets_cons {m : Machine} {t : List Machine} (hm : W m) (ho : O m) (ht : AllAlong W t) :
    MeetsAlong W O (m :: t) :=
  ⟨grows_all m t hm ht, m, by simp, ho⟩

theorem Grows.append (hA : Grows W A) {t t' : List Machine} (ht : AllAlong W t) (ht' : A t') : A (t ++ t') := by
  induction t with
  | nil => exact ht'
  | cons m t ih =>
    obtain ⟨hm, ht⟩ := List.forall_mem_cons.mp ht
    exact hA m _ hm (ih ht)

/-! ### The predicate transformer -/

section

variable {L : Type} [DecidableEq L] {p : Program L} {env : Word → Machine → Machine} {k : List (Line L)} {m : Machine}
  {Q : Exit → Machine → Prop}

/-- The run from `k` ends in an exit and a machine that satisfy `Q`, and the machines it passes satisfy `A`. -/
def wpAlong (p : Program L) (env : Word → Machine → Machine) (A : List Machine → Prop) (k : List (Line L))
    (m : Machine) (Q : Exit → Machine → Prop) : Prop :=
  ∃ n e m', p.run env n k m = some (e, m') ∧ A (p.visited env n k m) ∧ Q e m'

theorem wp_of_along (h : wpAlong p env A k m Q) : wp p env k m Q := by
  obtain ⟨n, e, m', hr, -, hq⟩ := h
  exact ⟨n, (e, m'), hr, hq⟩

/-- Without a condition on the machines passed. -/
theorem along_of_wp (h : wp p env k m Q) : wpAlong p env (fun _ => True) k m Q := by
  obtain ⟨n, ⟨e, m'⟩, hr, hq⟩ := h
  exact ⟨n, e, m', hr, trivial, hq⟩

theorem wpAlong_label {l : L} (h : wpAlong p env A k m Q) : wpAlong p env A (.label l :: k) m Q := by
  obtain ⟨n, e, m', hr, ha, hq⟩ := h
  exact ⟨n + 1, e, m', hr, ha, hq⟩

/-- An instruction, and the condition left for the rest of the run. -/
theorem wpAlong_op {o : Op} (hA : ∀ t, B t → A (m :: t)) (h : wpAlong p env B k (o.exec m) Q) :
    wpAlong p env A (.instr (.op .al o) :: k) m Q := by
  obtain ⟨n, e, m', hr, ha, hq⟩ := h
  exact ⟨n + 1, e, m', hr, hA _ ha, hq⟩

theorem wpAlong_b {c : Cond} {l : L} (hA : Grows W A) (hm : W m)
    (ht : c.holds m.flags = true → wpAlong p env A (p.codeAt l) m Q)
    (hf : c.holds m.flags = false → wpAlong p env A k m Q) : wpAlong p env A (.instr (.b c l) :: k) m Q := by
  cases hc : c.holds m.flags with
  | true =>
    obtain ⟨n, e, m', hr, ha, hq⟩ := ht hc
    exact ⟨n + 1, e, m', by simpa [Program.run, hc] using hr, by simpa [Program.visited, hc] using hA m _ hm ha, hq⟩
  | false =>
    obtain ⟨n, e, m', hr, ha, hq⟩ := hf hc
    exact ⟨n + 1, e, m', by simpa [Program.run, hc] using hr, by simpa [Program.visited, hc] using hA m _ hm ha, hq⟩

theorem wpAlong_call {a : Word} (hA : Grows W A) (hm : W m)
    (h : wpAlong p env A k (m.callOut env a (p.addr k)) Q) : wpAlong p env A (.instr (.call a) :: k) m Q := by
  obtain ⟨n, e, m', hr, ha, hq⟩ := h
  exact ⟨n + 1, e, m', hr, hA m _ hm ha, hq⟩

/-- A subroutine that returns to its caller. -/
theorem wpAlong_bl {l : L} (hA : Grows W A) (hm : W m)
    (h : wpAlong p env (AllAlong W) (p.codeAt l) (m.set .lr (p.addr k))
      fun e m' => e.target = p.addr k ∧ wpAlong p env A k m' Q) : wpAlong p env A (.instr (.bl l) :: k) m Q := by
  obtain ⟨n, e, m', hr, ha, he, n', e', m'', hr', ha', hq⟩ := h
  have hr1 := Program.run_mono hr (Nat.le_max_left n n')
  have hr2 := Program.run_mono hr' (Nat.le_max_right n n')
  refine ⟨max n n' + 1, e', m'', ?_, ?_, hq⟩
  · rw [Program.run]
    simp only [hr1, he, if_true, hr2]
  · rw [Program.visited]
    simp only [hr1, he, if_true, Program.visited_mono hr (Nat.le_max_left n n'),
      Program.visited_mono hr' (Nat.le_max_right n n')]
    exact hA m _ hm (hA.append ha ha')

theorem wpAlong_bx {r : Reg} (hm : W m) (h : Q ⟨.bx r, m.reg r⟩ m) :
    wpAlong p env (AllAlong W) (.instr (.bx r) :: k) m Q :=
  ⟨1, _, _, rfl, by simpa [Program.visited, AllAlong] using hm, h⟩

theorem wpAlong_popPc {rs : List Reg} (hm : W m)
    (h : Q ⟨.pop, load32 m.mem (align (m.reg .sp) + BitVec.ofNat 32 (wordBytes rs))⟩ (m.popped rs)) :
    wpAlong p env (AllAlong W) (.instr (.popPc rs) :: k) m Q :=
  ⟨1, _, _, rfl, by simpa [Program.visited, AllAlong] using hm, h⟩

/-! ### Blocks that keep an invariant -/

/-- A line keeps `I` under the watch of `W`: it may be put in front of whatever runs from the machines that satisfy
`I`. -/
def KeepsAlong (p : Program L) (env : Word → Machine → Machine) (W I : Machine → Prop) (l : Line L) : Prop :=
  ∀ A Q k m, Grows W A → I m → (∀ m', I m' → wpAlong p env A k m' Q) → wpAlong p env A (l :: k) m Q

variable {I : Machine → Prop}

/-- The rule of a block. -/
theorem wpAlong_block {b : List (Line L)} (hA : Grows W A) (hb : ∀ l ∈ b, KeepsAlong p env W I l) (hm : I m)
    (h : ∀ m', I m' → wpAlong p env A k m' Q) : wpAlong p env A (b ++ k) m Q := by
  induction b generalizing m with
  | nil => exact h m hm
  | cons l b ih =>
    apply hb l (by simp) A Q _ m hA hm
    intro m' hm'
    exact ih (fun l' hl' => hb l' (List.mem_cons_of_mem _ hl')) hm'

theorem keepsAlong_op {o : Op} (hI : ∀ m, I m → W m) (ho : ∀ m, I m → I (o.exec m)) :
    KeepsAlong p env W I (.instr (.op .al o)) := by
  intro A Q k m hA hm h
  exact wpAlong_op (fun t => hA m t (hI m hm)) (h _ (ho m hm))

theorem keepsAlong_call {a : Word} (hI : ∀ m, I m → W m) (ha : ∀ m ret, I m → I (m.callOut env a ret)) :
    KeepsAlong p env W I (.instr (.call a)) := by
  intro A Q k m hA hm h
  exact wpAlong_call hA (hI m hm) (h _ (ha m _ hm))

end

end Arm
