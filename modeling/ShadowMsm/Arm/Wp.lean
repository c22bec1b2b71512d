import ShadowMsm.Arm.Program

/-!
# Total correctness of listings

`wp p env k m Q` says that the run from the place `k` ends, and that the exit and the final machine satisfy `Q`.  Each
instruction has its equation, so that rewriting with them executes a listing symbolically; the lemmas about the
components of a changed machine make the symbolic states readable.
-/

namespace Arm

/-! ### Reading a changed machine -/

namespace Machine

variable (m : Machine) (r r' : Reg) (v : Word) (f : Flags) (μ : Mem) (s s' : Sys) (a : Access)

theorem reg_set : (m.set r v).reg r' = if r' = r then v else m.reg r' := by
  simp [set, Function.update_apply]

@[simp] theorem flags_set : (m.set r v).flags = m.flags := rfl
@[simp] theorem ctl_set : (m.set r v).ctl = m.ctl := rfl
@[simp] theorem sys_set : (m.set r v).sys = m.sys := rfl
@[simp] theorem mem_set : (m.set r v).mem = m.mem := rfl
@[simp] theorem log_set : (m.set r v).log = m.log := rfl

@[simp] theorem reg_setFlags : (m.setFlags f).reg = m.reg := rfl
@[simp] theorem flags_setFlags : (m.setFlags f).flags = f := rfl
@[simp] theorem ctl_setFlags : (m.setFlags f).ctl = m.ctl := rfl
@[simp] theorem sys_setFlags : (m.setFlags f).sys = m.sys := rfl
@[simp] theorem mem_setFlags : (m.setFlags f).mem = m.mem := rfl
@[simp] theorem log_setFlags : (m.setFlags f).log = m.log := rfl
@[simp] theorem setFlags_setFlags (g : Flags) : (m.setFlags f).setFlags g = m.setFlags g := rfl

@[simp] theorem reg_setMem : (m.setMem μ).reg = m.reg := rfl
@[simp] theorem flags_setMem : (m.setMem μ).flags = m.flags := rfl
@[simp] theorem ctl_setMem : (m.setMem μ).ctl = m.ctl := rfl
@[simp] theorem sys_setMem : (m.setMem μ).sys = m.sys := rfl
@[simp] theorem mem_setMem : (m.setMem μ).mem = μ := rfl
@[simp] theorem log_setMem : (m.setMem μ).log = m.log := rfl

@[simp] theorem reg_touch : (m.touch a).reg = m.reg := rfl
@[simp] theorem flags_touch : (m.touch a).flags = m.flags := rfl
@[simp] theorem ctl_touch : (m.touch a).ctl = m.ctl := rfl
@[simp] theorem sys_touch : (m.touch a).sys = m.sys := rfl
@[simp] theorem mem_touch : (m.touch a).mem = m.mem := rfl
@[simp] theorem log_touch : (m.touch a).log = m.log ++ [a] := rfl

@[simp] theorem reg_setCtl : (m.setCtl v).reg = m.reg := rfl
@[simp] theorem flags_setCtl : (m.setCtl v).flags = m.flags := rfl
@[simp] theorem ctl_setCtl : (m.setCtl v).ctl = v := rfl
@[simp] theorem sys_setCtl : (m.setCtl v).sys = m.sys := rfl
@[simp] theorem mem_setCtl : (m.setCtl v).mem = m.mem := rfl
@[simp] theorem log_setCtl : (m.setCtl v).log = m.log := rfl

@[simp] theorem loadWord_set (b : Word) : (m.set r v).loadWord b = m.loadWord b := rfl
@[simp] theorem loadWord_setFlags (b : Word) : (m.setFlags f).loadWord b = m.loadWord b := rfl
@[simp] theorem loadWord_touch (b : Word) : (m.touch a).loadWord b = m.loadWord b := rfl

@[simp] theorem log_callOut (env : Word → Machine → Machine) (target ret : Word) :
    (m.callOut env target ret).log = m.log ++ [.call target (m.set .lr ret).reg m.mem] := rfl

end Machine

/-! ### Conditions after a comparison -/

section conditions

variable (f : Flags) (x y : Word)

theorem holds_al : Cond.al.holds f = true := rfl
theorem holds_eq_sub : Cond.eq.holds (subFlags x y) = decide (x = y) := rfl
theorem holds_ne_sub : Cond.ne.holds (subFlags x y) = decide (x ≠ y) := by simp [Cond.holds, subFlags]
theorem holds_hs_sub : Cond.hs.holds (subFlags x y) = decide (y ≤ x) := rfl
theorem holds_lo_sub : Cond.lo.holds (subFlags x y) = decide (x < y) := by
  simp only [Cond.holds, subFlags, ← decide_not, BitVec.not_le]

theorem holds_hi_sub : Cond.hi.holds (subFlags x y) = decide (y < x) := by
  simp only [Cond.holds, subFlags, ← decide_not, ← Bool.decide_and, decide_eq_decide]
  bv_omega

theorem holds_ls_sub : Cond.ls.holds (subFlags x y) = decide (x ≤ y) := by
  simp only [Cond.holds, subFlags, ← decide_not, ← Bool.decide_or, decide_eq_decide]
  bv_omega

theorem holds_ne_test : Cond.ne.holds (testFlags f x) = decide (x ≠ 0) := by simp [Cond.holds, testFlags]
theorem holds_hs_add : Cond.hs.holds (addFlags x y) = decide (2 ^ 32 ≤ x.toNat + y.toNat) := rfl

end conditions

@[simp] theorem wordBytes_nil : wordBytes [] = 0 := rfl

@[simp] theorem wordBytes_cons (r : Reg) (rs : List Reg) : wordBytes (r :: rs) = wordBytes rs + 4 := by
  simp [wordBytes, Nat.mul_add]

/-! ### The predicate transformer -/

section wp

variable {L : Type} [DecidableEq L] {p : Program L} {env : Word → Machine → Machine}
  {k : List (Line L)} {m : Machine} {Q R : Exit → Machine → Prop}

/-- The run from `k` ends, in an exit and a machine that satisfy `Q`. -/
def wp (p : Program L) (env : Word → Machine → Machine) (k : List (Line L)) (m : Machine)
    (Q : Exit → Machine → Prop) : Prop :=
  ∃ n r, p.run env n k m = some r ∧ Q r.1 r.2

theorem wp_mono (h : wp p env k m Q) (hQ : ∀ e m', Q e m' → R e m') : wp p env k m R := by
  obtain ⟨n, r, hr, hq⟩ := h
  exact ⟨n, r, hr, hQ _ _ hq⟩

/-- What is shown of one run holds of every run. -/
theorem of_wp (h : wp p env k m Q) {n : Nat} {e : Exit} {m' : Machine} (hr : p.run env n k m = some (e, m')) :
    Q e m' := by
  obtain ⟨n', r, hr', hq⟩ := h
  obtain rfl := Program.run_det hr hr'
  exact hq

theorem wp_and (h : wp p env k m Q) (h' : wp p env k m R) : wp p env k m fun e m' => Q e m' ∧ R e m' := by
  obtain ⟨n, r, hr, hq⟩ := h
  exact ⟨n, r, hr, hq, of_wp h' hr⟩

private theorem wp_step {k' : List (Line L)} {m' : Machine}
    (h : ∀ n, p.run env (n + 1) k m = p.run env n k' m') : wp p env k m Q ↔ wp p env k' m' Q := by
  constructor
  · rintro ⟨n, r, hr, hq⟩
    cases n with
    | zero => simp [Program.run] at hr
    | succ n => exact ⟨n, r, by rw [← h n]; exact hr, hq⟩
  · rintro ⟨n, r, hr, hq⟩
    exact ⟨n + 1, r, by rw [h n]; exact hr, hq⟩

private theorem wp_exit {e : Exit} {m' : Machine} (h : ∀ n, p.run env (n + 1) k m = some (e, m')) :
    wp p env k m Q ↔ Q e m' := by
  constructor
  · rintro ⟨n, r, hr, hq⟩
    cases n with
    | zero => simp [Program.run] at hr
    | succ n =>
      rw [h n] at hr
      cases hr
      exact hq
  · exact fun hq => ⟨1, (e, m'), h 0, hq⟩

theorem wp_label {l : L} : wp p env (.label l :: k) m Q ↔ wp p env k m Q :=
  wp_step fun _ => rfl

theorem wp_op {c : Cond} {o : Op} :
    wp p env (.instr (.op c o) :: k) m Q ↔ wp p env k (if c.holds m.flags then o.exec m else m) Q :=
  wp_step fun _ => rfl

theorem wp_op_al {o : Op} : wp p env (.instr (.op .al o) :: k) m Q ↔ wp p env k (o.exec m) Q :=
  wp_step fun _ => rfl

/-- A conditional instruction, as two cases. -/
theorem wp_op_if {c : Cond} {o : Op} :
    wp p env (.instr (.op c o) :: k) m Q ↔
      if c.holds m.flags then wp p env k (o.exec m) Q else wp p env k m Q := by
  rw [wp_op]
  split
  · rfl
  · rfl

theorem wp_b {c : Cond} {l : L} :
    wp p env (.instr (.b c l) :: k) m Q ↔
      if c.holds m.flags then wp p env (p.codeAt l) m Q else wp p env k m Q := by
  split
  · rename_i hc
    exact wp_step fun n => by simp [Program.run, hc]
  · rename_i hc
    exact wp_step fun n => by simp [Program.run, hc]

theorem wp_bAbs {a : Word} : wp p env (.instr (.bAbs a) :: k) m Q ↔ Q ⟨.branch, a⟩ m :=
  wp_exit fun _ => rfl

theorem wp_call {a : Word} :
    wp p env (.instr (.call a) :: k) m Q ↔ wp p env k (m.callOut env a (p.addr k)) Q :=
  wp_step fun _ => rfl

theorem wp_blx {r : Reg} :
    wp p env (.instr (.blx r) :: k) m Q ↔ wp p env k (m.callOut env (m.reg r) (p.addr k)) Q :=
  wp_step fun _ => rfl

theorem wp_bx {r : Reg} : wp p env (.instr (.bx r) :: k) m Q ↔ Q ⟨.bx r, m.reg r⟩ m :=
  wp_exit fun _ => rfl

theorem wp_popPc {rs : List Reg} :
    wp p env (.instr (.popPc rs) :: k) m Q ↔
      Q ⟨.pop, load32 m.mem (align (m.reg .sp) + BitVec.ofNat 32 (wordBytes rs))⟩
        (((popInto m (align (m.reg .sp)) rs).set .sp (m.reg .sp + BitVec.ofNat 32 (wordBytes rs + 4))).touch
          (.load (align (m.reg .sp)) (wordBytes rs + 4))) :=
  wp_exit fun _ => rfl

/-- A call inside the listing: the callee runs, and the caller goes on if it is returned to. -/
theorem wp_bl {l : L} :
    wp p env (.instr (.bl l) :: k) m Q ↔
      wp p env (p.codeAt l) (m.set .lr (p.addr k))
        (fun e m' => if e.target = p.addr k then wp p env k m' Q else Q e m') := by
  constructor
  · rintro ⟨n, r, hr, hq⟩
    cases n with
    | zero => simp [Program.run] at hr
    | succ n =>
      rw [Program.run] at hr
      cases hc : p.run env n (p.codeAt l) (m.set .lr (p.addr k)) with
      | none => simp [hc] at hr
      | some c =>
        obtain ⟨e, m'⟩ := c
        simp only [hc] at hr
        refine ⟨n, (e, m'), hc, ?_⟩
        split at hr
        · rename_i he
          simp only [he, if_true]
          exact ⟨n, r, hr, hq⟩
        · rename_i he
          simp only [he, if_false]
          cases hr
          exact hq
  · rintro ⟨n, ⟨e, m'⟩, hc, hq⟩
    simp only at hq
    split at hq
    · rename_i he
      obtain ⟨n', r, hr, hq⟩ := hq
      refine ⟨max n n' + 1, r, ?_, hq⟩
      rw [Program.run]
      simp only [Program.run_mono hc (Nat.le_max_left n n'), he, if_true,
        Program.run_mono hr (Nat.le_max_right n n')]
    · rename_i he
      refine ⟨n + 1, (e, m'), ?_, hq⟩
      rw [Program.run]
      simp only [hc, he, if_false]

/-- A subroutine that returns to its caller. -/
theorem wp_bl_of_return {l : L}
    (h : wp p env (p.codeAt l) (m.set .lr (p.addr k)) fun e m' => e.target = p.addr k ∧ wp p env k m' Q) :
    wp p env (.instr (.bl l) :: k) m Q := by
  rw [wp_bl]
  refine wp_mono h fun e m' hq => ?_
  simpa only [hq.1, if_true] using hq.2

end wp

end Arm
