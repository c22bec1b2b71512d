import ShadowMsm.Bl1.Returns

/-!
# The checks that the listings share

The comparison of a device tree header, the test of the MMU and data cache bits, the failure exits and the jump are the
same text in BL1 0.2, 0.3 and 0.4.  Here they are followed once, in any listing that has the subroutines.
-/

namespace ShadowMsm.Bl1

open Arm

variable {y : Layout} {p : Program Label} {env : Word → Machine → Machine} {Q : Exit → Machine → Prop}
  {K : Mem → (Sys → Word) → Prop} {m₀ m : Machine} {v : Reg → Word} {k : List (Line Label)} {μ₀ : Mem} {swaps : Bool}

/-- The saved registers other than the scratch register `r9` are the same. -/
def AgreeOffR9 (v v' : Reg → Word) : Prop := ∀ r, r ≠ .r9 → v' r = v r

theorem agreeOffR9_update (v : Reg → Word) (w : Word) : AgreeOffR9 v (Function.update v .r9 w) :=
  fun _ hr => Function.update_of_ne hr _ _

theorem AgreeOffR9.trans {v₁ v₂ v₃ : Reg → Word} (h : AgreeOffR9 v₁ v₂) (h' : AgreeOffR9 v₂ v₃) : AgreeOffR9 v₁ v₃ :=
  fun r hr => (h' r hr).trans (h r hr)

/-! ### The device tree header -/

/-- The little-endian reading of the magic. -/
theorem magic_iff (μ : Mem) (a : Word) : load32 μ a = 0xEDFE0DD0 ↔ load32be μ a = 0xD00DFEED := by
  rw [← bswap32_load32]
  constructor
  · intro h
    rw [h]
    rfl
  · intro h
    rw [← bswap32_bswap32 (load32 μ a), h]
    rfl

/-- The magic and the total size of the tree at `DTB_ADDR`, where memory is as in `μ₀`. -/
def DtbHeader (μ : Mem) (total : Word) : Prop :=
  load32be μ 0x01F80000 = 0xD00DFEED ∧ load32be μ 0x01F80004 = total

/-- The two comparisons of the header, the second one through `bswap32`. -/
theorem wp_dtbHeader (μ₀ : Mem) (hs : Subroutines y p true) (henv : Resident env) (hK : Stable y env K)
    (hread : ∀ μ s, K μ s → SameOn μ μ₀ 0x01F80000 8) (h8 : v .r8 = 0x01F80000) (hm : Body K m₀ v m)
    (hfail : ¬ DtbHeader μ₀ (v .r5) → ∀ v' m', Body K m₀ v' m' → wp p env (p.codeAt .failDtb) m' Q)
    (hpass : DtbHeader μ₀ (v .r5) → ∀ v' m', AgreeOffR9 v v' → Body K m₀ v' m' → wp p env k m' Q) :
    wp p env (y.dtbMagicBlock ++ (y.dtbTotalBlock ++ k)) m Q := by
  have hl := hs.toLinked
  have hword {ν : Machine} {w : Reg → Word} (hν : Body K m₀ w ν) {a : Word} (ha : Inside a 4 0x01F80000 8) :
      load32 ν.mem a = load32 μ₀ a :=
    ((hread _ _ hν.inv).mono fun _ hx => ha.within hx).load32
  have hm8 : m.reg .r8 = 0x01F80000 := (hm.regs .r8 (by decide)).trans h8
  simp only [Layout.dtbMagicBlock, List.append_assoc, List.cons_append, List.nil_append]
  rw [wp_op_al]
  have h1 := hm.exec_update (o := .ldr .r9 .r8 0) rfl (by decide)
  have hr9 : ((Op.ldr .r9 .r8 0).exec m).reg .r9 = load32 μ₀ 0x01F80000 := by
    rw [← hword hm (by decide), ← Machine.loadWord_of_dvd (by decide)]
    simp [Op.exec, Machine.reg_set, hm8]
  rw [hr9] at h1
  apply wp_scratch hl henv hK (b := y.printAfter .dtbMagic (.mov .r1 (.reg .r9))) rfl h1
  intro m2 h2
  apply wp_cmp_const h2 (by decide)
  · rw [Function.update_self, holds_ne_sub, decide_eq_true_eq]
    intro hne m3 h3
    exact hfail (fun hp => hne ((magic_iff _ _).mpr hp.1)) _ m3 h3
  rw [Function.update_self, holds_ne_sub, decide_eq_false_iff_not, not_not]
  intro heq m3 h3
  -- the second word
  have h38 : m3.reg .r8 = 0x01F80000 := (h3.regs .r8 (by decide)).trans h8
  obtain ⟨k', hk'⟩ := hs.bswap32 rfl
  simp only [Layout.dtbTotalBlock, List.append_assoc, List.cons_append, List.nil_append]
  rw [wp_op_al]
  have h4 : Body K m₀ _ ((Op.ldr .r0 .r8 4).exec m3) := h3.exec rfl (by decide)
  have hr0 : ((Op.ldr .r0 .r8 4).exec m3).reg .r0 = load32 μ₀ 0x01F80004 := by
    rw [← hword h3 (by decide), ← Machine.loadWord_of_dvd (by decide)]
    simp [Op.exec, Machine.reg_set, h38]
  apply wp_bswap32 hk' h4
  intro m5 h5 hswap
  rw [hr0, bswap32_load32] at hswap
  rw [wp_op_al]
  have h6 := h5.exec_update (o := .mov .r9 (.reg .r0)) rfl (by decide)
  have hr9 : ((Op.mov .r9 (.reg .r0)).exec m5).reg .r9 = load32be μ₀ 0x01F80004 := by
    rw [← hswap]
    simp [Op.exec, Op2.eval, Machine.reg_set]
  rw [hr9] at h6
  have ha6 : AgreeOffR9 v _ := (agreeOffR9_update v (load32 μ₀ 0x01F80000)).trans
    (agreeOffR9_update _ (load32be μ₀ 0x01F80004))
  apply wp_scratch hl henv hK (b := y.printAfter .dtbTotal (.mov .r1 (.reg .r9))) rfl h6
  intro m7 h7
  apply wp_cmp (o := .reg .r5) h7 (by decide) ((h7.regs .r5 (by decide)).trans (ha6 .r5 (by decide)))
  · rw [Function.update_self, holds_ne_sub, decide_eq_true_eq]
    intro hne m8 h8
    exact hfail (fun hp => hne hp.2) _ m8 h8
  rw [Function.update_self, holds_ne_sub, decide_eq_false_iff_not, not_not]
  intro hsize m8 h8
  exact hpass ⟨(magic_iff _ _).mp heq, hsize⟩ _ m8 ha6 h8

/-! ### The state of the CPU -/

/-- MMU and data cache are off. -/
def Uncached (s : Sys → Word) : Prop := (s .sctlr).getLsbD 0 = false ∧ (s .sctlr).getLsbD 2 = false

/-- The test of the MMU and data cache bits. -/
theorem and_five_eq_zero (x : Word) : x &&& 0x05 = 0 ↔ x.getLsbD 0 = false ∧ x.getLsbD 2 = false := by
  constructor
  · intro h
    have h0 := congrArg (fun w : Word => w.getLsbD 0) h
    have h2 := congrArg (fun w : Word => w.getLsbD 2) h
    constructor
    · simpa using h0
    · simpa using h2
  · rintro ⟨h0, h2⟩
    apply BitVec.eq_of_getLsbD_eq
    intro i hi
    rw [BitVec.getLsbD_and]
    by_cases hi0 : i = 0
    · subst hi0
      rw [h0]
      rfl
    · by_cases hi2 : i = 2
      · subst hi2
        rw [h2]
        rfl
      · interval_cases i <;> simp at hi0 hi2 ⊢

theorem wp_cpuState (hl : Linked y p) (henv : Resident env) (hK : Stable y env K)
    (hread : ∀ μ s, K μ s → s .sctlr = m₀.sys .sctlr) (hm : Body K m₀ v m)
    (hfail : ¬ Uncached m₀.sys → ∀ v' m', Body K m₀ v' m' → wp p env (p.codeAt .failState) m' Q)
    (hpass : Uncached m₀.sys → ∀ v' m', AgreeOffR9 v v' → Body K m₀ v' m' → wp p env k m' Q) :
    wp p env (y.cpuBlock ++ k) m Q := by
  simp only [Layout.cpuBlock, List.append_assoc, List.cons_append, List.nil_append]
  apply wp_scratch hl henv hK (b := y.printLiteral .cpu) rfl hm
  intro m1 h1
  rw [wp_op_al]
  have h2 := h1.exec_update (o := .mrs .r9) rfl (by decide)
  apply wp_scratch hl henv hK (b := y.printAfter .cpsr (.mov .r1 (.reg .r9))) rfl h2
  intro m3 h3
  rw [wp_op_al]
  have h4 := h3.exec_update (o := .mrc .r9 .sctlr) rfl (by decide)
  have hr9 : ((Op.mrc .r9 .sctlr).exec m3).reg .r9 = m₀.sys .sctlr := by
    rw [Op.exec, Machine.reg_set, if_pos rfl]
    exact hread _ _ h3.inv
  rw [hr9] at h4
  have ha4 : AgreeOffR9 v _ := (agreeOffR9_update v (((Op.mrs .r9).exec m1).reg .r9)).trans
    (agreeOffR9_update _ (m₀.sys .sctlr))
  apply wp_scratch hl henv hK (b := y.printAfter .sctlr (.mov .r1 (.reg .r9))) rfl h4
  intro m5 h5
  have h6 : Body K m₀ _ ((Op.tst .r9 (.imm 0x05)).exec m5) := h5.exec rfl (by simp)
  have hr9' : m5.reg .r9 = m₀.sys .sctlr := by
    rw [h5.regs .r9 (by decide), Function.update_self]
  rw [wp_op_al, wp_b]
  have hflags : Cond.ne.holds ((Op.tst .r9 (.imm 0x05)).exec m5).flags = decide (m₀.sys .sctlr &&& 0x05 ≠ 0) := by
    rw [Op.exec, Machine.flags_setFlags, holds_ne_test, hr9']
    rfl
  rw [hflags]
  split
  · rename_i hne
    refine hfail (fun hp => ?_) _ _ h6
    rw [decide_eq_true_eq] at hne
    exact hne ((and_five_eq_zero _).mpr hp)
  · rename_i heq
    refine hpass ?_ _ _ ha4 h6
    rw [decide_eq_true_eq, not_not] at heq
    exact (and_five_eq_zero _).mp heq

/-! ### The ends -/

/-- A failure exit returns its code. -/
theorem wp_failReturn (hl : Linked y p) (henv : Resident env) (hK : Stable y env K) {l next : Label} {name : Text}
    {code : Word} (hfinish : ∃ k, p.codeAt .finish = Layout.finishBlock ++ k)
    (hcode : p.codeAt l = y.failBlock l name code ++ p.codeAt next ∨
      p.codeAt l = y.lastFailBlock l name code ++ p.codeAt .finish)
    (hm : Body K m₀ v m) (h : ∀ m', Left m₀ m' → m'.reg .r0 = code → Q ⟨.bx .r10, m₀.reg .lr⟩ m') :
    wp p env (p.codeAt l) m Q := by
  have hend : ∀ m', Body K m₀ v m' → m'.reg .r0 = code → wp p env (p.codeAt .finish) m' Q := by
    intro m' hm' h0
    obtain ⟨k, hk⟩ := hfinish
    rw [hk]
    apply wp_finish hm'
    intro m'' hleft h0'
    exact h m'' hleft (h0'.trans h0)
  rcases hcode with hcode | hcode
  all_goals
    rw [hcode]
    simp only [Layout.failBlock, Layout.lastFailBlock, List.cons_append, List.append_assoc, List.nil_append, wp_label]
    apply wp_scratch hl henv hK (b := y.printLiteral name) rfl hm
    intro m1 h1
    have h2 : Body K m₀ v ((Op.ldrc .r0 code).exec m1) := h1.exec rfl (by decide)
    have h0 : ((Op.ldrc .r0 code).exec m1).reg .r0 = code := by simp [Op.exec, Machine.reg_set]
    rw [wp_op_al]
  · rw [wp_b, holds_al, if_pos rfl]
    exact hend _ h2 h0
  · exact hend _ h2 h0

/-- The registers of the boot protocol, with IRQ and FIQ masked. -/
structure BootRegisters (m : Machine) : Prop where
  r0 : m.reg .r0 = 0
  r1 : m.reg .r1 = 0xFFFFFFFF
  r2 : m.reg .r2 = 0x01F80000
  irq : m.ctl.getLsbD 7 = true
  fiq : m.ctl.getLsbD 6 = true

/-- The armed prints and the jump. -/
theorem wp_jumpTo (hl : Linked y p) (henv : Resident env) (hK : Stable y env K) {kernel : Word}
    (h7 : v .r7 = kernel) (h8 : v .r8 = 0x01F80000) (hm : Body K m₀ v m)
    (h : ∀ m', BootRegisters m' → K m'.mem m'.sys → Q ⟨.bx .r7, kernel⟩ m') :
    wp p env (y.armedBlock kernel ++ (Layout.jumpBlock ++ k)) m Q := by
  apply wp_scratch hl henv hK (b := y.armedBlock kernel) rfl hm
  intro m1 h1
  have h17 : m1.reg .r7 = kernel := (h1.regs .r7 (by decide)).trans h7
  have h18 : m1.reg .r8 = 0x01F80000 := (h1.regs .r8 (by decide)).trans h8
  simp only [Layout.jumpBlock, List.cons_append, List.nil_append, wp_op_al, wp_bx, Op.exec, Op2.eval, Alu.eval]
  have hexit : ∀ {w : Word}, w = kernel → ∀ {m' : Machine}, Q ⟨.bx .r7, kernel⟩ m' → Q ⟨.bx .r7, w⟩ m' := by
    rintro w rfl m' hq
    exact hq
  refine hexit (by simp [Machine.reg_set, h17]) (h _ ?_ h1.inv)
  constructor
  all_goals simp [Machine.reg_set, h18]

end ShadowMsm.Bl1
