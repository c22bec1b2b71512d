import ShadowMsm.Stage0.Confinement

/-!
# Two runs of the callback

The callback entered twice, with machines that differ only in bytes `S` of memory.  As long as nothing is loaded from `S`
the two runs go side by side (`monitor_agree`).  Where a word with bytes of `S` has been loaded and the packet is refused
all the same, they meet again at `bad`: what may differ there is overwritten by the reply (`wp_bad_agree`), apart from
`r6`, which the callback does not look at before it takes it back from its frame.
-/

namespace ShadowMsm.Stage0

open Arm

/-- The routines the callback may call. -/
def Callee (t : Word) : Prop := t = PRINT_STRING ∨ SecondStage t

/-- What the routines do depends neither on the bytes of `S` nor on `r6`, which is their caller's. -/
def Blind (S : Word → Prop) (env : Word → Machine → Machine) : Prop :=
  ∀ t m m', Callee t → Agree [.reg .r6] S m m' → Agree [.reg .r6] S (env t m) (env t m')

/-- What the instructions up to `bad` may have changed; the reply writes it before it reads it, but for `r6`. -/
def deadAtBad : List Loc := [.reg .r1, .reg .r2, .reg .r3, .reg .r5, .reg .r6, .flags]

section

variable {env : Word → Machine → Machine} {S : Word → Prop} {A : Access → Prop} {m m' : Machine} {C : List Access}

/-- With `r6` the same in both, it is handed back the same. -/
theorem Blind.agree (hb : Blind S env) (henv : Preserves env) (t : Word) (m m' : Machine) (ht : Callee t)
    (h : Agree [] S m m') : Agree [] S (env t m) (env t m') := by
  apply (hb t m m' ht (h.mono fun l hl => absurd hl List.not_mem_nil)).known
  rw [henv.reg t m ht .r6 (by decide), henv.reg t m' ht .r6 (by decide)]
  exact h.reg .r6 List.not_mem_nil

theorem FrameAccess.clear (hframe : ∀ x, Within x (stackFrame m) 16 → ¬ S x)
    (hdigits : ∀ x, Within x HEX_TABLE_ADDR 16 → ¬ S x) (a : Access) (h : FrameAccess m a) : a.Clear Callee S := by
  cases a with
  | load a n =>
    rcases h with h | h
    · exact fun x hx => hframe x (h.within hx)
    · exact fun x hx => hdigits x (h.within hx)
  | store => trivial
  | call => exact Or.inl h

/-! ### Side by side -/

/-- A run that learns nothing of `S` is made in the same way from every machine alike. -/
theorem monitor_agree (henv : Preserves env) (hb : Blind S env) (hm : Entry m)
    (hA : CommandAccess (Access.Clear Callee S) m) (h : Alike [] [] S m m') :
    wpMonitor env m fun e M => wpMonitor env m' fun e' M' => e' = e ∧ Alike [] [] S M M' := by
  obtain ⟨n, e, M, hrun, C, hret, -⟩ := wp_monitor henv hm hA
  obtain ⟨L, hL, hclear, -⟩ := hret.logs
  refine ⟨n, e, M, hrun, ?_⟩
  rw [monitorRun] at hrun
  cases hr : handler.run env n handler.lines m with
  | none => simp [hr] at hrun
  | some q =>
    obtain ⟨e₁, M₁⟩ := q
    obtain ⟨l₁, hl₁⟩ := Program.run_log hr
    simp only [hr] at hrun
    split at hrun
    · rename_i he
      obtain ⟨l₂, hl₂⟩ := Program.run_log hrun
      obtain rfl : L = l₁ ++ l₂ := List.append_cancel_left (by rw [← hL, hl₂, hl₁, List.append_assoc])
      obtain ⟨M₁', hr', h₁⟩ := Program.run_agree handler.ignores_nil (hb.agree henv) hr trivial h fun l hl a ha =>
        hclear a (List.mem_append_left _ (by rw [List.append_cancel_left (hl₁.symm.trans hl)]; exact ha))
      obtain ⟨M', hrun', h₂⟩ := Program.run_agree inputHandler.ignores_nil (hb.agree henv) hrun trivial h₁ fun l hl a ha =>
        hclear a (List.mem_append_right _ (by rw [List.append_cancel_left (hl₂.symm.trans hl)]; exact ha))
      refine ⟨n, e, M', ?_, rfl, h₂⟩
      rw [monitorRun, hr']
      simpa only [he, if_true] using hrun'
    · rename_i he
      cases hrun
      obtain ⟨M', hr', h₁⟩ := Program.run_agree handler.ignores_nil (hb.agree henv) hr trivial h fun l hl a ha =>
        hclear a (by rw [List.append_cancel_left (hL.symm.trans hl)]; exact ha)
      refine ⟨n, e, M', ?_, rfl, h₁⟩
      rw [monitorRun, hr']
      simp only [he, if_false]

/-! ### From `bad` on -/

/-- `bad` up to the first use of the flags. -/
def badHead : List Op :=
  [.ldrc .r0 0xBAD00001, .ldrc .r1 MESSAGE_ADDR, .ldrc .r2 HEX_TABLE_ADDR, .mov .r3 (.imm 8), .mov .r5 (.lsr .r0 28),
   .ldrbR .r5 .r2 .r5, .strbPost .r5 .r1 1, .mov .r0 (.lsl .r0 4), .subs .r3 .r3 (.imm 1)]

/-- What follows it. -/
def badRest : List (Line Label) :=
  [.bne .hexLoop, .mov .r5 (.imm 0), .strb .r5 .r1 0, .ldrc .r0 MESSAGE_ADDR, .call PRINT_STRING] ++ successBlock

theorem wp_badHead {Q : Exit → Machine → Prop} : wp handler env (handler.codeAt .bad) m Q ↔
    wp handler env badRest (badHead.foldl Op.exec m) Q := by
  rw [show handler.codeAt .bad = badBlock ++ (replyHexBlock ++ (hexLoopBlock ++ successBlock)) from rfl]
  simp only [badBlock, replyHexBlock, hexLoopBlock, List.cons_append, List.nil_append, wp_label, wp_op_al]
  rfl

/-- The reply does not read `r6`. -/
theorem ignores_hexLoop : handler.Ignores [.reg .r6] (· <:+ handler.codeAt .hexLoop) := by
  have hcode : handler.codeAt .hexLoop = hexLoopBlock ++ successBlock := rfl
  apply Program.ignores_suffix
  · rw [hcode]
    decide
  · intro c l hl
    rw [hcode] at hl
    simp [hexLoopBlock, successBlock] at hl
    exact hl.2
  · intro l hl
    rw [hcode] at hl
    simp [hexLoopBlock, successBlock] at hl

/-- Two machines that meet at `bad` are alike but for `r6` when the reply has begun. -/
theorem alike_badHead (hdigits : ∀ x, Within x HEX_TABLE_ADDR 16 → ¬ S x) (h : Alike [.reg .r6] deadAtBad S m m') :
    Alike [.reg .r6] [.reg .r6] S (badHead.foldl Op.exec m) (badHead.foldl Op.exec m') := by
  -- the first digit is read from the table
  have hload : ∀ M : Machine, M.reg .r2 = HEX_TABLE_ADDR → M.reg .r5 = 0xB →
      ∀ a ∈ (Op.ldrbR .r5 .r2 .r5).accesses M, a.Clear Callee S := by
    intro M h2 h5 a ha
    simp only [Op.accesses, h2, h5, List.mem_singleton] at ha
    rw [ha]
    intro x hx
    apply hdigits
    simp only [Within] at hx ⊢
    bv_omega
  have h0 : Alike [.reg .r6] deadAtBad S _ _ :=
    h.exec (T := Callee) (o := .ldrc .r0 0xBAD00001) (by decide) (by simp [Op.accesses]) (by decide)
  have h1 : Alike [.reg .r6] [.reg .r2, .reg .r3, .reg .r5, .reg .r6, .flags] S _ _ :=
    h0.exec (T := Callee) (o := .ldrc .r1 MESSAGE_ADDR) (by decide) (by simp [Op.accesses]) (by decide)
  have h2 : Alike [.reg .r6] [.reg .r3, .reg .r5, .reg .r6, .flags] S _ _ :=
    h1.exec (T := Callee) (o := .ldrc .r2 HEX_TABLE_ADDR) (by decide) (by simp [Op.accesses]) (by decide)
  have h3 : Alike [.reg .r6] [.reg .r5, .reg .r6, .flags] S _ _ :=
    h2.exec (T := Callee) (o := .mov .r3 (.imm 8)) (by decide) (by simp [Op.accesses]) (by decide)
  have h4 : Alike [.reg .r6] [.reg .r6, .flags] S _ _ :=
    h3.exec (T := Callee) (o := .mov .r5 (.lsr .r0 28)) (by decide) (by simp [Op.accesses]) (by decide)
  have h5 : Alike [.reg .r6] [.reg .r6, .flags] S _ _ :=
    h4.exec (T := Callee) (o := .ldrbR .r5 .r2 .r5) (by decide)
      (hload _ (by simp [Op.exec, Op2.eval, Machine.reg_set]) (by simp [Op.exec, Op2.eval, Machine.reg_set])) (by decide)
  have h6 : Alike [.reg .r6] [.reg .r6, .flags] S _ _ :=
    h5.exec (T := Callee) (o := .strbPost .r5 .r1 1) (by decide) (by simp [Op.accesses, Access.Clear]) (by decide)
  have h7 : Alike [.reg .r6] [.reg .r6, .flags] S _ _ :=
    h6.exec (T := Callee) (o := .mov .r0 (.lsl .r0 4)) (by decide) (by simp [Op.accesses]) (by decide)
  exact h7.exec (T := Callee) (o := .subs .r3 .r3 (.imm 1)) (by decide) (by simp [Op.accesses]) (by decide)

/-- A packet refused: from `bad` the run ends with the reply, and in the same way from every machine that differs in
nothing but what is dead at `bad`. -/
theorem wp_bad_agree (henv : Preserves env) (hb : Blind S env) (hmsg : Apart (stackFrame m) 16 MESSAGE_ADDR 9)
    (hframe : ∀ x, Within x (stackFrame m) 16 → ¬ S x) (hdigits : ∀ x, Within x HEX_TABLE_ADDR 16 → ¬ S x)
    (hf : Framed (Access.Clear Callee S) m C m') :
    wp handler env (handler.codeAt .bad) m' fun e M => (e ≠ toInput ∧ M.reg .r6 = m.reg .r6) ∧
      ∀ m'', Alike [.reg .r6] deadAtBad S m' m'' → wp handler env (handler.codeAt .bad) m'' fun e' M' =>
        e' = e ∧ Alike [.reg .r6] [.reg .r6] S M M' := by
  have hrest : badRest <:+ handler.codeAt .hexLoop := ⟨hexLoopBlock.take 6, rfl⟩
  -- the run from `bad` on learns nothing of `S`
  have hrun : wp handler env badRest (badHead.foldl Op.exec m') fun e M => (e ≠ toInput ∧ M.reg .r6 = m.reg .r6) ∧
      ∀ l, M.log = (badHead.foldl Op.exec m').log ++ l → ∀ a ∈ l, a.Clear Callee S := by
    rw [← wp_badHead]
    refine wp_bad henv hmsg hf (FrameAccess.clear hframe hdigits) fun e M a _ hret => ⟨⟨hret.ne_toInput, hret.kept .r6 (by decide)⟩, ?_⟩
    intro l hl b hb
    obtain ⟨L, hL, hclear, -⟩ := hret.logs
    obtain ⟨l₀, h₀, -⟩ := hf.logs
    obtain ⟨l₁, h₁⟩ := log_foldl_exec badHead m'
    obtain rfl : L = l₀ ++ (l₁ ++ l) := List.append_cancel_left (by rw [← hL, hl, h₁, h₀]; simp)
    exact hclear b (by simp [hb])
  rw [wp_badHead]
  refine wp_mono (wp_agree ignores_hexLoop hb hrest hrun) fun e M h => ⟨h.1, fun m'' hm => ?_⟩
  rw [wp_badHead]
  exact h.2 _ (alike_badHead hdigits hm)

/-- The frame goes on as that of an activation that begins with the accesses made since. -/
theorem Framed.restart {B : Access → Prop} {D : List Loc} {l : List Access} {M : Machine} (h : Framed A m C m')
    (hc : Changed D l m' M) (hD : .reg .sp ∉ D) : Framed B { m with log := M.log } [] M where
  sp_eq := by rw [← hc.agree.reg .sp hD, h.sp_eq]
  saved := by
    intro x hx
    rw [← hc.agree.mem x not_false]
    exact h.saved x hx
  logs := .refl B _

end

end ShadowMsm.Stage0
