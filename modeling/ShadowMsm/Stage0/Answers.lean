import ShadowMsm.Stage0.Confinement

/-!
# What the callback answers

The answer to every packet, as a table over the subcommand: the register a query reads, the CRC of a range, the result
of a second stage, or one of the two error codes.
-/

namespace ShadowMsm.Stage0

open Arm

/-- The flags of a comparison that has found its entry; a query of the CPSR reports these and not the caller's. -/
def dispatchFlags : Flags := ⟨false, true, true, false⟩

/-- The registers that the queries read. -/
def queryValue (m : Machine) : Label → Option Word
  | .getMidr => some (m.sys .midr)
  | .getCtr => some (m.sys .ctr)
  | .getTcmtr => some (m.sys .tcmtr)
  | .getCpsr => some (Machine.flagBits dispatchFlags ||| (m.ctl &&& 0x0FFFFFFF))
  | .getSctlr => some (m.sys .sctlr)
  | .getTtbr => some (m.sys .ttbr)
  | .getDacr => some (m.sys .dacr)
  | .getDfsr => some (m.sys .dfsr)
  | .getIfsr => some (m.sys .ifsr)
  | .getFar => some (m.sys .far)
  | .getSp => some (m.reg .sp - 16)
  | _ => none

/-- An operand of the packet, as the callback loads it behind its push. -/
def operandWord (m : Machine) (off : Word) : Word := (m.setMem (pushed m)).loadWord (m.reg .r0 + off)

/-- The value that `crc32_range` replies. -/
def crcAnswer (m : Machine) : Word :=
  if SafeRange (operandWord m 8) (operandWord m 12) then
    crc32 (bytesAt (pushed m) (operandWord m 8) (operandWord m 12).toNat)
  else 0xBAD00001

/-- The machine with which a second stage is entered from the callback `m`. -/
structure Stage2Call (m c : Machine) : Prop where
  r0 : c.reg .r0 = operandWord m 12
  r1 : c.reg .r1 = operandWord m 16
  r2 : c.reg .r2 = operandWord m 20
  sp : c.reg .sp = m.reg .sp - 16
  kept : ∀ r ∈ [Reg.r7, .r8, .r9, .r10, .r11], c.reg r = m.reg r
  mem : c.mem = pushed m
  ctl : c.ctl = m.ctl
  sys : c.sys = m.sys

/-- One call, which prints a word. -/
def Replies (μ : Mem) (v : Word) (C : List Access) : Prop := ∃ a, Reply μ v a ∧ C = [a]

/-- The calls that answer a command. -/
def AnswerOf (env : Word → Machine → Machine) (m : Machine) (C : List Access) : Option Label → Prop
  | none => Replies (pushed m) 0xBAD00000 C
  | some .banner => ∃ reg, reg .r0 = BANNER_ADDR ∧ C = [.call PRINT_STRING reg (pushed m)]
  | some .mailboxInput => C = []
  | some .crc32Range => Replies (pushed m) (crcAnswer m) C
  | some .callStage2 =>
    if SecondStage (operandWord m 8) then
      ∃ c a, Stage2Call m c ∧ Reply (env (operandWord m 8) c).mem ((env (operandWord m 8) c).reg .r0) a ∧
        C = [.call (operandWord m 8) c.reg c.mem, a]
    else Replies (pushed m) 0xBAD00001 C
  | some l => ∃ v, queryValue m l = some v ∧ Replies (pushed m) v C

/-- The entry of the table for the packet. -/
def commandOf (m : Machine) : Option Label := commandTable.lookup ((m.mem (m.reg .r0 + 7)).setWidth 32)

/-- The callback has returned, and its calls are the answer to the packet. -/
structure Answered (env : Word → Machine → Machine) (m : Machine) (e : Exit) (m' : Machine) : Prop where
  returned : ∃ C, Returned (Confined m) m C e m' ∧
    if IsCommand m.mem (m.reg .r0) then AnswerOf env m C (commandOf m) else Replies (pushed m) 0xBAD00001 C
  /-- A packet of input is in the mailbox. -/
  input : IsSubcommand m.mem (m.reg .r0) 0x0E → m'.mem = inputMem (pushed m) (m.reg .r0)

section

variable {env : Word → Machine → Machine} {Q : Exit → Machine → Prop} {A : Access → Prop} {m m' : Machine}
  {C : List Access}

/-! ### The dispatch -/

/-- The dispatch as in `wp_dispatch`, with the flags of the comparison that branches. -/
theorem wp_dispatchFlags {es : List (Word × Label)} {k : List (Line Label)}
    (hsome : ∀ l, es.lookup (m.reg .r5) = some l →
      wp handler env (handler.codeAt l) (m.setFlags (subFlags (m.reg .r5) (m.reg .r5))) Q)
    (hnone : es.lookup (m.reg .r5) = none → ∀ f, wp handler env k (m.setFlags f) Q) :
    wp handler env ((es.flatMap fun e => dispatch e.1 e.2) ++ k) m Q := by
  induction es generalizing m with
  | nil => exact hnone rfl m.flags
  | cons e es ih =>
    obtain ⟨n, l⟩ := e
    simp only [List.flatMap_cons, dispatch, List.cons_append, List.nil_append, wp_op, wp_b, holds_al, if_true, Op.exec,
      Op2.eval, Machine.flags_setFlags, holds_eq_sub, decide_eq_true_eq]
    split
    · rename_i he
      have h := hsome l (by simp [he])
      rwa [he] at h ⊢
    · rename_i hn
      apply ih
      · intro l' hl'
        exact hsome l' (by simpa [List.lookup_cons, beq_false_of_ne hn] using hl')
      · intro hl' f
        exact hnone (by simpa [List.lookup_cons, beq_false_of_ne hn] using hl') f

theorem subFlags_self (x : Word) : subFlags x x = dispatchFlags := by
  simp [subFlags, dispatchFlags]

/-! ### The call gate -/

/-- An address that may be called is called, and its result is the reply. -/
theorem wp_gate (henv : Preserves env) (hmsg : Apart (stackFrame m) 16 MESSAGE_ADDR 9) (hm : Framed A m C m')
    (hA : ∀ a, FrameAccess m a → A a) (h8 : A (.load (align (m.reg .r0 + 8)) 4))
    (hargs : ∀ off ∈ [(12 : Word), 16, 20], A (.load (align (m.reg .r0 + off)) 4))
    (hcall : ∀ t reg μ, SecondStage t → A (.call t reg μ)) (h4 : m'.reg .r4 = m.reg .r0) (hmem : m'.mem = pushed m)
    (hkept : ∀ r ∈ [Reg.r7, .r8, .r9, .r10, .r11], m'.reg r = m.reg r) (hctl : m'.ctl = m.ctl) (hsys : m'.sys = m.sys)
    (hs : SecondStage (operandWord m 8))
    (h : ∀ c e m'' a, Stage2Call m c → Reply (env (operandWord m 8) c).mem ((env (operandWord m 8) c).reg .r0) a →
      Returned A m (C ++ [.call (operandWord m 8) c.reg c.mem] ++ [a]) e m'' → Q e m'') :
    wp handler env (handler.codeAt .callStage2) m' Q := by
  have hword : ∀ off, m'.loadWord (m.reg .r0 + off) = operandWord m off := by
    intro off
    rw [operandWord, Machine.loadWord, Machine.loadWord, hmem]
    rfl
  have hlow : ¬ (operandWord m 8 &&& 3 ≠ 0) := not_not.mpr (and_three_eq_zero.mpr hs.1)
  have hlo : ¬ operandWord m 8 < SAFE_RAM_START := BitVec.not_lt.mpr hs.2.1
  have hhi : ¬ SAFE_RAM_END ≤ operandWord m 8 := BitVec.not_le.mpr hs.2.2
  have hcode : handler.codeAt .callStage2 =
      callStage2Block ++ (badBlock ++ replyHexBlock ++ hexLoopBlock ++ successBlock) := rfl
  rw [hcode]
  simp only [callStage2Block, List.cons_append, List.nil_append, wp_label, wp_op, wp_b, wp_blx, holds_al, if_true,
    Op.exec, Op2.eval, Machine.flags_setFlags, Machine.reg_set, Machine.reg_touch, Machine.reg_setFlags, reduceCtorEq,
    if_false, h4, Machine.loadWord_set, Machine.loadWord_touch, Machine.loadWord_setFlags, hword, holds_lo_sub,
    holds_hs_sub, holds_ne_test, decide_eq_true_eq, hlow, hlo, hhi]
  have f1 := ((hm.set (r := .r6) (v := operandWord m 8)).load h8).setFlags
    (f := testFlags m'.flags (operandWord m 8 &&& 3))
  have f2 := (f1.set (r := .r5) (v := SAFE_RAM_START)).setFlags (f := subFlags (operandWord m 8) SAFE_RAM_START)
  have f3 := (f2.set (r := .r5) (v := SAFE_RAM_END)).setFlags (f := subFlags (operandWord m 8) SAFE_RAM_END)
  have f4 := (f3.set (r := .r0) (v := operandWord m 12)).load (hargs 12 (by simp))
  have f5 := (f4.set (r := .r1) (v := operandWord m 16)).load (hargs 16 (by simp))
  have f6 := (f5.set (r := .r2) (v := operandWord m 20)).load (hargs 20 (by simp))
  refine wp_replyHex henv hmsg (f6.callOut henv (Or.inr hs) (hcall _ _ _ hs)) hA fun e m'' a ha hr => ?_
  refine h _ e m'' a ?_ ha hr
  constructor
  · rfl
  · rfl
  · rfl
  · simp [Machine.reg_set, hm.sp_eq]
  · intro r hr'
    rw [← hkept r hr']
    simp only [List.mem_cons, List.not_mem_nil, or_false] at hr'
    rcases hr' with rfl | rfl | rfl | rfl | rfl
    all_goals simp [Machine.reg_set]
  · exact hmem
  · exact hctl
  · exact hsys

/-! ### The table -/

/-- What a command finds when it has been dispatched. -/
structure Dispatched (m m' : Machine) : Prop where
  framed : Framed (Confined m) m [] m'
  mem : m'.mem = pushed m
  packet : m'.reg .r4 = m.reg .r0
  kept : ∀ r ∈ [Reg.r7, .r8, .r9, .r10, .r11], m'.reg r = m.reg r
  ctl : m'.ctl = m.ctl
  sys : m'.sys = m.sys

theorem Dispatched.operand (h : Dispatched m m') (off : Word) : m'.loadWord (m.reg .r0 + off) = operandWord m off := by
  rw [operandWord, Machine.loadWord, Machine.loadWord, h.mem]
  rfl

theorem dispatched_of_entered (hf : Framed (Confined m) m [] m') (hmem : m'.mem = pushed m)
    (h4 : m'.reg .r4 = m.reg .r0) (hent : Entered m m') (f : Flags) : Dispatched m (m'.setFlags f) where
  framed := hf.setFlags
  mem := hmem
  packet := h4
  kept r hr := by
    have hne : Loc.reg r ∉ [Loc.reg .r4, .reg .r5, .flags] ∧ r ≠ .sp := by
      revert hr
      cases r <;> decide
    rw [Machine.reg_setFlags, ← hent.agree.reg r hne.1, Op.exec, Machine.reg_touch, Machine.reg_set, if_neg hne.2]
    rfl
  ctl := hent.agree.ctl.symm
  sys := hent.agree.sys.symm

/-- The queries. -/
private theorem wp_queryAnswer (henv : Preserves env) (hm : Entry m) (hd : Dispatched m m') {l : Label} {o : Op}
    {k : List (Line Label)} (hcode : handler.codeAt l = .label l :: .instr (.op .al o) :: .b .replyHex :: k) {v : Word}
    (ho : o.exec m' = m'.set .r0 v) (hv : queryValue m l = some v)
    (h : ∀ C e m'', Returned (Confined m) m C e m'' → (∃ v, queryValue m l = some v ∧ Replies (pushed m) v C) →
      Q e m'') :
    wp handler env (handler.codeAt l) m' Q := by
  apply wp_query henv hm.message hd.framed (commandAccess_confined m).frame hcode ho
  intro e m'' a ha hret
  rw [hd.mem] at ha
  exact h _ e m'' hret ⟨v, hv, a, ha, rfl⟩

private theorem wp_crcAnswer (henv : Preserves env) (hm : Entry m) (hd : Dispatched m m')
    (hsub : IsSubcommand m.mem (m.reg .r0) 0x0C)
    (h : ∀ C e m'', Returned (Confined m) m C e m'' → Replies (pushed m) (crcAnswer m) C → Q e m'') :
    wp handler env (handler.codeAt .crc32Range) m' Q := by
  have hA := commandAccess_confined m
  obtain ⟨h8, h12, hwin⟩ := hA.crc hsub
  apply wp_crc32Range henv hm.message hd.framed hA.frame h8 h12 hwin hd.packet
  all_goals
    intro e m'' a hs ha hret
    rw [hd.operand, hd.operand] at hs
    refine h _ e m'' hret ⟨a, ?_, rfl⟩
    rw [crcAnswer]
  · rw [if_pos hs]
    rw [hd.operand, hd.operand, hd.mem] at ha
    exact ha
  · rw [if_neg hs, ← hd.mem]
    exact ha

private theorem wp_stage2Answer (henv : Preserves env) (hm : Entry m) (hd : Dispatched m m')
    (hsub : IsSubcommand m.mem (m.reg .r0) 0x0D)
    (h : ∀ C e m'', Returned (Confined m) m C e m'' → AnswerOf env m C (some .callStage2) → Q e m'') :
    wp handler env (handler.codeAt .callStage2) m' Q := by
  have hA := commandAccess_confined m
  obtain ⟨h8, hargs, hcall⟩ := hA.stage2 hsub
  by_cases hs : SecondStage (operandWord m 8)
  · apply wp_gate henv hm.message hd.framed hA.frame h8 (hargs hs) hcall hd.packet hd.mem hd.kept hd.ctl hd.sys hs
    intro c e m'' a hc ha hret
    refine h _ e m'' hret ?_
    rw [AnswerOf, if_pos hs]
    exact ⟨c, a, hc, ha, rfl⟩
  · have hs' : ¬ SecondStage (m'.loadWord (m.reg .r0 + 8)) := by rwa [hd.operand]
    apply wp_callStage2 henv hm.message hd.framed hA.frame h8 (fun h => absurd h hs') hcall hd.packet
    · intro e m'' a reg μ μ' v h
      exact absurd h hs'
    · intro e m'' a _ ha hret
      refine h _ e m'' hret ?_
      rw [AnswerOf, if_neg hs, ← hd.mem]
      exact ⟨a, ha, rfl⟩

private theorem wp_bannerAnswer (henv : Preserves env) (hd : Dispatched m m')
    (h : ∀ C e m'', Returned (Confined m) m C e m'' → AnswerOf env m C (some .banner) → Q e m'') :
    wp handler env (handler.codeAt .banner) m' Q := by
  have hA := commandAccess_confined m
  have hcode : handler.codeAt .banner = bannerBlock ++ handler.codeAt .getMidr := rfl
  rw [hcode]
  simp only [bannerBlock, List.cons_append, List.nil_append, wp_label, wp_op_al, wp_call, wp_b, holds_al, if_true,
    Op.exec]
  refine wp_success (Framed.callOut hd.framed.set henv (Or.inl rfl) (hA.frame _ rfl)) hA.frame fun e m'' hret => ?_
  rw [Machine.mem_set, hd.mem] at hret
  exact h _ e m'' hret ⟨_, by simp [Machine.reg_set], rfl⟩

/-- Every entry of the table, for a packet with its subcommand. -/
private theorem wp_label_answer (henv : Preserves env) (hm : Entry m) (hc : IsCommand m.mem (m.reg .r0))
    (hd : Dispatched m m') (hflags : m'.flags = dispatchFlags) {l : Label} (hl : commandOf m = some l) :
    wp handler env (handler.codeAt l) m' fun e m'' =>
      if e = toInput then wp inputHandler env inputHandler.lines m'' (Answered env m) else Answered env m e m'' := by
  have hA := commandAccess_confined m
  have done : m.mem (m.reg .r0 + 7) ≠ 0x0E → ∀ C e m'', Returned (Confined m) m C e m'' → AnswerOf env m C (some l) →
      if e = toInput then wp inputHandler env inputHandler.lines m'' (Answered env m) else Answered env m e m'' := by
    intro hne C e m'' hret hans
    rw [if_neg hret.ne_toInput]
    refine ⟨⟨C, hret, ?_⟩, fun hsub => absurd hsub.2 hne⟩
    rw [if_pos hc, hl]
    exact hans
  have hcpsr : m'.cpsr = Machine.flagBits dispatchFlags ||| (m.ctl &&& 0x0FFFFFFF) := by
    rw [Machine.cpsr, hflags, hd.ctl]
  obtain ⟨l₁, l₂, hsplit, -⟩ := List.lookup_eq_some_iff.mp hl
  have hin : (BitVec.setWidth 32 (m.mem (m.reg .r0 + 7)), l) ∈ commandTable := by simp [hsplit]
  simp only [commandTable, List.mem_cons, List.not_mem_nil, or_false, Prod.mk.injEq] at hin
  rcases hin with ⟨h, rfl⟩ | ⟨h, rfl⟩ | ⟨h, rfl⟩ | ⟨h, rfl⟩ | ⟨h, rfl⟩ | ⟨h, rfl⟩ | ⟨h, rfl⟩ | ⟨h, rfl⟩ | ⟨h, rfl⟩ |
    ⟨h, rfl⟩ | ⟨h, rfl⟩ | ⟨h, rfl⟩ | ⟨h, rfl⟩ | ⟨h, rfl⟩ | ⟨h, rfl⟩
  · exact wp_bannerAnswer henv hd (done (by bv_omega))
  · exact wp_queryAnswer henv hm hd rfl (v := m.sys .midr) (by rw [Op.exec, hd.sys]) rfl (done (by bv_omega))
  · exact wp_queryAnswer henv hm hd rfl (v := m.sys .ctr) (by rw [Op.exec, hd.sys]) rfl (done (by bv_omega))
  · exact wp_queryAnswer henv hm hd rfl (v := m.sys .tcmtr) (by rw [Op.exec, hd.sys]) rfl (done (by bv_omega))
  · exact wp_queryAnswer henv hm hd rfl (by rw [Op.exec, hcpsr]) rfl (done (by bv_omega))
  · exact wp_queryAnswer henv hm hd rfl (v := m.sys .sctlr) (by rw [Op.exec, hd.sys]) rfl (done (by bv_omega))
  · exact wp_queryAnswer henv hm hd rfl (v := m.sys .ttbr) (by rw [Op.exec, hd.sys]) rfl (done (by bv_omega))
  · exact wp_queryAnswer henv hm hd rfl (v := m.sys .dacr) (by rw [Op.exec, hd.sys]) rfl (done (by bv_omega))
  · exact wp_queryAnswer henv hm hd rfl (v := m.sys .dfsr) (by rw [Op.exec, hd.sys]) rfl (done (by bv_omega))
  · exact wp_queryAnswer henv hm hd rfl (v := m.sys .ifsr) (by rw [Op.exec, hd.sys]) rfl (done (by bv_omega))
  · exact wp_queryAnswer henv hm hd rfl (v := m.sys .far) (by rw [Op.exec, hd.sys]) rfl (done (by bv_omega))
  · exact wp_queryAnswer henv hm hd rfl (v := m.reg .sp - 16) (by rw [Op.exec, Op2.eval, hd.framed.sp_eq]) rfl
      (done (by bv_omega))
  · exact wp_crcAnswer henv hm hd ⟨hc, by bv_omega⟩ (done (by bv_omega))
  · exact wp_stage2Answer henv hm hd ⟨hc, by bv_omega⟩ (done (by bv_omega))
  · -- the extension takes over
    refine wp_mailboxInput ?_
    rw [if_pos rfl]
    refine wp_inputHandler hm.mailbox hd.framed hA.frame (hd.mem ▸ hA.input ⟨hc, by bv_omega⟩) hd.packet
      (hd.mem ▸ hm.mailboxOk_pushed) fun e m'' hret hmem => ⟨⟨[], hret, ?_⟩, fun _ => ?_⟩
    · rw [if_pos hc, hl]
      rfl
    · rw [hmem, hd.mem]

theorem Entry.subcommand_pushed (hm : Entry m) : pushed m (m.reg .r0 + 7) = m.mem (m.reg .r0 + 7) :=
  hm.header _ (inside_byte (by decide))

/-- Every packet is answered by the table. -/
theorem wpMonitor_answered (henv : Preserves env) (hm : Entry m) : wpMonitor env m (Answered env m) := by
  have hA := commandAccess_confined m
  refine wpMonitor_of_wp (wp_entry hA.frame hA.header (fun m' hf hmem hn => ?_) fun m' hf hmem h4 h5 hc hent => ?_)
  · have hn' := hm.isCommand_pushed.not.mp hn
    refine wp_bad henv hm.message hf hA.frame fun e m'' a ha hret => ?_
    rw [if_neg hret.ne_toInput]
    refine ⟨⟨_, hret, ?_⟩, fun hsub => absurd hsub.1 hn'⟩
    rw [if_neg hn', ← hmem]
    exact ⟨a, ha, rfl⟩
  · have hc' := hm.isCommand_pushed.mp hc
    rw [hm.subcommand_pushed] at h5
    rw [dispatchBlock_eq, List.append_assoc]
    apply wp_dispatchFlags
    · intro l hl
      rw [h5] at hl
      exact wp_label_answer henv hm hc' (dispatched_of_entered hf hmem h4 hent _) (subFlags_self _) hl
    · intro hl f
      rw [h5] at hl
      have hd := dispatched_of_entered hf hmem h4 hent f
      simp only [List.cons_append, List.nil_append]
      refine wp_unknown henv hm.message hd.framed hA.frame fun e m'' a ha hret => ?_
      rw [if_neg hret.ne_toInput]
      rw [hd.mem] at ha
      refine ⟨⟨_, hret, ?_⟩, fun hsub => ?_⟩
      · rw [if_pos hc', commandOf, hl]
        exact ⟨a, ha, rfl⟩
      · rw [hsub.2] at hl
        exact absurd hl (by decide)

end

end ShadowMsm.Stage0
