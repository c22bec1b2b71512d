import ShadowMsm.Stage0.Activation

/-!
# The shared exits of the callback

`reply_hex` prints `r0` in hexadecimal and returns, `bad` replies BAD00001, `success` returns without a reply.  The
queries for one system register are here too: they only load `r0`.
-/

namespace ShadowMsm.Stage0

open Arm

/-- The call that prints the reply for the value `v`, `μ` being memory before the reply was written. -/
def Reply (μ : Mem) (v : Word) : Access → Prop
  | .call t reg μ' => t = PRINT_STRING ∧ reg .r0 = MESSAGE_ADDR ∧
      μ' = storeBytes μ MESSAGE_ADDR (hexText μ HEX_TABLE_ADDR v ++ [0])
  | _ => False

theorem Reply.eq_call {μ : Mem} {v : Word} {a : Access} (h : Reply μ v a) :
    ∃ reg μ', a = .call PRINT_STRING reg μ' := by
  cases a with
  | call t reg μ' =>
    obtain ⟨rfl, _⟩ := h
    exact ⟨reg, μ', rfl⟩
  | load | store => exact h.elim

section

variable {env : Word → Machine → Machine} {Q : Exit → Machine → Prop} {A : Access → Prop} {m m' : Machine}
  {C : List Access}

private theorem hexAccess_frame {m : Machine} {a : Access} (h : HexAccess HEX_TABLE_ADDR MESSAGE_ADDR a) :
    FrameAccess m a := by
  cases a with
  | load a n =>
    obtain ⟨hw, rfl⟩ := h
    exact Or.inr (inside_of_within hw)
  | store a n =>
    obtain ⟨hw, rfl⟩ := h
    exact Or.inr (inside_of_within (by simp only [Within] at hw ⊢; omega))
  | call => exact h.elim

/-- `success`. -/
theorem wp_success (hm : Framed A m C m') (hA : ∀ a, FrameAccess m a → A a)
    (h : ∀ e m'', Returned A m C e m'' → Q e m'') : wp handler env successBlock m' Q := by
  rw [successBlock, wp_label]
  exact wp_leave hm hA fun e m'' hr _ => h e m'' hr

/-- `reply_hex`. -/
theorem wp_replyHex (henv : Preserves env) (hmsg : Apart (stackFrame m) 16 MESSAGE_ADDR 9)
    (hm : Framed A m C m') (hA : ∀ a, FrameAccess m a → A a)
    (h : ∀ e m'' a, Reply m'.mem (m'.reg .r0) a → Returned A m (C ++ [a]) e m'' → Q e m'') :
    wp handler env (handler.codeAt .replyHex) m' Q := by
  have hloop : handler.codeAt .hexLoop = hexLoop .hexLoop .r0 .r5 .r1 .r2 .r3 ++
      (.mov .r5 (.imm 0) :: .strb .r5 .r1 0 :: .ldrc .r0 MESSAGE_ADDR :: .call PRINT_STRING :: successBlock) := rfl
  have hrep : handler.codeAt .replyHex = replyHexBlock ++ handler.codeAt .hexLoop := by rw [hloop]; rfl
  have hsub : ∀ x, Within x MESSAGE_ADDR 8 → Within x MESSAGE_ADDR 9 := fun x hx => by
    simp only [Within] at hx ⊢; omega
  rw [hrep]
  simp only [replyHexBlock, List.cons_append, List.nil_append, wp_label, wp_op, Cond.holds, if_true, Op.exec, Op2.eval]
  refine wp_hexLoop hloop (by decide) ?_ (by simp [Machine.reg_set]) fun m'' hx => ?_
  · simp only [Machine.reg_set, reduceCtorEq, if_true, if_false]
    exact apart_of_le (by decide) (by decide)
  simp only [Machine.reg_set, reduceCtorEq, if_true, if_false] at hx
  have hmem : m''.mem = storeBytes m'.mem MESSAGE_ADDR (hexText m'.mem HEX_TABLE_ADDR (m'.reg .r0)) := by
    rw [hx.mem, List.take_of_length_le (by simp)]
    rfl
  have hframed : Framed A m C m'' := by
    refine ⟨(hx.keep .sp (by decide)).trans hm.sp_eq, ?_, ?_⟩
    · rw [hmem]
      exact (sameOn_storeBytes (by simp) fun x h h' => hmsg x h (hsub x (by simpa using h'))).trans hm.saved
    · obtain ⟨l, hl, hacc⟩ := hx.log
      have hcalls : l.filter Access.isCall = [] := by
        refine List.filter_eq_nil_iff.mpr fun a ha => ?_
        have := hacc a ha
        cases a with
        | call => exact this.elim
        | _ => exact Bool.false_ne_true
      have hall : ∀ a ∈ l, A a := fun a ha => hA a (hexAccess_frame (hacc a ha))
      simpa using hm.logs.trans ⟨l, hl, hall, hcalls⟩
  simp only [wp_op, wp_call, Cond.holds, if_true, Op.exec, Op2.eval, Machine.reg_set, reduceCtorEq, if_true, if_false,
    hx.dst_eq]
  refine wp_success (Framed.callOut (Framed.set (Framed.store8 hframed.set rfl ?_ ?_)) henv (Or.inl rfl) ?_) hA
    fun e m3 hret => ?_
  · exact hA _ (Or.inr (by decide))
  · exact fun hw => hmsg _ hw (by decide)
  · exact hA _ rfl
  · refine h e m3 _ ?_ hret
    refine ⟨rfl, rfl, ?_⟩
    rw [storeBytes_concat, ← hmem]
    rfl

/-- `bad`. -/
theorem wp_bad (henv : Preserves env) (hmsg : Apart (stackFrame m) 16 MESSAGE_ADDR 9)
    (hm : Framed A m C m') (hA : ∀ a, FrameAccess m a → A a)
    (h : ∀ e m'' a, Reply m'.mem 0xBAD00001 a → Returned A m (C ++ [a]) e m'' → Q e m'') :
    wp handler env (handler.codeAt .bad) m' Q := by
  have hbad : handler.codeAt .bad = badBlock ++ handler.codeAt .replyHex := by
    rw [show handler.codeAt .replyHex = replyHexBlock ++ (hexLoopBlock ++ successBlock) from rfl]
    rfl
  rw [hbad]
  simp only [badBlock, List.cons_append, List.nil_append, wp_label, wp_op, Cond.holds, if_true, Op.exec]
  refine wp_replyHex henv hmsg hm.set hA fun e m'' a ha hr => h e m'' a ?_ hr
  simpa [Machine.reg_set] using ha

/-- The queries: one register is read into `r0`, and that is the reply. -/
theorem wp_query (henv : Preserves env) (hmsg : Apart (stackFrame m) 16 MESSAGE_ADDR 9)
    (hm : Framed A m C m') (hA : ∀ a, FrameAccess m a → A a) {l : Label} {o : Op} {k : List (Line Label)}
    (hcode : handler.codeAt l = .label l :: .instr (.op .al o) :: .b .replyHex :: k) {v : Word}
    (ho : o.exec m' = m'.set .r0 v)
    (h : ∀ e m'' a, Reply m'.mem v a → Returned A m (C ++ [a]) e m'' → Q e m'') :
    wp handler env (handler.codeAt l) m' Q := by
  rw [hcode]
  simp only [wp_label, wp_op, wp_b, Cond.holds, if_true, ho]
  refine wp_replyHex henv hmsg hm.set hA fun e m'' a ha hr => h e m'' a ?_ hr
  simpa [Machine.reg_set] using ha

/-- `banner`. -/
theorem wp_banner (henv : Preserves env) (hm : Framed A m C m') (hA : ∀ a, FrameAccess m a → A a)
    (h : ∀ e m'' reg μ, reg .r0 = BANNER_ADDR → Returned A m (C ++ [.call PRINT_STRING reg μ]) e m'' → Q e m'') :
    wp handler env (handler.codeAt .banner) m' Q := by
  rw [show handler.codeAt .banner = bannerBlock ++ (handler.codeAt .getMidr) from rfl]
  simp only [bannerBlock, List.cons_append, List.nil_append, wp_label, wp_op, wp_call, wp_b, Cond.holds, if_true,
    Op.exec]
  refine wp_success (Framed.callOut hm.set henv (Or.inl rfl) (hA _ rfl)) hA fun e m'' hr => ?_
  exact h e m'' _ _ rfl hr

end

end ShadowMsm.Stage0
