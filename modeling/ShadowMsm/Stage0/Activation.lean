import ShadowMsm.Arm.Footprint
import ShadowMsm.Arm.Hex
import ShadowMsm.Stage0.Monitor

/-!
# One activation of the callback

The callback pushes `r4`-`r6` and `lr`, and every path leaves through a `pop` of the same words.  `Framed` is what holds
between the two, `Returned` what the `pop` makes of it.  Both carry the log: which accesses were made, and the calls.
-/

namespace ShadowMsm.Stage0

open Arm

/-- The registers the callback must hand back. -/
def keptRegs : List Reg := [.sp, .r4, .r5, .r6]

/-- Where a second stage may be entered. -/
def SecondStage (t : Word) : Prop := 4 ∣ t.toNat ∧ SAFE_RAM_START ≤ t ∧ t < SAFE_RAM_END

instance (t : Word) : Decidable (SecondStage t) := inferInstanceAs (Decidable (_ ∧ _))

/-- The routines the callback calls keep `sp` and `r4`-`r6`, and with them the stack frame of their caller. -/
structure Preserves (env : Word → Machine → Machine) : Prop where
  reg : ∀ t m, t = PRINT_STRING ∨ SecondStage t → ∀ r ∈ keptRegs, (env t m).reg r = m.reg r
  frame : ∀ t m, t = PRINT_STRING ∨ SecondStage t → SameOn (env t m).mem m.mem (align (m.reg .sp)) 16

/-- A routine that does nothing but return a value. -/
theorem preserves_set (f : Machine → Word) : Preserves fun _ m => m.set .r0 (f m) where
  reg t m _ r hr := by
    rw [Machine.reg_set, if_neg]
    rintro rfl
    revert hr
    decide
  frame t m _ := SameOn.refl _ _ _

theorem preserves_setR0 : Preserves fun _ m => m.set .r0 0 := preserves_set fun _ => 0

/-- The 16 bytes the callback pushes. -/
def stackFrame (m : Machine) : Word := align (m.reg .sp - 16)

/-- Memory right after the push. -/
def pushed (m : Machine) : Mem := storeWords m.mem (stackFrame m) [m.reg .r4, m.reg .r5, m.reg .r6, m.reg .lr]

/-- `m'` is reached from the entry `m` and still has the pushed frame; its accesses satisfy `A`, its calls are `C`. -/
structure Framed (A : Access → Prop) (m : Machine) (C : List Access) (m' : Machine) : Prop where
  sp_eq : m'.reg .sp = m.reg .sp - 16
  saved : SameOn m'.mem (pushed m) (stackFrame m) 16
  logs : Logs A m m' C

/-- The callback has returned to its caller. -/
structure Returned (A : Access → Prop) (m : Machine) (C : List Access) (e : Exit) (m' : Machine) : Prop where
  exit : e = ⟨.pop, m.reg .lr⟩
  status : m'.reg .r0 = 0
  kept : ∀ r ∈ keptRegs, m'.reg r = m.reg r
  logs : Logs A m m' C

/-- What every path needs, whatever the packet: the frame, the digit table, the reply string and the print routine. -/
def FrameAccess (m : Machine) : Access → Prop
  | .load a n => Inside a n (stackFrame m) 16 ∨ Inside a n HEX_TABLE_ADDR 16
  | .store a n => Inside a n (stackFrame m) 16 ∨ Inside a n MESSAGE_ADDR 9
  | .call t _ _ => t = PRINT_STRING

/-- What the replies need: the frame, the packet (72 bytes of it at most), the digit table and the reply string. -/
def ReplyAccess (m : Machine) : Access → Prop
  | .load a n => Inside a n (stackFrame m) 16 ∨ Inside a n (m.reg .r0) 72 ∨ Inside a n HEX_TABLE_ADDR 16
  | .store a n => Inside a n (stackFrame m) 16 ∨ Inside a n MESSAGE_ADDR 9
  | .call t _ _ => t = PRINT_STRING

/-- What the callback may do at all: besides the replies, use the mailbox, read the SDRAM window, and enter a second
stage in it. -/
def Confined (m : Machine) : Access → Prop
  | .load a n => ReplyAccess m (.load a n) ∨ Inside a n INPUT_MAILBOX_ADDR 268 ∨ Inside a n SAFE_RAM_START 0x01000000
  | .store a n => ReplyAccess m (.store a n) ∨ Inside a n INPUT_MAILBOX_ADDR 268
  | .call t reg μ => ReplyAccess m (.call t reg μ) ∨ SecondStage t

theorem FrameAccess.reply {m : Machine} (a : Access) (h : FrameAccess m a) : ReplyAccess m a := by
  cases a with
  | load a n =>
    rcases h with h | h
    · exact Or.inl h
    · exact Or.inr (Or.inr h)
  | store | call => exact h

theorem ReplyAccess.confined {m : Machine} (a : Access) (h : ReplyAccess m a) : Confined m a := by
  cases a <;> exact Or.inl h

theorem Returned.mono {A B : Access → Prop} {m m' : Machine} {C : List Access} {e : Exit} (h : Returned A m C e m')
    (hAB : ∀ a, A a → B a) : Returned B m C e m' :=
  ⟨h.exit, h.status, h.kept, h.logs.mono hAB⟩

/-! ### The frame through one instruction -/

namespace Framed

variable {A : Access → Prop} {m m' : Machine} {C : List Access}

theorem set (h : Framed A m C m') {r : Reg} {v : Word} (hr : r ≠ .sp := by decide) : Framed A m C (m'.set r v) :=
  ⟨by rw [Machine.reg_set, if_neg hr.symm, h.sp_eq], h.saved, h.logs⟩

theorem setFlags (h : Framed A m C m') {f : Flags} : Framed A m C (m'.setFlags f) := ⟨h.sp_eq, h.saved, h.logs⟩

theorem setMem (h : Framed A m C m') {μ : Mem} (hμ : SameOn μ m'.mem (stackFrame m) 16) :
    Framed A m C (m'.setMem μ) :=
  ⟨h.sp_eq, hμ.trans h.saved, h.logs⟩

theorem touch (h : Framed A m C m') {a : Access} (ha : A a) (hc : a.isCall = false) : Framed A m C (m'.touch a) :=
  ⟨h.sp_eq, h.saved, h.logs.touch ha hc⟩

theorem load (h : Framed A m C m') {a : Word} {n : Nat} (ha : A (.load a n)) : Framed A m C (m'.touch (.load a n)) :=
  h.touch ha rfl

theorem store32 (h : Framed A m C m') {μ : Mem} (hμ : m'.mem = μ) {a v : Word} (ha : A (.store a 4))
    (hf : Apart (stackFrame m) 16 a 4) : Framed A m C ((m'.setMem (store32 μ a v)).touch (.store a 4)) :=
  (h.setMem (hμ ▸ sameOn_store32 hf)).touch ha rfl

theorem store8 (h : Framed A m C m') {μ : Mem} (hμ : m'.mem = μ) {a : Word} {v : BitVec 8} (ha : A (.store a 1))
    (hf : ¬ Within a (stackFrame m) 16) : Framed A m C ((m'.setMem (store8 μ a v)).touch (.store a 1)) :=
  (h.setMem (hμ ▸ sameOn_store8 hf)).touch ha rfl

/-- A call of a routine that keeps the frame. -/
theorem callOut (h : Framed A m C m') {env : Word → Machine → Machine} (henv : Preserves env) {t ret : Word}
    (ht : t = PRINT_STRING ∨ SecondStage t) (ha : A (.call t (m'.set .lr ret).reg m'.mem)) :
    Framed A m (C ++ [.call t (m'.set .lr ret).reg m'.mem]) (m'.callOut env t ret) := by
  refine ⟨?_, ?_, h.logs.trans ⟨_, Machine.log_callOut m' env t ret, by simpa using ha, rfl⟩⟩
  · rw [← h.sp_eq]
    exact henv.reg t _ ht .sp (by decide)
  · have hf : align (((m'.set .lr ret).touch (.call t (m'.set .lr ret).reg m'.mem)).reg .sp) = stackFrame m := by
      rw [Machine.reg_touch, Machine.reg_set, if_neg (by decide), h.sp_eq]
      rfl
    exact (hf ▸ henv.frame t ((m'.set .lr ret).touch (.call t (m'.set .lr ret).reg m'.mem)) ht).trans h.saved

end Framed

/-! ### Entering and leaving -/

section

variable {L : Type} [DecidableEq L] {p : Program L} {env : Word → Machine → Machine} {Q : Exit → Machine → Prop}
  {A : Access → Prop} {m m' : Machine} {C : List Access} {k : List (Line L)}

/-- The machine after the push. -/
theorem framed_push (hA : ∀ a, FrameAccess m a → A a) : Framed A m [] ((Op.push [.r4, .r5, .r6, .lr]).exec m) := by
  refine ⟨?_, SameOn.refl _ _ _, ⟨[.store (stackFrame m) 16], rfl, ?_, rfl⟩⟩
  · simp only [Op.exec, Machine.reg_touch, Machine.reg_set, if_true]
    rfl
  · simpa using hA (.store (stackFrame m) 16) (Or.inl (inside_self _ _))

/-- The common end of the callback and of the mailbox extension. -/
theorem wp_leave (hm : Framed A m C m') (hA : ∀ a, FrameAccess m a → A a)
    (h : ∀ e m'', Returned A m C e m'' → m''.mem = m'.mem → Q e m'') :
    wp p env (.mov .r0 (.imm 0) :: .popPc [.r4, .r5, .r6] :: k) m' Q := by
  have hf : align (m'.reg .sp) = stackFrame m := by rw [hm.sp_eq]; rfl
  have word : ∀ i (hi : i < 4), load32 m'.mem (stackFrame m + BitVec.ofNat 32 (4 * i)) =
      [m.reg .r4, m.reg .r5, m.reg .r6, m.reg .lr][i] := fun i hi => by
    refine (hm.saved.mono (fun x hx => ?_)).load32.trans (load32_storeWords (by simp) (by simpa using hi))
    simp only [Within] at hx ⊢
    bv_omega
  have w0 : load32 m'.mem (stackFrame m) = m.reg .r4 := by
    rw [← BitVec.add_zero (stackFrame m)]
    exact word 0 (by omega)
  have w1 : load32 m'.mem (stackFrame m + 4) = m.reg .r5 := word 1 (by omega)
  have w2 : load32 m'.mem (stackFrame m + 4 + 4) = m.reg .r6 := by
    rw [BitVec.add_assoc]
    exact word 2 (by omega)
  have w3 : load32 m'.mem (stackFrame m + BitVec.ofNat 32 (4 * [Reg.r4, Reg.r5, Reg.r6].length)) = m.reg .lr :=
    word 3 (by omega)
  simp only [wp_op, wp_popPc, Cond.holds, if_true, Op.exec, Op2.eval, Machine.reg_set, Machine.mem_set, reduceCtorEq,
    if_false, hf, popInto, wordBytes, w0, w1, w2, w3]
  refine h _ _ ⟨rfl, by simp [Machine.reg_set], fun r hr => ?_, ?_⟩ rfl
  · have hsp : m'.reg .sp + BitVec.ofNat 32 (4 * [Reg.r4, Reg.r5, Reg.r6].length + 4) = m.reg .sp := by
      rw [hm.sp_eq]
      exact BitVec.sub_add_cancel _ _
    simp only [keptRegs, List.mem_cons, List.not_mem_nil, or_false] at hr
    rcases hr with rfl | rfl | rfl | rfl
    · simpa [Machine.reg_set] using hsp
    · simp [Machine.reg_set]
    · simp [Machine.reg_set]
    · simp [Machine.reg_set]
  · exact hm.logs.touch (hA (.load (stackFrame m) 16) (Or.inl (inside_self _ _))) rfl

end

end ShadowMsm.Stage0
