import ShadowMsm.Arm.Agreement
import ShadowMsm.Lib.Crc
import ShadowMsm.Stage0.Reply

/-!
# The commands of the callback

From the entry to the commands: the packet check, the dispatch over the subcommand, the CRC over a range of SDRAM and
the call gate of the second stage.
-/

namespace ShadowMsm.Stage0

open Arm

/-- The declared length of the packet at `p`. -/
def packetLength (μ : Mem) (p : Word) : BitVec 16 := load16 μ ((p + 4) &&& 0xFFFFFFFE)

/-- The packet is a command of this monitor. -/
def IsCommand (μ : Mem) (p : Word) : Prop := 2 ≤ (packetLength μ p).toNat ∧ μ (p + 6) = 0x1C

instance (μ : Mem) (p : Word) : Decidable (IsCommand μ p) := inferInstanceAs (Decidable (_ ∧ _))

/-- What the entry reads of the packet: the length, and of a packet that has them the two bytes of the command. -/
def HeaderAccess (m : Machine) : Access → Prop
  | .load a n => (a = ((m.reg .r0 + 4) &&& 0xFFFFFFFE) ∧ n = 2) ∨
      (2 ≤ (packetLength (pushed m) (m.reg .r0)).toNat ∧ (a = m.reg .r0 + 6 ∨ a = m.reg .r0 + 7) ∧ n = 1)
  | _ => False

theorem HeaderAccess.reply {m : Machine} (a : Access) (h : HeaderAccess m a) : ReplyAccess m a := by
  cases a with
  | load a n =>
    refine Or.inr (Or.inl ?_)
    rcases h with ⟨rfl, rfl⟩ | ⟨-, rfl | rfl, rfl⟩
    · exact inside_alignHalf (by decide) (by decide) (by decide)
    · exact inside_byte (by decide)
    · exact inside_byte (by decide)
  | store | call => exact h.elim

/-- An operand of the packet, loaded as a word. -/
theorem reply_operand {m : Machine} {off : Word} (h3 : 3 ≤ off.toNat) (h72 : off.toNat + 4 ≤ 72) :
    ReplyAccess m (.load (align (m.reg .r0 + off)) 4) :=
  Or.inr (Or.inl (inside_align h3 h72 (by decide)))

/-- A command has come through the entry: after the push only two registers and the flags have changed. -/
def Entered (m m' : Machine) : Prop :=
  Changed [.reg .r4, .reg .r5, .flags]
    [.load ((m.reg .r0 + 4) &&& 0xFFFFFFFE) 2, .load (m.reg .r0 + 6) 1, .load (m.reg .r0 + 7) 1]
    ((Op.push [.r4, .r5, .r6, .lr]).exec m) m'

/-- The dispatch as a table. -/
def commandTable : List (Word × Label) :=
  [(0, .banner), (1, .getMidr), (2, .getCtr), (3, .getTcmtr), (4, .getCpsr), (5, .getSctlr), (6, .getTtbr),
   (7, .getDacr), (8, .getDfsr), (9, .getIfsr), (10, .getFar), (11, .getSp), (12, .crc32Range), (13, .callStage2),
   (14, .mailboxInput)]

def CRC_POLY : Word := 0xEDB88320

/-- The value `crc32_range` computes. -/
def crc32 (data : List (BitVec 8)) : Word := ~~~ Crc.run CRC_POLY (~~~ 0) data

/-- The range check of `crc32_range`: without wrapping around, the range lies in the SDRAM window. -/
def SafeRange (a n : Word) : Prop := SAFE_RAM_START ≤ a ∧ a.toNat + n.toNat ≤ SAFE_RAM_END.toNat

instance (a n : Word) : Decidable (SafeRange a n) := inferInstanceAs (Decidable (_ ∧ _))

section

variable {env : Word → Machine → Machine} {Q : Exit → Machine → Prop} {A : Access → Prop} {m m' : Machine}
  {C : List Access}

/-! ### Entry and dispatch -/

/-- The entry: a packet that is no command goes to `bad`, a command to the dispatch with its subcommand in `r5`. -/
theorem wp_entry (hA : ∀ a, FrameAccess m a → A a) (hH : ∀ a, HeaderAccess m a → A a)
    (hbad : ∀ m', Framed A m [] m' → m'.mem = pushed m → ¬ IsCommand (pushed m) (m.reg .r0) →
      wp handler env (handler.codeAt .bad) m' Q)
    (hcmd : ∀ m', Framed A m [] m' → m'.mem = pushed m → m'.reg .r4 = m.reg .r0 →
      m'.reg .r5 = (pushed m (m.reg .r0 + 7)).setWidth 32 → IsCommand (pushed m) (m.reg .r0) → Entered m m' →
      wp handler env (dispatchBlock ++ handler.codeAt .mailboxInput) m' Q) :
    wp handler env handler.lines m Q := by
  have hlines : handler.lines = entryBlock ++ (dispatchBlock ++ handler.codeAt .mailboxInput) := rfl
  have hpush : (Op.push [.r4, .r5, .r6, .lr]).exec m = ((m.setMem (pushed m)).set .sp (m.reg .sp - 16)).touch
      (.store (stackFrame m) 16) := rfl
  have hf := hpush ▸ framed_push (m := m) hA
  rw [hlines]
  simp only [entryBlock, List.cons_append, List.nil_append, wp_op, wp_b, holds_al, if_true, hpush]
  simp only [Op.exec, Op2.eval, Machine.reg_set, Machine.reg_touch, Machine.reg_setMem, Machine.mem_set, Machine.mem_touch,
    Machine.mem_setMem, Machine.flags_setFlags, Machine.mem_setFlags, Machine.reg_setFlags, reduceCtorEq, if_true,
    if_false, holds_lo_sub, holds_ne_sub, decide_eq_true_eq, ne_eq]
  have hlen : A (.load ((m.reg .r0 + 4) &&& 0xFFFFFFFE) 2) := hH _ (Or.inl ⟨rfl, rfl⟩)
  have hshort : BitVec.setWidth 32 (load16 (pushed m) (m.reg .r0 + 4 &&& 0xFFFFFFFE)) < (2 : Word) ↔
      (packetLength (pushed m) (m.reg .r0)).toNat < 2 := by
    simp only [packetLength]
    bv_omega
  have hcmd6 : (BitVec.setWidth 32 (pushed m (m.reg .r0 + 6)) = (0x1C : Word)) ↔ pushed m (m.reg .r0 + 6) = 0x1C := by
    bv_omega
  split
  · rename_i h
    refine hbad _ ((hf.set.set.load hlen).setFlags) rfl fun hc => ?_
    have := hshort.mp h
    have := hc.1
    omega
  rename_i hl
  have hlong : 2 ≤ (packetLength (pushed m) (m.reg .r0)).toNat := by
    have := hshort.not.mp hl
    omega
  have h6 : A (.load (m.reg .r0 + 6) 1) := hH _ (Or.inr ⟨hlong, Or.inl rfl, rfl⟩)
  have h7 : A (.load (m.reg .r0 + 7) 1) := hH _ (Or.inr ⟨hlong, Or.inr rfl, rfl⟩)
  split
  · rename_i h
    exact hbad _ ((((hf.set.set.load hlen).setFlags.set).load h6).setFlags) rfl fun hc => h (hcmd6.mpr hc.2)
  · rename_i h
    refine hcmd _ ((((((hf.set.set.load hlen).setFlags.set).load h6).setFlags).set).load h7) rfl ?_ ?_
      ⟨hlong, hcmd6.mp (not_not.mp h)⟩ ⟨⟨fun r hr => ?_, fun hf => ?_, rfl, rfl, fun _ _ => rfl⟩, ?_⟩
    · simp [Machine.reg_set]
    · simp [Machine.reg_set]
    · simp only [List.mem_cons, Loc.reg.injEq, reduceCtorEq, List.not_mem_nil, or_false, not_or] at hr
      simp [hpush, Machine.reg_set, hr]
    · simp at hf
    · simp [hpush]

/-- The dispatch branches by the table; a subcommand that is not in it goes on behind. -/
theorem wp_dispatch {es : List (Word × Label)} {k : List (Line Label)}
    (h : ∀ f, match es.lookup (m.reg .r5) with
      | some l => wp handler env (handler.codeAt l) (m.setFlags f) Q
      | none => wp handler env k (m.setFlags f) Q) :
    wp handler env ((es.flatMap fun e => dispatch e.1 e.2) ++ k) m Q := by
  induction es generalizing m with
  | nil => exact h m.flags
  | cons e es ih =>
    obtain ⟨n, l⟩ := e
    simp only [List.flatMap_cons, dispatch, List.cons_append, List.nil_append, wp_op, wp_b, holds_al, if_true, Op.exec,
      Op2.eval, Machine.flags_setFlags, holds_eq_sub, decide_eq_true_eq]
    split
    · rename_i he
      simpa [List.lookup_cons, he] using h (subFlags (m.reg .r5) n)
    · rename_i hn
      exact ih fun f => by simpa [List.lookup_cons, beq_false_of_ne hn] using h f

theorem dispatchBlock_eq : dispatchBlock =
    (commandTable.flatMap fun e => dispatch e.1 e.2) ++ [.ldrc .r0 0xBAD00000, .b .replyHex] := rfl

/-- A subcommand outside the table is answered with BAD00000. -/
theorem wp_unknown (henv : Preserves env) (hmsg : Apart (stackFrame m) 16 MESSAGE_ADDR 9)
    (hm : Framed A m C m') (hA : ∀ a, FrameAccess m a → A a) {k : List (Line Label)}
    (h : ∀ e m'' a, Reply m'.mem 0xBAD00000 a → Returned A m (C ++ [a]) e m'' → Q e m'') :
    wp handler env (.ldrc .r0 0xBAD00000 :: .b .replyHex :: k) m' Q := by
  simp only [wp_op, wp_b, holds_al, if_true, Op.exec]
  refine wp_replyHex henv hmsg hm.set hA fun e m'' a ha hr => h e m'' a ?_ hr
  simpa [Machine.reg_set] using ha

/-! ### The listing from `crc32_range` on -/

private theorem codeAt_callStage2 :
    handler.codeAt .callStage2 = callStage2Block ++ (badBlock ++ replyHexBlock ++ hexLoopBlock ++ successBlock) := rfl

private theorem codeAt_crcDone : handler.codeAt .crcDone = crcDoneBlock ++ handler.codeAt .callStage2 := by
  rw [codeAt_callStage2]
  rfl

private theorem codeAt_crcBit : handler.codeAt .crcBit = crcBitBlock ++ handler.codeAt .crcDone := by
  rw [codeAt_crcDone, codeAt_callStage2]
  rfl

private theorem codeAt_crcByte : handler.codeAt .crcByte = crcByteBlock ++ handler.codeAt .crcBit := by
  rw [codeAt_crcBit, codeAt_crcDone, codeAt_callStage2]
  rfl

private theorem codeAt_crc32Range : handler.codeAt .crc32Range = crc32RangeBlock ++ handler.codeAt .crcByte := by
  rw [codeAt_crcByte, codeAt_crcBit, codeAt_crcDone, codeAt_callStage2]
  rfl

/-! ### `crc32_range` -/

/-- The registers of the CRC loops: `c` is the register so far, `n` bytes from `a` on are to come. -/
structure CrcAt (A : Access → Prop) (m : Machine) (C : List Access) (μ : Mem) (c a n : Word) (m' : Machine) : Prop where
  framed : Framed A m C m'
  mem : m'.mem = μ
  crc : m'.reg .r0 = c
  next : m'.reg .r1 = a
  left : m'.reg .r2 = n
  poly : m'.reg .r6 = CRC_POLY

private theorem bit_of_tst (c : Word) : Crc.bit CRC_POLY c =
    if c &&& 1 ≠ 0 then c >>> 1 ^^^ CRC_POLY else c >>> 1 := by
  have h : c &&& 1 ≠ 0 ↔ c.getLsbD 0 = true := by
    rw [show c &&& 1 = (BitVec.ofBool (c.getLsbD 0)).setWidth 32 from BitVec.and_one_eq_setWidth_ofBool_getLsbD]
    cases c.getLsbD 0 <;> decide
  by_cases hc : c.getLsbD 0
  · rw [Crc.bit, if_pos hc, if_pos (h.mpr hc)]
  · rw [Crc.bit, if_neg hc, if_neg (h.not.mpr hc)]
    exact BitVec.xor_zero

/-- One bit: the condition of the `eorne` is the bit tested before the shift, which sets no flags. -/
private theorem wp_crcShift {μ : Mem} {a n c : Word} {k : List (Line Label)} (hc : CrcAt A m C μ c a n m')
    (h : ∀ m'', CrcAt A m C μ (Crc.bit CRC_POLY c) a n m'' → m''.reg .r5 = m'.reg .r5 → wp handler env k m'' Q) :
    wp handler env (.tst .r0 (.imm 1) :: .mov .r0 (.lsr .r0 1) :: .eorne .r0 .r0 (.reg .r6) :: k) m' Q := by
  simp only [wp_op, holds_al, if_true, Op.exec, Op2.eval, Alu.eval, Machine.flags_set, Machine.flags_setFlags,
    Machine.reg_set, Machine.reg_setFlags, holds_ne_test, decide_eq_true_eq, reduceCtorEq, if_false, hc.crc, hc.poly]
  have hbit := bit_of_tst c
  split
  · rename_i hb
    rw [if_pos hb] at hbit
    exact h _ ⟨hc.framed.setFlags.set.set, hc.mem, by simp [Machine.reg_set, hbit], by simp [Machine.reg_set, hc.next],
      by simp [Machine.reg_set, hc.left], by simp [Machine.reg_set, hc.poly]⟩ (by simp [Machine.reg_set])
  · rename_i hb
    rw [if_neg hb] at hbit
    exact h _ ⟨hc.framed.setFlags.set, hc.mem, by simp [Machine.reg_set, hbit], by simp [Machine.reg_set, hc.next],
      by simp [Machine.reg_set, hc.left], by simp [Machine.reg_set, hc.poly]⟩ (by simp [Machine.reg_set])

/-- The bit loop shifts the counted number of bits out of the register. -/
private theorem wp_crcBit {μ : Mem} {a n : Word} {i : Nat} (hi : i < 8) {c : Word}
    (hc : CrcAt A m C μ c a n m') (h5 : m'.reg .r5 = BitVec.ofNat 32 (i + 1))
    (h : ∀ m'', CrcAt A m C μ ((Crc.bit CRC_POLY)^[i + 1] c) a (n - 1) m'' →
      wp handler env (handler.codeAt .crcByte) m'' Q) :
    wp handler env (handler.codeAt .crcBit) m' Q := by
  induction i generalizing c m' with
  | zero =>
    rw [codeAt_crcBit]
    simp only [crcBitBlock, List.cons_append, List.nil_append, wp_label]
    refine wp_crcShift hc fun M hM h5' => ?_
    simp only [wp_op, wp_b, holds_al, if_true, Op.exec, Op2.eval, Machine.flags_setFlags, holds_ne_sub,
      decide_eq_true_eq, Machine.reg_set, Machine.reg_setFlags, reduceCtorEq, if_false, h5'.trans h5]
    rw [if_neg (by decide)]
    exact h _ ⟨hM.framed.set.setFlags.set.setFlags, hM.mem, by simp [Machine.reg_set, hM.crc],
      by simp [Machine.reg_set, hM.next], by simp [Machine.reg_set, hM.left], by simp [Machine.reg_set, hM.poly]⟩
  | succ i ih =>
    rw [codeAt_crcBit]
    simp only [crcBitBlock, List.cons_append, List.nil_append, wp_label]
    refine wp_crcShift hc fun M hM h5' => ?_
    simp only [wp_op, wp_b, holds_al, if_true, Op.exec, Op2.eval, Machine.flags_setFlags, holds_ne_sub,
      decide_eq_true_eq, Machine.reg_set, Machine.reg_setFlags, reduceCtorEq, if_false, h5'.trans h5]
    rw [if_pos (by bv_omega)]
    refine ih (by omega) ⟨hM.framed.set.setFlags, hM.mem, by simp [Machine.reg_set, hM.crc],
      by simp [Machine.reg_set, hM.next], by simp [Machine.reg_set, hM.left], by simp [Machine.reg_set, hM.poly]⟩ ?_ h
    simp only [Machine.reg_setFlags, Machine.reg_set, if_true]
    bv_omega

/-- The byte loop takes in the counted bytes, and reads nothing else. -/
private theorem wp_crcByte {μ : Mem} {n : Nat} (hn : n < 2 ^ 32) {a c : Word}
    (hA : ∀ i < n, A (.load (a + BitVec.ofNat 32 i) 1)) (hc : CrcAt A m C μ c a (BitVec.ofNat 32 n) m')
    (h : ∀ m'', Framed A m C m'' → m''.mem = μ → m''.reg .r0 = Crc.run CRC_POLY c (bytesAt μ a n) →
      wp handler env (handler.codeAt .crcDone) m'' Q) :
    wp handler env (handler.codeAt .crcByte) m' Q := by
  induction n generalizing a c m' with
  | zero =>
    rw [codeAt_crcByte]
    simp only [crcByteBlock, List.cons_append, List.nil_append, wp_label, wp_op, wp_b, holds_al, if_true, Op.exec,
      Op2.eval, Machine.flags_setFlags, holds_eq_sub, hc.left, decide_eq_true_eq]
    exact h _ hc.framed.setFlags hc.mem (by simpa [bytesAt] using hc.crc)
  | succ n ih =>
    have h0 : ¬ (BitVec.ofNat 32 (n + 1) = (0 : Word)) := by bv_omega
    rw [codeAt_crcByte]
    simp only [crcByteBlock, List.cons_append, List.nil_append, wp_label, wp_op, wp_b, holds_al, if_true, Op.exec,
      Op2.eval, Alu.eval, Machine.flags_setFlags, holds_eq_sub, hc.left, decide_eq_true_eq, h0, if_false,
      Machine.reg_setFlags, Machine.mem_setFlags, hc.next, hc.mem]
    have hload : A (.load a 1) := by simpa using hA 0 (by omega)
    refine wp_crcBit (i := 7) (by omega) (c := c ^^^ (μ a).setWidth 32) (a := a + 1) (μ := μ)
      (n := BitVec.ofNat 32 (n + 1)) ⟨((hc.framed.setFlags.set.set).load hload).set.set, hc.mem, ?_, ?_, ?_, ?_⟩
      (by simp [Machine.reg_set]) fun M hM => ih (by omega) (a := a + 1) (fun i hi => ?_) (c := Crc.byte CRC_POLY c (μ a))
        ⟨hM.framed, hM.mem, hM.crc, hM.next, ?_, hM.poly⟩ fun M' hf hm hr => ?_
    · simp [Machine.reg_set, hc.crc]
    · simp [Machine.reg_set]
    · simp [Machine.reg_set, hc.left]
    · simp [Machine.reg_set, hc.poly]
    · rw [show a + 1 + BitVec.ofNat 32 i = a + BitVec.ofNat 32 (i + 1) by bv_omega]
      exact hA (i + 1) (by omega)
    · rw [hM.left]
      bv_omega
    · exact h M' hf hm (by simpa [bytesAt] using hr)

/-- `crc32_range` leaves to `bad` before it has looked at the range, if this is not in the window. -/
theorem wp_crc32Range_bad {p : Word} (h4 : m.reg .r4 = p) (hs : ¬ SafeRange (m.loadWord (p + 8)) (m.loadWord (p + 12)))
    (h : ∀ M, Changed [.reg .r1, .reg .r2, .reg .r3, .reg .r6, .flags]
      [.load (align (p + 8)) 4, .load (align (p + 12)) 4] m M → wp handler env (handler.codeAt .bad) M Q) :
    wp handler env (handler.codeAt .crc32Range) m Q := by
  have hst : SAFE_RAM_START.toNat = 0x01000000 := rfl
  have hend : SAFE_RAM_END.toNat = 0x02000000 := rfl
  generalize ha : m.loadWord (p + 8) = a at hs
  generalize hn : m.loadWord (p + 12) = n at hs
  rw [codeAt_crc32Range]
  simp only [crc32RangeBlock, List.cons_append, List.nil_append, wp_label, wp_op, wp_b, holds_al, if_true, Op.exec,
    Op2.eval, Machine.flags_setFlags, Machine.reg_set, Machine.reg_touch, Machine.reg_setFlags, reduceCtorEq, if_false, h4,
    Machine.loadWord_set, Machine.loadWord_touch, ha, hn,
    holds_lo_sub, holds_hs_add, holds_hi_sub, decide_eq_true_eq]
  have bad : ∀ M : Machine, (∀ r, r ≠ .r1 → r ≠ .r2 → r ≠ .r3 → r ≠ .r6 → m.reg r = M.reg r) → m.ctl = M.ctl →
      m.sys = M.sys → m.mem = M.mem → M.log = m.log ++ [.load (align (p + 8)) 4, .load (align (p + 12)) 4] →
      wp handler env (handler.codeAt .bad) M Q := by
    intro M hr hc hy hμ hl
    refine h M ⟨⟨fun r hn => ?_, fun hf => by simp at hf, hc, hy, fun x _ => congrFun hμ x⟩, hl⟩
    simp only [List.mem_cons, Loc.reg.injEq, reduceCtorEq, List.not_mem_nil, or_false, not_or] at hn
    exact hr r hn.1 hn.2.1 hn.2.2.1 hn.2.2.2
  split
  · exact bad _ (fun r h1 h2 h3 _ => by simp [Machine.reg_set, h1, h2, h3]) rfl rfl rfl (by simp)
  rename_i hlo
  split
  · exact bad _ (fun r h1 h2 h3 _ => by simp [Machine.reg_set, h1, h2, h3]) rfl rfl rfl (by simp)
  rename_i hcarry
  split
  · exact bad _ (fun r h1 h2 h3 h6 => by simp [Machine.reg_set, h1, h2, h3, h6]) rfl rfl rfl (by simp)
  · rename_i hhi
    exact absurd ⟨by bv_omega, by bv_omega⟩ hs

/-- `crc32_range`: a range in the window is answered with its CRC, any other with BAD00001. -/
theorem wp_crc32Range (henv : Preserves env) (hmsg : Apart (stackFrame m) 16 MESSAGE_ADDR 9)
    (hm : Framed A m C m') (hA : ∀ a, FrameAccess m a → A a)
    (h8 : A (.load (align (m.reg .r0 + 8)) 4)) (h12 : A (.load (align (m.reg .r0 + 12)) 4))
    (hwin : ∀ a n, Inside a n SAFE_RAM_START 0x01000000 → A (.load a n)) (h4 : m'.reg .r4 = m.reg .r0)
    (hok : ∀ e m'' a, SafeRange (m'.loadWord (m.reg .r0 + 8)) (m'.loadWord (m.reg .r0 + 12)) →
      Reply m'.mem (crc32 (bytesAt m'.mem (m'.loadWord (m.reg .r0 + 8)) (m'.loadWord (m.reg .r0 + 12)).toNat)) a →
      Returned A m (C ++ [a]) e m'' → Q e m'')
    (hbad : ∀ e m'' a, ¬ SafeRange (m'.loadWord (m.reg .r0 + 8)) (m'.loadWord (m.reg .r0 + 12)) →
      Reply m'.mem 0xBAD00001 a → Returned A m (C ++ [a]) e m'' → Q e m'') :
    wp handler env (handler.codeAt .crc32Range) m' Q := by
  generalize ha : m'.loadWord (m.reg .r0 + 8) = a at hok hbad ⊢
  generalize hn : m'.loadWord (m.reg .r0 + 12) = n at hok hbad ⊢
  rw [codeAt_crc32Range]
  simp only [crc32RangeBlock, List.cons_append, List.nil_append, wp_label, wp_op, wp_b, holds_al, if_true, Op.exec,
    Op2.eval, Machine.flags_setFlags, Machine.reg_set, Machine.reg_touch, Machine.reg_setFlags, reduceCtorEq, if_false, h4,
    Machine.loadWord_set, Machine.loadWord_touch, ha, hn,
    holds_lo_sub, holds_hs_add, holds_hi_sub, decide_eq_true_eq]
  have bad : ∀ M, Framed A m C M → M.mem = m'.mem → ¬ SafeRange a n → wp handler env (handler.codeAt .bad) M Q :=
    fun M hM hmem hs => wp_bad henv hmsg hM hA fun e m'' c hc hr => hbad e m'' c hs (hmem ▸ hc) hr
  have hst : SAFE_RAM_START.toNat = 0x01000000 := rfl
  have hend : SAFE_RAM_END.toNat = 0x02000000 := rfl
  have f1 := ((hm.set (r := .r1) (v := a)).load h8).set (r := .r2) (v := n)
  have f2 := ((f1.load h12).set (r := .r3) (v := SAFE_RAM_START)).setFlags
    (f := subFlags a SAFE_RAM_START)
  have f3 := (f2.set (r := .r3) (v := a + n)).setFlags (f := addFlags a n)
  have f4 := (f3.set (r := .r6) (v := SAFE_RAM_END)).setFlags (f := subFlags (a + n) SAFE_RAM_END)
  -- the three checks of the range: its start, the carry of its end, its end
  split
  · rename_i hlo
    exact bad _ f2 rfl fun hs => absurd hs.1 (by bv_omega)
  rename_i hlo
  split
  · rename_i hcarry
    exact bad _ f3 rfl fun hs => by have := hs.2; omega
  rename_i hcarry
  split
  · rename_i hhi
    exact bad _ f4 rfl fun hs => by have := hs.2; bv_omega
  · rename_i hhi
    have hs : SafeRange a n := ⟨by bv_omega, by bv_omega⟩
    refine wp_crcByte (n := n.toNat) n.isLt (a := a) (c := ~~~ 0) (fun i hi => hwin _ _ ?_)
      ⟨(f4.set (r := .r0) (v := ~~~ 0)).set (r := .r6) (v := CRC_POLY), rfl, ?_, ?_, ?_, ?_⟩ fun M hM hmem hr => ?_
    · have := hs.1
      have := hs.2
      simp only [Inside]
      bv_omega
    · simp [Machine.reg_set]
    · simp [Machine.reg_set]
    · simp [Machine.reg_set]
    · simp [Machine.reg_set, CRC_POLY]
    · rw [codeAt_crcDone]
      simp only [crcDoneBlock, List.cons_append, List.nil_append, wp_label, wp_op, wp_b, holds_al, if_true, Op.exec,
        Op2.eval]
      refine wp_replyHex henv hmsg hM.set hA fun e m'' c hc hret => hok e m'' c hs ?_ hret
      rw [Machine.reg_set, if_pos rfl, Machine.mem_set, hmem, hr] at hc
      exact hc

/-- `call_stage2` leaves to `bad` with an address that may not be called. -/
theorem wp_callStage2_bad {p : Word} (h4 : m.reg .r4 = p) (hs : ¬ SecondStage (m.loadWord (p + 8)))
    (h : ∀ M, Changed [.reg .r5, .reg .r6, .flags] [.load (align (p + 8)) 4] m M →
      wp handler env (handler.codeAt .bad) M Q) :
    wp handler env (handler.codeAt .callStage2) m Q := by
  generalize ht : m.loadWord (p + 8) = t at hs
  rw [codeAt_callStage2]
  simp only [callStage2Block, List.cons_append, List.nil_append, wp_label, wp_op, wp_b, wp_blx, holds_al, if_true,
    Op.exec, Op2.eval, Machine.flags_setFlags, Machine.reg_set, Machine.reg_touch, Machine.reg_setFlags, reduceCtorEq,
    if_false, h4, ht, holds_lo_sub, holds_hs_sub, holds_ne_test, decide_eq_true_eq]
  have bad : ∀ M : Machine, (∀ r, r ≠ .r5 → r ≠ .r6 → m.reg r = M.reg r) → m.ctl = M.ctl → m.sys = M.sys →
      m.mem = M.mem → M.log = m.log ++ [.load (align (p + 8)) 4] → wp handler env (handler.codeAt .bad) M Q := by
    intro M hr hc hy hμ hl
    refine h M ⟨⟨fun r hn => ?_, fun hf => by simp at hf, hc, hy, fun x _ => congrFun hμ x⟩, hl⟩
    simp only [List.mem_cons, Loc.reg.injEq, reduceCtorEq, List.not_mem_nil, or_false, not_or] at hn
    exact hr r hn.1 hn.2
  split
  · exact bad _ (fun r _ h6 => by simp [Machine.reg_set, h6]) rfl rfl rfl (by simp)
  rename_i hlow
  split
  · exact bad _ (fun r h5 h6 => by simp [Machine.reg_set, h5, h6]) rfl rfl rfl (by simp)
  rename_i hlo
  split
  · exact bad _ (fun r h5 h6 => by simp [Machine.reg_set, h5, h6]) rfl rfl rfl (by simp)
  · rename_i hhi
    exact absurd ⟨and_three_eq_zero.mp (not_not.mp hlow), by bv_omega, by bv_omega⟩ hs

/-- `call_stage2`: an aligned address in the window is called with three arguments and the result is the reply, any
other is answered with BAD00001. -/
theorem wp_callStage2 (henv : Preserves env) (hmsg : Apart (stackFrame m) 16 MESSAGE_ADDR 9)
    (hm : Framed A m C m') (hA : ∀ a, FrameAccess m a → A a)
    (h8 : A (.load (align (m.reg .r0 + 8)) 4))
    (hargs : SecondStage (m'.loadWord (m.reg .r0 + 8)) →
      ∀ off ∈ [(12 : Word), 16, 20], A (.load (align (m.reg .r0 + off)) 4))
    (hcall : ∀ t reg μ, SecondStage t → A (.call t reg μ)) (h4 : m'.reg .r4 = m.reg .r0)
    (hok : ∀ e m'' a reg μ μ' v, SecondStage (m'.loadWord (m.reg .r0 + 8)) →
      reg .r0 = m'.loadWord (m.reg .r0 + 12) ∧ reg .r1 = m'.loadWord (m.reg .r0 + 16) ∧
        reg .r2 = m'.loadWord (m.reg .r0 + 20) → Reply μ' v a →
      Returned A m (C ++ [.call (m'.loadWord (m.reg .r0 + 8)) reg μ] ++ [a]) e m'' → Q e m'')
    (hbad : ∀ e m'' a, ¬ SecondStage (m'.loadWord (m.reg .r0 + 8)) → Reply m'.mem 0xBAD00001 a →
      Returned A m (C ++ [a]) e m'' → Q e m'') :
    wp handler env (handler.codeAt .callStage2) m' Q := by
  generalize ht : m'.loadWord (m.reg .r0 + 8) = t at hok hbad hargs ⊢
  rw [codeAt_callStage2]
  simp only [callStage2Block, List.cons_append, List.nil_append, wp_label, wp_op, wp_b, wp_blx, holds_al, if_true,
    Op.exec, Op2.eval, Machine.flags_setFlags, Machine.reg_set, Machine.reg_touch, Machine.reg_setFlags, reduceCtorEq,
    if_false, h4, Machine.loadWord_set, Machine.loadWord_touch, Machine.loadWord_setFlags, ht, holds_lo_sub,
    holds_hs_sub, holds_ne_test, decide_eq_true_eq]
  have bad : ∀ M, Framed A m C M → M.mem = m'.mem → ¬ SecondStage t → wp handler env (handler.codeAt .bad) M Q :=
    fun M hM hmem hs => wp_bad henv hmsg hM hA fun e m'' c hc hr => hbad e m'' c hs (hmem ▸ hc) hr
  have f1 := ((hm.set (r := .r6) (v := t)).load h8).setFlags
    (f := testFlags m'.flags (t &&& 3))
  have f2 := (f1.set (r := .r5) (v := SAFE_RAM_START)).setFlags (f := subFlags t SAFE_RAM_START)
  have f3 := (f2.set (r := .r5) (v := SAFE_RAM_END)).setFlags (f := subFlags t SAFE_RAM_END)
  -- the three checks of the address: alignment, lower end, upper end
  split
  · rename_i hlow
    exact bad _ f1 rfl fun hs => hlow (and_three_eq_zero.mpr hs.1)
  rename_i hlow
  split
  · rename_i hlo
    exact bad _ f2 rfl fun hs => absurd hs.2.1 (by bv_omega)
  rename_i hlo
  split
  · rename_i hhi
    exact bad _ f3 rfl fun hs => absurd hs.2.2 (by bv_omega)
  · rename_i hhi
    have hs : SecondStage t := ⟨and_three_eq_zero.mp (not_not.mp hlow), by bv_omega, by bv_omega⟩
    have f4 := (f3.set (r := .r0) (v := m'.loadWord (m.reg .r0 + 12))).load (hargs hs 12 (by simp))
    have f5 := (f4.set (r := .r1) (v := m'.loadWord (m.reg .r0 + 16))).load (hargs hs 16 (by simp))
    have f6 := (f5.set (r := .r2) (v := m'.loadWord (m.reg .r0 + 20))).load (hargs hs 20 (by simp))
    refine wp_replyHex henv hmsg (f6.callOut henv (Or.inr hs) (hcall _ _ _ hs)) hA fun e m'' a ha hr => ?_
    exact hok e m'' a _ _ _ _ hs ⟨rfl, rfl, rfl⟩ ha hr

end

end ShadowMsm.Stage0
