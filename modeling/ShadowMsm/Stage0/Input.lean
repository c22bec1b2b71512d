import ShadowMsm.Stage0.Commands

/-!
# The mailbox extension

What the extension does to memory, as a function (`inputMem`), and that it does this and returns.
-/

namespace ShadowMsm.Stage0

open Arm

/-! ### The mailbox in memory -/

def mailboxMagic (μ : Mem) : Word := load32 μ INPUT_MAILBOX_ADDR

def mailboxHead (μ : Mem) : Word := load32 μ (INPUT_MAILBOX_ADDR + 4)

def mailboxTail (μ : Mem) : Word := load32 μ (INPUT_MAILBOX_ADDR + 8)

/-- Where the ring starts. -/
def RING_ADDR : Word := INPUT_MAILBOX_ADDR + 12

/-- A mailbox the producer and the consumer can go on with: to be initialised, or with both indices in the ring. -/
def MailboxOk (μ : Mem) : Prop :=
  mailboxMagic μ = INPUT_MAILBOX_MAGIC → (mailboxHead μ).toNat < 256 ∧ (mailboxTail μ).toNat < 256

instance (μ : Mem) : Decidable (MailboxOk μ) := inferInstanceAs (Decidable (_ → _))

theorem inside_box (off : Word) (h : off.toNat + 4 ≤ 268) :
    Inside (INPUT_MAILBOX_ADDR + off) 4 INPUT_MAILBOX_ADDR 268 := by
  simp only [Inside]
  bv_omega

/-- The header fields are those of any memory with the same mailbox. -/
theorem mailboxFields_congr {μ ν : Mem} (h : SameOn μ ν INPUT_MAILBOX_ADDR 268) :
    mailboxMagic μ = mailboxMagic ν ∧ mailboxHead μ = mailboxHead ν ∧ mailboxTail μ = mailboxTail ν := by
  have word : ∀ off : Word, off.toNat + 4 ≤ 268 →
      load32 μ (INPUT_MAILBOX_ADDR + off) = load32 ν (INPUT_MAILBOX_ADDR + off) := fun off ho =>
    (h.mono fun x hx => (inside_box _ ho).within hx).load32
  exact ⟨word 0 (by decide), word 4 (by decide), word 8 (by decide)⟩

theorem mailboxOk_congr {μ ν : Mem} (h : SameOn μ ν INPUT_MAILBOX_ADDR 268) : MailboxOk μ ↔ MailboxOk ν := by
  obtain ⟨h0, h4, h8⟩ := mailboxFields_congr h
  rw [MailboxOk, MailboxOk, h0, h4, h8]

/-- Before `mailbox_ready`: a mailbox without the magic is made an empty one. -/
def mailboxInit (μ : Mem) : Mem :=
  if mailboxMagic μ = INPUT_MAILBOX_MAGIC then μ
  else store32 (store32 (store32 μ INPUT_MAILBOX_ADDR INPUT_MAILBOX_MAGIC) (INPUT_MAILBOX_ADDR + 4) 0)
    (INPUT_MAILBOX_ADDR + 8) 0

/-- `mailbox_loop`: copy up to `n` bytes from `src` on to the ring at `head`, until the next head would be `tail`. -/
def copyIn (μ : Mem) (src head tail : Word) : Nat → Mem × Word
  | 0 => (μ, head)
  | n + 1 =>
    if (head + 1) &&& INPUT_RING_MASK = tail then (μ, head)
    else copyIn (store8 μ (RING_ADDR + head) (μ src)) (src + 1) ((head + 1) &&& INPUT_RING_MASK) tail n

/-- How many bytes of a packet of the declared length the extension tries to take. -/
def inputCount (len : BitVec 16) : Nat := min (len.toNat - 2) INPUT_PACKET_LIMIT.toNat

/-- Memory after the extension has taken the packet at `p`. -/
def inputMem (μ : Mem) (p : Word) : Mem :=
  let μ₁ := mailboxInit μ
  if packetLength μ₁ p ≤ 2 then μ₁
  else
    let (μ₂, head) := copyIn μ₁ (p + 8) (mailboxHead μ₁) (mailboxTail μ₁) (inputCount (packetLength μ₁ p))
    store32 μ₂ (INPUT_MAILBOX_ADDR + 4) head

section

variable {env : Word → Machine → Machine} {Q : Exit → Machine → Prop} {A : Access → Prop} {m m' : Machine}
  {C : List Access}

/-- What the extension needs besides the frame. -/
def MailboxAccess (m : Machine) : Access → Prop
  | .load a n => Inside a n INPUT_MAILBOX_ADDR 268 ∨ Inside a n (m.reg .r0) 72
  | .store a n => Inside a n INPUT_MAILBOX_ADDR 268
  | .call _ _ _ => False

/-- The same, with no more of the packet than its length and the bytes taken from memory `μ`. -/
def InputAccess (m : Machine) (μ : Mem) : Access → Prop
  | .load a n => Inside a n INPUT_MAILBOX_ADDR 268 ∨ (a = ((m.reg .r0 + 4) &&& 0xFFFFFFFE) ∧ n = 2) ∨
      ∃ i < inputCount (packetLength (mailboxInit μ) (m.reg .r0)), a = m.reg .r0 + 8 + BitVec.ofNat 32 i ∧ n = 1
  | .store a n => Inside a n INPUT_MAILBOX_ADDR 268
  | .call _ _ _ => False

theorem inputCount_le (len : BitVec 16) : inputCount len ≤ 64 := Nat.min_le_right _ _

theorem InputAccess.mailbox {m : Machine} {μ : Mem} (a : Access) (h : InputAccess m μ a) : MailboxAccess m a := by
  cases a with
  | load a n =>
    rcases h with h | ⟨rfl, rfl⟩ | ⟨i, hi, rfl, rfl⟩
    · exact Or.inl h
    · exact Or.inr (inside_alignHalf (by decide) (by decide) (by decide))
    · have := inputCount_le (packetLength (mailboxInit μ) (m.reg .r0))
      refine Or.inr ?_
      simp only [Inside]
      bv_omega
  | store => exact h
  | call => exact h.elim

/-- The registers of the copy loop. -/
structure CopyAt (A : Access → Prop) (m : Machine) (C : List Access) (μ : Mem) (src head tail n : Word) (m' : Machine) :
    Prop where
  framed : Framed A m C m'
  mem : m'.mem = μ
  box : m'.reg .r0 = INPUT_MAILBOX_ADDR
  left : m'.reg .r2 = n
  head : m'.reg .r3 = head
  src : m'.reg .r4 = src
  tail : m'.reg .r5 = tail

theorem toNat_ringMask_lt (x : Word) : (x &&& INPUT_RING_MASK).toNat < 256 := by
  have h : (x &&& INPUT_RING_MASK).toNat ≤ INPUT_RING_MASK.toNat := by
    rw [BitVec.toNat_and]
    exact Nat.and_le_right
  exact Nat.lt_of_le_of_lt h (by decide)

theorem inside_ring {x : Word} (hx : x.toNat < 256) : Inside (RING_ADDR + x) 1 INPUT_MAILBOX_ADDR 268 := by
  simp only [Inside, RING_ADDR]
  bv_omega

/-- One pass of the loop: the ring is full, or one byte is copied and the count goes down. -/
private theorem wp_mailboxStep (hbox : Apart (stackFrame m) 16 INPUT_MAILBOX_ADDR 268)
    (hA : ∀ a n, Inside a n INPUT_MAILBOX_ADDR 268 → A (.store a n)) {μ : Mem} {src head tail n : Word}
    (hhead : head.toNat < 256) (hsrc : A (.load src 1)) (hc : CopyAt A m C μ src head tail n m')
    (hfull : (head + 1) &&& INPUT_RING_MASK = tail → ∀ M, Framed A m C M → M.mem = μ →
      M.reg .r0 = INPUT_MAILBOX_ADDR → M.reg .r3 = head →
      wp inputHandler env (inputHandler.codeAt .mailboxCommit) M Q)
    (hcopy : (head + 1) &&& INPUT_RING_MASK ≠ tail → ∀ M,
      CopyAt A m C (store8 μ (RING_ADDR + head) (μ src)) (src + 1) ((head + 1) &&& INPUT_RING_MASK) tail (n - 1) M →
      if n ≠ 1 then wp inputHandler env (inputHandler.codeAt .mailboxLoop) M Q
      else wp inputHandler env (inputHandler.codeAt .mailboxCommit) M Q) :
    wp inputHandler env (inputHandler.codeAt .mailboxLoop) m' Q := by
  have hcode : inputHandler.codeAt .mailboxLoop = mailboxLoopBlock ++ inputHandler.codeAt .mailboxCommit := rfl
  rw [hcode]
  simp only [mailboxLoopBlock, List.cons_append, List.nil_append, wp_label, wp_op, wp_b, holds_al, if_true, Op.exec,
    Op2.eval, Alu.eval, Machine.flags_setFlags, Machine.reg_set, Machine.reg_touch, Machine.reg_setFlags,
    Machine.reg_setMem, Machine.mem_set, Machine.mem_touch, Machine.mem_setFlags, reduceCtorEq, if_false, hc.box,
    hc.left, hc.head, hc.src, hc.tail, hc.mem, holds_eq_sub, holds_ne_sub, decide_eq_true_eq]
  have f1 := (hc.framed.set (r := .r6) (v := head + 1)).set (r := .r6) (v := (head + 1) &&& INPUT_RING_MASK)
    |>.setFlags (f := subFlags ((head + 1) &&& INPUT_RING_MASK) tail)
  split
  · rename_i he
    refine hfull he _ f1 hc.mem ?_ ?_
    · simp [Machine.reg_set, hc.box]
    · simp [Machine.reg_set, hc.head]
  · rename_i hne
    have f2 := ((f1.set (r := .r4) (v := src + 1)).set (r := .r1) (v := (μ src).setWidth 32)).load hsrc
    have f3 := (f2.set (r := .r12) (v := RING_ADDR)).store8 hc.mem (v := ((μ src).setWidth 32).setWidth 8)
      (hA _ 1 (inside_ring hhead)) fun hw => hbox _ hw ((inside_ring hhead).within (within_self (by omega)))
    have hbyte : BitVec.setWidth 8 (BitVec.setWidth 32 (μ src)) = μ src := by
      rw [BitVec.setWidth_setWidth_of_le _ (by omega), BitVec.setWidth_eq]
    refine hcopy hne _ ⟨f3.set.set.setFlags, ?_, ?_, ?_, ?_, ?_, ?_⟩
    · exact congrArg (store8 μ (RING_ADDR + head)) hbyte
    · simp [Machine.reg_set, hc.box]
    · simp [Machine.reg_set]
    · simp [Machine.reg_set]
    · simp [Machine.reg_set]
    · simp [Machine.reg_set, hc.tail]

/-- The loop does what `copyIn` says, and leaves to `mailbox_commit`. -/
private theorem wp_mailboxLoop (hbox : Apart (stackFrame m) 16 INPUT_MAILBOX_ADDR 268)
    (hA : ∀ a n, Inside a n INPUT_MAILBOX_ADDR 268 → A (.store a n)) {μ : Mem} (src : Word) {head : Word} (tail : Word)
    {n : Nat} (hn : n < 72) (hhead : head.toNat < 256) (hsrc : ∀ i < n + 1, A (.load (src + BitVec.ofNat 32 i) 1))
    (hc : CopyAt A m C μ src head tail (BitVec.ofNat 32 (n + 1)) m')
    (h : ∀ M, Framed A m C M → M.mem = (copyIn μ src head tail (n + 1)).1 →
      M.reg .r0 = INPUT_MAILBOX_ADDR → M.reg .r3 = (copyIn μ src head tail (n + 1)).2 →
      wp inputHandler env (inputHandler.codeAt .mailboxCommit) M Q) :
    wp inputHandler env (inputHandler.codeAt .mailboxLoop) m' Q := by
  have hsrc1 : A (.load src 1) := by simpa using hsrc 0 (by omega)
  induction n generalizing μ src head m' with
  | zero =>
    refine wp_mailboxStep hbox hA hhead hsrc1 hc (fun he M hf hm h0 h3 => ?_) fun hne M hM => ?_
    · exact h M hf (by rw [copyIn, if_pos he]; exact hm) h0 (by rw [copyIn, if_pos he]; exact h3)
    · rw [if_neg (by decide)]
      refine h M hM.framed ?_ hM.box ?_
      · rw [copyIn, if_neg hne]
        exact hM.mem
      · rw [copyIn, if_neg hne]
        exact hM.head
  | succ n ih =>
    refine wp_mailboxStep hbox hA hhead hsrc1 hc (fun he M hf hm h0 h3 => ?_) fun hne M hM => ?_
    · exact h M hf (by rw [copyIn, if_pos he]; exact hm) h0 (by rw [copyIn, if_pos he]; exact h3)
    · have hn1 : (BitVec.ofNat 32 (n + 1 + 1) : Word) ≠ 1 := by bv_omega
      have hdec : (BitVec.ofNat 32 (n + 1 + 1) - 1 : Word) = BitVec.ofNat 32 (n + 1) := by bv_omega
      have hnext : ∀ i < n + 1, A (.load (src + 1 + BitVec.ofNat 32 i) 1) := fun i hi => by
        rw [show src + 1 + BitVec.ofNat 32 i = src + BitVec.ofNat 32 (i + 1) by bv_omega]
        exact hsrc (i + 1) (by omega)
      rw [if_pos hn1]
      rw [hdec] at hM
      refine ih _ (by omega) (toNat_ringMask_lt _) hnext hM (fun M hf hm h0 h3 => h M hf ?_ h0 ?_) ?_
      · rw [copyIn, if_neg hne]
        exact hm
      · rw [copyIn, if_neg hne]
        exact h3
      · simpa using hnext 0 (by omega)

theorem mailboxInit_head_lt {μ : Mem} (h : MailboxOk μ) : (mailboxHead (mailboxInit μ)).toNat < 256 := by
  rw [mailboxInit]
  split
  · rename_i hm
    exact (h hm).1
  · rw [mailboxHead, load32_store32_of_apart (apart_of_le (by decide) (by decide)), load32_store32]
    decide

/-- The copy of a packet with a payload: `r2` counts its bytes, the loop puts them into the mailbox, and the head moves
on. -/
private theorem wp_mailboxCopy (hbox : Apart (stackFrame m) 16 INPUT_MAILBOX_ADDR 268)
    (hA : ∀ a, FrameAccess m a → A a) {μ : Mem} (hA' : ∀ a, InputAccess m μ a → A a)
    (hhead : (mailboxHead (mailboxInit μ)).toNat < 256) (hl2 : ¬ packetLength (mailboxInit μ) (m.reg .r0) ≤ 2)
    (hm : Framed A m C m') (hμ : m'.mem = mailboxInit μ) (h0 : m'.reg .r0 = INPUT_MAILBOX_ADDR)
    (h4 : m'.reg .r4 = m.reg .r0)
    (h2 : m'.reg .r2 = BitVec.ofNat 32 (inputCount (packetLength (mailboxInit μ) (m.reg .r0))))
    (h : ∀ e m'', Returned A m C e m'' → m''.mem = inputMem μ (m.reg .r0) → Q e m'') :
    wp inputHandler env (.add .r4 .r4 (.imm 8) :: .ldr .r3 .r0 4 :: .ldr .r5 .r0 8 ::
      inputHandler.codeAt .mailboxLoop) m' Q := by
  have hcommit : inputHandler.codeAt .mailboxCommit = mailboxCommitBlock ++ mailboxDoneBlock := rfl
  have box : ∀ a n, Inside a n INPUT_MAILBOX_ADDR 268 → A (.store a n) := fun a n h => hA' (.store a n) h
  generalize hl : packetLength (mailboxInit μ) (m.reg .r0) = len at hl2 h2
  obtain ⟨n, hn⟩ : ∃ n, inputCount len = n + 1 := Nat.exists_eq_succ_of_ne_zero (by
    simp only [inputCount, INPUT_PACKET_LIMIT]
    bv_omega)
  have hn64 : n < 64 := by
    have := inputCount_le len
    omega
  have hhead' : m'.loadWord (INPUT_MAILBOX_ADDR + 4) = mailboxHead (mailboxInit μ) :=
    hμ ▸ Machine.loadWord_of_dvd (by decide)
  have htail' : m'.loadWord (INPUT_MAILBOX_ADDR + 8) = mailboxTail (mailboxInit μ) :=
    hμ ▸ Machine.loadWord_of_dvd (by decide)
  have load : ∀ off : Word, off.toNat + 4 ≤ 268 → align (INPUT_MAILBOX_ADDR + off) = INPUT_MAILBOX_ADDR + off →
      A (.load (align (INPUT_MAILBOX_ADDR + off)) 4) := fun off ho hal =>
    hA' (.load _ 4) (Or.inl (by rw [hal]; exact inside_box _ ho))
  simp only [wp_op_al, Op.exec, Op2.eval, Alu.eval, Machine.reg_set, Machine.reg_touch, reduceCtorEq, if_false,
    Machine.loadWord_set, Machine.loadWord_touch, h0, h4, hhead', htail']
  refine wp_mailboxLoop hbox box (m.reg .r0 + 8) (mailboxTail (mailboxInit μ)) (n := n) (by omega) hhead
    (fun i hi => hA' (.load _ 1) (Or.inr (Or.inr ⟨i, by rw [hl, hn]; exact hi, rfl, rfl⟩)))
    ⟨((hm.set.set.load (load 4 (by decide) (by decide))).set).load (load 8 (by decide) (by decide)), hμ, ?_, ?_, ?_,
      ?_, ?_⟩ fun M' hM' hm' h0' h3' => ?_
  · simp [Machine.reg_set, h0]
  · simp [Machine.reg_set, h2, hn]
  · simp [Machine.reg_set]
  · simp [Machine.reg_set]
  · simp [Machine.reg_set]
  · rw [hcommit]
    simp only [mailboxCommitBlock, mailboxDoneBlock, List.cons_append, List.nil_append, wp_label,
      wp_op_al (o := .str _ _ _), Op.exec, h0', h3']
    refine wp_leave (hM'.store32 rfl ?_ ?_) hA fun e m'' hr hmem => h e m'' hr ?_
    · exact box _ 4 (inside_box 4 (by decide))
    · exact hbox.mono (inside_self _ _) (inside_box 4 (by decide))
    · rw [hmem, inputMem]
      simp only [hl, hl2, if_false, hn]
      change store32 M'.mem (align (INPUT_MAILBOX_ADDR + 4)) _ = _
      rw [hm', show align (INPUT_MAILBOX_ADDR + 4) = INPUT_MAILBOX_ADDR + 4 by decide]

/-- From `mailbox_ready` on. -/
private theorem wp_mailboxReady (hbox : Apart (stackFrame m) 16 INPUT_MAILBOX_ADDR 268)
    (hm : Framed A m C m') (hA : ∀ a, FrameAccess m a → A a) {μ : Mem} (hA' : ∀ a, InputAccess m μ a → A a)
    (hμ : m'.mem = mailboxInit μ) (h0 : m'.reg .r0 = INPUT_MAILBOX_ADDR) (h4 : m'.reg .r4 = m.reg .r0)
    (hhead : (mailboxHead (mailboxInit μ)).toNat < 256)
    (h : ∀ e m'', Returned A m C e m'' → m''.mem = inputMem μ (m.reg .r0) → Q e m'') :
    wp inputHandler env (inputHandler.codeAt .mailboxReady) m' Q := by
  have hlen : BitVec.setWidth 32 (packetLength (mailboxInit μ) (m.reg .r0)) ≤ (2 : Word) ↔
      packetLength (mailboxInit μ) (m.reg .r0) ≤ 2 := by bv_omega
  have hdone : inputHandler.codeAt .mailboxDone = mailboxDoneBlock := rfl
  have hcopy : ∀ M, ¬ packetLength (mailboxInit μ) (m.reg .r0) ≤ 2 → Framed A m C M → M.mem = mailboxInit μ →
      M.reg .r0 = INPUT_MAILBOX_ADDR → M.reg .r4 = m.reg .r0 →
      M.reg .r2 = BitVec.ofNat 32 (inputCount (packetLength (mailboxInit μ) (m.reg .r0))) →
      wp inputHandler env (.add .r4 .r4 (.imm 8) :: .ldr .r3 .r0 4 :: .ldr .r5 .r0 8 ::
        inputHandler.codeAt .mailboxLoop) M Q :=
    fun M hl2 hM hMm hM0 hM4 hM2 => wp_mailboxCopy hbox hA hA' hhead hl2 hM hMm hM0 hM4 hM2 h
  generalize hl : packetLength (mailboxInit μ) (m.reg .r0) = len at hlen hcopy
  have hload : load16 (mailboxInit μ) ((m.reg .r0 + 4) &&& 0xFFFFFFFE) = len := hl
  have lengthAccess : A (.load ((m.reg .r0 + 4) &&& 0xFFFFFFFE) 2) :=
    hA' (.load _ 2) (Or.inr (Or.inl ⟨rfl, rfl⟩))
  generalize hk : (.add .r4 .r4 (.imm 8) :: .ldr .r3 .r0 4 :: .ldr .r5 .r0 8 ::
    inputHandler.codeAt .mailboxLoop) = k at hcopy
  have hcode : inputHandler.codeAt .mailboxReady = .label .mailboxReady :: .ldrh .r2 .r4 4 :: .cmp .r2 (.imm 2) ::
      .bls .mailboxDone :: .sub .r2 .r2 (.imm 2) :: .cmp .r2 (.imm INPUT_PACKET_LIMIT) ::
      .movhi .r2 (.imm INPUT_PACKET_LIMIT) :: k := by
    rw [← hk]
    rfl
  rw [hcode]
  simp only [wp_label, wp_op_al, wp_op_if (c := .hi), wp_b, Op.exec, Op2.eval, Alu.eval, Machine.flags_setFlags,
    Machine.reg_set, Machine.reg_touch, Machine.reg_setFlags, if_true, holds_ls_sub, holds_hi_sub, decide_eq_true_eq,
    h4, hμ, hload, hlen]
  have f1 := ((hm.set (r := .r2) (v := len.setWidth 32)).load lengthAccess).setFlags (f := subFlags (len.setWidth 32) 2)
  split
  · rename_i hl2
    rw [hdone]
    refine wp_label.mpr (wp_leave f1 hA fun e m'' hr hmem => h e m'' hr ?_)
    rw [hmem, inputMem]
    simp only [hl, hl2, if_true]
    exact hμ
  rename_i hl2
  split
  · rename_i hhi
    refine hcopy _ hl2 (f1.set.setFlags.set) hμ ?_ ?_ ?_
    · simp [Machine.reg_set, h0]
    · simp [Machine.reg_set, h4]
    · simp only [INPUT_PACKET_LIMIT] at hhi
      simp only [Machine.reg_set, inputCount, INPUT_PACKET_LIMIT, if_true]
      bv_omega
  · rename_i hhi
    refine hcopy _ hl2 (f1.set.setFlags) hμ ?_ ?_ ?_
    · simp [Machine.reg_set, h0]
    · simp [Machine.reg_set, h4]
    · simp only [INPUT_PACKET_LIMIT] at hhi
      simp only [Machine.reg_setFlags, Machine.reg_set, inputCount, INPUT_PACKET_LIMIT, if_true]
      bv_omega

/-- The mailbox extension: entered from the callback with the packet in `r4`, it changes memory as `inputMem` says and
returns to the caller of the callback. -/
theorem wp_inputHandler (hbox : Apart (stackFrame m) 16 INPUT_MAILBOX_ADDR 268)
    (hm : Framed A m C m') (hA : ∀ a, FrameAccess m a → A a) (hA' : ∀ a, InputAccess m m'.mem a → A a)
    (h4 : m'.reg .r4 = m.reg .r0) (hok : MailboxOk m'.mem)
    (h : ∀ e m'', Returned A m C e m'' → m''.mem = inputMem m'.mem (m.reg .r0) → Q e m'') :
    wp inputHandler env inputHandler.lines m' Q := by
  have hlines : inputHandler.lines = inputEntryBlock ++ inputHandler.codeAt .mailboxReady := rfl
  have hal : align (INPUT_MAILBOX_ADDR + 0) = INPUT_MAILBOX_ADDR := by decide
  have hal4 : align (INPUT_MAILBOX_ADDR + 4) = INPUT_MAILBOX_ADDR + 4 := by decide
  have hal8 : align (INPUT_MAILBOX_ADDR + 8) = INPUT_MAILBOX_ADDR + 8 := by decide
  have hmagic : m'.loadWord (INPUT_MAILBOX_ADDR + 0) = mailboxMagic m'.mem :=
    Machine.loadWord_of_dvd (by decide)
  have store : ∀ off : Word, off.toNat + 4 ≤ 268 → A (.store (INPUT_MAILBOX_ADDR + off) 4) ∧
      Apart (stackFrame m) 16 (INPUT_MAILBOX_ADDR + off) 4 := fun off ho =>
    ⟨hA' (.store _ 4) (inside_box _ ho), hbox.mono (inside_self _ _) (inside_box _ ho)⟩
  rw [hlines]
  simp only [inputEntryBlock, List.cons_append, List.nil_append, wp_op, wp_b, holds_al, if_true, Op.exec, Op2.eval,
    Machine.flags_setFlags, Machine.reg_set, Machine.reg_touch, Machine.reg_setFlags, Machine.reg_setMem, Machine.mem_set,
    Machine.mem_touch, Machine.mem_setFlags, Machine.mem_setMem, reduceCtorEq, if_false, holds_eq_sub, decide_eq_true_eq,
    Machine.loadWord_set, hal, hal4, hal8, hmagic]
  have f1 := (((hm.set (r := .r0) (v := INPUT_MAILBOX_ADDR)).set (r := .r1) (v := mailboxMagic m'.mem)).load
    (hA' (.load INPUT_MAILBOX_ADDR 4) (Or.inl (inside_box 0 (by decide))))).set (r := .r6) (v := INPUT_MAILBOX_MAGIC)
    |>.setFlags (f := subFlags (mailboxMagic m'.mem) INPUT_MAILBOX_MAGIC)
  split
  · rename_i hm0
    refine wp_mailboxReady hbox f1 hA hA' (μ := m'.mem) ?_ ?_ ?_ (mailboxInit_head_lt hok) h
    · rw [mailboxInit, if_pos hm0]
      rfl
    · simp [Machine.reg_set]
    · simp [Machine.reg_set, h4]
  · rename_i hm0
    have f2 := (f1.store32 rfl (v := INPUT_MAILBOX_MAGIC) (store 0 (by decide)).1 (store 0 (by decide)).2).set (r := .r1) (v := 0)
    have f3 := (f2.store32 rfl (v := 0) (store 4 (by decide)).1 (store 4 (by decide)).2)
    have f4 := (f3.store32 rfl (v := 0) (store 8 (by decide)).1 (store 8 (by decide)).2)
    refine wp_mailboxReady hbox f4 hA hA' (μ := m'.mem) ?_ ?_ ?_ (mailboxInit_head_lt hok) h
    · rw [mailboxInit, if_neg hm0]
      rfl
    · simp [Machine.reg_set]
    · simp [Machine.reg_set, h4]

end

end ShadowMsm.Stage0
