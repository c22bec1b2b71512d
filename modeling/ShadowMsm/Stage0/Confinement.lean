import ShadowMsm.Stage0.Input

/-!
# Confinement of the callback

Whatever the packet says, one run of the callback and its extension ends by returning to its caller, and on the way it
touches only its stack frame, the packet, the digit table, the reply string, the mailbox and the SDRAM window, and calls
only the print routine or, once, a second stage in the window.
-/

namespace ShadowMsm.Stage0

open Arm

/-- What the dispatcher provides: a stack away from the packet header, the reply string and the mailbox, and a mailbox
that is to be initialised or in order. -/
structure Entry (m : Machine) : Prop where
  packet : Apart (stackFrame m) 16 (m.reg .r0) 8
  message : Apart (stackFrame m) 16 MESSAGE_ADDR 9
  mailbox : Apart (stackFrame m) 16 INPUT_MAILBOX_ADDR 268
  box : MailboxOk m.mem

/-- The run of the callback from `m` ends, in an exit and a machine that satisfy `Q`. -/
def wpMonitor (env : Word → Machine → Machine) (m : Machine) (Q : Exit → Machine → Prop) : Prop :=
  ∃ n e m', monitorRun env n m = some (e, m') ∧ Q e m'

/-- The exit to the extension. -/
def toInput : Exit := ⟨.branch, INPUT_HANDLER_ADDR⟩

section

variable {env : Word → Machine → Machine} {Q : Exit → Machine → Prop} {A : Access → Prop} {m m' : Machine}
  {C : List Access}

/-- The callback goes on in the extension, or is done. -/
theorem wpMonitor_of_wp
    (h : wp handler env handler.lines m fun e m' =>
      if e = toInput then wp inputHandler env inputHandler.lines m' Q else Q e m') : wpMonitor env m Q := by
  obtain ⟨n, ⟨e, m'⟩, hr, hq⟩ := h
  simp only at hq
  split at hq
  · rename_i he
    obtain ⟨n', ⟨e', m''⟩, hr', hq⟩ := hq
    refine ⟨max n n', e', m'', ?_, hq⟩
    rw [monitorRun, Program.run_mono hr (Nat.le_max_left n n')]
    exact (if_pos he).trans (Program.run_mono hr' (Nat.le_max_right n n'))
  · rename_i he
    refine ⟨n, e, m', ?_, hq⟩
    rw [monitorRun, hr]
    exact if_neg he

/-- Memory follows the log over both listings. -/
theorem monitorRun_follows {x : Word} (henv : ∀ t m, (env t m).mem x = m.mem x) {n : Nat} {e : Exit}
    (h : monitorRun env n m = some (e, m')) : Follows x m m' := by
  rw [monitorRun] at h
  cases hr : handler.run env n handler.lines m with
  | none => simp [hr] at h
  | some q =>
    obtain ⟨e₁, m₁⟩ := q
    have h₁ := Program.run_follows henv hr
    simp only [hr] at h
    split at h
    · exact h₁.trans (Program.run_follows henv h)
    · cases h
      exact h₁

/-- Subcommand 0x0E leaves the callback for the extension. -/
theorem wp_mailboxInput (h : Q toInput m') : wp handler env (handler.codeAt .mailboxInput) m' Q := by
  rw [show handler.codeAt .mailboxInput = mailboxInputBlock ++ handler.codeAt .banner from rfl]
  exact wp_label.mpr (wp_bAbs.mpr h)

/-- Two runs of the callback end alike. -/
theorem monitorRun_det {n n' : Nat} {r r' : Exit × Machine} (h : monitorRun env n m = some r)
    (h' : monitorRun env n' m = some r') : r = r' := by
  have mono : ∀ {n n' : Nat} {r : Exit × Machine}, n ≤ n' → monitorRun env n m = some r →
      monitorRun env n' m = some r := by
    intro n n' r hn h
    rw [monitorRun] at h ⊢
    cases hr : handler.run env n handler.lines m with
    | none => simp [hr] at h
    | some q =>
      obtain ⟨e, m₁⟩ := q
      rw [Program.run_mono hr hn]
      simp only [hr] at h ⊢
      split
      · rename_i he
        rw [if_pos he] at h
        exact Program.run_mono h hn
      · rename_i he
        rwa [if_neg he] at h
  have h1 := mono (Nat.le_max_left n n') h
  have h2 := mono (Nat.le_max_right n n') h'
  rw [h1] at h2
  exact Option.some.inj h2

theorem Returned.ne_toInput {e : Exit} (h : Returned A m C e m') : e ≠ toInput := by
  rw [h.exit]
  intro he
  cases he

/-- A packet is checked and dispatched: `bad` for what is no command, else what the table says. -/
theorem wp_commands (hA : ∀ a, FrameAccess m a → A a) (hH : ∀ a, HeaderAccess m a → A a)
    (hbad : ∀ m', Framed A m [] m' → m'.mem = pushed m → ¬ IsCommand (pushed m) (m.reg .r0) →
      wp handler env (handler.codeAt .bad) m' Q)
    (hcmd : ∀ m', Framed A m [] m' → m'.mem = pushed m → m'.reg .r4 = m.reg .r0 →
      IsCommand (pushed m) (m.reg .r0) → Entered m m' →
      match commandTable.lookup ((pushed m (m.reg .r0 + 7)).setWidth 32) with
      | some l => wp handler env (handler.codeAt l) m' Q
      | none => wp handler env (.ldrc .r0 0xBAD00000 :: .b .replyHex :: handler.codeAt .mailboxInput) m' Q) :
    wp handler env handler.lines m Q := by
  refine wp_entry hA hH hbad fun m' hm hmem h4 h5 hc hent => ?_
  rw [dispatchBlock_eq, List.append_assoc]
  refine wp_dispatch fun f => ?_
  rw [h5]
  refine hcmd (m'.setFlags f) hm.setFlags hmem h4 hc ⟨⟨hent.agree.reg, fun hn => ?_, hent.agree.ctl, hent.agree.sys,
    hent.agree.mem⟩, hent.log⟩
  simp at hn

theorem Entry.sameOn_pushed (hm : Entry m) : SameOn (pushed m) m.mem INPUT_MAILBOX_ADDR 268 := fun _ hx =>
  storeWords_of_not_within fun hw => hm.mailbox _ hw hx

theorem Entry.mailboxOk_pushed (hm : Entry m) : MailboxOk (pushed m) :=
  (mailboxOk_congr hm.sameOn_pushed).mpr hm.box

theorem Entry.header (hm : Entry m) : SameOn (pushed m) m.mem (m.reg .r0) 8 := fun _ hx =>
  storeWords_of_not_within fun hw => hm.packet _ hw hx

theorem Entry.isCommand_pushed (hm : Entry m) : IsCommand (pushed m) (m.reg .r0) ↔ IsCommand m.mem (m.reg .r0) := by
  have hlen : packetLength (pushed m) (m.reg .r0) = packetLength m.mem (m.reg .r0) :=
    (hm.header.mono fun x hx => (inside_alignHalf (by decide) (by decide) (by decide)).within hx).load16
  have h6 : pushed m (m.reg .r0 + 6) = m.mem (m.reg .r0 + 6) := hm.header _ (inside_byte (by decide))
  rw [IsCommand, IsCommand, hlen, h6]

/-! ### The theorem -/

/-- The calls of one run: none, the print routine, or for subcommand 0x0D a second stage and the print routine. -/
def CallsOf (m : Machine) (C : List Access) : Prop :=
  C = [] ∨ (∃ reg μ, C = [.call PRINT_STRING reg μ]) ∨
    (m.mem (m.reg .r0 + 7) = 0x0D ∧ ∃ t reg μ reg' μ', SecondStage t ∧
      C = [.call t reg μ, .call PRINT_STRING reg' μ'])

/-- What one run of the callback has done when it has returned. -/
def Outcome (m : Machine) (e : Exit) (m' : Machine) : Prop :=
  ∃ C, Returned (Confined m) m C e m' ∧ CallsOf m C ∧
    (¬ IsCommand m.mem (m.reg .r0) →
      ∃ a, C = [a] ∧ Returned (ReplyAccess m) m C e m' ∧ Reply (pushed m) 0xBAD00001 a)

theorem MailboxAccess.confined (a : Access) (h : MailboxAccess m a) : Confined m a := by
  cases a with
  | load a n =>
    rcases h with h | h
    · exact Or.inr (Or.inl h)
    · exact Or.inl (Or.inr (Or.inl h))
  | store a n => exact Or.inr h
  | call => exact h.elim

/-- The packet at `p` is the command with the subcommand `sub`. -/
def IsSubcommand (μ : Mem) (p : Word) (sub : BitVec 8) : Prop := IsCommand μ p ∧ μ (p + 7) = sub

/-- `A` allows what a run of the callback from `m` does; what the commands that look further into the packet do counts only
where the packet is such a command. -/
structure CommandAccess (A : Access → Prop) (m : Machine) : Prop where
  frame : ∀ a, FrameAccess m a → A a
  header : ∀ a, HeaderAccess m a → A a
  crc : IsSubcommand m.mem (m.reg .r0) 0x0C →
    A (.load (align (m.reg .r0 + 8)) 4) ∧ A (.load (align (m.reg .r0 + 12)) 4) ∧
    ∀ a n, Inside a n SAFE_RAM_START 0x01000000 → A (.load a n)
  stage2 : IsSubcommand m.mem (m.reg .r0) 0x0D → A (.load (align (m.reg .r0 + 8)) 4) ∧
    (SecondStage ((m.setMem (pushed m)).loadWord (m.reg .r0 + 8)) →
      ∀ off ∈ [(12 : Word), 16, 20], A (.load (align (m.reg .r0 + off)) 4)) ∧
    ∀ t reg μ, SecondStage t → A (.call t reg μ)
  input : IsSubcommand m.mem (m.reg .r0) 0x0E → ∀ a, InputAccess m (pushed m) a → A a

/-- The callback has returned, and what it did was allowed. -/
def Done (A : Access → Prop) (m : Machine) (e : Exit) (m' : Machine) : Prop := ∃ C, Returned A m C e m' ∧ CallsOf m C

/-- Every command ends. -/
private theorem wp_command (henv : Preserves env) (hm : Entry m) (hA : CommandAccess A m)
    (hc : IsCommand m.mem (m.reg .r0)) (hf : Framed A m [] m') (hmem : m'.mem = pushed m)
    (h4 : m'.reg .r4 = m.reg .r0) {l : Label}
    (hl : commandTable.lookup ((pushed m (m.reg .r0 + 7)).setWidth 32) = some l) :
    wp handler env (handler.codeAt l) m' fun e m' =>
      if e = toInput then wp inputHandler env inputHandler.lines m' (Done A m) else Done A m e m' := by
  have done : ∀ {C : List Access} {e : Exit} {m'' : Machine}, Returned A m C e m'' → CallsOf m C →
      if e = toInput then wp inputHandler env inputHandler.lines m'' (Done A m) else Done A m e m'' := by
    intro C e m'' hret hC
    rw [if_neg hret.ne_toInput]
    exact ⟨C, hret, hC⟩
  have reply : ∀ {μ : Mem} {v : Word} {a : Access}, Reply μ v a → CallsOf m [a] := by
    intro μ v a ha
    obtain ⟨reg, μ', rfl⟩ := ha.eq_call
    exact Or.inr (Or.inl ⟨reg, μ', rfl⟩)
  have query : ∀ {l : Label} {o : Op} {k : List (Line Label)} {v : Word},
      handler.codeAt l = .label l :: .instr (.op .al o) :: .b .replyHex :: k → o.exec m' = m'.set .r0 v →
      wp handler env (handler.codeAt l) m' fun e m' =>
        if e = toInput then wp inputHandler env inputHandler.lines m' (Done A m) else Done A m e m' :=
    fun hcode ho => wp_query henv hm.message hf hA.frame hcode ho fun e m'' a ha hret => done hret (reply ha)
  obtain ⟨l₁, l₂, hsplit, -⟩ := List.lookup_eq_some_iff.mp hl
  have hin : (BitVec.setWidth 32 (pushed m (m.reg .r0 + 7)), l) ∈ commandTable := by simp [hsplit]
  have h7 : pushed m (m.reg .r0 + 7) = m.mem (m.reg .r0 + 7) := hm.header _ (inside_byte (by decide))
  rw [h7] at hin
  simp only [commandTable, List.mem_cons, List.not_mem_nil, or_false, Prod.mk.injEq] at hin
  rcases hin with ⟨-, rfl⟩ | ⟨-, rfl⟩ | ⟨-, rfl⟩ | ⟨-, rfl⟩ | ⟨-, rfl⟩ | ⟨-, rfl⟩ | ⟨-, rfl⟩ | ⟨-, rfl⟩ | ⟨-, rfl⟩ |
    ⟨-, rfl⟩ | ⟨-, rfl⟩ | ⟨-, rfl⟩ | ⟨h12, rfl⟩ | ⟨h13, rfl⟩ | ⟨h14, rfl⟩
  · refine wp_banner henv hf hA.frame fun e m'' reg μ _ hret => done hret ?_
    exact Or.inr (Or.inl ⟨reg, μ, rfl⟩)
  · exact query rfl rfl
  · exact query rfl rfl
  · exact query rfl rfl
  · exact query rfl rfl
  · exact query rfl rfl
  · exact query rfl rfl
  · exact query rfl rfl
  · exact query rfl rfl
  · exact query rfl rfl
  · exact query rfl rfl
  · exact query rfl rfl
  · -- crc32_range: both of its exits are replies
    obtain ⟨h8, h12, hwin⟩ := hA.crc ⟨hc, by bv_omega⟩
    refine wp_crc32Range henv hm.message hf hA.frame h8 h12 hwin h4 (fun e m'' a _ ha hret => ?_)
      fun e m'' a _ ha hret => ?_
    · exact done hret (reply ha)
    · exact done hret (reply ha)
  · -- call_stage2: the byte of the subcommand is the one at entry
    have h7 : m.mem (m.reg .r0 + 7) = 0x0D := by bv_omega
    obtain ⟨h8, hargs, hcall⟩ := hA.stage2 ⟨hc, h7⟩
    rw [show (m.setMem (pushed m)).loadWord (m.reg .r0 + 8) = m'.loadWord (m.reg .r0 + 8) by
      simp only [Machine.loadWord, Machine.mem_setMem, hmem]] at hargs
    refine wp_callStage2 henv hm.message hf hA.frame h8 hargs hcall h4
      (fun e m'' a reg μ μ' v hs _ ha hret => done hret ?_) fun e m'' a _ ha hret => ?_
    · obtain ⟨reg', μ'', rfl⟩ := ha.eq_call
      exact Or.inr (Or.inr ⟨h7, _, reg, μ, reg', μ'', hs, rfl⟩)
    · exact done hret (reply ha)
  · -- mailbox_input: the extension takes over
    refine wp_mailboxInput ?_
    rw [if_pos rfl]
    refine wp_inputHandler hm.mailbox hf hA.frame (hmem ▸ hA.input ⟨hc, by bv_omega⟩) h4
      (hmem ▸ hm.mailboxOk_pushed) fun e m'' hret _ => ?_
    exact ⟨[], hret, Or.inl rfl⟩

/-- Every run of the callback ends, and does only what it is allowed to do. -/
theorem wp_monitor (henv : Preserves env) (hm : Entry m) (hA : CommandAccess A m) : wpMonitor env m (Done A m) := by
  refine wpMonitor_of_wp (wp_commands hA.frame hA.header (fun m' hf hmem _ => ?_) fun m' hf hmem h4 hc _ => ?_)
  · refine wp_bad henv hm.message hf hA.frame fun e m'' a ha hret => ?_
    rw [if_neg hret.ne_toInput]
    obtain ⟨reg, μ', rfl⟩ := ha.eq_call
    exact ⟨_, hret, Or.inr (Or.inl ⟨reg, μ', rfl⟩)⟩
  · split
    · rename_i l hl
      exact wp_command henv hm hA (hm.isCommand_pushed.mp hc) hf hmem h4 hl
    · refine wp_unknown henv hm.message hf hA.frame fun e m'' a ha hret => ?_
      rw [if_neg hret.ne_toInput]
      obtain ⟨reg, μ', rfl⟩ := ha.eq_call
      exact ⟨_, hret, Or.inr (Or.inl ⟨reg, μ', rfl⟩)⟩

theorem commandAccess_true (m : Machine) : CommandAccess (fun _ => True) m :=
  ⟨fun _ _ => trivial, fun _ _ => trivial, fun _ => ⟨trivial, trivial, fun _ _ _ => trivial⟩,
    fun _ => ⟨trivial, fun _ _ _ => trivial, fun _ _ _ _ => trivial⟩, fun _ _ _ => trivial⟩

theorem commandAccess_confined (m : Machine) : CommandAccess (Confined m) m where
  frame a h := (h.reply a).confined a
  header a h := (h.reply a).confined a
  crc _ := ⟨(reply_operand (by decide) (by decide)).confined _, (reply_operand (by decide) (by decide)).confined _,
    fun a n h => Or.inr (Or.inr h)⟩
  stage2 _ := by
    refine ⟨(reply_operand (by decide) (by decide)).confined _, fun _ off ho => ?_, fun t reg μ h => Or.inr h⟩
    simp only [List.mem_cons, List.not_mem_nil, or_false] at ho
    rcases ho with rfl | rfl | rfl
    · exact (reply_operand (by decide) (by decide)).confined _
    · exact (reply_operand (by decide) (by decide)).confined _
    · exact (reply_operand (by decide) (by decide)).confined _
  input _ a h := (h.mailbox a).confined a

/-- A run of the callback that has stayed inside its bounds: a byte outside the frame, the reply string and the mailbox is
what it was, unless a routine that was called has changed it. -/
structure ConfinedRun (env : Word → Machine → Machine) (m : Machine) (e : Exit) (m' : Machine) : Prop where
  outcome : Outcome m e m'
  untouched : ∀ x, ¬ Within x (stackFrame m) 16 → ¬ Within x MESSAGE_ADDR 9 → ¬ Within x INPUT_MAILBOX_ADDR 268 →
    (∀ t m, (env t m).mem x = m.mem x) → m'.mem x = m.mem x

/-- One run of the callback, for any packet and any mailbox in order: it ends with a return to the caller, `r0` is 0 and
`sp` and `r4`-`r6` are as they were; its accesses and calls are confined; and a packet that is no command is answered
with BAD00001, which writes only the frame and the reply string. -/
theorem monitor_confined (henv : Preserves env) (hm : Entry m) : wpMonitor env m (ConfinedRun env m) := by
  have outcome : wpMonitor env m (Outcome m) := by
    by_cases hc : IsCommand m.mem (m.reg .r0)
    · obtain ⟨n, e, m', hrun, C, hret, hC⟩ := wp_monitor henv hm (commandAccess_confined m)
      exact ⟨n, e, m', hrun, C, hret, hC, fun h => absurd hc h⟩
    · refine wpMonitor_of_wp (wp_commands FrameAccess.reply HeaderAccess.reply (fun m' hf hmem _ => ?_)
        fun m' _ _ _ hc' _ => absurd (hm.isCommand_pushed.mp hc') hc)
      refine wp_bad henv hm.message hf FrameAccess.reply fun e m'' a ha hret => ?_
      rw [if_neg hret.ne_toInput]
      obtain ⟨reg, μ', rfl⟩ := ha.eq_call
      exact ⟨_, hret.mono ReplyAccess.confined, Or.inr (Or.inl ⟨reg, μ', rfl⟩), fun _ => ⟨_, rfl, hret, hmem ▸ ha⟩⟩
  obtain ⟨n, e, m', hrun, ho⟩ := outcome
  refine ⟨n, e, m', hrun, ho, fun x hf hmsg hbox hx => ?_⟩
  obtain ⟨l, hl, hkeep⟩ := monitorRun_follows hx hrun
  obtain ⟨C, hret, -⟩ := ho
  obtain ⟨l', hl', hall, -⟩ := hret.logs
  obtain rfl : l = l' := List.append_cancel_left (hl.symm.trans hl')
  refine hkeep fun a ha hs => ?_
  have hconf := hall a ha
  cases a with
  | store a n =>
    rcases hconf with (h | h) | h
    · exact hf (h.within hs)
    · exact hmsg (h.within hs)
    · exact hbox (h.within hs)
  | load | call => exact hs

end

/-- A callback entry with an empty packet at 0x0081A000 and the stack of the resident programmer. -/
def emptyPacket : Machine where
  reg := fun r => if r = .sp then 0x0081DD84 else if r = .r0 then 0x0081A000 else 0
  flags := ⟨false, false, false, false⟩
  ctl := 0xD3
  sys := fun _ => 0
  mem := fun _ => 0
  log := []

/-- An entry with the packet `1C 0D`: a call of 0x01000000 with three arguments, over SDRAM that is not empty. -/
def callPacket : Machine :=
  { emptyPacket with
    mem := storeBytes (fun x => if 0x01000000 ≤ x then 0xA5 else 0) 0x0081A004
      [18, 0, 0x1C, 0x0D, 0, 0, 0, 1, 1, 0, 0, 0, 2, 0, 0, 0, 3, 0, 0, 0] }

theorem monitor_confined_callPacket : IsSubcommand callPacket.mem (callPacket.reg .r0) 0x0D ∧
    wpMonitor (fun _ m => m.set .r0 (m.reg .r0 + m.reg .r1 + m.reg .r2)) callPacket
      (ConfinedRun (fun _ m => m.set .r0 (m.reg .r0 + m.reg .r1 + m.reg .r2)) callPacket) := by
  have hentry : Entry callPacket :=
    ⟨Apart.symm (apart_of_le (by decide) (by decide)), Apart.symm (apart_of_le (by decide) (by decide)),
      apart_of_le (by decide) (by decide), by decide⟩
  exact ⟨⟨by decide, by decide⟩, monitor_confined (preserves_set fun m => m.reg .r0 + m.reg .r1 + m.reg .r2) hentry⟩

end ShadowMsm.Stage0
