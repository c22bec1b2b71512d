import ShadowMsm.CrcVerify
import ShadowMsm.Stage0.TwoRuns

/-!
# What the monitor does not know of a packet

The callback checks the declared length once, for the two bytes of the command.  Whether what it does then depends on bytes
beyond the declared length, which an earlier packet may have left in the buffer, is decided here for every packet: the
callback is entered twice, with machines that agree off such bytes.
-/

namespace ShadowMsm

open Arm Stage0

/-- The callback entered with a packet that is apart from its stack and from the mailbox. -/
structure PacketEntry (m : Machine) (payload : Bytes) : Prop where
  entry : Entry m
  packet : PacketAt m.mem (m.reg .r0) payload
  stack : Apart (stackFrame m) 16 (m.reg .r0) (6 + payload.length)
  mailbox : Apart (m.reg .r0) (6 + payload.length) INPUT_MAILBOX_ADDR 268

/-- Bytes that the packet does not declare: what is behind it in its buffer, and whatever else the callback does not use
(memory below its stack frame, for one). -/
structure Undeclared (S : Word → Prop) (m : Machine) (payload : Bytes) : Prop where
  declared : ∀ x, Within x (m.reg .r0) (6 + payload.length) → ¬ S x
  frame : ∀ x, Within x (stackFrame m) 16 → ¬ S x
  digits : ∀ x, Within x HEX_TABLE_ADDR 16 → ¬ S x
  message : ∀ x, Within x MESSAGE_ADDR 9 → ¬ S x
  mailbox : ∀ x, Within x INPUT_MAILBOX_ADDR 268 → ¬ S x
  window : ∀ x, Within x SAFE_RAM_START 0x01000000 → ¬ S x

/-- Two runs have had the same effect: the same exit and registers, memory the same off `S`, and the same calls, with the
same arguments and the same memory off `S`. -/
structure SameEffect (S : Word → Prop) (e : Exit) (m : Machine) (e' : Exit) (m' : Machine) : Prop where
  exit : e' = e
  final : Agree [] S m m'
  calls : List.Forall₂ (SameAccess [.reg .r6] S) (m.log.filter Access.isCall) (m'.log.filter Access.isCall)

/-- For this packet the callback acts only on bytes that the packet contains: entered with it on two machines that agree off
undeclared bytes, it has the same effect in both. -/
def ActsOnPacket (payload : Bytes) : Prop :=
  ∀ S env m m', Preserves env → Blind S env → PacketEntry m payload → Undeclared S m payload → Agree [] S m m' →
    m.log = [] → m'.log = [] →
    wpMonitor env m fun e M => wpMonitor env m' fun e' M' => SameEffect S e M e' M'

/-- The operand at `i`, with zeros for the bytes that the packet does not have. -/
def operand (payload : Bytes) (i : Nat) : Word :=
  payload.getD (i + 3) 0 ++ payload.getD (i + 2) 0 ++ payload.getD (i + 1) 0 ++ payload.getD i 0

/-- The packet has the operands of its command, or what it has of them is enough to refuse it. -/
def Decides (payload : Bytes) : Prop :=
  (payload.take 2 = [0x1C, 0x0C] → 10 ≤ payload.length ∨
    6 ≤ payload.length ∧ ¬ SafeRange (operand payload 2) (operand payload 6)) ∧
  (payload.take 2 = [0x1C, 0x0D] → 18 ≤ payload.length ∨ 3 ≤ payload.length ∧ ¬ 4 ∣ (payload.getD 2 0).toNat ∨
    6 ≤ payload.length ∧ ¬ SecondStage (operand payload 2))

instance (payload : Bytes) : Decidable (Decides payload) := inferInstanceAs (Decidable (_ ∧ _))

/-! ### The packet in memory -/

section

variable {μ : Mem} {p : Word} {payload : Bytes}

/-- A byte of the packet, or a byte nothing is known of. -/
theorem PacketAt.getD_le (h : PacketAt μ p payload) (i : Nat) :
    (payload.getD i 0).toNat ≤ (μ (p + 6 + BitVec.ofNat 32 i)).toNat := by
  by_cases hi : i < payload.length
  · rw [h.bytes i hi, List.getD_eq_getElem?_getD, List.getElem?_eq_getElem hi]
    exact Nat.le_refl _
  · rw [List.getD_eq_getElem?_getD, List.getElem?_eq_none (by omega)]
    exact Nat.zero_le _

theorem PacketAt.getD_eq (h : PacketAt μ p payload) {i : Nat} (hi : i < payload.length) :
    μ (p + 6 + BitVec.ofNat 32 i) = payload.getD i 0 := by
  rw [h.bytes i hi, List.getD_eq_getElem?_getD, List.getElem?_eq_getElem hi]
  rfl

theorem load32_packet (μ : Mem) (p : Word) (i : Nat) :
    load32 μ (p + 6 + BitVec.ofNat 32 i) = μ (p + 6 + BitVec.ofNat 32 (i + 3)) ++ μ (p + 6 + BitVec.ofNat 32 (i + 2)) ++
      μ (p + 6 + BitVec.ofNat 32 (i + 1)) ++ μ (p + 6 + BitVec.ofNat 32 i) := by
  simp only [load32, BitVec.ofNat_add, ← BitVec.add_assoc]
  rfl

/-- A declared operand is what is loaded. -/
theorem PacketAt.load32_eq (h : PacketAt μ p payload) {i : Nat} (hi : i + 4 ≤ payload.length) :
    load32 μ (p + 6 + BitVec.ofNat 32 i) = operand payload i := by
  rw [load32_packet, operand, h.getD_eq (by omega), h.getD_eq (by omega), h.getD_eq (by omega), h.getD_eq (by omega)]

/-- An operand that is declared in part is loaded as at least that. -/
theorem PacketAt.operand_le (h : PacketAt μ p payload) (i : Nat) :
    (operand payload i).toNat ≤ (load32 μ (p + 6 + BitVec.ofNat 32 i)).toNat := by
  have h0 := h.getD_le i
  have h1 := h.getD_le (i + 1)
  have h2 := h.getD_le (i + 2)
  have h3 := h.getD_le (i + 3)
  rw [load32_packet, operand, toNat_append_bytes, toNat_append_bytes]
  omega

/-- The operands of an aligned packet are loaded as they lie there. -/
theorem PacketAt.loadWord_eight {m : Machine} (h : PacketAt m.mem p payload) :
    m.loadWord (p + 8) = load32 m.mem (p + 6 + BitVec.ofNat 32 2) := by
  have hal := h.aligned
  rw [Machine.loadWord_of_dvd (by bv_omega), show p + 6 + BitVec.ofNat 32 2 = p + 8 by bv_omega]

theorem PacketAt.loadWord_twelve {m : Machine} (h : PacketAt m.mem p payload) :
    m.loadWord (p + 12) = load32 m.mem (p + 6 + BitVec.ofNat 32 6) := by
  have hal := h.aligned
  rw [Machine.loadWord_of_dvd (by bv_omega), show p + 6 + BitVec.ofNat 32 6 = p + 12 by bv_omega]

/-- The first two bytes are the command. -/
theorem PacketAt.isSubcommand_iff (h : PacketAt μ p payload) {sub : BitVec 8} :
    IsSubcommand μ p sub ↔ payload.take 2 = [0x1C, sub] := by
  have hlen := h.length
  have h6 : 0 < payload.length → μ (p + 6) = payload.getD 0 0 := fun hl => by simpa using h.getD_eq hl
  have h7 : 1 < payload.length → μ (p + 7) = payload.getD 1 0 := fun hl => by
    rw [← h.getD_eq hl, BitVec.add_assoc]
    rfl
  constructor
  · rintro ⟨⟨hl, hc⟩, hs⟩
    rw [hlen] at hl
    rw [h6 (by omega)] at hc
    rw [h7 (by omega)] at hs
    rcases payload with - | ⟨a, - | ⟨b, payload⟩⟩
    · simp at hl
    · simp at hl
    · simp at hc hs
      simp [hc, hs]
  · intro ht
    rcases payload with - | ⟨a, - | ⟨b, payload⟩⟩
    · simp at ht
    · simp at ht
    · simp at ht
      obtain ⟨rfl, rfl⟩ := ht
      exact ⟨⟨by simp [hlen], by simpa using h6 (by simp)⟩, by simpa using h7 (by simp)⟩

end

section

variable {S : Word → Prop} {env : Word → Machine → Machine} {m m' : Machine} {payload : Bytes}

theorem PacketEntry.sameOn_pushed (h : PacketEntry m payload) :
    SameOn (pushed m) m.mem (m.reg .r0) (6 + payload.length) := fun x hx =>
  storeWords_of_not_within fun hw => h.stack x hw hx

theorem PacketEntry.packet_pushed (h : PacketEntry m payload) : PacketAt (pushed m) (m.reg .r0) payload :=
  h.packet.congr h.sameOn_pushed

/-- The declared length is read as it is, also by the extension, which first sets up the mailbox. -/
theorem PacketEntry.length_pushed (h : PacketEntry m payload) :
    (packetLength (pushed m) (m.reg .r0)).toNat = payload.length :=
  h.packet_pushed.length

theorem PacketEntry.length_init (h : PacketEntry m payload) :
    (packetLength (mailboxInit (pushed m)) (m.reg .r0)).toNat = payload.length := by
  have hoff : ∀ off : Word, off.toNat + 4 ≤ 268 → Apart (m.reg .r0) (6 + payload.length) (INPUT_MAILBOX_ADDR + off) 4 :=
    fun off ho => h.mailbox.mono (inside_self _ _) (inside_box off ho)
  have hsame : SameOn (mailboxInit (pushed m)) (pushed m) (m.reg .r0) (6 + payload.length) := by
    rw [mailboxInit]
    split
    · exact .refl _ _ _
    · exact ((sameOn_store32 (hoff 8 (by decide))).trans (sameOn_store32 (hoff 4 (by decide)))).trans
        (sameOn_store32 (hoff 0 (by decide)))
  exact (h.packet_pushed.congr hsame).length

/-- A run that needs no byte behind the packet learns nothing of undeclared bytes. -/
theorem commandAccess_clear (h : PacketEntry m payload) (hS : Undeclared S m payload)
    (hcrc : payload.take 2 = [0x1C, 0x0C] → 10 ≤ payload.length)
    (hcall : payload.take 2 = [0x1C, 0x0D] → 18 ≤ payload.length ∨
      6 ≤ payload.length ∧ ¬ SecondStage (operand payload 2)) :
    CommandAccess (Access.Clear Callee S) m := by
  have hlen := h.length_pushed
  have hlt : payload.length < 2 ^ 16 := hlen ▸ (packetLength (pushed m) (m.reg .r0)).isLt
  have hal := h.packet.aligned
  -- an access inside the packet is clear
  have inside : ∀ a n, Inside a n (m.reg .r0) (6 + payload.length) → (Access.load a n).Clear Callee S :=
    fun a n hi x hx => hS.declared x (hi.within hx)
  have word : ∀ off : Word, 4 ∣ off.toNat → off.toNat + 4 ≤ 6 + payload.length →
      (Access.load (align (m.reg .r0 + off)) 4).Clear Callee S := by
    intro off h4 ho
    apply inside
    rw [align_of_dvd (by bv_omega)]
    simp only [Inside]
    bv_omega
  have header : (Access.load ((m.reg .r0 + 4) &&& 0xFFFFFFFE) 2).Clear Callee S :=
    inside _ _ (inside_alignHalf (by decide) (by simp) (by omega))
  constructor
  case frame => exact FrameAccess.clear hS.frame hS.digits
  case header =>
    intro a ha
    cases a with
    | load a n =>
      rcases ha with ⟨rfl, rfl⟩ | ⟨hl, rfl | rfl, rfl⟩
      · exact header
      · exact inside _ _ (inside_byte (by simp; omega))
      · exact inside _ _ (inside_byte (by simp; omega))
    | store | call => exact ha.elim
  case crc =>
    intro hsub
    have hl := hcrc (h.packet.isSubcommand_iff.mp hsub)
    refine ⟨word 8 (by decide) (by simp; omega), word 12 (by decide) (by simp; omega), fun a n hi => ?_⟩
    exact fun x hx => hS.window x (hi.within hx)
  case stage2 =>
    intro hsub
    have hl := hcall (h.packet.isSubcommand_iff.mp hsub)
    refine ⟨word 8 (by decide) (by simp; omega), fun hst off ho => ?_, fun t reg μ ht => Or.inr ht⟩
    have hp : PacketAt (m.setMem (pushed m)).mem (m.reg .r0) payload := h.packet_pushed
    rw [hp.loadWord_eight, hp.load32_eq (by omega)] at hst
    have h18 : 18 ≤ payload.length := hl.resolve_right fun hn => hn.2 hst
    simp only [List.mem_cons, List.not_mem_nil, or_false] at ho
    rcases ho with rfl | rfl | rfl
    · exact word 12 (by decide) (by simp; omega)
    · exact word 16 (by decide) (by simp; omega)
    · exact word 20 (by decide) (by simp; omega)
  case input =>
    intro _ a ha
    cases a with
    | load a n =>
      rcases ha with ha | ⟨rfl, rfl⟩ | ⟨i, hi, rfl, rfl⟩
      · exact fun x hx => hS.mailbox x (ha.within hx)
      · exact header
      · rw [inputCount, h.length_init] at hi
        apply inside
        simp only [Inside]
        bv_omega
    | store => trivial
    | call => exact ha.elim

/-- The packet is there in both machines. -/
theorem PacketEntry.agree (h : PacketEntry m payload) (hS : Undeclared S m payload) (hm : Agree [] S m m') :
    PacketEntry m' payload := by
  have hreg : ∀ r, m'.reg r = m.reg r := fun r => (hm.reg r List.not_mem_nil).symm
  have hframe : stackFrame m' = stackFrame m := by rw [stackFrame, hreg, stackFrame]
  have hpacket : SameOn m'.mem m.mem (m.reg .r0) (6 + payload.length) := fun x hx => (hm.mem x (hS.declared x hx)).symm
  have hbox : SameOn m'.mem m.mem INPUT_MAILBOX_ADDR 268 := fun x hx => (hm.mem x (hS.mailbox x hx)).symm
  refine ⟨⟨?_, ?_, ?_, (mailboxOk_congr hbox).mpr h.entry.box⟩, ?_, ?_, ?_⟩
  · rw [hframe, hreg]
    exact h.entry.packet
  · rw [hframe]
    exact h.entry.message
  · rw [hframe]
    exact h.entry.mailbox
  · rw [hreg]
    exact h.packet.congr hpacket
  · rw [hframe, hreg]
    exact h.stack
  · rw [hreg]
    exact h.mailbox

theorem Undeclared.agree (hS : Undeclared S m payload) (hm : Agree [] S m m') : Undeclared S m' payload := by
  have hreg : ∀ r, m'.reg r = m.reg r := fun r => (hm.reg r List.not_mem_nil).symm
  have hframe : stackFrame m' = stackFrame m := by rw [stackFrame, hreg, stackFrame]
  refine ⟨?_, ?_, hS.digits, hS.message, hS.mailbox, hS.window⟩
  · rw [hreg]
    exact hS.declared
  · rw [hframe]
    exact hS.frame

/-- A packet with a command of the table is taken to the code of this command. -/
private theorem wpMonitor_subcommand {A : Access → Prop} {Q : Exit → Machine → Prop} (h : PacketEntry m payload)
    (hA : CommandAccess A m) {sub : BitVec 8} {l : Label} (hsub : payload.take 2 = [0x1C, sub])
    (hl : commandTable.lookup (sub.setWidth 32) = some l)
    (hQ : ∀ m₁, Framed A m [] m₁ → m₁.mem = pushed m → m₁.reg .r4 = m.reg .r0 → Entered m m₁ →
      wp handler env (handler.codeAt l) m₁ fun e M => e ≠ toInput ∧ Q e M) :
    wpMonitor env m Q := by
  have hcmd := h.packet_pushed.isSubcommand_iff.mpr hsub
  refine wpMonitor_of_wp (wp_commands hA.frame hA.header (fun m₁ _ _ hno => absurd hcmd.1 hno)
    fun m₁ hf hmem h4 _ hent => ?_)
  rw [hcmd.2, hl]
  refine wp_mono (hQ m₁ hf hmem h4 hent) fun e M hq => ?_
  rw [if_neg hq.1]
  exact hq.2

/-- A packet that gets to `bad` whatever is behind it, by way of a command: the two runs meet there. -/
theorem wpMonitor_refused (henv : Preserves env) (hb : Blind S env) (h : PacketEntry m payload)
    (hS : Undeclared S m payload) (hm : Alike [] [] S m m') {sub : BitVec 8} {l : Label} {D : List Loc}
    {F : Word → List Access} (hsub : payload.take 2 = [0x1C, sub]) (hl : commandTable.lookup (sub.setWidth 32) = some l)
    (hD : ∀ x ∈ D, x ∈ deadAtBad)
    (hbad : ∀ {Q : Exit → Machine → Prop} {m m₁ : Machine}, PacketEntry m payload → m₁.mem = pushed m →
      m₁.reg .r4 = m.reg .r0 → (∀ M, Changed D (F (m.reg .r0)) m₁ M → wp handler env (handler.codeAt .bad) M Q) →
      wp handler env (handler.codeAt l) m₁ Q) :
    wpMonitor env m fun e M => wpMonitor env m' fun e' M' => SameEffect S e M e' M' := by
  have h' := h.agree hS hm.agree
  -- each of the two runs gets to `bad`
  have toBad : ∀ {Q : Exit → Machine → Prop} {m : Machine}, PacketEntry m payload →
      (∀ m₁ M, Framed (fun _ => True) m [] m₁ → m₁.reg .r4 = m.reg .r0 → Entered m m₁ →
        Changed D (F (m.reg .r0)) m₁ M → wp handler env (handler.codeAt .bad) M fun e M => e ≠ toInput ∧ Q e M) →
      wpMonitor env m Q := by
    intro Q m h hQ
    refine wpMonitor_subcommand h (commandAccess_true m) hsub hl fun m₁ hf hmem h4 hent => ?_
    exact hbad h hmem h4 fun M hM => hQ m₁ M hf h4 hent hM
  have hS' := hS.agree hm.agree
  have hr0 : m'.reg .r0 = m.reg .r0 := (hm.agree.reg .r0 List.not_mem_nil).symm
  refine toBad h fun m₁ M hf h4 hent hM => ?_
  have hrun := wp_bad_agree (m := { m with log := M.log }) henv hb h.entry.message hS.frame hS.digits
    (hf.restart hM fun hsp => absurd (hD _ hsp) (by decide))
  refine wp_mono hrun fun e E hE => ⟨hE.1.1, ?_⟩
  refine toBad h' fun m₁' M' hf' h4' hent' hM' => ?_
  have hrun' := wp_bad_agree (m := { m' with log := M'.log }) henv hb h'.entry.message hS'.frame hS'.digits
    (hf'.restart hM' fun hsp => absurd (hD _ hsp) (by decide))
  -- the machines at `bad` differ only in what is dead there
  have hmeet : Alike [.reg .r6] deadAtBad S M M' := by
    rw [Entered, hr0] at hent'
    rw [hr0] at hM'
    have hpush : Alike [] [] S ((Op.push [.r4, .r5, .r6, .lr]).exec m) ((Op.push [.r4, .r5, .r6, .lr]).exec m') :=
      hm.exec (T := Callee) (fun _ _ => List.not_mem_nil) (by simp [Op.accesses, Access.Clear])
        fun _ hx => absurd hx List.not_mem_nil
    have hall := (hpush.changed hent hent').changed hM hM'
    have h4M : M.reg .r4 = M'.reg .r4 := by
      have h4D : Loc.reg .r4 ∉ D := fun hx => absurd (hD _ hx) (by decide)
      rw [← hM.agree.reg .r4 h4D, ← hM'.agree.reg .r4 h4D, h4, h4', hr0]
    refine (hall.mono (fun _ hx => absurd hx List.not_mem_nil) fun x hx => ?_).known h4M
    simp only [List.nil_append, List.mem_append, List.mem_cons, List.not_mem_nil, or_false] at hx
    rcases hx with (rfl | rfl | rfl) | hx
    · decide
    · decide
    · decide
    · exact List.mem_cons_of_mem _ (hD x hx)
  refine wp_mono (wp_and hrun' (hE.2 M' hmeet)) fun e' E' hE' => ⟨hE'.1.1.1, hE'.2.1, ?_, hE'.2.2.calls⟩
  apply hE'.2.2.agree.known
  rw [hE.1.2, hE'.1.1.2]
  exact hm.agree.reg .r6 List.not_mem_nil

/-- A range that is refused with zeros for the bytes not declared is refused with any bytes there. -/
theorem not_safeRange_of_operand {μ : Mem} {p : Word} (h : PacketAt μ p payload) (h6 : 6 ≤ payload.length)
    (hs : ¬ SafeRange (operand payload 2) (operand payload 6)) :
    ¬ SafeRange (load32 μ (p + 6 + BitVec.ofNat 32 2)) (load32 μ (p + 6 + BitVec.ofNat 32 6)) := by
  rintro ⟨hlo, hhi⟩
  rw [h.load32_eq h6] at hlo hhi
  have hle := h.operand_le 6
  exact hs ⟨hlo, by omega⟩

/-- The low byte alone shows that an address is not aligned. -/
theorem not_secondStage_of_byte {μ : Mem} {p : Word} (h : PacketAt μ p payload) (h3 : 3 ≤ payload.length)
    (hs : ¬ 4 ∣ (payload.getD 2 0).toNat) : ¬ SecondStage (load32 μ (p + 6 + BitVec.ofNat 32 2)) := by
  rintro ⟨h4, -⟩
  rw [load32_packet, toNat_append_bytes, h.getD_eq (show 2 < payload.length by omega)] at h4
  omega

/-- Where the declared bytes decide, the undeclared ones have no part in what the callback does. -/
theorem actsOnPacket_of_decides (hd : Decides payload) : ActsOnPacket payload := by
  intro S env m m' henv hb h hS hm hlog hlog'
  have hlogs : List.Forall₂ (SameAccess [] S) m.log m'.log := by
    rw [hlog, hlog']
    exact .nil
  have halike : Alike [] [] S m m' := ⟨hm, hlogs⟩
  by_cases hcrc : payload.take 2 = [0x1C, 0x0C] ∧ payload.length < 10
  · obtain ⟨h6, hs⟩ := (hd.1 hcrc.1).resolve_left (by omega)
    refine wpMonitor_refused henv hb h hS halike hcrc.1 (l := .crc32Range)
      (D := [.reg .r1, .reg .r2, .reg .r3, .reg .r6, .flags])
      (F := fun p => [.load (align (p + 8)) 4, .load (align (p + 12)) 4]) (by decide) (by decide)
      fun h hmem h4 hbad => wp_crc32Range_bad h4 ?_ hbad
    have hp := h.packet_pushed
    rw [← hmem] at hp
    rw [hp.loadWord_eight, hp.loadWord_twelve]
    exact not_safeRange_of_operand hp h6 hs
  by_cases hcall : payload.take 2 = [0x1C, 0x0D] ∧ payload.length < 18 ∧
      ¬ (6 ≤ payload.length ∧ ¬ SecondStage (operand payload 2))
  · obtain ⟨h3, hs⟩ := ((hd.2 hcall.1).resolve_left (by omega)).resolve_right hcall.2.2
    refine wpMonitor_refused henv hb h hS halike hcall.1 (l := .callStage2) (D := [.reg .r5, .reg .r6, .flags])
      (F := fun p => [.load (align (p + 8)) 4]) (by decide) (by decide)
      fun h hmem h4 hbad => wp_callStage2_bad h4 ?_ hbad
    have hp := h.packet_pushed
    rw [← hmem] at hp
    rw [hp.loadWord_eight]
    exact not_secondStage_of_byte hp h3 hs
  · obtain ⟨n, e, M, hrun, n', e', M', hrun', he, hM⟩ := monitor_agree henv hb h.entry
      (commandAccess_clear h hS (fun ht => by by_contra hl; exact hcrc ⟨ht, by omega⟩) fun ht => by
        by_contra hl
        rw [not_or] at hl
        exact hcall ⟨ht, by omega, hl.2⟩) halike
    exact ⟨n, e, M, hrun, n', e', M', hrun', he, hM.agree,
      (hM.mono (fun _ hx => absurd hx List.not_mem_nil) fun _ hx => hx).calls⟩

/-! ### What is done with the operands as they are loaded -/

/-- The value that `crc32_range` replies. -/
def crcReply (m : Machine) : Word :=
  let a := load32 (pushed m) (m.reg .r0 + 6 + BitVec.ofNat 32 2)
  let n := load32 (pushed m) (m.reg .r0 + 6 + BitVec.ofNat 32 6)
  if SafeRange a n then crc32 (bytesAt (pushed m) a n.toNat) else 0xBAD00001

private theorem calls_of_returned {A : Access → Prop} {C : List Access} {e : Exit} (hlog : m.log = [])
    (h : Returned A m C e m') : m'.log.filter Access.isCall = C := by
  obtain ⟨l, hl, -, hC⟩ := h.logs
  rw [hl, hlog, List.nil_append, hC]

theorem wpMonitor_crcOperands (henv : Preserves env) (h : PacketEntry m payload) (hlog : m.log = [])
    (hsub : payload.take 2 = [0x1C, 0x0C]) :
    wpMonitor env m fun _ M => ∃ c, M.log.filter Access.isCall = [c] ∧ Reply (pushed m) (crcReply m) c := by
  have hA := commandAccess_confined m
  obtain ⟨h8, h12, hwin⟩ := hA.crc (h.packet.isSubcommand_iff.mpr hsub)
  refine wpMonitor_subcommand h hA hsub (l := .crc32Range) (by decide) fun m₁ hf hmem h4 _ => ?_
  have hp : PacketAt m₁.mem (m.reg .r0) payload := hmem ▸ h.packet_pushed
  refine wp_crc32Range henv h.entry.message hf hA.frame h8 h12 hwin h4 ?_ ?_
  · intro e M c hs hc hret
    rw [hp.loadWord_eight, hp.loadWord_twelve, hmem] at hs hc
    refine ⟨hret.ne_toInput, c, calls_of_returned hlog hret, ?_⟩
    rw [crcReply, if_pos hs]
    exact hc
  · intro e M c hs hc hret
    rw [hp.loadWord_eight, hp.loadWord_twelve, hmem] at hs
    refine ⟨hret.ne_toInput, c, calls_of_returned hlog hret, ?_⟩
    rw [crcReply, if_neg hs, ← hmem]
    exact hc

/-- What `call_stage2` calls: the print routine, or before it a second stage, with the last operand in `r2`. -/
theorem wpMonitor_callOperands (henv : Preserves env) (h : PacketEntry m payload) (hlog : m.log = [])
    (hsub : payload.take 2 = [0x1C, 0x0D]) :
    wpMonitor env m fun _ M =>
      (¬ SecondStage (load32 (pushed m) (m.reg .r0 + 6 + BitVec.ofNat 32 2)) →
        ∃ c, M.log.filter Access.isCall = [c]) ∧
      (SecondStage (load32 (pushed m) (m.reg .r0 + 6 + BitVec.ofNat 32 2)) →
        ∃ t reg μ c, M.log.filter Access.isCall = [.call t reg μ, c] ∧
          reg .r2 = load32 (pushed m) (m.reg .r0 + 6 + BitVec.ofNat 32 14)) := by
  have hA := commandAccess_confined m
  obtain ⟨h8, hargs, hcall⟩ := hA.stage2 (h.packet.isSubcommand_iff.mpr hsub)
  refine wpMonitor_subcommand h hA hsub (l := .callStage2) (by decide) fun m₁ hf hmem h4 _ => ?_
  have hp : PacketAt m₁.mem (m.reg .r0) payload := hmem ▸ h.packet_pushed
  have hal := hp.aligned
  have o20 : m₁.loadWord (m.reg .r0 + 20) = load32 (pushed m) (m.reg .r0 + 6 + BitVec.ofNat 32 14) := by
    rw [Machine.loadWord_of_dvd (by bv_omega), hmem]
    congr 1
    bv_omega
  rw [show (m.setMem (pushed m)).loadWord (m.reg .r0 + 8) = m₁.loadWord (m.reg .r0 + 8) by
    simp only [Machine.loadWord, Machine.mem_setMem, hmem]] at hargs
  refine wp_callStage2 henv h.entry.message hf hA.frame h8 hargs hcall h4 ?_ ?_
  · intro e M c reg μ μ' v hs hregs _ hret
    rw [hp.loadWord_eight, hmem] at hs
    refine ⟨hret.ne_toInput, fun hno => absurd hs hno, fun _ => ⟨_, reg, μ, c, calls_of_returned hlog hret, ?_⟩⟩
    rw [hregs.2.2, o20]
  · intro e M c hs _ hret
    rw [hp.loadWord_eight, hmem] at hs
    exact ⟨hret.ne_toInput, fun _ => ⟨c, calls_of_returned hlog hret⟩, fun hst => absurd hst hs⟩

end

end ShadowMsm
