import ShadowMsm.Mailbox
import ShadowMsm.Stage0.Confinement

/-!
# The mailbox is a FIFO

Runs of the mailbox: packets with host input taken by the monitor's callback, receive calls and resets of the kernel, in
any order, with everything outside the 268 bytes changing freely in between.  The bytes waiting follow a queue that
loses nothing but what it refuses at its end and what a reset discards.
-/

namespace ShadowMsm

open Arm Stage0

/-- What is done to the mailbox; a receive call comes with the bytes it returned. -/
inductive MailboxEvent
  | enqueue (data : List (BitVec 8))
  | receive (limit : Nat) (bytes : List (BitVec 8))
  | reset
  deriving DecidableEq

/-! ### The queue -/

namespace MailboxEvent

/-- The bytes a queue takes in. -/
def accepted (q : List (BitVec 8)) : MailboxEvent → List (BitVec 8)
  | .enqueue data => data.take (min data.length (min 64 (255 - q.length)))
  | _ => []

/-- The bytes handed out. -/
def delivered : MailboxEvent → List (BitVec 8)
  | .receive _ bytes => bytes
  | _ => []

/-- The queue after an event. -/
def next (q : List (BitVec 8)) : MailboxEvent → List (BitVec 8)
  | .receive limit _ => q.drop limit
  | .reset => []
  | ev => q ++ ev.accepted q

/-- What is handed out is the front of the queue. -/
def Exact (q : List (BitVec 8)) : MailboxEvent → Prop
  | .receive limit bytes => bytes = q.take limit
  | _ => True

/-- The event leaves the mailbox initialised. -/
def Initialises : MailboxEvent → Prop
  | .receive _ _ => False
  | _ => True

end MailboxEvent

/-- The queue `q` becomes `q'` through the events, each of them exact. -/
inductive FifoRun : List (BitVec 8) → List MailboxEvent → List (BitVec 8) → Prop
  | nil (q) : FifoRun q [] q
  | cons {q ev evs q'} (he : ev.Exact q) (h : FifoRun (ev.next q) evs q') : FifoRun q (ev :: evs) q'

/-- All the bytes taken in, in order. -/
def allAccepted (q : List (BitVec 8)) : List MailboxEvent → List (BitVec 8)
  | [] => []
  | ev :: evs => ev.accepted q ++ allAccepted (ev.next q) evs

/-- Without a reset, what was there and what came in is what went out and what is there. -/
theorem FifoRun.conserved {q q' : List (BitVec 8)} {evs : List MailboxEvent} (h : FifoRun q evs q')
    (hr : .reset ∉ evs) : q ++ allAccepted q evs = evs.flatMap MailboxEvent.delivered ++ q' := by
  induction h with
  | nil q => simp [allAccepted]
  | @cons q ev evs q' he _ ih =>
    have step : q ++ ev.accepted q = ev.delivered ++ ev.next q := by
      cases ev with
      | enqueue data => rfl
      | receive limit bytes =>
        obtain rfl : bytes = q.take limit := he
        simp [MailboxEvent.accepted, MailboxEvent.delivered, MailboxEvent.next]
      | reset => simp at hr
    rw [allAccepted, ← List.append_assoc, step, List.append_assoc, ih fun h => hr (List.mem_cons_of_mem _ h),
      List.flatMap_cons, List.append_assoc]

/-! ### The steps of the code -/

/-- The callback entered with a packet of subcommand 0x0E that carries `data`. -/
structure InputEntry (m : Machine) (data : List (BitVec 8)) : Prop where
  packet : InputPacket m.mem (m.reg .r0) data
  command : m.mem (m.reg .r0 + 6) = 0x1C
  subcommand : m.mem (m.reg .r0 + 7) = 0x0E
  stack : Apart (stackFrame m) 16 (m.reg .r0) 72
  message : Apart (stackFrame m) 16 MESSAGE_ADDR 9
  mailbox : Apart (stackFrame m) 16 INPUT_MAILBOX_ADDR 268

/-- One event, from memory `μ` to memory `μ'`; only the mailbox in them counts. -/
inductive MailboxStep : Mem → MailboxEvent → Mem → Prop
  | enqueue {μ μ' : Mem} {env : Word → Machine → Machine} {m m' : Machine} {n : Nat} {e : Exit}
      {data : List (BitVec 8)} (hm : InputEntry m data) (hμ : SameOn m.mem μ INPUT_MAILBOX_ADDR 268)
      (hrun : monitorRun env n m = some (e, m')) (hμ' : SameOn μ' m'.mem INPUT_MAILBOX_ADDR 268) :
      MailboxStep μ (.enqueue data) μ'
  | receive {μ μ' : Mem} {limit : Nat}
      (hμ' : SameOn μ' (shadowMsmDiagReceive μ limit).2 INPUT_MAILBOX_ADDR 268) :
      MailboxStep μ (.receive limit (shadowMsmDiagReceive μ limit).1) μ'
  | reset {μ μ' : Mem} (hμ' : SameOn μ' (shadowMsmDiagInputReset μ) INPUT_MAILBOX_ADDR 268) :
      MailboxStep μ .reset μ'

inductive MailboxRun : Mem → List MailboxEvent → Mem → Prop
  | nil (μ) : MailboxRun μ [] μ
  | cons {μ μ' μ'' ev evs} (h : MailboxStep μ ev μ') (hs : MailboxRun μ' evs μ'') : MailboxRun μ (ev :: evs) μ''

theorem InputEntry.entry {m : Machine} {data : List (BitVec 8)} (h : InputEntry m data) (hok : MailboxOk m.mem) :
    Entry m where
  packet := h.stack.mono (inside_self _ _) (by simp [Inside])
  message := h.message
  mailbox := h.mailbox
  box := hok

/-- The packet is still there after the push. -/
private theorem InputEntry.pushed_packet {m : Machine} {data : List (BitVec 8)} (h : InputEntry m data) :
    InputPacket (pushed m) (m.reg .r0) data := by
  have hsame : SameOn (pushed m) m.mem (m.reg .r0) 72 := fun x hx =>
    storeWords_of_not_within fun hw => h.stack x hw hx
  refine ⟨?_, fun i hi h64 => ?_, h.packet.apart⟩
  · rw [← h.packet.length]
    exact congrArg BitVec.toNat
      (hsame.mono fun x hx => (inside_alignHalf (by decide) (by decide) (by decide)).within hx).load16
  · rw [← h.packet.bytes i hi h64]
    refine hsame _ ?_
    simp only [Within]
    bv_omega

/-- The callback answers such a packet by taking it into the mailbox, and returns. -/
theorem wpMonitor_input (env : Word → Machine → Machine) {m : Machine} {data : List (BitVec 8)}
    (h : InputEntry m data) (hok : MailboxOk m.mem) :
    wpMonitor env m fun _ m' => m'.mem = inputMem (pushed m) (m.reg .r0) := by
  have hm := h.entry hok
  have hc : IsCommand m.mem (m.reg .r0) := ⟨by have := h.packet.length; omega, h.command⟩
  have hA := commandAccess_confined m
  refine wpMonitor_of_wp (wp_commands hA.frame hA.header (fun m' _ _ hbad => ?_) fun m' hf hmem h4 _ _ => ?_)
  · exact absurd (hm.isCommand_pushed.mpr hc) hbad
  · have h7 : pushed m (m.reg .r0 + 7) = 0x0E := by
      rw [hm.header _ (inside_byte (by decide)), h.subcommand]
    rw [h7, show commandTable.lookup (BitVec.setWidth 32 (0x0E : BitVec 8)) = some .mailboxInput from by decide]
    refine wp_mailboxInput ?_
    rw [if_pos rfl]
    exact wp_inputHandler h.mailbox hf hA.frame (fun a ha => (ha.mailbox a).confined a) h4
      (hmem ▸ hm.mailboxOk_pushed) fun e m'' _ hmem' => hmem ▸ hmem'

/-- A step keeps the indices in the ring and does to the waiting bytes what the queue does. -/
theorem MailboxStep.exact {μ μ' : Mem} {ev : MailboxEvent} (h : MailboxStep μ ev μ') (hok : MailboxOk μ) :
    MailboxOk μ' ∧ ev.Exact (mailboxContents μ) ∧ mailboxContents μ' = ev.next (mailboxContents μ) ∧
      (mailboxMagic μ = INPUT_MAILBOX_MAGIC ∨ ev.Initialises → mailboxMagic μ' = INPUT_MAILBOX_MAGIC) := by
  cases h with
  | enqueue hm hμ hrun hμ' =>
    rename_i env m m' n e data
    have hokm : MailboxOk m.mem := (mailboxOk_congr hμ).mpr hok
    have hentry := hm.entry hokm
    obtain ⟨n', e', m'', hrun', hmem⟩ := wpMonitor_input env hm hokm
    obtain ⟨-, rfl⟩ : e = e' ∧ m' = m'' := Prod.mk.inj (monitorRun_det hrun hrun')
    obtain ⟨hl, hcont⟩ := mailboxContents_inputMem hentry.mailboxOk_pushed hm.pushed_packet
    rw [← hmem] at hl hcont
    rw [(mailbox_congr (hentry.sameOn_pushed.trans hμ)).2] at hcont
    have hl' := (mailbox_congr hμ').1.mpr hl
    refine ⟨(live_iff.mp hl').2, trivial, ?_, fun _ => hl'.magic⟩
    rw [(mailbox_congr hμ').2, hcont, List.take_eq_take_min, Nat.min_comm]
    rfl
  | receive hμ' =>
    rename_i limit
    obtain ⟨hout, hcont, hok', hmagic⟩ := shadowMsmDiagReceive_eq hok limit
    refine ⟨(mailboxOk_congr hμ').mpr hok', hout, (mailbox_congr hμ').2.trans hcont, fun hi => ?_⟩
    rw [(mailboxFields_congr hμ').1, hmagic]
    rcases hi with hi | hi
    · exact hi
    · exact hi.elim
  | reset hμ' =>
    obtain ⟨hl, hcont⟩ := live_shadowMsmDiagInputReset μ
    have hl' := (mailbox_congr hμ').1.mpr hl
    exact ⟨(live_iff.mp hl').2, trivial, (mailbox_congr hμ').2.trans hcont, fun _ => hl'.magic⟩

/-- What holds after a run of the mailbox from `μ₀` to `μ`. -/
structure MailboxResult (μ₀ : Mem) (evs : List MailboxEvent) (μ : Mem) : Prop where
  /-- Both indices are in the ring, -/
  ok : MailboxOk μ
  /-- and an initialised mailbox stays one. -/
  initialised : mailboxMagic μ₀ = INPUT_MAILBOX_MAGIC ∨ (∃ ev ∈ evs, ev.Initialises) →
    mailboxMagic μ = INPUT_MAILBOX_MAGIC
  fifo : FifoRun (mailboxContents μ₀) evs (mailboxContents μ)
  /-- Without a reset the bytes are all accounted for, in order. -/
  conserved : .reset ∉ evs → mailboxContents μ₀ ++ allAccepted (mailboxContents μ₀) evs =
    evs.flatMap MailboxEvent.delivered ++ mailboxContents μ
  /-- The callback will take any further packet. -/
  ready : ∀ (env : Word → Machine → Machine) (m : Machine) (data : List (BitVec 8)), InputEntry m data →
    SameOn m.mem μ INPUT_MAILBOX_ADDR 268 → ∃ n e m', monitorRun env n m = some (e, m')

/-- The mailbox is a FIFO over every run of enqueues, receive calls and resets. -/
theorem mailbox_fifo {μ₀ μ : Mem} {evs : List MailboxEvent} (h₀ : MailboxOk μ₀) (h : MailboxRun μ₀ evs μ) :
    MailboxResult μ₀ evs μ := by
  have main : MailboxOk μ ∧ FifoRun (mailboxContents μ₀) evs (mailboxContents μ) ∧
      (mailboxMagic μ₀ = INPUT_MAILBOX_MAGIC ∨ (∃ ev ∈ evs, ev.Initialises) →
        mailboxMagic μ = INPUT_MAILBOX_MAGIC) := by
    induction h with
    | nil μ => exact ⟨h₀, .nil _, by simp⟩
    | @cons μ μ' μ'' ev evs hstep _ ih =>
      obtain ⟨hok, hexact, hcont, hmagic⟩ := hstep.exact h₀
      obtain ⟨hok', hfifo, hmagic'⟩ := ih hok
      refine ⟨hok', .cons hexact (hcont ▸ hfifo), fun hi => hmagic' ?_⟩
      rcases hi with hi | ⟨ev', hev, hi⟩
      · exact Or.inl (hmagic (Or.inl hi))
      · rcases List.mem_cons.mp hev with rfl | hev
        · exact Or.inl (hmagic (Or.inr hi))
        · exact Or.inr ⟨ev', hev, hi⟩
  obtain ⟨hok, hfifo, hmagic⟩ := main
  refine ⟨hok, hmagic, hfifo, hfifo.conserved, fun env m data hm hμ => ?_⟩
  obtain ⟨n, e, m', hrun, _⟩ := wpMonitor_input env hm ((mailboxOk_congr hμ).mpr hok)
  exact ⟨n, e, m', hrun⟩

/-- A callback entry with the packet `1C 0E 68 69`. -/
def greetingPacket : Machine where
  reg := fun r => if r = .sp then 0x0081DD84 else if r = .r0 then 0x0081A000 else 0
  flags := ⟨false, false, false, false⟩
  ctl := 0xD3
  sys := fun _ => 0
  mem := storeBytes (fun _ => 0) 0x0081A004 [4, 0, 0x1C, 0x0E, 0x68, 0x69]
  log := []

theorem mailbox_fifo_greeting : ∃ bytes μ,
    MailboxResult greetingPacket.mem [.enqueue [0x68, 0x69], .receive 1 bytes] μ := by
  have hm : InputEntry greetingPacket [0x68, 0x69] := by
    refine ⟨⟨by decide, fun i hi _ => ?_, apart_of_le (by decide) (by decide)⟩, by decide, by decide,
      Apart.symm (apart_of_le (by decide) (by decide)), Apart.symm (apart_of_le (by decide) (by decide)),
      apart_of_le (by decide) (by decide)⟩
    match i, hi with
    | 0, _ => exact (by decide : greetingPacket.mem (greetingPacket.reg .r0 + 8 + 0) = 0x68)
    | 1, _ => exact (by decide : greetingPacket.mem (greetingPacket.reg .r0 + 8 + 1) = 0x69)
  have hok : MailboxOk greetingPacket.mem := by decide
  obtain ⟨n, e, m', hrun, _⟩ := wpMonitor_input (fun _ m => m) hm hok
  exact ⟨_, _, mailbox_fifo hok (.cons (.enqueue hm (SameOn.refl _ _ _) hrun (SameOn.refl _ _ _))
    (.cons (.receive (SameOn.refl _ _ _)) (.nil _)))⟩

end ShadowMsm
