import ShadowMsm.MailboxFifo

/-!
# Calls of `shadow_msm_diag_receive`

The two callers of the timer driver's receive function are the read of `/dev/shadowtrace` and the poll of
`ttySHM0`.  A call first runs one iteration of the resident dispatcher, which may put one packet into the mailbox,
and then takes out as many bytes as the caller allows.  Nothing tells the host to wait: a packet is stored whole
exactly when what earlier calls left behind leaves room for it (`stored_iff_fits`).
-/

namespace ShadowMsm.Linux

open Arm Stage0

def SHADOW_MSM_INPUT_CHUNK : Nat := 64
def SHADOW_TTY_RX_CHUNK : Nat := 64

/-- A caller with what its limit depends on: the length of a read, or the room in the flip buffer. -/
inductive Caller
  | traceRead (length : Nat)
  | ttyPoll (room : Int)
  deriving DecidableEq

/-- The limit that `shadow_trace_read` and `shadow_tty_poll` pass, if they come to call. -/
def Caller.limit : Caller → Option Nat
  | .traceRead length => if length = 0 then none else some (min length SHADOW_MSM_INPUT_CHUNK)
  | .ttyPoll room => if 0 < room then some (min room.toNat SHADOW_TTY_RX_CHUNK) else none

/-- The iteration of the resident dispatcher: it takes in at most one packet. -/
inductive Dispatched : Mem → Option (List (BitVec 8)) → Mem → Prop
  | idle {μ μ' : Mem} (h : SameOn μ' μ INPUT_MAILBOX_ADDR 268) : Dispatched μ none μ'
  | packet {μ μ' : Mem} {data : List (BitVec 8)} (h : MailboxStep μ (.enqueue data) μ') : Dispatched μ (some data) μ'

/-- A call: the packet its dispatcher iteration processes, if there is one, and the caller. -/
structure ReceiveCall where
  packet : Option (List (BitVec 8))
  packet_le : ∀ data ∈ packet, data.length ≤ 64
  caller : Caller
  limit : Nat
  limit_eq : caller.limit = some limit

/-- A call together with memory before it and after its dispatcher iteration. -/
structure ReceiveRecord extends ReceiveCall where
  before : Mem
  queued : Mem

/-- Successive calls; between two of them only the mailbox stays as it is. -/
inductive ReceiveRun : Mem → List ReceiveRecord → Mem → Prop
  | nil (μ) : ReceiveRun μ [] μ
  | cons {c : ReceiveRecord} {cs : List ReceiveRecord} {μ μ' : Mem} (hd : Dispatched c.before c.packet c.queued)
      (hr : SameOn μ (shadowMsmDiagReceive c.queued c.limit).2 INPUT_MAILBOX_ADDR 268) (hs : ReceiveRun μ cs μ') :
      ReceiveRun c.before (c :: cs) μ'

/-- The bytes of the packet. -/
def ReceiveCall.data (c : ReceiveCall) : List (BitVec 8) := c.packet.getD []

/-- Every byte of the packet was stored. -/
def ReceiveRecord.Stored (c : ReceiveRecord) : Prop :=
  mailboxContents c.queued = mailboxContents c.before ++ c.data

/-- Each packet fits behind what the calls before it, that started with `n` waiting bytes, have left. -/
def Fits : Nat → List ReceiveCall → Prop
  | _, [] => True
  | n, c :: cs => n + c.data.length ≤ 255 ∧ Fits (n + c.data.length - c.limit) cs

instance decidableFits : ∀ n cs, Decidable (Fits n cs)
  | _, [] => inferInstanceAs (Decidable True)
  | n, c :: cs =>
    have := decidableFits (n + c.data.length - c.limit) cs
    inferInstanceAs (Decidable (_ ∧ _))

/-! ### One call -/

theorem ReceiveCall.length_data (c : ReceiveCall) : c.data.length ≤ 64 := by
  rw [ReceiveCall.data]
  rcases h : c.packet with - | data
  · exact Nat.zero_le _
  · exact c.packet_le data h

/-- The dispatcher iteration appends what there is room for. -/
theorem Dispatched.contents {μ μ' : Mem} {p : Option (List (BitVec 8))} (h : Dispatched μ p μ') (hok : MailboxOk μ)
    (hp : ∀ data ∈ p, data.length ≤ 64) :
    MailboxOk μ' ∧
      mailboxContents μ' = mailboxContents μ ++ (p.getD []).take (255 - (mailboxContents μ).length) := by
  cases h with
  | idle h =>
    refine ⟨(mailboxOk_congr h).mpr hok, ?_⟩
    rw [(mailbox_congr h).2]
    simp
  | packet h =>
    rename_i data
    have hlen : data.length ≤ 64 := hp data rfl
    obtain ⟨hok', -, hnext, -⟩ := h.exact hok
    refine ⟨hok', hnext.trans ?_⟩
    have hmin : min data.length (min 64 (255 - (mailboxContents μ).length)) =
        min data.length (255 - (mailboxContents μ).length) := by omega
    rw [MailboxEvent.next, MailboxEvent.accepted, hmin, Nat.min_comm, ← List.take_eq_take_min, Option.getD_some]
    · simp
    · simp

/-- What a call has stored, and what it leaves for the next one. -/
theorem ReceiveRecord.exact {c : ReceiveRecord} {μ : Mem} (hd : Dispatched c.before c.packet c.queued)
    (hr : SameOn μ (shadowMsmDiagReceive c.queued c.limit).2 INPUT_MAILBOX_ADDR 268) (hok : MailboxOk c.before) :
    MailboxOk μ ∧
      mailboxContents c.queued =
        mailboxContents c.before ++ c.data.take (255 - (mailboxContents c.before).length) ∧
      mailboxContents μ = (mailboxContents c.queued).drop c.limit := by
  obtain ⟨hokq, hq⟩ := hd.contents hok c.packet_le
  obtain ⟨-, hdrop, hok', -⟩ := shadowMsmDiagReceive_eq hokq c.limit
  exact ⟨(mailboxOk_congr hr).mpr hok', hq, (mailbox_congr hr).2.trans hdrop⟩

theorem mailboxContents_le (μ : Mem) : (mailboxContents μ).length ≤ 255 := by
  rw [mailboxContents]
  split
  · rename_i h
    have := (ringOf μ (mailboxHead μ) (mailboxTail μ) h.head_lt h.tail_lt).count_lt
    rw [RingBuffer.length_contents]
    omega
  · exact Nat.zero_le _

/-- A packet is stored whole exactly when it fits. -/
theorem ReceiveRecord.stored_iff {c : ReceiveRecord}
    (hq : mailboxContents c.queued =
      mailboxContents c.before ++ c.data.take (255 - (mailboxContents c.before).length)) :
    c.Stored ↔ (mailboxContents c.before).length + c.data.length ≤ 255 := by
  have hle := mailboxContents_le c.before
  rw [ReceiveRecord.Stored, hq, List.append_cancel_left_eq, List.take_eq_self_iff]
  omega

/-! ### Runs -/

theorem ReceiveRun.stored_iff_fits {μ μ' : Mem} {cs : List ReceiveRecord} (h : ReceiveRun μ cs μ')
    (hok : MailboxOk μ) :
    (∀ c ∈ cs, c.Stored) ↔ Fits (mailboxContents μ).length (cs.map ReceiveRecord.toReceiveCall) := by
  induction h with
  | nil => simp [Fits]
  | @cons c cs μ' μ'' hd hr _ ih =>
    obtain ⟨hok', hq, hdrop⟩ := ReceiveRecord.exact hd hr hok
    have hstored := c.stored_iff hq
    rw [List.forall_mem_cons, List.map_cons, Fits, hstored]
    apply and_congr_right
    intro hfit
    have hwhole : mailboxContents c.queued = mailboxContents c.before ++ c.data := hstored.mpr hfit
    rw [ih hok', hdrop, hwhole, List.length_drop, List.length_append]

/-- When each call allows at least what its packet brings, nothing is ever left behind. -/
theorem fits_of_le {cs : List ReceiveCall} (h : ∀ c ∈ cs, c.data.length ≤ c.limit) : Fits 0 cs := by
  induction cs with
  | nil => trivial
  | cons c cs ih =>
    have hc := h c List.mem_cons_self
    have hlen := c.length_data
    refine ⟨by omega, ?_⟩
    rw [Nat.zero_add, Nat.sub_eq_zero_of_le hc]
    exact ih fun c' hc' => h c' (List.mem_cons_of_mem _ hc')

theorem ReceiveRun.exact {μ μ' : Mem} {cs : List ReceiveRecord} (h : ReceiveRun μ cs μ') (hok : MailboxOk μ) :
    ∀ c ∈ cs, mailboxContents c.queued =
      mailboxContents c.before ++ c.data.take (255 - (mailboxContents c.before).length) := by
  induction h with
  | nil => simp
  | @cons c cs μ' μ'' hd hr _ ih =>
    obtain ⟨hok', hq, -⟩ := ReceiveRecord.exact hd hr hok
    exact List.forall_mem_cons.mpr ⟨hq, ih hok'⟩

/-- What the code keeps of the input: a call stores its packet up to 255 waiting bytes and discards the rest, and
no byte of any packet is discarded exactly when every packet fits behind what the limits of the calls before have
left. -/
theorem input_stored {μ₀ μ μ' : Mem} {cs : List ReceiveRecord}
    (hreset : SameOn μ (shadowMsmDiagInputReset μ₀) INPUT_MAILBOX_ADDR 268) (h : ReceiveRun μ cs μ') :
    (∀ c ∈ cs, mailboxContents c.queued =
        mailboxContents c.before ++ c.data.take (255 - (mailboxContents c.before).length)) ∧
      ((∀ c ∈ cs, c.Stored) ↔ Fits 0 (cs.map ReceiveRecord.toReceiveCall)) ∧
      ((∀ c ∈ cs, c.data.length ≤ c.limit) → ∀ c ∈ cs, c.Stored) := by
  obtain ⟨hlive, hempty⟩ := live_shadowMsmDiagInputReset μ₀
  have hok : MailboxOk μ := (live_iff.mp ((mailbox_congr hreset).1.mpr hlive)).2
  have hcontents : mailboxContents μ = [] := (mailbox_congr hreset).2.trans hempty
  have hfits := h.stored_iff_fits hok
  rw [hcontents, List.length_nil] at hfits
  refine ⟨h.exact hok, hfits, fun hle => hfits.mpr (fits_of_le fun c hc => ?_)⟩
  obtain ⟨r, hr, rfl⟩ := List.mem_map.mp hc
  exact hle r hr

/-! ### Runs exist -/

/-- The callback entered with memory `μ` and a packet `1C 0E` that carries `data`. -/
def inputMachine (μ : Mem) (data : List (BitVec 8)) : Machine where
  reg := fun r => if r = .sp then 0x0081DD84 else if r = .r0 then 0x0081A000 else 0
  flags := ⟨false, false, false, false⟩
  ctl := 0xD3
  sys := fun _ => 0
  mem := storeBytes μ 0x0081A004 (BitVec.ofNat 8 (data.length + 2) :: 0x00 :: 0x1C :: 0x0E :: data)
  log := []

theorem inputEntry_inputMachine (μ : Mem) {data : List (BitVec 8)} (h : data.length ≤ 64) :
    InputEntry (inputMachine μ data) data := by
  have get : ∀ (i : Nat) (hi : i < data.length + 4), (inputMachine μ data).mem (0x0081A004 + BitVec.ofNat 32 i) =
      (BitVec.ofNat 8 (data.length + 2) :: 0x00 :: 0x1C :: 0x0E :: data)[i] := fun i hi =>
    storeBytes_get (by simp; omega) hi
  have hr0 : (inputMachine μ data).reg .r0 = 0x0081A000 := rfl
  have hframe : stackFrame (inputMachine μ data) = 0x0081DD74 := by
    have hsp : (inputMachine μ data).reg .sp = 0x0081DD84 := rfl
    rw [stackFrame, hsp]
    decide
  have hlength :
      load16 (inputMachine μ data).mem 0x0081A004 = (0x00 : BitVec 8) ++ BitVec.ofNat 8 (data.length + 2) := by
    have h0 : (inputMachine μ data).mem 0x0081A004 = BitVec.ofNat 8 (data.length + 2) := get 0 (by omega)
    have h1 : (inputMachine μ data).mem (0x0081A004 + 1) = 0x00 := get 1 (by omega)
    rw [load16, h0, h1]
  refine ⟨⟨?_, fun i hi _ => ?_, ?_⟩, get 2 (by omega), get 3 (by omega), ?_, ?_, ?_⟩
  · rw [packetLength, hr0, show ((0x0081A000 : Word) + 4) &&& 0xFFFFFFFE = 0x0081A004 by decide, hlength,
      BitVec.toNat_append]
    simp
    omega
  · have haddr : (0x0081A000 : Word) + 8 + BitVec.ofNat 32 i = 0x0081A004 + BitVec.ofNat 32 (i + 4) := by
      rw [BitVec.ofNat_add]
      ac_rfl
    change (inputMachine μ data).mem (0x0081A000 + 8 + BitVec.ofNat 32 i) = data[i]
    rw [haddr, get (i + 4) (by omega)]
    rfl
  · exact hr0 ▸ apart_of_le (by decide) (by decide)
  · rw [hframe, hr0]
    exact (apart_of_le (by decide) (by decide)).symm
  · rw [hframe]
    exact (apart_of_le (by decide) (by decide)).symm
  · rw [hframe]
    exact apart_of_le (by decide) (by decide)

/-- The monitor run on a machine that has the packet in its buffer brings the bytes. -/
theorem dispatched_inputMem {μ : Mem} (hok : MailboxOk μ) {data : List (BitVec 8)} (hlen : data.length ≤ 64) :
    Dispatched μ (some data) (inputMem (Stage0.pushed (inputMachine μ data)) 0x0081A000) := by
  have hm := inputEntry_inputMachine μ hlen
  have hsame : SameOn (inputMachine μ data).mem μ INPUT_MAILBOX_ADDR 268 :=
    sameOn_storeBytes (by simp; omega) (apart_of_le (by simp [INPUT_MAILBOX_ADDR]; omega) (by decide)).symm
  obtain ⟨n, e, m', hrun, hmem⟩ := wpMonitor_input (fun _ m => m) hm ((mailboxOk_congr hsame).mpr hok)
  exact hmem ▸ .packet (.enqueue hm hsame hrun (SameOn.refl _ _ _))

theorem exists_dispatched {μ : Mem} (hok : MailboxOk μ) (p : Option (List (BitVec 8)))
    (hp : ∀ data ∈ p, data.length ≤ 64) : ∃ μ', Dispatched μ p μ' := by
  rcases p with - | data
  · exact ⟨μ, .idle (SameOn.refl _ _ _)⟩
  · exact ⟨_, dispatched_inputMem hok (hp data rfl)⟩

/-- Any sequence of packets and callers can happen. -/
theorem exists_receiveRun {μ : Mem} (hok : MailboxOk μ) (calls : List ReceiveCall) :
    ∃ cs μ', ReceiveRun μ cs μ' ∧ cs.map ReceiveRecord.toReceiveCall = calls := by
  induction calls generalizing μ with
  | nil => exact ⟨[], μ, .nil μ, rfl⟩
  | cons c calls ih =>
    obtain ⟨μ₁, hd⟩ := exists_dispatched hok c.packet c.packet_le
    obtain ⟨hok', -, -⟩ := ReceiveRecord.exact (c := ⟨c, μ, μ₁⟩) hd (SameOn.refl _ _ _) hok
    obtain ⟨cs, μ', hrun, hmap⟩ := ih hok'
    exact ⟨⟨c, μ, μ₁⟩ :: cs, μ', .cons hd (SameOn.refl _ _ _) hrun, congrArg _ hmap⟩

/-- A packet of 64 bytes met by a read of one byte. -/
def byteRead : ReceiveCall where
  packet := some (List.replicate 64 0x61)
  packet_le := by simp
  caller := .traceRead 1
  limit := 1
  limit_eq := rfl

/-- Five packets of 64 bytes, each met by a read of one byte: bytes are lost. -/
theorem input_stored_reads : ¬ ∀ (μ₀ μ μ' : Mem) (cs : List ReceiveRecord),
    SameOn μ (shadowMsmDiagInputReset μ₀) INPUT_MAILBOX_ADDR 268 → ReceiveRun μ cs μ' → ∀ c ∈ cs, c.Stored := by
  intro h
  obtain ⟨hlive, hempty⟩ := live_shadowMsmDiagInputReset fun _ => 0
  have hok := (live_iff.mp hlive).2
  obtain ⟨cs, μ', hrun, hmap⟩ := exists_receiveRun hok (List.replicate 5 byteRead)
  have hfits := (hrun.stored_iff_fits hok).mp (h _ _ μ' cs (SameOn.refl _ _ _) hrun)
  rw [hmap, hempty, List.length_nil] at hfits
  exact absurd hfits (by decide)

/-- Three packets that leave bytes waiting: a read of one byte, a poll without a packet, a poll with little room. -/
def waitingCalls : List ReceiveCall :=
  [⟨some [0x68, 0x69, 0x21], by simp, .traceRead 1, 1, rfl⟩, ⟨none, by simp, .ttyPoll 1, 1, rfl⟩,
    ⟨some (List.replicate 64 0x61), by simp, .ttyPoll 10, 10, rfl⟩]

theorem input_stored_waiting : ∃ cs μ', ReceiveRun (shadowMsmDiagInputReset fun _ => 0) cs μ' ∧
    cs.map ReceiveRecord.toReceiveCall = waitingCalls ∧ (∀ c ∈ cs, c.Stored) ∧
      ∀ c ∈ cs, mailboxContents c.queued =
        mailboxContents c.before ++ c.data.take (255 - (mailboxContents c.before).length) := by
  obtain ⟨hlive, -⟩ := live_shadowMsmDiagInputReset fun _ => 0
  obtain ⟨cs, μ', hrun, hmap⟩ := exists_receiveRun (live_iff.mp hlive).2 waitingCalls
  obtain ⟨hexact, hfits, -⟩ := input_stored (SameOn.refl _ _ _) hrun
  refine ⟨cs, μ', hrun, hmap, hfits.mpr ?_, hexact⟩
  rw [hmap]
  decide

end ShadowMsm.Linux
