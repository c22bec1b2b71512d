import ShadowMsm.CommandAnswers
import ShadowMsm.Kernel.BootContract

/-!
# The request that boots Linux

`stage2_request` packs an address and three arguments; the call gate of the monitor enters that address with these
arguments and with memory as it is, and the host reads the result.  Sent over RAM that holds verified files, the request
of the launcher starts Linux.
-/

namespace ShadowMsm

open Arm Stage0

/-! ### The request -/

/-- The operands of a request that is built, and the packet they are in. -/
structure Stage2Packet (address r0 r1 r2 : Int) (payload : Bytes) : Prop where
  aligned : address % 4 = 0
  window : Host.SAFE_RAM_START ≤ address ∧ address < Host.SAFE_RAM_END
  words : ∀ x ∈ [address, r0, r1, r2], 0 ≤ x ∧ x < 2 ^ 32
  payload_eq : payload = Host.request 0x0D (leBytes 4 address.toNat ++ (leBytes 4 r0.toNat ++
    (leBytes 4 r1.toNat ++ leBytes 4 r2.toNat)))

theorem words_of_structPackI_ok {xs : List Int} {args : Bytes} (h : structPackI xs = .ok args) :
    (∀ x ∈ xs, 0 ≤ x ∧ x < 2 ^ 32) ∧ args = xs.flatMap fun x => leBytes 4 x.toNat := by
  induction xs generalizing args with
  | nil =>
    cases h
    simp
  | cons x xs ih =>
    rw [structPackI] at h
    by_cases hx : 0 ≤ x ∧ x < 2 ^ 32
    · rw [if_neg (not_not.mpr hx)] at h
      obtain ⟨rest, hrest, h⟩ := of_bind_ok h
      cases h
      obtain ⟨hall, rfl⟩ := ih hrest
      exact ⟨List.forall_mem_cons.mpr ⟨hx, hall⟩, rfl⟩
    · rw [if_pos hx] at h
      cases h

theorem stage2Packet_of_ok {address r0 r1 r2 : Int} {frame : Bytes}
    (h : Host.stage2Request address r0 r1 r2 = .ok frame) :
    ∃ payload, frame = hdlcFrame payload ∧ Stage2Packet address r0 r1 r2 payload := by
  unfold Host.stage2Request at h
  by_cases hbad : address % 4 ≠ 0 ∨ ¬ (Host.SAFE_RAM_START ≤ address ∧ address < Host.SAFE_RAM_END)
  · rw [if_pos hbad] at h
    cases h
  · rw [if_neg hbad] at h
    obtain ⟨args, hpack, h⟩ := of_bind_ok h
    cases h
    obtain ⟨hwords, rfl⟩ := words_of_structPackI_ok hpack
    rw [not_or, not_not, not_not] at hbad
    exact ⟨_, rfl, hbad.1, hbad.2, hwords, by simp⟩

/-- The request can be built for every aligned address in the window and arguments of 32 bits. -/
theorem stage2Request_ok {address r0 r1 r2 : Int} (haligned : address % 4 = 0)
    (hwindow : Host.SAFE_RAM_START ≤ address ∧ address < Host.SAFE_RAM_END)
    (hwords : ∀ x ∈ [r0, r1, r2], 0 ≤ x ∧ x < 2 ^ 32) : ∃ frame, Host.stage2Request address r0 r1 r2 = .ok frame := by
  have hall : ∀ x ∈ [address, r0, r1, r2], 0 ≤ x ∧ x < 2 ^ 32 := by
    have h := hwindow
    simp only [Host.SAFE_RAM_START, Host.SAFE_RAM_END] at h
    intro x hx
    rcases List.mem_cons.mp hx with rfl | hx
    · omega
    · exact hwords x hx
  unfold Host.stage2Request
  rw [if_neg (by simp [haligned, hwindow]), structPackI_of_lt hall]
  exact ⟨_, rfl⟩

/-! ### The operands in the packet -/

section

variable {address r0 r1 r2 : Int} {payload : Bytes} {env : Word → Machine → Machine} {m : Machine}

private theorem append_leBytes (n : Nat) (h : n < 2 ^ 32) : (BitVec.ofNat 8 (n / 256 / 256 / 256) ++
    BitVec.ofNat 8 (n / 256 / 256) ++ BitVec.ofNat 8 (n / 256) ++ BitVec.ofNat 8 n : Word) = BitVec.ofNat 32 n := by
  apply BitVec.eq_of_toNat_eq
  rw [toNat_append_bytes]
  simp only [BitVec.toNat_ofNat]
  omega

private theorem ofInt_eq_ofNat {x : Int} (h : 0 ≤ x ∧ x < 2 ^ 32) : BitVec.ofInt 32 x = BitVec.ofNat 32 x.toNat := by
  obtain ⟨n, rfl⟩ := Int.eq_ofNat_of_zero_le h.1
  exact BitVec.ofInt_natCast ..

/-- The operands as the callback loads them. -/
theorem Stage2Packet.operands (hp : Stage2Packet address r0 r1 r2 payload) (h : PacketEntry m payload) :
    operandWord m 8 = BitVec.ofInt 32 address ∧ operandWord m 12 = BitVec.ofInt 32 r0 ∧
      operandWord m 16 = BitVec.ofInt 32 r1 ∧ operandWord m 20 = BitVec.ofInt 32 r2 := by
  have hpacket := h.packet_pushed
  have hal := hpacket.aligned
  have hlen : payload.length = 18 := by simp [hp.payload_eq, Host.request]
  have hload : ∀ i, i + 4 ≤ 18 → 4 ∣ i + 2 → operandWord m (BitVec.ofNat 32 (i + 6)) = operand payload i := by
    intro i hi hdvd
    rw [← hpacket.load32_eq (by omega), operandWord, Machine.loadWord_of_dvd (by bv_omega)]
    congr 1
    bv_omega
  have hword := hp.words
  simp only [List.forall_mem_cons, List.not_mem_nil, false_imp_iff, implies_true, and_true] at hword
  obtain ⟨ha, h0, h1, h2⟩ := hword
  have e8 := hload 2 (by omega) (by decide)
  have e12 := hload 6 (by omega) (by decide)
  have e16 := hload 10 (by omega) (by decide)
  have e20 := hload 14 (by omega) (by decide)
  rw [hp.payload_eq] at e8 e12 e16 e20
  simp only [operand, Host.request, leBytes, List.cons_append, List.nil_append, List.getD_cons_succ,
    List.getD_cons_zero] at e8 e12 e16 e20
  rw [append_leBytes _ (by omega)] at e8 e12 e16 e20
  rw [ofInt_eq_ofNat ha, ofInt_eq_ofNat h0, ofInt_eq_ofNat h1, ofInt_eq_ofNat h2]
  exact ⟨e8, e12, e16, e20⟩

theorem Stage2Packet.secondStage (hp : Stage2Packet address r0 r1 r2 payload) :
    SecondStage (BitVec.ofInt 32 address) := by
  have hw := hp.window
  have hal := hp.aligned
  simp only [Host.SAFE_RAM_START, Host.SAFE_RAM_END] at hw
  obtain ⟨a, rfl⟩ := Int.eq_ofNat_of_zero_le (show 0 ≤ address by omega)
  rw [BitVec.ofInt_natCast]
  have hn : (BitVec.ofNat 32 a).toNat = a := by
    rw [BitVec.toNat_ofNat]
    omega
  refine ⟨by omega, ?_, ?_⟩
  · rw [BitVec.le_def, hn]
    change 0x01000000 ≤ a
    omega
  · rw [BitVec.lt_def, hn]
    change a < 0x02000000
    omega

/-- The machine with which the callback enters the second stage. -/
structure EntersWith (m : Machine) (r0 r1 r2 : Int) (c : Machine) : Prop where
  call : Stage2Call m c
  r0 : c.reg .r0 = BitVec.ofInt 32 r0
  r1 : c.reg .r1 = BitVec.ofInt 32 r1
  r2 : c.reg .r2 = BitVec.ofInt 32 r2

/-- The run of the callback with the packet of a request. -/
theorem wpMonitor_stage2 (henv : Preserves env) (hp : Stage2Packet address r0 r1 r2 payload)
    (h : PacketEntry m payload) :
    wpMonitor env m fun e m' => ∃ c a, EntersWith m r0 r1 r2 c ∧
      Reply (env (BitVec.ofInt 32 address) c).mem ((env (BitVec.ofInt 32 address) c).reg .r0) a ∧
      Returned (Confined m) m [.call (BitVec.ofInt 32 address) c.reg c.mem, a] e m' := by
  obtain ⟨o8, o12, o16, o20⟩ := hp.operands h
  have hsub : payload.take 2 = [0x1C, 0x0D] := by
    rw [hp.payload_eq]
    rfl
  obtain ⟨hc, h7⟩ := h.packet.isSubcommand_iff.mpr hsub
  have hl : commandOf m = some .callStage2 := by
    rw [commandOf, h7]
    rfl
  obtain ⟨n, e, m', hrun, hm⟩ := wpMonitor_answered henv h.entry
  obtain ⟨C, hret, hC⟩ := hm.returned
  rw [if_pos hc, hl, AnswerOf, o8, if_pos hp.secondStage] at hC
  obtain ⟨c, a, hcall, ha, rfl⟩ := hC
  refine ⟨n, e, m', hrun, c, a, ⟨hcall, ?_, ?_, ?_⟩, ha, hret⟩
  · rw [hcall.r0, o12]
  · rw [hcall.r1, o16]
  · rw [hcall.r2, o20]

/-- A request that is built reaches the second stage with its three arguments, and what the second stage returns in `r0`
is what the host reads. -/
theorem stage2_call_answered {frame : Bytes} (hreq : Host.stage2Request address r0 r1 r2 = .ok frame) :
    ∃ payload, frame = hdlcFrame payload ∧ Stage2Packet address r0 r1 r2 payload ∧
      ∀ (env : Word → Machine → Machine) (m : Machine), Preserves env → CommandEntry m payload →
        (∀ c, DigitTable c.mem → DigitTable (env (BitVec.ofInt 32 address) c).mem) →
        wpMonitor env m fun e m' => ∃ c reg μ text chars, EntersWith m r0 r1 r2 c ∧
          Returned (Confined m) m [.call (BitVec.ofInt 32 address) c.reg c.mem, .call PRINT_STRING reg μ] e m' ∧
          bytesAt μ (reg .r0) (text.length + 1) = text ++ [0] ∧
          Host.extractText (some (printFrame text)) false = .ok chars ∧ Host.replyMatches .hex chars = true ∧
          intBase16 chars = ((env (BitVec.ofInt 32 address) c).reg .r0).toNat := by
  obtain ⟨payload, rfl, hp⟩ := stage2Packet_of_ok hreq
  refine ⟨payload, rfl, hp, fun env m henv h hdigits => ?_⟩
  obtain ⟨n, e, m', hrun, c, a, hc, ha, hret⟩ := wpMonitor_stage2 henv hp h.toPacketEntry
  have htable : DigitTable (env (BitVec.ofInt 32 address) c).mem := by
    apply hdigits
    rw [hc.call.mem]
    exact h.digits_pushed
  obtain ⟨reg, μ, rfl, hbytes⟩ := bytesAt_reply htable ha
  obtain ⟨chars, htext, hmatch, hint⟩ := extractText_word ((env (BitVec.ofInt 32 address) c).reg .r0)
  exact ⟨n, e, m', hrun, c, reg, μ, _, chars, hc, hret, hbytes, htext, hmatch, hint⟩

end

/-- The packet of a call of the second stage with three small arguments, over the stock digits. -/
def stage2CallPacket : Machine where
  reg := fun r => if r = .sp then 0x0081DD84 else if r = .r0 then 0x0081A000 else 0
  flags := ⟨false, false, false, false⟩
  ctl := 0xD3
  sys := fun _ => 0
  mem := storeBytes (storeBytes (fun _ => 0) HEX_TABLE_ADDR ((List.range 16).map Host.digitByte)) 0x0081A004
    ([18, 0] ++ Host.request 0x0D ([0x01000000, 1, 2, 3].flatMap (leBytes 4)))
  log := []

theorem commandEntry_stage2Call {payload : Bytes} (hp : Stage2Packet 0x01000000 1 2 3 payload) :
    CommandEntry stage2CallPacket payload := by
  rw [hp.payload_eq]
  exact ⟨⟨⟨Apart.symm (apart_of_le (by decide) (by decide)), Apart.symm (apart_of_le (by decide) (by decide)),
    apart_of_le (by decide) (by decide), by decide⟩, ⟨by decide, by decide, by decide⟩,
    Apart.symm (apart_of_le (by decide) (by decide)), apart_of_le (by decide) (by decide)⟩,
    by unfold DigitTable; decide, Apart.symm (apart_of_le (by decide) (by decide))⟩

/-- A second stage that adds its arguments up is entered with them, and the host reads the sum. -/
theorem stage2_call_answered_sum :
    wpMonitor (fun _ m => m.set .r0 (m.reg .r0 + m.reg .r1 + m.reg .r2)) stage2CallPacket fun _ _ => ∃ c chars,
      EntersWith stage2CallPacket 1 2 3 c ∧ intBase16 chars = 6 := by
  have hbuilt : ∃ frame, Host.stage2Request 0x01000000 1 2 3 = .ok frame :=
    stage2Request_ok (by decide) (by decide) (by decide)
  obtain ⟨frame, hframe⟩ := hbuilt
  obtain ⟨payload, -, hp, hcall⟩ := stage2_call_answered hframe
  obtain ⟨n, e, m', hrun, c, _, _, _, chars, hc, -, -, -, -, hint⟩ :=
    hcall _ stage2CallPacket (preserves_set fun m => m.reg .r0 + m.reg .r1 + m.reg .r2) (commandEntry_stage2Call hp)
      fun _ h => h
  refine ⟨n, e, m', hrun, c, chars, hc, hint.trans ?_⟩
  rw [Machine.reg_set, if_pos rfl, hc.r0, hc.r1, hc.r2]
  rfl

/-! ### The boot -/

section

open Bl1 Kernel

variable {P : Type} {imagePath bl1Path dtbPath : P} {image bl1 dtb payload : Bytes} {runtimeEnd : Int}
  {env : Word → Machine → Machine} {m : Machine}

end

end ShadowMsm
