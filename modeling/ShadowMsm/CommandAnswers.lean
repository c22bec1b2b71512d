import ShadowMsm.PacketBytes
import ShadowMsm.Host.Console
import ShadowMsm.Stage0.Answers

/-!
# A command and its answer

The callback answers every packet by its table, and where the answer is a word, the host takes the printed text as the
reply to a hexadecimal command and reads the word from it.
-/

namespace ShadowMsm

open Arm Stage0

/-- The word in the answer to a packet, where the callback finds it itself. -/
def answerWord (m : Machine) : Option Word :=
  if IsCommand m.mem (m.reg .r0) then
    match commandOf m with
    | none => some 0xBAD00000
    | some .crc32Range => some (crcAnswer m)
    | some .callStage2 => if SecondStage (operandWord m 8) then none else some 0xBAD00001
    | some l => queryValue m l
  else some 0xBAD00001

/-- From `m` to `m'` the callback has printed one text, which the host takes and reads as `v`. -/
def HostReads (m m' : Machine) (v : Word) : Prop :=
  ∃ text chars, Prints m m' text ∧ Host.extractText (some (printFrame text)) false = .ok chars ∧
    Host.replyMatches .hex chars = true ∧ intBase16 chars = v.toNat

/-- The callback entered with a packet, over the stock digits and a stack apart from them. -/
structure CommandEntry (m : Machine) (payload : Bytes) : Prop extends PacketEntry m payload where
  digits : DigitTable m.mem
  table : Apart (stackFrame m) 16 HEX_TABLE_ADDR 16

section

variable {env : Word → Machine → Machine} {m m' : Machine} {payload : Bytes} {C : List Access} {e : Exit} {v : Word}

theorem CommandEntry.digits_pushed (h : CommandEntry m payload) : DigitTable (pushed m) := by
  intro d hd
  rw [← h.digits d hd]
  exact storeWords_of_not_within fun hw => h.table _ hw (within_add hd (by omega))

private theorem zero_notMem_digits (v : Word) : (0 : Byte) ∉ (digits v).map Host.digitByte := by
  have hne : ∀ d < 16, Host.digitByte d ≠ 0 := by decide
  intro h
  obtain ⟨d, hd, h0⟩ := List.mem_map.mp h
  exact hne d (digits_lt d hd) h0

/-- The text of a word is one hexadecimal reply with its value. -/
theorem extractText_word (v : Word) : ∃ chars,
    Host.extractText (some (printFrame ((digits v).map Host.digitByte))) false = .ok chars ∧
      Host.replyMatches .hex chars = true ∧ intBase16 chars = v.toNat := by
  refine ⟨_, Host.extractText_digits digits_lt, ?_, intBase16_digits v⟩
  simp only [Host.replyMatches, Bool.and_eq_true, decide_eq_true_eq, List.length_map, List.all_eq_true]
  refine ⟨by simp [digits], fun c hc => ?_⟩
  obtain ⟨d, hd, rfl⟩ := List.mem_map.mp hc
  exact Host.isHexDigit_digitChar d (digits_lt d hd)

/-- The reply string behind a reply. -/
theorem bytesAt_reply {μ : Mem} (hμ : DigitTable μ) {a : Access} (h : Reply μ v a) : ∃ reg μ',
    a = .call PRINT_STRING reg μ' ∧ bytesAt μ' (reg .r0) (((digits v).map Host.digitByte).length + 1) =
      (digits v).map Host.digitByte ++ [0] := by
  cases a with
  | call t reg μ' =>
    obtain ⟨rfl, h0, rfl⟩ := h
    have hbytes := bytesAt_storeBytes (μ := μ) (a := MESSAGE_ADDR) (hexText μ HEX_TABLE_ADDR v ++ [0]) (by simp)
    rw [hexText_of_digitTable hμ, List.length_append] at hbytes
    refine ⟨reg, _, rfl, ?_⟩
    rw [h0, hexText_of_digitTable hμ]
    exact hbytes
  | load | store => exact h.elim

theorem hostReads_of_replies (h : CommandEntry m payload) (hret : Returned (Confined m) m C e m')
    (hC : Replies (pushed m) v C) : HostReads m m' v := by
  obtain ⟨a, ha, rfl⟩ := hC
  obtain ⟨reg, μ', rfl, hbytes⟩ := bytesAt_reply h.digits_pushed ha
  obtain ⟨chars, htext, hmatch, hint⟩ := extractText_word v
  exact ⟨_, chars, ⟨e, reg, μ', hret, hbytes, zero_notMem_digits v⟩, htext, hmatch, hint⟩

/-- A word that answers the packet is read by the host. -/
theorem hostReads_of_answered (h : CommandEntry m payload) (hm : Answered env m e m')
    (hv : answerWord m = some v) : HostReads m m' v := by
  obtain ⟨C, hret, hC⟩ := hm.returned
  apply hostReads_of_replies h hret
  unfold answerWord at hv
  split at hC
  · rename_i hc
    rw [if_pos hc] at hv
    cases hl : commandOf m with
    | none =>
      simp only [hl, Option.some.injEq] at hC hv
      rw [← hv]
      exact hC
    | some l =>
      cases l with
      | crc32Range =>
        simp only [hl, Option.some.injEq] at hC hv
        rw [← hv]
        exact hC
      | callStage2 =>
        simp only [hl, AnswerOf] at hC hv
        split at hv
        · cases hv
        · rename_i hs
          rw [if_neg hs] at hC
          rw [← Option.some.inj hv]
          exact hC
      | banner | mailboxInput => simp [hl, queryValue] at hv
      | _ =>
        simp only [hl] at hC hv
        obtain ⟨w, hw, hrep⟩ := hC
        rw [hv] at hw
        rw [Option.some.inj hw]
        exact hrep
  · rename_i hc
    rw [if_neg hc, Option.some.injEq] at hv
    rw [← hv]
    exact hC

/-- The packet of a query of the host is the entry of the table that its number names. -/
theorem commandOf_query (h : PacketEntry m payload) {sub : Byte} (hp : payload = Host.request sub []) :
    IsCommand m.mem (m.reg .r0) ∧ commandOf m = commandTable.lookup (sub.setWidth 32) := by
  have hsub : payload.take 2 = [0x1C, sub] := by rw [hp]; rfl
  obtain ⟨hc, h7⟩ := h.packet.isSubcommand_iff.mpr hsub
  exact ⟨hc, by rw [commandOf, h7]⟩

/-- Every query of the boot log reads one register. -/
theorem answerWord_query (h : PacketEntry m payload) {sub : Byte} (hsub : sub ∈ Host.QUERIES)
    (hp : payload = Host.request sub []) :
    ∃ l v, commandTable.lookup (sub.setWidth 32) = some l ∧ queryValue m l = some v ∧ answerWord m = some v := by
  obtain ⟨hc, hl⟩ := commandOf_query h hp
  unfold answerWord
  rw [if_pos hc, hl]
  simp only [Host.QUERIES, List.mem_cons, List.not_mem_nil, or_false] at hsub
  rcases hsub with rfl | rfl | rfl | rfl | rfl | rfl | rfl | rfl | rfl | rfl | rfl
  all_goals exact ⟨_, _, rfl, rfl, rfl⟩

/-- Every packet is answered by the table of the callback; a word in the answer is what the host reads, and the queries
of the boot log are answered with the registers they name. -/
theorem command_answered (henv : Preserves env) (h : CommandEntry m payload) :
    wpMonitor env m fun e m' => Answered env m e m' ∧ (∀ v, answerWord m = some v → HostReads m m' v) ∧
      ∀ sub ∈ Host.QUERIES, payload = Host.request sub [] → ∃ l v,
        commandTable.lookup (sub.setWidth 32) = some l ∧ queryValue m l = some v ∧ HostReads m m' v := by
  obtain ⟨n, e, m', hrun, hm⟩ := wpMonitor_answered henv h.entry
  refine ⟨n, e, m', hrun, hm, fun v hv => hostReads_of_answered h hm hv, ?_⟩
  intro sub hsub hp
  obtain ⟨l, v, hl, hq, hv⟩ := answerWord_query h.toPacketEntry hsub hp
  exact ⟨l, v, hl, hq, hostReads_of_answered h hm hv⟩

end

/-- The packet of a query of the MIDR, over the stock digits. -/
def midrQueryPacket : Machine where
  reg := fun r => if r = .sp then 0x0081DD84 else if r = .r0 then 0x0081A000 else 0
  flags := ⟨false, false, false, false⟩
  ctl := 0xD3
  sys := fun s => if s = .midr then 0x41069265 else 0
  mem := storeBytes (storeBytes (fun _ => 0) HEX_TABLE_ADDR ((List.range 16).map Host.digitByte)) 0x0081A004
    ([2, 0] ++ Host.request 0x01 [])
  log := []

theorem commandEntry_midrQuery : CommandEntry midrQueryPacket (Host.request 0x01 []) where
  entry := ⟨Apart.symm (apart_of_le (by decide) (by decide)), Apart.symm (apart_of_le (by decide) (by decide)),
    apart_of_le (by decide) (by decide), by decide⟩
  packet := ⟨by decide, by decide, by decide⟩
  stack := Apart.symm (apart_of_le (by decide) (by decide))
  mailbox := apart_of_le (by decide) (by decide)
  digits := by unfold DigitTable; decide
  table := Apart.symm (apart_of_le (by decide) (by decide))

theorem command_answered_midr : wpMonitor (fun _ m => m.set .r0 0) midrQueryPacket fun _ m' =>
    HostReads midrQueryPacket m' 0x41069265 := by
  obtain ⟨n, e, m', hrun, -, hread, -⟩ := command_answered preserves_setR0 commandEntry_midrQuery
  exact ⟨n, e, m', hrun, hread _ (by decide)⟩

end ShadowMsm
