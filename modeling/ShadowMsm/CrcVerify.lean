import Mathlib.Tactic.IntervalCases
import ShadowMsm.Requests
import ShadowMsm.Stage0.Confinement

/-!
# What a CRC query answers

A query that the host sends reaches the `crc32_range` of the monitor with a range it accepts, and the number the host
reads from the reply is the CRC-32 of that range.
-/

namespace ShadowMsm

open Arm Stage0

/-- A decoded packet at `p`: its length, and its bytes from the command byte on. -/
structure PacketAt (μ : Mem) (p : Word) (payload : Bytes) : Prop where
  aligned : 4 ∣ p.toNat
  length : (packetLength μ p).toNat = payload.length
  bytes : ∀ i (h : i < payload.length), μ (p + 6 + BitVec.ofNat 32 i) = payload[i]

/-- The stock table of hexadecimal digits. -/
def DigitTable (μ : Mem) : Prop := ∀ d < 16, μ (HEX_TABLE_ADDR + BitVec.ofNat 32 d) = Host.digitByte d

private theorem digitByte_ne_zero : ∀ d < 16, Host.digitByte d ≠ 0 := by decide

/-- The digits of a word, the most significant one first. -/
def digits (v : Word) : List Nat := (List.range 8).map fun i => (nibble v i).toNat

theorem digits_lt {v : Word} : ∀ d ∈ digits v, d < 16 := by
  intro d hd
  obtain ⟨i, _, rfl⟩ := List.mem_map.mp hd
  simp only [nibble, BitVec.toNat_ushiftRight, Nat.shiftRight_eq_div_pow]
  omega

private theorem toNat_nibble (v : Word) {i : Nat} (hi : i < 8) : (nibble v i).toNat = v.toNat / 16 ^ (7 - i) % 16 := by
  have hv := v.isLt
  simp only [nibble, BitVec.toNat_ushiftRight, BitVec.toNat_shiftLeft, Nat.shiftLeft_eq, Nat.shiftRight_eq_div_pow]
  interval_cases i
  all_goals omega

/-- The digits of a word are read back as the word. -/
theorem intBase16_digits (v : Word) : intBase16 ((digits v).map Host.digitChar) = v.toNat := by
  have main : ∀ i ≤ 8, intBase16 (((List.range i).map fun i => (nibble v i).toNat).map Host.digitChar) =
      v.toNat / 16 ^ (8 - i) := by
    intro i hi
    induction i with
    | zero =>
      have := v.isLt
      simp [intBase16]
      omega
    | succ i ih =>
      rw [List.range_succ, List.map_append, List.map_singleton, Host.intBase16_digits_concat, ih (by omega),
        toNat_nibble v (by omega), show 8 - i = 7 - i + 1 by omega, Nat.pow_succ, ← Nat.div_div_eq_div_mul,
        show 8 - (i + 1) = 7 - i by omega]
      · omega
      · simp only [nibble, BitVec.toNat_ushiftRight, Nat.shiftRight_eq_div_pow]
        omega
  have := main 8 (by omega)
  rwa [Nat.sub_self, Nat.pow_zero, Nat.div_one] at this

private theorem digitByte_inj : ∀ d < 16, ∀ d' < 16, Host.digitByte d = Host.digitByte d' → d = d' := by decide

/-- A word is told from its text. -/
theorem map_digitByte_inj {v w : Word} (h : (digits v).map Host.digitByte = (digits w).map Host.digitByte) : v = w := by
  have hdigits : digits v = digits w := by
    have hlen : (digits v).length = (digits w).length := by simp [digits]
    refine List.ext_getElem hlen fun i h₁ h₂ => ?_
    refine digitByte_inj _ (digits_lt _ (List.getElem_mem h₁)) _ (digits_lt _ (List.getElem_mem h₂)) ?_
    simpa [h₁, h₂] using congrArg (fun l => l[i]?) h
  apply BitVec.eq_of_toNat_eq
  rw [← intBase16_digits v, hdigits, intBase16_digits]

/-- The table turns the digits into their bytes. -/
theorem hexText_of_digitTable {μ : Mem} (h : DigitTable μ) (v : Word) :
    hexText μ HEX_TABLE_ADDR v = (digits v).map Host.digitByte := by
  rw [hexText, digits, List.map_map]
  refine List.map_congr_left fun i hi => ?_
  have hlt : (nibble v i).toNat < 16 := digits_lt _ (List.mem_map_of_mem hi)
  rw [Function.comp, ← h _ hlt, BitVec.ofNat_toNat, BitVec.setWidth_eq]

/-! ### The operands of the request -/

private theorem load32_leBytes {μ : Mem} {x : Word} {n : Nat} (hn : n < 2 ^ 32)
    (h : ∀ i (hi : i < (leBytes 4 n).length), μ (x + BitVec.ofNat 32 i) = (leBytes 4 n)[i]) :
    load32 μ x = BitVec.ofNat 32 n := by
  have h0 : μ x = BitVec.ofNat 8 n := by
    rw [← BitVec.add_zero x]
    exact h 0 (by simp)
  have h1 : μ (x + 1) = BitVec.ofNat 8 (n / 256) := h 1 (by simp)
  have h2 : μ (x + 2) = BitVec.ofNat 8 (n / 256 / 256) := h 2 (by simp)
  have h3 : μ (x + 3) = BitVec.ofNat 8 (n / 256 / 256 / 256) := h 3 (by simp)
  apply BitVec.eq_of_toNat_eq
  rw [load32, h0, h1, h2, h3, toNat_append_bytes]
  simp only [BitVec.toNat_ofNat]
  omega

theorem PacketAt.congr {μ ν : Mem} {p : Word} {payload : Bytes} (h : PacketAt μ p payload)
    (hs : SameOn ν μ p (6 + payload.length)) : PacketAt ν p payload := by
  have hlen := (packetLength μ p).isLt
  rw [h.length] at hlen
  refine ⟨h.aligned, ?_, fun i hi => ?_⟩
  · rw [← h.length]
    exact congrArg BitVec.toNat
      (hs.mono fun x hx => (inside_alignHalf (by decide) (by simp) (by omega)).within hx).load16
  · rw [← h.bytes i hi]
    refine hs _ ?_
    simp only [Within]
    bv_omega

/-- The callback entered with the packet of a CRC query, over a stack apart from what it uses and the stock digits. -/
structure CrcEntry (m : Machine) (payload : Bytes) : Prop where
  packet : PacketAt m.mem (m.reg .r0) payload
  digits : DigitTable m.mem
  stack : Apart (stackFrame m) 16 (m.reg .r0) 72
  message : Apart (stackFrame m) 16 MESSAGE_ADDR 9
  table : Apart (stackFrame m) 16 HEX_TABLE_ADDR 16

/-- From `m` to `m'` the callback has returned after one call, which prints the NUL-terminated `text`. -/
def Prints (m m' : Machine) (text : Bytes) : Prop :=
  ∃ e reg μ, Returned (Confined m) m [.call PRINT_STRING reg μ] e m' ∧
    bytesAt μ (reg .r0) (text.length + 1) = text ++ [0] ∧ 0 ∉ text

/-- The frame of a printed text. -/
def printFrame (text : Bytes) : Bytes := 0x0E :: (text ++ [0x0A])

/-- A query for the two words, taken by the callback. -/
theorem wpMonitor_crc {env : Word → Machine → Machine} (henv : Preserves env) {m : Machine} {a n : Nat}
    (ha : a < 2 ^ 32) (hn : n < 2 ^ 32) (h : CrcEntry m (Host.request 0x0C (leBytes 4 a ++ leBytes 4 n)))
    (hs : SafeRange (BitVec.ofNat 32 a) (BitVec.ofNat 32 n)) :
    wpMonitor env m fun _ m' =>
      Prints m m' ((digits (crc32 (bytesAt (pushed m) (BitVec.ofNat 32 a) n))).map Host.digitByte) := by
  have hlen : (Host.request 0x0C (leBytes 4 a ++ leBytes 4 n)).length = 10 := by simp [Host.request]
  have hsame : SameOn (pushed m) m.mem (m.reg .r0) 72 := fun x hx =>
    storeWords_of_not_within fun hw => h.stack x hw hx
  have hp := h.packet.congr (hsame.mono fun x hx => by
    simp only [Within] at hx ⊢
    omega)
  have htable : DigitTable (pushed m) := fun d hd => by
    rw [← h.digits d hd]
    exact storeWords_of_not_within fun hw => h.table _ hw (within_add hd (by omega))
  have byte : ∀ i (hi : i < 10), pushed m (m.reg .r0 + 6 + BitVec.ofNat 32 i) =
      (Host.request 0x0C (leBytes 4 a ++ leBytes 4 n))[i] := fun i hi => hp.bytes i (by omega)
  have h6 : pushed m (m.reg .r0 + 6) = 0x1C := by
    rw [← BitVec.add_zero (m.reg .r0 + 6)]
    exact byte 0 (by omega)
  have h7 : pushed m (m.reg .r0 + 7) = 0x0C := by
    rw [show m.reg .r0 + 7 = m.reg .r0 + 6 + BitVec.ofNat 32 1 by bv_omega]
    exact byte 1 (by omega)
  have hcmd : IsCommand (pushed m) (m.reg .r0) := ⟨by have := hp.length; omega, h6⟩
  have w8 : load32 (pushed m) (m.reg .r0 + 8) = BitVec.ofNat 32 a := load32_leBytes ha fun i hi => by
    rw [show m.reg .r0 + 8 + BitVec.ofNat 32 i = m.reg .r0 + 6 + BitVec.ofNat 32 (i + 2) by bv_omega]
    simp only [length_leBytes] at hi
    rw [byte (i + 2) (by omega)]
    simp [Host.request, List.getElem_append_left, hi]
  have w12 : load32 (pushed m) (m.reg .r0 + 12) = BitVec.ofNat 32 n := load32_leBytes hn fun i hi => by
    rw [show m.reg .r0 + 12 + BitVec.ofNat 32 i = m.reg .r0 + 6 + BitVec.ofNat 32 (i + 6) by bv_omega]
    simp only [length_leBytes] at hi
    rw [byte (i + 6) (by omega)]
    simp [Host.request, List.getElem_append_right]
  have hal := h.packet.aligned
  have hA := commandAccess_confined m
  refine wpMonitor_of_wp (wp_commands hA.frame hA.header (fun m' _ _ hbad => absurd hcmd hbad)
    fun m' hf hmem h4 _ _ => ?_)
  rw [h7, show commandTable.lookup (BitVec.setWidth 32 (0x0C : BitVec 8)) = some .crc32Range from by decide]
  have o8 : m'.loadWord (m.reg .r0 + 8) = BitVec.ofNat 32 a := by
    rw [Machine.loadWord_of_dvd (by bv_omega), hmem, w8]
  have o12 : m'.loadWord (m.reg .r0 + 12) = BitVec.ofNat 32 n := by
    rw [Machine.loadWord_of_dvd (by bv_omega), hmem, w12]
  refine wp_crc32Range henv h.message hf hA.frame ((reply_operand (by decide) (by decide)).confined _)
    ((reply_operand (by decide) (by decide)).confined _) (fun a n h => Or.inr (Or.inr h)) h4 ?_ ?_
  · intro e m'' c _ hc hret
    rw [if_neg hret.ne_toInput]
    rw [o8, o12, hmem, BitVec.toNat_ofNat, Nat.mod_eq_of_lt hn] at hc
    cases c with
    | call t reg μ =>
      obtain ⟨rfl, h0, rfl⟩ := hc
      refine ⟨e, reg, _, hret, ?_, fun hz => ?_⟩
      · have := bytesAt_storeBytes (μ := pushed m) (a := MESSAGE_ADDR)
          (hexText (pushed m) HEX_TABLE_ADDR (crc32 (bytesAt (pushed m) (BitVec.ofNat 32 a) n)) ++ [0]) (by simp)
        rw [hexText_of_digitTable htable, List.length_append] at this
        rw [h0, hexText_of_digitTable htable]
        exact this
      · obtain ⟨d, hd, h0⟩ := List.mem_map.mp hz
        exact digitByte_ne_zero d (digits_lt d hd) h0
    | load | store => exact hc.elim
  · intro e m'' c hbad
    rw [o8, o12] at hbad
    exact absurd hs hbad

/-- A CRC query the host lets through is sent, accepted by the monitor, and answered with a reply that the host takes
and reads as the CRC-32 of the range, as it is in memory while the callback runs. -/
theorem crcQuery_answer (address length : Int)
    (hlet : ∀ msg, Host.targetCrcQueryRequest address length ≠ .error (.valueError msg)) :
    ∃ payload, Host.targetCrcQueryRequest address length = .ok payload ∧
      SafeRange (BitVec.ofInt 32 address) (BitVec.ofInt 32 length) ∧
      ∀ (env : Word → Machine → Machine) (m : Machine), Preserves env → CrcEntry m payload →
        wpMonitor env m fun _ m' => ∃ text chars, Prints m m' text ∧
          Host.extractText (some (printFrame text)) false = .ok chars ∧ Host.replyMatches .hex chars = true ∧
          intBase16 chars = (crc32 (bytesAt (pushed m) (BitVec.ofInt 32 address) length.toNat)).toNat := by
  have hstart : Host.SAFE_RAM_START ≤ address ∧ address < Host.SAFE_RAM_END := by
    by_contra h
    exact hlet "CRC start is outside the stage-0 safe RAM window" (by simp [Host.targetCrcQueryRequest, h]; rfl)
  have hend : ¬ (length < 0 ∨ address + length > Host.SAFE_RAM_END) := fun h =>
    hlet "CRC range exceeds the stage-0 safe RAM window" (by simp [Host.targetCrcQueryRequest, hstart, h]; rfl)
  simp only [Host.SAFE_RAM_START, Host.SAFE_RAM_END] at hstart hend
  obtain ⟨a, rfl⟩ := Int.eq_ofNat_of_zero_le (show 0 ≤ address by omega)
  obtain ⟨n, rfl⟩ := Int.eq_ofNat_of_zero_le (show 0 ≤ length by omega)
  have ha : a < 2 ^ 32 := by omega
  have hn : n < 2 ^ 32 := by omega
  have hpack : structPackI [(a : Int), (n : Int)] = .ok (leBytes 4 a ++ leBytes 4 n) := by
    rw [structPackI_of_lt (by simp; omega)]
    simp
  have hs : SafeRange (BitVec.ofNat 32 a) (BitVec.ofNat 32 n) := by
    have hst : Stage0.SAFE_RAM_START.toNat = 0x01000000 := rfl
    have hend' : Stage0.SAFE_RAM_END.toNat = 0x02000000 := rfl
    refine ⟨?_, ?_⟩
    · rw [BitVec.le_def, BitVec.toNat_ofNat]
      omega
    · rw [BitVec.toNat_ofNat, BitVec.toNat_ofNat]
      omega
  refine ⟨Host.request 0x0C (leBytes 4 a ++ leBytes 4 n), ?_, by simpa using hs, fun env m henv hm => ?_⟩
  · simp only [Host.targetCrcQueryRequest, Host.SAFE_RAM_START, Host.SAFE_RAM_END, hstart, hend, hpack]
    rfl
  · obtain ⟨k, e, m', hrun, hprint⟩ := wpMonitor_crc henv ha hn hm hs
    refine ⟨k, e, m', hrun, _, _, hprint, Host.extractText_digits digits_lt, ?_, ?_⟩
    · simp only [Host.replyMatches, Bool.and_eq_true, decide_eq_true_eq, List.length_map, List.all_eq_true]
      refine ⟨by simp [digits], fun c hc => ?_⟩
      obtain ⟨d, hd, rfl⟩ := List.mem_map.mp hc
      exact Host.isHexDigit_digitChar d (digits_lt d hd)
    · rw [intBase16_digits]
      simp

/-- The packet of a query for the 883 bytes at 0x01F80000, over the stock digits. -/
def dtbQueryPacket : Machine where
  reg := fun r => if r = .sp then 0x0081DD84 else if r = .r0 then 0x0081A000 else 0
  flags := ⟨false, false, false, false⟩
  ctl := 0xD3
  sys := fun _ => 0
  mem := storeBytes (storeBytes (fun _ => 0) HEX_TABLE_ADDR ((List.range 16).map Host.digitByte)) 0x0081A004
    ([10, 0] ++ Host.request 0x0C (leBytes 4 0x01F80000 ++ leBytes 4 883))
  log := []

theorem crcQuery_answer_dtb : ∃ payload, Host.targetCrcQueryRequest 0x01F80000 883 = .ok payload ∧
    wpMonitor (fun _ m => m.set .r0 0) dtbQueryPacket fun _ m' => ∃ text chars, Prints dtbQueryPacket m' text ∧
      Host.extractText (some (printFrame text)) false = .ok chars ∧
      intBase16 chars = (crc32 (bytesAt (pushed dtbQueryPacket) 0x01F80000 883)).toNat := by
  have hnot : ∀ msg, Host.targetCrcQueryRequest 0x01F80000 883 ≠ .error (.valueError msg) := by
    intro msg h
    cases h
  obtain ⟨payload, hreq, -, hrun⟩ := crcQuery_answer 0x01F80000 883 hnot
  obtain rfl : payload = Host.request 0x0C (leBytes 4 0x01F80000 ++ leBytes 4 883) := by
    cases hreq
    decide
  have hm : CrcEntry dtbQueryPacket (Host.request 0x0C (leBytes 4 0x01F80000 ++ leBytes 4 883)) :=
    ⟨⟨by decide, by decide, by decide⟩, by unfold DigitTable; decide, Apart.symm (apart_of_le (by decide) (by decide)),
      Apart.symm (apart_of_le (by decide) (by decide)), Apart.symm (apart_of_le (by decide) (by decide))⟩
  obtain ⟨k, e, m', hk, text, chars, hprint, htext, -, hint⟩ := hrun _ _ preserves_setR0 hm
  exact ⟨_, hreq, k, e, m', hk, text, chars, hprint, htext, hint⟩

end ShadowMsm
