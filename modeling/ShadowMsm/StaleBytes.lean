import ShadowMsm.PacketBytes

/-!
# What an earlier packet leaves in the buffer

A packet that is too short for its operands is completed by the bytes behind it.  Where its own bytes do not decide what is
to be done (`Decides`), two completions that differ in a single byte have different effects: one is refused and the other
executed, or the second stage is entered with different arguments.
-/

namespace ShadowMsm

open Arm Stage0

/-- Where the packets arrive. -/
def BUFFER : Word := 0x0081A000

/-- Memory with a packet in the buffer: behind it zeros but for the byte `b` at `k`, the table of digits, and zeros elsewhere
but for the byte `c` at `last`. -/
def staleMem (payload : Bytes) (k : Nat) (b : BitVec 8) (last : Word) (c : BitVec 8) : Mem := fun x =>
  if Within x HEX_TABLE_ADDR 16 then Host.digitByte (x - HEX_TABLE_ADDR).toNat
  else if x = BUFFER + 4 then BitVec.ofNat 8 payload.length
  else if x = BUFFER + 6 + BitVec.ofNat 32 k then b
  else if Within x (BUFFER + 6) payload.length then payload.getD (x - (BUFFER + 6)).toNat 0
  else if x = last then c
  else 0

/-- The callback entered there. -/
def staleMachine (payload : Bytes) (k : Nat) (b : BitVec 8) (last : Word) (c : BitVec 8) : Machine :=
  { emptyPacket with mem := staleMem payload k b last c }

/-- The bytes of the buffer behind the packet. -/
def Behind (payload : Bytes) (x : Word) : Prop := Within x BUFFER 24 ∧ ¬ Within x BUFFER (6 + payload.length)

section

variable {payload : Bytes} {k : Nat} {b : BitVec 8} {last : Word} {c : BitVec 8}

/-- A packet with its end in the buffer, and the changed byte behind it. -/
structure StaleAt (payload : Bytes) (k : Nat) (last : Word) : Prop where
  behind : payload.length ≤ k
  buffer : k < 18
  window : Within last SAFE_RAM_START 0x01000000

theorem staleMem_buffer (h : StaleAt payload k last) {j : Nat} (hj : j < 18) :
    staleMem payload k b last c (BUFFER + 6 + BitVec.ofNat 32 j) = if j = k then b else payload.getD j 0 := by
  have hk := h.behind
  have hk18 := h.buffer
  have hw := h.window
  have h1 : ¬ Within (BUFFER + 6 + BitVec.ofNat 32 j) HEX_TABLE_ADDR 16 := by
    simp only [Within, BUFFER, HEX_TABLE_ADDR]
    bv_omega
  have h2 : BUFFER + 6 + BitVec.ofNat 32 j ≠ BUFFER + 4 := by
    simp only [BUFFER]
    bv_omega
  have h3 : BUFFER + 6 + BitVec.ofNat 32 j = BUFFER + 6 + BitVec.ofNat 32 k ↔ j = k := by
    simp only [BUFFER]
    constructor
    · intro he
      bv_omega
    · rintro rfl
      rfl
  have h4 : BUFFER + 6 + BitVec.ofNat 32 j ≠ last := by
    rintro rfl
    simp only [Within, BUFFER, SAFE_RAM_START] at hw
    bv_omega
  have h5 : (BUFFER + 6 + BitVec.ofNat 32 j - (BUFFER + 6)).toNat = j := by
    simp only [BUFFER]
    bv_omega
  rw [staleMem, if_neg h1, if_neg h2]
  by_cases hjk : j = k
  · rw [if_pos (h3.mpr hjk), if_pos hjk]
  · rw [if_neg (mt h3.mp hjk), if_neg hjk, if_neg h4]
    simp only [Within, h5]
    by_cases hj : j < payload.length
    · rw [if_pos hj]
    · rw [if_neg hj, List.getD_eq_getElem?_getD, List.getElem?_eq_none (by omega)]
      rfl

/-- Away from the buffer and the table there is only the one byte. -/
theorem staleMem_else (h : StaleAt payload k last) {x : Word} (hd : ¬ Within x HEX_TABLE_ADDR 16)
    (hb : ¬ Within x BUFFER 24) : staleMem payload k b last c x = if x = last then c else 0 := by
  have hk := h.behind
  have hk18 := h.buffer
  have h2 : x ≠ BUFFER + 4 := by
    rintro rfl
    exact hb (by decide)
  have h3 : x ≠ BUFFER + 6 + BitVec.ofNat 32 k := by
    rintro rfl
    apply hb
    simp only [Within]
    bv_omega
  have h4 : ¬ Within x (BUFFER + 6) payload.length := by
    intro hw
    apply hb
    simp only [Within] at hw ⊢
    bv_omega
  rw [staleMem, if_neg hd, if_neg h2, if_neg h3, if_neg h4]

private theorem apart_buffer {a : Word} {n : Nat} (h : Apart a n BUFFER 24) (hk : payload.length ≤ 18) :
    Apart a n BUFFER (6 + payload.length) :=
  h.mono (inside_self _ _) (by simp only [Inside]; bv_omega)

private theorem frame_apart_buffer (payload : Bytes) (k : Nat) (b : BitVec 8) (last : Word) (c : BitVec 8) :
    Apart (stackFrame (staleMachine payload k b last c)) 16 BUFFER 24 :=
  Apart.symm (apart_of_le (a := BUFFER) (b := align (0x0081DD84 - 16)) (by decide) (by decide))

private theorem mailbox_apart_buffer : Apart BUFFER 24 INPUT_MAILBOX_ADDR 268 := apart_of_le (by decide) (by decide)

private theorem digits_apart_buffer : Apart HEX_TABLE_ADDR 16 BUFFER 24 := apart_of_le (by decide) (by decide)

theorem digitTable_staleMem (payload : Bytes) (k : Nat) (b : BitVec 8) (last : Word) (c : BitVec 8) :
    DigitTable (staleMem payload k b last c) := by
  intro d hd
  have hx : (HEX_TABLE_ADDR + BitVec.ofNat 32 d - HEX_TABLE_ADDR).toNat = d := by
    simp only [HEX_TABLE_ADDR]
    bv_omega
  rw [staleMem, if_pos (within_add hd (by omega)), hx]

theorem packetAt_staleMem (h : StaleAt payload k last) : PacketAt (staleMem payload k b last c) BUFFER payload := by
  have hk := h.behind
  have hk18 := h.buffer
  refine ⟨by decide, ?_, fun i hi => ?_⟩
  · have h4 : staleMem payload k b last c (BUFFER + 4) = BitVec.ofNat 8 payload.length := by
      rw [staleMem, if_neg (by decide), if_pos rfl]
    have h5 : staleMem payload k b last c (BUFFER + 4 + 1) = 0 := by
      have hw := h.window
      have h3 : BUFFER + 4 + 1 ≠ BUFFER + 6 + BitVec.ofNat 32 k := by
        simp only [BUFFER]
        bv_omega
      have hp : ¬ Within (BUFFER + 4 + 1) (BUFFER + 6) payload.length := by
        simp only [Within, BUFFER]
        bv_omega
      have hl : BUFFER + 4 + 1 ≠ last := by
        rintro rfl
        revert hw
        decide
      rw [staleMem, if_neg (by decide), if_neg (by decide), if_neg h3, if_neg hp, if_neg hl]
    rw [packetLength, show (BUFFER + 4) &&& 0xFFFFFFFE = BUFFER + 4 by decide, load16, h4, h5]
    simp only [BitVec.toNat_append, BitVec.toNat_ofNat, BitVec.ofNat_eq_ofNat]
    simp
    omega
  · rw [staleMem_buffer h (by omega), if_neg (by omega), List.getD_eq_getElem?_getD, List.getElem?_eq_getElem hi]
    rfl

theorem packetEntry_stale (h : StaleAt payload k last) : PacketEntry (staleMachine payload k b last c) payload := by
  have hk := h.behind
  have hk18 := h.buffer
  have hbox : MailboxOk (staleMem payload k b last c) := by
    have hw := h.window
    have zero : ∀ i < 4, staleMem payload k b last c (INPUT_MAILBOX_ADDR + BitVec.ofNat 32 i) = 0 := by
      intro i hi
      have hin : Within (INPUT_MAILBOX_ADDR + BitVec.ofNat 32 i) INPUT_MAILBOX_ADDR 268 := within_add (by omega) (by omega)
      rw [staleMem_else h, if_neg]
      · rintro rfl
        simp only [Within, INPUT_MAILBOX_ADDR, SAFE_RAM_START] at hw
        bv_omega
      · intro hd
        simp only [Within, INPUT_MAILBOX_ADDR, HEX_TABLE_ADDR] at hd
        bv_omega
      · exact fun hb => mailbox_apart_buffer _ hb hin
    have h0 := zero 0 (by omega)
    have h1 := zero 1 (by omega)
    have h2 := zero 2 (by omega)
    have h3 := zero 3 (by omega)
    intro hm
    rw [mailboxMagic, load32] at hm
    simp only [BitVec.add_zero] at h0
    rw [h0, show INPUT_MAILBOX_ADDR + 1 = INPUT_MAILBOX_ADDR + BitVec.ofNat 32 1 from rfl, h1,
      show INPUT_MAILBOX_ADDR + 2 = INPUT_MAILBOX_ADDR + BitVec.ofNat 32 2 from rfl, h2,
      show INPUT_MAILBOX_ADDR + 3 = INPUT_MAILBOX_ADDR + BitVec.ofNat 32 3 from rfl, h3] at hm
    exact absurd hm (by decide)
  refine ⟨⟨?_, ?_, ?_, hbox⟩, packetAt_staleMem h, ?_, ?_⟩
  · exact (frame_apart_buffer payload k b last c).mono (inside_self _ _) (show Inside BUFFER 8 BUFFER 24 by decide)
  · exact Apart.symm (apart_of_le (a := MESSAGE_ADDR) (b := align (0x0081DD84 - 16)) (by decide) (by decide))
  · exact apart_of_le (a := align (0x0081DD84 - 16)) (b := INPUT_MAILBOX_ADDR) (by decide) (by decide)
  · exact apart_buffer (frame_apart_buffer payload k b last c) (by omega)
  · exact (apart_buffer mailbox_apart_buffer.symm (by omega)).symm

theorem undeclared_behind (payload : Bytes) (k : Nat) (b : BitVec 8) (last : Word) (c : BitVec 8) :
    Undeclared (Behind payload) (staleMachine payload k b last c) payload where
  declared _ hx hs := hs.2 hx
  frame x hx hs := frame_apart_buffer payload k b last c x hx hs.1
  digits x hx hs := digits_apart_buffer x hx hs.1
  message x hx hs := apart_of_le (a := MESSAGE_ADDR) (b := BUFFER) (by decide) (by decide) x hx hs.1
  mailbox x hx hs := mailbox_apart_buffer x hs.1 hx
  window x hx hs := apart_of_le (a := BUFFER) (b := SAFE_RAM_START) (by decide) (by decide) x hs.1 hx

/-- What another packet has left there is no part of this one. -/
theorem agree_stale (h : StaleAt payload k last) (b b' : BitVec 8) :
    Agree [] (Behind payload) (staleMachine payload k b last c) (staleMachine payload k b' last c) := by
  refine ⟨fun _ _ => rfl, fun _ => rfl, rfl, rfl, fun x hx => ?_⟩
  have hk : x ≠ BUFFER + 6 + BitVec.ofNat 32 k := by
    have hb := h.behind
    have hb18 := h.buffer
    rintro rfl
    apply hx
    constructor
    · simp only [Within, BUFFER]
      bv_omega
    · simp only [Within, BUFFER]
      bv_omega
  change staleMem payload k b last c x = staleMem payload k b' last c x
  simp only [staleMem, if_neg hk]

/-! ### What is loaded there -/

/-- The callback's own frame is elsewhere. -/
theorem pushed_stale {x : Word} (hx : ¬ Within x (align (0x0081DD84 - 16)) 16) :
    pushed (staleMachine payload k b last c) x = staleMem payload k b last c x :=
  storeWords_of_not_within hx

theorem digitTable_pushed_stale : DigitTable (pushed (staleMachine payload k b last c)) := by
  intro d hd
  rw [← digitTable_staleMem payload k b last c d hd]
  refine pushed_stale fun hw => ?_
  exact apart_of_le (a := HEX_TABLE_ADDR) (b := align (0x0081DD84 - 16)) (by decide) (by decide) _
    (within_add hd (by omega)) hw

/-- The byte at `i` of what is taken for the packet. -/
def staleByte (payload : Bytes) (k : Nat) (b : BitVec 8) (i : Nat) : BitVec 8 := if i = k then b else payload.getD i 0

/-- The operand at `i` of what is taken for the packet. -/
def staleWord (payload : Bytes) (k : Nat) (b : BitVec 8) (i : Nat) : Word :=
  staleByte payload k b (i + 3) ++ staleByte payload k b (i + 2) ++ staleByte payload k b (i + 1) ++
    staleByte payload k b i

theorem load32_stale (h : StaleAt payload k last) {i : Nat} (hi : i + 3 < 18) :
    load32 (pushed (staleMachine payload k b last c)) (BUFFER + 6 + BitVec.ofNat 32 i) = staleWord payload k b i := by
  have byte : ∀ j < 18, pushed (staleMachine payload k b last c) (BUFFER + 6 + BitVec.ofNat 32 j) =
      staleByte payload k b j := by
    intro j hj
    rw [pushed_stale, staleMem_buffer h hj, staleByte]
    intro hw
    refine frame_apart_buffer payload k b last c _ hw ?_
    simp only [Within, BUFFER]
    bv_omega
  rw [load32_packet, byte _ (by omega), byte _ (by omega), byte _ (by omega), byte _ (by omega), staleWord]

private theorem getD_eq_zero {i : Nat} (h : payload.length ≤ i) : payload.getD i 0 = 0 := by
  rw [List.getD_eq_getElem?_getD, List.getElem?_eq_none h]
  rfl

/-- An address whose highest byte comes from behind the packet. -/
theorem toNat_staleWord_address (payload : Bytes) (b : BitVec 8) : (staleWord payload 5 b 2).toNat =
    (payload.getD 2 0).toNat + 2 ^ 8 * (payload.getD 3 0).toNat + 2 ^ 16 * (payload.getD 4 0).toNat + 2 ^ 24 * b.toNat := by
  rw [staleWord, toNat_append_bytes]
  rfl

/-- With a zero there it lies below the SDRAM window, with a one in it. -/
theorem address_zero (payload : Bytes) : ¬ SAFE_RAM_START ≤ staleWord payload 5 0 2 := by
  have hw := toNat_staleWord_address payload 0
  rw [show (0 : BitVec 8).toNat = 0 from rfl] at hw
  simp only [SAFE_RAM_START]
  bv_omega

theorem address_one (payload : Bytes) : SAFE_RAM_START ≤ staleWord payload 5 1 2 ∧ staleWord payload 5 1 2 < SAFE_RAM_END := by
  have hw := toNat_staleWord_address payload 1
  rw [show (1 : BitVec 8).toNat = 1 from rfl] at hw
  simp only [SAFE_RAM_START, SAFE_RAM_END]
  constructor
  · bv_omega
  · bv_omega

/-- A length whose highest byte comes from behind the packet. -/
theorem toNat_staleWord_length (payload : Bytes) (b : BitVec 8) : (staleWord payload 9 b 6).toNat =
    (payload.getD 6 0).toNat + 2 ^ 8 * (payload.getD 7 0).toNat + 2 ^ 16 * (payload.getD 8 0).toNat + 2 ^ 24 * b.toNat := by
  rw [staleWord, toNat_append_bytes]
  rfl

theorem staleWord_nine_length (h : payload.length ≤ 9) : staleWord payload 9 0 6 = operand payload 6 := by
  rw [operand, getD_eq_zero h]
  rfl

/-- The last argument of a call, with its highest byte from behind the packet. -/
theorem toNat_staleWord_argument (b : BitVec 8) : (staleWord payload 17 b 14).toNat =
    (payload.getD 14 0).toNat + 2 ^ 8 * (payload.getD 15 0).toNat + 2 ^ 16 * (payload.getD 16 0).toNat +
      2 ^ 24 * b.toNat := by
  rw [staleWord, toNat_append_bytes]
  rfl

theorem staleWord_nine_operand (b : BitVec 8) : staleWord payload 9 b 2 = operand payload 2 := rfl

/-- A byte of the SDRAM window. -/
theorem pushed_stale_window (h : StaleAt payload k last) {x : Word} (hx : Within x SAFE_RAM_START 0x01000000) :
    pushed (staleMachine payload k b last c) x = if x = last then c else 0 := by
  simp only [Within, SAFE_RAM_START] at hx
  rw [pushed_stale, staleMem_else h]
  · simp only [Within, HEX_TABLE_ADDR]
    bv_omega
  · simp only [Within, BUFFER]
    bv_omega
  · rw [show align (0x0081DD84 - 16) = (0x0081DD74 : Word) by decide]
    simp only [Within]
    bv_omega

/-! ### The same effect, whatever the byte -/

theorem blind_setR0 (S : Word → Prop) : Blind S fun _ m => m.set .r0 0 := fun _ _ _ _ h => h.set_mono .r0 rfl

/-- A reply is read back. -/
theorem reply_inj {μ ν : Mem} {v w : Word} {a a' : Access} {D : List Loc} {S : Word → Prop} (hμ : DigitTable μ)
    (hν : DigitTable ν) (hS : ∀ x, Within x MESSAGE_ADDR 9 → ¬ S x) (ha : Reply μ v a) (ha' : Reply ν w a')
    (h : SameAccess D S a a') : v = w := by
  obtain ⟨reg, ρ, rfl⟩ := ha.eq_call
  obtain ⟨reg', ρ', rfl⟩ := ha'.eq_call
  obtain ⟨-, -, rfl⟩ := ha
  obtain ⟨-, -, rfl⟩ := ha'
  have hbytes := (h.2.2.sameOn hS).bytesAt (by omega)
  have read : ∀ (μ : Mem) (v : Word), bytesAt (storeBytes μ MESSAGE_ADDR (hexText μ HEX_TABLE_ADDR v ++ [0]))
      MESSAGE_ADDR 9 = hexText μ HEX_TABLE_ADDR v ++ [0] := fun μ v =>
    bytesAt_storeBytes (hexText μ HEX_TABLE_ADDR v ++ [0]) (by simp)
  rw [read, read, hexText_of_digitTable hμ, hexText_of_digitTable hν] at hbytes
  exact map_digitByte_inj (List.append_cancel_right hbytes)

/-- The calls made with one byte behind the packet and with another. -/
theorem calls_stale (hact : ActsOnPacket payload) (h : StaleAt payload k last) (b b' : BitVec 8) : ∃ M M' n n' e e',
    monitorRun (fun _ m => m.set .r0 0) n (staleMachine payload k b last c) = some (e, M) ∧
    monitorRun (fun _ m => m.set .r0 0) n' (staleMachine payload k b' last c) = some (e', M') ∧
    List.Forall₂ (SameAccess [.reg .r6] (Behind payload)) (M.log.filter Access.isCall)
      (M'.log.filter Access.isCall) := by
  obtain ⟨n, e, M, hrun, n', e', M', hrun', heff⟩ := hact (Behind payload) _ (staleMachine payload k b last c)
    (staleMachine payload k b' last c) preserves_setR0 (blind_setR0 _) (packetEntry_stale h)
    (undeclared_behind payload k b last c) (agree_stale h b b') rfl rfl
  exact ⟨M, M', n, n', e, e', hrun, hrun', heff.calls⟩

/-- The CRC replied is the same. -/
theorem crcReply_stale (hact : ActsOnPacket payload) (h : StaleAt payload k last) (b b' : BitVec 8)
    (hsub : payload.take 2 = [0x1C, 0x0C]) :
    crcReply (staleMachine payload k b last c) = crcReply (staleMachine payload k b' last c) := by
  obtain ⟨M, M', n, n', e, e', hrun, hrun', hcalls⟩ := calls_stale (c := c) hact h b b'
  obtain ⟨n₁, e₁, M₁, hrun₁, a, ha, hreply⟩ :=
    wpMonitor_crcOperands preserves_setR0 (packetEntry_stale (b := b) (c := c) h) rfl hsub
  obtain ⟨n₂, e₂, M₂, hrun₂, a', ha', hreply'⟩ :=
    wpMonitor_crcOperands preserves_setR0 (packetEntry_stale (b := b') (c := c) h) rfl hsub
  obtain ⟨-, rfl⟩ := Prod.mk.inj (monitorRun_det hrun hrun₁)
  obtain ⟨-, rfl⟩ := Prod.mk.inj (monitorRun_det hrun' hrun₂)
  rw [ha, ha'] at hcalls
  have hsame := (List.forall₂_cons.mp hcalls).1
  exact reply_inj digitTable_pushed_stale digitTable_pushed_stale
    (undeclared_behind payload k b last c).message hreply hreply' hsame

theorem crcReply_eq (h : StaleAt payload k last) : crcReply (staleMachine payload k b last c) =
    if SafeRange (staleWord payload k b 2) (staleWord payload k b 6) then
      crc32 (bytesAt (pushed (staleMachine payload k b last c)) (staleWord payload k b 2) (staleWord payload k b 6).toNat)
    else 0xBAD00001 := by
  rw [crcReply, show (staleMachine payload k b last c).reg .r0 = BUFFER from rfl, load32_stale h (by omega),
    load32_stale h (by omega)]

private theorem bytesAt_concat (μ : Mem) (a : Word) (n : Nat) :
    bytesAt μ a (n + 1) = bytesAt μ a n ++ [μ (a + BitVec.ofNat 32 n)] := by
  induction n generalizing a with
  | zero => simp [bytesAt]
  | succ n ih =>
    have : a + 1 + BitVec.ofNat 32 n = a + BitVec.ofNat 32 (n + 1) := by bv_omega
    rw [bytesAt, ih, this]
    rfl

/-- A range that is not empty has different CRCs for different contents of its last byte. -/
theorem crc32_last {a : Word} {n : Nat} (ha : Within a SAFE_RAM_START 0x01000000)
    (hn : a.toNat + (n + 1) ≤ 0x02000000) (h : StaleAt payload k (a + BitVec.ofNat 32 n)) :
    crc32 (bytesAt (pushed (staleMachine payload k b (a + BitVec.ofNat 32 n) 0)) a (n + 1)) ≠
      crc32 (bytesAt (pushed (staleMachine payload k b (a + BitVec.ofNat 32 n) 1)) a (n + 1)) := by
  have hin : ∀ i ≤ n, Within (a + BitVec.ofNat 32 i) SAFE_RAM_START 0x01000000 := by
    intro i hi
    simp only [Within, SAFE_RAM_START] at ha ⊢
    bv_omega
  have hsame : SameOn (pushed (staleMachine payload k b (a + BitVec.ofNat 32 n) 0))
      (pushed (staleMachine payload k b (a + BitVec.ofNat 32 n) 1)) a n := by
    intro x hx
    have hxa : x = a + BitVec.ofNat 32 (x - a).toNat := by bv_omega
    have hxn : x ≠ a + BitVec.ofNat 32 n := by
      rintro rfl
      simp only [Within] at hx
      bv_omega
    have hw := hin (x - a).toNat (Nat.le_of_lt hx)
    rw [← hxa] at hw
    rw [pushed_stale_window h hw, pushed_stale_window h hw, if_neg hxn, if_neg hxn]
  have hlast := hin n (Nat.le_refl n)
  rw [bytesAt_concat, bytesAt_concat, hsame.bytesAt (by omega), pushed_stale_window h hlast, pushed_stale_window h hlast,
    if_pos rfl, if_pos rfl, crc32, crc32, Crc.run_concat, Crc.run_concat]
  intro he
  have hbyte := Crc.byte_injective (by decide) (by omega) _ (BitVec.not_inj.mp he)
  exact absurd hbyte (by decide)

/-- A CRC query for which every byte counts has its operands, or is refused by what it has of them. -/
theorem decides_crc (hact : ActsOnPacket payload) (hsub : payload.take 2 = [0x1C, 0x0C]) : 10 ≤ payload.length ∨
    6 ≤ payload.length ∧ ¬ SafeRange (operand payload 2) (operand payload 6) := by
  by_contra hno
  rw [not_or] at hno
  by_cases h6 : 6 ≤ payload.length
  · -- the highest byte of the length is not declared: 0 leaves the range in the window, 0xFF takes it out
    have hsafe : SafeRange (operand payload 2) (operand payload 6) := by
      by_contra hs
      exact hno.2 ⟨h6, hs⟩
    have hcrc : ∀ last : Word, StaleAt payload 9 last → ∀ c : BitVec 8,
        crc32 (bytesAt (pushed (staleMachine payload 9 0 last c)) (operand payload 2) (operand payload 6).toNat) =
          0xBAD00001 := by
      intro last h c
      have heq := crcReply_stale (c := c) hact h 0 0xFF hsub
      have hout : ¬ SafeRange (operand payload 2) (staleWord payload 9 0xFF 6) := by
        rintro ⟨hlo, hhi⟩
        have hw := toNat_staleWord_length payload 0xFF
        rw [show (0xFF : BitVec 8).toNat = 255 from rfl] at hw
        simp only [SAFE_RAM_START, SAFE_RAM_END] at hlo hhi
        bv_omega
      rwa [crcReply_eq h, crcReply_eq h, staleWord_nine_operand, staleWord_nine_operand,
        staleWord_nine_length (by omega), if_pos hsafe, if_neg hout] at heq
    by_cases hzero : (operand payload 6).toNat = 0
    · have heq := hcrc SAFE_RAM_START ⟨by omega, by omega, by decide⟩ 0
      rw [hzero] at heq
      change crc32 [] = (0xBAD00001 : Word) at heq
      exact absurd heq (by decide)
    · obtain ⟨n, hn⟩ := Nat.exists_eq_succ_of_ne_zero hzero
      obtain ⟨hlo, hhi⟩ := hsafe
      rw [hn] at hhi
      simp only [SAFE_RAM_START, SAFE_RAM_END] at hlo hhi
      have ha : Within (operand payload 2) SAFE_RAM_START 0x01000000 := by
        simp only [Within, SAFE_RAM_START]
        bv_omega
      have hlast : Within (operand payload 2 + BitVec.ofNat 32 n) SAFE_RAM_START 0x01000000 := by
        simp only [Within, SAFE_RAM_START]
        bv_omega
      have h : StaleAt payload 9 (operand payload 2 + BitVec.ofNat 32 n) := ⟨by omega, by omega, hlast⟩
      have h0 := hcrc _ h 0
      have h1 := hcrc _ h 1
      rw [hn] at h0 h1
      exact crc32_last ha (by bv_omega) h (h0.trans h1.symm)
  · -- the highest byte of the address is not declared: 0 is refused, 1 begins an empty range
    have h : StaleAt payload 5 SAFE_RAM_START := ⟨by omega, by omega, by decide⟩
    have heq := crcReply_stale (c := 0) hact h 0 1 hsub
    have hzero : (staleWord payload 5 1 6).toNat = 0 := by
      rw [staleWord, toNat_append_bytes]
      simp only [staleByte]
      rw [if_neg (by omega), if_neg (by omega), if_neg (by omega), if_neg (by omega), getD_eq_zero (by omega),
        getD_eq_zero (by omega), getD_eq_zero (by omega), getD_eq_zero (by omega)]
      rfl
    have hsafe : SafeRange (staleWord payload 5 1 2) (staleWord payload 5 1 6) := by
      have hone := address_one payload
      refine ⟨hone.1, ?_⟩
      rw [hzero]
      bv_omega
    rw [crcReply_eq h, crcReply_eq h, if_neg fun hs => address_zero payload hs.1, if_pos hsafe, hzero] at heq
    change (0xBAD00001 : Word) = crc32 [] at heq
    exact absurd heq (by decide)

/-- A call for which every byte counts has its operands, or is refused by what it has of the address. -/
theorem decides_call (hact : ActsOnPacket payload) (hsub : payload.take 2 = [0x1C, 0x0D]) :
    18 ≤ payload.length ∨ 3 ≤ payload.length ∧ ¬ 4 ∣ (payload.getD 2 0).toNat ∨
      6 ≤ payload.length ∧ ¬ SecondStage (operand payload 2) := by
  have run : ∀ {k : Nat} {last : Word} (b : BitVec 8), StaleAt payload k last → ∃ n e M,
      monitorRun (fun _ m => m.set .r0 0) n (staleMachine payload k b last 0) = some (e, M) ∧
      (¬ SecondStage (staleWord payload k b 2) → ∃ c, M.log.filter Access.isCall = [c]) ∧
      (SecondStage (staleWord payload k b 2) → ∃ t reg μ c, M.log.filter Access.isCall = [.call t reg μ, c] ∧
        reg .r2 = staleWord payload k b 14) := by
    intro k last b h
    obtain ⟨n, e, M, hrun, hM⟩ := wpMonitor_callOperands preserves_setR0 (packetEntry_stale (b := b) (c := 0) h) rfl hsub
    rw [show (staleMachine payload k b last 0).reg .r0 = BUFFER from rfl, load32_stale h (by omega),
      load32_stale h (by omega)] at hM
    exact ⟨n, e, M, hrun, hM⟩
  by_contra hno
  rw [not_or, not_or] at hno
  by_cases h6 : 6 ≤ payload.length
  · -- the highest byte of the last argument is not declared
    have h : StaleAt payload 17 SAFE_RAM_START := ⟨by omega, by omega, by decide⟩
    have hst : SecondStage (operand payload 2) := by
      by_contra hs
      exact hno.2.2 ⟨h6, hs⟩
    obtain ⟨M, M', n, n', e, e', hrun, hrun', hcalls⟩ := calls_stale (c := 0) hact h 0 1
    obtain ⟨n₁, e₁, M₁, hrun₁, -, hcall⟩ := run 0 h
    obtain ⟨n₂, e₂, M₂, hrun₂, -, hcall'⟩ := run 1 h
    obtain ⟨-, rfl⟩ := Prod.mk.inj (monitorRun_det hrun hrun₁)
    obtain ⟨-, rfl⟩ := Prod.mk.inj (monitorRun_det hrun' hrun₂)
    obtain ⟨t, reg, μ, c, hC, hr2⟩ := hcall hst
    obtain ⟨t', reg', μ', c', hC', hr2'⟩ := hcall' hst
    rw [hC, hC'] at hcalls
    have hreg := (List.forall₂_cons.mp hcalls).1.2.1 .r2 (by decide)
    rw [hr2, hr2'] at hreg
    have htop := congrArg BitVec.toNat hreg
    rw [toNat_staleWord_argument, toNat_staleWord_argument, show (0 : BitVec 8).toNat = 0 from rfl,
      show (1 : BitVec 8).toNat = 1 from rfl] at htop
    omega
  · -- the highest byte of the address is not declared: 0 is refused, 1 is called
    have h : StaleAt payload 5 SAFE_RAM_START := ⟨by omega, by omega, by decide⟩
    have hst : SecondStage (staleWord payload 5 1 2) := by
      refine ⟨?_, address_one payload⟩
      rw [toNat_staleWord_address]
      by_cases h3 : 3 ≤ payload.length
      · have h4 : 4 ∣ (payload.getD 2 0).toNat := by
          by_contra hn
          exact hno.2.1 ⟨h3, hn⟩
        omega
      · rw [getD_eq_zero (i := 2) (by omega), show (0 : BitVec 8).toNat = 0 from rfl]
        omega
    obtain ⟨M, M', n, n', e, e', hrun, hrun', hcalls⟩ := calls_stale (c := 0) hact h 0 1
    obtain ⟨n₁, e₁, M₁, hrun₁, hrefused, -⟩ := run 0 h
    obtain ⟨n₂, e₂, M₂, hrun₂, -, hcall⟩ := run 1 h
    obtain ⟨-, rfl⟩ := Prod.mk.inj (monitorRun_det hrun hrun₁)
    obtain ⟨-, rfl⟩ := Prod.mk.inj (monitorRun_det hrun' hrun₂)
    obtain ⟨c, hC⟩ := hrefused fun hs => address_zero payload hs.2.1
    obtain ⟨t, reg, μ, c', hC', -⟩ := hcall hst
    rw [hC, hC'] at hcalls
    exact absurd hcalls.length_eq (by simp)

end

/-- The callback acts only on bytes that the packet contains exactly if these decide: a CRC query or a call of a second stage
has its operands, or what it has of them is enough to refuse it. -/
theorem actsOnPacket_iff (payload : Bytes) : ActsOnPacket payload ↔ Decides payload :=
  ⟨fun h => ⟨decides_crc h, decides_call h⟩, actsOnPacket_of_decides⟩

/-- A call without any operand enters a second stage if an earlier packet has left its address. -/
theorem call_without_operands : ¬ ActsOnPacket [0x1C, 0x0D] := fun h =>
  absurd (decides_call h rfl) (by decide)

end ShadowMsm
