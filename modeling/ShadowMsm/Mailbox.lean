import ShadowMsm.Lib.RingBuffer
import ShadowMsm.Stage0.Input

/-!
# The input mailbox

The 268 bytes that carry host input from the monitor to Linux: the producer is the mailbox extension of the callback
(`Stage0.inputMem`), the consumer and the reset are C functions of the kernel's timer driver.  Each of the three is an
operation of a ring buffer with 256 slots.
-/

namespace ShadowMsm

open Arm Stage0

/-! ### The kernel's side -/

def SHADOW_MSM_INPUT_MAILBOX : Word := 0x008FF800
def SHADOW_MSM_INPUT_MAGIC : Word := 0x534D494E
def SHADOW_MSM_INPUT_RING_SIZE : Word := 256
def SHADOW_MSM_INPUT_RING_MASK : Word := SHADOW_MSM_INPUT_RING_SIZE - 1

/-- The loop of `shadow_msm_diag_receive`: the bytes copied to the caller and the tail reached. -/
def drain (μ : Mem) (head tail : Word) : Nat → List (BitVec 8) × Word
  | 0 => ([], tail)
  | limit + 1 =>
    if tail ≠ head then
      let (bytes, tail') := drain μ head ((tail + 1) &&& SHADOW_MSM_INPUT_RING_MASK) limit
      (μ (SHADOW_MSM_INPUT_MAILBOX + 12 + tail) :: bytes, tail')
    else ([], tail)

/-- `shadow_msm_diag_receive` without the dispatcher iteration: the bytes for the caller, and memory. -/
def shadowMsmDiagReceive (μ : Mem) (limit : Nat) : List (BitVec 8) × Mem :=
  if load32 μ SHADOW_MSM_INPUT_MAILBOX = SHADOW_MSM_INPUT_MAGIC then
    let head := load32 μ (SHADOW_MSM_INPUT_MAILBOX + 4) &&& SHADOW_MSM_INPUT_RING_MASK
    let tail := load32 μ (SHADOW_MSM_INPUT_MAILBOX + 8) &&& SHADOW_MSM_INPUT_RING_MASK
    let (bytes, tail') := drain μ head tail limit
    (bytes, if bytes.length ≠ 0 then store32 μ (SHADOW_MSM_INPUT_MAILBOX + 8) tail' else μ)
  else ([], μ)

def shadowMsmDiagInputReset (μ : Mem) : Mem :=
  store32 (store32 (store32 μ (SHADOW_MSM_INPUT_MAILBOX + 4) 0) (SHADOW_MSM_INPUT_MAILBOX + 8) 0)
    SHADOW_MSM_INPUT_MAILBOX SHADOW_MSM_INPUT_MAGIC

/-! ### The ring in memory -/

/-- A mailbox in use. -/
structure Live (μ : Mem) : Prop where
  magic : mailboxMagic μ = INPUT_MAILBOX_MAGIC
  head_lt : (mailboxHead μ).toNat < 256
  tail_lt : (mailboxTail μ).toNat < 256

theorem live_iff {μ : Mem} : Live μ ↔ mailboxMagic μ = INPUT_MAILBOX_MAGIC ∧ MailboxOk μ :=
  ⟨fun h => ⟨h.magic, fun _ => ⟨h.head_lt, h.tail_lt⟩⟩, fun ⟨h, ho⟩ => ⟨h, (ho h).1, (ho h).2⟩⟩

instance (μ : Mem) : Decidable (Live μ) := decidable_of_iff _ live_iff.symm

/-- The ring of `μ` with the given indices. -/
def ringOf (μ : Mem) (head tail : Word) (hh : head.toNat < 256) (ht : tail.toNat < 256) :
    RingBuffer (BitVec 8) 256 where
  slot := fun i => if i < 256 then μ (RING_ADDR + BitVec.ofNat 32 i) else 0
  head := head.toNat
  tail := tail.toNat
  head_lt := hh
  tail_lt := ht

/-- The bytes waiting in the mailbox; none if it is not in use. -/
def mailboxContents (μ : Mem) : List (BitVec 8) :=
  if h : Live μ then (ringOf μ (mailboxHead μ) (mailboxTail μ) h.head_lt h.tail_lt).contents else []

theorem mailboxContents_of_live {μ : Mem} (h : Live μ) :
    mailboxContents μ = (ringOf μ (mailboxHead μ) (mailboxTail μ) h.head_lt h.tail_lt).contents :=
  dif_pos h

private theorem toNat_and_ringMask (x : Word) : (x &&& INPUT_RING_MASK).toNat = x.toNat % 256 := by
  rw [BitVec.toNat_and, show INPUT_RING_MASK.toNat = 2 ^ 8 - 1 from rfl, Nat.and_two_pow_sub_one_eq_mod]

private theorem and_ringMask {x : Word} (h : x.toNat < 256) : x &&& INPUT_RING_MASK = x := by
  apply BitVec.eq_of_toNat_eq
  rw [toNat_and_ringMask, Nat.mod_eq_of_lt h]

private theorem toNat_next {x : Word} (h : x.toNat < 256) :
    ((x + 1) &&& INPUT_RING_MASK).toNat = (x.toNat + 1) % 256 := by
  rw [toNat_and_ringMask, show (x + 1).toNat = x.toNat + 1 by bv_omega]

/-- Equal rings have equal slots and indices. -/
private theorem ring_ext {r s : RingBuffer (BitVec 8) 256} (hs : r.slot = s.slot) (hh : r.head = s.head)
    (ht : r.tail = s.tail) : r = s := by
  cases r
  cases s
  simp_all

/-- The mailbox is what it says on its own 268 bytes. -/
theorem mailbox_congr {μ ν : Mem} (h : SameOn μ ν INPUT_MAILBOX_ADDR 268) :
    (Live μ ↔ Live ν) ∧ mailboxContents μ = mailboxContents ν := by
  obtain ⟨h0, h4, h8⟩ := mailboxFields_congr h
  have hlive : Live μ ↔ Live ν := by rw [live_iff, live_iff, MailboxOk, MailboxOk, h0, h4, h8]
  refine ⟨hlive, ?_⟩
  by_cases hl : Live μ
  · rw [mailboxContents_of_live hl, mailboxContents_of_live (hlive.mp hl)]
    refine congrArg _ (ring_ext (funext fun i => ?_) (congrArg BitVec.toNat h4) (congrArg BitVec.toNat h8))
    simp only [ringOf]
    split
    · rename_i hi
      exact h _ ((inside_ring (x := BitVec.ofNat 32 i) (by bv_omega)).within (within_self (by omega)))
    · rfl
  · rw [mailboxContents, mailboxContents, dif_neg hl, dif_neg (hlive.not.mp hl)]

/-! ### The producer -/

/-- Storing a byte at the head and moving the head is a `push`. -/
private theorem ringOf_store {μ : Mem} {head tail : Word} (hh : head.toNat < 256) (ht : tail.toNat < 256) (b : BitVec 8) :
    ringOf (store8 μ (RING_ADDR + head) b) ((head + 1) &&& INPUT_RING_MASK) tail (toNat_ringMask_lt _) ht =
      (ringOf μ head tail hh ht).push b := by
  refine ring_ext (funext fun i => ?_) (toNat_next hh) rfl
  simp only [ringOf, RingBuffer.push]
  by_cases hi : i = head.toNat
  · subst hi
    simp [hh, store8]
  · rw [Function.update_of_ne hi]
    split
    · rw [store8_ne]
      intro he
      have : BitVec.ofNat 32 i = head := by bv_omega
      bv_omega
    · rfl

/-- `mailbox_loop` is `pushAll`. -/
theorem ringOf_copyIn {μ : Mem} (src : Word) {head tail : Word} (hh : head.toNat < 256) (ht : tail.toNat < 256)
    {bs : List (BitVec 8)} (hlen : bs.length ≤ 64) (hsrc : Apart src bs.length INPUT_MAILBOX_ADDR 268)
    (hbs : ∀ i (hi : i < bs.length), μ (src + BitVec.ofNat 32 i) = bs[i]) :
    ∃ hh', ringOf (copyIn μ src head tail bs.length).1 (copyIn μ src head tail bs.length).2 tail hh' ht =
      (ringOf μ head tail hh ht).pushAll bs := by
  induction bs generalizing μ src head with
  | nil => exact ⟨hh, rfl⟩
  | cons b bs ih =>
    have hfull : (ringOf μ head tail hh ht).IsFull ↔ (head + 1) &&& INPUT_RING_MASK = tail := by
      rw [RingBuffer.IsFull, ← BitVec.toNat_inj, toNat_next hh]
      rfl
    have hb : μ src = b := by
      rw [← BitVec.add_zero src]
      exact hbs 0 (by simp)
    rw [List.length_cons, copyIn, RingBuffer.pushAll]
    by_cases hf : (head + 1) &&& INPUT_RING_MASK = tail
    · rw [if_pos hf, if_pos (hfull.mpr hf)]
      exact ⟨hh, rfl⟩
    · rw [if_neg hf, if_neg (hfull.not.mpr hf), hb, ← ringOf_store hh ht b]
      simp only [List.length_cons] at hlen hsrc hbs
      have hsub : Inside (src + 1) bs.length src (bs.length + 1) := by
        simp only [Inside]
        bv_omega
      refine ih _ (toNat_ringMask_lt _) (by omega) (hsrc.mono hsub (inside_self _ _)) fun i hi => ?_
      have hi1 : src + 1 + BitVec.ofNat 32 i = src + BitVec.ofNat 32 (i + 1) := by bv_omega
      rw [hi1, store8_ne]
      · exact hbs (i + 1) (by omega)
      · intro he
        refine hsrc _ (within_add (i := i + 1) (by omega) (by omega)) ?_
        rw [he]
        exact (inside_ring hh).within (within_self (by omega))

/-! ### Fields under the stores to the other fields -/

section fields

variable (μ : Mem) (v : Word)

private theorem load_store {a b : Word} (h : a.toNat + 4 ≤ b.toNat ∨ b.toNat + 4 ≤ a.toNat)
    (ha : a.toNat + 4 ≤ 2 ^ 32) (hb : b.toNat + 4 ≤ 2 ^ 32) : load32 (store32 μ b v) a = load32 μ a := by
  refine load32_store32_of_apart ?_
  rcases h with h | h
  · exact apart_of_le h hb
  · exact (apart_of_le h ha).symm

theorem magic_storeMagic : mailboxMagic (store32 μ INPUT_MAILBOX_ADDR v) = v := load32_store32 μ _ v
theorem magic_storeHead : mailboxMagic (store32 μ (INPUT_MAILBOX_ADDR + 4) v) = mailboxMagic μ :=
  load_store μ v (by decide) (by decide) (by decide)
theorem magic_storeTail : mailboxMagic (store32 μ (INPUT_MAILBOX_ADDR + 8) v) = mailboxMagic μ :=
  load_store μ v (by decide) (by decide) (by decide)

theorem head_storeMagic : mailboxHead (store32 μ INPUT_MAILBOX_ADDR v) = mailboxHead μ :=
  load_store μ v (by decide) (by decide) (by decide)
theorem head_storeHead : mailboxHead (store32 μ (INPUT_MAILBOX_ADDR + 4) v) = v := load32_store32 μ _ v
theorem head_storeTail : mailboxHead (store32 μ (INPUT_MAILBOX_ADDR + 8) v) = mailboxHead μ :=
  load_store μ v (by decide) (by decide) (by decide)

theorem tail_storeMagic : mailboxTail (store32 μ INPUT_MAILBOX_ADDR v) = mailboxTail μ :=
  load_store μ v (by decide) (by decide) (by decide)
theorem tail_storeHead : mailboxTail (store32 μ (INPUT_MAILBOX_ADDR + 4) v) = mailboxTail μ :=
  load_store μ v (by decide) (by decide) (by decide)
theorem tail_storeTail : mailboxTail (store32 μ (INPUT_MAILBOX_ADDR + 8) v) = v := load32_store32 μ _ v

/-- The header is not part of the ring. -/
theorem ringOf_storeHeader {a : Word} (ha : Inside a 4 INPUT_MAILBOX_ADDR 12) {head tail : Word}
    (hh : head.toNat < 256) (ht : tail.toNat < 256) : ringOf (store32 μ a v) head tail hh ht = ringOf μ head tail hh ht := by
  refine ring_ext (funext fun i => ?_) rfl rfl
  simp only [ringOf]
  split
  · refine store32_of_not_within fun hw => ?_
    have := ha.within hw
    simp only [Within, RING_ADDR] at this
    bv_omega
  · rfl

end fields

theorem live_mailboxInit {μ : Mem} (h : MailboxOk μ) :
    Live (mailboxInit μ) ∧ mailboxContents (mailboxInit μ) = mailboxContents μ := by
  rw [mailboxInit]
  split
  · rename_i hm
    exact ⟨live_iff.mpr ⟨hm, h⟩, rfl⟩
  · rename_i hm
    generalize hν : store32 (store32 (store32 μ INPUT_MAILBOX_ADDR INPUT_MAILBOX_MAGIC) (INPUT_MAILBOX_ADDR + 4) 0)
      (INPUT_MAILBOX_ADDR + 8) 0 = ν
    have h0 : mailboxMagic ν = INPUT_MAILBOX_MAGIC := by
      simp only [← hν, magic_storeTail, magic_storeHead, magic_storeMagic]
    have h4 : mailboxHead ν = 0 := by simp only [← hν, head_storeTail, head_storeHead]
    have h8 : mailboxTail ν = 0 := by simp only [← hν, tail_storeTail]
    have hl : Live ν := ⟨h0, by rw [h4]; decide, by rw [h8]; decide⟩
    refine ⟨hl, ?_⟩
    rw [mailboxContents_of_live hl, mailboxContents, dif_neg fun h' => hm h'.magic]
    exact RingBuffer.contents_of_isEmpty ((congrArg BitVec.toNat h8).trans (congrArg BitVec.toNat h4).symm)

/-- The packet the extension is given: its declared length and its bytes behind the two command bytes, as far as they are
looked at. -/
structure InputPacket (μ : Mem) (p : Word) (data : List (BitVec 8)) : Prop where
  length : (packetLength μ p).toNat = data.length + 2
  bytes : ∀ i (h : i < data.length), i < 64 → μ (p + 8 + BitVec.ofNat 32 i) = data[i]
  apart : Apart p 72 INPUT_MAILBOX_ADDR 268

private theorem mailboxInit_of_apart {μ : Mem} {x : Word} (h : ¬ Within x INPUT_MAILBOX_ADDR 268) :
    mailboxInit μ x = μ x := by
  have out : ∀ (ν : Mem) (off v : Word), off.toNat + 4 ≤ 268 → store32 ν (INPUT_MAILBOX_ADDR + off) v x = ν x :=
    fun ν off v ho => store32_of_not_within fun hw => h ((inside_box _ ho).within hw)
  rw [mailboxInit]
  split
  · rfl
  · rw [out _ 8 _ (by decide), out _ 4 _ (by decide)]
    exact out _ 0 _ (by decide)

/-- Storing the head of a ring that has been written to makes its items the contents. -/
private theorem contents_storeHead {μ : Mem} {head tail : Word} (hm : mailboxMagic μ = INPUT_MAILBOX_MAGIC)
    (hh : head.toNat < 256) (ht : tail.toNat < 256) (htail : mailboxTail μ = tail) :
    Live (store32 μ (INPUT_MAILBOX_ADDR + 4) head) ∧
      mailboxContents (store32 μ (INPUT_MAILBOX_ADDR + 4) head) = (ringOf μ head tail hh ht).contents := by
  have h0 : mailboxMagic (store32 μ (INPUT_MAILBOX_ADDR + 4) head) = INPUT_MAILBOX_MAGIC := by
    rw [magic_storeHead, hm]
  have h4 := head_storeHead μ head
  have h8 : mailboxTail (store32 μ (INPUT_MAILBOX_ADDR + 4) head) = tail := by rw [tail_storeHead, htail]
  have hl : Live (store32 μ (INPUT_MAILBOX_ADDR + 4) head) := ⟨h0, by rwa [h4], by rwa [h8]⟩
  refine ⟨hl, ?_⟩
  rw [mailboxContents_of_live hl, ← ringOf_storeHeader μ head (a := INPUT_MAILBOX_ADDR + 4) (by decide) hh ht]
  simp only [h4, h8]

/-- Copying into the ring changes no byte outside it. -/
private theorem copyIn_of_apart {μ : Mem} {src head tail x : Word} {n : Nat} (hh : head.toNat < 256)
    (h : ∀ y : Word, y.toNat < 256 → x ≠ RING_ADDR + y) : (copyIn μ src head tail n).1 x = μ x := by
  induction n generalizing μ src head with
  | zero => rfl
  | succ n ih =>
    rw [copyIn]
    split
    · rfl
    · rw [ih (toNat_ringMask_lt _), store8_ne (h head hh)]

private theorem copyIn_header (μ : Mem) (src : Word) {head : Word} (tail : Word) (n : Nat) (hh : head.toNat < 256) :
    SameOn (copyIn μ src head tail n).1 μ INPUT_MAILBOX_ADDR 12 := fun x hx => by
  refine copyIn_of_apart hh fun y hy he => ?_
  simp only [he, Within, RING_ADDR] at hx
  bv_omega

/-- The extension appends as much of the first 64 bytes of the packet as there is room for. -/
theorem mailboxContents_inputMem {μ : Mem} {p : Word} {data : List (BitVec 8)} (hok : MailboxOk μ)
    (hp : InputPacket μ p data) :
    Live (inputMem μ p) ∧
      mailboxContents (inputMem μ p) = mailboxContents μ ++ data.take (min 64 (255 - (mailboxContents μ).length)) := by
  obtain ⟨hlive, hcont⟩ := live_mailboxInit hok
  have hkeep : SameOn (mailboxInit μ) μ p 72 := fun x hx => mailboxInit_of_apart (hp.apart x hx)
  have hlen : packetLength (mailboxInit μ) p = packetLength μ p :=
    (hkeep.mono fun x hx => (inside_alignHalf (by decide) (by decide) (by decide)).within hx).load16
  rw [← hcont, inputMem]
  simp only [hlen]
  generalize mailboxInit μ = ν at *
  have hl := hp.length
  split
  · rename_i h2
    have : data.length = 0 := by bv_omega
    refine ⟨hlive, ?_⟩
    rw [List.length_eq_zero_iff.mp this]
    simp
  · rename_i h2
    have hcount : inputCount (packetLength μ p) = (data.take 64).length := by
      rw [inputCount, hl, List.length_take, show INPUT_PACKET_LIMIT.toNat = 64 from rfl]
      omega
    rw [hcount]
    have hle : (data.take 64).length ≤ 64 := by simp
    have hsub : Inside (p + 8) (data.take 64).length p 72 := by
      simp only [Inside]
      bv_omega
    obtain ⟨hh', hring⟩ := ringOf_copyIn (μ := ν) (p + 8) hlive.head_lt hlive.tail_lt hle
      (hp.apart.mono hsub (inside_self _ _)) fun i hi => by
        rw [hkeep _ (hsub.within (within_add hi (by omega))), List.getElem_take]
        rw [List.length_take] at hi
        exact hp.bytes i (by omega) (by omega)
    have hheader := copyIn_header ν (p + 8) (mailboxTail ν) (data.take 64).length hlive.head_lt
    have hm : mailboxMagic (copyIn ν (p + 8) (mailboxHead ν) (mailboxTail ν) (data.take 64).length).1 =
        INPUT_MAILBOX_MAGIC := by
      rw [← hlive.magic]
      exact (hheader.mono fun x hx => Inside.within (a := INPUT_MAILBOX_ADDR) (by decide) hx).load32
    have ht : mailboxTail (copyIn ν (p + 8) (mailboxHead ν) (mailboxTail ν) (data.take 64).length).1 =
        mailboxTail ν :=
      (hheader.mono fun x hx => Inside.within (a := INPUT_MAILBOX_ADDR + 8) (by decide) hx).load32
    obtain ⟨hl', hc'⟩ := contents_storeHead hm hh' hlive.tail_lt ht
    refine ⟨hl', hc'.trans ?_⟩
    rw [hring, RingBuffer.contents_pushAll, ← mailboxContents_of_live hlive, List.take_take, Nat.min_comm]

/-! ### The consumer and the reset -/

/-- The loop of `shadow_msm_diag_receive` is `popMany`. -/
theorem popMany_ringOf {μ : Mem} {head tail : Word} (hh : head.toNat < 256) (ht : tail.toNat < 256) (limit : Nat) :
    ∃ ht', (ringOf μ head tail hh ht).popMany limit =
      ((drain μ head tail limit).1, ringOf μ head (drain μ head tail limit).2 hh ht') := by
  induction limit generalizing tail with
  | zero => exact ⟨ht, rfl⟩
  | succ limit ih =>
    have hempty : (ringOf μ head tail hh ht).IsEmpty ↔ tail = head := by
      rw [RingBuffer.IsEmpty, ← BitVec.toNat_inj]
      rfl
    rw [drain, RingBuffer.popMany]
    by_cases he : tail = head
    · rw [if_neg (not_not.mpr he), if_pos (hempty.mpr he)]
      exact ⟨ht, rfl⟩
    · rw [if_pos he, if_neg (hempty.not.mpr he)]
      obtain ⟨ht', hpop⟩ := ih (toNat_ringMask_lt (tail + 1))
      have hnext : (ringOf μ head tail hh ht).pop =
          ringOf μ head ((tail + 1) &&& INPUT_RING_MASK) hh (toNat_ringMask_lt _) :=
        ring_ext rfl rfl (toNat_next ht).symm
      have hslot : (ringOf μ head tail hh ht).slot (ringOf μ head tail hh ht).tail = μ (RING_ADDR + tail) := by
        simp [ringOf, ht]
      refine ⟨ht', ?_⟩
      rw [hnext, hpop, hslot]
      rfl

/-- Receiving takes the oldest bytes, as many as asked for, and removes them. -/
theorem shadowMsmDiagReceive_eq {μ : Mem} (hok : MailboxOk μ) (limit : Nat) :
    (shadowMsmDiagReceive μ limit).1 = (mailboxContents μ).take limit ∧
      mailboxContents (shadowMsmDiagReceive μ limit).2 = (mailboxContents μ).drop limit ∧
      MailboxOk (shadowMsmDiagReceive μ limit).2 ∧
      mailboxMagic (shadowMsmDiagReceive μ limit).2 = mailboxMagic μ := by
  by_cases hm : mailboxMagic μ = INPUT_MAILBOX_MAGIC
  · have hl : Live μ := live_iff.mpr ⟨hm, hok⟩
    have h4 : mailboxHead μ &&& SHADOW_MSM_INPUT_RING_MASK = mailboxHead μ := and_ringMask hl.head_lt
    have h8 : mailboxTail μ &&& SHADOW_MSM_INPUT_RING_MASK = mailboxTail μ := and_ringMask hl.tail_lt
    have hrec : shadowMsmDiagReceive μ limit =
        ((drain μ (mailboxHead μ &&& SHADOW_MSM_INPUT_RING_MASK) (mailboxTail μ &&& SHADOW_MSM_INPUT_RING_MASK) limit).1,
          if (drain μ (mailboxHead μ &&& SHADOW_MSM_INPUT_RING_MASK) (mailboxTail μ &&& SHADOW_MSM_INPUT_RING_MASK)
            limit).1.length ≠ 0 then
          store32 μ (INPUT_MAILBOX_ADDR + 8) (drain μ (mailboxHead μ &&& SHADOW_MSM_INPUT_RING_MASK)
            (mailboxTail μ &&& SHADOW_MSM_INPUT_RING_MASK) limit).2 else μ) := if_pos hm
    rw [h4, h8] at hrec
    obtain ⟨ht', hpop⟩ := popMany_ringOf (μ := μ) hl.head_lt hl.tail_lt limit
    obtain ⟨htake, hdrop⟩ := RingBuffer.popMany_eq (ringOf μ _ _ hl.head_lt hl.tail_lt) limit
    rw [hpop] at htake hdrop
    rw [← mailboxContents_of_live hl] at htake hdrop
    rw [hrec]
    refine ⟨htake, ?_⟩
    simp only
    split
    · have hm' := (magic_storeTail μ (drain μ (mailboxHead μ) (mailboxTail μ) limit).2).trans hm
      have h4' := head_storeTail μ (drain μ (mailboxHead μ) (mailboxTail μ) limit).2
      have h8' := tail_storeTail μ (drain μ (mailboxHead μ) (mailboxTail μ) limit).2
      have hl' : Live (store32 μ (INPUT_MAILBOX_ADDR + 8) (drain μ (mailboxHead μ) (mailboxTail μ) limit).2) :=
        ⟨hm', by rw [h4']; exact hl.head_lt, by rw [h8']; exact ht'⟩
      refine ⟨?_, (live_iff.mp hl').2, magic_storeTail _ _⟩
      rw [mailboxContents_of_live hl', ← hdrop]
      rw [← ringOf_storeHeader μ (drain μ (mailboxHead μ) (mailboxTail μ) limit).2 (a := INPUT_MAILBOX_ADDR + 8)
        (by decide)]
      simp only [h4', h8']
    · rename_i h0
      refine ⟨?_, hok, rfl⟩
      -- nothing was taken: nothing was asked for, or nothing was there
      rw [not_not.mp h0 |> List.length_eq_zero_iff.mp, eq_comm, List.take_eq_nil_iff] at htake
      rcases htake with h | h
      · rw [h, List.drop_zero]
      · rw [h, List.drop_nil]
  · have hrec : shadowMsmDiagReceive μ limit = ([], μ) := if_neg hm
    rw [hrec, mailboxContents, dif_neg fun h : Live μ => hm h.magic]
    exact ⟨List.take_nil.symm, List.drop_nil.symm, hok, rfl⟩

/-- The reset empties the mailbox. -/
theorem live_shadowMsmDiagInputReset (μ : Mem) :
    Live (shadowMsmDiagInputReset μ) ∧ mailboxContents (shadowMsmDiagInputReset μ) = [] := by
  have h0 : mailboxMagic (shadowMsmDiagInputReset μ) = INPUT_MAILBOX_MAGIC := magic_storeMagic _ _
  have h4 : mailboxHead (shadowMsmDiagInputReset μ) = 0 :=
    (head_storeMagic _ _).trans ((head_storeTail _ _).trans (head_storeHead _ _))
  have h8 : mailboxTail (shadowMsmDiagInputReset μ) = 0 := (tail_storeMagic _ _).trans (tail_storeTail _ _)
  have hl : Live (shadowMsmDiagInputReset μ) := ⟨h0, by rw [h4]; decide, by rw [h8]; decide⟩
  refine ⟨hl, ?_⟩
  rw [mailboxContents_of_live hl]
  exact RingBuffer.contents_of_isEmpty ((congrArg BitVec.toNat h8).trans (congrArg BitVec.toNat h4).symm)

end ShadowMsm
