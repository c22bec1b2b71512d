import ShadowMsm.Linux.TtyOutput

/-!
# Writes to the monitor

`shadow_trace_write` and `shadow_tty_write` hand a buffer to the resident print routine in messages of up to 96
bytes. The routine takes a message for a C string, so a zero byte ends it early although the write counts it as
passed on: the count is right exactly when no zero byte is reached (`transmitted_iff`).
-/

namespace ShadowMsm.Linux

def SHADOW_MSM_TRACE_CHUNK : Nat := 96

/-- All that the print routine was given, message after message. -/
def transmitted (messages : List Bytes) : Bytes := messages.flatMap cString

/-- The loop of `shadow_trace_write`: the messages, and the count returned, or `-EFAULT`.  `fault` says of every
offset in the user buffer whether `copy_from_user` fails for the chunk that begins there. -/
def traceWriteFrom (fault : Nat → Bool) (total : Nat) (buffer : Bytes) : List Bytes × Option Nat :=
  if h : buffer = [] then ([], some total)
  else if fault total then ([], if total ≠ 0 then some total else none)
  else
    let count := min buffer.length SHADOW_MSM_TRACE_CHUNK
    let rest := traceWriteFrom fault (total + count) (buffer.drop count)
    ((buffer.take count ++ [0x00]) :: rest.1, rest.2)
termination_by buffer.length
decreasing_by
  have := List.length_pos_iff.mpr h
  rw [List.length_drop, SHADOW_MSM_TRACE_CHUNK]
  omega

/-- `shadow_trace_write`. -/
def shadowTraceWrite (fault : Nat → Bool) (buffer : Bytes) : List Bytes × Option Nat :=
  traceWriteFrom fault 0 buffer

/-- `shadow_tty_write`: the messages and the count returned. -/
def shadowTtyWrite (buffer : Bytes) (count : Int) : List Bytes × Int :=
  (if count > 0 then shadowTtyEmit (buffer.take count.toNat) else [], count)

/-- A write to `/dev/shadowtrace` has passed on as many bytes as it returns, and none if it fails. -/
def TraceWriteExact (fault : Nat → Bool) (buffer : Bytes) : Prop :=
  match (shadowTraceWrite fault buffer).2 with
  | some n => transmitted (shadowTraceWrite fault buffer).1 = buffer.take n
  | none => (shadowTraceWrite fault buffer).1 = []

/-- A write to the terminal has passed on as many bytes as it returns. -/
def TtyWriteExact (buffer : Bytes) (count : Int) : Prop :=
  transmitted (shadowTtyWrite buffer count).1 = buffer.take (shadowTtyWrite buffer count).2.toNat

/-! ### Messages -/

theorem length_cString_message_le (chunk : Bytes) : (cString (chunk ++ [0x00])).length ≤ chunk.length := by
  rw [cString_message]
  exact (List.takeWhile_prefix _).length_le

theorem length_transmitted_shadowTtyEmit_le (buffer : Bytes) :
    (transmitted (shadowTtyEmit buffer)).length ≤ buffer.length := by
  induction buffer using shadowTtyEmit.induct with
  | case1 =>
    rw [shadowTtyEmit, dif_pos rfl]
    exact Nat.le_refl 0
  | case2 buffer hne ih =>
    have hchunk := length_cString_message_le (buffer.take SHADOW_TTY_TX_CHUNK)
    have hsplit := congrArg List.length (List.take_append_drop SHADOW_TTY_TX_CHUNK buffer)
    rw [List.length_append] at hsplit
    rw [shadowTtyEmit, dif_neg hne, transmitted, List.flatMap_cons, List.length_append]
    rw [transmitted] at ih
    omega

/-- The messages of a buffer carry all of it exactly when it has no zero byte. -/
theorem transmitted_shadowTtyEmit_eq_iff (buffer : Bytes) :
    transmitted (shadowTtyEmit buffer) = buffer ↔ 0x00 ∉ buffer := by
  induction buffer using shadowTtyEmit.induct with
  | case1 =>
    rw [shadowTtyEmit, dif_pos rfl]
    simp [transmitted]
  | case2 buffer hne ih =>
    have hsplit := List.take_append_drop SHADOW_TTY_TX_CHUNK buffer
    have hchunk := length_cString_message_le (buffer.take SHADOW_TTY_TX_CHUNK)
    have hrest := length_transmitted_shadowTtyEmit_le (buffer.drop SHADOW_TTY_TX_CHUNK)
    have hmem :
        0x00 ∉ buffer ↔ 0x00 ∉ buffer.take SHADOW_TTY_TX_CHUNK ∧ 0x00 ∉ buffer.drop SHADOW_TTY_TX_CHUNK := by
      rw [← not_or, ← List.mem_append, hsplit]
    have hcons : transmitted (shadowTtyEmit buffer) = cString (buffer.take SHADOW_TTY_TX_CHUNK ++ [0x00]) ++
        transmitted (shadowTtyEmit (buffer.drop SHADOW_TTY_TX_CHUNK)) := by
      rw [shadowTtyEmit, dif_neg hne]
      rfl
    rw [hmem, ← cString_message_eq_iff, ← ih, hcons]
    constructor
    · intro h
      have hlen := congrArg List.length h
      have hlen' := congrArg List.length hsplit
      rw [List.length_append] at hlen hlen'
      exact List.append_inj (h.trans hsplit.symm) (by omega)
    · rintro ⟨h1, h2⟩
      rw [h1, h2, hsplit]

/-! ### Faults -/

/-- How many bytes of `buffer`, whose first one is at offset `total`, lie before the first chunk that cannot be
read. -/
structure Readable (fault : Nat → Bool) (total : Nat) (buffer : Bytes) (n : Nat) : Prop where
  le : n ≤ buffer.length
  before : ∀ k, SHADOW_MSM_TRACE_CHUNK * k < n → fault (total + SHADOW_MSM_TRACE_CHUNK * k) = false
  next : n = buffer.length ∨ ∃ k, n = SHADOW_MSM_TRACE_CHUNK * k ∧ fault (total + n) = true

/-- A write passes on the bytes before the first chunk that cannot be read, in the messages of a terminal write.
-/
theorem traceWriteFrom_eq (fault : Nat → Bool) (total : Nat) (buffer : Bytes) :
    ∃ n, Readable fault total buffer n ∧ (traceWriteFrom fault total buffer).1 = shadowTtyEmit (buffer.take n) ∧
      (traceWriteFrom fault total buffer).2 =
        if total + n = 0 ∧ buffer ≠ [] then none else some (total + n) := by
  induction total, buffer using traceWriteFrom.induct fault with
  | case1 total =>
    refine ⟨0, ⟨Nat.le_refl 0, by simp, Or.inl rfl⟩, ?_, ?_⟩
    · rw [traceWriteFrom, dif_pos rfl, shadowTtyEmit, List.take_nil, dif_pos rfl]
    · rw [traceWriteFrom, dif_pos rfl, if_neg fun h => h.2 rfl]
      rfl
  | case2 total buffer hne hf =>
    refine ⟨0, ⟨Nat.zero_le _, by simp, Or.inr ⟨0, rfl, hf⟩⟩, ?_, ?_⟩
    · rw [traceWriteFrom, dif_neg hne, if_pos hf, shadowTtyEmit, List.take_zero, dif_pos rfl]
    · rw [traceWriteFrom, dif_neg hne, if_pos hf]
      by_cases ht : total = 0 <;> simp [ht, hne]
  | case3 total buffer hne hf count ih =>
    obtain ⟨n, hn, hmessages, hresult⟩ := ih
    have hpos := List.length_pos_iff.mpr hne
    have hcount : count = min buffer.length SHADOW_MSM_TRACE_CHUNK := rfl
    have hchunk : SHADOW_MSM_TRACE_CHUNK = 96 := rfl
    have hle := hn.le
    rw [List.length_drop] at hle
    refine ⟨count + n, ⟨by omega, fun k hk => ?_, ?_⟩, ?_, ?_⟩
    · rcases k with - | k
      · simpa using hf
      · -- the chunks after the first one are those of the rest
        have hmul : SHADOW_MSM_TRACE_CHUNK * (k + 1) = SHADOW_MSM_TRACE_CHUNK + SHADOW_MSM_TRACE_CHUNK * k := by
          rw [Nat.mul_succ, Nat.add_comm]
        have hfull : count = SHADOW_MSM_TRACE_CHUNK := by omega
        have := hn.before k (by omega)
        rwa [hfull, Nat.add_assoc, ← hmul] at this
    · rcases hn.next with he | ⟨k, hk, hfk⟩
      · rw [List.length_drop] at he
        exact Or.inl (by omega)
      · by_cases hfull : count = SHADOW_MSM_TRACE_CHUNK
        · exact Or.inr ⟨k + 1, by rw [Nat.mul_succ]; omega, by rwa [← Nat.add_assoc]⟩
        · exact Or.inl (by omega)
    · have hne' : buffer.take (count + n) ≠ [] := by
        rw [Ne, List.take_eq_nil_iff]
        rintro (h | h)
        · omega
        · exact hne h
      have htx : SHADOW_TTY_TX_CHUNK = 96 := rfl
      have htake : (buffer.take (count + n)).take SHADOW_TTY_TX_CHUNK = buffer.take count := by
        rw [List.take_take, List.take_eq_take_iff]
        omega
      have hdrop : (buffer.take (count + n)).drop SHADOW_TTY_TX_CHUNK = (buffer.drop count).take n := by
        by_cases hfull : count = SHADOW_MSM_TRACE_CHUNK
        · rw [List.drop_take, hfull, hchunk, htx, Nat.add_sub_cancel_left]
        · rw [List.drop_eq_nil_of_le (by rw [List.length_take]; omega), List.drop_eq_nil_of_le (by omega),
            List.take_nil]
      rw [traceWriteFrom, dif_neg hne, if_neg hf, shadowTtyEmit, dif_neg hne', htake, hdrop, ← hmessages]
    · rw [traceWriteFrom, dif_neg hne, if_neg hf]
      simp only
      rw [hresult, if_neg (by omega), if_neg (by omega), Nat.add_assoc]

/-- Every zero byte lies in or behind a chunk that cannot be read. -/
def ZerosUnread (fault : Nat → Bool) (buffer : Bytes) : Prop :=
  ∀ i, buffer[i]? = some 0x00 → ∃ k, SHADOW_MSM_TRACE_CHUNK * k ≤ i ∧ fault (SHADOW_MSM_TRACE_CHUNK * k) = true

theorem Readable.notMem_take_iff {fault : Nat → Bool} {buffer : Bytes} {n : Nat} (h : Readable fault 0 buffer n) :
    0x00 ∉ buffer.take n ↔ ZerosUnread fault buffer := by
  constructor
  · intro h0 i hi
    have hlt : i < buffer.length := (List.getElem?_eq_some_iff.mp hi).1
    have hni : n ≤ i := by
      by_contra hlt'
      refine h0 (List.mem_of_getElem? (i := i) ?_)
      rw [List.getElem?_take_of_lt (by omega), hi]
    rcases h.next with he | ⟨k, hk, hf⟩
    · omega
    · exact ⟨k, by omega, by rwa [Nat.zero_add, hk] at hf⟩
  · intro hz h0
    obtain ⟨i, hi⟩ := List.mem_iff_getElem?.mp h0
    have hlt : i < n := by
      have := (List.getElem?_eq_some_iff.mp hi).1
      rw [List.length_take] at this
      omega
    rw [List.getElem?_take_of_lt hlt] at hi
    obtain ⟨k, hk, hf⟩ := hz i hi
    have := h.before k (by omega)
    rw [Nat.zero_add, hf] at this
    exact absurd this (by decide)

/-- What a write reports was passed on exactly when no zero byte was reached.  A failed write has passed on
nothing. -/
theorem transmitted_iff (fault : Nat → Bool) (buffer : Bytes) :
    (TraceWriteExact fault buffer ↔ ZerosUnread fault buffer) ∧
      ∀ count, TtyWriteExact buffer count ↔ 0x00 ∉ buffer.take count.toNat := by
  refine ⟨?_, fun count => ?_⟩
  · obtain ⟨n, hn, hmessages, hresult⟩ := traceWriteFrom_eq fault 0 buffer
    rw [← hn.notMem_take_iff, ← transmitted_shadowTtyEmit_eq_iff, TraceWriteExact, shadowTraceWrite, hmessages,
    hresult,
      Nat.zero_add]
    by_cases h0 : n = 0 ∧ buffer ≠ []
    · rw [if_pos h0, h0.1, List.take_zero, shadowTtyEmit, dif_pos rfl]
      simp [transmitted]
    · rw [if_neg h0]
  · rw [TtyWriteExact, shadowTtyWrite]
    by_cases hc : count > 0
    · rw [if_pos hc]
      exact transmitted_shadowTtyEmit_eq_iff _
    · have htake : buffer.take count.toNat = [] := by
        rw [Int.toNat_of_nonpos (by omega), List.take_zero]
      rw [if_neg hc, htake]
      simp [transmitted]

/-- Three bytes with a zero byte in the middle: three are reported, one is passed on. -/
theorem transmitted_zero :
    ¬ ((∀ (fault : Nat → Bool) (buffer : Bytes), TraceWriteExact fault buffer) ∧
      ∀ (buffer : Bytes) (count : Int), TtyWriteExact buffer count) := by
  rintro ⟨h, -⟩
  have hwrite : shadowTraceWrite (fun _ => false) [0x61, 0x00, 0x62] = ([[0x61, 0x00, 0x62, 0x00]], some 3) := by
    decide +kernel
  have := h (fun _ => false) [0x61, 0x00, 0x62]
  rw [TraceWriteExact, hwrite] at this
  exact absurd this (by decide)

end ShadowMsm.Linux
