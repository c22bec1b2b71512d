import Mathlib.Data.List.TakeWhile
import ShadowMsm.Host.Port
import ShadowMsm.HdlcStream
import ShadowMsm.Requests

/-!
# Text from the Linux terminal to the host

What a write to `ttySHM0` becomes on its way: `shadow_tty_emit` of `tty-shadow-msm.c` cuts it into messages, the resident
print routine sends each message as one log frame, and a host script reads the frames and takes the text out of them
(`text_transparent`).
-/

namespace ShadowMsm.Linux

def SHADOW_TTY_TX_CHUNK : Nat := 96

/-- The loop of `shadow_tty_emit`: the messages handed to `shadow_msm_diag_emit`, each a C string. -/
def shadowTtyEmit (buffer : Bytes) : List Bytes :=
  if h : buffer = [] then []
  else (buffer.take SHADOW_TTY_TX_CHUNK ++ [0x00]) :: shadowTtyEmit (buffer.drop SHADOW_TTY_TX_CHUNK)
termination_by buffer.length
decreasing_by
  have := List.length_pos_iff.mpr h
  rw [List.length_drop, SHADOW_TTY_TX_CHUNK]
  omega

/-- What the print routine finds in a message. -/
def cString (message : Bytes) : Bytes := message.takeWhile (· ≠ 0x00)

/-- The payload the resident print routine sends for a C string. -/
def printPayload (message : Bytes) : Bytes := 0x0E :: (cString message ++ [0x0A])

/-- The payloads of the frames on the wire for one write. -/
def wirePayloads (buffer : Bytes) : List Bytes := (shadowTtyEmit buffer).map printPayload

/-- What a host makes of the results of `read_frame`: the texts, `preserve_line_endings=True`, one after the other. -/
def hostText : List (Except ReadError Bytes) → Except Exn (List Char)
  | [] => return []
  | .error e :: _ => throw (Host.readFrameExn e)
  | .ok payload :: rest => do
    let text ← Host.extractText (some payload) true
    return text ++ (← hostText rest)

/-! ### One message -/

/-- The message ends at the first zero byte of the chunk, or at the one that was appended. -/
theorem cString_message (chunk : Bytes) : cString (chunk ++ [0x00]) = chunk.takeWhile (· ≠ 0x00) := by
  induction chunk with
  | nil => rfl
  | cons b chunk ih =>
    rw [cString] at ih
    rw [cString, List.cons_append, List.takeWhile_cons, List.takeWhile_cons, ih]

theorem cString_message_eq_iff {chunk : Bytes} : cString (chunk ++ [0x00]) = chunk ↔ 0x00 ∉ chunk := by
  rw [cString_message, List.takeWhile_eq_self_iff]
  constructor
  · intro h h0
    simpa using h 0x00 h0
  · intro h b hb
    refine decide_eq_true ?_
    rintro rfl
    exact h hb

/-- Only the prefix and the line feed of the print routine are taken off, whatever the chunk begins or ends with. -/
theorem extractText_print {chunk : Bytes} (h : 0x00 ∉ chunk) :
    Host.extractText (some (printPayload (chunk ++ [0x00]))) true = .ok (decodeAscii chunk) := by
  have hstrip : rstrip [0x00] chunk = chunk := by
    apply rstrip_of_notMem
    intro b hb h0
    rw [List.mem_singleton] at h0
    exact h (h0 ▸ hb)
  rw [printPayload, cString_message_eq_iff.mpr h]
  change Except.ok (decodeAscii (rstrip [0x00]
    (if (chunk ++ [0x0A]).getLast? = some 0x0A then (chunk ++ [0x0A]).dropLast else chunk ++ [0x0A]))) = _
  rw [if_pos List.getLast?_concat, List.dropLast_concat, hstrip]

theorem decodeAscii_of_lt {bs : Bytes} (h : ∀ b ∈ bs, b < 0x80) : decodeAscii bs = bs.map fun b => Char.ofNat b.toNat := by
  rw [decodeAscii]
  refine List.map_congr_left ?_
  intro b hb
  exact if_pos (h b hb)

/-! ### A whole write -/

theorem wirePayloads_ne_nil (buffer : Bytes) : ∀ p ∈ wirePayloads buffer, p ≠ [] := by
  intro p hp
  obtain ⟨message, -, rfl⟩ := List.mem_map.mp hp
  exact List.cons_ne_nil _ _

/-- The texts of the messages, put together, are the buffer. -/
theorem hostText_wirePayloads {buffer : Bytes} (h : 0x00 ∉ buffer) :
    hostText ((wirePayloads buffer).map .ok) = .ok (decodeAscii buffer) := by
  unfold wirePayloads
  induction buffer using shadowTtyEmit.induct with
  | case1 =>
    rw [shadowTtyEmit, dif_pos rfl]
    rfl
  | case2 buffer hne ih =>
    have htake : 0x00 ∉ buffer.take SHADOW_TTY_TX_CHUNK := fun h0 => h (List.mem_of_mem_take h0)
    have hdrop : 0x00 ∉ buffer.drop SHADOW_TTY_TX_CHUNK := fun h0 => h (List.mem_of_mem_drop h0)
    rw [shadowTtyEmit, dif_neg hne, List.map_cons, List.map_cons, hostText, extractText_print htake, ih hdrop]
    change Except.ok (decodeAscii _ ++ decodeAscii _) = _
    rw [decodeAscii, decodeAscii, ← List.map_append, List.take_append_drop, decodeAscii]

/-- The text path is transparent: however its frames arrive, as long as no deadline of the reader passes inside one, the
host's text is the buffer that was written. -/
theorem text_transparent {buffer : Bytes} (hnul : 0x00 ∉ buffer) (hascii : ∀ b ∈ buffer, b < 0x80) {polls : List Poll}
    (hf : .fault ∉ polls) (harr : arrivals polls = stream (wirePayloads buffer))
    (hdeadlines : DeadlinesBetweenFrames (wirePayloads buffer) polls) {n : Nat} (hn : polls.length ≤ n) :
    hostText ((readCalls n polls).filterMap delivered) = .ok (buffer.map fun b => Char.ofNat b.toNat) := by
  rw [filterMap_readCalls_stream (wirePayloads_ne_nil buffer) hf harr hdeadlines hn, hostText_wirePayloads hnul,
    decodeAscii_of_lt hascii]

/-- A chunk that begins with the prefix byte and ends with a line feed. -/
theorem text_transparent_crlf :
    hostText ((readCalls 20 ((stream (wirePayloads [0x0E, 0x7E, 0x0D, 0x0A])).map .byte)).filterMap delivered) =
      .ok ([0x0E, 0x7E, 0x0D, 0x0A].map fun b : Byte => Char.ofNat b.toNat) := by
  have hlen : ((stream (wirePayloads [0x0E, 0x7E, 0x0D, 0x0A])).map Poll.byte).length ≤ 20 := by decide +kernel
  refine text_transparent (by decide) (by decide) (by simp) (arrivals_map_byte _) ?_ hlen
  intro pre post h
  have hmem : Poll.expired ∈ (stream (wirePayloads [0x0E, 0x7E, 0x0D, 0x0A])).map Poll.byte := by
    rw [h]
    simp
  simp at hmem

end ShadowMsm.Linux
