import ShadowMsm.Lib.Crc
import ShadowMsm.Lib.Stuffing

/-!
# Qualcomm HDLC frames

The framing that every host script carries a copy of (`k3765_linux_shell.py`, `k3765_stage0_console.py`,
`k3765_ram_bundle_load.py`, `k3765_stage0_load.py`): the CRC-16/X.25 trailer, the byte stuffing of the frame body, and
the reader that takes one byte at a time from the serial port until it has a frame or its deadline passes.

What a reader sees at one pass of its loop is a `Poll`; a list of them is one history of the port.
-/

namespace ShadowMsm

abbrev Byte := BitVec 8

abbrev Bytes := List Byte

def FLAG : Byte := 0x7E

def ESC : Byte := 0x7D

/-- `crc16_x25`.  Every intermediate value fits 16 bits, so the Python integer is a 16-bit vector here. -/
def crc16X25 (data : Bytes) : BitVec 16 :=
  Crc.run 0x8408 0xFFFF data ^^^ 0xFFFF

/-- `to_bytes(2, "little")`. -/
def le16 (x : BitVec 16) : Bytes := [x.setWidth 8, (x >>> 8).setWidth 8]

/-- `int.from_bytes(raw, "little")` of the two trailer bytes. -/
def fromLe16 (raw : Bytes) : BitVec 16 := raw.foldr (fun b n => (n <<< 8) ||| b.setWidth 16) 0

/-- The escaping of the frame body: `7E` and `7D` become `7D` and the byte with bit 5 flipped. -/
def stuffing : Stuffing Byte where
  flag := FLAG
  esc := ESC
  mask := fun b => b ^^^ 0x20
  esc_ne_flag := by decide
  mask_mask := fun b => by rw [BitVec.xor_assoc]; simp
  mask_flag_ne := by decide
  mask_esc_ne := by decide

/-- The bytes of a frame before stuffing: the payload and its CRC. -/
def frameBody (payload : Bytes) : Bytes := payload ++ le16 (crc16X25 payload)

/-- `hdlc_frame`. -/
def hdlcFrame (payload : Bytes) : Bytes :=
  [FLAG] ++ stuffing.stuff (frameBody payload) ++ [FLAG]

/-- `frame` of the stage-0 console and of the two loaders: the same function under another name. -/
abbrev frame (payload : Bytes) : Bytes := hdlcFrame payload

/-- What `read_frame` can raise. -/
inductive ReadError
  /-- `RuntimeError("CRC mismatch: {got:04X} != {want:04X}")` -/
  | crcMismatch (got want : BitVec 16)
  /-- an `OSError` or `SerialException` of the port -/
  | port
  deriving DecidableEq, Repr

/-- The end of `read_frame`: undo the stuffing of the collected bytes and check the CRC. -/
def decodeBody (encoded : Bytes) : Except ReadError Bytes :=
  let raw := stuffing.unstuff false encoded
  if raw.length < 3 then .ok raw
  else
    let payload := raw.take (raw.length - 2)
    let got := fromLe16 (raw.drop (raw.length - 2))
    let want := crc16X25 payload
    if got ≠ want then .error (.crcMismatch got want) else .ok payload

/-- What one pass of the loop of `read_frame` meets: the deadline has passed, `port.read(1)` returned nothing, it
returned a byte, or it raised. -/
inductive Poll
  | expired
  | idle
  | byte (b : Byte)
  | fault
  deriving DecidableEq, Repr

/-- The loop of `read_frame` with its two local variables.  It returns the result and the polls it leaves to the next
call; when the history ends, the deadline passes with nothing more to read. -/
def readFrameFrom (started : Bool) (encoded : Bytes) : List Poll → Except ReadError (Option Bytes) × List Poll
  | [] => (.ok none, [])
  | .expired :: polls => (.ok none, polls)
  | .idle :: polls => readFrameFrom started encoded polls
  | .fault :: polls => (.error .port, polls)
  | .byte b :: polls =>
    if b = FLAG then
      if !started then readFrameFrom true encoded polls
      else if encoded = [] then readFrameFrom started encoded polls
      else ((decodeBody encoded).map some, polls)
    else if started then readFrameFrom started (encoded ++ [b]) polls
    else readFrameFrom started encoded polls

/-- `read_frame`. -/
def readFrame (polls : List Poll) : Except ReadError (Option Bytes) × List Poll :=
  readFrameFrom false [] polls

/-- The results of `n` successive calls of `read_frame`. -/
def readCalls : Nat → List Poll → List (Except ReadError (Option Bytes))
  | 0, _ => []
  | n + 1, polls => (readFrame polls).1 :: readCalls n (readFrame polls).2

example : crc16X25 [0x31, 0x32, 0x33, 0x34, 0x35, 0x36, 0x37, 0x38, 0x39] = 0x906E := by decide +kernel

/-! ### Frames -/

theorem fromLe16_le16 (x : BitVec 16) : fromLe16 (le16 x) = x := by
  simp only [fromLe16, le16, List.foldr]
  ext i hi
  by_cases h : i < 8
  · simp [h, hi, ← BitVec.getLsbD_eq_getElem]
  · have h8 : i - 8 < 8 := by omega
    have h16 : i - 8 < 16 := by omega
    have hi8 : 8 + (i - 8) = i := by omega
    simp [h, hi, h8, h16, hi8, ← BitVec.getLsbD_eq_getElem]

@[simp] theorem length_le16 (x : BitVec 16) : (le16 x).length = 2 := rfl

theorem length_frameBody (payload : Bytes) : (frameBody payload).length = payload.length + 2 := by
  simp [frameBody]

/-- The stuffed body of a frame decodes to its payload. -/
theorem decodeBody_stuff {payload : Bytes} (h : payload ≠ []) :
    decodeBody (stuffing.stuff (frameBody payload)) = .ok payload := by
  have hlen := length_frameBody payload
  have hpos : 0 < payload.length := List.length_pos_iff.2 h
  have htake : (frameBody payload).take payload.length = payload := by simp [frameBody]
  have hdrop : (frameBody payload).drop payload.length = le16 (crc16X25 payload) := by simp [frameBody]
  simp only [decodeBody, stuffing.unstuff_stuff, hlen, Nat.add_sub_cancel, htake, hdrop, fromLe16_le16]
  simp; omega

theorem stuff_frameBody_ne_nil (payload : Bytes) : stuffing.stuff (frameBody payload) ≠ [] := by
  rw [Ne, stuffing.stuff_eq_nil_iff]
  intro h
  have := length_frameBody payload
  simp [h] at this

theorem flag_notMem_stuff_frameBody (payload : Bytes) : FLAG ∉ stuffing.stuff (frameBody payload) :=
  stuffing.flag_notMem_stuff _

/-- The payload of an intact frame. -/
def unframe : Bytes → Option Bytes
  | [] => none
  | b :: rest =>
    if b = FLAG ∧ rest.getLast? = some FLAG then (decodeBody rest.dropLast).toOption else none

theorem unframe_hdlcFrame {payload : Bytes} (h : payload ≠ []) : unframe (hdlcFrame payload) = some payload := by
  change unframe (FLAG :: (stuffing.stuff (frameBody payload) ++ [FLAG])) = _
  rw [unframe, if_pos ⟨rfl, by simp⟩, List.dropLast_concat, decodeBody_stuff h]
  rfl

end ShadowMsm
