import ShadowMsm.Python

/-!
# Requests to the monitor

The requests the host scripts send to the stage-0 monitor and what they make of its replies.  `k3765_linux_shell.py` and
`k3765_stage0_console.py` have the same functions under different names.
-/

namespace ShadowMsm.Host

/-! ### Constants of the scripts -/

def MONITOR_BASE : Int := 0x00800000
def DIRECT_IMAGE_START : Int := 0x00208000
def DIRECT_IMAGE_END : Int := 0x00780000
def SAFE_RAM_START : Int := 0x01000000
def SAFE_RAM_END : Int := 0x02000000

/-! ### Requests -/

/-- The payload of a monitor command. -/
def request (subcommand : Byte) (args : Bytes) : Bytes := [0x1C, subcommand] ++ args

/-- The request of `target_crc_query`, or the exception raised before it is sent. -/
def targetCrcQueryRequest (address length : Int) : Except Exn Bytes := do
  if ¬ (SAFE_RAM_START ≤ address ∧ address < SAFE_RAM_END) then
    throw (.valueError "CRC start is outside the stage-0 safe RAM window")
  if length < 0 ∨ address + length > SAFE_RAM_END then
    throw (.valueError "CRC range exceeds the stage-0 safe RAM window")
  return request 0x0C (← structPackI [address, length])

/-- `crc_query` of the console makes the same checks and the same request. -/
abbrev crcQueryRequest (address length : Int) : Except Exn Bytes := targetCrcQueryRequest address length

/-- A CRC query that is built is the packed pair under subcommand `0C`. -/
theorem targetCrcQueryRequest_eq_ok {address length : Int} {payload : Bytes}
    (h : targetCrcQueryRequest address length = .ok payload) :
    ∃ args, structPackI [address, length] = .ok args ∧ payload = request 0x0C args := by
  unfold targetCrcQueryRequest at h
  by_cases hstart : SAFE_RAM_START ≤ address ∧ address < SAFE_RAM_END
  · by_cases hrange : length < 0 ∨ address + length > SAFE_RAM_END
    · rw [if_neg (not_not.mpr hstart), if_pos hrange] at h
      cases h
    · rw [if_neg (not_not.mpr hstart), if_neg hrange] at h
      rcases hpack : structPackI [address, length] with e | args
      · rw [hpack] at h
        cases h
      · rw [hpack] at h
        cases h
        exact ⟨args, rfl, rfl⟩
  · rw [if_pos hstart] at h
    cases h

/-! ### Replies -/

/-- `extract_text` -/
def extractText (payload : Option Bytes) (preserveLineEndings : Bool) : Except Exn (List Char) := do
  let some payload := payload | throw (.runtimeError "target response timeout")
  let payload := match payload with
    | b :: rest => if b = 0x0E then rest else payload
    | [] => []
  let payload :=
    if preserveLineEndings then
      rstrip [0x00] (if payload.getLast? = some 0x0A then payload.dropLast else payload)
    else rstrip [0x00, 0x0D, 0x0A] payload
  return decodeAscii payload

/-- The kind of reply a monitor command waits for. -/
inductive Expected
  | banner
  | hex
  deriving DecidableEq, Repr

/-- `expected` where it is not given: by the subcommand. -/
def defaultExpected (subcommand : Byte) : Expected := if subcommand = 0 then .banner else .hex

/-- `stage0_command` and `command` return a text that matches; all others they ignore. -/
def replyMatches : Expected → List Char → Bool
  | .banner, text => "K3765-S0-".toList.isPrefixOf text
  | .hex, text => text.length = 8 && text.all isHexDigit

/-! ### The digits the monitor prints -/

/-- The byte of a digit in the digit table. -/
def digitByte (d : Nat) : Byte := if d < 10 then BitVec.ofNat 8 (0x30 + d) else BitVec.ofNat 8 (0x37 + d)

/-- The character of a digit. -/
def digitChar (d : Nat) : Char := Char.ofNat (digitByte d).toNat

private theorem digitByte_lt : ∀ d < 16, digitByte d < 0x80 := by decide

private theorem digitByte_notMem : ∀ d < 16, digitByte d ∉ [0x00, 0x0D, 0x0A] := by decide

theorem isHexDigit_digitChar : ∀ d < 16, isHexDigit (digitChar d) = true := by decide

theorem hexValue_digitChar : ∀ d < 16, hexValue (digitChar d) = d := by decide

/-- A frame of digits as the target prints them is read back as their characters. -/
theorem extractText_digits {ds : List Nat} (h : ∀ d ∈ ds, d < 16) :
    extractText (some (0x0E :: (ds.map digitByte ++ [0x0A]))) false = .ok (ds.map digitChar) := by
  have hstrip : rstrip [0x00, 0x0D, 0x0A] (ds.map digitByte ++ [0x0A]) = ds.map digitByte := by
    rw [rstrip_concat_mem (by decide), rstrip_of_notMem]
    intro b hb
    obtain ⟨d, hd, rfl⟩ := List.mem_map.mp hb
    exact digitByte_notMem d (h d hd)
  have hdecode : decodeAscii (ds.map digitByte) = ds.map digitChar := by
    rw [decodeAscii, List.map_map]
    exact List.map_congr_left fun d hd => if_pos (digitByte_lt d (h d hd))
  change Except.ok (decodeAscii (rstrip [0x00, 0x0D, 0x0A] (ds.map digitByte ++ [0x0A]))) = _
  rw [hstrip, hdecode]

/-- The number written by digits, most significant first. -/
theorem intBase16_digits_concat {ds : List Nat} {d : Nat} (hd : d < 16) :
    intBase16 ((ds ++ [d]).map digitChar) = 16 * intBase16 (ds.map digitChar) + d := by
  rw [List.map_append, List.map_singleton, intBase16_append, hexValue_digitChar d hd]

end ShadowMsm.Host
