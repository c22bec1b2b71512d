import Mathlib.Data.List.Infix
import ShadowMsm.Host.Port
import ShadowMsm.Requests

/-!
# Talking to the monitor and to Linux

The functions of `k3765_linux_shell.py` that exchange requests with the monitor and that hand over to Linux and follow
its console.  Closing a port or a file at the end of a `with` block is one more call that may raise.
-/

namespace ShadowMsm.Host

/-! ### The payload set -/

/-- An entry of `PAYLOADS`. -/
structure PayloadSpec where
  name : String
  size : Nat
  sha256 : String
  crc32 : Option Nat

def PAYLOADS : Payload → PayloadSpec
  | .monitor =>
    { name := "armprg_stage0_monitor.bin"
      size := 105928
      sha256 := "588e897f46a3d7dfe4f5f989bcc85ab3b4604b4f7ccacd5d802b53be226f4f52"
      crc32 := none }
  | .image =>
    { name := "Image-k3765-probe"
      size := 5536428
      sha256 := "c4fe5d5073e565e1083adc21074719d5a1db02ce04fb979e5c46610ced3915e0"
      crc32 := none }
  | .bl1 =>
    { name := "k3765_bl1_linux_image.bin"
      size := 5933
      sha256 := "bfd98420d2ed21609e6c3502bf4f6fe584cbb0d33e75467796b117986cf9a6de"
      crc32 := some 0xE535AB77 }
  | .dtb =>
    { name := "k3765-z-probe.dtb"
      size := 883
      sha256 := "1025f0a145c4c830b2e7820caea92f2a28d07177665893d172a3c87ab7fdf76e"
      crc32 := some 0xC511699F }

/-- The key of an entry. -/
def Payload.label : Payload → String
  | .monitor => "monitor"
  | .image => "image"
  | .bl1 => "bl1"
  | .dtb => "dtb"

def BL1_ADDRESS : Int := 0x01000000
def DTB_ADDRESS : Int := 0x01F80000
def LINUX_MARKER : Int := 0x494D4731
def INPUT_PACKET_LIMIT : Nat := 64

/-! ### Answers of the environment -/

/-- How many passes the next loop has before its deadline. -/
def drawPasses : Script Nat := fun w =>
  match w.passes with
  | [] => (.ok 0, w, [])
  | n :: rest => (.ok n, { w with passes := rest }, [])

theorem drawPasses_run (w : World) : ∃ n passes, drawPasses w = (.ok n, { w with passes := passes }, []) := by
  unfold drawPasses
  split
  · exact ⟨0, w.passes, rfl⟩
  · exact ⟨_, _, rfl⟩

/-- `live_chunks.get_nowait()` -/
def drawKey : Script Key := fun w =>
  match w.keys with
  | [] => (.ok .empty, w, [])
  | k :: rest => (.ok k, { w with keys := rest }, [])

/-- `open_stage0_port` -/
def openStage0Port : Script Unit := do
  perform .openPort
  perform .resetInput

/-! ### Exchanges with the monitor -/

/-- The loop of `stage0_command`, with the passes left before its deadline. -/
def stage0Replies (expected : Expected) (ignored : List (List Char)) : Nat → Script (List Char)
  | 0 =>
    throw (.runtimeError ("target response timeout" ++
      if ignored = [] then "" else "; ignored delayed replies: " ++ reprTexts ignored))
  | passes + 1 => do
    match ← readFrame with
    | none => stage0Replies expected ignored passes
    | some response =>
      let text ← Traced.ofExcept (extractText (some response) false)
      if replyMatches expected text then pure text
      else stage0Replies expected (ignored ++ [text]) passes

/-- `stage0_command` of a payload that is already built. -/
def stage0Exchange (payload : Bytes) (expected : Expected) : Script (List Char) := do
  transmit (hdlcFrame payload)
  let passes ← drawPasses
  stage0Replies expected [] passes

/-- `stage0_command`, without the callback for ignored replies, which the launcher does not give. -/
def stage0Command (subcommand : Byte) (args : Bytes) : Script (List Char) :=
  stage0Exchange (request subcommand args) (defaultExpected subcommand)

/-- `target_crc_query` -/
def targetCrcQuery (address length : Int) : Script Nat := do
  let payload ← Traced.ofExcept (targetCrcQueryRequest address length)
  let text ← stage0Exchange payload (defaultExpected 0x0C)
  pure (intBase16 text)

/-- `crc_check` -/
def crcCheck (address : Int) (payload : Payload) : Script Unit := do
  let some expected := (PAYLOADS payload).crc32 | throw (.keyError "crc32")
  openStage0Port
  let actual ← targetCrcQuery address (PAYLOADS payload).size
  -- the port is closed, the line logged
  perform .system
  perform .system
  if actual ≠ expected then
    throw (.runtimeError (payload.label ++ " RAM CRC 0x" ++ format08X actual ++ " != 0x" ++ format08X expected))

/-- The subcommands of `QUERIES`. -/
def QUERIES : List Byte := [0x01, 0x02, 0x03, 0x04, 0x05, 0x06, 0x07, 0x08, 0x09, 0x0A, 0x0B]

/-- The queries of `write_boot_log`, each logged. -/
def logQueries : List Byte → Script Unit
  | [] => pure ()
  | subcommand :: rest => do
    let _ ← stage0Command subcommand []
    perform .system
    logQueries rest

/-- `write_boot_log`; the lines of the log are left out. -/
def writeBootLog : Script Unit := do
  openStage0Port
  perform .system
  let _ ← stage0Command 0x00 []
  perform .system
  logQueries QUERIES
  perform .system

/-! ### The handoff and the console -/

/-- `stage2_request` -/
def stage2Request (address r0 r1 r2 : Int) : Except Exn Bytes := do
  if address % 4 ≠ 0 ∨ ¬ (SAFE_RAM_START ≤ address ∧ address < SAFE_RAM_END) then
    throw (.valueError "stage-2 PC must be aligned inside the safe RAM window")
  let args ← structPackI [address, r0, r1, r2]
  return hdlcFrame (request 0x0D args)

/-- The loop of `send_linux_input`. -/
def sendLinuxInputFrom (data : Bytes) (offset : Nat) : Script Unit :=
  if _h : offset < data.length then do
    perform (.write (hdlcFrame (request 0x0E ((data.drop offset).take INPUT_PACKET_LIMIT))))
    perform .flush
    sendLinuxInputFrom data (offset + INPUT_PACKET_LIMIT)
  else pure ()
termination_by data.length - offset
decreasing_by
  unfold INPUT_PACKET_LIMIT
  omega

/-- `send_linux_input` -/
def sendLinuxInput (data : Bytes) : Script Unit := sendLinuxInputFrom data 0

/-- The variables of the loop of `follow_linux`. -/
structure Follow where
  terminalReady : Bool
  scriptedReady : Bool
  pendingLines : List (List Char)

/-- The first part of a pass: one scripted line, or what the keyboard queue holds, is sent.  It gives none after a
detach. -/
def followInput (rawKeys : Bool) (s : Follow) : Script (Option Follow) :=
  if s.terminalReady then
    match s.pendingLines with
    | line :: rest =>
      if s.scriptedReady then do
        sendLinuxInput (encodeAscii line)
        pure (some { s with scriptedReady := false, pendingLines := rest })
      else pure (some s)
    | [] => do
      match ← drawKey with
      | .empty => pure (some s)
      | .detach => do
        perform .system
        pure none
      | .chunk bs =>
        if bs = [] then pure (some s)
        else do
          sendLinuxInput bs
          pure (some { s with scriptedReady := s.scriptedReady && rawKeys })
  else pure (some s)

/-- A frame with text from Linux. -/
def followText (s : Follow) (payload : Bytes) : Script Follow := do
  let text ← Traced.ofExcept (extractText (some payload) true)
  perform .system
  if "shadow-msm# ".toList <:+: text then pure { s with terminalReady := true, scriptedReady := true }
  else pure s

/-- The loop of `follow_linux`, with the passes left before the deadline.  A loop without a deadline goes on until it
returns or is interrupted. -/
def followLoop (bounded rawKeys : Bool) (s : Follow) : Nat → Script Unit
  | 0 => do
    match ← followInput rawKeys s with
    | none => pure ()
    | some _ => if bounded then perform .system else throw .keyboardInterrupt
  | passes + 1 => do
    match ← followInput rawKeys s with
    | none => pure ()
    | some s =>
      let payload ← tryCatch (do pure (some (← readFrame))) fun e =>
        match e with
        | .osError => do
          perform .system
          pure none
        | e => throw e
      match payload with
      | none => pure ()
      | some none => followLoop bounded rawKeys s passes
      | some (some payload) => do
        let s ← followText s payload
        followLoop bounded rawKeys s passes

/-- `follow_linux` -/
def followLinux (address r0 r1 r2 : Int) (bounded rawKeys : Bool) (initialCommands : List (List Char))
    (issueBootRequest : Bool) : Script Unit := do
  perform .resetInput
  if issueBootRequest then
    perform (.write (← Traced.ofExcept (stage2Request address r0 r1 r2)))
    perform .flush
  -- `raw_console_input` and the reader thread
  perform .system
  let passes ← drawPasses
  followLoop bounded rawKeys
    { terminalReady := !issueBootRequest, scriptedReady := !issueBootRequest,
      pendingLines := initialCommands.map fun command => rstripLine command ++ ['\n'] } passes
  perform .system

/-- `run_linux_console` -/
def runLinuxConsole (bounded rawKeys : Bool) (initialCommands : List (List Char)) (attach : Bool) : Script Unit := do
  openStage0Port
  perform .system
  followLinux (if attach then 0 else BL1_ADDRESS) (if attach then 0 else (PAYLOADS .image).size)
    (if attach then 0 else (PAYLOADS .dtb).size) (if attach then 0 else LINUX_MARKER) bounded rawKeys initialCommands
    (!attach)
  perform .system

end ShadowMsm.Host
