import ShadowMsm.Armprg.Leds
import ShadowMsm.CrcVerify
import ShadowMsm.HdlcStream
import ShadowMsm.Host.Port

/-!
# The colours of the RGB tool

`k3765_rgb_control.py` sends masks to the RGB callback, one after the other, and switches everything off when the user
stops it.  What it sends is followed to the outputs that the callback drives.
-/

namespace ShadowMsm.Armprg

open Traced Host Arm

def GREEN : Byte := 0x01
def BLUE : Byte := 0x02
def MPP1 : Byte := 0x04
def MPP3 : Byte := 0x08

/-- The keys of `MODES`. -/
inductive Mode
  | off | green | blue | cyan | mpp1 | mpp3 | mpp1Green | mpp1Blue | mpp1White | mpp3Green | mpp3Blue | mpp3White
  deriving DecidableEq, Repr

def MODES : Mode → Byte
  | .off => 0
  | .green => GREEN
  | .blue => BLUE
  | .cyan => GREEN ||| BLUE
  | .mpp1 => MPP1
  | .mpp3 => MPP3
  | .mpp1Green => MPP1 ||| GREEN
  | .mpp1Blue => MPP1 ||| BLUE
  | .mpp1White => MPP1 ||| GREEN ||| BLUE
  | .mpp3Green => MPP3 ||| GREEN
  | .mpp3Blue => MPP3 ||| BLUE
  | .mpp3White => MPP3 ||| GREEN ||| BLUE

def Mode.label : Mode → String
  | .off => "off"
  | .green => "green"
  | .blue => "blue"
  | .cyan => "cyan"
  | .mpp1 => "mpp1"
  | .mpp3 => "mpp3"
  | .mpp1Green => "mpp1-green"
  | .mpp1Blue => "mpp1-blue"
  | .mpp1White => "mpp1-white"
  | .mpp3Green => "mpp3-green"
  | .mpp3Blue => "mpp3-blue"
  | .mpp3White => "mpp3-white"

/-! ### The tool -/

def maskPacket (mask : Byte) : Bytes := [0x1C, mask &&& 0x0F]

def maskFrame (mask : Byte) : Bytes := hdlcFrame (maskPacket mask)

/-- The text of a response, with a dot for what cannot be printed. -/
def printable (response : Bytes) : List Char :=
  response.map fun x => if 32 ≤ x ∧ x < 127 then Char.ofNat x.toNat else '.'

/-- `read_frame` -/
def readFrame : Script (Option Bytes) := readFrameWith format04x

/-- `set_mask`; the user may interrupt any of its calls, the wait for the reply included, which is the third one. -/
def setMask (mask : Byte) (label : String) : Script Unit := do
  perform (.write (maskFrame mask))
  perform .flush
  perform .system
  match ← Armprg.readFrame with
  | none => throw (.runtimeError (label ++ ": response timeout"))
  | some response =>
    if encodeAscii "RGB_OK".toList <:+: response then perform .system
    else throw (.runtimeError (label ++ ": unexpected response " ++ String.ofList (reprText (printable response))))

/-- `sequence` in `cycle` -/
def sequence (redBit : Byte) : List (String × Byte) :=
  [("red", redBit), ("yellow", redBit ||| GREEN), ("green", GREEN), ("cyan", GREEN ||| BLUE), ("blue", BLUE),
   ("magenta", redBit ||| BLUE)]

inductive Action
  | mode (m : Mode)
  | cycle1
  | cycle3
  deriving DecidableEq, Repr

/-- The handler: everything off. -/
def stop : Exn → Script Bool
  | .keyboardInterrupt => do
    perform .system
    setMask 0 "off"
    perform .system
    return false
  | e => throw e

/-- The masks that an action sends in `n` rounds. -/
def asked (n : Nat) : Action → List Byte
  | .mode m => MODES m :: []
  | .cycle1 => (List.replicate n ((sequence MPP1).map Prod.snd)).flatten
  | .cycle3 => (List.replicate n ((sequence MPP3).map Prod.snd)).flatten

/-- The levels of the four outputs: two channels of the LED driver and two current sinks. -/
structure Outputs where
  green : Word
  blue : Word
  mpp1 : Word
  mpp3 : Word

/-- The PMIC behind the resident routines: its states, what a call of a routine does to it, and the outputs. -/
structure Pmic where
  State : Type
  call : State → Word × List Word → State
  outputs : State → Outputs

/-- The outputs of a mask, and no other ones, are on. -/
def lit (mask : Byte) : Outputs where
  green := if mask &&& GREEN ≠ 0 then 15 else 0
  blue := if mask &&& BLUE ≠ 0 then 15 else 0
  mpp1 := if mask &&& MPP1 ≠ 0 then 1 else 0
  mpp3 := if mask &&& MPP3 ≠ 0 then 1 else 0

/-- From any entry with the packet of the mask, the callback returns, and its calls leave exactly the outputs of the mask
on, whatever was on before. -/
def Shows (env : Word → Machine → Machine) (pmic : Pmic) (mask : Byte) : Prop :=
  ∀ e, CallbackEntry e → PacketAt e.mem (e.reg .r0) (maskPacket mask) →
    wp rgbControl env rgbControl.lines e fun x e' =>
      ∃ cs, Drove e cs x e' ∧ ∀ s, pmic.outputs (cs.foldl pmic.call s) = lit mask

section

variable {α β : Type} {f : Script α} {g : α → Script β}

/-- What the callback answers. -/
def rgbOk : Bytes := 0x0E :: encodeAscii "RGB_OK".toList

/-- A port that acknowledges one command. -/
def acknowledging : World := .polling ((hdlcFrame rgbOk).map .byte)

end

end ShadowMsm.Armprg
