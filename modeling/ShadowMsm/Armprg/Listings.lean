import ShadowMsm.Stage0.Monitor

/-!
# The LED callbacks

The ARM listings of `build_armprg_rgb_control.py` and `build_armprg_pmic_led_control.py`.  Each takes the place of the
stock handler for unsupported commands, and is entered with `r0` at the decoded packet, whose second byte it acts on.
-/

namespace ShadowMsm.Armprg

open Arm Stage0

/-- The stock handler that the callbacks replace, which the monitor replaces by a branch. -/
def TRAMPOLINE_ADDR : Word := 0x00810DBC
def NEXT_HANDLER_ADDR : Word := 0x00810F34

/-- The PMIC routines of the OEMSBL, and the routine of the programmer that answers the host. -/
def PM_LED_INTENSITY : Word := 0x00042B78
def PM_MPP_I_SINK : Word := 0x0003ED0C
def SEND_MESSAGE : Word := 0x00816398

inductive Label
  | channel0 | channel1 | both | reply
  deriving DecidableEq, Repr

abbrev movne (rd : Reg) (o : Op2) : Line Label := .instr (.op .ne (.mov rd o))
abbrev moveq (rd : Reg) (o : Op2) : Line Label := .instr (.op .eq (.mov rd o))

/-- `rd` gets `on` if a bit of the mask in `r4` is set, else 0. -/
def select (bit : Word) (rd : Reg) (on : Word) : List (Line Label) :=
  [.tst .r4 (.imm bit), movne rd (.imm on), moveq rd (.imm 0)]

/-- One channel of the LED driver. -/
def ledBlock (channel bit : Word) : List (Line Label) :=
  [.mov .r0 (.imm channel)] ++ select bit .r1 15 ++ [.call PM_LED_INTENSITY]

/-- One current sink. -/
def sinkBlock (sink bit : Word) : List (Line Label) :=
  [.mov .r0 (.imm sink), .mov .r1 (.imm 2)] ++ select bit .r2 1 ++ [.call PM_MPP_I_SINK]

def replyBlock : List (Line Label) :=
  [.mov .r0 (.imm 6),
   .ldrc .r1 MESSAGE_ADDR,
   .call SEND_MESSAGE,
   .mov .r0 (.imm 0),
   .popPc [.r4]]

/-- `asm_source` of the RGB builder -/
def rgbControl : Program Label where
  base := TRAMPOLINE_ADDR
  lines := [.push [.r4, .lr], .ldrb .r4 .r0 7, .and .r4 .r4 (.imm 15)] ++ ledBlock 0 1 ++ ledBlock 1 2 ++
    sinkBlock 1 4 ++ sinkBlock 3 8 ++ replyBlock

/-- Both channels of the LED driver. -/
def channelsBlock (level0 level1 : Word) : List (Line Label) :=
  [.mov .r0 (.imm 0), .mov .r1 (.imm level0), .call PM_LED_INTENSITY,
   .mov .r0 (.imm 1), .mov .r1 (.imm level1), .call PM_LED_INTENSITY]

/-- `asm_source` of the LED builder -/
def ledControl : Program Label where
  base := TRAMPOLINE_ADDR
  lines := [.push [.r4, .lr], .ldrb .r4 .r0 7,
      .cmp .r4 (.imm 1), .beq .channel0, .cmp .r4 (.imm 2), .beq .channel1, .cmp .r4 (.imm 3), .beq .both] ++
    channelsBlock 0 0 ++ [.b .reply] ++
    [.label .channel0] ++ channelsBlock 15 0 ++ [.b .reply] ++
    [.label .channel1] ++ channelsBlock 0 15 ++ [.b .reply] ++
    [.label .both] ++ channelsBlock 15 15 ++
    [.label .reply] ++ replyBlock

end ShadowMsm.Armprg
