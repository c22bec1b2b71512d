import ShadowMsm.Arm.Encode
import ShadowMsm.Arm.Frames
import ShadowMsm.Arm.Passes
import ShadowMsm.Arm.Report
import ShadowMsm.Python

/-!
# The timer and IRQ read probe

The listing and the file that `build_msm_timer_read_probe.py` makes: a returning diagnostic that reads eight device
registers, waits, reads them again, and prints every value.
-/

namespace ShadowMsm.TimerProbe

open Arm

def BASE : Word := 0x01000000
def STACK_TOP : Word := 0x01FFF000
def PRINT_STRING : Word := 0x00816CF4

/-- "TMR2" -/
def RETURN_MAGIC : Word := 0x544D5232

def TIMER_BASE : Word := 0x80005400

def STRINGS_OFFSET : Nat := 0x1000
def HEX_TABLE_OFFSET : Nat := 0x1700
def HEX_BUFFER_OFFSET : Nat := 0x1720

inductive Register
  | timerCount | timerStatus | timerMatch | irqActiveIndex | irqBank1Raw | irqBank1Mask | irqBank1Config | irqBank1Type
  deriving DecidableEq, Repr

def Register.name : Register → String
  | .timerCount => "timer_count"
  | .timerStatus => "timer_status"
  | .timerMatch => "timer_match"
  | .irqActiveIndex => "irq_active_index"
  | .irqBank1Raw => "irq_bank1_raw"
  | .irqBank1Mask => "irq_bank1_mask"
  | .irqBank1Config => "irq_bank1_config"
  | .irqBank1Type => "irq_bank1_type"

def Register.address : Register → Word
  | .timerCount => TIMER_BASE + 0x08
  | .timerStatus => TIMER_BASE + 0xC0
  | .timerMatch => TIMER_BASE + 0xC4
  | .irqActiveIndex => 0x8000049C
  | .irqBank1Raw => 0x80000478
  | .irqBank1Mask => 0x80000434
  | .irqBank1Config => 0x8000045C
  | .irqBank1Type => 0x8000042C

def REGISTERS : List Register :=
  [.timerCount, .timerStatus, .timerMatch, .irqActiveIndex, .irqBank1Raw, .irqBank1Mask, .irqBank1Config, .irqBank1Type]

/-! ### Strings -/

/-- The keys of the string table. -/
inductive Text
  | banner | scope | persist | base | snapshotA | snapshotB | done
  | register (r : Register)
  deriving DecidableEq, Repr

/-- `f"{text:<20}"` -/
def ljust20 (text : String) : String := text ++ String.ofList (List.replicate (20 - text.length) ' ')

/-- `f"  {name:<20} 0x{address:08X}: "` -/
def registerText (r : Register) : String :=
  "  " ++ ljust20 r.name ++ " 0x" ++ format08X r.address.toNat ++ ": "

/-- The values of `strings`. -/
def Text.string : Text → String
  | .banner => "K3765-Z MSM timer/IRQ read probe\r\n"
  | .scope => "Mode  : volatile RAM execution; MMIO reads only\r\n"
  | .persist => "Flash : untouched; no NAND operation is implemented\r\n"
  | .base => "OEMSBL timer base: 0x80005400\r\n"
  | .snapshotA => "Snapshot A\r\n"
  | .snapshotB => "Snapshot B after bounded busy delay\r\n"
  | .done => "Timer/IRQ reads completed; returning TMR2\r\n"
  | .register r => registerText r

/-- The keys of `strings`, in their order. -/
def names : List Text :=
  [.banner, .scope, .persist, .base, .snapshotA, .snapshotB, .done] ++ REGISTERS.map .register

/-- A string as bytes. -/
def textOf (name : Text) : Bytes := encodeAscii name.string.toList

def stringTable : List (Text × Bytes) := names.map fun name => (name, textOf name)

def addresses (name : Text) : Word :=
  BASE + BitVec.ofNat 32 STRINGS_OFFSET + BitVec.ofNat 32 (stringOffset stringTable name)

def hexTableAddr : Word := BASE + BitVec.ofNat 32 HEX_TABLE_OFFSET

def hexBufferAddr : Word := BASE + BitVec.ofNat 32 HEX_BUFFER_OFFSET

/-! ### The listing -/

inductive Label
  | entry | delayLoop | printHexValue | formatHexLoop
  deriving DecidableEq, Repr

def printLiteral (name : Text) : List (Line Label) := [.ldrc .r0 (addresses name), .call PRINT_STRING]

def readRegister (r : Register) : List (Line Label) :=
  [.ldrc .r0 (addresses (.register r)), .call PRINT_STRING, .ldrc .r0 r.address, .ldr .r0 .r0 0, .bl .printHexValue]

def reads : List (Line Label) := REGISTERS.flatMap readRegister

def entryBlock : List (Line Label) :=
  [.label .entry,
   .mov .r12 (.reg .sp),
   .ldrc .sp STACK_TOP,
   .push entrySaves,
   .push [.r12]]

def snapshotABlock : List (Line Label) :=
  printLiteral .banner ++ printLiteral .scope ++ printLiteral .persist ++ printLiteral .base ++
    printLiteral .snapshotA ++ reads

/-- The counter of the delay. -/
def delayBlock : List (Line Label) := [.ldrc .r4 1000000]

def delayLoopBlock : List (Line Label) := countdown .delayLoop .r4

def snapshotBBlock : List (Line Label) := printLiteral .snapshotB ++ reads ++ printLiteral .done

def returnBlock : List (Line Label) :=
  [.ldrc .r3 RETURN_MAGIC,
   .pop [.r12],
   .pop entrySaves,
   .mov .sp (.reg .r12),
   .mov .r0 (.reg .r3),
   .bx .lr]

def printHexValueBlock : List (Line Label) :=
  [.label .printHexValue,
   .push [.r4, .r5, .r6, .r7, .lr],
   .mov .r4 (.reg .r0),
   .ldrc .r5 (hexBufferAddr + 2),
   .ldrc .r6 hexTableAddr,
   .mov .r7 (.imm 8)]

def formatHexLoopBlock : List (Line Label) :=
  [.label .formatHexLoop,
   .mov .r0 (.lsr .r4 28),
   .ldrbR .r0 .r6 .r0,
   .strbPost .r0 .r5 1,
   .mov .r4 (.lsl .r4 4),
   .subs .r7 .r7 (.imm 1),
   .bne .formatHexLoop,
   .ldrc .r0 hexBufferAddr,
   .call PRINT_STRING,
   .popPc [.r4, .r5, .r6, .r7]]

/-- `asm_source` -/
def probe : Program Label where
  base := BASE
  lines := entryBlock ++ snapshotABlock ++ delayBlock ++ delayLoopBlock ++ snapshotBBlock ++ returnBlock ++
    printHexValueBlock ++ formatHexLoopBlock

/-! ### The file -/

def zeros (n : Nat) : Bytes := List.replicate n 0x00

def hexDigits : Bytes := encodeAscii "0123456789ABCDEF".toList

/-- The text in front of the digits of a value, and behind them. -/
def hexHead : Bytes := encodeAscii "0x".toList
def hexTail : Bytes := encodeAscii "\r\n".toList ++ [0x00]

/-- `image`: zeros where the builder puts nothing. -/
def image (code : Bytes) : Bytes :=
  (code ++ zeros (STRINGS_OFFSET - code.length)) ++
    (stringBlob stringTable ++ zeros (HEX_TABLE_OFFSET - STRINGS_OFFSET - (stringBlob stringTable).length)) ++
    (hexDigits ++ zeros 16) ++ (hexHead ++ encodeAscii "00000000".toList ++ hexTail)

/-- `main` of the builder, with the assembler `asm`. -/
def build (asm : Program Label → Bytes) : Except String Bytes := do
  if HEX_TABLE_OFFSET - STRINGS_OFFSET < (stringBlob stringTable).length then
    throw "probe strings overlap the hexadecimal table"
  let code := asm probe
  if STRINGS_OFFSET < code.length then throw "probe code overlaps its strings"
  return image code

theorem strings_fit : (stringBlob stringTable).length ≤ HEX_TABLE_OFFSET - STRINGS_OFFSET := by decide +kernel

theorem words_probe : words probe.lines ≤ 256 := by decide +kernel

/-- The builder refuses nothing: code and strings fit. -/
theorem build_eq_ok {asm : Program Label → Bytes} (hasm : Assembles asm) :
    build asm = .ok (image (asm probe)) ∧ (asm probe).length ≤ STRINGS_OFFSET := by
  have hcode : (asm probe).length ≤ STRINGS_OFFSET := by
    have h1 := hasm.length_le probe
    have h2 := words_probe
    simp only [STRINGS_OFFSET]
    omega
  refine ⟨?_, hcode⟩
  rw [build, if_neg (by have := strings_fit; omega)]
  change (if STRINGS_OFFSET < (asm probe).length then _ else _) = _
  rw [if_neg (by omega)]
  rfl

end ShadowMsm.TimerProbe
