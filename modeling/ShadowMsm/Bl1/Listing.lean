import ShadowMsm.Arm.Program

/-!
# The BL1 bootloaders

The assembly sources that the four BL1 builders generate.  They share their labels, their entry and exit sequences and
their subroutines; what differs is where a builder puts its strings, its digit table and its text buffer, and the body
between entry and exit.
-/

namespace ShadowMsm.Bl1

open Arm

def BL1_BASE : Word := 0x01000000
def BL1_STACK_TOP : Word := 0x01FFF000
def PRINT_STRING : Word := 0x00816CF4
def PMIC_LED_SET : Word := 0x00042B78

def DTB_ADDR : Word := 0x01F80000
def DTB_MAX : Word := 0x00010000

inductive Label
  | entry | failSize | failZimage | failImage | failDtb | failMarker | failState | finish
  | printValue | formatHex | hexLoop | bswap32
  deriving DecidableEq, Repr

/-- The keys of the string tables. -/
inductive Text
  | banner | mode | console | board | soc | cpu | pmic | nand | persist | midr | ctr | cpsr | sctlr | ttbr | dacr | sp
  | arg0 | arg1 | arg2 | ready | layout | ramBase | ramSize | linuxEntry | monitor | bl1 | zimage | zimageMax | dtb
  | stack | inputs | zimageSize | zimageMagic | zimageStart | zimageEnd | dtbSize | dtbMagic | dtbTotal | registers
  | pc | r0 | r1 | r2 | pass | noJump | badSize | badZimage | badDtb | sizes | imageSize | marker | headers
  | fingerprints | blue | jump | badImage | badMarker | badState
  deriving DecidableEq, Repr

/-- Where a builder puts its data, as offsets from `BL1_BASE`, and its strings. -/
structure Layout where
  stringsOffset : Nat
  hexTableOffset : Nat
  hexBufferOffset : Nat
  strings : List (Text × String)
  table_before_buffer : hexTableOffset + 16 ≤ hexBufferOffset
  buffer_below : hexBufferOffset + 16 ≤ 0x10000

namespace Layout

variable (y : Layout)

def hexTableAddr : Word := BL1_BASE + BitVec.ofNat 32 y.hexTableOffset

def hexBufferAddr : Word := BL1_BASE + BitVec.ofNat 32 y.hexBufferOffset

/-- The bytes of some strings in the blob, each with its final zero. -/
def blobLength (strings : List (Text × String)) : Nat := (strings.map fun s => s.2.length + 1).sum

/-- The builders refuse strings that reach the digit table. -/
def stringsFit : Prop := blobLength y.strings ≤ y.hexTableOffset - y.stringsOffset

instance : Decidable y.stringsFit := inferInstanceAs (Decidable (_ ≤ _))

def addresses (name : Text) : Word :=
  BL1_BASE + BitVec.ofNat 32 (y.stringsOffset + blobLength (y.strings.takeWhile fun s => s.1 ≠ name))

/-! ### What the listings share -/

def printLiteral (name : Text) : List (Line Label) := [.ldrc .r0 (y.addresses name), .call PRINT_STRING]

def printConstant (name : Text) (value : Word) : List (Line Label) :=
  [.ldrc .r0 (y.addresses name), .ldrc .r1 value, .bl .printValue]

/-- `print_value`, after an instruction that puts the value in `r1`. -/
def printAfter (name : Text) (load : Line Label) : List (Line Label) :=
  [load, .ldrc .r0 (y.addresses name), .bl .printValue]

def printValueBlock : List (Line Label) :=
  [.label .printValue,
   .push [.r4, .lr],
   .mov .r4 (.reg .r1),
   .call PRINT_STRING,
   .mov .r0 (.reg .r4),
   .bl .formatHex,
   .ldrc .r0 y.hexBufferAddr,
   .call PRINT_STRING,
   .popPc [.r4]]

def formatHexBlock : List (Line Label) :=
  [.label .formatHex,
   .push [.r4, .r5, .r6, .r7, .lr],
   .mov .r4 (.reg .r0),
   .ldrc .r5 (y.hexBufferAddr + 2),
   .ldrc .r6 y.hexTableAddr,
   .mov .r7 (.imm 8)]

def hexLoopBlock : List (Line Label) :=
  [.label .hexLoop,
   .mov .r0 (.lsr .r4 28),
   .ldrbR .r0 .r6 .r0,
   .strbPost .r0 .r5 1,
   .mov .r4 (.lsl .r4 4),
   .subs .r7 .r7 (.imm 1),
   .bne .hexLoop,
   .popPc [.r4, .r5, .r6, .r7]]

def bswap32Block : List (Line Label) :=
  [.label .bswap32,
   .and .r1 .r0 (.imm 0xFF),
   .mov .r1 (.lsl .r1 24),
   .and .r2 .r0 (.imm 0xFF00),
   .mov .r2 (.lsl .r2 8),
   .orr .r1 .r1 (.reg .r2),
   .mov .r2 (.lsr .r0 8),
   .and .r2 .r2 (.imm 0xFF00),
   .orr .r1 .r1 (.reg .r2),
   .mov .r2 (.lsr .r0 24),
   .orr .r0 .r1 (.reg .r2),
   .bx .lr]

/-- The registers that the entry pushes and the exit pops. -/
def saves : List Reg := [.r4, .r5, .r6, .r7, .r8, .r9, .r10, .r11]

/-- The entry: the caller's `sp` and `lr` go to `r11` and `r10`, and only then are the registers pushed. -/
def entryBlock : List (Line Label) :=
  [.label .entry,
   .mov .r11 (.reg .sp),
   .mov .r10 (.reg .lr),
   .ldrc .sp BL1_STACK_TOP,
   .push saves,
   .mov .r4 (.reg .r0),
   .mov .r5 (.reg .r1),
   .mov .r6 (.reg .r2)]

def finishBlock : List (Line Label) :=
  [.label .finish,
   .mov .r3 (.reg .r0),
   .pop saves,
   .mov .sp (.reg .r11),
   .mov .r0 (.reg .r3),
   .bx .r10]

/-- A failure exit: its message and its code. -/
def failBlock (l : Label) (name : Text) (code : Word) : List (Line Label) :=
  .label l :: y.printLiteral name ++ [.ldrc .r0 code, .b .finish]

/-- The last failure exit runs into `finish`. -/
def lastFailBlock (l : Label) (name : Text) (code : Word) : List (Line Label) :=
  .label l :: y.printLiteral name ++ [.ldrc .r0 code]

end Layout

end ShadowMsm.Bl1
