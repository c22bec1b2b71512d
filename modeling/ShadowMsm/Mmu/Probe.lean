import ShadowMsm.Arm.Frames

/-!
# The identity-MMU probe

The assembly source that `build_mmu_identity_probe.py` generates: a returning diagnostic that builds a first-level
table of 4096 sections, switches translation on, prints and lights the LED through it, and puts everything back.
-/

namespace ShadowMsm.Mmu

open Arm

def BASE : Word := 0x01000000
def STACK_TOP : Word := 0x01FFE000
def L1_TABLE : Word := 0x01100000
def PRINT_STRING : Word := 0x00816CF4
def PMIC_LED_SET : Word := 0x00042B78

/-- "MMU1" -/
def RETURN_MAGIC : Word := 0x4D4D5531

def STRINGS_OFFSET : Nat := 0x1000
def HEX_TABLE_OFFSET : Nat := 0x1700
def HEX_BUFFER_OFFSET : Nat := 0x1720

inductive Label
  | entry | buildL1 | printValue | formatHex | formatHexLoop
  deriving DecidableEq, Repr

/-- The keys of the string table. -/
inductive Text
  | banner | mode | persist | table | original | sctlr | ttbr | dacr | tableReady | enable | enabled | enabledState
  | restoring | returned
  deriving DecidableEq, Repr

def strings : List (Text × String) :=
  [(.banner, "K3765-Z ARM926 identity-MMU probe\r\n"),
   (.mode, "Mode  : temporary 4 GiB non-cacheable 1:1 section map\r\n"),
   (.persist, "Flash : untouched; RAM execution only\r\n"),
   (.table, "L1 table: 0x01100000..0x01103FFF\r\n"),
   (.original, "Original CPU state\r\n"),
   (.sctlr, "SCTLR: "),
   (.ttbr, "TTBR : "),
   (.dacr, "DACR : "),
   (.tableReady, "Identity table built; installing TTBR and DACR\r\n"),
   (.enable, "Enabling MMU now\r\n"),
   (.enabled, "MMU ENABLED: translated diagnostic call succeeded\r\n"),
   (.enabledState, "Translated CPU state\r\n"),
   (.restoring, "Restoring original MMU control state\r\n"),
   (.returned, "MMU disabled and original TTBR/DACR restored; returning MMU1\r\n")]

/-- The bytes of some strings in the blob, each with its final zero. -/
def blobLength (strings : List (Text × String)) : Nat := (strings.map fun s => s.2.length + 1).sum

/-- The builder refuses strings that reach the digit table; these do not. -/
theorem strings_fit : blobLength strings ≤ HEX_TABLE_OFFSET - STRINGS_OFFSET := by decide +kernel

def addresses (name : Text) : Word :=
  BASE + BitVec.ofNat 32 (STRINGS_OFFSET + blobLength (strings.takeWhile fun s => s.1 ≠ name))

def hexTableAddr : Word := BASE + BitVec.ofNat 32 HEX_TABLE_OFFSET

def hexBufferAddr : Word := BASE + BitVec.ofNat 32 HEX_BUFFER_OFFSET

/-! ### The listing -/

def printLiteral (name : Text) : List (Line Label) := [.ldrc .r0 (addresses name), .call PRINT_STRING]

/-- `print_value`, after an instruction that puts the value in `r1`. -/
def printAfter (name : Text) (load : Line Label) : List (Line Label) :=
  [load, .ldrc .r0 (addresses name), .bl .printValue]

def entryBlock : List (Line Label) :=
  [.label .entry,
   .mov .r12 (.reg .sp),
   .ldrc .sp STACK_TOP,
   .push entrySaves,
   .push [.r12],
   .mrs .r4,
   .mrc .r5 .sctlr,
   .mrc .r6 .ttbr,
   .mrc .r7 .dacr]

/-- The report, and the registers of the loop that builds the table. -/
def reportBlock : List (Line Label) :=
  printLiteral .banner ++ printLiteral .mode ++ printLiteral .persist ++ printLiteral .table ++
    printLiteral .original ++ printAfter .sctlr (.mov .r1 (.reg .r5)) ++ printAfter .ttbr (.mov .r1 (.reg .r6)) ++
    printAfter .dacr (.mov .r1 (.reg .r7))

/-- A section descriptor without its base: read and write access, domain 0, neither cached nor buffered. -/
def SECTION_FLAGS : Word := 0x00000C12

def tableBlock : List (Line Label) :=
  [.ldrc .r8 L1_TABLE,
   .mov .r9 (.imm 0),
   .ldrc .r10 SECTION_FLAGS,
   .mov .r11 (.imm 0x1000)]

def buildL1Block : List (Line Label) :=
  [.label .buildL1,
   .orr .r0 .r9 (.reg .r10),
   .strPost .r0 .r8 4,
   .add .r9 .r9 (.imm 0x00100000),
   .subs .r11 .r11 (.imm 1),
   .bne .buildL1]

def installBlock : List (Line Label) :=
  printLiteral .tableReady ++
  [.mov .r0 (.imm 0),
   .maint .r0 .drainWriteBuffer,
   .maint .r0 .invalidateTlb,
   .mov .r0 (.imm 3),
   .mcr .r0 .dacr,
   .ldrc .r0 L1_TABLE,
   .mcr .r0 .ttbr]

def enableBlock : List (Line Label) :=
  printLiteral .enable ++
  [.orr .r8 .r5 (.imm 1),
   .bic .r8 .r8 (.imm 6),
   .mcr .r8 .sctlr,
   .mrc .r0 .midr,
   .mov .r0 (.reg .r0)]

/-- What runs with translation on. -/
def translatedBlock : List (Line Label) :=
  printLiteral .enabled ++ [.mov .r0 (.imm 0), .mov .r1 (.imm 15), .call PMIC_LED_SET] ++
    printLiteral .enabledState ++ printAfter .sctlr (.mrc .r1 .sctlr) ++ printAfter .ttbr (.mrc .r1 .ttbr) ++
    printAfter .dacr (.mrc .r1 .dacr) ++ printLiteral .restoring

def restoreBlock : List (Line Label) :=
  [.mcr .r5 .sctlr,
   .mrc .r0 .midr,
   .mov .r0 (.reg .r0),
   .mcr .r6 .ttbr,
   .mcr .r7 .dacr,
   .mov .r0 (.imm 0),
   .maint .r0 .invalidateTlb]

def returnBlock : List (Line Label) :=
  printLiteral .returned ++
  [.ldrc .r3 RETURN_MAGIC,
   .pop [.r12],
   .pop entrySaves,
   .mov .sp (.reg .r12),
   .mov .r0 (.reg .r3),
   .bx .lr]

def printValueBlock : List (Line Label) :=
  [.label .printValue,
   .push [.r4, .lr],
   .mov .r4 (.reg .r1),
   .call PRINT_STRING,
   .mov .r0 (.reg .r4),
   .bl .formatHex,
   .ldrc .r0 hexBufferAddr,
   .call PRINT_STRING,
   .popPc [.r4]]

def formatHexBlock : List (Line Label) :=
  [.label .formatHex,
   .push [.r4, .r5, .r6, .r7, .lr],
   .mov .r4 (.reg .r0),
   .ldrc .r5 (hexBufferAddr + 2),
   .ldrc .r6 hexTableAddr,
   .mov .r7 (.imm 8)]

def formatHexLoopBlock : List (Line Label) :=
  [.label .formatHexLoop,
   .mov .r0 (.lsr .r4 28),
   .ldrbR .r0 .r6 .r0,
   .strbPost .r0 .r5 1,
   .mov .r4 (.lsl .r4 4),
   .subs .r7 .r7 (.imm 1),
   .bne .formatHexLoop,
   .popPc [.r4, .r5, .r6, .r7]]

/-- `asm_source` -/
def probe : Program Label where
  base := BASE
  lines := entryBlock ++ reportBlock ++ tableBlock ++ buildL1Block ++ installBlock ++ enableBlock ++ translatedBlock ++
    restoreBlock ++ returnBlock ++ printValueBlock ++ formatHexBlock ++ formatHexLoopBlock

end ShadowMsm.Mmu
