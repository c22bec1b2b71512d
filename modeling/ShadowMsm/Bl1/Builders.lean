import ShadowMsm.Bl1.Listing

/-!
# BL1 0.1, 0.2 and 0.3

The diagnostic bootloader, which prints the state of the machine and returns; the dry run, which validates a zImage and
a device tree and returns; the zImage boot, which jumps to the zImage when the validation passes.
-/

namespace ShadowMsm.Bl1

open Arm

def ZIMAGE_ADDR : Word := 0x01200000
def ZIMAGE_MAX : Word := 0x00D00000
def LINUX_ENTRY : Word := 0x00108000
def LINUX_MARKER : Word := 0x4C4E5831

/-! ### BL1 0.1 -/

namespace Layout

def bootloader : Layout where
  stringsOffset := 0x800
  hexTableOffset := 0xB00
  hexBufferOffset := 0xB20
  table_before_buffer := by decide
  buffer_below := by decide
  strings :=
    [(.banner, "K3765-Z BL1 0.1\r\n"),
     (.mode, "Mode  : RAM-only diagnostic bootloader\r\n"),
     (.console, "Log   : ARMPRG USB diagnostic transport\r\n"),
     (.board, "Board : ZTE/Vodafone K3765-Z\r\n"),
     (.soc, "SoC   : Qualcomm MSM6290\r\n"),
     (.cpu, "CPU   : ARM926EJ-S / ARMv5TEJ\r\n"),
     (.pmic, "PMIC  : PM6658-family (R=MPP1 G=LED0 B=LED1)\r\n"),
     (.nand, "NAND  : HYNIX_HSACS0PL0MCR, 128 MiB + OOB\r\n"),
     (.persist, "Flash : untouched; no NAND routine is linked\r\n"),
     (.midr, "MIDR  : "),
     (.ctr, "CTR   : "),
     (.cpsr, "CPSR  : "),
     (.sctlr, "SCTLR : "),
     (.ttbr, "TTBR  : "),
     (.dacr, "DACR  : "),
     (.sp, "SP    : "),
     (.arg0, "ARG0  : "),
     (.arg1, "ARG1  : "),
     (.arg2, "ARG2  : "),
     (.ready, "BL1 READY; returning BOOT magic to stage-0\r\n")]

variable (y : Layout)

def bootloaderBlock : List (Line Label) :=
  y.printLiteral .banner ++ y.printLiteral .mode ++ y.printLiteral .console ++ y.printLiteral .board ++
  y.printLiteral .soc ++ y.printLiteral .cpu ++ y.printLiteral .pmic ++ y.printLiteral .nand ++
  y.printLiteral .persist ++
  y.printAfter .midr (.mrc .r1 .midr) ++ y.printAfter .ctr (.mrc .r1 .ctr) ++ y.printAfter .cpsr (.mrs .r1) ++
  y.printAfter .sctlr (.mrc .r1 .sctlr) ++ y.printAfter .ttbr (.mrc .r1 .ttbr) ++
  y.printAfter .dacr (.mrc .r1 .dacr) ++ y.printAfter .sp (.mov .r1 (.reg .sp)) ++
  y.printAfter .arg0 (.mov .r1 (.reg .r4)) ++ y.printAfter .arg1 (.mov .r1 (.reg .r5)) ++
  y.printAfter .arg2 (.mov .r1 (.reg .r6)) ++
  y.printLiteral .ready

/-- The exit of BL1 0.1. -/
def bootBlock : List (Line Label) :=
  [.pop saves,
   .mov .sp (.reg .r11),
   .ldrc .r0 0x424F4F54,
   .bx .r10]

def bootloaderSource : List (Line Label) :=
  entryBlock ++ (y.bootloaderBlock ++ (bootBlock ++ (y.printValueBlock ++ (y.formatHexBlock ++ hexLoopBlock))))

end Layout

def bootloader : Program Label := ⟨BL1_BASE, Layout.bootloader.bootloaderSource⟩

/-! ### BL1 0.2 -/

namespace Layout

def dryRun : Layout where
  stringsOffset := 0x1000
  hexTableOffset := 0x1600
  hexBufferOffset := 0x1620
  table_before_buffer := by decide
  buffer_below := by decide
  strings :=
    [(.banner, "K3765-Z BL1 0.2 Linux handoff dry run\r\n"),
     (.mode, "Mode  : validate only; kernel jump is disabled\r\n"),
     (.persist, "Flash : untouched; no NAND routine is linked\r\n"),
     (.layout, "RAM layout\r\n"),
     (.ramBase, "RAM base       : "),
     (.ramSize, "RAM size       : "),
     (.linuxEntry, "Linux target   : "),
     (.monitor, "Stage-0 monitor : "),
     (.bl1, "BL1 address     : "),
     (.zimage, "zImage staging  : "),
     (.zimageMax, "zImage max size : "),
     (.dtb, "DTB address     : "),
     (.stack, "BL1 stack top   : "),
     (.inputs, "Input validation\r\n"),
     (.zimageSize, "zImage size    : "),
     (.zimageMagic, "zImage magic   : "),
     (.zimageStart, "zImage hdr start: "),
     (.zimageEnd, "zImage hdr end : "),
     (.dtbSize, "DTB size       : "),
     (.dtbMagic, "DTB magic      : "),
     (.dtbTotal, "DTB total size : "),
     (.registers, "Future Linux entry registers\r\n"),
     (.pc, "PC              : "),
     (.r0, "r0              : "),
     (.r1, "r1              : "),
     (.r2, "r2              : "),
     (.cpsr, "Current CPSR    : "),
     (.sctlr, "Current SCTLR   : "),
     (.pass, "Validation PASS\r\n"),
     (.noJump, "DRY RUN COMPLETE; no branch to Linux was performed\r\n"),
     (.badSize, "Validation FAIL: image size/range\r\n"),
     (.badZimage, "Validation FAIL: ARM zImage magic\r\n"),
     (.badDtb, "Validation FAIL: flattened device tree header\r\n")]

variable (y : Layout)

/-- The zImage and device tree checks of 0.2 and 0.3 read the size of the zImage in `r4` and that of the tree in
`r5`. -/
def zimageSizeBlock : List (Line Label) :=
  [.cmp .r4 (.imm 0x30), .blo .failSize,
   .ldrc .r0 ZIMAGE_MAX, .cmp .r4 (.reg .r0), .bhi .failSize,
   .cmp .r5 (.imm 0x28), .blo .failSize,
   .ldrc .r0 DTB_MAX, .cmp .r5 (.reg .r0), .bhi .failSize]

def zimageBlock : List (Line Label) :=
  [.ldr .r9 .r7 0x24] ++
  y.printAfter .zimageMagic (.mov .r1 (.reg .r9)) ++
  [.ldrc .r0 0x016F2818, .cmp .r9 (.reg .r0), .bne .failZimage] ++
  y.printAfter .zimageStart (.ldr .r1 .r7 0x28) ++
  y.printAfter .zimageEnd (.ldr .r1 .r7 0x2C)

def dtbMagicBlock : List (Line Label) :=
  [.ldr .r9 .r8 0] ++
  y.printAfter .dtbMagic (.mov .r1 (.reg .r9)) ++
  [.ldrc .r0 0xEDFE0DD0, .cmp .r9 (.reg .r0), .bne .failDtb]

def dtbTotalBlock : List (Line Label) :=
  [.ldr .r0 .r8 4, .bl .bswap32, .mov .r9 (.reg .r0)] ++
  y.printAfter .dtbTotal (.mov .r1 (.reg .r9)) ++
  [.cmp .r9 (.reg .r5), .bne .failDtb]

def dryRunBlock : List (Line Label) :=
  [.ldrc .r7 ZIMAGE_ADDR, .ldrc .r8 DTB_ADDR] ++
  y.printLiteral .banner ++ y.printLiteral .mode ++ y.printLiteral .persist ++ y.printLiteral .layout ++
  y.printConstant .ramBase 0x00100000 ++ y.printConstant .ramSize 0x01F00000 ++
  y.printConstant .linuxEntry LINUX_ENTRY ++ y.printConstant .monitor 0x00800000 ++
  y.printConstant .bl1 BL1_BASE ++ y.printConstant .zimage ZIMAGE_ADDR ++
  y.printConstant .zimageMax ZIMAGE_MAX ++ y.printConstant .dtb DTB_ADDR ++
  y.printConstant .stack BL1_STACK_TOP ++
  y.printLiteral .inputs ++
  y.printAfter .zimageSize (.mov .r1 (.reg .r4)) ++ y.printAfter .dtbSize (.mov .r1 (.reg .r5)) ++
  zimageSizeBlock ++ y.zimageBlock ++ y.dtbMagicBlock ++ y.dtbTotalBlock ++
  y.printLiteral .registers ++
  y.printConstant .pc ZIMAGE_ADDR ++ y.printConstant .r0 0x00000000 ++ y.printConstant .r1 0xFFFFFFFF ++
  y.printConstant .r2 DTB_ADDR ++
  y.printAfter .cpsr (.mrs .r1) ++ y.printAfter .sctlr (.mrc .r1 .sctlr) ++
  y.printLiteral .pass ++ y.printLiteral .noJump ++
  [.ldrc .r0 0x44525931, .b .finish]

def dryRunSource : List (Line Label) :=
  entryBlock ++ (y.dryRunBlock ++
    (y.failBlock .failSize .badSize 0xBAD10003 ++ (y.failBlock .failZimage .badZimage 0xBAD10001 ++
      (y.lastFailBlock .failDtb .badDtb 0xBAD10002 ++
        (finishBlock ++ (y.printValueBlock ++ (y.formatHexBlock ++ (hexLoopBlock ++ bswap32Block))))))))

end Layout

def dryRun : Program Label := ⟨BL1_BASE, Layout.dryRun.dryRunSource⟩

/-! ### BL1 0.3 -/

namespace Layout

def zimageBoot : Layout where
  stringsOffset := 0x1000
  hexTableOffset := 0x1700
  hexBufferOffset := 0x1720
  table_before_buffer := by decide
  buffer_below := by decide
  strings :=
    [(.banner, "K3765-Z BL1 0.3 Linux boot\r\n"),
     (.mode, "Mode  : validated non-returning zImage handoff\r\n"),
     (.persist, "Flash : untouched; RAM execution only\r\n"),
     (.sizes, "Input images\r\n"),
     (.zimageSize, "zImage size    : "),
     (.dtbSize, "DTB size       : "),
     (.marker, "Host marker     : "),
     (.headers, "Header validation\r\n"),
     (.zimageMagic, "zImage magic   : "),
     (.zimageStart, "zImage hdr start: "),
     (.zimageEnd, "zImage hdr end : "),
     (.dtbMagic, "DTB magic      : "),
     (.dtbTotal, "DTB total size : "),
     (.cpu, "Linux entry state\r\n"),
     (.cpsr, "CPSR            : "),
     (.sctlr, "SCTLR           : "),
     (.pc, "PC              : "),
     (.r0, "r0              : "),
     (.r1, "r1              : "),
     (.r2, "r2              : "),
     (.pass, "Validation PASS\r\n"),
     (.blue, "LED checkpoint  : blue\r\n"),
     (.jump, "JUMPING TO LINUX; BL1 WILL NOT RETURN\r\n"),
     (.badSize, "Validation FAIL: image size/range\r\n"),
     (.badZimage, "Validation FAIL: ARM zImage magic\r\n"),
     (.badDtb, "Validation FAIL: flattened device tree header\r\n"),
     (.badMarker, "Validation FAIL: host arming marker\r\n"),
     (.badState, "Validation FAIL: MMU or D-cache is enabled\r\n")]

variable (y : Layout)

/-- The CPU state is printed, and an MMU or data cache that is on is refused. -/
def cpuBlock : List (Line Label) :=
  y.printLiteral .cpu ++
  [.mrs .r9] ++ y.printAfter .cpsr (.mov .r1 (.reg .r9)) ++
  [.mrc .r9 .sctlr] ++ y.printAfter .sctlr (.mov .r1 (.reg .r9)) ++
  [.tst .r9 (.imm 0x05), .bne .failState]

/-- The last prints before the jump, and the LED. -/
def armedBlock (kernel : Word) : List (Line Label) :=
  y.printConstant .pc kernel ++ y.printConstant .r0 0x00000000 ++ y.printConstant .r1 0xFFFFFFFF ++
  y.printConstant .r2 DTB_ADDR ++
  y.printLiteral .pass ++
  [.mov .r0 (.imm 0), .mov .r1 (.imm 0), .call PMIC_LED_SET,
   .mov .r0 (.imm 1), .mov .r1 (.imm 15), .call PMIC_LED_SET] ++
  y.printLiteral .blue ++ y.printLiteral .jump

/-- Interrupts are masked, caches cleaned, and the kernel is entered. -/
def jumpBlock : List (Line Label) :=
  [.mrs .r3,
   .orr .r3 .r3 (.imm 0xC0),
   .msrC .r3,
   .mov .r3 (.imm 0),
   .maint .r3 .drainWriteBuffer,
   .maint .r3 .invalidateICache,
   .maint .r3 .invalidateTlb,
   .mov .r0 (.imm 0),
   .mvn .r1 (.imm 0),
   .mov .r2 (.reg .r8),
   .bx .r7]

def zimageBootBlock : List (Line Label) :=
  [.ldrc .r7 ZIMAGE_ADDR, .ldrc .r8 DTB_ADDR] ++
  y.printLiteral .banner ++ y.printLiteral .mode ++ y.printLiteral .persist ++ y.printLiteral .sizes ++
  y.printAfter .zimageSize (.mov .r1 (.reg .r4)) ++ y.printAfter .dtbSize (.mov .r1 (.reg .r5)) ++
  y.printAfter .marker (.mov .r1 (.reg .r6)) ++
  [.ldrc .r0 LINUX_MARKER, .cmp .r6 (.reg .r0), .bne .failMarker] ++
  zimageSizeBlock ++
  y.printLiteral .headers ++
  y.zimageBlock ++ y.dtbMagicBlock ++ y.dtbTotalBlock ++
  y.cpuBlock ++ y.armedBlock ZIMAGE_ADDR

def zimageBootSource : List (Line Label) :=
  entryBlock ++ (y.zimageBootBlock ++ (jumpBlock ++
    (y.failBlock .failSize .badSize 0xBAD30003 ++ (y.failBlock .failZimage .badZimage 0xBAD30001 ++
      (y.failBlock .failDtb .badDtb 0xBAD30002 ++ (y.failBlock .failMarker .badMarker 0xBAD30004 ++
        (y.lastFailBlock .failState .badState 0xBAD30005 ++
          (finishBlock ++ (y.printValueBlock ++ (y.formatHexBlock ++ (hexLoopBlock ++ bswap32Block)))))))))))

end Layout

def zimageBoot : Program Label := ⟨BL1_BASE, Layout.zimageBoot.zimageBootSource⟩

end ShadowMsm.Bl1
