import ShadowMsm.Arm.Wp

/-!
# The stage-0 monitor

The two ARM listings that `build_armprg_stage0_monitor.py` assembles into the resident programmer: the command callback
(`asm_source`) and the extension that puts host input into the mailbox (`input_source`).  The callback is entered with
`r0` at the decoded packet: a halfword length at offset 4, the command byte at 6, the subcommand at 7 and the operands
from 8 on.
-/

namespace ShadowMsm.Stage0

open Arm

def HANDLER_ADDR : Word := 0x00811374
def INPUT_HANDLER_ADDR : Word := 0x00811594
def BANNER_ADDR : Word := 0x00811768
def INPUT_MAILBOX_ADDR : Word := 0x008FF800
def INPUT_MAILBOX_MAGIC : Word := 0x534D494E
def INPUT_RING_MASK : Word := 0xFF
def INPUT_PACKET_LIMIT : Word := 64
def MESSAGE_ADDR : Word := 0x0081763C
def HEX_TABLE_ADDR : Word := 0x008175C6
def PRINT_STRING : Word := 0x00816CF4
def SAFE_RAM_START : Word := 0x01000000
def SAFE_RAM_END : Word := 0x02000000

inductive Label
  | mailboxInput | banner
  | getMidr | getCtr | getTcmtr | getCpsr | getSctlr | getTtbr | getDacr | getDfsr | getIfsr | getFar | getSp
  | crc32Range | crcByte | crcBit | crcDone | callStage2 | bad | replyHex | hexLoop | success
  deriving DecidableEq, Repr

/-! ### `asm_source`, block by block -/

def entryBlock : List (Line Label) :=
  [.push [.r4, .r5, .r6, .lr],
   .mov .r4 (.reg .r0),
   .ldrh .r5 .r4 4,
   .cmp .r5 (.imm 2),
   .blo .bad,
   .ldrb .r5 .r4 6,
   .cmp .r5 (.imm 0x1C),
   .bne .bad,
   .ldrb .r5 .r4 7]

/-- One entry of the dispatch: `cmp r5, #n` and `beq`. -/
def dispatch (n : Word) (l : Label) : List (Line Label) := [.cmp .r5 (.imm n), .beq l]

def dispatchBlock : List (Line Label) :=
  dispatch 0 .banner ++ dispatch 1 .getMidr ++ dispatch 2 .getCtr ++ dispatch 3 .getTcmtr ++
  dispatch 4 .getCpsr ++ dispatch 5 .getSctlr ++ dispatch 6 .getTtbr ++ dispatch 7 .getDacr ++
  dispatch 8 .getDfsr ++ dispatch 9 .getIfsr ++ dispatch 10 .getFar ++ dispatch 11 .getSp ++
  dispatch 12 .crc32Range ++ dispatch 13 .callStage2 ++ dispatch 14 .mailboxInput ++
  [.ldrc .r0 0xBAD00000,
   .b .replyHex]

def mailboxInputBlock : List (Line Label) :=
  [.label .mailboxInput,
   .bAbs INPUT_HANDLER_ADDR]

def bannerBlock : List (Line Label) :=
  [.label .banner,
   .ldrc .r0 BANNER_ADDR,
   .call PRINT_STRING,
   .b .success]

/-- One of the system-register queries: `mrc` and `b reply_hex`. -/
def query (l : Label) (s : Sys) : List (Line Label) := [.label l, .mrc .r0 s, .b .replyHex]

def queryBlock : List (Line Label) :=
  query .getMidr .midr ++ query .getCtr .ctr ++ query .getTcmtr .tcmtr ++
  [.label .getCpsr, .mrs .r0, .b .replyHex] ++
  query .getSctlr .sctlr ++ query .getTtbr .ttbr ++ query .getDacr .dacr ++ query .getDfsr .dfsr ++
  query .getIfsr .ifsr ++ query .getFar .far ++
  [.label .getSp, .mov .r0 (.reg .sp), .b .replyHex]

def crc32RangeBlock : List (Line Label) :=
  [.label .crc32Range,
   .ldr .r1 .r4 8,
   .ldr .r2 .r4 12,
   .ldrc .r3 SAFE_RAM_START,
   .cmp .r1 (.reg .r3),
   .blo .bad,
   .adds .r3 .r1 (.reg .r2),
   .bhs .bad,
   .ldrc .r6 SAFE_RAM_END,
   .cmp .r3 (.reg .r6),
   .bhi .bad,
   .mvn .r0 (.imm 0),
   .ldrc .r6 0xEDB88320]

def crcByteBlock : List (Line Label) :=
  [.label .crcByte,
   .cmp .r2 (.imm 0),
   .beq .crcDone,
   .ldrbPost .r3 .r1 1,
   .eor .r0 .r0 (.reg .r3),
   .mov .r5 (.imm 8)]

def crcBitBlock : List (Line Label) :=
  [.label .crcBit,
   .tst .r0 (.imm 1),
   .mov .r0 (.lsr .r0 1),
   .eorne .r0 .r0 (.reg .r6),
   .subs .r5 .r5 (.imm 1),
   .bne .crcBit,
   .subs .r2 .r2 (.imm 1),
   .b .crcByte]

def crcDoneBlock : List (Line Label) :=
  [.label .crcDone,
   .mvn .r0 (.reg .r0),
   .b .replyHex]

def callStage2Block : List (Line Label) :=
  [.label .callStage2,
   .ldr .r6 .r4 8,
   .tst .r6 (.imm 3),
   .bne .bad,
   .ldrc .r5 SAFE_RAM_START,
   .cmp .r6 (.reg .r5),
   .blo .bad,
   .ldrc .r5 SAFE_RAM_END,
   .cmp .r6 (.reg .r5),
   .bhs .bad,
   .ldr .r0 .r4 12,
   .ldr .r1 .r4 16,
   .ldr .r2 .r4 20,
   .blx .r6,
   .b .replyHex]

def badBlock : List (Line Label) :=
  [.label .bad,
   .ldrc .r0 0xBAD00001]

def replyHexBlock : List (Line Label) :=
  [.label .replyHex,
   .ldrc .r1 MESSAGE_ADDR,
   .ldrc .r2 HEX_TABLE_ADDR,
   .mov .r3 (.imm 8)]

def hexLoopBlock : List (Line Label) :=
  [.label .hexLoop,
   .mov .r5 (.lsr .r0 28),
   .ldrbR .r5 .r2 .r5,
   .strbPost .r5 .r1 1,
   .mov .r0 (.lsl .r0 4),
   .subs .r3 .r3 (.imm 1),
   .bne .hexLoop,
   .mov .r5 (.imm 0),
   .strb .r5 .r1 0,
   .ldrc .r0 MESSAGE_ADDR,
   .call PRINT_STRING]

def successBlock : List (Line Label) :=
  [.label .success,
   .mov .r0 (.imm 0),
   .popPc [.r4, .r5, .r6]]

def asmSource : List (Line Label) :=
  entryBlock ++ dispatchBlock ++ mailboxInputBlock ++ bannerBlock ++ queryBlock ++ crc32RangeBlock ++
  crcByteBlock ++ crcBitBlock ++ crcDoneBlock ++ callStage2Block ++ badBlock ++ replyHexBlock ++
  hexLoopBlock ++ successBlock

/-- The callback. -/
def handler : Program Label := ⟨HANDLER_ADDR, asmSource⟩

/-! ### `input_source` -/

inductive InputLabel
  | mailboxReady | mailboxLoop | mailboxCommit | mailboxDone
  deriving DecidableEq, Repr

def inputEntryBlock : List (Line InputLabel) :=
  [.ldrc .r0 INPUT_MAILBOX_ADDR,
   .ldr .r1 .r0 0,
   .ldrc .r6 INPUT_MAILBOX_MAGIC,
   .cmp .r1 (.reg .r6),
   .beq .mailboxReady,
   .str .r6 .r0 0,
   .mov .r1 (.imm 0),
   .str .r1 .r0 4,
   .str .r1 .r0 8]

def mailboxReadyBlock : List (Line InputLabel) :=
  [.label .mailboxReady,
   .ldrh .r2 .r4 4,
   .cmp .r2 (.imm 2),
   .bls .mailboxDone,
   .sub .r2 .r2 (.imm 2),
   .cmp .r2 (.imm INPUT_PACKET_LIMIT),
   .movhi .r2 (.imm INPUT_PACKET_LIMIT),
   .add .r4 .r4 (.imm 8),
   .ldr .r3 .r0 4,
   .ldr .r5 .r0 8]

def mailboxLoopBlock : List (Line InputLabel) :=
  [.label .mailboxLoop,
   .add .r6 .r3 (.imm 1),
   .and .r6 .r6 (.imm INPUT_RING_MASK),
   .cmp .r6 (.reg .r5),
   .beq .mailboxCommit,
   .ldrbPost .r1 .r4 1,
   .add .r12 .r0 (.imm 12),
   .strbR .r1 .r12 .r3,
   .mov .r3 (.reg .r6),
   .subs .r2 .r2 (.imm 1),
   .bne .mailboxLoop]

def mailboxCommitBlock : List (Line InputLabel) :=
  [.label .mailboxCommit,
   .str .r3 .r0 4]

def mailboxDoneBlock : List (Line InputLabel) :=
  [.label .mailboxDone,
   .mov .r0 (.imm 0),
   .popPc [.r4, .r5, .r6]]

def inputSource : List (Line InputLabel) :=
  inputEntryBlock ++ mailboxReadyBlock ++ mailboxLoopBlock ++ mailboxCommitBlock ++ mailboxDoneBlock

/-- The mailbox extension. -/
def inputHandler : Program InputLabel := ⟨INPUT_HANDLER_ADDR, inputSource⟩

/-- One run of the callback: the handler, and the extension where the handler branches to it. -/
def monitorRun (env : Word → Machine → Machine) (fuel : Nat) (m : Machine) : Option (Exit × Machine) :=
  match handler.run env fuel handler.lines m with
  | none => none
  | some (e, m') =>
    if e = ⟨.branch, INPUT_HANDLER_ADDR⟩ then inputHandler.run env fuel inputHandler.lines m' else some (e, m')

end ShadowMsm.Stage0
