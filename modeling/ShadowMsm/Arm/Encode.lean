import ShadowMsm.Arm.Program

/-!
# Machine code

The size that a listing may take in memory, and the words of its instructions: those an assembler makes of it, with the
constants of `ldr rd, =w` in one pool behind the code.
-/

namespace Arm

variable {L : Type}

def Line.isInstr : Line L → Bool
  | .label _ => false
  | .instr _ => true

/-- The constant of a literal load. -/
def Line.literal : Line L → Option Word
  | .instr (.op _ (.ldrc _ w)) => some w
  | _ => none

def instrCount (lines : List (Line L)) : Nat := lines.countP Line.isInstr

/-- The constants of the literal loads, in their order. -/
def literals (lines : List (Line L)) : List Word := lines.filterMap Line.literal

/-- The words a listing may take: one for an instruction, and one for a literal. -/
def words (lines : List (Line L)) : Nat := instrCount lines + (literals lines).length

/-- An assembler: every instruction takes one word, and the constant of a literal load at most one more. -/
structure Assembles (asm : Program L → List (BitVec 8)) : Prop where
  length_le : ∀ p, (asm p).length ≤ 4 * words p.lines

theorem words_append (l₁ l₂ : List (Line L)) : words (l₁ ++ l₂) = words l₁ + words l₂ := by
  simp only [words, instrCount, literals, List.countP_append, List.filterMap_append, List.length_append]
  omega

/-! ### ARM encodings -/

def Reg.index : Reg → Word
  | .r0 => 0 | .r1 => 1 | .r2 => 2 | .r3 => 3 | .r4 => 4 | .r5 => 5 | .r6 => 6 | .r7 => 7
  | .r8 => 8 | .r9 => 9 | .r10 => 10 | .r11 => 11 | .r12 => 12 | .sp => 13 | .lr => 14

def Cond.field : Cond → Word
  | .al => 0xE0000000
  | .eq => 0x00000000
  | .ne => 0x10000000
  | .hs => 0x20000000
  | .lo => 0x30000000
  | .hi => 0x80000000
  | .ls => 0x90000000

/-- An immediate as eight bits rotated right by an even amount. -/
def immField (w : Word) : Word :=
  match (List.range 16).find? fun r => w.rotateLeft (2 * r) < 256 with
  | some r => BitVec.ofNat 32 r <<< 8 ||| w.rotateLeft (2 * r)
  | none => 0

def Op2.field : Op2 → Word
  | .imm w => 0x02000000 ||| immField w
  | .reg r => r.index
  | .lsl r k => BitVec.ofNat 32 k <<< 7 ||| r.index
  | .lsr r k => BitVec.ofNat 32 k <<< 7 ||| 0x20 ||| r.index

def Alu.field : Alu → Word
  | .and => 0x00000000
  | .eor => 0x00200000
  | .sub => 0x00400000
  | .add => 0x00800000
  | .orr => 0x01800000
  | .bic => 0x01C00000

def Sys.field : Sys → Word
  | .midr => 0x00000000
  | .ctr => 0x00000020
  | .tcmtr => 0x00000040
  | .sctlr => 0x00010000
  | .ttbr => 0x00020000
  | .dacr => 0x00030000
  | .dfsr => 0x00050000
  | .ifsr => 0x00050020
  | .far => 0x00060000

def Maint.field : Maint → Word
  | .drainWriteBuffer => 0x0007008A
  | .invalidateICache => 0x00070005
  | .invalidateTlb => 0x00080007

def regMask (rs : List Reg) : Word := (rs.map fun r => (1 : Word) <<< r.index).foldl (· ||| ·) 0

/-- Base register and destination or source register. -/
def transfer (rd rn : Reg) : Word := rn.index <<< 16 ||| rd.index <<< 12

/-- An instruction, without its condition; `literal` is the distance to its literal. -/
def Op.field (literal : Word) : Op → Word
  | .mov rd o => 0x01A00000 ||| rd.index <<< 12 ||| o.field
  | .mvn rd o => 0x01E00000 ||| rd.index <<< 12 ||| o.field
  | .alu f rd rn o => f.field ||| transfer rd rn ||| o.field
  | .adds rd rn o => 0x00900000 ||| transfer rd rn ||| o.field
  | .subs rd rn o => 0x00500000 ||| transfer rd rn ||| o.field
  | .cmp rn o => 0x01500000 ||| rn.index <<< 16 ||| o.field
  | .tst rn o => 0x01100000 ||| rn.index <<< 16 ||| o.field
  | .ldrc rd _ => 0x059F0000 ||| rd.index <<< 12 ||| literal
  | .ldr rd rn off => 0x05900000 ||| transfer rd rn ||| off
  | .ldrh rd rn off => 0x01D000B0 ||| transfer rd rn ||| (off &&& 0xF0) <<< 4 ||| (off &&& 0x0F)
  | .ldrb rd rn off => 0x05D00000 ||| transfer rd rn ||| off
  | .ldrbR rd rn rm => 0x07D00000 ||| transfer rd rn ||| rm.index
  | .ldrbPost rd rn k => 0x04D00000 ||| transfer rd rn ||| k
  | .str rd rn off => 0x05800000 ||| transfer rd rn ||| off
  | .strPost rd rn k => 0x04800000 ||| transfer rd rn ||| k
  | .strb rd rn off => 0x05C00000 ||| transfer rd rn ||| off
  | .strbR rd rn rm => 0x07C00000 ||| transfer rd rn ||| rm.index
  | .strbPost rd rn k => 0x04C00000 ||| transfer rd rn ||| k
  | .push rs => 0x092D0000 ||| regMask rs
  | .pop rs => 0x08BD0000 ||| regMask rs
  | .mrs rd => 0x010F0000 ||| rd.index <<< 12
  | .msrC rn => 0x0121F000 ||| rn.index
  | .mrc rd s => 0x0E100F10 ||| s.field ||| rd.index <<< 12
  | .mcr rn s => 0x0E000F10 ||| s.field ||| rn.index <<< 12
  | .maint rn o => 0x0E000F10 ||| o.field ||| rn.index <<< 12

/-- The distance of a branch at `here` to `target`, in words behind the two of the pipeline. -/
def branchField (here target : Word) : Word := ((target - here - 8) >>> 2) &&& 0x00FFFFFF

/-- The instruction at address `here`. -/
def Instr.encode (target : L → Word) (here literal : Word) : Instr L → Word
  | .op c o => c.field ||| o.field (literal - here - 8)
  | .b c l => c.field ||| 0x0A000000 ||| branchField here (target l)
  | .bAbs a => 0xEA000000 ||| branchField here a
  | .bl l => 0xEB000000 ||| branchField here (target l)
  | .call a => 0xEB000000 ||| branchField here a
  | .blx r => 0xE12FFF30 ||| r.index
  | .bx r => 0xE12FFF10 ||| r.index
  | .popPc rs => 0xE8BD8000 ||| regMask rs

/-- The words of the instructions from `here` on; the next literal is at `literal`. -/
def encodeLines (target : L → Word) : Word → Word → List (Line L) → List Word
  | _, _, [] => []
  | here, literal, .label _ :: lines => encodeLines target here literal lines
  | here, literal, .instr i :: lines =>
    i.encode target here literal ::
      encodeLines target (here + 4) (if (Line.instr i).literal.isSome then literal + 4 else literal) lines

def littleEndian (w : Word) : List (BitVec 8) :=
  [w.setWidth 8, (w >>> 8).setWidth 8, (w >>> 16).setWidth 8, (w >>> 24).setWidth 8]

theorem length_encodeLines (target : L → Word) (here literal : Word) (lines : List (Line L)) :
    (encodeLines target here literal lines).length = instrCount lines := by
  induction lines generalizing here literal with
  | nil => rfl
  | cons x lines ih =>
    cases x with
    | label l => exact ih here literal
    | instr i =>
      rw [instrCount, List.countP_cons_of_pos rfl, encodeLines, List.length_cons, ih, instrCount]

theorem length_flatMap_littleEndian (ws : List Word) : (ws.flatMap littleEndian).length = 4 * ws.length := by
  induction ws with
  | nil => rfl
  | cons w ws ih =>
    rw [List.flatMap_cons, List.length_append, ih, List.length_cons]
    change 4 + _ = _
    omega

variable [DecidableEq L]

/-- The number of instructions before a label. -/
def labelIndex (lines : List (Line L)) (l : L) : Nat := instrCount (lines.takeWhile fun x => x ≠ .label l)

/-- The instructions, and the literals behind them. -/
def assemble (p : Program L) : List (BitVec 8) :=
  (encodeLines (fun l => p.base + BitVec.ofNat 32 (4 * labelIndex p.lines l)) p.base
    (p.base + BitVec.ofNat 32 (4 * instrCount p.lines)) p.lines ++ literals p.lines).flatMap littleEndian

theorem assembles_assemble : Assembles (assemble (L := L)) := by
  constructor
  intro p
  rw [assemble, length_flatMap_littleEndian, List.length_append, length_encodeLines, words]

end Arm
