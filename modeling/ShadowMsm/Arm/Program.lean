import ShadowMsm.Arm.Machine

/-!
# Assembly programs

The ARM instructions a hand-written assembly listing uses, with labels of any type `L`, and how a listing runs.  A place
in a program is the part of the listing that is still ahead; a label there costs nothing and a branch goes to the part
of the listing after its label.

A run is followed until control leaves the listing (`Exit`).  Routines outside the listing are called through the
parameter `env`, which may change the machine in any way, but not the log; a call of a label of the listing runs from
that label until control leaves it, and goes on behind the call if it left to the return address.
-/

namespace Arm

inductive Cond
  | al | eq | ne | hs | lo | hi | ls
  deriving DecidableEq, Repr

def Cond.holds (f : Flags) : Cond → Bool
  | .al => true
  | .eq => f.z
  | .ne => !f.z
  | .hs => f.c
  | .lo => !f.c
  | .hi => f.c && !f.z
  | .ls => !f.c || f.z

/-- The flexible second operand. -/
inductive Op2
  | imm (w : Word)
  | reg (r : Reg)
  | lsl (r : Reg) (k : Nat)
  | lsr (r : Reg) (k : Nat)
  deriving DecidableEq, Repr

inductive Alu
  | add | sub | and | orr | eor | bic
  deriving DecidableEq, Repr

/-- The cache and TLB operations of CP15, which move no data a program can see. -/
inductive Maint
  | drainWriteBuffer | invalidateICache | invalidateTlb
  deriving DecidableEq, Repr

/-- The instructions that go on with the next one. -/
inductive Op
  | mov (rd : Reg) (o : Op2)
  | mvn (rd : Reg) (o : Op2)
  | alu (f : Alu) (rd rn : Reg) (o : Op2)
  | adds (rd rn : Reg) (o : Op2)
  | subs (rd rn : Reg) (o : Op2)
  | cmp (rn : Reg) (o : Op2)
  | tst (rn : Reg) (o : Op2)
  /-- `ldr rd, =w` -/
  | ldrc (rd : Reg) (w : Word)
  | ldr (rd rn : Reg) (off : Word)
  | ldrh (rd rn : Reg) (off : Word)
  | ldrb (rd rn : Reg) (off : Word)
  /-- `ldrb rd, [rn, rm]` -/
  | ldrbR (rd rn rm : Reg)
  /-- `ldrb rd, [rn], #k` -/
  | ldrbPost (rd rn : Reg) (k : Word)
  | str (rd rn : Reg) (off : Word)
  /-- `str rd, [rn], #k` -/
  | strPost (rd rn : Reg) (k : Word)
  | strb (rd rn : Reg) (off : Word)
  | strbR (rd rn rm : Reg)
  | strbPost (rd rn : Reg) (k : Word)
  | push (rs : List Reg)
  | pop (rs : List Reg)
  | mrs (rd : Reg)
  /-- `msr cpsr_c, rn` -/
  | msrC (rn : Reg)
  | mrc (rd : Reg) (s : Sys)
  | mcr (rn : Reg) (s : Sys)
  | maint (rn : Reg) (o : Maint)
  deriving DecidableEq, Repr

inductive Instr (L : Type)
  | op (c : Cond) (o : Op)
  | b (c : Cond) (l : L)
  /-- `b` to an absolute address -/
  | bAbs (a : Word)
  | bl (l : L)
  /-- `bl` to an absolute address -/
  | call (a : Word)
  | blx (r : Reg)
  | bx (r : Reg)
  /-- `pop` of some registers and the program counter -/
  | popPc (rs : List Reg)
  deriving DecidableEq, Repr

inductive Line (L : Type)
  | label (l : L)
  | instr (i : Instr L)
  deriving DecidableEq, Repr

structure Program (L : Type) where
  base : Word
  lines : List (Line L)

/-! ### Mnemonics -/

namespace Line

variable {L : Type}

abbrev mov (rd : Reg) (o : Op2) : Line L := .instr (.op .al (.mov rd o))
abbrev movhi (rd : Reg) (o : Op2) : Line L := .instr (.op .hi (.mov rd o))
abbrev mvn (rd : Reg) (o : Op2) : Line L := .instr (.op .al (.mvn rd o))
abbrev add (rd rn : Reg) (o : Op2) : Line L := .instr (.op .al (.alu .add rd rn o))
abbrev sub (rd rn : Reg) (o : Op2) : Line L := .instr (.op .al (.alu .sub rd rn o))
abbrev and (rd rn : Reg) (o : Op2) : Line L := .instr (.op .al (.alu .and rd rn o))
abbrev orr (rd rn : Reg) (o : Op2) : Line L := .instr (.op .al (.alu .orr rd rn o))
abbrev eor (rd rn : Reg) (o : Op2) : Line L := .instr (.op .al (.alu .eor rd rn o))
abbrev bic (rd rn : Reg) (o : Op2) : Line L := .instr (.op .al (.alu .bic rd rn o))
abbrev eorne (rd rn : Reg) (o : Op2) : Line L := .instr (.op .ne (.alu .eor rd rn o))
abbrev adds (rd rn : Reg) (o : Op2) : Line L := .instr (.op .al (.adds rd rn o))
abbrev subs (rd rn : Reg) (o : Op2) : Line L := .instr (.op .al (.subs rd rn o))
abbrev cmp (rn : Reg) (o : Op2) : Line L := .instr (.op .al (.cmp rn o))
abbrev tst (rn : Reg) (o : Op2) : Line L := .instr (.op .al (.tst rn o))
abbrev ldrc (rd : Reg) (w : Word) : Line L := .instr (.op .al (.ldrc rd w))
abbrev ldr (rd rn : Reg) (off : Word) : Line L := .instr (.op .al (.ldr rd rn off))
abbrev ldrh (rd rn : Reg) (off : Word) : Line L := .instr (.op .al (.ldrh rd rn off))
abbrev ldrb (rd rn : Reg) (off : Word) : Line L := .instr (.op .al (.ldrb rd rn off))
abbrev ldrbR (rd rn rm : Reg) : Line L := .instr (.op .al (.ldrbR rd rn rm))
abbrev ldrbPost (rd rn : Reg) (k : Word) : Line L := .instr (.op .al (.ldrbPost rd rn k))
abbrev str (rd rn : Reg) (off : Word) : Line L := .instr (.op .al (.str rd rn off))
abbrev strPost (rd rn : Reg) (k : Word) : Line L := .instr (.op .al (.strPost rd rn k))
abbrev strb (rd rn : Reg) (off : Word) : Line L := .instr (.op .al (.strb rd rn off))
abbrev strbR (rd rn rm : Reg) : Line L := .instr (.op .al (.strbR rd rn rm))
abbrev strbPost (rd rn : Reg) (k : Word) : Line L := .instr (.op .al (.strbPost rd rn k))
abbrev push (rs : List Reg) : Line L := .instr (.op .al (.push rs))
abbrev pop (rs : List Reg) : Line L := .instr (.op .al (.pop rs))
abbrev mrs (rd : Reg) : Line L := .instr (.op .al (.mrs rd))
abbrev msrC (rn : Reg) : Line L := .instr (.op .al (.msrC rn))
abbrev mrc (rd : Reg) (s : Sys) : Line L := .instr (.op .al (.mrc rd s))
abbrev mcr (rn : Reg) (s : Sys) : Line L := .instr (.op .al (.mcr rn s))
abbrev maint (rn : Reg) (o : Maint) : Line L := .instr (.op .al (.maint rn o))
abbrev b (l : L) : Line L := .instr (.b .al l)
abbrev beq (l : L) : Line L := .instr (.b .eq l)
abbrev bne (l : L) : Line L := .instr (.b .ne l)
abbrev bhs (l : L) : Line L := .instr (.b .hs l)
abbrev blo (l : L) : Line L := .instr (.b .lo l)
abbrev bhi (l : L) : Line L := .instr (.b .hi l)
abbrev bls (l : L) : Line L := .instr (.b .ls l)
abbrev bAbs (a : Word) : Line L := .instr (.bAbs a)
abbrev bl (l : L) : Line L := .instr (.bl l)
abbrev call (a : Word) : Line L := .instr (.call a)
abbrev blx (r : Reg) : Line L := .instr (.blx r)
abbrev bx (r : Reg) : Line L := .instr (.bx r)
abbrev popPc (rs : List Reg) : Line L := .instr (.popPc rs)

end Line

/-! ### The machine under one instruction -/

namespace Machine

def set (m : Machine) (r : Reg) (v : Word) : Machine := { m with reg := Function.update m.reg r v }

def setFlags (m : Machine) (f : Flags) : Machine := { m with flags := f }

def setMem (m : Machine) (μ : Mem) : Machine := { m with mem := μ }

def setSys (m : Machine) (s : Sys) (v : Word) : Machine := { m with sys := Function.update m.sys s v }

def setCtl (m : Machine) (v : Word) : Machine := { m with ctl := v }

/-- Log an access. -/
def touch (m : Machine) (a : Access) : Machine := { m with log := m.log ++ [a] }

def flagBits (f : Flags) : Word :=
  (if f.n then 0x80000000 else 0) ||| (if f.z then 0x40000000 else 0) |||
    (if f.c then 0x20000000 else 0) ||| (if f.v then 0x10000000 else 0)

def cpsr (m : Machine) : Word := flagBits m.flags ||| (m.ctl &&& 0x0FFFFFFF)

end Machine

def Op2.eval (m : Machine) : Op2 → Word
  | .imm w => w
  | .reg r => m.reg r
  | .lsl r k => m.reg r <<< k
  | .lsr r k => m.reg r >>> k

def Alu.eval (x y : Word) : Alu → Word
  | .add => x + y
  | .sub => x - y
  | .and => x &&& y
  | .orr => x ||| y
  | .eor => x ^^^ y
  | .bic => x &&& ~~~y

def addFlags (x y : Word) : Flags where
  n := (x + y).msb
  z := decide (x + y = 0)
  c := decide (2 ^ 32 ≤ x.toNat + y.toNat)
  v := (x.msb == y.msb) && ((x + y).msb != x.msb)

def subFlags (x y : Word) : Flags where
  n := (x - y).msb
  z := decide (x = y)
  c := decide (y ≤ x)
  v := (x.msb != y.msb) && ((x - y).msb != x.msb)

def testFlags (f : Flags) (x : Word) : Flags := { f with n := x.msb, z := decide (x = 0) }

/-- A word load: the aligned word, rotated by the byte offset. -/
def Machine.loadWord (m : Machine) (a : Word) : Word :=
  (load32 m.mem (align a)).rotateRight (8 * (a &&& 3).toNat)

/-- Registers from consecutive words. -/
def popInto (m : Machine) (a : Word) : List Reg → Machine
  | [] => m
  | r :: rs => popInto (m.set r (load32 m.mem a)) (a + 4) rs

def wordBytes (rs : List Reg) : Nat := 4 * rs.length

def Op.exec (m : Machine) : Op → Machine
  | .mov rd o => m.set rd (o.eval m)
  | .mvn rd o => m.set rd (~~~ o.eval m)
  | .alu f rd rn o => m.set rd (f.eval (m.reg rn) (o.eval m))
  | .adds rd rn o => (m.set rd (m.reg rn + o.eval m)).setFlags (addFlags (m.reg rn) (o.eval m))
  | .subs rd rn o => (m.set rd (m.reg rn - o.eval m)).setFlags (subFlags (m.reg rn) (o.eval m))
  | .cmp rn o => m.setFlags (subFlags (m.reg rn) (o.eval m))
  | .tst rn o => m.setFlags (testFlags m.flags (m.reg rn &&& o.eval m))
  | .ldrc rd w => m.set rd w
  | .ldr rd rn off => (m.set rd (m.loadWord (m.reg rn + off))).touch (.load (align (m.reg rn + off)) 4)
  | .ldrh rd rn off =>
    (m.set rd ((load16 m.mem ((m.reg rn + off) &&& 0xFFFFFFFE)).setWidth 32)).touch
      (.load ((m.reg rn + off) &&& 0xFFFFFFFE) 2)
  | .ldrb rd rn off => (m.set rd ((m.mem (m.reg rn + off)).setWidth 32)).touch (.load (m.reg rn + off) 1)
  | .ldrbR rd rn rm =>
    (m.set rd ((m.mem (m.reg rn + m.reg rm)).setWidth 32)).touch (.load (m.reg rn + m.reg rm) 1)
  | .ldrbPost rd rn k =>
    ((m.set rn (m.reg rn + k)).set rd ((m.mem (m.reg rn)).setWidth 32)).touch (.load (m.reg rn) 1)
  | .str rd rn off =>
    (m.setMem (store32 m.mem (align (m.reg rn + off)) (m.reg rd))).touch (.store (align (m.reg rn + off)) 4)
  | .strPost rd rn k =>
    ((m.setMem (store32 m.mem (align (m.reg rn)) (m.reg rd))).set rn (m.reg rn + k)).touch
      (.store (align (m.reg rn)) 4)
  | .strb rd rn off =>
    (m.setMem (store8 m.mem (m.reg rn + off) ((m.reg rd).setWidth 8))).touch (.store (m.reg rn + off) 1)
  | .strbR rd rn rm =>
    (m.setMem (store8 m.mem (m.reg rn + m.reg rm) ((m.reg rd).setWidth 8))).touch
      (.store (m.reg rn + m.reg rm) 1)
  | .strbPost rd rn k =>
    ((m.setMem (store8 m.mem (m.reg rn) ((m.reg rd).setWidth 8))).set rn (m.reg rn + k)).touch
      (.store (m.reg rn) 1)
  | .push rs =>
    let a := align (m.reg .sp - BitVec.ofNat 32 (wordBytes rs))
    ((m.setMem (storeWords m.mem a (rs.map m.reg))).set .sp (m.reg .sp - BitVec.ofNat 32 (wordBytes rs))).touch
      (.store a (wordBytes rs))
  | .pop rs =>
    let a := align (m.reg .sp)
    ((popInto m a rs).set .sp (m.reg .sp + BitVec.ofNat 32 (wordBytes rs))).touch (.load a (wordBytes rs))
  | .mrs rd => m.set rd m.cpsr
  | .msrC rn => m.setCtl ((m.ctl &&& 0xFFFFFF00) ||| (m.reg rn &&& 0xFF))
  | .mrc rd s => m.set rd (m.sys s)
  | .mcr rn s => m.setSys s (m.reg rn)
  | .maint _ _ => m

/-- A call of a routine outside the listing. -/
def Machine.callOut (m : Machine) (env : Word → Machine → Machine) (target ret : Word) : Machine :=
  let called := (m.set .lr ret).touch (.call target (m.set .lr ret).reg m.mem)
  { env target called with log := called.log }

/-! ### Running a listing -/

/-- How control leaves a listing. -/
inductive Via
  | bx (r : Reg)
  | pop
  | branch
  deriving DecidableEq, Repr

structure Exit where
  via : Via
  target : Word
  deriving DecidableEq, Repr

namespace Program

variable {L : Type}

/-- The number of instructions of a part of a listing. -/
def size (k : List (Line L)) : Nat := k.countP fun l => match l with | .instr _ => true | .label _ => false

/-- The address of the part `k` at the end of the listing. -/
def addr (p : Program L) (k : List (Line L)) : Word :=
  p.base + BitVec.ofNat 32 (4 * (size p.lines - size k))

variable [DecidableEq L]

/-- The listing from a label on. -/
def codeAt (p : Program L) (l : L) : List (Line L) := p.lines.dropWhile (· ≠ .label l)

/-- Run from a place until control leaves the listing, for at most `fuel` lines in each activation; `none` if this is
not enough, or if control runs off the end of the listing. -/
def run (p : Program L) (env : Word → Machine → Machine) : Nat → List (Line L) → Machine → Option (Exit × Machine)
  | 0, _, _ => none
  | _ + 1, [], _ => none
  | fuel + 1, .label _ :: k, m => run p env fuel k m
  | fuel + 1, .instr i :: k, m =>
    match i with
    | .op c o => run p env fuel k (if c.holds m.flags then o.exec m else m)
    | .b c l => if c.holds m.flags then run p env fuel (p.codeAt l) m else run p env fuel k m
    | .bAbs a => some (⟨.branch, a⟩, m)
    | .bl l =>
      match run p env fuel (p.codeAt l) (m.set .lr (p.addr k)) with
      | none => none
      | some (e, m') => if e.target = p.addr k then run p env fuel k m' else some (e, m')
    | .call a => run p env fuel k (m.callOut env a (p.addr k))
    | .blx r => run p env fuel k (m.callOut env (m.reg r) (p.addr k))
    | .bx r => some (⟨.bx r, m.reg r⟩, m)
    | .popPc rs =>
      let a := align (m.reg .sp)
      let top := a + BitVec.ofNat 32 (wordBytes rs)
      some (⟨.pop, load32 m.mem top⟩,
        ((popInto m a rs).set .sp (m.reg .sp + BitVec.ofNat 32 (wordBytes rs + 4))).touch
          (.load a (wordBytes rs + 4)))

theorem run_succ {p : Program L} {env : Word → Machine → Machine} {n : Nat} {k : List (Line L)} {m : Machine}
    {r : Exit × Machine} (h : run p env n k m = some r) : run p env (n + 1) k m = some r := by
  induction n generalizing k m r with
  | zero => simp [run] at h
  | succ n ih =>
    match k with
    | [] => simp [run] at h
    | .label _ :: k => exact ih h
    | .instr i :: k =>
      cases i with
      | op c o => exact ih h
      | b c l =>
        rw [run] at h ⊢
        split at h
        · rename_i hc; simp only [hc, if_true]; exact ih h
        · rename_i hc; simp only [hc]; exact ih h
      | bAbs a => exact h
      | bl l =>
        rw [run] at h ⊢
        cases hr : run p env n (p.codeAt l) (m.set .lr (p.addr k)) with
        | none => simp [hr] at h
        | some q =>
          obtain ⟨e, m'⟩ := q
          simp only [hr, ih hr] at h ⊢
          split at h
          · rename_i he; simp only [he, if_true]; exact ih h
          · rename_i he; simpa only [he, if_false] using h
      | call a => exact ih h
      | blx r => exact ih h
      | bx r => exact h
      | popPc rs => exact h

theorem run_mono {p : Program L} {env : Word → Machine → Machine} {n n' : Nat} {k : List (Line L)} {m : Machine}
    {r : Exit × Machine} (h : run p env n k m = some r) (hn : n ≤ n') : run p env n' k m = some r := by
  induction hn with
  | refl => exact h
  | step _ ih => exact run_succ ih

/-- Two runs from the same place end alike. -/
theorem run_det {p : Program L} {env : Word → Machine → Machine} {n n' : Nat} {k : List (Line L)} {m : Machine}
    {r r' : Exit × Machine} (h : run p env n k m = some r) (h' : run p env n' k m = some r') : r = r' := by
  have h1 := run_mono h (Nat.le_max_left n n')
  have h2 := run_mono h' (Nat.le_max_right n n')
  rw [h1] at h2
  exact Option.some.inj h2

end Program

end Arm
