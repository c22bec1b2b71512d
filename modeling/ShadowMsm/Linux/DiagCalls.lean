import Mathlib.Logic.Function.Basic
import ShadowMsm.Lib.Simulation
import ShadowMsm.Mailbox

/-!
# The diagnostic calls of the timer driver

`shadow_msm_diag_emit`, `shadow_msm_diag_receive` and `shadow_msm_diag_input_reset` run code and touch memory of the
resident monitor.  Each masks IRQs, takes `shadow_diag_lock`, and borrows the page table of `init_mm` where another one
is active.  Any number of threads of one processor call them, and a thread is preempted wherever IRQs are on.
-/

namespace ShadowMsm.Linux

open Arm Simulation

/-- The bits of the translation table base that say where the table lies. -/
def TTBR_BASE : Word := 0xffffc000

inductive DiagCall
  | emit (message : Word)
  | receive (limit : Nat)
  | inputReset
  deriving DecidableEq, Repr

/-- Where a call stands. -/
inductive DiagPlace
  | serviceFirst | irqSave | lock | readTtbr | borrow
  | enter | resident | magic | copy | commit
  | resetHead | resetTail | resetMagic
  | giveBack | unlock | irqRestore | serviceLast
  deriving DecidableEq, Repr

/-- A call under way, with its local variables; `buffer` holds the bytes already copied, `count` of them.  `packet` is no
variable of the driver: it is the input packet that the dispatcher iteration of the call has processed. -/
structure DiagFrame where
  call : DiagCall
  place : DiagPlace
  flags : Bool
  savedTtbr : Word
  borrowed : Bool
  head : Word
  tail : Word
  buffer : List (BitVec 8)
  packet : Option (List (BitVec 8))
  deriving DecidableEq

/-- The state that the calls share: `irqs` says that IRQs are on, and `watchdog` counts the writes to its register. -/
structure Cpu (T : Type) where
  irqs : Bool
  ttbr : Word
  lock : Option T
  mem : Mem
  watchdog : Nat

/-- The page table of `init_mm`, whether the timer's registers are mapped, and what the resident routines at 0x00816cf4
and 0x00814214 may do to the monitor's memory, the second one where it processes the given input packet or none. -/
structure Platform where
  initTtbr : Word
  timerBase : Bool
  print : Word → Mem → Mem → Prop
  dispatch : Option (List (BitVec 8)) → Mem → Mem → Prop

inductive DiagEvent (T : Type)
  /-- IRQs get masked: what the translation table base and the IRQ state were. -/
  | masked (t : T) (ttbr : Word) (irqs : Bool)
  /-- The IRQ state is put back: what it and the translation table base are now, the input packet that the call has
  processed, and the bytes that it has received. -/
  | restored (t : T) (call : DiagCall) (packet : Option (List (BitVec 8))) (bytes : List (BitVec 8)) (ttbr : Word)
      (irqs : Bool)
  deriving DecidableEq

variable {T : Type}

/-- `shadow_msm_watchdog_service` -/
def Platform.watchdogService (P : Platform) (c : Cpu T) : Cpu T :=
  if P.timerBase then { c with watchdog := c.watchdog + 1 } else c

/-- `borrowed_init_mm` -/
def Platform.borrows (P : Platform) (ttbr : Word) : Bool := ttbr &&& TTBR_BASE != P.initTtbr &&& TTBR_BASE

/-- The first statement of the function. -/
def DiagCall.first : DiagCall → DiagPlace
  | .emit _ | .receive _ => .serviceFirst
  | .inputReset => .irqSave

/-- The first statement under the lock that needs the resident map. -/
def DiagCall.body : DiagCall → DiagPlace
  | .emit _ | .receive _ => .enter
  | .inputReset => .resetHead

/-- What follows `raw_spin_unlock_irqrestore`. -/
def DiagCall.last : DiagCall → Option DiagPlace
  | .emit _ | .receive _ => some .serviceLast
  | .inputReset => none

def DiagCall.limit : DiagCall → Nat
  | .receive limit => limit
  | _ => 0

def DiagCall.frame (call : DiagCall) : DiagFrame := ⟨call, call.first, false, 0, false, 0, 0, [], none⟩

/-- One step of a call by the thread `t`: the frame is gone when the function has returned.  In resident code the
call makes no step of its own. -/
def DiagFrame.exec (P : Platform) (t : T) (f : DiagFrame) (c : Cpu T) :
    Option (Option DiagFrame × Cpu T × Option (DiagEvent T)) :=
  match f.place with
  | .serviceFirst => some (some { f with place := .irqSave }, P.watchdogService c, none)
  | .irqSave =>
    some (some { f with place := .lock, flags := c.irqs }, { c with irqs := false }, some (.masked t c.ttbr c.irqs))
  | .lock =>
    -- a lock that is taken is spun on
    if c.lock = none then some (some { f with place := .readTtbr }, { c with lock := some t }, none)
    else some (some f, c, none)
  | .readTtbr =>
    some (some { f with place := .borrow, savedTtbr := c.ttbr, borrowed := P.borrows c.ttbr }, c, none)
  | .borrow =>
    some (some { f with place := f.call.body }, if f.borrowed then { c with ttbr := P.initTtbr } else c, none)
  | .enter => some (some { f with place := .resident }, c, none)
  | .resident => none
  | .magic =>
    if load32 c.mem SHADOW_MSM_INPUT_MAILBOX = SHADOW_MSM_INPUT_MAGIC then
      some (some { f with
        place := .copy
        head := load32 c.mem (SHADOW_MSM_INPUT_MAILBOX + 4) &&& SHADOW_MSM_INPUT_RING_MASK
        tail := load32 c.mem (SHADOW_MSM_INPUT_MAILBOX + 8) &&& SHADOW_MSM_INPUT_RING_MASK }, c, none)
    else some (some { f with place := .giveBack }, c, none)
  | .copy =>
    if f.tail ≠ f.head ∧ f.buffer.length < f.call.limit then
      some (some { f with
        buffer := f.buffer ++ [c.mem (SHADOW_MSM_INPUT_MAILBOX + 12 + f.tail)]
        tail := (f.tail + 1) &&& SHADOW_MSM_INPUT_RING_MASK }, c, none)
    else if f.buffer.length ≠ 0 then some (some { f with place := .commit }, c, none)
    else some (some { f with place := .giveBack }, c, none)
  | .commit =>
    some (some { f with place := .giveBack }, { c with mem := store32 c.mem (SHADOW_MSM_INPUT_MAILBOX + 8) f.tail },
      none)
  | .resetHead =>
    some (some { f with place := .resetTail }, { c with mem := store32 c.mem (SHADOW_MSM_INPUT_MAILBOX + 4) 0 }, none)
  | .resetTail =>
    some (some { f with place := .resetMagic }, { c with mem := store32 c.mem (SHADOW_MSM_INPUT_MAILBOX + 8) 0 }, none)
  | .resetMagic =>
    some (some { f with place := .giveBack },
      { c with mem := store32 c.mem SHADOW_MSM_INPUT_MAILBOX SHADOW_MSM_INPUT_MAGIC }, none)
  | .giveBack =>
    some (some { f with place := .unlock }, if f.borrowed then { c with ttbr := f.savedTtbr } else c, none)
  | .unlock => some (some { f with place := .irqRestore }, { c with lock := none }, none)
  | .irqRestore =>
    some (f.call.last.map fun p => { f with place := p }, { c with irqs := f.flags },
      some (.restored t f.call f.packet f.buffer c.ttbr f.flags))
  | .serviceLast => some (none, P.watchdogService c, none)

/-- What the resident routine that a call runs may do, and where the call goes on. -/
def Platform.routine (P : Platform) : DiagCall → Option (List (BitVec 8)) → Mem → Mem → DiagPlace → Prop
  | .emit message, packet, μ, μ', p => P.print message μ μ' ∧ packet = none ∧ p = .giveBack
  | .receive _, packet, μ, μ', p => P.dispatch packet μ μ' ∧ p = .magic
  | .inputReset, _, _, _, _ => False

/-- The processor, the thread it runs, and the calls that are under way. -/
structure Processor (T : Type) where
  cpu : Cpu T
  current : T
  frame : T → Option DiagFrame

/-- Nothing under way, and the lock free. -/
def Processor.start (t : T) (irqs : Bool) (ttbr : Word) (μ : Mem) : Processor T := ⟨⟨irqs, ttbr, none, μ, 0⟩, t, fun _ => none⟩

variable [DecidableEq T]

def Processor.setFrame (k : Processor T) (f : Option DiagFrame) : T → Option DiagFrame := Function.update k.frame k.current f

inductive ProcessorStep (P : Platform) (k : Processor T) : Option (DiagEvent T) → Processor T → Prop
  /-- A thread that is in no call begins one. -/
  | call (h : k.frame k.current = none) (call : DiagCall) :
      ProcessorStep P k none { k with frame := k.setFrame (some call.frame) }
  | exec {f : DiagFrame} (h : k.frame k.current = some f) {f' : Option DiagFrame} {c : Cpu T} {o : Option (DiagEvent T)}
      (hx : f.exec P k.current k.cpu = some (f', c, o)) : ProcessorStep P k o { k with cpu := c, frame := k.setFrame f' }
  /-- The resident routine returns. -/
  | routine {f : DiagFrame} (h : k.frame k.current = some f) (hp : f.place = .resident)
      {packet : Option (List (BitVec 8))} {μ : Mem} {p : DiagPlace} (hr : P.routine f.call packet k.cpu.mem μ p) :
      ProcessorStep P k none
        { k with cpu := { k.cpu with mem := μ }, frame := k.setFrame (some { f with place := p, packet := packet }) }
  /-- Another thread gets the processor, under a page table of its own. -/
  | preempt (h : k.cpu.irqs = true) (t : T) (ttbr : Word) :
      ProcessorStep P k none { k with cpu := { k.cpu with ttbr := ttbr }, current := t }
  /-- The timer interrupt, which calls no diagnostics. -/
  | interrupt (h : k.cpu.irqs = true) : ProcessorStep P k none { k with cpu := P.watchdogService k.cpu }
  /-- Other kernel code of a thread that is in no call. -/
  | other (h : k.frame k.current = none) (irqs : Bool) (ttbr : Word) :
      ProcessorStep P k none { k with cpu := { k.cpu with irqs := irqs, ttbr := ttbr } }

/-- The step of the call that the current thread is in. -/
def Processor.exec (P : Platform) (k : Processor T) : Option (Processor T × Option (DiagEvent T)) := do
  let f ← k.frame k.current
  let (f', c, o) ← f.exec P k.current k.cpu
  return ({ k with cpu := c, frame := k.setFrame f' }, o)

/-! ### The calls one at a time -/

/-- A whole call: the input packet processed, the bytes received, and the monitor's memory before and after. -/
inductive Performs (P : Platform) : DiagCall → Option (List (BitVec 8)) → Mem → List (BitVec 8) → Mem → Prop
  | emit {message : Word} {μ μ' : Mem} (h : P.print message μ μ') : Performs P (.emit message) none μ [] μ'
  | receive (limit : Nat) {packet : Option (List (BitVec 8))} {μ μq : Mem} (h : P.dispatch packet μ μq) :
      Performs P (.receive limit) packet μ (shadowMsmDiagReceive μq limit).1 (shadowMsmDiagReceive μq limit).2
  | inputReset (μ : Mem) : Performs P .inputReset none μ [] (shadowMsmDiagInputReset μ)

/-- The monitor's memory, and the thread that is in the middle of a call, with the translation table base and the IRQ
state that it found. -/
structure Serial (T : Type) where
  mem : Mem
  holder : Option (T × Word × Bool)

/-- Calls one at a time: between masking and restoring nothing else happens, the call is done at once, and the
translation table base and the IRQ state are again what they were. -/
inductive SerialStep (P : Platform) : Serial T → DiagEvent T → Serial T → Prop
  | masked (μ : Mem) (t : T) (ttbr : Word) (irqs : Bool) :
      SerialStep P ⟨μ, none⟩ (.masked t ttbr irqs) ⟨μ, some (t, ttbr, irqs)⟩
  | restored {call : DiagCall} {packet : Option (List (BitVec 8))} {μ μ' : Mem} {bytes : List (BitVec 8)} (t : T)
      (ttbr : Word) (irqs : Bool) (h : Performs P call packet μ bytes μ') :
      SerialStep P ⟨μ, some (t, ttbr, irqs)⟩ (.restored t call packet bytes ttbr irqs) ⟨μ', none⟩

end ShadowMsm.Linux
