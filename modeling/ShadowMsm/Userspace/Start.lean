import ShadowMsm.Userspace.LineEditor

/-!
# PID 1 from its start on

`_start` opens a terminal, greets, and tries to become a shell; where that fails it goes on as the recovery shell.  The
kernel may answer every system call in any way.
-/

namespace ShadowMsm.Userspace

open Traced

def SHADOW_TIOCSCTTY : Nat := 0x540E
def TTY_DEVICE : String := "/dev/ttySHM0"
def TRACE_DEVICE : String := "/dev/shadowtrace"

/-! ### System calls -/

/-- The fields of `struct shadow_utsname` that are shown, as `uname` leaves them. -/
structure Names where
  sysname : Vector Byte SHADOW_UTS_LENGTH
  release : Vector Byte SHADOW_UTS_LENGTH
  machine : Vector Byte SHADOW_UTS_LENGTH

/-- What the kernel makes of the next of these calls; an `execve` that succeeds does not answer. -/
structure Reply where
  value : Int
  names : Names
  failed : Option Int
  received : Received

/-- The kernel: what it makes of the calls of `Pid1`, and of the others. -/
structure Kernel where
  io : Answers
  replies : Nat → Reply

/-- System calls, some of them with what the kernel made of them. -/
inductive SysCall
  | io (event : Event)
  | setsid
  | openDevice (path : String) (descriptor : Int)
  | uname
  | dup2 (old new : Int) (value : Int)
  | mount (source target filesystem : String)
  | execve (path : String) (arguments environment : List String) (failed : Option Int)
  | read (descriptor : Int) (received : Received)

inductive Stop
  | fault (f : Fault)
  /-- The process runs another program. -/
  | replaced
  deriving DecidableEq

abbrev Start : Type → Type := Traced Stop Kernel SysCall

/-- A part that makes only the calls of `Pid1`. -/
def io {α : Type} (f : Pid1 α) : Start α := fun kernel =>
  let r := f kernel.io
  (r.1.mapError .fault, { kernel with io := r.2.1 }, r.2.2.map .io)

def sysCall {α : Type} (event : Reply → SysCall) (value : Reply → α) : Start α := fun kernel =>
  (.ok (value (kernel.replies 0)), { kernel with replies := fun i => kernel.replies (i + 1) },
    [event (kernel.replies 0)])

def sysSetsid : Start Int := sysCall (fun _ => .setsid) Reply.value
def sysOpen (path : String) : Start Int := sysCall (fun reply => .openDevice path reply.value) Reply.value
def sysUname : Start (Int × Names) := sysCall (fun _ => .uname) fun reply => (reply.value, reply.names)
def sysDup2 (old new : Int) : Start Int := sysCall (fun reply => .dup2 old new reply.value) Reply.value
def sysMount (source target filesystem : String) : Start Unit :=
  sysCall (fun _ => .mount source target filesystem) fun _ => ()
def sysRead (descriptor : Int) : Start Received :=
  sysCall (fun reply => .read descriptor reply.received) Reply.received

def sysExecve (path : String) (arguments environment : List String) : Start Int := fun kernel =>
  (match (kernel.replies 0).failed with
    | some r => .ok r
    | none => .error .replaced,
   { kernel with replies := fun i => kernel.replies (i + 1) },
   [.execve path arguments environment (kernel.replies 0).failed])

/-! ### The parts of `_start` -/

def say (descriptor : Int) (text : String) : Start Unit := io (shadowWriteText descriptor (literal text))

/-- The local variables that are settled by the calls of `open`. -/
structure Console where
  descriptor : Int
  device : String
  usingTty : Bool
  sessionResult : Int
  controllingTtyResult : Int

def openConsole : Start Console := do
  let sessionResult ← sysSetsid
  let descriptor ← sysOpen TTY_DEVICE
  if descriptor < 0 then do
    let descriptor ← sysOpen TRACE_DEVICE
    return ⟨descriptor, TRACE_DEVICE, false, sessionResult, -1⟩
  else do
    let controllingTtyResult ← io (sysIoctl descriptor SHADOW_TIOCSCTTY)
    return ⟨descriptor, TTY_DEVICE, true, sessionResult, controllingTtyResult⟩

/-- The terminator that `_start` stores at the end of a field. -/
def terminated (field : Vector Byte SHADOW_UTS_LENGTH) : UtsString :=
  ⟨field.set 64 0 (by decide), by
    rw [Vector.toList_set]
    exact List.mem_iff_getElem.mpr ⟨64, by rw [List.length_set, Vector.length_toList]; decide, List.getElem_set_self _⟩⟩

/-- The identity is static: it is zero until `uname` succeeds. -/
def noIdentity : ShadowUtsname :=
  ⟨terminated (Vector.replicate _ 0), terminated (Vector.replicate _ 0), terminated (Vector.replicate _ 0)⟩

def sayTty (c : Console) : Start Unit :=
  if c.usingTty = true ∧ 0 ≤ c.sessionResult ∧ 0 ≤ c.controllingTtyResult then
    say c.descriptor "Shadow-MSM: controlling ttySHM0 acquired\r\n"
  else if c.usingTty = true then
    say c.descriptor "Shadow-MSM: ttySHM0 open; controlling-TTY claim failed\r\n"
  else pure ()

def sayTimer (descriptor timerIrqCount : Int) : Start Unit :=
  if 0 < timerIrqCount then say descriptor "Shadow-MSM: hardware timer IRQ observed\r\n"
  else say descriptor "Shadow-MSM: userspace watchdog keepalive active\r\n"

/-- The call of `uname`, and what it shows of the result. -/
def identify (descriptor : Int) : Start ShadowUtsname := do
  let (result, names) ← sysUname
  if result = 0 then do
    let identity : ShadowUtsname := ⟨terminated names.sysname, terminated names.release, terminated names.machine⟩
    io (shadowWriteField descriptor (literal "Shadow-MSM: sysname  ") identity.sysname.1.toList)
    io (shadowWriteField descriptor (literal "Shadow-MSM: release  ") identity.release.1.toList)
    io (shadowWriteField descriptor (literal "Shadow-MSM: machine  ") identity.machine.1.toList)
    return identity
  else return noIdentity

/-- The messages before the shell is tried. -/
def greet (c : Console) : Start ShadowUtsname := do
  let timerIrqCount ← io (sysIoctl c.descriptor SHADOW_KEEPALIVE_IOCTL)
  say c.descriptor "Shadow-MSM: entered freestanding PID 1 userspace\r\n"
  sayTty c
  sayTimer c.descriptor timerIrqCount
  identify c.descriptor

/-- The loop over the standard descriptors: whether all of them are set up. -/
def attach (descriptor : Int) : List Int → Start Bool
  | [] => return true
  | standardDescriptor :: rest => do
    let result ← sysDup2 descriptor standardDescriptor
    if result < 0 then do
      say descriptor "Shadow-MSM: standard-descriptor setup failed; using recovery shell\r\n"
      return false
    else attach descriptor rest

/-- The mounts, source, target and type. -/
def volatileMounts : List (String × String × String) :=
  [("devtmpfs", "/dev", "devtmpfs"), ("proc", "/proc", "proc"), ("sysfs", "/sys", "sysfs"), ("tmpfs", "/tmp", "tmpfs")]

def shellArguments : List String := ["/bin/busybox", "sh", "-i"]

def shellEnvironment : List String :=
  ["HOME=/root", "PATH=/bin:/sbin:/usr/bin:/usr/sbin", "PS1=shadow-msm# ", "SHELL=/bin/sh", "USER=root", "LOGNAME=root",
   "TERM=vt100"]

def mountAll : List (String × String × String) → Start Unit
  | [] => return ()
  | (source, target, filesystem) :: rest => do
    sysMount source target filesystem
    mountAll rest

/-- `shadow_try_busybox` from the mounts on; `digits` is what `shadow_write_unsigned` finds in its array. -/
def mountAndExec (digits : Vector Byte 11) : Start Unit := do
  mountAll volatileMounts
  say 1 "Shadow-MSM: starting static BusyBox ARMv5 shell\r\n"
  let result ← sysExecve "/bin/busybox" shellArguments shellEnvironment
  say 1 "Shadow-MSM: BusyBox exec failed; recovery shell active (error "
  io (shadowWriteUnsigned 1 digits (BitVec.ofInt 32 (if result < 0 then -result else 0)))
  say 1 ")\r\n"

def sayAttaching (descriptor : Int) (device : String) : Start Unit := do
  say descriptor "Shadow-MSM: attaching BusyBox to "
  say descriptor device
  say descriptor "\r\n"

def shadowTryBusybox (digits : Vector Byte 11) (descriptor : Int) (device : String) : Start Unit := do
  sayAttaching descriptor device
  let attached ← attach descriptor [0, 1, 2]
  if attached then mountAndExec digits else pure ()

/-- The body of the endless loop. -/
def startRound (digits : Vector Byte 11) (descriptor : Int) (identity : ShadowUtsname) (s : Editor) : Start Editor :=
  if descriptor < 0 then do
    io sysSchedYield
    return s
  else do
    let received ← sysRead descriptor
    io (recoveryRound descriptor identity digits s received)

def startRounds (digits : Vector Byte 11) (descriptor : Int) (identity : ShadowUtsname) : Nat → Editor → Start Editor
  | 0, s => return s
  | n + 1, s => do
    let s ← startRound digits descriptor identity s
    startRounds digits descriptor identity n s

/-- `_start` up to the loop. -/
def beforeLoop (digits : Vector Byte 11) (c : Console) : Start ShadowUtsname :=
  if 0 ≤ c.descriptor then do
    let identity ← greet c
    shadowTryBusybox digits c.descriptor c.device
    say c.descriptor "Shadow-MSM: interactive recovery PID 1 ready\r\nType \x27help\x27 for commands.\r\nshadow-msm# "
    return identity
  else return noIdentity

/-- `_start` with `n` rounds of its loop; the arrays hold anything at first. -/
def start (line : Vector Byte SHADOW_LINE_LENGTH) (digits : Vector Byte 11) (n : Nat) : Start Editor := do
  let c ← openConsole
  let identity ← beforeLoop digits c
  startRounds digits c.descriptor identity n ⟨line, 0⟩

/-! ### What is asked of a run -/

def opens (l : List SysCall) : List (String × Int) :=
  l.filterMap fun
    | .openDevice path descriptor => some (path, descriptor)
    | _ => none

/-- The calls of `execve`, by what they gave. -/
def programs (l : List SysCall) : List (Option Int) :=
  l.filterMap fun
    | .execve _ _ _ failed => some failed
    | _ => none

/-- The lines that are run as commands. -/
def lines (l : List SysCall) : List Bytes :=
  l.filterMap fun
    | .io (.runCommand line) => some line
    | _ => none

/-- The results of the reads. -/
def reads (l : List SysCall) : List Received :=
  l.filterMap fun
    | .read _ received => some received
    | _ => none

def input (l : List SysCall) : Bytes :=
  l.flatMap fun
    | .read _ received => received.bytes
    | _ => []

/-- The terminal is the tty, or the trace device where that cannot be opened. -/
inductive OpensTo : List (String × Int) → Int → Prop
  | tty {d : Int} (h : 0 ≤ d) : OpensTo [(TTY_DEVICE, d)] d
  | trace {e d : Int} (h : e < 0) : OpensTo [(TTY_DEVICE, e), (TRACE_DEVICE, d)] d

/-- A call of the greeting or of the recovery shell, on the descriptor `d`. -/
def SysCall.Plain (d : Int) : SysCall → Prop
  | .io (.write descriptor _) => descriptor = d
  | .io (.ioctl descriptor request) => descriptor = d ∧ request = SHADOW_KEEPALIVE_IOCTL
  | .io .schedYield | .io (.runCommand _) | .uname => True
  | .read descriptor _ => descriptor = d
  | _ => False

/-- All that may be called at all. -/
def SysCall.Confined (d : Int) : SysCall → Prop
  | .setsid => True
  | .openDevice path _ => path = TTY_DEVICE ∨ path = TRACE_DEVICE
  | .dup2 old new _ => old = d ∧ new ∈ [0, 1, 2]
  | .mount source target filesystem => (source, target, filesystem) ∈ volatileMounts
  | .execve path arguments environment _ =>
    path = "/bin/busybox" ∧ arguments = shellArguments ∧ environment = shellEnvironment
  | .io (.write descriptor _) => descriptor = d ∨ descriptor = 1
  | t => t.Plain d ∨ t = .io (.ioctl d SHADOW_TIOCSCTTY)

/-- The calls that need the standard descriptors: also every message that does not go to the terminal itself. -/
def SysCall.Privileged (d : Int) : SysCall → Prop
  | .mount _ _ _ | .execve _ _ _ _ => True
  | .io (.write descriptor _) => descriptor ≠ d
  | _ => False

/-- In front of every such call the three standard descriptors have been set up, and nothing has been read yet. -/
def Attached (d : Int) (l : List SysCall) : Prop :=
  ∀ l₁ t l₂, l = l₁ ++ t :: l₂ → t.Privileged d →
    reads l₁ = [] ∧ ∀ s ∈ [0, 1, 2], ∃ v, 0 ≤ v ∧ .dup2 d s v ∈ l₁

/-- A run that has not come to its end, or has become the shell. -/
inductive Outcome : Except Stop Editor → List SysCall → Prop
  | runs {s : Editor} {l : List SysCall} (failed : none ∉ programs l)
      (commands : List.Forall₂ RunsFrom (lines l) (streamCommands [] (input l))) : Outcome (.ok s) l
  | shell {l : List SysCall} (failed : none ∉ programs l) (commands : lines l = []) (reads : input l = []) :
      Outcome (.error .replaced) (l ++ [.execve "/bin/busybox" shellArguments shellEnvironment none])

/-- A run of `_start` with the terminal `d`. -/
structure Session (d : Int) (r : Except Stop Editor) (l : List SysCall) : Prop where
  opened : OpensTo (opens l) d
  confined : ∀ t ∈ l, t.Confined d
  idle : d < 0 → ∀ t ∈ l, t = .setsid ∨ (∃ path e, t = .openDevice path e) ∨ t = .io .schedYield
  attached : Attached d l
  once : (programs l).length ≤ 1
  outcome : Outcome r l

/-! ### Parts that make plain calls -/

theorem sat_io {α : Type} {f : Pid1 α} {φ : Except Fault α → List Event → Prop} (hf : Sat f φ) :
    Sat (io f) fun r l => ∃ r' l', r = r'.mapError .fault ∧ l = l'.map .io ∧ φ r' l' :=
  ⟨fun kernel => ⟨_, _, rfl, rfl, hf.run kernel.io⟩⟩

/-- The program ends, and all it does is to write to `d`. -/
def Speaks (d : Int) (f : Pid1 Unit) : Prop := Sat f fun r l => r = .ok () ∧ ∀ t ∈ l, IsWrite d t

section

variable {d e : Int} {f g : Pid1 Unit}

theorem Wrote.speaks {text : Bytes} (h : ∀ answers, Wrote d text answers (f answers)) : Speaks d f :=
  ⟨fun answers => ⟨(h answers).ok, (h answers).writes⟩⟩

theorem speaks_text {array string : Bytes} (h : HoldsString array string) : Speaks d (shadowWriteText d array) :=
  Wrote.speaks (wrote_shadowWriteText h)

theorem speaks_literal {text : String} (h : 0 ∉ encodeAscii text.toList) :
    Speaks d (shadowWriteText d (literal text)) := speaks_text (holdsString_literal h)

theorem speaks_unsigned (digits : Vector Byte 11) (value : Arm.Word) : Speaks d (shadowWriteUnsigned d digits value) := by
  obtain ⟨-, text, -, -, -, hwrote⟩ := shadowWriteUnsigned_exact d digits value
  exact Wrote.speaks hwrote

theorem speaks_seq (hf : Speaks d f) (hg : Speaks d g) : Speaks d (do f; g) := by
  apply sat_bind hf
  · rintro e l ⟨h, -⟩
    cases h
  · rintro _ l ⟨-, hl⟩
    refine hg.mono fun r l' ⟨hr, hl'⟩ => ⟨hr, fun t ht => ?_⟩
    rcases List.mem_append.mp ht with ht | ht
    · exact hl t ht
    · exact hl' t ht

theorem speaks_field (label : String) (h : 0 ∉ encodeAscii label.toList) (value : UtsString) :
    Speaks d (shadowWriteField d (literal label) value.1.toList) := by
  obtain ⟨string, hs⟩ := exists_holdsString value.2
  exact speaks_seq (speaks_literal h) (speaks_seq (speaks_text hs) (speaks_literal (by decide)))

/-- The calls are plain ones; no command is run and nothing is read. -/
structure PlainOnly (d : Int) (l : List SysCall) : Prop where
  plain : ∀ t ∈ l, t.Plain d
  lines : lines l = []
  reads : reads l = []

theorem PlainOnly.append {l l' : List SysCall} (h : PlainOnly d l) (h' : PlainOnly d l') : PlainOnly d (l ++ l') where
  plain t ht := (List.mem_append.mp ht).elim (h.plain t) (h'.plain t)
  lines := by rw [Userspace.lines, List.filterMap_append]; exact List.append_eq_nil_iff.mpr ⟨h.lines, h'.lines⟩
  reads := by rw [Userspace.reads, List.filterMap_append]; exact List.append_eq_nil_iff.mpr ⟨h.reads, h'.reads⟩

/-- The part ends, with plain calls only. -/
def Quiet {α : Type} (d : Int) (f : Start α) : Prop := Sat f fun r l => (∃ a, r = .ok a) ∧ PlainOnly d l

theorem quiet_pure {α : Type} (a : α) : Quiet d (pure a) := sat_pure ⟨⟨a, rfl⟩, nofun, rfl, rfl⟩

theorem quiet_bind {α β : Type} {f : Start α} {g : α → Start β} (hf : Quiet d f) (hg : ∀ a, Quiet d (g a)) :
    Quiet d (f >>= g) := by
  apply sat_bind hf
  · rintro e l ⟨⟨a, h⟩, -⟩
    cases h
  · rintro a l ⟨-, hl⟩
    exact (hg a).mono fun r l' ⟨hr, hl'⟩ => ⟨hr, hl.append hl'⟩

theorem sat_speaks (hf : Speaks e f) :
    Sat (io f) fun r l => r = .ok () ∧ ∀ t ∈ l, ∃ bytes, t = .io (.write e bytes) := by
  refine (sat_io hf).mono ?_
  rintro r l ⟨r', l', rfl, rfl, rfl, hl'⟩
  refine ⟨rfl, fun t ht => ?_⟩
  obtain ⟨event, hevent, rfl⟩ := List.mem_map.mp ht
  obtain ⟨bytes, rfl⟩ := hl' event hevent
  exact ⟨bytes, rfl⟩

theorem quiet_io (hf : Speaks d f) : Quiet d (io f) := by
  refine (sat_speaks hf).mono ?_
  rintro r l ⟨rfl, hl⟩
  refine ⟨⟨(), rfl⟩, fun t ht => ?_, List.filterMap_eq_nil_iff.mpr fun t ht => ?_,
    List.filterMap_eq_nil_iff.mpr fun t ht => ?_⟩
  · obtain ⟨bytes, rfl⟩ := hl t ht
    rfl
  · obtain ⟨bytes, rfl⟩ := hl t ht
    rfl
  · obtain ⟨bytes, rfl⟩ := hl t ht
    rfl

theorem quiet_say {text : String} (h : 0 ∉ encodeAscii text.toList) : Quiet d (say d text) :=
  quiet_io (speaks_literal h)

theorem quiet_keepalive : Quiet d (io (sysIoctl d SHADOW_KEEPALIVE_IOCTL)) := by
  refine ⟨fun kernel => ⟨⟨_, rfl⟩, fun t ht => ?_, rfl, rfl⟩⟩
  rw [List.mem_singleton.mp ht]
  exact ⟨rfl, rfl⟩

theorem quiet_uname : Quiet d sysUname := by
  refine ⟨fun kernel => ⟨⟨_, rfl⟩, fun t ht => ?_, rfl, rfl⟩⟩
  rw [List.mem_singleton.mp ht]
  trivial

theorem quiet_field (label : String) (h : 0 ∉ encodeAscii label.toList) (value : UtsString) :
    Quiet d (io (shadowWriteField d (literal label) value.1.toList)) :=
  quiet_io (speaks_field label h value)

theorem quiet_identify : Quiet d (identify d) := by
  refine quiet_bind quiet_uname fun ⟨result, names⟩ => ?_
  dsimp only
  split
  · refine quiet_bind (quiet_field _ (by decide) _) fun _ => ?_
    refine quiet_bind (quiet_field _ (by decide) _) fun _ => ?_
    exact quiet_bind (quiet_field _ (by decide) _) fun _ => quiet_pure _
  · exact quiet_pure _

theorem quiet_greet (c : Console) : Quiet c.descriptor (greet c) := by
  refine quiet_bind quiet_keepalive fun count => ?_
  refine quiet_bind (quiet_say (by decide)) fun _ => ?_
  refine quiet_bind ?_ fun _ => quiet_bind ?_ fun _ => quiet_identify
  · unfold sayTty
    split
    · exact quiet_say (by decide)
    · split
      · exact quiet_say (by decide)
      · exact quiet_pure ()
  · unfold sayTimer
    split
    · exact quiet_say (by decide)
    · exact quiet_say (by decide)

/-! ### The recovery shell -/

/-- An event of the recovery shell on the descriptor `d`. -/
def Event.On (d : Int) (t : Event) : Prop := (SysCall.io t).Plain d

theorem emits_text (array : Bytes) : Emits (shadowWriteText d array) (Event.On d) := by
  refine emits_bind (sat_ofExcept (by simp)) fun remaining => ⟨fun answers t ht => ?_⟩
  obtain ⟨bytes, rfl⟩ := (wrote_writeLoop array remaining answers).writes t ht
  rfl

theorem emits_ofExcept {α : Type} (x : Except Fault α) : Emits (Traced.ofExcept x : Pid1 α) (Event.On d) :=
  sat_ofExcept (by simp)

theorem emits_ioctl : Emits (sysIoctl d SHADOW_KEEPALIVE_IOCTL) (Event.On d) := by
  refine ⟨fun answers t ht => ?_⟩
  rw [List.mem_singleton.mp ht]
  exact ⟨rfl, rfl⟩

theorem emits_choice {x : Pid1 Bool} (hx : Emits x (Event.On d)) (hf : Emits f (Event.On d)) (hg : Emits g (Event.On d)) :
    Emits (do if ← x then f else g) (Event.On d) := by
  refine emits_bind hx fun b => ?_
  split
  · exact hf
  · exact hg

theorem emits_shadowRunCommand (identity : ShadowUtsname) (digits : Vector Byte 11) (line : Bytes) :
    Emits (shadowRunCommand d identity digits line) (Event.On d) := by
  have hequals (text : String) : Emits (Traced.ofExcept (shadowEquals line (literal text)) : Pid1 Bool) (Event.On d) :=
    emits_ofExcept _
  have hor (s t : String) : Emits (Traced.ofExcept (shadowEquals line (literal s)) <||>
      Traced.ofExcept (shadowEquals line (literal t)) : Pid1 Bool) (Event.On d) := by
    refine emits_bind (hequals s) fun b => ?_
    cases b
    · exact hequals t
    · exact emits_pure
  have hfield (label value : Bytes) : Emits (shadowWriteField d label value) (Event.On d) :=
    emits_bind (emits_text _) fun _ => emits_bind (emits_text _) fun _ => emits_text _
  unfold shadowRunCommand
  refine emits_choice (hequals _) (emits_text _) ?_
  refine emits_choice (hequals _) (emits_bind (hfield _ _) fun _ => emits_bind (hfield _ _) fun _ => hfield _ _) ?_
  refine emits_choice (hor _ _) (emits_text _) ?_
  refine emits_choice (hequals _) ?_ ?_
  · refine emits_bind emits_ioctl fun count => emits_bind (emits_text _) fun _ => emits_bind ?_ fun _ => emits_text _
    exact emits_bind (emits_ofExcept _) fun _ => emits_text _
  refine emits_choice (hequals _) (emits_text _) ?_
  refine emits_choice (emits_ofExcept _) (emits_bind (emits_text _) fun _ => emits_text _) ?_
  refine emits_choice (hequals _) (emits_text _) ?_
  refine emits_choice (hor _ _) (emits_text _) ?_
  exact emits_bind (emits_text _) fun _ => emits_bind (emits_text _) fun _ => emits_text _

theorem emits_editCharacter (identity : ShadowUtsname) (digits : Vector Byte 11) (s : Editor) (c : Byte) :
    Emits (editCharacter d identity digits s c) (Event.On d) := by
  unfold editCharacter
  split
  · exact emits_pure
  split
  · refine emits_bind (emits_ofExcept _) fun line => ?_
    have hprompt : Emits (do shadowWriteText d (literal "shadow-msm# "); pure ⟨line, 0⟩ : Pid1 Editor) (Event.On d) :=
      emits_bind (emits_text _) fun _ => emits_pure
    split
    · refine emits_bind (emits_bind ⟨fun answers t ht => ?_⟩ fun _ => emits_shadowRunCommand identity digits _)
        fun _ => hprompt
      rw [List.mem_singleton.mp ht]
      trivial
    · exact hprompt
  split
  · exact emits_pure
  split
  · exact emits_bind (emits_ofExcept _) fun _ => emits_pure
  · exact emits_pure

theorem emits_foldlM {α : Type} {body : Editor → α → Pid1 Editor} (hbody : ∀ s x, Emits (body s x) (Event.On d))
    (xs : List α) (s : Editor) : Emits (xs.foldlM body s) (Event.On d) := by
  induction xs generalizing s with
  | nil => exact emits_pure
  | cons x xs ih =>
    rw [List.foldlM_cons]
    exact emits_bind (hbody s x) ih

theorem emits_recoveryRound (identity : ShadowUtsname) (digits : Vector Byte 11) (s : Editor) (received : Received) :
    Emits (recoveryRound d identity digits s received) (Event.On d) := by
  cases received with
  | nothing =>
    refine emits_bind emits_ioctl fun _ => emits_bind ⟨fun answers t ht => ?_⟩ fun _ => emits_pure
    rw [List.mem_singleton.mp ht]
    trivial
  | input bytes _ => exact emits_foldlM (emits_editCharacter identity digits) bytes s

theorem opens_append (l l' : List SysCall) : opens (l ++ l') = opens l ++ opens l' := List.filterMap_append

theorem programs_append (l l' : List SysCall) : programs (l ++ l') = programs l ++ programs l' := List.filterMap_append

theorem lines_append (l l' : List SysCall) : lines (l ++ l') = lines l ++ lines l' := List.filterMap_append

theorem reads_append (l l' : List SysCall) : reads (l ++ l') = reads l ++ reads l' := List.filterMap_append

theorem input_append (l l' : List SysCall) : input (l ++ l') = input l ++ input l' := List.flatMap_append

theorem input_eq_reads (l : List SysCall) : input l = (reads l).flatMap Received.bytes := by
  induction l with
  | nil => rfl
  | cons t l ih =>
    cases t with
    | read descriptor received => exact congrArg (received.bytes ++ ·) ih
    | _ => exact ih

theorem input_of_reads {l : List SysCall} (h : reads l = []) : input l = [] := by
  rw [input_eq_reads, h]
  rfl

theorem lines_io (l : List Event) : lines (l.map .io) = commandLines l := by
  rw [lines, List.filterMap_map]
  exact List.filterMap_congr fun t _ => by cases t <;> rfl

theorem input_io (l : List Event) : input (l.map .io) = [] := by
  rw [input, List.flatMap_map]
  exact List.flatMap_eq_nil_iff.mpr fun t _ => rfl

/-- Rounds that edit what is read and run the commands in it, where `kept` has been kept of a line. -/
def Recovers (d : Int) (kept : Bytes) (f : Start Editor) : Prop :=
  Sat f fun r l => (∃ s', r = .ok s' ∧ Editing s' ((input l).foldl keepCharacter kept)) ∧
    List.Forall₂ RunsFrom (lines l) (streamCommands kept (input l)) ∧ ∀ t ∈ l, t.Plain d

theorem recovers_round (identity : ShadowUtsname) (digits : Vector Byte 11) (hd : 0 ≤ d) {s : Editor} {kept : Bytes}
    (h : Editing s kept) : Recovers d kept (startRound digits d identity s) := by
  have hread : Sat (sysRead d) fun r l => ∃ received, r = .ok received ∧ l = [.read d received] :=
    ⟨fun kernel => ⟨_, rfl, rfl⟩⟩
  rw [startRound, if_neg (by omega)]
  apply sat_bind hread
  · rintro e l ⟨received, hr, -⟩
    cases hr
  · rintro received l ⟨_, hr, rfl⟩
    cases hr
    have hedits : Edits (recoveryRound d identity digits s received) (received.bytes.foldl keepCharacter kept)
        (streamCommands kept received.bytes) := follows_round received s kept h
    refine (sat_io (hedits.and (emits_recoveryRound identity digits s received))).mono ?_
    rintro r l ⟨r', l', rfl, rfl, ⟨⟨s', rfl, hs'⟩, hl'⟩, hon⟩
    have hinput : input ([.read d received] ++ l'.map SysCall.io) = received.bytes := by
      rw [input_append, input_io, List.append_nil]
      exact List.append_nil _
    rw [hinput, lines_append, lines_io]
    refine ⟨⟨s', rfl, hs'⟩, hl', fun t ht => ?_⟩
    rcases List.mem_append.mp ht with ht | ht
    · rw [List.mem_singleton.mp ht]
      rfl
    · obtain ⟨event, hevent, rfl⟩ := List.mem_map.mp ht
      exact hon event hevent

theorem recovers_rounds (identity : ShadowUtsname) (digits : Vector Byte 11) (hd : 0 ≤ d) (n : Nat) {s : Editor}
    {kept : Bytes} (h : Editing s kept) : Recovers d kept (startRounds digits d identity n s) := by
  induction n generalizing s kept with
  | zero => exact sat_pure ⟨⟨s, rfl, h⟩, .nil, nofun⟩
  | succ n ih =>
    apply sat_bind (recovers_round identity digits hd h)
    · rintro e l ⟨⟨s', hr, -⟩, -⟩
      cases hr
    · rintro s₁ l ⟨⟨s', hr, hs'⟩, hl, hplain⟩
      cases hr
      refine (ih hs').mono ?_
      rintro r l' ⟨⟨s'', hr, hs''⟩, hl', hplain'⟩
      rw [input_append, lines_append, List.foldl_append, streamCommands_append]
      refine ⟨⟨s'', hr, hs''⟩, List.rel_append hl hl', fun t ht => ?_⟩
      exact (List.mem_append.mp ht).elim (hplain t) (hplain' t)

/-- Without a terminal the loop only gives the processor up. -/
theorem sat_rounds_idle (identity : ShadowUtsname) (digits : Vector Byte 11) (hd : d < 0) (n : Nat) (s : Editor) :
    Sat (startRounds digits d identity n s) fun r l => r = .ok s ∧ ∀ t ∈ l, t = .io .schedYield := by
  induction n with
  | zero => exact sat_pure ⟨rfl, nofun⟩
  | succ n ih =>
    have hround : Sat (startRound digits d identity s) fun r l => r = .ok s ∧ l = [.io .schedYield] := by
      rw [startRound, if_pos hd]
      exact ⟨fun kernel => ⟨rfl, rfl⟩⟩
    apply sat_bind hround
    · rintro e l ⟨hr, -⟩
      cases hr
    · rintro _ l ⟨hr, rfl⟩
      cases hr
      refine ih.mono ?_
      rintro r l' ⟨hr, hl'⟩
      exact ⟨hr, fun t ht => (List.mem_cons.mp ht).elim id (hl' t)⟩

/-! ### The shell -/

/-- Calls that open nothing, read nothing and run neither a command nor a program. -/
structure Calm (d : Int) (l : List SysCall) : Prop where
  confined : ∀ t ∈ l, t.Confined d
  opens : opens l = []
  programs : programs l = []
  lines : Userspace.lines l = []
  reads : Userspace.reads l = []

theorem Calm.append {l l' : List SysCall} (h : Calm d l) (h' : Calm d l') : Calm d (l ++ l') where
  confined t ht := (List.mem_append.mp ht).elim (h.confined t) (h'.confined t)
  opens := by rw [opens_append, h.opens, h'.opens]; rfl
  programs := by rw [programs_append, h.programs, h'.programs]; rfl
  lines := by rw [lines_append, h.lines, h'.lines]; rfl
  reads := by rw [reads_append, h.reads, h'.reads]; rfl

/-- The part ends, with such calls only. -/
def Calms {α : Type} (d : Int) (f : Start α) : Prop := Sat f fun r l => (∃ a, r = .ok a) ∧ Calm d l

theorem calms_bind {α β : Type} {f : Start α} {g : α → Start β} (hf : Calms d f) (hg : ∀ a, Calms d (g a)) :
    Calms d (f >>= g) := by
  apply sat_bind hf
  · rintro e l ⟨⟨a, h⟩, -⟩
    cases h
  · rintro a l ⟨-, hl⟩
    exact (hg a).mono fun r l' ⟨hr, hl'⟩ => ⟨hr, hl.append hl'⟩

/-- What goes to the standard output. -/
theorem calms_io (hf : Speaks 1 f) : Calms d (io f) := by
  refine (sat_speaks hf).mono ?_
  rintro r l ⟨rfl, hl⟩
  have hnil {α : Type} {g : SysCall → Option α} (h : ∀ bytes, g (.io (.write 1 bytes)) = none) : l.filterMap g = [] := by
    refine List.filterMap_eq_nil_iff.mpr fun t ht => ?_
    obtain ⟨bytes, rfl⟩ := hl t ht
    exact h bytes
  refine ⟨⟨(), rfl⟩, fun t ht => ?_, hnil fun _ => rfl, hnil fun _ => rfl, hnil fun _ => rfl, hnil fun _ => rfl⟩
  obtain ⟨bytes, rfl⟩ := hl t ht
  exact .inr rfl

theorem SysCall.Plain.confined {t : SysCall} (h : t.Plain d) : t.Confined d := by
  cases t with
  | io event =>
    cases event with
    | write => exact .inl h
    | ioctl | schedYield | runCommand => exact .inl h
  | uname => exact .inl trivial
  | read => exact .inl h
  | setsid | openDevice | dup2 | mount | execve => exact h.elim

theorem SysCall.Plain.unprivileged {t : SysCall} (h : t.Plain d) : ¬ t.Privileged d := by
  cases t with
  | io event =>
    cases event with
    | write => exact not_not_intro h
    | ioctl | schedYield | runCommand => exact id
  | uname | read => exact id
  | setsid | openDevice | dup2 | mount | execve => exact h.elim

theorem opens_plain {l : List SysCall} (h : ∀ t ∈ l, t.Plain d) : opens l = [] := by
  refine List.filterMap_eq_nil_iff.mpr fun t ht => ?_
  have ht := h t ht
  cases t with
  | io | uname | read => rfl
  | setsid | openDevice | dup2 | mount | execve => exact ht.elim

theorem programs_plain {l : List SysCall} (h : ∀ t ∈ l, t.Plain d) : programs l = [] := by
  refine List.filterMap_eq_nil_iff.mpr fun t ht => ?_
  have ht := h t ht
  cases t with
  | io | uname | read => rfl
  | setsid | openDevice | dup2 | mount | execve => exact ht.elim

theorem PlainOnly.calm {l : List SysCall} (h : PlainOnly d l) : Calm d l :=
  ⟨fun t ht => (h.plain t ht).confined, opens_plain h.plain, programs_plain h.plain, h.lines, h.reads⟩

theorem attached_of_unprivileged {l : List SysCall} (h : ∀ t ∈ l, ¬ t.Privileged d) : Attached d l := by
  rintro l₁ t l₂ rfl ht
  exact absurd ht (h t (by simp))

/-- A call behind `l` is one of `l'`, with the rest of `l` in front of it. -/
theorem split_append {l l' l₁ l₂ : List SysCall} {t : SysCall} (h : l ++ l' = l₁ ++ t :: l₂) :
    (∃ a, l = l₁ ++ t :: a) ∨ ∃ a, l₁ = l ++ a ∧ l' = a ++ t :: l₂ := by
  rcases List.append_eq_append_iff.mp h with ⟨a, ha, hl'⟩ | ⟨a, ha, hl₂⟩
  · exact .inr ⟨a, ha, hl'⟩
  · cases a with
    | nil => exact .inr ⟨[], by rw [ha, List.append_nil, List.append_nil], hl₂.symm⟩
    | cons b a =>
      obtain ⟨rfl, -⟩ := List.cons.inj hl₂
      exact .inl ⟨a, ha⟩

theorem Attached.append {l l' : List SysCall} (h : Attached d l) (h' : Attached d l') (hreads : reads l = []) :
    Attached d (l ++ l') := by
  intro l₁ t l₂ heq ht
  rcases split_append heq with ⟨a, ha⟩ | ⟨a, rfl, hl'⟩
  · exact h l₁ t a ha ht
  · obtain ⟨hread, hdup⟩ := h' a t l₂ hl' ht
    refine ⟨by rw [reads_append, hreads, hread]; rfl, fun s hs => ?_⟩
    obtain ⟨v, hv, hmem⟩ := hdup s hs
    exact ⟨v, hv, List.mem_append_right _ hmem⟩

theorem Attached.before {l l' : List SysCall} (h : Attached d l) (h' : ∀ t ∈ l', ¬ t.Privileged d) :
    Attached d (l ++ l') := by
  intro l₁ t l₂ heq ht
  rcases split_append heq with ⟨a, ha⟩ | ⟨a, -, rfl⟩
  · exact h l₁ t a ha ht
  · exact absurd ht (h' t (by simp))

/-- Behind the three calls of `dup2` anything may be called. -/
theorem attached_behind {l l' : List SysCall} (h : ∀ t ∈ l, ¬ t.Privileged d)
    (hdup : ∀ s ∈ [0, 1, 2], ∃ v, 0 ≤ v ∧ .dup2 d s v ∈ l) (hreads : reads (l ++ l') = []) : Attached d (l ++ l') := by
  intro l₁ t l₂ heq ht
  have hread : reads l₁ = [] := by
    rw [heq, reads_append, List.append_eq_nil_iff] at hreads
    exact hreads.1
  refine ⟨hread, fun s hs => ?_⟩
  obtain ⟨v, hv, hmem⟩ := hdup s hs
  rcases split_append heq with ⟨a, rfl⟩ | ⟨a, rfl, -⟩
  · exact absurd ht (h t (by simp))
  · exact ⟨v, hv, List.mem_append_left _ hmem⟩

/-- The calls of `dup2`, as far as they go. -/
theorem sat_attach {ss : List Int} (hss : ∀ s ∈ ss, s ∈ [0, 1, 2]) :
    Sat (attach d ss) fun r l => Calm d l ∧ (∀ t ∈ l, ¬ t.Privileged d) ∧
      ∃ b, r = .ok b ∧ (b = true → ∀ s ∈ ss, ∃ v, 0 ≤ v ∧ .dup2 d s v ∈ l) := by
  induction ss with
  | nil => exact sat_pure ⟨⟨nofun, rfl, rfl, rfl, rfl⟩, nofun, true, rfl, nofun⟩
  | cons s ss ih =>
    have hdup : Sat (sysDup2 d s) fun r l => ∃ v, r = .ok v ∧ l = [.dup2 d s v] := ⟨fun kernel => ⟨_, rfl, rfl⟩⟩
    apply sat_bind hdup
    · rintro e l ⟨v, hr, -⟩
      cases hr
    · rintro v l ⟨_, hr, rfl⟩
      cases hr
      have hcalm : Calm d [.dup2 d s v] := by
        refine ⟨fun t ht => ?_, rfl, rfl, rfl, rfl⟩
        rw [List.mem_singleton.mp ht]
        exact ⟨rfl, hss s (by simp)⟩
      have hunprivileged : ∀ t ∈ [SysCall.dup2 d s v], ¬ t.Privileged d := by
        intro t ht
        rw [List.mem_singleton.mp ht]
        exact id
      by_cases hv : v < 0
      · rw [if_pos hv]
        have hsay : Quiet d (say d "Shadow-MSM: standard-descriptor setup failed; using recovery shell\r\n") :=
          quiet_say (by decide)
        apply sat_bind hsay
        · rintro e l ⟨⟨a, hr⟩, -⟩
          cases hr
        · rintro _ l ⟨-, hl⟩
          refine sat_pure ?_
          rw [List.append_nil]
          refine ⟨hcalm.append hl.calm, fun t ht => ?_, false, rfl, nofun⟩
          exact (List.mem_append.mp ht).elim (hunprivileged t) fun ht => (hl.plain t ht).unprivileged
      · rw [if_neg hv]
        refine (ih fun s hs => hss s (by simp [hs])).mono ?_
        rintro r l ⟨hl, hunpriv, b, hr, hb⟩
        refine ⟨hcalm.append hl, fun t ht => (List.mem_append.mp ht).elim (hunprivileged t) (hunpriv t), b, hr, ?_⟩
        intro hbt s' hs'
        rcases List.mem_cons.mp hs' with rfl | hs'
        · exact ⟨v, by omega, by simp⟩
        · obtain ⟨v', hv', hmem⟩ := hb hbt s' hs'
          exact ⟨v', hv', by simp [hmem]⟩

theorem sat_mountAll {ms : List (String × String × String)} (hms : ∀ x ∈ ms, x ∈ volatileMounts) :
    Sat (mountAll ms) fun r l => r = .ok () ∧ Calm d l := by
  induction ms with
  | nil => exact sat_pure ⟨rfl, nofun, rfl, rfl, rfl, rfl⟩
  | cons x ms ih =>
    obtain ⟨source, target, filesystem⟩ := x
    have hmount : Sat (sysMount source target filesystem) fun r l => r = .ok () ∧ l = [.mount source target filesystem] :=
      ⟨fun kernel => ⟨rfl, rfl⟩⟩
    apply sat_bind hmount
    · rintro e l ⟨hr, -⟩
      cases hr
    · rintro _ l ⟨-, rfl⟩
      refine (ih fun x hx => hms x (by simp [hx])).mono fun r l ⟨hr, hl⟩ => ⟨hr, Calm.append ?_ hl⟩
      refine ⟨fun t ht => ?_, rfl, rfl, rfl, rfl⟩
      rw [List.mem_singleton.mp ht]
      exact hms _ (by simp)

/-- An attempt to become the shell: it fails, or its last call has replaced the program. -/
structure Attempt (d : Int) (r : Except Stop Unit) (l : List SysCall) : Prop where
  confined : ∀ t ∈ l, t.Confined d
  opens : opens l = []
  lines : lines l = []
  reads : reads l = []
  once : (programs l).length ≤ 1
  outcome : r = .ok () ∧ none ∉ programs l ∨
    r = .error .replaced ∧ ∃ l', programs l' = [] ∧ l = l' ++ [.execve "/bin/busybox" shellArguments shellEnvironment none]

theorem Attempt.after {l l' : List SysCall} {r : Except Stop Unit} (h : Calm d l) (h' : Attempt d r l') :
    Attempt d r (l ++ l') := by
  have hprograms : programs (l ++ l') = programs l' := by rw [programs_append, h.programs, List.nil_append]
  refine ⟨fun t ht => (List.mem_append.mp ht).elim (h.confined t) (h'.confined t), ?_, ?_, ?_, ?_, ?_⟩
  · rw [opens_append, h.opens, h'.opens, List.nil_append]
  · rw [lines_append, h.lines, h'.lines, List.nil_append]
  · rw [reads_append, h.reads, h'.reads, List.nil_append]
  · rw [hprograms]
    exact h'.once
  · rw [hprograms]
    rcases h'.outcome with ⟨hr, hl'⟩ | ⟨hr, l'', hl'', rfl⟩
    · exact .inl ⟨hr, hl'⟩
    · refine .inr ⟨hr, l ++ l'', ?_, (List.append_assoc l l'' _).symm⟩
      rw [programs_append, h.programs, hl'', List.nil_append]

/-- The attempt goes on behind a part that ends. -/
theorem attempt_bind {α : Type} {f : Start α} {g : α → Start Unit} (hf : Calms d f)
    (hg : ∀ a, Sat (g a) (Attempt d)) : Sat (f >>= g) (Attempt d) := by
  apply sat_bind hf
  · rintro e l ⟨⟨a, hr⟩, -⟩
    cases hr
  · rintro a l ⟨-, hl⟩
    exact (hg a).mono fun r l' h => h.after hl

theorem sat_mountAndExec (digits : Vector Byte 11) : Sat (mountAndExec digits) (Attempt d) := by
  have hmounts : Calms d (mountAll volatileMounts) :=
    (sat_mountAll fun _ h => h).mono fun _ _ ⟨hr, hl⟩ => ⟨⟨_, hr⟩, hl⟩
  have hsay {text : String} (h : 0 ∉ encodeAscii text.toList) : Calms d (say 1 text) := calms_io (speaks_literal h)
  have hexec : Sat (sysExecve "/bin/busybox" shellArguments shellEnvironment) fun r l =>
      (∃ v, r = .ok v ∧ l = [.execve "/bin/busybox" shellArguments shellEnvironment (some v)]) ∨
        r = .error .replaced ∧ l = [.execve "/bin/busybox" shellArguments shellEnvironment none] := by
    refine ⟨fun kernel => ?_⟩
    rw [sysExecve]
    cases (kernel.replies 0).failed with
    | some v => exact .inl ⟨v, rfl, rfl⟩
    | none => exact .inr ⟨rfl, rfl⟩
  have hconfined (failed : Option Int) :
      ∀ t ∈ [SysCall.execve "/bin/busybox" shellArguments shellEnvironment failed], t.Confined d := by
    intro t ht
    rw [List.mem_singleton.mp ht]
    exact ⟨rfl, rfl, rfl⟩
  refine attempt_bind hmounts fun _ => attempt_bind (hsay (by decide)) fun _ => ?_
  apply sat_bind hexec
  · rintro e l (⟨v, hr, -⟩ | ⟨hr, rfl⟩)
    · cases hr
    · cases hr
      exact ⟨hconfined none, rfl, rfl, rfl, Nat.le_refl 1, .inr ⟨rfl, [], rfl, rfl⟩⟩
  · rintro v l (⟨_, hr, rfl⟩ | ⟨hr, -⟩)
    · cases hr
      have hrest : Calms d (do
          say 1 "Shadow-MSM: BusyBox exec failed; recovery shell active (error "
          io (shadowWriteUnsigned 1 digits (BitVec.ofInt 32 (if v < 0 then -v else 0)))
          say 1 ")\r\n") :=
        calms_bind (hsay (by decide)) fun _ => calms_bind (calms_io (speaks_unsigned _ _)) fun _ => hsay (by decide)
      refine hrest.mono ?_
      rintro r l ⟨⟨_, rfl⟩, hl⟩
      have hprograms : programs ([.execve "/bin/busybox" shellArguments shellEnvironment (some v)] ++ l) = [some v] := by
        rw [programs_append, hl.programs]
        rfl
      refine ⟨fun t ht => (List.mem_append.mp ht).elim (hconfined _ t) (hl.confined t), hl.opens, hl.lines, hl.reads, ?_,
        .inl ⟨rfl, ?_⟩⟩
      · rw [hprograms]
        exact Nat.le_refl 1
      · rw [hprograms]
        simp
    · cases hr

theorem sat_tryBusybox (digits : Vector Byte 11) {device : String} (hdevice : 0 ∉ encodeAscii device.toList) :
    Sat (shadowTryBusybox digits d device) fun r l => Attempt d r l ∧ Attached d l := by
  have hsay {text : String} (h : 0 ∉ encodeAscii text.toList) : Quiet d (say d text) := quiet_say h
  have hattaching : Quiet d (sayAttaching d device) :=
    quiet_bind (hsay (by decide)) fun _ => quiet_bind (hsay hdevice) fun _ => hsay (by decide)
  apply sat_bind hattaching
  · rintro e l ⟨⟨a, hr⟩, -⟩
    cases hr
  · rintro _ l ⟨-, hl⟩
    apply sat_bind (sat_attach fun _ h => h)
    · rintro e l' ⟨-, -, b, hr, -⟩
      cases hr
    · rintro b l' ⟨hl', hunprivileged, _, hr, hb⟩
      cases hr
      have hfront : ∀ t ∈ l ++ l', ¬ t.Privileged d := fun t ht =>
        (List.mem_append.mp ht).elim (fun ht => (hl.plain t ht).unprivileged) (hunprivileged t)
      cases b with
      | true =>
        refine (sat_mountAndExec (d := d) digits).mono fun r l'' h => ?_
        rw [← List.append_assoc]
        have hattempt := h.after (hl.calm.append hl')
        refine ⟨hattempt, attached_behind hfront (fun s hs => ?_) hattempt.reads⟩
        obtain ⟨v, hv, hmem⟩ := hb rfl s hs
        exact ⟨v, hv, List.mem_append_right _ hmem⟩
      | false =>
        refine sat_pure ?_
        rw [List.append_nil]
        have hcalm := hl.calm.append hl'
        exact ⟨⟨hcalm.confined, hcalm.opens, hcalm.lines, hcalm.reads, by rw [hcalm.programs]; exact Nat.zero_le 1,
          .inl ⟨rfl, by rw [hcalm.programs]; exact List.not_mem_nil⟩⟩, attached_of_unprivileged hfront⟩

/-! ### The whole run -/

/-- The calls of `openConsole`, for the terminal that it gives. -/
inductive Opened : Console → List SysCall → Prop
  | tty {d r s : Int} (h : 0 ≤ d) :
      Opened ⟨d, TTY_DEVICE, true, s, r⟩ [.setsid, .openDevice TTY_DEVICE d, .io (.ioctl d SHADOW_TIOCSCTTY)]
  | trace {e d s : Int} (h : e < 0) :
      Opened ⟨d, TRACE_DEVICE, false, s, -1⟩ [.setsid, .openDevice TTY_DEVICE e, .openDevice TRACE_DEVICE d]

theorem sat_openConsole : Sat openConsole fun r l => ∃ c, r = .ok c ∧ Opened c l := by
  refine ⟨fun kernel => ?_⟩
  have hsetsid : sysSetsid kernel = (.ok (kernel.replies 0).value,
      { kernel with replies := fun i => kernel.replies (i + 1) }, [.setsid]) := rfl
  have hopen : sysOpen TTY_DEVICE { kernel with replies := fun i => kernel.replies (i + 1) } =
      (.ok (kernel.replies 1).value, { kernel with replies := fun i => kernel.replies (i + 1 + 1) },
        [.openDevice TTY_DEVICE (kernel.replies 1).value]) := rfl
  rw [openConsole, run_bind_ok hsetsid, run_bind_ok hopen]
  by_cases hneg : (kernel.replies 1).value < 0
  · rw [if_pos hneg]
    exact ⟨_, rfl, .trace hneg⟩
  · rw [if_neg hneg]
    exact ⟨_, rfl, .tty (by omega)⟩

theorem Opened.session {c : Console} {l : List SysCall} (h : Opened c l) :
    OpensTo (opens l) c.descriptor ∧ (∀ t ∈ l, t.Confined c.descriptor) ∧ (∀ t ∈ l, ¬ t.Privileged d) ∧
      programs l = [] ∧ lines l = [] ∧ reads l = [] := by
  cases h with
  | tty hd => exact ⟨.tty hd, by simp [SysCall.Confined], by simp [SysCall.Privileged], rfl, rfl, rfl⟩
  | trace he => exact ⟨.trace he, by simp [SysCall.Confined], by simp [SysCall.Privileged], rfl, rfl, rfl⟩

theorem Opened.device {c : Console} {l : List SysCall} (h : Opened c l) : 0 ∉ encodeAscii c.device.toList := by
  have htty : 0 ∉ encodeAscii TTY_DEVICE.toList := by decide
  have htrace : 0 ∉ encodeAscii TRACE_DEVICE.toList := by decide
  cases h with
  | tty => exact htty
  | trace => exact htrace

theorem Opened.idle {c : Console} {l : List SysCall} (h : Opened c l) (hd : c.descriptor < 0) :
    ∀ t ∈ l, t = .setsid ∨ ∃ path e, t = .openDevice path e := by
  cases h with
  | tty h' => exact absurd hd (by simpa using h')
  | trace => simp

theorem Attempt.before {l l' : List SysCall} (h : Attempt d (.ok ()) l) (h' : Calm d l') :
    Attempt d (.ok ()) (l ++ l') := by
  have hprograms : programs (l ++ l') = programs l := by rw [programs_append, h'.programs, List.append_nil]
  refine ⟨fun t ht => (List.mem_append.mp ht).elim (h.confined t) (h'.confined t), ?_, ?_, ?_, ?_, ?_⟩
  · rw [opens_append, h.opens, h'.opens, List.nil_append]
  · rw [lines_append, h.lines, h'.lines, List.nil_append]
  · rw [reads_append, h.reads, h'.reads, List.nil_append]
  · rw [hprograms]
    exact h.once
  · rw [hprograms]
    rcases h.outcome with ⟨hr, hl⟩ | ⟨hr, -⟩
    · exact .inl ⟨hr, hl⟩
    · cases hr

/-- What happens on a terminal before the loop. -/
theorem sat_beforeLoop (digits : Vector Byte 11) {c : Console} (hd : 0 ≤ c.descriptor)
    (hdevice : 0 ∉ encodeAscii c.device.toList) :
    Sat (beforeLoop digits c) fun r l => (∃ r', Attempt c.descriptor r' l ∧ r.map (fun _ => ()) = r') ∧
      Attached c.descriptor l := by
  have hready : Quiet c.descriptor (say c.descriptor
      "Shadow-MSM: interactive recovery PID 1 ready\r\nType \x27help\x27 for commands.\r\nshadow-msm# ") :=
    quiet_say (by decide)
  rw [beforeLoop, if_pos hd]
  apply sat_bind (quiet_greet c)
  · rintro e l ⟨⟨a, hr⟩, -⟩
    cases hr
  · rintro identity l ⟨-, hl⟩
    have hunprivileged : Attached c.descriptor l := attached_of_unprivileged fun t ht => (hl.plain t ht).unprivileged
    apply sat_bind (sat_tryBusybox digits hdevice)
    · rintro e l' ⟨hl', ha⟩
      exact ⟨⟨_, hl'.after hl.calm, rfl⟩, hunprivileged.append ha hl.reads⟩
    · rintro _ l' ⟨hl', ha⟩
      apply sat_bind hready
      · rintro e l'' ⟨⟨a, hr⟩, -⟩
        cases hr
      · rintro _ l'' ⟨-, hl''⟩
        refine sat_pure ⟨⟨_, (hl'.before ?_).after hl.calm, rfl⟩, hunprivileged.append (ha.before ?_) hl.reads⟩
        · rw [List.append_nil]
          exact hl''.calm
        · rw [List.append_nil]
          exact fun t ht => (hl''.plain t ht).unprivileged

/-- The calls on a terminal, behind those that have opened it. -/
theorem Opened.session_behind {c : Console} {l l' : List SysCall} {r : Except Stop Editor} (h : Opened c l)
    (hd : 0 ≤ c.descriptor) (hconfined : ∀ t ∈ l', t.Confined c.descriptor) (hopens : opens l' = [])
    (hattached : Attached c.descriptor l') (honce : (programs l').length ≤ 1) (ho : Outcome r (l ++ l')) :
    Session c.descriptor r (l ++ l') := by
  obtain ⟨hopens', hconfined', hunprivileged, hprograms, -, hreads⟩ := h.session
  refine ⟨?_, fun t ht => (List.mem_append.mp ht).elim (hconfined' t) (hconfined t), fun hneg => absurd hd (by omega),
    (attached_of_unprivileged hunprivileged).append hattached hreads, ?_, ho⟩
  · rw [opens_append, hopens, List.append_nil]
    exact hopens'
  · rw [programs_append, hprograms, List.nil_append]
    exact honce

/-- The attempt on a terminal has become the shell. -/
theorem Opened.session_shell {c : Console} {l l' : List SysCall} {e : Stop} (h : Opened c l) (hd : 0 ≤ c.descriptor)
    (hl' : Attempt c.descriptor (.error e) l') (ha : Attached c.descriptor l') :
    Session c.descriptor (.error e) (l ++ l') := by
  obtain ⟨-, -, -, hprograms, hlines, hreads⟩ := h.session (d := c.descriptor)
  rcases hl'.outcome with ⟨hr, -⟩ | ⟨hr, l'', hl'', rfl⟩
  · cases hr
  cases hr
  have hlines' := hl'.lines
  have hinput' := input_of_reads hl'.reads
  rw [lines_append, List.append_eq_nil_iff] at hlines'
  rw [input_append, List.append_eq_nil_iff] at hinput'
  refine h.session_behind hd hl'.confined hl'.opens ha hl'.once ?_
  rw [← List.append_assoc]
  refine .shell ?_ ?_ ?_
  · rw [programs_append, hprograms, hl'']
    exact List.not_mem_nil
  · rw [lines_append, hlines, hlines'.1]
    rfl
  · rw [input_append, input_of_reads hreads, hinput'.1]
    rfl

/-- The attempt has failed, and the recovery shell runs the commands of what it reads. -/
theorem Opened.session_recovery {c : Console} {l l' l'' : List SysCall} {s : Editor} (h : Opened c l)
    (hd : 0 ≤ c.descriptor) (hl' : Attempt c.descriptor (.ok ()) l') (ha : Attached c.descriptor l')
    (hcommands : List.Forall₂ RunsFrom (lines l'') (streamCommands [] (input l''))) (hplain : ∀ t ∈ l'', t.Plain c.descriptor) :
    Session c.descriptor (.ok s) (l ++ (l' ++ l'')) := by
  obtain ⟨-, -, -, hprograms, hlines, hreads⟩ := h.session (d := c.descriptor)
  have hprograms' : programs (l' ++ l'') = programs l' := by
    rw [programs_append, programs_plain hplain, List.append_nil]
  refine h.session_behind hd ?_ ?_ ?_ ?_ (.runs ?_ ?_)
  · exact fun t ht => (List.mem_append.mp ht).elim (hl'.confined t) fun ht => (hplain t ht).confined
  · rw [opens_append, hl'.opens, opens_plain hplain]
    rfl
  · exact ha.before fun t ht => (hplain t ht).unprivileged
  · rw [hprograms']
    exact hl'.once
  · rw [programs_append, hprograms, List.nil_append, hprograms']
    rcases hl'.outcome with ⟨-, hnone⟩ | ⟨hr, -⟩
    · exact hnone
    · cases hr
  · rw [lines_append, lines_append, hlines, hl'.lines, input_append, input_append, input_of_reads hreads,
      input_of_reads hl'.reads]
    exact hcommands

/-- No terminal opened, and PID 1 yields from then on. -/
theorem Opened.session_idle {c : Console} {l l' : List SysCall} {s : Editor} (h : Opened c l) (hd : c.descriptor < 0)
    (hyield : ∀ t ∈ l', t = .io .schedYield) : Session c.descriptor (.ok s) (l ++ l') := by
  obtain ⟨hopens, hconfined, hunprivileged, hprograms, hlines, hreads⟩ := h.session (d := c.descriptor)
  have hplain : ∀ t ∈ l', t.Plain c.descriptor := by
    intro t ht
    rw [hyield t ht]
    trivial
  have hlines' : lines l' = [] := List.filterMap_eq_nil_iff.mpr fun t ht => by rw [hyield t ht]
  have hinput' : input l' = [] := List.flatMap_eq_nil_iff.mpr fun t ht => by rw [hyield t ht]
  refine ⟨?_, ?_, fun _ t ht => ?_, ?_, ?_, .runs ?_ ?_⟩
  · rw [opens_append, opens_plain hplain, List.append_nil]
    exact hopens
  · exact fun t ht => (List.mem_append.mp ht).elim (hconfined t) fun ht => (hplain t ht).confined
  · rcases List.mem_append.mp ht with ht | ht
    · exact (h.idle hd t ht).imp_right .inl
    · exact .inr (.inr (hyield t ht))
  · refine attached_of_unprivileged fun t ht => ?_
    exact (List.mem_append.mp ht).elim (hunprivileged t) fun ht => (hplain t ht).unprivileged
  · rw [programs_append, hprograms, programs_plain hplain]
    exact Nat.zero_le 1
  · rw [programs_append, hprograms, programs_plain hplain]
    exact List.not_mem_nil
  · rw [lines_append, input_append, hlines, hlines', input_of_reads hreads, hinput']
    exact .nil

theorem sat_start (line : Vector Byte SHADOW_LINE_LENGTH) (digits : Vector Byte 11) (n : Nat) :
    Sat (start line digits n) fun r l => ∃ d, Session d r l := by
  apply sat_bind sat_openConsole
  · rintro e l ⟨c, hr, -⟩
    cases hr
  · rintro c l ⟨_, hr, hopened⟩
    cases hr
    have hstart : Editing ⟨line, 0⟩ [] := ⟨by simp, List.take_zero, by simp⟩
    by_cases hd : 0 ≤ c.descriptor
    · apply sat_bind (sat_beforeLoop digits hd hopened.device)
      · rintro e l' ⟨⟨r', hl', rfl⟩, ha⟩
        exact ⟨c.descriptor, hopened.session_shell hd hl' ha⟩
      · rintro identity l' ⟨⟨r', hl', rfl⟩, ha⟩
        refine (recovers_rounds identity digits hd n hstart).mono ?_
        rintro r l'' ⟨⟨s', rfl, -⟩, hcommands, hplain⟩
        exact ⟨c.descriptor, hopened.session_recovery hd hl' ha hcommands hplain⟩
    · have hbefore : beforeLoop digits c = pure noIdentity := by rw [beforeLoop, if_neg hd]
      rw [hbefore, pure_bind]
      refine (sat_rounds_idle noIdentity digits (by omega) n _).mono ?_
      rintro r l' ⟨rfl, hyield⟩
      exact ⟨c.descriptor, hopened.session_idle (by omega) hyield⟩

end

end ShadowMsm.Userspace
