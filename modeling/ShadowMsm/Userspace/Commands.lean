import ShadowMsm.Python
import ShadowMsm.Userspace.Decimal

/-!
# The commands of the recovery shell

Every command ends, whatever the kernel answers, and reads the line no further than to its zero byte
(`shadowRunCommand_ends`).
-/

namespace ShadowMsm.Userspace

open Traced

def SHADOW_UTS_LENGTH : Nat := 65
def SHADOW_KEEPALIVE_IOCTL : Nat := 0x534d0001

/-- A C string literal. -/
def literal (text : String) : Bytes := encodeAscii text.toList ++ [0]

/-- An array that has a zero byte. -/
abbrev UtsString : Type := { array : Vector Byte SHADOW_UTS_LENGTH // 0 ∈ array.toList }

/-- The fields of `struct shadow_utsname` that a command shows. -/
structure ShadowUtsname where
  sysname : UtsString
  release : UtsString
  machine : UtsString

def shadowWriteField (descriptor : Int) (label value : Bytes) : Pid1 Unit := do
  shadowWriteText descriptor label
  shadowWriteText descriptor value
  shadowWriteText descriptor (literal "\r\n")

def shadowShowUname (descriptor : Int) (identity : ShadowUtsname) : Pid1 Unit := do
  shadowWriteField descriptor (literal "sysname : ") identity.sysname.1.toList
  shadowWriteField descriptor (literal "release : ") identity.release.1.toList
  shadowWriteField descriptor (literal "machine : ") identity.machine.1.toList

def shadowShowHardware (descriptor : Int) : Pid1 Unit :=
  shadowWriteText descriptor (literal
    ("Board   : ZTE K3765-Z\r\n" ++
     "SoC     : Qualcomm MSM6290\r\n" ++
     "CPU     : ARM926EJ-S / ARMv5TEJ, MIDR 0x41069265\r\n" ++
     "RAM     : 32 MiB physical, Linux at 0x00200000\r\n" ++
     "Runtime : resident monitor at 0x00800000\r\n" ++
     "Boot    : volatile RAM-only handoff\r\n" ++
     "NAND    : untouched and not mounted\r\n"))

def statusCommand (descriptor : Int) (result : Vector Byte 11) : Pid1 Unit := do
  let timerIrqCount ← sysIoctl descriptor SHADOW_KEEPALIVE_IOCTL
  shadowWriteText descriptor (literal "Timer IRQ count: ")
  shadowWriteUnsigned descriptor result (BitVec.ofInt 32 (if timerIrqCount > 0 then timerIrqCount else 0))
  shadowWriteText descriptor (literal "\r\nNAND operations: none\r\n")

def echoCommand (descriptor : Int) (line : Bytes) : Pid1 Unit := do
  shadowWriteText descriptor (line.drop 5)
  shadowWriteText descriptor (literal "\r\n")

def unknownCommand (descriptor : Int) (line : Bytes) : Pid1 Unit := do
  shadowWriteText descriptor (literal "Unknown command: ")
  shadowWriteText descriptor line
  shadowWriteText descriptor (literal "\r\nType \x27help\x27 for commands.\r\n")

/-- `line` is the array that the line is in; `result` is what `shadow_write_unsigned` finds in its own. -/
def shadowRunCommand (descriptor : Int) (identity : ShadowUtsname) (result : Vector Byte 11) (line : Bytes) :
    Pid1 Unit := do
  let equals (text : String) : Pid1 Bool := Traced.ofExcept (shadowEquals line (literal text))
  if ← equals "help" then
    shadowWriteText descriptor (literal "Commands: help uname hardware status about echo clear\r\n")
  else if ← equals "uname" then shadowShowUname descriptor identity
  else if ← equals "hardware" <||> equals "hw" then shadowShowHardware descriptor
  else if ← equals "status" then statusCommand descriptor result
  else if ← equals "about" then
    shadowWriteText descriptor (literal
      ("Shadow-MSM RAM-resident Linux bring-up shell\r\n" ++
       "GPL-3.0-only; no persistent-storage access\r\n"))
  else if ← Traced.ofExcept (shadowStartsWith line (literal "echo ")) then echoCommand descriptor line
  else if ← equals "clear" then shadowWriteText descriptor (literal "\x1b[2J\x1b[H")
  else if ← equals "exit" <||> equals "reboot" then
    shadowWriteText descriptor (literal "PID 1 remains active; power-cycle to return to stock firmware\r\n")
  else unknownCommand descriptor line

/-- The lines that `shadow_run_command` is given. -/
def commandLines (l : List Event) : List Bytes :=
  l.filterMap fun
    | .runCommand line => some line
    | _ => none

/-- The program ends without a fault and runs no command. -/
def Ends (f : Pid1 Unit) : Prop := Sat f fun r l => r = .ok () ∧ commandLines l = []

/-! ### Strings -/

theorem holdsString_literal {text : String} (h : 0 ∉ encodeAscii text.toList) :
    HoldsString (literal text) (encodeAscii text.toList) := ⟨h, List.prefix_rfl⟩

theorem notMem_encodeAscii_append {s t : String} (hs : 0 ∉ encodeAscii s.toList) (ht : 0 ∉ encodeAscii t.toList) :
    0 ∉ encodeAscii (s ++ t).toList := by
  rw [encodeAscii, String.toList_append, List.map_append, List.mem_append]
  rintro (h | h)
  · exact hs h
  · exact ht h

/-- An array with a zero byte holds a string. -/
theorem exists_holdsString {array : Bytes} (h : 0 ∈ array) : ∃ string, HoldsString array string := by
  induction array with
  | nil => cases h
  | cons c rest ih =>
    by_cases hc : c = 0
    · exact ⟨[], holdsString_nil.mpr hc⟩
    · obtain ⟨string, hs⟩ := ih ((List.mem_cons.mp h).resolve_left (Ne.symm hc))
      exact ⟨c :: string, holdsString_cons.mpr ⟨rfl, hc, hs⟩⟩

theorem HoldsString.drop {array string : Bytes} (h : HoldsString array string) {n : Nat} (hn : n ≤ string.length) :
    HoldsString (array.drop n) (string.drop n) := by
  obtain ⟨rest, rfl⟩ := h.2
  refine ⟨fun h0 => h.1 (List.mem_of_mem_drop h0), rest, ?_⟩
  rw [List.append_assoc, List.append_assoc, List.drop_append_of_le_length hn]

/-! ### The commands end -/

section

variable {descriptor : Int} {f g : Pid1 Unit}

theorem commandLines_append (l l' : List Event) : commandLines (l ++ l') = commandLines l ++ commandLines l' :=
  List.filterMap_append

theorem ends_seq (hf : Ends f) (hg : Ends g) : Ends (do f; g) := by
  apply sat_bind hf
  · rintro e l ⟨h, -⟩
    cases h
  · rintro _ l ⟨-, hl⟩
    refine hg.mono fun r l' ⟨hr, hl'⟩ => ⟨hr, ?_⟩
    rw [commandLines_append, hl, hl']
    rfl

theorem Wrote.ends {text : Bytes} (h : ∀ answers, Wrote descriptor text answers (f answers)) : Ends f := by
  refine ⟨fun answers => ⟨(h answers).ok, List.filterMap_eq_nil_iff.mpr fun t ht => ?_⟩⟩
  obtain ⟨bytes, rfl⟩ := (h answers).writes t ht
  rfl

theorem ends_text {array string : Bytes} (h : HoldsString array string) : Ends (shadowWriteText descriptor array) :=
  Wrote.ends (wrote_shadowWriteText h)

theorem ends_literal {text : String} (h : 0 ∉ encodeAscii text.toList) :
    Ends (shadowWriteText descriptor (literal text)) := ends_text (holdsString_literal h)

theorem ends_unsigned (result : Vector Byte 11) (value : Arm.Word) :
    Ends (shadowWriteUnsigned descriptor result value) := by
  obtain ⟨array, text, harray, hholds, -⟩ := unsignedText_exact result value
  have hrun : shadowWriteUnsigned descriptor result value = shadowWriteText descriptor array.toList := by
    funext answers
    rw [shadowWriteUnsigned, run_ofExcept_bind harray]
  rw [hrun]
  exact ends_text hholds

theorem ends_ioctl {request : Nat} {k : Int → Pid1 Unit} (h : ∀ r, Ends (k r)) :
    Ends (do let r ← sysIoctl descriptor request; k r) := by
  refine ⟨fun answers => ?_⟩
  have hrun : sysIoctl descriptor request answers =
      (.ok (answers 0).ioctl, fun i => answers (i + 1), [.ioctl descriptor request]) := rfl
  rw [run_bind_ok hrun]
  obtain ⟨hr, hl⟩ := (h (answers 0).ioctl).run fun i => answers (i + 1)
  exact ⟨hr, hl⟩

theorem ends_field (label : String) (h : 0 ∉ encodeAscii label.toList) (value : UtsString) :
    Ends (shadowWriteField descriptor (literal label) value.1.toList) := by
  obtain ⟨string, hs⟩ := exists_holdsString value.2
  exact ends_seq (ends_literal h) (ends_seq (ends_text hs) (ends_literal (by decide +kernel)))

theorem ends_showUname (identity : ShadowUtsname) : Ends (shadowShowUname descriptor identity) :=
  ends_seq (ends_field _ (by decide +kernel) _) (ends_seq (ends_field _ (by decide +kernel) _) (ends_field _ (by decide +kernel) _))

theorem ends_showHardware : Ends (shadowShowHardware descriptor) := by
  refine ends_literal ?_
  iterate 6 refine notMem_encodeAscii_append ?_ (by decide +kernel)
  decide +kernel

theorem ends_status (result : Vector Byte 11) : Ends (statusCommand descriptor result) :=
  ends_ioctl fun _ => ends_seq (ends_literal (by decide +kernel)) (ends_seq (ends_unsigned _ _) (ends_literal (by decide +kernel)))

theorem ends_unknown {line string : Bytes} (h : HoldsString line string) : Ends (unknownCommand descriptor line) :=
  ends_seq (ends_literal (by decide +kernel)) (ends_seq (ends_text h) (ends_literal (by decide +kernel)))

theorem ends_echo {line string : Bytes} (h : HoldsString line string)
    (hecho : encodeAscii "echo ".toList <+: string) : Ends (echoCommand descriptor line) :=
  ends_seq (ends_text (h.drop hecho.length_le)) (ends_literal (by decide +kernel))

/-! ### The choice of the command -/

/-- The program only looks at memory, and finds out whether `p` holds. -/
def Decides (x : Pid1 Bool) (p : Prop) : Prop := ∃ b, (b = true ↔ p) ∧ ∀ answers, x answers = (.ok b, answers, [])

theorem decides_ofExcept {x : Except Fault Bool} {p : Prop} [Decidable p] (h : x = .ok (decide p)) :
    Decides (Traced.ofExcept x) p := ⟨decide p, decide_eq_true_iff, fun _ => by rw [Traced.ofExcept, h]⟩

theorem decides_or {x y : Pid1 Bool} {p q : Prop} (hx : Decides x p) (hy : Decides y q) : Decides (x <||> y) (p ∨ q) := by
  obtain ⟨b, hb, hx⟩ := hx
  obtain ⟨c, hc, hy⟩ := hy
  refine ⟨b || c, by rw [Bool.or_eq_true, hb, hc], fun answers => ?_⟩
  rw [orM, run_bind_ok (hx answers)]
  cases b
  · exact hy answers
  · rfl

theorem ends_if {x : Pid1 Bool} {p : Prop} (hx : Decides x p) (hf : p → Ends f) (hg : ¬ p → Ends g) :
    Ends (do if ← x then f else g) := by
  obtain ⟨b, hb, hx⟩ := hx
  refine ⟨fun answers => ?_⟩
  rw [run_bind_ok (hx answers), List.nil_append]
  by_cases h : b = true
  · rw [if_pos h]
    exact (hf (hb.mp h)).run answers
  · rw [if_neg h]
    exact (hg (h ∘ hb.mpr)).run answers

/-- The command ends without a fault, whichever one the line names. -/
theorem shadowRunCommand_ends (identity : ShadowUtsname) (result : Vector Byte 11) {line string : Bytes}
    (h : HoldsString line string) : Ends (shadowRunCommand descriptor identity result line) := by
  have hequals {text : String} (ht : 0 ∉ encodeAscii text.toList) :
      Decides (Traced.ofExcept (shadowEquals line (literal text))) (string = encodeAscii text.toList) :=
    decides_ofExcept (shadowEquals_eq h (holdsString_literal ht))
  have hecho : Decides (Traced.ofExcept (shadowStartsWith line (literal "echo "))) (encodeAscii "echo ".toList <+: string) :=
    decides_ofExcept (shadowStartsWith_eq h (holdsString_literal (by decide +kernel)))
  unfold shadowRunCommand
  refine ends_if (hequals (by decide +kernel)) (fun _ => ends_literal (by decide +kernel)) fun _ => ?_
  refine ends_if (hequals (by decide +kernel)) (fun _ => ends_showUname identity) fun _ => ?_
  refine ends_if (decides_or (hequals (by decide +kernel)) (hequals (by decide +kernel))) (fun _ => ends_showHardware) fun _ => ?_
  refine ends_if (hequals (by decide +kernel)) (fun _ => ends_status result) fun _ => ?_
  refine ends_if (hequals (by decide +kernel)) (fun _ => ends_literal (by decide +kernel)) fun _ => ?_
  refine ends_if hecho (ends_echo h) fun _ => ?_
  refine ends_if (hequals (by decide +kernel)) (fun _ => ends_literal (by decide +kernel)) fun _ => ?_
  refine ends_if (decides_or (hequals (by decide +kernel)) (hequals (by decide +kernel))) (fun _ => ends_literal (by decide +kernel)) fun _ => ?_
  exact ends_unknown h

end

end ShadowMsm.Userspace
