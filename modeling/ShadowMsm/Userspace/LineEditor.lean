import ShadowMsm.Userspace.Commands

/-!
# The line editor of PID 1

The loop of `_start` once a terminal is open.  The buffer of the line keeps what longer lines have left in it, and a
line may come in any number of reads; the commands that are run are those of the stream that was read
(`recoveryLoop_commands`).
-/

namespace ShadowMsm.Userspace

open Traced

def SHADOW_LINE_LENGTH : Nat := 96
def SHADOW_INPUT_LENGTH : Nat := 64

structure Editor where
  line : Vector Byte SHADOW_LINE_LENGTH
  lineLength : Nat

/-- What a read gives: an error or nothing, or up to as many bytes as the buffer has. -/
inductive Received
  | nothing
  | input (bytes : Bytes) (h : 1 ≤ bytes.length ∧ bytes.length ≤ SHADOW_INPUT_LENGTH)

def Received.bytes : Received → Bytes
  | .nothing => []
  | .input bytes _ => bytes

/-- The call of `shadow_run_command` with the line. -/
def runCommand (descriptor : Int) (identity : ShadowUtsname) (result : Vector Byte 11) (line : Bytes) : Pid1 Unit := do
  (fun answers => (.ok (), answers, [.runCommand line]) : Pid1 Unit)
  shadowRunCommand descriptor identity result line

section

variable (descriptor : Int) (identity : ShadowUtsname) (result : Vector Byte 11)

/-- The body of the inner loop. -/
def editCharacter (s : Editor) (character : Byte) : Pid1 Editor :=
  if character = 0x0D then pure s
  else if character = 0x0A then do
    let line ← Traced.ofExcept (store s.line s.lineLength 0)
    if s.lineLength ≠ 0 then runCommand descriptor identity result line.toList
    shadowWriteText descriptor (literal "shadow-msm# ")
    pure ⟨line, 0⟩
  else if character = 8 ∨ character = 127 then
    pure { s with lineLength := if s.lineLength ≠ 0 then s.lineLength - 1 else s.lineLength }
  else if 32 ≤ character ∧ character ≤ 126 ∧ s.lineLength < SHADOW_LINE_LENGTH - 1 then do
    let line ← Traced.ofExcept (store s.line s.lineLength character)
    pure ⟨line, s.lineLength + 1⟩
  else pure s

/-- The body of the endless loop. -/
def recoveryRound (s : Editor) : Received → Pid1 Editor
  | .nothing => do
    let _ ← sysIoctl descriptor SHADOW_KEEPALIVE_IOCTL
    sysSchedYield
    pure s
  | .input bytes _ => bytes.foldlM (editCharacter descriptor identity result) s

/-- As many rounds of the loop as there are reads. -/
def recoveryLoop (s : Editor) (reads : List Received) : Pid1 Editor :=
  reads.foldlM (recoveryRound descriptor identity result) s

end

/-! ### The commands of a stream -/

def Printable (c : Byte) : Prop := 32 ≤ c ∧ c ≤ 126

instance (c : Byte) : Decidable (Printable c) := inferInstanceAs (Decidable (_ ∧ _))

/-- What a character makes of what is kept of a line. -/
def keepCharacter (kept : Bytes) (c : Byte) : Bytes :=
  if c = 0x0A then []
  else if c = 8 ∨ c = 127 then kept.dropLast
  else if Printable c ∧ kept.length < 95 then kept ++ [c]
  else kept

/-- The commands of a stream, where `kept` has been kept of the first line. -/
def streamCommands (kept : Bytes) : Bytes → List Bytes
  | [] => []
  | c :: stream => (if c = 0x0A ∧ kept ≠ [] then [kept] else []) ++ streamCommands (keepCharacter kept c) stream

theorem streamCommands_append (kept a b : Bytes) :
    streamCommands kept (a ++ b) = streamCommands kept a ++ streamCommands (a.foldl keepCharacter kept) b := by
  induction a generalizing kept with
  | nil => rfl
  | cons c a ih => rw [List.cons_append, streamCommands, streamCommands, ih, List.foldl_cons, List.append_assoc]

/-- The buffer that a command is run from: the command is in it with its zero byte. -/
structure RunsFrom (array command : Bytes) : Prop where
  length : array.length = 96
  holds : HoldsString array command
  nonempty : command ≠ []
  bounded : command.length ≤ 95
  printable : ∀ c ∈ command, Printable c

/-! ### One character -/

/-- What is kept of the line is in the front of the buffer. -/
structure Editing (s : Editor) (kept : Bytes) : Prop where
  bounded : s.lineLength ≤ 95
  front : s.line.toList.take s.lineLength = kept
  printable : ∀ c ∈ kept, Printable c

/-- A run that leaves `kept'` of the line and has run the commands. -/
def Edits (f : Pid1 Editor) (kept' : Bytes) (commands : List Bytes) : Prop :=
  Sat f fun r l => (∃ s', r = .ok s' ∧ Editing s' kept') ∧ List.Forall₂ RunsFrom (commandLines l) commands

section

variable {descriptor : Int} {identity : ShadowUtsname} {result : Vector Byte 11} {s : Editor} {kept : Bytes}

theorem Editing.length (h : Editing s kept) : kept.length = s.lineLength := by
  have hle := h.bounded
  rw [← h.front, List.length_take, Vector.length_toList, SHADOW_LINE_LENGTH]
  omega

theorem edits_pure (h : Editing s kept) : Edits (pure s) kept [] := sat_pure ⟨⟨s, rfl, h⟩, .nil⟩

/-- The line that a line feed ends is a string in the buffer. -/
theorem Editing.holdsString (h : Editing s kept) (hin : s.lineLength < SHADOW_LINE_LENGTH) :
    HoldsString (s.line.set s.lineLength 0 hin).toList kept := by
  refine ⟨fun h0 => ?_, ?_⟩
  · have := (h.printable 0 h0).1
    simp at this
  · rw [← h.front, ← take_set s.line hin 0]
    exact List.take_prefix _ _

theorem sat_runCommand {line string : Bytes} (h : HoldsString line string) :
    Sat (runCommand descriptor identity result line) fun r l => r = .ok () ∧ commandLines l = [line] := by
  refine ⟨fun answers => ?_⟩
  have hends : Ends (shadowRunCommand descriptor identity result line) := shadowRunCommand_ends identity result h
  obtain ⟨hr, hl⟩ := hends.run answers
  exact ⟨hr, congrArg (line :: ·) hl⟩

/-- The end of a line, once its zero byte is stored. -/
theorem edits_prompt {line : Vector Byte SHADOW_LINE_LENGTH} :
    Edits (do shadowWriteText descriptor (literal "shadow-msm# "); pure ⟨line, 0⟩) [] [] := by
  have hwrite : Ends (shadowWriteText descriptor (literal "shadow-msm# ")) := ends_literal (by decide)
  apply sat_bind hwrite
  · rintro e l ⟨h, -⟩
    cases h
  · rintro _ l ⟨-, hl⟩
    refine sat_pure ⟨⟨_, rfl, by simp, List.take_zero, by simp⟩, ?_⟩
    rw [List.append_nil, hl]
    exact .nil

theorem edits_lineFeed (h : Editing s kept) :
    Edits (editCharacter descriptor identity result s 0x0A) [] (if kept ≠ [] then [kept] else []) := by
  have hbounded := h.bounded
  have hlength := h.length
  have hin : s.lineLength < SHADOW_LINE_LENGTH := by rw [SHADOW_LINE_LENGTH]; omega
  have hstore : Traced.ofExcept (store s.line s.lineLength 0) = (pure (s.line.set s.lineLength 0 hin) : Pid1 _) := by
    rw [store_eq s.line hin]
    rfl
  rw [editCharacter, if_neg (by decide), if_pos rfl, hstore, pure_bind]
  by_cases hempty : kept = []
  · have hzero : s.lineLength = 0 := by rw [← hlength, hempty]; rfl
    rw [if_neg (not_not.mpr hempty), if_neg (not_not.mpr hzero)]
    exact edits_prompt
  · have hpos : s.lineLength ≠ 0 := by rw [← hlength]; exact (List.length_pos_iff.mpr hempty).ne'
    have hholds := h.holdsString hin
    rw [if_pos hempty, if_pos hpos]
    apply sat_bind (sat_runCommand hholds)
    · rintro e l ⟨hr, -⟩
      cases hr
    · rintro _ l ⟨-, hl⟩
      refine edits_prompt.mono fun r l' ⟨hr, hl'⟩ => ⟨hr, ?_⟩
      rw [commandLines_append, hl, List.forall₂_nil_right_iff.mp hl', List.append_nil]
      refine .cons ⟨?_, hholds, hempty, by omega, h.printable⟩ .nil
      exact Vector.length_toList

theorem edits_delete (h : Editing s kept) {c : Byte} (hc : c = 8 ∨ c = 127) :
    Edits (editCharacter descriptor identity result s c) kept.dropLast [] := by
  have hbounded := h.bounded
  have hlength := h.length
  have hcr : c ≠ 0x0D := by rcases hc with rfl | rfl <;> decide
  have hlf : c ≠ 0x0A := by rcases hc with rfl | rfl <;> decide
  rw [editCharacter, if_neg hcr, if_neg hlf, if_pos hc]
  have hone : (if s.lineLength ≠ 0 then s.lineLength - 1 else s.lineLength) = s.lineLength - 1 := by
    split <;> omega
  rw [hone]
  refine edits_pure ⟨?_, ?_, fun c hc => h.printable c (List.dropLast_subset _ hc)⟩
  · show s.lineLength - 1 ≤ 95
    omega
  · show s.line.toList.take (s.lineLength - 1) = kept.dropLast
    rw [List.dropLast_eq_take, ← h.front, List.take_take, h.front, hlength]
    congr 1
    omega

theorem edits_keep (h : Editing s kept) {c : Byte} (hc : Printable c) (hroom : kept.length < 95) :
    Edits (editCharacter descriptor identity result s c) (kept ++ [c]) [] := by
  have hlength := h.length
  have hin : s.lineLength < SHADOW_LINE_LENGTH := by rw [SHADOW_LINE_LENGTH]; omega
  have hroom' : s.lineLength < SHADOW_LINE_LENGTH - 1 := by rw [SHADOW_LINE_LENGTH]; omega
  have hstore : Traced.ofExcept (store s.line s.lineLength c) = (pure (s.line.set s.lineLength c hin) : Pid1 _) := by
    rw [store_eq s.line hin]
    rfl
  have hcr : c ≠ 0x0D := by rintro rfl; exact absurd hc (by decide)
  have hlf : c ≠ 0x0A := by rintro rfl; exact absurd hc (by decide)
  have hdelete : ¬ (c = 8 ∨ c = 127) := by rintro (rfl | rfl) <;> exact absurd hc (by decide)
  rw [editCharacter, if_neg hcr, if_neg hlf, if_neg hdelete, if_pos ⟨hc.1, hc.2, hroom'⟩, hstore, pure_bind]
  refine edits_pure ⟨?_, ?_, ?_⟩
  · show s.lineLength + 1 ≤ 95
    omega
  · rw [← h.front]
    exact take_set s.line hin c
  · intro d hd
    rcases List.mem_append.mp hd with hd | hd
    · exact h.printable d hd
    · rw [List.mem_singleton.mp hd]
      exact hc

theorem edits_ignore (h : Editing s kept) {c : Byte} (hlf : c ≠ 0x0A) (hdelete : ¬ (c = 8 ∨ c = 127))
    (hkeep : ¬ (Printable c ∧ kept.length < 95)) : Edits (editCharacter descriptor identity result s c) kept [] := by
  have hlength := h.length
  have hnot : ¬ (32 ≤ c ∧ c ≤ 126 ∧ s.lineLength < SHADOW_LINE_LENGTH - 1) := by
    rintro ⟨h1, h2, h3⟩
    rw [SHADOW_LINE_LENGTH] at h3
    exact hkeep ⟨⟨h1, h2⟩, by omega⟩
  rw [editCharacter, if_neg hlf, if_neg hdelete, if_neg hnot, ite_self]
  exact edits_pure h

/-- A program of the editor does what the bytes do to the stream's commands. -/
def Follows (f : Editor → Pid1 Editor) (bytes : Bytes) : Prop :=
  ∀ s kept, Editing s kept → Edits (f s) (bytes.foldl keepCharacter kept) (streamCommands kept bytes)

theorem follows_character (c : Byte) :
    Follows (fun s => editCharacter descriptor identity result s c) [c] := by
  intro s kept h
  show Edits _ (keepCharacter kept c) ((if c = 0x0A ∧ kept ≠ [] then [kept] else []) ++ [])
  rw [List.append_nil, keepCharacter]
  by_cases hlf : c = 0x0A
  · subst hlf
    simpa using edits_lineFeed h
  · have hnone : ¬ (c = 0x0A ∧ kept ≠ []) := fun hc => hlf hc.1
    rw [if_neg hlf, if_neg hnone]
    by_cases hdelete : c = 8 ∨ c = 127
    · rw [if_pos hdelete]
      exact edits_delete h hdelete
    · rw [if_neg hdelete]
      by_cases hkeep : Printable c ∧ kept.length < 95
      · rw [if_pos hkeep]
        exact edits_keep h hkeep.1 hkeep.2
      · rw [if_neg hkeep]
        exact edits_ignore h hlf hdelete hkeep

/-- Both loops follow their bytes if their bodies do. -/
theorem follows_foldlM {α : Type} {body : Editor → α → Pid1 Editor} {bytes : α → Bytes}
    (hbody : ∀ x, Follows (fun s => body s x) (bytes x)) (xs : List α) :
    Follows (fun s => xs.foldlM body s) (xs.flatMap bytes) := by
  intro s kept h
  induction xs generalizing s kept with
  | nil => exact edits_pure h
  | cons x xs ih =>
    simp only [List.foldlM_cons, List.flatMap_cons, List.foldl_append, streamCommands_append]
    apply sat_bind (hbody x s kept h)
    · rintro e l ⟨⟨s', hr, -⟩, -⟩
      cases hr
    · rintro s₁ l ⟨⟨s', hr, hs'⟩, hl⟩
      cases hr
      refine (ih s₁ _ hs').mono fun r l' ⟨hr, hl'⟩ => ⟨hr, ?_⟩
      rw [commandLines_append]
      exact List.rel_append hl hl'

theorem follows_round (received : Received) :
    Follows (fun s => recoveryRound descriptor identity result s received) received.bytes := by
  cases received with
  | nothing =>
    intro s kept h
    exact ⟨fun answers => ⟨⟨s, rfl, h⟩, .nil⟩⟩
  | input bytes hlen =>
    have hloop : Follows (fun s => bytes.foldlM (editCharacter descriptor identity result) s) (bytes.flatMap fun c => [c]) :=
      follows_foldlM follows_character bytes
    rwa [List.flatMap_singleton'] at hloop

/-- However a stream comes in reads, and whatever the buffer holds at first, no access is outside the buffer, and the
commands that are run from it are those of the stream. -/
theorem recoveryLoop_commands (descriptor : Int) (identity : ShadowUtsname) (result : Vector Byte 11)
    (line : Vector Byte SHADOW_LINE_LENGTH) (reads : List Received) (answers : Answers) :
    ∃ s' answers' l, recoveryLoop descriptor identity result ⟨line, 0⟩ reads answers = (.ok s', answers', l) ∧
      List.Forall₂ RunsFrom (commandLines l) (streamCommands [] (reads.flatMap Received.bytes)) := by
  have hstart : Editing ⟨line, 0⟩ [] := ⟨by simp, List.take_zero, by simp⟩
  have hloop : Follows (fun s => recoveryLoop descriptor identity result s reads) (reads.flatMap Received.bytes) :=
    follows_foldlM follows_round reads
  obtain ⟨⟨s', hr, -⟩, hl⟩ := (hloop _ _ hstart).run answers
  exact ⟨s', _, _, Prod.ext hr rfl, hl⟩

end

end ShadowMsm.Userspace
