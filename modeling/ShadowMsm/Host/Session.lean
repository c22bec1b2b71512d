import ShadowMsm.Host.Console
import ShadowMsm.Lib.Runs

/-!
# What a session may send, and when

A session with Linux as a transition system: the host sends scripted lines and keyboard items and receives texts, and the
flags of `follow_linux` say what it may send next.  In every run of it (`Session.sequenced_of_run`)

* the scripted lines that are sent are the first ones, each once and in order, and no keyboard item is sent before the last
  of them;
* between two scripted lines there is a text with the prompt;
* a session that begins without the prompt sends nothing before the first text with it.
-/

namespace ShadowMsm.Host

/-- `"shadow-msm# " in text` -/
def HasPrompt (text : List Char) : Prop := "shadow-msm# ".toList <:+: text

instance (text : List Char) : Decidable (HasPrompt text) := inferInstanceAs (Decidable (_ <:+: _))

namespace Session

/-- What happens in a session. -/
inductive Entry
  /-- a scripted line is sent -/
  | command (line : List Char)
  /-- a keyboard item is sent -/
  | key (bs : Bytes)
  /-- the text of a frame is received -/
  | text (text : List Char)
  /-- a call of `read_frame` meets its deadline -/
  | pause
  deriving DecidableEq, Repr

def Entry.isInput : Entry → Bool
  | .command _ => true
  | .key _ => true
  | _ => false

/-- One entry, if the session may have it. -/
def step (rawKeys : Bool) (s : Follow) : Entry → Option Follow
  | .command line =>
    match s.pendingLines with
    | [] => none
    | next :: rest =>
      if s.terminalReady && s.scriptedReady && line = next then some { s with scriptedReady := false, pendingLines := rest }
      else none
  | .key bs =>
    if s.terminalReady && s.pendingLines.isEmpty && bs ≠ [] then
      some { s with scriptedReady := s.scriptedReady && rawKeys }
    else none
  | .text text => some (if HasPrompt text then { s with terminalReady := true, scriptedReady := true } else s)
  | .pause => some s

def sentCommands (es : List Entry) : List (List Char) :=
  es.filterMap fun e => match e with | .command line => some line | _ => none

def sentKeys (es : List Entry) : List Bytes := es.filterMap fun e => match e with | .key bs => some bs | _ => none

/-- A text with the prompt is among the entries. -/
def Prompted (es : List Entry) : Prop := ∃ text, .text text ∈ es ∧ HasPrompt text

/-- The order of a session with the scripted lines `commands`; `boot` says that it begins without the prompt. -/
structure Sequenced (commands : List (List Char)) (boot : Bool) (es : List Entry) : Prop where
  commands_prefix : sentCommands es <+: commands
  key_after_commands : ∀ pre bs post, es = pre ++ .key bs :: post → sentCommands pre = commands
  input_after_prompt : boot = true → ∀ pre e post, es = pre ++ e :: post → e.isInput = true → Prompted pre
  prompt_between : ∀ pre line mid line' post,
    es = pre ++ .command line :: (mid ++ .command line' :: post) → Prompted mid

/-! ### One entry -/

section

variable {rawKeys : Bool} {s s' : Follow} {line text : List Char} {bs : Bytes} {e : Entry} {es : List Entry}

theorem step_command : step rawKeys s (.command line) = some s' ↔ s.terminalReady = true ∧ s.scriptedReady = true ∧
    ∃ rest, s.pendingLines = line :: rest ∧ s' = { s with scriptedReady := false, pendingLines := rest } := by
  rcases s with ⟨terminal, scripted, - | ⟨next, rest⟩⟩
  · simp [step]
  · simp only [step, Option.ite_none_right_eq_some, Bool.and_eq_true, decide_eq_true_eq, Option.some.injEq,
      List.cons.injEq]
    constructor
    · rintro ⟨⟨⟨h1, h2⟩, rfl⟩, rfl⟩
      exact ⟨h1, h2, rest, ⟨rfl, rfl⟩, rfl⟩
    · rintro ⟨h1, h2, rest', ⟨rfl, rfl⟩, rfl⟩
      exact ⟨⟨⟨h1, h2⟩, rfl⟩, rfl⟩

theorem step_key : step rawKeys s (.key bs) = some s' ↔ s.terminalReady = true ∧ s.pendingLines = [] ∧ bs ≠ [] ∧
    s' = { s with scriptedReady := s.scriptedReady && rawKeys } := by
  simp only [step, Option.ite_none_right_eq_some, Bool.and_eq_true, List.isEmpty_iff, decide_eq_true_eq,
    Option.some.injEq, eq_comm (a := s')]
  tauto

theorem step_text (h : HasPrompt text) :
    step rawKeys s (.text text) = some { s with terminalReady := true, scriptedReady := true } := by
  simp [step, h]

theorem step_text_of_not (h : ¬ HasPrompt text) : step rawKeys s (.text text) = some s := by
  simp [step, h]

/-- The lines that are pending are sent from the front. -/
theorem pendingLines_step (h : step rawKeys s e = some s') : s.pendingLines = sentCommands [e] ++ s'.pendingLines := by
  cases e with
  | command line =>
    obtain ⟨-, -, rest, hrest, rfl⟩ := step_command.mp h
    exact hrest
  | key bs =>
    obtain ⟨-, -, -, rfl⟩ := step_key.mp h
    rfl
  | text text =>
    by_cases hp : HasPrompt text
    · rw [step_text hp] at h
      cases h
      rfl
    · rw [step_text_of_not hp] at h
      cases h
      rfl
  | pause =>
    cases h
    rfl

/-- A flag is set by a text with the prompt only. -/
theorem flag_step (h : step rawKeys s e = some s') (hp : ¬ Prompted [e]) :
    (s'.terminalReady = true → s.terminalReady = true) ∧ (s'.scriptedReady = true → s.scriptedReady = true) := by
  cases e with
  | command line =>
    obtain ⟨h1, -, rest, -, rfl⟩ := step_command.mp h
    exact ⟨fun _ => h1, nofun⟩
  | key bs =>
    obtain ⟨h1, -, -, rfl⟩ := step_key.mp h
    refine ⟨id, ?_⟩
    intro h2
    exact (Bool.and_eq_true_iff.mp h2).1
  | text text =>
    have hp' : ¬ HasPrompt text := fun ht => hp ⟨text, List.mem_singleton.mpr rfl, ht⟩
    rw [step_text_of_not hp'] at h
    cases h
    exact ⟨id, id⟩
  | pause =>
    cases h
    exact ⟨id, id⟩

/-! ### Runs -/

theorem sentCommands_append (es es' : List Entry) : sentCommands (es ++ es') = sentCommands es ++ sentCommands es' :=
  List.filterMap_append

theorem sentKeys_append (es es' : List Entry) : sentKeys (es ++ es') = sentKeys es ++ sentKeys es' :=
  List.filterMap_append

theorem pendingLines_run (h : Runs.run (step rawKeys) s es = some s') :
    s.pendingLines = sentCommands es ++ s'.pendingLines := by
  induction es generalizing s with
  | nil =>
    obtain rfl := Option.some.inj h
    rfl
  | cons e es ih =>
    obtain ⟨m, hm, h⟩ := Runs.run_cons.mp h
    rw [pendingLines_step hm, ih h, ← List.append_assoc, ← sentCommands_append]
    rfl

theorem flag_run (h : Runs.run (step rawKeys) s es = some s') (hp : ¬ Prompted es) :
    (s'.terminalReady = true → s.terminalReady = true) ∧ (s'.scriptedReady = true → s.scriptedReady = true) := by
  induction es generalizing s with
  | nil =>
    obtain rfl := Option.some.inj h
    exact ⟨id, id⟩
  | cons e es ih =>
    obtain ⟨m, hm, h⟩ := Runs.run_cons.mp h
    have hone : ¬ Prompted [e] := by
      rintro ⟨t, ht, hprompt⟩
      exact hp ⟨t, by simpa using Or.inl (List.mem_singleton.mp ht), hprompt⟩
    have hrest : ¬ Prompted es := by
      rintro ⟨t, ht, hprompt⟩
      exact hp ⟨t, List.mem_cons_of_mem e ht, hprompt⟩
    obtain ⟨h1, h2⟩ := flag_step hm hone
    obtain ⟨h3, h4⟩ := ih h hrest
    exact ⟨h1 ∘ h3, h2 ∘ h4⟩

/-- Input is sent to a terminal that is ready. -/
theorem terminalReady_of_input (h : step rawKeys s e = some s') (he : e.isInput = true) : s.terminalReady = true := by
  cases e with
  | command line => exact (step_command.mp h).1
  | key bs => exact (step_key.mp h).1
  | text | pause => cases he

/-- Every run of a session is in order. -/
theorem sequenced_of_run (h : Runs.run (step rawKeys) s es = some s') :
    Sequenced s.pendingLines (!s.terminalReady) es := by
  refine ⟨⟨s'.pendingLines, (pendingLines_run h).symm⟩, ?_, ?_, ?_⟩
  · rintro pre bs post rfl
    obtain ⟨m, hpre, hpost⟩ := Runs.run_append.mp h
    obtain ⟨m', hkey, -⟩ := Runs.run_cons.mp hpost
    have hpending := pendingLines_run hpre
    rw [(step_key.mp hkey).2.1, List.append_nil] at hpending
    exact hpending.symm
  · rintro hboot pre e post rfl he
    obtain ⟨m, hpre, hpost⟩ := Runs.run_append.mp h
    obtain ⟨m', hinput, -⟩ := Runs.run_cons.mp hpost
    by_contra hp
    have := (flag_run hpre hp).1 (terminalReady_of_input hinput he)
    simp [this] at hboot
  · rintro pre line mid line' post rfl
    obtain ⟨m, -, h⟩ := Runs.run_append.mp h
    obtain ⟨m₁, hfirst, h⟩ := Runs.run_cons.mp h
    obtain ⟨m₂, hmid, h⟩ := Runs.run_append.mp h
    obtain ⟨m₃, hsecond, -⟩ := Runs.run_cons.mp h
    obtain ⟨-, -, rest, -, rfl⟩ := step_command.mp hfirst
    obtain ⟨-, hready, -⟩ := step_command.mp hsecond
    by_contra hp
    exact absurd ((flag_run hmid hp).2 hready) Bool.false_ne_true

end

end Session

end ShadowMsm.Host
