import ShadowMsm.Host.SessionEnd

/-!
# Prompts and frames

The prompt is looked for in each frame by itself, so a prompt enables one scripted line if it lies within a frame, and two
prompts in one frame enable one line only.  A `follow_linux` without keyboard input transmits as many scripted lines as
there are frames with a prompt (`writes_followSession`), so two ways of cutting the same text into frames make it transmit the
same lines exactly if they have the same number of these frames, up to the number of lines (`same_writes_iff`).
-/

namespace ShadowMsm.Host

/-! ### The texts of frames -/

/-- The text that a call of `read_frame` returns. -/
def frameText : Except ReadError (Option Bytes) → Option (List Char)
  | .ok (some payload) => (extractText (some payload) true).toOption
  | _ => none

/-- The texts that the first `n` calls return. -/
def frameTexts (n : Nat) (polls : List Poll) : List (List Char) := (readCalls n polls).filterMap frameText

/-- The frames with a prompt, where `hexReturns` those before a text of eight hexadecimal digits. -/
def promptFrames (hexReturns : Bool) : List (List Char) → Nat
  | [] => 0
  | text :: texts =>
    if hexReturns && replyMatches .hex text then 0
    else (if HasPrompt text then 1 else 0) + promptFrames hexReturns texts

/-- The packets of a scripted line. -/
def linePackets (line : List Char) : List Bytes := (inputChunks (encodeAscii line)).map inputPacket

/-- One line may be sent at once. -/
def Follow.credit (s : Follow) : Nat := if s.terminalReady && s.scriptedReady then 1 else 0

section

variable {m : Mode} {s s' : Follow} {idle : Option Nat} {w w' : World} {l : List Event}

/-- The packets of an item are its writes. -/
theorem writes_itemEvents (data : Bytes) : writes (itemEvents data) = (inputChunks data).map inputPacket := by
  unfold itemEvents
  induction inputChunks data with
  | nil => rfl
  | cons chunk chunks ih =>
    rw [List.flatMap_cons, writes_append, ih]
    rfl

/-- The input of a quiet pass: what it sends and what it leaves to send. -/
theorem InputCase.lines {r : Except Exn (Option Follow)} (h : InputCase m s w r w' l) (hkeys : w.keys = [])
    (houtcomes : w.outcomes = []) :
    ∃ s', r = .ok (some s') ∧ w'.keys = [] ∧ w'.outcomes = [] ∧ w'.polls = w.polls ∧
      (s'.credit = 0 ∨ s'.pendingLines = []) ∧
      ∀ c, writes l ++ (s'.pendingLines.take c).flatMap linePackets =
        (s.pendingLines.take (s.credit + c)).flatMap linePackets := by
  have hsuffix := h.called.1
  rw [houtcomes, List.suffix_nil] at hsuffix
  have hpolls := h.called.2.1
  cases h with
  | @nothing u keys hk hlook htyped hscript =>
    rw [hkeys, eq_comm, List.append_eq_nil_iff] at hk
    obtain ⟨-, rfl⟩ := hk
    by_cases hready : s.terminalReady = true ∧ s.scriptedReady = true
    · have hpending := hscript hready.1 hready.2
      refine ⟨s, rfl, rfl, houtcomes, rfl, .inr hpending, ?_⟩
      intro c
      rw [hpending]
      simp [writes]
    · have hcredit : s.credit = 0 := by
        rw [Follow.credit, if_neg (by simpa using hready)]
      refine ⟨s, rfl, rfl, houtcomes, rfl, .inl hcredit, ?_⟩
      intro c
      rw [hcredit, Nat.zero_add]
      rfl
  | detach hk =>
    rw [hkeys] at hk
    cases hk
  | @input e s₁ u keys r' w' l hinput hstep hk hlook htyped hcall hsent hwrites =>
    rw [hkeys, eq_comm, List.append_eq_nil_iff] at hk
    obtain ⟨rfl, rfl⟩ := hk
    obtain ⟨-, _, rfl⟩ := hcall.quiet houtcomes
    cases e with
    | command line =>
      obtain ⟨hterminal, hscripted, rest, hrest, rfl⟩ := Session.step_command.mp hstep
      refine ⟨_, rfl, hcall.keys, hsuffix, hpolls, .inl ?_, ?_⟩
      · simp [Follow.credit]
      · intro c
        have hcredit : s.credit = 1 := by
          rw [Follow.credit, hterminal, hscripted]
          rfl
        rw [hcredit, hrest, hsent rfl, Nat.add_comm 1 c, List.take_succ_cons, List.flatMap_cons]
        exact congrArg (· ++ _) (writes_itemEvents _)
    | key bs => cases htyped
    | text | pause => cases hinput

/-- The texts of some passes are that of the first one, if it has one, and those of the others. -/
theorem frameTexts_succ (k : Nat) (polls : List Poll) :
    frameTexts (k + 1) polls =
      (frameText (ShadowMsm.readFrame polls).1).toList ++ frameTexts k (ShadowMsm.readFrame polls).2 := by
  unfold frameTexts
  rw [readCalls, List.filterMap_cons]
  cases frameText (ShadowMsm.readFrame polls).1 <;> rfl

/-- With no line to send at once, one more line goes after a text exactly if the text has a prompt. -/
theorem take_credit_step {raw : Bool} {s s' : Follow} {text : List Char}
    (hstep : Session.step raw s (.text text) = some s') (hs : s.credit = 0 ∨ s.pendingLines = []) (c : Nat) :
    s'.pendingLines.take (s'.credit + c) = s.pendingLines.take ((if HasPrompt text then 1 else 0) + c) := by
  by_cases hprompt : HasPrompt text
  · rw [Session.step_text hprompt] at hstep
    cases hstep
    rw [if_pos hprompt]
    rfl
  · rw [Session.step_text_of_not hprompt] at hstep
    cases hstep
    rw [if_neg hprompt]
    rcases hs with hs | hs
    · rw [hs]
    · rw [hs, List.take_nil, List.take_nil]

/-- The rest of a quiet pass: it ends the loop, or it goes on with the flags after the text it has read. -/
theorem RestCase.prompts {n : Nat} {expired : Bool} {r : Except Exn (Ending ⊕ Follow × Option Nat)}
    (h : RestCase m expired s idle w r w' l) (hexpired : expired = decide (n = 0)) (hkeys : w.keys = [])
    (houtcomes : w.outcomes = []) (hok : ∀ x ∈ readCalls n w.polls, ∃ o, x = .ok o)
    (hs : s.credit = 0 ∨ s.pendingLines = []) :
    writes l = [] ∧ ((∃ r' : Except Exn Ending, r = r'.map .inl ∧
        (r' = .ok .idle ∨ promptFrames m.hexReturns (frameTexts n w.polls) = 0)) ∨
      ∃ k s' idle', n = k + 1 ∧ r = .ok (.inr (s', idle')) ∧ w'.keys = [] ∧ w'.outcomes = [] ∧
        (∀ x ∈ readCalls k w'.polls, ∃ o, x = .ok o) ∧
        (s'.pendingLines.take (s'.credit + promptFrames m.hexReturns (frameTexts k w'.polls))).flatMap linePackets =
          (s.pendingLines.take (promptFrames m.hexReturns (frameTexts n w.polls))).flatMap linePackets) := by
  -- after the last pass the time is over and no frame is read
  cases n with
  | zero =>
    subst hexpired
    have hzero : promptFrames m.hexReturns (frameTexts 0 w.polls) = 0 := rfl
    cases h with
    | @maxRuntime r' w' _ hbounded hcall =>
      obtain ⟨-, _, rfl⟩ := hcall.quiet houtcomes
      exact ⟨rfl, .inl ⟨.ok .maxRuntime, rfl, .inr hzero⟩⟩
    | interrupted => exact ⟨rfl, .inl ⟨.error _, rfl, .inr hzero⟩⟩
    | idle hexpired | disconnected hexpired | mismatch hexpired | pause hexpired | raised hexpired | text hexpired =>
      cases hexpired
  | succ k =>
    subst hexpired
    have hfirst : ∃ o, (ShadowMsm.readFrame w.polls).1 = .ok o := hok _ List.mem_cons_self
    have hrest {x : Except ReadError (Option Bytes)} (hx : x ∈ readCalls k (ShadowMsm.readFrame w.polls).2) :
        ∃ o, x = .ok o := hok x (List.mem_cons_of_mem _ hx)
    have htexts := frameTexts_succ k w.polls
    cases h with
    | maxRuntime hexpired | interrupted hexpired => simp at hexpired
    | @idle r' w' _ hidle hcall =>
      obtain ⟨-, _, rfl⟩ := hcall.quiet houtcomes
      exact ⟨rfl, .inl ⟨.ok .idle, rfl, .inl rfl⟩⟩
    | disconnected _ hread | mismatch _ hread =>
      obtain ⟨o, ho⟩ := hfirst
      rw [hread.result] at ho
      cases ho
    | @pause made rest _ hidle hread =>
      rw [hread.result] at htexts
      refine ⟨by simp, .inr ⟨k, s, _, rfl, rfl, hkeys, houtcomes, ?_, ?_⟩⟩
      · intro x hx
        apply hrest
        rw [hread.result]
        exact hx
      · rw [htexts]
        rcases hs with hs | hs
        · rw [hs, Nat.zero_add]
          rfl
        · simp [hs]
    | @raised made rest payload e w' _ hread hcall =>
      obtain ⟨-, _, ha⟩ := hcall.quiet houtcomes
      cases ha
    | @text made rest payload text s₁ idle₁ p w₁ _ hidle hread htext hstep hcall hidle₁ =>
      have hpolls : w₁.polls = rest := hcall.polls
      have htextOf : frameText (.ok (some payload)) = some text := by rw [frameText, htext]; rfl
      rw [hread.result, htextOf] at htexts
      refine ⟨by simp [writes], ?_⟩
      rw [htexts]
      -- where hexadecimal returns count, such a text ends the session and no later prompt does
      by_cases hhex : (m.hexReturns && replyMatches .hex text) = true
      · rw [if_pos hhex]
        refine .inl ⟨.ok (.returned (intBase16 text)), rfl, .inr ?_⟩
        change promptFrames m.hexReturns (text :: _) = 0
        rw [promptFrames, if_pos hhex]
      · rw [if_neg hhex]
        refine .inr ⟨k, s₁, idle₁, rfl, rfl, hcall.keys.trans hkeys, (hcall.quiet houtcomes).1, ?_, ?_⟩
        · intro x hx
          apply hrest
          rw [hread.result]
          change x ∈ readCalls k rest
          rw [← hpolls]
          exact hx
        · change _ = (s.pendingLines.take (promptFrames m.hexReturns (text :: frameTexts k rest))).flatMap _
          change (s₁.pendingLines.take (s₁.credit + promptFrames m.hexReturns (frameTexts k w₁.polls))).flatMap _ = _
          rw [promptFrames, if_neg hhex, hpolls, take_credit_step hstep hs]

/-- The loop of a session without keyboard input sends as many lines as there are frames with a prompt. -/
theorem writes_loop {n : Nat} (hkeys : w.keys = []) (houtcomes : w.outcomes = [])
    (hok : ∀ x ∈ readCalls n w.polls, ∃ o, x = .ok o) (hidle : (sessionLoop m s idle n w).1 ≠ .ok .idle) :
    writes (sessionLoop m s idle n w).2.2 =
      (s.pendingLines.take (s.credit + promptFrames m.hexReturns (frameTexts n w.polls))).flatMap linePackets := by
  induction n using Nat.strong_induction_on generalizing s idle w with
  | h n ih =>
    let y : Head := ⟨n, s, idle, w⟩
    rcases hpass : y.pass m with ⟨r, w', l⟩
    rcases sessionPass_cases hpass with ⟨e, hinput, -⟩ | ⟨hinput, -⟩ | ⟨s₁, w₁, l₁, l₂, hinput, hrest, rfl⟩
    · obtain ⟨_, he, -⟩ := hinput.lines hkeys houtcomes
      cases he
    · obtain ⟨_, he, -⟩ := hinput.lines hkeys houtcomes
      cases he
    obtain ⟨_, hs₁, hkeys₁, houtcomes₁, hpolls₁, hcredit, hlines⟩ := hinput.lines hkeys houtcomes
    cases hs₁
    have hok₁ : ∀ x ∈ readCalls n w₁.polls, ∃ o, x = .ok o := by rwa [hpolls₁]
    obtain ⟨hwrites, ⟨r', rfl, hend⟩ | ⟨k, s₂, idle₂, rfl, rfl, hkeys₂, houtcomes₂, hok₂, hlines₂⟩⟩ :=
      hrest.prompts rfl hkeys₁ houtcomes₁ hok₁ hcredit
    · have hloop : sessionLoop m s idle n w = (r', w', l₁ ++ l₂) := loop_of_pass (x := y) hpass
      rw [hloop] at hidle ⊢
      rw [hpolls₁] at hend
      rcases hend with hend | hend
      · exact absurd hend hidle
      · rw [writes_append, hwrites, hend]
        simpa using hlines 0
    · have hloop := loop_of_reaches (.pass hpass (.refl (m := m) ⟨k, s₂, idle₂, w'⟩))
      change sessionLoop m s idle (k + 1) w = _ at hloop
      rw [hloop] at hidle ⊢
      rw [List.append_nil, writes_append, writes_append, hwrites, List.append_nil]
      change writes l₁ ++ writes (sessionLoop m s₂ idle₂ k w').2.2 = _
      rw [ih k (Nat.lt_succ_self k) hkeys₂ houtcomes₂ hok₂ hidle, hlines₂, hpolls₁, hlines]

end

/-! ### Two ways of cutting -/

/-- A run without keyboard input and errors in which the text of the target arrives in these frames: they are what the reads
before the last pass return, and `idle_deadline` does not come before. -/
structure Receives (m : Mode) (address r0 r1 r2 : Int) (commands : List (List Char)) (boot : Bool) (w : World)
    (texts : List (List Char)) : Prop where
  keys : w.keys = []
  outcomes : w.outcomes = []
  frames : ∃ idle w₁ n w₂, drawIdle m w = (.ok idle, w₁, []) ∧ drawPasses w₁ = (.ok n, w₂, []) ∧
    (∀ x ∈ readCalls n w.polls, ∃ o, x = .ok o) ∧ frameTexts n w.polls = texts
  idle : (followSession m address r0 r1 r2 commands boot w).1 ≠ .ok .idle

/-- The scripted lines. -/
def scriptedLines (commands : List (List Char)) : List (List Char) :=
  commands.map fun command => rstripLine command ++ ['\n']

section

variable {m : Mode} {address r0 r1 r2 : Int} {commands : List (List Char)} {boot : Bool} {w w' : World} {l : List Event}
  {texts texts' : List (List Char)}

theorem Called.eq_of_quiet {α : Type} {r : Except Exn α} (h : Called w r w') (ho : w.outcomes = []) : w' = w := by
  rw [h.world, (h.quiet ho).1, ← ho]

/-- A session without keyboard input and errors transmits its boot request and as many lines as there are prompts: one more
in a session with a running shell. -/
theorem writes_followSession (h : Receives m address r0 r1 r2 commands boot w texts) :
    ((boot = true → ∃ packet, stage2Request address r0 r1 r2 = .ok packet) ∧
      writes (followSession m address r0 r1 r2 commands boot w).2.2 =
        startWrites boot (stage2Request address r0 r1 r2) ++
          ((scriptedLines commands).take ((if boot then 0 else 1) + promptFrames m.hexReturns texts)).flatMap linePackets) ∨
    (boot = true ∧ (∃ e, stage2Request address r0 r1 r2 = .error e) ∧
      writes (followSession m address r0 r1 r2 commands boot w).2.2 = []) := by
  obtain ⟨hkeys, houtcomes, ⟨idle, w₁, n, w₂, hidle, hpasses, hok, rfl⟩, hnotIdle⟩ := h
  rcases hstart : sessionStart address r0 r1 r2 boot w with ⟨r, w₀, l₀⟩
  rcases sessionStart_cases hstart with ⟨e, hboot, hrequest, rfl, -, hwrites⟩ | ⟨hc, hstarts, -⟩
  · refine .inr ⟨hboot, ⟨e, hrequest⟩, ?_⟩
    unfold followSession
    rw [Traced.run_bind_error hstart, hwrites]
  obtain rfl := hc.eq_of_quiet houtcomes
  obtain ⟨-, _, rfl⟩ := hc.quiet houtcomes
  obtain ⟨hbuilt, hwrites⟩ := hstarts rfl
  refine .inl ⟨hbuilt, ?_⟩
  obtain ⟨_, p, hidle', -⟩ := drawIdle_run m w₀
  rw [hidle] at hidle'
  cases hidle'
  obtain ⟨_, p', hpasses'⟩ := drawPasses_run { w₀ with passes := p }
  rw [hpasses] at hpasses'
  cases hpasses'
  let y : Head := ⟨n, Follow.initial commands boot, idle, { w₀ with passes := p' }⟩
  have hcomes : ComesTo m address r0 r1 r2 commands boot w₀ y l₀ :=
    ⟨_, _, _, _, _, _, [], hstart, hidle, hpasses, .refl _, (List.append_nil _).symm⟩
  obtain ⟨hresult, htrace⟩ := followSession_quiet hcomes houtcomes
  rw [hresult] at hnotIdle
  have hloop : writes (y.loop m).2.2 = _ := writes_loop (m := m) hkeys houtcomes hok hnotIdle
  have hcredit : (Follow.initial commands boot).credit = if boot then 0 else 1 := by cases boot <;> rfl
  rw [htrace, hwrites, hloop, hcredit]
  rfl

/-- How many elements are taken is seen from what they are mapped to. -/
private theorem take_flatMap_inj {α β : Type} {f : α → List β} {xs : List α} (hf : ∀ x ∈ xs, f x ≠ []) {j k : Nat} :
    (xs.take j).flatMap f = (xs.take k).flatMap f ↔ min xs.length j = min xs.length k := by
  induction xs generalizing j k with
  | nil => simp
  | cons x xs ih =>
    have hx := hf x List.mem_cons_self
    have ih := @ih fun y hy => hf y (List.mem_cons_of_mem x hy)
    cases j with
    | zero =>
      cases k with
      | zero => simp
      | succ k => simp [hx]
    | succ j =>
      cases k with
      | zero => simp [hx]
      | succ k =>
        rw [List.take_succ_cons, List.take_succ_cons, List.flatMap_cons, List.flatMap_cons, List.append_cancel_left_eq, ih,
          List.length_cons]
        omega

theorem linePackets_ne_nil {line : List Char} (h : line ≠ []) : linePackets line ≠ [] := by
  intro hnil
  have hflat := (cut_inputChunks (encodeAscii line)).1
  rw [List.map_eq_nil_iff.mp hnil] at hflat
  exact h (List.map_eq_nil_iff.mp hflat.symm)

theorem scriptedLines_ne_nil {line : List Char} (h : line ∈ scriptedLines commands) : line ≠ [] := by
  obtain ⟨command, -, rfl⟩ := List.mem_map.mp h
  simp

/-- Two ways of cutting the text of the target into frames make a `follow_linux` with the same commands transmit the same
exactly if they have the same number of frames with a prompt, up to the number of the commands that are left (or if no boot
request can be built, when nothing is transmitted). -/
theorem same_writes_iff (h : Receives m address r0 r1 r2 commands boot w texts)
    (h' : Receives m address r0 r1 r2 commands boot w' texts') :
    writes (followSession m address r0 r1 r2 commands boot w).2.2 =
        writes (followSession m address r0 r1 r2 commands boot w').2.2 ↔
      (boot = true ∧ ∃ e, stage2Request address r0 r1 r2 = .error e) ∨
      min commands.length ((if boot then 0 else 1) + promptFrames m.hexReturns texts) =
        min commands.length ((if boot then 0 else 1) + promptFrames m.hexReturns texts') := by
  have hlength : (scriptedLines commands).length = commands.length := List.length_map _
  rcases writes_followSession h with ⟨hbuilt, hwrites⟩ | ⟨hboot, herror, hwrites⟩
  · have hno : ¬ (boot = true ∧ ∃ e, stage2Request address r0 r1 r2 = .error e) := by
      rintro ⟨hboot, e, he⟩
      obtain ⟨packet, hpacket⟩ := hbuilt hboot
      rw [he] at hpacket
      cases hpacket
    rcases writes_followSession h' with ⟨-, hwrites'⟩ | ⟨hboot, herror, -⟩
    · rw [hwrites, hwrites', List.append_cancel_left_eq, or_iff_right hno, ← hlength]
      exact take_flatMap_inj fun line hline => linePackets_ne_nil (scriptedLines_ne_nil hline)
    · exact absurd ⟨hboot, herror⟩ hno
  · rcases writes_followSession h' with ⟨hbuilt, -⟩ | ⟨-, -, hwrites'⟩
    · obtain ⟨e, he⟩ := herror
      obtain ⟨packet, hpacket⟩ := hbuilt hboot
      rw [he] at hpacket
      cases hpacket
    · rw [hwrites, hwrites']
      exact iff_of_true rfl (.inl ⟨hboot, herror⟩)

/-- A run that returns comes to the head of the pass that ends it. -/
theorem of_followSession_ok {ending : Ending} (h : followSession m address r0 r1 r2 commands boot w = (.ok ending, w', l)) :
    ∃ y l₁ w₁ l₂, ComesTo m address r0 r1 r2 commands boot w y l₁ ∧ y.pass m = (.ok (.inl ending), w₁, l₂) := by
  obtain ⟨_, w₀, l₀, l₁, hstart, h₁, -⟩ := Traced.of_run_bind_ok h
  obtain ⟨idle, p, hidle, -⟩ := drawIdle_run m w₀
  rw [Traced.run_bind_ok hidle, List.nil_append] at h₁
  obtain ⟨n, p', hpasses⟩ := drawPasses_run { w₀ with passes := p }
  rw [Traced.run_bind_ok hpasses, List.nil_append] at h₁
  obtain ⟨ending', w₂, l₂, l₃, hloop, hclose, -⟩ := Traced.of_run_bind_ok h₁
  obtain ⟨rc, -, hending, -⟩ := message_called hclose
  obtain rfl : ending' = ending := by
    cases rc with
    | error _ => cases hending
    | ok _ =>
      cases hending
      rfl
  obtain ⟨y, l₄, l₅, hreach, hpass, -⟩ := of_loop (x := ⟨n, Follow.initial commands boot, idle, _⟩) hloop
  exact ⟨y, l₀ ++ l₄, w₂, l₅, ⟨_, _, _, _, _, _, l₄, hstart, hidle, hpasses, hreach, rfl⟩, hpass⟩

/-- An interactive session does not end with `idle_deadline`. -/
theorem followSession_ne_idle (hm : m.interactive = true) :
    (followSession m address r0 r1 r2 commands boot w).1 ≠ .ok .idle := by
  intro h
  rcases hrun : followSession m address r0 r1 r2 commands boot w with ⟨r, w', l⟩
  rw [hrun] at h
  obtain rfl : r = .ok .idle := h
  obtain ⟨y, l₁, w₁, l₂, hcomes, hpass⟩ := of_followSession_ok hrun
  have hidle := idle_of_comesTo hm hcomes
  rcases sessionPass_cases hpass with ⟨e, -, he⟩ | ⟨-, he⟩ | ⟨s₁, w₂, l₃, l₄, -, hrest, -⟩
  · cases he
  · cases he
  generalize hr : (Except.ok (.inl .idle) : Except Exn (Ending ⊕ Follow × Option Nat)) = r at hrest
  cases hrest with
  | @maxRuntime r' | @disconnected _ _ r' => cases r' <;> cases hr
  | interrupted | mismatch | raised | pause => cases hr
  | idle _ hidle' =>
    rw [hidle] at hidle'
    cases hidle'
  | text =>
    split at hr
    · cases hr
    · cases hr

/-- The payload of a frame with a text. -/
def textPayload (text : List Char) : Bytes := 0x0E :: encodeAscii (text ++ ['\n'])

/-- A world in which these texts arrive, each in a frame. -/
def World.receiving (texts : List (List Char)) : World :=
  ⟨texts.flatMap fun text => (hdlcFrame (textPayload text)).map .byte, [], [], [], [texts.length], []⟩

theorem readCalls_receiving (texts : List (List Char)) :
    readCalls texts.length (World.receiving texts).polls = texts.map fun text => .ok (some (textPayload text)) := by
  induction texts with
  | nil => rfl
  | cons text texts ih =>
    have hread := readFrame_hdlcFrame (List.cons_ne_nil 0x0E (encodeAscii (text ++ ['\n']))) (World.receiving texts).polls
    change ShadowMsm.readFrame (World.receiving (text :: texts)).polls = _ at hread
    rw [List.length_cons, readCalls, hread, ih]
    rfl

/-- An interactive session with a running shell receives texts that its frames carry unchanged. -/
theorem receives_receiving (hm : m.interactive = true)
    (ht : ∀ text ∈ texts, extractText (some (textPayload text)) true = .ok text) :
    Receives m 0 0 0 0 commands false (.receiving texts) texts := by
  have hidle : drawIdle m (.receiving texts) = (.ok none, .receiving texts, []) := by
    rw [drawIdle, hm]
    rfl
  refine ⟨rfl, rfl, ⟨none, _, texts.length, _, hidle, rfl, ?_, ?_⟩, followSession_ne_idle hm⟩
  · intro x hx
    rw [readCalls_receiving] at hx
    obtain ⟨text, -, rfl⟩ := List.mem_map.mp hx
    exact ⟨_, rfl⟩
  · rw [frameTexts, readCalls_receiving, List.filterMap_map]
    have htexts : ∀ text ∈ texts, (frameText ∘ fun text => .ok (some (textPayload text))) text = some text := by
      intro text htext
      rw [Function.comp_apply, frameText, ht text htext]
      rfl
    rw [List.filterMap_congr htexts, List.filterMap_some]

/-- The prompt in one frame and in two. -/
private def wholePrompt : List (List Char) := ["shadow-msm# ".toList]

private def cutPrompt : List (List Char) := ["shadow-".toList, "msm# ".toList]

private theorem extractText_wholePrompt : ∀ text ∈ wholePrompt, extractText (some (textPayload text)) true = .ok text := by
  decide

private theorem extractText_cutPrompt : ∀ text ∈ cutPrompt, extractText (some (textPayload text)) true = .ok text := by
  decide

/-- One command is sent however the prompt is cut, since the shell was ready for it. -/
theorem same_writes_prompt :
    writes (followSession (shellMode true true) 0 0 0 0 ["id".toList] false (.receiving ["shadow-msm# ".toList])).2.2 =
      writes (followSession (shellMode true true) 0 0 0 0 ["id".toList] false
        (.receiving ["shadow-".toList, "msm# ".toList])).2.2 :=
  (same_writes_iff (receives_receiving rfl extractText_wholePrompt) (receives_receiving rfl extractText_cutPrompt)).mpr
    (.inr (by decide))

/-- Of two commands the second is sent only after a prompt that is not cut. -/
private theorem writes_cutPrompt (hm : m.interactive = true) :
    writes (followSession m 0 0 0 0 ["uname".toList, "id".toList] false (.receiving wholePrompt)).2.2 ≠
      writes (followSession m 0 0 0 0 ["uname".toList, "id".toList] false (.receiving cutPrompt)).2.2 := by
  have hwhole : Receives m 0 0 0 0 ["uname".toList, "id".toList] false (.receiving wholePrompt) wholePrompt :=
    receives_receiving hm extractText_wholePrompt
  have hcut : Receives m 0 0 0 0 ["uname".toList, "id".toList] false (.receiving cutPrompt) cutPrompt :=
    receives_receiving hm extractText_cutPrompt
  have htwo (hexReturns : Bool) : promptFrames hexReturns wholePrompt = 1 := by revert hexReturns; decide
  have hone (hexReturns : Bool) : promptFrames hexReturns cutPrompt = 0 := by revert hexReturns; decide
  intro h
  rcases writes_followSession hwhole with ⟨-, hwrites⟩ | ⟨hboot, -⟩
  · rcases writes_followSession hcut with ⟨-, hwrites'⟩ | ⟨hboot, -⟩
    · rw [hwrites, hwrites', htwo, hone, List.append_cancel_left_eq,
        take_flatMap_inj fun line hline => linePackets_ne_nil (scriptedLines_ne_nil hline)] at h
      exact absurd h (by decide)
    · cases hboot
  · cases hboot

/-- The trace of a `follow_linux` is that of the session. -/
theorem map_trace {α β : Type} (g : α → β) (f : Script α) (w : World) : ((g <$> f) w).2.2 = (f w).2.2 := by
  rw [← bind_pure_comp]
  rcases hf : f w with ⟨e | a, w', l⟩
  · rw [Traced.run_bind_error hf]
  · rw [Traced.run_bind_ok hf]
    exact List.append_nil l

/-- With two commands, the second one is never sent in neither of the two if the prompt straddles two frames. -/
theorem cut_prompt_missed :
    ["shadow-msm# ".toList].flatten = ["shadow-".toList, "msm# ".toList].flatten ∧
    writes (followLinux 0 0 0 0 true true ["uname".toList, "id".toList] false (.receiving ["shadow-msm# ".toList])).2.2 ≠
      writes (followLinux 0 0 0 0 true true ["uname".toList, "id".toList] false
        (.receiving ["shadow-".toList, "msm# ".toList])).2.2 ∧
    writes (consoleFollowLinux 0 0 0 0 true true true false ["uname".toList, "id".toList] false
        (.receiving ["shadow-msm# ".toList])).2.2 ≠
      writes (consoleFollowLinux 0 0 0 0 true true true false ["uname".toList, "id".toList] false
        (.receiving ["shadow-".toList, "msm# ".toList])).2.2 := by
  refine ⟨by decide, ?_, ?_⟩
  · rw [followLinux_eq, map_trace, map_trace]
    exact writes_cutPrompt rfl
  · rw [consoleFollowLinux_eq, map_trace, map_trace]
    exact writes_cutPrompt rfl

end

end ShadowMsm.Host
