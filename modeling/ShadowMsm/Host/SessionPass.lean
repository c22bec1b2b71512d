import ShadowMsm.Host.Follow

/-!
# One pass of `follow_linux`

What a pass of the loop can do, by cases: its input (`InputCase`), then the deadlines and the frame it reads (`RestCase`).
A run of the loop comes, pass by pass, to the head of the pass that ends it (`of_loop`).
-/

namespace ShadowMsm.Host

open Session (Entry)

/-! ### Calls -/

/-- Between two worlds there were calls without answers of their own; an exception is one that such a call raised. -/
structure Called {α : Type} (w : World) (r : Except Exn α) (w' : World) : Prop where
  world : w' = { w with outcomes := w'.outcomes }
  outcomes : w'.outcomes <:+ w.outcomes
  raised : ∀ e, r = .error e → some e ∈ w.outcomes

section

variable {α β : Type} {w w' w'' : World} {r : Except Exn α} {r' : Except Exn β} {l : List Event}

theorem Called.refl (w : World) (a : α) : Called w (.ok a) w := ⟨rfl, List.suffix_refl _, nofun⟩

theorem Called.trans (h : Called w r w') (h' : Called w' r' w'') : Called w r' w'' := by
  refine ⟨?_, h'.outcomes.trans h.outcomes, fun e he => h.outcomes.subset (h'.raised e he)⟩
  rw [h'.world, h.world]

theorem Called.error {e : Exn} (h : Called w (.error e : Except Exn α) w') : Called w (.error e : Except Exn β) w' := by
  refine ⟨h.world, h.outcomes, ?_⟩
  intro e' he
  cases he
  exact h.raised e rfl

theorem Called.keys (h : Called w r w') : w'.keys = w.keys := by rw [h.world]

theorem Called.polls (h : Called w r w') : w'.polls = w.polls := by rw [h.world]

theorem perform_called {t : Event} {r : Except Exn Unit} (h : perform t w = (r, w', l)) : Called w r w' ∧ l = [t] := by
  unfold perform at h
  rcases hw : w.outcomes with - | ⟨- | e, rest⟩
  · rw [hw] at h
    cases h
    exact ⟨.refl w (), rfl⟩
  · rw [hw] at h
    cases h
    exact ⟨⟨rfl, ⟨[none], by simp [hw]⟩, nofun⟩, rfl⟩
  · rw [hw] at h
    cases h
    refine ⟨⟨rfl, ⟨[some e], by simp [hw]⟩, ?_⟩, rfl⟩
    rintro e' he
    cases he
    simp [hw]

/-- A call, and then the rest of a script. -/
theorem perform_then {t : Event} {f : Script α} (h : (perform t >>= fun _ => f) w = (r, w', l)) :
    (∃ e, r = .error e ∧ Called w r w' ∧ l = [t]) ∨
      ∃ w₁ l₁, Called w (.ok ()) w₁ ∧ f w₁ = (r, w', l₁) ∧ l = t :: l₁ := by
  rcases Traced.of_run_bind h with ⟨e, h₁, rfl⟩ | ⟨_, w₁, l₁, l₂, h₁, h₂, rfl⟩
  · obtain ⟨hc, rfl⟩ := perform_called h₁
    exact .inl ⟨e, rfl, hc.error, rfl⟩
  · obtain ⟨hc, rfl⟩ := perform_called h₁
    exact .inr ⟨w₁, l₂, hc, h₂, rfl⟩

/-- A message, and then a value. -/
theorem message_called {a : α} (h : (perform .system >>= fun _ => pure a : Script α) w = (r, w', l)) :
    ∃ r', Called w r' w' ∧ r = r'.map (fun _ : Unit => a) ∧ l = [.system] := by
  rcases perform_then h with ⟨e, rfl, hc, rfl⟩ | ⟨w₁, l₁, hc, h₁, rfl⟩
  · exact ⟨.error e, hc.error, rfl, rfl⟩
  · cases h₁
    exact ⟨.ok (), hc, rfl, rfl⟩

end

/-! ### Items -/

/-- An input packet. -/
def inputPacket (chunk : Bytes) : Bytes := hdlcFrame (request 0x0E chunk)

/-- The pieces of an item: nothing is lost, repeated or moved, and each fits a packet. -/
def Cut (data : Bytes) (chunks : List Bytes) : Prop :=
  chunks.flatten = data ∧ ∀ chunk ∈ chunks, chunk ≠ [] ∧ chunk.length ≤ INPUT_PACKET_LIMIT

/-- The data of an entry that is sent. -/
def Session.Entry.data : Entry → Bytes
  | .command line => encodeAscii line
  | .key bs => bs
  | _ => []

/-- The items among what was taken from the keyboard queue. -/
def typed (keys : List Key) : List Bytes :=
  keys.filterMap fun k => match k with | .chunk bs => if bs = [] then none else some bs | _ => none

/-- The chunks of the loop of `send_linux_input`. -/
def inputChunksFrom (data : Bytes) (offset : Nat) : List Bytes :=
  if _h : offset < data.length then
    (data.drop offset).take INPUT_PACKET_LIMIT :: inputChunksFrom data (offset + INPUT_PACKET_LIMIT)
  else []
termination_by data.length - offset
decreasing_by
  unfold INPUT_PACKET_LIMIT
  omega

/-- The chunks of an item. -/
def inputChunks (data : Bytes) : List Bytes := inputChunksFrom data 0

/-- The events of an item that is sent. -/
def itemEvents (data : Bytes) : List Event := (inputChunks data).flatMap fun chunk => [.write (inputPacket chunk), .flush]

private theorem cut_inputChunksFrom (data : Bytes) (offset : Nat) :
    Cut (data.drop offset) (inputChunksFrom data offset) := by
  induction offset using inputChunksFrom.induct data with
  | case1 offset h ih =>
    rw [inputChunksFrom, dif_pos h]
    obtain ⟨hflat, hchunks⟩ := ih
    refine ⟨?_, ?_⟩
    · rw [List.flatten_cons, hflat, ← List.drop_drop, List.take_append_drop]
    · rintro chunk hc
      rcases List.mem_cons.mp hc with rfl | hc
      · refine ⟨?_, List.length_take_le _ _⟩
        apply List.ne_nil_of_length_pos
        rw [List.length_take, List.length_drop, INPUT_PACKET_LIMIT]
        omega
      · exact hchunks chunk hc
  | case2 offset h =>
    rw [inputChunksFrom, dif_neg h, List.drop_eq_nil_of_le (by omega)]
    exact ⟨rfl, by simp⟩

theorem cut_inputChunks (data : Bytes) : Cut data (inputChunks data) := by
  have h := cut_inputChunksFrom data 0
  rwa [List.drop_zero] at h

section

variable {w w' : World} {r : Except Exn Unit} {l : List Event}

private theorem sendLinuxInputFrom_called {data : Bytes} {offset : Nat} (h : sendLinuxInputFrom data offset w = (r, w', l)) :
    Called w r w' ∧
      (r = .ok () → l = (inputChunksFrom data offset).flatMap fun chunk => [.write (inputPacket chunk), .flush]) ∧
      writes l <+: (inputChunksFrom data offset).map inputPacket := by
  induction offset using inputChunksFrom.induct data generalizing w l with
  | case1 offset hlt ih =>
    rw [sendLinuxInputFrom, dif_pos hlt] at h
    rw [inputChunksFrom, dif_pos hlt]
    rcases perform_then h with ⟨e, rfl, hc, rfl⟩ | ⟨w₁, l₁, hc₁, hrest, rfl⟩
    · exact ⟨hc, nofun, by simp [writes, inputPacket]⟩
    · rcases perform_then hrest with ⟨e, rfl, hc₂, rfl⟩ | ⟨w₂, l₂, hc₂, h₂, rfl⟩
      · exact ⟨hc₁.trans hc₂, nofun, by simp [writes, inputPacket]⟩
      · obtain ⟨hc, hok, hpre⟩ := ih h₂
        refine ⟨(hc₁.trans hc₂).trans hc, ?_, ?_⟩
        · intro hr
          rw [hok hr]
          rfl
        · simpa [writes, inputPacket] using hpre
  | case2 offset hlt =>
    rw [sendLinuxInputFrom, dif_neg hlt] at h
    cases h
    rw [inputChunksFrom, dif_neg hlt]
    exact ⟨.refl _ (), fun _ => rfl, List.prefix_refl _⟩

/-- `send_linux_input` writes the packets of the item; if a call raises, the first ones of them. -/
theorem sendLinuxInput_called {data : Bytes} (h : sendLinuxInput data w = (r, w', l)) :
    Called w r w' ∧ (r = .ok () → l = itemEvents data) ∧ writes l <+: (inputChunks data).map inputPacket :=
  sendLinuxInputFrom_called h

end

/-! ### The input of a pass -/

/-- Something is taken from the keyboard queue only where the terminal is ready and no scripted line is pending. -/
def Follow.Looks (s : Follow) (u : List Key) : Prop := u = [] ∨ s.terminalReady = true ∧ s.pendingLines = []

/-- What the input of a pass does. -/
inductive InputCase (m : Mode) (s : Follow) (w : World) : Except Exn (Option Follow) → World → List Event → Prop
  /-- nothing is sent -/
  | nothing {u keys : List Key} (hkeys : w.keys = u ++ keys) (hlook : s.Looks u) (htyped : typed u = [])
      (hscript : s.terminalReady = true → s.scriptedReady = true → s.pendingLines = []) :
      InputCase m s w (.ok (some s)) { w with keys := keys } []
  /-- the detach is taken from the queue -/
  | detach {keys : List Key} {r : Except Exn Unit} {w' : World} (hkeys : w.keys = .detach :: keys)
      (hlook : s.Looks [.detach]) (hcall : Called { w with keys := keys } r w') : InputCase m s w (r.map fun _ => none) w' [.system]
  /-- a scripted line or a keyboard item is sent, or a call raises while it is sent -/
  | input {e : Entry} {s' : Follow} {u keys : List Key} {r : Except Exn Unit} {w' : World} {l : List Event}
      (hinput : e.isInput = true) (hstep : Session.step m.rawKeys s e = some s') (hkeys : w.keys = u ++ keys)
      (hlook : s.Looks u) (htyped : typed u = Session.sentKeys [e]) (hcall : Called { w with keys := keys } r w')
      (hsent : r = .ok () → l = itemEvents e.data) (hwrites : writes l <+: (inputChunks e.data).map inputPacket) :
      InputCase m s w (r.map fun _ => some s') w' l

section

variable {m : Mode} {s : Follow} {w w' : World} {r : Except Exn (Option Follow)} {l : List Event}

private theorem inputCase_item {e : Entry} {s' : Follow} {u keys : List Key} (hinput : e.isInput = true)
    (hstep : Session.step m.rawKeys s e = some s') (hkeys : w.keys = u ++ keys)
    (hlook : s.Looks u) (htyped : typed u = Session.sentKeys [e])
    (h : (sendLinuxInput e.data >>= fun _ => pure (some s') : Script (Option Follow)) { w with keys := keys } =
      (r, w', l)) : InputCase m s w r w' l := by
  rcases Traced.of_run_bind h with ⟨e', h₁, rfl⟩ | ⟨_, w₁, l₁, l₂, h₁, h₂, rfl⟩
  · obtain ⟨hc, hsent, hwrites⟩ := sendLinuxInput_called h₁
    exact .input hinput hstep hkeys hlook htyped hc hsent hwrites
  · obtain ⟨hc, hsent, hwrites⟩ := sendLinuxInput_called h₁
    cases h₂
    rw [List.append_nil]
    exact .input hinput hstep hkeys hlook htyped hc hsent hwrites

theorem sessionInput_cases (h : sessionInput m s w = (r, w', l)) : InputCase m s w r w' l := by
  rcases s with ⟨terminal, scripted, pending⟩
  have hnothing (hscript : terminal = true → scripted = true → pending = []) :
      InputCase m ⟨terminal, scripted, pending⟩ w (.ok (some ⟨terminal, scripted, pending⟩)) w [] :=
    .nothing (u := []) rfl (.inl rfl) rfl hscript
  unfold sessionInput at h
  dsimp only at h
  by_cases hterminal : terminal = true
  · subst hterminal
    rw [if_pos rfl] at h
    cases pending with
    | cons line rest =>
      dsimp only at h
      by_cases hscripted : scripted = true
      · subst hscripted
        rw [if_pos rfl] at h
        exact inputCase_item (e := .command line) (u := []) rfl
          (Session.step_command.mpr ⟨rfl, rfl, rest, rfl, rfl⟩) rfl (.inl rfl) rfl h
      · rw [if_neg hscripted] at h
        cases h
        exact hnothing fun _ h => absurd h hscripted
    | nil =>
      dsimp only at h
      by_cases hinteractive : m.interactive = true
      · rw [if_pos hinteractive] at h
        rcases hkeys : w.keys with - | ⟨k, keys⟩
        · have hdraw : drawKey w = (.ok .empty, w, []) := by simp [drawKey, hkeys]
          rw [Traced.run_bind_ok hdraw] at h
          cases h
          exact hnothing fun _ _ => rfl
        · have hdraw : drawKey w = (.ok k, { w with keys := keys }, []) := by simp [drawKey, hkeys]
          rw [Traced.run_bind_ok hdraw, List.nil_append] at h
          have hdrop (htyped : typed [k] = []) := InputCase.nothing (m := m) (s := ⟨true, scripted, []⟩)
            (u := [k]) hkeys (.inr ⟨rfl, rfl⟩) htyped fun _ _ => rfl
          cases k with
          | empty =>
            cases h
            exact hdrop rfl
          | detach =>
            obtain ⟨r', hc, rfl, rfl⟩ := message_called h
            exact .detach hkeys (.inr ⟨rfl, rfl⟩) hc
          | chunk bs =>
            dsimp only at h
            by_cases hbs : bs = []
            · rw [if_pos hbs] at h
              cases h
              exact hdrop (by simp [typed, hbs])
            · rw [if_neg hbs] at h
              exact inputCase_item (e := .key bs) (u := [.chunk bs]) rfl
                (Session.step_key.mpr ⟨rfl, rfl, hbs, rfl⟩) hkeys (.inr ⟨rfl, rfl⟩) (by simp [typed, hbs, Session.sentKeys]) h
      · rw [if_neg hinteractive] at h
        cases h
        exact hnothing fun _ _ => rfl
  · rw [if_neg hterminal] at h
    cases h
    exact hnothing fun h => absurd h hterminal

end

/-! ### The rest of a pass -/

/-- A call of `read_frame` that meets `made` and leaves `rest`. -/
structure Reads (w : World) (o : Except ReadError (Option Bytes)) (made rest : List Poll) : Prop where
  polls : w.polls = made ++ rest
  result : ShadowMsm.readFrame w.polls = (o, rest)
  alone : ShadowMsm.readFrame made = (o, [])

/-- What a pass does after its input. -/
inductive RestCase (m : Mode) (expired : Bool) (s : Follow) (idle : Option Nat) (w : World) :
    Except Exn (Ending ⊕ Follow × Option Nat) → World → List Event → Prop
  | maxRuntime {r : Except Exn Unit} {w' : World} (hexpired : expired = true) (hbounded : m.bounded = true)
      (hcall : Called w r w') : RestCase m expired s idle w (r.map fun _ => .inl .maxRuntime) w' [.system]
  | interrupted (hexpired : expired = true) (hbounded : m.bounded = false) :
      RestCase m expired s idle w (.error .keyboardInterrupt) w []
  | idle {r : Except Exn Unit} {w' : World} (hexpired : expired = false) (hidle : idle = some 0) (hcall : Called w r w') :
      RestCase m expired s idle w (r.map fun _ => .inl .idle) w' [.system]
  | disconnected {made rest : List Poll} {r : Except Exn Unit} {w' : World} (hexpired : expired = false)
      (hread : Reads w (.error .port) made rest) (hcall : Called { w with polls := rest } r w') :
      RestCase m expired s idle w (r.map fun _ => .inl .disconnected) w' (made.map .poll ++ [.system])
  | mismatch {made rest : List Poll} {got want : BitVec 16} (hexpired : expired = false)
      (hread : Reads w (.error (.crcMismatch got want)) made rest) :
      RestCase m expired s idle w (.error (readFrameExn (.crcMismatch got want))) { w with polls := rest }
        (made.map .poll)
  | pause {made rest : List Poll} (hexpired : expired = false) (hidle : idle ≠ some 0)
      (hread : Reads w (.ok none) made rest) :
      RestCase m expired s idle w (.ok (.inr (s, idle.map (· - 1)))) { w with polls := rest } (made.map .poll)
  /-- the message with the text of the frame raises -/
  | raised {made rest : List Poll} {payload : Bytes} {e : Exn} {w' : World} (hexpired : expired = false)
      (hread : Reads w (.ok (some payload)) made rest) (hcall : Called { w with polls := rest } (.error e : Except Exn Unit) w') :
      RestCase m expired s idle w (.error e) w' (made.map .poll ++ [.system])
  | text {made rest : List Poll} {payload : Bytes} {text : List Char} {s' : Follow} {idle' : Option Nat} {p : List Nat}
      {w' : World} (hexpired : expired = false) (hidle : idle ≠ some 0) (hread : Reads w (.ok (some payload)) made rest)
      (htext : extractText (some payload) true = .ok text) (hstep : Session.step m.rawKeys s (.text text) = some s')
      (hcall : Called { w with polls := rest } (.ok ()) w') (hidle' : m.interactive = true → idle' = none) :
      RestCase m expired s idle w
        (.ok (if m.hexReturns && replyMatches .hex text then .inl (.returned (intBase16 text)) else .inr (s', idle')))
        { w' with passes := p } (made.map .poll ++ [.system])

section

variable {m : Mode} {expired : Bool} {s : Follow} {idle : Option Nat} {w w' : World} {l : List Event}

theorem readFrame_reads {r : Except Exn (Option Bytes)} (h : readFrame w = (r, w', l)) :
    ∃ o made rest, Reads w o made rest ∧ r = o.mapError readFrameExn ∧ w' = { w with polls := rest } ∧
      l = made.map .poll := by
  obtain ⟨made, hpolls, rfl, rfl, rfl⟩ := readFrame_run h
  obtain ⟨made', hpolls', halone⟩ := readFrameFrom_made false [] w.polls
  have hmade : made' = made := List.append_cancel_right (hpolls'.symm.trans hpolls)
  subst hmade
  exact ⟨_, _, _, ⟨hpolls, rfl, halone⟩, rfl, rfl, rfl⟩

/-- What `read_frame` does under the handler. -/
theorem readOrDisconnect_cases {r : Except Exn (Option (Option Bytes))} (h : readOrDisconnect w = (r, w', l)) :
    (∃ o made rest, Reads w (.ok o) made rest ∧ r = .ok (some o) ∧ w' = { w with polls := rest } ∧ l = made.map .poll) ∨
    (∃ got want made rest, Reads w (.error (.crcMismatch got want)) made rest ∧
      r = .error (readFrameExn (.crcMismatch got want)) ∧ w' = { w with polls := rest } ∧ l = made.map .poll) ∨
    (∃ made rest, ∃ r' : Except Exn Unit, Reads w (.error .port) made rest ∧ Called { w with polls := rest } r' w' ∧
      r = r'.map (fun _ => none) ∧ l = made.map .poll ++ [.system]) := by
  rcases Traced.of_run_tryCatch h with ⟨a, h₁, rfl⟩ | ⟨e, w₁, l₁, l₂, h₁, h₂, rfl⟩
  · obtain ⟨o, w₁, l₁, l₂, h₂, h₃, rfl⟩ := Traced.of_run_bind_ok h₁
    cases h₃
    obtain ⟨o', made, rest, hread, ho, rfl, rfl⟩ := readFrame_reads h₂
    rcases o' with e | o'
    · cases ho
    · cases ho
      exact .inl ⟨_, made, rest, hread, rfl, rfl, by simp⟩
  · rcases Traced.of_run_bind h₁ with ⟨e', h₃, he⟩ | ⟨o, w₂, l₃, l₄, -, h₃, -⟩
    · cases he
      obtain ⟨o', made, rest, hread, ho, rfl, rfl⟩ := readFrame_reads h₃
      rcases o' with (⟨got, want⟩ | -) | o'
      · cases ho
        cases h₂
        exact .inr (.inl ⟨got, want, made, rest, hread, rfl, rfl, by simp⟩)
      · cases ho
        obtain ⟨r', hc, rfl, rfl⟩ := message_called h₂
        exact .inr (.inr ⟨made, rest, r', hread, hc, rfl, rfl⟩)
      · cases ho
    · cases h₃

theorem sessionText_cases {payload : Bytes} {r : Except Exn (Follow × List Char)}
    (h : sessionText s payload w = (r, w', l)) : l = [.system] ∧
      ((∃ e, r = .error e ∧ Called w (.error e : Except Exn Unit) w') ∨
        ∃ s' text, r = .ok (s', text) ∧ Called w (.ok ()) w' ∧ extractText (some payload) true = .ok text ∧
          Session.step m.rawKeys s (.text text) = some s') := by
  obtain ⟨text, htext⟩ : ∃ text, extractText (some payload) true = .ok text := ⟨_, rfl⟩
  unfold sessionText at h
  rw [Traced.run_ofExcept_bind htext] at h
  rcases Traced.of_run_bind h with ⟨e, h₁, rfl⟩ | ⟨_, w₁, l₁, l₂, h₁, h₂, rfl⟩
  · obtain ⟨hc, rfl⟩ := perform_called h₁
    exact ⟨rfl, .inl ⟨e, rfl, hc⟩⟩
  · obtain ⟨hc, rfl⟩ := perform_called h₁
    by_cases hprompt : HasPrompt text
    · have hin : "shadow-msm# ".toList <:+: text := hprompt
      rw [if_pos hin] at h₂
      cases h₂
      exact ⟨rfl, .inr ⟨_, text, rfl, hc, htext, Session.step_text hprompt⟩⟩
    · have hin : ¬ "shadow-msm# ".toList <:+: text := hprompt
      rw [if_neg hin] at h₂
      cases h₂
      exact ⟨rfl, .inr ⟨_, text, rfl, hc, htext, Session.step_text_of_not hprompt⟩⟩

theorem drawIdle_run (m : Mode) (w : World) :
    ∃ idle passes, drawIdle m w = (.ok idle, { w with passes := passes }, []) ∧ (m.interactive = true → idle = none) := by
  unfold drawIdle
  by_cases hm : m.interactive || !m.idles
  · rw [if_pos hm]
    exact ⟨none, w.passes, rfl, fun _ => rfl⟩
  · have hinteractive : m.interactive ≠ true := by
      intro hi
      simp [hi] at hm
    rw [if_neg hm]
    obtain ⟨n, passes, hdraw⟩ := drawPasses_run w
    rw [Traced.run_bind_ok hdraw]
    exact ⟨some n, passes, rfl, fun hi => absurd hi hinteractive⟩

/-- A pass is its input, which may end it, and then the rest. -/
theorem sessionPass_cases {r : Except Exn (Ending ⊕ Follow × Option Nat)} (h : sessionPass m expired s idle w = (r, w', l)) :
    (∃ e, InputCase m s w (.error e) w' l ∧ r = .error e) ∨
    (InputCase m s w (.ok none) w' l ∧ r = .ok (.inl .detached)) ∨
    ∃ s₁ w₁ l₁ l₂, InputCase m s w (.ok (some s₁)) w₁ l₁ ∧ RestCase m expired s₁ idle w₁ r w' l₂ ∧ l = l₁ ++ l₂ := by
  rcases Traced.of_run_bind h with ⟨e, h₁, rfl⟩ | ⟨o, w₁, l₁, l₂, h₁, h₂, rfl⟩
  · exact .inl ⟨e, sessionInput_cases h₁, rfl⟩
  rcases o with - | s₁
  · cases h₂
    rw [List.append_nil]
    exact .inr (.inl ⟨sessionInput_cases h₁, rfl⟩)
  refine .inr (.inr ⟨s₁, w₁, l₁, l₂, sessionInput_cases h₁, ?_, rfl⟩)
  clear h h₁
  dsimp only at h₂
  by_cases hexpired : expired = true
  · rw [if_pos hexpired] at h₂
    by_cases hbounded : m.bounded = true
    · rw [if_pos hbounded] at h₂
      obtain ⟨r', hc, rfl, rfl⟩ := message_called h₂
      exact .maxRuntime hexpired hbounded hc
    · rw [if_neg hbounded] at h₂
      cases h₂
      exact .interrupted hexpired (Bool.eq_false_iff.mpr hbounded)
  rw [if_neg hexpired] at h₂
  rw [Bool.not_eq_true] at hexpired
  by_cases hidle : idle = some 0
  · rw [if_pos hidle] at h₂
    obtain ⟨r', hc, rfl, rfl⟩ := message_called h₂
    exact .idle hexpired hidle hc
  rw [if_neg hidle] at h₂
  rcases Traced.of_run_bind h₂ with ⟨e, h₃, rfl⟩ | ⟨o, w₂, l₃, l₄, h₃, h₄, rfl⟩
  · rcases readOrDisconnect_cases h₃ with ⟨_, _, _, -, he, -⟩ | ⟨got, want, made, rest, hread, he, rfl, rfl⟩ |
      ⟨made, rest, r', hread, hc, he, rfl⟩
    · cases he
    · cases he
      exact .mismatch hexpired hread
    · cases r' with
      | ok _ => cases he
      | error e' =>
        cases he
        exact .disconnected hexpired hread hc
  · rcases readOrDisconnect_cases h₃ with ⟨o', made, rest, hread, ho, rfl, rfl⟩ | ⟨_, _, _, _, -, he, -⟩ |
      ⟨made, rest, r', hread, hc, ho, rfl⟩
    · cases ho
      rcases o' with - | payload
      · cases h₄
        rw [List.append_nil]
        exact .pause hexpired hidle hread
      · rcases Traced.of_run_bind h₄ with ⟨e, h₅, rfl⟩ | ⟨⟨s', text⟩, w₃, l₅, l₆, h₅, h₆, rfl⟩
        · obtain ⟨rfl, ⟨e', he, hc⟩ | ⟨_, _, he, -⟩⟩ := sessionText_cases (m := m) h₅
          · cases he
            exact .raised hexpired hread hc
          · cases he
        · obtain ⟨rfl, ⟨_, he, -⟩ | ⟨s', text, he, hc, htext, hstep⟩⟩ := sessionText_cases (m := m) h₅
          · cases he
          · cases he
            obtain ⟨idle', passes, hdraw, hidle'⟩ := drawIdle_run m w₃
            have htext' := RestCase.text (p := passes) hexpired hidle hread htext hstep hc hidle'
            rw [Traced.run_bind_ok hdraw, List.nil_append] at h₆
            dsimp only at h₆
            by_cases hhex : m.hexReturns && replyMatches .hex text
            · rw [if_pos hhex] at h₆ htext'
              cases h₆
              exact htext'
            · rw [if_neg hhex] at h₆ htext'
              cases h₆
              exact htext'
    · cases he
    · cases r' with
      | error e => cases ho
      | ok _ =>
        cases ho
        cases h₄
        rw [List.append_nil]
        exact .disconnected hexpired hread hc

end

/-! ### Passes one after the other -/

/-- The head of the loop: where a pass begins. -/
structure Head where
  passes : Nat
  flags : Follow
  idle : Option Nat
  world : World

/-- The pass that begins at a head. -/
def Head.pass (m : Mode) (x : Head) : Except Exn (Ending ⊕ Follow × Option Nat) × World × List Event :=
  sessionPass m (x.passes = 0) x.flags x.idle x.world

/-- The loop from a head. -/
def Head.loop (m : Mode) (x : Head) : Except Exn Ending × World × List Event :=
  sessionLoop m x.flags x.idle x.passes x.world

/-- The loop comes from one head to another and leaves a trace. -/
inductive Reaches (m : Mode) : Head → Head → List Event → Prop
  | refl (x : Head) : Reaches m x x []
  | pass {passes : Nat} {s s' : Follow} {idle idle' : Option Nat} {w w' : World} {y : Head} {l l' : List Event}
      (hpass : sessionPass m false s idle w = (.ok (.inr (s', idle')), w', l))
      (hrest : Reaches m ⟨passes, s', idle', w'⟩ y l') : Reaches m ⟨passes + 1, s, idle, w⟩ y (l ++ l')

section

variable {m : Mode} {w' : World} {l : List Event}

/-- The pass after the deadline is the last one. -/
private theorem ne_inr_of_expired {s : Follow} {idle : Option Nat} {w : World} {x : Follow × Option Nat} :
    sessionPass m true s idle w ≠ (.ok (.inr x), w', l) := by
  intro h
  rcases sessionPass_cases h with ⟨e, -, he⟩ | ⟨-, he⟩ | ⟨s₁, w₁, l₁, l₂, -, hrest, -⟩
  · cases he
  · cases he
  · generalize hr : (Except.ok (.inr x) : Except Exn (Ending ⊕ Follow × Option Nat)) = r at hrest
    cases hrest with
    | @maxRuntime r' => cases r' <;> cases hr
    | interrupted => cases hr
    | idle hexpired | disconnected hexpired | mismatch hexpired | pause hexpired | raised hexpired | text hexpired =>
      cases hexpired

/-- A run of the loop comes to the head of the pass that ends it. -/
theorem of_loop {x : Head} {r : Except Exn Ending} (h : x.loop m = (r, w', l)) :
    ∃ y l₁ l₂, Reaches m x y l₁ ∧ y.pass m = (r.map .inl, w', l₂) ∧ l = l₁ ++ l₂ := by
  rcases x with ⟨n, s, idle, w⟩
  change sessionLoop m s idle n w = _ at h
  induction n generalizing s idle w l with
  | zero =>
    refine ⟨_, [], l, .refl _, ?_, rfl⟩
    change sessionPass m true s idle w = _
    rcases Traced.of_run_bind h with ⟨e, h₁, rfl⟩ | ⟨ending | next, w₁, l₁, l₂, h₁, h₂, rfl⟩
    · exact h₁
    · cases h₂
      rw [List.append_nil]
      exact h₁
    · exact absurd h₁ ne_inr_of_expired
  | succ n ih =>
    rcases Traced.of_run_bind h with ⟨e, h₁, rfl⟩ | ⟨ending | ⟨s', idle'⟩, w₁, l₁, l₂, h₁, h₂, rfl⟩
    · exact ⟨_, [], l, .refl _, h₁, rfl⟩
    · cases h₂
      rw [List.append_nil]
      exact ⟨_, [], l₁, .refl _, h₁, rfl⟩
    · obtain ⟨y, l₃, l₄, hreach, hpass, rfl⟩ := ih s' idle' w₁ h₂
      exact ⟨y, l₁ ++ l₃, l₄, .pass h₁ hreach, hpass, (List.append_assoc _ _ _).symm⟩

/-- From a head that it comes to the loop goes on. -/
theorem loop_of_reaches {x y : Head} (h : Reaches m x y l) :
    x.loop m = ((y.loop m).1, (y.loop m).2.1, l ++ (y.loop m).2.2) := by
  induction h with
  | refl x => rfl
  | @pass passes s s' idle idle' w w' y l l' hpass hrest ih =>
    change sessionLoop m s idle (passes + 1) w = _
    rw [sessionLoop, Traced.run_bind_ok hpass]
    change ((Head.loop m ⟨passes, s', idle', w'⟩).1, (Head.loop m ⟨passes, s', idle', w'⟩).2.1,
      l ++ (Head.loop m ⟨passes, s', idle', w'⟩).2.2) = _
    rw [ih, List.append_assoc]

/-- A pass that ends the loop ends it. -/
theorem loop_of_pass {x : Head} {r : Except Exn Ending} (h : x.pass m = (r.map .inl, w', l)) : x.loop m = (r, w', l) := by
  rcases x with ⟨n, s, idle, w⟩
  change sessionLoop m s idle n w = _
  cases n with
  | zero =>
    have hpass : sessionPass m true s idle w = (r.map .inl, w', l) := h
    cases r with
    | error e => exact Traced.run_bind_error hpass
    | ok ending =>
      rw [sessionLoop, Traced.run_bind_ok hpass]
      change (_, _, l ++ []) = _
      rw [List.append_nil]
      rfl
  | succ n =>
    have hpass : sessionPass m false s idle w = (r.map .inl, w', l) := h
    cases r with
    | error e => exact Traced.run_bind_error hpass
    | ok ending =>
      rw [sessionLoop, Traced.run_bind_ok hpass]
      change (_, _, l ++ []) = _
      rw [List.append_nil]
      rfl

end

/-! ### The start of a session -/

/-- What is transmitted before the loop. -/
def startWrites (boot : Bool) (bootRequest : Except Exn Bytes) : List Bytes :=
  if boot then bootRequest.toOption.toList else []

/-- A session starts with at most its boot request, or it has none that can be built. -/
theorem sessionStart_cases {address r0 r1 r2 : Int} {boot : Bool} {w w' : World} {l : List Event} {r : Except Exn Unit}
    (h : sessionStart address r0 r1 r2 boot w = (r, w', l)) :
    (∃ e, boot = true ∧ stage2Request address r0 r1 r2 = .error e ∧ r = .error e ∧ Called w (.ok ()) w' ∧ writes l = []) ∨
    (Called w r w' ∧
      (r = .ok () → (boot = true → ∃ packet, stage2Request address r0 r1 r2 = .ok packet) ∧
        writes l = startWrites boot (stage2Request address r0 r1 r2)) ∧
      writes l <+: startWrites boot (stage2Request address r0 r1 r2)) := by
  unfold sessionStart at h
  rcases perform_then h with ⟨e, rfl, hc, rfl⟩ | ⟨w₁, l₁, hc₁, h₁, rfl⟩
  · exact .inr ⟨hc, nofun, List.nil_prefix⟩
  cases boot with
  | false =>
    obtain ⟨hc₂, rfl⟩ := perform_called h₁
    exact .inr ⟨hc₁.trans hc₂, fun _ => ⟨nofun, rfl⟩, List.nil_prefix⟩
  | true =>
    rw [if_pos rfl] at h₁
    cases hrequest : stage2Request address r0 r1 r2 with
    | error e =>
      rw [hrequest] at h₁
      cases h₁
      exact .inl ⟨e, rfl, rfl, rfl, hc₁, rfl⟩
    | ok packet =>
      have h₂ := (Traced.run_ofExcept_bind hrequest).symm.trans h₁
      rcases perform_then h₂ with ⟨e, rfl, hc₂, rfl⟩ | ⟨w₂, l₂, hc₂, h₃, rfl⟩
      · exact .inr ⟨hc₁.trans hc₂, nofun, List.prefix_refl _⟩
      rcases perform_then h₃ with ⟨e, rfl, hc₃, rfl⟩ | ⟨w₃, l₃, hc₃, h₄, rfl⟩
      · exact .inr ⟨(hc₁.trans hc₂).trans hc₃, nofun, List.prefix_refl _⟩
      obtain ⟨hc₄, rfl⟩ := perform_called h₄
      exact .inr ⟨((hc₁.trans hc₂).trans hc₃).trans hc₄, fun _ => ⟨fun _ => ⟨packet, rfl⟩, rfl⟩, List.prefix_refl _⟩

end ShadowMsm.Host
