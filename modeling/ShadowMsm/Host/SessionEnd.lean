import ShadowMsm.HdlcStream
import ShadowMsm.Host.SessionPass

/-!
# How a `follow_linux` ends

The detach token is taken from the keyboard queue only where the terminal is ready and no scripted line is pending
(`detaches_iff`).  A session goes on whatever the target sends, but for a frame with a wrong CRC, and in the stage-0 console
a text of eight hexadecimal digits (`endsAsAllowed_iff`).
-/

namespace ShadowMsm.Host

/-! ### The heads of a run -/

/-- A run of `followSession` comes to a head, with the trace up to there. -/
def ComesTo (m : Mode) (address r0 r1 r2 : Int) (commands : List (List Char)) (boot : Bool) (w : World) (y : Head)
    (l : List Event) : Prop :=
  ∃ w₁ l₁ idle w₂ n w₃ l₂, sessionStart address r0 r1 r2 boot w = (.ok (), w₁, l₁) ∧
    drawIdle m w₁ = (.ok idle, w₂, []) ∧ drawPasses w₂ = (.ok n, w₃, []) ∧
    Reaches m ⟨n, Follow.initial commands boot, idle, w₃⟩ y l₂ ∧ l = l₁ ++ l₂

section

variable {m : Mode} {address r0 r1 r2 : Int} {commands : List (List Char)} {boot : Bool} {w : World} {y : Head}
  {l : List Event}

/-- From a head of its loop a run goes on with this loop, and then the terminal is restored. -/
theorem followSession_of_comesTo {r : Except Exn Ending} {w₁ : World} {l₁ : List Event}
    (h : ComesTo m address r0 r1 r2 commands boot w y l) (hloop : y.loop m = (r, w₁, l₁)) :
    ∃ r' w' l₂, followSession m address r0 r1 r2 commands boot w = (r', w', l ++ (l₁ ++ l₂)) ∧ writes l₂ = [] ∧
      ((∃ e, r = .error e ∧ r' = .error e) ∨
        ∃ ending, ∃ rc : Except Exn Unit, r = .ok ending ∧ Called w₁ rc w' ∧ r' = rc.map fun _ => ending) := by
  obtain ⟨w₀, l₀, idle, w₂, n, w₃, l₃, hstart, hidle, hpasses, hreach, rfl⟩ := h
  unfold followSession
  rw [Traced.run_bind_ok hstart, Traced.run_bind_ok hidle, Traced.run_bind_ok hpasses]
  have hrun := loop_of_reaches hreach
  rw [hloop] at hrun
  change sessionLoop m (Follow.initial commands boot) idle n w₃ = _ at hrun
  cases r with
  | error e =>
    rw [Traced.run_bind_error hrun]
    exact ⟨.error e, w₁, [], by simp, rfl, .inl ⟨e, rfl, rfl⟩⟩
  | ok ending =>
    rw [Traced.run_bind_ok hrun]
    rcases hclose : (do perform .system; pure ending : Script Ending) w₁ with ⟨r', w', l₂⟩
    obtain ⟨rc, hc, rfl, rfl⟩ := message_called hclose
    exact ⟨_, w', [.system], by simp, rfl, .inr ⟨ending, rc, rfl, hc, rfl⟩⟩

end

/-! ### The detach token -/

/-- The pass that begins at a head takes the detach token: it gives the message and returns. -/
def Head.Detaches (m : Mode) (y : Head) : Prop :=
  ∃ keys, y.world.keys = .detach :: keys ∧
    y.pass m = (do perform .system; pure (.inl .detached) : Script (Ending ⊕ Follow × Option Nat))
      { y.world with keys := keys }

section

variable {m : Mode} {s : Follow} {w w' : World} {keys : List Key} {l : List Event}

/-- Where the terminal is ready and nothing is pending, the token is taken. -/
theorem sessionInput_detach (hm : m.interactive = true) (hterminal : s.terminalReady = true) (hpending : s.pendingLines = [])
    (hkeys : w.keys = .detach :: keys) :
    sessionInput m s w = (do perform .system; pure none : Script (Option Follow)) { w with keys := keys } := by
  have hdraw : drawKey w = (.ok .detach, { w with keys := keys }, []) := by simp [drawKey, hkeys]
  unfold sessionInput
  rw [if_pos hterminal, hpending]
  dsimp only
  rw [if_pos hm, Traced.run_bind_ok hdraw]
  rfl

/-- Elsewhere the keyboard queue is left alone. -/
theorem InputCase.keys_eq {r : Except Exn (Option Follow)} (h : InputCase m s w r w' l)
    (hs : ¬ (s.terminalReady = true ∧ s.pendingLines = [])) : w'.keys = w.keys := by
  cases h with
  | nothing hkeys hlook => rw [hkeys, hlook.resolve_right hs, List.nil_append]
  | detach hkeys hlook => exact absurd (hlook.resolve_right hs) (List.cons_ne_nil _ _)
  | input _ _ hkeys hlook _ hcall => rw [hcall.keys, hkeys, hlook.resolve_right hs, List.nil_append]

theorem RestCase.keys_eq {expired : Bool} {idle : Option Nat} {r : Except Exn (Ending ⊕ Follow × Option Nat)}
    (h : RestCase m expired s idle w r w' l) : w'.keys = w.keys := by
  cases h with
  | maxRuntime _ _ hcall | idle _ _ hcall | disconnected _ _ hcall | raised _ _ hcall => exact hcall.keys
  | interrupted | mismatch | pause => rfl
  | text _ _ _ _ _ hcall => exact hcall.keys

theorem sessionPass_keys {expired : Bool} {idle : Option Nat} {r : Except Exn (Ending ⊕ Follow × Option Nat)}
    (h : sessionPass m expired s idle w = (r, w', l)) (hs : ¬ (s.terminalReady = true ∧ s.pendingLines = [])) :
    w'.keys = w.keys := by
  rcases sessionPass_cases h with ⟨e, hinput, -⟩ | ⟨hinput, -⟩ | ⟨s₁, w₁, l₁, l₂, hinput, hrest, -⟩
  · exact hinput.keys_eq hs
  · exact hinput.keys_eq hs
  · exact hrest.keys_eq.trans (hinput.keys_eq hs)

end

section

variable {m : Mode} {y : Head} {keys : List Key}

/-- A pass takes the token exactly where the terminal is ready and no scripted line is pending. -/
theorem detaches_iff_ready (hm : m.interactive = true) (hkeys : y.world.keys = .detach :: keys) :
    y.Detaches m ↔ y.flags.terminalReady = true ∧ y.flags.pendingLines = [] := by
  constructor
  · rintro ⟨keys', hkeys', hpass⟩
    by_contra hs
    rcases hrun : y.pass m with ⟨r, w', l⟩
    obtain ⟨r', hc, -, -⟩ := message_called (hpass.symm.trans hrun)
    have htaken : w'.keys = keys' := hc.keys
    have hleft : w'.keys = y.world.keys := sessionPass_keys hrun hs
    rw [htaken, hkeys'] at hleft
    exact List.cons_ne_self .detach keys' hleft.symm
  · rintro ⟨hterminal, hpending⟩
    refine ⟨keys, hkeys, ?_⟩
    have hinput := sessionInput_detach hm hterminal hpending hkeys
    rw [Head.pass, sessionPass]
    rcases hmessage : perform .system { y.world with keys := keys } with ⟨r, w', l⟩
    cases r with
    | error e =>
      rw [Traced.run_bind_error hmessage] at hinput ⊢
      exact Traced.run_bind_error hinput
    | ok _ =>
      rw [Traced.run_bind_ok hmessage] at hinput ⊢
      rw [Traced.run_bind_ok hinput]
      change (_, _, _ ++ []) = _
      rw [List.append_nil]
      rfl

/-- A run whose pass takes the token transmits nothing more. -/
theorem writes_of_detaches {address r0 r1 r2 : Int} {commands : List (List Char)} {boot : Bool} {w : World} {l : List Event}
    (h : ComesTo m address r0 r1 r2 commands boot w y l) (hdetaches : y.Detaches m) :
    writes (followSession m address r0 r1 r2 commands boot w).2.2 = writes l := by
  obtain ⟨keys, -, hpass⟩ := hdetaches
  rcases hmessage : perform .system { y.world with keys := keys } with ⟨r, w', l'⟩
  obtain rfl : l' = [.system] := (perform_called hmessage).2
  have hloop : y.loop m = (r.map fun _ => .detached, w', [.system]) := by
    apply loop_of_pass
    rw [hpass]
    cases r with
    | error e => exact Traced.run_bind_error hmessage
    | ok _ =>
      rw [Traced.run_bind_ok hmessage]
      rfl
  obtain ⟨r', w'', l₂, hrun, hwrites, -⟩ := followSession_of_comesTo h hloop
  rw [hrun, writes_append, writes_append, hwrites]
  exact List.append_nil _

/-- Where the oldest item of the keyboard queue is the detach token at the head of a pass, this pass returns and nothing
more is transmitted, exactly if the terminal is ready and no scripted line is pending.  Both `follow_linux` are sessions in
their modes (`followLinux_eq`, `consoleFollowLinux_eq`). -/
theorem detaches_iff {address r0 r1 r2 : Int} {commands : List (List Char)} {boot : Bool} {w : World} {l : List Event}
    (hm : m.interactive = true) (h : ComesTo m address r0 r1 r2 commands boot w y l)
    (hkeys : y.world.keys = .detach :: keys) :
    (y.Detaches m ∧ writes (followSession m address r0 r1 r2 commands boot w).2.2 = writes l) ↔
      y.flags.terminalReady = true ∧ y.flags.pendingLines = [] := by
  constructor
  · rintro ⟨hdetaches, -⟩
    exact (detaches_iff_ready hm hkeys).mp hdetaches
  · intro hready
    have hdetaches := (detaches_iff_ready hm hkeys).mpr hready
    exact ⟨hdetaches, writes_of_detaches h hdetaches⟩

/-- A world in which the detach token has been typed and the next call of `read_frame` meets its deadline. -/
def World.detaching : World := ⟨[.expired], [], [], [], [1], [.detach]⟩

private theorem comesTo_first {m : Mode} (hm : m.interactive = true) {address r0 r1 r2 : Int} {boot : Bool} {l : List Event}
    (hstart : sessionStart address r0 r1 r2 boot .detaching = (.ok (), .detaching, l)) :
    ComesTo m address r0 r1 r2 [] boot .detaching
      ⟨1, Follow.initial [] boot, none, { World.detaching with passes := [] }⟩ l := by
  have hidle : drawIdle m .detaching = (.ok none, .detaching, []) := by
    rw [drawIdle, hm]
    rfl
  exact ⟨_, _, _, _, _, _, [], hstart, hidle, rfl, .refl _, (List.append_nil l).symm⟩

/-- In a session with a running shell the token is taken. -/
theorem detaches_iff_attach :
    Head.Detaches (shellMode false true) ⟨1, Follow.initial [] false, none, { World.detaching with passes := [] }⟩ ∧
      writes (followSession (shellMode false true) 0 0 0 0 [] false .detaching).2.2 = writes [.resetInput, .system] :=
  (detaches_iff rfl (comesTo_first rfl rfl) rfl).mpr ⟨rfl, rfl⟩

/-- The boot request of `run_linux_console` is sent. -/
private theorem sessionStart_boot : ∃ l, sessionStart BL1_ADDRESS 5536428 883 LINUX_MARKER true .detaching =
    (.ok (), .detaching, l) := by
  obtain ⟨packet, hrequest⟩ : ∃ packet, stage2Request BL1_ADDRESS 5536428 883 LINUX_MARKER = .ok packet := ⟨_, rfl⟩
  have hsent := Traced.run_ofExcept_bind (s := World.detaching) (g := fun packet =>
    (do perform (.write packet); perform .flush; perform .system : Script Unit)) hrequest
  have hreset : perform .resetInput .detaching = (.ok (), .detaching, [.resetInput]) := rfl
  have hstart := Traced.run_bind_ok (g := fun _ => Traced.ofExcept (stage2Request BL1_ADDRESS 5536428 883 LINUX_MARKER) >>=
    fun packet => (do perform (.write packet); perform .flush; perform .system : Script Unit)) hreset
  rw [hsent] at hstart
  exact ⟨_, hstart⟩

/-- Before the first prompt the token is ignored, and the session goes on with the next pass. -/
theorem boot_ignores_detach :
    (∃ y l next, ComesTo (shellMode false true) BL1_ADDRESS 5536428 883 LINUX_MARKER [] true .detaching y l ∧
      y.world.keys = [.detach] ∧ (y.pass (shellMode false true)).1 = .ok (.inr next)) ∧
    ∃ y l next, ComesTo (consoleMode true true false false) BL1_ADDRESS 5536428 883 LINUX_MARKER [] true .detaching y l ∧
      y.world.keys = [.detach] ∧ (y.pass (consoleMode true true false false)).1 = .ok (.inr next) := by
  obtain ⟨l, hstart⟩ := sessionStart_boot
  exact ⟨⟨_, l, _, comesTo_first rfl hstart, rfl, rfl⟩, ⟨_, l, _, comesTo_first rfl hstart, rfl, rfl⟩⟩

end

/-! ### What the target can end -/

/-- The ways in which a session may end: the detach token, the maximum runtime, an error of the port.  The passes of a loop
without a deadline are used up while it goes on. -/
inductive EndsAsAllowed (m : Mode) : Except Exn Ending → Prop
  | detached : EndsAsAllowed m (.ok .detached)
  | maxRuntime : EndsAsAllowed m (.ok .maxRuntime)
  | disconnected : EndsAsAllowed m (.ok .disconnected)
  | portError : EndsAsAllowed m (.error .osError)
  | goesOn (hbounded : m.bounded = false) : EndsAsAllowed m (.error .keyboardInterrupt)

/-- A result of `read_frame` that breaks the session off: a wrong CRC or, where that is looked for, a text of eight
hexadecimal digits. -/
def Breaks (hexReturns : Bool) : Except ReadError (Option Bytes) → Prop
  | .error (.crcMismatch _ _) => True
  | .error .port => False
  | .ok none => False
  | .ok (some payload) => hexReturns = true ∧ ∃ text, extractText (some payload) true = .ok text ∧ replyMatches .hex text = true

/-- The first `n` calls of `read_frame`, or those before an error of the port, break nothing off. -/
def Undisturbed (hexReturns : Bool) : Nat → List Poll → Prop
  | 0, _ => True
  | n + 1, polls => ¬ Breaks hexReturns (ShadowMsm.readFrame polls).1 ∧
      ((ShadowMsm.readFrame polls).1 = .error .port ∨ Undisturbed hexReturns n (ShadowMsm.readFrame polls).2)

/-- The calls other than `read_frame` raise nothing but errors of the port. -/
def World.OnlyPortErrors (w : World) : Prop := ∀ e, some e ∈ w.outcomes → e = .osError

/-- A frame with the prompt was received. -/
def SawPrompt (l : List Event) : Prop :=
  ∃ l₁ polls payload text l₂, l = l₁ ++ polls.map .poll ++ l₂ ∧ ShadowMsm.readFrame polls = (.ok (some payload), []) ∧
    extractText (some payload) true = .ok text ∧ HasPrompt text

section

variable {m : Mode} {s s' : Follow} {idle idle' : Option Nat} {w w' : World} {l : List Event} {expired : Bool}

/-- An exception of a call is one of the port. -/
theorem Called.osError {α : Type} {e : Exn} (h : Called w (.error e : Except Exn α) w') (hw : w.OnlyPortErrors) :
    e = .osError := hw e (h.raised e rfl)

theorem World.OnlyPortErrors.suffix (h : w.OnlyPortErrors) (hw : w'.outcomes <:+ w.outcomes) : w'.OnlyPortErrors :=
  fun e he => h e (hw.subset he)

theorem InputCase.called {r : Except Exn (Option Follow)} (h : InputCase m s w r w' l) :
    w'.outcomes <:+ w.outcomes ∧ w'.polls = w.polls ∧ ∀ e, r = .error e → some e ∈ w.outcomes := by
  cases h with
  | nothing => exact ⟨List.suffix_refl _, rfl, nofun⟩
  | @detach keys r' w' hkeys hlook hcall =>
    refine ⟨hcall.outcomes, hcall.polls, ?_⟩
    intro e he
    cases r' with
    | ok _ => cases he
    | error e' =>
      cases he
      exact hcall.raised e rfl
  | @input e s₁ u keys r' w' l hinput hstep hkeys hlook htyped hcall hsent hwrites =>
    refine ⟨hcall.outcomes, hcall.polls, ?_⟩
    intro e he
    cases r' with
    | ok _ => cases he
    | error e' =>
      cases he
      exact hcall.raised e rfl

theorem RestCase.outcomes_suffix {r : Except Exn (Ending ⊕ Follow × Option Nat)}
    (h : RestCase m expired s idle w r w' l) : w'.outcomes <:+ w.outcomes := by
  cases h with
  | maxRuntime _ _ hcall | idle _ _ hcall | disconnected _ _ hcall | raised _ _ hcall => exact hcall.outcomes
  | interrupted | mismatch | pause => exact List.suffix_refl _
  | text _ _ _ _ _ hcall => exact hcall.outcomes

theorem sessionPass_outcomes {r : Except Exn (Ending ⊕ Follow × Option Nat)}
    (h : sessionPass m expired s idle w = (r, w', l)) : w'.outcomes <:+ w.outcomes := by
  rcases sessionPass_cases h with ⟨e, hinput, -⟩ | ⟨hinput, -⟩ | ⟨s₁, w₁, l₁, l₂, hinput, hrest, -⟩
  · exact hinput.called.1
  · exact hinput.called.1
  · exact hrest.outcomes_suffix.trans hinput.called.1

theorem Reaches.outcomes_suffix {x y : Head} (h : Reaches m x y l) : y.world.outcomes <:+ x.world.outcomes := by
  induction h with
  | refl => exact List.suffix_refl _
  | pass hpass hrest ih => exact ih.trans (sessionPass_outcomes hpass)

/-- No call of the loop is answered twice. -/
theorem loop_outcomes {y : Head} {r : Except Exn Ending} (h : y.loop m = (r, w', l)) :
    w'.outcomes <:+ y.world.outcomes := by
  obtain ⟨z, l₁, l₂, hreach, hpass, -⟩ := of_loop h
  exact (sessionPass_outcomes hpass).trans hreach.outcomes_suffix

/-- An undisturbed pass ends as allowed. -/
theorem RestCase.endsAsAllowed {r : Except Exn Ending} (h : RestCase m expired s idle w (r.map .inl) w' l)
    (hw : w.OnlyPortErrors) (hidle : idle ≠ some 0) (hread : ¬ Breaks m.hexReturns (ShadowMsm.readFrame w.polls).1) :
    EndsAsAllowed m r := by
  generalize hr : (r.map .inl : Except Exn (Ending ⊕ Follow × Option Nat)) = r₁ at h
  have herror {e : Exn} (he : e = .osError) (hr : (r.map .inl : Except Exn (Ending ⊕ Follow × Option Nat)) = .error e) :
      EndsAsAllowed m r := by
    subst he
    cases r with
    | ok _ => cases hr
    | error _ =>
      cases hr
      exact .portError
  have hending {ending : Ending} (hr : (r.map .inl : Except Exn (Ending ⊕ Follow × Option Nat)) = .ok (.inl ending)) :
      r = .ok ending := by
    cases r with
    | error _ => cases hr
    | ok _ =>
      cases hr
      rfl
  cases h with
  | @maxRuntime r' w' hexpired hbounded hcall =>
    cases r' with
    | ok _ => exact hending hr ▸ .maxRuntime
    | error e => exact herror (hcall.osError hw) hr
  | interrupted hexpired hbounded =>
    cases r with
    | ok _ => cases hr
    | error _ =>
      cases hr
      exact .goesOn hbounded
  | idle hexpired hidle' => exact absurd hidle' hidle
  | @disconnected made rest r' w' hexpired hread' hcall =>
    cases r' with
    | ok _ => exact hending hr ▸ .disconnected
    | error e => exact herror (hcall.osError hw) hr
  | mismatch hexpired hread' =>
    rw [hread'.result] at hread
    exact absurd trivial hread
  | pause =>
    cases r with
    | ok _ => cases hr
    | error _ => cases hr
  | raised hexpired hread' hcall => exact herror (hcall.osError hw) hr
  | @text made rest payload text s₁ idle₁ p w₁ hexpired hidle' hread' htext hstep hcall hidle₁ =>
    by_cases hhex : (m.hexReturns && replyMatches .hex text) = true
    · rw [Bool.and_eq_true] at hhex
      rw [hread'.result] at hread
      exact absurd ⟨hhex.1, text, htext, hhex.2⟩ hread
    · rw [if_neg hhex] at hr
      cases r with
      | ok _ => cases hr
      | error _ => cases hr

/-- What a pass that goes on leaves. -/
theorem RestCase.goesOn (h : RestCase m expired s idle w (.ok (.inr (s', idle'))) w' l) (hm : m.interactive = true)
    (hidle : idle = none) : idle' = none ∧ w'.polls = (ShadowMsm.readFrame w.polls).2 ∧
      (ShadowMsm.readFrame w.polls).1 ≠ .error .port := by
  generalize hr : (Except.ok (.inr (s', idle')) : Except Exn (Ending ⊕ Follow × Option Nat)) = r at h
  cases h with
  | @maxRuntime r' | @idle r' | @disconnected _ _ r' => cases r' <;> cases hr
  | interrupted | mismatch | raised => cases hr
  | pause hexpired hidle' hread =>
    cases hr
    subst hidle
    rw [hread.result]
    exact ⟨rfl, rfl, nofun⟩
  | text hexpired hidle' hread htext hstep hcall hidle₁ =>
    split at hr
    · cases hr
    · cases hr
      rw [hread.result]
      exact ⟨hidle₁ hm, hcall.polls, nofun⟩

/-- A head from which nothing disturbs the session. -/
structure Head.Steady (m : Mode) (y : Head) : Prop where
  idle : y.idle = none
  outcomes : y.world.OnlyPortErrors
  polls : ∀ n, Undisturbed m.hexReturns n y.world.polls

/-- A pass that goes on comes to such a head again. -/
theorem steady_pass {n : Nat} (hm : m.interactive = true) (h : Head.Steady m ⟨n + 1, s, idle, w⟩)
    (hpass : sessionPass m expired s idle w = (.ok (.inr (s', idle')), w', l)) : Head.Steady m ⟨n, s', idle', w'⟩ := by
  rcases sessionPass_cases hpass with ⟨e, -, he⟩ | ⟨-, he⟩ | ⟨s₁, w₁, l₁, l₂, hinput, hrest, rfl⟩
  · cases he
  · cases he
  · obtain ⟨-, hpolls, -⟩ := hinput.called
    obtain ⟨hidle', hpolls', hport⟩ := hrest.goesOn hm h.idle
    refine ⟨hidle', h.outcomes.suffix (sessionPass_outcomes hpass), ?_⟩
    intro k
    change Undisturbed m.hexReturns k w'.polls
    rw [hpolls', hpolls]
    rw [hpolls] at hport
    exact (h.polls (k + 1)).2.resolve_left hport

theorem steady_ends {y : Head} {r : Except Exn Ending} (h : y.Steady m) (hpass : y.pass m = (r.map .inl, w', l)) :
    EndsAsAllowed m r := by
  have hidle : y.idle ≠ some 0 := by
    rw [h.idle]
    exact nofun
  rcases sessionPass_cases hpass with ⟨e, hinput, he⟩ | ⟨hinput, he⟩ | ⟨s₁, w₁, l₁, l₂, hinput, hrest, rfl⟩
  · cases r with
    | ok _ => cases he
    | error _ =>
      cases he
      rw [h.outcomes e (hinput.called.2.2 e rfl)]
      exact .portError
  · cases r with
    | ok _ =>
      cases he
      exact .detached
    | error _ => cases he
  · obtain ⟨houtcomes, hpolls, -⟩ := hinput.called
    refine hrest.endsAsAllowed (h.outcomes.suffix houtcomes) hidle ?_
    rw [hpolls]
    exact (h.polls 1).1

/-- A session that nothing disturbs ends as allowed. -/
theorem steady_loop {y : Head} (hm : m.interactive = true) (h : y.Steady m) : EndsAsAllowed m (y.loop m).1 := by
  rcases hloop : y.loop m with ⟨r, w', l⟩
  obtain ⟨z, l₁, l₂, hreach, hpass, -⟩ := of_loop hloop
  have hz : z.Steady m := by
    clear hloop hpass
    induction hreach with
    | refl => exact h
    | pass hpass hrest ih => exact ih (steady_pass hm h hpass)
  exact steady_ends hz hpass

/-! ### A session that is broken off -/

/-- A head with no input, now or later, and no errors. -/
structure Head.Quiet (y : Head) : Prop where
  idle : y.idle = none
  pending : y.flags.pendingLines = []
  keys : y.world.keys = []
  outcomes : y.world.outcomes = []

theorem Called.quiet {α : Type} {r : Except Exn α} (h : Called w r w') (ho : w.outcomes = []) :
    w'.outcomes = [] ∧ ∃ a, r = .ok a := by
  have houtcomes := h.outcomes
  rw [ho, List.suffix_nil] at houtcomes
  refine ⟨houtcomes, ?_⟩
  cases r with
  | ok a => exact ⟨a, rfl⟩
  | error e =>
    have he := h.raised e rfl
    rw [ho] at he
    cases he

/-- A session without input sends nothing. -/
theorem InputCase.quiet {r : Except Exn (Option Follow)} (h : InputCase m s w r w' l) (hpending : s.pendingLines = [])
    (hkeys : w.keys = []) : r = .ok (some s) ∧ w' = w ∧ l = [] := by
  cases h with
  | @nothing u keys hk =>
    rw [hkeys, eq_comm, List.append_eq_nil_iff] at hk
    obtain ⟨-, rfl⟩ := hk
    rw [← hkeys]
    exact ⟨rfl, rfl, rfl⟩
  | detach hk =>
    rw [hkeys] at hk
    cases hk
  | @input e s₁ u keys r' w' l hinput hstep hk hlook htyped =>
    rw [hkeys, eq_comm, List.append_eq_nil_iff] at hk
    obtain ⟨rfl, -⟩ := hk
    cases e with
    | command line =>
      obtain ⟨-, -, rest, hrest, -⟩ := Session.step_command.mp hstep
      rw [hpending] at hrest
      cases hrest
    | key bs => cases htyped
    | text | pause => cases hinput

/-- A pass from a quiet head is broken off, meets an error of the port or comes to a quiet head. -/
theorem quiet_pass {y : Head} {n : Nat} {r : Except Exn (Ending ⊕ Follow × Option Nat)} (hm : m.interactive = true)
    (hy : y.Quiet) (hn : y.passes = n + 1) (hpass : y.pass m = (r, w', l)) :
    (Breaks m.hexReturns (ShadowMsm.readFrame y.world.polls).1 ∧ ∃ r', r = r'.map .inl ∧ ¬ EndsAsAllowed m r') ∨
    (ShadowMsm.readFrame y.world.polls).1 = .error .port ∨
    ∃ s' made l', r = .ok (.inr (s', none)) ∧ Head.Quiet ⟨n, s', none, w'⟩ ∧
      Reads y.world (ShadowMsm.readFrame y.world.polls).1 made w'.polls ∧ l = made.map .poll ++ l' ∧
      ¬ Breaks m.hexReturns (ShadowMsm.readFrame y.world.polls).1 := by
  rcases y with ⟨passes, s, idle, w⟩
  obtain ⟨rfl, hpending, hkeys, houtcomes⟩ := hy
  dsimp only at hpending hkeys houtcomes hn ⊢
  subst hn
  change sessionPass m false s none w = _ at hpass
  rcases sessionPass_cases hpass with ⟨e, hinput, -⟩ | ⟨hinput, -⟩ | ⟨s₁, w₁, l₁, l₂, hinput, hrest, rfl⟩
  · obtain ⟨he, -, -⟩ := hinput.quiet hpending hkeys
    cases he
  · obtain ⟨he, -, -⟩ := hinput.quiet hpending hkeys
    cases he
  obtain ⟨hs, rfl, rfl⟩ := hinput.quiet hpending hkeys
  cases hs
  cases hrest with
  | maxRuntime hexpired | interrupted hexpired => cases hexpired
  | idle _ hidle => cases hidle
  | disconnected _ hread =>
    rw [hread.result]
    exact .inr (.inl rfl)
  | @mismatch made rest got want hexpired hread =>
    rw [hread.result]
    refine .inl ⟨trivial, .error _, rfl, ?_⟩
    intro h
    cases h
  | @pause made rest _ _ hread =>
    rw [hread.result]
    exact .inr (.inr ⟨s, made, [], rfl, ⟨rfl, hpending, hkeys, houtcomes⟩, hread, (List.append_nil _).symm, id⟩)
  | @raised made rest payload e w' hexpired hread hcall =>
    obtain ⟨-, a, ha⟩ := hcall.quiet houtcomes
    cases ha
  | @text made rest payload text s₂ idle₂ p w₂ hexpired hidle hread htext hstep hcall hidle₂ =>
    rw [hread.result]
    obtain rfl := hidle₂ hm
    by_cases hhex : (m.hexReturns && replyMatches .hex text) = true
    · rw [if_pos hhex]
      rw [Bool.and_eq_true] at hhex
      refine .inl ⟨⟨hhex.1, text, htext, hhex.2⟩, .ok _, rfl, ?_⟩
      intro h
      cases h
    · rw [if_neg hhex]
      have hpending' : s₂.pendingLines = [] := by
        have := Session.pendingLines_step hstep
        rw [hpending] at this
        exact (List.append_eq_nil_iff.mp this.symm).2
      have hpolls : w₂.polls = rest := hcall.polls
      have hread₂ : Reads _ (.ok (some payload)) made w₂.polls := hpolls.symm ▸ hread
      refine .inr (.inr ⟨s₂, made, [.system], rfl, ⟨rfl, hpending', hcall.keys.trans hkeys, (hcall.quiet houtcomes).1⟩,
        hread₂, rfl, ?_⟩)
      rintro ⟨hreturns, text', htext', hmatches⟩
      rw [htext] at htext'
      cases htext'
      rw [hreturns, hmatches] at hhex
      exact hhex rfl

/-- A loop that something disturbs is broken off. -/
theorem disturbed_loop {y : Head} {n : Nat} (hm : m.interactive = true) (hy : y.Quiet) (hn : y.passes = n)
    (hdisturbed : ¬ Undisturbed m.hexReturns n y.world.polls) : ¬ EndsAsAllowed m (y.loop m).1 := by
  induction n generalizing y with
  | zero => exact absurd trivial hdisturbed
  | succ n ih =>
    rcases hpass : y.pass m with ⟨r, w', l⟩
    rcases quiet_pass hm hy hn hpass with ⟨hbreaks, r', rfl, hends⟩ | hport |
      ⟨s', made, l', rfl, hquiet, hread, -, hbreaks⟩
    · rw [loop_of_pass hpass]
      exact hends
    · refine absurd ⟨?_, .inl hport⟩ hdisturbed
      rw [hport]
      exact id
    · have hreach : Reaches m y ⟨n, s', none, w'⟩ (l ++ []) := by
        rcases y with ⟨passes, s, idle, w⟩
        cases hn
        exact .pass hpass (.refl _)
      rw [loop_of_reaches hreach]
      refine ih hquiet rfl ?_
      intro hrest
      have hpolls : (ShadowMsm.readFrame y.world.polls).2 = w'.polls := congrArg Prod.snd hread.result
      rw [← hpolls] at hrest
      exact hdisturbed ⟨hbreaks, .inr hrest⟩

/-! ### Both directions -/

/-- The payload of a frame with the prompt. -/
def promptPayload : Bytes := 0x0E :: encodeAscii "shadow-msm# \n".toList

/-- After the prompt, polls without input and without errors of the other calls. -/
def World.prompting (n : Nat) (polls : List Poll) : World := ⟨(hdlcFrame promptPayload).map .byte ++ polls, [], [], [], [n], []⟩

private theorem extractText_promptPayload : extractText (some promptPayload) true = .ok "shadow-msm# ".toList := by decide

private theorem hasPrompt_promptText : HasPrompt "shadow-msm# ".toList := List.infix_refl _

/-- Every sequence of polls can come after the prompt of a running shell. -/
theorem exists_prompted (hm : m.interactive = true) (n : Nat) (polls : List Poll) :
    ∃ y l, ComesTo m 0 0 0 0 [] false (.prompting (n + 1) polls) y l ∧ SawPrompt l ∧ y.Quiet ∧ y.passes = n ∧
      y.world.polls = polls := by
  have hread : ShadowMsm.readFrame (World.prompting (n + 1) polls).polls = (.ok (some promptPayload), polls) :=
    readFrame_hdlcFrame (by decide) polls
  have hbreaks : ¬ Breaks m.hexReturns (.ok (some promptPayload)) := by
    rintro ⟨-, text, htext, hhex⟩
    rw [extractText_promptPayload] at htext
    cases htext
    exact absurd hhex (by decide)
  let first : Head := ⟨n + 1, Follow.initial [] false, none, { World.prompting (n + 1) polls with passes := [] }⟩
  have hfirst : first.Quiet := ⟨rfl, rfl, rfl, rfl⟩
  rcases hpass : first.pass m with ⟨r, w₁, l₁⟩
  have hcases := quiet_pass hm hfirst rfl hpass
  change (Breaks _ (ShadowMsm.readFrame (World.prompting (n + 1) polls).polls).1 ∧ _) ∨
    (ShadowMsm.readFrame (World.prompting (n + 1) polls).polls).1 = _ ∨ _ at hcases
  rw [hread] at hcases
  rcases hcases with ⟨h, -⟩ | h | ⟨s', made, l', rfl, hquiet, hreads, rfl, -⟩
  · exact absurd h hbreaks
  · cases h
  have hresult : ShadowMsm.readFrame first.world.polls = (.ok (some promptPayload), w₁.polls) := hreads.result
  have hpolls : w₁.polls = polls := (congrArg Prod.snd hresult).symm.trans (congrArg Prod.snd hread)
  have hidle : drawIdle m (.prompting (n + 1) polls) = (.ok none, .prompting (n + 1) polls, []) := by
    rw [drawIdle, hm]
    rfl
  refine ⟨⟨n, s', none, w₁⟩, [.resetInput, .system] ++ (made.map .poll ++ l' ++ []), ?_, ?_, hquiet, rfl, hpolls⟩
  · exact ⟨_, _, _, _, _, _, _, rfl, hidle, rfl, .pass hpass (.refl _), rfl⟩
  · refine ⟨[.resetInput, .system], made, promptPayload, _, l', ?_, hreads.alone, extractText_promptPayload,
      hasPrompt_promptText⟩
    rw [List.append_nil, List.append_assoc]

/-- The head of an interactive session has no `idle_deadline`. -/
theorem idle_of_comesTo {address r0 r1 r2 : Int} {commands : List (List Char)} {boot : Bool} {y : Head}
    (hm : m.interactive = true) (h : ComesTo m address r0 r1 r2 commands boot w y l) : y.idle = none := by
  obtain ⟨w₁, l₁, idle, w₂, n, w₃, l₂, -, hidle, -, hreach, -⟩ := h
  obtain ⟨idle', passes, hidle', hnone⟩ := drawIdle_run m w₁
  rw [hidle] at hidle'
  cases hidle'
  generalize hx : (⟨n, Follow.initial commands boot, idle, w₃⟩ : Head) = x at hreach
  have hidle : x.idle = none := by
    rw [← hx]
    exact hnone hm
  clear hx hnone
  induction hreach with
  | refl => exact hidle
  | pass hpass hrest ih =>
    apply ih
    rcases sessionPass_cases hpass with ⟨e, -, he⟩ | ⟨-, he⟩ | ⟨s₁, w₁, l₁, l₂, hinput, hrest, rfl⟩
    · cases he
    · cases he
    · exact (hrest.goesOn hm hidle).1

/-- The terminal is restored after the loop, which raises nothing but errors of the port. -/
theorem followSession_endsAsAllowed {address r0 r1 r2 : Int} {commands : List (List Char)} {boot : Bool} {y : Head}
    (h : ComesTo m address r0 r1 r2 commands boot w y l) (hy : y.world.OnlyPortErrors)
    (hends : EndsAsAllowed m (y.loop m).1) : EndsAsAllowed m (followSession m address r0 r1 r2 commands boot w).1 := by
  rcases hloop : y.loop m with ⟨r, w₁, l₁⟩
  rw [hloop] at hends
  obtain ⟨r', w', l₂, hrun, -, ⟨e, rfl, rfl⟩ | ⟨ending, rc, rfl, hc, rfl⟩⟩ := followSession_of_comesTo h hloop
  · rwa [hrun]
  · rw [hrun]
    cases rc with
    | ok _ => exact hends
    | error e =>
      have he : e = .osError := hc.osError (hy.suffix (loop_outcomes hloop))
      rw [he]
      exact .portError

/-- After a quiet loop it raises nothing. -/
theorem followSession_quiet {address r0 r1 r2 : Int} {commands : List (List Char)} {boot : Bool} {y : Head}
    (h : ComesTo m address r0 r1 r2 commands boot w y l) (ho : y.world.outcomes = []) :
    (followSession m address r0 r1 r2 commands boot w).1 = (y.loop m).1 ∧
      writes (followSession m address r0 r1 r2 commands boot w).2.2 = writes l ++ writes (y.loop m).2.2 := by
  rcases hloop : y.loop m with ⟨r, w₁, l₁⟩
  have houtcomes := loop_outcomes hloop
  rw [ho, List.suffix_nil] at houtcomes
  obtain ⟨r', w', l₂, hrun, hwrites, ⟨e, rfl, rfl⟩ | ⟨ending, rc, rfl, hc, rfl⟩⟩ := followSession_of_comesTo h hloop
  · rw [hrun, writes_append, writes_append, hwrites, List.append_nil]
    exact ⟨rfl, rfl⟩
  · obtain ⟨-, _, rfl⟩ := hc.quiet houtcomes
    rw [hrun, writes_append, writes_append, hwrites, List.append_nil]
    exact ⟨rfl, rfl⟩

/-- After the prompt of an interactive session its target can end it exactly by a frame with a wrong CRC and, in the stage-0
console, by a text of eight hexadecimal digits: whatever else comes from the target and the keyboard, every run ends as
allowed. -/
theorem endsAsAllowed_iff (hm : m.interactive = true) (polls : List Poll) :
    (∀ address r0 r1 r2 commands boot w y l, ComesTo m address r0 r1 r2 commands boot w y l → SawPrompt l →
      y.world.polls = polls → y.world.OnlyPortErrors →
      EndsAsAllowed m (followSession m address r0 r1 r2 commands boot w).1) ↔
    ∀ n, Undisturbed m.hexReturns n polls := by
  constructor
  · intro h n
    by_contra hdisturbed
    obtain ⟨y, l, hcomes, hprompt, hquiet, rfl, rfl⟩ := exists_prompted hm n polls
    have hnone : y.world.OnlyPortErrors := by
      intro e he
      rw [hquiet.outcomes] at he
      cases he
    have hends := h _ _ _ _ _ _ _ y l hcomes hprompt rfl hnone
    rw [(followSession_quiet hcomes hquiet.outcomes).1] at hends
    exact disturbed_loop hm hquiet rfl hdisturbed hends
  · intro hpolls address r0 r1 r2 commands boot w y l hcomes _ hy hw
    have hsteady : y.Steady m := ⟨idle_of_comesTo hm hcomes, hw, hy.symm ▸ hpolls⟩
    exact followSession_endsAsAllowed hcomes hw (steady_loop hm hsteady)

private theorem undisturbed_nil (hexReturns : Bool) (n : Nat) : Undisturbed hexReturns n [] := by
  induction n with
  | zero => trivial
  | succ n ih => exact ⟨id, .inr ih⟩

/-- Where hexadecimal texts are not looked for, a frame disturbs nothing. -/
private theorem undisturbed_frame {payload : Bytes} (hne : payload ≠ []) {rest : List Poll}
    (hrest : ∀ n, Undisturbed false n rest) (n : Nat) :
    Undisturbed false n ((hdlcFrame payload).map .byte ++ rest) := by
  cases n with
  | zero => trivial
  | succ n =>
    rw [Undisturbed, readFrame_hdlcFrame hne rest]
    exact ⟨fun h => Bool.false_ne_true h.1, .inr (hrest n)⟩

/-- What a program prints after the prompt, the last line of it a hexadecimal word. -/
def printed : List Poll :=
  (hdlcFrame (0x0E :: encodeAscii "total 0\n".toList)).map .byte ++
    ((hdlcFrame (0x0E :: encodeAscii "DEADBEEF\n".toList)).map .byte ++ [.expired])

theorem endsAsAllowed_printed : EndsAsAllowed (shellMode true true)
    (followSession (shellMode true true) 0 0 0 0 [] false (.prompting 4 printed)).1 := by
  have hsilent (n : Nat) : Undisturbed false n [.expired] := by
    cases n with
    | zero => trivial
    | succ n => exact ⟨id, .inr (undisturbed_nil false n)⟩
  have hprinted := undisturbed_frame (List.cons_ne_nil 0x0E (encodeAscii "total 0\n".toList))
    (undisturbed_frame (List.cons_ne_nil 0x0E (encodeAscii "DEADBEEF\n".toList)) hsilent)
  obtain ⟨y, l, hcomes, hprompt, hquiet, -, hpolls⟩ := exists_prompted (m := shellMode true true) rfl 3 printed
  have hnone : y.world.OnlyPortErrors := by
    intro e he
    rw [hquiet.outcomes] at he
    cases he
  exact (endsAsAllowed_iff (m := shellMode true true) rfl printed).mpr hprinted _ _ _ _ _ _ _ y l hcomes hprompt hpolls
    hnone

/-- A running shell is dropped by a corrupted frame, in the stage-0 console also by a program that prints eight hexadecimal
digits. -/
theorem target_ends_session :
    (followLinux 0 0 0 0 true true [] false (.prompting 2 ([FLAG, 0x41, 0x42, 0x43, FLAG].map .byte))).1 =
      .error (.runtimeError "CRC mismatch: 4342 != A3F5") ∧
    (consoleFollowLinux 0 0 0 0 true true true false [] false
      (.prompting 2 ([FLAG, 0x41, 0x42, 0x43, FLAG].map .byte))).1 =
      .error (.runtimeError "CRC mismatch: 4342 != A3F5") ∧
    (consoleFollowLinux 0 0 0 0 true true true false [] false
      (.prompting 2 ((hdlcFrame (0x0E :: encodeAscii "DEADBEEF\n".toList)).map .byte))).1 = .ok (some 0xDEADBEEF) := by
  decide +kernel

end

end ShadowMsm.Host
