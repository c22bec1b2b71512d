import ShadowMsm.Host.SessionPass

/-!
# What a `follow_linux` transmits

Each run of the loop is a run of a session, and its trace shows the entries of this run one after the other
(`sessionLoop_logged`).  So the input of a `follow_linux` comes in the order of a session, in packets of at most 64 bytes,
and the keyboard items are sent in the order in which they were typed (`follow_linux_transmitsInOrder`).
-/

namespace ShadowMsm.Host

open Session (Entry)

/-! ### The log of a session -/

/-- The events of an item that was sent. -/
def SentAs (data : Bytes) (l : List Event) : Prop :=
  ∃ chunks, Cut data chunks ∧ l = chunks.flatMap fun chunk => [.write (inputPacket chunk), .flush]

/-- What an entry leaves in the trace. -/
def Session.Entry.Shown (l : List Event) : Entry → Prop
  | .command line => SentAs (encodeAscii line) l
  | .key bs => SentAs bs l
  | .text received => ∃ polls payload, l = polls.map .poll ++ [.system] ∧
      ShadowMsm.readFrame polls = (.ok (some payload), []) ∧ extractText (some payload) true = .ok received
  | .pause => ∃ polls, l = polls.map .poll ∧ ShadowMsm.readFrame polls = (.ok none, [])

/-- A trace shows a run of a session that takes items from the keyboard queue. -/
structure Segment (rawKeys : Bool) (s s' : Follow) (keys keys' : List Key) (l : List Event)
    (log : List (Entry × List Event)) : Prop where
  trace : l = log.flatMap Prod.snd
  shown : ∀ x ∈ log, x.1.Shown x.2
  run : Runs.run (Session.step rawKeys) s (log.map Prod.fst) = some s'
  keys : ∃ used, keys = used ++ keys' ∧ Session.sentKeys (log.map Prod.fst) = typed used

/-- The end of a trace: no input, or an item that an exception has cut short. -/
inductive Tail (rawKeys : Bool) (s : Follow) (keys keys' : List Key) (finished : Bool) (l : List Event) :
    List Entry → Prop
  | silent {u : List Key} (hkeys : keys = u ++ keys') (htyped : typed u = []) (hwrites : writes l = []) :
      Tail rawKeys s keys keys' finished l []
  | cut {e : Entry} {s' : Follow} {u : List Key} {chunks : List Bytes} (hfinished : finished = false)
      (hstep : Session.step rawKeys s e = some s') (hkeys : keys = u ++ keys')
      (htyped : typed u = Session.sentKeys [e]) (hcut : Cut e.data chunks)
      (hwrites : writes l <+: chunks.map inputPacket) : Tail rawKeys s keys keys' finished l [e]

/-- A trace of the loop. -/
def Logged (rawKeys : Bool) (s : Follow) (keys keys' : List Key) (finished : Bool) (l : List Event) : Prop :=
  ∃ s₁ keys₁ l₁ l₂ log interrupted, l = l₁ ++ l₂ ∧ Segment rawKeys s s₁ keys keys₁ l₁ log ∧
    Tail rawKeys s₁ keys₁ keys' finished l₂ interrupted

/-! ### Segments -/

section

variable {rawKeys finished : Bool} {s s' s'' : Follow} {keys keys' keys'' : List Key} {l l' : List Event}
  {log log' : List (Entry × List Event)} {interrupted : List Entry}

theorem typed_append (keys keys' : List Key) : typed (keys ++ keys') = typed keys ++ typed keys' :=
  List.filterMap_append

theorem Segment.nil {u : List Key} (htyped : typed u = []) :
    Segment rawKeys s s (u ++ keys) keys [] [] :=
  ⟨rfl, nofun, rfl, u, rfl, htyped.symm⟩

theorem Segment.single {e : Entry} {u : List Key} (hshown : e.Shown l) (hstep : Session.step rawKeys s e = some s')
    (htyped : typed u = Session.sentKeys [e]) : Segment rawKeys s s' (u ++ keys) keys l [(e, l)] := by
  refine ⟨by simp, ?_, Runs.run_cons.mpr ⟨s', hstep, rfl⟩, u, rfl, htyped.symm⟩
  intro x hx
  rw [List.mem_singleton.mp hx]
  exact hshown

theorem Segment.append (h : Segment rawKeys s s' keys keys' l log) (h' : Segment rawKeys s' s'' keys' keys'' l' log') :
    Segment rawKeys s s'' keys keys'' (l ++ l') (log ++ log') := by
  obtain ⟨used, hused, hkeys⟩ := h.keys
  obtain ⟨used', hused', hkeys'⟩ := h'.keys
  refine ⟨?_, ?_, ?_, used ++ used', ?_, ?_⟩
  · rw [h.trace, h'.trace, List.flatMap_append]
  · intro x hx
    rcases List.mem_append.mp hx with hx | hx
    · exact h.shown x hx
    · exact h'.shown x hx
  · rw [List.map_append]
    exact Runs.run_append.mpr ⟨s', h.run, h'.run⟩
  · rw [hused, hused', List.append_assoc]
  · rw [List.map_append, Session.sentKeys_append, hkeys, hkeys', typed_append]

/-- A segment before a trace of the loop. -/
theorem Segment.logged (h : Segment rawKeys s s' keys keys' l log) (h' : Logged rawKeys s' keys' keys'' finished l') :
    Logged rawKeys s keys keys'' finished (l ++ l') := by
  obtain ⟨s₁, keys₁, l₁, l₂, log', interrupted, rfl, hseg, htail⟩ := h'
  exact ⟨s₁, keys₁, l ++ l₁, l₂, _, interrupted, (List.append_assoc _ _ _).symm, h.append hseg, htail⟩

theorem Tail.logged (h : Tail rawKeys s keys keys' finished l interrupted) : Logged rawKeys s keys keys' finished l :=
  ⟨s, keys, [], l, [], interrupted, rfl, .nil (u := []) rfl, h⟩

theorem logged_silent (hwrites : writes l = []) : Logged rawKeys s keys keys finished l :=
  (Tail.silent (u := []) rfl rfl hwrites).logged

theorem sentAs_itemEvents (data : Bytes) : SentAs data (itemEvents data) := ⟨inputChunks data, cut_inputChunks data, rfl⟩

end

/-! ### Passes -/

section

variable {m : Mode} {expired : Bool} {s s' : Follow} {idle idle' : Option Nat} {w w' : World} {l : List Event}

/-- The input of a pass that goes on is a segment. -/
theorem InputCase.segment (h : InputCase m s w (.ok (some s')) w' l) :
    ∃ log, Segment m.rawKeys s s' w.keys w'.keys l log := by
  generalize hr : (Except.ok (some s') : Except Exn (Option Follow)) = r at h
  cases h with
  | nothing hkeys hlook htyped hscript =>
    cases hr
    rw [hkeys]
    exact ⟨[], .nil htyped⟩
  | @detach keys r' w' hkeys hlook hcall =>
    cases r'
    · cases hr
    · cases hr
  | @input e s₁ used keys r' w' l hinput hstep hkeys hlook htyped hcall hsent hwrites =>
    cases r' with
    | error _ => cases hr
    | ok _ =>
      cases hr
      have hshown : e.Shown l := by
        rw [hsent rfl]
        cases e with
        | command line => exact sentAs_itemEvents _
        | key bs => exact sentAs_itemEvents _
        | text | pause => cases hinput
      rw [hkeys, hcall.keys]
      exact ⟨_, .single hshown hstep htyped⟩

/-- The input of a pass that ends the loop. -/
theorem InputCase.logged {r : Except Exn (Option Follow)} (h : InputCase m s w r w' l)
    (hr : r = .ok none ∨ ∃ e, r = .error e) : Logged m.rawKeys s w.keys w'.keys r.isOk l := by
  cases h with
  | nothing => simp at hr
  | @detach keys r' w' hkeys hlook hcall =>
    rw [hkeys, hcall.keys]
    exact (Tail.silent (u := [.detach]) rfl rfl rfl).logged
  | @input e s₁ used keys r' w' l hinput hstep hkeys hlook htyped hcall hsent hwrites =>
    cases r' with
    | ok _ => simp [Except.map] at hr
    | error _ =>
      rw [hkeys, hcall.keys]
      exact (Tail.cut rfl hstep rfl htyped (cut_inputChunks e.data) hwrites).logged

/-- The rest of a pass after which the loop goes on. -/
theorem RestCase.segment (h : RestCase m expired s idle w (.ok (.inr (s', idle'))) w' l) :
    ∃ log, Segment m.rawKeys s s' w.keys w'.keys l log := by
  generalize hr : (Except.ok (.inr (s', idle')) : Except Exn (Ending ⊕ Follow × Option Nat)) = r at h
  cases h with
  | @maxRuntime r' | @idle r' | @disconnected _ _ r' => cases r' <;> cases hr
  | interrupted | mismatch | raised => cases hr
  | @pause made rest hexpired hidle hread =>
    cases hr
    have hshown : Entry.pause.Shown (made.map .poll) := ⟨made, rfl, hread.alone⟩
    exact ⟨_, .single (u := []) hshown rfl rfl⟩
  | @text made rest payload text s₁ idle₁ passes w₁ hexpired hidle hread htext hstep hcall hidle' =>
    split at hr
    · cases hr
    · cases hr
      change ∃ log, Segment m.rawKeys s s' w.keys w₁.keys _ log
      rw [hcall.keys]
      have hshown : (Entry.text text).Shown (made.map .poll ++ [.system]) := ⟨made, payload, rfl, hread.alone, htext⟩
      exact ⟨_, .single (u := []) hshown hstep rfl⟩

/-- The rest of a pass that ends the loop. -/
theorem RestCase.logged {r : Except Exn (Ending ⊕ Follow × Option Nat)} (h : RestCase m expired s idle w r w' l)
    (finished : Bool) : Logged m.rawKeys s w.keys w'.keys finished l := by
  cases h with
  | maxRuntime _ _ hcall | idle _ _ hcall =>
    rw [hcall.keys]
    exact logged_silent rfl
  | interrupted => exact logged_silent rfl
  | disconnected _ _ hcall | raised _ _ hcall =>
    rw [hcall.keys]
    exact logged_silent (by simp [writes])
  | mismatch | pause => exact logged_silent (by simp)
  | text _ _ _ _ _ hcall =>
    rw [hcall.keys]
    exact logged_silent (by simp [writes])

theorem sessionPass_segment (h : sessionPass m expired s idle w = (.ok (.inr (s', idle')), w', l)) :
    ∃ log, Segment m.rawKeys s s' w.keys w'.keys l log := by
  rcases sessionPass_cases h with ⟨e, -, he⟩ | ⟨-, he⟩ | ⟨s₁, w₁, l₁, l₂, hinput, hrest, rfl⟩
  · cases he
  · cases he
  · obtain ⟨log, hseg⟩ := hinput.segment
    obtain ⟨log', hseg'⟩ := hrest.segment
    exact ⟨log ++ log', hseg.append hseg'⟩

theorem sessionPass_logged {r : Except Exn Ending} (h : sessionPass m expired s idle w = (r.map .inl, w', l)) :
    Logged m.rawKeys s w.keys w'.keys r.isOk l := by
  rcases sessionPass_cases h with ⟨e, hinput, he⟩ | ⟨hinput, he⟩ | ⟨s₁, w₁, l₁, l₂, hinput, hrest, rfl⟩
  · cases r with
    | ok _ => cases he
    | error _ => exact hinput.logged (.inr ⟨e, rfl⟩)
  · cases r with
    | ok _ => exact hinput.logged (.inl rfl)
    | error _ => cases he
  · obtain ⟨log, hseg⟩ := hinput.segment
    exact hseg.logged (hrest.logged r.isOk)

/-- Between two heads the trace is a segment. -/
theorem Reaches.segment {x y : Head} (h : Reaches m x y l) :
    ∃ log, Segment m.rawKeys x.flags y.flags x.world.keys y.world.keys l log := by
  induction h with
  | refl x => exact ⟨[], .nil (u := []) rfl⟩
  | pass hpass hrest ih =>
    obtain ⟨log, hseg⟩ := sessionPass_segment hpass
    obtain ⟨log', hseg'⟩ := ih
    exact ⟨log ++ log', hseg.append hseg'⟩

/-- Every run of the loop is logged. -/
theorem sessionLoop_logged {n : Nat} {r : Except Exn Ending} (h : sessionLoop m s idle n w = (r, w', l)) :
    Logged m.rawKeys s w.keys w'.keys r.isOk l := by
  obtain ⟨y, l₁, l₂, hreach, hpass, rfl⟩ := of_loop (x := ⟨n, s, idle, w⟩) h
  obtain ⟨log, hseg⟩ := hreach.segment
  exact hseg.logged (sessionPass_logged hpass)

end

/-! ### `follow_linux` -/

/-- A run of a `follow_linux`: what it transmits before the loop, the log of a session, and its end. -/
structure InOrder (bootRequest : Except Exn Bytes) (boot : Bool) (commands : List (List Char)) (keys keys' : List Key)
    (finished : Bool) (l before : List Event) (log : List (Entry × List Event)) (after : List Event)
    (interrupted : List Entry) : Prop where
  trace : l = before ++ (log.flatMap Prod.snd ++ after)
  /-- nothing but the one boot request is transmitted before the loop -/
  boot_request : writes before = [] ∨ boot = true ∧ ∃ packet, bootRequest = .ok packet ∧ writes before = [packet]
  shown : ∀ x ∈ log, x.1.Shown x.2
  sequenced : Session.Sequenced (commands.map fun command => rstripLine command ++ ['\n']) boot
    (log.map Prod.fst ++ interrupted)
  /-- the keyboard items are those taken from the front of the queue -/
  keys : ∃ used, keys = used ++ keys' ∧ Session.sentKeys (log.map Prod.fst ++ interrupted) = typed used
  /-- only an exception leaves an item cut short -/
  after : interrupted = [] ∧ writes after = [] ∨
    finished = false ∧ ∃ e chunks, interrupted = [e] ∧ Cut e.data chunks ∧ writes after <+: chunks.map inputPacket

section

variable {m : Mode} {address r0 r1 r2 : Int} {commands : List (List Char)} {boot : Bool} {w w' : World} {l : List Event}

theorem sessionStart_writes {r : Except Exn Unit} (h : sessionStart address r0 r1 r2 boot w = (r, w', l)) :
    w'.keys = w.keys ∧ (writes l = [] ∨
      boot = true ∧ ∃ packet, stage2Request address r0 r1 r2 = .ok packet ∧ writes l = [packet]) := by
  rcases sessionStart_cases h with ⟨e, -, -, -, hc, hwrites⟩ | ⟨hc, -, hwrites⟩
  · exact ⟨hc.keys, .inl hwrites⟩
  · refine ⟨hc.keys, ?_⟩
    rw [startWrites] at hwrites
    cases boot with
    | false => exact .inl (List.prefix_nil.mp hwrites)
    | true =>
      cases hrequest : stage2Request address r0 r1 r2 with
      | error e =>
        rw [hrequest] at hwrites
        exact .inl (List.prefix_nil.mp hwrites)
      | ok packet =>
        rw [hrequest] at hwrites
        rcases List.prefix_cons_iff.mp hwrites with hnil | ⟨t, ht, hnil⟩
        · exact .inl hnil
        · rw [List.prefix_nil.mp hnil] at ht
          exact .inr ⟨rfl, packet, rfl, ht⟩

/-- A run in order that ends well is one of which an exception is asked less. -/
private theorem InOrder.interrupted {request : Except Exn Bytes} {keys keys' : List Key} {before after : List Event}
    {log : List (Entry × List Event)} {interrupted : List Entry}
    (h : InOrder request boot commands keys keys' true l before log after interrupted) :
    InOrder request boot commands keys keys' false l before log after interrupted := by
  refine ⟨h.trace, h.boot_request, h.shown, h.sequenced, h.keys, ?_⟩
  rcases h.after with hafter | ⟨hfinished, -⟩
  · exact .inl hafter
  · cases hfinished

/-- Before and after the loop nothing of the session is transmitted. -/
private theorem inOrder_of_logged {request : Except Exn Bytes} {keys keys' : List Key} {finished : Bool}
    {before after : List Event}
    (hbefore : writes before = [] ∨ boot = true ∧ ∃ packet, request = .ok packet ∧ writes before = [packet])
    (h : Logged m.rawKeys (Follow.initial commands boot) keys keys' finished l) (hafter : writes after = []) :
    ∃ log tail interrupted, InOrder request boot commands keys keys' finished (before ++ (l ++ after)) before log tail
      interrupted := by
  obtain ⟨s₁, keys₁, l₁, l₂, log, interrupted, rfl, hseg, htail⟩ := h
  have hboot : (!(Follow.initial commands boot).terminalReady) = boot := Bool.not_not boot
  have htrace : before ++ (l₁ ++ l₂ ++ after) = before ++ (log.flatMap Prod.snd ++ (l₂ ++ after)) := by
    rw [hseg.trace, List.append_assoc]
  obtain ⟨used, hused, hkeys⟩ := hseg.keys
  refine ⟨log, l₂ ++ after, interrupted, htrace, hbefore, hseg.shown, ?_, ?_, ?_⟩
  · have hrun : ∃ s', Runs.run (Session.step m.rawKeys) (Follow.initial commands boot) (log.map Prod.fst ++ interrupted) =
        some s' := by
      cases htail with
      | silent => exact ⟨s₁, by rw [List.append_nil, hseg.run]⟩
      | cut hfinished hstep => exact ⟨_, Runs.run_append.mpr ⟨s₁, hseg.run, Runs.run_cons.mpr ⟨_, hstep, rfl⟩⟩⟩
    obtain ⟨s', hrun⟩ := hrun
    have hseq := Session.sequenced_of_run hrun
    rwa [hboot] at hseq
  · cases htail with
    | @silent u hkeys' htyped =>
      refine ⟨used ++ u, by rw [hused, hkeys', List.append_assoc], ?_⟩
      rw [List.append_nil, hkeys, typed_append, htyped, List.append_nil]
    | @cut e s' u chunks hfinished hstep hkeys' htyped =>
      refine ⟨used ++ u, by rw [hused, hkeys', List.append_assoc], ?_⟩
      rw [Session.sentKeys_append, hkeys, typed_append, htyped]
  · cases htail with
    | silent hkeys' htyped hwrites => exact .inl ⟨rfl, by rw [writes_append, hwrites, hafter]; rfl⟩
    | cut hfinished hstep hkeys' htyped hcut hwrites =>
      refine .inr ⟨hfinished, _, _, rfl, hcut, ?_⟩
      rwa [writes_append, hafter, List.append_nil]

/-- Every run of a session is in order. -/
theorem followSession_inOrder {r : Except Exn Ending}
    (h : followSession m address r0 r1 r2 commands boot w = (r, w', l)) :
    ∃ before log after interrupted, InOrder (stage2Request address r0 r1 r2) boot commands w.keys w'.keys r.isOk l before
      log after interrupted := by
  have hnil : writes [] = [] := rfl
  unfold followSession at h
  rcases Traced.of_run_bind h with ⟨e, h₁, rfl⟩ | ⟨_, w₁, l₁, l₂, h₁, h₂, rfl⟩
  · obtain ⟨hkeys, hwrites⟩ := sessionStart_writes h₁
    rw [hkeys]
    have hlogged : Logged m.rawKeys (Follow.initial commands boot) w.keys w.keys false [] := logged_silent rfl
    obtain ⟨log, tail, interrupted, horder⟩ := inOrder_of_logged hwrites hlogged hnil
    rw [List.append_nil, List.append_nil] at horder
    exact ⟨l, log, tail, interrupted, horder⟩
  obtain ⟨hkeys, hwrites⟩ := sessionStart_writes h₁
  obtain ⟨idle, passes, hidle, -⟩ := drawIdle_run m w₁
  rw [Traced.run_bind_ok hidle, List.nil_append] at h₂
  obtain ⟨n, passes', hdraw⟩ := drawPasses_run { w₁ with passes := passes }
  rw [Traced.run_bind_ok hdraw, List.nil_append] at h₂
  rw [← hkeys]
  rcases Traced.of_run_bind h₂ with ⟨e, h₃, rfl⟩ | ⟨ending, w₂, l₃, l₄, h₃, h₄, rfl⟩
  · obtain ⟨log, tail, interrupted, horder⟩ := inOrder_of_logged hwrites (sessionLoop_logged h₃) hnil
    rw [List.append_nil] at horder
    exact ⟨l₁, log, tail, interrupted, horder⟩
  · have hlogged := sessionLoop_logged h₃
    obtain ⟨r', hc, rfl, rfl⟩ := message_called h₄
    rw [hc.keys]
    obtain ⟨log, tail, interrupted, horder⟩ := inOrder_of_logged hwrites hlogged (rfl : writes [.system] = [])
    cases r' with
    | ok _ => exact ⟨l₁, log, tail, interrupted, horder⟩
    | error _ => exact ⟨l₁, log, tail, interrupted, horder.interrupted⟩

/-- Every run of a script is in order. -/
def TransmitsInOrder {α : Type} (f : Script α) (bootRequest : Except Exn Bytes) (boot : Bool)
    (commands : List (List Char)) : Prop :=
  ∀ w, ∃ before log after interrupted,
    InOrder bootRequest boot commands w.keys (f w).2.1.keys (f w).1.isOk (f w).2.2 before log after interrupted

/-- A result that is made of the ending changes nothing of this. -/
theorem followSession_transmitsInOrder {α : Type} (g : Ending → α) :
    TransmitsInOrder (g <$> followSession m address r0 r1 r2 commands boot) (stage2Request address r0 r1 r2) boot
      commands := by
  intro w
  rcases h : (g <$> followSession m address r0 r1 r2 commands boot) w with ⟨r, w', l⟩
  rw [← bind_pure_comp] at h
  rcases Traced.of_run_bind h with ⟨e, h₁, rfl⟩ | ⟨ending, w₁, l₁, l₂, h₁, h₂, rfl⟩
  · exact followSession_inOrder h₁
  · cases h₂
    rw [List.append_nil]
    exact followSession_inOrder h₁

/-- The input of both `follow_linux` is sequenced: scripted lines and then keyboard items, each once and in order, after a
prompt each, and cut into packets of at most 64 bytes. -/
theorem follow_linux_transmitsInOrder (address r0 r1 r2 : Int) (commands : List (List Char)) (boot : Bool) :
    (∀ bounded rawKeys, TransmitsInOrder (followLinux address r0 r1 r2 bounded rawKeys commands boot)
      (stage2Request address r0 r1 r2) boot commands) ∧
    ∀ interactive tty bounded idles,
      TransmitsInOrder (consoleFollowLinux address r0 r1 r2 interactive tty bounded idles commands boot)
        (stage2Request address r0 r1 r2) boot commands := by
  refine ⟨?_, ?_⟩
  · intro bounded rawKeys
    rw [followLinux_eq]
    exact followSession_transmitsInOrder _
  · intro interactive tty bounded idles
    rw [consoleFollowLinux_eq]
    exact followSession_transmitsInOrder _

end

end ShadowMsm.Host
