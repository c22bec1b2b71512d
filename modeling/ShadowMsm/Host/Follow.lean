import ShadowMsm.Host.Session

/-!
# `follow_linux` in both consoles

`k3765_stage0_console.py` and `k3765_linux_shell.py` each have a `follow_linux`.  The one of the stage-0 console does all
the other one does, and more: it runs without a keyboard too, it may give up when no frame comes for some time, and it takes
a text of eight hexadecimal digits for the number with which BL1 returned.  It is modelled here with a `Mode` that says
which of this is on, and the function of the shell is the same with all of it off (`followLinux_eq`).

A run of the loop is a run of a session (`sessionLoop_logged`).
-/

namespace ShadowMsm.Host

/-- How a `follow_linux` runs. -/
structure Mode where
  interactive : Bool
  /-- what `raw_console_input` gives -/
  rawKeys : Bool
  /-- `max_runtime > 0` -/
  bounded : Bool
  /-- `idle_timeout > 0` -/
  idles : Bool
  /-- a text of eight hexadecimal digits ends the session -/
  hexReturns : Bool
  deriving DecidableEq, Repr

/-- Where the loop of `follow_linux` returns. -/
inductive Ending
  | detached
  | maxRuntime
  | idle
  /-- an error of the port during `read_frame` -/
  | disconnected
  | returned (r0 : Nat)
  deriving DecidableEq, Repr

/-- The first part of a pass: one scripted line, or what the keyboard queue holds, is sent.  It gives none after a
detach. -/
def sessionInput (m : Mode) (s : Follow) : Script (Option Follow) :=
  if s.terminalReady then
    match s.pendingLines with
    | line :: rest =>
      if s.scriptedReady then do
        sendLinuxInput (encodeAscii line)
        pure (some { s with scriptedReady := false, pendingLines := rest })
      else pure (some s)
    | [] =>
      if m.interactive then do
        match ← drawKey with
        | .empty => pure (some s)
        | .detach => do
          perform .system
          pure none
        | .chunk bs =>
          if bs = [] then pure (some s)
          else do
            sendLinuxInput bs
            pure (some { s with scriptedReady := s.scriptedReady && m.rawKeys })
      else pure (some s)
  else pure (some s)

/-- `read_frame`, with none for an error of the port, which is reported. -/
def readOrDisconnect : Script (Option (Option Bytes)) :=
  tryCatch (do pure (some (← readFrame))) fun e =>
    match e with
    | .osError => do
      perform .system
      pure none
    | e => throw e

/-- A frame with text from Linux: the flags after it, and the text. -/
def sessionText (s : Follow) (payload : Bytes) : Script (Follow × List Char) := do
  let text ← Traced.ofExcept (extractText (some payload) true)
  perform .system
  if "shadow-msm# ".toList <:+: text then pure ({ s with terminalReady := true, scriptedReady := true }, text)
  else pure (s, text)

/-- `idle_deadline`, as passes from now: none for infinity. -/
def drawIdle (m : Mode) : Script (Option Nat) :=
  if m.interactive || !m.idles then pure none
  else do
    let passes ← drawPasses
    pure (some passes)

/-- A pass of the loop, `expired` once it is past `absolute_deadline`: where the function returns, or the flags and
`idle_deadline` for the next pass.  A loop without that deadline goes on until it returns or is interrupted. -/
def sessionPass (m : Mode) (expired : Bool) (s : Follow) (idle : Option Nat) : Script (Ending ⊕ Follow × Option Nat) := do
  match ← sessionInput m s with
  | none => pure (.inl .detached)
  | some s =>
    if expired then
      if m.bounded then do
        perform .system
        pure (.inl .maxRuntime)
      else throw .keyboardInterrupt
    else if idle = some 0 then do
      perform .system
      pure (.inl .idle)
    else do
      match ← readOrDisconnect with
      | none => pure (.inl .disconnected)
      | some none => pure (.inr (s, idle.map (· - 1)))
      | some (some payload) => do
        let (s, text) ← sessionText s payload
        let idle ← drawIdle m
        if m.hexReturns && replyMatches .hex text then pure (.inl (.returned (intBase16 text)))
        else pure (.inr (s, idle))

/-- The loop, with the passes left before `absolute_deadline`. -/
def sessionLoop (m : Mode) (s : Follow) (idle : Option Nat) : Nat → Script Ending
  | 0 => do
    match ← sessionPass m true s idle with
    | .inl ending => pure ending
    | .inr _ => throw .keyboardInterrupt
  | passes + 1 => do
    match ← sessionPass m false s idle with
    | .inl ending => pure ending
    | .inr (s, idle) => sessionLoop m s idle passes

/-- The flags before the loop. -/
def Follow.initial (initialCommands : List (List Char)) (issueBootRequest : Bool) : Follow where
  terminalReady := !issueBootRequest
  scriptedReady := !issueBootRequest
  pendingLines := initialCommands.map fun command => rstripLine command ++ ['\n']

/-- What comes before the loop: the input buffer is cleared, the boot request sent, the terminal prepared. -/
def sessionStart (address r0 r1 r2 : Int) (issueBootRequest : Bool) : Script Unit := do
  perform .resetInput
  if issueBootRequest then
    perform (.write (← Traced.ofExcept (stage2Request address r0 r1 r2)))
    perform .flush
  perform .system

/-- A `follow_linux` in a mode. -/
def followSession (m : Mode) (address r0 r1 r2 : Int) (initialCommands : List (List Char)) (issueBootRequest : Bool) :
    Script Ending := do
  sessionStart address r0 r1 r2 issueBootRequest
  let idle ← drawIdle m
  let passes ← drawPasses
  let ending ← sessionLoop m (Follow.initial initialCommands issueBootRequest) idle passes
  perform .system
  pure ending

/-- The mode of the shell. -/
def shellMode (bounded rawKeys : Bool) : Mode where
  interactive := true
  rawKeys := rawKeys
  bounded := bounded
  idles := false
  hexReturns := false

/-- The modes of the stage-0 console: `raw_console_input` gives raw keys to an interactive session only. -/
def consoleMode (interactive tty bounded idles : Bool) : Mode where
  interactive := interactive
  rawKeys := interactive && tty
  bounded := bounded
  idles := idles
  hexReturns := true

/-- `follow_linux` of `k3765_stage0_console.py` -/
def consoleFollowLinux (address r0 r1 r2 : Int) (interactive tty bounded idles : Bool) (initialCommands : List (List Char))
    (issueBootRequest : Bool) : Script (Option Nat) := do
  let ending ← followSession (consoleMode interactive tty bounded idles) address r0 r1 r2 initialCommands issueBootRequest
  match ending with
  | .returned r0 => pure (some r0)
  | _ => pure none

/-- What the stage-0 console makes of an ending. -/
def Ending.result : Ending → Option Nat
  | .returned r0 => some r0
  | _ => none

theorem consoleFollowLinux_eq (address r0 r1 r2 : Int) (interactive tty bounded idles : Bool)
    (initialCommands : List (List Char)) (issueBootRequest : Bool) :
    consoleFollowLinux address r0 r1 r2 interactive tty bounded idles initialCommands issueBootRequest =
      Ending.result <$> followSession (consoleMode interactive tty bounded idles) address r0 r1 r2 initialCommands
        issueBootRequest := by
  unfold consoleFollowLinux
  rw [← bind_pure_comp]
  congr 1
  funext ending
  cases ending <;> rfl

/-! ### The shell -/

theorem sessionInput_shellMode (bounded rawKeys : Bool) (s : Follow) :
    sessionInput (shellMode bounded rawKeys) s = followInput rawKeys s := rfl

theorem map_sessionText (s : Follow) (payload : Bytes) : Prod.fst <$> sessionText s payload = followText s payload := by
  unfold sessionText followText
  simp only [map_bind]
  congr 1
  funext text
  congr 1
  funext _
  split <;> rfl

theorem followLoop_eq (bounded rawKeys : Bool) (s : Follow) (n : Nat) :
    followLoop bounded rawKeys s n = (fun _ => ()) <$> sessionLoop (shellMode bounded rawKeys) s none n := by
  induction n generalizing s with
  | zero =>
    rw [followLoop, sessionLoop, sessionPass, sessionInput_shellMode]
    simp only [map_bind, bind_assoc]
    congr 1
    funext o
    cases o with
    | none => rfl
    | some s =>
      cases bounded
      · rfl
      · simp [shellMode]
  | succ n ih =>
    rw [followLoop, sessionLoop, sessionPass, sessionInput_shellMode]
    simp only [map_bind, bind_assoc]
    congr 1
    funext o
    cases o with
    | none => rfl
    | some s =>
      simp only [Bool.false_eq_true, reduceCtorEq, if_false, bind_assoc]
      refine congrArg (readOrDisconnect >>= ·) ?_
      funext payload
      rcases payload with - | - | payload
      · rfl
      · exact ih s
      · simp only [bind_assoc, ← map_sessionText, bind_map_left]
        congr 1
        funext x
        exact ih x.1

/-- `follow_linux` of the shell is the session in its mode. -/
theorem followLinux_eq (address r0 r1 r2 : Int) (bounded rawKeys : Bool) (initialCommands : List (List Char))
    (issueBootRequest : Bool) :
    followLinux address r0 r1 r2 bounded rawKeys initialCommands issueBootRequest =
      (fun _ => ()) <$> followSession (shellMode bounded rawKeys) address r0 r1 r2 initialCommands issueBootRequest := by
  have hidle : drawIdle (shellMode bounded rawKeys) = pure none := rfl
  unfold followLinux followSession sessionStart
  simp only [followLoop_eq, hidle, map_bind, bind_assoc, pure_bind, map_pure, bind_map_left]
  cases issueBootRequest
  · simp [Follow.initial]
  · simp [Follow.initial]

end ShadowMsm.Host
