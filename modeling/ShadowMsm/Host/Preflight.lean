import ShadowMsm.Host.Launcher

/-!
# No handoff without preflight

In every run of the launcher a stage-2 call request is written once at most, with fixed arguments, and only after the
payloads have been verified, loaded and executed, and the checksums of BL1 and of the device tree have come back from
the target as expected.
-/

namespace ShadowMsm.Host

open Traced

/-! ### Handoffs -/

/-- The payload of a stage-2 call. -/
def isCall : Bytes → Bool
  | 0x1C :: 0x0D :: _ => true
  | _ => false

/-- A stage-2 call request: an intact frame with such a payload. -/
def isHandoff (bs : Bytes) : Bool := (unframe bs).any isCall

/-- The stage-2 call requests of a trace. -/
def handoffs (l : List Event) : List Bytes := (writes l).filter isHandoff

/-- The request that boots Linux. -/
def bootRequest : Bytes :=
  hdlcFrame (request 0x0D ([BL1_ADDRESS, (PAYLOADS .image).size, (PAYLOADS .dtb).size, LINUX_MARKER].flatMap
    fun x => leBytes 4 x.toNat))

theorem isHandoff_hdlcFrame {payload : Bytes} (h : payload ≠ []) : isHandoff (hdlcFrame payload) = isCall payload := by
  rw [isHandoff, unframe_hdlcFrame h]
  rfl

theorem isHandoff_request {subcommand : Byte} {args : Bytes} (h : subcommand ≠ 0x0D) :
    isHandoff (hdlcFrame (request subcommand args)) = false := by
  rw [isHandoff_hdlcFrame (by simp [request])]
  unfold isCall request
  split
  · rename_i heq
    exact absurd (List.cons.inj (List.cons.inj heq).2).1 h
  · rfl

theorem isHandoff_packet (p : Packet) : isHandoff p.frame = false := isHandoff_hdlcFrame (by simp)

@[simp] theorem handoffs_append (l l' : List Event) : handoffs (l ++ l') = handoffs l ++ handoffs l' := by
  simp [handoffs]

theorem handoffs_cons (t : Event) (l : List Event) : handoffs (t :: l) = handoffs [t] ++ handoffs l :=
  handoffs_append [t] l

/-! ### Quiet scripts -/

/-- The script makes no handoff. -/
def Quiet {α : Type} (f : Script α) : Prop := Emits f fun t => handoffs [t] = []

variable {α β : Type} {f : Script α} {g : α → Script β}

theorem handoffs_eq_nil {l : List Event} (h : ∀ t ∈ l, handoffs [t] = []) : handoffs l = [] := by
  induction l with
  | nil => rfl
  | cons t l ih =>
    rw [handoffs_cons, h t (by simp), ih fun t ht => h t (List.mem_cons_of_mem _ ht)]
    rfl

theorem quiet_of_silent (h : ∀ w, (f w).2.2 = []) : Quiet f := ⟨fun w => by simp [h]⟩

theorem quiet_ofExcept {x : Except Exn α} : Quiet (Traced.ofExcept x) := quiet_of_silent fun _ => rfl

theorem quiet_perform {t : Event} (h : handoffs [t] = []) : Quiet (perform t) := sat_perform fun _ => by simpa using h

theorem quiet_readFrame : Quiet readFrame := by
  apply sat_readFrame.mono
  rintro r l ⟨polls, rfl, -⟩ t ht
  obtain ⟨p, -, rfl⟩ := List.mem_map.mp ht
  rfl

theorem quiet_system : Quiet (perform .system) := quiet_perform rfl

theorem quiet_write {bs : Bytes} (h : isHandoff bs = false) : Quiet (perform (.write bs)) :=
  quiet_perform (by simp [handoffs, writes, h])

theorem quiet_transmit {bs : Bytes} (h : isHandoff bs = false) : Quiet (transmit bs) := by
  unfold transmit
  refine emits_bind (quiet_perform rfl) fun _ => ?_
  exact emits_bind (quiet_write h) fun _ => quiet_perform rfl

theorem quiet_ite {c : Prop} [Decidable c] {f f' : Script α} (hf : Quiet f) (hf' : Quiet f') :
    Quiet (if c then f else f') := by
  split
  · exact hf
  · exact hf'

/-! ### The scripts that make no handoff -/

theorem quiet_stage0Replies (expected : Expected) (ignored : List (List Char)) (passes : Nat) :
    Quiet (stage0Replies expected ignored passes) := by
  induction passes generalizing ignored with
  | zero => exact emits_throw
  | succ passes ih =>
    refine emits_bind quiet_readFrame fun response => ?_
    cases response with
    | none => exact ih ignored
    | some response =>
      refine emits_bind quiet_ofExcept fun text => ?_
      exact quiet_ite emits_pure (ih _)

theorem quiet_stage0Exchange {payload : Bytes} {expected : Expected} (h : isHandoff (hdlcFrame payload) = false) :
    Quiet (stage0Exchange payload expected) := by
  refine emits_bind (quiet_transmit h) fun _ => ?_
  refine emits_bind (quiet_of_silent ?_) fun passes => quiet_stage0Replies _ _ _
  intro w
  unfold drawPasses
  split <;> rfl

theorem quiet_stage0Command {subcommand : Byte} {args : Bytes} (h : subcommand ≠ 0x0D) :
    Quiet (stage0Command subcommand args) := quiet_stage0Exchange (isHandoff_request h)

theorem quiet_openStage0Port : Quiet openStage0Port :=
  emits_bind (quiet_perform rfl) fun _ => quiet_perform rfl

theorem quiet_logQueries {queries : List Byte} (h : 0x0D ∉ queries) : Quiet (logQueries queries) := by
  induction queries with
  | nil => exact emits_pure
  | cons subcommand rest ih =>
    rw [List.mem_cons, not_or] at h
    refine emits_bind (quiet_stage0Command (Ne.symm h.1)) fun _ => ?_
    exact emits_bind quiet_system fun _ => ih h.2

theorem quiet_writeBootLog : Quiet writeBootLog := by
  refine emits_bind quiet_openStage0Port fun _ => ?_
  refine emits_bind quiet_system fun _ => ?_
  refine emits_bind (quiet_stage0Command (by decide)) fun _ => ?_
  refine emits_bind quiet_system fun _ => ?_
  exact emits_bind (quiet_logQueries (by decide)) fun _ => quiet_system

theorem quiet_targetCrcQuery (address length : Int) : Quiet (targetCrcQuery address length) := by
  refine sat_bind (φ := fun r l => r = targetCrcQueryRequest address length ∧ l = []) (sat_ofExcept ⟨rfl, rfl⟩) ?_ ?_
  · rintro e l ⟨-, rfl⟩
    simp
  · rintro payload l ⟨hpayload, rfl⟩
    obtain ⟨args, -, rfl⟩ := targetCrcQueryRequest_eq_ok hpayload.symm
    exact emits_bind (quiet_stage0Exchange (isHandoff_request (by decide))) fun _ => emits_pure

theorem quiet_crcCheck (address : Int) (payload : Payload) : Quiet (crcCheck address payload) := by
  unfold crcCheck
  split
  · refine emits_bind quiet_openStage0Port fun _ => ?_
    refine emits_bind (quiet_targetCrcQuery _ _) fun actual => ?_
    refine emits_bind quiet_system fun _ => ?_
    refine emits_bind quiet_system fun _ => ?_
    exact quiet_ite emits_throw emits_pure
  · exact emits_throw

theorem quiet_sendLinuxInputFrom (data : Bytes) (offset : Nat) : Quiet (sendLinuxInputFrom data offset) := by
  induction offset using sendLinuxInputFrom.induct data with
  | case1 offset h ih =>
    rw [sendLinuxInputFrom, dif_pos h]
    refine emits_bind (quiet_write (isHandoff_request (by decide))) fun _ => ?_
    exact emits_bind (quiet_perform rfl) fun _ => ih
  | case2 offset h =>
    rw [sendLinuxInputFrom, dif_neg h]
    exact emits_pure

theorem quiet_followInput (rawKeys : Bool) (s : Follow) : Quiet (followInput rawKeys s) := by
  have hkey : Quiet drawKey := quiet_of_silent fun w => by unfold drawKey; split <;> rfl
  unfold followInput
  refine quiet_ite ?_ emits_pure
  split
  · exact quiet_ite (emits_bind (quiet_sendLinuxInputFrom _ _) fun _ => emits_pure) emits_pure
  · refine emits_bind hkey fun key => ?_
    cases key with
    | empty => exact emits_pure
    | detach => exact emits_bind quiet_system fun _ => emits_pure
    | chunk bs => exact quiet_ite emits_pure (emits_bind (quiet_sendLinuxInputFrom _ _) fun _ => emits_pure)

theorem quiet_followText (s : Follow) (payload : Bytes) : Quiet (followText s payload) := by
  refine emits_bind quiet_ofExcept fun text => ?_
  refine emits_bind quiet_system fun _ => ?_
  exact quiet_ite emits_pure emits_pure

theorem quiet_followLoop (bounded rawKeys : Bool) (s : Follow) (passes : Nat) :
    Quiet (followLoop bounded rawKeys s passes) := by
  induction passes generalizing s with
  | zero =>
    refine emits_bind (quiet_followInput rawKeys s) fun s' => ?_
    cases s' with
    | none => exact emits_pure
    | some s' => exact quiet_ite quiet_system emits_throw
  | succ passes ih =>
    refine emits_bind (quiet_followInput rawKeys s) fun s' => ?_
    cases s' with
    | none => exact emits_pure
    | some s' =>
      refine emits_bind (emits_tryCatch (emits_bind quiet_readFrame fun _ => emits_pure) ?_) ?_
      · intro e
        split
        · exact emits_bind quiet_system fun _ => emits_pure
        · exact emits_throw
      · rintro (_ | _ | payload)
        · exact emits_pure
        · exact ih s'
        · exact emits_bind (quiet_followText s' payload) fun s'' => ih s''

/-- The console after the boot request. -/
theorem quiet_followRest (bounded rawKeys : Bool) (s : Follow) : Quiet (do
    perform .system
    let passes ← drawPasses
    followLoop bounded rawKeys s passes
    perform .system) := by
  refine emits_bind quiet_system fun _ => ?_
  refine emits_bind (quiet_of_silent fun w => by unfold drawPasses; split <;> rfl) fun passes => ?_
  exact emits_bind (quiet_followLoop bounded rawKeys s passes) fun _ => quiet_system

theorem quiet_runLinuxConsole_attach (bounded rawKeys : Bool) (initialCommands : List (List Char)) :
    Quiet (runLinuxConsole bounded rawKeys initialCommands true) := by
  refine emits_bind quiet_openStage0Port fun _ => ?_
  refine emits_bind quiet_system fun _ => ?_
  refine emits_bind ?_ fun _ => quiet_system
  unfold followLinux
  exact emits_bind (quiet_perform rfl) fun _ => quiet_followRest _ _ _

theorem quiet_uploadAll {P : Type} (bundle : List (Image P)) : Quiet (uploadAll bundle) := by
  apply (sat_uploadAll bundle).mono
  intro r l hl t ht
  obtain ⟨sent, -, hwrites, -, -⟩ := writes_transfer hl
  cases t with
  | write bs =>
    have hmem : bs ∈ framesOf sent := hwrites ▸ mem_writes.mpr ht
    obtain ⟨s, -, hs⟩ := List.mem_flatMap.mp hmem
    obtain rfl := List.eq_of_mem_replicate hs
    simp [handoffs, writes, isHandoff_packet]
  | _ => rfl

theorem quiet_pblExecute (address : Int) : Quiet (pblExecute address) := by
  refine emits_bind quiet_ofExcept fun addressBytes => ?_
  refine emits_bind (quiet_transmit (isHandoff_hdlcFrame (by simp))) fun _ => ?_
  refine emits_tryCatch quiet_readFrame fun e => ?_
  split
  · exact emits_pure
  · exact emits_pure
  · exact emits_throw

theorem quiet_readBytes (payload : Payload) : Quiet (readBytes payload) := by
  refine emits_bind (quiet_of_silent fun w => by unfold drawFile; split <;> rfl) fun file => ?_
  cases file with
  | none => exact emits_pure
  | some data => exact emits_bind (quiet_perform rfl) fun _ => emits_pure

theorem quiet_verifyPayload (env : Env) (payload : Payload) : Quiet (verifyPayload env payload) := by
  refine emits_bind (quiet_readBytes payload) fun file => ?_
  cases file with
  | none => exact emits_throw
  | some data => exact quiet_ite emits_throw (quiet_ite emits_throw emits_pure)

theorem quiet_verifyPayloads (env : Env) : Quiet (verifyPayloads env) := by
  refine emits_bind (quiet_verifyPayload env _) fun _ => ?_
  refine emits_bind (quiet_verifyPayload env _) fun _ => ?_
  refine emits_bind (quiet_verifyPayload env _) fun _ => ?_
  refine emits_bind (quiet_verifyPayload env _) fun _ => ?_
  exact quiet_ite emits_throw emits_pure

theorem quiet_readLoaded (payload : Payload) : Quiet (readLoaded payload) := by
  refine emits_bind (quiet_readBytes payload) fun file => ?_
  cases file with
  | none => exact emits_throw
  | some data => exact emits_pure

theorem quiet_loadImages (data : Payload → Bytes) : Quiet (loadImages data) := by
  refine emits_bind quiet_ofExcept fun _ => ?_
  refine emits_bind quiet_system fun _ => ?_
  refine emits_bind quiet_openStage0Port fun _ => ?_
  refine emits_bind (quiet_perform rfl) fun _ => ?_
  refine emits_bind (quiet_uploadAll _) fun _ => ?_
  exact emits_bind (quiet_pblExecute _) fun _ => quiet_system

theorem quiet_loadRamBundle : Quiet loadRamBundle := by
  refine emits_bind (quiet_readLoaded _) fun _ => ?_
  refine emits_bind (quiet_readLoaded _) fun _ => ?_
  refine emits_bind (quiet_readLoaded _) fun _ => ?_
  exact emits_bind (quiet_readLoaded _) fun _ => quiet_loadImages _

theorem quiet_selectDownloader (override : Option String) : Quiet (selectDownloader override) := by
  have hport : Quiet drawPort := quiet_of_silent fun w => by unfold drawPort; split <;> rfl
  cases override with
  | none => exact hport
  | some name => exact quiet_ite hport emits_pure

theorem quiet_waitForDownloader (args : Args) : Quiet (waitForDownloader args) := by
  have hloop : ∀ passes, Quiet (waitLoop args.driverWait passes) := by
    intro passes
    induction passes with
    | zero => exact emits_throw
    | succ passes ih =>
      refine emits_bind (quiet_selectDownloader none) fun port => ?_
      cases port with
      | none => exact ih
      | some _ => exact emits_pure
  have hwait : Quiet (do waitLoop args.driverWait (← drawPasses)) :=
    emits_bind (quiet_of_silent fun w => by unfold drawPasses; split <;> rfl) hloop
  unfold waitForDownloader
  split
  · exact quiet_ite hwait emits_pure
  · exact hwait

theorem quiet_ignoreOsError {body : Script Unit} (h : Quiet body) : Quiet (ignoreOsError body) := by
  refine emits_tryCatch h fun e => ?_
  split
  · exact emits_pure
  · exact emits_pure
  · exact emits_throw

theorem quiet_sendSwitch : Quiet sendSwitch := by
  refine emits_bind (emits_tryCatch ?_ fun e => ?_) fun _ => quiet_ignoreOsError quiet_system
  · refine emits_bind (quiet_perform rfl) fun _ => ?_
    refine emits_bind (quiet_perform rfl) fun _ => ?_
    refine emits_bind (quiet_write (isHandoff_hdlcFrame (by decide))) fun _ => ?_
    exact emits_bind (quiet_perform rfl) fun _ => quiet_system
  · exact emits_bind (quiet_ignoreOsError quiet_system) fun _ => emits_throw

theorem quiet_findDownloader (args : Args) : Quiet (findDownloader args) := by
  refine quiet_ite (quiet_waitForDownloader args) ?_
  refine emits_bind (quiet_selectDownloader _) fun port => ?_
  cases port with
  | some _ => exact emits_pure
  | none =>
    refine emits_bind ?_ fun _ => ?_
    · refine emits_bind (quiet_selectDownloader _) fun port => ?_
      cases port with
      | some _ => exact emits_pure
      | none => exact emits_throw
    · refine emits_bind ?_ fun _ => ?_
      · exact emits_bind (quiet_ignoreOsError (emits_bind (quiet_perform rfl) fun _ => quiet_sendSwitch))
          fun _ => quiet_system
      · exact emits_bind quiet_system fun _ => quiet_waitForDownloader args

theorem quiet_attachSession (env : Env) (args : Args) : Quiet (attachSession env args) := by
  refine emits_bind (quiet_selectDownloader _) fun port => ?_
  cases port with
  | none => exact emits_throw
  | some _ => exact quiet_runLinuxConsole_attach _ _ _

/-! ### The parts of the preflight -/

/-- Every payload file has been read and has its pinned size and digest. -/
def Verified (env : Env) (l : List Event) : Prop :=
  ∀ payload, ∃ data, .readBytes payload data ∈ l ∧ data.length = (PAYLOADS payload).size ∧
    env.sha256 data = (PAYLOADS payload).sha256

/-- The files have been read again, every packet of the four of them has been sent, in order, until it was acknowledged,
and then the command to execute the monitor. -/
def Loaded (data : Payload → Bytes) (l : List Event) : Prop :=
  ∃ (before sent : List Event) (polls : List Poll) (after : List Event),
    l = before ++ sent ++ [.resetInput, .write (executeFrame MONITOR_BASE), .flush] ++ polls.map .poll ++ after ∧
    (∀ payload, .readBytes payload (data payload) ∈ before) ∧
    Delivered ((launcherBundle data).flatMap fun i => packets i.address i.data) sent

/-- A CRC query of the payload has been sent, and the reply that was taken for its answer is the pinned number. -/
def CrcAccepted (address : Int) (payload : Payload) (l : List Event) : Prop :=
  ∃ (before : List Event) (ignored reply : List Poll) (response : Bytes) (text : List Char) (after : List Event),
    l = before ++ [.resetInput,
        .write (hdlcFrame (request 0x0C (leBytes 4 address.toNat ++ leBytes 4 (PAYLOADS payload).size))), .flush] ++
      (ignored ++ reply).map .poll ++ after ∧
    ShadowMsm.readFrame reply = (.ok (some response), []) ∧ extractText (some response) false = .ok text ∧
    replyMatches .hex text = true ∧ (PAYLOADS payload).crc32 = some (intBase16 text)

variable {w w' : World} {l : List Event}

theorem readBytes_ok {payload : Payload} {data : Bytes} (h : readBytes payload w = (.ok (some data), w', l)) :
    .readBytes payload data ∈ l := by
  obtain ⟨file, w₁, l₁, l₂, -, h₂, rfl⟩ := of_run_bind_ok h
  cases file with
  | none => cases h₂
  | some data' =>
    obtain ⟨_, w₂, l₃, l₄, h₃, h₄, rfl⟩ := of_run_bind_ok h₂
    obtain rfl := perform_ok h₃
    cases h₄
    simp

theorem verifyPayload_ok {env : Env} {payload : Payload} {a : Unit} (h : verifyPayload env payload w = (.ok a, w', l)) :
    ∃ data, .readBytes payload data ∈ l ∧ data.length = (PAYLOADS payload).size ∧
      env.sha256 data = (PAYLOADS payload).sha256 := by
  obtain ⟨file, w₁, l₁, l₂, h₁, h₂, rfl⟩ := of_run_bind_ok h
  cases file with
  | none => cases h₂
  | some data =>
    dsimp only at h₂
    split_ifs at h₂ with hsize hdigest
    · cases h₂
    · cases h₂
    · exact ⟨data, List.mem_append_left l₂ (readBytes_ok h₁), not_not.mp hsize, not_not.mp hdigest⟩

/-- `verify_payloads` returns when all four files are as pinned. -/
theorem verifyPayloads_ok {env : Env} {a : Unit} (h : verifyPayloads env w = (.ok a, w', l)) : Verified env l := by
  obtain ⟨_, w₁, l₁, t₁, h₁, k₁, rfl⟩ := of_run_bind_ok h
  obtain ⟨_, w₂, l₂, t₂, h₂, k₂, rfl⟩ := of_run_bind_ok k₁
  obtain ⟨_, w₃, l₃, t₃, h₃, k₃, rfl⟩ := of_run_bind_ok k₂
  obtain ⟨_, w₄, l₄, t₄, h₄, -, rfl⟩ := of_run_bind_ok k₃
  intro payload
  cases payload with
  | monitor =>
    obtain ⟨data, hmem, hdata⟩ := verifyPayload_ok h₁
    exact ⟨data, by simp [hmem], hdata⟩
  | image =>
    obtain ⟨data, hmem, hdata⟩ := verifyPayload_ok h₂
    exact ⟨data, by simp [hmem], hdata⟩
  | bl1 =>
    obtain ⟨data, hmem, hdata⟩ := verifyPayload_ok h₃
    exact ⟨data, by simp [hmem], hdata⟩
  | dtb =>
    obtain ⟨data, hmem, hdata⟩ := verifyPayload_ok h₄
    exact ⟨data, by simp [hmem], hdata⟩

theorem readLoaded_ok {payload : Payload} {data : Bytes} (h : readLoaded payload w = (.ok data, w', l)) :
    .readBytes payload data ∈ l := by
  obtain ⟨file, w₁, l₁, l₂, h₁, h₂, rfl⟩ := of_run_bind_ok h
  cases file with
  | none => cases h₂
  | some data' =>
    cases h₂
    exact List.mem_append_left _ (readBytes_ok h₁)

theorem loadImages_ok {data : Payload → Bytes} {a : Unit} (h : loadImages data w = (.ok a, w', l)) :
    ∃ (before sent : List Event) (polls : List Poll) (after : List Event),
      l = before ++ sent ++ [.resetInput, .write (executeFrame MONITOR_BASE), .flush] ++ polls.map .poll ++ after ∧
      Delivered ((launcherBundle data).flatMap fun i => packets i.address i.data) sent := by
  obtain ⟨_, w₁, l₁, t₁, -, k₁, rfl⟩ := of_run_bind_ok h
  obtain ⟨_, w₂, l₂, t₂, -, k₂, rfl⟩ := of_run_bind_ok k₁
  obtain ⟨_, w₃, l₃, t₃, -, k₃, rfl⟩ := of_run_bind_ok k₂
  obtain ⟨_, w₄, l₄, t₄, -, k₄, rfl⟩ := of_run_bind_ok k₃
  obtain ⟨_, w₅, sent, t₅, hsent, k₅, rfl⟩ := of_run_bind_ok k₄
  obtain ⟨_, w₆, l₆, after, hgo, -, rfl⟩ := of_run_bind_ok k₅
  obtain ⟨polls, rfl⟩ := (sat_pblExecute (by decide)).of_run hgo
  exact ⟨l₁ ++ (l₂ ++ (l₃ ++ l₄)), sent, polls, after, by simp, (sat_uploadAll _).of_run hsent⟩

/-- `load_ram_bundle` returns when everything has been loaded. -/
theorem loadRamBundle_ok {a : Unit} (h : loadRamBundle w = (.ok a, w', l)) : ∃ data, Loaded data l := by
  obtain ⟨monitor, w₁, l₁, t₁, h₁, k₁, rfl⟩ := of_run_bind_ok h
  obtain ⟨image, w₂, l₂, t₂, h₂, k₂, rfl⟩ := of_run_bind_ok k₁
  obtain ⟨bl1, w₃, l₃, t₃, h₃, k₃, rfl⟩ := of_run_bind_ok k₂
  obtain ⟨dtb, w₄, l₄, t₄, h₄, k₄, rfl⟩ := of_run_bind_ok k₃
  obtain ⟨before, sent, polls, after, rfl, hsent⟩ := loadImages_ok k₄
  refine ⟨_, l₁ ++ (l₂ ++ (l₃ ++ (l₄ ++ before))), sent, polls, after, by simp, ?_, hsent⟩
  intro payload
  cases payload with
  | monitor => simp [readLoaded_ok h₁]
  | image => simp [readLoaded_ok h₂]
  | bl1 => simp [readLoaded_ok h₃]
  | dtb => simp [readLoaded_ok h₄]

/-- The loop of `stage0_command` returns the text of a reply that matches; what it read before that it ignored. -/
theorem stage0Replies_ok {expected : Expected} {ignored : List (List Char)} {passes : Nat} {text : List Char}
    (h : stage0Replies expected ignored passes w = (.ok text, w', l)) :
    ∃ (before reply : List Poll) (response : Bytes), l = (before ++ reply).map .poll ∧
      ShadowMsm.readFrame reply = (.ok (some response), []) ∧ extractText (some response) false = .ok text ∧
      replyMatches expected text = true := by
  induction passes generalizing ignored w l with
  | zero => cases h
  | succ passes ih =>
    obtain ⟨o, w₁, l₁, l₂, h₁, h₂, rfl⟩ := of_run_bind_ok h
    obtain ⟨polls, rfl, hread⟩ := sat_readFrame.of_run h₁
    cases o with
    | none =>
      obtain ⟨before, reply, response, rfl, hreply⟩ := ih h₂
      exact ⟨polls ++ before, reply, response, by simp, hreply⟩
    | some response =>
      obtain ⟨text', w₂, l₃, l₄, h₃, h₄, rfl⟩ := of_run_bind_ok h₂
      obtain ⟨htext, -, rfl⟩ := of_run_ofExcept_ok h₃
      split_ifs at h₄ with hmatch
      · cases h₄
        exact ⟨[], polls, response, by simp, hread _ rfl, htext, hmatch⟩
      · obtain ⟨before, reply, response, rfl, hreply⟩ := ih h₄
        exact ⟨polls ++ before, reply, response, by simp, hreply⟩

/-- `target_crc_query` returns the number in the reply it took for the answer. -/
theorem targetCrcQuery_ok {address length : Int} {n : Nat} (haddress : 0 ≤ address ∧ address < 2 ^ 32)
    (hlength : 0 ≤ length ∧ length < 2 ^ 32) (h : targetCrcQuery address length w = (.ok n, w', l)) :
    ∃ (ignored reply : List Poll) (response : Bytes) (text : List Char),
      l = [.resetInput,
          .write (hdlcFrame (request 0x0C (leBytes 4 address.toNat ++ leBytes 4 length.toNat))), .flush] ++
        (ignored ++ reply).map .poll ∧
      ShadowMsm.readFrame reply = (.ok (some response), []) ∧ extractText (some response) false = .ok text ∧
      replyMatches .hex text = true ∧ n = intBase16 text := by
  obtain ⟨payload, w₁, l₁, t₁, h₁, k₁, rfl⟩ := of_run_bind_ok h
  obtain ⟨hpayload, -, rfl⟩ := of_run_ofExcept_ok h₁
  obtain ⟨args, hpack, rfl⟩ := targetCrcQueryRequest_eq_ok hpayload
  have hargs : args = leBytes 4 address.toNat ++ leBytes 4 length.toNat := by
    rw [structPackI_of_lt (by simpa using ⟨haddress, hlength⟩)] at hpack
    simpa using (Except.ok.inj hpack).symm
  subst hargs
  obtain ⟨text, w₂, l₂, t₂, h₂, k₂, rfl⟩ := of_run_bind_ok k₁
  cases k₂
  obtain ⟨_, w₃, l₃, t₃, h₃, k₃, rfl⟩ := of_run_bind_ok h₂
  obtain rfl := transmit_ok h₃
  obtain ⟨passes, w₄, l₄, t₄, h₄, k₄, rfl⟩ := of_run_bind_ok k₃
  have hdraw : l₄ = [] := by
    have hsilent : (drawPasses w₃).2.2 = [] := by
      unfold drawPasses
      split <;> rfl
    rwa [h₄] at hsilent
  obtain ⟨ignored, reply, response, rfl, hread, htext, hmatch⟩ := stage0Replies_ok k₄
  exact ⟨ignored, reply, response, text, by simp [hdraw], hread, htext, hmatch, rfl⟩

/-- `crc_check` returns when the target has answered with the pinned number. -/
theorem crcCheck_ok {address : Int} {payload : Payload} {a : Unit} (haddress : 0 ≤ address ∧ address < 2 ^ 32)
    (h : crcCheck address payload w = (.ok a, w', l)) : CrcAccepted address payload l := by
  unfold crcCheck at h
  rcases hexpected : (PAYLOADS payload).crc32 with - | expected
  · rw [hexpected] at h
    cases h
  · rw [hexpected] at h
    obtain ⟨_, w₁, l₁, t₁, h₁, k₁, rfl⟩ := of_run_bind_ok h
    obtain ⟨actual, w₂, l₂, t₂, h₂, k₂, rfl⟩ := of_run_bind_ok k₁
    obtain ⟨_, w₃, l₃, t₃, h₃, k₃, rfl⟩ := of_run_bind_ok k₂
    obtain ⟨_, w₄, l₄, t₄, h₄, k₄, rfl⟩ := of_run_bind_ok k₃
    have hsize : (0 : Int) ≤ (PAYLOADS payload).size ∧ ((PAYLOADS payload).size : Int) < 2 ^ 32 := by
      cases payload <;> decide
    obtain ⟨ignored, reply, response, text, rfl, hread, htext, hmatch, rfl⟩ := targetCrcQuery_ok haddress hsize h₂
    split_ifs at k₄ with hne
    · cases k₄
    · refine ⟨l₁, ignored, reply, response, text, l₃ ++ (l₄ ++ t₄), by simp, hread, htext, hmatch, ?_⟩
      rw [not_not.mp hne, hexpected]

/-! ### Launches -/

/-- The trace has no handoff, or one only: the boot request, after a stretch with `Q`. -/
def Launch (Q : List Event → Prop) (l : List Event) : Prop :=
  handoffs l = [] ∨ ∃ pre post, l = pre ++ .write bootRequest :: post ∧ handoffs pre = [] ∧ handoffs post = [] ∧ Q pre

variable {P Q Q' : List Event → Prop}

theorem Launch.mono (h : Launch Q l) (hQ : ∀ pre, Q pre → Q' pre) : Launch Q' l := by
  rcases h with h | ⟨pre, post, hl, hpre, hpost, hq⟩
  · exact .inl h
  · exact .inr ⟨pre, post, hl, hpre, hpost, hQ pre hq⟩

theorem Launch.append_right {l' : List Event} (h : Launch Q l) (hl' : handoffs l' = []) : Launch Q (l ++ l') := by
  rcases h with h | ⟨pre, post, rfl, hpre, hpost, hq⟩
  · exact .inl (by rw [handoffs_append, h, hl', List.append_nil])
  · exact .inr ⟨pre, post ++ l', by simp, hpre, by rw [handoffs_append, hpost, hl', List.append_nil], hq⟩

theorem Launch.append_left {l' : List Event} (hl : handoffs l = []) (hP : P l) (h : Launch Q l') :
    Launch (Chop P Q) (l ++ l') := by
  rcases h with h | ⟨pre, post, rfl, hpre, hpost, hq⟩
  · exact .inl (by rw [handoffs_append, hl, h, List.append_nil])
  · exact .inr ⟨l ++ pre, post, by simp, by rw [handoffs_append, hl, hpre, List.append_nil], hpost, l, pre, rfl, hP, hq⟩

theorem Quiet.handoffs_eq_nil (h : Quiet f) (w : World) : handoffs (f w).2.2 = [] :=
  Host.handoffs_eq_nil (h.run w)

theorem Quiet.launch (h : Quiet f) : Sat f fun _ l => Launch Q l := ⟨fun w => .inl (h.handoffs_eq_nil w)⟩

/-- A quiet script in front of a launch: what holds when it returns has come before the handoff. -/
theorem launch_bind (hf : Quiet f) (hP : ∀ w a w' l, f w = (.ok a, w', l) → P l)
    (hg : ∀ a, Sat (g a) fun _ l => Launch Q l) : Sat (f >>= g) fun _ l => Launch (Chop P Q) l := by
  constructor
  intro w
  have hquiet := hf.handoffs_eq_nil w
  rcases hrun : f w with ⟨r, w', l⟩
  rw [hrun] at hquiet
  cases r with
  | error e =>
    rw [run_bind_error hrun]
    exact .inl hquiet
  | ok a =>
    rw [run_bind_ok hrun]
    exact Launch.append_left hquiet (hP w a w' l hrun) ((hg a).run w')

/-- A quiet script after a launch. -/
theorem launch_then_quiet (hf : Sat f fun _ l => Launch Q l) (hg : ∀ a, Quiet (g a)) :
    Sat (f >>= g) fun _ l => Launch Q l := by
  refine sat_bind hf (fun _ _ h => h) fun a l hl => ⟨fun w => ?_⟩
  exact hl.append_right ((hg a).handoffs_eq_nil w)

/-- No condition on a part of the trace. -/
def Any (_ : List Event) : Prop := True

theorem launch_skip (hf : Quiet f) (hg : ∀ a, Sat (g a) fun _ l => Launch Any l) :
    Sat (f >>= g) fun _ l => Launch Any l :=
  (launch_bind (P := Any) (Q := Any) hf (fun _ _ _ _ _ => trivial) hg).mono fun _ _ h => h.mono fun _ _ => trivial

theorem launch_ite {c : Prop} [Decidable c] {f f' : Script α} (hf : Sat f fun _ l => Launch Q l)
    (hf' : Sat f' fun _ l => Launch Q l) : Sat (if c then f else f') fun _ l => Launch Q l := by
  split
  · exact hf
  · exact hf'

/-! ### The run -/

/-- The arguments of the boot request are packed as they are. -/
theorem stage2Request_boot :
    stage2Request BL1_ADDRESS (PAYLOADS .image).size (PAYLOADS .dtb).size LINUX_MARKER = .ok bootRequest := by
  have hpack : structPackI [BL1_ADDRESS, (PAYLOADS .image).size, (PAYLOADS .dtb).size, LINUX_MARKER] =
      .ok ([BL1_ADDRESS, (PAYLOADS .image).size, (PAYLOADS .dtb).size, LINUX_MARKER].flatMap
        fun x => leBytes 4 x.toNat) := structPackI_of_lt (by decide)
  unfold stage2Request
  rw [if_neg (by decide), hpack]
  rfl

/-- The console of a boot writes the request once. -/
theorem launch_runLinuxConsole (bounded rawKeys : Bool) (initialCommands : List (List Char)) :
    Sat (runLinuxConsole bounded rawKeys initialCommands false) fun _ l => Launch Any l := by
  refine launch_skip quiet_openStage0Port fun _ => ?_
  refine launch_skip quiet_system fun _ => ?_
  refine launch_then_quiet ?_ fun _ => quiet_system
  refine launch_skip (quiet_perform rfl) fun _ => ?_
  refine sat_bind (φ := fun r l => r = .ok bootRequest ∧ l = []) (sat_ofExcept ⟨stage2Request_boot, rfl⟩) ?_ ?_
  · rintro e l ⟨hr, -⟩
    cases hr
  · rintro request l ⟨hr, rfl⟩
    obtain rfl := Except.ok.inj hr
    have hwritten : Launch Any [.write bootRequest] := .inr ⟨[], [], rfl, rfl, rfl, trivial⟩
    refine launch_then_quiet (sat_perform fun _ => hwritten) fun _ => ?_
    exact emits_bind (quiet_perform rfl) fun _ => quiet_followRest _ _ _

/-- Every file that is read twice is the same both times. -/
def Unchanged (l : List Event) : Prop :=
  ∀ payload data data', .readBytes payload data ∈ l → .readBytes payload data' ∈ l → data = data'

/-- Everything that has to come before the handoff, in its order.  The files are read once to be verified and once more
to be loaded. -/
structure Preflight (env : Env) (pre : List Event) : Prop where
  parts : ∃ (start verify setup load info bl1 dtb opening : List Event) (data : Payload → Bytes),
    pre = start ++ verify ++ setup ++ load ++ info ++ bl1 ++ dtb ++ opening ∧
    Verified env verify ∧ Loaded data load ∧
    CrcAccepted BL1_ADDRESS .bl1 bl1 ∧ CrcAccepted DTB_ADDRESS .dtb dtb ∧
    (Unchanged pre → ∀ payload, (data payload).length = (PAYLOADS payload).size ∧
      env.sha256 (data payload) = (PAYLOADS payload).sha256)

/-- What comes before the handoff in a boot, part by part. -/
def BootParts : List Event → Prop :=
  Chop Any (Chop (fun l => ∃ data, Loaded data l) (Chop Any (Chop Any
    (Chop (CrcAccepted BL1_ADDRESS .bl1) (Chop (CrcAccepted DTB_ADDRESS .dtb) Any)))))

theorem launch_bootSession (env : Env) (args : Args) : Sat (bootSession env args) fun _ l => Launch BootParts l := by
  refine launch_bind (quiet_findDownloader args) (fun _ _ _ _ _ => trivial) fun _ => ?_
  refine launch_bind quiet_loadRamBundle (fun _ _ _ _ h => loadRamBundle_ok h) fun _ => ?_
  refine launch_bind quiet_writeBootLog (fun _ _ _ _ _ => trivial) fun _ => ?_
  refine launch_bind quiet_system (fun _ _ _ _ _ => trivial) fun _ => ?_
  refine launch_bind (quiet_crcCheck _ _) (fun _ _ _ _ h => crcCheck_ok (by decide) h) fun _ => ?_
  refine launch_bind (quiet_crcCheck _ _) (fun _ _ _ _ h => crcCheck_ok (by decide) h) fun _ => ?_
  refine sat_tryCatch (launch_runLinuxConsole _ _ _) (fun _ _ h => h) fun e l hl => ?_
  split
  · exact sat_pure (by simpa using hl)
  · exact sat_throw (by simpa using hl)

/-- What is loaded is what was verified, when no file has changed in between. -/
theorem loaded_pinned {env : Env} {verify load pre : List Event} {data : Payload → Bytes} (hverify : Verified env verify)
    (hload : Loaded data load) (hv : verify ⊆ pre) (hl : load ⊆ pre) (h : Unchanged pre) (payload : Payload) :
    (data payload).length = (PAYLOADS payload).size ∧ env.sha256 (data payload) = (PAYLOADS payload).sha256 := by
  obtain ⟨data', hread, hdata'⟩ := hverify payload
  obtain ⟨before, sent, polls, after, rfl, hbefore, -⟩ := hload
  have hsame : data' = data payload := h payload data' (data payload) (hv hread) (hl (by simp [hbefore payload]))
  exact hsame ▸ hdata'

theorem preflight_of_parts {env : Env} {pre : List Event}
    (h : Chop Any (Chop (Verified env) (Chop Any BootParts)) pre) : Preflight env pre := by
  obtain ⟨start, l₁, rfl, -, verify, l₂, rfl, hverify, l₃, l₄, rfl, -, l₅, l₆, rfl, -, load, l₇, rfl, ⟨data, hload⟩,
    l₈, l₉, rfl, -, l₁₀, l₁₁, rfl, -, bl1, l₁₂, rfl, hbl1, dtb, opening, rfl, hdtb, -⟩ := h
  refine ⟨start, verify, l₃ ++ l₅, load, l₈ ++ l₁₀, bl1, dtb, opening, data, by simp, hverify, hload, hbl1, hdtb, ?_⟩
  exact loaded_pinned hverify hload (fun t ht => by simp [ht]) (fun t ht => by simp [ht])

theorem launch_main (env : Env) (args : Args) : Sat (main env args) fun _ l => Launch (Preflight env) l := by
  refine Sat.mono (φ := fun _ l => Launch (Chop Any (Chop (Verified env) (Chop Any BootParts))) l) ?_
    fun _ _ h => h.mono fun _ => preflight_of_parts
  refine launch_bind quiet_system (fun _ _ _ _ _ => trivial) fun _ => ?_
  refine launch_bind (quiet_verifyPayloads env) (fun _ _ _ _ h => verifyPayloads_ok h) fun _ => ?_
  refine launch_ite quiet_system.launch ?_
  refine launch_ite (Quiet.launch emits_pure) ?_
  refine launch_ite quiet_system.launch ?_
  refine launch_bind quiet_system (fun _ _ _ _ _ => trivial) fun _ => ?_
  exact launch_ite (quiet_attachSession env args).launch (launch_bootSession env args)

/-- The modes that never hand over. -/
theorem quiet_main {env : Env} {args : Args}
    (h : args.installDriver = true ∨ args.dryRun = true ∨ args.staged = false ∨ args.attach = true) :
    Quiet (main env args) := by
  refine emits_bind quiet_system fun _ => ?_
  refine emits_bind (quiet_verifyPayloads env) fun _ => ?_
  split_ifs with hinstall hdry hstaged hattach
  · exact quiet_system
  · exact emits_pure
  · exact quiet_system
  · exact emits_bind quiet_system fun _ => quiet_attachSession env args
  · -- none of the modes
    simp only [Bool.not_eq_true, Bool.not_eq_false'] at hinstall hdry hstaged hattach
    simp [hinstall, hdry, hstaged, hattach] at h

/-- No Linux handoff without complete preflight: a run of the launcher writes no stage-2 call request, or it writes one,
the boot request, after a complete preflight and in a boot. -/
theorem main_handoff (env : Env) (args : Args) (w : World) :
    handoffs (main env args w).2.2 = [] ∨
    ∃ pre post, (main env args w).2.2 = pre ++ .write bootRequest :: post ∧ handoffs pre = [] ∧ handoffs post = [] ∧
      Preflight env pre ∧
      args.installDriver = false ∧ args.dryRun = false ∧ args.staged = true ∧ args.attach = false := by
  by_cases hmode : args.installDriver = true ∨ args.dryRun = true ∨ args.staged = false ∨ args.attach = true
  · exact .inl ((quiet_main hmode).handoffs_eq_nil w)
  · simp only [not_or, Bool.not_eq_true, Bool.not_eq_false] at hmode
    rcases (launch_main env args).run w with h | ⟨pre, post, hl, hpre, hpost, hpreflight⟩
    · exact .inl h
    · exact .inr ⟨pre, post, hl, hpre, hpost, hpreflight, hmode⟩

end ShadowMsm.Host
