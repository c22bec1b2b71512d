import ShadowMsm.Linux.InputCalls

/-!
# The two readers of the mailbox

Reads of `/dev/shadowtrace` and executions of `shadow_tty_poll` compete for the bytes in the mailbox.  The spin
lock of `shadow_msm_diag_receive` makes the calls of it atomic, so an interleaving is a sequence of them, each
with what its caller does with the bytes.  A read that is still in its loop sleeps between two calls.

Every byte taken out goes to one reader, and only one thing can go wrong: `shadow_trace_read` learns that the user
buffer is bad when the bytes have already left the mailbox (`handed_over_iff`).
-/

namespace ShadowMsm.Linux

open Arm Stage0

/-- The negative results of `shadow_trace_read`. -/
inductive ReadErrno
  | eagain
  | erestartsys
  | efault
  deriving DecidableEq

/-- What one round of the loop of `shadow_trace_read` depends on: `O_NONBLOCK`, a pending signal, and whether
`copy_to_user` fails. -/
structure Round where
  nonblock : Bool
  signalPending : Bool
  fault : Bool

/-- A read call: not begun, in its loop, or back with its result. -/
inductive ReadCall
  | idle
  | waiting (limit : Nat)
  | returned (result : Except ReadErrno (List (BitVec 8)))
  deriving DecidableEq

/-- `shadow_trace_read` up to its loop. -/
def startRead (length : Nat) : ReadCall :=
  if length = 0 then .returned (.ok []) else .waiting (min length SHADOW_MSM_INPUT_CHUNK)

/-- The rest of a round, after the receive call gave `bytes`; without bytes, an error or a signal it sleeps. -/
def afterReceive (limit : Nat) (r : Round) (bytes : List (BitVec 8)) : ReadCall :=
  if bytes ≠ [] then
    if r.fault then .returned (.error .efault) else .returned (.ok bytes)
  else if r.nonblock then .returned (.error .eagain)
  else if r.signalPending then .returned (.error .erestartsys)
  else .waiting limit

/-- Memory, what was inserted into the flip buffer of the terminal, and the read calls by number. -/
structure InputState where
  mem : Mem
  flip : List (BitVec 8)
  calls : Nat → ReadCall

/-- Nothing read yet. -/
def InputState.init (μ : Mem) : InputState := ⟨μ, [], fun _ => .idle⟩

/-- What can happen: a read call begins, makes a round, or the terminal polls.  A round and a poll come with the
packet their dispatcher iteration processes. -/
inductive InputAction
  | start (id length : Nat)
  | round (id : Nat) (r : Round) (packet : Option (List (BitVec 8)))
  | poll (polling : Bool) (room : Int) (packet : Option (List (BitVec 8)))

/-- Whom the bytes of a receive call are for. -/
inductive Consumer
  | tty
  | read (id : Nat)
  deriving DecidableEq

/-- An action with the bytes that came into the mailbox and those that were taken out, and for whom. -/
structure InputEvent where
  action : InputAction
  consumer : Option Consumer
  arrived : List (BitVec 8)
  removed : List (BitVec 8)

/-- What a receive call brings in and takes out, when the dispatcher iteration leads from `μ` to `μq`. -/
def received (action : InputAction) (consumer : Consumer) (μ μq : Mem) (limit : Nat) : InputEvent where
  action := action
  consumer := some consumer
  arrived := (mailboxContents μq).drop (mailboxContents μ).length
  removed := (shadowMsmDiagReceive μq limit).1

inductive InputStep : InputState → InputEvent → InputState → Prop
  | start {s : InputState} {id length : Nat} (h : s.calls id = .idle) :
      InputStep s ⟨.start id length, none, [], []⟩ { s with calls := Function.update s.calls id (startRead length) }
  | round {s : InputState} {id limit : Nat} {r : Round} {packet : Option (List (BitVec 8))} {μq μ' : Mem}
      (h : s.calls id = .waiting limit) (hd : Dispatched s.mem packet μq)
      (hr : SameOn μ' (shadowMsmDiagReceive μq limit).2 INPUT_MAILBOX_ADDR 268) :
      InputStep s (received (.round id r packet) (.read id) s.mem μq limit)
        { s with
          mem := μ'
          calls := Function.update s.calls id (afterReceive limit r (shadowMsmDiagReceive μq limit).1) }
  | poll {s : InputState} {room : Int} {packet : Option (List (BitVec 8))} {μq μ' : Mem} (h : 0 < room)
      (hd : Dispatched s.mem packet μq)
      (hr : SameOn μ' (shadowMsmDiagReceive μq (min room.toNat SHADOW_TTY_RX_CHUNK)).2 INPUT_MAILBOX_ADDR 268) :
      InputStep s (received (.poll true room packet) .tty s.mem μq (min room.toNat SHADOW_TTY_RX_CHUNK))
        { s with
          mem := μ'
          flip := s.flip ++ (shadowMsmDiagReceive μq (min room.toNat SHADOW_TTY_RX_CHUNK)).1 }
  | skip {s : InputState} {polling : Bool} {room : Int} {packet : Option (List (BitVec 8))}
      (h : polling = false ∨ room ≤ 0) : InputStep s ⟨.poll polling room packet, none, [], []⟩ s

/-- A run from `s₀`: the events, each with the state before it. -/
inductive InputRun (s₀ : InputState) : List (InputState × InputEvent) → InputState → Prop
  | nil : InputRun s₀ [] s₀
  | snoc {run : List (InputState × InputEvent)} {s s' : InputState} {ev : InputEvent} (h : InputRun s₀ run s)
      (hs : InputStep s ev s') : InputRun s₀ (run ++ [(s, ev)]) s'

/-- All the bytes that came into the mailbox. -/
def arrivedIn (run : List (InputState × InputEvent)) : List (BitVec 8) := run.flatMap fun p => p.2.arrived

/-- All the bytes taken out. -/
def removedIn (run : List (InputState × InputEvent)) : List (BitVec 8) := run.flatMap fun p => p.2.removed

/-- The bytes taken out for one consumer. -/
def removedFor (c : Consumer) (run : List (InputState × InputEvent)) : List (BitVec 8) :=
  (run.filter fun p => p.2.consumer = some c).flatMap fun p => p.2.removed

/-- The bytes a read call returned; nothing when it failed or is still under way. -/
def ReadCall.bytes : ReadCall → List (BitVec 8)
  | .returned (.ok bytes) => bytes
  | _ => []

/-- The mailbox has been a queue, and each byte taken out reached the reader it was taken out for: the flip
buffer, or the one read call, which has taken nothing when it fails. -/
structure HandedOver (μ : Mem) (run : List (InputState × InputEvent)) (s : InputState) : Prop where
  fifo : mailboxContents μ ++ arrivedIn run = removedIn run ++ mailboxContents s.mem
  flip : removedFor .tty run = s.flip
  read : ∀ id, removedFor (.read id) run = (s.calls id).bytes

/-- A bad user buffer is met only when there is nothing to copy: no byte waits and the dispatcher brings none. -/
def Unfaulted (p : InputState × InputEvent) : Prop :=
  match p.2.action with
  | .round _ r packet => r.fault = true → mailboxContents p.1.mem = [] ∧ packet.getD [] = []
  | _ => True

/-! ### One receive call -/

/-- The dispatcher iteration only appends, and leaves nothing only if there was nothing and nothing came. -/
theorem Dispatched.appends {μ μ' : Mem} {packet : Option (List (BitVec 8))} (h : Dispatched μ packet μ')
    (hok : MailboxOk μ) :
    MailboxOk μ' ∧ (∃ t, mailboxContents μ' = mailboxContents μ ++ t) ∧
      (mailboxContents μ' = [] ↔ mailboxContents μ = [] ∧ packet.getD [] = []) := by
  cases h with
  | idle h =>
    rw [(mailbox_congr h).2]
    exact ⟨(mailboxOk_congr h).mpr hok, ⟨[], (List.append_nil _).symm⟩, by simp⟩
  | packet h =>
    rename_i data
    obtain ⟨hok', -, hnext, -⟩ := h.exact hok
    have htake : mailboxContents μ' = mailboxContents μ ++
        data.take (min data.length (min 64 (255 - (mailboxContents μ).length))) := hnext
    refine ⟨hok', ⟨_, htake⟩, ?_⟩
    rw [htake, List.append_eq_nil_iff, Option.getD_some]
    apply and_congr_right
    intro hempty
    rw [hempty, List.take_eq_nil_iff]
    constructor
    · rintro (hmin | hnil)
      · rw [List.length_nil] at hmin
        exact List.length_eq_zero_iff.mp (by omega)
      · exact hnil
    · exact Or.inr

section receive

variable {μ μq μ' : Mem} {packet : Option (List (BitVec 8))} {limit : Nat}

/-- A receive call moves the front of the queue to its caller. -/
theorem received_fifo (action : InputAction) (c : Consumer) (hd : Dispatched μ packet μq) (hok : MailboxOk μ)
    (hr : SameOn μ' (shadowMsmDiagReceive μq limit).2 INPUT_MAILBOX_ADDR 268) :
    MailboxOk μ' ∧ mailboxContents μ ++ (received action c μ μq limit).arrived =
      (received action c μ μq limit).removed ++ mailboxContents μ' := by
  obtain ⟨hokq, ⟨t, ht⟩, -⟩ := hd.appends hok
  obtain ⟨htake, hdrop, hok', -⟩ := shadowMsmDiagReceive_eq hokq limit
  refine ⟨(mailboxOk_congr hr).mpr hok', ?_⟩
  rw [received, htake, (mailbox_congr hr).2, hdrop, List.take_append_drop, ht, List.drop_left]

/-- It gives no byte exactly when none was there and none came. -/
theorem received_eq_nil_iff (hd : Dispatched μ packet μq) (hok : MailboxOk μ) (hl : 0 < limit) :
    (shadowMsmDiagReceive μq limit).1 = [] ↔ mailboxContents μ = [] ∧ packet.getD [] = [] := by
  obtain ⟨hokq, -, hnil⟩ := hd.appends hok
  rw [(shadowMsmDiagReceive_eq hokq limit).1, List.take_eq_nil_iff, ← hnil]
  exact ⟨fun h => h.resolve_left (by omega), Or.inr⟩

end receive

/-- A read fails with `-EFAULT` exactly when it has bytes and cannot copy them. -/
theorem afterReceive_eq_efault_iff {limit : Nat} {r : Round} {bytes : List (BitVec 8)} :
    afterReceive limit r bytes = .returned (.error .efault) ↔ r.fault = true ∧ bytes ≠ [] := by
  unfold afterReceive
  by_cases hb : bytes = []
  · rw [if_neg (not_not.mpr hb)]
    split
    · simp [hb]
    · split <;> simp [hb]
  · rw [if_pos hb]
    split <;> simp_all

/-- In every other case it has returned what it took. -/
theorem bytes_afterReceive {limit : Nat} {r : Round} {bytes : List (BitVec 8)}
    (h : afterReceive limit r bytes ≠ .returned (.error .efault)) : (afterReceive limit r bytes).bytes = bytes := by
  unfold afterReceive at h ⊢
  by_cases hb : bytes = []
  · rw [if_neg (not_not.mpr hb), hb]
    split
    · rfl
    · split <;> rfl
  · rw [if_pos hb] at h ⊢
    split
    · rename_i hf
      rw [if_pos hf] at h
      exact absurd rfl h
    · rfl

theorem waiting_of_afterReceive {limit l : Nat} {r : Round} {bytes : List (BitVec 8)}
    (h : afterReceive limit r bytes = .waiting l) : l = limit := by
  unfold afterReceive at h
  split at h
  · split at h <;> simp at h
  · split at h
    · simp at h
    · split at h
      · simp at h
      · exact (ReadCall.waiting.inj h).symm

/-! ### Runs -/

section snoc

variable {run : List (InputState × InputEvent)} {p : InputState × InputEvent}

theorem arrivedIn_snoc : arrivedIn (run ++ [p]) = arrivedIn run ++ p.2.arrived := by
  simp [arrivedIn]

theorem removedIn_snoc : removedIn (run ++ [p]) = removedIn run ++ p.2.removed := by
  simp [removedIn]

theorem removedFor_snoc_of_eq {c : Consumer} (h : p.2.consumer = some c) :
    removedFor c (run ++ [p]) = removedFor c run ++ p.2.removed := by
  simp [removedFor, List.filter_append, h]

theorem removedFor_snoc_of_ne {c : Consumer} (h : p.2.consumer ≠ some c) :
    removedFor c (run ++ [p]) = removedFor c run := by
  simp [removedFor, List.filter_append, h]

end snoc

/-- What holds in every run, also when a read has failed with `-EFAULT`. -/
structure Accounts (μ : Mem) (run : List (InputState × InputEvent)) (s : InputState) : Prop where
  ok : MailboxOk s.mem
  limit_pos : ∀ id l, s.calls id = .waiting l → 0 < l
  fifo : mailboxContents μ ++ arrivedIn run = removedIn run ++ mailboxContents s.mem
  flip : removedFor .tty run = s.flip
  read : ∀ id, s.calls id ≠ .returned (.error .efault) → removedFor (.read id) run = (s.calls id).bytes
  lost : ∀ id, s.calls id = .returned (.error .efault) → removedFor (.read id) run ≠ []
  faulted : (∃ id, s.calls id = .returned (.error .efault)) ↔ ∃ p ∈ run, ¬ Unfaulted p

theorem Accounts.init {μ : Mem} (hok : MailboxOk μ) : Accounts μ [] (.init μ) where
  ok := hok
  limit_pos := fun _ _ h => by simp [InputState.init] at h
  fifo := by simp [arrivedIn, removedIn, InputState.init]
  flip := rfl
  read := fun _ _ => rfl
  lost := fun _ h => by simp [InputState.init] at h
  faulted := by simp [InputState.init]

section step

variable {μ : Mem} {run : List (InputState × InputEvent)} {s s' : InputState} {ev : InputEvent}

/-- An event in which nothing is received. -/
private theorem Accounts.quiet {action : InputAction} (h : Accounts μ run s)
    (hsafe : Unfaulted (s, ⟨action, none, [], []⟩)) {calls : Nat → ReadCall}
    (hpos : ∀ id l, calls id = .waiting l → 0 < l)
    (hbytes : ∀ id, (calls id).bytes = (s.calls id).bytes)
    (hfault : ∀ id, calls id = .returned (.error .efault) ↔ s.calls id = .returned (.error .efault)) :
    Accounts μ (run ++ [(s, ⟨action, none, [], []⟩)]) { s with calls := calls } := by
  have hfor : ∀ c, removedFor c (run ++ [(s, ⟨action, none, [], []⟩)]) = removedFor c run := fun c =>
    removedFor_snoc_of_ne (by simp)
  refine ⟨h.ok, hpos, ?_, ?_, fun id hid => ?_, fun id hid => ?_, ?_⟩
  · rw [arrivedIn_snoc, removedIn_snoc, List.append_nil, List.append_nil]
    exact h.fifo
  · rw [hfor]
    exact h.flip
  · rw [hfor, hbytes]
    exact h.read id fun he => hid ((hfault id).mpr he)
  · rw [hfor]
    exact h.lost id ((hfault id).mp hid)
  · simp only [hfault, h.faulted, List.mem_append, List.mem_singleton]
    constructor
    · rintro ⟨p, hp, hn⟩
      exact ⟨p, Or.inl hp, hn⟩
    · rintro ⟨p, hp | rfl, hn⟩
      · exact ⟨p, hp, hn⟩
      · exact absurd hsafe hn

private theorem Accounts.start {id length : Nat} (h : Accounts μ run s) (hidle : s.calls id = .idle) :
    Accounts μ (run ++ [(s, ⟨.start id length, none, [], []⟩)])
      { s with calls := Function.update s.calls id (startRead length) } := by
  have hstart : startRead length = .returned (.ok []) ∨ ∃ l, 0 < l ∧ startRead length = .waiting l := by
    rw [startRead]
    split
    · exact Or.inl rfl
    · exact Or.inr ⟨_, by rw [SHADOW_MSM_INPUT_CHUNK]; omega, rfl⟩
  have hsafe : Unfaulted (s, ⟨.start id length, none, [], []⟩) := trivial
  refine h.quiet hsafe (fun id' l hl => ?_) (fun id' => ?_) fun id' => ?_
  · by_cases he : id' = id
    · subst he
      rw [Function.update_self] at hl
      rcases hstart with hs | ⟨l', hpos, hs⟩
      · simp [hs] at hl
      · rw [hs, ReadCall.waiting.injEq] at hl
        omega
    · rw [Function.update_of_ne he] at hl
      exact h.limit_pos id' l hl
  · by_cases he : id' = id
    · subst he
      rw [Function.update_self, hidle]
      rcases hstart with hs | ⟨l', -, hs⟩ <;> rw [hs] <;> rfl
    · rw [Function.update_of_ne he]
  · by_cases he : id' = id
    · subst he
      rw [Function.update_self, hidle]
      rcases hstart with hs | ⟨l', -, hs⟩ <;> simp [hs]
    · rw [Function.update_of_ne he]

private theorem Accounts.poll {room : Int} {packet : Option (List (BitVec 8))} {μq μ' : Mem} (h : Accounts μ run s)
    (hd : Dispatched s.mem packet μq)
    (hr : SameOn μ' (shadowMsmDiagReceive μq (min room.toNat SHADOW_TTY_RX_CHUNK)).2 INPUT_MAILBOX_ADDR 268) :
    Accounts μ (run ++ [(s, received (.poll true room packet) .tty s.mem μq (min room.toNat SHADOW_TTY_RX_CHUNK))])
      { s with
        mem := μ'
        flip := s.flip ++ (shadowMsmDiagReceive μq (min room.toNat SHADOW_TTY_RX_CHUNK)).1 } := by
  obtain ⟨hok', hfifo⟩ := received_fifo (.poll true room packet) .tty hd h.ok hr
  have hread : ∀ id, removedFor (.read id)
      (run ++ [(s, received (.poll true room packet) .tty s.mem μq (min room.toNat SHADOW_TTY_RX_CHUNK))]) =
      removedFor (.read id) run := fun id => removedFor_snoc_of_ne (by simp [received])
  refine ⟨hok', h.limit_pos, ?_, ?_, fun id hid => ?_, fun id hid => ?_, ?_⟩
  · rw [arrivedIn_snoc, removedIn_snoc, ← List.append_assoc, h.fifo, List.append_assoc, hfifo, List.append_assoc]
  · rw [removedFor_snoc_of_eq rfl, h.flip]
    rfl
  · rw [hread]
    exact h.read id hid
  · rw [hread]
    exact h.lost id hid
  · simp only [h.faulted, List.mem_append, List.mem_singleton]
    constructor
    · rintro ⟨p, hp, hn⟩
      exact ⟨p, Or.inl hp, hn⟩
    · rintro ⟨p, hp | rfl, hn⟩
      · exact ⟨p, hp, hn⟩
      · exact absurd trivial hn

private theorem Accounts.round {id limit : Nat} {r : Round} {packet : Option (List (BitVec 8))} {μq μ' : Mem}
    (h : Accounts μ run s) (hw : s.calls id = .waiting limit) (hd : Dispatched s.mem packet μq)
    (hr : SameOn μ' (shadowMsmDiagReceive μq limit).2 INPUT_MAILBOX_ADDR 268) :
    Accounts μ (run ++ [(s, received (.round id r packet) (.read id) s.mem μq limit)])
      { s with
        mem := μ'
        calls := Function.update s.calls id (afterReceive limit r (shadowMsmDiagReceive μq limit).1) } := by
  have hpos := h.limit_pos id limit hw
  obtain ⟨hok', hfifo⟩ := received_fifo (.round id r packet) (.read id) hd h.ok hr
  have hnil := received_eq_nil_iff hd h.ok hpos
  have hempty : removedFor (.read id) run = [] := by
    rw [h.read id (by simp [hw]), hw]
    rfl
  have hself : removedFor (.read id) (run ++ [(s, received (.round id r packet) (.read id) s.mem μq limit)]) =
      (shadowMsmDiagReceive μq limit).1 := by
    rw [removedFor_snoc_of_eq rfl, hempty, List.nil_append]
    rfl
  have hother : ∀ c, c ≠ .read id →
      removedFor c (run ++ [(s, received (.round id r packet) (.read id) s.mem μq limit)]) = removedFor c run :=
    fun c hc => removedFor_snoc_of_ne (by simpa [received] using Ne.symm hc)
  generalize hcalls : Function.update s.calls id (afterReceive limit r (shadowMsmDiagReceive μq limit).1) = calls
  have hid : calls id = afterReceive limit r (shadowMsmDiagReceive μq limit).1 := by
    rw [← hcalls, Function.update_self]
  have hne : ∀ id', id' ≠ id → calls id' = s.calls id' := fun id' he => by
    rw [← hcalls, Function.update_of_ne he]
  -- this round faults exactly when the buffer is bad and there are bytes for it
  have hunsafe : ¬ Unfaulted (s, received (.round id r packet) (.read id) s.mem μq limit) ↔
      calls id = .returned (.error .efault) := by
    rw [hid, afterReceive_eq_efault_iff, Ne, hnil]
    exact Classical.not_imp
  have hlimit : ∀ id' l, calls id' = .waiting l → 0 < l := by
    intro id' l hl
    by_cases he : id' = id
    · rw [he, hid] at hl
      exact waiting_of_afterReceive hl ▸ hpos
    · exact h.limit_pos id' l (hne id' he ▸ hl)
  have hread : ∀ id', calls id' ≠ .returned (.error .efault) →
      removedFor (.read id') (run ++ [(s, received (.round id r packet) (.read id) s.mem μq limit)]) =
        (calls id').bytes := by
    intro id' hok
    by_cases he : id' = id
    · rw [he, hid] at hok
      rw [he, hself, hid, bytes_afterReceive hok]
    · rw [hne id' he] at hok ⊢
      rw [hother _ (by simpa using he), h.read id' hok]
  have hlost : ∀ id', calls id' = .returned (.error .efault) →
      removedFor (.read id') (run ++ [(s, received (.round id r packet) (.read id) s.mem μq limit)]) ≠ [] := by
    intro id' hf
    by_cases he : id' = id
    · rw [he, hid] at hf
      rw [he, hself]
      exact (afterReceive_eq_efault_iff.mp hf).2
    · rw [hne id' he] at hf
      rw [hother _ (by simpa using he)]
      exact h.lost id' hf
  refine ⟨hok', hlimit, ?_, ?_, hread, hlost, ?_⟩
  · rw [arrivedIn_snoc, removedIn_snoc, ← List.append_assoc, h.fifo, List.append_assoc, hfifo, List.append_assoc]
  · rw [hother .tty (by simp), h.flip]
  · constructor
    · rintro ⟨id', hf⟩
      by_cases he : id' = id
      · rw [he] at hf
        exact ⟨_, List.mem_append_right _ (List.mem_singleton_self _), hunsafe.mpr hf⟩
      · obtain ⟨p, hp, hn⟩ := h.faulted.mp ⟨id', hne id' he ▸ hf⟩
        exact ⟨p, List.mem_append_left _ hp, hn⟩
    · rintro ⟨p, hp, hn⟩
      rcases List.mem_append.mp hp with hp | hp
      · obtain ⟨id', hf⟩ := h.faulted.mpr ⟨p, hp, hn⟩
        have he : id' ≠ id := by
          rintro rfl
          simp [hw] at hf
        exact ⟨id', (hne id' he).trans hf⟩
      · rw [List.mem_singleton.mp hp] at hn
        exact ⟨id, hunsafe.mp hn⟩

theorem Accounts.step (h : Accounts μ run s) (hs : InputStep s ev s') : Accounts μ (run ++ [(s, ev)]) s' := by
  cases hs with
  | start hidle => exact h.start hidle
  | round hw hd hr => exact h.round hw hd hr
  | poll _ hd hr => exact h.poll hd hr
  | skip _ => exact h.quiet (by trivial) h.limit_pos (fun _ => rfl) fun _ => Iff.rfl

end step

theorem InputRun.accounts {μ : Mem} {run : List (InputState × InputEvent)} {s : InputState} (hok : MailboxOk μ)
    (h : InputRun (.init μ) run s) : Accounts μ run s := by
  induction h with
  | nil => exact .init hok
  | snoc _ hs ih => exact ih.step hs

/-- A read of `length` bytes from an empty mailbox, to which its first round brings the packet `61`. -/
private theorem exists_read (r : Round) {length : Nat} (hl : length ≠ 0) :
    ∃ (s : InputState) (ev : InputEvent) (s' : InputState),
    InputRun (.init fun _ => 0) [(.init fun _ => 0, ⟨.start 0 length, none, [], []⟩), (s, ev)] s' ∧
      ev.action = .round 0 r (some [0x61]) := by
  have hok : MailboxOk fun _ => 0 := by decide
  obtain ⟨μq, hd⟩ := exists_dispatched hok (some [0x61]) (by simp)
  have hstart : startRead length = .waiting (min length SHADOW_MSM_INPUT_CHUNK) := if_neg hl
  have hw : Function.update (InputState.init fun _ => 0).calls 0 (startRead length) 0 =
      .waiting (min length SHADOW_MSM_INPUT_CHUNK) := by
    rw [Function.update_self, hstart]
  have hfirst : InputStep (.init fun _ => 0) ⟨.start 0 length, none, [], []⟩ _ := .start rfl
  exact ⟨_, _, _, .snoc (.snoc .nil hfirst) (.round (r := r) hw hd (SameOn.refl _ _ _)), rfl⟩

/-- Over every interleaving of polls and reads: each byte taken from the mailbox reaches the one reader it was
taken for, and a failed read has taken none, exactly when no read meets a bad user buffer with bytes to copy. -/
theorem handed_over_iff {μ : Mem} {run : List (InputState × InputEvent)} {s : InputState} (hok : MailboxOk μ)
    (h : InputRun (.init μ) run s) : HandedOver μ run s ↔ ∀ p ∈ run, Unfaulted p := by
  have hacc := h.accounts hok
  have hgood : (∀ p ∈ run, Unfaulted p) ↔ ∀ id, s.calls id ≠ .returned (.error .efault) := by
    rw [← not_iff_not]
    simp only [not_forall, exists_prop, not_not]
    exact hacc.faulted.symm
  rw [hgood]
  constructor
  · intro hover id hid
    have hread := hover.read id
    rw [hid] at hread
    exact hacc.lost id hid hread
  · intro hgood
    exact ⟨hacc.fifo, hacc.flip, fun id => hacc.read id (hgood id)⟩

/-- A read of five bytes gets the one that arrives. -/
theorem handed_over_read : ∃ (run : List (InputState × InputEvent)) (s : InputState),
    InputRun (.init fun _ => 0) run s ∧ run.length = 2 ∧ HandedOver (fun _ => 0) run s := by
  obtain ⟨s, ev, s', hrun, haction⟩ := exists_read ⟨true, false, false⟩ (by decide : (5 : Nat) ≠ 0)
  refine ⟨_, s', hrun, rfl, (handed_over_iff (by decide) hrun).mpr ?_⟩
  rintro p hp
  rcases List.mem_cons.mp hp with rfl | hp
  · trivial
  · rw [List.mem_singleton.mp hp, Unfaulted]
    simp [haction]

/-- A read with a bad user buffer loses the byte that arrives. -/
theorem handed_over_fault : ¬ ∀ (μ : Mem) (run : List (InputState × InputEvent)) (s : InputState), MailboxOk μ →
    InputRun (.init μ) run s → HandedOver μ run s := by
  intro h
  have hok : MailboxOk fun _ => 0 := by decide
  obtain ⟨s, ev, s', hrun, haction⟩ := exists_read ⟨false, false, true⟩ (by decide : (1 : Nat) ≠ 0)
  have hacc := hrun.accounts hok
  have hbad : ¬ Unfaulted (s, ev) := by
    rw [Unfaulted]
    simp [haction]
  obtain ⟨id, hid⟩ := hacc.faulted.mpr ⟨(s, ev), by simp, hbad⟩
  have hread := (h _ _ s' hok hrun).read id
  rw [hid] at hread
  exact hacc.lost id hid hread

end ShadowMsm.Linux
