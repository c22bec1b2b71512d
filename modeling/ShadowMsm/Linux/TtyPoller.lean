import ShadowMsm.Lib.DelayedWork
import ShadowMsm.Lib.Runs
import ShadowMsm.Linux.InputCalls

/-!
# The poller of the terminal

`shadow_tty_poll` re-arms itself as long as `polling` is set; `shadow_tty_activate` sets the flag and schedules the
work for the first time, and `shadow_tty_shutdown` clears it and cancels the work.  The terminal core activates and
shuts down in turn, while executions of the work go on at any point in between (`poller_lifecycle`).
-/

namespace ShadowMsm.Linux

/-- Where an execution of `shadow_tty_poll` stands, with the values that it has read. -/
inductive PollPc
  | checkPolling
  | requestRoom
  | receive (limit : Nat)
  | insert (count : Nat)
  | checkAgain
  | rearm
  | finish
  deriving DecidableEq, Repr

/-- The port: closed or open, or the next statement of the activation or the shutdown that is under way. -/
inductive PortPc
  | closed
  | inputReset
  | setPolling
  | scheduleFirst
  | emit
  | opened
  | clearPolling
  | beginCancel
  | waitCancel
  deriving DecidableEq, Repr

/-- `struct shadow_tty_state`. -/
structure ShadowTtyState where
  port : PortPc
  pollWork : DelayedWork PollPc
  polling : Bool

/-- What can happen: the terminal core begins an activation or a shutdown or goes on with it, a worker takes the
pending work, or an execution goes on.  The flip buffer reports any room, and the mailbox has any number of bytes. -/
inductive PollerAction
  | activate
  | shutdown
  | port
  | fire
  | poll (i : Nat) (room : Int) (count : Nat)
  deriving DecidableEq, Repr

namespace ShadowTtyState

/-- After `INIT_DELAYED_WORK`. -/
def initial : ShadowTtyState := ⟨.closed, .idle, false⟩

def portStep (s : ShadowTtyState) : Option ShadowTtyState :=
  match s.port with
  -- shadow_tty_activate
  | .inputReset => some { s with port := .setPolling }
  | .setPolling => some { s with polling := true, port := .scheduleFirst }
  | .scheduleFirst => some { s with pollWork := s.pollWork.schedule, port := .emit }
  | .emit => some { s with port := .opened }
  -- shadow_tty_shutdown
  | .clearPolling => some { s with polling := false, port := .beginCancel }
  | .beginCancel => some { s with pollWork := s.pollWork.beginCancel, port := .waitCancel }
  | .waitCancel => s.pollWork.endCancel.map fun w => { s with pollWork := w, port := .closed }
  | .closed | .opened => none

/-- Where a statement of `shadow_tty_poll` leads to, for the flag, the room and the bytes it finds. -/
def next (polling : Bool) (room : Int) (count : Nat) : PollPc → PollPc
  | .checkPolling => if polling then .requestRoom else .finish
  | .requestRoom => if room > 0 then .receive (min room.toNat SHADOW_TTY_RX_CHUNK) else .checkAgain
  | .receive limit => if min count limit ≠ 0 then .insert (min count limit) else .checkAgain
  | .insert _ => .checkAgain
  | .checkAgain => if polling then .rearm else .finish
  | .rearm | .finish => .finish

/-- The next statement of the execution `i`. -/
def pollStep (s : ShadowTtyState) (i : Nat) (room : Int) (count : Nat) : Option ShadowTtyState :=
  s.pollWork.running[i]?.map fun pc => { s with
    pollWork := match pc with
      | .finish => s.pollWork.finish i
      | .rearm => s.pollWork.schedule.move i .finish
      | pc => s.pollWork.move i (next s.polling room count pc) }

def step (s : ShadowTtyState) : PollerAction → Option ShadowTtyState
  | .activate => if s.port = .closed then some { s with port := .inputReset } else none
  | .shutdown => if s.port = .opened then some { s with port := .clearPolling } else none
  | .port => s.portStep
  | .fire => (s.pollWork.start .checkPolling).map fun w => { s with pollWork := w }
  | .poll i room count => s.pollStep i room count

/-- The action is the call of `shadow_msm_diag_receive` in an execution of the work. -/
def TouchesMailbox (s : ShadowTtyState) (a : PollerAction) : Prop :=
  ∃ i room count limit, a = .poll i room count ∧ s.pollWork.running[i]? = some (.receive limit)

end ShadowTtyState

/-! ### The invariant -/

/-- Scheduled, or with an execution that is still going to schedule itself. -/
inductive Armed : DelayedWork PollPc → Prop
  | pending : Armed ⟨1, false, []⟩
  | rearmed : Armed ⟨1, false, [.finish]⟩
  | running {pc : PollPc} (h : pc ≠ .finish) : Armed ⟨0, false, [pc]⟩

/-- At most once pending and running; a pending one waits for no more than a return. -/
inductive Winding (canceling : Bool) : DelayedWork PollPc → Prop
  | gone : Winding canceling ⟨0, canceling, []⟩
  | running (pc : PollPc) : Winding canceling ⟨0, canceling, [pc]⟩
  | pending : Winding canceling ⟨1, canceling, []⟩
  | rearmed : Winding canceling ⟨1, canceling, [.finish]⟩

/-- What the flag and the work are like while the port is where it is. -/
inductive Polling : ShadowTtyState → Prop
  | idle {port : PortPc} (h : port = .closed ∨ port = .inputReset ∨ port = .setPolling) : Polling ⟨port, .idle, false⟩
  | set : Polling ⟨.scheduleFirst, .idle, true⟩
  | armed {port : PortPc} {w : DelayedWork PollPc} (h : port = .emit ∨ port = .opened ∨ port = .clearPolling)
    (hw : Armed w) : Polling ⟨port, w, true⟩
  | cleared {w : DelayedWork PollPc} (hw : Winding false w) : Polling ⟨.beginCancel, w, false⟩
  | canceled {w : DelayedWork PollPc} (hw : Winding true w) (h : w.pending = 0) : Polling ⟨.waitCancel, w, false⟩

theorem Armed.winding {w : DelayedWork PollPc} (h : Armed w) : Winding false w := by
  cases h with
  | pending => exact .pending
  | rearmed => exact .rearmed
  | @running pc _ => exact .running pc

/-- What a statement of the one execution does. -/
theorem pollStep_cases {port : PortPc} {w : DelayedWork PollPc} {polling : Bool} {pc : PollPc} {i : Nat} {room : Int}
    {count : Nat} {s' : ShadowTtyState} (hw : w.running = [pc])
    (h : ShadowTtyState.pollStep ⟨port, w, polling⟩ i room count = some s') :
    (pc = .finish ∧ s' = ⟨port, ⟨w.pending, w.canceling, []⟩, polling⟩) ∨
      (pc = .rearm ∧ s' = ⟨port, ⟨w.schedule.pending, w.canceling, [.finish]⟩, polling⟩) ∨
      (pc ≠ .finish ∧ pc ≠ .rearm ∧
        s' = ⟨port, ⟨w.pending, w.canceling, [ShadowTtyState.next polling room count pc]⟩, polling⟩) := by
  obtain ⟨q, hq, rfl⟩ := Option.map_eq_some_iff.mp h
  obtain ⟨rfl, rfl⟩ := DelayedWork.getElem?_running hw hq
  cases q with
  | finish =>
    refine Or.inl ⟨rfl, ?_⟩
    simp [DelayedWork.finish, hw]
  | rearm =>
    refine Or.inr (Or.inl ⟨rfl, ?_⟩)
    simp [DelayedWork.move, hw]
  | _ =>
    refine Or.inr (Or.inr ⟨PollPc.noConfusion, PollPc.noConfusion, ?_⟩)
    simp [DelayedWork.move, hw]

/-- Without an execution there is no statement of one. -/
theorem pollStep_idle {s : ShadowTtyState} {i : Nat} {room : Int} {count : Nat} (h : s.pollWork.running = []) :
    s.pollStep i room count = none := by
  unfold ShadowTtyState.pollStep
  rw [h]
  rfl

/-- While the flag is set, only the schedule leads to the return. -/
theorem next_ne_finish {room : Int} {count : Nat} {pc : PollPc} (hf : pc ≠ .finish) (hr : pc ≠ .rearm) :
    ShadowTtyState.next true room count pc ≠ .finish := by
  cases pc with
  | finish => exact absurd rfl hf
  | rearm => exact absurd rfl hr
  | checkPolling => exact PollPc.noConfusion
  | insert _ => exact PollPc.noConfusion
  | checkAgain => exact PollPc.noConfusion
  | requestRoom =>
    rw [ShadowTtyState.next]
    split <;> exact PollPc.noConfusion
  | receive limit =>
    rw [ShadowTtyState.next]
    split <;> exact PollPc.noConfusion

section

variable {port : PortPc} {w : DelayedWork PollPc} {i : Nat} {room : Int} {count : Nat} {s' : ShadowTtyState}

theorem Armed.poll (h : Armed w) (hs : ShadowTtyState.pollStep ⟨port, w, true⟩ i room count = some s') :
    ∃ w', s' = ⟨port, w', true⟩ ∧ Armed w' := by
  cases h with
  | pending => cases hs
  | rearmed =>
    rcases pollStep_cases rfl hs with ⟨-, rfl⟩ | ⟨h, -⟩ | ⟨h, -⟩
    · exact ⟨_, rfl, .pending⟩
    · cases h
    · exact absurd rfl h
  | @running pc hpc =>
    rcases pollStep_cases rfl hs with ⟨h, -⟩ | ⟨-, rfl⟩ | ⟨hf, hr, rfl⟩
    · exact absurd h hpc
    · exact ⟨_, rfl, .rearmed⟩
    · exact ⟨_, rfl, .running (next_ne_finish hf hr)⟩

theorem Armed.start (h : Armed w) {w' : DelayedWork PollPc} (hs : w.start .checkPolling = some w') : Armed w' := by
  obtain ⟨hp, hr, rfl⟩ := DelayedWork.of_start hs
  cases h with
  | pending => exact .running PollPc.noConfusion
  | rearmed => cases hr
  | running _ => cases hr

/-- Once the flag is cleared, an execution that has seen it set may still schedule the work, unless it is being
cancelled. -/
theorem Winding.poll {canceling : Bool} (h : Winding canceling w)
    (hs : ShadowTtyState.pollStep ⟨port, w, false⟩ i room count = some s') :
    ∃ w', s' = ⟨port, w', false⟩ ∧ Winding canceling w' ∧ (canceling = true → w'.pending = w.pending) := by
  cases h with
  | gone => cases hs
  | pending => cases hs
  | rearmed =>
    rcases pollStep_cases rfl hs with ⟨-, rfl⟩ | ⟨h, -⟩ | ⟨h, -⟩
    · exact ⟨_, rfl, .pending, fun _ => rfl⟩
    · cases h
    · exact absurd rfl h
  | running pc =>
    rcases pollStep_cases rfl hs with ⟨-, rfl⟩ | ⟨-, rfl⟩ | ⟨-, -, rfl⟩
    · exact ⟨_, rfl, .gone, fun _ => rfl⟩
    · cases canceling with
      | true => exact ⟨_, rfl, .running .finish, fun _ => rfl⟩
      | false => exact ⟨_, rfl, .rearmed, fun h => nomatch h⟩
    · exact ⟨_, rfl, .running _, fun _ => rfl⟩

theorem Winding.start (h : Winding false w) {w' : DelayedWork PollPc} (hs : w.start .checkPolling = some w') :
    Winding false w' := by
  obtain ⟨hp, hr, rfl⟩ := DelayedWork.of_start hs
  cases h with
  | gone => exact absurd rfl hp
  | pending => exact .running _
  | running pc => cases hr
  | rearmed => cases hr

end

/-! ### Steps and runs -/

theorem polling_initial : Polling .initial := .idle (Or.inl rfl)

/-- A statement of the activation or the shutdown. -/
theorem Polling.port {s s' : ShadowTtyState} (h : Polling s) (hs : s.portStep = some s') : Polling s' := by
  cases h with
  | idle hport =>
    rcases hport with rfl | rfl | rfl
    · cases hs
    · cases hs
      exact .idle (Or.inr (Or.inr rfl))
    · cases hs
      exact .set
  | set =>
    cases hs
    exact .armed (Or.inl rfl) .pending
  | armed hport hw =>
    rcases hport with rfl | rfl | rfl
    · cases hs
      exact .armed (Or.inr (Or.inl rfl)) hw
    · cases hs
    · cases hs
      exact .cleared hw.winding
  | cleared hw =>
    cases hs
    cases hw with
    | gone => exact .canceled .gone rfl
    | running pc => exact .canceled (.running pc) rfl
    | pending => exact .canceled .gone rfl
    | rearmed => exact .canceled (.running _) rfl
  | canceled hw hpending =>
    obtain ⟨w', hw', rfl⟩ := Option.map_eq_some_iff.mp hs
    obtain ⟨hr, rfl⟩ := DelayedWork.of_endCancel hw'
    rw [hpending]
    exact .idle (Or.inl rfl)

theorem Polling.fire {s s' : ShadowTtyState} (h : Polling s) (hs : s.step .fire = some s') : Polling s' := by
  obtain ⟨w', hw', rfl⟩ := Option.map_eq_some_iff.mp hs
  cases h with
  | idle hport => exact absurd rfl (DelayedWork.of_start hw').1
  | set => exact absurd rfl (DelayedWork.of_start hw').1
  | armed hport hw => exact .armed hport (hw.start hw')
  | cleared hw => exact .cleared (hw.start hw')
  | canceled hw hpending => exact absurd hpending (DelayedWork.of_start hw').1

theorem Polling.poll {s s' : ShadowTtyState} {i : Nat} {room : Int} {count : Nat} (h : Polling s)
    (hs : s.pollStep i room count = some s') : Polling s' := by
  cases h with
  | idle hport =>
    rw [pollStep_idle rfl] at hs
    cases hs
  | set =>
    rw [pollStep_idle rfl] at hs
    cases hs
  | armed hport hw =>
    obtain ⟨w', rfl, hw'⟩ := hw.poll hs
    exact .armed hport hw'
  | cleared hw =>
    obtain ⟨w', rfl, hw', -⟩ := hw.poll hs
    exact .cleared hw'
  | canceled hw hpending =>
    obtain ⟨w', rfl, hw', hp⟩ := hw.poll hs
    exact .canceled hw' ((hp rfl).trans hpending)

theorem Polling.step {s s' : ShadowTtyState} {a : PollerAction} (h : Polling s) (hs : s.step a = some s') :
    Polling s' := by
  cases a with
  | activate =>
    by_cases hport : s.port = .closed
    · rw [ShadowTtyState.step, if_pos hport] at hs
      cases hs
      cases h with
      | idle _ => exact .idle (Or.inr (Or.inl rfl))
      | armed hport' _ => rcases hport' with rfl | rfl | rfl <;> cases hport
      | _ => cases hport
    · rw [ShadowTtyState.step, if_neg hport] at hs
      cases hs
  | shutdown =>
    by_cases hport : s.port = .opened
    · rw [ShadowTtyState.step, if_pos hport] at hs
      cases hs
      cases h with
      | idle hport' => rcases hport' with rfl | rfl | rfl <;> cases hport
      | armed _ hw => exact .armed (Or.inr (Or.inr rfl)) hw
      | _ => cases hport
    · rw [ShadowTtyState.step, if_neg hport] at hs
      cases hs
  | port => exact h.port hs
  | fire => exact h.fire hs
  | poll i room count => exact h.poll hs

theorem polling_run {s : ShadowTtyState} {as : List PollerAction}
    (h : Runs.run ShadowTtyState.step .initial as = some s) : Polling s :=
  Runs.run_invariant (A := fun _ => True) (fun _ _ _ hs _ hp => hp.step hs) h (fun _ _ => trivial) polling_initial

theorem Winding.atMostOne {canceling : Bool} {w : DelayedWork PollPc} (h : Winding canceling w) :
    w.running.length ≤ 1 ∧ w.pending ≤ 1 := by
  cases h <;> exact ⟨by simp, by simp⟩

theorem Armed.alive {w : DelayedWork PollPc} (h : Armed w) : w.pending = 1 ∨ ∃ pc, w.running = [pc] ∧ pc ≠ .finish := by
  cases h with
  | pending => exact Or.inl rfl
  | rearmed => exact Or.inl rfl
  | running hpc => exact Or.inr ⟨_, rfl, hpc⟩

theorem Polling.atMostOne {s : ShadowTtyState} (h : Polling s) :
    s.pollWork.running.length ≤ 1 ∧ s.pollWork.pending ≤ 1 := by
  cases h with
  | idle _ => exact ⟨Nat.zero_le 1, Nat.zero_le 1⟩
  | set => exact ⟨Nat.zero_le 1, Nat.zero_le 1⟩
  | armed _ hw => exact hw.winding.atMostOne
  | cleared hw => exact hw.atMostOne
  | canceled hw _ => exact hw.atMostOne

theorem Polling.quiet {s : ShadowTtyState} (h : Polling s) (hport : s.port = .closed) :
    s.pollWork.pending = 0 ∧ s.pollWork.running = [] := by
  cases h with
  | idle _ => exact ⟨rfl, rfl⟩
  | armed hport' _ => rcases hport' with rfl | rfl | rfl <;> cases hport
  | _ => cases hport

theorem Polling.alive {s : ShadowTtyState} (h : Polling s) (hport : s.port = .emit ∨ s.port = .opened) :
    s.pollWork.pending = 1 ∨ ∃ pc, s.pollWork.running = [pc] ∧ pc ≠ .finish := by
  cases h with
  | idle hport' => rcases hport' with rfl | rfl | rfl <;> rcases hport with hport | hport <;> cases hport
  | armed _ hw => exact hw.alive
  | _ => rcases hport with hport | hport <;> cases hport

/-- Over every interleaving of activations, shutdowns and executions: the work is at most once pending and once
running; while the port is closed it is neither, and nothing of it touches the mailbox; and from the schedule of the
activation until the shutdown begins it is pending, or an execution runs that has yet to schedule it. -/
theorem poller_lifecycle {s : ShadowTtyState} {as : List PollerAction}
    (h : Runs.run ShadowTtyState.step .initial as = some s) :
    (s.pollWork.running.length ≤ 1 ∧ s.pollWork.pending ≤ 1) ∧
      (s.port = .closed → (s.pollWork.pending = 0 ∧ s.pollWork.running = []) ∧ ∀ a, ¬ s.TouchesMailbox a) ∧
      (s.port = .emit ∨ s.port = .opened →
        s.pollWork.pending = 1 ∨ ∃ pc, s.pollWork.running = [pc] ∧ pc ≠ .finish) := by
  have hpolling := polling_run h
  refine ⟨hpolling.atMostOne, fun hport => ⟨hpolling.quiet hport, ?_⟩, hpolling.alive⟩
  rintro a ⟨i, room, count, limit, rfl, hi⟩
  rw [(hpolling.quiet hport).2] at hi
  cases hi

/-- A poll sees the flag set, the shutdown clears it and cancels, and the poll schedules itself in vain.  The port is
opened again, and the next execution is about to receive. -/
def reopened : List PollerAction :=
  [.activate, .port, .port, .port, .port, .fire, .poll 0 64 0, .poll 0 64 0, .poll 0 64 3, .poll 0 64 0, .poll 0 64 0,
   .shutdown, .port, .port, .poll 0 64 0, .poll 0 64 0, .port,
   .activate, .port, .port, .port, .port, .fire, .poll 0 64 0, .poll 0 64 0]

theorem run_reopened :
    Runs.run ShadowTtyState.step .initial reopened = some ⟨.opened, ⟨0, false, [.receive 64]⟩, true⟩ := rfl

theorem poller_lifecycle_reopened : ∃ s, Runs.run ShadowTtyState.step .initial reopened = some s ∧ s.port = .opened ∧
    s.pollWork.running = [.receive 64] ∧ (s.pollWork.running.length ≤ 1 ∧ s.pollWork.pending ≤ 1) ∧
    (s.pollWork.pending = 1 ∨ ∃ pc, s.pollWork.running = [pc] ∧ pc ≠ .finish) := by
  obtain ⟨hone, -, halive⟩ := poller_lifecycle run_reopened
  exact ⟨_, run_reopened, rfl, rfl, hone, halive (.inr rfl)⟩

end ShadowMsm.Linux
