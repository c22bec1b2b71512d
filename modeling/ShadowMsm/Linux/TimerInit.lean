import ShadowMsm.Linux.TimerProgram

/-!
# Setting the timer up

`shadow_timer_of_init` maps the registers of the timer and registers what reads and programs it; where one of the
later calls fails it unregisters the clock source and unmaps the registers.  The scheduler clock has been registered
by then and stays so, and its next read goes through a null base (`callbacks_mapped_iff`).
-/

namespace ShadowMsm.Linux.Timer

open Traced

def SHADOW_MSM_TIMER_RATE : U32 := 32768
def SHADOW_MSM_TIMER_BIT : U32 := 0x4
def SHADOW_MSM_IRQ_BANK1_CLEAR : U32 := 0x04
def SHADOW_MSM_WATCHDOG_RESET : U32 := 0x0c

/-! ### The driver and what is registered -/

/-- `shadow_timer_base`: null, or where the registers are mapped or have been. -/
inductive Mapping
  | null
  | mapped
  | unmapped
  deriving DecidableEq, Repr

/-- The variables of the driver, and which of its callbacks the kernel knows. -/
structure TimerState where
  base : Mapping
  linuxIrq : Int
  periodic : Bool
  period : U32
  irqCount : U32
  clocksource : Bool
  schedClock : Bool
  interrupt : Bool
  clockevent : Bool
  deriving DecidableEq, Repr

def TimerState.initial : TimerState := ⟨.null, 0, false, 0, 0, false, false, false, false⟩

/-- A callback is registered that uses the base without a look at it. -/
def TimerState.Unguarded (s : TimerState) : Prop :=
  s.clocksource = true ∨ s.schedClock = true ∨ s.interrupt = true ∨ s.clockevent = true

instance (s : TimerState) : Decidable s.Unguarded := inferInstanceAs (Decidable (_ ∨ _))

inductive Event
  /-- An access of a register through what the base is. -/
  | access (base : Mapping) (a : Access)
  /-- A write to the interrupt controller, which has a base of its own. -/
  | controller (offset value : U32)
  /-- The driver after one of its variables, or what is registered, has changed. -/
  | state (s : TimerState)

abbrev Driver := Traced Pending (TimerState × Course) Event

def getState : Driver TimerState := fun σ => (.ok σ.1, σ, [])

def modifyState (f : TimerState → TimerState) : Driver Unit := fun σ => (.ok (), (f σ.1, σ.2), [.state (f σ.1)])

def clearLatch : Driver Unit := fun σ => (.ok (), σ, [.controller SHADOW_MSM_IRQ_BANK1_CLEAR SHADOW_MSM_TIMER_BIT])

/-- A program whose accesses go through the base. -/
def throughBase {α : Type} (p : Program α) : Driver α := fun σ =>
  let r := p σ.2
  (r.1, (σ.1, r.2.1), r.2.2.map (.access σ.1.base))

/-! ### The callbacks -/

def shadowMsmWatchdogService : Driver Unit := do
  let s ← getState
  if s.base ≠ .null then throughBase (writel 1 SHADOW_MSM_WATCHDOG_RESET) else pure ()

/-- What `shadow_trace` does besides printing. -/
def shadowTrace : Driver Unit := do
  shadowMsmWatchdogService
  shadowMsmWatchdogService

def shadowMsmKeepalive : Driver U32 := do
  shadowMsmWatchdogService
  let s ← getState
  return s.irqCount

def shadowClockeventSetPeriodic (n : Nat) : Driver Int := do
  modifyState fun s => { s with periodic := true }
  let s ← getState
  throughBase (shadowTimerProgram n s.period)

/-- The interrupt handler up to the call of the event handler. -/
def shadowTimerInterrupt (n : Nat) : Driver Unit := do
  modifyState fun s => { s with irqCount := s.irqCount + 1 }
  shadowMsmWatchdogService
  let s ← getState
  if s.periodic then do
    let _ ← throughBase (shadowTimerProgram n s.period)
    return ()
  else return ()

inductive Callback
  | clocksourceRead
  | schedClockRead
  | setPeriodic
  | setOneshot
  | shutdown
  | setNextEvent (delta : U32)
  | timerInterrupt
  | watchdogService
  | keepalive
  deriving DecidableEq, Repr

/-- The kernel calls only what is registered; the last two are called by name. -/
def TimerState.knows (s : TimerState) : Callback → Bool
  | .clocksourceRead => s.clocksource
  | .schedClockRead => s.schedClock
  | .setPeriodic | .setOneshot | .shutdown | .setNextEvent _ => s.clockevent
  | .timerInterrupt => s.interrupt
  | .watchdogService | .keepalive => true

def Callback.body (n : Nat) : Callback → Driver Unit
  | .clocksourceRead | .schedClockRead => do
    let _ ← throughBase (shadowTimerReadCount n)
    return ()
  | .setPeriodic => do
    let _ ← shadowClockeventSetPeriodic n
    return ()
  | .setOneshot | .shutdown => modifyState fun s => { s with periodic := false }
  | .setNextEvent delta => do
    let _ ← throughBase (shadowTimerProgram n delta)
    return ()
  | .timerInterrupt => shadowTimerInterrupt n
  | .watchdogService => shadowMsmWatchdogService
  | .keepalive => do
    let _ ← shadowMsmKeepalive
    return ()

def invoke (n : Nat) (c : Callback) : Driver Unit := do
  let s ← getState
  if s.knows c then c.body n else pure ()

/-- Callbacks one after the other. -/
def later (n : Nat) : List Callback → Driver Unit
  | [] => pure ()
  | c :: cs => do
    invoke n c
    later n cs

/-! ### The initialisation -/

/-- What the calls of the kernel give. -/
structure Outcomes where
  iomap : Bool
  irqOfParseAndMap : Int
  clocksourceRegisterHz : Int
  requestIrq : Int

/-- The label `unmap`. -/
def unmap (result : Int) : Driver Int := do
  modifyState fun s => { s with base := .unmapped }
  modifyState fun s => { s with base := .null }
  return result

/-- The label `unregister_clocksource`. -/
def unregisterClocksource (result : Int) : Driver Int := do
  modifyState fun s => { s with clocksource := false }
  unmap result

/-- `shadow_timer_of_init` from the first match on. -/
def firstMatch (n : Nat) (o : Outcomes) : Driver Int := do
  clearLatch
  let result ← throughBase (shadowTimerProgram n SHADOW_MSM_TIMER_RATE)
  if result ≠ 0 then unregisterClocksource result
  else do
    modifyState fun s => { s with period := (SHADOW_MSM_TIMER_RATE + HZ / 2) / HZ }
    if o.requestIrq ≠ 0 then unregisterClocksource o.requestIrq
    else do
      modifyState fun s => { s with interrupt := true }
      modifyState fun s => { s with clockevent := true }
      shadowTrace
      return 0

/-- `shadow_timer_of_init` from the parse of the interrupt on. -/
def registerCallbacks (n : Nat) (o : Outcomes) : Driver Int := do
  modifyState fun s => { s with linuxIrq := o.irqOfParseAndMap }
  if o.irqOfParseAndMap ≤ 0 then unmap (- EINVAL)
  else if o.clocksourceRegisterHz ≠ 0 then unmap o.clocksourceRegisterHz
  else do
    modifyState fun s => { s with clocksource := true }
    modifyState fun s => { s with schedClock := true }
    firstMatch n o

/-- The rounds of the reads of the counter are bounded by `n`. -/
def shadowTimerOfInit (n : Nat) (o : Outcomes) : Driver Int := do
  modifyState fun s => { s with base := if o.iomap then .mapped else .null }
  if o.iomap = false then return - ENXIO
  else do
    shadowMsmWatchdogService
    registerCallbacks n o

/-- The initialisation and then callbacks. -/
def initThenLater (n : Nat) (o : Outcomes) (cs : List Callback) : Driver Unit := do
  let _ ← shadowTimerOfInit n o
  later n cs

/-! ### What is asked of a run -/

/-- No access goes through a null or unmapped base, and what uses the base without a look at it is registered only
while the base is mapped. -/
def Event.Safe : Event → Prop
  | .access base _ => base = .mapped
  | .controller _ _ => True
  | .state s => s.Unguarded → s.base = .mapped

def CallbacksMapped (o : Outcomes) (course : Course) : Prop :=
  ∀ n cs, ∀ t ∈ (initThenLater n o cs (.initial, course)).2.2, t.Safe

/-- The counter is read, and then no poll finds the status bit. -/
def NeverLoaded (course : Course) (k : Nat) : Prop := ∀ p, p < 1024 → (course.drop (k + 3)).status p &&& 1 = 0

/-- The calls up to the scheduler clock succeed, and then the first match cannot be programmed or the interrupt not be
requested. -/
structure FailsLate (o : Outcomes) (course : Course) : Prop where
  iomap : o.iomap = true
  irq : 0 < o.irqOfParseAndMap
  clocksource : o.clocksourceRegisterHz = 0
  fails : ∃ k, AgreeAt (course.drop 1) k ∧ (NeverLoaded (course.drop 1) k ∨ o.requestIrq ≠ 0)

/-! ### What programming gives -/

/-- The polls end, with an error exactly if none of them finds the bit. -/
theorem pollStatus_result (guard : Nat) (course : Course) :
    ∃ r course' l, pollStatus guard course = (.ok r, course', l) ∧
      (r ≠ 0 ↔ ∀ p, p < guard → course.status p &&& 1 = 0) := by
  induction guard generalizing course with
  | zero => exact ⟨-ETIME, course, [], rfl, fun _ p hp => absurd hp (Nat.not_lt_zero p), fun _ => by decide⟩
  | succ guard ih =>
    rw [pollStatus, run_bind_ok (readStatus_run course)]
    by_cases hset : course.status 0 &&& 1 ≠ 0
    · rw [if_pos hset]
      exact ⟨0, _, _, rfl, fun h => absurd rfl h, fun h => absurd (h 0 (Nat.succ_pos guard)) hset⟩
    · obtain ⟨r, course', l, hrun, hr⟩ := ih (course.drop 1)
      rw [if_neg hset, hrun]
      refine ⟨r, course', _, rfl, hr.trans ?_⟩
      have hdrop (p : Nat) : (course.drop 1).status p = course.status (p + 1) := congrArg course.status (Nat.add_comm 1 p)
      constructor
      · intro h p hp
        cases p with
        | zero => exact not_not.mp hset
        | succ p => rw [← hdrop]; exact h p (by omega)
      · intro h p hp
        rw [hdrop]
        exact h (p + 1) (by omega)

/-- A call that ends has read the counter, and fails exactly if the polls find nothing. -/
theorem program_result {n : Nat} {delta : U32} {course course' : Course} {r : Int} {l : List Access}
    (h : shadowTimerProgram n delta course = (.ok r, course', l)) :
    ∃ k, AgreeAt course k ∧ (r ≠ 0 ↔ NeverLoaded course k) := by
  rw [program_eq] at h
  obtain ⟨now, course₁, l₁, l₂, h₁, h₂, rfl⟩ := of_run_bind_ok h
  obtain ⟨k, hk, rfl, rfl⟩ := readCount_ok h₁
  rw [run_bind_ok (writeMatch_run _ _), Course.drop_drop] at h₂
  obtain ⟨r', course₂, l₃, hrun, hr⟩ := pollStatus_result 1024 (course.drop (k + 2 + 1))
  rw [hrun] at h₂
  cases h₂
  exact ⟨k, hk, hr⟩

/-- A call that is given enough rounds ends. -/
theorem program_ends (delta : U32) {course : Course} {k : Nat} (hk : AgreeAt course k) :
    ∃ r course' l, shadowTimerProgram (k + 1) delta course = (.ok r, course', l) := by
  obtain ⟨l, hl⟩ := readCount_of_agree hk
  obtain ⟨r, course', l', hrun, -⟩ := pollStatus_result 1024 (course.drop (k + 2 + 1))
  rw [program_eq, run_bind_ok hl, run_bind_ok (writeMatch_run _ _), Course.drop_drop, hrun]
  exact ⟨r, _, _, rfl⟩

/-! ### While the base is mapped -/

def Mapped (σ : TimerState × Course) : Prop := σ.1.base = .mapped

/-- The program keeps the base mapped. -/
def Keeps {α : Type} (f : Driver α) : Prop := Ensures Mapped f Event.Safe fun _ => Mapped

section

variable {α β : Type} {f : Driver α} {g : α → Driver β}

theorem keeps_pure (a : α) : Keeps (pure a) := ensures_pure fun _ h => h

theorem keeps_bind (hf : Keeps f) (hg : ∀ a, Keeps (g a)) : Keeps (f >>= g) := ensures_bind hf (fun _ _ h => h) hg

theorem keeps_getState : Keeps getState := ⟨fun _ h => ⟨nofun, h⟩⟩

theorem keeps_clearLatch : Keeps clearLatch := by
  refine ⟨fun σ h => ⟨fun t ht => ?_, h⟩⟩
  rw [List.mem_singleton.mp ht]
  trivial

theorem keeps_modifyState {f : TimerState → TimerState} (hf : ∀ s, (f s).base = s.base) : Keeps (modifyState f) := by
  refine ⟨fun σ h => ⟨fun t ht => ?_, (hf σ.1).trans h⟩⟩
  rw [List.mem_singleton.mp ht]
  exact fun _ => (hf σ.1).trans h

theorem keeps_throughBase (p : Program α) : Keeps (throughBase p) := by
  refine ⟨fun σ h => ⟨fun t ht => ?_, h⟩⟩
  obtain ⟨a, -, rfl⟩ := List.mem_map.mp ht
  exact h

theorem keeps_ite {c : Prop} [Decidable c] {f f' : Driver α} (hf : Keeps f) (hf' : Keeps f') :
    Keeps (if c then f else f') := by
  split
  · exact hf
  · exact hf'

theorem keeps_watchdogService : Keeps shadowMsmWatchdogService :=
  keeps_bind keeps_getState fun _ => keeps_ite (keeps_throughBase _) (keeps_pure _)

theorem keeps_body (n : Nat) (c : Callback) : Keeps (c.body n) := by
  cases c with
  | clocksourceRead | schedClockRead | setNextEvent _ =>
    exact keeps_bind (keeps_throughBase _) fun _ => keeps_pure _
  | setPeriodic =>
    refine keeps_bind (keeps_bind (keeps_modifyState fun _ => rfl) fun _ => ?_) fun _ => keeps_pure _
    exact keeps_bind keeps_getState fun _ => keeps_throughBase _
  | setOneshot | shutdown =>
    have hclear : Keeps (modifyState fun s => { s with periodic := false }) := keeps_modifyState fun _ => rfl
    exact hclear
  | timerInterrupt =>
    refine keeps_bind (keeps_modifyState fun _ => rfl) fun _ => keeps_bind keeps_watchdogService fun _ => ?_
    refine keeps_bind keeps_getState fun s => keeps_ite ?_ (keeps_pure _)
    exact keeps_bind (keeps_throughBase _) fun _ => keeps_pure _
  | watchdogService => exact keeps_watchdogService
  | keepalive =>
    refine keeps_bind (keeps_bind keeps_watchdogService fun _ => ?_) fun _ => keeps_pure _
    exact keeps_bind keeps_getState fun _ => keeps_pure _

theorem keeps_later (n : Nat) (cs : List Callback) : Keeps (later n cs) := by
  induction cs with
  | nil => exact keeps_pure _
  | cons c cs ih =>
    refine keeps_bind (keeps_bind keeps_getState fun s => ?_) fun _ => ih
    exact keeps_ite (keeps_body n c) (keeps_pure _)

end

/-! ### While nothing is registered -/

/-- The base is null, and nothing uses it without a look at it. -/
def Quiet (σ : TimerState × Course) : Prop := σ.1.base = .null ∧ ¬ σ.1.Unguarded

section

variable {σ : TimerState × Course}

theorem watchdogService_null (h : σ.1.base = .null) : shadowMsmWatchdogService σ = (.ok (), σ, []) := by
  have hget : getState σ = (.ok σ.1, σ, []) := rfl
  rw [shadowMsmWatchdogService, run_bind_ok hget, if_neg (not_not.mpr h)]
  rfl

/-- Only the two callbacks that look at the base can be called, and they find it null. -/
theorem invoke_quiet (h : Quiet σ) (n : Nat) (c : Callback) : invoke n c σ = (.ok (), σ, []) := by
  have hget : getState σ = (.ok σ.1, σ, []) := rfl
  obtain ⟨hbase, hnone⟩ := h
  unfold TimerState.Unguarded at hnone
  simp only [not_or] at hnone
  have hwatchdog := watchdogService_null hbase
  rw [invoke, run_bind_ok hget]
  by_cases hknown : σ.1.knows c = true
  · rw [if_pos hknown]
    cases c with
    | clocksourceRead => exact absurd hknown hnone.1
    | schedClockRead => exact absurd hknown hnone.2.1
    | timerInterrupt => exact absurd hknown hnone.2.2.1
    | setPeriodic | setOneshot | shutdown | setNextEvent _ => exact absurd hknown hnone.2.2.2
    | watchdogService => rw [Callback.body, hwatchdog]; rfl
    | keepalive =>
      have hkeepalive : shadowMsmKeepalive σ = (.ok σ.1.irqCount, σ, []) := by
        rw [shadowMsmKeepalive, run_bind_ok hwatchdog]
        rfl
      rw [Callback.body, run_bind_ok hkeepalive]
      rfl
  · rw [if_neg hknown]
    rfl

theorem later_quiet (h : Quiet σ) (n : Nat) (cs : List Callback) : later n cs σ = (.ok (), σ, []) := by
  induction cs with
  | nil => rfl
  | cons c cs ih =>
    rw [later, run_bind_ok (invoke_quiet h n c), ih]
    rfl

/-- Nothing is registered when the base goes. -/
theorem ensures_unmap (result : Int) :
    Ensures (fun σ => ¬ σ.1.Unguarded) (unmap result) Event.Safe fun _ σ => Mapped σ ∨ Quiet σ := by
  refine ⟨fun σ h => ?_⟩
  have hrun : unmap result σ = (.ok result, ({ σ.1 with base := .null }, σ.2),
      [.state { σ.1 with base := .unmapped }, .state { σ.1 with base := .null }]) := rfl
  rw [hrun]
  refine ⟨fun t ht => ?_, Or.inr ⟨rfl, h⟩⟩
  simp only [List.mem_cons, List.not_mem_nil, or_false] at ht
  rcases ht with rfl | rfl <;> exact fun hu => absurd hu h

end

/-! ### The initialisation -/

section

variable {n : Nat} {o : Outcomes} {course : Course}

/-- Where the first match is programmed and the interrupt granted, the base stays mapped. -/
theorem ensures_firstMatch (hgood : ∀ k, AgreeAt course k → ¬ NeverLoaded course k ∧ o.requestIrq = 0) :
    Ensures (fun σ => Mapped σ ∧ σ.2 = course) (firstMatch n o) Event.Safe fun _ => Mapped := by
  have hlatch : Ensures (fun σ => Mapped σ ∧ σ.2 = course) clearLatch Event.Safe fun _ σ => Mapped σ ∧ σ.2 = course :=
    ⟨fun σ h => ⟨(keeps_clearLatch.run σ h.1).1, h⟩⟩
  have hprogram : Ensures (fun σ => Mapped σ ∧ σ.2 = course) (throughBase (shadowTimerProgram n SHADOW_MSM_TIMER_RATE))
      Event.Safe fun r σ => Mapped σ ∧ ∀ a, r = .ok a → a = 0 ∧ o.requestIrq = 0 := by
    refine ⟨fun σ h => ⟨((keeps_throughBase _).run σ h.1).1, h.1, ?_⟩⟩
    obtain ⟨s, c⟩ := σ
    obtain ⟨-, rfl⟩ := h
    intro a ha
    obtain ⟨k, hk, hfails⟩ := program_result (Prod.ext ha rfl)
    obtain ⟨hloaded, hirq⟩ := hgood k hk
    exact ⟨not_not.mp (hloaded ∘ hfails.mp), hirq⟩
  refine ensures_bind hlatch (fun _ _ h => h.1) fun _ => ensures_bind hprogram (fun _ _ h => h.1) fun a => ?_
  refine Ensures.mono (I := fun σ => Mapped σ ∧ a = 0 ∧ o.requestIrq = 0) ?_ (fun σ h => ⟨h.1, h.2 a rfl⟩) (fun _ _ h => h)
  by_cases hzero : a = 0 ∧ o.requestIrq = 0
  · rw [if_neg (not_not.mpr hzero.1), if_neg (not_not.mpr hzero.2)]
    have hrest : Keeps (do
        modifyState fun s => { s with period := (SHADOW_MSM_TIMER_RATE + HZ / 2) / HZ }
        modifyState fun s => { s with interrupt := true }
        modifyState fun s => { s with clockevent := true }
        shadowTrace
        return (0 : Int)) := by
      refine keeps_bind (keeps_modifyState fun _ => rfl) fun _ => keeps_bind (keeps_modifyState fun _ => rfl) fun _ => ?_
      refine keeps_bind (keeps_modifyState fun _ => rfl) fun _ => keeps_bind ?_ fun _ => keeps_pure _
      exact keeps_bind keeps_watchdogService fun _ => keeps_watchdogService
    exact hrest.mono (fun _ h => h.1) fun _ _ h => h
  · exact ⟨fun σ h => absurd h.2 hzero⟩

/-- The driver with its base just mapped. -/
def mappedState : TimerState := { TimerState.initial with base := .mapped }

/-- The run as far as the parse of the interrupt. -/
theorem init_mapped (h : o.iomap = true) : shadowTimerOfInit n o (.initial, course) =
    let rest := registerCallbacks n o (mappedState, course.drop 1)
    (rest.1, rest.2.1, .state mappedState ::
      .access .mapped (.write (course.ticks 0) SHADOW_MSM_WATCHDOG_RESET 1) :: rest.2.2) := by
  have hmodify : modifyState (fun s => { s with base := if o.iomap then .mapped else .null }) (.initial, course) =
      (.ok (), (mappedState, course), [.state mappedState]) := by
    rw [h]
    rfl
  have hservice : shadowMsmWatchdogService (mappedState, course) = (.ok (), (mappedState, course.drop 1),
      [.access .mapped (.write (course.ticks 0) SHADOW_MSM_WATCHDOG_RESET 1)]) := rfl
  rw [shadowTimerOfInit, run_bind_ok hmodify, if_neg (by rw [h]; exact Bool.noConfusion), run_bind_ok hservice]
  rfl

theorem ensures_registerCallbacks (h : ¬ (0 < o.irqOfParseAndMap ∧ o.clocksourceRegisterHz = 0 ∧
      ∃ k, AgreeAt course k ∧ (NeverLoaded course k ∨ o.requestIrq ≠ 0))) :
    Ensures (fun σ => σ = (mappedState, course)) (registerCallbacks n o) Event.Safe fun _ σ => Mapped σ ∨ Quiet σ := by
  have hnone : ¬ TimerState.Unguarded { mappedState with linuxIrq := o.irqOfParseAndMap } := by
    simp [TimerState.Unguarded, mappedState, TimerState.initial]
  have hparse : Ensures (fun σ => σ = (mappedState, course)) (modifyState fun s => { s with linuxIrq := o.irqOfParseAndMap })
      Event.Safe fun _ σ => σ = ({ mappedState with linuxIrq := o.irqOfParseAndMap }, course) := by
    have hkeeps : Keeps (modifyState fun s => { s with linuxIrq := o.irqOfParseAndMap }) := keeps_modifyState fun _ => rfl
    refine ⟨?_⟩
    rintro _ rfl
    exact ⟨(hkeeps.run (mappedState, course) rfl).1, rfl⟩
  refine ensures_bind hparse (fun _ _ hs => ?_) fun _ => ?_
  · rw [hs]
    exact Or.inl rfl
  · by_cases hirq : o.irqOfParseAndMap ≤ 0
    · rw [if_pos hirq]
      exact (ensures_unmap _).mono (fun σ hσ => by rw [hσ]; exact hnone) fun _ _ hs => hs
    · rw [if_neg hirq]
      by_cases hsource : o.clocksourceRegisterHz ≠ 0
      · rw [if_pos hsource]
        exact (ensures_unmap _).mono (fun σ hσ => by rw [hσ]; exact hnone) fun _ _ hs => hs
      · rw [if_neg hsource]
        have hgood : ∀ k, AgreeAt course k → ¬ NeverLoaded course k ∧ o.requestIrq = 0 := by
          intro k hk
          have hfails : ¬ (NeverLoaded course k ∨ o.requestIrq ≠ 0) :=
            fun hf => h ⟨by omega, not_not.mp hsource, k, hk, hf⟩
          exact ⟨fun hn => hfails (Or.inl hn), not_not.mp fun hr => hfails (Or.inr hr)⟩
        have hset (f : TimerState → TimerState) (hf : ∀ s, (f s).base = s.base) :
            Ensures (fun σ => Mapped σ ∧ σ.2 = course) (modifyState f) Event.Safe fun _ σ => Mapped σ ∧ σ.2 = course :=
          ⟨fun σ hσ => ⟨((keeps_modifyState hf).run σ hσ.1).1, ((keeps_modifyState hf).run σ hσ.1).2, hσ.2⟩⟩
        have hrest := ensures_bind (hset (fun s => { s with clocksource := true }) fun _ => rfl) (fun _ _ hs => hs.1)
          fun _ => ensures_bind (hset (fun s => { s with schedClock := true }) fun _ => rfl) (fun _ _ hs => hs.1)
            fun _ => ensures_firstMatch (n := n) hgood
        exact hrest.mono (fun σ hσ => by rw [hσ]; exact ⟨rfl, rfl⟩) fun _ _ hs => Or.inl hs

theorem ensures_init (h : ¬ FailsLate o course) :
    Ensures (fun σ => σ = (.initial, course)) (shadowTimerOfInit n o) Event.Safe fun _ σ => Mapped σ ∨ Quiet σ := by
  refine ⟨?_⟩
  rintro _ rfl
  by_cases hmap : o.iomap = true
  · have hlate : ¬ (0 < o.irqOfParseAndMap ∧ o.clocksourceRegisterHz = 0 ∧
        ∃ k, AgreeAt (course.drop 1) k ∧ (NeverLoaded (course.drop 1) k ∨ o.requestIrq ≠ 0)) :=
      fun ⟨hirq, hsource, hfails⟩ => h ⟨hmap, hirq, hsource, hfails⟩
    obtain ⟨hsafe, hend⟩ := (ensures_registerCallbacks (n := n) hlate).run _ rfl
    rw [init_mapped hmap]
    refine ⟨fun t ht => ?_, hend⟩
    simp only [List.mem_cons] at ht
    rcases ht with rfl | rfl | ht
    · exact fun _ => rfl
    · exact rfl
    · exact hsafe t ht
  · have hrun : shadowTimerOfInit n o (.initial, course) =
        (.ok (- ENXIO), (.initial, course), [.state .initial]) := by
      have hmodify : modifyState (fun s => { s with base := if o.iomap then .mapped else .null }) (.initial, course) =
          (.ok (), (.initial, course), [.state .initial]) := by
        rw [Bool.not_eq_true] at hmap
        rw [hmap]
        rfl
      rw [shadowTimerOfInit, run_bind_ok hmodify, if_pos (Bool.not_eq_true _ ▸ hmap)]
      rfl
    have hnone : ¬ TimerState.Unguarded .initial := by decide
    rw [hrun]
    refine ⟨fun t ht => ?_, Or.inr ⟨rfl, hnone⟩⟩
    rw [List.mem_singleton.mp ht]
    exact fun hu => absurd hu hnone

/-- A late failure leaves the scheduler clock registered and the base null. -/
theorem firstMatch_fails {σ : TimerState × Course} {k : Nat} (hk : AgreeAt σ.2 k)
    (hfails : NeverLoaded σ.2 k ∨ o.requestIrq ≠ 0) :
    ∃ r s' c' l, firstMatch (k + 1) o σ = (.ok r, (s', c'), l) ∧ s'.base = .null ∧ s'.schedClock = σ.1.schedClock := by
  obtain ⟨r, c', l, hrun⟩ := program_ends SHADOW_MSM_TIMER_RATE hk
  obtain ⟨k', hk', hr⟩ := program_result hrun
  obtain rfl := agreeAt_unique hk hk'
  have hlatch : clearLatch σ = (.ok (), σ, [.controller SHADOW_MSM_IRQ_BANK1_CLEAR SHADOW_MSM_TIMER_BIT]) := rfl
  have hprogram : throughBase (shadowTimerProgram (k + 1) SHADOW_MSM_TIMER_RATE) σ =
      (.ok r, (σ.1, c'), l.map (.access σ.1.base)) := by
    unfold throughBase
    rw [hrun]
  rw [firstMatch, run_bind_ok hlatch, run_bind_ok hprogram]
  by_cases hzero : r ≠ 0
  · rw [if_pos hzero]
    exact ⟨_, _, _, _, rfl, rfl, rfl⟩
  · have hirq : o.requestIrq ≠ 0 := hfails.resolve_left (hzero ∘ hr.mpr)
    have hmodify : modifyState (fun s => { s with period := (SHADOW_MSM_TIMER_RATE + HZ / 2) / HZ }) (σ.1, c') =
        (.ok (), ({ σ.1 with period := (SHADOW_MSM_TIMER_RATE + HZ / 2) / HZ }, c'),
          [.state { σ.1 with period := (SHADOW_MSM_TIMER_RATE + HZ / 2) / HZ }]) := rfl
    rw [if_neg hzero, run_bind_ok hmodify, if_pos hirq]
    exact ⟨_, _, _, _, rfl, rfl, rfl⟩

theorem init_fails (h : FailsLate o course) :
    ∃ n r s' c' l, shadowTimerOfInit n o (.initial, course) = (.ok r, (s', c'), l) ∧
      s'.base = .null ∧ s'.schedClock = true := by
  obtain ⟨k, hk, hfails⟩ := h.fails
  have hirq : ¬ o.irqOfParseAndMap ≤ 0 := by have := h.irq; omega
  have hmodify (f : TimerState → TimerState) (σ : TimerState × Course) :
      modifyState f σ = (.ok (), (f σ.1, σ.2), [.state (f σ.1)]) := rfl
  obtain ⟨r, s', c', l, hrun, hbase, hclock⟩ : ∃ r s' c' l, firstMatch (k + 1) o
      ({ mappedState with linuxIrq := o.irqOfParseAndMap, clocksource := true, schedClock := true }, course.drop 1) =
        (.ok r, (s', c'), l) ∧ s'.base = .null ∧ s'.schedClock = true := firstMatch_fails hk hfails
  have hregister : ∃ l', registerCallbacks (k + 1) o (mappedState, course.drop 1) = (.ok r, (s', c'), l') := by
    rw [registerCallbacks, run_bind_ok (hmodify _ _), if_neg hirq, if_neg (not_not.mpr h.clocksource),
      run_bind_ok (hmodify _ _), run_bind_ok (hmodify _ _), hrun]
    exact ⟨_, rfl⟩
  obtain ⟨l', hl'⟩ := hregister
  have hinit : ∃ l'', shadowTimerOfInit (k + 1) o (.initial, course) = (.ok r, (s', c'), l'') := by
    rw [init_mapped h.iomap, hl']
    exact ⟨_, rfl⟩
  obtain ⟨l'', hl''⟩ := hinit
  exact ⟨k + 1, r, s', c', l'', hl'', hbase, hclock⟩

/-- A read of the scheduler clock uses the base as it is. -/
theorem schedClockRead_access {s : TimerState} (h : s.schedClock = true) (n : Nat) (c : Course) :
    .access s.base (.read (c.ticks 0) SHADOW_MSM_TIMER_COUNT (c.count 0)) ∈ (later n [.schedClockRead] (s, c)).2.2 := by
  have hread : .access s.base (.read (c.ticks 0) SHADOW_MSM_TIMER_COUNT (c.count 0)) ∈
      (throughBase (shadowTimerReadCount n) (s, c)).2.2 := by
    rw [throughBase, readCount_run]
    exact List.mem_cons_self
  have hget : getState (s, c) = (.ok s, (s, c), []) := rfl
  have hinvoke : invoke n .schedClockRead (s, c) = Callback.body n .schedClockRead (s, c) := by
    have hknows : s.knows .schedClockRead = true := h
    rw [invoke, run_bind_ok hget, if_pos hknows]
    rfl
  rw [later]
  apply mem_run_bind
  rw [hinvoke]
  exact mem_run_bind hread

theorem not_callbacksMapped (h : FailsLate o course) : ¬ CallbacksMapped o course := by
  intro hsafe
  obtain ⟨n, r, s', c', l, hrun, hbase, hclock⟩ := init_fails h
  -- the next read of the scheduler clock goes through the null base
  have hread := schedClockRead_access hclock n c'
  have hnull := hsafe n [.schedClockRead] (.access s'.base (.read (c'.ticks 0) SHADOW_MSM_TIMER_COUNT (c'.count 0))) (by
    rw [initThenLater, run_bind_ok hrun]
    exact List.mem_append_right _ hread)
  rw [hbase] at hnull
  cases hnull

theorem callbacksMapped (h : ¬ FailsLate o course) : CallbacksMapped o course := by
  intro n cs
  have hlater : Ensures (fun σ => Mapped σ ∨ Quiet σ) (later n cs) Event.Safe fun _ _ => True := by
    refine ⟨fun σ hσ => ?_⟩
    rcases hσ with hσ | hσ
    · exact ⟨((keeps_later n cs).run σ hσ).1, trivial⟩
    · rw [later_quiet hσ]
      exact ⟨nofun, trivial⟩
  have hall := ensures_bind (ensures_init (n := n) h) (S := fun _ _ => True) (fun _ _ _ => trivial) fun _ => hlater
  exact (hall.run _ rfl).1

/-- The base is mapped whenever it is used, by the initialisation and every later callback, exactly if the
initialisation does not fail once the scheduler clock is registered. -/
theorem callbacks_mapped_iff (o : Outcomes) (course : Course) : CallbacksMapped o course ↔ ¬ FailsLate o course :=
  ⟨fun hsafe hlate => not_callbacksMapped hlate hsafe, callbacksMapped⟩

/-- A counter that stands still, and a status bit that is always set. -/
def still : Course := ⟨fun _ => 0, fun _ => 1, fun _ => Nat.le_refl 0, fun _ => by omega⟩

/-- The line of the interrupt is taken: `request_irq` returns `-EBUSY`. -/
theorem not_callbacksMapped_busy : ¬ ∀ o course, CallbacksMapped o course := by
  intro h
  have hlate : FailsLate ⟨true, 1, 0, -16⟩ still :=
    ⟨rfl, by decide, rfl, 0, ⟨rfl, fun j hj => absurd hj (Nat.not_lt_zero j)⟩, Or.inr (by decide)⟩
  exact not_callbacksMapped hlate (h _ _)

end

end ShadowMsm.Linux.Timer
