import Mathlib.Logic.Function.Basic
import ShadowMsm.Lib.Simulation
import ShadowMsm.Linux.TimerInit

/-!
# The route of the timer interrupt

The interrupt controller is left as the firmware has set it up, but for one bit: `shadow_irq_mask` and
`shadow_irq_unmask` clear and set the timer's bit in its mask register, and `shadow_handle_irq` hands timer interrupts, and
no others, to the kernel.  Threads call the first two and are preempted or interrupted wherever IRQs are on, and the
interrupt core calls them during an interrupt; the register is read and written under `shadow_irq_lock`.
-/

namespace ShadowMsm.Linux.Timer

open Simulation

def SHADOW_MSM_TIMER_IRQ : Nat := 0x22
def SHADOW_MSM_TIMER_VECTOR : U32 := 0x1b
def SHADOW_MSM_SPURIOUS_VECTOR : U32 := 0x3f

/-- The operations of `shadow_irq_chip`. -/
inductive ChipOp
  | ack | mask | unmask
  deriving DecidableEq, Repr

/-- What an operation makes of `SHADOW_MSM_IRQ_BANK1_MASK`. -/
def ChipOp.apply (op : ChipOp) (value : U32) : U32 :=
  match op with
  | .ack => value
  | .mask => value &&& ~~~SHADOW_MSM_TIMER_BIT
  | .unmask => value ||| SHADOW_MSM_TIMER_BIT

/-- Where an operation stands. -/
inductive ChipPlace
  | clear | irqSave | lock | read | write | unlock | irqRestore
  deriving DecidableEq, Repr

/-- An operation under way, with its local variables. -/
structure ChipCall where
  op : ChipOp
  place : ChipPlace
  flags : Bool
  value : U32
  deriving DecidableEq, Repr

def ChipOp.first : ChipOp → ChipPlace
  | .ack => .clear
  | _ => .irqSave

def ChipOp.call (op : ChipOp) : ChipCall := ⟨op, op.first, false, 0⟩

/-- The state that all share: whether IRQs are on, whether the lock is taken, and the mask register. -/
structure Shared where
  irqs : Bool
  locked : Bool
  mask : U32
  deriving DecidableEq, Repr

inductive RouteEvent
  /-- the timer's latch is cleared -/
  | acked
  /-- the mask register is written -/
  | updated (op : ChipOp)
  | entered
  /-- the active vector is read -/
  | polled (vector : U32)
  /-- `generic_handle_domain_irq` is called -/
  | handed (irq : Nat)
  | left
  deriving DecidableEq, Repr

/-- One step of an operation: it is gone when the function has returned. -/
def ChipCall.exec (f : ChipCall) (c : Shared) : Option ChipCall × Shared × Option RouteEvent :=
  match f.place with
  | .clear => (none, c, some .acked)
  | .irqSave => (some { f with place := .lock, flags := c.irqs }, { c with irqs := false }, none)
  | .lock =>
    -- a lock that is taken is spun on
    if c.locked then (some f, c, none) else (some { f with place := .read }, { c with locked := true }, none)
  | .read => (some { f with place := .write, value := f.op.apply c.mask }, c, none)
  | .write => (some { f with place := .unlock }, { c with mask := f.value }, some (.updated f.op))
  | .unlock => (some { f with place := .irqRestore }, { c with locked := false }, none)
  | .irqRestore => (none, { c with irqs := f.flags }, none)

/-- Where `shadow_handle_irq` stands: at its condition, before or in `generic_handle_domain_irq`, or at a `return`. -/
inductive HandlerPlace
  | loop | calls | handling | returns
  deriving DecidableEq, Repr

/-- The handler, with the operation that the interrupt core is in. -/
structure Handler where
  guard : Nat
  place : HandlerPlace
  call : Option ChipCall
  deriving DecidableEq, Repr

/-- The condition of the loop and its body up to the call, where the active vector reads as `vector`. -/
def Handler.poll (f : Handler) (vector : U32) : Handler :=
  if vector = SHADOW_MSM_SPURIOUS_VECTOR then { f with guard := f.guard + 1, place := .returns }
  else if vector ≠ SHADOW_MSM_TIMER_VECTOR then { f with guard := f.guard + 1, place := .returns }
  else { f with guard := f.guard + 1, place := .calls }

/-- The processor: the thread that it runs, the operations that threads are in, and the handler, which runs on top of this
thread. -/
structure Processor (T : Type) where
  shared : Shared
  current : T
  call : T → Option ChipCall
  handler : Option Handler

variable {T : Type}

def Processor.start (t : T) (irqs : Bool) (mask : U32) : Processor T := ⟨⟨irqs, false, mask⟩, t, fun _ => none, none⟩

section

variable [DecidableEq T]

def Processor.setCall (k : Processor T) (f : Option ChipCall) : T → Option ChipCall := Function.update k.call k.current f

inductive RouteStep (k : Processor T) : Option RouteEvent → Processor T → Prop
  /-- A thread calls an operation. -/
  | call (hh : k.handler = none) (hc : k.call k.current = none) (op : ChipOp) :
      RouteStep k none { k with call := k.setCall (some op.call) }
  | exec (hh : k.handler = none) {f : ChipCall} (hc : k.call k.current = some f) {f' : Option ChipCall} {c : Shared}
      {o : Option RouteEvent} (hx : f.exec k.shared = (f', c, o)) :
      RouteStep k o { k with shared := c, call := k.setCall f' }
  /-- Another thread gets the processor. -/
  | preempt (hi : k.shared.irqs = true) (t : T) : RouteStep k none { k with current := t }
  /-- Other kernel code of a thread that is in no operation. -/
  | other (hh : k.handler = none) (hc : k.call k.current = none) (irqs : Bool) :
      RouteStep k none { k with shared := { k.shared with irqs := irqs } }
  /-- An interrupt. -/
  | enter (hi : k.shared.irqs = true) :
      RouteStep k (some .entered) { k with shared := { k.shared with irqs := false }, handler := some ⟨0, .loop, none⟩ }
  | poll {f : Handler} (hh : k.handler = some f) (hp : f.place = .loop) (hg : f.guard < 8) (vector : U32) :
      RouteStep k (some (.polled vector)) { k with handler := some (f.poll vector) }
  /-- The interrupt is handed to the kernel. -/
  | hand {f : Handler} (hh : k.handler = some f) (hp : f.place = .calls) :
      RouteStep k (some (.handed SHADOW_MSM_TIMER_IRQ)) { k with handler := some { f with place := .handling } }
  /-- The loop ends, or the handler returns from it; IRQs are on again. -/
  | leave {f : Handler} (hh : k.handler = some f) (hp : f.place = .returns ∨ f.place = .loop ∧ ¬ f.guard < 8) :
      RouteStep k (some .left) { k with shared := { k.shared with irqs := true }, handler := none }
  /-- The interrupt core calls an operation. -/
  | coreCall {f : Handler} (hh : k.handler = some f) (hp : f.place = .handling) (hc : f.call = none) (op : ChipOp) :
      RouteStep k none { k with handler := some { f with call := some op.call } }
  | coreExec {f : Handler} (hh : k.handler = some f) {g : ChipCall} (hc : f.call = some g) {g' : Option ChipCall}
      {c : Shared} {o : Option RouteEvent} (hx : g.exec k.shared = (g', c, o)) :
      RouteStep k o { k with shared := c, handler := some { f with call := g' } }
  /-- The interrupt core returns to the loop. -/
  | handled {f : Handler} (hh : k.handler = some f) (hp : f.place = .handling) (hc : f.call = none) :
      RouteStep k none { k with handler := some { f with place := .loop } }

end

/-! ### One operation at a time -/

/-- What a handler has come to: none, its loop after `n` timer interrupts, the `n`-th of them still to be handed over, or
its end. -/
inductive Polling
  | outside
  | looping (n : Nat)
  | calling (n : Nat)
  | returning
  deriving DecidableEq, Repr

/-- The mask register, and the handler. -/
structure Route where
  mask : U32
  polling : Polling

/-- Updates of the register are atomic, and a handler reads the active vector until it is not the timer's, eight times at
most; before it goes on it hands over the timer's interrupt. -/
inductive SerialRoute : Route → RouteEvent → Route → Prop
  | acked (r : Route) : SerialRoute r .acked r
  | updated (r : Route) (op : ChipOp) : SerialRoute r (.updated op) { r with mask := op.apply r.mask }
  | entered (mask : U32) : SerialRoute ⟨mask, .outside⟩ .entered ⟨mask, .looping 0⟩
  | timer (mask : U32) {n : Nat} (h : n < 8) :
      SerialRoute ⟨mask, .looping n⟩ (.polled SHADOW_MSM_TIMER_VECTOR) ⟨mask, .calling (n + 1)⟩
  | handed (mask : U32) (n : Nat) :
      SerialRoute ⟨mask, .calling n⟩ (.handed SHADOW_MSM_TIMER_IRQ) ⟨mask, .looping n⟩
  | other (mask : U32) {n : Nat} (h : n < 8) {vector : U32} (hv : vector ≠ SHADOW_MSM_TIMER_VECTOR) :
      SerialRoute ⟨mask, .looping n⟩ (.polled vector) ⟨mask, .returning⟩
  | full (mask : U32) : SerialRoute ⟨mask, .looping 8⟩ .left ⟨mask, .outside⟩
  | left (mask : U32) : SerialRoute ⟨mask, .returning⟩ .left ⟨mask, .outside⟩

/-! ### The operations exclude each other -/

/-- Between masking IRQs and restoring them. -/
def ChipCall.inside (f : ChipCall) : Bool :=
  match f.place with
  | .clear | .irqSave => false
  | _ => true

/-- The lock is held. -/
def ChipCall.locks (f : ChipCall) : Bool :=
  match f.place with
  | .read | .write | .unlock => true
  | _ => false

/-- What holds of the operation that runs. -/
structure Sound (c : Shared) (f : ChipCall) : Prop where
  irqs : f.inside = true → c.irqs = false
  lock : c.locked = f.locks
  value : f.place = .write → f.value = f.op.apply c.mask

/-- The operation that runs, if there is one, is sound; without it the lock is free. -/
def Settled (c : Shared) : Option ChipCall → Prop
  | none => c.locked = false
  | some f => Sound c f

/-- A step keeps the register or updates it at once. -/
def Shows (mask : U32) (o : Option RouteEvent) (mask' : U32) : Prop :=
  (o = none ∧ mask' = mask) ∨ ∃ e, o = some e ∧ ∀ p, SerialRoute ⟨mask, p⟩ e ⟨mask', p⟩

section

variable {c c' : Shared} {f : ChipCall} {f' : Option ChipCall} {o : Option RouteEvent}

theorem inside_of_locks (h : f.inside = false) : f.locks = false := by
  rw [ChipCall.inside] at h
  rw [ChipCall.locks]
  cases hp : f.place <;> simp [hp] at h ⊢

theorem inside_call (op : ChipOp) : op.call.inside = false := by
  cases op <;> rfl

theorem settled_of_rest (hlock : c.locked = false) (h : ∀ f, f' = some f → f.inside = false) : Settled c f' := by
  cases f' with
  | none => exact hlock
  | some f =>
    have hrest := h f rfl
    refine ⟨fun hin => absurd hin (by rw [hrest]; exact Bool.false_ne_true), hlock.trans (inside_of_locks hrest).symm, ?_⟩
    intro hp
    rw [ChipCall.inside, hp] at hrest
    cases hrest

/-- An operation that is called finds the lock free. -/
theorem settled_call (hlock : c.locked = false) (op : ChipOp) : Settled c (some op.call) :=
  settled_of_rest hlock fun f hf => by cases hf; exact inside_call op

/-- With IRQs on nothing is between masking and restoring. -/
theorem Settled.of_irqs (h : Settled c f') (hi : c.irqs = true) :
    c.locked = false ∧ ∀ f, f' = some f → f.inside = false := by
  cases f' with
  | none => exact ⟨h, nofun⟩
  | some f =>
    have hrest : f.inside = false := by
      rw [← Bool.not_eq_true]
      intro hin
      rw [h.irqs hin] at hi
      cases hi
    exact ⟨h.lock.trans (inside_of_locks hrest), fun g hg => by cases hg; exact hrest⟩

theorem Sound.exec (h : Sound c f) (hx : f.exec c = (f', c', o)) : Settled c' f' ∧ Shows c.mask o c'.mask := by
  obtain ⟨hirqs, hlock, hvalue⟩ := h
  rw [ChipCall.inside] at hirqs
  rw [ChipCall.locks] at hlock
  rw [ChipCall.exec] at hx
  cases hp : f.place with
  | clear =>
    rw [hp] at hx hlock
    cases hx
    exact ⟨hlock, .inr ⟨_, rfl, fun p => .acked _⟩⟩
  | irqSave =>
    rw [hp] at hx hlock
    cases hx
    exact ⟨⟨fun _ => rfl, hlock, nofun⟩, .inl ⟨rfl, rfl⟩⟩
  | lock =>
    rw [hp] at hx hlock hirqs
    -- the lock is free, so that nothing spins
    simp only [show c.locked = false from hlock, Bool.false_eq_true, if_false] at hx
    cases hx
    exact ⟨⟨fun _ => hirqs rfl, rfl, nofun⟩, .inl ⟨rfl, rfl⟩⟩
  | read =>
    rw [hp] at hx hlock hirqs
    cases hx
    exact ⟨⟨fun _ => hirqs rfl, hlock, fun _ => rfl⟩, .inl ⟨rfl, rfl⟩⟩
  | write =>
    rw [hp] at hx hlock hirqs
    cases hx
    refine ⟨⟨fun _ => hirqs rfl, hlock, nofun⟩, .inr ⟨_, rfl, fun p => ?_⟩⟩
    rw [show f.value = f.op.apply c.mask from hvalue hp]
    exact .updated ⟨c.mask, p⟩ f.op
  | unlock =>
    rw [hp] at hx hirqs
    cases hx
    exact ⟨⟨fun _ => hirqs rfl, rfl, nofun⟩, .inl ⟨rfl, rfl⟩⟩
  | irqRestore =>
    rw [hp] at hx hlock
    cases hx
    exact ⟨hlock, .inl ⟨rfl, rfl⟩⟩

/-- Where IRQs have been masked before, an operation leaves them so. -/
theorem exec_masked (hi : c.irqs = false) (hf : f.inside = true → f.flags = false) (hx : f.exec c = (f', c', o)) :
    c'.irqs = false ∧ ∀ g, f' = some g → g.inside = true → g.flags = false := by
  rw [ChipCall.inside] at hf
  rw [ChipCall.exec] at hx
  cases hp : f.place with
  | lock =>
    rw [hp] at hx hf
    dsimp only at hx
    split at hx
    · cases hx
      exact ⟨hi, fun g hg _ => by cases hg; exact hf rfl⟩
    · cases hx
      exact ⟨hi, fun g hg _ => by cases hg; exact hf rfl⟩
  | clear =>
    rw [hp] at hx
    cases hx
    exact ⟨hi, nofun⟩
  | irqSave =>
    rw [hp] at hx
    cases hx
    exact ⟨rfl, fun g hg _ => by cases hg; exact hi⟩
  | irqRestore =>
    rw [hp] at hx hf
    cases hx
    exact ⟨hf rfl, nofun⟩
  | read | write | unlock =>
    rw [hp] at hx hf
    cases hx
    exact ⟨hi, fun g hg _ => by cases hg; exact hf rfl⟩

end

/-! ### Runs -/

/-- The operation that runs: that of the handler, or of the current thread. -/
def Processor.active (k : Processor T) : Option ChipCall :=
  match k.handler with
  | some f => f.call
  | none => k.call k.current

/-- What the handler has come to. -/
def polling : Option Handler → Polling
  | none => .outside
  | some f =>
    match f.place with
    | .loop | .handling => .looping f.guard
    | .calls => .calling f.guard
    | .returns => .returning

/-- A handler that runs. -/
structure Handler.Fit (f : Handler) (c : Shared) : Prop where
  irqs : c.irqs = false
  call : ∀ g, f.call = some g → f.place = .handling ∧ (g.inside = true → g.flags = false)
  guard : f.guard ≤ 8

/-- Only the operation that runs is between masking and restoring. -/
structure Guarded (k : Processor T) (r : Route) : Prop where
  route : r = ⟨k.shared.mask, polling k.handler⟩
  resting : ∀ t f, k.call t = some f → t ≠ k.current ∨ k.handler ≠ none → f.inside = false
  active : Settled k.shared k.active
  handler : ∀ f, k.handler = some f → f.Fit k.shared

variable {k k' : Processor T} {r : Route} {o : Option RouteEvent} {l : List RouteEvent}

theorem guarded_start (t : T) (irqs : Bool) (mask : U32) :
    Guarded (Processor.start t irqs mask) ⟨mask, .outside⟩ := ⟨rfl, nofun, rfl, nofun⟩

theorem Processor.active_of_none (h : k.handler = none) : k.active = k.call k.current := by rw [Processor.active, h]

theorem Processor.active_of_some {f : Handler} (h : k.handler = some f) : k.active = f.call := by rw [Processor.active, h]

/-- Outside `generic_handle_domain_irq` the handler is in no operation. -/
theorem Handler.Fit.call_none {f : Handler} {c : Shared} (h : f.Fit c) (hp : f.place ≠ .handling) : f.call = none := by
  cases hc : f.call with
  | none => rfl
  | some g => exact absurd (h.call g hc).1 hp

/-- With IRQs on no thread is between masking and restoring, and no handler runs. -/
theorem Guarded.of_irqs (h : Guarded k r) (hi : k.shared.irqs = true) :
    k.handler = none ∧ k.shared.locked = false ∧ ∀ t f, k.call t = some f → f.inside = false := by
  have hnone : k.handler = none := by
    cases hh : k.handler with
    | none => rfl
    | some f =>
      have hoff := (h.handler f hh).irqs
      rw [hi] at hoff
      cases hoff
  obtain ⟨hlock, hcurrent⟩ := h.active.of_irqs hi
  refine ⟨hnone, hlock, fun t f hf => ?_⟩
  by_cases ht : t = k.current
  · refine hcurrent f ?_
    rw [Processor.active_of_none hnone, ← ht]
    exact hf
  · exact h.resting t f hf (.inl ht)

/-- The handler goes on. -/
theorem Guarded.handle (h : Guarded k r) {f f' : Handler} (hh : k.handler = some f) {c : Shared}
    (hs : Settled c f'.call) (hf : f'.Fit c) :
    Guarded { k with shared := c, handler := some f' } ⟨c.mask, polling (some f')⟩ := by
  refine ⟨rfl, fun t g hg _ => h.resting t g hg (.inr (by rw [hh]; exact Option.some_ne_none f)), hs, fun g hg => ?_⟩
  cases hg
  exact hf

/-- What an operation shows is a step of the route. -/
theorem Guarded.shows (h : Guarded k r) {mask : U32} (ho : Shows k.shared.mask o mask) :
    (o = none ∧ (⟨mask, r.polling⟩ : Route) = r) ∨ ∃ e, o = some e ∧ SerialRoute r e ⟨mask, r.polling⟩ := by
  have hr := h.route
  rcases ho with ⟨rfl, rfl⟩ | ⟨e, rfl, hserial⟩
  · left
    rw [hr]
    exact ⟨rfl, rfl⟩
  · right
    refine ⟨e, rfl, ?_⟩
    rw [hr]
    exact hserial _

/-- The operation of the handler goes on. -/
theorem Guarded.coreExec (h : Guarded k r) {f : Handler} (hh : k.handler = some f) {g : ChipCall} (hc : f.call = some g)
    {g' : Option ChipCall} {c : Shared} (hx : g.exec k.shared = (g', c, o)) :
    Guarded { k with shared := c, handler := some { f with call := g' } } ⟨c.mask, r.polling⟩ ∧
      Shows k.shared.mask o c.mask := by
  have hg := h.active
  obtain ⟨hi, hcall, hguard⟩ := h.handler f hh
  rw [Processor.active_of_some hh, hc] at hg
  obtain ⟨hp, hflags⟩ := hcall g hc
  obtain ⟨hs, hshows⟩ := Sound.exec hg hx
  obtain ⟨hi', hflags'⟩ := exec_masked hi hflags hx
  have hfit : Handler.Fit { f with call := g' } c := ⟨hi', fun g₁ hg₁ => ⟨hp, hflags' g₁ hg₁⟩, hguard⟩
  refine ⟨?_, hshows⟩
  rw [h.route, hh]
  exact h.handle hh hs hfit

/-- The loop reads the active vector. -/
theorem Guarded.poll (h : Guarded k r) {f : Handler} (hh : k.handler = some f) (hp : f.place = .loop) (hg : f.guard < 8)
    (vector : U32) : ∃ r', SerialRoute r (.polled vector) r' ∧ Guarded { k with handler := some (f.poll vector) } r' := by
  have hfit := h.handler f hh
  have hnone := hfit.call_none (by rw [hp]; nofun)
  have hfree := h.active
  rw [Processor.active_of_some hh, hnone] at hfree
  have hpoll : f.poll vector = ⟨f.guard + 1, if vector = SHADOW_MSM_TIMER_VECTOR then .calls else .returns, none⟩ := by
    rw [Handler.poll, hnone]
    by_cases hv : vector = SHADOW_MSM_TIMER_VECTOR
    · rw [hv, if_neg (by decide), if_neg (not_not.mpr rfl), if_pos rfl]
    · rw [if_pos hv, ite_self, if_neg hv]
  have hroute : r = ⟨k.shared.mask, .looping f.guard⟩ := by
    rw [h.route, hh, polling, hp]
  rw [hpoll, hroute]
  refine ⟨_, ?_, h.handle hh hfree ⟨hfit.irqs, nofun, hg⟩⟩
  by_cases hv : vector = SHADOW_MSM_TIMER_VECTOR
  · rw [if_pos hv, hv]
    exact .timer _ hg
  · rw [if_neg hv]
    exact .other _ hg hv

/-- The interrupt is handed over. -/
theorem Guarded.hand (h : Guarded k r) {f : Handler} (hh : k.handler = some f) (hp : f.place = .calls) :
    ∃ r', SerialRoute r (.handed SHADOW_MSM_TIMER_IRQ) r' ∧
      Guarded { k with handler := some { f with place := .handling } } r' := by
  have hfit := h.handler f hh
  have hnone := hfit.call_none (by rw [hp]; nofun)
  have hfree := h.active
  rw [Processor.active_of_some hh, hnone] at hfree
  have hroute : r = ⟨k.shared.mask, .calling f.guard⟩ := by
    rw [h.route, hh, polling, hp]
  have hfit' : Handler.Fit { f with place := .handling } k.shared := by
    refine ⟨hfit.irqs, fun g hg => ?_, hfit.guard⟩
    rw [hnone] at hg
    cases hg
  have hs : Settled k.shared f.call := by
    rw [hnone]
    exact hfree
  rw [hroute]
  exact ⟨_, .handed _ _, h.handle hh hs hfit'⟩

/-- The handler is left, and the thread that it has interrupted goes on. -/
theorem Guarded.leave (h : Guarded k r) {f : Handler} (hh : k.handler = some f)
    (hp : f.place = .returns ∨ f.place = .loop ∧ ¬ f.guard < 8) :
    ∃ r', SerialRoute r .left r' ∧ Guarded { k with shared := { k.shared with irqs := true }, handler := none } r' := by
  have hfit := h.handler f hh
  have hnone : f.call = none := by
    refine hfit.call_none fun hplace => ?_
    rcases hp with hp | ⟨hp, -⟩
    · rw [hp] at hplace
      cases hplace
    · rw [hp] at hplace
      cases hplace
  have hfree := h.active
  rw [Processor.active_of_some hh, hnone] at hfree
  have hrest : ∀ t g, k.call t = some g → g.inside = false :=
    fun t g hg => h.resting t g hg (.inr (by rw [hh]; exact Option.some_ne_none f))
  refine ⟨⟨k.shared.mask, .outside⟩, ?_, rfl, fun t g hg _ => hrest t g hg, settled_of_rest hfree (hrest k.current), nofun⟩
  rw [h.route, hh, polling]
  rcases hp with hp | ⟨hp, hg⟩
  · rw [hp]
    exact .left _
  · have hfull : f.guard = 8 := by
      have := hfit.guard
      omega
    rw [hp, hfull]
    exact .full _

/-- What holds of the operations that are under way, and of the handler. -/
structure Orderly (k : Processor T) : Prop where
  /-- A thread that is between masking and restoring runs, with IRQs masked. -/
  alone : ∀ t f, k.call t = some f → f.inside = true → t = k.current ∧ k.handler = none ∧ k.shared.irqs = false
  /-- An operation that is to take the lock finds it free. -/
  free : ∀ f, k.active = some f → f.place = .lock → k.shared.locked = false
  masked : ∀ f, k.handler = some f → k.shared.irqs = false

theorem Guarded.orderly (h : Guarded k r) : Orderly k := by
  refine ⟨fun t f hf hin => ?_, fun f hf hp => ?_, fun f hf => (h.handler f hf).irqs⟩
  · have hrest : ¬ (t ≠ k.current ∨ k.handler ≠ none) := by
      intro hne
      rw [h.resting t f hf hne] at hin
      cases hin
    rw [not_or, not_not, not_not] at hrest
    obtain ⟨ht, hh⟩ := hrest
    have hactive := h.active
    rw [Processor.active_of_none hh, ← ht, hf] at hactive
    exact ⟨ht, hh, hactive.irqs hin⟩
  · have hactive := h.active
    rw [hf] at hactive
    exact hactive.lock.trans (by rw [ChipCall.locks, hp])

theorem Guarded.preempt (h : Guarded k r) (hi : k.shared.irqs = true) (t : T) : Guarded { k with current := t } r := by
  obtain ⟨hh, hlock, hrest⟩ := h.of_irqs hi
  refine ⟨h.route, fun t f hf _ => hrest t f hf, ?_, h.handler⟩
  rw [Processor.active_of_none (k := { k with current := t }) hh]
  exact settled_of_rest hlock (hrest t)

theorem Guarded.other (h : Guarded k r) (hh : k.handler = none) (hc : k.call k.current = none) (irqs : Bool) :
    Guarded { k with shared := { k.shared with irqs := irqs } } r := by
  have hfree := h.active
  rw [Processor.active_of_none hh, hc] at hfree
  refine ⟨h.route, h.resting, ?_, fun f hf => ?_⟩
  · rw [Processor.active_of_none (k := { k with shared := { k.shared with irqs := irqs } }) hh]
    exact hc.symm ▸ hfree
  · rw [hh] at hf
    cases hf

/-- The interrupt core calls an operation. -/
theorem Guarded.coreCall (h : Guarded k r) {f : Handler} (hh : k.handler = some f) (hp : f.place = .handling)
    (hc : f.call = none) (op : ChipOp) : Guarded { k with handler := some { f with call := some op.call } } r := by
  have hfree := h.active
  obtain ⟨hi, -, hguard⟩ := h.handler f hh
  rw [Processor.active_of_some hh, hc] at hfree
  have hfit : Handler.Fit { f with call := some op.call } k.shared := by
    refine ⟨hi, fun g hg => ⟨hp, fun hin => ?_⟩, hguard⟩
    cases hg
    rw [inside_call] at hin
    cases hin
  rw [h.route, hh]
  exact h.handle hh (settled_call hfree op) hfit

/-- The interrupt core is done, and the handler is back in its loop. -/
theorem Guarded.handled (h : Guarded k r) {f : Handler} (hh : k.handler = some f) (hp : f.place = .handling)
    (hc : f.call = none) : Guarded { k with handler := some { f with place := .loop } } r := by
  have hfree := h.active
  obtain ⟨hi, -, hguard⟩ := h.handler f hh
  rw [Processor.active_of_some hh] at hfree
  have hpolling : polling (some f) = polling (some { f with place := .loop }) := by rw [polling, polling, hp]
  have hfit : Handler.Fit { f with place := .loop } k.shared := by
    refine ⟨hi, fun g hg => ?_, hguard⟩
    rw [hc] at hg
    cases hg
  rw [h.route, hh, hpolling]
  exact h.handle hh hfree hfit

theorem Guarded.enter (h : Guarded k r) (hi : k.shared.irqs = true) :
    ∃ r', SerialRoute r .entered r' ∧
      Guarded { k with shared := { k.shared with irqs := false }, handler := some ⟨0, .loop, none⟩ } r' := by
  obtain ⟨hh, hlock, hrest⟩ := h.of_irqs hi
  refine ⟨⟨k.shared.mask, .looping 0⟩, ?_, rfl, fun t f hf _ => hrest t f hf, hlock, fun f hf => ?_⟩
  · rw [h.route, hh]
    exact .entered _
  · cases hf
    exact ⟨rfl, nofun, Nat.zero_le 8⟩

variable [DecidableEq T]

theorem Processor.setCall_current (k : Processor T) (f : Option ChipCall) : k.setCall f k.current = f :=
  Function.update_self _ _ _

theorem Processor.setCall_of_ne (k : Processor T) (f : Option ChipCall) {t : T} (h : t ≠ k.current) :
    k.setCall f t = k.call t := Function.update_of_ne h _ _

/-- The current thread, which no handler interrupts, goes on with another operation. -/
theorem Guarded.set (h : Guarded k r) (hh : k.handler = none) {c : Shared} {f : Option ChipCall} (hs : Settled c f) :
    Guarded { k with shared := c, call := k.setCall f } ⟨c.mask, r.polling⟩ := by
  refine ⟨by rw [h.route], fun t g hg ht => ?_, ?_, fun g hg => ?_⟩
  · have hne : t ≠ k.current := ht.resolve_right fun hne => hne hh
    have hg : k.setCall f t = some g := hg
    rw [k.setCall_of_ne f hne] at hg
    exact h.resting t g hg (.inl hne)
  · rw [Processor.active]
    simp only [hh, k.setCall_current]
    exact hs
  · rw [hh] at hg
    cases hg

/-- The operation of the current thread goes on. -/
theorem Guarded.exec (h : Guarded k r) (hh : k.handler = none) {f : ChipCall} (hc : k.call k.current = some f)
    {f' : Option ChipCall} {c : Shared} (hx : f.exec k.shared = (f', c, o)) :
    Guarded { k with shared := c, call := k.setCall f' } ⟨c.mask, r.polling⟩ ∧ Shows k.shared.mask o c.mask := by
  have hf := h.active
  rw [Processor.active_of_none hh, hc] at hf
  obtain ⟨hs, hshows⟩ := Sound.exec hf hx
  exact ⟨h.set hh hs, hshows⟩

/-- An operation is called by the current thread. -/
theorem Guarded.call (h : Guarded k r) (hh : k.handler = none) (hc : k.call k.current = none) (op : ChipOp) :
    Guarded { k with call := k.setCall (some op.call) } r := by
  have hfree := h.active
  rw [Processor.active_of_none hh, hc] at hfree
  have hset := h.set hh (settled_call hfree op)
  rwa [show (⟨k.shared.mask, r.polling⟩ : Route) = r by rw [h.route]] at hset

theorem simulates_route : Simulates (fun k o k' => RouteStep (T := T) k o k') SerialRoute Guarded where
  hidden := by
    intro k k' r hs h
    generalize ho : none = o at hs
    cases hs with
    | call hh hc op => exact h.call hh hc op
    | exec hh hc hx =>
      obtain ⟨hset, hshows⟩ := h.exec hh hc hx
      rcases h.shows hshows with ⟨-, heq⟩ | ⟨e, rfl, -⟩
      · rwa [heq] at hset
      · cases ho
    | preempt hi t => exact h.preempt hi t
    | other hh hc irqs => exact h.other hh hc irqs
    | coreCall hh hp hc op => exact h.coreCall hh hp hc op
    | coreExec hh hc hx =>
      obtain ⟨hset, hshows⟩ := h.coreExec hh hc hx
      rcases h.shows hshows with ⟨-, heq⟩ | ⟨e, rfl, -⟩
      · rwa [heq] at hset
      · cases ho
    | handled hh hp hc => exact h.handled hh hp hc
    | _ => cases ho
  shown := by
    intro k e k' r hs h
    generalize ho : some e = o at hs
    cases hs with
    | exec hh hc hx =>
      obtain ⟨hset, hshows⟩ := h.exec hh hc hx
      rcases h.shows hshows with ⟨rfl, -⟩ | ⟨e', rfl, hserial⟩
      · cases ho
      · cases ho
        exact ⟨_, hserial, hset⟩
    | coreExec hh hc hx =>
      obtain ⟨hset, hshows⟩ := h.coreExec hh hc hx
      rcases h.shows hshows with ⟨rfl, -⟩ | ⟨e', rfl, hserial⟩
      · cases ho
      · cases ho
        exact ⟨_, hserial, hset⟩
    | enter hi =>
      cases ho
      exact h.enter hi
    | poll hh hp hg vector =>
      cases ho
      exact h.poll hh hp hg vector
    | hand hh hp =>
      cases ho
      exact h.hand hh hp
    | leave hh hp =>
      cases ho
      exact h.leave hh hp
    | _ => cases ho

/-! ### What a run shows -/

/-- The values that the timer's bit of the mask register is given. -/
def switched (l : List RouteEvent) : List Bool :=
  l.filterMap fun
    | .updated .mask => some false
    | .updated .unmask => some true
    | _ => none

/-- What each run of the handler has read and handed over, the last run first. -/
def interrupts (l : List RouteEvent) : List (List RouteEvent) :=
  l.foldl (fun runs e =>
    match e, runs with
    | .entered, runs => [] :: runs
    | .polled _, last :: earlier | .handed _, last :: earlier => (last ++ [e]) :: earlier
    | _, runs => runs) []

/-- The timer's vector is read `n` times, and each time its interrupt is handed over before the next reading. -/
def asked (n : Nat) : List RouteEvent :=
  (List.replicate n [.polled SHADOW_MSM_TIMER_VECTOR, .handed SHADOW_MSM_TIMER_IRQ]).flatten

/-- What a run of the handler shows, by what it has come to. -/
inductive HandlerRun : Polling → List RouteEvent → Prop
  | looping {n : Nat} (h : n ≤ 8) : HandlerRun (.looping n) (asked n)
  | calling {n : Nat} (h : n < 8) : HandlerRun (.calling (n + 1)) (asked n ++ [.polled SHADOW_MSM_TIMER_VECTOR])
  | returning {n : Nat} (h : n < 8) {v : U32} (hv : v ≠ SHADOW_MSM_TIMER_VECTOR) :
      HandlerRun .returning (asked n ++ [.polled v])
  | full : HandlerRun .outside (asked 8)
  | left {n : Nat} (h : n < 8) {v : U32} (hv : v ≠ SHADOW_MSM_TIMER_VECTOR) : HandlerRun .outside (asked n ++ [.polled v])

/-- The runs of the handler are whole ones, but for the last one where the handler still runs. -/
inductive Handled : Polling → List (List RouteEvent) → Prop
  | none : Handled .outside []
  | runs {p : Polling} {last : List RouteEvent} {earlier : List (List RouteEvent)} (hl : HandlerRun p last)
      (he : ∀ x ∈ earlier, HandlerRun .outside x) : Handled p (last :: earlier)

/-- Of the bits of the mask register only the timer's changes; it is what it has been given last. -/
def Kept (mask : U32) (bits : List Bool) (mask' : U32) : Prop :=
  ∀ i, mask'.getLsbD i = if i = 2 then bits.getLast?.getD (mask.getLsbD 2) else mask.getLsbD i

theorem getLsbD_timerBit {i : Nat} (hi : i < 32) : SHADOW_MSM_TIMER_BIT.getLsbD i = decide (i = 2) := by
  have hall : ∀ i : Fin 32, SHADOW_MSM_TIMER_BIT.getLsbD i = decide (i.1 = 2) := by decide
  exact hall ⟨i, hi⟩

theorem getLsbD_mask (value : U32) (i : Nat) :
    (ChipOp.mask.apply value).getLsbD i = (value.getLsbD i && decide (i ≠ 2)) := by
  rw [ChipOp.apply, BitVec.getLsbD_and, BitVec.getLsbD_not]
  by_cases hi : i < 32
  · rw [getLsbD_timerBit hi]
    simp [hi]
  · rw [BitVec.getLsbD_of_ge value i (by omega), Bool.false_and, Bool.false_and]

theorem getLsbD_unmask (value : U32) (i : Nat) :
    (ChipOp.unmask.apply value).getLsbD i = (value.getLsbD i || decide (i = 2)) := by
  rw [ChipOp.apply, BitVec.getLsbD_or]
  by_cases hi : i < 32
  · rw [getLsbD_timerBit hi]
  · have h2 : i ≠ 2 := by omega
    rw [BitVec.getLsbD_of_ge value i (by omega), BitVec.getLsbD_of_ge _ i (by omega), decide_eq_false h2]

/-- An update gives the bit its value. -/
theorem Kept.update {mask mask' : U32} {bits : List Bool} (h : Kept mask bits mask') (op : ChipOp) :
    Kept mask (bits ++ switched [.updated op]) (op.apply mask') := by
  intro i
  have hi := h i
  cases op with
  | ack =>
    rw [show switched [.updated .ack] = [] from rfl, List.append_nil]
    exact hi
  | mask =>
    rw [getLsbD_mask, hi, show switched [.updated .mask] = [false] from rfl, List.getLast?_concat, Option.getD_some]
    by_cases h2 : i = 2
    · simp [h2]
    · simp [h2]
  | unmask =>
    rw [getLsbD_unmask, hi, show switched [.updated .unmask] = [true] from rfl, List.getLast?_concat, Option.getD_some]
    by_cases h2 : i = 2
    · simp [h2]
    · simp [h2]

theorem interrupts_concat (l : List RouteEvent) (e : RouteEvent) : interrupts (l ++ [e]) =
    match e, interrupts l with
    | .entered, runs => [] :: runs
    | .polled _, last :: earlier | .handed _, last :: earlier => (last ++ [e]) :: earlier
    | _, runs => runs := by
  rw [interrupts, List.foldl_append]
  rfl

theorem asked_succ (n : Nat) :
    asked (n + 1) = asked n ++ [.polled SHADOW_MSM_TIMER_VECTOR, .handed SHADOW_MSM_TIMER_IRQ] := by
  rw [asked, List.replicate_succ', List.flatten_append, List.flatten_singleton, asked]

theorem count_asked (n : Nat) : (asked n).count (.polled SHADOW_MSM_TIMER_VECTOR) = n ∧
    (asked n).count (.handed SHADOW_MSM_TIMER_IRQ) = n := by
  induction n with
  | zero => exact ⟨rfl, rfl⟩
  | succ n ih =>
    rw [asked_succ, List.count_append, List.count_append, ih.1, ih.2]
    exact ⟨rfl, rfl⟩

/-- A whole run has handed over the interrupts of the timer's vectors that it has read. -/
theorem HandlerRun.handed {x : List RouteEvent} (h : HandlerRun .outside x) :
    x.count (.handed SHADOW_MSM_TIMER_IRQ) = x.count (.polled SHADOW_MSM_TIMER_VECTOR) ∧
      x.count (.polled SHADOW_MSM_TIMER_VECTOR) ≤ 8 := by
  cases h with
  | full =>
    rw [(count_asked 8).1, (count_asked 8).2]
    exact ⟨rfl, Nat.le_refl 8⟩
  | @left n hn v hv =>
    have hpolled : [RouteEvent.polled v].count (.polled SHADOW_MSM_TIMER_VECTOR) = 0 :=
      List.count_eq_zero.mpr fun hmem => hv (RouteEvent.polled.inj (List.mem_singleton.mp hmem)).symm
    have hhanded : [RouteEvent.polled v].count (.handed SHADOW_MSM_TIMER_IRQ) = 0 :=
      List.count_eq_zero.mpr fun hmem => nomatch List.mem_singleton.mp hmem
    rw [List.count_append, List.count_append, hpolled, hhanded, (count_asked n).1, (count_asked n).2]
    exact ⟨rfl, Nat.le_of_lt hn⟩

theorem Handled.whole {runs : List (List RouteEvent)} (h : Handled .outside runs) :
    ∀ x ∈ runs, HandlerRun .outside x := by
  cases h with
  | none => nofun
  | runs hl he => exact List.forall_mem_cons.mpr ⟨hl, he⟩

theorem chain_route {mask : U32} {r : Route} (h : Chain SerialRoute ⟨mask, .outside⟩ l r) :
    Kept mask (switched l) r.mask ∧ Handled r.polling (interrupts l) := by
  induction h with
  | nil => exact ⟨fun i => by by_cases h2 : i = 2 <;> simp [switched, h2], .none⟩
  | @snoc l e r r' _ hs ih =>
    obtain ⟨hkept, hruns⟩ := ih
    have hsplit : switched (l ++ [e]) = switched l ++ switched [e] := List.filterMap_append
    rw [hsplit, interrupts_concat]
    cases hs with
    | acked => exact ⟨(List.append_nil (switched l)).symm ▸ hkept, hruns⟩
    | updated => exact ⟨hkept.update _, hruns⟩
    | entered => exact ⟨(List.append_nil (switched l)).symm ▸ hkept, .runs (.looping (Nat.zero_le 8)) hruns.whole⟩
    | timer _ hn =>
      refine ⟨(List.append_nil (switched l)).symm ▸ hkept, ?_⟩
      generalize interrupts l = runs at hruns ⊢
      obtain _ | ⟨⟨-⟩, he⟩ := hruns
      exact .runs (.calling hn) he
    | handed =>
      refine ⟨(List.append_nil (switched l)).symm ▸ hkept, ?_⟩
      generalize interrupts l = runs at hruns ⊢
      obtain _ | ⟨hl, he⟩ := hruns
      cases hl with
      | @calling n hn =>
        refine .runs ?_ he
        rw [List.append_assoc]
        exact asked_succ n ▸ .looping hn
    | other _ hn hv =>
      refine ⟨(List.append_nil (switched l)).symm ▸ hkept, ?_⟩
      generalize interrupts l = runs at hruns ⊢
      obtain _ | ⟨⟨-⟩, he⟩ := hruns
      exact .runs (.returning hn hv) he
    | full =>
      refine ⟨(List.append_nil (switched l)).symm ▸ hkept, ?_⟩
      generalize interrupts l = runs at hruns ⊢
      obtain _ | ⟨⟨-⟩, he⟩ := hruns
      exact .runs .full he
    | left =>
      refine ⟨(List.append_nil (switched l)).symm ▸ hkept, ?_⟩
      generalize interrupts l = runs at hruns ⊢
      obtain _ | ⟨hl, he⟩ := hruns
      cases hl with
      | returning hn hv => exact .runs (.left hn hv) he

/-- However threads and interrupts interleave: nothing waits for the lock, no update of the mask register is lost and none
of its other bits ever changes, and each run of the handler hands the kernel the timer's interrupts that it reads before
another vector, eight at most, each before it reads on. -/
theorem route_orderly {t : T} {irqs : Bool} {mask : U32}
    (h : Run (fun k o k' => RouteStep k o k') (Processor.start t irqs mask) l k) :
    Orderly k ∧ Kept mask (switched l) k.shared.mask ∧ Handled (polling k.handler) (interrupts l) ∧
    (k.handler = none → ∀ x ∈ interrupts l,
      x.count (.handed SHADOW_MSM_TIMER_IRQ) = x.count (.polled SHADOW_MSM_TIMER_VECTOR) ∧
        x.count (.polled SHADOW_MSM_TIMER_VECTOR) ≤ 8) := by
  obtain ⟨r, hchain, hguarded⟩ := simulates_route.run h (guarded_start t irqs mask)
  obtain ⟨hkept, hruns⟩ := chain_route hchain
  rw [hguarded.route] at hkept hruns
  refine ⟨hguarded.orderly, hkept, hruns, fun hnone x hx => ?_⟩
  rw [hnone] at hruns
  exact (hruns.whole x hx).handed

/-- A step of the operation that runs. -/
def Processor.exec (k : Processor T) : Option (Processor T × Option RouteEvent) := do
  let f ← k.active
  let (f', c, o) := f.exec k.shared
  return (match k.handler with
    | some h => { k with shared := c, handler := some { h with call := f' } }
    | none => { k with shared := c, call := k.setCall f' }, o)

theorem step_exec (h : k.exec = some (k', o)) : RouteStep k o k' := by
  obtain ⟨f, hf, h⟩ := Option.bind_eq_some_iff.mp h
  rcases hx : f.exec k.shared with ⟨f', c, o'⟩
  simp only [hx] at h
  cases hh : k.handler with
  | none =>
    rw [Processor.active_of_none hh] at hf
    have hs := RouteStep.exec hh hf hx
    simp only [hh] at h hs
    cases h
    exact hs
  | some g =>
    rw [Processor.active_of_some hh] at hf
    simp only [hh] at h
    cases h
    exact .coreExec hh hf hx

theorem run_execs {k₀ : Processor T} {n : Nat} {l' : List RouteEvent}
    (h : Run (fun k o k' => RouteStep k o k') k₀ l k) (hx : execs Processor.exec n k = some (k', l')) :
    Run (fun k o k' => RouteStep k o k') k₀ (l ++ l') k' := h.execs (fun _ _ _ => step_exec) hx

/-- A thread that is to mask the timer is interrupted by it, before it masks IRQs; the interrupt core acknowledges and
unmasks it.  Another interrupt comes when the thread has masked it. -/
theorem run_interrupted : ∃ k l, Run (fun k o k' => RouteStep k o k') (Processor.start false true 0xf0) l k ∧
    k.handler = none ∧ k.shared.mask = 0xf0 ∧ switched l = [true, false] ∧
    interrupts l = [[.polled SHADOW_MSM_SPURIOUS_VECTOR], [.polled SHADOW_MSM_TIMER_VECTOR, .handed SHADOW_MSM_TIMER_IRQ,
      .polled SHADOW_MSM_SPURIOUS_VECTOR]] := by
  have h : Run (fun k o k' => RouteStep k o k') (Processor.start false true 0xf0) [] _ :=
    .snoc .nil (RouteStep.call rfl rfl .mask)
  have h := h.snoc (RouteStep.enter rfl)
  have h := h.snoc (RouteStep.poll rfl rfl (by decide) SHADOW_MSM_TIMER_VECTOR)
  have h := h.snoc (RouteStep.hand rfl rfl)
  have h := h.snoc (RouteStep.coreCall rfl rfl rfl .ack)
  have h := run_execs (n := 1) h rfl
  have h := h.snoc (RouteStep.coreCall rfl rfl rfl .unmask)
  have h := run_execs (n := 6) h rfl
  have h := h.snoc (RouteStep.handled rfl rfl rfl)
  have h := h.snoc (RouteStep.poll rfl rfl (by decide) SHADOW_MSM_SPURIOUS_VECTOR)
  have h := h.snoc (RouteStep.leave rfl (.inl rfl))
  have h := run_execs (n := 6) h rfl
  have h := h.snoc (RouteStep.enter rfl)
  have h := h.snoc (RouteStep.poll rfl rfl (by decide) SHADOW_MSM_SPURIOUS_VECTOR)
  have h := h.snoc (RouteStep.leave rfl (.inl rfl))
  exact ⟨_, _, h, rfl, rfl, rfl, rfl⟩

theorem route_orderly_interrupted : ∃ (k : Processor Bool) (l : List RouteEvent), Orderly k ∧
    switched l = [true, false] ∧ k.shared.mask = 0xf0 ∧ Kept 0xf0 (switched l) k.shared.mask ∧
    interrupts l = [[.polled SHADOW_MSM_SPURIOUS_VECTOR], [.polled SHADOW_MSM_TIMER_VECTOR, .handed SHADOW_MSM_TIMER_IRQ,
      .polled SHADOW_MSM_SPURIOUS_VECTOR]] ∧ Handled .outside (interrupts l) ∧
    ∀ x ∈ interrupts l, x.count (.handed SHADOW_MSM_TIMER_IRQ) = x.count (.polled SHADOW_MSM_TIMER_VECTOR) ∧
      x.count (.polled SHADOW_MSM_TIMER_VECTOR) ≤ 8 := by
  obtain ⟨k, l, h, hnone, hmask, hswitched, hinterrupts⟩ := run_interrupted
  obtain ⟨horderly, hkept, hruns, hcounts⟩ := route_orderly h
  rw [hnone] at hruns
  exact ⟨k, l, horderly, hswitched, hmask, hkept, hinterrupts, hruns, hcounts hnone⟩

end ShadowMsm.Linux.Timer
