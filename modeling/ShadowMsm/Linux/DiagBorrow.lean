import ShadowMsm.Linux.DiagCalls

/-!
# The diagnostic calls exclude each other

Whatever threads call the driver, and wherever they are preempted, the calls take effect one at a time, resident code
and the mailbox are reached only under the page table of `init_mm` with IRQs masked, no thread ever waits for the
lock, and every call leaves the translation table base and the IRQ state as it found them.
-/

namespace ShadowMsm.Linux

open Arm Simulation

/-- The lock is held. -/
def DiagPlace.locked : DiagPlace → Bool
  | .serviceFirst | .irqSave | .lock | .irqRestore | .serviceLast => false
  | _ => true

/-- The map of `init_mm` has been borrowed and not yet been given back. -/
def DiagPlace.mapped : DiagPlace → Bool
  | .enter | .resident | .magic | .copy | .commit | .resetHead | .resetTail | .resetMagic | .giveBack => true
  | _ => false

/-- Nothing has been processed or copied yet. -/
def DiagFrame.Fresh (f : DiagFrame) : Prop := f.buffer = [] ∧ f.packet = none

/-- A call that is not between masking and restoring, and has done nothing if it is before. -/
def DiagFrame.Resting (f : DiagFrame) : Prop :=
  f.place = .serviceLast ∨ (f.place = .serviceFirst ∨ f.place = .irqSave) ∧ f.Fresh

/-- The end of `shadow_msm_diag_receive`, for the bytes copied so far and what the rest of the loop gives. -/
def committed (μ : Mem) (buffer : List (BitVec 8)) (rest : List (BitVec 8) × Word) : List (BitVec 8) × Mem :=
  (buffer ++ rest.1, if (buffer ++ rest.1).length ≠ 0 then store32 μ (SHADOW_MSM_INPUT_MAILBOX + 8) rest.2 else μ)

/-- What a call has done to the memory `μ₀` that it found. -/
def DiagFrame.Progress (P : Platform) (f : DiagFrame) (μ₀ μ : Mem) : Prop :=
  match f.place with
  | .lock | .readTtbr | .borrow => μ = μ₀ ∧ f.Fresh
  | .enter | .resident => μ = μ₀ ∧ f.Fresh ∧ f.call.body = .enter
  | .magic => f.buffer = [] ∧ ∃ limit, f.call = .receive limit ∧ P.dispatch f.packet μ₀ μ
  | .copy => ∃ limit, f.call = .receive limit ∧ P.dispatch f.packet μ₀ μ ∧
      shadowMsmDiagReceive μ limit = committed μ f.buffer (drain μ f.head f.tail (limit - f.buffer.length))
  | .commit => ∃ limit, f.call = .receive limit ∧ P.dispatch f.packet μ₀ μ ∧
      shadowMsmDiagReceive μ limit = (f.buffer, store32 μ (SHADOW_MSM_INPUT_MAILBOX + 8) f.tail)
  | .resetHead => f.call = .inputReset ∧ f.Fresh ∧ μ = μ₀
  | .resetTail => f.call = .inputReset ∧ f.Fresh ∧ μ = store32 μ₀ (SHADOW_MSM_INPUT_MAILBOX + 4) 0
  | .resetMagic => f.call = .inputReset ∧ f.Fresh ∧
      μ = store32 (store32 μ₀ (SHADOW_MSM_INPUT_MAILBOX + 4) 0) (SHADOW_MSM_INPUT_MAILBOX + 8) 0
  | .giveBack | .unlock | .irqRestore => Performs P f.call f.packet μ₀ f.buffer μ
  | .serviceFirst | .irqSave | .serviceLast => False

/-- A call of the thread `t` between masking and restoring, which found the translation table base `w` and the memory
`μ₀`. -/
structure Held {T : Type} (P : Platform) (t : T) (f : DiagFrame) (c : Cpu T) (w : Word) (μ₀ : Mem) : Prop where
  irqs : c.irqs = false
  lock : c.lock = if f.place.locked then some t else none
  ttbr : c.ttbr = if f.place.mapped && P.borrows w then P.initTtbr else w
  saved : f.place.locked → f.place ≠ .readTtbr → f.savedTtbr = w ∧ f.borrowed = P.borrows w
  progress : f.Progress P μ₀ c.mem

variable {T : Type} {P : Platform} {t : T} {f : DiagFrame} {f' : Option DiagFrame} {c c' : Cpu T}
  {o : Option (DiagEvent T)} {w : Word} {μ₀ : Mem}

theorem resting_frame (call : DiagCall) : call.frame.Resting := by
  cases call with
  | emit => exact .inr ⟨.inl rfl, rfl, rfl⟩
  | receive => exact .inr ⟨.inl rfl, rfl, rfl⟩
  | inputReset => exact .inr ⟨.inr rfl, rfl, rfl⟩

/-- One round of the copy loop. -/
theorem drain_succ (μ : Mem) {head tail : Word} (h : tail ≠ head) (n : Nat) :
    drain μ head tail (n + 1) = (μ (SHADOW_MSM_INPUT_MAILBOX + 12 + tail) ::
      (drain μ head ((tail + 1) &&& SHADOW_MSM_INPUT_RING_MASK) n).1,
      (drain μ head ((tail + 1) &&& SHADOW_MSM_INPUT_RING_MASK) n).2) := by
  rw [drain, if_pos h]

theorem drain_end (μ : Mem) {head tail : Word} {n : Nat} (h : ¬ (tail ≠ head ∧ 0 < n)) :
    drain μ head tail n = ([], tail) := by
  cases n with
  | zero => rfl
  | succ n => rw [drain, if_neg fun hne => h ⟨hne, Nat.succ_pos n⟩]

/-- The statements of `shadow_msm_diag_receive` before the copy loop. -/
theorem receive_of_magic {μ : Mem} (h : load32 μ SHADOW_MSM_INPUT_MAILBOX = SHADOW_MSM_INPUT_MAGIC) (limit : Nat) :
    shadowMsmDiagReceive μ limit = committed μ []
      (drain μ (load32 μ (SHADOW_MSM_INPUT_MAILBOX + 4) &&& SHADOW_MSM_INPUT_RING_MASK)
        (load32 μ (SHADOW_MSM_INPUT_MAILBOX + 8) &&& SHADOW_MSM_INPUT_RING_MASK) limit) := by
  rw [shadowMsmDiagReceive, if_pos h]
  rfl

theorem performs_receive {limit : Nat} {packet : Option (List (BitVec 8))} {μ μ' : Mem} {bytes : List (BitVec 8)}
    (hd : P.dispatch packet μ₀ μ) (h : shadowMsmDiagReceive μ limit = (bytes, μ')) :
    Performs P (.receive limit) packet μ₀ bytes μ' := by
  have := Performs.receive limit hd
  rwa [h] at this

theorem lock_watchdogService (c : Cpu T) : (P.watchdogService c).lock = c.lock := by
  rw [Platform.watchdogService]
  split <;> rfl

theorem mem_watchdogService (c : Cpu T) : (P.watchdogService c).mem = c.mem := by
  rw [Platform.watchdogService]
  split <;> rfl

/-! ### The body of a call -/

/-- A step under the borrowed map: only the place, the indices, the buffer and the memory change. -/
def Moves (P : Platform) (μ₀ : Mem) (f : DiagFrame) (c : Cpu T) (f' : Option DiagFrame) (c' : Cpu T)
    (o : Option (DiagEvent T)) : Prop :=
  o = none ∧ ∃ p head tail buffer μ, p.mapped ∧
    f' = some { f with place := p, head := head, tail := tail, buffer := buffer } ∧ c' = { c with mem := μ } ∧
      DiagFrame.Progress P { f with place := p, head := head, tail := tail, buffer := buffer } μ₀ μ

theorem moves_enter (h : f.Progress P μ₀ c.mem) (hp : f.place = .enter) (hx : f.exec P t c = some (f', c', o)) :
    Moves P μ₀ f c f' c' o := by
  rw [DiagFrame.Progress, hp] at h
  rw [DiagFrame.exec, hp] at hx
  cases hx
  exact ⟨rfl, .resident, _, _, _, _, rfl, rfl, rfl, h⟩

theorem moves_magic (h : f.Progress P μ₀ c.mem) (hp : f.place = .magic) (hx : f.exec P t c = some (f', c', o)) :
    Moves P μ₀ f c f' c' o := by
  rw [DiagFrame.Progress, hp] at h
  rw [DiagFrame.exec, hp] at hx
  obtain ⟨hbuffer, limit, hcall, hd⟩ := h
  simp only at hx
  split at hx
  · rename_i hmagic
    cases hx
    refine ⟨rfl, .copy, _, _, _, _, rfl, rfl, rfl, limit, hcall, hd, ?_⟩
    rw [receive_of_magic hmagic, hbuffer]
    rfl
  · rename_i hmagic
    cases hx
    refine ⟨rfl, .giveBack, _, _, _, _, rfl, rfl, rfl, ?_⟩
    change Performs P f.call f.packet μ₀ f.buffer _
    rw [hcall, hbuffer]
    exact performs_receive hd (by rw [shadowMsmDiagReceive, if_neg hmagic])

theorem moves_copy (h : f.Progress P μ₀ c.mem) (hp : f.place = .copy) (hx : f.exec P t c = some (f', c', o)) :
    Moves P μ₀ f c f' c' o := by
  rw [DiagFrame.Progress, hp] at h
  rw [DiagFrame.exec, hp] at hx
  obtain ⟨limit, hcall, hd, hrest⟩ := h
  have hlimit : f.call.limit = limit := by
    rw [hcall]
    rfl
  simp only [hlimit] at hx
  split at hx
  · rename_i hmore
    cases hx
    refine ⟨rfl, .copy, _, _, _, _, rfl, rfl, rfl, limit, hcall, hd, ?_⟩
    obtain ⟨n, hn⟩ : ∃ n, limit - f.buffer.length = n + 1 := ⟨limit - f.buffer.length - 1, by omega⟩
    have hn' : limit - (f.buffer ++ [c.mem (SHADOW_MSM_INPUT_MAILBOX + 12 + f.tail)]).length = n := by
      rw [List.length_append, List.length_singleton]
      omega
    rw [hrest, hn, drain_succ _ hmore.1]
    simp only [committed, hn', List.append_assoc, List.singleton_append]
  · rename_i hend
    rw [drain_end _ (fun hc => hend ⟨hc.1, by omega⟩), committed, List.append_nil] at hrest
    split at hx
    · rename_i hne
      cases hx
      refine ⟨rfl, .commit, _, _, _, _, rfl, rfl, rfl, limit, hcall, hd, ?_⟩
      rw [hrest, if_pos hne]
    · rename_i hne
      cases hx
      refine ⟨rfl, .giveBack, _, _, _, _, rfl, rfl, rfl, ?_⟩
      change Performs P f.call f.packet μ₀ f.buffer _
      rw [hcall]
      exact performs_receive hd (by rw [hrest, if_neg hne])

theorem moves_commit (h : f.Progress P μ₀ c.mem) (hp : f.place = .commit) (hx : f.exec P t c = some (f', c', o)) :
    Moves P μ₀ f c f' c' o := by
  rw [DiagFrame.Progress, hp] at h
  rw [DiagFrame.exec, hp] at hx
  obtain ⟨limit, hcall, hd, hrest⟩ := h
  cases hx
  refine ⟨rfl, .giveBack, _, _, _, _, rfl, rfl, rfl, ?_⟩
  change Performs P f.call f.packet μ₀ f.buffer _
  rw [hcall]
  exact performs_receive hd hrest

theorem moves_reset (h : f.Progress P μ₀ c.mem) (hp : f.place = .resetHead ∨ f.place = .resetTail ∨ f.place = .resetMagic)
    (hx : f.exec P t c = some (f', c', o)) : Moves P μ₀ f c f' c' o := by
  rw [DiagFrame.Progress] at h
  rw [DiagFrame.exec] at hx
  rcases hp with hp | hp | hp
  · rw [hp] at h hx
    obtain ⟨hcall, hfresh, hμ⟩ := h
    cases hx
    exact ⟨rfl, .resetTail, _, _, _, _, rfl, rfl, rfl, hcall, hfresh, by rw [hμ]⟩
  · rw [hp] at h hx
    obtain ⟨hcall, hfresh, hμ⟩ := h
    cases hx
    exact ⟨rfl, .resetMagic, _, _, _, _, rfl, rfl, rfl, hcall, hfresh, by rw [hμ]⟩
  · rw [hp] at h hx
    obtain ⟨hcall, hfresh, hμ⟩ := h
    cases hx
    refine ⟨rfl, .giveBack, _, _, _, _, rfl, rfl, rfl, ?_⟩
    change Performs P f.call f.packet μ₀ f.buffer _
    rw [hcall, hfresh.1, hfresh.2, hμ]
    exact .inputReset μ₀

/-! ### Between masking and restoring -/

theorem DiagPlace.of_mapped {p : DiagPlace} (h : p.mapped) : p.locked = true ∧ p ≠ .readTtbr := by
  cases p <;> simp [DiagPlace.mapped] at h <;> exact ⟨rfl, nofun⟩

theorem DiagPlace.mapped_body (call : DiagCall) : call.body.mapped = true := by cases call <;> rfl

theorem Held.moves (h : Held P t f c w μ₀) (hf : f.place.mapped) (hm : Moves P μ₀ f c f' c' o) :
    o = none ∧ ∃ g, f' = some g ∧ g.flags = f.flags ∧ Held P t g c' w μ₀ := by
  obtain ⟨rfl, p, head, tail, buffer, μ, hp, rfl, rfl, hprogress⟩ := hm
  obtain ⟨hl, hr⟩ := DiagPlace.of_mapped hf
  refine ⟨rfl, _, rfl, rfl, h.irqs, ?_, ?_, fun _ _ => h.saved hl hr, hprogress⟩
  · exact h.lock.trans (by rw [hl, (DiagPlace.of_mapped hp).1])
  · exact h.ttbr.trans (by rw [hf, hp])

/-- The map is borrowed if it has to be. -/
theorem Held.borrow (h : Held P t f c w μ₀) (hp : f.place = .borrow) (hx : f.exec P t c = some (f', c', o)) :
    o = none ∧ ∃ g, f' = some g ∧ g.flags = f.flags ∧ Held P t g c' w μ₀ := by
  obtain ⟨hirqs, hlock, httbr, hsaved, hprogress⟩ := h
  rw [hp] at hlock httbr hsaved
  rw [DiagFrame.Progress, hp] at hprogress
  rw [DiagFrame.exec, hp] at hx
  cases hx
  obtain ⟨hw, hb⟩ := hsaved rfl nofun
  have hmapped := DiagPlace.mapped_body f.call
  have hlocked := (DiagPlace.of_mapped hmapped).1
  have hbody : DiagFrame.Progress P { f with place := f.call.body } μ₀ c.mem := by
    obtain ⟨hμ, hfresh⟩ := hprogress
    cases hcall : f.call with
    | emit | receive => exact ⟨hμ, hfresh, rfl⟩
    | inputReset => exact ⟨rfl, hfresh, hμ⟩
  refine ⟨rfl, _, rfl, rfl, ?_⟩
  rcases Bool.eq_false_or_eq_true f.borrowed with hborrowed | hborrowed
  · rw [if_pos hborrowed]
    refine ⟨hirqs, hlock.trans (by rw [hlocked]; rfl), ?_, fun _ _ => ⟨hw, hb⟩, hbody⟩
    rw [hmapped, ← hb, hborrowed]
    rfl
  · rw [if_neg (by rw [hborrowed]; exact Bool.false_ne_true)]
    refine ⟨hirqs, hlock.trans (by rw [hlocked]; rfl), ?_, fun _ _ => ⟨hw, hb⟩, hbody⟩
    rw [hmapped, ← hb, hborrowed]
    exact httbr

/-- The map is given back if it was borrowed. -/
theorem Held.giveBack (h : Held P t f c w μ₀) (hp : f.place = .giveBack) (hx : f.exec P t c = some (f', c', o)) :
    o = none ∧ ∃ g, f' = some g ∧ g.flags = f.flags ∧ Held P t g c' w μ₀ := by
  obtain ⟨hirqs, hlock, httbr, hsaved, hprogress⟩ := h
  rw [hp] at hlock httbr hsaved
  rw [DiagFrame.Progress, hp] at hprogress
  rw [DiagFrame.exec, hp] at hx
  cases hx
  obtain ⟨hw, hb⟩ := hsaved rfl nofun
  refine ⟨rfl, _, rfl, rfl, ?_⟩
  rcases Bool.eq_false_or_eq_true f.borrowed with hborrowed | hborrowed
  · rw [if_pos hborrowed]
    exact ⟨hirqs, hlock, hw, fun _ _ => ⟨hw, hb⟩, hprogress⟩
  · rw [if_neg (by rw [hborrowed]; exact Bool.false_ne_true)]
    rw [← hb, hborrowed] at httbr
    exact ⟨hirqs, hlock, httbr, fun _ _ => ⟨hw, hb⟩, hprogress⟩

theorem Held.exec (h : Held P t f c w μ₀) (hp : f.place ≠ .irqRestore) (hx : f.exec P t c = some (f', c', o)) :
    o = none ∧ ∃ g, f' = some g ∧ g.flags = f.flags ∧ Held P t g c' w μ₀ := by
  cases hplace : f.place with
  | serviceFirst | irqSave | serviceLast =>
    have := h.progress
    rw [DiagFrame.Progress, hplace] at this
    exact this.elim
  | irqRestore => exact absurd hplace hp
  | resident =>
    rw [DiagFrame.exec, hplace] at hx
    cases hx
  | lock =>
    obtain ⟨hirqs, hlock, httbr, -, hprogress⟩ := h
    rw [DiagFrame.Progress] at hprogress
    rw [hplace] at hlock httbr hprogress
    rw [DiagFrame.exec, hplace] at hx
    -- the lock is free, so that the thread does not spin
    simp only [show c.lock = none from hlock, if_true] at hx
    cases hx
    exact ⟨rfl, _, rfl, rfl, hirqs, rfl, httbr, nofun, hprogress⟩
  | readTtbr =>
    obtain ⟨hirqs, hlock, httbr, -, hprogress⟩ := h
    rw [DiagFrame.Progress] at hprogress
    rw [hplace] at hlock httbr hprogress
    rw [DiagFrame.exec, hplace] at hx
    cases hx
    have httbr : c.ttbr = w := httbr
    exact ⟨rfl, _, rfl, rfl, hirqs, hlock, httbr, fun _ _ => ⟨httbr, by rw [httbr]⟩, hprogress⟩
  | unlock =>
    obtain ⟨hirqs, -, httbr, -, hprogress⟩ := h
    rw [DiagFrame.Progress] at hprogress
    rw [hplace] at httbr hprogress
    rw [DiagFrame.exec, hplace] at hx
    cases hx
    exact ⟨rfl, _, rfl, rfl, hirqs, rfl, httbr, nofun, hprogress⟩
  | borrow => exact h.borrow hplace hx
  | giveBack => exact h.giveBack hplace hx
  | enter => exact h.moves (by rw [hplace]; rfl) (moves_enter h.progress hplace hx)
  | magic => exact h.moves (by rw [hplace]; rfl) (moves_magic h.progress hplace hx)
  | copy => exact h.moves (by rw [hplace]; rfl) (moves_copy h.progress hplace hx)
  | commit => exact h.moves (by rw [hplace]; rfl) (moves_commit h.progress hplace hx)
  | resetHead => exact h.moves (by rw [hplace]; rfl) (moves_reset h.progress (.inl hplace) hx)
  | resetTail => exact h.moves (by rw [hplace]; rfl) (moves_reset h.progress (.inr (.inl hplace)) hx)
  | resetMagic => exact h.moves (by rw [hplace]; rfl) (moves_reset h.progress (.inr (.inr hplace)) hx)

/-- The resident routine does its part of the call. -/
theorem Held.routine (h : Held P t f c w μ₀) (hp : f.place = .resident) {packet : Option (List (BitVec 8))} {μ : Mem}
    {p : DiagPlace} (hr : P.routine f.call packet c.mem μ p) :
    Held P t { f with place := p, packet := packet } { c with mem := μ } w μ₀ := by
  obtain ⟨hirqs, hlock, httbr, hsaved, hprogress⟩ := h
  rw [DiagFrame.Progress, hp] at hprogress
  rw [hp] at hlock httbr hsaved
  obtain ⟨hμ, ⟨hbuffer, -⟩, -⟩ := hprogress
  have hm : p.mapped = true ∧ DiagFrame.Progress P { f with place := p, packet := packet } μ₀ μ := by
    rw [hμ] at hr
    cases hcall : f.call with
    | emit message =>
      rw [hcall] at hr
      obtain ⟨hr, rfl, rfl⟩ := hr
      refine ⟨rfl, ?_⟩
      change Performs P (.emit message) none μ₀ f.buffer _
      rw [hbuffer]
      exact .emit hr
    | receive limit =>
      rw [hcall] at hr
      obtain ⟨hr, rfl⟩ := hr
      exact ⟨rfl, hbuffer, limit, rfl, hr⟩
    | inputReset =>
      rw [hcall] at hr
      exact hr.elim
  refine ⟨hirqs, ?_, ?_, fun _ _ => hsaved rfl nofun, hm.2⟩
  · exact hlock.trans (by rw [(DiagPlace.of_mapped hm.1).1]; rfl)
  · exact httbr.trans (by rw [hm.1]; rfl)

/-! ### Runs -/

variable {k k' : Processor T} {a : Serial T} {l : List (DiagEvent T)}

/-- At most the thread that runs is between masking and restoring. -/
inductive Follows (P : Platform) (k : Processor T) : Serial T → Prop
  | outside (hrest : ∀ t f, k.frame t = some f → f.Resting) (hlock : k.cpu.lock = none) :
      Follows P k ⟨k.cpu.mem, none⟩
  | inside {f : DiagFrame} {w : Word} {μ₀ : Mem} (hrest : ∀ t f, t ≠ k.current → k.frame t = some f → f.Resting)
      (hf : k.frame k.current = some f) (held : Held P k.current f k.cpu w μ₀) :
      Follows P k ⟨μ₀, some (k.current, w, f.flags)⟩

/-- A thread that runs with IRQs on, or is in no call, is not between masking and restoring. -/
theorem Follows.of_outside (h : Follows P k a) (hk : k.cpu.irqs = true ∨ k.frame k.current = none) :
    (∀ t f, k.frame t = some f → f.Resting) ∧ k.cpu.lock = none ∧ a = ⟨k.cpu.mem, none⟩ := by
  cases h with
  | outside hrest hlock => exact ⟨hrest, hlock, rfl⟩
  | inside hrest hf held =>
    rcases hk with hk | hk
    · exact absurd hk (by rw [held.irqs]; exact Bool.false_ne_true)
    · rw [hf] at hk
      cases hk

theorem follows_start (P : Platform) (t : T) (irqs : Bool) (ttbr : Word) (μ : Mem) :
    Follows P (Processor.start t irqs ttbr μ) ⟨μ, none⟩ := .outside nofun rfl

theorem Held.ttbr_base (h : Held P t f c w μ₀) (hp : f.place.mapped) : c.ttbr &&& TTBR_BASE = P.initTtbr &&& TTBR_BASE := by
  rw [h.ttbr, hp, Bool.true_and]
  by_cases hb : P.borrows w = true
  · rw [if_pos hb]
  · rw [if_neg hb]
    simpa [Platform.borrows] using hb

variable [DecidableEq T]

/-- A thread other than the current one keeps its frame. -/
theorem Processor.setFrame_of_ne (k : Processor T) (f : Option DiagFrame) {t : T} (h : t ≠ k.current) :
    k.setFrame f t = k.frame t := Function.update_of_ne h _ _

theorem Processor.setFrame_current (k : Processor T) (f : Option DiagFrame) : k.setFrame f k.current = f :=
  Function.update_self _ _ _

/-- Frames stay at rest when the current thread gets none or one at rest. -/
theorem Processor.resting_setFrame {f' : Option DiagFrame} (hrest : ∀ t f, t ≠ k.current → k.frame t = some f → f.Resting)
    (hf' : ∀ f, f' = some f → f.Resting) (t : T) (f : DiagFrame) (h : k.setFrame f' t = some f) : f.Resting := by
  by_cases ht : t = k.current
  · rw [ht, k.setFrame_current] at h
    exact hf' f h
  · rw [k.setFrame_of_ne f' ht] at h
    exact hrest t f ht h

theorem Processor.resting_others {f' : Option DiagFrame} (hrest : ∀ t f, t ≠ k.current → k.frame t = some f → f.Resting)
    (t : T) (f : DiagFrame) (ht : t ≠ k.current) (h : k.setFrame f' t = some f) : f.Resting := by
  rw [k.setFrame_of_ne f' ht] at h
  exact hrest t f ht h

/-- A call at rest steps. -/
theorem follows_of_resting {f : DiagFrame} {f' : Option DiagFrame} {c : Cpu T} {o : Option (DiagEvent T)}
    (hrest : ∀ t f, k.frame t = some f → f.Resting) (hlock : k.cpu.lock = none) (hf : f.Resting)
    (hx : f.exec P k.current k.cpu = some (f', c, o)) :
    (o = none ∧ Follows P { k with cpu := c, frame := k.setFrame f' } ⟨k.cpu.mem, none⟩) ∨
      ∃ e a', o = some e ∧ SerialStep P ⟨k.cpu.mem, none⟩ e a' ∧
        Follows P { k with cpu := c, frame := k.setFrame f' } a' := by
  have hothers : ∀ t f, t ≠ k.current → k.frame t = some f → f.Resting := fun t f _ => hrest t f
  have hout (f' : Option DiagFrame) (hf' : ∀ f, f' = some f → f.Resting) :
      Follows P { k with cpu := P.watchdogService k.cpu, frame := k.setFrame f' } ⟨k.cpu.mem, none⟩ := by
    have h := Follows.outside (P := P) (k := { k with cpu := P.watchdogService k.cpu, frame := k.setFrame f' })
      (k.resting_setFrame hothers hf') ((lock_watchdogService _).trans hlock)
    rwa [mem_watchdogService] at h
  rw [DiagFrame.exec] at hx
  rcases hf with hp | ⟨hp | hp, hfresh⟩
  · rw [hp] at hx
    cases hx
    exact .inl ⟨rfl, hout none nofun⟩
  · rw [hp] at hx
    cases hx
    refine .inl ⟨rfl, hout _ ?_⟩
    rintro _ ⟨⟩
    exact .inr ⟨.inr rfl, hfresh⟩
  -- IRQs are masked from here on
  · rw [hp] at hx
    cases hx
    have hheld : Held P k.current { f with place := .lock, flags := k.cpu.irqs } { k.cpu with irqs := false } k.cpu.ttbr
        k.cpu.mem := ⟨rfl, hlock, rfl, nofun, rfl, hfresh⟩
    refine .inr ⟨_, _, rfl, .masked _ _ _ _, ?_⟩
    exact .inside (f := { f with place := .lock, flags := k.cpu.irqs }) (k.resting_others hothers)
      (k.setFrame_current _) hheld

/-- A call between masking and restoring steps. -/
theorem follows_of_held {f : DiagFrame} {f' : Option DiagFrame} {c : Cpu T} {o : Option (DiagEvent T)}
    (hrest : ∀ t f, t ≠ k.current → k.frame t = some f → f.Resting) (held : Held P k.current f k.cpu w μ₀)
    (hx : f.exec P k.current k.cpu = some (f', c, o)) :
    (o = none ∧ Follows P { k with cpu := c, frame := k.setFrame f' } ⟨μ₀, some (k.current, w, f.flags)⟩) ∨
      ∃ e a', o = some e ∧ SerialStep P ⟨μ₀, some (k.current, w, f.flags)⟩ e a' ∧
        Follows P { k with cpu := c, frame := k.setFrame f' } a' := by
  by_cases hp : f.place = .irqRestore
  · obtain ⟨-, hlock, httbr, -, hprogress⟩ := held
    rw [DiagFrame.Progress] at hprogress
    rw [hp] at hlock httbr hprogress
    rw [DiagFrame.exec, hp] at hx
    cases hx
    have httbr : k.cpu.ttbr = w := httbr
    refine .inr ⟨_, ⟨k.cpu.mem, none⟩, rfl, ?_, .outside (k.resting_setFrame hrest ?_) hlock⟩
    · rw [httbr]
      exact .restored _ _ _ hprogress
    · intro g hg
      obtain ⟨p, hlast, rfl⟩ := Option.map_eq_some_iff.mp hg
      left
      cases hcall : f.call with
      | emit | receive =>
        rw [hcall] at hlast
        cases hlast
        rfl
      | inputReset =>
        rw [hcall] at hlast
        cases hlast
  · obtain ⟨rfl, g, rfl, hflags, hg⟩ := held.exec hp hx
    rw [← hflags]
    exact .inl ⟨rfl, .inside (k.resting_others hrest) (k.setFrame_current _) hg⟩

theorem follows_exec {f : DiagFrame} {f' : Option DiagFrame} {c : Cpu T} {o : Option (DiagEvent T)} (h : Follows P k a)
    (hf : k.frame k.current = some f) (hx : f.exec P k.current k.cpu = some (f', c, o)) :
    (o = none ∧ Follows P { k with cpu := c, frame := k.setFrame f' } a) ∨
      ∃ e a', o = some e ∧ SerialStep P a e a' ∧ Follows P { k with cpu := c, frame := k.setFrame f' } a' := by
  cases h with
  | outside hrest hlock => exact follows_of_resting hrest hlock (hrest _ f hf) hx
  | @inside g _ _ hrest hg held =>
    rw [hf] at hg
    cases hg
    exact follows_of_held hrest held hx

theorem simulates (P : Platform) : Simulates (fun k o k' => ProcessorStep (T := T) P k o k') (SerialStep P) (Follows P) where
  hidden := by
    intro k k' a hs h
    generalize ho : none = o at hs
    cases hs with
    | call hidle call =>
      obtain ⟨hrest, hlock, rfl⟩ := h.of_outside (.inr hidle)
      refine .outside (k.resting_setFrame (fun t f _ => hrest t f) ?_) hlock
      rintro _ ⟨⟩
      exact resting_frame call
    | exec hf hx =>
      rcases follows_exec h hf hx with ⟨-, h'⟩ | ⟨e, a', rfl, -⟩
      · exact h'
      · cases ho
    | @routine f hf hp packet μ p hr =>
      cases h with
      | outside hrest hlock =>
        rcases hrest _ f hf with hp' | ⟨hp' | hp', -⟩ <;> rw [hp] at hp' <;> cases hp'
      | @inside g _ _ hrest hg held =>
        rw [hf] at hg
        cases hg
        have hheld := held.routine hp hr
        exact .inside (f := { f with place := p, packet := packet }) (k.resting_others hrest) (k.setFrame_current _) hheld
    | preempt hirqs t ttbr =>
      obtain ⟨hrest, hlock, rfl⟩ := h.of_outside (.inl hirqs)
      exact .outside hrest hlock
    | interrupt hirqs =>
      obtain ⟨hrest, hlock, rfl⟩ := h.of_outside (.inl hirqs)
      have := Follows.outside (P := P) (k := { k with cpu := P.watchdogService k.cpu }) hrest
        ((lock_watchdogService _).trans hlock)
      rwa [mem_watchdogService] at this
    | other hidle irqs ttbr =>
      obtain ⟨hrest, hlock, rfl⟩ := h.of_outside (.inr hidle)
      exact .outside hrest hlock
  shown := by
    intro k e k' a hs h
    generalize ho : some e = o at hs
    cases hs with
    | exec hf hx =>
      rcases follows_exec h hf hx with ⟨rfl, -⟩ | ⟨e', a', rfl, hstep, h'⟩
      · cases ho
      · cases ho
        exact ⟨a', hstep, h'⟩
    | _ => cases ho

/-- What holds of the calls that are under way. -/
structure Exclusive (P : Platform) (k : Processor T) : Prop where
  /-- A thread that holds the lock runs, and IRQs are masked. -/
  alone : ∀ t f, k.frame t = some f → f.place.locked → t = k.current ∧ k.cpu.irqs = false ∧ k.cpu.lock = some t
  /-- The lock is held by nothing but a call of the thread that runs. -/
  held : ∀ t, k.cpu.lock = some t →
    t = k.current ∧ k.cpu.irqs = false ∧ ∃ f, k.frame t = some f ∧ f.place.locked
  /-- The page table is that of `init_mm`. -/
  mapped : ∀ t f, k.frame t = some f → f.place.mapped → k.cpu.ttbr &&& TTBR_BASE = P.initTtbr &&& TTBR_BASE
  /-- A thread that is to take the lock finds it free. -/
  free : ∀ t f, k.frame t = some f → f.place = .lock → k.cpu.lock = none

theorem DiagFrame.Resting.not_locked (h : f.Resting) : f.place.locked = false ∧ f.place ≠ .lock := by
  rcases h with h | ⟨h | h, -⟩ <;> rw [h] <;> exact ⟨rfl, nofun⟩

theorem Follows.exclusive (h : Follows P k a) : Exclusive P k := by
  cases h with
  | outside hrest hlock =>
    have hnot {t : T} {f : DiagFrame} (hf : k.frame t = some f) := (hrest t f hf).not_locked
    refine ⟨fun t f hf hl => ?_, fun t ht => ?_, fun t f hf hm => ?_, fun _ _ _ _ => hlock⟩
    · exact absurd hl (by rw [(hnot hf).1]; exact Bool.false_ne_true)
    · rw [hlock] at ht
      cases ht
    · exact absurd (DiagPlace.of_mapped hm).1 (by rw [(hnot hf).1]; exact Bool.false_ne_true)
  | @inside f w μ₀ hrest hf held =>
    have hcurrent {t : T} {g : DiagFrame} (hg : k.frame t = some g) (h : g.place.locked = true ∨ g.place = .lock) :
        t = k.current ∧ g = f := by
      by_cases ht : t = k.current
      · rw [ht, hf] at hg
        exact ⟨ht, (Option.some.inj hg).symm⟩
      · obtain ⟨hl, hne⟩ := (hrest t g ht hg).not_locked
        rcases h with h | h
        · exact absurd h (by rw [hl]; exact Bool.false_ne_true)
        · exact absurd h hne
    refine ⟨fun t g hg hl => ?_, fun t ht => ?_, fun t g hg hm => ?_, fun t g hg hp => ?_⟩
    · obtain ⟨rfl, rfl⟩ := hcurrent hg (.inl hl)
      exact ⟨rfl, held.irqs, held.lock.trans (if_pos hl)⟩
    · rw [held.lock] at ht
      by_cases hl : f.place.locked = true
      · rw [if_pos hl] at ht
        cases ht
        exact ⟨rfl, held.irqs, f, hf, hl⟩
      · rw [if_neg hl] at ht
        cases ht
    · obtain ⟨rfl, rfl⟩ := hcurrent hg (.inl (DiagPlace.of_mapped hm).1)
      exact held.ttbr_base hm
    · obtain ⟨rfl, rfl⟩ := hcurrent hg (.inr hp)
      rw [held.lock, hp]
      rfl

/-- Whatever threads call, and however they are preempted: the lock is held by the thread that runs, with IRQs masked
and the map of `init_mm` in force wherever it is needed; and the calls take effect one at a time, each leaving the
translation table base and the IRQ state as it found them. -/
theorem diag_calls_exclude (P : Platform) {t : T} {irqs : Bool} {ttbr : Word} {μ : Mem} {l : List (DiagEvent T)}
    {k : Processor T} (h : Run (fun k o k' => ProcessorStep P k o k') (Processor.start t irqs ttbr μ) l k) :
    Exclusive P k ∧
      ∃ a, Chain (SerialStep P) ⟨μ, none⟩ l a ∧ (k.cpu.irqs = true → a = ⟨k.cpu.mem, none⟩) := by
  obtain ⟨a, hchain, hfollows⟩ := (simulates P).run h (follows_start P t irqs ttbr μ)
  exact ⟨hfollows.exclusive, a, hchain, fun hirqs => (hfollows.of_outside (.inl hirqs)).2.2⟩

theorem step_exec {o : Option (DiagEvent T)} (h : k.exec P = some (k', o)) : ProcessorStep P k o k' := by
  obtain ⟨f, hf, h⟩ := Option.bind_eq_some_iff.mp h
  obtain ⟨⟨f', c, o'⟩, hx, h⟩ := Option.bind_eq_some_iff.mp h
  cases h
  exact .exec hf hx

theorem run_execs {k₀ : Processor T} {n : Nat} {l' : List (DiagEvent T)}
    (h : Run (fun k o k' => ProcessorStep P k o k') k₀ l k) (hx : execs (Processor.exec P) n k = some (k', l')) :
    Run (fun k o k' => ProcessorStep P k o k') k₀ (l ++ l') k' := h.execs (fun _ _ _ => step_exec) hx

/-- Resident routines that leave memory alone. -/
def quiet : Platform := ⟨0x4000, true, fun _ μ μ' => μ' = μ, fun packet μ μ' => packet = none ∧ μ' = μ⟩

/-- A reset by a second thread, which preempts an emit before it masks IRQs. -/
theorem run_preempted : ∃ k l, Run (fun k o k' => ProcessorStep quiet k o k')
      (Processor.start false true 0x4000 fun _ => 0) l k ∧
    l = [.masked true 0x8000 true, .restored true .inputReset none [] 0x8000 true, .masked false 0xC000 true,
      .restored false (.emit 0) none [] 0xC000 true] ∧ k.cpu.irqs = true := by
  have h : Run (fun k o k' => ProcessorStep quiet k o k') (Processor.start false true 0x4000 fun _ => 0) [] _ :=
    .snoc .nil (ProcessorStep.call rfl (.emit 0))
  have h := run_execs (n := 1) h rfl
  have h := h.snoc (ProcessorStep.preempt rfl true 0x8000)
  have h := h.snoc (ProcessorStep.call rfl .inputReset)
  have h := run_execs (n := 10) h rfl
  have h := h.snoc (ProcessorStep.preempt rfl false 0xC000)
  have h := run_execs (n := 5) h rfl
  have hprint (μ : Mem) : quiet.routine (.emit 0) none μ μ .giveBack := ⟨rfl, rfl, rfl⟩
  have h := h.snoc (ProcessorStep.routine (f := ⟨.emit 0, .resident, true, 0xC000, true, 0, 0, [], none⟩) rfl rfl (hprint _))
  have h := run_execs (n := 4) h rfl
  exact ⟨_, _, h, rfl, rfl⟩

theorem diag_calls_exclude_preempted : ∃ (k : Processor Bool) (l : List (DiagEvent Bool)), l.length = 4 ∧
    k.cpu.irqs = true ∧ Exclusive quiet k ∧
      ∃ a, Chain (SerialStep quiet) ⟨fun _ => 0, none⟩ l a ∧ (k.cpu.irqs = true → a = ⟨k.cpu.mem, none⟩) := by
  obtain ⟨k, l, h, rfl, hirqs⟩ := run_preempted
  exact ⟨k, _, rfl, hirqs, diag_calls_exclude quiet h⟩

end ShadowMsm.Linux
