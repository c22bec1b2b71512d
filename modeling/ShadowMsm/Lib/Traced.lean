import Mathlib.Data.List.Basic

/-!
# Programs that leave a trace

A program with exceptions `ε` over a state `σ`, the answers of its environment for instance, that leaves a trace
of events `τ`: it is run from a state and gives a result, the next state and the events of this run.

`Sat f φ` says that every run of `f` has a result and a trace that satisfy `φ`.  The rules follow the constructs
of a program; sequencing cuts the trace in two.
-/

/-- A program with exceptions, a state and a trace. -/
def Traced (ε σ τ α : Type) : Type := σ → Except ε α × σ × List τ

namespace Traced

variable {ε σ τ α β : Type}

protected def pure (a : α) : Traced ε σ τ α := fun s => (.ok a, s, [])

/-- Sequencing: an exception ends the run. -/
protected def bind (f : Traced ε σ τ α) (g : α → Traced ε σ τ β) : Traced ε σ τ β := fun s =>
  match f s with
  | (.ok a, s', l) => ((g a s').1, (g a s').2.1, l ++ (g a s').2.2)
  | (.error e, s', l) => (.error e, s', l)

instance : Monad (Traced ε σ τ) where
  pure := Traced.pure
  bind := Traced.bind

instance : LawfulMonad (Traced ε σ τ) := by
  refine LawfulMonad.mk' _ ?_ ?_ ?_
  · intro α f
    funext s
    change Traced.bind f Traced.pure s = f s
    unfold Traced.bind
    rcases f s with ⟨e | a, s', l⟩
    · rfl
    · simp [Traced.pure]
  · intro α β a f
    rfl
  · intro α β γ f g h
    funext s
    change Traced.bind (Traced.bind f g) h s = Traced.bind f (fun a => Traced.bind (g a) h) s
    unfold Traced.bind
    rcases f s with ⟨e | a, s', l⟩
    · rfl
    · dsimp only
      rcases g a s' with ⟨e | b, s'', l'⟩
      · rfl
      · simp

/-- A handler goes on from where the exception was raised: state and trace are kept. -/
protected def tryCatch (f : Traced ε σ τ α) (h : ε → Traced ε σ τ α) : Traced ε σ τ α := fun s =>
  match f s with
  | (.ok a, s', l) => (.ok a, s', l)
  | (.error e, s', l) => ((h e s').1, (h e s').2.1, l ++ (h e s').2.2)

instance : MonadExcept ε (Traced ε σ τ) where
  throw e := fun s => (.error e, s, [])
  tryCatch := Traced.tryCatch

/-- A pure computation that may raise. -/
def ofExcept (x : Except ε α) : Traced ε σ τ α := fun s => (x, s, [])

/-- A loop whose body goes on with a new value or leaves with a result; `n` bounds its rounds, and `stop` is
raised where they are used up. -/
def loop (body : β → Traced ε σ τ (β ⊕ α)) (stop : ε) : Nat → β → Traced ε σ τ α
  | 0, _ => throw stop
  | n + 1, b => do
    match ← body b with
    | .inl b' => loop body stop n b'
    | .inr a => pure a

/-! ### The equations of a run -/

theorem run_bind_ok {f : Traced ε σ τ α} {g : α → Traced ε σ τ β} {s s' : σ} {a : α} {l : List τ}
    (h : f s = (.ok a, s', l)) : (f >>= g) s = ((g a s').1, (g a s').2.1, l ++ (g a s').2.2) := by
  change Traced.bind f g s = _
  rw [Traced.bind, h]

theorem run_bind_error {f : Traced ε σ τ α} {g : α → Traced ε σ τ β} {s s' : σ} {e : ε} {l : List τ}
    (h : f s = (.error e, s', l)) : (f >>= g) s = (.error e, s', l) := by
  change Traced.bind f g s = _
  rw [Traced.bind, h]

theorem run_ofExcept_bind {x : Except ε α} {a : α} {g : α → Traced ε σ τ β} {s : σ} (h : x = .ok a) :
    (ofExcept x >>= g) s = g a s := by
  have hx : (ofExcept x : Traced ε σ τ α) s = (.ok a, s, []) := by rw [ofExcept, h]
  rw [run_bind_ok hx, List.nil_append]

/-- A run of a sequence is a run of the first part that raises, or a run of both parts. -/
theorem of_run_bind {f : Traced ε σ τ α} {g : α → Traced ε σ τ β} {s s'' : σ} {r : Except ε β} {l : List τ}
    (h : (f >>= g) s = (r, s'', l)) :
    (∃ e, f s = (.error e, s'', l) ∧ r = .error e) ∨
      ∃ a s' l₁ l₂, f s = (.ok a, s', l₁) ∧ g a s' = (r, s'', l₂) ∧ l = l₁ ++ l₂ := by
  rcases hf : f s with ⟨r₁, s', l₁⟩
  cases r₁ with
  | error e =>
    rw [run_bind_error hf] at h
    cases h
    exact .inl ⟨e, rfl, rfl⟩
  | ok a =>
    rw [run_bind_ok hf] at h
    cases h
    exact .inr ⟨a, s', l₁, (g a s').2.2, rfl, rfl, rfl⟩

/-- A run of a sequence that ends well is a run of both parts. -/
theorem of_run_bind_ok {f : Traced ε σ τ α} {g : α → Traced ε σ τ β} {s s'' : σ} {b : β} {l : List τ}
    (h : (f >>= g) s = (.ok b, s'', l)) :
    ∃ a s' l₁ l₂, f s = (.ok a, s', l₁) ∧ g a s' = (.ok b, s'', l₂) ∧ l = l₁ ++ l₂ := by
  rcases of_run_bind h with ⟨e, -, he⟩ | h
  · cases he
  · exact h

/-- The events of the first part are events of the sequence. -/
theorem mem_run_bind {f : Traced ε σ τ α} {g : α → Traced ε σ τ β} {s : σ} {t : τ} (h : t ∈ (f s).2.2) :
    t ∈ ((f >>= g) s).2.2 := by
  rcases hf : f s with ⟨r, s', l⟩
  rw [hf] at h
  cases r with
  | error e =>
    rw [run_bind_error hf]
    exact h
  | ok a =>
    rw [run_bind_ok hf]
    exact List.mem_append_left _ h

/-- A run with a handler is a run of the program that raises nothing, or one that the handler goes on from. -/
theorem of_run_tryCatch {f : Traced ε σ τ α} {h : ε → Traced ε σ τ α} {s s'' : σ} {r : Except ε α} {l : List τ}
    (hr : (tryCatch f h : Traced ε σ τ α) s = (r, s'', l)) :
    (∃ a, f s = (.ok a, s'', l) ∧ r = .ok a) ∨
      ∃ e s' l₁ l₂, f s = (.error e, s', l₁) ∧ h e s' = (r, s'', l₂) ∧ l = l₁ ++ l₂ := by
  change Traced.tryCatch f h s = _ at hr
  unfold Traced.tryCatch at hr
  rcases hf : f s with ⟨r₁, s', l₁⟩
  rw [hf] at hr
  cases r₁ with
  | ok a =>
    cases hr
    exact .inl ⟨a, rfl, rfl⟩
  | error e =>
    cases hr
    exact .inr ⟨e, s', l₁, (h e s').2.2, rfl, rfl, rfl⟩

theorem of_run_ofExcept_ok {x : Except ε α} {s s' : σ} {a : α} {l : List τ}
    (h : (ofExcept x : Traced ε σ τ α) s = (.ok a, s', l)) : x = .ok a ∧ s = s' ∧ l = [] := by
  obtain ⟨h1, h2, h3⟩ : x = .ok a ∧ s = s' ∧ [] = l := by simpa [ofExcept, Prod.ext_iff] using h
  exact ⟨h1, h2, h3.symm⟩

/-! ### Properties of all runs -/

/-- Every run of `f` has a result and a trace with `φ`. -/
structure Sat (f : Traced ε σ τ α) (φ : Except ε α → List τ → Prop) : Prop where
  run : ∀ s, φ (f s).1 (f s).2.2

variable {f : Traced ε σ τ α} {g : α → Traced ε σ τ β} {φ ψ : Except ε α → List τ → Prop}

theorem Sat.of_run {s s' : σ} {r : Except ε α} {l : List τ} (hf : Sat f φ) (h : f s = (r, s', l)) : φ r l := by
  have := hf.run s
  rwa [h] at this

theorem Sat.mono (hf : Sat f φ) (h : ∀ r l, φ r l → ψ r l) : Sat f ψ := ⟨fun s => h _ _ (hf.run s)⟩

theorem Sat.and (hf : Sat f φ) (hg : Sat f ψ) : Sat f fun r l => φ r l ∧ ψ r l := ⟨fun s => ⟨hf.run s, hg.run s⟩⟩

theorem sat_pure {a : α} (h : φ (.ok a) []) : Sat (pure a : Traced ε σ τ α) φ := ⟨fun _ => h⟩

theorem sat_throw {e : ε} (h : φ (.error e) []) : Sat (throw e : Traced ε σ τ α) φ := ⟨fun _ => h⟩

theorem sat_ofExcept {x : Except ε α} (h : φ x []) : Sat (ofExcept x : Traced ε σ τ α) φ := ⟨fun _ => h⟩

/-- The rule of a sequence. -/
theorem sat_bind {χ : Except ε β → List τ → Prop} (hf : Sat f φ) (herr : ∀ e l, φ (.error e) l → χ (.error e) l)
    (hg : ∀ a l, φ (.ok a) l → Sat (g a) fun r l' => χ r (l ++ l')) : Sat (f >>= g) χ := by
  constructor
  intro s
  have h := hf.run s
  rcases hs : f s with ⟨r, s', l⟩
  rw [hs] at h
  cases r with
  | error e =>
    rw [run_bind_error hs]
    exact herr e l h
  | ok a =>
    rw [run_bind_ok hs]
    exact (hg a l h).run s'

/-- The rule of a handler. -/
theorem sat_tryCatch {h : ε → Traced ε σ τ α} (hf : Sat f φ) (hok : ∀ a l, φ (.ok a) l → ψ (.ok a) l)
    (hh : ∀ e l, φ (.error e) l → Sat (h e) fun r l' => ψ r (l ++ l')) : Sat (tryCatch f h) ψ := by
  constructor
  intro s
  have hs := hf.run s
  change ψ (Traced.tryCatch f h s).1 (Traced.tryCatch f h s).2.2
  unfold Traced.tryCatch
  rcases hr : f s with ⟨r, s', l⟩
  rw [hr] at hs
  cases r with
  | ok a => exact hok a l hs
  | error e => exact (hh e l hs).run s'

/-- The rule of a loop: an invariant of the value and the trace so far, kept by a round. -/
theorem sat_loop {body : β → Traced ε σ τ (β ⊕ α)} {stop : ε} {I : β → List τ → Prop}
    (hbody : ∀ b l, I b l → Sat (body b) fun r l' =>
      (∀ b', r = .ok (.inl b') → I b' (l ++ l')) ∧ (∀ a, r = .ok (.inr a) → φ (.ok a) (l ++ l')) ∧
        ∀ e, r = .error e → φ (.error e) (l ++ l'))
    (hstop : ∀ b l, I b l → φ (.error stop) l) (n : Nat) {b : β} {l : List τ} (h : I b l) :
    Sat (loop body stop n b) fun r l' => φ r (l ++ l') := by
  induction n generalizing b l with
  | zero => exact sat_throw (by simpa using hstop b l h)
  | succ n ih =>
    apply sat_bind (hbody b l h)
    · intro e l' hl'
      exact hl'.2.2 e rfl
    · intro x l' hl'
      cases x with
      | inl b' =>
        apply (ih (hl'.1 b' rfl)).mono
        intro r l'' hr
        rwa [List.append_assoc] at hr
      | inr a => exact sat_pure (by simpa using hl'.2.1 a rfl)

/-- A trace in two parts, one with `P` and then one with `Q`. -/
def Chop (P Q : List τ → Prop) (l : List τ) : Prop := ∃ l₁ l₂, l = l₁ ++ l₂ ∧ P l₁ ∧ Q l₂

/-- Every event of every run has `P`. -/
def Emits (f : Traced ε σ τ α) (P : τ → Prop) : Prop := Sat f fun _ l => ∀ t ∈ l, P t

theorem emits_pure {a : α} {P : τ → Prop} : Emits (pure a : Traced ε σ τ α) P := sat_pure (by simp)

theorem emits_throw {e : ε} {P : τ → Prop} : Emits (throw e : Traced ε σ τ α) P := sat_throw (by simp)

theorem emits_bind {P : τ → Prop} (hf : Emits f P) (hg : ∀ a, Emits (g a) P) : Emits (f >>= g) P := by
  apply sat_bind hf (fun _ _ h => h)
  intro a l hl
  apply (hg a).mono
  intro r l' hl' t ht
  rcases List.mem_append.mp ht with ht | ht
  · exact hl t ht
  · exact hl' t ht

theorem emits_loop {body : β → Traced ε σ τ (β ⊕ α)} {stop : ε} {P : τ → Prop} (hbody : ∀ b, Emits (body b) P) (n : Nat)
    (b : β) : Emits (loop body stop n b) P := by
  induction n generalizing b with
  | zero => exact emits_throw
  | succ n ih =>
    apply emits_bind (hbody b)
    intro x
    cases x with
    | inl b' => exact ih b'
    | inr a => exact emits_pure

theorem emits_tryCatch {h : ε → Traced ε σ τ α} {P : τ → Prop} (hf : Emits f P) (hh : ∀ e, Emits (h e) P) :
    Emits (tryCatch f h) P := by
  apply sat_tryCatch hf (fun _ _ h => h)
  intro e l hl
  apply (hh e).mono
  intro r l' hl' t ht
  rcases List.mem_append.mp ht with ht | ht
  · exact hl t ht
  · exact hl' t ht

/-! ### Runs from some of the states -/

/-- From a state with `I` every event has `P`, and the result and the next state have `Q`. -/
structure Ensures (I : σ → Prop) (f : Traced ε σ τ α) (P : τ → Prop) (Q : Except ε α → σ → Prop) : Prop where
  run : ∀ s, I s → (∀ t ∈ (f s).2.2, P t) ∧ Q (f s).1 (f s).2.1

section

variable {I J : σ → Prop} {P : τ → Prop} {Q R : Except ε α → σ → Prop} {S : Except ε β → σ → Prop}

theorem Ensures.of_run {s s' : σ} {r : Except ε α} {l : List τ} (hf : Ensures I f P Q) (h : f s = (r, s', l)) (hs : I s) :
    (∀ t ∈ l, P t) ∧ Q r s' := by
  have := hf.run s hs
  rwa [h] at this

theorem Ensures.mono (hf : Ensures I f P Q) (hI : ∀ s, J s → I s) (hQ : ∀ r s, Q r s → R r s) : Ensures J f P R :=
  ⟨fun s hs => ⟨(hf.run s (hI s hs)).1, hQ _ _ (hf.run s (hI s hs)).2⟩⟩

theorem ensures_pure {a : α} (h : ∀ s, I s → Q (.ok a) s) : Ensures I (pure a : Traced ε σ τ α) P Q :=
  ⟨fun s hs => ⟨nofun, h s hs⟩⟩

/-- The rule of a sequence. -/
theorem ensures_bind (hf : Ensures I f P R) (herr : ∀ e s, R (.error e) s → S (.error e) s)
    (hg : ∀ a, Ensures (R (.ok a)) (g a) P S) : Ensures I (f >>= g) P S := by
  constructor
  intro s hs
  rcases h : f s with ⟨r, s', l⟩
  obtain ⟨hl, hr⟩ := hf.of_run h hs
  cases r with
  | error e =>
    rw [run_bind_error h]
    exact ⟨hl, herr e s' hr⟩
  | ok a =>
    rw [run_bind_ok h]
    obtain ⟨hl', hr'⟩ := (hg a).run s' hr
    refine ⟨fun t ht => ?_, hr'⟩
    rcases List.mem_append.mp ht with ht | ht
    · exact hl t ht
    · exact hl' t ht

end

/-! ### Programs that run alike -/

/-- Two results with the same exception, or with values that `R` relates. -/
inductive Related (R : α → β → Prop) : Except ε α → Except ε β → Prop
  | ok {a : α} {b : β} (h : R a b) : Related R (.ok a) (.ok b)
  | error (e : ε) : Related R (.error e) (.error e)

/-- From every state the two programs leave the same trace and reach the same state, with related results. -/
structure Alike (R : α → β → Prop) (f : Traced ε σ τ α) (g : Traced ε σ τ β) : Prop where
  run : ∀ s, Related R (f s).1 (g s).1 ∧ (f s).2 = (g s).2

theorem alike_pure {R : α → β → Prop} {a : α} {b : β} (h : R a b) :
    Alike R (pure a : Traced ε σ τ α) (pure b : Traced ε σ τ β) := ⟨fun _ => ⟨.ok h, rfl⟩⟩

theorem alike_refl (f : Traced ε σ τ α) : Alike (· = ·) f f := by
  constructor
  intro s
  refine ⟨?_, rfl⟩
  cases (f s).1 with
  | ok a => exact .ok rfl
  | error e => exact .error e

theorem alike_bind {α' β' : Type} {R : α → β → Prop} {S : α' → β' → Prop} {f : Traced ε σ τ α} {g : Traced ε σ τ β}
    {f' : α → Traced ε σ τ α'} {g' : β → Traced ε σ τ β'} (h : Alike R f g) (h' : ∀ a b, R a b → Alike S (f' a) (g' b)) :
    Alike S (f >>= f') (g >>= g') := by
  constructor
  intro s
  obtain ⟨hr, hs⟩ := h.run s
  rcases hf : f s with ⟨r, s', l⟩
  rcases hg : g s with ⟨r', t', l'⟩
  rw [hf, hg] at hr hs
  cases hs
  cases hr with
  | error e =>
    rw [run_bind_error hf, run_bind_error hg]
    exact ⟨.error e, rfl⟩
  | @ok a b hab =>
    rw [run_bind_ok hf, run_bind_ok hg]
    obtain ⟨hr', hs'⟩ := (h' a b hab).run s'
    exact ⟨hr', by rw [hs']⟩

/-- The same first part with the same value, and then two programs that run alike. -/
theorem alike_bind_same {α' β' : Type} {S : α' → β' → Prop} (f : Traced ε σ τ α) {f' : α → Traced ε σ τ α'}
    {g' : α → Traced ε σ τ β'} (h' : ∀ a, Alike S (f' a) (g' a)) : Alike S (f >>= f') (f >>= g') := by
  apply alike_bind (alike_refl f)
  rintro a _ rfl
  exact h' a

theorem alike_loop {α' β' : Type} {R : β → β' → Prop} {S : α → α' → Prop} {body : β → Traced ε σ τ (β ⊕ α)}
    {body' : β' → Traced ε σ τ (β' ⊕ α')} {stop : ε}
    (hbody : ∀ b b', R b b' → Alike (Sum.LiftRel R S) (body b) (body' b')) (n : Nat) {b : β} {b' : β'} (h : R b b') :
    Alike S (loop body stop n b) (loop body' stop n b') := by
  induction n generalizing b b' with
  | zero => exact ⟨fun _ => ⟨.error stop, rfl⟩⟩
  | succ n ih =>
    apply alike_bind (hbody b b' h)
    intro x x' hx
    cases hx with
    | inl h' => exact ih h'
    | inr h' => exact alike_pure h'

end Traced
