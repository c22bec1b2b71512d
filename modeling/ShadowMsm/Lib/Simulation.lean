import Mathlib.Data.List.Basic

/-!
# Forward simulation

A system steps from state to state, and a step may show an event.  A specification takes one step for every event.
When a relation between their states is kept by every step, everything that a run of the system shows is shown by a run
of the specification.
-/

namespace Simulation

variable {σ τ ε : Type}

/-- A run of a system, and the events it shows. -/
inductive Run (step : σ → Option ε → σ → Prop) (s : σ) : List ε → σ → Prop
  | nil : Run step s [] s
  | snoc {l : List ε} {o : Option ε} {s' s'' : σ} (h : Run step s l s') (hs : step s' o s'') :
      Run step s (l ++ o.toList) s''

/-- A run of a specification. -/
inductive Chain (spec : τ → ε → τ → Prop) (t : τ) : List ε → τ → Prop
  | nil : Chain spec t [] t
  | snoc {l : List ε} {e : ε} {t' t'' : τ} (h : Chain spec t l t') (hs : spec t' e t'') : Chain spec t (l ++ [e]) t''

/-- The first `n` steps of a system that goes on in one way, and the events they show. -/
def execs (exec : σ → Option (σ × Option ε)) : Nat → σ → Option (σ × List ε)
  | 0, s => some (s, [])
  | n + 1, s => do
    let (s', o) ← exec s
    let (s'', l) ← execs exec n s'
    return (s'', o.toList ++ l)

/-- A step that shows nothing is no step of the specification, and one that shows an event is one step. -/
structure Simulates (step : σ → Option ε → σ → Prop) (spec : τ → ε → τ → Prop) (R : σ → τ → Prop) : Prop where
  hidden : ∀ s s' t, step s none s' → R s t → R s' t
  shown : ∀ s e s' t, step s (some e) s' → R s t → ∃ t', spec t e t' ∧ R s' t'

variable {step : σ → Option ε → σ → Prop} {spec : τ → ε → τ → Prop} {R : σ → τ → Prop} {s s' : σ} {t t' : τ}
  {l : List ε}

/-- A run goes on with steps that are executed. -/
theorem Run.execs {exec : σ → Option (σ × Option ε)} (hexec : ∀ s s' o, exec s = some (s', o) → step s o s') {s₀ : σ}
    {n : Nat} {l' : List ε} (h : Run step s₀ l s) (hx : execs exec n s = some (s', l')) : Run step s₀ (l ++ l') s' := by
  induction n generalizing s l l' with
  | zero =>
    cases hx
    rwa [List.append_nil]
  | succ n ih =>
    obtain ⟨⟨s₁, o⟩, h1, hx⟩ := Option.bind_eq_some_iff.mp hx
    obtain ⟨⟨s₂, l₂⟩, h2, hx⟩ := Option.bind_eq_some_iff.mp hx
    cases hx
    rw [← List.append_assoc]
    exact ih (h.snoc (hexec _ _ _ h1)) h2

theorem Simulates.run (h : Simulates step spec R) (hrun : Run step s l s') (hR : R s t) :
    ∃ t', Chain spec t l t' ∧ R s' t' := by
  induction hrun with
  | nil => exact ⟨t, .nil, hR⟩
  | @snoc l o s' s'' _ hs ih =>
    obtain ⟨t', hchain, hR'⟩ := ih
    cases o with
    | none =>
      rw [Option.toList_none, List.append_nil]
      exact ⟨t', hchain, h.hidden s' s'' t' hs hR'⟩
    | some e =>
      obtain ⟨t'', hspec, hR''⟩ := h.shown s' e s'' t' hs hR'
      exact ⟨t'', hchain.snoc hspec, hR''⟩

end Simulation
