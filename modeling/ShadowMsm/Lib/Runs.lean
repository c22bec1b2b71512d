import Mathlib.Data.List.Basic

/-!
# Runs of a transition system

A system takes a state and an action and gives the next state, or none where the action is not possible.  A run does the
actions of a list one after the other.
-/

namespace Runs

variable {σ α : Type} {step : σ → α → Option σ} {s s' s'' : σ} {as bs : List α}

/-- The state after a list of actions. -/
def run (step : σ → α → Option σ) (s : σ) : List α → Option σ
  | [] => some s
  | a :: as => (step s a).bind fun s' => run step s' as

theorem run_cons {a : α} : run step s (a :: as) = some s'' ↔ ∃ s', step s a = some s' ∧ run step s' as = some s'' :=
  Option.bind_eq_some_iff

theorem run_append : run step s (as ++ bs) = some s'' ↔ ∃ s', run step s as = some s' ∧ run step s' bs = some s'' := by
  induction as generalizing s with
  | nil => simp [run]
  | cons a as ih =>
    rw [List.cons_append, run_cons]
    constructor
    · rintro ⟨m, hm, h⟩
      obtain ⟨s', h1, h2⟩ := ih.mp h
      exact ⟨s', run_cons.mpr ⟨m, hm, h1⟩, h2⟩
    · rintro ⟨s', h1, h2⟩
      obtain ⟨m, hm, h⟩ := run_cons.mp h1
      exact ⟨m, hm, ih.mpr ⟨s', h, h2⟩⟩

/-- What every step by a permitted action keeps, a run of permitted actions keeps. -/
theorem run_invariant {P : σ → Prop} {A : α → Prop} (hstep : ∀ s a s', step s a = some s' → A a → P s → P s')
    (h : run step s as = some s') (has : ∀ a ∈ as, A a) (hs : P s) : P s' := by
  induction as generalizing s with
  | nil => exact Option.some.inj h ▸ hs
  | cons a as ih =>
    obtain ⟨m, hm, h⟩ := run_cons.mp h
    exact ih h (fun b hb => has b (List.mem_cons_of_mem a hb)) (hstep s a m hm (has a List.mem_cons_self) hs)

/-- Where an observation of a run stands, the run is in two parts. -/
theorem split_filterMap {β : Type} {f : α → Option β} {l r : List β} {t : β} (h : as.filterMap f = l ++ t :: r) :
    ∃ bs a cs, as = bs ++ a :: cs ∧ f a = some t ∧ bs.filterMap f = l ∧ cs.filterMap f = r := by
  obtain ⟨bs, ds, rfl, h1, h2⟩ := List.filterMap_eq_append_iff.mp h
  obtain ⟨es, a, cs, rfl, hes, ha, hcs⟩ := List.filterMap_eq_cons_iff.mp h2
  refine ⟨bs ++ es, a, cs, by rw [List.append_assoc], ha, ?_, hcs⟩
  rw [List.filterMap_append, h1, List.filterMap_eq_nil_iff.mpr hes, List.append_nil]

/-- The same for an observation `t` that only the action `g t` shows. -/
theorem split_filterMap_of_eq {β : Type} {f : α → Option β} {g : β → α} {l r : List β} {t : β}
    (hg : ∀ a, f a = some t → a = g t) (h : as.filterMap f = l ++ t :: r) :
    ∃ bs cs, as = bs ++ g t :: cs ∧ bs.filterMap f = l ∧ cs.filterMap f = r := by
  obtain ⟨bs, a, cs, rfl, ha, hbs, hcs⟩ := split_filterMap h
  obtain rfl := hg a ha
  exact ⟨bs, cs, rfl, hbs, hcs⟩

end Runs
