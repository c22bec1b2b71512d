import ShadowMsm.Arm.Passes

/-!
# The watchdog hold

The payload of `build_watchdog_hold.py`: a loop without an end that writes the reset register of the watchdog and then
counts down.  It writes nothing else, and it writes the register at every 131075th instruction (`hold_endless`).
-/

namespace ShadowMsm.Watchdog

open Arm

def LOAD_ADDRESS : Word := 0x00800000
def WATCHDOG_RESET : Word := 0x8000540C
def DELAY_ITERATIONS : Word := 0x10000

inductive Label
  | kick | delay
  deriving DecidableEq, Repr

def setupBlock : List (Line Label) :=
  [.ldrc .r4 WATCHDOG_RESET,
   .mov .r5 (.imm 1),
   .mov .r6 (.imm DELAY_ITERATIONS)]

def kickBlock : List (Line Label) :=
  [.label .kick,
   .str .r5 .r4 0,
   .mov .r0 (.reg .r6)]

/-- `ASM_SOURCE` -/
def hold : Program Label where
  base := LOAD_ADDRESS
  lines := setupBlock ++ kickBlock ++ countdown .delay .r0 ++ [.b .kick]

/-- The instructions from one write to the next. -/
def PERIOD : Nat := 131075

/-- The writes before the `i`-th instruction; the first write is the fourth instruction. -/
def kicks (i : Nat) : Nat := (i + 131071) / PERIOD

/-- The machine in front of the `i`-th instruction: the log has the writes due by then and nothing else, and memory is as
at the beginning but for the register. -/
structure Served (m₀ : Machine) (i : Nat) (m : Machine) : Prop where
  log : m.log = m₀.log ++ List.replicate (kicks i) (.store WATCHDOG_RESET 4)
  mem : ∀ x, ¬ Within x WATCHDOG_RESET 4 → m.mem x = m₀.mem x
  one : 0 < kicks i → load32 m.mem WATCHDOG_RESET = 1

/-- The machine at `kick`, the registers of the loop set. -/
structure Holding (m₀ : Machine) (c : Nat) (m : Machine) : Prop where
  r4 : m.reg .r4 = WATCHDOG_RESET
  r5 : m.reg .r5 = 1
  r6 : m.reg .r6 = DELAY_ITERATIONS
  served : Served m₀ (3 + PERIOD * c) m

variable {m₀ m m' : Machine} {c i j : Nat}

theorem kicks_start (c : Nat) : kicks (3 + PERIOD * c) = c := by
  simp only [kicks, PERIOD]
  omega

theorem kicks_next (h : 0 < i) (hi : i ≤ PERIOD) : kicks (3 + PERIOD * c + i) = c + 1 := by
  simp only [kicks, PERIOD] at *
  omega

/-- Only log and memory count. -/
theorem Served.congr (h : Served m₀ i m) (hlog : m'.log = m.log) (hmem : m'.mem = m.mem) (hk : kicks j = kicks i) :
    Served m₀ j m' := by
  refine ⟨?_, ?_, ?_⟩
  · rw [hlog, hk, h.log]
  · rw [hmem]
    exact h.mem
  · rw [hk, hmem]
    exact h.one

/-- The write. -/
theorem Holding.store (h : Holding m₀ c m) : Served m₀ (3 + PERIOD * c + 1) ((Op.str .r5 .r4 0).exec m) := by
  have haddr : align (m.reg .r4 + 0) = WATCHDOG_RESET := by
    rw [h.r4]
    decide
  have hexec : (Op.str .r5 .r4 0).exec m =
      (m.setMem (store32 m.mem WATCHDOG_RESET 1)).touch (.store WATCHDOG_RESET 4) := by
    rw [Op.exec, haddr, h.r5]
  have hlog := h.served.log
  rw [kicks_start] at hlog
  rw [hexec]
  refine ⟨?_, ?_, ?_⟩
  · rw [kicks_next (by omega) (by decide), Machine.log_touch, Machine.log_setMem, hlog, List.replicate_succ',
      List.append_assoc]
  · intro x hx
    exact (store32_of_not_within hx).trans (h.served.mem x hx)
  · exact fun _ => load32_store32 ..

/-- One period: the write, the delay, and the branch back. -/
theorem Holding.period (h : Holding m₀ c m) : ∃ t m', Passes hold (hold.codeAt .kick) m t (hold.codeAt .kick) m' ∧
    t.length = PERIOD ∧ (∀ i (hi : i < t.length), Served m₀ (3 + PERIOD * c + i) t[i]) ∧ Holding m₀ (c + 1) m' := by
  have hkick : hold.codeAt .kick = kickBlock ++ hold.codeAt .delay := rfl
  have hdelay : hold.codeAt .delay = countdown .delay .r0 ++ [.b .kick] := rfl
  have hs := h.store
  generalize hm1 : (Op.str .r5 .r4 0).exec m = m1 at hs
  have hreg : m1.reg = m.reg := by
    rw [← hm1]
    rfl
  have hm2 : (Op.mov .r0 (.reg .r6)).exec m1 = m1.set .r0 DELAY_ITERATIONS := by
    rw [Op.exec, Op2.eval, hreg, h.r6]
  obtain ⟨t, hpass, hlen, hall⟩ := passes_countdown (m := m1.set .r0 DELAY_ITERATIONS) (n := 0x10000) hdelay (by omega)
    (by omega) (by simp [Machine.reg_set, DELAY_ITERATIONS])
  generalize hm3 : ((m1.set .r0 DELAY_ITERATIONS).set .r0 0).setFlags (subFlags 1 1) = m3 at hpass
  have hback : Passes hold [.b .kick] m3 [m3] (hold.codeAt .kick) m3 := .b .here
  have hperiod : Passes hold (hold.codeAt .kick) m (m :: m1 :: (t ++ [m3])) (hold.codeAt .kick) m3 := by
    rw [hkick]
    apply Passes.label
    apply Passes.op_al
    rw [hm1]
    apply Passes.op_al
    rw [hm2]
    exact hpass.trans hback
  have hlength : (m :: m1 :: (t ++ [m3])).length = PERIOD := by
    simp only [List.length_cons, List.length_append, List.length_nil, hlen, PERIOD]
  have hquiet : ∀ s ∈ m1 :: (t ++ [m3]), s.log = m1.log ∧ s.mem = m1.mem := by
    intro s hsmem
    rcases List.mem_cons.mp hsmem with rfl | hsmem
    · exact ⟨rfl, rfl⟩
    rcases List.mem_append.mp hsmem with hsmem | hsmem
    · obtain ⟨w, f, rfl⟩ := hall s hsmem
      exact ⟨rfl, rfl⟩
    · rw [List.mem_singleton.mp hsmem, ← hm3]
      exact ⟨rfl, rfl⟩
  refine ⟨_, _, hperiod, hlength, ?_, ?_, ?_, ?_, ?_⟩
  · intro i hi
    rw [hlength] at hi
    cases i with
    | zero => exact h.served
    | succ i =>
      have hi' : i < (m1 :: (t ++ [m3])).length := by
        rw [List.length_cons] at hlength
        omega
      obtain ⟨hlog, hmem⟩ := hquiet _ (List.getElem_mem hi')
      apply hs.congr hlog hmem
      rw [kicks_next (by omega) (by omega), kicks_next (by omega) (by decide)]
  · simp [← hm3, Machine.reg_set, hreg, h.r4]
  · simp [← hm3, Machine.reg_set, hreg, h.r5]
  · simp [← hm3, Machine.reg_set, hreg, h.r6]
  · obtain ⟨hlog, hmem⟩ := hquiet m3 (by simp)
    apply hs.congr hlog hmem
    rw [kicks_start, kicks_next (by omega) (by decide)]

/-- The setup sets the registers of the loop. -/
theorem passes_setup (m₀ : Machine) : ∃ t m, Passes hold hold.lines m₀ t (hold.codeAt .kick) m ∧ t.length = 3 ∧
    (∀ i (hi : i < t.length), Served m₀ i t[i]) ∧ Holding m₀ 0 m := by
  have hlines : hold.lines = setupBlock ++ hold.codeAt .kick := rfl
  have hserved : ∀ i ≤ 3, ∀ m, m.log = m₀.log → m.mem = m₀.mem → Served m₀ i m := by
    intro i hi m hlog hmem
    have hk : kicks i = 0 := by
      simp only [kicks, PERIOD]
      omega
    refine ⟨?_, ?_, ?_⟩
    · rw [hk, hlog, List.replicate_zero, List.append_nil]
    · rw [hmem]
      exact fun _ _ => rfl
    · rw [hk]
      intro h
      omega
  refine ⟨_, _, by rw [hlines]; exact .op_al (.op_al (.op_al .here)), rfl, ?_, ?_, ?_, ?_, ?_⟩
  · intro i hi
    rcases i with - | - | - | i
    · exact hserved 0 (by omega) _ rfl rfl
    · exact hserved 1 (by omega) _ rfl rfl
    · exact hserved 2 (by omega) _ rfl rfl
    · simp only [List.length_cons, List.length_nil] at hi
      omega
  · simp [Op.exec, Machine.reg_set]
  · simp [Op.exec, Op2.eval, Machine.reg_set]
  · simp [Op.exec, Op2.eval, Machine.reg_set]
  · exact hserved 3 (by omega) _ rfl rfl

/-- Any number of periods. -/
theorem passes_periods (m₀ : Machine) (c : Nat) : ∃ t m, Passes hold hold.lines m₀ t (hold.codeAt .kick) m ∧
    t.length = 3 + PERIOD * c ∧ (∀ i (hi : i < t.length), Served m₀ i t[i]) ∧ Holding m₀ c m := by
  induction c with
  | zero => exact passes_setup m₀
  | succ c ih =>
    obtain ⟨t, m, hpass, hlen, hserved, hm⟩ := ih
    obtain ⟨t', m', hpass', hlen', hserved', hm'⟩ := hm.period
    refine ⟨t ++ t', m', hpass.trans hpass', ?_, ?_, hm'⟩
    · rw [List.length_append, hlen, hlen']
      simp only [PERIOD]
      omega
    · intro i hi
      by_cases h : i < t.length
      · rw [List.getElem_append_left h]
        exact hserved i h
      · rw [List.getElem_append_right (by omega)]
        have := hserved' (i - t.length) (by rw [List.length_append] at hi; omega)
        have hsum : 3 + PERIOD * c + (i - t.length) = i := by omega
        rwa [hsum] at this

/-- The loop never ends, for any number of instructions: the log holds the writes due so far and nothing else, and no
byte of memory but those of the register has changed. -/
theorem hold_endless (env : Word → Machine → Machine) (m₀ : Machine) :
    (∀ n, hold.run env n hold.lines m₀ = none) ∧ (∀ n, ∃ fuel, n ≤ (hold.visited env fuel hold.lines m₀).length) ∧
      ∀ n i (hi : i < (hold.visited env n hold.lines m₀).length), Served m₀ i (hold.visited env n hold.lines m₀)[i] := by
  have h : Endless hold (Served m₀) hold.lines m₀ := by
    intro n
    obtain ⟨t, m, hpass, hlen, hserved, -⟩ := passes_periods m₀ n
    refine ⟨t, _, m, hpass, ?_, hserved⟩
    rw [hlen]
    simp only [PERIOD]
    omega
  exact ⟨h.run_eq_none env, h.length_visited env, h.visited env⟩

end ShadowMsm.Watchdog
