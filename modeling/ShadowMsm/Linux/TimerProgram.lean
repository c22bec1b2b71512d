import Mathlib.Algebra.Group.Nat.Defs
import ShadowMsm.Lib.Traced
import ShadowMsm.Linux.Numbers

/-!
# Programming the MSM6290 timer

`shadow_timer_program` (`timer-shadow-msm.c`) reads the running counter until two reads agree, loads a match value
ahead of it, and polls a status bit.  It does not read the counter again, so it reports success also when the
counter has passed the match value meanwhile; the event then comes a whole turn of the counter later
(`programsAhead_iff`).
-/

namespace ShadowMsm.Linux.Timer

open Traced

/-! ### Registers and the counter -/

def SHADOW_MSM_TIMER_COUNT : U32 := 0x08
def SHADOW_MSM_TIMER_STATUS : U32 := 0xc0
def SHADOW_MSM_TIMER_MATCH : U32 := 0xc4
def SHADOW_MSM_TIMER_MIN_DELTA : U32 := 6

/-- What the accesses to come meet: the ticks since the counter was zero, which never go back and grow by less
than half a turn of the counter in all, and what the status register holds. -/
structure Course where
  ticks : Nat → Nat
  status : Nat → U32
  mono : ∀ k, ticks k ≤ ticks (k + 1)
  total : ∀ k, ticks k < ticks 0 + 2 ^ 31

namespace Course

theorem ticks_le (course : Course) {i j : Nat} (h : i ≤ j) : course.ticks i ≤ course.ticks j := by
  induction h with
  | refl => exact Nat.le_refl _
  | step _ ih => exact Nat.le_trans ih (course.mono _)

/-- What is left after `n` accesses. -/
def drop (course : Course) (n : Nat) : Course where
  ticks k := course.ticks (n + k)
  status k := course.status (n + k)
  mono k := course.mono (n + k)
  total k := by
    have htotal := course.total (n + k)
    have hle : course.ticks 0 ≤ course.ticks (n + 0) := course.ticks_le (Nat.zero_le _)
    omega

@[simp] theorem drop_drop (course : Course) (m n : Nat) : (course.drop m).drop n = course.drop (m + n) := by
  simp [drop, Nat.add_assoc]

/-- The 32 bits of the counter at an access. -/
def count (course : Course) (k : Nat) : U32 := BitVec.ofNat 32 (course.ticks k)

/-- What a register reads at the next access. -/
def register (course : Course) (offset : U32) : U32 :=
  if offset = SHADOW_MSM_TIMER_COUNT then course.count 0 else course.status 0

end Course

/-- An access of the driver, at a tick. -/
inductive Access
  | read (tick : Nat) (offset value : U32)
  | write (tick : Nat) (offset value : U32)

def Access.tick : Access → Nat
  | .read tick _ _ => tick
  | .write tick _ _ => tick

/-- The reads of the counter have not agreed when the rounds allowed are used up. -/
inductive Pending
  | changing

abbrev Program := Traced Pending Course Access

/-- `readl_relaxed(shadow_timer_base + offset)` -/
def readl (offset : U32) : Program U32 := fun c =>
  (.ok (c.register offset), c.drop 1, [.read (c.ticks 0) offset (c.register offset)])

/-- `writel_relaxed(value, shadow_timer_base + offset)` -/
def writel (value offset : U32) : Program Unit := fun c => (.ok (), c.drop 1, [.write (c.ticks 0) offset value])

/-! ### The driver -/

/-- One round of the loop of `shadow_timer_read_count`. -/
def countRound (first : U32) : Program (U32 ⊕ U32) := do
  let second ← readl SHADOW_MSM_TIMER_COUNT
  if first = second then return .inr second else return .inl second

def shadowTimerReadCount (n : Nat) : Program U32 := do
  let first ← readl SHADOW_MSM_TIMER_COUNT
  Traced.loop countRound .changing n first

/-- The polls of the status; `guard` are left. -/
def pollStatus : Nat → Program Int
  | 0 => return -ETIME
  | guard + 1 => do
    let status ← readl SHADOW_MSM_TIMER_STATUS
    if status &&& 1 ≠ 0 then return 0 else pollStatus guard

def shadowTimerProgram (n : Nat) (delta : U32) : Program Int := do
  let delta := if delta < SHADOW_MSM_TIMER_MIN_DELTA then SHADOW_MSM_TIMER_MIN_DELTA else delta
  let now ← shadowTimerReadCount n
  writel (now + delta) SHADOW_MSM_TIMER_MATCH
  pollStatus 1024

/-! ### What is asked of a call -/

/-- At the last access the match value that was written is ahead of the counter, by less than half a turn. -/
def StillAhead (log : List Access) : Prop :=
  ∃ last tick value, log.getLast? = some last ∧ .write tick SHADOW_MSM_TIMER_MATCH value ∈ log ∧
    0 < (value - BitVec.ofNat 32 last.tick).toNat ∧ (value - BitVec.ofNat 32 last.tick).toNat < 2 ^ 31

/-- Every call that returns 0 leaves its match value ahead. -/
def ProgramsAhead (delta : U32) (course : Course) : Prop :=
  ∀ n course' log, shadowTimerProgram n delta course = (.ok 0, course', log) → StillAhead log

/-- The access `k` and the next one are the first two reads of the counter that agree. -/
def AgreeAt (course : Course) (k : Nat) : Prop :=
  course.count k = course.count (k + 1) ∧ ∀ j, j < k → course.count j ≠ course.count (j + 1)

theorem agreeAt_unique {course : Course} {k k' : Nat} (h : AgreeAt course k) (h' : AgreeAt course k') :
    k = k' := by
  rcases Nat.lt_trichotomy k k' with hlt | heq | hlt
  · exact absurd h.1 (h'.2 k hlt)
  · exact heq
  · exact absurd h'.1 (h.2 k' hlt)

/-- The access `k` is the first one that finds the status bit set. -/
def LoadedAt (course : Course) (k : Nat) : Prop :=
  course.status k &&& 1 ≠ 0 ∧ ∀ j, j < k → course.status j &&& 1 = 0

theorem loadedAt_unique {course : Course} {k k' : Nat} (h : LoadedAt course k) (h' : LoadedAt course k') :
    k = k' := by
  rcases Nat.lt_trichotomy k k' with hlt | heq | hlt
  · exact absurd (h'.2 k hlt) h.1
  · exact heq
  · exact absurd (h.2 k' hlt) h'.1

/-- From the read that gives the count to the poll that finds the status bit the counter advances by less than the
delta, and by less than six ticks where that is larger. -/
def InTime (delta : U32) (course : Course) : Prop :=
  ∀ k p, AgreeAt course k → p < 1024 → LoadedAt (course.drop (k + 3)) p →
    course.ticks (k + 3 + p) < course.ticks (k + 1) + max delta.toNat 6

/-! ### The reads of the counter -/

/-- An access that does not write the match value. -/
def Access.NoMatch (a : Access) : Prop := ∀ tick value, a ≠ .write tick SHADOW_MSM_TIMER_MATCH value

theorem noMatch_read (tick : Nat) (offset value : U32) : Access.NoMatch (.read tick offset value) := by
  intro tick' value' h
  cases h

theorem count_drop (course : Course) (m k : Nat) : (course.drop m).count k = course.count (m + k) := rfl

/-- The first agreement behind one more read. -/
theorem agreeAt_succ {course : Course} {k : Nat} :
    AgreeAt course (k + 1) ↔ course.count 0 ≠ course.count 1 ∧ AgreeAt (course.drop 1) k := by
  have hdrop (j : Nat) : (course.drop 1).count j = course.count (j + 1) := by rw [count_drop, Nat.add_comm]
  unfold AgreeAt
  simp only [hdrop]
  constructor
  · rintro ⟨heq, hne⟩
    exact ⟨hne 0 (Nat.succ_pos k), heq, fun j hj => hne (j + 1) (by omega)⟩
  · rintro ⟨h0, heq, hne⟩
    refine ⟨heq, fun j hj => ?_⟩
    cases j with
    | zero => exact h0
    | succ j => exact hne j (by omega)

theorem countRound_run (first : U32) (course : Course) :
    countRound first course = (.ok (if first = course.count 0 then .inr (course.count 0) else .inl (course.count 0)),
      course.drop 1, [.read (course.ticks 0) SHADOW_MSM_TIMER_COUNT (course.count 0)]) := by
  have hread : readl SHADOW_MSM_TIMER_COUNT course =
      (.ok (course.count 0), course.drop 1, [.read (course.ticks 0) SHADOW_MSM_TIMER_COUNT (course.count 0)]) := rfl
  rw [countRound, run_bind_ok hread]
  split <;> rfl

/-- The loop over the reads ends with the first agreement; the read before it is given. -/
theorem countLoop_ok {n : Nat} {course course' : Course} {now : U32} {l : List Access}
    (h : Traced.loop countRound Pending.changing n (course.count 0) (course.drop 1) = (.ok now, course', l)) :
    ∃ k, AgreeAt course k ∧ now = course.count (k + 1) ∧ course' = course.drop (k + 2) := by
  -- a round compares the read before it with its own, so the next rounds are a loop over the course behind one access
  induction n generalizing course l with
  | zero => cases h
  | succ n ih =>
    obtain ⟨x, c₁, l₁, l₂, h₁, h₂, rfl⟩ := of_run_bind_ok h
    rw [countRound_run] at h₁
    have hfirst : (course.drop 1).count 0 = course.count 1 := rfl
    by_cases heq : course.count 0 = course.count 1
    · rw [hfirst, if_pos heq] at h₁
      cases h₁
      cases h₂
      exact ⟨0, ⟨heq, fun j hj => absurd hj (Nat.not_lt_zero j)⟩, rfl, Course.drop_drop _ _ _⟩
    · rw [hfirst, if_neg heq] at h₁
      cases h₁
      obtain ⟨k, hk, hnow, hc⟩ := @ih (course.drop 1) l₂ h₂
      refine ⟨k + 1, agreeAt_succ.mpr ⟨heq, hk⟩, ?_, ?_⟩
      · rw [hnow, count_drop, Nat.add_comm]
      · rw [hc, Course.drop_drop, Nat.add_comm]

theorem countLoop_of_agree {course : Course} {k : Nat} (h : AgreeAt course k) :
    ∃ l, Traced.loop countRound Pending.changing (k + 1) (course.count 0) (course.drop 1) =
      (.ok (course.count (k + 1)), course.drop (k + 2), l) := by
  induction k generalizing course with
  | zero =>
    have hfirst : (course.drop 1).count 0 = course.count 1 := rfl
    have hround := countRound_run (course.count 0) (course.drop 1)
    rw [hfirst, if_pos h.1, Course.drop_drop] at hround
    exact ⟨_, run_bind_ok hround⟩
  | succ k ih =>
    obtain ⟨hne, h⟩ := agreeAt_succ.mp h
    have hround := countRound_run (course.count 0) (course.drop 1)
    have hfirst : (course.drop 1).count 0 = course.count 1 := rfl
    rw [hfirst, if_neg hne] at hround
    obtain ⟨l, hl⟩ := ih h
    have hcount : (course.drop 1).count (k + 1) = course.count (k + 1 + 1) := by rw [count_drop, Nat.add_comm]
    have hrest : (course.drop 1).drop (k + 2) = course.drop (k + 1 + 2) := by rw [Course.drop_drop, Nat.add_comm]
    rw [hcount, hrest] at hl
    refine ⟨[.read ((course.drop 1).ticks 0) SHADOW_MSM_TIMER_COUNT (course.count 1)] ++ l,
      (run_bind_ok hround).trans ?_⟩
    change ((Traced.loop countRound Pending.changing (k + 1) ((course.drop 1).count 0) ((course.drop 1).drop 1)).1,
      (Traced.loop countRound Pending.changing (k + 1) ((course.drop 1).count 0) ((course.drop 1).drop 1)).2.1, _ ++
        (Traced.loop countRound Pending.changing (k + 1) ((course.drop 1).count 0) ((course.drop 1).drop 1)).2.2) = _
    rw [hl]

theorem readCount_run (n : Nat) (course : Course) :
    shadowTimerReadCount n course =
      let rest := Traced.loop countRound Pending.changing n (course.count 0) (course.drop 1)
      (rest.1, rest.2.1, .read (course.ticks 0) SHADOW_MSM_TIMER_COUNT (course.count 0) :: rest.2.2) := rfl

theorem noMatch_readl (offset : U32) : Emits (readl offset) Access.NoMatch := by
  constructor
  intro c a ha
  obtain rfl := List.mem_singleton.mp ha
  exact noMatch_read _ _ _

theorem noMatch_readCount (n : Nat) : Emits (shadowTimerReadCount n) Access.NoMatch := by
  apply emits_bind (noMatch_readl _)
  intro first
  refine emits_loop (fun b => ?_) n first
  apply emits_bind (noMatch_readl _)
  intro second
  split <;> exact emits_pure

/-! ### The polls of the status -/

theorem loadedAt_succ {course : Course} {p : Nat} :
    LoadedAt course (p + 1) ↔ course.status 0 &&& 1 = 0 ∧ LoadedAt (course.drop 1) p := by
  have hdrop (j : Nat) : (course.drop 1).status j = course.status (j + 1) := by
    rw [Nat.add_comm]
    rfl
  unfold LoadedAt
  simp only [hdrop]
  constructor
  · rintro ⟨hset, hclear⟩
    exact ⟨hclear 0 (Nat.succ_pos p), hset, fun j hj => hclear (j + 1) (by omega)⟩
  · rintro ⟨h0, hset, hclear⟩
    refine ⟨hset, fun j hj => ?_⟩
    cases j with
    | zero => exact h0
    | succ j => exact hclear j (by omega)

theorem readStatus_run (course : Course) : readl SHADOW_MSM_TIMER_STATUS course =
    (.ok (course.status 0), course.drop 1, [.read (course.ticks 0) SHADOW_MSM_TIMER_STATUS (course.status 0)]) := rfl

theorem noMatch_pollStatus (guard : Nat) : Emits (pollStatus guard) Access.NoMatch := by
  induction guard with
  | zero => exact emits_pure
  | succ guard ih =>
    apply emits_bind (noMatch_readl _)
    intro status
    split
    · exact emits_pure
    · exact ih

/-- A poll that succeeds has found the bit, and it was the last access. -/
theorem pollStatus_ok {guard : Nat} {course course' : Course} {l : List Access}
    (h : pollStatus guard course = (.ok 0, course', l)) :
    ∃ p, p < guard ∧ LoadedAt course p ∧
      l.getLast? = some (.read (course.ticks p) SHADOW_MSM_TIMER_STATUS (course.status p)) := by
  induction guard generalizing course l with
  | zero =>
    have hret := congrArg Prod.fst h
    exact absurd (Except.ok.inj hret) (by decide)
  | succ guard ih =>
    rw [pollStatus, run_bind_ok (readStatus_run course)] at h
    by_cases hset : course.status 0 &&& 1 ≠ 0
    · rw [if_pos hset] at h
      cases h
      exact ⟨0, Nat.succ_pos guard, ⟨hset, fun j hj => absurd hj (Nat.not_lt_zero j)⟩, rfl⟩
    · rw [if_neg hset] at h
      rcases hrest : pollStatus guard (course.drop 1) with ⟨r, course₁, l₁⟩
      rw [hrest] at h
      cases h
      obtain ⟨p, hp, hloaded, hlast⟩ := ih hrest
      refine ⟨p + 1, Nat.succ_lt_succ hp, loadedAt_succ.mpr ⟨not_not.mp hset, hloaded⟩, ?_⟩
      rw [List.getLast?_append, hlast, Nat.add_comm p 1]
      rfl

theorem pollStatus_of_loaded {guard p : Nat} {course : Course} (hp : p < guard) (h : LoadedAt course p) :
    ∃ course' l, pollStatus guard course = (.ok 0, course', l) := by
  induction guard generalizing course p with
  | zero => exact absurd hp (Nat.not_lt_zero p)
  | succ guard ih =>
    rw [pollStatus, run_bind_ok (readStatus_run course)]
    cases p with
    | zero =>
      rw [if_pos h.1]
      exact ⟨_, _, rfl⟩
    | succ p =>
      obtain ⟨h0, h⟩ := loadedAt_succ.mp h
      rw [if_neg (not_not.mpr h0)]
      obtain ⟨course', l, hl⟩ := ih (Nat.lt_of_succ_lt_succ hp) h
      rw [hl]
      exact ⟨_, _, rfl⟩

/-! ### The match value -/

/-- A match value is ahead of a later count exactly if the counter has advanced by less than the delta. -/
theorem ahead_iff {a b : Nat} {delta : U32} (hab : a ≤ b) (hb : b < a + 2 ^ 31) (hdelta : delta.toNat < 2 ^ 31) :
    (0 < (BitVec.ofNat 32 a + delta - BitVec.ofNat 32 b).toNat ∧
      (BitVec.ofNat 32 a + delta - BitVec.ofNat 32 b).toNat < 2 ^ 31) ↔ b < a + delta.toNat := by
  have hvalue : (BitVec.ofNat 32 a + delta - BitVec.ofNat 32 b).toNat =
      (2 ^ 32 - b % 2 ^ 32 + (a % 2 ^ 32 + delta.toNat) % 2 ^ 32) % 2 ^ 32 := by
    rw [BitVec.toNat_sub, BitVec.toNat_add, BitVec.toNat_ofNat, BitVec.toNat_ofNat]
  -- both the delta and the advance are less than half a turn, so the wrapped difference tells which is larger
  rw [hvalue]
  omega

/-- The delta after `if (delta < SHADOW_MSM_TIMER_MIN_DELTA)`. -/
def clampDelta (delta : U32) : U32 :=
  if delta < SHADOW_MSM_TIMER_MIN_DELTA then SHADOW_MSM_TIMER_MIN_DELTA else delta

theorem toNat_clampDelta (delta : U32) : (clampDelta delta).toNat = max delta.toNat 6 := by
  unfold clampDelta
  split
  · have hlt : delta.toNat < 6 := ‹delta < SHADOW_MSM_TIMER_MIN_DELTA›
    rw [Nat.max_eq_right (by omega)]
    rfl
  · have hle : ¬ delta.toNat < 6 := ‹¬ delta < SHADOW_MSM_TIMER_MIN_DELTA›
    exact (Nat.max_eq_left (by omega)).symm

/-! ### Calls -/

theorem readCount_ok {n : Nat} {course course' : Course} {now : U32} {l : List Access}
    (h : shadowTimerReadCount n course = (.ok now, course', l)) :
    ∃ k, AgreeAt course k ∧ now = course.count (k + 1) ∧ course' = course.drop (k + 2) := by
  rw [readCount_run] at h
  rcases hrest : Traced.loop countRound Pending.changing n (course.count 0) (course.drop 1) with ⟨r, course₁, l₁⟩
  rw [hrest] at h
  cases h
  exact countLoop_ok hrest

theorem readCount_of_agree {course : Course} {k : Nat} (h : AgreeAt course k) :
    ∃ l, shadowTimerReadCount (k + 1) course = (.ok (course.count (k + 1)), course.drop (k + 2), l) := by
  obtain ⟨l, hl⟩ := countLoop_of_agree h
  rw [readCount_run, hl]
  exact ⟨_, rfl⟩

theorem program_eq (n : Nat) (delta : U32) : shadowTimerProgram n delta = (do
    let now ← shadowTimerReadCount n
    writel (now + clampDelta delta) SHADOW_MSM_TIMER_MATCH
    pollStatus 1024) := rfl

theorem writeMatch_run (value : U32) (course : Course) : writel value SHADOW_MSM_TIMER_MATCH course =
    (.ok (), course.drop 1, [.write (course.ticks 0) SHADOW_MSM_TIMER_MATCH value]) := rfl

/-- What a call that returns 0 has met and done. -/
theorem program_ok {n : Nat} {delta : U32} {course course' : Course} {log : List Access}
    (h : shadowTimerProgram n delta course = (.ok 0, course', log)) :
    ∃ k p, AgreeAt course k ∧ p < 1024 ∧ LoadedAt (course.drop (k + 3)) p ∧
      (∃ last, log.getLast? = some last ∧ last.tick = course.ticks (k + 3 + p)) ∧
        ∀ tick value, .write tick SHADOW_MSM_TIMER_MATCH value ∈ log ↔
          tick = course.ticks (k + 2) ∧ value = course.count (k + 1) + clampDelta delta := by
  rw [program_eq] at h
  obtain ⟨now, course₁, l₁, l₂, h₁, h₂, rfl⟩ := of_run_bind_ok h
  obtain ⟨k, hk, rfl, rfl⟩ := readCount_ok h₁
  obtain ⟨_, course₂, l₃, l₄, h₃, h₄, rfl⟩ := of_run_bind_ok h₂
  rw [writeMatch_run] at h₃
  cases h₃
  rw [Course.drop_drop] at h₄
  obtain ⟨p, hp, hloaded, hlast⟩ := pollStatus_ok h₄
  refine ⟨k, p, hk, hp, hloaded,
    ⟨.read ((course.drop (k + 3)).ticks p) SHADOW_MSM_TIMER_STATUS ((course.drop (k + 3)).status p), ?_, rfl⟩, ?_⟩
  · rw [List.getLast?_append, List.getLast?_append, hlast]
    rfl
  · intro tick value
    -- neither the reads of the counter nor the polls write the match value
    have hreads : .write tick SHADOW_MSM_TIMER_MATCH value ∉ l₁ := fun hmem =>
      (noMatch_readCount n).of_run h₁ _ hmem tick value rfl
    have hpolls : .write tick SHADOW_MSM_TIMER_MATCH value ∉ l₄ := fun hmem =>
      (noMatch_pollStatus 1024).of_run h₄ _ hmem tick value rfl
    simp [hreads, hpolls, Course.drop]

theorem program_of_loaded (delta : U32) {course : Course} {k p : Nat} (hk : AgreeAt course k) (hp : p < 1024)
    (h : LoadedAt (course.drop (k + 3)) p) :
    ∃ course' log, shadowTimerProgram (k + 1) delta course = (.ok 0, course', log) := by
  obtain ⟨l, hl⟩ := readCount_of_agree hk
  obtain ⟨course', l', hl'⟩ := pollStatus_of_loaded hp h
  rw [program_eq, run_bind_ok hl, run_bind_ok (writeMatch_run _ _), Course.drop_drop, hl']
  exact ⟨_, _, rfl⟩

/-- A call never programs a match value that has been passed exactly if the counter advances by less than the
delta from the read that gives the count to the last poll. -/
theorem programsAhead_iff {delta : U32} (hdelta : delta.toNat ≤ 0x7fffffff) (course : Course) :
    ProgramsAhead delta course ↔ InTime delta course := by
  have hclamp := toNat_clampDelta delta
  have hsmall : (clampDelta delta).toNat < 2 ^ 31 := by omega
  have hahead (k p : Nat) := ahead_iff (course.ticks_le (show k + 1 ≤ k + 3 + p by omega))
    (show course.ticks (k + 3 + p) < course.ticks (k + 1) + 2 ^ 31 by
      have htotal := course.total (k + 3 + p)
      have hle := course.ticks_le (Nat.zero_le (k + 1))
      omega) hsmall
  constructor
  · intro h k p hk hp hloaded
    obtain ⟨course', log, hrun⟩ := program_of_loaded delta hk hp hloaded
    obtain ⟨last, tick, value, hlast, hmem, hvalue⟩ := h _ _ _ hrun
    obtain ⟨k', p', hk', -, hloaded', ⟨last', hlast', htick⟩, hwrite⟩ := program_ok hrun
    -- the run that exists for these accesses is the only one, whatever number of rounds is allowed
    obtain rfl := agreeAt_unique hk hk'
    obtain rfl := loadedAt_unique hloaded hloaded'
    obtain rfl := Option.some.inj (hlast.symm.trans hlast')
    obtain ⟨-, rfl⟩ := (hwrite tick value).mp hmem
    rw [htick] at hvalue
    rw [← hclamp]
    exact (hahead k p).mp hvalue
  · intro h n course' log hrun
    obtain ⟨k, p, hk, hp, hloaded, ⟨last, hlast, htick⟩, hwrite⟩ := program_ok hrun
    have hin := h k p hk hp hloaded
    rw [← hclamp] at hin
    refine ⟨last, _, _, hlast, (hwrite _ _).mpr ⟨rfl, rfl⟩, ?_⟩
    rw [htick]
    exact (hahead k p).mpr hin

/-- The counter stands at `before` for the first accesses and at `after` from access `k` on; the status bit is
set. -/
def courseAt (k before after : Nat) (h : before ≤ after) (htotal : after < before + 2 ^ 31) : Course where
  ticks i := if i < k then before else after
  status _ := 1
  mono i := by
    split <;> split <;> omega
  total i := by
    split <;> split <;> omega

/-- With a counter that moves by two ticks in all, a delta of six is kept. -/
theorem programsAhead_slow : ProgramsAhead 6 (courseAt 2 40 42 (by decide) (by decide)) := by
  apply (programsAhead_iff (by decide) _).mpr
  intro k p hk hp hloaded
  have h42 : (courseAt 2 40 42 (by decide) (by decide)).ticks (k + 3 + p) = 42 := if_neg (by omega)
  have h40 : 40 ≤ (courseAt 2 40 42 (by decide) (by decide)).ticks (k + 1) := by
    unfold courseAt
    dsimp only
    split <;> omega
  rw [h42]
  exact Nat.lt_of_lt_of_le (by decide) (Nat.add_le_add_right h40 _)

/-- A hundred ticks pass between the read of the counter and the write of the match value: the call returns 0, and
the match value is far behind the counter. -/
theorem not_programsAhead_late : ¬ ProgramsAhead 6 (courseAt 2 40 140 (by decide) (by decide)) := by
  intro h
  have hrun : ∃ course', shadowTimerProgram 1 6 (courseAt 2 40 140 (by decide) (by decide)) = (.ok 0, course',
      [.read 40 SHADOW_MSM_TIMER_COUNT 40, .read 40 SHADOW_MSM_TIMER_COUNT 40, .write 140 SHADOW_MSM_TIMER_MATCH 46,
        .read 140 SHADOW_MSM_TIMER_STATUS 1]) := ⟨_, rfl⟩
  obtain ⟨course', hrun⟩ := hrun
  obtain ⟨last, tick, value, hlast, hmem, -, hlt⟩ := h _ _ _ hrun
  obtain rfl : Access.read 140 SHADOW_MSM_TIMER_STATUS 1 = last := Option.some.inj hlast
  have hvalue : tick = 140 ∧ value = 46 := by simpa using hmem
  rw [hvalue.2] at hlt
  exact absurd hlt (by decide)

end ShadowMsm.Linux.Timer
