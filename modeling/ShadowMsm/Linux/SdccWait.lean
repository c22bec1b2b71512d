import ShadowMsm.Linux.Sdcc

/-!
# What a wait of the SD host says

`shadow_sdcc_wait_status` samples the status and then `jiffies`, and samples the status once more when the
deadline has passed; it returns `-ETIMEDOUT` then, whatever this last status shows.  A thread that was off the
processor between its last sample and the reading of `jiffies` so reports a timeout for a command that has ended
(`waits_classify_iff`).
-/

namespace ShadowMsm.Linux

open Traced

/-! ### The rounds of a wait -/

section

variable (wanted errors deadline : U32)

/-- Neither a wanted nor an error bit. -/
def NoneOf (status : U32) : Prop := status &&& wanted = 0 ∧ status &&& errors = 0

/-- The rounds before `k` go on; the readings are a status and a time in turn. -/
def Waiting (t : Readings) (k : Nat) : Prop :=
  ∀ j, j < k → NoneOf wanted errors (t (2 * j)) ∧ ¬timeAfter (t (2 * j + 1)) deadline

/-- A wait that ends in round `k`, with its result and `*last_status`. -/
inductive WaitEnd (t : Readings) (k : Nat) : Int × U32 → Prop
  | error (h : Waiting wanted errors deadline t k) (he : t (2 * k) &&& errors ≠ 0) : WaitEnd t k (- EIO, t (2 * k))
  | seen (h : Waiting wanted errors deadline t k) (he : t (2 * k) &&& errors = 0) (hw : t (2 * k) &&& wanted ≠ 0) :
    WaitEnd t k (0, t (2 * k))
  | late (h : Waiting wanted errors deadline t k) (hq : NoneOf wanted errors (t (2 * k)))
      (hl : timeAfter (t (2 * k + 1)) deadline) : WaitEnd t k (-ETIMEDOUT, t (2 * k + 2))

end

section

variable {wanted errors deadline : U32} {t : Readings}

theorem waiting_zero : Waiting wanted errors deadline t 0 := fun _ h => absurd h (Nat.not_lt_zero _)

/-- A wait that goes on after its first round is one over the readings behind it. -/
theorem waiting_succ {k : Nat} : Waiting wanted errors deadline t (k + 1) ↔
    (NoneOf wanted errors (t 0) ∧ ¬timeAfter (t 1) deadline) ∧
      Waiting wanted errors deadline (fun i => t (i + 2)) k := by
  constructor
  · intro h
    refine ⟨h 0 (Nat.succ_pos k), fun j hj => ?_⟩
    have hnext := h (j + 1) (by omega)
    exact hnext
  · rintro ⟨h0, h⟩ j hj
    cases j with
    | zero => exact h0
    | succ j => exact h j (by omega)

theorem waitEnd_succ {k : Nat} {w : Int × U32} : WaitEnd wanted errors deadline t (k + 1) w ↔
    (NoneOf wanted errors (t 0) ∧ ¬timeAfter (t 1) deadline) ∧
      WaitEnd wanted errors deadline (fun i => t (i + 2)) k w := by
  constructor
  · intro h
    cases h with
    | error h he =>
      obtain ⟨h0, h⟩ := waiting_succ.mp h
      exact ⟨h0, .error h he⟩
    | seen h he hw =>
      obtain ⟨h0, h⟩ := waiting_succ.mp h
      exact ⟨h0, .seen h he hw⟩
    | late h hq hl =>
      obtain ⟨h0, h⟩ := waiting_succ.mp h
      exact ⟨h0, .late h hq hl⟩
  · rintro ⟨h0, h⟩
    cases h with
    | error h he => exact .error (waiting_succ.mpr ⟨h0, h⟩) he
    | seen h he hw => exact .seen (waiting_succ.mpr ⟨h0, h⟩) he hw
    | late h hq hl => exact .late (waiting_succ.mpr ⟨h0, h⟩) hq hl

/-! What a round does. -/

theorem waitRound_error (he : t 0 &&& errors ≠ 0) :
    waitRound wanted errors deadline t = (.ok (.inr (- EIO, t 0)), fun i => t (i + 1), [.read MCI_STATUS (t 0)]) := by
  have hread : readl MCI_STATUS t = (.ok (t 0), fun i => t (i + 1), [.read MCI_STATUS (t 0)]) := rfl
  rw [waitRound, run_bind_ok hread, if_pos he]
  rfl

theorem waitRound_seen (he : t 0 &&& errors = 0) (hw : t 0 &&& wanted ≠ 0) :
    waitRound wanted errors deadline t = (.ok (.inr (0, t 0)), fun i => t (i + 1), [.read MCI_STATUS (t 0)]) := by
  have hread : readl MCI_STATUS t = (.ok (t 0), fun i => t (i + 1), [.read MCI_STATUS (t 0)]) := rfl
  rw [waitRound, run_bind_ok hread, if_neg (not_not.mpr he), if_pos hw]
  rfl

/-- Without a bit, the round reads `jiffies`, and the status again when it is late. -/
theorem waitRound_none (hq : NoneOf wanted errors (t 0)) :
    waitRound wanted errors deadline t =
      if timeAfter (t 1) deadline then
        (.ok (.inr (-ETIMEDOUT, t 2)), fun i => t (i + 3),
          [.read MCI_STATUS (t 0), .jiffies (t 1), .read MCI_STATUS (t 2)])
      else (.ok (.inl ()), fun i => t (i + 2), [.read MCI_STATUS (t 0), .jiffies (t 1)]) := by
  have hread : readl MCI_STATUS t = (.ok (t 0), fun i => t (i + 1), [.read MCI_STATUS (t 0)]) := rfl
  have htime : jiffies (fun i => t (i + 1)) = (.ok (t 1), fun i => t (i + 2), [.jiffies (t 1)]) := rfl
  rw [waitRound, run_bind_ok hread, if_neg (not_not.mpr hq.2), if_neg (not_not.mpr hq.1), run_bind_ok htime]
  split <;> rfl

/-- The statuses in the trace of a wait: the last one, and others without a wanted or error bit. -/
def StatusReads (wanted errors last : U32) (l : List Access) : Prop :=
  .read MCI_STATUS last ∈ l ∧ ∀ v, .read MCI_STATUS v ∈ l → v = last ∨ NoneOf wanted errors v

/-- A wait that returns ends in some round. -/
theorem waitLoop_ok {n : Nat} {w : Int × U32} {t' : Readings} {l : List Access}
    (h : loop (fun _ => waitRound wanted errors deadline) Pending.polling n () t = (.ok w, t', l)) :
    (∃ k, WaitEnd wanted errors deadline t k w) ∧ StatusReads wanted errors w.2 l := by
  induction n generalizing t l with
  | zero => cases h
  | succ n ih =>
    obtain ⟨x, t₁, l₁, l₂, h₁, h₂, rfl⟩ := of_run_bind_ok h
    change waitRound wanted errors deadline t = _ at h₁
    -- the source looks for an error bit first, then for a wanted one, and only then at the time
    by_cases he : t 0 &&& errors ≠ 0
    · cases (waitRound_error he).symm.trans h₁
      cases h₂
      exact ⟨⟨0, .error waiting_zero he⟩, by simp [StatusReads]⟩
    rw [not_not] at he
    by_cases hw : t 0 &&& wanted ≠ 0
    · cases (waitRound_seen he hw).symm.trans h₁
      cases h₂
      exact ⟨⟨0, .seen waiting_zero he hw⟩, by simp [StatusReads]⟩
    have hq : NoneOf wanted errors (t 0) := ⟨not_not.mp hw, he⟩
    rw [waitRound_none hq] at h₁
    by_cases hl : timeAfter (t 1) deadline
    · rw [if_pos hl] at h₁
      cases h₁
      cases h₂
      refine ⟨⟨0, .late waiting_zero hq hl⟩, by simp, ?_⟩
      intro v hv
      have hv : v = t 0 ∨ v = t 2 := by simpa using hv
      rcases hv with rfl | rfl
      · exact .inr hq
      · exact .inl rfl
    · rw [if_neg hl] at h₁
      cases h₁
      obtain ⟨⟨k, hk⟩, hlast, hall⟩ := ih h₂
      refine ⟨⟨k + 1, waitEnd_succ.mpr ⟨⟨hq, hl⟩, hk⟩⟩, List.mem_append_right _ hlast, ?_⟩
      intro v hv
      rcases List.mem_append.mp hv with hv | hv
      · have hv : v = t 0 := by simpa using hv
        rw [hv]
        exact .inr hq
      · exact hall v hv

/-- With enough rounds the wait gets to the round in which it ends. -/
theorem waitLoop_of_waitEnd {k : Nat} {w : Int × U32} (h : WaitEnd wanted errors deadline t k w) :
    ∃ t' l, loop (fun _ => waitRound wanted errors deadline) Pending.polling (k + 1) () t = (.ok w, t', l) := by
  induction k generalizing t with
  | zero =>
    cases h with
    | error _ he => exact ⟨_, _, run_bind_ok (waitRound_error he)⟩
    | seen _ he hw => exact ⟨_, _, run_bind_ok (waitRound_seen he hw)⟩
    | late _ hq hl => exact ⟨_, _, run_bind_ok ((waitRound_none hq).trans (if_pos hl))⟩
  | succ k ih =>
    obtain ⟨⟨hq, hl⟩, h⟩ := waitEnd_succ.mp h
    obtain ⟨t', l, hrun⟩ := ih h
    refine ⟨t', [.read MCI_STATUS (t 0), .jiffies (t 1)] ++ l,
      (run_bind_ok ((waitRound_none hq).trans (if_neg hl))).trans ?_⟩
    dsimp only
    rw [hrun]

end

/-! ### The classification -/

/-- The result of a wait agrees with the bits of `*last_status`. -/
def Classified (wanted errors : U32) (w : Int × U32) : Prop :=
  (w.1 = 0 → w.2 &&& wanted ≠ 0 ∧ w.2 &&& errors = 0) ∧ (w.1 = - EIO → w.2 &&& errors ≠ 0) ∧
    (w.1 = -ETIMEDOUT → NoneOf wanted errors w.2)

/-- Every wait over these readings that returns is classified. -/
def WaitClassifies (wanted errors timeoutMs : U32) (s : Readings) : Prop :=
  ∀ n w s' l, shadowSdccWaitStatus n wanted errors timeoutMs s = (.ok w, s', l) → Classified wanted errors w

/-- A command over these readings that reports a timeout has read no status with the bit that ends it. -/
def NoFalseTimeout (cmd : MmcCommand) (s : Readings) : Prop :=
  ∀ n c s' l, shadowSdccCommand n cmd s = (.ok c, s', l) → c.1 = -ETIMEDOUT →
    ∀ v, .read MCI_STATUS v ∈ l → v &&& terminal cmd = 0

/-- When the deadline passes between a status without a bit and the reading of `jiffies` behind it, the status
after it has `P`.  The readings are `jiffies`, and then a status and `jiffies` in turn. -/
def AtDeadline (wanted errors timeoutMs : U32) (P : U32 → Prop) (s : Readings) : Prop :=
  ∀ k, Waiting wanted errors (s 0 + msecsToJiffies timeoutMs) (fun i => s (i + 1)) k →
    NoneOf wanted errors (s (2 * k + 1)) → timeAfter (s (2 * k + 2)) (s 0 + msecsToJiffies timeoutMs) → P (s (2 * k + 3))

/-- The status with an error bit that ends a wait has `P`. -/
def AtError (wanted errors timeoutMs : U32) (P : U32 → Prop) (s : Readings) : Prop :=
  ∀ k, Waiting wanted errors (s 0 + msecsToJiffies timeoutMs) (fun i => s (i + 1)) k → s (2 * k + 1) &&& errors ≠ 0 →
    P (s (2 * k + 1))

section

variable {wanted errors timeoutMs : U32} {s : Readings}

/-- The results of a wait are those of its rounds. -/
theorem waitStatus_ok {n : Nat} {w : Int × U32} {s' : Readings} {l : List Access}
    (h : shadowSdccWaitStatus n wanted errors timeoutMs s = (.ok w, s', l)) :
    (∃ k, WaitEnd wanted errors (s 0 + msecsToJiffies timeoutMs) (fun i => s (i + 1)) k w) ∧
      StatusReads wanted errors w.2 l := by
  obtain ⟨start, s₁, l₁, l₂, h₁, h₂, rfl⟩ := of_run_bind_ok h
  cases h₁
  obtain ⟨hend, hlast, hall⟩ := waitLoop_ok h₂
  refine ⟨hend, List.mem_append_right _ hlast, ?_⟩
  intro v hv
  exact hall v (by simpa using hv)

theorem waitStatus_of_waitEnd {k : Nat} {w : Int × U32}
    (h : WaitEnd wanted errors (s 0 + msecsToJiffies timeoutMs) (fun i => s (i + 1)) k w) :
    ∃ s' l, shadowSdccWaitStatus (k + 1) wanted errors timeoutMs s = (.ok w, s', l) := by
  obtain ⟨s', l, hrun⟩ := waitLoop_of_waitEnd h
  have hstart : jiffies s = (.ok (s 0), fun i => s (i + 1), [.jiffies (s 0)]) := rfl
  refine ⟨s', .jiffies (s 0) :: l, ?_⟩
  rw [shadowSdccWaitStatus, run_bind_ok hstart, hrun]
  rfl

theorem waitClassifies_iff :
    WaitClassifies wanted errors timeoutMs s ↔ AtDeadline wanted errors timeoutMs (NoneOf wanted errors) s := by
  constructor
  · intro h k hk hq hl
    obtain ⟨s', l, hrun⟩ := waitStatus_of_waitEnd (.late hk hq hl)
    exact (h _ _ _ _ hrun).2.2 rfl
  · intro h n w s' l hrun
    obtain ⟨⟨k, hk⟩, -⟩ := waitStatus_ok hrun
    have hio : - EIO ≠ 0 := by decide
    have htime : -ETIMEDOUT ≠ 0 := by decide
    have hne : - EIO ≠ -ETIMEDOUT := by decide
    cases hk with
    | error hk he => exact ⟨fun h0 => absurd h0 hio, fun _ => he, fun h0 => absurd h0 hne⟩
    | seen hk he hw => exact ⟨fun _ => ⟨hw, he⟩, fun h0 => absurd h0.symm hio, fun h0 => absurd h0.symm htime⟩
    | late hk hq hl => exact ⟨fun h0 => absurd h0 htime, fun h0 => absurd h0.symm hne, fun _ => h k hk hq hl⟩

end

/-! ### Commands -/

/-- An access that does not read the status. -/
def Access.NoStatus (a : Access) : Prop := ∀ v, a ≠ .read MCI_STATUS v

theorem StatusReads.append {wanted errors last : U32} {l₁ l l₂ : List Access} (h : StatusReads wanted errors last l)
    (h₁ : ∀ a ∈ l₁, a.NoStatus) (h₂ : ∀ a ∈ l₂, a.NoStatus) : StatusReads wanted errors last (l₁ ++ (l ++ l₂)) := by
  refine ⟨List.mem_append_right _ (List.mem_append_left _ h.1), ?_⟩
  intro v hv
  rcases List.mem_append.mp hv with hv | hv
  · exact absurd rfl (h₁ _ hv v)
  · rcases List.mem_append.mp hv with hv | hv
    · exact h.2 v hv
    · exact absurd rfl (h₂ _ hv v)

theorem noStatus_commandEnd (cmd : MmcCommand) (error : Int) (status : U32) :
    Emits (commandEnd cmd error status) Access.NoStatus :=
  emits_commandEnd (fun _ _ => by simp [MCI_RESPONSE0, MCI_STATUS]) (fun _ _ => by simp [MCI_RESPONSE1, MCI_STATUS])
    (fun _ _ => by simp [MCI_RESPONSE2, MCI_STATUS]) (fun _ _ => by simp [MCI_RESPONSE3, MCI_STATUS])
    (fun _ _ => by simp) cmd error status

/-- The writes that start a command. -/
def commandStart (cmd : MmcCommand) : List Access :=
  [.write MCI_COMMAND 0, .write MCI_CLEAR MCI_CLEAR_ALL, .write MCI_ARGUMENT cmd.arg,
    .write MCI_COMMAND (commandWord cmd)]

theorem noStatus_commandStart (cmd : MmcCommand) : ∀ a ∈ commandStart cmd, a.NoStatus := by
  intro a ha v
  simp only [commandStart, List.mem_cons, List.not_mem_nil, or_false] at ha
  rcases ha with rfl | rfl | rfl | rfl <;> simp

/-- A command is its writes, its wait and its end. -/
theorem command_run (n : Nat) (cmd : MmcCommand) {w : Int × U32} {c : Int × MmcCommand} {s s₁ s₂ : Readings}
    {l₁ l₂ : List Access}
    (hwait : shadowSdccWaitStatus n (terminal cmd) MCI_CMD_ERRORS SHADOW_CMD_TIMEOUT_MS s = (.ok w, s₁, l₁))
    (hend : commandEnd cmd (commandErrno cmd w.1 w.2) w.2 s₁ = (.ok c, s₂, l₂)) :
    shadowSdccCommand n cmd s = (.ok c, s₂, commandStart cmd ++ (l₁ ++ l₂)) := by
  have hwrite (value offset : U32) : writel value offset s = (.ok (), s, [.write offset value]) := rfl
  rw [shadowSdccCommand, run_bind_ok (hwrite _ _), run_bind_ok (hwrite _ _), run_bind_ok (hwrite _ _),
    run_bind_ok (hwrite _ _), run_bind_ok hwait, hend]
  rfl

theorem commandEnd_run (cmd : MmcCommand) (error : Int) (status : U32) (s : Readings) :
    ∃ cmd' s' l, commandEnd cmd error status s = (.ok (error, cmd'), s', l) := by
  unfold commandEnd readResponses
  split <;> exact ⟨_, _, _, rfl⟩

theorem of_writel_bind_ok {α : Type} {value offset : U32} {f : Unit → Sdcc α} {a : α} {s s' : Readings}
    {l : List Access} (h : (writel value offset >>= f) s = (.ok a, s', l)) : ∃ l', f () s = (.ok a, s', l') := by
  obtain ⟨_, _, _, l', hw, h, -⟩ := of_run_bind_ok h
  cases hw
  exact ⟨l', h⟩

/-- The wait that a command ends with, and the statuses it has read. -/
theorem command_ok {n : Nat} {cmd : MmcCommand} {c : Int × MmcCommand} {s s' : Readings} {l : List Access}
    (h : shadowSdccCommand n cmd s = (.ok c, s', l)) :
    ∃ k w, WaitEnd (terminal cmd) MCI_CMD_ERRORS (s 0 + msecsToJiffies SHADOW_CMD_TIMEOUT_MS) (fun i => s (i + 1)) k w ∧
      c.1 = commandErrno cmd w.1 w.2 ∧ StatusReads (terminal cmd) MCI_CMD_ERRORS w.2 l := by
  have hparts : ∃ w s₁ l₁ l₂,
      shadowSdccWaitStatus n (terminal cmd) MCI_CMD_ERRORS SHADOW_CMD_TIMEOUT_MS s = (.ok w, s₁, l₁) ∧
        commandEnd cmd (commandErrno cmd w.1 w.2) w.2 s₁ = (.ok c, s', l₂) := by
    obtain ⟨_, h⟩ := of_writel_bind_ok h
    obtain ⟨_, h⟩ := of_writel_bind_ok h
    obtain ⟨_, h⟩ := of_writel_bind_ok h
    obtain ⟨_, h⟩ := of_writel_bind_ok h
    obtain ⟨w, s₁, l₁, l₂, h₁, h₂, -⟩ := of_run_bind_ok h
    exact ⟨w, s₁, l₁, l₂, h₁, h₂⟩
  obtain ⟨w, s₁, l₁, l₂, h₁, h₂⟩ := hparts
  cases (command_run n cmd h₁ h₂).symm.trans h
  obtain ⟨⟨k, hk⟩, hreads⟩ := waitStatus_ok h₁
  obtain ⟨cmd', s₂, l₃, hend⟩ := commandEnd_run cmd (commandErrno cmd w.1 w.2) w.2 s₁
  cases hend.symm.trans h₂
  exact ⟨k, w, hk, rfl, hreads.append (noStatus_commandStart cmd) ((noStatus_commandEnd _ _ _).of_run h₂)⟩

/-- A command ends with each wait that there is. -/
theorem command_of_waitEnd {cmd : MmcCommand} {s : Readings} {k : Nat} {w : Int × U32}
    (h : WaitEnd (terminal cmd) MCI_CMD_ERRORS (s 0 + msecsToJiffies SHADOW_CMD_TIMEOUT_MS) (fun i => s (i + 1)) k w) :
    ∃ n c s' l, shadowSdccCommand n cmd s = (.ok c, s', l) ∧ c.1 = commandErrno cmd w.1 w.2 ∧
      .read MCI_STATUS w.2 ∈ l := by
  obtain ⟨s₁, l₁, hwait⟩ := waitStatus_of_waitEnd h
  obtain ⟨cmd', s₂, l₂, hend⟩ := commandEnd_run cmd (commandErrno cmd w.1 w.2) w.2 s₁
  refine ⟨k + 1, _, _, _, command_run _ cmd hwait hend, rfl, ?_⟩
  exact List.mem_append_right _ (List.mem_append_left _ (waitStatus_ok hwait).2.1)

theorem commandErrno_error (cmd : MmcCommand) (status : U32) :
    commandErrno cmd (- EIO) status = -ETIMEDOUT ↔ status &&& MCI_STAT_CMD_TIMEOUT ≠ 0 := by
  unfold commandErrno
  rw [if_pos rfl]
  constructor
  · intro h h0
    rw [if_neg (not_not.mpr h0)] at h
    split at h
    · exact absurd h (by decide)
    · exact absurd h (by decide)
  · intro h
    rw [if_pos h]

theorem noFalseTimeout_iff {cmd : MmcCommand} {s : Readings} :
    NoFalseTimeout cmd s ↔
      AtDeadline (terminal cmd) MCI_CMD_ERRORS SHADOW_CMD_TIMEOUT_MS (fun last => last &&& terminal cmd = 0) s ∧
        AtError (terminal cmd) MCI_CMD_ERRORS SHADOW_CMD_TIMEOUT_MS
          (fun status => status &&& MCI_STAT_CMD_TIMEOUT ≠ 0 → status &&& terminal cmd = 0) s := by
  -- a timeout is reported after a wait that ends late, or after one that ends with an error bit
  have hio : - EIO ≠ -ETIMEDOUT := by decide
  constructor
  · intro h
    constructor
    · intro k hk hq hl
      obtain ⟨n, c, s', l, hrun, hc, hmem⟩ := command_of_waitEnd (.late hk hq hl)
      refine h n c s' l hrun ?_ _ hmem
      rw [hc]
      exact if_neg hio.symm
    · intro k hk he htimeout
      obtain ⟨n, c, s', l, hrun, hc, hmem⟩ := command_of_waitEnd (.error hk he)
      refine h n c s' l hrun ?_ _ hmem
      rw [hc]
      exact (commandErrno_error cmd _).mpr htimeout
  · rintro ⟨hdeadline, herror⟩ n c s' l hrun htimeout v hv
    obtain ⟨k, w, hk, hc, -, hall⟩ := command_ok hrun
    rcases hall v hv with rfl | hq
    · rw [hc] at htimeout
      cases hk with
      | error hk he => exact herror k hk he ((commandErrno_error cmd _).mp htimeout)
      | seen hk he hw =>
        have hzero : commandErrno cmd 0 (s (2 * k + 1)) = 0 := if_neg (by decide)
        exact absurd (hzero.symm.trans htimeout) (by decide)
      | late hk hq hl => exact hdeadline k hk hq hl
    · exact hq.1

/-- The waits over some readings are classified exactly if the status read after a missed deadline has no bit, and
a command reports a timeout honestly exactly if this status does not end it and no status both ends it and shows
the timeout of the controller. -/
theorem waits_classify_iff (s : Readings) :
    (∀ wanted errors timeoutMs : U32,
      WaitClassifies wanted errors timeoutMs s ↔ AtDeadline wanted errors timeoutMs (NoneOf wanted errors) s) ∧
    ∀ cmd : MmcCommand, NoFalseTimeout cmd s ↔
      AtDeadline (terminal cmd) MCI_CMD_ERRORS SHADOW_CMD_TIMEOUT_MS (fun last => last &&& terminal cmd = 0) s ∧
        AtError (terminal cmd) MCI_CMD_ERRORS SHADOW_CMD_TIMEOUT_MS
          (fun status => status &&& MCI_STAT_CMD_TIMEOUT ≠ 0 → status &&& terminal cmd = 0) s :=
  ⟨fun _ _ _ => waitClassifies_iff, fun _ => noFalseTimeout_iff⟩

/-- A thread off the processor for 2.01 seconds after its first sample; the response has arrived meanwhile. -/
def descheduled : Readings := fun k => if k = 2 then 201 else if k = 3 then MCI_STAT_CMD_RESP_END else 0

/-- `CMD17` -/
def readCommand : MmcCommand := ⟨MMC_READ_SINGLE_BLOCK, 0, MMC_RSP_PRESENT ||| MMC_RSP_CRC, true, (0, 0, 0, 0), 0⟩

/-- The response has been read, and the command reports a timeout. -/
theorem false_timeout :
    ¬ WaitClassifies MCI_STAT_CMD_RESP_END MCI_CMD_ERRORS SHADOW_CMD_TIMEOUT_MS descheduled ∧
      ¬ NoFalseTimeout readCommand descheduled := by
  have hlog (l : List Access) (h : (shadowSdccCommand 1 readCommand descheduled).2.2 = l) :
      .read MCI_STATUS MCI_STAT_CMD_RESP_END ∈ l := by
    rw [← h]
    decide
  constructor
  · intro h
    obtain ⟨-, -, hlate⟩ := h 1 _ _ _ rfl
    exact absurd (hlate rfl).1 (by decide)
  · intro h
    have hzero := h 1 _ _ _ rfl rfl _ (hlog _ rfl)
    exact absurd hzero (by decide)

end ShadowMsm.Linux
