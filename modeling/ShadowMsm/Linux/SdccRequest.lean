import ShadowMsm.Linux.Sdcc

/-!
# The outcome of an SD data request

What `shadow_sdcc_request` hands to `mmc_request_done`: whether the data path is off, and what `bytes_xfered` and
the errors say.  Two ways through the driver are not honest.  A failing `sbc` goes to `done` before `bytes_xfered`
is reset, and a write whose scatterlist is too short returns from `shadow_sdcc_transfer_data` before the data path
is turned off and `data->error` is set (`alwaysHonest_iff`).
-/

namespace ShadowMsm.Linux

open Traced

/-! ### The data path -/

/-- `MCI_DATACTRL` as an access leaves it. -/
def Access.dataCtrl (value : U32) : Access → U32
  | .write offset v => if offset = MCI_DATACTRL then v else value
  | _ => value

/-- The last value written to `MCI_DATACTRL`, `before` when there is none. -/
def dataCtrl (before : U32) (log : List Access) : U32 := log.foldl Access.dataCtrl before

@[simp] theorem dataCtrl_nil (before : U32) : dataCtrl before [] = before := rfl

@[simp] theorem dataCtrl_append (before : U32) (l₁ l₂ : List Access) :
    dataCtrl before (l₁ ++ l₂) = dataCtrl (dataCtrl before l₁) l₂ := List.foldl_append

/-- An access that leaves the data path as it is. -/
def Access.KeepsData (a : Access) : Prop := ∀ value, a.dataCtrl value = value

theorem dataCtrl_of_keeps {log : List Access} (h : ∀ a ∈ log, a.KeepsData) (before : U32) :
    dataCtrl before log = before := by
  induction log with
  | nil => rfl
  | cons a log ih =>
    have ha : a.dataCtrl before = before := h a List.mem_cons_self before
    change dataCtrl (a.dataCtrl before) log = before
    rw [ha, ih fun b hb => h b (List.mem_cons_of_mem _ hb)]

theorem keeps_readl (offset : U32) : Emits (readl offset) Access.KeepsData := emits_readl fun _ _ => rfl

theorem keeps_writel (value : U32) {offset : U32} (h : offset ≠ MCI_DATACTRL) :
    Emits (writel value offset) Access.KeepsData := emits_writel fun _ => if_neg h

theorem keeps_waitStatus (n : Nat) (wanted errors timeoutMs : U32) :
    Emits (shadowSdccWaitStatus n wanted errors timeoutMs) Access.KeepsData :=
  emits_waitStatus (fun _ _ => rfl) (fun _ _ => rfl) n wanted errors timeoutMs

/-! ### Commands leave the data path alone -/

theorem keeps_command (n : Nat) (cmd : MmcCommand) : Emits (shadowSdccCommand n cmd) Access.KeepsData := by
  apply emits_bind (keeps_writel _ (by decide))
  intro _
  apply emits_bind (keeps_writel _ (by decide))
  intro _
  apply emits_bind (keeps_writel _ (by decide))
  intro _
  apply emits_bind (keeps_writel _ (by decide))
  intro _
  exact emits_bind (keeps_waitStatus _ _ _ _) fun _ => emits_commandEnd (fun _ _ => rfl)
    (fun _ _ => rfl) (fun _ _ => rfl) (fun _ _ => rfl) (fun _ _ => rfl) _ _ _

theorem keeps_printRequest (request : MmcRequest) : Emits (printRequest request) Access.KeepsData := by
  unfold printRequest
  split
  · exact emits_bind (keeps_readl _) fun _ => emits_bind (keeps_readl _) fun _ => emits_pure
  · exact emits_pure

theorem dataCtrl_of_emits {α : Type} {f : Sdcc α} (hf : Emits f Access.KeepsData) {s s' : Readings} {r : Except Pending α}
    {l : List Access} (h : f s = (r, s', l)) (before : U32) : dataCtrl before l = before :=
  dataCtrl_of_keeps (hf.of_run h) before

/-- A command leaves the data path as it is, and the error it returns is the one in its record. -/
theorem command_spec {n : Nat} {cmd : MmcCommand} {c : Int × MmcCommand} {s s' : Readings} {l : List Access}
    (h : shadowSdccCommand n cmd s = (.ok c, s', l)) : c.2.error = c.1 ∧ ∀ before, dataCtrl before l = before := by
  refine ⟨?_, dataCtrl_of_emits (keeps_command n cmd) h⟩
  obtain ⟨-, _, _, _, -, h, -⟩ := of_run_bind_ok h
  obtain ⟨-, _, _, _, -, h, -⟩ := of_run_bind_ok h
  obtain ⟨-, _, _, _, -, h, -⟩ := of_run_bind_ok h
  obtain ⟨-, _, _, _, -, h, -⟩ := of_run_bind_ok h
  obtain ⟨w, _, _, _, -, h, -⟩ := of_run_bind_ok h
  obtain ⟨cmd', _, _, _, -, h, -⟩ := of_run_bind_ok h
  obtain ⟨-, _, _, _, -, h, -⟩ := of_run_bind_ok h
  cases h
  rfl

/-! ### Data -/

theorem startData_accepted {data : MmcData} (hd : data.Accepted) {error : Int} {s s' : Readings} {l : List Access}
    (h : shadowSdccStartData data s = (.ok error, s', l)) : error = 0 := by
  rw [shadowSdccStartData, if_pos hd] at h
  obtain ⟨-, _, _, _, -, h, -⟩ := of_run_bind_ok h
  obtain ⟨-, _, _, _, -, h, -⟩ := of_run_bind_ok h
  obtain ⟨-, _, _, _, -, h, -⟩ := of_run_bind_ok h
  obtain ⟨-, _, _, _, -, h, -⟩ := of_run_bind_ok h
  obtain ⟨-, _, _, _, -, h, -⟩ := of_run_bind_ok h
  cases h
  rfl

theorem startData_rejected {data : MmcData} (hd : ¬data.Accepted) {error : Int} {s s' : Readings} {l : List Access}
    (h : shadowSdccStartData data s = (.ok error, s', l)) : error = -EINVAL ∧ l = [] := by
  rw [shadowSdccStartData, if_neg hd] at h
  cases h
  exact ⟨rfl, rfl⟩

/-- What a transfer leaves in its record: all bytes or an error. -/
structure Transferred (data data' : MmcData) (error : Int) : Prop where
  error_eq : data'.error = error
  size_eq : data'.size = data.size
  xfered_of_ok : error = 0 → data'.bytesXfered = data.size
  xfered_of_error : error ≠ 0 → data'.bytesXfered = data.bytesXfered

theorem transferResult_spec (data : MmcData) (bounce : Nat → Byte) (error : Int) :
    Transferred data { (transferResult data bounce error).2 with error := (transferResult data bounce error).1 }
      (transferResult data bounce error).1 := by
  unfold transferResult
  by_cases he : error = 0
  · rw [if_neg (not_not.mpr he)]
    by_cases hr : data.flags &&& MMC_DATA_READ ≠ 0
    · rw [if_pos hr]
      dsimp only
      by_cases hc : (sgCopyFromBuffer data.sg bounce data.size.toNat).2 ≠ data.size.toNat
      · rw [if_pos hc]
        exact ⟨rfl, rfl, fun h => absurd (show -EFAULT = 0 from h) (by decide), fun _ => rfl⟩
      · rw [if_neg hc]
        exact ⟨rfl, rfl, fun _ => rfl, fun h => absurd rfl h⟩
    · rw [if_neg hr]
      exact ⟨rfl, rfl, fun _ => rfl, fun h => absurd rfl h⟩
  · rw [if_pos he]
    exact ⟨rfl, rfl, fun h => absurd h he, fun _ => rfl⟩

/-- Every way out of the loop turns the data path off. -/
theorem transferFrom_spec {n : Nat} {data : MmcData} {deadline : U32} {bounce : Nat → Byte}
    {t : Int × ShadowSdccHost × MmcData} {s s' : Readings} {l : List Access}
    (h : transferFrom n data deadline bounce s = (.ok t, s', l)) :
    Transferred data t.2.2 t.1 ∧ ∀ before, dataCtrl before l = 0 := by
  obtain ⟨t', _, l₁, _, -, h₁, rfl⟩ := of_run_bind_ok h
  obtain ⟨w, _, l₂, _, -, h₂, rfl⟩ := of_run_bind_ok h₁
  obtain ⟨-, _, l₃, _, -, h₃, rfl⟩ := of_run_bind_ok h₂
  obtain ⟨_, _, l₄, _, h₄, h₅, rfl⟩ := of_run_bind_ok h₃
  obtain ⟨_, _, l₅, _, h₆, h₇, rfl⟩ := of_run_bind_ok h₅
  cases h₇
  have hclear := dataCtrl_of_emits (keeps_writel _ (by decide)) h₆
  refine ⟨transferResult_spec data t'.bounce w.1, ?_⟩
  intro before
  cases h₄
  simp only [dataCtrl_append, hclear, dataCtrl_nil]
  rfl

/-- A write finds all its bytes in the scatterlist. -/
def MmcData.Covered (data : MmcData) : Prop :=
  data.flags &&& MMC_DATA_WRITE ≠ 0 → data.size.toNat ≤ data.sg.length

theorem transferData_spec {n : Nat} {host : ShadowSdccHost} {data : MmcData} (hc : data.Covered)
    {t : Int × ShadowSdccHost × MmcData} {s s' : Readings} {l : List Access}
    (h : shadowSdccTransferData n host data s = (.ok t, s', l)) :
    Transferred data t.2.2 t.1 ∧ ∀ before, dataCtrl before l = 0 := by
  obtain ⟨now, s₁, l₁, l₂, hnow, h₁, rfl⟩ := of_run_bind_ok h
  have hfrom : ∃ deadline bounce, transferFrom n data deadline bounce s₁ = (.ok t, s', l₂) := by
    by_cases hw : data.flags &&& MMC_DATA_WRITE ≠ 0
    · have hcopy : (sgCopyToBuffer data.sg host.bounce data.size.toNat).2 = data.size.toNat := Nat.min_eq_right (hc hw)
      dsimp only at h₁
      rw [if_pos hw, if_neg (not_not.mpr hcopy)] at h₁
      exact ⟨_, _, h₁⟩
    · dsimp only at h₁
      rw [if_neg hw] at h₁
      exact ⟨_, _, h₁⟩
  obtain ⟨deadline, bounce, hb⟩ := hfrom
  obtain ⟨ht, hl₂⟩ := transferFrom_spec hb
  refine ⟨ht, ?_⟩
  intro before
  rw [dataCtrl_append, hl₂]

/-! ### The request -/

/-- `sbc->error`, `cmd->error` and `data->error`. -/
def MmcRequest.errors (request : MmcRequest) (data : MmcData) : List Int :=
  (request.sbc.map MmcCommand.error).toList ++ [request.cmd.error, data.error]

/-- All bytes and no error, or no byte and an error. -/
def Honest (size : U32) (request : MmcRequest) : Prop :=
  ∃ data, request.data = some data ∧
    (data.bytesXfered = size ∧ (∀ e ∈ request.errors data, e = 0) ∨
      data.bytesXfered = 0 ∧ ∃ e ∈ request.errors data, e ≠ 0)

/-- The stop command changes nothing an outcome depends on. -/
theorem requestStop_spec {n : Nat} {host : ShadowSdccHost} {request : MmcRequest} {r : ShadowSdccHost × MmcRequest}
    {s s' : Readings} {l : List Access} (h : requestStop n host request s = (.ok r, s', l)) :
    (∃ stop, r.2 = { request with stop := stop }) ∧ ∀ before, dataCtrl before l = before := by
  unfold requestStop at h
  cases hs : request.stop with
  | none =>
    simp only [hs] at h
    cases h
    exact ⟨⟨request.stop, rfl⟩, fun _ => rfl⟩
  | some stop =>
    simp only [hs] at h
    obtain ⟨c, _, l₁, _, h₁, h₂, rfl⟩ := of_run_bind_ok h
    cases h₂
    refine ⟨⟨_, rfl⟩, ?_⟩
    intro before
    rw [dataCtrl_append, (command_spec h₁).2]
    rfl

/-- After commands that succeeded the outcome is that of the transfer. -/
theorem requestTransfer_spec {n : Nat} {host : ShadowSdccHost} {request : MmcRequest} {data : MmcData}
    (hc : data.Covered) (hx : data.bytesXfered = 0) (hcmd : request.cmd.error = 0)
    (hsbc : ∀ sbc ∈ request.sbc, sbc.error = 0) {r : ShadowSdccHost × MmcRequest} {s s' : Readings} {l : List Access}
    (h : requestTransfer n host request data s = (.ok r, s', l)) :
    Honest data.size r.2 ∧ ∀ before, dataCtrl before l = 0 := by
  obtain ⟨t, _, l₁, _, h₁, h₂, rfl⟩ := of_run_bind_ok h
  obtain ⟨ht, hl₁⟩ := transferData_spec hc h₁
  obtain ⟨⟨stop, hr⟩, hl₂⟩ := requestStop_spec h₂
  constructor
  · refine ⟨t.2.2, by rw [hr], ?_⟩
    rw [hr]
    by_cases he : t.1 = 0
    · left
      refine ⟨ht.xfered_of_ok he, ?_⟩
      intro e hmem
      simp only [MmcRequest.errors, List.mem_append, List.mem_cons, Option.mem_toList, Option.map_eq_some_iff,
        List.not_mem_nil, or_false] at hmem
      rcases hmem with ⟨sbc, hmem, rfl⟩ | rfl | rfl
      · exact hsbc sbc hmem
      · exact hcmd
      · rw [ht.error_eq, he]
    · right
      refine ⟨by rw [ht.xfered_of_error he, hx], t.2.2.error, by simp [MmcRequest.errors], ?_⟩
      rwa [ht.error_eq]
  · intro before
    rw [dataCtrl_append, hl₂, hl₁]

theorem honest_of_error {size : U32} {request : MmcRequest} {data : MmcData} (hd : request.data = some data)
    (hx : data.bytesXfered = 0) {e : Int} (hmem : e ∈ request.errors data) (he : e ≠ 0) : Honest size request :=
  ⟨data, hd, .inr ⟨hx, e, hmem, he⟩⟩

/-- From the main command on, with the data path off or a block size that was accepted. -/
theorem requestCommand_spec {n : Nat} {host : ShadowSdccHost} {request : MmcRequest} {data : MmcData}
    (hd : request.data = some data) (hc : data.Accepted → data.Covered) (hx : data.bytesXfered = 0)
    (hsbc : ∀ sbc ∈ request.sbc, sbc.error = 0) {before : U32} (hb : ¬data.Accepted → before = 0)
    {r : ShadowSdccHost × MmcRequest} {s s' : Readings} {l : List Access}
    (h : requestCommand n host request s = (.ok r, s', l)) : Honest data.size r.2 ∧ dataCtrl before l = 0 := by
  obtain ⟨c, s₁, l₁, l₂, h₁, h₂, rfl⟩ := of_run_bind_ok h
  obtain ⟨hcmd, hl₁⟩ := command_spec h₁
  simp only [hd] at h₂
  by_cases he : c.1 ≠ 0
  · rw [if_pos he] at h₂
    obtain ⟨_, _, _, _, hw, h₃, rfl⟩ := of_run_bind_ok h₂
    cases h₃
    cases hw
    refine ⟨honest_of_error rfl hx (e := c.1) (by simp [MmcRequest.errors]) he, ?_⟩
    rw [dataCtrl_append]
    rfl
  · rw [if_neg he] at h₂
    rw [not_not] at he
    have hcmd0 : c.2.error = 0 := by rw [hcmd, he]
    by_cases hw : data.flags &&& MMC_DATA_WRITE ≠ 0
    · rw [if_pos hw] at h₂
      obtain ⟨error, s₂, l₃, l₄, hs, h₃, rfl⟩ := of_run_bind_ok h₂
      by_cases hacc : data.Accepted
      · rw [startData_accepted hacc hs, if_neg (by decide)] at h₃
        obtain ⟨hh, hl⟩ := requestTransfer_spec (hc hacc) hx hcmd0 (by exact hsbc) h₃
        refine ⟨hh, ?_⟩
        rw [dataCtrl_append, dataCtrl_append, hl]
      · obtain ⟨rfl, rfl⟩ := startData_rejected hacc hs
        rw [if_pos (by decide)] at h₃
        cases h₃
        refine ⟨honest_of_error rfl hx (e := -EINVAL) (by simp [MmcRequest.errors]) (by decide), ?_⟩
        rw [dataCtrl_append, hl₁, hb hacc]
        rfl
    · rw [if_neg hw] at h₂
      obtain ⟨hh, hl⟩ := requestTransfer_spec (fun h => absurd h hw) hx hcmd0 (by exact hsbc) h₂
      refine ⟨hh, ?_⟩
      rw [dataCtrl_append, hl]

theorem requestData_spec {n : Nat} {host : ShadowSdccHost} {request : MmcRequest} {data : MmcData}
    (hd : request.data = some data) (hc : data.Accepted → data.Covered) (hsbc : ∀ sbc ∈ request.sbc, sbc.error = 0)
    {r : ShadowSdccHost × MmcRequest} {s s' : Readings} {l : List Access}
    (h : requestData n host request s = (.ok r, s', l)) : Honest data.size r.2 ∧ dataCtrl 0 l = 0 := by
  simp only [requestData, hd] at h
  obtain ⟨data', hdata⟩ : ∃ data' : MmcData, { data with bytesXfered := 0, error := 0 } = data' := ⟨_, rfl⟩
  have hx : data'.bytesXfered = 0 := by rw [← hdata]
  have hsize : data.size = data'.size := by rw [← hdata]; rfl
  have hacc : data.Accepted ↔ data'.Accepted := by rw [← hdata]; rfl
  have hcov : data.Covered ↔ data'.Covered := by rw [← hdata]; rfl
  rw [hacc, hcov] at hc
  rw [hsize]
  rw [hdata] at h
  by_cases hr : data.flags &&& MMC_DATA_READ ≠ 0
  · rw [if_pos hr] at h
    obtain ⟨error, s₁, l₁, l₂, hs, h₁, rfl⟩ := of_run_bind_ok h
    by_cases ha : data'.Accepted
    · rw [startData_accepted ha hs, if_neg (by decide)] at h₁
      rw [dataCtrl_append]
      exact requestCommand_spec rfl hc hx (by exact hsbc) (fun hn => absurd ha hn) h₁
    · obtain ⟨rfl, rfl⟩ := startData_rejected ha hs
      rw [if_pos (by decide)] at h₁
      cases h₁
      exact ⟨honest_of_error rfl rfl (e := -EINVAL) (by simp [MmcRequest.errors]) (by decide), rfl⟩
  · rw [if_neg hr] at h
    exact requestCommand_spec rfl hc hx (by exact hsbc) (fun _ => rfl) h

/-- What `mmc_request_done` is called with is honest and the data path is off, whatever the hardware and the
scheduler do. -/
def AlwaysHonest (request : MmcRequest) (size : U32) : Prop :=
  ∀ n host s r s' log, shadowSdccRequest n host request s = (.ok r, s', log) → dataCtrl 0 log = 0 ∧ Honest size r.2

/-- There is no `sbc` or no count left from earlier, and a write that starts finds all its bytes. -/
def HonestWhen (request : MmcRequest) (data : MmcData) : Prop :=
  (request.sbc = none ∨ data.bytesXfered = 0) ∧ (data.Accepted → data.Covered)

theorem alwaysHonest_of_when {request : MmcRequest} {data : MmcData} (hd : request.data = some data)
    (h : HonestWhen request data) : AlwaysHonest request data.size := by
  intro n host s r s' log hrun
  obtain ⟨_, s₁, l₁, l₂, hp, h₁, rfl⟩ := of_run_bind_ok hrun
  rw [dataCtrl_append, dataCtrl_of_emits (keeps_printRequest request) hp]
  cases hs : request.sbc with
  | none =>
    simp only [hs] at h₁
    exact (requestData_spec hd h.2 (by simp [hs]) h₁).symm
  | some sbc =>
    simp only [hs] at h₁
    obtain ⟨c, s₂, l₃, l₄, hc, h₂, rfl⟩ := of_run_bind_ok h₁
    obtain ⟨herror, hl₃⟩ := command_spec hc
    rw [dataCtrl_append, hl₃]
    by_cases he : c.1 ≠ 0
    · rw [if_pos he] at h₂
      cases h₂
      have hx : data.bytesXfered = 0 := by
        rcases h.1 with hnone | hx
        · rw [hs] at hnone
          cases hnone
        · exact hx
      refine ⟨rfl, honest_of_error hd hx (e := c.1) ?_ he⟩
      simp [MmcRequest.errors, herror]
    · rw [if_neg he] at h₂
      rw [not_not] at he
      refine (requestData_spec (by exact hd) h.2 ?_ h₂).symm
      intro sbc' hmem
      obtain rfl : c.2 = sbc' := by simpa using hmem
      rw [herror, he]

/-! ### Requests that end dishonestly -/

/-- With all readings `v` the program ends with `a`. -/
def Yields {α : Type} (v : U32) (f : Sdcc α) (a : α) : Prop := ∃ l, f (fun _ => v) = (.ok a, fun _ => v, l)

section Yields

variable {v : U32} {α β : Type}

theorem yields_pure (a : α) : Yields v (pure a : Sdcc α) a := ⟨[], rfl⟩

theorem yields_readl (offset : U32) : Yields v (readl offset) v := ⟨_, rfl⟩

theorem yields_jiffies : Yields v jiffies v := ⟨_, rfl⟩

theorem yields_writel (value offset : U32) : Yields v (writel value offset) () := ⟨_, rfl⟩

theorem yields_bind {f : Sdcc α} {g : α → Sdcc β} {a : α} {b : β} (hf : Yields v f a) (hg : Yields v (g a) b) :
    Yields v (f >>= g) b := by
  obtain ⟨l, hl⟩ := hf
  obtain ⟨l', hl'⟩ := hg
  exact ⟨l ++ l', by rw [run_bind_ok hl, hl']⟩

theorem yields_waitStatus_error {wanted errors timeoutMs : U32} (h : v &&& errors ≠ 0) :
    Yields v (shadowSdccWaitStatus 1 wanted errors timeoutMs) (- EIO, v) := by
  have hround (deadline : U32) : Yields v (waitRound wanted errors deadline) (.inr (- EIO, v)) := by
    apply yields_bind (yields_readl _)
    rw [if_pos h]
    exact yields_pure _
  exact yields_bind yields_jiffies (yields_bind (hround _) (yields_pure _))

theorem yields_waitStatus_wanted {wanted errors timeoutMs : U32} (he : v &&& errors = 0) (hw : v &&& wanted ≠ 0) :
    Yields v (shadowSdccWaitStatus 1 wanted errors timeoutMs) (0, v) := by
  have hround (deadline : U32) : Yields v (waitRound wanted errors deadline) (.inr (0, v)) := by
    apply yields_bind (yields_readl _)
    rw [if_neg (not_not.mpr he), if_pos hw]
    exact yields_pure _
  exact yields_bind yields_jiffies (yields_bind (hround _) (yields_pure _))

theorem yields_command (cmd : MmcCommand) {w : Int × U32}
    (hw : Yields v (shadowSdccWaitStatus 1 (terminal cmd) MCI_CMD_ERRORS SHADOW_CMD_TIMEOUT_MS) w) :
    ∃ c, Yields v (shadowSdccCommand 1 cmd) c ∧ c.1 = commandErrno cmd w.1 w.2 ∧ c.2.error = commandErrno cmd w.1 w.2 := by
  have hread (error : Int) : ∃ cmd', Yields v (readResponses cmd error) cmd' := by
    unfold readResponses
    split
    · exact ⟨_, yields_bind (yields_readl _) (yields_bind (yields_readl _) (yields_bind (yields_readl _)
        (yields_bind (yields_readl _) (yields_pure _))))⟩
    · exact ⟨_, yields_pure _⟩
  obtain ⟨cmd', hcmd⟩ := hread (commandErrno cmd w.1 w.2)
  refine ⟨(commandErrno cmd w.1 w.2, { cmd' with error := commandErrno cmd w.1 w.2 }), ?_, rfl, rfl⟩
  have hend : Yields v (commandEnd cmd (commandErrno cmd w.1 w.2) w.2) _ :=
    yields_bind hcmd (yields_bind (yields_writel _ _) (yields_pure _))
  exact yields_bind (yields_writel _ _) (yields_bind (yields_writel _ _) (yields_bind (yields_writel _ _)
    (yields_bind (yields_writel _ _) (yields_bind hw hend))))

theorem yields_printRequest (request : MmcRequest) : Yields v (printRequest request) () := by
  unfold printRequest
  split
  · exact yields_bind (yields_readl _) (yields_bind (yields_readl _) (yields_pure _))
  · exact yields_pure _

theorem yields_startData {data : MmcData} (h : data.Accepted) : Yields v (shadowSdccStartData data) 0 := by
  rw [shadowSdccStartData, if_pos h]
  exact yields_bind (yields_writel _ _) (yields_bind (yields_writel _ _) (yields_bind (yields_writel _ _)
    (yields_bind (yields_writel _ _) (yields_bind (yields_writel _ _) (yields_pure _)))))

end Yields

/-- A status of a card that does not answer. -/
theorem command_fails (cmd : MmcCommand) :
    ∃ c, Yields MCI_STAT_CMD_TIMEOUT (shadowSdccCommand 1 cmd) c ∧ c.1 = -ETIMEDOUT := by
  obtain ⟨c, hc, h1, -⟩ := yields_command cmd (v := MCI_STAT_CMD_TIMEOUT) (yields_waitStatus_error (by decide))
  refine ⟨c, hc, ?_⟩
  rw [h1]
  rfl

/-- A status that ends every command well. -/
theorem command_succeeds (cmd : MmcCommand) :
    ∃ c, Yields (MCI_STAT_CMD_RESP_END ||| MCI_STAT_CMD_SENT) (shadowSdccCommand 1 cmd) c ∧ c.1 = 0 ∧ c.2.error = 0 := by
  have hwanted : (MCI_STAT_CMD_RESP_END ||| MCI_STAT_CMD_SENT) &&& terminal cmd ≠ 0 := by
    unfold terminal
    split <;> decide
  exact yields_command cmd (yields_waitStatus_wanted (by decide) hwanted)

/-- A transfer that returns `-EFAULT` says nothing in its record. -/
theorem transferData_short {v : U32} (host : ShadowSdccHost) {data : MmcData} (h : ¬data.Covered) :
    ∃ host', Yields v (shadowSdccTransferData 1 host data) (-EFAULT, host', data) := by
  rw [MmcData.Covered, Classical.not_imp, Nat.not_le] at h
  have hcopy : (sgCopyToBuffer data.sg host.bounce data.size.toNat).2 ≠ data.size.toNat := by
    change min data.sg.length data.size.toNat ≠ data.size.toNat
    omega
  refine ⟨⟨(sgCopyToBuffer data.sg host.bounce data.size.toNat).1⟩, yields_bind yields_jiffies ?_⟩
  dsimp only
  rw [if_pos h.1, if_pos hcopy]
  exact yields_pure _

/-- The end of a request: its stop command, if any, succeeds too. -/
theorem stop_succeeds (host : ShadowSdccHost) (request : MmcRequest) :
    ∃ stop, Yields (MCI_STAT_CMD_RESP_END ||| MCI_STAT_CMD_SENT) (requestStop 1 host request)
      (host, { request with stop := stop }) := by
  unfold requestStop
  cases hs : request.stop with
  | none =>
    refine ⟨none, ?_⟩
    simp only
    rw [← hs]
    exact yields_pure _
  | some stop =>
    obtain ⟨c, hc, -⟩ := command_succeeds stop
    exact ⟨some c.2, yields_bind hc (yields_pure _)⟩

/-- A write that starts with a short scatterlist: no error and no byte. -/
theorem command_short (host : ShadowSdccHost) (request : MmcRequest) {data : MmcData} (hd : request.data = some data)
    (ha : data.Accepted) (hc : ¬data.Covered) :
    ∃ r, Yields (MCI_STAT_CMD_RESP_END ||| MCI_STAT_CMD_SENT) (requestCommand 1 host request) r ∧ r.2.data = some data ∧
      r.2.sbc = request.sbc ∧ r.2.cmd.error = 0 := by
  have hw : data.flags &&& MMC_DATA_WRITE ≠ 0 := (Classical.not_imp.mp hc).1
  obtain ⟨c, hcmd, hc1, hc2⟩ := command_succeeds request.cmd
  obtain ⟨host', ht⟩ := transferData_short host hc
  obtain ⟨stop, hs⟩ := stop_succeeds host' { request with cmd := c.2, data := some data }
  refine ⟨(host', { request with cmd := c.2, data := some data, stop := stop }), yields_bind hcmd ?_, rfl, rfl, hc2⟩
  simp only [hd]
  rw [if_neg (not_not.mpr hc1), if_pos hw]
  apply yields_bind (yields_startData ha)
  rw [if_neg (by decide)]
  exact yields_bind ht hs

theorem data_short (host : ShadowSdccHost) (request : MmcRequest) {data : MmcData} (hd : request.data = some data)
    (ha : data.Accepted) (hc : ¬data.Covered) :
    ∃ r, Yields (MCI_STAT_CMD_RESP_END ||| MCI_STAT_CMD_SENT) (requestData 1 host request) r ∧
      r.2.data = some { data with bytesXfered := 0, error := 0 } ∧ r.2.sbc = request.sbc ∧ r.2.cmd.error = 0 := by
  obtain ⟨r, hr, h⟩ := command_short host { request with data := some { data with bytesXfered := 0, error := 0 } } rfl ha hc
  refine ⟨r, ?_, h⟩
  simp only [requestData, hd]
  by_cases hread : data.flags &&& MMC_DATA_READ ≠ 0
  · rw [if_pos hread]
    apply yields_bind (yields_startData ha)
    rw [if_neg (by decide)]
    exact hr
  · rw [if_neg hread]
    exact hr

/-- A failing `sbc` leaves the count of an earlier transfer in the record. -/
theorem not_honest_of_stale {request : MmcRequest} {data : MmcData} (hd : request.data = some data) {sbc : MmcCommand}
    (hs : request.sbc = some sbc) (hx : data.bytesXfered ≠ 0) : ¬AlwaysHonest request data.size := by
  intro h
  obtain ⟨c, ⟨l, hc⟩, hc1⟩ := command_fails sbc
  have hrun : Yields MCI_STAT_CMD_TIMEOUT (shadowSdccRequest 1 ⟨fun _ => 0⟩ request)
      (⟨fun _ => 0⟩, { request with sbc := some c.2 }) := by
    apply yields_bind (yields_printRequest request)
    simp only [hs]
    apply yields_bind ⟨l, hc⟩
    rw [hc1, if_pos (by decide)]
    exact yields_pure _
  obtain ⟨log, hlog⟩ := hrun
  obtain ⟨-, data', hd', hout⟩ := h _ _ _ _ _ _ hlog
  obtain rfl : data = data' := by
    rw [hd] at hd'
    exact Option.some.inj hd'
  rcases hout with ⟨-, herr⟩ | ⟨hx0, -⟩
  · have := herr c.2.error (by simp [MmcRequest.errors])
    rw [(command_spec hc).1, hc1] at this
    exact absurd this (by decide)
  · exact hx hx0

theorem size_ne_zero {data : MmcData} (h : data.Accepted) : data.size ≠ 0 := by
  obtain ⟨⟨hb, -⟩, -, h1⟩ := h
  rw [MmcData.size, h1]
  change data.blksz * 1#32 ≠ 0
  rwa [BitVec.mul_one]

/-- A short scatterlist leaves neither a count nor an error. -/
theorem not_honest_of_short {request : MmcRequest} {data : MmcData} (hd : request.data = some data) (ha : data.Accepted)
    (hc : ¬data.Covered) : ¬AlwaysHonest request data.size := by
  intro h
  have hrun :
      ∃ r, Yields (MCI_STAT_CMD_RESP_END ||| MCI_STAT_CMD_SENT) (shadowSdccRequest 1 ⟨fun _ => 0⟩ request) r ∧
        r.2.data = some { data with bytesXfered := 0, error := 0 } ∧ (∀ sbc ∈ r.2.sbc, sbc.error = 0) ∧
        r.2.cmd.error = 0 := by
    cases hs : request.sbc with
    | none =>
      obtain ⟨r, hr, hr1, hr2, hr3⟩ := data_short ⟨fun _ => 0⟩ request hd ha hc
      refine ⟨r, yields_bind (yields_printRequest request) ?_, hr1, by simp [hr2, hs], hr3⟩
      simp only [hs]
      exact hr
    | some sbc =>
      obtain ⟨c, hcmd, hc1, hc2⟩ := command_succeeds sbc
      obtain ⟨r, hr, hr1, hr2, hr3⟩ := data_short ⟨fun _ => 0⟩ { request with sbc := some c.2 } hd ha hc
      refine ⟨r, yields_bind (yields_printRequest request) ?_, hr1, by simp [hr2, hc2], hr3⟩
      simp only [hs]
      apply yields_bind hcmd
      rw [hc1, if_neg (by decide)]
      exact hr
  obtain ⟨r, ⟨log, hlog⟩, hr1, hr2, hr3⟩ := hrun
  obtain ⟨-, data', hd', hout⟩ := h _ _ _ _ _ _ hlog
  obtain rfl := Option.some.inj (hr1.symm.trans hd')
  rcases hout with ⟨hx, -⟩ | ⟨-, e, hmem, he⟩
  · exact size_ne_zero ha hx.symm
  · simp only [MmcRequest.errors, List.mem_append, List.mem_cons, Option.mem_toList, Option.map_eq_some_iff,
      List.not_mem_nil, or_false] at hmem
    rcases hmem with ⟨sbc, hmem, rfl⟩ | rfl | rfl
    · exact he (hr2 sbc hmem)
    · exact he hr3
    · exact he rfl

/-- A request with data always ends honestly and with the data path off if and only if no count of an earlier
transfer can survive its `sbc` and no write can start on a short scatterlist. -/
theorem alwaysHonest_iff {request : MmcRequest} {data : MmcData} (hd : request.data = some data) :
    AlwaysHonest request data.size ↔ HonestWhen request data := by
  refine ⟨fun h => ⟨?_, ?_⟩, alwaysHonest_of_when hd⟩
  · by_contra hn
    rw [not_or] at hn
    obtain ⟨sbc, hs⟩ := Option.ne_none_iff_exists'.mp hn.1
    exact not_honest_of_stale hd hs hn.2 h
  · intro ha
    by_contra hc
    exact not_honest_of_short hd ha hc h

/-- `CMD24` with one block and a scatterlist. -/
def writeBlock (sg : Bytes) : MmcRequest where
  sbc := none
  cmd := ⟨MMC_WRITE_BLOCK, 0, MMC_RSP_PRESENT ||| MMC_RSP_CRC, true, (0, 0, 0, 0), 0⟩
  data := some ⟨512, 1, MMC_DATA_WRITE, sg, 0, 0⟩
  stop := none

theorem writeBlock_honest : AlwaysHonest (writeBlock (List.replicate 512 0)) 512 := by
  have hd :
      (writeBlock (List.replicate 512 0)).data = some ⟨512, 1, MMC_DATA_WRITE, List.replicate 512 0, 0, 0⟩ := rfl
  apply (alwaysHonest_iff hd).mpr
  refine ⟨.inl rfl, fun _ _ => ?_⟩
  rw [List.length_replicate]
  decide

/-- A write of one block with no byte in its scatterlist ends with the data path on. -/
theorem writeBlock_short : ¬AlwaysHonest (writeBlock []) 512 := by
  intro h
  have hctrl := (h 1 ⟨fun _ => 0⟩ (fun _ => MCI_STAT_CMD_RESP_END) _ _ _ rfl).1
  exact absurd hctrl (by decide)

end ShadowMsm.Linux
