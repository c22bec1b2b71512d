import ShadowMsm.Bl1.Handoff

/-!
# The dry run and the zImage boot

BL1 0.3 jumps to the zImage exactly if its five checks pass, and otherwise returns the code of the first that does not.
BL1 0.2 makes three of the five on the same words and never jumps; what it returns says what BL1 0.3 would do.
-/

namespace ShadowMsm.Bl1.Zimage

open Arm

/-! ### What is checked -/

inductive Check
  | marker | size | zimage | dtb | cpuState
  deriving DecidableEq, Repr

namespace Check

/-- The last digit of the code, the same in both listings. -/
def number : Check → Word
  | .zimage => 1
  | .dtb => 2
  | .size => 3
  | .marker => 4
  | .cpuState => 5

/-- The exit that a failing check goes to. -/
def exit : Check → Label
  | .marker => .failMarker
  | .size => .failSize
  | .zimage => .failZimage
  | .dtb => .failDtb
  | .cpuState => .failState

def Passes (m : Machine) : Check → Prop
  | .marker => m.reg .r2 = 0x4C4E5831
  | .size => (0x30 ≤ m.reg .r0 ∧ m.reg .r0 ≤ 0x00D00000) ∧ 0x28 ≤ m.reg .r1 ∧ m.reg .r1 ≤ 0x10000
  | .zimage => load32 m.mem 0x01200024 = 0x016F2818
  | .dtb => load32be m.mem 0x01F80000 = 0xD00DFEED ∧ load32be m.mem 0x01F80004 = m.reg .r1
  | .cpuState => (m.sys .sctlr).getLsbD 0 = false ∧ (m.sys .sctlr).getLsbD 2 = false

instance (m : Machine) (c : Check) : Decidable (c.Passes m) := by
  cases c
  all_goals unfold Passes
  all_goals infer_instance

end Check

/-- The order of the checks of BL1 0.3. -/
def bootOrder : List Check := [.marker, .size, .zimage, .dtb, .cpuState]

/-- The order of the checks of BL1 0.2. -/
def dryRunOrder : List Check := [.size, .zimage, .dtb]

/-- The first check that fails. -/
def failing (order : List Check) (m : Machine) : Option Check := order.find? fun c => ¬ c.Passes m

/-- The memory of the two images. -/
def Staged (x : Word) : Prop := Within x 0x01200000 0x00D00000 ∨ Within x 0x01F80000 0x10000

/-- The resident routines leave the images and the system control register alone. -/
structure Leaves (env : Word → Machine → Machine) : Prop where
  mem : ∀ t, IsResident t → ∀ m x, Staged x → (env t m).mem x = m.mem x
  sctlr : ∀ t, IsResident t → ∀ m, (env t m).sys .sctlr = m.sys .sctlr

/-- The images and the system control register are as on entry. -/
def Intact (m₀ : Machine) (μ : Mem) (s : Sys → Word) : Prop :=
  (∀ x, Staged x → μ x = m₀.mem x) ∧ s .sctlr = m₀.sys .sctlr

/-- The jump to the zImage, with the registers of the boot protocol and both images as they were staged. -/
structure HandsOff (m₀ : Machine) (e : Exit) (m : Machine) : Prop where
  exit : e = ⟨.bx .r7, 0x01200000⟩
  registers : BootRegisters m
  staged : ∀ x, Staged x → m.mem x = m₀.mem x

/-! ### The first failure -/

section

variable {order before rest : List Check} {m : Machine} {c : Check}

theorem failing_eq_none : failing order m = none ↔ ∀ c ∈ order, c.Passes m := by
  simp [failing]

/-- Behind checks that pass, one that does not is the first. -/
theorem failing_append_cons (before : List Check) (hbefore : ∀ c ∈ before, c.Passes m) (hc : ¬ c.Passes m) :
    failing (before ++ c :: rest) m = some c := by
  rw [failing, List.find?_append, List.find?_eq_none.mpr (by simpa using hbefore), Option.none_or,
    List.find?_cons_of_pos (by simpa using hc)]

theorem failing_bootOrder : failing bootOrder m = none ↔ ∀ c : Check, c.Passes m := by
  rw [failing_eq_none]
  constructor
  · intro h c
    apply h
    cases c
    all_goals decide
  · exact fun h c _ => h c

theorem not_passes_of_failing (h : failing order m = some c) : ¬ c.Passes m := by
  simpa using List.find?_some h

/-- Two machines on which the checks come out alike. -/
theorem failing_congr {m' : Machine} (h : ∀ c ∈ order, (c.Passes m ↔ c.Passes m')) :
    failing order m = failing order m' := by
  induction order with
  | nil => rfl
  | cons c order ih =>
    have hc := h c (by simp)
    have ht := ih fun c hc => h c (by simp [hc])
    unfold failing at ht ⊢
    rw [List.find?_cons, List.find?_cons, ht]
    simp only [hc]

end

/-! ### The images are out of the way -/

variable {y : Layout} {p : Program Label} {env : Word → Machine → Machine} {Q : Exit → Machine → Prop}
  {m₀ m : Machine} {v : Reg → Word} {k : List (Line Label)}

theorem Staged.not_volatile {x : Word} (hx : Staged x) : ¬ Volatile y x := by
  have hbuf := toNat_hexBufferAddr y
  have hbelow := y.buffer_below
  unfold Staged at hx
  unfold Volatile FRAME
  simp only [Within] at hx ⊢
  bv_omega

theorem stable_intact (hleaves : Leaves env) : Stable y env (Intact m₀) where
  write μ μ' s hμ h := by
    constructor
    · intro x hx
      rw [hμ x hx.not_volatile, h.1 x hx]
    · exact h.2
  call t ht m h := by
    constructor
    · intro x hx
      rw [hleaves.mem t ht m x hx, h.1 x hx]
    · rw [hleaves.sctlr t ht m, h.2]

/-! ### The checks, one after the other -/

/-- The arguments and the two addresses, in the registers in which BL1 keeps them. -/
structure Args (m₀ : Machine) (v : Reg → Word) : Prop where
  r4 : v .r4 = m₀.reg .r0
  r5 : v .r5 = m₀.reg .r1
  r6 : v .r6 = m₀.reg .r2
  r7 : v .r7 = 0x01200000
  r8 : v .r8 = 0x01F80000

theorem Args.congr {v' : Reg → Word} (h : Args m₀ v) (hv : AgreeOffR9 v v') : Args m₀ v' := by
  constructor
  all_goals rw [hv _ (by decide)]
  exacts [h.r4, h.r5, h.r6, h.r7, h.r8]

theorem wp_markerCheck (ha : Args m₀ v) (hm : Body (Intact m₀) m₀ v m)
    (hfail : ¬ Check.marker.Passes m₀ → ∀ m', Body (Intact m₀) m₀ v m' → wp p env (p.codeAt .failMarker) m' Q)
    (hpass : Check.marker.Passes m₀ → ∀ m', Body (Intact m₀) m₀ v m' → wp p env k m' Q) :
    wp p env (.ldrc .r0 LINUX_MARKER :: .cmp .r6 (.reg .r0) :: .bne .failMarker :: k) m Q := by
  apply wp_cmp_const hm (by decide)
  all_goals rw [ha.r6, holds_ne_sub]
  · rw [decide_eq_true_eq]
    exact hfail
  · rw [decide_eq_false_iff_not, not_not]
    exact hpass

theorem wp_sizeCheck (ha : Args m₀ v) (hm : Body (Intact m₀) m₀ v m)
    (hfail : ¬ Check.size.Passes m₀ → ∀ m', Body (Intact m₀) m₀ v m' → wp p env (p.codeAt .failSize) m' Q)
    (hpass : Check.size.Passes m₀ → ∀ m', Body (Intact m₀) m₀ v m' → wp p env k m' Q) :
    wp p env (Layout.zimageSizeBlock ++ k) m Q := by
  simp only [Layout.zimageSizeBlock, List.cons_append, List.nil_append]
  apply wp_cmp (w := 0x30) hm (by decide) rfl
  · rw [ha.r4, holds_lo_sub, decide_eq_true_eq]
    intro h
    exact hfail fun hp => BitVec.not_lt.mpr hp.1.1 h
  rw [ha.r4, holds_lo_sub, decide_eq_false_iff_not, BitVec.not_lt]
  intro hlow m1 h1
  apply wp_cmp_const h1 (by decide)
  · rw [ha.r4, holds_hi_sub, decide_eq_true_eq]
    intro h
    exact hfail fun hp => BitVec.not_lt.mpr hp.1.2 h
  rw [ha.r4, holds_hi_sub, decide_eq_false_iff_not, BitVec.not_lt]
  intro hhigh m2 h2
  apply wp_cmp (w := 0x28) h2 (by decide) rfl
  · rw [ha.r5, holds_lo_sub, decide_eq_true_eq]
    intro h
    exact hfail fun hp => BitVec.not_lt.mpr hp.2.1 h
  rw [ha.r5, holds_lo_sub, decide_eq_false_iff_not, BitVec.not_lt]
  intro hdlow m3 h3
  apply wp_cmp_const h3 (by decide)
  · rw [ha.r5, holds_hi_sub, decide_eq_true_eq]
    intro h
    exact hfail fun hp => BitVec.not_lt.mpr hp.2.2 h
  rw [ha.r5, holds_hi_sub, decide_eq_false_iff_not, BitVec.not_lt]
  intro hdhigh
  exact hpass ⟨⟨hlow, hhigh⟩, hdlow, hdhigh⟩

/-- The magic of the zImage; its start and end are printed, and not looked at. -/
theorem wp_zimageCheck (hs : Subroutines y p true) (henv : Resident env) (hK : Stable y env (Intact m₀))
    (ha : Args m₀ v) (hm : Body (Intact m₀) m₀ v m)
    (hfail : ¬ Check.zimage.Passes m₀ → ∀ v' m', Body (Intact m₀) m₀ v' m' → wp p env (p.codeAt .failZimage) m' Q)
    (hpass : Check.zimage.Passes m₀ → ∀ v' m', Args m₀ v' → Body (Intact m₀) m₀ v' m' → wp p env k m' Q) :
    wp p env (y.zimageBlock ++ k) m Q := by
  have hl := hs.toLinked
  have h7 : m.reg .r7 = 0x01200000 := (hm.regs .r7 (by decide)).trans ha.r7
  have hword : load32 m.mem 0x01200024 = load32 m₀.mem 0x01200024 := by
    apply SameOn.load32
    intro x hx
    refine hm.inv.1 x (Or.inl ?_)
    simp only [Within] at hx ⊢
    bv_omega
  simp only [Layout.zimageBlock, List.append_assoc, List.cons_append, List.nil_append]
  rw [wp_op_al]
  have h1 := hm.exec_update (o := .ldr .r9 .r7 0x24) rfl (by decide)
  have hr9 : ((Op.ldr .r9 .r7 0x24).exec m).reg .r9 = load32 m₀.mem 0x01200024 := by
    rw [← hword, ← Machine.loadWord_of_dvd (by decide)]
    simp [Op.exec, Machine.reg_set, h7]
  rw [hr9] at h1
  have ha1 := ha.congr (agreeOffR9_update v (load32 m₀.mem 0x01200024))
  apply wp_scratch hl henv hK (b := y.printAfter .zimageMagic (.mov .r1 (.reg .r9))) rfl h1
  intro m2 h2
  apply wp_cmp_const h2 (by decide)
  · rw [Function.update_self, holds_ne_sub, decide_eq_true_eq]
    exact fun hne m3 h3 => hfail hne _ m3 h3
  rw [Function.update_self, holds_ne_sub, decide_eq_false_iff_not, not_not]
  intro heq m3 h3
  apply wp_scratch hl henv hK (b := y.printAfter .zimageStart (.ldr .r1 .r7 0x28)) rfl h3
  intro m4 h4
  apply wp_scratch hl henv hK (b := y.printAfter .zimageEnd (.ldr .r1 .r7 0x2C)) rfl h4
  intro m5 h5
  exact hpass heq _ m5 ha1 h5

theorem wp_dtbCheck (hs : Subroutines y p true) (henv : Resident env) (hK : Stable y env (Intact m₀))
    (ha : Args m₀ v) (hm : Body (Intact m₀) m₀ v m)
    (hfail : ¬ Check.dtb.Passes m₀ → ∀ v' m', Body (Intact m₀) m₀ v' m' → wp p env (p.codeAt .failDtb) m' Q)
    (hpass : Check.dtb.Passes m₀ → ∀ v' m', Args m₀ v' → Body (Intact m₀) m₀ v' m' → wp p env k m' Q) :
    wp p env (y.dtbMagicBlock ++ (y.dtbTotalBlock ++ k)) m Q := by
  apply wp_dtbHeader m₀.mem hs henv hK ?_ ha.r8 hm
  · rw [ha.r5]
    exact hfail
  · rw [ha.r5]
    intro hp v' m' hv hm'
    exact hpass hp v' m' (ha.congr hv) hm'
  · intro μ s h x hx
    refine h.1 x (Or.inr ?_)
    simp only [Within] at hx ⊢
    omega

/-! ### A listing with failure exits -/

/-- A listing that makes the checks of `order`, and whose failure exits return `base` with the number of the check. -/
structure Validator (y : Layout) (p : Program Label) (order : List Check) (base : Word) : Prop
    extends Subroutines y p true where
  finish : ∃ k, p.codeAt .finish = Layout.finishBlock ++ k
  exits : ∀ c ∈ order, ∃ (name : Text) (next : Label),
    p.codeAt c.exit = y.failBlock c.exit name (base + c.number) ++ p.codeAt next ∨
      p.codeAt c.exit = y.lastFailBlock c.exit name (base + c.number) ++ p.codeAt .finish

variable {order : List Check} {base : Word}

theorem Validator.wp_fail (hp : Validator y p order base) (henv : Resident env) (hK : Stable y env (Intact m₀))
    {c : Check} (hc : failing order m₀ = some c) (hm : Body (Intact m₀) m₀ v m)
    (h : ∀ e m', ReturnsCode m₀ (base + c.number) e m' → Q e m') : wp p env (p.codeAt c.exit) m Q := by
  obtain ⟨name, next, hcode⟩ := hp.exits c (List.mem_of_find?_eq_some hc)
  apply wp_failReturn hp.toLinked henv hK hp.finish hcode hm
  intro m' hleft h0
  exact h _ m' ⟨rfl, h0, hleft.sp_eq⟩

/-- The entry, with the two addresses. -/
theorem wp_enter (hK : Stable y env (Intact m)) (h : ∀ v m', Args m v → Body (Intact m) m v m' → wp p env k m' Q) :
    wp p env (Layout.entryBlock ++ ([.ldrc .r7 ZIMAGE_ADDR, .ldrc .r8 DTB_ADDR] ++ k)) m Q := by
  apply wp_entry hK ⟨fun _ _ => rfl, rfl⟩
  intro m1 h1 h4 h5 h6
  simp only [List.cons_append, List.nil_append]
  rw [wp_op_al, wp_op_al]
  have h2 := (h1.exec_update (o := .ldrc .r7 ZIMAGE_ADDR) rfl (by decide)).exec_update
    (o := .ldrc .r8 DTB_ADDR) rfl (by decide)
  refine h _ _ ?_ h2
  constructor
  all_goals simp [Op.exec, Machine.reg_set, h4, h5, h6]
  all_goals rfl

/-! ### BL1 0.2 -/

set_option maxRecDepth 4096

/-- What the dry run prints before the checks, and behind them. -/
private def reportBlock : List (Line Label) :=
  let y := Layout.dryRun
  y.printLiteral .banner ++ y.printLiteral .mode ++ y.printLiteral .persist ++ y.printLiteral .layout ++
  y.printConstant .ramBase 0x00100000 ++ y.printConstant .ramSize 0x01F00000 ++
  y.printConstant .linuxEntry LINUX_ENTRY ++ y.printConstant .monitor 0x00800000 ++
  y.printConstant .bl1 BL1_BASE ++ y.printConstant .zimage ZIMAGE_ADDR ++
  y.printConstant .zimageMax ZIMAGE_MAX ++ y.printConstant .dtb DTB_ADDR ++
  y.printConstant .stack BL1_STACK_TOP ++
  y.printLiteral .inputs ++
  y.printAfter .zimageSize (.mov .r1 (.reg .r4)) ++ y.printAfter .dtbSize (.mov .r1 (.reg .r5))

private def futureBlock : List (Line Label) :=
  let y := Layout.dryRun
  y.printLiteral .registers ++
  y.printConstant .pc ZIMAGE_ADDR ++ y.printConstant .r0 0x00000000 ++ y.printConstant .r1 0xFFFFFFFF ++
  y.printConstant .r2 DTB_ADDR ++
  y.printAfter .cpsr (.mrs .r1) ++ y.printAfter .sctlr (.mrc .r1 .sctlr) ++
  y.printLiteral .pass ++ y.printLiteral .noJump

private theorem dryRun_lines : dryRun.lines =
    Layout.entryBlock ++ ([.ldrc .r7 ZIMAGE_ADDR, .ldrc .r8 DTB_ADDR] ++ (reportBlock ++ (Layout.zimageSizeBlock ++
      (Layout.dryRun.zimageBlock ++ (Layout.dryRun.dtbMagicBlock ++ (Layout.dryRun.dtbTotalBlock ++
        (futureBlock ++ ([.ldrc .r0 0x44525931, .b .finish] ++ dryRun.codeAt .failSize)))))))) := rfl

theorem validator_dryRun : Validator .dryRun dryRun dryRunOrder 0xBAD10000 where
  printValue := ⟨_, rfl⟩
  formatHex := rfl
  hexLoop := ⟨_, rfl⟩
  bswap32 := fun _ => ⟨[], rfl⟩
  finish := ⟨_, rfl⟩
  exits c hc := by
    simp only [dryRunOrder, List.mem_cons, List.not_mem_nil, or_false] at hc
    rcases hc with rfl | rfl | rfl
    · exact ⟨.badSize, .failZimage, Or.inl rfl⟩
    · exact ⟨.badZimage, .failDtb, Or.inl rfl⟩
    · exact ⟨.badDtb, .finish, Or.inr rfl⟩

/-- The code that the dry run returns. -/
def dryRunCode (m : Machine) : Word :=
  match failing dryRunOrder m with
  | none => 0x44525931
  | some c => 0xBAD10000 + c.number

/-- The dry run returns, with the code of its checks. -/
theorem wp_dryRunCode (henv : Resident env) (hleaves : Leaves env) (m : Machine) :
    wp dryRun env dryRun.lines m (ReturnsCode m (dryRunCode m)) := by
  have hp := validator_dryRun
  have hK : Stable .dryRun env (Intact m) := stable_intact hleaves
  have hfail : ∀ {c : Check}, failing dryRunOrder m = some c → ∀ v m', Body (Intact m) m v m' →
      wp dryRun env (dryRun.codeAt c.exit) m' (ReturnsCode m (dryRunCode m)) := by
    intro c hc v m' hm'
    apply hp.wp_fail henv hK hc hm'
    intro e m'' h
    rwa [dryRunCode, hc]
  rw [dryRun_lines]
  apply wp_enter hK
  intro v m1 ha h1
  apply wp_scratch hp.toLinked henv hK (b := reportBlock) rfl h1
  intro m2 h2
  apply wp_sizeCheck ha h2
  · intro hc m' hm'
    exact hfail (failing_append_cons [] (by simp) hc) v m' hm'
  intro hsize m3 h3
  apply wp_zimageCheck hp.toSubroutines henv hK ha h3
  · intro hc v' m' hm'
    exact hfail (failing_append_cons [.size] (by simpa using hsize) hc) v' m' hm'
  intro hzimage v4 m4 ha4 h4
  apply wp_dtbCheck hp.toSubroutines henv hK ha4 h4
  · intro hc v' m' hm'
    exact hfail (failing_append_cons [.size, .zimage] (by simpa using ⟨hsize, hzimage⟩) hc) v' m' hm'
  intro hdtb v5 m5 ha5 h5
  have hnone : failing dryRunOrder m = none := by
    simpa [failing_eq_none, dryRunOrder] using ⟨hsize, hzimage, hdtb⟩
  apply wp_scratch hp.toLinked henv hK (b := futureBlock) rfl h5
  intro m6 h6
  simp only [List.cons_append, List.nil_append]
  rw [wp_op_al, wp_b, holds_al, if_pos rfl]
  obtain ⟨k, hk⟩ := hp.finish
  have h7 : Body (Intact m) m v5 ((Op.ldrc .r0 0x44525931).exec m6) := h6.exec rfl (by decide)
  rw [hk]
  apply wp_finish h7
  intro m8 hleft h0
  refine ⟨rfl, h0.trans ?_, hleft.sp_eq⟩
  rw [dryRunCode, hnone]
  simp [Op.exec, Machine.reg_set]

/-! ### BL1 0.3 -/

private def inputsBlock : List (Line Label) :=
  let y := Layout.zimageBoot
  y.printLiteral .banner ++ y.printLiteral .mode ++ y.printLiteral .persist ++ y.printLiteral .sizes ++
  y.printAfter .zimageSize (.mov .r1 (.reg .r4)) ++ y.printAfter .dtbSize (.mov .r1 (.reg .r5)) ++
  y.printAfter .marker (.mov .r1 (.reg .r6))

private theorem zimageBoot_lines : zimageBoot.lines =
    Layout.entryBlock ++ ([.ldrc .r7 ZIMAGE_ADDR, .ldrc .r8 DTB_ADDR] ++ (inputsBlock ++
      ([.ldrc .r0 LINUX_MARKER, .cmp .r6 (.reg .r0), .bne .failMarker] ++ (Layout.zimageSizeBlock ++
        (Layout.zimageBoot.printLiteral .headers ++ (Layout.zimageBoot.zimageBlock ++
          (Layout.zimageBoot.dtbMagicBlock ++ (Layout.zimageBoot.dtbTotalBlock ++ (Layout.zimageBoot.cpuBlock ++
            (Layout.zimageBoot.armedBlock ZIMAGE_ADDR ++ (Layout.jumpBlock ++
              zimageBoot.codeAt .failSize))))))))))) := rfl

theorem validator_zimageBoot : Validator .zimageBoot zimageBoot bootOrder 0xBAD30000 where
  printValue := ⟨_, rfl⟩
  formatHex := rfl
  hexLoop := ⟨_, rfl⟩
  bswap32 := fun _ => ⟨[], rfl⟩
  finish := ⟨_, rfl⟩
  exits c hc := by
    clear hc
    cases c with
    | size => exact ⟨.badSize, .failZimage, Or.inl rfl⟩
    | zimage => exact ⟨.badZimage, .failDtb, Or.inl rfl⟩
    | dtb => exact ⟨.badDtb, .failMarker, Or.inl rfl⟩
    | marker => exact ⟨.badMarker, .failState, Or.inl rfl⟩
    | cpuState => exact ⟨.badState, .finish, Or.inr rfl⟩

/-- The jump, or the code of the first check that fails. -/
def BootOutcome (m₀ : Machine) (e : Exit) (m : Machine) : Prop :=
  match failing bootOrder m₀ with
  | none => HandsOff m₀ e m
  | some c => ReturnsCode m₀ (0xBAD30000 + c.number) e m

theorem wp_bootOutcome (henv : Resident env) (hleaves : Leaves env) (m : Machine) :
    wp zimageBoot env zimageBoot.lines m (BootOutcome m) := by
  have hp := validator_zimageBoot
  have hK : Stable .zimageBoot env (Intact m) := stable_intact hleaves
  have hfail : ∀ {c : Check}, failing bootOrder m = some c → ∀ v m', Body (Intact m) m v m' →
      wp zimageBoot env (zimageBoot.codeAt c.exit) m' (BootOutcome m) := by
    intro c hc v m' hm'
    apply hp.wp_fail henv hK hc hm'
    intro e m'' h
    rwa [BootOutcome, hc]
  rw [zimageBoot_lines]
  apply wp_enter hK
  intro v m1 ha h1
  apply wp_scratch hp.toLinked henv hK (b := inputsBlock) rfl h1
  intro m2 h2
  apply wp_markerCheck ha h2
  · intro hc m' hm'
    exact hfail (failing_append_cons [] (by simp) hc) v m' hm'
  intro hmarker m3 h3
  apply wp_sizeCheck ha h3
  · intro hc m' hm'
    exact hfail (failing_append_cons [.marker] (by simpa using hmarker) hc) v m' hm'
  intro hsize m4 h4
  apply wp_scratch hp.toLinked henv hK (b := Layout.zimageBoot.printLiteral .headers) rfl h4
  intro m5 h5
  apply wp_zimageCheck hp.toSubroutines henv hK ha h5
  · intro hc v' m' hm'
    exact hfail (failing_append_cons [.marker, .size] (by simpa using ⟨hmarker, hsize⟩) hc) v' m' hm'
  intro hzimage v6 m6 ha6 h6
  apply wp_dtbCheck hp.toSubroutines henv hK ha6 h6
  · intro hc v' m' hm'
    refine hfail (failing_append_cons [.marker, .size, .zimage] ?_ hc) v' m' hm'
    simpa using ⟨hmarker, hsize, hzimage⟩
  intro hdtb v7 m7 ha7 h7
  apply wp_cpuState hp.toLinked henv hK (fun _ _ h => h.2) h7
  · intro hc v' m' hm'
    refine hfail (c := .cpuState) (failing_append_cons [.marker, .size, .zimage, .dtb] ?_ hc) v' m' hm'
    simpa using ⟨hmarker, hsize, hzimage, hdtb⟩
  intro hcpu v8 m8 hv h8
  have hnone : failing bootOrder m = none := by
    simpa [failing_eq_none, bootOrder] using ⟨hmarker, hsize, hzimage, hdtb, hcpu⟩
  have ha8 := ha7.congr hv
  apply wp_jumpTo hp.toLinked henv hK ha8.r7 ha8.r8 h8
  intro m9 hr hin
  rw [BootOutcome, hnone]
  exact ⟨rfl, hr, hin.1⟩

/-- BL1 0.3 hands the staged images over exactly if every check passes, and otherwise returns the code of the first one
that does not. -/
theorem zimageBoot_outcome (henv : Resident env) (hleaves : Leaves env) (m : Machine) :
    wp zimageBoot env zimageBoot.lines m fun e m' =>
      (HandsOff m e m' ↔ ∀ c : Check, c.Passes m) ∧
        ∀ c, failing bootOrder m = some c → ReturnsCode m (0xBAD30000 + c.number) e m' := by
  apply wp_mono (wp_bootOutcome henv hleaves m)
  intro e m' h
  unfold BootOutcome at h
  rw [← failing_bootOrder]
  cases hf : failing bootOrder m with
  | none =>
    rw [hf] at h
    simpa using h
  | some c =>
    rw [hf] at h
    constructor
    · constructor
      · intro hoff
        have := hoff.exit.symm.trans h.exit
        simp at this
      · simp
    · rintro c' hc'
      cases hc'
      exact h

/-- A zImage and a tree of the smallest sizes, as the host stages them. -/
def stagedCaller : Machine :=
  { monitorCaller with
    reg := fun r => if r = .r0 then 0x30 else if r = .r1 then 0x28 else if r = .r2 then LINUX_MARKER else
      monitorCaller.reg r
    mem := store32 (store32 (store32 (fun _ => 0) 0x01200024 0x016F2818) 0x01F80000 0xEDFE0DD0) 0x01F80004 0x28000000 }

theorem leaves_idle : Leaves fun _ m => m := ⟨fun _ _ _ _ _ => rfl, fun _ _ _ => rfl⟩

theorem passes_stagedCaller (c : Check) : c.Passes stagedCaller := by
  cases c
  all_goals decide +kernel

theorem zimageBoot_outcome_staged :
    wp zimageBoot (fun _ m => m) zimageBoot.lines stagedCaller fun e m' => HandsOff stagedCaller e m' :=
  wp_mono (zimageBoot_outcome resident_idle leaves_idle stagedCaller) fun _ _ h => h.1.mpr passes_stagedCaller

/-! ### What the dry run says about the boot -/

/-- Two calls with the same sizes and the same images; the marker and the CPU may differ. -/
structure SameInputs (m m' : Machine) : Prop where
  r0 : m'.reg .r0 = m.reg .r0
  r1 : m'.reg .r1 = m.reg .r1
  staged : ∀ x, Staged x → m'.mem x = m.mem x

section

variable {m' : Machine} {c : Check}

theorem SameInputs.passes_iff (h : SameInputs m m') (hc : c ∈ dryRunOrder) : c.Passes m' ↔ c.Passes m := by
  have hword {a : Word} (ha : Inside a 4 0x01200000 0x00D00000 ∨ Inside a 4 0x01F80000 0x10000) :
      load32 m'.mem a = load32 m.mem a :=
    SameOn.load32 fun x hx => h.staged x (ha.imp (fun h => h.within hx) fun h => h.within hx)
  simp only [dryRunOrder, List.mem_cons, List.not_mem_nil, or_false] at hc
  rcases hc with rfl | rfl | rfl
  · simp only [Check.Passes, h.r0, h.r1]
  · rw [Check.Passes, Check.Passes, hword (Or.inl (by decide))]
  · simp only [Check.Passes, ← bswap32_load32, hword (a := 0x01F80000) (Or.inr (by decide)),
      hword (a := 0x01F80004) (Or.inr (by decide)), h.r1]

/-- Behind the marker the boot fails where the dry run fails; what the dry run does not check comes last. -/
theorem SameInputs.failing_bootOrder (h : SameInputs m m') (hmarker : Check.marker.Passes m') :
    failing bootOrder m' = (failing dryRunOrder m).or (failing [.cpuState] m') := by
  have hcongr : failing dryRunOrder m' = failing dryRunOrder m := failing_congr fun c hc => h.passes_iff hc
  rw [← hcongr]
  unfold failing
  rw [← List.find?_append, bootOrder, List.find?_cons_of_neg (by simpa using hmarker)]
  rfl

/-- A failure has a code of its own. -/
theorem dryRunCode_eq_pass : dryRunCode m = 0x44525931 ↔ failing dryRunOrder m = none := by
  unfold dryRunCode
  cases hf : failing dryRunOrder m with
  | none => simp
  | some c => cases c <;> simp [Check.number]

end

/-- The dry run returns, and what it returns says what the boot does on the same images: with the marker and an
uncached CPU it jumps exactly after a pass, and otherwise the code differs in one digit only. -/
theorem dryRun_predicts {env' : Word → Machine → Machine} (henv : Resident env) (hleaves : Leaves env)
    (henv' : Resident env') (hleaves' : Leaves env') {m m' : Machine} (h : SameInputs m m') :
    wp dryRun env dryRun.lines m fun e n => e = ⟨.bx .r10, m.reg .lr⟩ ∧
      wp zimageBoot env' zimageBoot.lines m' fun e' n' =>
        (HandsOff m' e' n' ↔ n.reg .r0 = 0x44525931 ∧ Check.marker.Passes m' ∧ Check.cpuState.Passes m') ∧
        (Check.marker.Passes m' → n.reg .r0 ≠ 0x44525931 → ReturnsCode m' (n.reg .r0 + 0x00020000) e' n') := by
  apply wp_mono (wp_dryRunCode henv hleaves m)
  intro e n hn
  refine ⟨hn.exit, wp_mono (wp_bootOutcome henv' hleaves' m') ?_⟩
  intro e' n' hout
  rw [hn.r0]
  unfold BootOutcome at hout
  constructor
  · rw [dryRunCode_eq_pass, ← failing_congr fun c hc => h.passes_iff hc, failing_eq_none]
    cases hf : failing bootOrder m' with
    | none =>
      rw [hf] at hout
      have hall := failing_bootOrder.mp hf
      exact ⟨fun _ => ⟨fun c _ => hall c, hall .marker, hall .cpuState⟩, fun _ => hout⟩
    | some c =>
      rw [hf] at hout
      constructor
      · intro hoff
        have := hoff.exit.symm.trans hout.exit
        simp at this
      · rintro ⟨hdry, hmarker, hcpu⟩
        refine absurd ?_ (not_passes_of_failing hf)
        cases c with
        | marker => exact hmarker
        | cpuState => exact hcpu
        | size => exact hdry .size (by simp [dryRunOrder])
        | zimage => exact hdry .zimage (by simp [dryRunOrder])
        | dtb => exact hdry .dtb (by simp [dryRunOrder])
  · intro hmarker hcode
    rw [Ne, dryRunCode_eq_pass] at hcode
    obtain ⟨c, hc⟩ := Option.ne_none_iff_exists'.mp hcode
    rw [h.failing_bootOrder hmarker, hc, Option.some_or] at hout
    have hsum : dryRunCode m + 0x00020000 = 0xBAD30000 + c.number := by
      rw [dryRunCode, hc]
      cases c <;> rfl
    rw [hsum]
    exact hout

/-- The dry run over the staged images, and the boot with the data cache on. -/
theorem dryRun_predicts_staged :
    wp dryRun (fun _ m => m) dryRun.lines stagedCaller fun e n => e = ⟨.bx .r10, stagedCaller.reg .lr⟩ ∧
      wp zimageBoot (fun _ m => m) zimageBoot.lines { stagedCaller with sys := fun _ => 0x04 } fun e' n' =>
        (HandsOff { stagedCaller with sys := fun _ => 0x04 } e' n' ↔ n.reg .r0 = 0x44525931 ∧
          Check.marker.Passes { stagedCaller with sys := fun _ => 0x04 } ∧
          Check.cpuState.Passes { stagedCaller with sys := fun _ => 0x04 }) ∧
        (Check.marker.Passes { stagedCaller with sys := fun _ => 0x04 } → n.reg .r0 ≠ 0x44525931 →
          ReturnsCode { stagedCaller with sys := fun _ => 0x04 } (n.reg .r0 + 0x00020000) e' n') :=
  dryRun_predicts resident_idle leaves_idle resident_idle leaves_idle ⟨rfl, rfl, fun _ _ => rfl⟩

end ShadowMsm.Bl1.Zimage
