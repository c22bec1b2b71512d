import ShadowMsm.Mmu.Subroutines

/-!
# The identity-MMU probe is transparent

The run is followed through its phases: the report, the loop that fills the table, the installation of the table, the
phase with translation on, and the restoration.  Each phase keeps the frame of the entry, the code and the entries made
so far; the system registers are known at every place.  So whenever translation is on, the table is complete and maps
every address to itself.
-/

namespace ShadowMsm.Mmu

open Arm

/-- Translation is the identity on all addresses, with manager access. -/
def IdentityMapped (m : Machine) : Prop := ∀ va, m.walk va = some ⟨va, .manager⟩

/-- The code is as on entry; while translation is on, it uses the table that the probe has built, which is complete and
maps every address to itself. -/
structure Guarded (m₀ m : Machine) : Prop where
  code : SameOn m.mem m₀.mem BASE STRINGS_OFFSET
  ttbr : m.MmuOn → m.sys .ttbr = L1_TABLE
  table : m.MmuOn → IdentityEntries m.mem L1_TABLE SECTION_FLAGS 4096
  mapped : m.MmuOn → IdentityMapped m

/-- What the probe hands back. -/
structure Restored (m₀ m : Machine) : Prop where
  magic : m.reg .r0 = RETURN_MAGIC
  regs : ∀ r ∈ calleeSaves, m.reg r = m₀.reg r
  sys : m.sys = m₀.sys
  table : IdentityEntries m.mem L1_TABLE SECTION_FLAGS 4096

/-- The system registers with the table installed. -/
def installed (S : Sys → Word) : Sys → Word := Function.update (Function.update S .dacr 3) .ttbr L1_TABLE

/-- The system registers while the probe translates. -/
def translating (S : Sys → Word) : Sys → Word := Function.update (installed S) .sctlr ((S .sctlr ||| 1) &&& ~~~6)

/-- Translation is off, or the table is installed and complete. -/
def Sound (n : Nat) (S : Sys → Word) : Prop :=
  (S .sctlr).getLsbD 0 = true → n = 4096 ∧ S .ttbr = L1_TABLE ∧ S .dacr = 3

variable {env : Word → Machine → Machine} {A : List Machine → Prop} {Q : Exit → Machine → Prop}
  {n i : Nat} {S : Sys → Word} {m₀ m : Machine} {k : List (Line Label)}

/-! ### System registers -/

theorem sound_of_off (h : (S .sctlr).getLsbD 0 = false) : Sound n S := by
  intro h'
  rw [h] at h'
  cases h'

theorem sound_entry (h : ¬ m₀.MmuOn) (n : Nat) : Sound n m₀.sys := fun h' => absurd h' h

theorem translating_on (S : Sys → Word) : (translating S .sctlr).getLsbD 0 = true := by
  simp [translating]

theorem sound_translating (S : Sys → Word) : Sound 4096 (translating S) := by
  intro _
  refine ⟨rfl, ?_, ?_⟩
  · simp [translating, installed]
  · simp [translating, installed]

/-- A complete table that is installed maps every address to itself. -/
theorem guarded_of_phase (hS : Sound n S) (h : Phase m₀.mem n S m.mem m.sys) : Guarded m₀ m := by
  have hon : m.MmuOn → n = 4096 ∧ m.sys .ttbr = L1_TABLE ∧ m.sys .dacr = 3 := by
    intro hon
    rw [Machine.MmuOn, h.sys_eq] at hon
    rw [h.sys_eq]
    exact hS hon
  have htable : m.MmuOn → IdentityEntries m.mem L1_TABLE SECTION_FLAGS 4096 := by
    intro hm
    obtain ⟨rfl, -, -⟩ := hon hm
    exact h.table
  refine ⟨h.code, fun hm => (hon hm).2.1, htable, ?_⟩
  intro hm va
  obtain ⟨-, httbr, hdacr⟩ := hon hm
  have hbase : (m.sys .ttbr).extractLsb' 0 14 = 0 := by
    rw [httbr]
    decide
  have hentries : IdentityEntries m.mem (m.sys .ttbr) SECTION_FLAGS 4096 := by
    rw [httbr]
    exact htable hm
  rw [Machine.walk_identity hbase (by decide) (by decide) hentries, hdacr]
  rfl

/-- A write to a system register. -/
theorem Body.mcr (hm : Body m₀ n S m) {r : Reg} {s : Sys} {w : Word} (hw : m.reg r = w) :
    Body m₀ n (Function.update S s w) ((Op.mcr r s).exec m) := by
  refine ⟨hm.sp_eq, hm.regs, hm.saved, hm.inv.code, hm.inv.table, ?_⟩
  have hsys : ((Op.mcr r s).exec m).sys = Function.update m.sys s (m.reg r) := rfl
  rw [hsys, hm.inv.sys_eq, hw]

/-! ### Blocks that neither branch nor write a control register -/

/-- The lines that keep the body. -/
def calm : Line Label → Bool
  | .instr (.op c o) => c = .al && o.writes.any fun ds => (Reg.sp :: controls).all fun r => r ∉ ds
  | .instr (.bl l) => l = .printValue
  | .instr (.call t) => t = PRINT_STRING || t = PMIC_LED_SET
  | _ => false

theorem keeps_calm (henv : Resident env) (hn : n ≤ 4096) (hS : Sound n S) {l : Line Label} (hl : calm l = true) :
    KeepsAlong probe env (Guarded m₀) (Body m₀ n S) l := by
  have hW : ∀ m, Phase m₀.mem n S m.mem m.sys → Guarded m₀ m := fun _ h => guarded_of_phase hS h
  cases l with
  | label l => simp [calm] at hl
  | instr i =>
    cases i with
    | op c o =>
      simp only [calm, Bool.and_eq_true, decide_eq_true_eq, Option.any_eq_true_iff_get, List.all_eq_true] at hl
      obtain ⟨rfl, hw, hd⟩ := hl
      exact keeps_exec hW (Option.some_get hw).symm hd
    | bl l =>
      obtain rfl : l = .printValue := by simpa [calm] using hl
      exact keeps_printValue henv hn hW
    | call t =>
      have ht : IsResident t := by simpa [calm, IsResident] using hl
      exact keeps_resident henv hn hW ht (by decide) (by simp [FRAME])
    | b c l => simp [calm] at hl
    | bAbs a => simp [calm] at hl
    | blx r => simp [calm] at hl
    | bx r => simp [calm] at hl
    | popPc rs => simp [calm] at hl

theorem calm_along (henv : Resident env) (hn : n ≤ 4096) (hS : Sound n S) {b : List (Line Label)}
    (hb : b.all calm = true) (hA : Grows (Guarded m₀) A) (hm : Body m₀ n S m)
    (h : ∀ m', Body m₀ n S m' → wpAlong probe env A k m' Q) : wpAlong probe env A (b ++ k) m Q := by
  have hkeeps : ∀ l ∈ b, KeepsAlong probe env (Guarded m₀) (Body m₀ n S) l :=
    fun l hl => keeps_calm henv hn hS (List.all_eq_true.mp hb l hl)
  exact wpAlong_block hA hkeeps hm h

/-- A single operation. -/
theorem op_along (hA : Grows (Guarded m₀) A) (hS : Sound n S) (hm : Phase m₀.mem n S m.mem m.sys) {o : Op}
    (h : wpAlong probe env A k (o.exec m) Q) : wpAlong probe env A (.instr (.op .al o) :: k) m Q :=
  wpAlong_op (fun t => hA m t (guarded_of_phase hS hm)) h

/-! ### The phases -/

private theorem phase_entry (m₀ : Machine) : Phase m₀.mem 0 m₀.sys m₀.mem m₀.sys :=
  ⟨SameOn.refl _ _ _, fun i hi => absurd hi (Nat.not_lt_zero i), rfl⟩

/-- The registers on the new stack; the old stack pointer is in `r12`. -/
private theorem entry_saves (m₀ : Machine) :
    Active (Phase m₀.mem 0 m₀.sys) (FRAME + 4) (entrySaves.map m₀.reg) [.r12] (fun _ => m₀.reg .sp)
      ((Op.push entrySaves).exec ((Op.ldrc .sp STACK_TOP).exec ((Op.mov .r12 (.reg .sp)).exec m₀))) := by
  have h2 : Active (Phase m₀.mem 0 m₀.sys) STACK_TOP [] [.r12] (fun _ => m₀.reg .sp)
      ((Op.ldrc .sp STACK_TOP).exec ((Op.mov .r12 (.reg .sp)).exec m₀)) := by
    refine ⟨?_, ?_, trivial, phase_entry m₀⟩
    · simp [Op.exec, Machine.reg_set]
    · simp [Op.exec, Op2.eval, Machine.reg_set]
  have hsaves : entrySaves.map ((Op.ldrc .sp STACK_TOP).exec ((Op.mov .r12 (.reg .sp)).exec m₀)).reg ++ [] =
      entrySaves.map m₀.reg := by
    simp [entrySaves, Op.exec, Machine.reg_set]
  rw [← hsaves]
  apply h2.push (by decide) (by decide) (by decide) (by decide)
  · simp [STACK_TOP]
  · intro μ hμ
    exact h2.inv.stack (by omega) (by decide) hμ

/-- The old stack pointer below them. -/
private theorem entry_frame (hm : Active (Phase m₀.mem 0 m₀.sys) (FRAME + 4) (entrySaves.map m₀.reg) [.r12]
    (fun _ => m₀.reg .sp) m) :
    Active (Phase m₀.mem 0 m₀.sys) FRAME (entryWords m₀) [.r12] (fun _ => m₀.reg .sp) ((Op.push [.r12]).exec m) := by
  have hwords : entryWords m₀ = [.r12].map m.reg ++ entrySaves.map m₀.reg := by
    simp [entryWords, hm.regs .r12 (by simp)]
  rw [hwords]
  apply hm.push (by decide) (by decide) (by decide) (by decide)
  · simp [entrySaves, FRAME]
  · intro μ hμ
    exact hm.inv.stack (by omega) (by decide) hμ

/-- The entry makes the frame and reads the control registers. -/
theorem entry_along (hA : Grows (Guarded m₀) A) (hS : Sound 0 m₀.sys)
    (h : ∀ m, Body m₀ 0 m₀.sys m → wpAlong probe env A k m Q) : wpAlong probe env A (entryBlock ++ k) m₀ Q := by
  have h0 := phase_entry m₀
  have h1 := h0.exec (o := .mov .r12 (.reg .sp)) rfl
  have h2 := h1.exec (o := .ldrc .sp STACK_TOP) rfl
  have h3 := entry_saves m₀
  have h4 := entry_frame h3
  simp only [entryBlock, List.cons_append, List.nil_append]
  apply wpAlong_label
  apply op_along hA hS h0
  apply op_along hA hS h1
  apply op_along hA hS h2
  apply op_along hA hS h3.inv
  generalize (Op.push [.r12]).exec ((Op.push entrySaves).exec ((Op.ldrc .sp STACK_TOP).exec
    ((Op.mov .r12 (.reg .sp)).exec m₀))) = m4 at h4
  have h5 := h4.exec (o := .mrs .r4) rfl (by decide)
  have h6 := h5.exec (o := .mrc .r5 .sctlr) rfl (by decide)
  have h7 := h6.exec (o := .mrc .r6 .ttbr) rfl (by decide)
  have h8 := h7.exec (o := .mrc .r7 .dacr) rfl (by decide)
  apply op_along hA hS h4.inv
  apply op_along hA hS h5.inv
  apply op_along hA hS h6.inv
  apply op_along hA hS h7.inv
  apply h
  refine ⟨h8.sp_eq, ?_, h8.saved, h8.inv⟩
  simp only [controls, List.forall_mem_cons, List.not_mem_nil, false_imp_iff, implies_true, and_true]
  rw [← h4.inv.sys_eq]
  simp [Op.exec, Machine.reg_set, controlValue]

/-! ### The table -/

/-- Before pass `i` of the loop. -/
structure Building (m₀ : Machine) (i : Nat) (m : Machine) : Prop where
  body : Body m₀ i m₀.sys m
  r8 : m.reg .r8 = L1_TABLE + BitVec.ofNat 32 (4 * i)
  r9 : m.reg .r9 = BitVec.ofNat 32 (i * 0x100000)
  r10 : m.reg .r10 = SECTION_FLAGS
  r11 : m.reg .r11 = BitVec.ofNat 32 (4096 - i)

/-- The store of entry `i`. -/
private theorem body_store (hi : i < 4096) (hm : Body m₀ i m₀.sys m)
    (h8 : m.reg .r8 = L1_TABLE + BitVec.ofNat 32 (4 * i)) (h0 : m.reg .r0 = identityEntry SECTION_FLAGS i) :
    Body m₀ (i + 1) m₀.sys ((Op.strPost .r0 .r8 4).exec m) := by
  have halign : align (L1_TABLE + BitVec.ofNat 32 (4 * i)) = L1_TABLE + BitVec.ofNat 32 (4 * i) := by
    apply align_of_dvd
    unfold L1_TABLE
    bv_omega
  have hmem : ((Op.strPost .r0 .r8 4).exec m).mem =
      store32 m.mem (L1_TABLE + BitVec.ofNat 32 (4 * i)) (identityEntry SECTION_FLAGS i) := by
    simp only [Op.exec, Machine.mem_touch, Machine.mem_set, Machine.mem_setMem, h8, h0, halign]
  -- the entry lies apart from the frame and from the code
  have hout : ∀ x, Within x FRAME 40 ∨ Within x BASE STRINGS_OFFSET →
      ((Op.strPost .r0 .r8 4).exec m).mem x = m.mem x := by
    intro x hx
    rw [hmem]
    apply store32_of_not_within
    unfold L1_TABLE
    unfold FRAME BASE STRINGS_OFFSET at hx
    simp only [Within] at hx ⊢
    bv_omega
  refine ⟨?_, ?_, ?_, ?_, ?_, hm.inv.sys_eq⟩
  · simp only [Op.exec, Machine.reg_touch, Machine.reg_set, reduceCtorEq, if_false]
    exact hm.sp_eq
  · intro r hr
    have hr8 : r ≠ .r8 := by
      rintro rfl
      revert hr
      decide
    simp only [Op.exec, Machine.reg_touch, Machine.reg_set, hr8, if_false]
    exact hm.regs r hr
  · apply hm.saved.congr (by simp)
    intro x hx
    exact hout x (Or.inl hx)
  · intro x hx
    rw [hout x (Or.inr hx)]
    exact hm.inv.code x hx
  · rw [hmem]
    exact hm.inv.table.store (by omega)

/-- The machine after a pass, before the branch. -/
private def pass (m : Machine) : Machine :=
  (Op.subs .r11 .r11 (.imm 1)).exec ((Op.alu .add .r9 .r9 (.imm 0x00100000)).exec
    ((Op.strPost .r0 .r8 4).exec ((Op.alu .orr .r0 .r9 (.reg .r10)).exec m)))

/-- The body inside a pass. -/
private theorem body_pass (hi : i < 4096) (hm : Building m₀ i m) :
    Body m₀ i m₀.sys ((Op.alu .orr .r0 .r9 (.reg .r10)).exec m) ∧
    Body m₀ (i + 1) m₀.sys ((Op.strPost .r0 .r8 4).exec ((Op.alu .orr .r0 .r9 (.reg .r10)).exec m)) ∧
    Body m₀ (i + 1) m₀.sys ((Op.alu .add .r9 .r9 (.imm 0x00100000)).exec
      ((Op.strPost .r0 .r8 4).exec ((Op.alu .orr .r0 .r9 (.reg .r10)).exec m))) := by
  have h1 : Body m₀ i m₀.sys ((Op.alu .orr .r0 .r9 (.reg .r10)).exec m) := hm.body.exec rfl (by decide)
  have h2 := body_store hi h1 (by simpa [Op.exec, Machine.reg_set] using hm.r8)
    (by simp [Op.exec, Op2.eval, Alu.eval, Machine.reg_set, hm.r9, hm.r10, identityEntry])
  exact ⟨h1, h2, h2.exec rfl (by decide)⟩

private theorem building_pass (hi : i < 4096) (hm : Building m₀ i m) : Building m₀ (i + 1) (pass m) := by
  obtain ⟨-, -, h3⟩ := body_pass hi hm
  have h8 : L1_TABLE + BitVec.ofNat 32 (4 * i) + 4 = L1_TABLE + BitVec.ofNat 32 (4 * (i + 1)) := by bv_omega
  have h9 : BitVec.ofNat 32 (i * 0x100000) + 0x00100000 = BitVec.ofNat 32 ((i + 1) * 0x100000) := by bv_omega
  have h11 : (BitVec.ofNat 32 (4096 - i) - 1 : Word) = BitVec.ofNat 32 (4096 - (i + 1)) := by bv_omega
  constructor
  · exact h3.exec rfl (by decide)
  · simpa [pass, Op.exec, Machine.reg_set, hm.r8] using h8
  · simpa [pass, Op.exec, Op2.eval, Alu.eval, Machine.reg_set, hm.r9] using h9
  · simpa [pass, Op.exec, Machine.reg_set] using hm.r10
  · simpa [pass, Op.exec, Op2.eval, Machine.reg_set, hm.r11] using h11

private theorem holds_pass (hi : i < 4096) (hm : Building m₀ i m) :
    Cond.ne.holds (pass m).flags = decide (i + 1 ≠ 4096) := by
  have hz : (BitVec.ofNat 32 (4096 - i) = (1 : Word)) ↔ i + 1 = 4096 := by
    constructor
    · intro e
      bv_omega
    · intro e
      rw [show 4096 - i = 1 by omega]
      rfl
  simp only [pass, Op.exec, Op2.eval, Machine.flags_setFlags, Machine.reg_touch, Machine.reg_set, Machine.reg_setMem,
    reduceCtorEq, if_false, hm.r11, holds_ne_sub, ne_eq, hz]

/-- One pass of the loop writes one entry. -/
private theorem buildL1_step (hcode : probe.codeAt .buildL1 = buildL1Block ++ k) (hA : Grows (Guarded m₀) A)
    (hoff : ¬ m₀.MmuOn) (hi : i < 4096) (hm : Building m₀ i m)
    (h : ∀ m', Building m₀ (i + 1) m' →
      if i + 1 = 4096 then wpAlong probe env A k m' Q else wpAlong probe env A (probe.codeAt .buildL1) m' Q) :
    wpAlong probe env A (probe.codeAt .buildL1) m Q := by
  have hS := fun n => sound_entry hoff n
  obtain ⟨h1, h2, h3⟩ := body_pass hi hm
  have h4 := building_pass hi hm
  have hpass := h _ h4
  rw [hcode]
  apply wpAlong_label
  apply op_along hA (hS i) hm.body.inv
  apply op_along hA (hS i) h1.inv
  apply op_along hA (hS (i + 1)) h2.inv
  apply op_along hA (hS (i + 1)) h3.inv
  apply wpAlong_b hA (guarded_of_phase (hS (i + 1)) h4.body.inv)
  · intro hc
    have hne : i + 1 ≠ 4096 := of_decide_eq_true ((holds_pass hi hm).symm.trans hc)
    rwa [if_neg hne] at hpass
  · intro hc
    have he : i + 1 = 4096 := not_not.mp (of_decide_eq_false ((holds_pass hi hm).symm.trans hc))
    rwa [if_pos he] at hpass

/-- The loop fills the table. -/
theorem buildL1_along (hcode : probe.codeAt .buildL1 = buildL1Block ++ k) (hA : Grows (Guarded m₀) A)
    (hoff : ¬ m₀.MmuOn) (hm : Building m₀ 0 m)
    (h : ∀ m', Body m₀ 4096 m₀.sys m' → wpAlong probe env A k m' Q) :
    wpAlong probe env A (probe.codeAt .buildL1) m Q := by
  have loop : ∀ j i m', i + j = 4096 → 0 < j → Building m₀ i m' →
      wpAlong probe env A (probe.codeAt .buildL1) m' Q := by
    intro j
    induction j with
    | zero =>
      intro i m' _ h0
      omega
    | succ j ih =>
      intro i m' hi _ hm'
      apply buildL1_step hcode hA hoff (by omega) hm'
      intro m'' hm''
      by_cases hlast : i + 1 = 4096
      · rw [if_pos hlast]
        exact h m'' (hlast ▸ hm''.body)
      · rw [if_neg hlast]
        exact ih (i + 1) m'' (by omega) (by omega) hm''
  exact loop 4096 0 m (by omega) (by omega) hm

theorem table_along (hcode : probe.codeAt .buildL1 = buildL1Block ++ k) (hA : Grows (Guarded m₀) A)
    (hoff : ¬ m₀.MmuOn) (hm : Body m₀ 0 m₀.sys m)
    (h : ∀ m', Body m₀ 4096 m₀.sys m' → wpAlong probe env A k m' Q) :
    wpAlong probe env A (tableBlock ++ (buildL1Block ++ k)) m Q := by
  have hS := sound_entry hoff 0
  have h1 : Body m₀ 0 m₀.sys ((Op.ldrc .r8 L1_TABLE).exec m) := hm.exec rfl (by decide)
  have h2 := h1.exec (o := .mov .r9 (.imm 0)) rfl (by decide)
  have h3 := h2.exec (o := .ldrc .r10 SECTION_FLAGS) rfl (by decide)
  have h4 := h3.exec (o := .mov .r11 (.imm 0x1000)) rfl (by decide)
  rw [← hcode]
  simp only [tableBlock, List.cons_append, List.nil_append]
  apply op_along hA hS hm.inv
  apply op_along hA hS h1.inv
  apply op_along hA hS h2.inv
  apply op_along hA hS h3.inv
  apply buildL1_along hcode hA hoff ⟨h4, ?_, ?_, ?_, ?_⟩ h
  all_goals simp [Op.exec, Op2.eval, Machine.reg_set]

/-! ### Translation on and off -/

theorem install_along (henv : Resident env) (hA : Grows (Guarded m₀) A) (hoff : ¬ m₀.MmuOn)
    (hm : Body m₀ 4096 m₀.sys m) (h : ∀ m', Body m₀ 4096 (installed m₀.sys) m' → wpAlong probe env A k m' Q) :
    wpAlong probe env A (installBlock ++ k) m Q := by
  have hS := sound_entry hoff 4096
  have hcalm : installBlock = printLiteral .tableReady ++ [.mov .r0 (.imm 0), .maint .r0 .drainWriteBuffer,
      .maint .r0 .invalidateTlb] ++ [.mov .r0 (.imm 3), .mcr .r0 .dacr, .ldrc .r0 L1_TABLE, .mcr .r0 .ttbr] := rfl
  rw [hcalm, List.append_assoc]
  apply calm_along henv (by omega) hS rfl hA hm
  intro m1 h1
  have h2 : Body m₀ 4096 m₀.sys ((Op.mov .r0 (.imm 3)).exec m1) := h1.exec rfl (by decide)
  have h3 := h2.mcr (r := .r0) (s := .dacr) (w := 3) (by simp [Op.exec, Op2.eval, Machine.reg_set])
  have h4 := h3.exec (o := .ldrc .r0 L1_TABLE) rfl (by decide)
  have h5 := Body.mcr (r := .r0) (s := .ttbr) (w := L1_TABLE) h4 (by simp [Op.exec, Machine.reg_set])
  have hS' : Sound 4096 (Function.update m₀.sys .dacr 3) := sound_of_off (by simpa [Machine.MmuOn] using hoff)
  simp only [List.cons_append, List.nil_append]
  apply op_along hA hS h1.inv
  apply op_along hA hS h2.inv
  apply op_along hA hS' h3.inv
  apply op_along hA hS' h4.inv
  exact h _ h5

/-- Translation goes on, and some instruction runs with it. -/
theorem enable_along (henv : Resident env) (hoff : ¬ m₀.MmuOn) (hm : Body m₀ 4096 (installed m₀.sys) m)
    (h : ∀ m', Body m₀ 4096 (translating m₀.sys) m' → wpAlong probe env (AllAlong (Guarded m₀)) k m' Q) :
    wpAlong probe env (MeetsAlong (Guarded m₀) Machine.MmuOn) (enableBlock ++ k) m Q := by
  have hS : Sound 4096 (installed m₀.sys) := sound_of_off (by simpa [installed, Machine.MmuOn] using hoff)
  have hS' := sound_translating m₀.sys
  rw [enableBlock, List.append_assoc]
  apply calm_along henv (by omega) hS rfl grows_meets hm
  intro m1 h1
  have h2 : Body m₀ 4096 (installed m₀.sys) ((Op.alu .orr .r8 .r5 (.imm 1)).exec m1) := h1.exec rfl (by decide)
  have h3 : Body m₀ 4096 (installed m₀.sys) ((Op.alu .bic .r8 .r8 (.imm 6)).exec
      ((Op.alu .orr .r8 .r5 (.imm 1)).exec m1)) := h2.exec rfl (by decide)
  have h5 : m1.reg .r5 = m₀.sys .sctlr := h1.regs .r5 (by decide)
  have h4 := h3.mcr (r := .r8) (s := .sctlr) (w := (m₀.sys .sctlr ||| 1) &&& ~~~6)
    (by simp only [Op.exec, Op2.eval, Alu.eval, Machine.reg_set, if_true, h5])
  have hon : ((Op.mcr .r8 .sctlr).exec ((Op.alu .bic .r8 .r8 (.imm 6)).exec
      ((Op.alu .orr .r8 .r5 (.imm 1)).exec m1))).MmuOn := by
    rw [Machine.MmuOn, h4.inv.sys_eq]
    exact translating_on m₀.sys
  simp only [List.cons_append, List.nil_append]
  apply op_along grows_meets hS h1.inv
  apply op_along grows_meets hS h2.inv
  apply op_along grows_meets hS h3.inv
  apply wpAlong_op fun t => meets_cons (guarded_of_phase hS' h4.inv) hon
  -- the rest of the block is calm
  apply calm_along (b := [.mov .r0 (.reg .r0)]) henv (by omega) hS' rfl grows_all ?_ h
  exact Active.exec h4 rfl (by decide)

/-- What the restoration writes to the system registers is what was there. -/
private theorem restored_sys (S : Sys → Word) : Function.update (Function.update (Function.update (translating S)
    .sctlr (S .sctlr)) .ttbr (S .ttbr)) .dacr (S .dacr) = S := by
  funext s
  cases s <;> simp [translating, installed]

theorem restore_along (henv : Resident env) (hA : Grows (Guarded m₀) A) (hoff : ¬ m₀.MmuOn)
    (hm : Body m₀ 4096 (translating m₀.sys) m) (h : ∀ m', Body m₀ 4096 m₀.sys m' → wpAlong probe env A k m' Q) :
    wpAlong probe env A (restoreBlock ++ k) m Q := by
  have hS := sound_translating m₀.sys
  have h1 := hm.mcr (r := .r5) (s := .sctlr) (w := m₀.sys .sctlr) (hm.regs .r5 (by decide))
  have hS1 : Sound 4096 (Function.update (translating m₀.sys) .sctlr (m₀.sys .sctlr)) :=
    sound_of_off (by simpa [Machine.MmuOn] using hoff)
  have hcode : restoreBlock = .mcr .r5 .sctlr :: ([.mrc .r0 .midr, .mov .r0 (.reg .r0)] ++
      .mcr .r6 .ttbr :: .mcr .r7 .dacr :: [.mov .r0 (.imm 0), .maint .r0 .invalidateTlb]) := rfl
  rw [hcode]
  simp only [List.cons_append, List.append_assoc]
  apply op_along hA hS hm.inv
  apply calm_along (b := [.mrc .r0 .midr, .mov .r0 (.reg .r0)]) henv (by omega) hS1 rfl hA h1
  intro m2 h2
  have h3 := h2.mcr (r := .r6) (s := .ttbr) (w := m₀.sys .ttbr) (h2.regs .r6 (by decide))
  have hS3 : Sound 4096 (Function.update (Function.update (translating m₀.sys) .sctlr (m₀.sys .sctlr))
      .ttbr (m₀.sys .ttbr)) := sound_of_off (by simpa [Machine.MmuOn] using hoff)
  have h4 := h3.mcr (r := .r7) (s := .dacr) (w := m₀.sys .dacr) (h3.regs .r7 (by decide))
  rw [restored_sys] at h4
  apply op_along hA hS1 h2.inv
  apply op_along hA hS3 h3.inv
  exact calm_along (b := [.mov .r0 (.imm 0), .maint .r0 .invalidateTlb]) henv (by omega) (sound_entry hoff 4096) rfl hA
    h4 h

/-! ### The exit -/

/-- The registers of the caller, with the result in `r3` and the stack pointer in `r12`. -/
private def exitValue (m₀ : Machine) : Reg → Word
  | .r3 => RETURN_MAGIC
  | .r12 => m₀.reg .sp
  | r => m₀.reg r

theorem return_along (henv : Resident env) (hoff : ¬ m₀.MmuOn) (hm : Body m₀ 4096 m₀.sys m)
    (h : ∀ m', Restored m₀ m' → Q ⟨.bx .lr, m₀.reg .lr⟩ m') :
    wpAlong probe env (AllAlong (Guarded m₀)) (returnBlock ++ k) m Q := by
  have hS := sound_entry hoff 4096
  rw [returnBlock, List.append_assoc]
  apply calm_along henv (by omega) hS rfl grows_all hm
  intro m1 h1
  have h2 : Active (Phase m₀.mem 4096 m₀.sys) FRAME ([.r12].map (exitValue m₀) ++ entrySaves.map m₀.reg) [.r3]
      (exitValue m₀) ((Op.ldrc .r3 RETURN_MAGIC).exec m1) := by
    have hlit : Body m₀ 4096 m₀.sys ((Op.ldrc .r3 RETURN_MAGIC).exec m1) := h1.exec rfl (by decide)
    refine ⟨hlit.sp_eq, ?_, hlit.saved, hlit.inv⟩
    simp [Op.exec, Machine.reg_set, exitValue]
  -- the old stack pointer goes to `r12`, then the saved registers go back
  have h3 : Active (Phase m₀.mem 4096 m₀.sys) (FRAME + 4) (entrySaves.map (exitValue m₀) ++ []) [.r3, .r12] (exitValue m₀)
      ((Op.pop [.r12]).exec ((Op.ldrc .r3 RETURN_MAGIC).exec m1)) := by
    have hsaves : entrySaves.map (exitValue m₀) ++ [] = entrySaves.map m₀.reg := by simp [entrySaves, exitValue]
    rw [hsaves]
    exact h2.pop (by decide) (by decide) (by decide) (by simp)
  have h4 : Active (Phase m₀.mem 4096 m₀.sys) STACK_TOP [] ([.r3, .r12] ++ entrySaves) (exitValue m₀)
      ((Op.pop entrySaves).exec ((Op.pop [.r12]).exec ((Op.ldrc .r3 RETURN_MAGIC).exec m1))) :=
    h3.pop (by decide) (by decide) (by decide) (by simp [entrySaves])
  simp only [List.cons_append, List.nil_append]
  apply op_along grows_all hS h1.inv
  apply op_along grows_all hS h2.inv
  apply op_along grows_all hS h3.inv
  generalize (Op.pop entrySaves).exec ((Op.pop [.r12]).exec ((Op.ldrc .r3 RETURN_MAGIC).exec m1)) = m4 at h4
  have h5 := h4.inv.exec (o := .mov .sp (.reg .r12)) rfl
  have h6 := h5.exec (o := .mov .r0 (.reg .r3)) rfl
  apply op_along grows_all hS h4.inv
  apply op_along grows_all hS h5
  apply wpAlong_bx (guarded_of_phase hS h6)
  have hregs := h4.regs
  simp only [entrySaves, List.cons_append, List.nil_append, List.forall_mem_cons, List.not_mem_nil, false_imp_iff,
    implies_true, and_true, exitValue] at hregs
  have hlr : ((Op.mov .r0 (.reg .r3)).exec ((Op.mov .sp (.reg .r12)).exec m4)).reg .lr = m₀.reg .lr := by
    simp [Op.exec, Machine.reg_set, hregs]
  rw [hlr]
  apply h
  refine ⟨?_, ?_, h6.sys_eq, h6.table⟩
  · simp [Op.exec, Op2.eval, Machine.reg_set, hregs]
  · simp [calleeSaves, Op.exec, Op2.eval, Machine.reg_set, hregs]

/-! ### The whole run -/

/-- The phases one after the other. -/
theorem probe_along (henv : Resident env) (hoff : ¬ m₀.MmuOn) :
    wpAlong probe env (MeetsAlong (Guarded m₀) Machine.MmuOn) probe.lines m₀
      fun e m => e = ⟨.bx .lr, m₀.reg .lr⟩ ∧ Restored m₀ m := by
  have hlines : probe.lines = entryBlock ++ (reportBlock ++ (tableBlock ++ (buildL1Block ++ (installBlock ++
      (enableBlock ++ (translatedBlock ++ (restoreBlock ++ (returnBlock ++ probe.codeAt .printValue)))))))) := rfl
  have hcode : probe.codeAt .buildL1 = buildL1Block ++ (installBlock ++ (enableBlock ++ (translatedBlock ++
      (restoreBlock ++ (returnBlock ++ probe.codeAt .printValue))))) := rfl
  rw [hlines]
  apply entry_along grows_meets (sound_entry hoff 0)
  intro m1 h1
  apply calm_along henv (by omega) (sound_entry hoff 0) rfl grows_meets h1
  intro m2 h2
  apply table_along hcode grows_meets hoff h2
  intro m3 h3
  apply install_along henv grows_meets hoff h3
  intro m4 h4
  apply enable_along henv hoff h4
  intro m5 h5
  apply calm_along henv (by omega) (sound_translating m₀.sys) rfl grows_all h5
  intro m6 h6
  apply restore_along henv grows_all hoff h6
  intro m7 h7
  apply return_along henv hoff h7
  intro m8 h8
  exact ⟨rfl, h8⟩

/-- From every state with translation off the probe returns to its caller with "MMU1" and with the control registers,
`sp` and `r4`-`r11` of the entry; the table is built; wherever translation is on, it is the identity through that
table; and translation is on for a part of the run. -/
theorem probe_transparent (henv : Resident env) (m₀ : Machine) (hoff : ¬ m₀.MmuOn) :
    ∃ n m, probe.run env n probe.lines m₀ = some (⟨.bx .lr, m₀.reg .lr⟩, m) ∧ Restored m₀ m ∧
      (∀ s ∈ probe.visited env n probe.lines m₀, Guarded m₀ s) ∧
      ∃ s ∈ probe.visited env n probe.lines m₀, s.MmuOn := by
  obtain ⟨n, e, m, hrun, ⟨hall, hon⟩, rfl, hm⟩ := probe_along henv hoff
  exact ⟨n, m, hrun, hm, hall, hon⟩

/-- A caller in the resident monitor, with the control register as after reset. -/
def monitorCaller : Machine where
  reg r := if r = .sp then 0x0081F000 else if r = .lr then 0x00817000 else 0
  flags := ⟨false, false, false, false⟩
  ctl := 0xD3
  sys s := if s = .sctlr then 0x00050078 else 0
  mem _ := 0
  log := []

theorem resident_scratched : Resident scratched where
  reg t _ m _ hr := reg_scratched t m hr
  sys _ _ _ := rfl
  stack _ _ _ _ _ _ := rfl
  owned _ _ _ _ _ := rfl

theorem probe_transparent_monitorCaller :
    ∃ n m, probe.run scratched n probe.lines monitorCaller = some (⟨.bx .lr, 0x00817000⟩, m) ∧
      Restored monitorCaller m ∧ (∀ s ∈ probe.visited scratched n probe.lines monitorCaller, Guarded monitorCaller s) ∧
      ∃ s ∈ probe.visited scratched n probe.lines monitorCaller, s.MmuOn :=
  probe_transparent resident_scratched monitorCaller (by decide)

end ShadowMsm.Mmu
