import ShadowMsm.Arm.Hex
import ShadowMsm.Arm.Mmu
import ShadowMsm.Mmu.Probe

/-!
# The subroutines of the identity-MMU probe

What holds at every place of the probe: its code is as loaded, its table has so many entries, and the system registers
are what the phase of the run makes them (`Phase`).  The resident routines keep that by assumption, `print_value` and
`format_hex` because they write only below the frame of the entry and to the text buffer.
-/

namespace ShadowMsm.Mmu

open Arm

/-- The entry points in the resident monitor that the probe calls. -/
def IsResident (t : Word) : Prop := t = PRINT_STRING ∨ t = PMIC_LED_SET

/-- The code of the probe, which the builder keeps below the strings, and the table. -/
def Owned (x : Word) : Prop := Within x BASE STRINGS_OFFSET ∨ Within x L1_TABLE 0x4000

/-- The resident routines follow the procedure call standard: they keep `sp` and the registers `r4`-`r11`, and the
stack, the code and the table of their caller.  They do not change the system registers. -/
structure Resident (env : Word → Machine → Machine) : Prop where
  reg : ∀ t, IsResident t → ∀ m, ∀ r ∈ calleeSaves, (env t m).reg r = m.reg r
  sys : ∀ t, IsResident t → ∀ m, (env t m).sys = m.sys
  stack : ∀ t, IsResident t → ∀ m x, m.reg .sp ≤ x → x < STACK_TOP → (env t m).mem x = m.mem x
  owned : ∀ t, IsResident t → ∀ m x, Owned x → (env t m).mem x = m.mem x

/-- The code is that of `μ₀`, the first `n` entries of the table are there, and the system registers are `S`. -/
structure Phase (μ₀ : Mem) (n : Nat) (S : Sys → Word) (μ : Mem) (s : Sys → Word) : Prop where
  code : SameOn μ μ₀ BASE STRINGS_OFFSET
  table : IdentityEntries μ L1_TABLE SECTION_FLAGS n
  sys_eq : s = S

/-- The address of what the entry has pushed. -/
def FRAME : Word := 0x01FFDFD8

/-- The registers that hold the control values found on entry. -/
def controls : List Reg := [.r5, .r6, .r7]

def controlValue (S : Sys → Word) : Reg → Word
  | .r5 => S .sctlr
  | .r6 => S .ttbr
  | _ => S .dacr

/-- The probe was entered with `m₀` and is between entry and exit. -/
def Body (m₀ : Machine) (n : Nat) (S : Sys → Word) (m : Machine) : Prop :=
  Active (Phase m₀.mem n S) FRAME (entryWords m₀) controls (controlValue m₀.sys) m

variable {env : Word → Machine → Machine} {W : Machine → Prop} {A : List Machine → Prop} {Q : Exit → Machine → Prop}
  {μ₀ μ μ' : Mem} {n : Nat} {S s : Sys → Word} {m₀ m : Machine} {v : Reg → Word} {a : Word} {ws : List Word}
  {rs : List Reg} {k : List (Line Label)}

/-! ### What keeps a phase -/

/-- Only the code and the table count. -/
theorem Phase.write (h : Phase μ₀ n S μ s) (hn : n ≤ 4096) (hμ : ∀ x, Owned x → μ' x = μ x) : Phase μ₀ n S μ' s := by
  constructor
  · intro x hx
    rw [hμ x (Or.inl hx)]
    exact h.code x hx
  · apply h.table.congr (by omega)
    intro x hx
    apply hμ x
    right
    simp only [Within] at hx ⊢
    omega
  · exact h.sys_eq

/-- An operation on registers. -/
theorem Phase.exec (h : Phase μ₀ n S m.mem m.sys) {o : Op} {ds : List Reg} (ho : o.writes = some ds) :
    Phase μ₀ n S (o.exec m).mem (o.exec m).sys := by
  rw [Op.mem_exec ho, Op.sys_exec ho]
  exact h

/-- The stack and the data of the probe are not its code or its table. -/
theorem not_owned_stack {x : Word} (hx : Within x (FRAME - 28) 68) : ¬ Owned x := by
  unfold FRAME at hx
  simp only [Within] at hx
  rintro (h | h)
  · unfold BASE STRINGS_OFFSET at h
    simp only [Within] at h
    bv_omega
  · unfold L1_TABLE at h
    simp only [Within] at h
    bv_omega

/-- A write to the stack. -/
theorem Phase.stack (h : Phase μ₀ n S μ s) (hn : n ≤ 4096) {b : Word} {l : Nat} (hb : Inside b l (FRAME - 28) 68)
    (hμ : ∀ x, ¬ Within x b l → μ' x = μ x) : Phase μ₀ n S μ' s := by
  apply h.write hn
  intro x hx
  apply hμ
  intro hw
  exact not_owned_stack (hb.within hw) hx

theorem not_owned_digits {x : Word} (hx : Within x (hexBufferAddr + 2) 8) : ¬ Owned x := by
  unfold hexBufferAddr BASE HEX_BUFFER_OFFSET at hx
  simp only [Within] at hx
  rintro (h | h)
  · unfold BASE STRINGS_OFFSET at h
    simp only [Within] at h
    bv_omega
  · unfold L1_TABLE at h
    simp only [Within] at h
    bv_omega

theorem not_within_stack {x : Word} (hx : Within x (hexBufferAddr + 2) 8) : ¬ Within x (FRAME - 28) 68 := by
  unfold hexBufferAddr BASE HEX_BUFFER_OFFSET at hx
  unfold FRAME
  simp only [Within] at hx ⊢
  bv_omega

/-- A call of a resident routine. -/
theorem active_callOut (henv : Resident env) (hn : n ≤ 4096) (hm : Active (Phase μ₀ n S) a ws rs v m) {t ret : Word}
    (ht : IsResident t) (hrs : ∀ r ∈ rs, r ∈ calleeSaves) (htop : a.toNat + 4 * ws.length = 0x01FFE000) :
    Active (Phase μ₀ n S) a ws rs v (m.callOut env t ret) := by
  have hreg : ∀ r ∈ calleeSaves, (m.callOut env t ret).reg r = m.reg r := by
    intro r hr
    have hlr : r ≠ .lr := by
      rintro rfl
      revert hr
      decide
    refine (henv.reg t ht _ r hr).trans ?_
    rw [Machine.reg_touch, Machine.reg_set, if_neg hlr]
  constructor
  · rw [hreg .sp (by decide)]
    exact hm.sp_eq
  · intro r hr
    rw [hreg r (hrs r hr)]
    exact hm.regs r hr
  · apply hm.saved.congr (by omega)
    intro x hx
    refine henv.stack t ht _ x ?_ ?_
    · rw [Machine.reg_touch, Machine.reg_set, if_neg (by decide), hm.sp_eq]
      simp only [Within] at hx
      bv_omega
    · unfold STACK_TOP
      simp only [Within] at hx
      bv_omega
  · have hsys : (m.callOut env t ret).sys = m.sys := henv.sys t ht _
    rw [hsys]
    exact hm.inv.write hn fun x hx => henv.owned t ht _ x hx

theorem keeps_resident (henv : Resident env) (hn : n ≤ 4096) (hW : ∀ m, Phase μ₀ n S m.mem m.sys → W m) {t : Word}
    (ht : IsResident t) (hrs : ∀ r ∈ rs, r ∈ calleeSaves) (htop : a.toNat + 4 * ws.length = 0x01FFE000) :
    KeepsAlong probe env W (Active (Phase μ₀ n S) a ws rs v) (.call t) :=
  keepsAlong_call (fun m hm => hW m hm.inv) fun _ _ hm => active_callOut henv hn hm ht hrs htop

theorem keeps_exec (hW : ∀ m, Phase μ₀ n S m.mem m.sys → W m) {o : Op} {ds : List Reg} (ho : o.writes = some ds)
    (hd : ∀ r ∈ Reg.sp :: rs, r ∉ ds) :
    KeepsAlong probe env W (Active (Phase μ₀ n S) a ws rs v) (.instr (.op .al o)) :=
  keepsAlong_op (fun m hm => hW m hm.inv) fun _ hm => hm.exec ho hd

/-! ### `format_hex` -/

/-- What `format_hex` writes is neither code nor table. -/
private theorem Phase.formats (h : Phase μ₀ n S m.mem m.sys) (hn : n ≤ 4096) (hsp : m.reg .sp = FRAME - 8)
    {m' : Machine} (hm : FormatsOnly (hexBufferAddr + 2) m m') : Phase μ₀ n S m'.mem m'.sys := by
  rw [hm.sys]
  apply h.write hn
  intro x hx
  apply hm.mem x
  · intro hw
    rw [hsp] at hw
    exact not_owned_stack (Inside.within (by decide) hw) hx
  · intro hw
    exact not_owned_digits hw hx

/-- `format_hex` returns to its caller and keeps the frame of `print_value`. -/
theorem keeps_formatHex (hn : n ≤ 4096) (hW : ∀ m, Phase μ₀ n S m.mem m.sys → W m) (hws : 4 * ws.length = 48)
    (hrs : ∀ r ∈ rs, r ∈ calleeSaves) (hm : Active (Phase μ₀ n S) (FRAME - 8) ws rs v m)
    (h : ∀ m', Active (Phase μ₀ n S) (FRAME - 8) ws rs v m' → Q ⟨.pop, m.reg .lr⟩ m') :
    wpAlong probe env (AllAlong W) (probe.codeAt .formatHex) m Q := by
  have hentry : probe.codeAt .formatHex = formatHex .formatHex hexTableAddr (hexBufferAddr + 2) ++
      probe.codeAt .formatHexLoop := rfl
  have hloop : probe.codeAt .formatHexLoop = hexLoop .formatHexLoop .r4 .r0 .r5 .r6 .r7 ++
      [.popPc [.r4, .r5, .r6, .r7]] := rfl
  have hstack : Apart (FRAME - 28) 68 (hexBufferAddr + 2) 8 := fun x hx hx' => not_within_stack hx' hx
  have hlow : m.reg .sp - 20 = FRAME - 28 := by
    rw [hm.sp_eq]
    decide
  apply formatHex_along hentry hloop (apart_of_le (by decide) (by decide))
  · rw [hlow]
    exact hstack.mono (by decide) (inside_self _ _)
  · rw [hlow]
    decide
  · rw [hm.sp_eq]
    decide
  · exact fun m' hm' => hW m' (hm.inv.formats hn hm.sp_eq hm')
  · intro m' hm' hregs
    apply h
    apply hm.formats hm' hregs hrs (by omega) ?_ (hm.inv.formats hn hm.sp_eq hm')
    rw [hws]
    exact hstack.mono (by decide) (inside_self _ _)

/-! ### `print_value` -/

/-- `print_value` keeps the body. -/
theorem keeps_printValue (henv : Resident env) (hn : n ≤ 4096) (hW : ∀ m, Phase m₀.mem n S m.mem m.sys → W m) :
    KeepsAlong probe env W (Body m₀ n S) (.bl .printValue) := by
  intro A Q k m hA hm h
  have hcode : probe.codeAt .printValue = printValueBlock ++ probe.codeAt .formatHex := rfl
  have hlow : align (FRAME - 8) = FRAME - 8 := by decide
  have hcontrols : ∀ r ∈ controls, r ∈ calleeSaves := by decide
  have hm1 := hm.set (r := .lr) (by decide) (by decide) (probe.addr k)
  have hm2 : Active (Phase m₀.mem n S) (FRAME - 8) ([m.reg .r4, probe.addr k] ++ entryWords m₀) controls
      (controlValue m₀.sys) ((Op.push [.r4, .lr]).exec (m.set .lr (probe.addr k))) := by
    have hwords : [.r4, .lr].map (m.set .lr (probe.addr k)).reg = [m.reg .r4, probe.addr k] := by
      simp [Machine.reg_set]
    rw [← hwords]
    apply hm1.push (by decide) hlow (by decide) (by decide)
    · rw [length_entryWords]
      decide
    · intro μ hμ
      exact hm1.inv.stack hn (by decide) hμ
  have htop : (FRAME - 8).toNat + 4 * ([m.reg .r4, probe.addr k] ++ entryWords m₀).length = 0x01FFE000 := by
    simp [FRAME]
  apply wpAlong_bl hA (hW m hm.inv)
  rw [hcode]
  apply wpAlong_label
  apply wpAlong_op fun t => grows_all _ t (hW _ hm1.inv)
  -- the text, and the value to `r0`
  apply wpAlong_block (b := [.mov .r4 (.reg .r1), .call PRINT_STRING, .mov .r0 (.reg .r4)]) grows_all ?_ hm2
  · intro m3 hm3
    apply wpAlong_bl grows_all (hW m3 hm3.inv)
    apply keeps_formatHex hn hW (by simp) hcontrols (hm3.set (by decide) (by decide) _)
    intro m4 hm4
    refine ⟨by rw [Machine.reg_set, if_pos rfl], ?_⟩
    -- the digits
    apply wpAlong_block (b := [.ldrc .r0 hexBufferAddr, .call PRINT_STRING]) grows_all ?_ hm4
    · intro m5 hm5
      have hframe : Active (Phase m₀.mem n S) (FRAME - 8) ([.r4].map m.reg ++ probe.addr k :: entryWords m₀) controls
          (controlValue m₀.sys) m5 := hm5
      apply wpAlong_popPc (hW m5 hm5.inv)
      rw [hframe.load_return hlow]
      refine ⟨rfl, h _ ?_⟩
      apply hframe.popped hlow (by decide) (by decide)
      intro r hr
      refine ⟨?_, Or.inr ⟨?_, hr, rfl⟩⟩
      · rintro rfl
        revert hr
        decide
      · revert hr
        cases r <;> decide
    · simp only [List.forall_mem_cons, List.not_mem_nil, false_imp_iff, implies_true, and_true]
      exact ⟨keeps_exec hW rfl (by decide), keeps_resident henv hn hW (Or.inl rfl) hcontrols htop⟩
  · simp only [List.forall_mem_cons, List.not_mem_nil, false_imp_iff, implies_true, and_true]
    exact ⟨keeps_exec hW rfl (by decide), keeps_resident henv hn hW (Or.inl rfl) hcontrols htop,
      keeps_exec hW rfl (by decide)⟩

end ShadowMsm.Mmu
