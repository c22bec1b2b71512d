import Mathlib.Tactic.IntervalCases
import ShadowMsm.Arm.Frames
import ShadowMsm.Arm.Hex
import ShadowMsm.Bl1.Listing

/-!
# The subroutines of BL1

Between its entry and its exit BL1 keeps the block of registers it pushed at the top of its stack; it calls the
resident print and LED routines and its own `print_value`, `format_hex` and `bswap32`.  `Body` is what holds at every
place in between, and each subroutine keeps it.
-/

namespace ShadowMsm.Bl1

open Arm

/-- The entry points in the resident monitor that BL1 calls. -/
def IsResident (t : Word) : Prop := t = PRINT_STRING ∨ t = PMIC_LED_SET

/-- The resident routines follow the procedure call standard: they keep `sp` and the registers `r4`-`r11`, and the
stack of their caller. -/
structure Resident (env : Word → Machine → Machine) : Prop where
  reg : ∀ t, IsResident t → ∀ m, ∀ r ∈ Reg.sp :: Layout.saves, (env t m).reg r = m.reg r
  stack : ∀ t, IsResident t → ∀ m x, m.reg .sp ≤ x → x < BL1_STACK_TOP → (env t m).mem x = m.mem x

/-- The address of the registers pushed at the entry. -/
def FRAME : Word := 0x01FFEFE0

/-- The memory that BL1 writes: the top of its stack and the digits of the text buffer. -/
def Volatile (y : Layout) (x : Word) : Prop := Within x (FRAME - 32) 64 ∨ Within x (y.hexBufferAddr + 2) 8

/-- A condition on memory and system registers that neither the subroutines nor the resident routines disturb. -/
structure Stable (y : Layout) (env : Word → Machine → Machine) (K : Mem → (Sys → Word) → Prop) : Prop where
  write : ∀ μ μ' s, (∀ x, ¬ Volatile y x → μ' x = μ x) → K μ s → K μ' s
  call : ∀ t, IsResident t → ∀ m, K m.mem m.sys → K (env t m).mem (env t m).sys

/-- The registers as the entry pushes them: `r10` and `r11` already hold the caller's `lr` and `sp`. -/
def entryReg (m : Machine) : Reg → Word := ((m.set .r11 (m.reg .sp)).set .r10 (m.reg .lr)).reg

/-- BL1 was entered with `m₀` and is between entry and exit; its registers `r4`-`r11` are `v`. -/
def Body (K : Mem → (Sys → Word) → Prop) (m₀ : Machine) (v : Reg → Word) (m : Machine) : Prop :=
  Active K FRAME (Layout.saves.map (entryReg m₀)) Layout.saves v m

/-- The listing has the subroutines. -/
structure Linked (y : Layout) (p : Program Label) : Prop where
  printValue : ∃ k, p.codeAt .printValue = y.printValueBlock ++ k
  formatHex : p.codeAt .formatHex = y.formatHexBlock ++ p.codeAt .hexLoop
  hexLoop : ∃ k, p.codeAt .hexLoop = Layout.hexLoopBlock ++ k

variable {y : Layout} {p : Program Label} {env : Word → Machine → Machine} {Q : Exit → Machine → Prop}
  {K : Mem → (Sys → Word) → Prop} {m₀ m : Machine} {v : Reg → Word} {k : List (Line Label)}

/-! ### Where things are -/

theorem toNat_hexBufferAddr (y : Layout) : (y.hexBufferAddr + 2).toNat = 0x01000002 + y.hexBufferOffset := by
  have h := y.buffer_below
  unfold Layout.hexBufferAddr BL1_BASE
  bv_omega

private theorem toNat_hexTableAddr (y : Layout) : y.hexTableAddr.toNat = 0x01000000 + y.hexTableOffset := by
  have h := y.table_before_buffer
  have h' := y.buffer_below
  unfold Layout.hexTableAddr BL1_BASE
  bv_omega

private theorem apart_table_buffer (y : Layout) : Apart y.hexTableAddr 16 (y.hexBufferAddr + 2) 8 := by
  have h := y.table_before_buffer
  have h' := y.buffer_below
  apply apart_of_le
  · rw [toNat_hexTableAddr, toNat_hexBufferAddr]
    omega
  · rw [toNat_hexBufferAddr]
    omega

private theorem apart_buffer_stack (y : Layout) : Apart (y.hexBufferAddr + 2) 8 (FRAME - 32) 64 := by
  have h := y.buffer_below
  apply apart_of_le
  · rw [toNat_hexBufferAddr]
    unfold FRAME
    simp only [BitVec.reduceSub, BitVec.reduceToNat]
    omega
  · decide

/-- A write to the stack. -/
private theorem Stable.stack (hK : Stable y env K) {μ μ' : Mem} {s : Sys → Word} {b : Word} {n : Nat}
    (hb : Inside b n (FRAME - 32) 64) (hμ : ∀ x, ¬ Within x b n → μ' x = μ x) (h : K μ s) : K μ' s := by
  apply hK.write μ μ' s ?_ h
  intro x hx
  apply hμ
  intro hw
  exact hx (Or.inl (hb.within hw))

/-! ### `format_hex` -/

/-- `format_hex` returns to its caller with `sp` and `r4`-`r11` unchanged; it has written its stack frame and the
digits. -/
theorem wp_formatHex (hl : Linked y p) (hsp : m.reg .sp = FRAME - 8)
    (h : ∀ m', FormatsOnly (y.hexBufferAddr + 2) m m' → (∀ r ∈ Reg.sp :: Layout.saves, m'.reg r = m.reg r) →
      Q ⟨.pop, m.reg .lr⟩ m') :
    wp p env (p.codeAt .formatHex) m Q := by
  obtain ⟨k, hk⟩ := hl.hexLoop
  have hlow : m.reg .sp - 20 = FRAME - 28 := by
    rw [hsp]
    decide
  have hstack : Apart (m.reg .sp - 20) 20 (y.hexBufferAddr + 2) 8 := by
    rw [hlow]
    exact (apart_buffer_stack y).symm.mono (by decide) (inside_self _ _)
  apply wp_of_along
  apply formatHex_along hl.formatHex hk (apart_table_buffer y) hstack
  · rw [hlow]
    decide
  · rw [hsp]
    decide
  · exact fun _ _ => trivial
  · exact h

/-! ### One instruction -/

section

variable {a : Word} {ws : List Word} {rs : List Reg}

/-- A call of a resident routine. -/
theorem active_callOut (henv : Resident env) (hK : Stable y env K) (hm : Active K a ws rs v m) {t ret : Word}
    (ht : IsResident t) (hrs : ∀ r ∈ rs, r ∈ Layout.saves) (htop : a.toNat + 4 * ws.length = 0x01FFF000) :
    Active K a ws rs v (m.callOut env t ret) := by
  have hreg : ∀ r ∈ Reg.sp :: Layout.saves, (m.callOut env t ret).reg r = m.reg r := by
    intro r hr
    have hlr : r ≠ .lr := by
      rintro rfl
      revert hr
      decide
    refine (henv.reg t ht _ r hr).trans ?_
    rw [Machine.reg_touch, Machine.reg_set, if_neg hlr]
  have hmem : ∀ x, a ≤ x → x < BL1_STACK_TOP → (m.callOut env t ret).mem x = m.mem x := by
    intro x hx hx'
    refine henv.stack t ht _ x ?_ hx'
    rw [Machine.reg_touch, Machine.reg_set, if_neg (by decide), hm.sp_eq]
    exact hx
  constructor
  · rw [hreg .sp (by simp)]
    exact hm.sp_eq
  · intro r hr
    rw [hreg r (by simp [hrs r hr])]
    exact hm.regs r hr
  · apply hm.saved.congr (by omega)
    intro x hx
    unfold BL1_STACK_TOP at hmem
    simp only [Within] at hx
    apply hmem x
    · bv_omega
    · bv_omega
  · exact hK.call t ht _ hm.inv

theorem active_set_lr (hm : Active K a ws rs v m) (hrs : ∀ r ∈ rs, r ∈ Layout.saves) (w : Word) :
    Active K a ws rs v (m.set .lr w) := by
  apply hm.set (by decide)
  intro h
  exact absurd (hrs .lr h) (by decide)

theorem active_keeps_op {o : Op} {ds : List Reg} (ho : o.writes = some ds) (hd : ∀ r ∈ Reg.sp :: rs, r ∉ ds) :
    Keeps p env (Active K a ws rs v) Q (.instr (.op .al o)) :=
  Arm.keeps_op fun _ hm => hm.exec ho hd

theorem active_keeps_call (henv : Resident env) (hK : Stable y env K) {t : Word} (ht : IsResident t)
    (hrs : ∀ r ∈ rs, r ∈ Layout.saves) (htop : a.toNat + 4 * ws.length = 0x01FFF000) :
    Keeps p env (Active K a ws rs v) Q (.call t) :=
  Arm.keeps_call fun _ _ hm => active_callOut henv hK hm ht hrs htop

theorem Body.exec (hm : Body K m₀ v m) {o : Op} {ds : List Reg} (ho : o.writes = some ds)
    (hd : ∀ r ∈ Reg.sp :: Layout.saves, r ∉ ds) : Body K m₀ v (o.exec m) :=
  Active.exec hm ho hd

/-- An operation on one of the saved registers. -/
theorem Body.exec_save (hm : Body K m₀ v m) {o : Op} {ds : List Reg} (ho : o.writes = some ds) (hd : .sp ∉ ds) :
    Body K m₀ (o.exec m).reg (o.exec m) := by
  constructor
  · rw [Op.reg_exec ho hd]
    exact hm.sp_eq
  · intro r _
    rfl
  · rw [Op.mem_exec ho]
    exact hm.saved
  · rw [Op.mem_exec ho, Op.sys_exec ho]
    exact hm.inv

/-- An operation on one register that the caller gets back anyway. -/
theorem Body.exec_update (hm : Body K m₀ v m) {o : Op} {r : Reg} (ho : o.writes = some [r]) (hr : r ≠ .sp) :
    Body K m₀ (Function.update v r ((o.exec m).reg r)) (o.exec m) := by
  have h := hm.exec_save ho (by simpa using hr.symm)
  refine ⟨h.sp_eq, ?_, h.saved, h.inv⟩
  intro s hs
  rw [Function.update_apply]
  split
  · rename_i he
    rw [he]
  · rename_i hne
    rw [Op.reg_exec ho (by simpa using hne)]
    exact hm.regs s hs

theorem Body.callOut (henv : Resident env) (hK : Stable y env K) (hm : Body K m₀ v m) {t ret : Word}
    (ht : IsResident t) : Body K m₀ v (m.callOut env t ret) :=
  active_callOut henv hK hm ht (fun _ h => h) (by simp [Layout.saves, FRAME])

end

/-! ### `print_value` and `bswap32` -/

/-- The registers that `print_value` does not use. -/
private def printSaves : List Reg := [.r5, .r6, .r7, .r8, .r9, .r10, .r11]

/-- What `print_value` has pushed lies right below the frame of BL1. -/
private theorem active_push (hK : Stable y env K) (hm : Body K m₀ v m) (ret : Word) :
    Active K (FRAME - 8) ([v .r4, ret] ++ Layout.saves.map (entryReg m₀)) printSaves v
      ((Op.push [.r4, .lr]).exec (m.set .lr ret)) := by
  have hwords : [Reg.r4, .lr].map (m.set .lr ret).reg = [v .r4, ret] := by
    simp [Machine.reg_set, hm.regs .r4 (by decide)]
  have hlr : Active K FRAME (Layout.saves.map (entryReg m₀)) printSaves v (m.set .lr ret) := by
    apply Active.weaken (active_set_lr hm (fun _ hr => hr) ret)
    intro r hr
    refine ⟨?_, rfl⟩
    revert hr
    cases r <;> decide
  rw [← hwords]
  apply hlr.push (by decide) (by decide) (by decide) (by decide)
  · simp [Layout.saves, FRAME]
  · intro μ hμ
    exact hK.stack (by decide) hμ hlr.inv

/-- `format_hex` keeps what `print_value` has pushed. -/
private theorem active_formatHex {ret : Word} {m' : Machine}
    (hK : Stable y env K) (hm : Active K (FRAME - 8) ([v .r4, ret] ++ Layout.saves.map (entryReg m₀)) printSaves v m)
    (hf : FormatsOnly (y.hexBufferAddr + 2) m m') (hreg : ∀ r ∈ Reg.sp :: Layout.saves, m'.reg r = m.reg r) :
    Active K (FRAME - 8) ([v .r4, ret] ++ Layout.saves.map (entryReg m₀)) printSaves v m' := by
  apply hm.formats hf hreg (by decide) (by simp [Layout.saves])
  · apply (apart_buffer_stack y).symm.mono ?_ (inside_self _ _)
    simp only [Layout.saves, List.length_append, List.length_map, List.length_cons, List.length_nil]
    decide
  · rw [hf.sys]
    apply hK.write m.mem _ _ ?_ hm.inv
    intro x hx
    refine hf.mem x ?_ fun hw => hx (Or.inr hw)
    intro hw
    rw [hm.sp_eq] at hw
    exact hx (Or.inl (Inside.within (by decide) hw))

/-- `print_value` keeps the body: it saves `r4` and puts it back. -/
theorem wp_printValue (hl : Linked y p) (henv : Resident env) (hK : Stable y env K) (hm : Body K m₀ v m)
    (h : ∀ m', Body K m₀ v m' → wp p env k m' Q) : wp p env (.bl .printValue :: k) m Q := by
  obtain ⟨k', hk⟩ := hl.printValue
  have hsaves : ∀ r ∈ printSaves, r ∈ Layout.saves := by decide
  have htop : (FRAME - 8).toNat + 4 * ([v .r4, p.addr k] ++ Layout.saves.map (entryReg m₀)).length = 0x01FFF000 := by
    simp [Layout.saves, FRAME]
  apply wp_bl_of_return
  rw [hk]
  simp only [Layout.printValueBlock, List.cons_append, List.nil_append, wp_label]
  rw [wp_op_al]
  -- the text, and the value to `r0`
  apply wp_block (b := [.mov .r4 (.reg .r1), .call PRINT_STRING, .mov .r0 (.reg .r4)]) ?_ (active_push hK hm (p.addr k))
  · intro m1 h1
    apply wp_bl_of_return
    apply wp_formatHex hl
    · rw [Machine.reg_set, if_neg (by decide)]
      exact h1.sp_eq
    intro m2 hf hreg
    have h2 := active_formatHex hK (active_set_lr h1 hsaves _) hf hreg
    refine ⟨by rw [Machine.reg_set, if_pos rfl], ?_⟩
    -- the digits
    apply wp_block (b := [.ldrc .r0 y.hexBufferAddr, .call PRINT_STRING]) ?_ h2
    · intro m3 h3
      have halign : align (FRAME - 8) = FRAME - 8 := by decide
      have hframe : Active K (FRAME - 8) ([.r4].map v ++ p.addr k :: Layout.saves.map (entryReg m₀)) printSaves v m3 :=
        h3
      rw [wp_popPc]
      refine ⟨hframe.load_return halign, h _ ?_⟩
      apply hframe.popped halign (by decide) (by decide)
      intro r hr
      refine ⟨?_, ?_⟩
      · rintro rfl
        revert hr
        decide
      · by_cases he : r = .r4
        · exact Or.inl ⟨by simp [he], rfl⟩
        · refine Or.inr ⟨by simpa using he, ?_, rfl⟩
          revert hr he
          cases r <;> decide
    · simp only [List.forall_mem_cons, List.not_mem_nil, false_imp_iff, implies_true, and_true]
      exact ⟨active_keeps_op rfl (by decide), active_keeps_call henv hK (Or.inl rfl) hsaves htop⟩
  · simp only [List.forall_mem_cons, List.not_mem_nil, false_imp_iff, implies_true, and_true]
    exact ⟨active_keeps_op rfl (by decide), active_keeps_call henv hK (Or.inl rfl) hsaves htop,
      active_keeps_op rfl (by decide)⟩

/-- What `bswap32` computes. -/
def bswap32 (x : Word) : Word :=
  (((x &&& 0xFF) <<< 24 ||| (x &&& 0xFF00) <<< 8) ||| ((x >>> 8) &&& 0xFF00)) ||| x >>> 24

theorem bswap32_bswap32 (x : Word) : bswap32 (bswap32 x) = x := by
  unfold bswap32
  apply BitVec.eq_of_getLsbD_eq
  intro i hi
  simp only [BitVec.getLsbD_or, BitVec.getLsbD_shiftLeft, BitVec.getLsbD_and, BitVec.getLsbD_ushiftRight]
  interval_cases i <;> simp

/-- A big-endian word. -/
def load32be (μ : Mem) (a : Word) : Word := μ a ++ μ (a + 1) ++ μ (a + 2) ++ μ (a + 3)

/-- The swap of a little-endian word is the big-endian word at the same place. -/
theorem bswap32_load32 (μ : Mem) (a : Word) : bswap32 (load32 μ a) = load32be μ a := by
  unfold bswap32 load32 load32be
  generalize μ a = b0, μ (a + 1) = b1, μ (a + 2) = b2, μ (a + 3) = b3
  apply BitVec.eq_of_getLsbD_eq
  intro i hi
  simp only [BitVec.getLsbD_or, BitVec.getLsbD_shiftLeft, BitVec.getLsbD_and, BitVec.getLsbD_ushiftRight,
    BitVec.getLsbD_append]
  interval_cases i <;> simp

theorem wp_bswap32 {k' : List (Line Label)} (hb : p.codeAt .bswap32 = Layout.bswap32Block ++ k')
    (hm : Body K m₀ v m) (h : ∀ m', Body K m₀ v m' → m'.reg .r0 = bswap32 (m.reg .r0) → wp p env k m' Q) :
    wp p env (.bl .bswap32 :: k) m Q := by
  apply wp_bl_of_return
  rw [hb]
  simp only [Layout.bswap32Block, List.cons_append, List.nil_append, wp_label, wp_op_al, wp_bx]
  constructor
  · simp [Op.exec, Machine.reg_set]
  · apply h
    · iterate 10 refine Body.exec ?_ rfl (by decide)
      exact active_set_lr hm (fun _ hr => hr) _
    · simp [Op.exec, Op2.eval, Alu.eval, Machine.reg_set, bswap32]

/-! ### The rule of a body -/

/-- The lines that keep a body, whatever values they compute: operations on registers other than `fixed`, calls of the
subroutines, and branches to the given labels. -/
def tame (fixed : List Reg) (swaps : Bool) (targets : List Label) : Line Label → Bool
  | .label _ => true
  | .instr (.op c o) => c = .al && o.writes.any fun ds => fixed.all fun r => r ∉ ds
  | .instr (.b _ l) => l ∈ targets
  | .instr (.bl l) => l = .printValue || (swaps && l = .bswap32)
  | .instr (.call t) => t = PRINT_STRING || t = PMIC_LED_SET
  | _ => false

/-- A tame line keeps what the operations and the subroutines keep, if the code at its target does well. -/
theorem keeps_tame {I : Machine → Prop} {fixed : List Reg} {swaps : Bool} {targets : List Label}
    (hop : ∀ (o : Op) ds, o.writes = some ds → (∀ r ∈ fixed, r ∉ ds) → ∀ m, I m → I (o.exec m))
    (hcall : ∀ t, IsResident t → ∀ m ret, I m → I (m.callOut env t ret))
    (hprint : Keeps p env I Q (.bl .printValue)) (hswap : swaps = true → Keeps p env I Q (.bl .bswap32))
    (ht : ∀ l ∈ targets, ∀ m, I m → wp p env (p.codeAt l) m Q) {l : Line Label}
    (hl : tame fixed swaps targets l = true) : Keeps p env I Q l := by
  cases l with
  | label l => exact keeps_label
  | instr i =>
    cases i with
    | op c o =>
      simp only [tame, Bool.and_eq_true, decide_eq_true_eq, Option.any_eq_true_iff_get, List.all_eq_true] at hl
      obtain ⟨rfl, hw, hd⟩ := hl
      exact keeps_op (hop o _ (Option.some_get hw).symm hd)
    | b c l => exact keeps_b (ht l (by simpa [tame] using hl))
    | bl l =>
      simp only [tame, Bool.or_eq_true, Bool.and_eq_true, decide_eq_true_eq] at hl
      rcases hl with rfl | ⟨hswaps, rfl⟩
      · exact hprint
      · exact hswap hswaps
    | call t => exact keeps_call (hcall t (by simpa [tame, IsResident] using hl))
    | bAbs a => simp [tame] at hl
    | blx r => simp [tame] at hl
    | bx r => simp [tame] at hl
    | popPc rs => simp [tame] at hl

/-- A block that does not even write `r4`-`r11`, and does not branch. -/
theorem wp_scratch (hl : Linked y p) (henv : Resident env) (hK : Stable y env K) {b : List (Line Label)}
    (hb : b.all (tame (.sp :: Layout.saves) false []) = true) (hm : Body K m₀ v m)
    (h : ∀ m', Body K m₀ v m' → wp p env k m' Q) : wp p env (b ++ k) m Q := by
  have hkeeps : ∀ l ∈ b, Keeps p env (Body K m₀ v) Q l := by
    intro l hl'
    apply keeps_tame (fun o ds ho hd m hm => hm.exec ho hd) ?_ ?_ ?_ ?_ (List.all_eq_true.mp hb l hl')
    · intro t ht m ret hm
      exact hm.callOut henv hK ht
    · intro k m hm h
      exact wp_printValue hl henv hK hm h
    · simp
    · simp
  exact wp_block hkeeps hm h

/-- A comparison of a saved register, and a branch. -/
theorem wp_cmp (hm : Body K m₀ v m) {r : Reg} (hr : r ∈ Layout.saves) {o : Op2} {w : Word} (hw : o.eval m = w)
    {c : Cond} {l : Label}
    (ht : c.holds (subFlags (v r) w) = true → ∀ m', Body K m₀ v m' → wp p env (p.codeAt l) m' Q)
    (hf : c.holds (subFlags (v r) w) = false → ∀ m', Body K m₀ v m' → wp p env k m' Q) :
    wp p env (.cmp r o :: .instr (.b c l) :: k) m Q := by
  have hflags : ((Op.cmp r o).exec m).flags = subFlags (v r) w := by
    rw [Op.exec, Machine.flags_setFlags, hm.regs r hr, hw]
  have hm' : Body K m₀ v ((Op.cmp r o).exec m) := hm.exec rfl (by simp)
  rw [wp_op_al, wp_b, hflags]
  split
  · rename_i hc
    exact ht hc _ hm'
  · rename_i hc
    exact hf (by simpa using hc) _ hm'

/-- A comparison with a constant in `r0`. -/
theorem wp_cmp_const (hm : Body K m₀ v m) {r : Reg} (hr : r ∈ Layout.saves) {w : Word} {c : Cond} {l : Label}
    (ht : c.holds (subFlags (v r) w) = true → ∀ m', Body K m₀ v m' → wp p env (p.codeAt l) m' Q)
    (hf : c.holds (subFlags (v r) w) = false → ∀ m', Body K m₀ v m' → wp p env k m' Q) :
    wp p env (.ldrc .r0 w :: .cmp r (.reg .r0) :: .instr (.b c l) :: k) m Q := by
  have hm' : Body K m₀ v ((Op.ldrc .r0 w).exec m) := hm.exec rfl (by decide)
  rw [wp_op_al]
  apply wp_cmp hm' hr ?_ ht hf
  simp [Op.exec, Op2.eval, Machine.reg_set]

/-! ### Entry and exit -/

/-- What the exit hands back: the stack pointer of the caller, and the registers as they were pushed. -/
structure Left (m₀ m : Machine) : Prop where
  sp_eq : m.reg .sp = m₀.reg .sp
  regs : ∀ r ∈ Layout.saves, m.reg r = entryReg m₀ r

/-- The entry makes the frame, and moves the arguments to `r4`-`r6`. -/
theorem wp_entry (hK : Stable y env K) (hinv : K m.mem m.sys)
    (h : ∀ m', Body K m m'.reg m' → m'.reg .r4 = m.reg .r0 → m'.reg .r5 = m.reg .r1 → m'.reg .r6 = m.reg .r2 →
      wp p env k m' Q) :
    wp p env (Layout.entryBlock ++ k) m Q := by
  simp only [Layout.entryBlock, List.cons_append, List.nil_append, wp_label, wp_op_al]
  have hbody : Body K m ((Op.push Layout.saves).exec
      (((m.set .r11 (m.reg .sp)).set .r10 (m.reg .lr)).set .sp BL1_STACK_TOP)).reg
      ((Op.push Layout.saves).exec (((m.set .r11 (m.reg .sp)).set .r10 (m.reg .lr)).set .sp BL1_STACK_TOP)) := by
    have hwords : Layout.saves.map (((m.set .r11 (m.reg .sp)).set .r10 (m.reg .lr)).set .sp BL1_STACK_TOP).reg ++ [] =
        Layout.saves.map (entryReg m) := by
      simp [Layout.saves, entryReg, Machine.reg_set]
    have htop : Active K BL1_STACK_TOP [] [] m.reg
        (((m.set .r11 (m.reg .sp)).set .r10 (m.reg .lr)).set .sp BL1_STACK_TOP) :=
      ⟨by simp [Machine.reg_set], by simp, trivial, hinv⟩
    have hpush := htop.push (b := FRAME) (by decide : BL1_STACK_TOP - BitVec.ofNat 32 (wordBytes Layout.saves) = FRAME)
      (by decide) (by decide) (by decide) (by simp [BL1_STACK_TOP]) fun μ hμ => hK.stack (by decide) hμ hinv
    rw [hwords] at hpush
    exact ⟨hpush.sp_eq, fun _ _ => rfl, hpush.saved, hpush.inv⟩
  apply h
  · exact ((hbody.exec_save rfl (by decide)).exec_save rfl (by decide)).exec_save rfl (by decide)
  all_goals simp [Op.exec, Op2.eval, Machine.reg_set]

/-- What the `pop` of the exit makes of the frame. -/
theorem Body.pop (hm : Body K m₀ v m) {r : Reg} (hr : r ∈ Layout.saves) :
    ((Op.pop Layout.saves).exec m).reg r = entryReg m₀ r := by
  apply Op.reg_pop_of_mem (by decide) (by decide) ?_ hr
  rw [hm.sp_eq]
  exact hm.saved

theorem wp_finish (hm : Body K m₀ v m)
    (h : ∀ m', Left m₀ m' → m'.reg .r0 = m.reg .r0 → Q ⟨.bx .r10, m₀.reg .lr⟩ m') :
    wp p env (Layout.finishBlock ++ k) m Q := by
  have hm3 : Body K m₀ v ((Op.mov .r3 (.reg .r0)).exec m) := hm.exec rfl (by decide)
  have hr3 : ((Op.pop Layout.saves).exec ((Op.mov .r3 (.reg .r0)).exec m)).reg .r3 = m.reg .r0 := by
    rw [Op.reg_pop_of_notMem (by decide) (by decide)]
    simp [Op.exec, Op2.eval, Machine.reg_set]
  have hpop := fun r hr => hm3.pop (r := r) hr
  simp only [Layout.finishBlock, List.cons_append, List.nil_append, wp_label, wp_op_al, wp_bx]
  generalize (Op.pop Layout.saves).exec ((Op.mov .r3 (.reg .r0)).exec m) = m4 at hr3 hpop
  have hexit : ∀ r ∈ Layout.saves,
      ((Op.mov .r0 (.reg .r3)).exec ((Op.mov .sp (.reg .r11)).exec m4)).reg r = entryReg m₀ r := by
    intro r hr
    rw [Op.reg_exec rfl (by simp; rintro rfl; revert hr; decide),
      Op.reg_exec rfl (by simp; rintro rfl; revert hr; decide)]
    exact hpop r hr
  have h10 := hexit .r10 (by decide)
  rw [show entryReg m₀ .r10 = m₀.reg .lr from rfl] at h10
  rw [h10]
  apply h
  · constructor
    · simp only [Op.exec, Op2.eval, Machine.reg_set, reduceCtorEq, if_true, if_false]
      exact hpop .r11 (by decide)
    · exact hexit
  · simp only [Op.exec, Op2.eval, Machine.reg_set, reduceCtorEq, if_true, if_false]
    exact hr3

end ShadowMsm.Bl1
