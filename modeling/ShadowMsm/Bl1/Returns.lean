import ShadowMsm.Bl1.ImageBoot
import ShadowMsm.Bl1.Subroutines

/-!
# What a returning BL1 hands back

Each listing is followed from its entry to its exits.  The lines of a body keep the frame (`tame` recognises them), so that
every exit but the jump to a kernel pops what the entry pushed.  The entry pushes `r10` and `r11` only after it
has put the caller's `lr` and `sp` there, and that is what the caller gets back in them.
-/

namespace ShadowMsm.Bl1

open Arm

/-- Between entry and exit, with whatever registers. -/
def InBody (m₀ m : Machine) : Prop := ∃ v, Body (fun _ _ => True) m₀ v m

/-- The subroutines of a listing, `bswap32` included if `swaps`. -/
structure Subroutines (y : Layout) (p : Program Label) (swaps : Bool) : Prop extends Linked y p where
  bswap32 : swaps = true → ∃ k, p.codeAt .bswap32 = Layout.bswap32Block ++ k

/-- BL1 goes back to its caller, with the registers as they were pushed. -/
def Returns (m₀ : Machine) (e : Exit) (m : Machine) : Prop := e = ⟨.bx .r10, m₀.reg .lr⟩ ∧ Left m₀ m

/-- BL1 goes back to its caller, or jumps to a kernel. -/
def Ends (m₀ : Machine) (e : Exit) (m : Machine) : Prop := e.via = .bx .r7 ∨ Returns m₀ e m

variable {y : Layout} {p : Program Label} {env : Word → Machine → Machine} {Q : Exit → Machine → Prop}
  {m₀ m : Machine} {k : List (Line Label)}

theorem stable_true : Stable y env fun _ _ => True := ⟨fun _ _ _ _ _ => trivial, fun _ _ _ _ => trivial⟩

/-- A block of tame lines, when the code at its targets does well. -/
private theorem wp_tame {swaps : Bool} (targets : List Label) (hs : Subroutines y p swaps) (henv : Resident env)
    (ht : ∀ l ∈ targets, ∀ m, InBody m₀ m → wp p env (p.codeAt l) m Q) {b : List (Line Label)}
    (hb : b.all (tame [.sp] swaps targets) = true) (hm : InBody m₀ m) (hk : ∀ m, InBody m₀ m → wp p env k m Q) :
    wp p env (b ++ k) m Q := by
  have hkeeps : ∀ l ∈ b, Keeps p env (InBody m₀) Q l := by
    intro l hl
    apply keeps_tame ?_ ?_ ?_ ?_ ht (List.all_eq_true.mp hb l hl)
    · rintro o ds ho hd m ⟨v, hm⟩
      exact ⟨_, hm.exec_save ho (hd .sp (by simp))⟩
    · rintro t ht m ret ⟨v, hm⟩
      exact ⟨v, hm.callOut henv (y := y) stable_true ht⟩
    · rintro k m ⟨v, hm⟩ h
      exact wp_printValue hs.toLinked henv stable_true hm fun m' hm' => h m' ⟨v, hm'⟩
    · rintro hswaps k m ⟨v, hm⟩ h
      obtain ⟨k', hk⟩ := hs.bswap32 hswaps
      exact wp_bswap32 hk hm fun m' hm' _ => h m' ⟨v, hm'⟩
  exact wp_block hkeeps hm hk

private theorem wp_enter (h : ∀ m', InBody m m' → wp p env k m' Q) : wp p env (Layout.entryBlock ++ k) m Q := by
  apply wp_entry (stable_true (y := .bootloader)) trivial
  intro m' hm' _ _ _
  exact h m' ⟨_, hm'⟩

private theorem wp_return (hm : InBody m₀ m) (h : ∀ e m', Returns m₀ e m' → Q e m') :
    wp p env (Layout.finishBlock ++ k) m Q := by
  obtain ⟨v, hm⟩ := hm
  apply wp_finish hm
  intro m' hm' _
  exact h _ _ ⟨rfl, hm'⟩

/-- A failure exit, in front of the exit behind it. -/
private theorem wp_failExit {swaps : Bool} {l next : Label} {name : Text} {code : Word}
    (hs : Subroutines y p swaps) (henv : Resident env)
    (hf : ∀ m, InBody m₀ m → wp p env (p.codeAt .finish) m Q)
    (hnext : ∀ m, InBody m₀ m → wp p env (p.codeAt next) m Q)
    (hcode : p.codeAt l = y.failBlock l name code ++ p.codeAt next ∨
      p.codeAt l = y.lastFailBlock l name code ++ p.codeAt next) (m : Machine) (hm : InBody m₀ m) :
    wp p env (p.codeAt l) m Q := by
  rcases hcode with hcode | hcode
  · rw [hcode]
    exact wp_tame [.finish] hs henv (by simpa using hf) rfl hm hnext
  · rw [hcode]
    exact wp_tame [] hs henv (by simp) rfl hm hnext

/-! ### The four listings -/

set_option maxRecDepth 4096

/-- BL1 0.1 always returns. -/
theorem wp_bootloader (henv : Resident env) (m : Machine) : wp bootloader env bootloader.lines m (Returns m) := by
  have hs : Subroutines .bootloader bootloader false := ⟨⟨⟨_, rfl⟩, rfl, ⟨[], rfl⟩⟩, by simp⟩
  apply wp_enter
  intro m1 h1
  apply wp_tame [] hs henv (by simp) rfl h1
  rintro m2 ⟨v, h2⟩
  have hpop := fun r hr => h2.pop (r := r) hr
  simp only [Layout.bootBlock, List.cons_append, wp_op_al, wp_bx]
  have hexit : ∀ r ∈ Layout.saves, ((Op.ldrc .r0 0x424F4F54).exec
      ((Op.mov .sp (.reg .r11)).exec ((Op.pop Layout.saves).exec m2))).reg r = entryReg m r := by
    intro r hr
    rw [Op.reg_exec rfl (by simp; rintro rfl; revert hr; decide),
      Op.reg_exec rfl (by simp; rintro rfl; revert hr; decide)]
    exact hpop r hr
  constructor
  · rw [hexit .r10 (by decide)]
    rfl
  · constructor
    · rw [Op.reg_exec rfl (by decide), Op.exec, Machine.reg_set, if_pos rfl]
      exact hpop .r11 (by decide)
    · exact hexit

/-- BL1 0.2 always returns. -/
theorem wp_dryRun (henv : Resident env) (m : Machine) : wp dryRun env dryRun.lines m (Returns m) := by
  have hs : Subroutines .dryRun dryRun true := ⟨⟨⟨_, rfl⟩, rfl, ⟨_, rfl⟩⟩, fun _ => ⟨[], rfl⟩⟩
  have hfinish : ∀ m', InBody m m' → wp dryRun env (dryRun.codeAt .finish) m' (Returns m) := by
    intro m' hm'
    exact wp_return hm' fun _ _ h => h
  have hdtb := wp_failExit (l := .failDtb) hs henv hfinish hfinish (Or.inr rfl)
  have hzimage := wp_failExit (l := .failZimage) hs henv hfinish hdtb (Or.inl rfl)
  have hsize := wp_failExit (l := .failSize) hs henv hfinish hzimage (Or.inl rfl)
  apply wp_enter
  intro m1 h1
  apply wp_tame [.failSize, .failZimage, .failDtb, .finish] hs henv ?_ rfl h1 hsize
  simp only [List.forall_mem_cons, List.not_mem_nil, false_imp_iff, implies_true, and_true]
  exact ⟨hsize, hzimage, hdtb, hfinish⟩

/-- The jump leaves through `r7`. -/
private theorem wp_jump : wp p env (Layout.jumpBlock ++ k) m (Ends m₀) := by
  simp only [Layout.jumpBlock, List.cons_append, wp_op_al, wp_bx]
  exact Or.inl rfl

/-- BL1 0.3 returns, or jumps. -/
theorem wp_zimageBoot (henv : Resident env) (m : Machine) : wp zimageBoot env zimageBoot.lines m (Ends m) := by
  have hs : Subroutines .zimageBoot zimageBoot true := ⟨⟨⟨_, rfl⟩, rfl, ⟨_, rfl⟩⟩, fun _ => ⟨[], rfl⟩⟩
  have hfinish : ∀ m', InBody m m' → wp zimageBoot env (zimageBoot.codeAt .finish) m' (Ends m) := by
    intro m' hm'
    exact wp_return hm' fun _ _ h => Or.inr h
  have hstate := wp_failExit (l := .failState) hs henv hfinish hfinish (Or.inr rfl)
  have hmarker := wp_failExit (l := .failMarker) hs henv hfinish hstate (Or.inl rfl)
  have hdtb := wp_failExit (l := .failDtb) hs henv hfinish hmarker (Or.inl rfl)
  have hzimage := wp_failExit (l := .failZimage) hs henv hfinish hdtb (Or.inl rfl)
  have hsize := wp_failExit (l := .failSize) hs henv hfinish hzimage (Or.inl rfl)
  apply wp_enter
  intro m1 h1
  apply wp_tame [.failSize, .failZimage, .failDtb, .failMarker, .failState] hs henv ?_ rfl h1 fun _ _ => wp_jump
  simp only [List.forall_mem_cons, List.not_mem_nil, false_imp_iff, implies_true, and_true]
  exact ⟨hsize, hzimage, hdtb, hmarker, hstate⟩

/-- The comparisons of the fingerprints are tame. -/
private theorem tame_probeAsm (image : Bytes) : (Layout.probeAsm image).all (tame [.sp] true [.failImage]) = true := by
  rw [List.all_eq_true]
  intro x hx
  obtain ⟨probe, -, hx⟩ := List.mem_flatMap.mp hx
  simp only [Layout.probeLines, List.mem_cons, List.not_mem_nil, or_false] at hx
  rcases hx with rfl | rfl | rfl | rfl | rfl <;> rfl

theorem subroutines_imageBoot (image : Bytes) : Subroutines .imageBoot (imageBoot image) true where
  printValue := ⟨_, imageBoot_block (k := .formatHex) (by decide) (by decide) rfl⟩
  formatHex := imageBoot_block (by decide) (by decide) rfl
  hexLoop := ⟨_, imageBoot_block (k := .bswap32) (by decide) (by decide) rfl⟩
  bswap32 := fun _ => ⟨[], imageBoot_codeAt (by decide)⟩

/-- BL1 0.4 returns, or jumps, whatever the Image it was built for. -/
theorem wp_imageBoot (henv : Resident env) (image : Bytes) (m : Machine) :
    wp (imageBoot image) env (imageBoot image).lines m (Ends m) := by
  have hs := subroutines_imageBoot image
  have hfinish : ∀ m', InBody m m' → wp (imageBoot image) env ((imageBoot image).codeAt .finish) m' (Ends m) := by
    intro m' hm'
    rw [imageBoot_block (b := Layout.finishBlock) (k := .printValue) (by decide) (by decide) rfl]
    exact wp_return hm' fun _ _ h => Or.inr h
  have hstate := wp_failExit (l := .failState) hs henv hfinish hfinish
    (Or.inr (imageBoot_block (by decide) (by decide) rfl))
  have hmarker := wp_failExit (l := .failMarker) hs henv hfinish hstate
    (Or.inl (imageBoot_block (by decide) (by decide) rfl))
  have hdtb := wp_failExit (l := .failDtb) hs henv hfinish hmarker
    (Or.inl (imageBoot_block (by decide) (by decide) rfl))
  have himage := wp_failExit (l := .failImage) hs henv hfinish hdtb
    (Or.inl (imageBoot_block (by decide) (by decide) rfl))
  have hsize := wp_failExit (l := .failSize) hs henv hfinish himage
    (Or.inl (imageBoot_block (by decide) (by decide) rfl))
  have ht : ∀ l ∈ [Label.failSize, .failImage, .failDtb, .failMarker, .failState], ∀ m', InBody m m' →
      wp (imageBoot image) env ((imageBoot image).codeAt l) m' (Ends m) := by
    simp only [List.forall_mem_cons, List.not_mem_nil, false_imp_iff, implies_true, and_true]
    exact ⟨hsize, himage, hdtb, hmarker, hstate⟩
  apply wp_enter
  intro m1 h1
  -- the blocks in front of the fingerprints, the fingerprints, and the blocks behind them
  refine wp_tame _ hs henv ht rfl h1 fun m2 h2 => wp_tame _ hs henv ht rfl h2 fun m3 h3 =>
    wp_tame _ hs henv ht rfl h3 fun m4 h4 => wp_tame _ hs henv ht rfl h4 fun m5 h5 =>
    wp_tame _ hs henv ht rfl h5 fun m6 h6 => ?_
  apply wp_tame [.failImage] hs henv (by simpa using himage) (tame_probeAsm image) h6
  intro m7 h7
  refine wp_tame _ hs henv ht rfl h7 fun m8 h8 => wp_tame _ hs henv ht rfl h8 fun m9 h9 =>
    wp_tame _ hs henv ht rfl h9 fun m10 h10 => wp_tame _ hs henv ht rfl h10 fun m11 h11 =>
    wp_tame _ hs henv ht rfl h11 fun m12 h12 => wp_jump

/-! ### The contract -/

/-- The listings that the builders generate. -/
inductive Generated : Program Label → Prop
  | bootloader : Generated bootloader
  | dryRun : Generated dryRun
  | zimageBoot : Generated zimageBoot
  | imageBoot {image : Bytes} {p : Program Label} (h : buildImageBoot image = .ok p) : Generated p

/-- The procedure call standard: `sp` and `r4`-`r11` are back. -/
def CalleeSaved (m₀ m : Machine) : Prop := ∀ r ∈ Reg.sp :: Layout.saves, m.reg r = m₀.reg r

/-- What is handed back meets the standard only if `r10` and `r11` already held the caller's `lr` and `sp`. -/
theorem Left.calleeSaved_iff (h : Left m₀ m) :
    CalleeSaved m₀ m ↔ m₀.reg .r10 = m₀.reg .lr ∧ m₀.reg .r11 = m₀.reg .sp := by
  have h10 : m.reg .r10 = m₀.reg .lr := h.regs .r10 (by decide)
  have h11 : m.reg .r11 = m₀.reg .sp := h.regs .r11 (by decide)
  constructor
  · intro hc
    constructor
    · rw [← h10, hc .r10 (by decide)]
    · rw [← h11, hc .r11 (by decide)]
  · rintro ⟨e10, e11⟩ r hr
    rcases List.mem_cons.mp hr with rfl | hr
    · exact h.sp_eq
    · by_cases hr10 : r = .r10
      · rw [hr10, h10, e10]
      · by_cases hr11 : r = .r11
        · rw [hr11, h11, e11]
        · rw [h.regs r hr]
          simp [entryReg, Machine.reg_set, hr10, hr11]

/-- Every listing ends, and jumps to a kernel or returns to its caller. -/
theorem Generated.wp_lines (hp : Generated p) (henv : Resident env) (m : Machine) : wp p env p.lines m (Ends m) := by
  cases hp with
  | bootloader => exact wp_mono (wp_bootloader henv m) fun _ _ h => Or.inr h
  | dryRun => exact wp_mono (wp_dryRun henv m) fun _ _ h => Or.inr h
  | zimageBoot => exact wp_zimageBoot henv m
  | imageBoot h =>
    obtain ⟨rfl, -⟩ := buildImageBoot_ok h
    exact wp_imageBoot henv _ m

/-- When BL1 returns, `sp` and `r4`-`r11` are as on entry exactly if `r10` and `r11` held the return address and the
stack pointer of the caller on entry. -/
theorem returning_calleeSaved_iff (hp : Generated p) (henv : Resident env) (m : Machine) :
    wp p env p.lines m fun e m' => e.via = .bx .r7 ∨
      (e = ⟨.bx .r10, m.reg .lr⟩ ∧ (CalleeSaved m m' ↔ m.reg .r10 = m.reg .lr ∧ m.reg .r11 = m.reg .sp)) := by
  apply wp_mono (hp.wp_lines henv m)
  rintro e m' (hjump | ⟨he, hleft⟩)
  · exact Or.inl hjump
  · exact Or.inr ⟨he, hleft.calleeSaved_iff⟩

/-- A caller in the resident monitor, with its own stack. -/
def monitorCaller : Machine where
  reg r := if r = .sp then 0x0081F000 else if r = .lr then 0x00817000 else 0
  flags := ⟨false, false, false, false⟩
  ctl := 0xD3
  sys _ := 0
  mem _ := 0
  log := []

/-- Routines that only return. -/
theorem resident_idle : Resident fun _ m => m := ⟨fun _ _ _ _ _ => rfl, fun _ _ _ _ _ _ => rfl⟩

theorem returning_calleeSaved_iff_monitorCaller :
    wp bootloader (fun _ m => m) bootloader.lines monitorCaller fun e m' => e.via = .bx .r7 ∨
      (e = ⟨.bx .r10, 0x00817000⟩ ∧ (CalleeSaved monitorCaller m' ↔
        monitorCaller.reg .r10 = monitorCaller.reg .lr ∧ monitorCaller.reg .r11 = monitorCaller.reg .sp)) :=
  returning_calleeSaved_iff .bootloader resident_idle monitorCaller

/-- BL1 0.1 returns to such a caller with `r10` changed. -/
theorem returning_clobbers :
    ¬ ∀ (p : Program Label) (env : Word → Machine → Machine) (m : Machine), Generated p → Resident env →
      ∀ n e m', p.run env n p.lines m = some (e, m') → e.via = .bx .r10 → CalleeSaved m m' := by
  intro h
  obtain ⟨n, ⟨e, m'⟩, hrun, he, hleft⟩ := wp_bootloader resident_idle monitorCaller
  simp only at he
  have hsaved := h bootloader _ monitorCaller .bootloader resident_idle n e m' hrun (by rw [he])
  have h10 := (hleft.calleeSaved_iff.mp hsaved).1
  exact absurd h10 (by decide)

end ShadowMsm.Bl1
