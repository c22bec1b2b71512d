import ShadowMsm.Bl1.Checks

/-!
# The handoff of BL1 0.4

BL1 0.4 jumps to the Image exactly if all its checks pass, and otherwise returns the code of the first one that does
not.  The checks are stated over the machine at the entry: its registers, its memory and its system control register.
-/

namespace ShadowMsm.Bl1

open Arm

/-! ### What is checked -/

inductive Check
  | marker | size | fingerprints | dtb | cpuState
  deriving DecidableEq, Repr

namespace Check

/-- The order of the checks. -/
def order : List Check := [.marker, .size, .fingerprints, .dtb, .cpuState]

/-- The exit that a failing check goes to. -/
def exit : Check → Label
  | .marker => .failMarker
  | .size => .failSize
  | .fingerprints => .failImage
  | .dtb => .failDtb
  | .cpuState => .failState

def code : Check → Word
  | .marker => 0xBAD40004
  | .size => 0xBAD40003
  | .fingerprints => 0xBAD40001
  | .dtb => 0xBAD40002
  | .cpuState => 0xBAD40005

def Passes (image : Bytes) (m : Machine) : Check → Prop
  | .marker => m.reg .r2 = 0x494D4731
  | .size => m.reg .r0 = BitVec.ofNat 32 image.length ∧ 0x28 ≤ m.reg .r1 ∧ m.reg .r1 ≤ 0x10000
  | .fingerprints => ∀ probe ∈ probes image, load32 m.mem (0x00208000 + BitVec.ofNat 32 probe.1) = probe.2
  | .dtb => load32be m.mem 0x01F80000 = 0xD00DFEED ∧ load32be m.mem 0x01F80004 = m.reg .r1
  | .cpuState => (m.sys .sctlr).getLsbD 0 = false ∧ (m.sys .sctlr).getLsbD 2 = false

end Check

/-- Every check passes. -/
def Validated (image : Bytes) (m : Machine) : Prop := ∀ c, Check.Passes image m c

/-- The checks before `c` pass, and `c` does not. -/
def FirstFailing (image : Bytes) (m : Machine) (c : Check) : Prop :=
  ¬ c.Passes image m ∧ ∀ c' ∈ Check.order.takeWhile (· ≠ c), c'.Passes image m

/-- The jump to the Image, with the registers of the boot protocol and IRQ and FIQ masked. -/
structure HandsOff (e : Exit) (m : Machine) : Prop where
  exit : e = ⟨.bx .r7, 0x00208000⟩
  r0 : m.reg .r0 = 0
  r1 : m.reg .r1 = 0xFFFFFFFF
  r2 : m.reg .r2 = 0x01F80000
  irq : m.ctl.getLsbD 7 = true
  fiq : m.ctl.getLsbD 6 = true

/-- The return to the caller with a code. -/
structure ReturnsCode (m₀ : Machine) (code : Word) (e : Exit) (m : Machine) : Prop where
  exit : e = ⟨.bx .r10, m₀.reg .lr⟩
  r0 : m.reg .r0 = code
  sp : m.reg .sp = m₀.reg .sp

/-- The memory that the checks read. -/
def Checked (image : Bytes) (x : Word) : Prop :=
  (∃ probe ∈ probes image, Within x (0x00208000 + BitVec.ofNat 32 probe.1) 4) ∨ Within x 0x01F80000 8

/-- The resident routines leave what is checked alone. -/
structure Leaves (image : Bytes) (env : Word → Machine → Machine) : Prop where
  mem : ∀ t, IsResident t → ∀ m x, Checked image x → (env t m).mem x = m.mem x
  sctlr : ∀ t, IsResident t → ∀ m, (env t m).sys .sctlr = m.sys .sctlr

/-- What is checked is as it was on entry. -/
def Intact (image : Bytes) (m₀ : Machine) (μ : Mem) (s : Sys → Word) : Prop :=
  (∀ x, Checked image x → μ x = m₀.mem x) ∧ s .sctlr = m₀.sys .sctlr

/-! ### The fingerprints are in the Image -/

theorem imageProbeOffsets_spec {size o : Nat} (h : o ∈ imageProbeOffsets size) : 4 ∣ o ∧ o + 4 ≤ size := by
  unfold imageProbeOffsets at h
  rw [List.mem_mergeSort, List.mem_filter, List.mem_dedup, decide_eq_true_eq] at h
  obtain ⟨ho, hle⟩ := h
  constructor
  · simp only [probeOffsets, List.mem_cons, List.not_mem_nil, or_false] at ho
    omega
  · exact hle

theorem probes_spec {image : Bytes} {probe : Nat × Word} (h : probe ∈ probes image) :
    4 ∣ probe.1 ∧ probe.1 + 4 ≤ image.length := by
  obtain ⟨o, ho, rfl⟩ := List.mem_map.mp h
  exact imageProbeOffsets_spec ho

/-- Neither the stack nor the text buffer of BL1 is checked. -/
theorem Checked.not_volatile {image : Bytes} (hsize : IMAGE_ADDR + image.length ≤ IMAGE_LIMIT) {x : Word}
    (hx : Checked image x) : ¬ Volatile .imageBoot x := by
  have hbuf := toNat_hexBufferAddr .imageBoot
  have hoff : Layout.imageBoot.hexBufferOffset = 0x1720 := rfl
  unfold IMAGE_ADDR IMAGE_LIMIT at hsize
  unfold Volatile FRAME
  rintro (h | h)
  all_goals
    simp only [Within] at h
    rcases hx with ⟨probe, hp, hx⟩ | hx
    · have := (probes_spec hp).2
      simp only [Within] at hx
      bv_omega
    · simp only [Within] at hx
      bv_omega

theorem stable_intact {image : Bytes} {env : Word → Machine → Machine} {m₀ : Machine}
    (hsize : IMAGE_ADDR + image.length ≤ IMAGE_LIMIT) (hleaves : Leaves image env) :
    Stable .imageBoot env (Intact image m₀) where
  write μ μ' s hμ h := by
    constructor
    · intro x hx
      rw [hμ x (hx.not_volatile hsize), h.1 x hx]
    · exact h.2
  call t ht m h := by
    constructor
    · intro x hx
      rw [hleaves.mem t ht m x hx, h.1 x hx]
    · rw [hleaves.sctlr t ht m, h.2]

/-! ### The checks, one after the other -/

section

variable {image : Bytes} {env : Word → Machine → Machine} {Q : Exit → Machine → Prop} {m₀ m : Machine}
  {v : Reg → Word} {k : List (Line Label)}

/-- The arguments and the two addresses, in the registers in which BL1 keeps them. -/
structure Args (m₀ : Machine) (v : Reg → Word) : Prop where
  r4 : v .r4 = m₀.reg .r0
  r5 : v .r5 = m₀.reg .r1
  r6 : v .r6 = m₀.reg .r2
  r7 : v .r7 = 0x00208000
  r8 : v .r8 = 0x01F80000

/-- `r9` is scratch. -/
theorem Args.congr {v' : Reg → Word} (h : Args m₀ v) (hv : AgreeOffR9 v v') : Args m₀ v' := by
  constructor
  all_goals rw [hv _ (by decide)]
  exacts [h.r4, h.r5, h.r6, h.r7, h.r8]

theorem wp_markerCheck (ha : Args m₀ v) (hm : Body (Intact image m₀) m₀ v m)
    (hfail : ¬ Check.Passes image m₀ .marker → ∀ m', Body (Intact image m₀) m₀ v m' →
      wp (imageBoot image) env ((imageBoot image).codeAt .failMarker) m' Q)
    (hpass : Check.Passes image m₀ .marker → ∀ m', Body (Intact image m₀) m₀ v m' → wp (imageBoot image) env k m' Q) :
    wp (imageBoot image) env (Layout.imageMarkerBlock ++ k) m Q := by
  simp only [Layout.imageMarkerBlock, List.cons_append, List.nil_append]
  apply wp_cmp_const hm (by decide)
  all_goals rw [ha.r6, holds_ne_sub]
  · rw [decide_eq_true_eq]
    exact hfail
  · rw [decide_eq_false_iff_not, not_not]
    exact hpass

theorem wp_sizeCheck (ha : Args m₀ v) (hm : Body (Intact image m₀) m₀ v m)
    (hfail : ¬ Check.Passes image m₀ .size → ∀ m', Body (Intact image m₀) m₀ v m' →
      wp (imageBoot image) env ((imageBoot image).codeAt .failSize) m' Q)
    (hpass : Check.Passes image m₀ .size → ∀ m', Body (Intact image m₀) m₀ v m' → wp (imageBoot image) env k m' Q) :
    wp (imageBoot image) env (Layout.imageSizeBlock image ++ k) m Q := by
  simp only [Layout.imageSizeBlock, List.cons_append, List.nil_append]
  apply wp_cmp_const hm (by decide)
  · rw [ha.r4, holds_ne_sub, decide_eq_true_eq]
    intro h
    exact hfail fun hp => h hp.1
  rw [ha.r4, holds_ne_sub, decide_eq_false_iff_not, not_not]
  intro hsize m1 h1
  apply wp_cmp (w := 0x28) h1 (by decide) rfl
  · rw [ha.r5, holds_lo_sub, decide_eq_true_eq]
    intro h
    exact hfail fun hp => BitVec.not_lt.mpr hp.2.1 h
  rw [ha.r5, holds_lo_sub, decide_eq_false_iff_not, BitVec.not_lt]
  intro hlow m2 h2
  apply wp_cmp_const h2 (by decide)
  · rw [ha.r5, holds_hi_sub, decide_eq_true_eq]
    intro h
    exact hfail fun hp => BitVec.not_lt.mpr hp.2.2 h
  rw [ha.r5, holds_hi_sub, decide_eq_false_iff_not, BitVec.not_lt]
  intro hhigh
  exact hpass ⟨hsize, hlow, hhigh⟩

/-- A checked word reads as on entry. -/
theorem Intact.load32 {μ : Mem} {s : Sys → Word} (h : Intact image m₀ μ s) {a : Word}
    (ha : ∀ x, Within x a 4 → Checked image x) : load32 μ a = Arm.load32 m₀.mem a :=
  SameOn.load32 fun x hx => h.1 x (ha x hx)

/-- The comparison of one word. -/
private theorem wp_word {p : Program Label} {K : Mem → (Sys → Word) → Prop} (hm : Body K m₀ v m) {a w : Word}
    (ha : 4 ∣ a.toNat) {l : Label}
    (hfail : load32 m.mem a ≠ w → ∀ m', Body K m₀ v m' → wp p env (p.codeAt l) m' Q)
    (hpass : load32 m.mem a = w → ∀ m', Body K m₀ v m' → wp p env k m' Q) :
    wp p env (.ldrc .r0 a :: .ldr .r0 .r0 0 :: .ldrc .r1 w :: .cmp .r0 (.reg .r1) :: .bne l :: k) m Q := by
  have hm' : Body K m₀ v ((Op.cmp .r0 (.reg .r1)).exec ((Op.ldrc .r1 w).exec ((Op.ldr .r0 .r0 0).exec
      ((Op.ldrc .r0 a).exec m)))) := by
    iterate 4 refine Body.exec ?_ rfl (by decide)
    exact hm
  have hflags : ((Op.cmp .r0 (.reg .r1)).exec ((Op.ldrc .r1 w).exec ((Op.ldr .r0 .r0 0).exec
      ((Op.ldrc .r0 a).exec m)))).flags = subFlags (load32 m.mem a) w := by
    simp [Op.exec, Op2.eval, Machine.reg_set, Machine.loadWord_of_dvd ha]
  simp only [wp_op_al, wp_b]
  rw [hflags, holds_ne_sub]
  split
  · rename_i hne
    exact hfail (by simpa using hne) _ hm'
  · rename_i heq
    exact hpass (by simpa using heq) _ hm'

/-- The comparisons of some fingerprints, by induction on their list. -/
theorem wp_probeLines {ps : List (Nat × Word)} (hps : ∀ probe ∈ ps, probe ∈ probes image)
    (hm : Body (Intact image m₀) m₀ v m)
    (hfail : (∃ probe ∈ ps, load32 m₀.mem (0x00208000 + BitVec.ofNat 32 probe.1) ≠ probe.2) →
      ∀ m', Body (Intact image m₀) m₀ v m' → wp (imageBoot image) env ((imageBoot image).codeAt .failImage) m' Q)
    (hpass : (∀ probe ∈ ps, load32 m₀.mem (0x00208000 + BitVec.ofNat 32 probe.1) = probe.2) →
      ∀ m', Body (Intact image m₀) m₀ v m' → wp (imageBoot image) env k m' Q) :
    wp (imageBoot image) env (ps.flatMap Layout.probeLines ++ k) m Q := by
  induction ps generalizing m with
  | nil => exact hpass (by simp) m hm
  | cons probe ps ih =>
    have hprobe : probe ∈ probes image := hps probe (by simp)
    have haddr : BitVec.ofNat 32 (IMAGE_ADDR + probe.1) = (0x00208000 : Word) + BitVec.ofNat 32 probe.1 := by
      rw [BitVec.ofNat_add]
      rfl
    have hdvd : 4 ∣ ((0x00208000 : Word) + BitVec.ofNat 32 probe.1).toNat := by
      have := (probes_spec hprobe).1
      rw [BitVec.toNat_add, BitVec.toNat_ofNat]
      simp only [BitVec.reduceToNat]
      omega
    have hword : load32 m.mem (0x00208000 + BitVec.ofNat 32 probe.1) =
        load32 m₀.mem (0x00208000 + BitVec.ofNat 32 probe.1) :=
      hm.inv.load32 fun x hx => Or.inl ⟨probe, hprobe, hx⟩
    rw [List.flatMap_cons, List.append_assoc]
    simp only [Layout.probeLines, List.cons_append, List.nil_append, haddr]
    apply wp_word hm hdvd
    · rw [hword]
      intro hne
      exact hfail ⟨probe, by simp, hne⟩
    · rw [hword]
      intro heq m' hm'
      apply ih (fun x hx => hps x (by simp [hx])) hm'
      · rintro ⟨x, hx, hne⟩
        exact hfail ⟨x, by simp [hx], hne⟩
      · intro hall
        apply hpass
        intro x hx
        rcases List.mem_cons.mp hx with rfl | hx
        · exact heq
        · exact hall x hx

theorem wp_fingerprintCheck (hm : Body (Intact image m₀) m₀ v m)
    (hfail : ¬ Check.Passes image m₀ .fingerprints → ∀ m', Body (Intact image m₀) m₀ v m' →
      wp (imageBoot image) env ((imageBoot image).codeAt .failImage) m' Q)
    (hpass : Check.Passes image m₀ .fingerprints → ∀ m', Body (Intact image m₀) m₀ v m' →
      wp (imageBoot image) env k m' Q) :
    wp (imageBoot image) env (Layout.probeAsm image ++ k) m Q := by
  apply wp_probeLines (fun _ h => h) hm
  · rintro ⟨probe, hp, hne⟩
    exact hfail fun hall => hne (hall probe hp)
  · exact hpass

theorem wp_dtbCheck (henv : Resident env) (hK : Stable .imageBoot env (Intact image m₀)) (ha : Args m₀ v)
    (hm : Body (Intact image m₀) m₀ v m)
    (hfail : ¬ Check.Passes image m₀ .dtb → ∀ v m', Body (Intact image m₀) m₀ v m' →
      wp (imageBoot image) env ((imageBoot image).codeAt .failDtb) m' Q)
    (hpass : Check.Passes image m₀ .dtb → ∀ v m', Args m₀ v → Body (Intact image m₀) m₀ v m' →
      wp (imageBoot image) env k m' Q) :
    wp (imageBoot image) env (Layout.imageBoot.dtbMagicBlock ++ (Layout.imageBoot.dtbTotalBlock ++ k)) m Q := by
  apply wp_dtbHeader m₀.mem (subroutines_imageBoot image) henv hK ?_ ha.r8 hm
  · rw [ha.r5]
    exact hfail
  · rw [ha.r5]
    intro hp v' m' hv hm'
    exact hpass hp v' m' (ha.congr hv) hm'
  · intro μ s h x hx
    exact h.1 x (Or.inr hx)

theorem wp_cpuCheck (henv : Resident env) (hK : Stable .imageBoot env (Intact image m₀)) (ha : Args m₀ v)
    (hm : Body (Intact image m₀) m₀ v m)
    (hfail : ¬ Check.Passes image m₀ .cpuState → ∀ v m', Body (Intact image m₀) m₀ v m' →
      wp (imageBoot image) env ((imageBoot image).codeAt .failState) m' Q)
    (hpass : Check.Passes image m₀ .cpuState → ∀ v m', Args m₀ v → Body (Intact image m₀) m₀ v m' →
      wp (imageBoot image) env k m' Q) :
    wp (imageBoot image) env (Layout.imageBoot.cpuBlock ++ k) m Q := by
  apply wp_cpuState (subroutines_imageBoot image).toLinked henv hK (fun _ _ h => h.2) hm hfail
  intro hp v' m' hv hm'
  exact hpass hp v' m' (ha.congr hv) hm'

/-- The armed prints and the jump. -/
theorem wp_handoff (henv : Resident env) (hK : Stable .imageBoot env (Intact image m₀)) (ha : Args m₀ v)
    (hm : Body (Intact image m₀) m₀ v m) (h : ∀ e m', HandsOff e m' → Q e m') :
    wp (imageBoot image) env
      (Layout.imageBoot.armedBlock (BitVec.ofNat 32 IMAGE_ADDR) ++ (Layout.jumpBlock ++ k)) m Q := by
  apply wp_jumpTo (subroutines_imageBoot image).toLinked henv hK ha.r7 ha.r8 hm
  intro m' hr _
  exact h _ m' ⟨rfl, hr.r0, hr.r1, hr.r2, hr.irq, hr.fiq⟩

/-! ### The outcome -/

/-- The handoff if everything passes, the first failure otherwise. -/
def Outcome (image : Bytes) (m₀ : Machine) (e : Exit) (m : Machine) : Prop :=
  (HandsOff e m ↔ Validated image m₀) ∧
    (¬ Validated image m₀ → ∃ c, FirstFailing image m₀ c ∧ ReturnsCode m₀ c.code e m)

private theorem outcome_of_failing {c : Check} (hc : FirstFailing image m₀ c) {e : Exit} {m : Machine}
    (h : ReturnsCode m₀ c.code e m) : Outcome image m₀ e m := by
  constructor
  · constructor
    · intro hoff
      have := hoff.exit.symm.trans h.exit
      simp at this
    · intro hv
      exact absurd (hv c) hc.1
  · intro _
    exact ⟨c, hc, h⟩

private theorem outcome_of_validated (hv : Validated image m₀) {e : Exit} {m : Machine} (h : HandsOff e m) :
    Outcome image m₀ e m :=
  ⟨⟨fun _ => hv, fun _ => h⟩, fun hn => absurd hv hn⟩

/-- A failure exit returns its code. -/
private theorem wp_failCode (henv : Resident env) (hK : Stable .imageBoot env (Intact image m₀)) {l k : Label}
    {name : Text} {code : Word}
    (hcode : (imageBoot image).codeAt l = Layout.imageBoot.failBlock l name code ++ (imageBoot image).codeAt k ∨
      (imageBoot image).codeAt l = Layout.imageBoot.lastFailBlock l name code ++ (imageBoot image).codeAt .finish)
    (hm : Body (Intact image m₀) m₀ v m) (h : ∀ e m', ReturnsCode m₀ code e m' → Q e m') :
    wp (imageBoot image) env ((imageBoot image).codeAt l) m Q := by
  apply wp_failReturn (subroutines_imageBoot image).toLinked henv hK ?_ hcode hm
  · intro m' hleft h0
    exact h _ m' ⟨rfl, h0, hleft.sp_eq⟩
  · exact ⟨_, imageBoot_block (b := Layout.finishBlock) (k := .printValue) (by decide) (by decide) rfl⟩

/-- The exit of each check. -/
private theorem wp_fail (henv : Resident env) (hK : Stable .imageBoot env (Intact image m₀)) {c : Check}
    (hc : FirstFailing image m₀ c) (hm : Body (Intact image m₀) m₀ v m) :
    wp (imageBoot image) env ((imageBoot image).codeAt c.exit) m (Outcome image m₀) := by
  have hcode : ∀ e m', ReturnsCode m₀ c.code e m' → Outcome image m₀ e m' := fun e m' h => outcome_of_failing hc h
  cases c with
  | marker =>
    exact wp_failCode henv hK (Or.inl (imageBoot_block (k := .failState) (by decide) (by decide) rfl)) hm hcode
  | size =>
    exact wp_failCode henv hK (Or.inl (imageBoot_block (k := .failImage) (by decide) (by decide) rfl)) hm hcode
  | fingerprints =>
    exact wp_failCode henv hK (Or.inl (imageBoot_block (k := .failDtb) (by decide) (by decide) rfl)) hm hcode
  | dtb =>
    exact wp_failCode henv hK (Or.inl (imageBoot_block (k := .failMarker) (by decide) (by decide) rfl)) hm hcode
  | cpuState =>
    exact wp_failCode (k := .finish) henv hK (Or.inr (imageBoot_block (by decide) (by decide) rfl)) hm hcode

/-- The listing from its entry. -/
theorem wp_imageBootSource (henv : Resident env) (hK : Stable .imageBoot env (Intact image m₀)) :
    wp (imageBoot image) env (imageBoot image).lines m₀ (Outcome image m₀) := by
  have hl := (subroutines_imageBoot image).toLinked
  have hfirst : ∀ {c : Check}, ¬ c.Passes image m₀ → (∀ c' ∈ Check.order.takeWhile (· ≠ c), c'.Passes image m₀) →
      ∀ v m', Body (Intact image m₀) m₀ v m' →
        wp (imageBoot image) env ((imageBoot image).codeAt c.exit) m' (Outcome image m₀) :=
    fun hc hbefore v m' hm' => wp_fail henv hK ⟨hc, hbefore⟩ hm'
  apply wp_entry hK ⟨fun _ _ => rfl, rfl⟩
  intro m1 h1 h4 h5 h6
  -- the two addresses go to `r7` and `r8`
  simp only [List.cons_append, List.nil_append]
  rw [wp_op_al, wp_op_al]
  have h2 := (h1.exec_update (o := .ldrc .r7 (BitVec.ofNat 32 IMAGE_ADDR)) rfl (by decide)).exec_update
    (o := .ldrc .r8 DTB_ADDR) rfl (by decide)
  generalize hv : Function.update (Function.update m1.reg .r7 _) .r8 _ = v at h2
  have ha : Args m₀ v := by
    subst hv
    constructor
    all_goals simp [Op.exec, Machine.reg_set, h4, h5, h6]
    all_goals rfl
  apply wp_scratch hl henv hK (b := Layout.imageBoot.imageInputsBlock) rfl h2
  intro m3 h3
  apply wp_markerCheck ha h3
  · intro hc m' hm'
    exact hfirst (c := .marker) hc (by simp [Check.order]) v m' hm'
  intro hmarker m4 h4
  apply wp_sizeCheck ha h4
  · intro hc m' hm'
    refine hfirst (c := .size) hc ?_ v m' hm'
    simpa [Check.order] using hmarker
  intro hsize m5 h5
  apply wp_scratch hl henv hK (b := Layout.imageBoot.printLiteral .headers) rfl h5
  intro m6 h6
  apply wp_fingerprintCheck h6
  · intro hc m' hm'
    refine hfirst (c := .fingerprints) hc ?_ v m' hm'
    simpa [Check.order] using ⟨hmarker, hsize⟩
  intro hprints m7 h7
  apply wp_scratch hl henv hK (b := Layout.imageBoot.printLiteral .fingerprints) rfl h7
  intro m8 h8
  apply wp_dtbCheck henv hK ha h8
  · intro hc v' m' hm'
    refine hfirst (c := .dtb) hc ?_ v' m' hm'
    simpa [Check.order] using ⟨hmarker, hsize, hprints⟩
  intro hdtb v9 m9 ha9 h9
  apply wp_cpuCheck henv hK ha9 h9
  · intro hc v' m' hm'
    refine hfirst (c := .cpuState) hc ?_ v' m' hm'
    simpa [Check.order] using ⟨hmarker, hsize, hprints, hdtb⟩
  intro hcpu v10 m10 ha10 h10
  have hvalid : Validated image m₀ := by
    intro c
    cases c
    exacts [hmarker, hsize, hprints, hdtb, hcpu]
  apply wp_handoff henv hK ha10 h10
  intro e m' hoff
  exact outcome_of_validated hvalid hoff

end

/-- BL1 0.4, built for an Image, hands off to it exactly in the validated case, and otherwise returns the code of the
first check that fails. -/
theorem imageBoot_outcome {image : Bytes} {p : Program Label} (hp : buildImageBoot image = .ok p)
    {env : Word → Machine → Machine} (henv : Resident env) (hleaves : Leaves image env) (m : Machine) :
    wp p env p.lines m fun e m' =>
      (HandsOff e m' ↔ Validated image m) ∧
        (¬ Validated image m → ∃ c, FirstFailing image m c ∧ ReturnsCode m c.code e m') := by
  obtain ⟨rfl, hsize⟩ := buildImageBoot_ok hp
  exact wp_imageBootSource henv (stable_intact hsize hleaves)

/-- An Image of zeros is accepted; a caller without the marker gets the code of the marker check. -/
theorem imageBoot_outcome_zeros :
    wp (imageBoot (List.replicate 0x1000 0)) (fun _ m => m) (imageBoot (List.replicate 0x1000 0)).lines monitorCaller
      fun e m' => (HandsOff e m' ↔ Validated (List.replicate 0x1000 0) monitorCaller) ∧
        (¬ Validated (List.replicate 0x1000 0) monitorCaller →
          ∃ c, FirstFailing (List.replicate 0x1000 0) monitorCaller c ∧ ReturnsCode monitorCaller c.code e m') :=
  imageBoot_outcome (p := imageBoot (List.replicate 0x1000 0))
    (by
      unfold buildImageBoot
      rw [List.length_replicate, if_neg (by decide), if_neg (by decide), if_pos stringsFit_imageBoot])
    resident_idle ⟨fun _ _ _ _ _ => rfl, fun _ _ _ => rfl⟩ monitorCaller

end ShadowMsm.Bl1
