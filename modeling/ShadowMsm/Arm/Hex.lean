import ShadowMsm.Arm.Frames
import ShadowMsm.Arm.Visits

/-!
# Printing a word in hexadecimal

The loop that writes the eight hexadecimal digits of a register to memory through a table of sixteen characters: the
top nibble selects a table byte, the byte is stored, the value is shifted left by one digit.
-/

namespace Arm

variable {L : Type} [DecidableEq L] {p : Program L} {env : Word → Machine → Machine} {Q : Exit → Machine → Prop}
  {W : Machine → Prop} {A : List Machine → Prop}

/-- The loop, with its five registers: the value, a scratch register, the destination, the table and the counter. -/
def hexLoop (l : L) (val tmp dst tbl cnt : Reg) : List (Line L) :=
  [.label l,
   .mov tmp (.lsr val 28),
   .ldrbR tmp tbl tmp,
   .strbPost tmp dst 1,
   .mov val (.lsl val 4),
   .subs cnt cnt (.imm 1),
   .bne l]

/-- The `i`-th digit of a word, the most significant one first. -/
def nibble (v : Word) (i : Nat) : Word := (v <<< (4 * i)) >>> 28

/-- The text of a word, written with the table at `t`. -/
def hexText (μ : Mem) (t v : Word) : List (BitVec 8) := (List.range 8).map fun i => μ (t + nibble v i)

/-- What the loop does in memory: it reads the table and writes the eight digits. -/
def HexAccess (t d : Word) : Access → Prop
  | .load a n => Within a t 16 ∧ n = 1
  | .store a n => Within a d 8 ∧ n = 1
  | .call _ _ _ => False

/-- The registers the loop needs to be different. -/
def HexRegs (val tmp dst tbl cnt : Reg) : Prop :=
  [val, tmp, dst, tbl, cnt].Nodup

instance (val tmp dst tbl cnt : Reg) : Decidable (HexRegs val tmp dst tbl cnt) :=
  inferInstanceAs (Decidable (List.Nodup _))

/-- The machine with `i` digits written, from the machine `m` before the loop. -/
structure HexAt (val tmp dst tbl cnt : Reg) (t d v : Word) (i : Nat) (m m' : Machine) : Prop where
  val_eq : m'.reg val = v <<< (4 * i)
  dst_eq : m'.reg dst = d + BitVec.ofNat 32 i
  tbl_eq : m'.reg tbl = t
  cnt_eq : m'.reg cnt = BitVec.ofNat 32 (8 - i)
  keep : ∀ r, r ∉ [val, tmp, dst, cnt] → m'.reg r = m.reg r
  mem : m'.mem = storeBytes m.mem d ((hexText m.mem t v).take i)
  sys : m'.sys = m.sys
  ctl : m'.ctl = m.ctl
  log : ∃ l, m'.log = m.log ++ l ∧ ∀ a ∈ l, HexAccess t d a

@[simp] theorem length_hexText (μ : Mem) (t v : Word) : (hexText μ t v).length = 8 := by simp [hexText]

private theorem nibble_lt (v : Word) (i : Nat) : (nibble v i).toNat < 16 := by
  simp only [nibble, BitVec.toNat_ushiftRight, Nat.shiftRight_eq_div_pow]
  omega

private theorem within_table (t v : Word) (i : Nat) : Within (t + nibble v i) t 16 := by
  have h := nibble_lt v i
  have : t + nibble v i - t = nibble v i := by bv_omega
  simpa [Within, this] using h

private theorem take_hexText_succ (μ : Mem) (t v : Word) {i : Nat} (hi : i < 8) :
    (hexText μ t v).take (i + 1) = (hexText μ t v).take i ++ [μ (t + nibble v i)] := by
  rw [List.take_succ_eq_append_getElem (by simpa using hi)]
  simp [hexText]

/-- Between `m` and `m'` only the eight bytes at `d` have changed in memory, and no system register. -/
structure DigitsOnly (d : Word) (m m' : Machine) : Prop where
  sys : m'.sys = m.sys
  mem : ∀ x, ¬ Within x d 8 → m'.mem x = m.mem x

private theorem DigitsOnly.exec {d : Word} {m m' : Machine} (h : DigitsOnly d m m') {o : Op} {ds : List Reg}
    (ho : o.writes = some ds) : DigitsOnly d m (o.exec m') := by
  constructor
  · rw [Op.sys_exec ho, h.sys]
  · intro x hx
    rw [Op.mem_exec ho, h.mem x hx]

private theorem DigitsOnly.store {d : Word} {m m' : Machine} (h : DigitsOnly d m m') {rd rn : Reg} {i : Nat}
    (hi : i < 8) (hdst : m'.reg rn = d + BitVec.ofNat 32 i) : DigitsOnly d m ((Op.strbPost rd rn 1).exec m') := by
  constructor
  · exact h.sys
  · intro x hx
    rw [← h.mem x hx]
    apply store8_ne
    rintro rfl
    rw [hdst] at hx
    exact hx (within_add hi (by omega))

theorem HexAt.digitsOnly {val tmp dst tbl cnt : Reg} {t d v : Word} {i : Nat} {m m' : Machine}
    (hm : HexAt val tmp dst tbl cnt t d v i m m') : DigitsOnly d m m' := by
  refine ⟨hm.sys, ?_⟩
  intro x hx
  rw [hm.mem]
  apply storeBytes_of_not_within (by simp)
  simp only [Within, List.length_take, length_hexText] at hx ⊢
  omega

/-- The machine after one pass, before the branch. -/
def hexPass (val tmp dst tbl cnt : Reg) (m : Machine) : Machine :=
  (Op.subs cnt cnt (.imm 1)).exec ((Op.mov val (.lsl val 4)).exec ((Op.strbPost tmp dst 1).exec
    ((Op.ldrbR tmp tbl tmp).exec ((Op.mov tmp (.lsr val 28)).exec m))))

section

variable {l : L} {val tmp dst tbl cnt : Reg} {t d v : Word} {m m' : Machine} {i : Nat} {k : List (Line L)}

/-- A pass writes one digit. -/
private theorem hexAt_pass (hregs : HexRegs val tmp dst tbl cnt) (hapart : Apart t 16 d 8) (hi : i < 8)
    (hm : HexAt val tmp dst tbl cnt t d v i m m') :
    HexAt val tmp dst tbl cnt t d v (i + 1) m (hexPass val tmp dst tbl cnt m') := by
  simp only [HexRegs, List.nodup_cons, List.mem_cons, List.not_mem_nil, or_false, not_or, not_false_eq_true,
    List.nodup_nil, and_true] at hregs
  obtain ⟨⟨h1, h2, h3, h4⟩, ⟨h5, h6, h7⟩, ⟨h8, h9⟩, h10⟩ := hregs
  have htab : m'.mem (t + nibble v i) = m.mem (t + nibble v i) :=
    hm.digitsOnly.mem _ (hapart _ (within_table t v i))
  have hcnt : (BitVec.ofNat 32 (8 - i) - 1 : Word) = BitVec.ofNat 32 (8 - (i + 1)) := by bv_omega
  have hval : v <<< (4 * i) <<< 4 = v <<< (4 * (i + 1)) := by rw [← BitVec.shiftLeft_add, Nat.mul_add]
  obtain ⟨lg, hlog, hacc⟩ := hm.log
  simp only [hexPass, Op.exec, Op2.eval, Machine.reg_set, Machine.reg_touch, Machine.reg_setMem, Machine.mem_set,
    Machine.mem_touch, if_true, hm.val_eq, hm.dst_eq, hm.tbl_eq, hm.cnt_eq, h1, h2, Ne.symm h4, Ne.symm h5, Ne.symm h6,
    Ne.symm h7, Ne.symm h9, if_false]
  refine ⟨?_, ?_, ?_, ?_, fun r hr => ?_, ?_, hm.sys, hm.ctl, ?_⟩
  · simp only [Machine.reg_setFlags, Machine.reg_set, h4, if_true, if_false, hval]
  · simp only [Machine.reg_setFlags, Machine.reg_set, Machine.reg_touch, h9, Ne.symm h2, if_true, if_false]
    rw [BitVec.ofNat_add]
    ac_rfl
  · simp only [Machine.reg_setFlags, Machine.reg_set, Machine.reg_touch, Machine.reg_setMem, h10, Ne.symm h3,
      Ne.symm h8, Ne.symm h6, if_false, hm.tbl_eq]
  · simp only [Machine.reg_setFlags, Machine.reg_set, if_true, hcnt]
  · simp only [List.mem_cons, List.not_mem_nil, or_false, not_or] at hr
    simp only [Machine.reg_setFlags, Machine.reg_set, Machine.reg_touch, Machine.reg_setMem, hr, if_false,
      hm.keep r (by simp [hr])]
  · change store8 m'.mem _ _ = _
    rw [take_hexText_succ _ _ _ hi, storeBytes_concat, ← hm.mem, List.length_take, length_hexText,
      Nat.min_eq_left (by omega), ← htab, BitVec.setWidth_setWidth_of_le _ (by omega), BitVec.setWidth_eq]
    rfl
  · refine ⟨lg ++ [.load (t + nibble v i) 1, .store (d + BitVec.ofNat 32 i) 1], ?_, fun a ha => ?_⟩
    · simp only [Machine.log_setFlags, Machine.log_set, Machine.log_touch, Machine.log_setMem, hlog, List.append_assoc,
        List.cons_append, List.nil_append, nibble]
    · simp only [List.mem_append, List.mem_cons, List.not_mem_nil, or_false] at ha
      rcases ha with ha | rfl | rfl
      · exact hacc a ha
      · exact ⟨within_table t v i, rfl⟩
      · exact ⟨within_add hi (by omega), rfl⟩

private theorem holds_hexPass (hregs : HexRegs val tmp dst tbl cnt) (hi : i < 8)
    (hm : HexAt val tmp dst tbl cnt t d v i m m') :
    Cond.ne.holds (hexPass val tmp dst tbl cnt m').flags = decide (i + 1 ≠ 8) := by
  have hz : (BitVec.ofNat 32 (8 - i) = (1 : Word)) ↔ i + 1 = 8 := by
    constructor
    · intro e
      bv_omega
    · intro e
      rw [show 8 - i = 1 by omega]
      rfl
  simp only [HexRegs, List.nodup_cons, List.mem_cons, List.not_mem_nil, or_false, not_or, not_false_eq_true,
    List.nodup_nil, and_true] at hregs
  obtain ⟨⟨-, -, -, h4⟩, ⟨-, -, h7⟩, ⟨-, h9⟩, -⟩ := hregs
  simp only [hexPass, Op.exec, Op2.eval, Machine.flags_setFlags, Machine.reg_set, Machine.reg_touch,
    Machine.reg_setMem, Ne.symm h4, Ne.symm h7, Ne.symm h9, if_false, hm.cnt_eq, holds_ne_sub, ne_eq, hz]

/-- One pass of the loop, when `W` does not depend on more than the digits change. -/
private theorem hexLoop_step (hcode : p.codeAt l = hexLoop l val tmp dst tbl cnt ++ k)
    (hregs : HexRegs val tmp dst tbl cnt) (hapart : Apart t 16 d 8) (hA : Grows W A)
    (hW : ∀ m', DigitsOnly d m m' → W m') (hi : i < 8) (hm : HexAt val tmp dst tbl cnt t d v i m m')
    (h : ∀ m'', HexAt val tmp dst tbl cnt t d v (i + 1) m m'' →
      if i + 1 = 8 then wpAlong p env A k m'' Q else wpAlong p env A (p.codeAt l) m'' Q) :
    wpAlong p env A (p.codeAt l) m' Q := by
  have hnext := hexAt_pass hregs hapart hi hm
  have hpass := h _ hnext
  have hholds := holds_hexPass hregs hi hm
  have hdst : ((Op.ldrbR tmp tbl tmp).exec ((Op.mov tmp (.lsr val 28)).exec m')).reg dst = d + BitVec.ofNat 32 i := by
    simp only [HexRegs, List.nodup_cons, List.mem_cons, not_or] at hregs
    simp only [Op.exec, Machine.reg_touch, Machine.reg_set, Ne.symm hregs.2.1.1, if_false, hm.dst_eq]
  have h0 := hm.digitsOnly
  have h1 := h0.exec (o := .mov tmp (.lsr val 28)) rfl
  have h2 := h1.exec (o := .ldrbR tmp tbl tmp) rfl
  have h3 : DigitsOnly d m ((Op.strbPost tmp dst 1).exec ((Op.ldrbR tmp tbl tmp).exec
      ((Op.mov tmp (.lsr val 28)).exec m'))) := h2.store hi hdst
  have h4 := h3.exec (o := .mov val (.lsl val 4)) rfl
  rw [hcode]
  apply wpAlong_label
  apply wpAlong_op (fun t => hA _ t (hW _ h0))
  apply wpAlong_op (fun t => hA _ t (hW _ h1))
  apply wpAlong_op (fun t => hA _ t (hW _ h2))
  apply wpAlong_op (fun t => hA _ t (hW _ h3))
  apply wpAlong_op (fun t => hA _ t (hW _ h4))
  apply wpAlong_b hA (hW _ hnext.digitsOnly)
  · intro hc
    have hne : i + 1 ≠ 8 := of_decide_eq_true (hholds.symm.trans hc)
    rwa [if_neg hne] at hpass
  · intro hc
    have he : i + 1 = 8 := not_not.mp (of_decide_eq_false (hholds.symm.trans hc))
    rwa [if_pos he] at hpass

end

/-- The loop writes the eight digits, most significant first, and leaves every other register alone. -/
theorem hexLoop_along {l : L} {val tmp dst tbl cnt : Reg} {k : List (Line L)} {m : Machine}
    (hcode : p.codeAt l = hexLoop l val tmp dst tbl cnt ++ k) (hregs : HexRegs val tmp dst tbl cnt)
    (hapart : Apart (m.reg tbl) 16 (m.reg dst) 8) (hcnt : m.reg cnt = 8) (hA : Grows W A)
    (hW : ∀ m', DigitsOnly (m.reg dst) m m' → W m')
    (h : ∀ m', HexAt val tmp dst tbl cnt (m.reg tbl) (m.reg dst) (m.reg val) 8 m m' → wpAlong p env A k m' Q) :
    wpAlong p env A (p.codeAt l) m Q := by
  have loop : ∀ n i m', i + n = 8 → 0 < n → HexAt val tmp dst tbl cnt (m.reg tbl) (m.reg dst) (m.reg val) i m m' →
      wpAlong p env A (p.codeAt l) m' Q := by
    intro n
    induction n with
    | zero =>
      intro i m' _ h0
      omega
    | succ n ih =>
      intro i m' hi _ hm
      apply hexLoop_step hcode hregs hapart hA hW (by omega) hm
      intro m'' hm''
      by_cases h8 : i + 1 = 8
      · rw [if_pos h8]
        exact h m'' (h8 ▸ hm'')
      · rw [if_neg h8]
        exact ih (i + 1) m'' (by omega) (by omega) hm''
  refine loop 8 0 m rfl (by omega) ⟨?_, ?_, rfl, ?_, fun _ _ => rfl, rfl, rfl, rfl, [], by simp⟩
  · simp
  · simp
  · simpa using hcnt

theorem wp_hexLoop {l : L} {val tmp dst tbl cnt : Reg} {k : List (Line L)} {m : Machine}
    (hcode : p.codeAt l = hexLoop l val tmp dst tbl cnt ++ k) (hregs : HexRegs val tmp dst tbl cnt)
    (hapart : Apart (m.reg tbl) 16 (m.reg dst) 8) (hcnt : m.reg cnt = 8)
    (h : ∀ m', HexAt val tmp dst tbl cnt (m.reg tbl) (m.reg dst) (m.reg val) 8 m m' → wp p env k m' Q) :
    wp p env (p.codeAt l) m Q := by
  have hgrows : Grows (fun _ => True) fun _ => True := fun _ _ _ _ => trivial
  apply wp_of_along
  apply hexLoop_along hcode hregs hapart hcnt hgrows fun _ _ => trivial
  intro m' hm'
  exact along_of_wp (h m' hm')

/-! ### A subroutine around the loop -/

/-- The subroutine in front of its loop: the digits of `r0` go to `d`, through the table at `t`. -/
def formatHex (f : L) (t d : Word) : List (Line L) :=
  [.label f,
   .push [.r4, .r5, .r6, .r7, .lr],
   .mov .r4 (.reg .r0),
   .ldrc .r5 d,
   .ldrc .r6 t,
   .mov .r7 (.imm 8)]

/-- Between `m` and `m'` only the five words below the stack pointer and the digits have changed in memory, and no
system register. -/
structure FormatsOnly (d : Word) (m m' : Machine) : Prop where
  sys : m'.sys = m.sys
  mem : ∀ x, ¬ Within x (m.reg .sp - 20) 20 → ¬ Within x d 8 → m'.mem x = m.mem x

/-- The same as a condition on memory and system registers. -/
private def Formatted (d : Word) (m : Machine) (μ : Mem) (s : Sys → Word) : Prop :=
  s = m.sys ∧ ∀ x, ¬ Within x (m.reg .sp - 20) 20 → ¬ Within x d 8 → μ x = m.mem x

/-- A frame in use apart from the digits survives the loop. -/
theorem Active.hexAt {K : Mem → (Sys → Word) → Prop} {a t d w : Word} {ws : List Word} {rs : List Reg}
    {v : Reg → Word} {m m' : Machine} {val tmp dst tbl cnt : Reg} (hm : Active K a ws rs v m)
    (hx : HexAt val tmp dst tbl cnt t d w 8 m m') (hrs : ∀ r ∈ Reg.sp :: rs, r ∉ [val, tmp, dst, cnt])
    (hl : 4 * ws.length ≤ 2 ^ 32) (hws : Apart a (4 * ws.length) d 8)
    (hK : ∀ μ, (∀ x, ¬ Within x d 8 → μ x = m.mem x) → K μ m.sys) : Active K a ws rs v m' := by
  constructor
  · rw [hx.keep .sp (hrs .sp (by simp))]
    exact hm.sp_eq
  · intro r hr
    rw [hx.keep r (hrs r (by simp [hr]))]
    exact hm.regs r hr
  · apply hm.saved.congr hl
    intro x hx'
    exact hx.digitsOnly.mem x (hws x hx')
  · rw [hx.sys]
    exact hK _ hx.digitsOnly.mem

/-- The machine at the loop. -/
private def hexEntry (t d : Word) (m : Machine) : Machine :=
  (Op.mov .r7 (.imm 8)).exec ((Op.ldrc .r6 t).exec ((Op.ldrc .r5 d).exec ((Op.mov .r4 (.reg .r0)).exec
    ((Op.push [.r4, .r5, .r6, .r7, .lr]).exec m))))

private theorem hexEntry_regs (t d : Word) (m : Machine) :
    (hexEntry t d m).reg .r5 = d ∧ (hexEntry t d m).reg .r6 = t ∧ (hexEntry t d m).reg .r7 = 8 := by
  simp [hexEntry, Op.exec, Op2.eval, Machine.reg_set]

section

variable {t d : Word} {m : Machine} {f l : L} {k : List (Line L)}

/-- The frame of the subroutine. -/
private theorem active_hexPush (halign : align (m.reg .sp - 20) = m.reg .sp - 20) (hroom : 20 ≤ (m.reg .sp).toNat) :
    Active (Formatted d m) (m.reg .sp - 20) ([.r4, .r5, .r6, .r7, .lr].map m.reg) [.r8, .r9, .r10, .r11] m.reg
      ((Op.push [.r4, .r5, .r6, .r7, .lr]).exec m) := by
  have hsp : (m.reg .sp).toNat < 2 ^ 32 := (m.reg .sp).isLt
  have hlow : m.reg .sp - BitVec.ofNat 32 (wordBytes [.r4, .r5, .r6, .r7, .lr]) = m.reg .sp - 20 := by simp
  have h0 : Active (Formatted d m) (m.reg .sp) [] [.r8, .r9, .r10, .r11] m.reg m :=
    ⟨rfl, fun _ _ => rfl, trivial, rfl, fun _ _ _ => rfl⟩
  rw [← List.append_nil (List.map _ _)]
  apply h0.push hlow halign (by decide) (by simpa using hroom) (by simp; omega)
  intro μ hμ
  exact ⟨rfl, fun x hx _ => hμ x hx⟩

/-- The entry runs to the loop. -/
private theorem hexEntry_along (hentry : p.codeAt f = formatHex f t d ++ p.codeAt l)
    (halign : align (m.reg .sp - 20) = m.reg .sp - 20) (hroom : 20 ≤ (m.reg .sp).toNat)
    (hW : ∀ m', Formatted d m m'.mem m'.sys → W m')
    (h : Active (Formatted d m) (m.reg .sp - 20) ([.r4, .r5, .r6, .r7, .lr].map m.reg) [.r8, .r9, .r10, .r11] m.reg
        (hexEntry t d m) → wpAlong p env (AllAlong W) (p.codeAt l) (hexEntry t d m) Q) :
    wpAlong p env (AllAlong W) (p.codeAt f) m Q := by
  have h1 := active_hexPush (d := d) halign hroom
  have h2 := h1.exec (o := .mov .r4 (.reg .r0)) rfl (by decide)
  have h3 := h2.exec (o := .ldrc .r5 d) rfl (by decide)
  have h4 := h3.exec (o := .ldrc .r6 t) rfl (by decide)
  have h5 := h4.exec (o := .mov .r7 (.imm 8)) rfl (by decide)
  rw [hentry]
  apply wpAlong_label
  apply wpAlong_op fun l => grows_all _ l (hW m ⟨rfl, fun _ _ _ => rfl⟩)
  apply wpAlong_op fun l => grows_all _ l (hW _ h1.inv)
  apply wpAlong_op fun l => grows_all _ l (hW _ h2.inv)
  apply wpAlong_op fun l => grows_all _ l (hW _ h3.inv)
  apply wpAlong_op fun l => grows_all _ l (hW _ h4.inv)
  exact h h5

/-- The subroutine returns to its caller with `sp` and `r4`-`r11` unchanged; it has written its stack frame and the
digits. -/
theorem formatHex_along (hentry : p.codeAt f = formatHex f t d ++ p.codeAt l)
    (hloop : p.codeAt l = hexLoop l .r4 .r0 .r5 .r6 .r7 ++ .popPc [.r4, .r5, .r6, .r7] :: k)
    (htable : Apart t 16 d 8) (hstack : Apart (m.reg .sp - 20) 20 d 8)
    (halign : align (m.reg .sp - 20) = m.reg .sp - 20) (hroom : 20 ≤ (m.reg .sp).toNat)
    (hW : ∀ m', FormatsOnly d m m' → W m')
    (h : ∀ m', FormatsOnly d m m' →
      (∀ r ∈ [Reg.sp, .r4, .r5, .r6, .r7, .r8, .r9, .r10, .r11], m'.reg r = m.reg r) → Q ⟨.pop, m.reg .lr⟩ m') :
    wpAlong p env (AllAlong W) (p.codeAt f) m Q := by
  have hK : ∀ m', Formatted d m m'.mem m'.sys → W m' := fun m' hm' => hW m' ⟨hm'.1, hm'.2⟩
  have hhigh : m.reg .sp - 20 + BitVec.ofNat 32 (wordBytes [.r4, .r5, .r6, .r7] + 4) = m.reg .sp := by simp
  apply hexEntry_along hentry halign hroom hK
  intro h5
  obtain ⟨hd, ht, h8⟩ := hexEntry_regs t d m
  have hdigits : ∀ μ, (∀ x, ¬ Within x d 8 → μ x = (hexEntry t d m).mem x) →
      Formatted d m μ (hexEntry t d m).sys := by
    intro μ hμ
    refine ⟨h5.inv.1, ?_⟩
    intro x hx hx'
    rw [hμ x hx', h5.inv.2 x hx hx']
  apply hexLoop_along hloop (by decide) (by rwa [ht, hd]) h8 grows_all
  · intro m' hm'
    rw [hd] at hm'
    apply hK
    rw [hm'.sys]
    exact hdigits _ hm'.mem
  · intro m6 hx
    rw [ht, hd] at hx
    have h6 : Active (Formatted d m) (m.reg .sp - 20) ([.r4, .r5, .r6, .r7].map m.reg ++ m.reg .lr :: [])
        [.r8, .r9, .r10, .r11] m.reg m6 := h5.hexAt hx (by decide) (by simp) (by simpa using hstack) hdigits
    have hpop : Active (Formatted d m) (m.reg .sp) [] [.r4, .r5, .r6, .r7, .r8, .r9, .r10, .r11] m.reg
        (m6.popped [.r4, .r5, .r6, .r7]) := h6.popped halign (by decide) hhigh (by simp)
    apply wpAlong_popPc (hK m6 h6.inv)
    rw [h6.load_return halign]
    apply h _ ⟨hpop.inv.1, hpop.inv.2⟩
    intro r hr
    rcases List.mem_cons.mp hr with rfl | hr
    · exact hpop.sp_eq
    · exact hpop.regs r hr

end

/-- A frame in use when the subroutine is called survives it. -/
theorem Active.formats {K : Mem → (Sys → Word) → Prop} {a d : Word} {ws : List Word} {rs : List Reg} {v : Reg → Word}
    {m m' : Machine} (hm : Active K a ws rs v m) (hf : FormatsOnly d m m')
    (hregs : ∀ r ∈ [Reg.sp, .r4, .r5, .r6, .r7, .r8, .r9, .r10, .r11], m'.reg r = m.reg r)
    (hrs : ∀ r ∈ rs, r ∈ [Reg.sp, .r4, .r5, .r6, .r7, .r8, .r9, .r10, .r11]) (hl : 4 * ws.length + 20 ≤ 2 ^ 32)
    (hws : Apart a (4 * ws.length) d 8) (hK : K m'.mem m'.sys) : Active K a ws rs v m' := by
  refine ⟨?_, ?_, ?_, hK⟩
  · rw [hregs .sp (by simp)]
    exact hm.sp_eq
  · intro r hr
    rw [hregs r (hrs r hr)]
    exact hm.regs r hr
  · apply hm.saved.congr (by omega)
    intro x hx
    refine hf.mem x ?_ (hws x hx)
    rw [hm.sp_eq]
    simp only [Within] at hx ⊢
    bv_omega

end Arm
