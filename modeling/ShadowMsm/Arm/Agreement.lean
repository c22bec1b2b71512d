import ShadowMsm.Arm.Footprint

/-!
# Runs that agree

Two machines agree off some registers (and perhaps the flags) and a set of addresses when everything else in them is the
same.  An instruction that reads none of these keeps the agreement, and what it writes is the same in both machines from
then on.  So a listing that reads none of them runs alike from both machines (`Program.run_agree`): it leaves in the same
way, with the same accesses, and the machines agree again.
-/

namespace Arm

/-- What an instruction can read or write besides memory. -/
inductive Loc
  | reg (r : Reg)
  | flags
  deriving DecidableEq, Repr

def Op2.reads : Op2 → List Loc
  | .imm _ => []
  | .reg r | .lsl r _ | .lsr r _ => [.reg r]

def Cond.reads : Cond → List Loc
  | .al => []
  | _ => [.flags]

def Op.reads : Op → List Loc
  | .mov _ o | .mvn _ o => o.reads
  | .alu _ _ rn o | .adds _ rn o | .subs _ rn o | .cmp rn o => .reg rn :: o.reads
  | .tst rn o => .flags :: .reg rn :: o.reads
  | .ldrc _ _ | .mrc _ _ | .maint _ _ => []
  | .ldr _ rn _ | .ldrh _ rn _ | .ldrb _ rn _ | .ldrbPost _ rn _ => [.reg rn]
  | .ldrbR _ rn rm => [.reg rn, .reg rm]
  | .str rd rn _ | .strPost rd rn _ | .strb rd rn _ | .strbPost rd rn _ => [.reg rd, .reg rn]
  | .strbR rd rn rm => [.reg rd, .reg rn, .reg rm]
  | .push rs => .reg .sp :: rs.map .reg
  | .pop _ => [.reg .sp]
  | .mrs _ => [.flags]
  | .msrC rn | .mcr rn _ => [.reg rn]

def Op.sets : Op → List Loc
  | .mov rd _ | .mvn rd _ | .alu _ rd _ _ | .ldrc rd _ | .ldr rd _ _ | .ldrh rd _ _ | .ldrb rd _ _ | .ldrbR rd _ _ |
    .mrs rd | .mrc rd _ => [.reg rd]
  | .adds rd _ _ | .subs rd _ _ => [.reg rd, .flags]
  | .cmp _ _ | .tst _ _ => [.flags]
  | .ldrbPost rd rn _ => [.reg rd, .reg rn]
  | .strPost _ rn _ | .strbPost _ rn _ => [.reg rn]
  | .push _ => [.reg .sp]
  | .pop rs => .reg .sp :: rs.map .reg
  | .str _ _ _ | .strb _ _ _ | .strbR _ _ _ | .msrC _ | .mcr _ _ | .maint _ _ => []

def Instr.reads {L : Type} : Instr L → List Loc
  | .op c o => c.reads ++ o.reads
  | .b c _ => c.reads
  | .bAbs _ | .bl _ | .call _ => []
  | .blx r | .bx r => [.reg r]
  | .popPc _ => [.reg .sp]

def Line.reads {L : Type} : Line L → List Loc
  | .label _ => []
  | .instr i => i.reads

/-! ### Agreement -/

/-- Two memories hold the same bytes outside a set of addresses. -/
def SameOff (S : Word → Prop) (μ ν : Mem) : Prop := ∀ x, ¬ S x → μ x = ν x

/-- Two machines differ at most in the places of `D` and in the bytes of `S`. -/
structure Agree (D : List Loc) (S : Word → Prop) (m m' : Machine) : Prop where
  reg : ∀ r, .reg r ∉ D → m.reg r = m'.reg r
  flags : .flags ∉ D → m.flags = m'.flags
  ctl : m.ctl = m'.ctl
  sys : m.sys = m'.sys
  mem : SameOff S m.mem m'.mem

/-- The same access; a callee is given the same but for `D` and `S`. -/
def SameAccess (D : List Loc) (S : Word → Prop) : Access → Access → Prop
  | .load a n, .load b k => a = b ∧ n = k
  | .store a n, .store b k => a = b ∧ n = k
  | .call t reg μ, .call u reg' ν => t = u ∧ (∀ r, .reg r ∉ D → reg r = reg' r) ∧ SameOff S μ ν
  | _, _ => False

/-- The machines agree off `D`, and the accesses so far have been the same, with callees given the same off `C`. -/
structure Alike (C D : List Loc) (S : Word → Prop) (m m' : Machine) : Prop where
  agree : Agree D S m m'
  log : List.Forall₂ (SameAccess C S) m.log m'.log

/-- `m'` is `m` with other values in the places of `D` and the accesses `l` made since. -/
structure Changed (D : List Loc) (l : List Access) (m m' : Machine) : Prop where
  agree : Agree D (fun _ => False) m m'
  log : m'.log = m.log ++ l

/-- An access that learns nothing of `S`: no byte of it is loaded, and a callee is one of `T`. -/
def Access.Clear (T S : Word → Prop) : Access → Prop
  | .load a n => ∀ x, Within x a n → ¬ S x
  | .store _ _ => True
  | .call t _ _ => T t

section memory

variable {S : Word → Prop} {μ ν : Mem} {a : Word}

theorem SameOff.sameOn (h : SameOff S μ ν) {n : Nat} (hS : ∀ x, Within x a n → ¬ S x) : SameOn μ ν a n :=
  fun x hx => h x (hS x hx)

theorem SameOff.store8 (h : SameOff S μ ν) (a : Word) (b : BitVec 8) : SameOff S (store8 μ a b) (store8 ν a b) := by
  intro x hx
  by_cases hxa : x = a
  · rw [hxa, store8_same, store8_same]
  · rw [store8_ne hxa, store8_ne hxa]
    exact h x hx

theorem SameOff.store32 (h : SameOff S μ ν) (a v : Word) : SameOff S (store32 μ a v) (store32 ν a v) :=
  (((h.store8 _ _).store8 _ _).store8 _ _).store8 _ _

theorem SameOff.storeWords (h : SameOff S μ ν) (vs : List Word) : SameOff S (storeWords μ a vs) (storeWords ν a vs) := by
  induction vs generalizing μ ν a with
  | nil => exact h
  | cons v vs ih => exact ih (h.store32 a v)

end memory

section agree

variable {C C' D D' : List Loc} {S T : Word → Prop} {m m' m'' : Machine}

theorem Agree.symm (h : Agree D S m m') : Agree D S m' m :=
  ⟨fun r hr => (h.reg r hr).symm, fun hf => (h.flags hf).symm, h.ctl.symm, h.sys.symm, fun x hx => (h.mem x hx).symm⟩

theorem Agree.trans (h : Agree D S m m') (h' : Agree D S m' m'') : Agree D S m m'' :=
  ⟨fun r hr => (h.reg r hr).trans (h'.reg r hr), fun hf => (h.flags hf).trans (h'.flags hf), h.ctl.trans h'.ctl,
    h.sys.trans h'.sys, fun x hx => (h.mem x hx).trans (h'.mem x hx)⟩

theorem Agree.mono (h : Agree D S m m') (hD : ∀ l ∈ D, l ∈ D') : Agree D' S m m' :=
  ⟨fun r hr => h.reg r fun hm => hr (hD _ hm), fun hf => h.flags fun hm => hf (hD _ hm), h.ctl, h.sys, h.mem⟩

/-- A register found to be the same need not be left out. -/
theorem Agree.known {r : Reg} (h : Agree (.reg r :: D) S m m') (hr : m.reg r = m'.reg r) : Agree D S m m' := by
  refine ⟨fun s hs => ?_, fun hf => h.flags (by simpa using hf), h.ctl, h.sys, h.mem⟩
  by_cases hsr : s = r
  · rw [hsr, hr]
  · exact h.reg s (by simp [hsr, hs])

theorem Alike.known {r : Reg} (h : Alike C (.reg r :: D) S m m') (hr : m.reg r = m'.reg r) : Alike C D S m m' :=
  ⟨h.agree.known hr, h.log⟩

theorem SameAccess.refl (D : List Loc) (S : Word → Prop) (a : Access) : SameAccess D S a a := by
  cases a with
  | load | store => exact ⟨rfl, rfl⟩
  | call => exact ⟨rfl, fun _ _ => rfl, fun _ _ => rfl⟩

theorem SameAccess.mono {a b : Access} (h : SameAccess D S a b) (hD : ∀ l ∈ D, l ∈ D') : SameAccess D' S a b := by
  cases a <;> cases b <;> first | exact h | skip
  exact ⟨h.1, fun r hr => h.2.1 r fun hm => hr (hD _ hm), h.2.2⟩

theorem SameAccess.isCall {a b : Access} (h : SameAccess D S a b) : a.isCall = b.isCall := by
  cases a <;> cases b <;> first | rfl | exact h.elim

theorem Alike.mono (h : Alike C D S m m') (hC : ∀ l ∈ C, l ∈ C') (hD : ∀ l ∈ D, l ∈ D') : Alike C' D' S m m' :=
  ⟨h.agree.mono hD, h.log.imp fun _ _ hab => hab.mono hC⟩

/-- The calls are alike when the accesses are. -/
theorem Alike.calls (h : Alike C D S m m') :
    List.Forall₂ (SameAccess C S) (m.log.filter Access.isCall) (m'.log.filter Access.isCall) := by
  have filter : ∀ {l l' : List Access}, List.Forall₂ (SameAccess C S) l l' →
      List.Forall₂ (SameAccess C S) (l.filter Access.isCall) (l'.filter Access.isCall) := by
    intro l l' hl
    induction hl with
    | nil => exact .nil
    | @cons a b l l' hab _ ih =>
      cases ha : a.isCall with
      | true =>
        rw [List.filter_cons_of_pos ha, List.filter_cons_of_pos (hab.isCall ▸ ha)]
        exact .cons hab ih
      | false =>
        rw [List.filter_cons_of_neg (by simp [ha]), List.filter_cons_of_neg (by simp [← hab.isCall, ha])]
        exact ih
  exact filter h.log

/-- Two machines that agree, each changed in the same places. -/
theorem Alike.changed {M M' : Machine} {l : List Access} (h : Alike C D S m m') (hM : Changed D' l m M)
    (hM' : Changed D' l m' M') : Alike C (D ++ D') S M M' := by
  have weaken : ∀ {m M : Machine}, Changed D' l m M → Agree (D ++ D') S m M := fun hc =>
    ⟨fun r hr => hc.agree.reg r fun hm => hr (List.mem_append_right _ hm),
      fun hf => hc.agree.flags fun hm => hf (List.mem_append_right _ hm), hc.agree.ctl, hc.agree.sys,
      fun x _ => hc.agree.mem x not_false⟩
  constructor
  · exact ((weaken hM).symm.trans (h.agree.mono fun _ hl => List.mem_append_left _ hl)).trans (weaken hM')
  · rw [hM.log, hM'.log]
    exact List.rel_append h.log (List.forall₂_same.mpr fun a _ => SameAccess.refl C S a)

/-! ### One instruction -/

theorem Agree.set (h : Agree D S m m') (r : Reg) {v w : Word} (hv : v = w) :
    Agree (D.filter (· ≠ .reg r)) S (m.set r v) (m'.set r w) := by
  refine ⟨fun s hs => ?_, fun hf => h.flags (by simpa using hf), h.ctl, h.sys, h.mem⟩
  rw [Machine.reg_set, Machine.reg_set]
  by_cases hsr : s = r
  · rw [if_pos hsr, if_pos hsr, hv]
  · rw [if_neg hsr, if_neg hsr]
    exact h.reg s (by simpa [hsr] using hs)

theorem Agree.set_mono (h : Agree D S m m') (r : Reg) {v w : Word} (hv : v = w) : Agree D S (m.set r v) (m'.set r w) :=
  (h.set r hv).mono fun _ hl => (List.mem_filter.mp hl).1

theorem Agree.setFlags (h : Agree D S m m') {f g : Flags} (hf : f = g) :
    Agree (D.filter (· ≠ .flags)) S (m.setFlags f) (m'.setFlags g) :=
  ⟨fun r hr => h.reg r (by simpa using hr), fun _ => hf, h.ctl, h.sys, h.mem⟩

theorem Agree.setMem (h : Agree D S m m') {μ ν : Mem} (hμ : SameOff S μ ν) : Agree D S (m.setMem μ) (m'.setMem ν) :=
  ⟨h.reg, h.flags, h.ctl, h.sys, hμ⟩

theorem Agree.touch (h : Agree D S m m') (a b : Access) : Agree D S (m.touch a) (m'.touch b) :=
  ⟨h.reg, h.flags, h.ctl, h.sys, h.mem⟩

theorem Agree.eval (h : Agree D S m m') {o : Op2} (ho : ∀ l ∈ o.reads, l ∉ D) : o.eval m = o.eval m' := by
  cases o with
  | imm => rfl
  | reg r => exact h.reg r (ho _ (by simp [Op2.reads]))
  | lsl r k | lsr r k => simp only [Op2.eval, h.reg r (ho _ (by simp [Op2.reads]))]

theorem Agree.holds (h : Agree D S m m') {c : Cond} (hc : ∀ l ∈ c.reads, l ∉ D) :
    c.holds m.flags = c.holds m'.flags := by
  cases c with
  | al => rfl
  | _ => rw [h.flags (hc _ (by simp [Cond.reads]))]

theorem Agree.load32 (h : Agree D S m m') {a : Word} (ha : ∀ x, Within x a 4 → ¬ S x) :
    load32 m.mem a = Arm.load32 m'.mem a :=
  (h.mem.sameOn ha).load32

theorem Agree.load16 (h : Agree D S m m') {a : Word} (ha : ∀ x, Within x a 2 → ¬ S x) :
    load16 m.mem a = Arm.load16 m'.mem a :=
  (h.mem.sameOn ha).load16

theorem Agree.loadByte (h : Agree D S m m') {a : Word} (ha : ∀ x, Within x a 1 → ¬ S x) : m.mem a = m'.mem a :=
  h.mem a (ha a (within_self (by omega)))

theorem Agree.popInto (h : Agree D S m m') (a : Word) (rs : List Reg) (ha : ∀ x, Within x a (wordBytes rs) → ¬ S x) :
    Agree (D.filter (· ∉ rs.map Loc.reg)) S (popInto m a rs) (Arm.popInto m' a rs) := by
  induction rs generalizing m m' a D with
  | nil => exact h.mono fun l hl => by simpa using hl
  | cons r rs ih =>
    have hword : ∀ x, Within x a 4 → ¬ S x := by
      intro x hx
      apply ha
      simp only [Within, wordBytes_cons] at hx ⊢
      omega
    have hrest : ∀ x, Within x (a + 4) (wordBytes rs) → ¬ S x := by
      intro x hx
      by_cases hw : Within x a 4
      · exact hword x hw
      · apply ha
        simp only [Within, wordBytes_cons] at hx hw ⊢
        bv_omega
    refine (ih (h.set r (h.load32 hword)) _ hrest).mono fun l hl => ?_
    simp only [List.mem_filter, decide_eq_true_eq, List.map_cons, List.mem_cons, not_or] at hl ⊢
    exact ⟨hl.1.1, hl.1.2, hl.2⟩

/-- The accesses of one instruction. -/
def Op.accesses (m : Machine) : Op → List Access
  | .ldr _ rn off => [.load (align (m.reg rn + off)) 4]
  | .ldrh _ rn off => [.load ((m.reg rn + off) &&& 0xFFFFFFFE) 2]
  | .ldrb _ rn off => [.load (m.reg rn + off) 1]
  | .ldrbR _ rn rm => [.load (m.reg rn + m.reg rm) 1]
  | .ldrbPost _ rn _ => [.load (m.reg rn) 1]
  | .str _ rn off => [.store (align (m.reg rn + off)) 4]
  | .strPost _ rn _ => [.store (align (m.reg rn)) 4]
  | .strb _ rn off => [.store (m.reg rn + off) 1]
  | .strbR _ rn rm => [.store (m.reg rn + m.reg rm) 1]
  | .strbPost _ rn _ => [.store (m.reg rn) 1]
  | .push rs => [.store (align (m.reg .sp - BitVec.ofNat 32 (wordBytes rs))) (wordBytes rs)]
  | .pop rs => [.load (align (m.reg .sp)) (wordBytes rs)]
  | _ => []

theorem Op.log_exec (m : Machine) (o : Op) : (o.exec m).log = m.log ++ o.accesses m := by
  cases o with
  | pop rs => simp [Op.exec, Op.accesses, log_popInto]
  | ldr | ldrh | ldrb | ldrbR | ldrbPost | str | strPost | strb | strbR | strbPost | push => rfl
  | _ => exact (List.append_nil _).symm

theorem Agree.accesses (h : Agree D S m m') {o : Op} (ho : ∀ l ∈ o.reads, l ∉ D) : o.accesses m = o.accesses m' := by
  have reg : ∀ r, .reg r ∈ o.reads → m.reg r = m'.reg r := fun r hr => h.reg r (ho _ hr)
  cases o with
  | ldr rd rn | ldrh rd rn | ldrb rd rn | ldrbPost rd rn | str rd rn | strPost rd rn | strb rd rn | strbPost rd rn =>
    simp only [Op.accesses, reg rn (by simp [Op.reads])]
  | ldrbR rd rn rm | strbR rd rn rm =>
    simp only [Op.accesses, reg rn (by simp [Op.reads]), reg rm (by simp [Op.reads])]
  | push | pop => simp only [Op.accesses, reg .sp (by simp [Op.reads])]
  | _ => rfl

/-- One instruction: it takes the places it writes out of those the machines differ in. -/
theorem Agree.exec (h : Agree D S m m') {o : Op} (ho : ∀ l ∈ o.reads, l ∉ D)
    (hS : ∀ a ∈ o.accesses m, a.Clear T S) : Agree (D.filter (· ∉ o.sets)) S (o.exec m) (o.exec m') := by
  have reg : ∀ r, .reg r ∈ o.reads → m.reg r = m'.reg r := fun r hr => h.reg r (ho _ hr)
  have eval : ∀ x : Op2, (∀ l ∈ x.reads, l ∈ o.reads) → x.eval m = x.eval m' := fun x hx =>
    h.eval fun l hl => ho l (hx l hl)
  have same : o.sets = [] → Agree D S (o.exec m) (o.exec m') → Agree (D.filter (· ∉ o.sets)) S (o.exec m) (o.exec m') :=
    fun hw hag => hag.mono fun l hl => by simpa [hw] using hl
  cases o with
  | mov rd x | mvn rd x =>
    exact (h.set rd (by rw [eval x fun _ hl => hl])).mono fun l hl => by simpa [Op.sets] using hl
  | alu f rd rn x =>
    refine (h.set rd ?_).mono fun l hl => by simpa [Op.sets] using hl
    rw [reg rn (by simp [Op.reads]), eval x fun _ hl => List.mem_cons_of_mem _ hl]
  | adds rd rn x | subs rd rn x =>
    have hn := reg rn (by simp [Op.reads])
    have hx := eval x fun _ hl => List.mem_cons_of_mem _ hl
    refine ((h.set rd (by rw [hn, hx])).setFlags (by rw [hn, hx])).mono fun l hl => ?_
    simp only [List.mem_filter, decide_eq_true_eq, Op.sets, List.mem_cons, List.not_mem_nil, or_false, not_or] at hl ⊢
    exact ⟨hl.1.1, hl.1.2, hl.2⟩
  | cmp rn x =>
    refine (h.setFlags ?_).mono fun l hl => by simpa [Op.sets] using hl
    rw [reg rn (by simp [Op.reads]), eval x fun _ hl => List.mem_cons_of_mem _ hl]
  | tst rn x =>
    refine (h.setFlags ?_).mono fun l hl => by simpa [Op.sets] using hl
    rw [reg rn (by simp [Op.reads]), eval x fun _ hl => List.mem_cons_of_mem _ (List.mem_cons_of_mem _ hl),
      h.flags (ho _ (by simp [Op.reads]))]
  | ldrc rd w => exact (h.set rd rfl).mono fun l hl => by simpa [Op.sets] using hl
  | mrc rd s => exact (h.set rd (by rw [h.sys])).mono fun l hl => by simpa [Op.sets] using hl
  | mrs rd =>
    refine (h.set rd ?_).mono fun l hl => by simpa [Op.sets] using hl
    rw [Machine.cpsr, Machine.cpsr, h.flags (ho _ (by simp [Op.reads])), h.ctl]
  | ldr rd rn off =>
    have hn := reg rn (by simp [Op.reads])
    have hload : m.loadWord (m.reg rn + off) = m'.loadWord (m'.reg rn + off) := by
      rw [Machine.loadWord, Machine.loadWord, ← hn, h.load32 (hS (.load _ 4) (by simp [Op.accesses]))]
    exact ((h.set rd hload).touch _ _).mono fun l hl => by simpa [Op.sets] using hl
  | ldrh rd rn off =>
    refine ((h.set rd ?_).touch _ _).mono fun l hl => by simpa [Op.sets] using hl
    rw [← reg rn (by simp [Op.reads]), h.load16 (hS (.load _ 2) (by simp [Op.accesses]))]
  | ldrb rd rn off =>
    refine ((h.set rd ?_).touch _ _).mono fun l hl => by simpa [Op.sets] using hl
    rw [← reg rn (by simp [Op.reads]), h.loadByte (hS (.load _ 1) (by simp [Op.accesses]))]
  | ldrbR rd rn rm =>
    refine ((h.set rd ?_).touch _ _).mono fun l hl => by simpa [Op.sets] using hl
    rw [← reg rn (by simp [Op.reads]), ← reg rm (by simp [Op.reads]),
      h.loadByte (hS (.load _ 1) (by simp [Op.accesses]))]
  | ldrbPost rd rn k =>
    have hn := reg rn (by simp [Op.reads])
    refine (((h.set rn (by rw [hn])).set rd ?_).touch _ _).mono fun l hl => ?_
    · rw [← hn, h.loadByte (hS (.load _ 1) (by simp [Op.accesses]))]
    · simp only [List.mem_filter, decide_eq_true_eq, Op.sets, List.mem_cons, List.not_mem_nil, or_false, not_or] at hl ⊢
      exact ⟨hl.1.1, hl.2, hl.1.2⟩
  | str rd rn off =>
    refine same rfl ((h.setMem ?_).touch _ _)
    rw [reg rd (by simp [Op.reads]), reg rn (by simp [Op.reads])]
    exact h.mem.store32 _ _
  | strb rd rn off =>
    refine same rfl ((h.setMem ?_).touch _ _)
    rw [reg rd (by simp [Op.reads]), reg rn (by simp [Op.reads])]
    exact h.mem.store8 _ _
  | strbR rd rn rm =>
    refine same rfl ((h.setMem ?_).touch _ _)
    rw [reg rd (by simp [Op.reads]), reg rn (by simp [Op.reads]), reg rm (by simp [Op.reads])]
    exact h.mem.store8 _ _
  | strPost rd rn k =>
    have hd := reg rd (by simp [Op.reads])
    have hn := reg rn (by simp [Op.reads])
    refine (((h.setMem ?_).set rn (by rw [hn])).touch _ _).mono fun l hl => by simpa [Op.sets] using hl
    rw [hd, hn]
    exact h.mem.store32 _ _
  | strbPost rd rn k =>
    have hd := reg rd (by simp [Op.reads])
    have hn := reg rn (by simp [Op.reads])
    refine (((h.setMem ?_).set rn (by rw [hn])).touch _ _).mono fun l hl => by simpa [Op.sets] using hl
    rw [hd, hn]
    exact h.mem.store8 _ _
  | push rs =>
    have hsp := reg .sp (by simp [Op.reads])
    have hrs : rs.map m.reg = rs.map m'.reg :=
      List.map_congr_left fun r hr => reg r (by simp [Op.reads, hr])
    refine (((h.setMem ?_).set .sp (by rw [hsp])).touch _ _).mono fun l hl => by simpa [Op.sets] using hl
    rw [hsp, hrs]
    exact h.mem.storeWords _
  | pop rs =>
    have hsp := reg .sp (by simp [Op.reads])
    have hpop := h.popInto (align (m.reg .sp)) rs (hS (.load _ _) (by simp [Op.accesses]))
    have hset := (hpop.set .sp (v := m.reg .sp + BitVec.ofNat 32 (wordBytes rs)) rfl).touch
      (.load (align (m.reg .sp)) (wordBytes rs)) (.load (align (m.reg .sp)) (wordBytes rs))
    simp only [Op.exec, ← hsp]
    refine hset.mono fun l hl => ?_
    simp only [List.mem_filter, decide_eq_true_eq, Op.sets, List.mem_cons, not_or] at hl ⊢
    exact ⟨hl.1.1, hl.2, hl.1.2⟩
  | msrC rn =>
    refine same rfl ⟨h.reg, h.flags, ?_, h.sys, h.mem⟩
    simp only [Op.exec, Machine.ctl_setCtl, h.ctl, reg rn (by simp [Op.reads])]
  | mcr rn s =>
    refine same rfl ⟨h.reg, h.flags, h.ctl, ?_, h.mem⟩
    simp only [Op.exec, Machine.setSys, h.sys, reg rn (by simp [Op.reads])]
  | maint rn x => exact same rfl h

/-- One instruction, with its accesses. -/
theorem Alike.exec (h : Alike C D S m m') {o : Op} (ho : ∀ l ∈ o.reads, l ∉ D)
    (hS : ∀ a ∈ o.accesses m, a.Clear T S) (hD : ∀ l ∈ D, l ∉ o.sets → l ∈ D') :
    Alike C D' S (o.exec m) (o.exec m') := by
  constructor
  · apply (h.agree.exec ho hS).mono
    intro l hl
    obtain ⟨hl, hw⟩ := List.mem_filter.mp hl
    exact hD l hl (by simpa using hw)
  · rw [o.log_exec, o.log_exec, h.agree.accesses ho]
    exact List.rel_append h.log (List.forall₂_same.mpr fun a _ => SameAccess.refl C S a)

/-- A call of a routine that the differences do not reach. -/
theorem Alike.callOut (h : Alike D D S m m') {env : Word → Machine → Machine} {t : Word}
    (henv : ∀ m m', Agree D S m m' → Agree D S (env t m) (env t m')) (ret : Word) :
    Alike D D S (m.callOut env t ret) (m'.callOut env t ret) := by
  have hset := h.agree.set_mono .lr (rfl : ret = ret)
  have hcalled := henv _ _ (hset.touch (.call t (m.set .lr ret).reg m.mem) (.call t (m'.set .lr ret).reg m'.mem))
  constructor
  · exact ⟨hcalled.reg, hcalled.flags, hcalled.ctl, hcalled.sys, hcalled.mem⟩
  · rw [Machine.log_callOut, Machine.log_callOut]
    exact List.rel_append h.log (.cons ⟨rfl, hset.reg, h.agree.mem⟩ .nil)

end agree

/-! ### Whole runs -/

section run

variable {L : Type} [DecidableEq L] {p : Program L} {env : Word → Machine → Machine} {D : List Loc}
  {S T : Word → Prop} {K : List (Line L) → Prop}

/-- The log of a run goes on from the log before it. -/
theorem Program.run_log {n : Nat} {k : List (Line L)} {m m' : Machine} {e : Exit}
    (h : p.run env n k m = some (e, m')) : ∃ l, m'.log = m.log ++ l := by
  obtain ⟨l, hl⟩ : m.log <+: m'.log := Program.run_rel (R := fun m m' => m.log <+: m'.log)
    (fun m => List.prefix_refl _) (fun h h' => h.trans h') (fun m o => ⟨_, (o.log_exec m).symm⟩)
    (fun m v => List.prefix_refl _) (fun m t r => ⟨_, (Machine.log_callOut m env t r).symm⟩)
    (fun m rs => ⟨_, (m.log_popped rs).symm⟩) h
  exact ⟨l, hl.symm⟩

/-- The places of `K` are left only for places of `K`, and nothing in them reads `D`. -/
structure Program.Ignores (p : Program L) (D : List Loc) (K : List (Line L) → Prop) : Prop where
  tail : ∀ {x k}, K (x :: k) → K k
  reads : ∀ {i k}, K (.instr i :: k) → ∀ l ∈ i.reads, l ∉ D
  branch : ∀ {c l k}, K (.instr (.b c l) :: k) → K (p.codeAt l)
  link : ∀ {l k}, K (.instr (.bl l) :: k) → K (p.codeAt l)

/-- Where nothing is left out, nothing that is left out is read. -/
theorem Program.ignores_nil (p : Program L) : p.Ignores [] fun _ => True where
  tail _ := trivial
  reads _ _ _ := List.not_mem_nil
  branch _ := trivial
  link _ := trivial

/-- A loop and what follows it, if the loop is all that is branched to. -/
theorem Program.ignores_suffix {l₀ : L} (hreads : ∀ x ∈ p.codeAt l₀, ∀ l ∈ x.reads, l ∉ D)
    (hbranch : ∀ c l, .instr (.b c l) ∈ p.codeAt l₀ → l = l₀) (hlink : ∀ l, .instr (.bl l) ∉ p.codeAt l₀) :
    p.Ignores D (· <:+ p.codeAt l₀) where
  tail h := (List.suffix_cons _ _).trans h
  reads h := hreads _ (h.subset List.mem_cons_self)
  branch h := by
    rw [hbranch _ _ (h.subset List.mem_cons_self)]
  link h := absurd (h.subset List.mem_cons_self) (hlink _)

/-- What is logged up to a place of a run that learns nothing of `S` is clear, and so is what is logged from there on. -/
private theorem clear_split {m m₁ M : Machine} (hclear : ∀ l, M.log = m.log ++ l → ∀ a ∈ l, a.Clear T S)
    (hfirst : ∃ l, m₁.log = m.log ++ l) (hrest : ∃ l, M.log = m₁.log ++ l) :
    (∀ l, m₁.log = m.log ++ l → ∀ a ∈ l, a.Clear T S) ∧ ∀ l, M.log = m₁.log ++ l → ∀ a ∈ l, a.Clear T S := by
  obtain ⟨l₁, h₁⟩ := hfirst
  obtain ⟨l₂, h₂⟩ := hrest
  have hall := hclear (l₁ ++ l₂) (by rw [h₂, h₁, List.append_assoc])
  constructor
  · intro l hl a ha
    rw [h₁] at hl
    exact hall a (by simp [List.append_cancel_left hl, ha])
  · intro l hl a ha
    rw [h₂] at hl
    exact hall a (by simp [List.append_cancel_left hl, ha])

/-- A return from the stack, if the words on it are not in `S`. -/
theorem Alike.popped (hm : Alike D D S m m') (hsp : m.reg .sp = m'.reg .sp) {rs : List Reg}
    (hspan : ∀ x, Within x (align (m.reg .sp)) (wordBytes rs + 4) → ¬ S x) :
    load32 m.mem (align (m.reg .sp) + BitVec.ofNat 32 (wordBytes rs)) =
        load32 m'.mem (align (m.reg .sp) + BitVec.ofNat 32 (wordBytes rs)) ∧
      Alike D D S (m.popped rs) (m'.popped rs) := by
  constructor
  · apply hm.agree.load32
    intro x hx
    refine hspan x ?_
    simp only [Within] at hx ⊢
    bv_omega
  constructor
  · have hpop := hm.agree.popInto (align (m.reg .sp)) rs fun x hx => hspan x (by
      simp only [Within] at hx ⊢
      omega)
    rw [Machine.popped, Machine.popped, ← hsp]
    exact ((hpop.mono fun l hl => (List.mem_filter.mp hl).1).set_mono .sp rfl).touch _ _
  · rw [Machine.log_popped, Machine.log_popped, hsp]
    exact List.rel_append hm.log (.cons ⟨rfl, rfl⟩ .nil)

/-- Two machines alike run alike through places that do not read what they differ in, if nothing is learnt of `S`. -/
theorem Program.run_agree (hK : p.Ignores D K)
    (henv : ∀ t m m', T t → Agree D S m m' → Agree D S (env t m) (env t m')) {n : Nat} {k : List (Line L)}
    {m M m' : Machine} {e : Exit} (h : p.run env n k m = some (e, M)) (hk : K k) (hm : Alike D D S m m')
    (hclear : ∀ l, M.log = m.log ++ l → ∀ a ∈ l, a.Clear T S) :
    ∃ M', p.run env n k m' = some (e, M') ∧ Alike D D S M M' := by
  induction n generalizing k m M m' e with
  | zero => simp [run] at h
  | succ n ih =>
    rcases k with - | ⟨(_ | i), k⟩
    · simp [run] at h
    · exact ih h (hK.tail hk) hm hclear
    · have hreads := hK.reads hk
      cases i with
      | op c o =>
        have hc : c.holds m.flags = c.holds m'.flags :=
          hm.agree.holds fun l hl => hreads l (List.mem_append_left _ hl)
        rw [run] at h
        rw [run, ← hc]
        split at h
        · obtain ⟨h₁, h₂⟩ := clear_split hclear ⟨_, o.log_exec m⟩ (run_log h)
          rename_i hcond
          rw [if_pos hcond]
          refine ih h (hK.tail hk) (hm.exec (fun l hl => hreads l (List.mem_append_right _ hl)) (h₁ _ (o.log_exec m))
            fun l hl _ => hl) h₂
        · rename_i hcond
          rw [if_neg hcond]
          exact ih h (hK.tail hk) hm hclear
      | b c l =>
        have hc : c.holds m.flags = c.holds m'.flags := hm.agree.holds hreads
        rw [run] at h
        rw [run, ← hc]
        split at h
        · rename_i hcond
          rw [if_pos hcond]
          exact ih h (hK.branch hk) hm hclear
        · rename_i hcond
          rw [if_neg hcond]
          exact ih h (hK.tail hk) hm hclear
      | bAbs a =>
        cases h
        exact ⟨m', rfl, hm⟩
      | bl l =>
        rw [run] at h
        cases hr : run p env n (p.codeAt l) (m.set .lr (p.addr k)) with
        | none => simp [hr] at h
        | some q =>
          obtain ⟨e', q⟩ := q
          simp only [hr] at h
          have hlink : Alike D D S (m.set .lr (p.addr k)) (m'.set .lr (p.addr k)) :=
            ⟨hm.agree.set_mono .lr rfl, hm.log⟩
          -- the subroutine returns to the next line, or leaves the listing for good
          split at h
          · rename_i he
            obtain ⟨h₁, h₂⟩ := clear_split hclear (by simpa using run_log hr) (run_log h)
            obtain ⟨q', hq', hqq⟩ := ih hr (hK.link hk) hlink h₁
            obtain ⟨M', hM', hMM⟩ := ih h (hK.tail hk) hqq h₂
            refine ⟨M', ?_, hMM⟩
            rw [run, hq']
            simpa only [he, if_true] using hM'
          · rename_i he
            cases h
            obtain ⟨q', hq', hqq⟩ := ih hr (hK.link hk) hlink hclear
            refine ⟨q', ?_, hqq⟩
            rw [run, hq']
            simp only [he, if_false]
      | call a =>
        -- the target of a call is in the log, so `T` is known of it
        have hlog := Machine.log_callOut m env a (p.addr k)
        obtain ⟨h₁, h₂⟩ := clear_split hclear ⟨_, hlog⟩ (run_log h)
        have ht : T a := h₁ _ hlog _ (List.mem_singleton_self _)
        exact ih h (hK.tail hk) (hm.callOut (fun _ _ hag => henv a _ _ ht hag) _) h₂
      | blx r =>
        have hlog := Machine.log_callOut m env (m.reg r) (p.addr k)
        obtain ⟨h₁, h₂⟩ := clear_split hclear ⟨_, hlog⟩ (run_log h)
        have ht : T (m.reg r) := h₁ _ hlog _ (List.mem_singleton_self _)
        have hr : m.reg r = m'.reg r := hm.agree.reg r (hreads _ (by simp [Instr.reads]))
        rw [run, ← hr]
        exact ih h (hK.tail hk) (hm.callOut (fun _ _ hag => henv _ _ _ ht hag) _) h₂
      | bx r =>
        cases h
        have hr : m.reg r = m'.reg r := hm.agree.reg r (hreads _ (by simp [Instr.reads]))
        exact ⟨m', by rw [run, hr], hm⟩
      | popPc rs =>
        cases h
        have hsp : m.reg .sp = m'.reg .sp := hm.agree.reg .sp (hreads _ (by simp [Instr.reads]))
        have hspan : ∀ x, Within x (align (m.reg .sp)) (wordBytes rs + 4) → ¬ S x :=
          hclear _ (m.log_popped rs) _ (List.mem_singleton_self _)
        obtain ⟨htop, hpopped⟩ := hm.popped hsp hspan
        exact ⟨m'.popped rs, by rw [run, htop, hsp]; rfl, hpopped⟩

/-- Wherever a run from `m` ends that learns nothing of `S`, the run from a machine alike ends alike. -/
theorem wp_agree (hK : p.Ignores D K) (henv : ∀ t m m', T t → Agree D S m m' → Agree D S (env t m) (env t m'))
    {k : List (Line L)} (hk : K k) {m : Machine} {Q : Exit → Machine → Prop}
    (h : wp p env k m fun e M => Q e M ∧ ∀ l, M.log = m.log ++ l → ∀ a ∈ l, a.Clear T S) :
    wp p env k m fun e M => Q e M ∧ ∀ m', Alike D D S m m' →
      wp p env k m' fun e' M' => e' = e ∧ Alike D D S M M' := by
  obtain ⟨n, ⟨e, M⟩, hrun, hQ, hclear⟩ := h
  refine ⟨n, (e, M), hrun, hQ, fun m' hm => ?_⟩
  obtain ⟨M', hrun', hMM⟩ := Program.run_agree hK henv hrun hk hm hclear
  exact ⟨n, (e, M'), hrun', rfl, hMM⟩

end run

/-- Straight-line code logs after what is there. -/
theorem log_foldl_exec (ops : List Op) (m : Machine) : ∃ l, (ops.foldl Op.exec m).log = m.log ++ l := by
  induction ops generalizing m with
  | nil => exact ⟨[], (List.append_nil _).symm⟩
  | cons o ops ih =>
    obtain ⟨l, hl⟩ := ih (o.exec m)
    exact ⟨o.accesses m ++ l, by rw [List.foldl_cons, hl, o.log_exec, List.append_assoc]⟩

end Arm
