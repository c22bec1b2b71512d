import ShadowMsm.Arm.Footprint

/-!
# Stack frames

What a `push` leaves in memory and a `pop` of the same registers makes of it: as long as the words of the frame are
unchanged, every register of the list gets its value back and no other register changes.
-/

namespace Arm

/-- The consecutive words at `a`. -/
def Saved (μ : Mem) (a : Word) : List Word → Prop
  | [] => True
  | v :: vs => load32 μ a = v ∧ Saved μ (a + 4) vs

theorem saved_append {μ : Mem} {a : Word} {vs ws : List Word} :
    Saved μ a (vs ++ ws) ↔ Saved μ a vs ∧ Saved μ (a + BitVec.ofNat 32 (4 * vs.length)) ws := by
  induction vs generalizing a with
  | nil => simp [Saved]
  | cons v vs ih =>
    have hlen : a + 4 + BitVec.ofNat 32 (4 * vs.length) = a + BitVec.ofNat 32 (4 * (v :: vs).length) := by
      simp only [List.length_cons]
      bv_omega
    simp only [List.cons_append, Saved, ih, hlen, and_assoc]

/-- Only the bytes of the words count. -/
theorem Saved.congr {μ ν : Mem} {a : Word} {vs : List Word} (h : Saved ν a vs) (hl : 4 * vs.length ≤ 2 ^ 32)
    (hs : SameOn μ ν a (4 * vs.length)) : Saved μ a vs := by
  induction vs generalizing a with
  | nil => exact trivial
  | cons v vs ih =>
    simp only [List.length_cons] at hl hs
    obtain ⟨hv, hvs⟩ := h
    constructor
    · rw [← hv]
      apply SameOn.load32
      apply hs.mono
      intro x hx
      simp only [Within] at hx ⊢
      omega
    · apply ih hvs (by omega)
      apply hs.mono
      intro x hx
      simp only [Within] at hx ⊢
      bv_omega

theorem saved_storeWords {μ : Mem} {a : Word} {vs : List Word} (hl : 4 * vs.length ≤ 2 ^ 32) :
    Saved (storeWords μ a vs) a vs := by
  induction vs generalizing μ a with
  | nil => exact trivial
  | cons v vs ih =>
    simp only [List.length_cons] at hl
    constructor
    · -- the words behind do not reach back to the first one
      have hs : SameOn (storeWords (store32 μ a v) (a + 4) vs) (store32 μ a v) a 4 := by
        intro x hx
        apply storeWords_of_not_within
        simp only [Within] at hx ⊢
        bv_omega
      exact hs.load32.trans (load32_store32 μ a v)
    · exact ih (by omega)

theorem reg_popInto_of_notMem {m : Machine} {a : Word} {rs : List Reg} {r : Reg} (hr : r ∉ rs) :
    (popInto m a rs).reg r = m.reg r := by
  induction rs generalizing m a with
  | nil => rfl
  | cons s rs ih =>
    simp only [List.mem_cons, not_or] at hr
    rw [popInto, ih hr.2, Machine.reg_set, if_neg hr.1]

/-- A register of the list gets the word saved for it. -/
theorem reg_popInto_of_mem {m : Machine} {a : Word} {rs : List Reg} {f : Reg → Word} (hn : rs.Nodup)
    (h : Saved m.mem a (rs.map f)) {r : Reg} (hr : r ∈ rs) : (popInto m a rs).reg r = f r := by
  induction rs generalizing m a with
  | nil => simp at hr
  | cons s rs ih =>
    obtain ⟨hs, hn⟩ := List.nodup_cons.mp hn
    obtain ⟨hv, hvs⟩ := h
    rw [popInto]
    by_cases he : r = s
    · subst he
      rw [reg_popInto_of_notMem hs, Machine.reg_set, if_pos rfl, hv]
    · have hr' : r ∈ rs := by simpa [he] using hr
      exact ih (m := m.set s (load32 m.mem a)) hn hvs hr'

theorem Op.reg_pop_of_notMem {m : Machine} {rs : List Reg} {r : Reg} (hr : r ∉ rs) (hsp : r ≠ .sp) :
    ((Op.pop rs).exec m).reg r = m.reg r := by
  rw [Op.exec, Machine.reg_touch, Machine.reg_set, if_neg hsp, reg_popInto_of_notMem hr]

theorem Op.reg_pop_of_mem {m : Machine} {rs : List Reg} {f : Reg → Word} (hn : rs.Nodup) (hsp : .sp ∉ rs)
    (h : Saved m.mem (align (m.reg .sp)) (rs.map f)) {r : Reg} (hr : r ∈ rs) : ((Op.pop rs).exec m).reg r = f r := by
  have hne : r ≠ .sp := fun e => hsp (e ▸ hr)
  rw [Op.exec, Machine.reg_touch, Machine.reg_set, if_neg hne]
  exact reg_popInto_of_mem hn h hr

theorem sys_popInto (m : Machine) (a : Word) (rs : List Reg) : (popInto m a rs).sys = m.sys := by
  induction rs generalizing m a with
  | nil => rfl
  | cons s rs ih => rw [popInto, ih]; rfl

/-! ### Operations on registers -/

/-- The registers an operation writes, for the operations that touch neither memory nor the system registers. -/
def Op.writes : Op → Option (List Reg)
  | .mov rd _ | .mvn rd _ | .alu _ rd _ _ | .adds rd _ _ | .subs rd _ _ | .ldrc rd _ | .ldr rd _ _ | .ldrh rd _ _
  | .ldrb rd _ _ | .ldrbR rd _ _ | .mrs rd | .mrc rd _ => some [rd]
  | .ldrbPost rd rn _ => some [rd, rn]
  | .cmp _ _ | .tst _ _ | .msrC _ | .maint _ _ => some []
  | _ => none

theorem Op.reg_exec {o : Op} {rs : List Reg} (h : o.writes = some rs) {m : Machine} {r : Reg} (hr : r ∉ rs) :
    (o.exec m).reg r = m.reg r := by
  cases o
  all_goals first
    | (cases h; done)
    | (cases h
       simp only [List.mem_cons, List.not_mem_nil, or_false, not_or] at hr
       simp [Op.exec, Machine.reg_set, hr])

theorem Op.mem_exec {o : Op} {rs : List Reg} (h : o.writes = some rs) (m : Machine) : (o.exec m).mem = m.mem := by
  cases o
  all_goals first
    | (cases h; done)
    | rfl

theorem Op.sys_exec {o : Op} {rs : List Reg} (h : o.writes = some rs) (m : Machine) : (o.exec m).sys = m.sys := by
  cases o
  all_goals first
    | (cases h; done)
    | rfl

/-! ### Frames in use -/

/-- The stack pointer is `a`, the words from there to the top of the stack are `ws`, and the registers `rs` are `v`. -/
structure Active (K : Mem → (Sys → Word) → Prop) (a : Word) (ws : List Word) (rs : List Reg) (v : Reg → Word)
    (m : Machine) : Prop where
  sp_eq : m.reg .sp = a
  regs : ∀ r ∈ rs, m.reg r = v r
  saved : Saved m.mem a ws
  inv : K m.mem m.sys

section

variable {K : Mem → (Sys → Word) → Prop} {a : Word} {ws : List Word} {rs : List Reg} {v : Reg → Word} {m : Machine}

/-- An operation on other registers. -/
theorem Active.exec (hm : Active K a ws rs v m) {o : Op} {ds : List Reg} (ho : o.writes = some ds)
    (hd : ∀ r ∈ Reg.sp :: rs, r ∉ ds) : Active K a ws rs v (o.exec m) := by
  constructor
  · rw [Op.reg_exec ho (hd .sp (by simp))]
    exact hm.sp_eq
  · intro r hr
    rw [Op.reg_exec ho (hd r (by simp [hr]))]
    exact hm.regs r hr
  · rw [Op.mem_exec ho]
    exact hm.saved
  · rw [Op.mem_exec ho, Op.sys_exec ho]
    exact hm.inv

theorem Active.set (hm : Active K a ws rs v m) {r : Reg} (hsp : r ≠ .sp) (hr : r ∉ rs) (w : Word) :
    Active K a ws rs v (m.set r w) := by
  apply hm.exec (o := .ldrc r w) rfl
  intro s hs
  rw [List.mem_singleton]
  rintro rfl
  rcases List.mem_cons.mp hs with h | h
  · exact hsp h
  · exact hr h

/-- Fewer registers. -/
theorem Active.weaken (hm : Active K a ws rs v m) {rs' : List Reg} {w : Reg → Word}
    (h : ∀ r ∈ rs', r ∈ rs ∧ v r = w r) : Active K a ws rs' w m :=
  ⟨hm.sp_eq, fun r hr => (hm.regs r (h r hr).1).trans (h r hr).2, hm.saved, hm.inv⟩

/-- A `push` puts its registers in front of the words. -/
theorem Active.push (hm : Active K a ws rs v m) {ds : List Reg} {b : Word}
    (hb : a - BitVec.ofNat 32 (wordBytes ds) = b) (halign : align b = b) (hrs : .sp ∉ rs)
    (hroom : wordBytes ds ≤ a.toNat) (htop : a.toNat + 4 * ws.length ≤ 2 ^ 32)
    (hK : ∀ μ, (∀ x, ¬ Within x b (wordBytes ds) → μ x = m.mem x) → K μ m.sys) :
    Active K b (ds.map m.reg ++ ws) rs v ((Op.push ds).exec m) := by
  have hlen : 4 * (ds.map m.reg).length = wordBytes ds := by rw [List.length_map, wordBytes]
  have ha : b + BitVec.ofNat 32 (4 * (ds.map m.reg).length) = a := by
    rw [hlen, ← hb]
    exact BitVec.sub_add_cancel _ _
  have hout : ∀ x, ¬ Within x b (wordBytes ds) → storeWords m.mem b (ds.map m.reg) x = m.mem x := by
    intro x hx
    apply storeWords_of_not_within
    rwa [hlen]
  simp only [Op.exec, hm.sp_eq, hb, halign]
  constructor
  · rw [Machine.reg_touch, Machine.reg_set, if_pos rfl]
  · intro r hr
    rw [Machine.reg_touch, Machine.reg_set, if_neg (by rintro rfl; exact hrs hr)]
    exact hm.regs r hr
  · apply saved_append.mpr
    constructor
    · exact saved_storeWords (by omega)
    · rw [ha]
      apply hm.saved.congr (by omega)
      intro x hx
      apply hout
      simp only [Within] at hx ⊢
      bv_omega
  · exact hK _ hout

/-- The return address in a frame. -/
theorem Active.load_return {ds : List Reg} {f : Reg → Word} {u : Word} (hm : Active K a (ds.map f ++ u :: ws) rs v m)
    (halign : align a = a) : load32 m.mem (align (m.reg .sp) + BitVec.ofNat 32 (wordBytes ds)) = u := by
  have hsaved := (saved_append.mp hm.saved).2.1
  rw [List.length_map] at hsaved
  rw [hm.sp_eq, halign]
  exact hsaved

/-- The registers `ds` come from the first words of a frame, `us` more words go; the registers `rs'` are `w`. -/
private theorem Active.unwind {ds rs' : List Reg} {f w : Reg → Word} {us : List Word} {b : Word} {c : Access}
    (hm : Active K a (ds.map f ++ (us ++ ws)) rs v m) (hn : ds.Nodup)
    (hb : a + BitVec.ofNat 32 (4 * (ds.length + us.length)) = b)
    (hrs : ∀ r ∈ rs', r ≠ .sp ∧ (r ∈ ds ∧ f r = w r ∨ r ∉ ds ∧ r ∈ rs ∧ v r = w r)) :
    Active K b ws rs' w (((popInto m a ds).set .sp b).touch c) := by
  obtain ⟨hds, hrest⟩ := saved_append.mp hm.saved
  constructor
  · rw [Machine.reg_touch, Machine.reg_set, if_pos rfl]
  · intro r hr
    obtain ⟨hsp, ⟨hd, hw⟩ | ⟨hd, hr', hw⟩⟩ := hrs r hr
    · rw [Machine.reg_touch, Machine.reg_set, if_neg hsp, reg_popInto_of_mem hn hds hd, hw]
    · rw [Machine.reg_touch, Machine.reg_set, if_neg hsp, reg_popInto_of_notMem hd, hm.regs r hr', hw]
  · have hws := (saved_append.mp hrest).2
    rw [List.length_map, BitVec.add_assoc, ← BitVec.ofNat_add, ← Nat.mul_add, hb] at hws
    rw [Machine.mem_touch, Machine.mem_set, mem_popInto]
    exact hws
  · rw [Machine.mem_touch, Machine.mem_set, mem_popInto, Machine.sys_touch, Machine.sys_set, sys_popInto]
    exact hm.inv

theorem Active.pop {ds rs' : List Reg} {f w : Reg → Word} {b : Word} (hm : Active K a (ds.map f ++ ws) rs v m)
    (halign : align a = a) (hn : ds.Nodup) (hb : a + BitVec.ofNat 32 (wordBytes ds) = b)
    (hrs : ∀ r ∈ rs', r ≠ .sp ∧ (r ∈ ds ∧ f r = w r ∨ r ∉ ds ∧ r ∈ rs ∧ v r = w r)) :
    Active K b ws rs' w ((Op.pop ds).exec m) := by
  have hwords : Active K a (ds.map f ++ ([] ++ ws)) rs v m := hm
  rw [Op.exec, hm.sp_eq, halign, hb]
  exact hwords.unwind hn hb hrs

/-- A `pop` with the program counter takes the return address as well. -/
theorem Active.popped {ds rs' : List Reg} {f w : Reg → Word} {u b : Word} (hm : Active K a (ds.map f ++ u :: ws) rs v m)
    (halign : align a = a) (hn : ds.Nodup) (hb : a + BitVec.ofNat 32 (wordBytes ds + 4) = b)
    (hrs : ∀ r ∈ rs', r ≠ .sp ∧ (r ∈ ds ∧ f r = w r ∨ r ∉ ds ∧ r ∈ rs ∧ v r = w r)) :
    Active K b ws rs' w (m.popped ds) := by
  have hwords : Active K a (ds.map f ++ ([u] ++ ws)) rs v m := hm
  rw [Machine.popped, hm.sp_eq, halign, hb]
  exact hwords.unwind hn hb hrs

end

/-! ### Blocks that keep an invariant -/

section

variable {L : Type} [DecidableEq L]

/-- A line keeps `I`: whatever the rest of the code does from the machines that satisfy `I`, the line may be put in
front of it. -/
def Keeps (p : Program L) (env : Word → Machine → Machine) (I : Machine → Prop) (Q : Exit → Machine → Prop)
    (l : Line L) : Prop :=
  ∀ k m, I m → (∀ m', I m' → wp p env k m' Q) → wp p env (l :: k) m Q

variable {p : Program L} {env : Word → Machine → Machine} {I : Machine → Prop} {Q : Exit → Machine → Prop}

/-- The rule of a block: lines that keep an invariant, one after the other. -/
theorem wp_block {b k : List (Line L)} {m : Machine} (hb : ∀ l ∈ b, Keeps p env I Q l) (hm : I m)
    (h : ∀ m', I m' → wp p env k m' Q) : wp p env (b ++ k) m Q := by
  induction b generalizing m with
  | nil => exact h m hm
  | cons l b ih =>
    apply hb l (by simp) _ _ hm
    intro m' hm'
    exact ih (fun l' hl' => hb l' (List.mem_cons_of_mem _ hl')) hm'

theorem keeps_label {l : L} : Keeps p env I Q (.label l) := by
  intro k m hm h
  rw [wp_label]
  exact h m hm

theorem keeps_op {o : Op} (ho : ∀ m, I m → I (o.exec m)) : Keeps p env I Q (.instr (.op .al o)) := by
  intro k m hm h
  rw [wp_op_al]
  exact h _ (ho m hm)

/-- A branch, when the code at its label does well from every machine that satisfies the invariant. -/
theorem keeps_b {c : Cond} {l : L} (hl : ∀ m, I m → wp p env (p.codeAt l) m Q) :
    Keeps p env I Q (.instr (.b c l)) := by
  intro k m hm h
  rw [wp_b]
  split
  · exact hl m hm
  · exact h m hm

theorem keeps_call {a : Word} (ha : ∀ m ret, I m → I (m.callOut env a ret)) : Keeps p env I Q (.instr (.call a)) := by
  intro k m hm h
  rw [wp_call]
  exact h _ (ha m _ hm)

end

/-! ### Calling conventions -/

/-- The registers that a callee hands back unchanged. -/
def calleeSaves : List Reg := [.sp, .r4, .r5, .r6, .r7, .r8, .r9, .r10, .r11]

/-- Routines that leave nothing in the registers a callee may use. -/
def scratched : Word → Machine → Machine :=
  fun _ m => ((((m.set .r0 0).set .r1 0).set .r2 0).set .r3 0).set .r12 0

theorem reg_scratched (t : Word) (m : Machine) {r : Reg} (hr : r ∈ calleeSaves) : (scratched t m).reg r = m.reg r := by
  have hne : r ≠ .r0 ∧ r ≠ .r1 ∧ r ≠ .r2 ∧ r ≠ .r3 ∧ r ≠ .r12 := by
    revert hr
    cases r <;> decide
  simp [scratched, Machine.reg_set, hne]

/-- The registers that a program with a stack of its own pushes first. -/
def entrySaves : List Reg := [.r4, .r5, .r6, .r7, .r8, .r9, .r10, .r11, .lr]

/-- What it has pushed: the caller's `sp` below these registers. -/
def entryWords (m₀ : Machine) : List Word := m₀.reg .sp :: entrySaves.map m₀.reg

@[simp] theorem length_entryWords (m₀ : Machine) : (entryWords m₀).length = 10 := rfl

end Arm
