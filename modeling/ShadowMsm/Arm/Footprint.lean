import ShadowMsm.Arm.Wp

/-!
# Footprints

What a run leaves in the log, and what follows for memory: a byte that no logged store covers, and that the routines
called leave alone, keeps its value.
-/

namespace Arm

/-- The span `[a, a + n)` lies in `[b, b + k)`. -/
def Inside (a : Word) (n : Nat) (b : Word) (k : Nat) : Prop := (a - b).toNat + n ≤ k

instance (a : Word) (n : Nat) (b : Word) (k : Nat) : Decidable (Inside a n b k) := inferInstanceAs (Decidable (_ ≤ _))

theorem Inside.within {a b x : Word} {n k : Nat} (h : Inside a n b k) (hx : Within x a n) : Within x b k := by
  simp only [Inside, Within] at h hx ⊢
  bv_omega

theorem inside_self (a : Word) (n : Nat) : Inside a n a n := by simp [Inside]

theorem inside_of_within {a b : Word} {k : Nat} (h : Within a b k) : Inside a 1 b k := h

theorem Apart.symm {a b : Word} {n k : Nat} (h : Apart a n b k) : Apart b k a n := fun x hb ha => h x ha hb

theorem Apart.mono {a b a' b' : Word} {n k n' k' : Nat} (h : Apart a n b k) (ha : Inside a' n' a n)
    (hb : Inside b' k' b k) : Apart a' n' b' k' :=
  fun _ hx hy => h _ (ha.within hx) (hb.within hy)

/-- Two spans apart in the order of addresses, without wrapping around. -/
theorem apart_of_le {a b : Word} {n k : Nat} (h : a.toNat + n ≤ b.toNat) (hk : b.toNat + k ≤ 2 ^ 32) :
    Apart a n b k := fun x hx hy => by
  simp only [Within] at hx hy
  bv_omega

/-! ### Alignment -/

/-- Clearing the low `k` bits. -/
private theorem toNat_and_mask (a mask : Word) (k : Nat) (hmask : ∀ i : Fin 32, mask.getLsbD i = decide (k ≤ i.val)) :
    (a &&& mask).toNat = a.toNat / 2 ^ k * 2 ^ k := by
  have : a &&& mask = (a >>> k) <<< k := by
    apply BitVec.eq_of_getLsbD_eq
    intro i hi
    rw [BitVec.getLsbD_and, hmask ⟨i, hi⟩, BitVec.getLsbD_shiftLeft, BitVec.getLsbD_ushiftRight]
    by_cases hk : i < k
    · simp [hk]
    · simp [hk, hi, show k ≤ i by omega, show k + (i - k) = i by omega]
  have hle : a.toNat / 2 ^ k * 2 ^ k ≤ a.toNat := Nat.div_mul_le_self _ _
  rw [this, BitVec.toNat_shiftLeft, BitVec.toNat_ushiftRight, Nat.shiftLeft_eq, Nat.shiftRight_eq_div_pow,
    Nat.mod_eq_of_lt (by omega)]

theorem toNat_align (a : Word) : (align a).toNat = a.toNat / 4 * 4 :=
  toNat_and_mask a 0xFFFFFFFC 2 (by decide)

theorem toNat_alignHalf (a : Word) : (a &&& 0xFFFFFFFE).toNat = a.toNat / 2 * 2 :=
  toNat_and_mask a 0xFFFFFFFE 1 (by decide)

/-- A word access at an offset of at least 3 stays within what follows the base, whatever the alignment. -/
theorem inside_align {a : Word} {off : Word} {k : Nat} (h3 : 3 ≤ off.toNat) (hk : off.toNat + 4 ≤ k) (h32 : k ≤ 2 ^ 32) :
    Inside (align (a + off)) 4 a k := by
  have := toNat_align (a + off)
  simp only [Inside]
  bv_omega

theorem inside_alignHalf {a : Word} {off : Word} {k : Nat} (h1 : 1 ≤ off.toNat) (hk : off.toNat + 2 ≤ k)
    (h32 : k ≤ 2 ^ 32) : Inside ((a + off) &&& 0xFFFFFFFE) 2 a k := by
  have := toNat_alignHalf (a + off)
  simp only [Inside]
  bv_omega

theorem inside_byte {a : Word} {off : Word} {k : Nat} (hk : off.toNat < k) : Inside (a + off) 1 a k := by
  simp only [Inside]
  bv_omega

theorem align_of_dvd {a : Word} (h : 4 ∣ a.toNat) : align a = a := by
  apply BitVec.eq_of_toNat_eq
  rw [toNat_align]
  omega

theorem and_three_eq_zero {a : Word} : a &&& 3 = 0 ↔ 4 ∣ a.toNat := by
  have h : (a &&& 3).toNat = a.toNat % 4 := by
    rw [BitVec.toNat_and, show (3 : Word).toNat = 2 ^ 2 - 1 by rfl, Nat.and_two_pow_sub_one_eq_mod]
  constructor
  · intro h0
    rw [h0] at h
    exact Nat.dvd_of_mod_eq_zero h.symm
  · intro h4
    apply BitVec.eq_of_toNat_eq
    rw [h, Nat.mod_eq_zero_of_dvd h4]
    rfl

/-- An address with the low two bits clear is loaded as it is. -/
theorem Machine.loadWord_of_dvd {m : Machine} {a : Word} (h : 4 ∣ a.toNat) : m.loadWord a = load32 m.mem a := by
  have h3 : a &&& 3 = 0 := and_three_eq_zero.mpr h
  rw [loadWord, align_of_dvd h, h3]
  simp [BitVec.rotateRight, BitVec.rotateRightAux]

/-! ### Logs -/

def Access.isCall : Access → Bool
  | .call _ _ _ => true
  | _ => false

/-- The access is a store that covers `x`. -/
def Access.stores (x : Word) : Access → Prop
  | .store a n => Within x a n
  | _ => False

/-- From `m` to `m'` every access satisfies `A`, and the calls are `C`. -/
def Logs (A : Access → Prop) (m m' : Machine) (C : List Access) : Prop :=
  ∃ l, m'.log = m.log ++ l ∧ (∀ a ∈ l, A a) ∧ l.filter Access.isCall = C

section logs

variable {A B : Access → Prop} {m m' m'' : Machine} {C D : List Access}

theorem Logs.refl (A : Access → Prop) (m : Machine) : Logs A m m [] := ⟨[], by simp, by simp, rfl⟩

theorem Logs.trans (h : Logs A m m' C) (h' : Logs A m' m'' D) : Logs A m m'' (C ++ D) := by
  obtain ⟨l, hl, ha, hc⟩ := h
  obtain ⟨l', hl', ha', hc'⟩ := h'
  refine ⟨l ++ l', by rw [hl', hl, List.append_assoc], fun a h => ?_, by rw [List.filter_append, hc, hc']⟩
  rcases List.mem_append.mp h with h | h
  · exact ha a h
  · exact ha' a h

theorem Logs.mono (h : Logs A m m' C) (hAB : ∀ a, A a → B a) : Logs B m m' C := by
  obtain ⟨l, hl, ha, hc⟩ := h
  exact ⟨l, hl, fun a h => hAB a (ha a h), hc⟩

/-- One more access that is not a call. -/
theorem Logs.touch {a : Access} (h : Logs A m m' C) (ha : A a) (hc : a.isCall = false) :
    Logs A m (m'.touch a) C := by
  have h' : Logs A m' (m'.touch a) [] := ⟨[a], rfl, by simpa using ha, by simp [hc]⟩
  have := h.trans h'
  simpa using this

end logs

/-! ### What a run does to the machine -/

/-- The machine that a `pop` with the program counter leaves behind. -/
def Machine.popped (m : Machine) (rs : List Reg) : Machine :=
  ((popInto m (align (m.reg .sp)) rs).set .sp (m.reg .sp + BitVec.ofNat 32 (wordBytes rs + 4))).touch
    (.load (align (m.reg .sp)) (wordBytes rs + 4))

/-- What every instruction and every call does to the machine, and what can be chained, holds of whole runs. -/
theorem Program.run_rel {L : Type} [DecidableEq L] {p : Program L} {env : Word → Machine → Machine}
    {R : Machine → Machine → Prop} (refl : ∀ m, R m m) (trans : ∀ {m m' m''}, R m m' → R m' m'' → R m m'')
    (op : ∀ m (o : Op), R m (o.exec m)) (link : ∀ m v, R m (m.set .lr v)) (call : ∀ m t r, R m (m.callOut env t r))
    (pop : ∀ m rs, R m (m.popped rs)) {n : Nat} {k : List (Line L)} {m m' : Machine} {e : Exit}
    (h : p.run env n k m = some (e, m')) : R m m' := by
  induction n generalizing k m m' e with
  | zero => simp [run] at h
  | succ n ih =>
    rcases k with - | ⟨(_ | i), k⟩
    · simp [run] at h
    · exact ih h
    · cases i with
      | op c o =>
        refine trans ?_ (ih h)
        split
        · exact op m o
        · exact refl m
      | b c l =>
        rw [run] at h
        split at h
        · exact ih h
        · exact ih h
      | bAbs a =>
        cases h
        exact refl m
      | bl l =>
        rw [run] at h
        cases hr : run p env n (p.codeAt l) (m.set .lr (p.addr k)) with
        | none => simp [hr] at h
        | some q =>
          obtain ⟨e', q⟩ := q
          have hq : R m q := trans (link m (p.addr k)) (ih hr)
          simp only [hr] at h
          split at h
          · exact trans hq (ih h)
          · cases h
            exact hq
      | call a => exact trans (call m _ _) (ih h)
      | blx r => exact trans (call m _ _) (ih h)
      | bx r =>
        cases h
        exact refl m
      | popPc rs =>
        cases h
        exact pop m rs

/-! ### Memory follows the log -/

section memory

variable {x : Word}

theorem storeWords_of_not_within {μ : Mem} {a : Word} {vs : List Word} (h : ¬ Within x a (4 * vs.length)) :
    storeWords μ a vs x = μ x := by
  induction vs generalizing μ a with
  | nil => rfl
  | cons v vs ih =>
    simp only [List.length_cons, Within] at h
    rw [storeWords, ih (by simp only [Within]; bv_omega), store32_of_not_within (by simp only [Within]; omega)]

/-- The words written are there to be read. -/
theorem load32_storeWords {μ : Mem} {a : Word} {vs : List Word} (hl : 4 * vs.length ≤ 2 ^ 32) {i : Nat}
    (hi : i < vs.length) : load32 (storeWords μ a vs) (a + BitVec.ofNat 32 (4 * i)) = vs[i] := by
  induction vs generalizing μ a i with
  | nil => simp at hi
  | cons v vs ih =>
    simp only [List.length_cons] at hl hi
    cases i with
    | zero =>
      have : SameOn (storeWords (store32 μ a v) (a + 4) vs) (store32 μ a v) a 4 := fun x hx =>
        storeWords_of_not_within (by simp only [Within] at hx ⊢; bv_omega)
      simpa [storeWords, load32_store32] using this.load32
    | succ i =>
      have : a + BitVec.ofNat 32 (4 * (i + 1)) = a + 4 + BitVec.ofNat 32 (4 * i) := by bv_omega
      rw [storeWords, this, ih (by omega) (by omega)]
      rfl

theorem mem_popInto (m : Machine) (a : Word) (rs : List Reg) : (popInto m a rs).mem = m.mem := by
  induction rs generalizing m a with
  | nil => rfl
  | cons r rs ih => rw [popInto, ih]; rfl

theorem log_popInto (m : Machine) (a : Word) (rs : List Reg) : (popInto m a rs).log = m.log := by
  induction rs generalizing m a with
  | nil => rfl
  | cons r rs ih => rw [popInto, ih]; rfl

theorem Machine.log_popped (m : Machine) (rs : List Reg) :
    (m.popped rs).log = m.log ++ [.load (align (m.reg .sp)) (wordBytes rs + 4)] := by
  simp [Machine.popped, log_popInto]

/-- The log has grown, and a byte outside the new stores is what it was. -/
def Follows (x : Word) (m m' : Machine) : Prop :=
  ∃ l, m'.log = m.log ++ l ∧ ((∀ a ∈ l, ¬ a.stores x) → m'.mem x = m.mem x)

theorem Follows.refl (x : Word) (m : Machine) : Follows x m m := ⟨[], by simp, fun _ => rfl⟩

theorem Follows.trans {m m' m'' : Machine} (h : Follows x m m') (h' : Follows x m' m'') : Follows x m m'' := by
  obtain ⟨l, hl, hx⟩ := h
  obtain ⟨l', hl', hx'⟩ := h'
  refine ⟨l ++ l', by rw [hl', hl, List.append_assoc], fun h => ?_⟩
  rw [hx' fun a ha => h a (by simp [ha]), hx fun a ha => h a (by simp [ha])]

private theorem follows_quiet {m m' : Machine} (hlog : m'.log = m.log) (hmem : m'.mem = m.mem) : Follows x m m' :=
  ⟨[], by simp [hlog], fun _ => by rw [hmem]⟩

private theorem follows_load {m m' : Machine} {a : Word} {n : Nat} (hlog : m'.log = m.log ++ [.load a n])
    (hmem : m'.mem = m.mem) : Follows x m m' :=
  ⟨_, hlog, fun _ => by rw [hmem]⟩

private theorem follows_store {m m' : Machine} {a : Word} {n : Nat} (hlog : m'.log = m.log ++ [.store a n])
    (hmem : ¬ Within x a n → m'.mem x = m.mem x) : Follows x m m' :=
  ⟨_, hlog, fun h => hmem (h (.store a n) (by simp))⟩

private theorem store8_of_not_within {μ : Mem} {a : Word} {b : BitVec 8} (h : ¬ Within x a 1) :
    store8 μ a b x = μ x :=
  store8_ne fun e => h (e ▸ within_self (by omega))

theorem Op.follows (m : Machine) (o : Op) : Follows x m (o.exec m) := by
  cases o with
  | ldr | ldrh | ldrb | ldrbR | ldrbPost => exact follows_load rfl rfl
  | pop rs =>
    refine follows_load (a := align (m.reg .sp)) (n := wordBytes rs) ?_ ?_
    · simp [Op.exec, log_popInto]
    · simp [Op.exec, mem_popInto]
  | str | strPost => exact follows_store rfl fun h => store32_of_not_within h
  | strb | strbR | strbPost => exact follows_store rfl fun h => store8_of_not_within h
  | push rs =>
    refine follows_store rfl fun h => storeWords_of_not_within ?_
    simpa [wordBytes] using h
  | _ => exact follows_quiet rfl rfl

/-- A byte that the routines called leave alone follows the log of the run. -/
theorem Program.run_follows {L : Type} [DecidableEq L] {p : Program L} {env : Word → Machine → Machine}
    (henv : ∀ t m, (env t m).mem x = m.mem x) {n : Nat} {k : List (Line L)} {m m' : Machine} {e : Exit}
    (h : p.run env n k m = some (e, m')) : Follows x m m' := by
  refine run_rel (Follows.refl x) Follows.trans Op.follows (fun m v => follows_quiet rfl rfl) (fun m t r => ?_)
    (fun m rs => ?_) h
  · exact ⟨_, Machine.log_callOut m env t r, fun _ => henv _ _⟩
  · refine follows_load (m.log_popped rs) ?_
    simp [Machine.popped, mem_popInto]

end memory

end Arm
