import Mathlib.Data.BitVec
import Mathlib.Logic.Function.Basic

/-!
# A 32-bit ARM machine

The state of an ARMv5 core as its code sees it: general registers, condition flags, the control bits of the CPSR, the
CP15 registers, and a flat byte memory, together with the log of the memory accesses and calls made so far.

Accesses follow the pre-ARMv6 rules: a word load from an unaligned address reads the aligned word and rotates it, a
word store and a block transfer ignore the low two address bits.
-/

namespace Arm

abbrev Word := BitVec 32

abbrev Mem := Word → BitVec 8

inductive Reg
  | r0 | r1 | r2 | r3 | r4 | r5 | r6 | r7 | r8 | r9 | r10 | r11 | r12 | sp | lr
  deriving DecidableEq, Repr

/-- The system control registers. -/
inductive Sys
  | midr | ctr | tcmtr | sctlr | ttbr | dacr | dfsr | ifsr | far
  deriving DecidableEq, Repr

structure Flags where
  n : Bool
  z : Bool
  c : Bool
  v : Bool
  deriving DecidableEq, Repr

/-- What running code does outside its registers.  A call records what the callee is given. -/
inductive Access
  | load (a : Word) (n : Nat)
  | store (a : Word) (n : Nat)
  | call (target : Word) (reg : Reg → Word) (mem : Mem)

structure Machine where
  reg : Reg → Word
  flags : Flags
  /-- The CPSR without its four flags: only the low 28 bits count. -/
  ctl : Word
  sys : Sys → Word
  mem : Mem
  log : List Access

/-! ### Memory -/

/-- The address with its low two bits cleared. -/
def align (a : Word) : Word := a &&& 0xFFFFFFFC

def load16 (μ : Mem) (a : Word) : BitVec 16 := μ (a + 1) ++ μ a

def load32 (μ : Mem) (a : Word) : Word := μ (a + 3) ++ μ (a + 2) ++ μ (a + 1) ++ μ a

def store8 (μ : Mem) (a : Word) (b : BitVec 8) : Mem := Function.update μ a b

def store32 (μ : Mem) (a : Word) (v : Word) : Mem :=
  store8 (store8 (store8 (store8 μ a (v.setWidth 8)) (a + 1) ((v >>> 8).setWidth 8))
    (a + 2) ((v >>> 16).setWidth 8)) (a + 3) ((v >>> 24).setWidth 8)

/-- The words of a list at consecutive word addresses. -/
def storeWords (μ : Mem) (a : Word) : List Word → Mem
  | [] => μ
  | v :: vs => storeWords (store32 μ a v) (a + 4) vs

def storeBytes (μ : Mem) (a : Word) : List (BitVec 8) → Mem
  | [] => μ
  | b :: bs => storeBytes (store8 μ a b) (a + 1) bs

/-- The `n` bytes from `a` on. -/
def bytesAt (μ : Mem) (a : Word) : Nat → List (BitVec 8)
  | 0 => []
  | n + 1 => μ a :: bytesAt μ (a + 1) n

/-- `a` is one of the `n` addresses from `base` on. -/
def Within (a base : Word) (n : Nat) : Prop := (a - base).toNat < n

instance (a base : Word) (n : Nat) : Decidable (Within a base n) := inferInstanceAs (Decidable (_ < _))

/-- No address is in both spans. -/
def Apart (a : Word) (n : Nat) (b : Word) (k : Nat) : Prop := ∀ x, Within x a n → ¬ Within x b k

/-- Two memories hold the same bytes on a span. -/
def SameOn (μ ν : Mem) (a : Word) (n : Nat) : Prop := ∀ x, Within x a n → μ x = ν x

theorem store8_same (μ : Mem) (a : Word) (b : BitVec 8) : store8 μ a b a = b := by
  simp [store8]

theorem store8_ne {μ : Mem} {a x : Word} {b : BitVec 8} (h : x ≠ a) : store8 μ a b x = μ x := by
  simp [store8, h]

theorem within_self {a : Word} {n : Nat} (h : 0 < n) : Within a a n := by
  simpa [Within] using h

theorem within_add {a : Word} {i n : Nat} (h : i < n) (hn : n ≤ 2 ^ 32) : Within (a + BitVec.ofNat 32 i) a n := by
  simp only [Within]
  have : a + BitVec.ofNat 32 i - a = BitVec.ofNat 32 i := by bv_omega
  rw [this, BitVec.toNat_ofNat]
  omega

theorem store32_of_not_within {μ : Mem} {a x v : Word} (h : ¬ Within x a 4) : store32 μ a v x = μ x := by
  have h0 : x ≠ a := fun e => h (by simp [Within, e])
  have h1 : x ≠ a + 1 := fun e => h (by rw [e]; simp only [Within]; bv_omega)
  have h2 : x ≠ a + 2 := fun e => h (by rw [e]; simp only [Within]; bv_omega)
  have h3 : x ≠ a + 3 := fun e => h (by rw [e]; simp only [Within]; bv_omega)
  rw [store32, store8_ne h3, store8_ne h2, store8_ne h1, store8_ne h0]

theorem toNat_append_bytes (b₃ b₂ b₁ b₀ : BitVec 8) :
    (b₃ ++ b₂ ++ b₁ ++ b₀ : Word).toNat = b₀.toNat + 2 ^ 8 * b₁.toNat + 2 ^ 16 * b₂.toNat + 2 ^ 24 * b₃.toNat := by
  simp only [BitVec.toNat_append]
  rw [← Nat.shiftLeft_add_eq_or_of_lt (by omega), ← Nat.shiftLeft_add_eq_or_of_lt (by omega),
    ← Nat.shiftLeft_add_eq_or_of_lt (by omega)]
  simp only [Nat.shiftLeft_eq]
  omega

theorem load32_store32 (μ : Mem) (a v : Word) : load32 (store32 μ a v) a = v := by
  have h10 : a + 1 ≠ a := by bv_omega
  have h20 : a + 2 ≠ a := by bv_omega
  have h30 : a + 3 ≠ a := by bv_omega
  have h21 : a + 2 ≠ a + 1 := by bv_omega
  have h31 : a + 3 ≠ a + 1 := by bv_omega
  have h32 : a + 3 ≠ a + 2 := by bv_omega
  simp only [load32, store32, store8_same, store8_ne h10.symm, store8_ne h20.symm, store8_ne h30.symm,
    store8_ne h21.symm, store8_ne h31.symm, store8_ne h32.symm]
  ext i hi
  simp only [← BitVec.getLsbD_eq_getElem, BitVec.getLsbD_append, BitVec.getLsbD_setWidth,
    BitVec.getLsbD_ushiftRight]
  by_cases h8 : i < 8
  · simp [h8]
  by_cases h16 : i < 16
  · simp [h8, show i - 8 < 8 by omega, show 8 + (i - 8) = i by omega]
  by_cases h24 : i < 24
  · simp [h8, show ¬ i - 8 < 8 by omega, show i - 8 - 8 < 8 by omega, show 16 + (i - 8 - 8) = i by omega]
  · simp [h8, show ¬ i - 8 < 8 by omega, show ¬ i - 8 - 8 < 8 by omega, show i - 8 - 8 - 8 < 8 by omega,
      show 24 + (i - 8 - 8 - 8) = i by omega]

theorem SameOn.refl (μ : Mem) (a : Word) (n : Nat) : SameOn μ μ a n := fun _ _ => rfl

theorem SameOn.trans {μ ν ρ : Mem} {a : Word} {n : Nat} (h : SameOn μ ν a n) (h' : SameOn ν ρ a n) :
    SameOn μ ρ a n :=
  fun x hx => (h x hx).trans (h' x hx)

/-- A span within a span. -/
theorem SameOn.mono {μ ν : Mem} {a b : Word} {n k : Nat} (h : SameOn μ ν a n)
    (hsub : ∀ x, Within x b k → Within x a n) : SameOn μ ν b k :=
  fun x hx => h x (hsub x hx)

theorem SameOn.load32 {μ ν : Mem} {a : Word} (h : SameOn μ ν a 4) : load32 μ a = Arm.load32 ν a := by
  have h0 := h a (within_self (by omega))
  have h1 := h (a + 1) (by simp only [Within]; bv_omega)
  have h2 := h (a + 2) (by simp only [Within]; bv_omega)
  have h3 := h (a + 3) (by simp only [Within]; bv_omega)
  simp only [Arm.load32, h0, h1, h2, h3]

theorem SameOn.load16 {μ ν : Mem} {a : Word} (h : SameOn μ ν a 2) : load16 μ a = Arm.load16 ν a := by
  have h0 := h a (within_self (by omega))
  have h1 := h (a + 1) (by simp only [Within]; bv_omega)
  simp only [Arm.load16, h0, h1]

/-- A store to one span keeps another one. -/
theorem sameOn_store8 {μ : Mem} {a b : Word} {v : BitVec 8} {n : Nat} (h : ¬ Within b a n) :
    SameOn (store8 μ b v) μ a n :=
  fun _ hx => store8_ne fun e => h (e ▸ hx)

theorem sameOn_store32 {μ : Mem} {a b v : Word} {n : Nat} (h : Apart a n b 4) :
    SameOn (store32 μ b v) μ a n :=
  fun x hx => store32_of_not_within (h x hx)

theorem storeBytes_concat (μ : Mem) (a : Word) (bs : List (BitVec 8)) (b : BitVec 8) :
    storeBytes μ a (bs ++ [b]) = store8 (storeBytes μ a bs) (a + BitVec.ofNat 32 bs.length) b := by
  induction bs generalizing μ a with
  | nil => simp [storeBytes]
  | cons c bs ih =>
    have : a + 1 + BitVec.ofNat 32 bs.length = a + BitVec.ofNat 32 (bs.length + 1) := by
      rw [BitVec.ofNat_add]; ac_rfl
    simp only [List.cons_append, storeBytes, ih, List.length_cons, this]

theorem storeBytes_of_not_within {μ : Mem} {a x : Word} {bs : List (BitVec 8)} (hl : bs.length ≤ 2 ^ 32)
    (h : ¬ Within x a bs.length) : storeBytes μ a bs x = μ x := by
  induction bs generalizing μ a with
  | nil => rfl
  | cons b bs ih =>
    simp only [List.length_cons, Within] at hl h
    rw [storeBytes, ih (by omega) (by simp only [Within]; bv_omega), store8_ne]
    rintro rfl
    simp at h

theorem sameOn_storeBytes {μ : Mem} {a b : Word} {bs : List (BitVec 8)} {n : Nat} (hl : bs.length ≤ 2 ^ 32)
    (h : Apart a n b bs.length) : SameOn (storeBytes μ b bs) μ a n :=
  fun x hx => storeBytes_of_not_within hl (h x hx)

/-- The bytes written are there to be read. -/
theorem storeBytes_get {μ : Mem} {a : Word} {bs : List (BitVec 8)} (hl : bs.length ≤ 2 ^ 32) {i : Nat}
    (hi : i < bs.length) : storeBytes μ a bs (a + BitVec.ofNat 32 i) = bs[i] := by
  induction bs generalizing μ a i with
  | nil => simp at hi
  | cons b bs ih =>
    simp only [List.length_cons] at hl hi
    cases i with
    | zero =>
      rw [storeBytes, storeBytes_of_not_within (by omega) (by simp only [Within]; bv_omega)]
      simp [store8]
    | succ i =>
      have : a + BitVec.ofNat 32 (i + 1) = a + 1 + BitVec.ofNat 32 i := by rw [BitVec.ofNat_add]; ac_rfl
      rw [storeBytes, this, ih (by omega) (by omega)]
      rfl

@[simp] theorem length_bytesAt (μ : Mem) (a : Word) (n : Nat) : (bytesAt μ a n).length = n := by
  induction n generalizing a with
  | zero => rfl
  | succ n ih => simp [bytesAt, ih]

theorem getElem_bytesAt {μ : Mem} {a : Word} {n i : Nat} (h : i < (bytesAt μ a n).length) :
    (bytesAt μ a n)[i] = μ (a + BitVec.ofNat 32 i) := by
  induction n generalizing a i with
  | zero => simp [bytesAt] at h
  | succ n ih =>
    cases i with
    | zero => simp [bytesAt]
    | succ i =>
      have : a + BitVec.ofNat 32 (i + 1) = a + 1 + BitVec.ofNat 32 i := by rw [BitVec.ofNat_add]; ac_rfl
      simp only [bytesAt, List.getElem_cons_succ, ih, this]

theorem bytesAt_storeBytes {μ : Mem} {a : Word} (bs : List (BitVec 8)) (hl : bs.length ≤ 2 ^ 32) :
    bytesAt (storeBytes μ a bs) a bs.length = bs :=
  List.ext_getElem (by simp) fun i h1 h2 => by rw [getElem_bytesAt, storeBytes_get hl h2]

theorem SameOn.bytesAt {μ ν : Mem} {a : Word} {n : Nat} (h : SameOn μ ν a n) (hn : n ≤ 2 ^ 32) :
    bytesAt μ a n = Arm.bytesAt ν a n := by
  induction n generalizing a with
  | zero => rfl
  | succ n ih =>
    have hsub : ∀ x, Within x (a + 1) n → Within x a (n + 1) := fun x hx => by
      simp only [Within] at hx ⊢; bv_omega
    rw [Arm.bytesAt, Arm.bytesAt, h a (within_self (by omega)), ih (h.mono hsub) (by omega)]

theorem load32_store32_of_apart {μ : Mem} {a b v : Word} (h : Apart a 4 b 4) :
    load32 (store32 μ b v) a = load32 μ a :=
  (sameOn_store32 h).load32

end Arm
