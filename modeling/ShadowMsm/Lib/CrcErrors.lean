import ShadowMsm.Lib.Crc
import Mathlib.Algebra.BigOperators.Ring.Finset
import Mathlib.Algebra.Field.ZMod

/-!
# The errors a CRC detects

The register of a CRC is linear in what is fed to it, so an error goes unnoticed exactly when its own register,
started at zero, ends at zero.  That register, bit by bit, is the `syndrome` of the error.  It is not zero for an
error of odd weight when the polynomial is divisible by `x + 1`, for an error of two bits closer than the order of
`x`, and for a burst no longer than the register (`syndrome_ne_zero`).
-/

namespace Crc

variable {w : Nat}

/-! ### Linearity -/

section linear

variable (poly : BitVec w)

/-- The polynomial is added as often as a set bit is shifted out. -/
private theorem tap_xor (b c : Bool) :
    (if b ^^ c then poly else 0#w) = (if b then poly else 0#w) ^^^ (if c then poly else 0#w) := by
  cases b <;> cases c <;> simp

theorem bit_xor (x y : BitVec w) : bit poly (x ^^^ y) = bit poly x ^^^ bit poly y := by
  unfold bit
  rw [BitVec.ushiftRight_xor_distrib, BitVec.getLsbD_xor]
  have h := tap_xor poly (x.getLsbD 0) (y.getLsbD 0)
  rw [show (0 : BitVec w) = 0#w from rfl, h]
  ac_rfl

@[simp] theorem bit_zero : bit poly 0#w = 0#w := by simp [bit]

theorem iterate_xor (k : Nat) (x y : BitVec w) :
    (bit poly)^[k] (x ^^^ y) = (bit poly)^[k] x ^^^ (bit poly)^[k] y := by
  induction k generalizing x y with
  | zero => rfl
  | succ k ih =>
    rw [Function.iterate_succ_apply, bit_xor, ih, ← Function.iterate_succ_apply, ← Function.iterate_succ_apply]

@[simp] theorem iterate_zero (k : Nat) : (bit poly)^[k] 0#w = 0#w := Function.iterate_fixed (bit_zero poly) k

theorem byte_xor (x y : BitVec w) (b c : BitVec 8) :
    byte poly (x ^^^ y) (b ^^^ c) = byte poly x b ^^^ byte poly y c := by
  unfold byte
  rw [← iterate_xor, BitVec.setWidth_xor]
  ac_rfl

/-- The register of the sum of two strings of bytes is the sum of their registers. -/
theorem run_xor (x y : BitVec w) {a b : List (BitVec 8)} (h : a.length = b.length) :
    run poly (x ^^^ y) (List.zipWith (· ^^^ ·) a b) = run poly x a ^^^ run poly y b := by
  induction a generalizing x y b with
  | nil =>
    cases b with
    | nil => rfl
    | cons c b => simp at h
  | cons c a ih =>
    cases b with
    | nil => simp at h
    | cons d b =>
      rw [List.zipWith_cons_cons, run_cons, run_cons, run_cons, byte_xor]
      exact ih _ _ (by simpa using h)

end linear

/-! ### Bit by bit -/

/-- A bit in the lowest place of a register. -/
def low (b : Bool) : BitVec w := if b then 1#w else 0#w

/-- The register after the first `n` bits of `f`, from zero. -/
def syndrome (poly : BitVec w) (f : Nat → Bool) : Nat → BitVec w
  | 0 => 0#w
  | n + 1 => bit poly (syndrome poly f n ^^^ low (f n))

/-- The bits of a string of bytes, the least significant bit of each byte first. -/
def bitAt (e : List (BitVec 8)) (i : Nat) : Bool := (e.getD (i / 8) 0).getLsbD (i % 8)

@[simp] theorem low_false : (low false : BitVec w) = 0#w := rfl

variable {poly : BitVec w} {f g : Nat → Bool}

theorem syndrome_congr {n : Nat} (h : ∀ i < n, f i = g i) : syndrome poly f n = syndrome poly g n := by
  induction n with
  | zero => rfl
  | succ n ih =>
    have hn := h n (by omega)
    rw [syndrome, syndrome, ih fun i hi => h i (by omega), hn]

/-- Bits that are clear only move the register on. -/
theorem syndrome_clear {m : Nat} (k : Nat) (h : ∀ i, m ≤ i → i < m + k → f i = false) :
    syndrome poly f (m + k) = (bit poly)^[k] (syndrome poly f m) := by
  induction k with
  | zero => rfl
  | succ k ih =>
    have hk := h (m + k) (by omega) (by omega)
    rw [← Nat.add_assoc, syndrome, hk, low_false, BitVec.xor_zero, ih fun i hi hi' => h i hi (by omega),
      Function.iterate_succ_apply']

theorem syndrome_eq_zero {n : Nat} (h : ∀ i < n, f i = false) : syndrome poly f n = 0#w := by
  have := @syndrome_clear w poly f 0 n fun i _ hi => h i (by omega)
  rw [Nat.zero_add] at this
  rw [this, syndrome, iterate_zero]

private theorem low_shift (b : Bool) : (low b : BitVec w) >>> 1 = 0#w := by
  apply BitVec.eq_of_getLsbD_eq
  intro i hi
  cases b <;> simp [low, BitVec.getLsbD_one]

private theorem low_getLsbD {x : BitVec w} : (low (x.getLsbD 0) : BitVec w).getLsbD 0 = x.getLsbD 0 := by
  by_cases hw : 0 < w
  · cases x.getLsbD 0 <;> simp [low, hw]
  · rw [BitVec.getLsbD_of_ge _ _ (by omega), BitVec.getLsbD_of_ge _ _ (by omega)]

/-- A step takes in the lowest bit of what was added and shifts the others. -/
theorem bit_low (y x : BitVec w) :
    bit poly (y ^^^ x) = bit poly (y ^^^ low (x.getLsbD 0)) ^^^ (x >>> 1) := by
  have hx : bit poly x = bit poly (low (x.getLsbD 0)) ^^^ (x >>> 1) := by
    rw [bit, bit, low_getLsbD, low_shift, BitVec.zero_xor, BitVec.xor_comm]
  rw [bit_xor, bit_xor, hx, BitVec.xor_assoc]

/-- Adding the next `k` bits to the register at once and then stepping `k` times is taking them in one by one. -/
theorem syndrome_window {n k : Nat} {x : BitVec w} (hf : ∀ i < k, x.getLsbD i = f (n + i))
    (hx : ∀ i, k ≤ i → x.getLsbD i = false) :
    syndrome poly f (n + k) = (bit poly)^[k] (syndrome poly f n ^^^ x) := by
  induction k generalizing n x with
  | zero =>
    have : x = 0#w := BitVec.eq_of_getLsbD_eq fun i _ => by simpa using hx i (Nat.zero_le i)
    rw [this, BitVec.xor_zero]
    rfl
  | succ k ih =>
    have h0 : x.getLsbD 0 = f n := hf 0 (by omega)
    have hnext := @ih (n + 1) (x >>> 1)
      (fun i hi => by
        rw [BitVec.getLsbD_ushiftRight, hf (1 + i) (by omega)]
        congr 1
        omega)
      (fun i hi => by
        rw [BitVec.getLsbD_ushiftRight]
        exact hx (1 + i) (by omega))
    rw [Function.iterate_succ_apply, bit_low, h0, ← Nat.add_assoc, Nat.add_right_comm, hnext]
    rfl

theorem bitAt_append_left {e : List (BitVec 8)} (b : BitVec 8) {i : Nat} (hi : i < 8 * e.length) :
    bitAt (e ++ [b]) i = bitAt e i := by
  have : i / 8 < e.length := by omega
  simp [bitAt, List.getElem?_append_left this]

theorem bitAt_append_right (e : List (BitVec 8)) (b : BitVec 8) {i : Nat} (hi : i < 8) :
    bitAt (e ++ [b]) (8 * e.length + i) = b.getLsbD i := by
  have hdiv : (8 * e.length + i) / 8 = e.length := by omega
  have hmod : (8 * e.length + i) % 8 = i := by omega
  simp [bitAt, hdiv, hmod]

/-- The register after a string of bytes, from zero, is the syndrome of its bits. -/
theorem run_zero (hw : 8 ≤ w) (e : List (BitVec 8)) :
    run poly 0#w e = syndrome poly (bitAt e) (8 * e.length) := by
  induction e using List.reverseRecOn with
  | nil => rfl
  | append_singleton e b ih =>
    have hleft : syndrome poly (bitAt e) (8 * e.length) = syndrome poly (bitAt (e ++ [b])) (8 * e.length) :=
      syndrome_congr fun i hi => (bitAt_append_left b hi).symm
    have hbyte := @syndrome_window w poly (bitAt (e ++ [b])) (8 * e.length) 8 (b.setWidth w)
      (fun i hi => by
        rw [bitAt_append_right e b hi, BitVec.getLsbD_setWidth]
        simp only [Bool.and_eq_right_iff_imp, decide_eq_true_eq]
        omega)
      (fun i hi => by
        rw [BitVec.getLsbD_setWidth, BitVec.getLsbD_of_ge b i hi, Bool.and_false])
    rw [run_concat, ih, hleft, byte, ← hbyte]
    simp [Nat.mul_add]

/-- The register after some bytes is that of the bytes alone and the initial one moved on. -/
theorem run_eq (x : BitVec w) (e : List (BitVec 8)) :
    run poly x e = (bit poly)^[8 * e.length] x ^^^ run poly 0#w e := by
  induction e using List.reverseRecOn with
  | nil => simp
  | append_singleton e b ih =>
    have hbyte := byte_xor poly ((bit poly)^[8 * e.length] x) (run poly 0#w e) 0#8 b
    rw [BitVec.zero_xor] at hbyte
    have hzero : byte poly ((bit poly)^[8 * e.length] x) 0#8 = (bit poly)^[8 * e.length + 8] x := by
      rw [Nat.add_comm, Function.iterate_add_apply, byte, BitVec.setWidth_zero, BitVec.xor_zero]
    rw [run_concat, run_concat, ih, hbyte, hzero]
    simp [Nat.mul_add]

/-- Taking in the bytes of a register is adding it and moving the sum on. -/
theorem run_register (hw : 8 ≤ w) (x : BitVec w) {e : List (BitVec 8)} {r : BitVec w}
    (hr : ∀ i < 8 * e.length, r.getLsbD i = bitAt e i) (hr' : ∀ i, 8 * e.length ≤ i → r.getLsbD i = false) :
    run poly x e = (bit poly)^[8 * e.length] (x ^^^ r) := by
  have hwin :=
    @syndrome_window w poly (bitAt e) 0 (8 * e.length) r (fun i hi => by rw [Nat.zero_add, hr i hi]) hr'
  rw [Nat.zero_add, syndrome, BitVec.zero_xor] at hwin
  rw [run_eq, run_zero hw, hwin, ← iterate_xor]

/-! ### Odd errors -/

/-- The sum of the bits of a register: its value as a polynomial at `x = 1`. -/
def parity (x : BitVec w) : ZMod 2 := ∑ i ∈ Finset.range w, if x.getLsbD i then 1 else 0

private theorem ite_xor (b c : Bool) :
    (if b ^^ c then 1 else 0 : ZMod 2) = (if b then 1 else 0) + (if c then 1 else 0) := by
  cases b <;> cases c <;> decide

theorem parity_xor (x y : BitVec w) : parity (x ^^^ y) = parity x + parity y := by
  unfold parity
  rw [← Finset.sum_add_distrib]
  apply Finset.sum_congr rfl
  intro i _
  rw [BitVec.getLsbD_xor]
  exact ite_xor _ _

theorem parity_zero : parity 0#w = 0 := by simp [parity]

theorem parity_low (hw : 0 < w) (b : Bool) : parity (low b : BitVec w) = if b then 1 else 0 := by
  cases b with
  | false => exact parity_zero
  | true =>
    have hone : ∀ i, (1#w).getLsbD i = decide (i = 0) := by
      intro i
      rw [BitVec.getLsbD_one]
      by_cases hi : i = 0 <;> simp [hi, hw]
    simp [parity, low, hone, hw]

/-- What is shifted out is missing from the sum. -/
theorem parity_shift (x : BitVec w) : parity x = parity (x >>> 1) + if x.getLsbD 0 then 1 else 0 := by
  unfold parity
  have hlast : x.getLsbD w = false := BitVec.getLsbD_of_ge x w (Nat.le_refl w)
  have hsum := Finset.sum_range_succ (fun i => if x.getLsbD i then (1 : ZMod 2) else 0) w
  rw [Finset.sum_range_succ'] at hsum
  simp only [hlast, Bool.false_eq_true, if_false, add_zero] at hsum
  simp only [BitVec.getLsbD_ushiftRight, Nat.add_comm 1]
  exact hsum.symm

/-- A step keeps the sum when the polynomial, with its highest term, has an even number of terms. -/
theorem parity_bit (hp : parity poly = 1) (x : BitVec w) : parity (bit poly x) = parity x := by
  rw [parity_shift x, bit, parity_xor]
  by_cases hx : x.getLsbD 0
  · rw [if_pos hx, if_pos hx, hp]
  · rw [if_neg hx, if_neg hx]
    exact congrArg _ parity_zero

/-- The positions below `n` at which `f` is set. -/
def support (f : Nat → Bool) (n : Nat) : Finset Nat := (Finset.range n).filter fun i => f i

theorem parity_syndrome (hw : 0 < w) (hp : parity poly = 1) (n : Nat) :
    parity (syndrome poly f n) = (support f n).card := by
  have hsum : parity (syndrome poly f n) = ∑ i ∈ Finset.range n, if f i then 1 else 0 := by
    induction n with
    | zero => exact parity_zero
    | succ n ih => rw [syndrome, parity_bit hp, parity_xor, ih, parity_low hw, Finset.sum_range_succ]
  rw [hsum, support]
  exact (Finset.natCast_card_filter _ _).symm

/-! ### Detection -/

section detection

variable {n : Nat}

theorem mem_support {i : Nat} : i ∈ support f n ↔ i < n ∧ f i = true := by
  simp [support]

private theorem clear_of_notMem {i : Nat} (hi : i < n) (h : i ∉ support f n) : f i = false := by
  rw [mem_support] at h
  simpa [hi] using h

theorem iterate_ne_zero (hmsb : poly.msb = true) {x : BitVec w} (hx : x ≠ 0#w) (k : Nat) :
    (bit poly)^[k] x ≠ 0#w := by
  intro h
  apply hx
  apply (bit_injective hmsb).iterate k
  rw [h, iterate_zero]

/-- An error of odd weight is seen by a polynomial that is divisible by `x + 1`. -/
theorem syndrome_ne_zero_of_odd (hw : 0 < w) (hp : parity poly = 1) (h : Odd (support f n).card) :
    syndrome poly f n ≠ 0#w := by
  intro h0
  have hpar := @parity_syndrome w poly f hw hp n
  rw [h0, parity_zero] at hpar
  have : ((support f n).card : ZMod 2) = 1 := ZMod.natCast_eq_one_iff_odd.mpr h
  rw [← hpar] at this
  exact absurd this (by decide)

/-- After a set bit that follows clear ones the register is that of the bit alone. -/
private theorem syndrome_first {p : Nat} (hfp : f p = true) (h : ∀ i < p, f i = false) :
    syndrome poly f (p + 1) = bit poly 1#w := by
  rw [syndrome, syndrome_eq_zero h, hfp, low, if_pos rfl, BitVec.zero_xor]

/-- An error of two bits is seen when they are closer than the order of the polynomial. -/
theorem syndrome_ne_zero_of_two (hmsb : poly.msb = true)
    (horder : ∀ d, 0 < d → d < n → (bit poly)^[d] 1#w ≠ 1#w) (h : (support f n).card = 2) :
    syndrome poly f n ≠ 0#w := by
  obtain ⟨p, q, hpq, hsupp⟩ : ∃ p q, p < q ∧ support f n = {p, q} := by
    obtain ⟨p, q, hne, hsupp⟩ := Finset.card_eq_two.mp h
    rcases Nat.lt_or_gt_of_ne hne with hlt | hlt
    · exact ⟨p, q, hlt, hsupp⟩
    · exact ⟨q, p, hlt, by rw [hsupp, Finset.pair_comm]⟩
  have hp := mem_support.mp (by rw [hsupp]; simp : p ∈ support f n)
  have hq := mem_support.mp (by rw [hsupp]; simp : q ∈ support f n)
  have hclear : ∀ i < n, i ≠ p → i ≠ q → f i = false := fun i hi hip hiq =>
    clear_of_notMem hi (by rw [hsupp]; simp [hip, hiq])
  -- from `p` to `q` the register moves on without input; it must not be `1` when the second bit comes
  have hfirst : syndrome poly f (p + 1) = bit poly 1#w :=
    syndrome_first hp.2 fun i hi => hclear i (by omega) (by omega) (by omega)
  have hbetween : syndrome poly f q = (bit poly)^[q - p] 1#w := by
    have := @syndrome_clear w poly f (p + 1) (q - (p + 1)) fun i hi hi' =>
      hclear i (by omega) (by omega) (by omega)
    rw [Nat.add_sub_cancel' hpq, hfirst, ← Function.iterate_succ_apply] at this
    rw [this]
    congr 2
    omega
  have hsecond : syndrome poly f (q + 1) = bit poly ((bit poly)^[q - p] 1#w ^^^ 1#w) := by
    rw [syndrome, hbetween, hq.2, low, if_pos rfl]
  have hend : syndrome poly f n = (bit poly)^[n - (q + 1)] (syndrome poly f (q + 1)) := by
    have := @syndrome_clear w poly f (q + 1) (n - (q + 1)) fun i hi hi' =>
      hclear i (by omega) (by omega) (by omega)
    rwa [Nat.add_sub_cancel' hq.1] at this
  have hne : (bit poly)^[q - p] 1#w ^^^ 1#w ≠ 0#w := by
    rw [Ne, BitVec.xor_eq_zero_iff]
    exact horder (q - p) (by omega) (by omega)
  rw [hend, hsecond, ← Function.iterate_succ_apply]
  exact iterate_ne_zero hmsb hne _

/-- A burst no longer than the register is seen. -/
theorem syndrome_ne_zero_of_burst (hmsb : poly.msb = true) {p : Nat} (hne : (support f n).Nonempty)
    (h : support f n ⊆ Finset.Ico p (p + w)) : syndrome poly f n ≠ 0#w := by
  have hclear : ∀ i < n, ¬ (p ≤ i ∧ i < p + w) → f i = false := fun i hi hout =>
    clear_of_notMem hi fun hmem => hout (Finset.mem_Ico.mp (h hmem))
  obtain ⟨q, hq⟩ := hne
  have hqn := (mem_support.mp hq).1
  have hqp := Finset.mem_Ico.mp (h hq)
  -- the bits of the burst, as a register
  let k := min w (n - p)
  let x : BitVec w := (BitVec.ofBoolListLE ((List.range w).map fun i => f (p + i) && decide (p + i < n))).setWidth w
  have hbit : ∀ i < w, x.getLsbD i = (f (p + i) && decide (p + i < n)) := fun i hi => by
    rw [BitVec.getLsbD_setWidth, BitVec.getLsbD_ofBoolListLE]
    simp [hi]
  have hstart : syndrome poly f p = 0#w := syndrome_eq_zero fun i hi => hclear i (by omega) (by omega)
  have hburst : syndrome poly f (p + k) = (bit poly)^[k] x := by
    have := @syndrome_window w poly f p k x
      (fun i hi => by
        have hi' : p + i < n := by omega
        rw [hbit i (by omega), decide_eq_true hi', Bool.and_true])
      (fun i hi => by
        by_cases hiw : i < w
        · have hi' : ¬ p + i < n := by omega
          rw [hbit i hiw, decide_eq_false hi', Bool.and_false]
        · exact BitVec.getLsbD_of_ge x i (by omega))
    rwa [hstart, BitVec.zero_xor] at this
  have hend : syndrome poly f n = (bit poly)^[n - (p + k)] (syndrome poly f (p + k)) := by
    have := @syndrome_clear w poly f (p + k) (n - (p + k)) fun i hi hi' =>
      hclear i (by omega) (by omega)
    rwa [Nat.add_sub_cancel' (by omega : p + k ≤ n)] at this
  have hx : x ≠ 0#w := by
    intro h0
    have hbq := hbit (q - p) (by omega)
    rw [Nat.add_sub_cancel' hqp.1, (mem_support.mp hq).2, decide_eq_true hqn, h0] at hbq
    simp at hbq
  -- a step is injective, so the register of the burst never becomes zero again
  rw [hend, hburst]
  exact iterate_ne_zero hmsb (iterate_ne_zero hmsb hx k) _

/-- The registers met in `n` steps from `x` on are not `y`. -/
def avoids (poly y : BitVec w) : Nat → BitVec w → Bool
  | 0, _ => true
  | n + 1, x => x != y && avoids poly y n (bit poly x)

theorem ne_of_avoids {x y : BitVec w} (h : avoids poly y n x = true) {d : Nat} (hd : d < n) :
    (bit poly)^[d] x ≠ y := by
  induction n generalizing x d with
  | zero => omega
  | succ n ih =>
    rw [avoids, Bool.and_eq_true, bne_iff_ne] at h
    cases d with
    | zero => exact h.1
    | succ d => exact ih h.2 (by omega)

end detection

end Crc
