import Mathlib.Logic.Function.Iterate

/-!
# Reflected CRC registers

A reflected (least significant bit first) CRC of any width `w`: one step of the register for a bit (`bit`), eight
of them for a data byte (`byte`), and the register after a string of bytes (`run`).  The initial value and the final
complement of a concrete CRC are left to its user.
-/

namespace Crc

variable {w : Nat}

/-- Shift one bit out of the register and add the polynomial if it was set. -/
def bit (poly crc : BitVec w) : BitVec w :=
  (crc >>> 1) ^^^ (if crc.getLsbD 0 then poly else 0)

/-- Take one byte into the register. -/
def byte (poly crc : BitVec w) (b : BitVec 8) : BitVec w :=
  (bit poly)^[8] (crc ^^^ b.setWidth w)

/-- The register after the bytes of `data`, from `init`. -/
def run (poly init : BitVec w) (data : List (BitVec 8)) : BitVec w :=
  data.foldl (byte poly) init

@[simp] theorem run_nil (poly init : BitVec w) : run poly init [] = init := rfl

@[simp] theorem run_cons (poly init : BitVec w) (b : BitVec 8) (data : List (BitVec 8)) :
    run poly init (b :: data) = run poly (byte poly init b) data := rfl

/-- A step can be undone when the polynomial has its highest bit: the bit shifted out is seen there. -/
theorem bit_injective {poly : BitVec w} (h : poly.msb = true) : Function.Injective (bit poly) := by
  have msb : ∀ x : BitVec w, (bit poly x).msb = x.getLsbD 0 := by
    intro x
    have hshift : (x >>> 1).msb = false := by
      rw [BitVec.msb_ushiftRight]
      simp
    rw [bit, BitVec.msb_xor, hshift, Bool.false_xor]
    by_cases hx : x.getLsbD 0
    · rw [if_pos hx, h, hx]
    · rw [if_neg hx, Bool.eq_false_iff.mpr hx]
      exact BitVec.msb_zero
  intro x y hxy
  have h0 : x.getLsbD 0 = y.getLsbD 0 := by rw [← msb, ← msb, hxy]
  have hshift : x >>> 1 = y >>> 1 := by
    rw [bit, bit, h0] at hxy
    exact (BitVec.xor_left_inj _).mp hxy
  apply BitVec.eq_of_getLsbD_eq
  intro i hi
  rcases i with - | i
  · exact h0
  · have hi' := congrArg (fun z => z.getLsbD i) hshift
    simpa [BitVec.getLsbD_ushiftRight, Nat.add_comm] using hi'

/-- Another byte gives another register. -/
theorem byte_injective {poly : BitVec w} (h : poly.msb = true) (hw : 8 ≤ w) (crc : BitVec w) :
    Function.Injective (byte poly crc) := by
  intro b c hbc
  have hx := (bit_injective h).iterate 8 hbc
  have hs := (BitVec.xor_right_inj crc).mp hx
  have := congrArg (BitVec.setWidth 8) hs
  simpa [BitVec.setWidth_setWidth_of_le _ hw] using this

theorem run_concat (poly init : BitVec w) (data : List (BitVec 8)) (b : BitVec 8) :
    run poly init (data ++ [b]) = byte poly (run poly init data) b := by
  rw [run, List.foldl_append]
  rfl

end Crc
