import ShadowMsm.HdlcStream
import ShadowMsm.Lib.CrcErrors

/-!
# Transmission errors in a frame body

An error flips bits of the unescaped body of a frame, the payload or the trailer.  `read_frame` compares the CRC
of the first bytes with the last two; the comparison fails exactly when the syndrome of the error is not zero
(`check_corrupt_iff`), and so for every error that the polynomial is known to detect within the length of the
largest packet (`readFrame_corrupt`).
-/

namespace ShadowMsm

/-- A body after a transmission error: the bits that are set in `e` are flipped. -/
def corrupt (body e : Bytes) : Bytes := List.zipWith (· ^^^ ·) body e

/-- The positions of the flipped bits, the least significant bit of each byte first. -/
def flips (e : Bytes) : Finset Nat := Crc.support (Crc.bitAt e) (8 * e.length)

/-- An odd number of flipped bits, two of them, or a burst of them within 16 positions. -/
def Guarded (e : Bytes) : Prop :=
  Odd (flips e).card ∨ (flips e).card = 2 ∨ ∃ p, flips e ⊆ Finset.Ico p (p + 16)

/-- The comparison of `read_frame`: the CRC of all but the last two bytes is found in these. -/
def CrcMatches (raw : Bytes) : Prop :=
  fromLe16 (raw.drop (raw.length - 2)) = crc16X25 (raw.take (raw.length - 2))

/-! ### The comparison -/

theorem fromLe16_getLsbD (t : Bytes) (ht : t.length = 2) {i : Nat} (hi : i < 16) :
    (fromLe16 t).getLsbD i = Crc.bitAt t i := by
  obtain ⟨a, b, rfl⟩ : ∃ a b, t = [a, b] := List.length_eq_two.mp ht
  by_cases h : i < 8
  · have hdiv : i / 8 = 0 := by omega
    have hmod : i % 8 = i := by omega
    simp [fromLe16, Crc.bitAt, hdiv, hmod, h, hi]
  · have hdiv : i / 8 = 1 := by omega
    have hmod : i % 8 = i - 8 := by omega
    have h8 : i - 8 < 8 := by omega
    have ha : a.getLsbD i = false := BitVec.getLsbD_of_ge a i (by omega)
    simp [fromLe16, Crc.bitAt, hdiv, hmod, h, hi, h8, ha]

/-- The register after a payload and two more bytes. -/
theorem run_trailer (payload t : Bytes) (ht : t.length = 2) :
    Crc.run 0x8408 0xFFFF (payload ++ t) =
      (Crc.bit (0x8408 : BitVec 16))^[16] (Crc.run 0x8408 0xFFFF payload ^^^ fromLe16 t) := by
  have happ :
      Crc.run 0x8408 0xFFFF (payload ++ t) = Crc.run (0x8408 : BitVec 16) (Crc.run 0x8408 0xFFFF payload) t := by
    rw [Crc.run, List.foldl_append]
    rfl
  have hreg := @Crc.run_register 16 0x8408 (by decide) (Crc.run 0x8408 0xFFFF payload) t (fromLe16 t)
    (fun i hi => fromLe16_getLsbD t ht (by omega))
    (fun i hi => BitVec.getLsbD_of_ge _ i (by omega))
  rw [happ, hreg, ht]

/-- The comparison says that the register ends as after an intact frame. -/
theorem crcMatches_iff {raw : Bytes} (h : 2 ≤ raw.length) :
    CrcMatches raw ↔ Crc.run (0x8408 : BitVec 16) 0xFFFF raw = (Crc.bit 0x8408)^[16] 0xFFFF := by
  have hsplit : raw = raw.take (raw.length - 2) ++ raw.drop (raw.length - 2) := (List.take_append_drop _ _).symm
  have hrun := run_trailer (raw.take (raw.length - 2)) (raw.drop (raw.length - 2)) (by simp; omega)
  rw [← hsplit] at hrun
  have hinj := (Crc.bit_injective (by decide : (0x8408 : BitVec 16).msb = true)).iterate 16
  rw [hrun, hinj.eq_iff, CrcMatches, crc16X25]
  generalize Crc.run 0x8408 0xFFFF (raw.take (raw.length - 2)) = crc
  constructor
  · intro h
    rw [h, ← BitVec.xor_assoc, BitVec.xor_self, BitVec.zero_xor]
  · intro h
    rw [← h, ← BitVec.xor_assoc, BitVec.xor_self, BitVec.zero_xor]

theorem crcMatches_frameBody (payload : Bytes) : CrcMatches (frameBody payload) := by
  have hlen := length_frameBody payload
  rw [CrcMatches, hlen, Nat.add_sub_cancel, frameBody, List.drop_left, List.take_left, fromLe16_le16]

theorem length_corrupt {body e : Bytes} (h : e.length = body.length) : (corrupt body e).length = body.length := by
  simp [corrupt, h]

/-- An error goes unnoticed exactly when its syndrome is zero. -/
theorem crcMatches_corrupt_iff {payload e : Bytes} (he : e.length = (frameBody payload).length) :
    CrcMatches (corrupt (frameBody payload) e) ↔
      Crc.syndrome (0x8408 : BitVec 16) (Crc.bitAt e) (8 * e.length) = 0#16 := by
  have hlen := length_frameBody payload
  have hclen := length_corrupt he
  have hbody := (crcMatches_iff (by omega)).mp (crcMatches_frameBody payload)
  have hxor := Crc.run_xor (0x8408 : BitVec 16) (0xFFFF : BitVec 16) 0#16 he.symm
  rw [BitVec.xor_zero, hbody, Crc.run_zero (by decide)] at hxor
  rw [crcMatches_iff (by omega), corrupt, hxor]
  have hcancel := @BitVec.xor_right_inj 16 (Crc.syndrome 0x8408 (Crc.bitAt e) (8 * e.length)) 0#16
    ((Crc.bit 0x8408)^[16] 0xFFFF)
  rwa [BitVec.xor_zero] at hcancel

/-! ### The errors -/

/-- No two bits of a body within the largest packet are as far apart as the order of the polynomial. -/
theorem order_gt {d : Nat} (h0 : 0 < d) (hd : d < 8208) : (Crc.bit (0x8408 : BitVec 16))^[d] 1#16 ≠ 1#16 := by
  have havoids : Crc.avoids (0x8408 : BitVec 16) 1#16 8207 (Crc.bit (0x8408 : BitVec 16) 1#16) = true := by
    decide +kernel
  have := Crc.ne_of_avoids havoids (by omega : d - 1 < 8207)
  rw [← Function.iterate_succ_apply, Nat.succ_eq_add_one, Nat.sub_add_cancel h0] at this
  exact this

theorem syndrome_guarded {e : Bytes} (hlen : e.length ≤ 1026) (hne : (flips e).Nonempty) (h : Guarded e) :
    Crc.syndrome (0x8408 : BitVec 16) (Crc.bitAt e) (8 * e.length) ≠ 0#16 := by
  have hmsb : (0x8408 : BitVec 16).msb = true := by decide
  rcases h with hodd | htwo | ⟨p, hburst⟩
  · exact Crc.syndrome_ne_zero_of_odd (by decide) (by decide) hodd
  · exact Crc.syndrome_ne_zero_of_two hmsb (fun d h0 hd => order_gt h0 (by omega)) htwo
  · exact Crc.syndrome_ne_zero_of_burst hmsb hne hburst

/-! ### The reader -/

/-- A frame body that does not pass the comparison ends the call with an error. -/
theorem readFrame_mismatch {lead mid rest : List Poll} {raw : Bytes}
    (hlive : ∀ x ∈ lead ++ mid, x ≠ .expired ∧ x ≠ .fault) (hlead : FLAG ∉ arrivals lead)
    (hflag : FLAG ∉ arrivals mid) (hraw : stuffing.unstuff false (arrivals mid) = raw) (hlen : 3 ≤ raw.length)
    (h : ¬ CrcMatches raw) :
    readFrame (lead ++ .byte FLAG :: (mid ++ .byte FLAG :: rest)) =
      (.error (.crcMismatch (fromLe16 (raw.drop (raw.length - 2))) (crc16X25 (raw.take (raw.length - 2)))), rest) := by
  have hne : arrivals mid ≠ [] := by
    intro h0
    rw [h0] at hraw
    simp [← hraw, Stuffing.unstuff] at hlen
  have hdecode : decodeBody (arrivals mid) =
      .error (.crcMismatch (fromLe16 (raw.drop (raw.length - 2))) (crc16X25 (raw.take (raw.length - 2)))) := by
    simp only [decodeBody, hraw]
    rw [if_neg (by omega)]
    exact if_pos h
  rw [readFrame, readFrameFrom_skip (fun x hx => hlive x (by simp [hx])) hlead]
  simp only [readFrameFrom, if_true, Bool.not_false]
  rw [readFrameFrom_collect (fun x hx => hlive x (by simp [hx])) hflag]
  simp [readFrameFrom, hne, hdecode, Except.map]

/-- An odd number of errors, two errors, or a burst within 16 bits, in the body of a frame with a payload of up to
1024 bytes: the comparison of `read_frame` fails and the call raises. -/
theorem readFrame_corrupt {payload e : Bytes} (hp : 1 ≤ payload.length ∧ payload.length ≤ 1024)
    (he : e.length = (frameBody payload).length) (hne : (flips e).Nonempty) (hg : Guarded e)
    {lead mid rest : List Poll} (hlive : ∀ x ∈ lead ++ mid, x ≠ .expired ∧ x ≠ .fault)
    (hlead : FLAG ∉ arrivals lead) (hflag : FLAG ∉ arrivals mid)
    (hmid : stuffing.unstuff false (arrivals mid) = corrupt (frameBody payload) e) :
    ¬ CrcMatches (corrupt (frameBody payload) e) ∧
      ∃ got want, got ≠ want ∧
        readFrame (lead ++ .byte FLAG :: (mid ++ .byte FLAG :: rest)) = (.error (.crcMismatch got want), rest) := by
  have hlen := length_frameBody payload
  have hclen := length_corrupt he
  have hsyn := syndrome_guarded (by omega) hne hg
  have hmiss : ¬ CrcMatches (corrupt (frameBody payload) e) := fun h => hsyn ((crcMatches_corrupt_iff he).mp h)
  exact ⟨hmiss, _, _, hmiss, readFrame_mismatch hlive hlead hflag hmid (by omega) hmiss⟩

/-- One flipped bit of the payload `41`. -/
theorem readFrame_corrupt_one :
    ¬ CrcMatches (corrupt (frameBody [0x41]) [0x01, 0x00, 0x00]) ∧
      ∃ got want, got ≠ want ∧
        readFrame ([] ++ .byte FLAG ::
          ((stuffing.stuff (corrupt (frameBody [0x41]) [0x01, 0x00, 0x00])).map .byte ++ .byte FLAG :: [])) =
            (.error (.crcMismatch got want), []) :=
  readFrame_corrupt (by decide) (by decide) (by decide) (Or.inl (by decide)) (by decide) (by decide) (by decide)
    (by decide)

end ShadowMsm
