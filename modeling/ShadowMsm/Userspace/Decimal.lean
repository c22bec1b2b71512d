import Mathlib.Data.Nat.Digits.Defs
import ShadowMsm.Arm.Machine
import ShadowMsm.Userspace.Text

/-!
# Decimal numbers in PID 1

`shadow_write_unsigned` converts by subtracting decimal places, from the highest one on.  The digits it has put down
and the value that is left always make up the number it was given (`Converting`).
-/

namespace ShadowMsm.Userspace

open Arm (Word)
open Traced

/-- A place of the table; subtracting it ends because it is not zero. -/
abbrev Place : Type := { p : Word // 0 < p }

def decimalPlaces : List Place :=
  [⟨1000000000, by decide⟩, ⟨100000000, by decide⟩, ⟨10000000, by decide⟩, ⟨1000000, by decide⟩, ⟨100000, by decide⟩,
   ⟨10000, by decide⟩, ⟨1000, by decide⟩, ⟨100, by decide⟩, ⟨10, by decide⟩, ⟨1, by decide⟩]

/-- The inner loop: the value that is left, and the digit. -/
def subtractPlace (place : Place) (value digit : Word) : Word × Word :=
  if place.1 ≤ value then subtractPlace place (value - place.1) (digit + 1) else (value, digit)
termination_by value.toNat
decreasing_by
  have := place.2
  bv_omega

structure Digits where
  result : Vector Byte 11
  count : Nat
  started : Bool
  value : Word

/-- A round of the outer loop, for a place and its index. -/
def decimalRound (s : Digits) (place : Place × Nat) : Except Fault Digits :=
  let (value, digit) := subtractPlace place.1 s.value 0
  if digit ≠ 0 ∨ s.started = true ∨ place.2 = 9 then do
    let result ← store s.result s.count ((0x30 + digit).setWidth 8)
    .ok ⟨result, s.count + 1, true, value⟩
  else .ok { s with value }

/-- The array `result`, which holds anything before. -/
def unsignedText (result : Vector Byte 11) (value : Word) : Except Fault (Vector Byte 11) := do
  let s ← decimalPlaces.zipIdx.foldlM decimalRound ⟨result, 0, false, value⟩
  store s.result s.count 0

def shadowWriteUnsigned (descriptor : Int) (result : Vector Byte 11) (value : Word) : Pid1 Unit := do
  let result ← Traced.ofExcept (unsignedText result value)
  shadowWriteText descriptor result.toList

/-! ### Decimal representations -/

def digitValue (c : Byte) : Nat := c.toNat - 0x30

/-- The canonical decimal representation of a number. -/
structure IsDecimal (n : Nat) (text : Bytes) : Prop where
  digits : ∀ c ∈ text, 0x30 ≤ c.toNat ∧ c.toNat ≤ 0x39
  value : Nat.ofDigits 10 (text.reverse.map digitValue) = n
  nonempty : text ≠ []
  /-- Only zero begins with a zero. -/
  leading : text.head? = some 0x30 → text = [0x30]

section

variable {n : Nat} {text text' : Bytes}

/-- Without a leading zero, these are the digits of Mathlib, the highest one first. -/
theorem IsDecimal.eq_digits (h : IsDecimal n text) (hhead : text.head? ≠ some 0x30) :
    text.reverse.map digitValue = Nat.digits 10 n := by
  rw [← h.value]
  refine (Nat.digits_ofDigits 10 (by omega) _ ?_ ?_).symm
  · intro d hd
    obtain ⟨c, hc, rfl⟩ := List.mem_map.mp hd
    have := h.digits c (List.mem_reverse.mp hc)
    unfold digitValue
    omega
  · intro hne hlast
    obtain ⟨c, rest, rfl⟩ := List.exists_cons_of_ne_nil h.nonempty
    have hc := h.digits c (by simp)
    rw [List.getLast_map, List.getLast_reverse, List.head_cons, digitValue] at hlast
    have hzero : c = 0x30 := BitVec.eq_of_toNat_eq (show c.toNat = 0x30 by omega)
    exact hhead (by rw [hzero]; rfl)

theorem IsDecimal.head_iff (h : IsDecimal n text) : text.head? = some 0x30 ↔ n = 0 := by
  constructor
  · intro hhead
    rw [← h.value, h.leading hhead]
    rfl
  · rintro rfl
    by_contra hhead
    have hnil := h.eq_digits hhead
    rw [Nat.digits_zero, List.map_eq_nil_iff, List.reverse_eq_nil_iff] at hnil
    exact h.nonempty hnil

/-- The digits can be read back from their values. -/
theorem IsDecimal.map_map (h : IsDecimal n text) :
    (text.reverse.map digitValue).map (fun d => BitVec.ofNat 8 (d + 0x30)) = text.reverse := by
  rw [List.map_map]
  refine (List.map_congr_left fun c hc => ?_).trans (List.map_id _)
  have hc := h.digits c (List.mem_reverse.mp hc)
  refine BitVec.eq_of_toNat_eq ?_
  show (BitVec.ofNat 8 (digitValue c + 0x30)).toNat = c.toNat
  rw [digitValue, BitVec.toNat_ofNat]
  omega

/-- A number has one decimal representation. -/
theorem IsDecimal.unique (h : IsDecimal n text) (h' : IsDecimal n text') : text = text' := by
  by_cases hn : n = 0
  · rw [h.leading (h.head_iff.mpr hn), h'.leading (h'.head_iff.mpr hn)]
  · have hmap := (h.eq_digits (hn ∘ h.head_iff.mp)).trans (h'.eq_digits (hn ∘ h'.head_iff.mp)).symm
    refine List.reverse_injective ?_
    rw [← h.map_map, hmap, h'.map_map]

end

/-! ### The loops -/

theorem subtractPlace_eq (place : Place) (value digit : Word) (h : digit.toNat + value.toNat / place.1.toNat < 2 ^ 32) :
    (subtractPlace place value digit).1.toNat = value.toNat % place.1.toNat ∧
      (subtractPlace place value digit).2.toNat = digit.toNat + value.toNat / place.1.toNat := by
  have hpos : 0 < place.1.toNat := by
    have := place.2
    bv_omega
  induction value, digit using subtractPlace.induct place with
  | case1 value digit hle ih =>
    have hle' : place.1.toNat ≤ value.toNat := BitVec.le_def.mp hle
    have hsub : (value - place.1).toNat = value.toNat - place.1.toNat := BitVec.toNat_sub_of_le hle
    have hdiv : value.toNat / place.1.toNat = (value.toNat - place.1.toNat) / place.1.toNat + 1 :=
      Nat.div_eq_sub_div hpos hle'
    have hmod : value.toNat % place.1.toNat = (value.toNat - place.1.toNat) % place.1.toNat :=
      Nat.mod_eq_sub_mod hle'
    rw [hdiv, ← hsub] at h ⊢
    rw [hmod, ← hsub]
    generalize (value - place.1).toNat / place.1.toNat = q at h ih ⊢
    have hdigit : (digit + 1).toNat = digit.toNat + 1 := by
      rw [BitVec.toNat_add]
      exact Nat.mod_eq_of_lt (show digit.toNat + 1 < 2 ^ 32 by omega)
    rw [hdigit] at ih
    obtain ⟨h1, h2⟩ := ih (by omega)
    rw [subtractPlace, if_pos hle]
    exact ⟨h1, by omega⟩
  | case2 value digit hle =>
    have hlt : value.toNat < place.1.toNat := by bv_omega
    rw [subtractPlace, if_neg hle, Nat.mod_eq_of_lt hlt, Nat.div_eq_of_lt hlt]
    exact ⟨rfl, rfl⟩

/-! ### The invariant of the conversion -/

/-- What has been put down. -/
def Digits.text (s : Digits) : Bytes := s.result.toList.take s.count

/-- `e` places are left: their digits make up the value that is left. -/
structure Converting (n e : Nat) (s : Digits) : Prop where
  count : s.count + e ≤ 10
  value : Nat.ofDigits 10 (s.text.reverse.map digitValue) * 10 ^ e + s.value.toNat = n
  rest : s.value.toNat < 10 ^ e
  digits : ∀ c ∈ s.text, 0x30 ≤ c.toNat ∧ c.toNat ≤ 0x39
  started : s.started = true ↔ s.text ≠ []
  leading : s.text.head? = some 0x30 → e = 0 ∧ s.text = [0x30]
  last : e = 0 → s.text ≠ []

/-- The place of `10 ^ e`, at its index in the table. -/
def IsPlace (e : Nat) (place : Place × Nat) : Prop := place.1.1.toNat = 10 ^ e ∧ place.2 + e = 9

theorem toNat_digit {digit : Word} (h : digit.toNat ≤ 9) : ((0x30 + digit).setWidth 8 : Byte).toNat = 0x30 + digit.toNat := by
  bv_omega

theorem ofDigits_append_digit (text : Bytes) (c : Byte) :
    Nat.ofDigits 10 ((text ++ [c]).reverse.map digitValue) =
      digitValue c + 10 * Nat.ofDigits 10 (text.reverse.map digitValue) := by
  rw [List.reverse_append, List.reverse_singleton, List.singleton_append, List.map_cons, Nat.ofDigits_cons]

/-- The digit of the next place and what is left below it. -/
theorem subtractPlace_digit {e : Nat} {place : Place} {value : Word} (hplace : place.1.toNat = 10 ^ e)
    (hvalue : value.toNat < 10 ^ (e + 1)) :
    ∃ value' digit', subtractPlace place value 0 = (value', digit') ∧ digit'.toNat ≤ 9 ∧ value'.toNat < 10 ^ e ∧
      value.toNat = digit'.toNat * 10 ^ e + value'.toNat := by
  have hpos : 0 < 10 ^ e := Nat.pow_pos (by omega)
  have hdigit : value.toNat / 10 ^ e < 10 := Nat.div_lt_of_lt_mul (by rwa [Nat.pow_succ] at hvalue)
  have hzero : (0 : Word).toNat = 0 := rfl
  obtain ⟨h1, h2⟩ := subtractPlace_eq place value 0 (by rw [hplace, hzero]; omega)
  rw [hplace] at h1 h2
  rw [hzero, Nat.zero_add] at h2
  refine ⟨_, _, rfl, by omega, ?_, ?_⟩
  · rw [h1]
    exact Nat.mod_lt _ hpos
  · rw [h1, h2, Nat.mul_comm, Nat.div_add_mod]

/-- The next digit is put down; a zero as the first one only at the last place. -/
private theorem Converting.put {n e : Nat} {s : Digits} {value' digit' : Word} (hs : Converting n (e + 1) s)
    (hnine : digit'.toNat ≤ 9) (hrest : value'.toNat < 10 ^ e) (hsum : s.value.toNat = digit'.toNat * 10 ^ e + value'.toNat)
    (hfirst : digit' = 0 → s.text = [] → e = 0) (hin : s.count < 11) :
    Converting n e ⟨s.result.set s.count ((0x30 + digit').setWidth 8) hin, s.count + 1, true, value'⟩ := by
  have hcount := hs.count
  have hvalue := hs.value
  rw [Nat.pow_succ] at hvalue
  have htext : (s.result.set s.count ((0x30 + digit').setWidth 8) hin).toList.take (s.count + 1) =
      s.text ++ [(0x30 + digit').setWidth 8] := take_set s.result hin _
  have hc := toNat_digit hnine
  have hd : digitValue ((0x30 + digit').setWidth 8) = digit'.toNat := by
    rw [digitValue, hc]
    omega
  refine ⟨?_, ?_, hrest, ?_, ?_, ?_, ?_⟩
  · show s.count + 1 + e ≤ 10
    omega
  all_goals rw [Digits.text]; dsimp only; rw [htext]
  · rw [ofDigits_append_digit, hd, ← hvalue, hsum]
    ring
  · intro c hmem
    rcases List.mem_append.mp hmem with hmem | hmem
    · exact hs.digits c hmem
    · rw [List.mem_singleton.mp hmem, hc]
      omega
  · simp
  · intro hhead
    by_cases hempty : s.text = []
    · rw [hempty] at hhead ⊢
      have hzero : ((0x30 + digit').setWidth 8 : Byte) = 0x30 := by simpa using hhead
      have hdigit : digit' = 0 := by
        apply BitVec.eq_of_toNat_eq
        have := congrArg BitVec.toNat hzero
        rw [hc] at this
        simpa using this
      exact ⟨hfirst hdigit hempty, by rw [hzero]; rfl⟩
    · rw [List.head?_append_of_ne_nil _ hempty] at hhead
      have := (hs.leading hhead).1
      omega
  · simp

/-- A leading zero is left out. -/
private theorem Converting.skip {n e : Nat} {s : Digits} {value' : Word} (hs : Converting n (e + 1) s)
    (hrest : value'.toNat < 10 ^ e) (hsum : s.value.toNat = value'.toNat) (hempty : s.text = []) (hlast : e ≠ 0) :
    Converting n e { s with value := value' } := by
  have hcount := hs.count
  have hvalue := hs.value
  refine ⟨?_, ?_, hrest, hs.digits, hs.started, ?_, fun h => absurd h hlast⟩
  · show s.count + e ≤ 10
    omega
  · show Nat.ofDigits 10 (s.text.reverse.map digitValue) * 10 ^ e + value'.toNat = n
    rw [hempty] at hvalue ⊢
    simp at hvalue ⊢
    omega
  · intro hhead
    have hhead : s.text.head? = some 0x30 := hhead
    rw [hempty] at hhead
    cases hhead

/-- A round puts the next digit down, unless it is a leading zero. -/
theorem decimalRound_converting {n e : Nat} {s : Digits} {place : Place × Nat} (hs : Converting n (e + 1) s)
    (hplace : IsPlace e place) : ∃ s', decimalRound s place = .ok s' ∧ Converting n e s' := by
  obtain ⟨value', digit', hsub, hnine, hrest, hsum⟩ := subtractPlace_digit hplace.1 hs.rest
  have hindex := hplace.2
  have hcount := hs.count
  rw [decimalRound, hsub]
  dsimp only
  by_cases hput : digit' ≠ 0 ∨ s.started = true ∨ place.2 = 9
  · have hin : s.count < 11 := by omega
    rw [if_pos hput, store_eq s.result hin]
    refine ⟨_, rfl, hs.put hnine hrest hsum ?_ hin⟩
    intro hdigit hempty
    have hnotstarted : ¬ s.started = true := fun h => hs.started.mp h hempty
    have hlast : place.2 = 9 := (hput.resolve_left (not_not.mpr hdigit)).resolve_left hnotstarted
    omega
  · obtain ⟨rfl, hnotstarted, hnotlast⟩ : digit' = 0 ∧ ¬ s.started = true ∧ place.2 ≠ 9 := by
      simpa only [not_or, not_not, ne_eq] using hput
    have hempty : s.text = [] := by
      by_contra h
      exact hnotstarted (hs.started.mpr h)
    rw [if_neg hput]
    exact ⟨_, rfl, hs.skip hrest (by simpa using hsum) hempty (by omega)⟩

/-- A table of the places below `10 ^ e`, with their indices. -/
inductive TableFrom : Nat → List (Place × Nat) → Prop
  | nil : TableFrom 0 []
  | cons {e : Nat} {place : Place × Nat} {places : List (Place × Nat)} (h : IsPlace e place) (hs : TableFrom e places) :
    TableFrom (e + 1) (place :: places)

theorem tableFrom_decimalPlaces : TableFrom 10 decimalPlaces.zipIdx :=
  .cons ⟨rfl, rfl⟩ (.cons ⟨rfl, rfl⟩ (.cons ⟨rfl, rfl⟩ (.cons ⟨rfl, rfl⟩ (.cons ⟨rfl, rfl⟩ (.cons ⟨rfl, rfl⟩
    (.cons ⟨rfl, rfl⟩ (.cons ⟨rfl, rfl⟩ (.cons ⟨rfl, rfl⟩ (.cons ⟨rfl, rfl⟩ .nil)))))))))

theorem decimalRounds_converting {n e : Nat} {places : List (Place × Nat)} (hplaces : TableFrom e places) {s : Digits}
    (hs : Converting n e s) : ∃ s', places.foldlM decimalRound s = .ok s' ∧ Converting n 0 s' := by
  induction hplaces generalizing s with
  | nil => exact ⟨s, rfl, hs⟩
  | cons hplace _ ih =>
    obtain ⟨s', hround, hs'⟩ := decimalRound_converting hs hplace
    obtain ⟨s'', hrounds, hs''⟩ := ih hs'
    refine ⟨s'', ?_, hs''⟩
    rw [List.foldlM_cons, hround]
    exact hrounds

theorem converting_start (result : Vector Byte 11) (value : Word) :
    Converting value.toNat 10 ⟨result, 0, false, value⟩ := by
  have hempty : Digits.text ⟨result, 0, false, value⟩ = [] := List.take_zero
  refine ⟨by simp, ?_, ?_, ?_, ?_, ?_, by omega⟩
  · rw [hempty]
    simp
  · show value.toNat < 10 ^ 10
    have := value.isLt
    omega
  all_goals simp [hempty]

theorem Converting.isDecimal {n : Nat} {s : Digits} (hs : Converting n 0 s) : IsDecimal n s.text := by
  refine ⟨hs.digits, ?_, hs.last rfl, fun h => (hs.leading h).2⟩
  have hvalue := hs.value
  have hrest := hs.rest
  rw [Nat.pow_zero] at hvalue hrest
  omega

/-- The array holds the number with its zero byte, and no store is outside it. -/
theorem unsignedText_exact (result : Vector Byte 11) (value : Word) :
    ∃ array text, unsignedText result value = .ok array ∧ HoldsString array.toList text ∧ IsDecimal value.toNat text := by
  obtain ⟨s, hrounds, hs⟩ := decimalRounds_converting tableFrom_decimalPlaces (converting_start result value)
  have hcount := hs.count
  have hin : s.count < 11 := by omega
  have htext := take_set s.result hin 0
  refine ⟨s.result.set s.count 0, s.text, ?_, ⟨?_, ?_⟩, hs.isDecimal⟩
  · unfold unsignedText
    rw [hrounds]
    exact store_eq s.result hin 0
  · intro hzero
    have := (hs.digits 0 hzero).1
    simp at this
  · rw [Digits.text, ← htext]
    exact List.take_prefix _ _

/-- Every number is written in its decimal representation, however much of it the kernel takes at a time. -/
theorem shadowWriteUnsigned_exact (descriptor : Int) (result : Vector Byte 11) (value : Word) :
    ∃ array text, unsignedText result value = .ok array ∧ HoldsString array.toList text ∧ IsDecimal value.toNat text ∧
      ∀ answers, Wrote descriptor text answers (shadowWriteUnsigned descriptor result value answers) := by
  obtain ⟨array, text, harray, hholds, hdecimal⟩ := unsignedText_exact result value
  refine ⟨array, text, harray, hholds, hdecimal, fun answers => ?_⟩
  rw [shadowWriteUnsigned, run_ofExcept_bind harray]
  exact wrote_shadowWriteText hholds answers

/-- A kernel that takes one byte at a time. -/
def bytewise : Answers := fun _ => ⟨fun count => ⟨min count 1, by omega⟩, 0⟩

theorem shadowWriteUnsigned_bytewise :
    ∃ text, IsDecimal 4294967295 text ∧
      taken (shadowWriteUnsigned 1 (Vector.replicate 11 0x7F) 4294967295 bytewise).2.2 = text := by
  obtain ⟨-, text, -, -, hdecimal, hwrote⟩ := shadowWriteUnsigned_exact 1 (Vector.replicate 11 0x7F) 4294967295
  refine ⟨text, hdecimal, (hwrote bytewise).all ?_⟩
  intro i count hcount
  show 0 < min (count : Int) 1
  omega

end ShadowMsm.Userspace
