import ShadowMsm.Hdlc
import ShadowMsm.Lib.Traced

/-!
# Text in PID 1

PID 1 has no C library: strings are read byte by byte up to their zero byte, and a text goes out in as many writes as the
kernel takes it in.  A pointer is modelled by what lies behind it, up to the end of the object it points into; reading or
writing past that end is a fault.
-/

namespace ShadowMsm.Userspace

open Traced

inductive Fault
  | outOfBounds
  deriving DecidableEq, Repr

/-- What the kernel makes of the next system call: a write takes no more than it is given. -/
structure Answer where
  write (count : Nat) : { r : Int // r ≤ count }
  ioctl : Int

abbrev Answers : Type := Nat → Answer

inductive Event
  /-- The bytes that a write has taken. -/
  | write (descriptor : Int) (taken : Bytes)
  | ioctl (descriptor : Int) (request : Nat)
  | schedYield
  /-- What `shadow_run_command` is given to read. -/
  | runCommand (line : Bytes)
  deriving DecidableEq, Repr

abbrev Pid1 : Type → Type := Traced Fault Answers Event

/-! ### System calls -/

def sysWrite (descriptor : Int) (text : Bytes) (count : Nat) : Pid1 { r : Int // r ≤ count } := fun answers =>
  let written := (answers 0).write count
  (.ok written, fun i => answers (i + 1), [.write descriptor (text.take written.1.toNat)])

def sysIoctl (descriptor : Int) (request : Nat) : Pid1 Int := fun answers =>
  (.ok (answers 0).ioctl, fun i => answers (i + 1), [.ioctl descriptor request])

def sysSchedYield : Pid1 Unit := fun answers => (.ok (), fun i => answers (i + 1), [.schedYield])

/-! ### Strings -/

def shadowLength : Bytes → Except Fault Nat
  | [] => .error .outOfBounds
  | c :: text => if c = 0 then .ok 0 else (shadowLength text).map (· + 1)

def shadowEquals : Bytes → Bytes → Except Fault Bool
  | l :: left, r :: right =>
    if l ≠ 0 ∧ r ≠ 0 then if l ≠ r then .ok false else shadowEquals left right
    else .ok (l == r)
  | _, _ => .error .outOfBounds

def shadowStartsWith : Bytes → Bytes → Except Fault Bool
  | _, [] => .error .outOfBounds
  | [], p :: _ => if p = 0 then .ok true else .error .outOfBounds
  | t :: text, p :: pre => if p = 0 then .ok true else if t ≠ p then .ok false else shadowStartsWith text pre

/-- A store into an array. -/
def store {n : Nat} (array : Vector Byte n) (index : Nat) (c : Byte) : Except Fault (Vector Byte n) :=
  if h : index < n then .ok (array.set index c) else .error .outOfBounds

def writeLoop (descriptor : Int) (text : Bytes) (remaining : Nat) : Pid1 Unit :=
  if remaining = 0 then pure ()
  else do
    let written ← sysWrite descriptor text remaining
    if written.1 ≤ 0 then pure ()
    else writeLoop descriptor (text.drop written.1.toNat) (remaining - written.1.toNat)
termination_by remaining
decreasing_by omega

def shadowWriteText (descriptor : Int) (text : Bytes) : Pid1 Unit := do
  let remaining ← Traced.ofExcept (shadowLength text)
  writeLoop descriptor text remaining

/-- `array` holds the string, with its zero byte. -/
def HoldsString (array string : Bytes) : Prop := 0 ∉ string ∧ string ++ [0] <+: array

/-- What the kernel has taken. -/
def taken (l : List Event) : Bytes :=
  l.flatMap fun
    | .write _ t => t
    | _ => []

/-- Every write of something takes some of it. -/
def Positive (answers : Answers) : Prop := ∀ i count, 0 < count → 0 < ((answers i).write count).1

def IsWrite (descriptor : Int) (t : Event) : Prop := ∃ bytes, t = .write descriptor bytes

/-! ### Reading strings -/

section

variable {array array' string string' : Bytes}

theorem holdsString_nil {c : Byte} {rest : Bytes} : HoldsString (c :: rest) [] ↔ c = 0 := by
  simp only [HoldsString, List.not_mem_nil, not_false_eq_true, true_and, List.nil_append, List.cons_prefix_cons,
    List.nil_prefix, and_true]
  exact eq_comm

theorem holdsString_cons {c d : Byte} {rest : Bytes} :
    HoldsString (c :: rest) (d :: string) ↔ c = d ∧ d ≠ 0 ∧ HoldsString rest string := by
  simp only [HoldsString, List.cons_append, List.cons_prefix_cons, List.mem_cons, not_or]
  constructor
  · rintro ⟨⟨hd, hs⟩, rfl, hp⟩
    exact ⟨rfl, fun h => hd h.symm, hs, hp⟩
  · rintro ⟨rfl, hd, hs, hp⟩
    exact ⟨⟨fun h => hd h.symm, hs⟩, rfl, hp⟩

theorem HoldsString.ne_nil (h : HoldsString array string) : array ≠ [] := by
  rintro rfl
  have := h.2.length_le
  simp at this

/-- An array holds one string at most. -/
theorem HoldsString.unique (h : HoldsString array string) (h' : HoldsString array string') : string = string' := by
  induction array generalizing string string' with
  | nil => exact absurd rfl h.ne_nil
  | cons c rest ih =>
    cases string with
    | nil =>
      cases string' with
      | nil => rfl
      | cons d string' =>
        obtain ⟨rfl, hd, -⟩ := holdsString_cons.mp h'
        exact absurd (holdsString_nil.mp h) hd
    | cons d string =>
      obtain ⟨rfl, hd, hs⟩ := holdsString_cons.mp h
      cases string' with
      | nil => exact absurd (holdsString_nil.mp h') hd
      | cons d' string' =>
        obtain ⟨rfl, -, hs'⟩ := holdsString_cons.mp h'
        rw [ih hs hs']

theorem shadowLength_eq (h : HoldsString array string) : shadowLength array = .ok string.length := by
  induction string generalizing array with
  | nil =>
    obtain ⟨c, rest, rfl⟩ := List.exists_cons_of_ne_nil h.ne_nil
    rw [shadowLength, if_pos (holdsString_nil.mp h)]
    rfl
  | cons d string ih =>
    obtain ⟨c, rest, rfl⟩ := List.exists_cons_of_ne_nil h.ne_nil
    obtain ⟨rfl, hd, hs⟩ := holdsString_cons.mp h
    rw [shadowLength, if_neg hd, ih hs]
    rfl

theorem shadowEquals_eq (h : HoldsString array string) (h' : HoldsString array' string') :
    shadowEquals array array' = .ok (decide (string = string')) := by
  induction string generalizing array array' string' with
  | nil =>
    obtain ⟨c, rest, rfl⟩ := List.exists_cons_of_ne_nil h.ne_nil
    obtain ⟨c', rest', rfl⟩ := List.exists_cons_of_ne_nil h'.ne_nil
    obtain rfl := holdsString_nil.mp h
    rw [shadowEquals, if_neg (by simp)]
    cases string' with
    | nil =>
      obtain rfl := holdsString_nil.mp h'
      rfl
    | cons d' string' =>
      obtain ⟨rfl, hd, -⟩ := holdsString_cons.mp h'
      simpa using Ne.symm hd
  | cons d string ih =>
    obtain ⟨c, rest, rfl⟩ := List.exists_cons_of_ne_nil h.ne_nil
    obtain ⟨c', rest', rfl⟩ := List.exists_cons_of_ne_nil h'.ne_nil
    obtain ⟨rfl, hd, hs⟩ := holdsString_cons.mp h
    cases string' with
    | nil =>
      obtain rfl := holdsString_nil.mp h'
      rw [shadowEquals, if_neg (by simp)]
      simpa using hd
    | cons d' string' =>
      obtain ⟨rfl, hd', hs'⟩ := holdsString_cons.mp h'
      rw [shadowEquals, if_pos ⟨hd, hd'⟩]
      by_cases hcc : c = c'
      · subst hcc
        rw [if_neg (by simp), ih hs hs']
        simp
      · rw [if_pos hcc]
        simp [hcc]

theorem shadowStartsWith_eq (h : HoldsString array string) (h' : HoldsString array' string') :
    shadowStartsWith array array' = .ok (decide (string' <+: string)) := by
  induction string' generalizing array array' string with
  | nil =>
    obtain ⟨c, rest, rfl⟩ := List.exists_cons_of_ne_nil h.ne_nil
    obtain ⟨c', rest', rfl⟩ := List.exists_cons_of_ne_nil h'.ne_nil
    rw [shadowStartsWith, if_pos (holdsString_nil.mp h')]
    simp
  | cons d' string' ih =>
    obtain ⟨c, rest, rfl⟩ := List.exists_cons_of_ne_nil h.ne_nil
    obtain ⟨c', rest', rfl⟩ := List.exists_cons_of_ne_nil h'.ne_nil
    obtain ⟨rfl, hd', hs'⟩ := holdsString_cons.mp h'
    rw [shadowStartsWith, if_neg hd']
    cases string with
    | nil =>
      obtain rfl := holdsString_nil.mp h
      rw [if_pos (Ne.symm hd')]
      simp
    | cons d string =>
      obtain ⟨rfl, hd, hs⟩ := holdsString_cons.mp h
      by_cases hcc : c = c'
      · subst hcc
        rw [if_neg (by simp), ih hs hs']
        simp
      · rw [if_pos hcc]
        simp [Ne.symm hcc]

theorem store_eq {n : Nat} (v : Vector Byte n) {i : Nat} (h : i < n) (c : Byte) : store v i c = .ok (v.set i c) := by
  rw [store, dif_pos h]

/-- What a store behind the first `i` characters makes of them. -/
theorem take_set {n : Nat} (v : Vector Byte n) {i : Nat} (h : i < n) (c : Byte) :
    (v.set i c).toList.take (i + 1) = v.toList.take i ++ [c] := by
  have hlen : i < v.toList.length := by rw [Vector.length_toList]; exact h
  have hset : i < (v.toList.set i c).length := by rw [List.length_set]; exact hlen
  rw [Vector.toList_set, List.take_succ_eq_append_getElem hset, List.take_set_of_le (Nat.le_refl i),
    List.getElem_set_self]

end

/-! ### Writing texts -/

/-- A run that writes a text, or the front of it where a write fails. -/
structure Wrote (descriptor : Int) (text : Bytes) (answers : Answers) (run : Except Fault Unit × Answers × List Event) :
    Prop where
  ok : run.1 = .ok ()
  writes : ∀ t ∈ run.2.2, IsWrite descriptor t
  front : taken run.2.2 <+: text
  all : Positive answers → taken run.2.2 = text
  positive : Positive answers → Positive run.2.1

theorem taken_append (l l' : List Event) : taken (l ++ l') = taken l ++ taken l' := List.flatMap_append

theorem taken_write (descriptor : Int) (text : Bytes) : taken [.write descriptor text] = text := List.append_nil text

section

variable {descriptor : Int} {answers : Answers}

theorem Positive.later (h : Positive answers) : Positive fun i => answers (i + 1) := fun i => h (i + 1)

theorem wrote_writeLoop (text : Bytes) (remaining : Nat) (answers : Answers) :
    Wrote descriptor (text.take remaining) answers (writeLoop descriptor text remaining answers) := by
  induction remaining using Nat.strongRecOn generalizing text answers with
  | ind remaining ih =>
    rw [writeLoop]
    by_cases hzero : remaining = 0
    · subst hzero
      rw [if_pos rfl, List.take_zero]
      exact ⟨rfl, by rintro t ⟨⟩, List.nil_prefix, fun _ => rfl, fun h => h⟩
    · rw [if_neg hzero]
      have hrun : sysWrite descriptor text remaining answers = (.ok ((answers 0).write remaining),
          fun i => answers (i + 1), [.write descriptor (text.take ((answers 0).write remaining).1.toNat)]) := rfl
      rw [run_bind_ok hrun]
      have hle := ((answers 0).write remaining).2
      by_cases hfail : ((answers 0).write remaining).1 ≤ 0
      · rw [if_pos hfail]
        have hnat : ((answers 0).write remaining).1.toNat = 0 := by omega
        rw [hnat]
        refine ⟨rfl, ?_, List.nil_prefix, fun h => ?_, fun h => h.later⟩
        · intro t ht
          exact ⟨_, List.mem_singleton.mp ht⟩
        · have := h 0 remaining (by omega)
          omega
      · rw [if_neg hfail]
        -- the rest of the text goes the way of the whole
        have hrest := ih (remaining - ((answers 0).write remaining).1.toNat) (by omega)
          (text.drop ((answers 0).write remaining).1.toNat) (fun i => answers (i + 1))
        have hsplit : text.take remaining = text.take ((answers 0).write remaining).1.toNat ++
            (text.drop ((answers 0).write remaining).1.toNat).take
              (remaining - ((answers 0).write remaining).1.toNat) := by
          rw [← List.take_add]
          congr 1
          omega
        refine ⟨hrest.ok, ?_, ?_, fun h => ?_, fun h => hrest.positive h.later⟩
        · intro t ht
          rcases List.mem_append.mp ht with ht | ht
          · exact ⟨_, List.mem_singleton.mp ht⟩
          · exact hrest.writes t ht
        · rw [hsplit, taken_append, taken_write]
          exact (List.prefix_append_right_inj _).mpr hrest.front
        · rw [hsplit, taken_append, taken_write, hrest.all h.later]

/-- A string goes out up to its zero byte, whole if no write fails. -/
theorem wrote_shadowWriteText {array string : Bytes} (h : HoldsString array string) (answers : Answers) :
    Wrote descriptor string answers (shadowWriteText descriptor array answers) := by
  have htake : array.take string.length = string := by
    obtain ⟨rest, rfl⟩ := h.2
    rw [List.append_assoc, List.take_left]
  have hloop : Wrote descriptor (array.take string.length) answers (writeLoop descriptor array string.length answers) :=
    wrote_writeLoop array string.length answers
  rw [htake] at hloop
  rwa [shadowWriteText, run_ofExcept_bind (shadowLength_eq h)]

end

end ShadowMsm.Userspace
