import Mathlib.Logic.Relation
import ShadowMsm.Kernel.Fdt

/-!
# `parse_fdt` on hostile input

On any bytes the parser ends, and every field it unpacks lies inside the file: the header fields behind the first
length check, the others behind the checks that put the blocks into the file.  It ends with its own `SystemExit`
on everything that is malformed, except for a name that is not ASCII: the `UnicodeDecodeError` of `cstring` is not
caught.  Which names are decoded can be said of the bytes alone: those of the tokens met when one steps over
tokens from the start of the structure block on (`parseFdt_safe_iff`).
-/

namespace ShadowMsm.Kernel

/-! ### What the file says -/

/-- The big-endian number in `k` bytes of the file. -/
def fieldAt (k : Nat) (data : Bytes) (offset : Nat) : Nat := fromBytesBig ((data.drop offset).take k)

/-- The bytes of a text, up to the first zero before the limit. -/
def textAt (data : Bytes) (offset limit : Nat) : Option Bytes :=
  let field := (data.take limit).drop offset
  if field.contains 0 then some (field.takeWhile (· ≠ 0)) else none

/-- The fields of the header. -/
def headerOf (dtb : Bytes) : FdtHeader where
  structOffset := fieldAt 4 dtb 8
  stringsOffset := fieldAt 4 dtb 12
  reserveOffset := fieldAt 4 dtb 16
  stringsSize := fieldAt 4 dtb 32
  structSize := fieldAt 4 dtb 36

/-- The header is whole, has the magic and the size of the file, and its blocks are inside the file. -/
structure HeaderOk (dtb : Bytes) : Prop where
  length : 40 ≤ dtb.length
  magic : fieldAt 4 dtb 0 = 0xD00DFEED
  totalSize : fieldAt 4 dtb 4 = dtb.length
  structEnd_le : (headerOf dtb).structEnd ≤ dtb.length
  stringsEnd_le : (headerOf dtb).stringsEnd ≤ dtb.length

/-- Some entry of the reserve map from `cursor` on is the entry of zeros and lies inside the file. -/
def ReservesOk (dtb : Bytes) (cursor : Nat) : Prop :=
  ∃ n, cursor + 16 * n + 16 ≤ dtb.length ∧ fieldAt 8 dtb (cursor + 16 * n) = 0 ∧
    fieldAt 8 dtb (cursor + 16 * n + 8) = 0

section tokens

variable (dtb : Bytes) (header : FdtHeader)

/-- The bytes of the name that the token at `c` has, if they are all there. -/
def nameRead (c : Nat) : Option Bytes :=
  if fieldAt 4 dtb c = FDT_BEGIN_NODE then textAt dtb (c + 4) header.structEnd
  else if fieldAt 4 dtb c = FDT_PROP ∧ c + 12 ≤ header.structEnd ∧
      c + 12 + fieldAt 4 dtb (c + 4) ≤ header.structEnd ∧ fieldAt 4 dtb (c + 8) < header.stringsSize then
    textAt dtb (header.stringsOffset + fieldAt 4 dtb (c + 8)) header.stringsEnd
  else none

/-- Where the token behind the one at `c` is, and how many nodes are open there; `d` are open at `c`. -/
def nextToken : Nat × Nat → Option (Nat × Nat)
  | (c, d) =>
    if header.structEnd < c + 4 then none
    else if fieldAt 4 dtb c = FDT_BEGIN_NODE then
      (nameRead dtb header c).map fun name => (align4 (c + 4 + name.length + 1), d + 1)
    else if fieldAt 4 dtb c = FDT_END_NODE then if d = 0 then none else some (c + 4, d - 1)
    else if fieldAt 4 dtb c = FDT_PROP then
      (nameRead dtb header c).map fun _ => (align4 (c + 12 + fieldAt 4 dtb (c + 4)), d)
    else if fieldAt 4 dtb c = FDT_NOP then some (c + 4, d)
    else none

/-- A token at the second place is met from the first one on. -/
def Met : Nat × Nat → Nat × Nat → Prop := Relation.ReflTransGen fun p q => nextToken dtb header p = some q

/-- The name of the token at `c`, if it lies inside the structure block and has one, is ASCII. -/
def AsciiAt (c : Nat) : Prop :=
  c + 4 ≤ header.structEnd → ∀ name ∈ nameRead dtb header c, ∀ b ∈ name, b < 0x80

end tokens

/-- When the header and the reserve map are in order, every token met from the start of the structure block on has
an ASCII name. -/
def AsciiNames (dtb : Bytes) : Prop :=
  HeaderOk dtb → ReservesOk dtb (headerOf dtb).reserveOffset →
    ∀ p, Met dtb (headerOf dtb) ((headerOf dtb).structOffset, 0) p → AsciiAt dtb (headerOf dtb) p.1

/-- The result of a parser that raises nothing but `SystemExit`. -/
def Safe {α : Type} (r : Except Exn α) : Prop := ∀ e, r = .error e → ∃ msg, e = .systemExit msg

/-! ### Single reads -/

theorem unpackBig_of_le {k : Nat} {data : Bytes} {offset : Nat} (h : offset + k ≤ data.length) :
    unpackBig k data offset = .ok (fieldAt k data offset) := if_pos h

theorem exitIf_of_pos {bad : Prop} [Decidable bad] {msg : String} (h : bad) :
    exitIf bad msg = .error (.systemExit msg) :=
  if_pos h

theorem bind_of_error {ε α β : Type} {x : Except ε α} {f : α → Except ε β} {e : ε} (h : x = .error e) :
    (x >>= f) = .error e := by
  rw [h]
  rfl

/-- A text that is not ASCII raises a `ValueError`. -/
theorem decodeStrict_of_not_lt {bs : Bytes} (h : ¬ ∀ b ∈ bs, b < 0x80) :
    ∃ msg, decodeStrict bs = .error (.valueError msg) := by
  rcases hfind : bs.find? (0x80 ≤ ·) with - | bad
  · refine absurd (fun b hb => ?_) h
    have := List.find?_eq_none.mp hfind b hb
    simpa using this
  · rw [decodeStrict, hfind]
    exact ⟨_, rfl⟩

/-- `cstring` exits when there is no terminator, and otherwise decodes. -/
theorem cstring_eq (data : Bytes) (offset limit : Nat) :
    cstring data offset limit =
      (textAt data offset limit).elim (.error (.systemExit "unterminated FDT string")) decodeStrict := by
  rw [cstring, textAt]
  split <;> rfl

/-- What a read of a name can do. -/
theorem cstring_cases (data : Bytes) (offset limit : Nat) :
    (textAt data offset limit = none ∧ ∃ msg, cstring data offset limit = .error (.systemExit msg)) ∨
      ∃ name, textAt data offset limit = some name ∧
        (((∀ b ∈ name, b < 0x80) ∧ ∃ text, cstring data offset limit = .ok text ∧ text.length = name.length) ∨
          ((¬ ∀ b ∈ name, b < 0x80) ∧ ∃ msg, cstring data offset limit = .error (.valueError msg))) := by
  rcases h : textAt data offset limit with - | name
  · left
    rw [cstring_eq, h]
    exact ⟨rfl, _, rfl⟩
  · right
    refine ⟨name, rfl, ?_⟩
    rw [cstring_eq, h]
    by_cases hascii : ∀ b ∈ name, b < 0x80
    · exact Or.inl ⟨hascii, _, decodeStrict_of_lt hascii, List.length_map _⟩
    · exact Or.inr ⟨hascii, decodeStrict_of_not_lt hascii⟩

/-! ### Single tokens -/

section

variable {dtb : Bytes} {header : FdtHeader} {c : Nat} {stack : List (List Char)} {ps : Properties}

/-- What a property can do to the parser. -/
theorem structProp_cases (hend : header.structEnd ≤ dtb.length) (ht : fieldAt 4 dtb c = FDT_PROP) :
    (nameRead dtb header c = none ∧ ∃ msg, structProp dtb header ⟨c + 4, stack, ps⟩ = .error (.systemExit msg)) ∨
      ∃ name, nameRead dtb header c = some name ∧
        (((∀ b ∈ name, b < 0x80) ∧ ∃ ps', structProp dtb header ⟨c + 4, stack, ps⟩ =
            .ok ⟨align4 (c + 12 + fieldAt 4 dtb (c + 4)), stack, ps'⟩) ∨
          ((¬ ∀ b ∈ name, b < 0x80) ∧
            ∃ msg, structProp dtb header ⟨c + 4, stack, ps⟩ = .error (.valueError msg))) := by
  have hbegin : ¬ fieldAt 4 dtb c = FDT_BEGIN_NODE := by
    rw [ht]
    decide
  rw [nameRead, if_neg hbegin]
  by_cases hheader : c + 12 ≤ header.structEnd
  · have hlength : unpackBig 4 dtb (c + 4) = .ok (fieldAt 4 dtb (c + 4)) := unpackBig_of_le (by omega)
    have hoffset : unpackBig 4 dtb (c + 4 + 4) = .ok (fieldAt 4 dtb (c + 8)) := unpackBig_of_le (by omega)
    have hstart : structProp dtb header ⟨c + 4, stack, ps⟩ = (do
        exitIf (header.structEnd < c + 4 + 8 + fieldAt 4 dtb (c + 4)) "truncated FDT property value"
        exitIf (header.stringsSize ≤ fieldAt 4 dtb (c + 8)) "FDT property name is out of bounds"
        let name ← cstring dtb (header.stringsOffset + fieldAt 4 dtb (c + 8)) header.stringsEnd
        return ⟨align4 (c + 4 + 8 + fieldAt 4 dtb (c + 4)), stack,
          ((nodePath stack, name), (dtb.drop (c + 4 + 8)).take (fieldAt 4 dtb (c + 4))) :: ps⟩) := by
      refine (bind_of_ok (exitIf_of_not (by dsimp only; omega))).trans ?_
      refine (bind_of_ok hlength).trans ?_
      exact bind_of_ok hoffset
    rw [hstart]
    by_cases hvalue : c + 12 + fieldAt 4 dtb (c + 4) ≤ header.structEnd
    · by_cases hname : fieldAt 4 dtb (c + 8) < header.stringsSize
      · rw [if_pos ⟨ht, hheader, hvalue, hname⟩]
        have hread : ∀ {α : Type} (f : List Char → Except Exn α), (do
            exitIf (header.structEnd < c + 4 + 8 + fieldAt 4 dtb (c + 4)) "truncated FDT property value"
            exitIf (header.stringsSize ≤ fieldAt 4 dtb (c + 8)) "FDT property name is out of bounds"
            let name ← cstring dtb (header.stringsOffset + fieldAt 4 dtb (c + 8)) header.stringsEnd
            f name) = cstring dtb (header.stringsOffset + fieldAt 4 dtb (c + 8)) header.stringsEnd >>= f := by
          intro α f
          refine (bind_of_ok (exitIf_of_not (by omega))).trans ?_
          exact bind_of_ok (exitIf_of_not (by omega))
        rw [hread]
        rcases cstring_cases dtb (header.stringsOffset + fieldAt 4 dtb (c + 8)) header.stringsEnd with
          ⟨hnone, msg, hexit⟩ | ⟨name, hsome, ⟨hascii, text, hok, -⟩ | ⟨hnot, msg, hbad⟩⟩
        · exact Or.inl ⟨hnone, msg, bind_of_error hexit⟩
        · exact Or.inr ⟨name, hsome, Or.inl ⟨hascii, _, bind_of_ok hok⟩⟩
        · exact Or.inr ⟨name, hsome, Or.inr ⟨hnot, msg, bind_of_error hbad⟩⟩
      · rw [if_neg fun h => hname h.2.2.2]
        refine Or.inl ⟨rfl, "FDT property name is out of bounds", (bind_of_ok (exitIf_of_not (by omega))).trans ?_⟩
        exact bind_of_error (exitIf_of_pos (by omega))
    · rw [if_neg fun h => hvalue h.2.2.1]
      exact Or.inl ⟨rfl, _, bind_of_error (exitIf_of_pos (by omega))⟩
  · rw [if_neg fun h => hheader h.2.1]
    exact Or.inl ⟨rfl, _, bind_of_error (exitIf_of_pos (by dsimp only; omega))⟩

/-- What a token can do to the parser, and what the walk over the tokens makes of it. -/
theorem structToken_cases (hend : header.structEnd ≤ dtb.length) (hc : c + 4 ≤ header.structEnd) :
    (∃ s', structToken dtb header ⟨c, stack, ps⟩ = .ok (.inl s') ∧
        nextToken dtb header (c, stack.length) = some (s'.cursor, s'.stack.length) ∧ AsciiAt dtb header c) ∨
      (nextToken dtb header (c, stack.length) = none ∧ AsciiAt dtb header c ∧
        ((∃ ps', structToken dtb header ⟨c, stack, ps⟩ = .ok (.inr ps')) ∨
          ∃ msg, structToken dtb header ⟨c, stack, ps⟩ = .error (.systemExit msg))) ∨
      (¬ AsciiAt dtb header c ∧ ∃ msg, structToken dtb header ⟨c, stack, ps⟩ = .error (.valueError msg)) := by
  have htoken : unpackBig 4 dtb c = .ok (fieldAt 4 dtb c) := unpackBig_of_le (by omega)
  have hascii : ∀ name, nameRead dtb header c = some name → ((∀ b ∈ name, b < 0x80) ↔ AsciiAt dtb header c) := by
    intro name hname
    simp [AsciiAt, hc, hname]
  have hnone : nameRead dtb header c = none → AsciiAt dtb header c := by
    intro hname
    simp [AsciiAt, hname]
  have hstart := fun f : Nat → Except Exn (FdtState ⊕ Properties) => bind_of_ok (f := f) htoken
  have hinside : ¬ header.structEnd < c + 4 := by omega
  rw [structToken, hstart, nextToken, if_neg hinside]
  dsimp only
  by_cases h1 : fieldAt 4 dtb c = FDT_BEGIN_NODE
  · rw [if_pos h1, if_pos h1]
    have hread : nameRead dtb header c = textAt dtb (c + 4) header.structEnd := if_pos h1
    rcases cstring_cases dtb (c + 4) header.structEnd with
      ⟨hn, msg, hexit⟩ | ⟨name, hsome, ⟨hlt, text, hok, hlen⟩ | ⟨hnot, msg, hbad⟩⟩
    · refine Or.inr (Or.inl ⟨?_, hnone (hread.trans hn), Or.inr ⟨msg, bind_of_error hexit⟩⟩)
      rw [hread, hn]
      rfl
    · refine Or.inl ⟨_, bind_of_ok hok, ?_, (hascii name (hread.trans hsome)).mp hlt⟩
      rw [hread, hsome, Option.map_some, hlen, List.length_append]
      rfl
    · exact Or.inr (Or.inr ⟨fun h => hnot ((hascii name (hread.trans hsome)).mpr h), msg, bind_of_error hbad⟩)
  rw [if_neg h1, if_neg h1]
  by_cases h2 : fieldAt 4 dtb c = FDT_END_NODE
  · have hread : nameRead dtb header c = none := by
      rw [nameRead, if_neg h1, if_neg]
      rw [h2]
      exact fun h => absurd h.1 (by decide)
    rw [if_pos h2, if_pos h2]
    by_cases hstack : stack = []
    · rw [hstack]
      exact Or.inr (Or.inl ⟨rfl, hnone hread, Or.inr ⟨_, bind_of_error (exitIf_of_pos rfl)⟩⟩)
    · have hlen : ¬ stack.length = 0 := fun h => hstack (List.length_eq_zero_iff.mp h)
      refine Or.inl ⟨_, bind_of_ok (exitIf_of_not hstack), ?_, hnone hread⟩
      rw [if_neg hlen, List.length_dropLast]
  rw [if_neg h2, if_neg h2]
  by_cases h3 : fieldAt 4 dtb c = FDT_PROP
  · rw [if_pos h3, if_pos h3]
    rcases @structProp_cases dtb header c stack ps hend h3 with
      ⟨hn, msg, hexit⟩ | ⟨name, hsome, ⟨hlt, ps', hok⟩ | ⟨hnot, msg, hbad⟩⟩
    · refine Or.inr (Or.inl ⟨?_, hnone hn, Or.inr ⟨msg, bind_of_error hexit⟩⟩)
      rw [hn]
      rfl
    · refine Or.inl ⟨_, bind_of_ok hok, ?_, (hascii name hsome).mp hlt⟩
      rw [hsome]
      rfl
    · exact Or.inr (Or.inr ⟨fun h => hnot ((hascii name hsome).mpr h), msg, bind_of_error hbad⟩)
  have hread : nameRead dtb header c = none := by
    rw [nameRead, if_neg h1, if_neg fun h => h3 h.1]
  rw [if_neg h3, if_neg h3]
  by_cases h4 : fieldAt 4 dtb c = FDT_NOP
  · rw [if_pos h4, if_pos h4]
    exact Or.inl ⟨_, rfl, rfl, hnone hread⟩
  rw [if_neg h4, if_neg h4]
  refine Or.inr (Or.inl ⟨rfl, hnone hread, ?_⟩)
  by_cases h5 : fieldAt 4 dtb c = FDT_END
  · rw [if_pos h5]
    by_cases hstack : stack = []
    · exact Or.inl ⟨ps, bind_of_ok (exitIf_of_not (not_not.mpr hstack))⟩
    · exact Or.inr ⟨_, bind_of_error (exitIf_of_pos hstack)⟩
  · rw [if_neg h5]
    exact Or.inr ⟨_, rfl⟩

end

/-! ### The loops -/

theorem safe_ok {α : Type} (a : α) : Safe (.ok a : Except Exn α) := fun _ h => by cases h

theorem safe_systemExit {α : Type} (msg : String) :
    Safe (.error (.systemExit msg) : Except Exn α) := fun _ h => by
  cases h
  exact ⟨msg, rfl⟩

theorem not_safe_valueError {α : Type} (msg : String) :
    ¬ Safe (.error (.valueError msg) : Except Exn α) := fun h => by
  obtain ⟨msg', h⟩ := h _ rfl
  cases h

/-- What holds of all the tokens met from `p` on holds of `p` and of all those met from the next one on. -/
theorem forall_met_iff {dtb : Bytes} {header : FdtHeader} {p : Nat × Nat} {P : Nat × Nat → Prop} :
    (∀ r, Met dtb header p r → P r) ↔
      P p ∧ ∀ q, nextToken dtb header p = some q → ∀ r, Met dtb header q r → P r := by
  constructor
  · intro h
    exact ⟨h p .refl, fun q hq r hr => h r (.head hq hr)⟩
  · rintro ⟨hp, h⟩ r hr
    rcases hr.cases_head with rfl | ⟨q, hq, hr⟩
    · exact hp
    · exact h q hq r hr

/-- The header is read as it stands in the file, or the parser exits. -/
theorem parseHeader_cases (dtb : Bytes) :
    (HeaderOk dtb ∧ parseHeader dtb = .ok (headerOf dtb)) ∨
      (¬ HeaderOk dtb ∧ ∃ msg, parseHeader dtb = .error (.systemExit msg)) := by
  by_cases hlen : 40 ≤ dtb.length
  swap
  · exact Or.inr ⟨fun h => hlen h.length, _, bind_of_error (exitIf_of_pos (by omega))⟩
  have hread (i : Nat) (hi : i + 4 ≤ 40) : unpackBig 4 dtb i = .ok (fieldAt 4 dtb i) := unpackBig_of_le (by omega)
  have hchecks : parseHeader dtb = (do
      exitIf (fieldAt 4 dtb 0 ≠ 0xD00DFEED) ("bad FDT magic: 0x" ++ format08X (fieldAt 4 dtb 0))
      exitIf (fieldAt 4 dtb 4 ≠ dtb.length)
        ("FDT size mismatch: header=" ++ toString (fieldAt 4 dtb 4) ++ ", file=" ++ toString dtb.length)
      exitIf (dtb.length < (headerOf dtb).structEnd) "FDT structure block is out of bounds"
      exitIf (dtb.length < (headerOf dtb).stringsEnd) "FDT strings block is out of bounds"
      return headerOf dtb) := by
    refine (bind_of_ok (exitIf_of_not (by omega))).trans ?_
    refine (bind_of_ok (hread 0 (by omega))).trans ?_
    refine (bind_of_ok (hread 4 (by omega))).trans ?_
    refine (bind_of_ok (hread 8 (by omega))).trans ?_
    refine (bind_of_ok (hread 12 (by omega))).trans ?_
    refine (bind_of_ok (hread 16 (by omega))).trans ?_
    refine (bind_of_ok (hread 32 (by omega))).trans ?_
    exact bind_of_ok (hread 36 (by omega))
  rw [hchecks]
  by_cases hmagic : fieldAt 4 dtb 0 = 0xD00DFEED
  swap
  · exact Or.inr ⟨fun h => hmagic h.magic, _, bind_of_error (exitIf_of_pos hmagic)⟩
  rw [bind_of_ok (exitIf_of_not (not_not.mpr hmagic))]
  by_cases hsize : fieldAt 4 dtb 4 = dtb.length
  swap
  · exact Or.inr ⟨fun h => hsize h.totalSize, _, bind_of_error (exitIf_of_pos hsize)⟩
  rw [bind_of_ok (exitIf_of_not (not_not.mpr hsize))]
  by_cases hstruct : dtb.length < (headerOf dtb).structEnd
  · exact Or.inr ⟨fun h => absurd h.structEnd_le (by omega), _, bind_of_error (exitIf_of_pos hstruct)⟩
  rw [bind_of_ok (exitIf_of_not hstruct)]
  by_cases hstrings : dtb.length < (headerOf dtb).stringsEnd
  · exact Or.inr ⟨fun h => absurd h.stringsEnd_le (by omega), _, bind_of_error (exitIf_of_pos hstrings)⟩
  rw [bind_of_ok (exitIf_of_not hstrings)]
  exact Or.inl ⟨⟨hlen, hmagic, hsize, by omega, by omega⟩, rfl⟩

/-- The reserve map is read up to its last entry, or the parser exits. -/
theorem parseReserves_cases (dtb : Bytes) (cursor : Nat) :
    (ReservesOk dtb cursor ∧ ∃ reserves, parseReserves dtb cursor = .ok reserves) ∨
      (¬ ReservesOk dtb cursor ∧ ∃ msg, parseReserves dtb cursor = .error (.systemExit msg)) := by
  induction cursor using parseReserves.induct dtb with
  | case1 cursor h ih =>
    have hstart : parseReserves dtb cursor =
        if fieldAt 8 dtb cursor = 0 ∧ fieldAt 8 dtb (cursor + 8) = 0 then .ok []
        else do
          let reserves ← parseReserves dtb (cursor + 16)
          return (fieldAt 8 dtb cursor, fieldAt 8 dtb (cursor + 8)) :: reserves := by
      rw [parseReserves, if_pos h, bind_of_ok (unpackBig_of_le (by omega)), bind_of_ok (unpackBig_of_le (by omega))]
      rfl
    rw [hstart]
    by_cases hzero : fieldAt 8 dtb cursor = 0 ∧ fieldAt 8 dtb (cursor + 8) = 0
    · rw [if_pos hzero]
      exact Or.inl ⟨⟨0, h, hzero⟩, [], rfl⟩
    rw [if_neg hzero]
    -- an entry that is not the last leaves the question to the rest of the map
    have hnext : ReservesOk dtb cursor ↔ ReservesOk dtb (cursor + 16) := by
      constructor
      · rintro ⟨n, hn, hfirst, hsecond⟩
        cases n with
        | zero => exact absurd ⟨hfirst, hsecond⟩ hzero
        | succ n =>
          have hoffset : cursor + 16 * (n + 1) = cursor + 16 + 16 * n := by omega
          rw [hoffset] at hn hfirst hsecond
          exact ⟨n, hn, hfirst, hsecond⟩
      · rintro ⟨n, hn, hfirst, hsecond⟩
        have hoffset : cursor + 16 + 16 * n = cursor + 16 * (n + 1) := by omega
        rw [hoffset] at hn hfirst hsecond
        exact ⟨n + 1, hn, hfirst, hsecond⟩
    rw [hnext]
    rcases ih with ⟨hok, reserves, hr⟩ | ⟨hnot, msg, hr⟩
    · exact Or.inl ⟨hok, _, bind_of_ok hr⟩
    · exact Or.inr ⟨hnot, msg, bind_of_error hr⟩
  | case2 cursor h =>
    rw [parseReserves, if_neg h]
    exact Or.inr ⟨fun ⟨n, hn, _⟩ => h (by omega), _, rfl⟩

/-- The loop over the structure block raises no unpacking error, and nothing but `SystemExit` exactly if the names
it meets are ASCII. -/
theorem parseStruct_safe_iff {dtb : Bytes} {header : FdtHeader} (hend : header.structEnd ≤ dtb.length)
    (s : FdtState) :
    parseStruct dtb header s ≠ .error .structError ∧
      (Safe (parseStruct dtb header s) ↔
        ∀ p, Met dtb header (s.cursor, s.stack.length) p → AsciiAt dtb header p.1) := by
  -- every token moves the cursor by four bytes or more, so the room left in the block decreases
  induction h : header.structEnd - s.cursor using Nat.strongRecOn generalizing s with
  | _ n ih =>
  rw [forall_met_iff]
  by_cases hc : s.cursor + 4 ≤ header.structEnd
  swap
  · have hnone : nextToken dtb header (s.cursor, s.stack.length) = none := if_pos (by omega)
    have hrun : parseStruct dtb header s = .error (.systemExit "FDT structure has no end token") := by
      rw [parseStruct, if_neg hc]
      rfl
    rw [hrun, hnone]
    exact ⟨by simp, iff_of_true (safe_systemExit _) ⟨fun h => absurd h hc, by simp⟩⟩
  rcases @structToken_cases dtb header s.cursor s.stack s.properties hend hc with
    ⟨s', hok, hnext, hascii⟩ | ⟨hnone, hascii, ⟨ps, hlast⟩ | ⟨msg, hlast⟩⟩ | ⟨hnot, msg, hbad⟩
  · have hadvance : s.cursor + 4 ≤ s'.cursor := structToken_advances hok
    rw [parseStruct_token hc hok, hnext]
    obtain ⟨hne, hiff⟩ := ih _ (by omega) s' rfl
    refine ⟨hne, hiff.trans ⟨fun h => ⟨hascii, ?_⟩, fun h => h.2 _ rfl⟩⟩
    rintro q hq
    cases hq
    exact h
  · rw [(parseStruct_eq hc).trans (bind_of_ok hlast), hnone]
    exact ⟨by simp, iff_of_true (safe_ok _) ⟨hascii, by simp⟩⟩
  · rw [(parseStruct_eq hc).trans (bind_of_error hlast), hnone]
    exact ⟨by simp, iff_of_true (safe_systemExit _) ⟨hascii, by simp⟩⟩
  · rw [(parseStruct_eq hc).trans (bind_of_error hbad)]
    exact ⟨by simp, iff_of_false (not_safe_valueError _) fun h => hnot h.1⟩

/-- On any bytes the parser ends without an unpacking error, and with a result or `SystemExit` exactly if the
names of the tokens it meets are ASCII. -/
theorem parseFdt_safe_iff (dtb : Bytes) :
    parseFdt dtb ≠ .error .structError ∧ (Safe (parseFdt dtb) ↔ AsciiNames dtb) := by
  rcases parseHeader_cases dtb with ⟨hheader, hh⟩ | ⟨hheader, msg, hh⟩
  swap
  · rw [parseFdt, bind_of_error hh]
    exact ⟨by simp, iff_of_true (safe_systemExit _) fun h => absurd h hheader⟩
  rcases parseReserves_cases dtb (headerOf dtb).reserveOffset with ⟨hreserves, reserves, hr⟩ | ⟨hreserves, msg, hr⟩
  swap
  · rw [parseFdt, bind_of_ok hh, bind_of_error hr]
    exact ⟨by simp, iff_of_true (safe_systemExit _) fun _ h => absurd h hreserves⟩
  obtain ⟨hne, hiff⟩ := parseStruct_safe_iff hheader.structEnd_le ⟨(headerOf dtb).structOffset, [], []⟩
  have hnames : AsciiNames dtb ↔ Safe (parseStruct dtb (headerOf dtb) ⟨(headerOf dtb).structOffset, [], []⟩) :=
    ⟨fun h => hiff.mpr (h hheader hreserves), fun h _ _ => hiff.mp h⟩
  rw [hnames, parseFdt, bind_of_ok hh, bind_of_ok hr]
  rcases hs : parseStruct dtb (headerOf dtb) ⟨(headerOf dtb).structOffset, [], []⟩ with e | ps
  · refine ⟨fun h => hne ?_, ?_⟩
    · cases h
      exact hs
    · exact ⟨fun h e' he' => h e' (by cases he'; rfl), fun h e' he' => h e' (by cases he'; rfl)⟩
  · exact ⟨by simp, iff_of_true (safe_ok _) (safe_ok _)⟩

instance : DecidableEq (List (Nat × Nat) × Properties) := instDecidableEqProd

/-- A file of 76 bytes whose only node has the byte 0x80 for its name. -/
def badName : Bytes :=
  [0xD0, 0x0D, 0xFE, 0xED, 0, 0, 0, 76, 0, 0, 0, 56, 0, 0, 0, 76, 0, 0, 0, 40, 0, 0, 0, 17, 0, 0, 0, 16, 0, 0, 0, 0,
    0, 0, 0, 0, 0, 0, 0, 20] ++ List.replicate 16 0 ++
  [0, 0, 0, 1, 0x80, 0, 0, 0, 0, 0, 0, 2, 0, 0, 0, 4, 0, 0, 0, 9]

theorem parseFdt_badName : parseFdt badName =
    .error (.valueError "'ascii' codec can't decode byte 0x80 in position 0: ordinal not in range(128)") ∧
      ¬ Safe (parseFdt badName) := by
  have h : parseFdt badName =
      .error (.valueError "'ascii' codec can't decode byte 0x80 in position 0: ordinal not in range(128)") := by
    decide +kernel
  refine ⟨h, ?_⟩
  rw [h]
  exact not_safe_valueError _

end ShadowMsm.Kernel
