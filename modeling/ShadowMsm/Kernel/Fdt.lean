import ShadowMsm.Python

/-!
# Flattened device trees

`parse_fdt` of `verify_probe.py`: the header, the reserve map, and the structure block, token by token.  The
cursor moves forward with every token (`structToken_advances`), so the parser ends on every file.
-/

namespace ShadowMsm.Kernel

/-! ### Python -/

/-- `if bad: raise SystemExit(msg)` -/
def exitIf (bad : Prop) [Decidable bad] (msg : String) : Except Exn Unit :=
  if bad then throw (.systemExit msg) else return ()

/-- `struct.unpack_from` of one big-endian field of `k` bytes. -/
def unpackBig (k : Nat) (data : Bytes) (offset : Nat) : Except Exn Nat :=
  if offset + k ≤ data.length then return fromBytesBig ((data.drop offset).take k) else throw .structError

/-- `struct.unpack_from("<I", data, offset)` -/
def unpackLittle (data : Bytes) (offset : Nat) : Except Exn Nat :=
  if offset + 4 ≤ data.length then return fromBytesBig ((data.drop offset).take 4).reverse else throw .structError

theorem of_exitIf_ok {bad : Prop} [Decidable bad] {msg : String} {u : Unit} (h : exitIf bad msg = .ok u) :
    ¬bad := by
  intro hbad
  rw [exitIf, if_pos hbad] at h
  cases h

theorem exitIf_of_not {bad : Prop} [Decidable bad] {msg : String} (h : ¬ bad) : exitIf bad msg = .ok () :=
  if_neg h

theorem of_unpackBig_ok {k : Nat} {data : Bytes} {offset n : Nat} (h : unpackBig k data offset = .ok n) :
    offset + k ≤ data.length ∧ fromBytesBig ((data.drop offset).take k) = n := by
  unfold unpackBig at h
  split at h
  · cases h
    exact ⟨‹_›, rfl⟩
  · cases h

/-! ### The parser -/

def FDT_BEGIN_NODE : Nat := 1
def FDT_END_NODE : Nat := 2
def FDT_PROP : Nat := 3
def FDT_NOP : Nat := 4
def FDT_END : Nat := 9

def align4 (value : Nat) : Nat := (value + 3) / 4 * 4

/-- `cstring`: the text from `offset` to the first zero before `limit`. -/
def cstring (data : Bytes) (offset limit : Nat) : Except Exn (List Char) :=
  let field := (data.take limit).drop offset
  if field.contains 0 then decodeStrict (field.takeWhile (· ≠ 0)) else throw (.systemExit "unterminated FDT string")

/-- The fields of the header that are used. -/
structure FdtHeader where
  structOffset : Nat
  stringsOffset : Nat
  reserveOffset : Nat
  stringsSize : Nat
  structSize : Nat

namespace FdtHeader

def structEnd (header : FdtHeader) : Nat := header.structOffset + header.structSize

def stringsEnd (header : FdtHeader) : Nat := header.stringsOffset + header.stringsSize

end FdtHeader

/-- The header and its checks. -/
def parseHeader (dtb : Bytes) : Except Exn FdtHeader := do
  exitIf (dtb.length < 40) "FDT is shorter than its header"
  let magic ← unpackBig 4 dtb 0
  let totalSize ← unpackBig 4 dtb 4
  let structOffset ← unpackBig 4 dtb 8
  let stringsOffset ← unpackBig 4 dtb 12
  let reserveOffset ← unpackBig 4 dtb 16
  let stringsSize ← unpackBig 4 dtb 32
  let structSize ← unpackBig 4 dtb 36
  exitIf (magic ≠ 0xD00DFEED) ("bad FDT magic: 0x" ++ format08X magic)
  exitIf (totalSize ≠ dtb.length)
    ("FDT size mismatch: header=" ++ toString totalSize ++ ", file=" ++ toString dtb.length)
  exitIf (dtb.length < structOffset + structSize) "FDT structure block is out of bounds"
  exitIf (dtb.length < stringsOffset + stringsSize) "FDT strings block is out of bounds"
  return ⟨structOffset, stringsOffset, reserveOffset, stringsSize, structSize⟩

/-- The reserve map, an address and a size each, up to the entry of zeros. -/
def parseReserves (dtb : Bytes) (cursor : Nat) : Except Exn (List (Nat × Nat)) :=
  if cursor + 16 ≤ dtb.length then do
    let address ← unpackBig 8 dtb cursor
    let size ← unpackBig 8 dtb (cursor + 8)
    if address = 0 ∧ size = 0 then return []
    else do
      let reserves ← parseReserves dtb (cursor + 16)
      return (address, size) :: reserves
  else throw (.systemExit "FDT reserve map is out of bounds")
termination_by dtb.length - cursor

/-- `properties`: the last assignment first. -/
abbrev Properties := List ((List Char × List Char) × Bytes)

/-- The variables of the loop over the structure block; the innermost node is the last of the stack. -/
structure FdtState where
  cursor : Nat
  stack : List (List Char)
  properties : Properties

/-- `"/" + "/".join(part for part in stack if part)` -/
def nodePath (stack : List (List Char)) : List Char := '/' :: List.intercalate ['/'] (stack.filter (· ≠ []))

/-- `FDT_PROP`, with the cursor behind the token. -/
def structProp (dtb : Bytes) (header : FdtHeader) (s : FdtState) : Except Exn FdtState := do
  exitIf (header.structEnd < s.cursor + 8) "truncated FDT property header"
  let length ← unpackBig 4 dtb s.cursor
  let nameOffset ← unpackBig 4 dtb (s.cursor + 4)
  let cursor := s.cursor + 8
  exitIf (header.structEnd < cursor + length) "truncated FDT property value"
  exitIf (header.stringsSize ≤ nameOffset) "FDT property name is out of bounds"
  let name ← cstring dtb (header.stringsOffset + nameOffset) header.stringsEnd
  return { s with
    cursor := align4 (cursor + length)
    properties := ((nodePath s.stack, name), (dtb.drop cursor).take length) :: s.properties }

/-- One round of the loop: the state after it, or the properties at `FDT_END`. -/
def structToken (dtb : Bytes) (header : FdtHeader) (s : FdtState) : Except Exn (FdtState ⊕ Properties) := do
  let token ← unpackBig 4 dtb s.cursor
  let cursor := s.cursor + 4
  if token = FDT_BEGIN_NODE then do
    let name ← cstring dtb cursor header.structEnd
    return .inl { s with cursor := align4 (cursor + name.length + 1), stack := s.stack ++ [name] }
  else if token = FDT_END_NODE then do
    exitIf (s.stack = []) "unbalanced FDT end-node token"
    return .inl { s with cursor := cursor, stack := s.stack.dropLast }
  else if token = FDT_PROP then do
    let s' ← structProp dtb header { s with cursor := cursor }
    return .inl s'
  else if token = FDT_NOP then return .inl { s with cursor := cursor }
  else if token = FDT_END then do
    exitIf (s.stack ≠ []) "unbalanced FDT node stack"
    return .inr s.properties
  else throw (.systemExit ("unknown FDT token 0x" ++ format08X token))

theorem le_align4 (n : Nat) : n ≤ align4 n := by
  unfold align4
  omega

theorem structProp_advances {dtb : Bytes} {header : FdtHeader} {s s' : FdtState}
    (h : structProp dtb header s = .ok s') : s.cursor + 8 ≤ s'.cursor := by
  obtain ⟨_, -, h⟩ := of_bind_ok h
  obtain ⟨length, -, h⟩ := of_bind_ok h
  obtain ⟨nameOffset, -, h⟩ := of_bind_ok h
  obtain ⟨_, -, h⟩ := of_bind_ok h
  obtain ⟨_, -, h⟩ := of_bind_ok h
  obtain ⟨name, -, h⟩ := of_bind_ok h
  cases h
  exact Nat.le_trans (Nat.le_add_right _ _) (le_align4 _)

/-- Every token moves the cursor forward. -/
theorem structToken_advances {dtb : Bytes} {header : FdtHeader} {s s' : FdtState}
    (h : structToken dtb header s = .ok (.inl s')) : s.cursor + 4 ≤ s'.cursor := by
  obtain ⟨token, -, h⟩ := of_bind_ok h
  dsimp only at h
  split_ifs at h
  · obtain ⟨name, -, h⟩ := of_bind_ok h
    cases h
    exact Nat.le_trans (by omega) (le_align4 _)
  · obtain ⟨_, -, h⟩ := of_bind_ok h
    cases h
    exact Nat.le_refl _
  · obtain ⟨s'', hs, h⟩ := of_bind_ok h
    cases h
    exact Nat.le_trans (by dsimp only; omega) (structProp_advances hs)
  · cases h
    exact Nat.le_refl _
  · obtain ⟨_, -, h⟩ := of_bind_ok h
    cases h

/-- The loop over the structure block. -/
def parseStruct (dtb : Bytes) (header : FdtHeader) (s : FdtState) : Except Exn Properties :=
  if s.cursor + 4 ≤ header.structEnd then
    match _h : structToken dtb header s with
    | .error e => throw e
    | .ok (.inr properties) => return properties
    | .ok (.inl s') => parseStruct dtb header s'
  else throw (.systemExit "FDT structure has no end token")
termination_by header.structEnd - s.cursor
decreasing_by
  have := structToken_advances ‹structToken dtb header s = _›
  omega

/-- The loop is a token and then the rest of the loop. -/
theorem parseStruct_eq {dtb : Bytes} {header : FdtHeader} {s : FdtState} (hc : s.cursor + 4 ≤ header.structEnd) :
    parseStruct dtb header s = (structToken dtb header s >>= Sum.elim (parseStruct dtb header) .ok) := by
  rw [parseStruct, if_pos hc]
  split <;> rename_i h <;> rw [h] <;> rfl

theorem parseStruct_token {dtb : Bytes} {header : FdtHeader} {s s' : FdtState} (hc : s.cursor + 4 ≤ header.structEnd)
    (h : structToken dtb header s = .ok (.inl s')) : parseStruct dtb header s = parseStruct dtb header s' :=
  (parseStruct_eq hc).trans (bind_of_ok h)

def parseFdt (dtb : Bytes) : Except Exn (List (Nat × Nat) × Properties) := do
  let header ← parseHeader dtb
  let reserves ← parseReserves dtb header.reserveOffset
  let properties ← parseStruct dtb header ⟨header.structOffset, [], []⟩
  return (reserves, properties)

/-! ### What an accepted tree says of itself -/

/-- The header of an accepted tree has the magic and the size of the file. -/
theorem of_parseFdt_ok {dtb : Bytes} {t : List (Nat × Nat) × Properties} (h : parseFdt dtb = .ok t) :
    40 ≤ dtb.length ∧ fromBytesBig (dtb.take 4) = 0xD00DFEED ∧ fromBytesBig ((dtb.drop 4).take 4) = dtb.length := by
  obtain ⟨header, h, -⟩ := of_bind_ok h
  obtain ⟨_, hlength, h⟩ := of_bind_ok h
  obtain ⟨magic, hmagic, h⟩ := of_bind_ok h
  obtain ⟨totalSize, hsize, h⟩ := of_bind_ok h
  obtain ⟨_, -, h⟩ := of_bind_ok h
  obtain ⟨_, -, h⟩ := of_bind_ok h
  obtain ⟨_, -, h⟩ := of_bind_ok h
  obtain ⟨_, -, h⟩ := of_bind_ok h
  obtain ⟨_, -, h⟩ := of_bind_ok h
  obtain ⟨_, hm, h⟩ := of_bind_ok h
  obtain ⟨_, hs, -⟩ := of_bind_ok h
  refine ⟨Nat.not_lt.mp (of_exitIf_ok hlength), ?_, ?_⟩
  · rw [← not_not.mp (of_exitIf_ok hm), ← (of_unpackBig_ok hmagic).2, List.drop_zero]
  · rw [← not_not.mp (of_exitIf_ok hs), ← (of_unpackBig_ok hsize).2]

end ShadowMsm.Kernel
