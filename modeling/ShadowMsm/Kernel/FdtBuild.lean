import ShadowMsm.Kernel.Fdt

/-!
# Building a flattened device tree

`fdt_prop`, `fdt_node` and the image layout of `build_dtb` (`build_linux_handoff_dryrun.py`), for any tree,
reserve map and strings block.  The encoder pads every token relative to its own start and the parser aligns
offsets into the file; since the structure block starts aligned, both count alike, and the parser gives back what
was put in (`parseFdt_buildImage`).
-/

namespace ShadowMsm.Kernel

/-! ### The encoder -/

/-- `(value + boundary - 1) & ~(boundary - 1)`, for a power of two. -/
def align (value boundary : Nat) : Nat := (value + boundary - 1) / boundary * boundary

/-- A number in big-endian bytes. -/
def bigBytes (k n : Nat) : Bytes := (leBytes k n).reverse

/-- `struct.pack` with big-endian fields of `k` bytes each. -/
def structPackBig (k : Nat) : List Nat → Except Exn Bytes
  | [] => return []
  | x :: xs => do
    if ¬ x < 256 ^ k then throw .structError
    let rest ← structPackBig k xs
    return bigBytes k x ++ rest

def be32 (value : Nat) : Except Exn Bytes := structPackBig 4 [value]

/-- `bs.ljust(width, b"\x00")` -/
def ljust (bs : Bytes) (width : Nat) : Bytes := bs ++ List.replicate (width - bs.length) 0

/-- `text.encode("ascii")`; the error is a `UnicodeEncodeError`, which is a `ValueError`, here without the
position. -/
def encodeStrict (text : List Char) : Except Exn Bytes :=
  if text.all fun c => c.toNat < 0x80 then return text.map fun c => BitVec.ofNat 8 c.toNat
  else throw (.valueError "'ascii' codec can't encode characters: ordinal not in range(128)")

def fdtProp (nameOffset : Nat) (value : Bytes) : Except Exn Bytes := do
  let tag ← be32 3
  let length ← be32 value.length
  let offset ← be32 nameOffset
  let body := tag ++ length ++ offset ++ value
  return ljust body (align body.length 4)

def fdtNode (name : List Char) (body : Bytes) : Except Exn Bytes := do
  let text ← encodeStrict name
  let encodedName := text ++ [0]
  let tag ← be32 1
  let begin := ljust (tag ++ encodedName) (align (4 + encodedName.length) 4)
  let last ← be32 2
  return begin ++ body ++ last

/-- The body of a node: properties, by the offset of their name, and nodes, in any order. -/
inductive FdtBody
  | nil
  | prop (nameOffset : Nat) (value : Bytes) (rest : FdtBody)
  | node (name : List Char) (body rest : FdtBody)

namespace FdtBody

/-- The body assembled with `fdt_prop` and `fdt_node`. -/
def encode : FdtBody → Except Exn Bytes
  | nil => return []
  | prop nameOffset value rest => do
    let first ← fdtProp nameOffset value
    let others ← rest.encode
    return first ++ others
  | node name body rest => do
    let inner ← body.encode
    let first ← fdtNode name inner
    let others ← rest.encode
    return first ++ others

end FdtBody

/-- `struct.pack(">QQ", address, size)` for each entry of a reserve map, and for its end. -/
def packReserves : List (Nat × Nat) → Except Exn Bytes
  | [] => structPackBig 8 [0, 0]
  | (address, size) :: reserves => do
    let first ← structPackBig 8 [address, size]
    let others ← packReserves reserves
    return first ++ others

/-- The image as `build_dtb` lays it out; what no block covers is zero. -/
def buildImage (reserves : List (Nat × Nat)) (tree : FdtBody) (strings : Bytes) : Except Exn Bytes := do
  let root ← tree.encode
  let last ← be32 9
  let structBlock := root ++ last
  let headerSize := 40
  let reserveMap ← packReserves reserves
  let offMemRsvmap := headerSize
  let offDtStruct := align (offMemRsvmap + reserveMap.length) 4
  let offDtStrings := align (offDtStruct + structBlock.length) 4
  let totalSize := offDtStrings + strings.length
  let header ← structPackBig 4
    [0xD00DFEED, totalSize, offDtStruct, offDtStrings, offMemRsvmap, 17, 16, 0, strings.length, structBlock.length]
  return ljust (ljust (header ++ reserveMap) offDtStruct ++ structBlock) offDtStrings ++ strings

/-! ### What a tree says -/

/-- The text at an offset of the strings block. -/
def nameAt (strings : Bytes) (offset : Nat) : List Char :=
  ((strings.drop offset).takeWhile (· ≠ 0)).map fun b => Char.ofNat b.toNat

/-- A terminated ASCII text begins at this offset of the strings block. -/
def Named (strings : Bytes) (offset : Nat) : Prop :=
  0 ∈ strings.drop offset ∧ ∀ b ∈ (strings.drop offset).takeWhile (· ≠ 0), b < 0x80

instance (strings : Bytes) (offset : Nat) : Decidable (Named strings offset) :=
  have : Decidable (∀ b ∈ (strings.drop offset).takeWhile (· ≠ 0), b < 0x80) := List.decidableBAll _ _
  inferInstanceAs (Decidable (_ ∧ _))

namespace FdtBody

/-- The names of the nodes have no zero character, and those of the properties are in the strings block. -/
def WellNamed (strings : Bytes) : FdtBody → Prop
  | nil => True
  | prop nameOffset _ rest => Named strings nameOffset ∧ rest.WellNamed strings
  | node name body rest => (∀ c ∈ name, c.toNat ≠ 0) ∧ body.WellNamed strings ∧ rest.WellNamed strings

instance decidableWellNamed (strings : Bytes) : ∀ tree : FdtBody, Decidable (tree.WellNamed strings)
  | nil => inferInstanceAs (Decidable True)
  | prop nameOffset _ rest =>
    have := decidableWellNamed strings rest
    inferInstanceAs (Decidable (Named strings nameOffset ∧ rest.WellNamed strings))
  | node name body rest =>
    have := decidableWellNamed strings body
    have := decidableWellNamed strings rest
    have : Decidable (∀ c ∈ name, c.toNat ≠ 0) := List.decidableBAll _ _
    inferInstanceAs (Decidable ((∀ c ∈ name, c.toNat ≠ 0) ∧ body.WellNamed strings ∧ rest.WellNamed strings))

/-- The properties in document order, each with its path and name; `stack` are the names of the nodes around. -/
def properties (strings : Bytes) (stack : List (List Char)) : FdtBody → Properties
  | nil => []
  | prop nameOffset value rest =>
    ((nodePath stack, nameAt strings nameOffset), value) :: rest.properties strings stack
  | node name body rest => body.properties strings (stack ++ [name]) ++ rest.properties strings stack

end FdtBody

/-- The value of the last occurrence of a key. -/
def lastValue (properties : Properties) (key : List Char × List Char) : Option Bytes :=
  (properties.filterMap fun p => if key == p.1 then some p.2 else none).getLast?

/-! ### Reading what was packed -/

@[simp] theorem length_bigBytes (k n : Nat) : (bigBytes k n).length = k := by
  rw [bigBytes, List.length_reverse, length_leBytes]

theorem of_structPackBig_ok {k : Nat} {xs : List Nat} {bs : Bytes} (h : structPackBig k xs = .ok bs) :
    (∀ x ∈ xs, x < 256 ^ k) ∧ bs = xs.flatMap (bigBytes k) := by
  induction xs generalizing bs with
  | nil =>
    cases h
    exact ⟨by simp, rfl⟩
  | cons x xs ih =>
    by_cases hx : x < 256 ^ k
    · simp only [structPackBig, hx, not_true_eq_false, if_false] at h
      obtain ⟨rest, hrest, h⟩ := of_bind_ok h
      cases h
      obtain ⟨hxs, rfl⟩ := ih hrest
      exact ⟨List.forall_mem_cons.mpr ⟨hx, hxs⟩, rfl⟩
    · simp only [structPackBig, hx, not_false_eq_true, if_true] at h
      cases h

theorem of_be32_ok {n : Nat} {bs : Bytes} (h : be32 n = .ok bs) : n < 2 ^ 32 ∧ bs = bigBytes 4 n := by
  obtain ⟨hn, rfl⟩ := of_structPackBig_ok h
  exact ⟨hn n (List.mem_singleton_self n), List.append_nil _⟩

section read

variable {data rest : Bytes} {cursor : Nat}

/-- The rest of the data behind something at the cursor. -/
theorem drop_add_of_drop {bs : Bytes} (h : data.drop cursor = bs ++ rest) :
    data.drop (cursor + bs.length) = rest := by
  rw [← List.drop_drop, h, List.drop_left]

theorem length_le_of_drop {bs : Bytes} (h : data.drop cursor = bs ++ rest) (h0 : 0 < bs.length) :
    cursor + bs.length ≤ data.length := by
  have := congrArg List.length h
  rw [List.length_drop, List.length_append] at this
  omega

theorem unpackBig_of_drop {k n : Nat} (hk : 0 < k) (hn : n < 256 ^ k) (h : data.drop cursor = bigBytes k n ++ rest) :
    unpackBig k data cursor = .ok n := by
  have hlen := length_le_of_drop h (by rwa [length_bigBytes])
  rw [length_bigBytes] at hlen
  rw [unpackBig, if_pos hlen, h, List.take_left' (length_bigBytes k n), bigBytes, fromBytesBig_leBytes hn]
  rfl

/-- One of several fields packed one after the other. -/
theorem unpackBig_field {k : Nat} {xs : List Nat} (hk : 0 < k) (hxs : ∀ x ∈ xs, x < 256 ^ k)
    (h : data.drop cursor = xs.flatMap (bigBytes k) ++ rest) {i : Nat} (hi : i < xs.length) :
    unpackBig k data (cursor + k * i) = .ok xs[i] := by
  induction xs generalizing cursor i with
  | nil => simp at hi
  | cons x xs ih =>
    rw [List.flatMap_cons, List.append_assoc] at h
    cases i with
    | zero => exact unpackBig_of_drop hk (hxs x List.mem_cons_self) h
    | succ i =>
      have hnext := drop_add_of_drop h
      rw [length_bigBytes] at hnext
      have := ih (fun y hy => hxs y (List.mem_cons_of_mem _ hy)) hnext (i := i) (by simpa using hi)
      rwa [Nat.add_assoc, show k + k * i = k * (i + 1) by rw [Nat.mul_succ, Nat.add_comm]] at this

end read

/-! ### Texts -/

/-- A terminated ASCII text is read. -/
theorem cstring_eq_ok {data field : Bytes} {offset limit : Nat} (hfield : (data.take limit).drop offset = field)
    (h0 : 0 ∈ field) (hascii : ∀ b ∈ field.takeWhile (· ≠ 0), b < 0x80) :
    cstring data offset limit = .ok ((field.takeWhile (· ≠ 0)).map fun b => Char.ofNat b.toNat) := by
  rw [cstring, hfield, if_pos (by simpa using h0), decodeStrict_of_lt hascii]

theorem takeWhile_text {text : Bytes} (h : ∀ b ∈ text, b ≠ 0) (t : Bytes) :
    (text ++ 0 :: t).takeWhile (· ≠ 0) = text := by
  rw [List.takeWhile_append_of_pos fun b hb => decide_eq_true (h b hb)]
  simp

theorem encodeStrict_ok {name : List Char} {bs : Bytes} (h : encodeStrict name = .ok bs) :
    (∀ c ∈ name, c.toNat < 0x80) ∧ bs = name.map fun c => BitVec.ofNat 8 c.toNat := by
  unfold encodeStrict at h
  split at h
  · rename_i hall
    cases h
    exact ⟨by simpa using hall, rfl⟩
  · cases h

/-- The bytes of a name give the name back. -/
theorem encoded_name {name : List Char} (hascii : ∀ c ∈ name, c.toNat < 0x80) (hnul : ∀ c ∈ name, c.toNat ≠ 0) :
    (∀ b ∈ name.map fun c => BitVec.ofNat 8 c.toNat, b < (0x80 : Byte) ∧ b ≠ 0) ∧
      (name.map fun c => BitVec.ofNat 8 c.toNat).map (fun b => Char.ofNat b.toNat) = name := by
  have htoNat : ∀ c ∈ name, (BitVec.ofNat 8 c.toNat).toNat = c.toNat := fun c hc => by
    have := hascii c hc
    rw [BitVec.toNat_ofNat]
    omega
  constructor
  · intro b hb
    obtain ⟨c, hc, rfl⟩ := List.mem_map.mp hb
    have h1 := htoNat c hc
    have h2 := hascii c hc
    have h3 := hnul c hc
    constructor
    · rw [BitVec.lt_def, h1]
      exact h2
    · intro h0
      rw [h0] at h1
      exact h3 h1.symm
  · rw [List.map_map]
    conv => rhs; rw [← List.map_id name]
    apply List.map_congr_left
    intro c hc
    simp [htoNat c hc, Char.ofNat_toNat]

/-! ### Tokens -/

theorem of_fdtProp_ok {nameOffset : Nat} {value bs : Bytes} (h : fdtProp nameOffset value = .ok bs) :
    nameOffset < 2 ^ 32 ∧ value.length < 2 ^ 32 ∧ ∃ pad,
      bs = bigBytes 4 3 ++ (bigBytes 4 value.length ++ (bigBytes 4 nameOffset ++ (value ++ pad))) ∧
        bs.length = align (12 + value.length) 4 := by
  obtain ⟨tag, htag, h⟩ := of_bind_ok h
  obtain ⟨length, hlength, h⟩ := of_bind_ok h
  obtain ⟨offset, hoffset, h⟩ := of_bind_ok h
  cases h
  obtain ⟨-, rfl⟩ := of_be32_ok htag
  obtain ⟨hl, rfl⟩ := of_be32_ok hlength
  obtain ⟨ho, rfl⟩ := of_be32_ok hoffset
  refine ⟨ho, hl, List.replicate (align (12 + value.length) 4 - (12 + value.length)) 0, ?_, ?_⟩
  · simp only [ljust, List.length_append, length_bigBytes, List.append_assoc, ← Nat.add_assoc]
  · simp only [ljust, List.length_append, List.length_replicate, length_bigBytes, align]
    omega

theorem of_fdtNode_ok {name : List Char} {body bs : Bytes} (h : fdtNode name body = .ok bs) :
    (∀ c ∈ name, c.toNat < 0x80) ∧ ∃ first pad, bs = first ++ (body ++ bigBytes 4 2) ∧
      first = bigBytes 4 1 ++ ((name.map fun c => BitVec.ofNat 8 c.toNat) ++ 0 :: pad) ∧
        first.length = align (4 + name.length + 1) 4 := by
  obtain ⟨text, htext, h⟩ := of_bind_ok h
  obtain ⟨tag, htag, h⟩ := of_bind_ok h
  obtain ⟨last, hlast, h⟩ := of_bind_ok h
  cases h
  obtain ⟨-, rfl⟩ := of_be32_ok htag
  obtain ⟨-, rfl⟩ := of_be32_ok hlast
  obtain ⟨hascii, rfl⟩ := encodeStrict_ok htext
  refine ⟨hascii, _, List.replicate (align (4 + name.length + 1) 4 - (4 + name.length + 1)) 0,
    List.append_assoc _ _ _, ?_, ?_⟩
  · simp only [ljust, List.length_append, List.length_map, length_bigBytes, List.length_singleton, List.append_assoc,
      List.singleton_append, ← Nat.add_assoc]
  · simp only [ljust, List.length_append, List.length_map, length_bigBytes, List.length_singleton,
      List.length_replicate, align]
    omega

section tokens

variable {dtb strings rest bs : Bytes} {header : FdtHeader} {c : Nat} {stack : List (List Char)} {ps : Properties}

/-- The parser on a property. -/
theorem structToken_fdtProp {nameOffset : Nat} {value : Bytes} (hb : fdtProp nameOffset value = .ok bs)
    (hd : dtb.drop c = bs ++ rest) (hc : c % 4 = 0) (hend : c + bs.length ≤ header.structEnd)
    (hs : dtb.drop header.stringsOffset = strings) (hsize : header.stringsSize = strings.length)
    (hn : Named strings nameOffset) :
    structToken dtb header ⟨c, stack, ps⟩ =
      .ok (.inl ⟨c + bs.length, stack, ((nodePath stack, nameAt strings nameOffset), value) :: ps⟩) := by
  obtain ⟨ho, hl, pad, hbs, hlen⟩ := of_fdtProp_ok hb
  have hlast : 12 + value.length ≤ bs.length := by
    rw [hlen, align]
    omega
  have h0 := hd
  rw [hbs, List.append_assoc, List.append_assoc, List.append_assoc, List.append_assoc] at h0
  have h4 := drop_add_of_drop h0
  have h8 := drop_add_of_drop h4
  have h12 := drop_add_of_drop h8
  simp only [length_bigBytes] at h4 h8 h12
  have htoken := unpackBig_of_drop (by decide) (by decide) h0
  have hlength := unpackBig_of_drop (by decide) hl h4
  have hoffset := unpackBig_of_drop (by decide) ho h8
  have hvalue : (dtb.drop (c + 4 + 4 + 4)).take value.length = value := by
    rw [h12, List.take_left]
  have hname :
      cstring dtb (header.stringsOffset + nameOffset) header.stringsEnd = .ok (nameAt strings nameOffset) := by
    refine cstring_eq_ok ?_ hn.1 hn.2
    rw [FdtHeader.stringsEnd, hsize, List.drop_take, ← List.drop_drop, hs, List.take_of_length_le]
    rw [List.length_drop]
    omega
  have hin : nameOffset < header.stringsSize := by
    have := List.length_pos_iff.mpr (List.ne_nil_of_mem hn.1)
    rw [List.length_drop] at this
    omega
  have halign : align4 (c + 4 + 8 + value.length) = c + bs.length := by
    rw [hlen, align4, align]
    omega
  have hprop : structProp dtb header ⟨c + 4, stack, ps⟩ =
      .ok ⟨c + bs.length, stack, ((nodePath stack, nameAt strings nameOffset), value) :: ps⟩ := by
    refine (bind_of_ok (exitIf_of_not (by dsimp only; omega))).trans ?_
    refine (bind_of_ok hlength).trans ?_
    refine (bind_of_ok hoffset).trans ?_
    refine (bind_of_ok (exitIf_of_not (by dsimp only; omega))).trans ?_
    refine (bind_of_ok (exitIf_of_not (by omega))).trans ?_
    refine (bind_of_ok hname).trans ?_
    dsimp only
    rw [halign, hvalue]
    rfl
  refine (bind_of_ok htoken).trans ?_
  dsimp only
  rw [if_neg (by decide), if_neg (by decide), if_pos (by decide)]
  exact bind_of_ok hprop

/-- The parser on the beginning of a node. -/
theorem structToken_beginNode {name : List Char} {first pad : Bytes} (hascii : ∀ ch ∈ name, ch.toNat < 0x80)
    (hnul : ∀ ch ∈ name, ch.toNat ≠ 0)
    (hfirst : first = bigBytes 4 1 ++ ((name.map fun ch => BitVec.ofNat 8 ch.toNat) ++ 0 :: pad))
    (hlength : first.length = align (4 + name.length + 1) 4) (hd : dtb.drop c = first ++ rest) (hc : c % 4 = 0)
    (hend : c + first.length ≤ header.structEnd) :
    structToken dtb header ⟨c, stack, ps⟩ = .ok (.inl ⟨c + first.length, stack ++ [name], ps⟩) := by
  obtain ⟨hbytes, hback⟩ := encoded_name hascii hnul
  generalize htext : (name.map fun ch => BitVec.ofNat 8 ch.toNat) = text at hbytes hback hfirst
  have hlen : text.length = name.length := by rw [← htext, List.length_map]
  have hle : 4 + name.length + 1 ≤ first.length := by
    rw [hlength, align]
    omega
  have halign : align4 (c + 4 + name.length + 1) = c + first.length := by
    rw [hlength, align, align4]
    omega
  rw [hfirst, List.append_assoc] at hd
  have h4 := drop_add_of_drop hd
  rw [length_bigBytes] at h4
  have htoken := unpackBig_of_drop (by decide) (by decide) hd
  have hfield : (dtb.take header.structEnd).drop (c + 4) =
      text ++ 0 :: (pad ++ rest).take (header.structEnd - (c + 4) - text.length - 1) := by
    rw [List.drop_take, h4, List.append_assoc, List.take_append, List.take_of_length_le (by omega), List.cons_append,
      List.take_cons (by omega)]
  have hstop := takeWhile_text (fun b hb => (hbytes b hb).2)
    ((pad ++ rest).take (header.structEnd - (c + 4) - text.length - 1))
  have hname : cstring dtb (c + 4) header.structEnd = .ok name := by
    have := cstring_eq_ok hfield (by simp) (by rw [hstop]; exact fun b hb => (hbytes b hb).1)
    rwa [hstop, hback] at this
  refine (bind_of_ok htoken).trans ?_
  dsimp only
  rw [if_pos (by decide)]
  refine (bind_of_ok hname).trans ?_
  rw [halign]
  rfl

/-- The parser on the end of a node. -/
theorem structToken_endNode {name : List Char} (hd : dtb.drop c = bigBytes 4 2 ++ rest) :
    structToken dtb header ⟨c, stack ++ [name], ps⟩ = .ok (.inl ⟨c + 4, stack, ps⟩) := by
  refine (bind_of_ok (unpackBig_of_drop (by decide) (by decide) hd)).trans ?_
  dsimp only
  rw [if_neg (by decide), if_pos (by decide)]
  refine (bind_of_ok (exitIf_of_not (by simp))).trans ?_
  rw [List.dropLast_concat]
  rfl

/-- The parser on the body of a node: the cursor moves over it, the stack is as before, and the properties are
taken in document order. -/
theorem parseStruct_body {tree : FdtBody} (hb : tree.encode = .ok bs) (hd : dtb.drop c = bs ++ rest) (hc : c % 4 = 0)
    (hend : c + bs.length + 4 ≤ header.structEnd) (hs : dtb.drop header.stringsOffset = strings)
    (hsize : header.stringsSize = strings.length) (hn : tree.WellNamed strings) :
    bs.length % 4 = 0 ∧ parseStruct dtb header ⟨c, stack, ps⟩ =
      parseStruct dtb header ⟨c + bs.length, stack, (tree.properties strings stack).reverse ++ ps⟩ := by
  -- the cursor stays aligned, and the stack is the same before and behind a body
  induction tree generalizing bs rest c stack ps with
  | nil =>
    cases hb
    exact ⟨rfl, rfl⟩
  | prop nameOffset value others ih =>
    obtain ⟨first, hfirst, hb⟩ := of_bind_ok hb
    obtain ⟨last, hlast, hb⟩ := of_bind_ok hb
    cases hb
    obtain ⟨-, -, -, -, hlen⟩ := of_fdtProp_ok hfirst
    have hmod : first.length % 4 = 0 := by
      rw [hlen, align]
      omega
    rw [List.append_assoc] at hd
    rw [List.length_append] at hend
    obtain ⟨hlmod, hrest⟩ := @ih rest last (c + first.length) stack
      (((nodePath stack, nameAt strings nameOffset), value) :: ps) hlast (drop_add_of_drop hd) (by omega) (by omega) hn.2
    have hpos : 0 < first.length := by
      rw [hlen, align]
      omega
    refine ⟨by rw [List.length_append]; omega, ?_⟩
    rw [parseStruct_token (by dsimp only; omega) (structToken_fdtProp hfirst hd hc (by omega) hs hsize hn.1), hrest,
      FdtBody.properties, List.reverse_cons, List.append_assoc, List.length_append, Nat.add_assoc]
    rfl
  | node name inner others ihi iho =>
    obtain ⟨body, hbody, hb⟩ := of_bind_ok hb
    obtain ⟨first, hfirst, hb⟩ := of_bind_ok hb
    obtain ⟨last, hlast, hb⟩ := of_bind_ok hb
    cases hb
    obtain ⟨hascii, start, pad, rfl, hstart, hlength⟩ := of_fdtNode_ok hfirst
    have hmod : start.length % 4 = 0 := by
      rw [hlength, align]
      omega
    have hpos : 0 < start.length := by
      rw [hlength, align]
      omega
    simp only [List.length_append, length_bigBytes] at hend
    simp only [List.append_assoc] at hd
    -- the body, the end token and what follows the node, each behind the one before
    have hinner := drop_add_of_drop hd
    have hafter := drop_add_of_drop hinner
    have hothers := drop_add_of_drop hafter
    rw [length_bigBytes] at hothers
    obtain ⟨himod, hi⟩ := @ihi _ body _ (stack ++ [name]) ps hbody hinner (by omega) (by omega) hn.2.1
    obtain ⟨homod, ho⟩ := @iho rest last _ stack ((inner.properties strings (stack ++ [name])).reverse ++ ps) hlast
      hothers (by omega) (by omega) hn.2.2
    simp only [List.length_append, length_bigBytes]
    refine ⟨by omega, ?_⟩
    rw [parseStruct_token (by dsimp only; omega) (structToken_beginNode hascii hn.1 hstart hlength hd hc (by omega)), hi,
      parseStruct_token (by dsimp only; omega) (structToken_endNode hafter), ho, FdtBody.properties, List.reverse_append,
      List.append_assoc]
    congr 2
    omega

end tokens

/-! ### The whole image -/

section image

variable {dtb rest bs : Bytes} {c : Nat}

/-- The parser on a reserve map. -/
theorem parseReserves_pack {reserves : List (Nat × Nat)} (hb : packReserves reserves = .ok bs)
    (hz : (0, 0) ∉ reserves) (hd : dtb.drop c = bs ++ rest) : parseReserves dtb c = .ok reserves := by
  induction reserves generalizing bs c with
  | nil =>
    obtain ⟨hlt, rfl⟩ := of_structPackBig_ok hb
    have hlen := length_le_of_drop hd (by simp)
    simp only [List.flatMap_cons, List.flatMap_nil, List.length_append, length_bigBytes, List.length_nil] at hlen
    have haddress := unpackBig_field (by decide) hlt hd (i := 0) (by simp)
    have hsize := unpackBig_field (by decide) hlt hd (i := 1) (by simp)
    rw [parseReserves, if_pos (by omega)]
    refine (bind_of_ok haddress).trans ?_
    refine (bind_of_ok hsize).trans ?_
    rfl
  | cons entry reserves ih =>
    obtain ⟨address, size⟩ := entry
    obtain ⟨first, hfirst, hb⟩ := of_bind_ok hb
    obtain ⟨others, hothers, hb⟩ := of_bind_ok hb
    cases hb
    obtain ⟨hlt, rfl⟩ := of_structPackBig_ok hfirst
    rw [List.append_assoc] at hd
    have hlen := length_le_of_drop hd (by simp)
    have hnext := drop_add_of_drop hd
    simp only [List.flatMap_cons, List.flatMap_nil, List.length_append, length_bigBytes, List.length_nil] at hlen hnext
    have haddress := unpackBig_field (by decide) hlt hd (i := 0) (by simp)
    have hsize := unpackBig_field (by decide) hlt hd (i := 1) (by simp)
    have hne : ¬ (address = 0 ∧ size = 0) := by
      rintro ⟨rfl, rfl⟩
      exact hz List.mem_cons_self
    have hrest := ih hothers (fun h => hz (List.mem_cons_of_mem _ h)) hnext
    rw [parseReserves, if_pos (by omega)]
    refine (bind_of_ok haddress).trans ?_
    refine (bind_of_ok hsize).trans ?_
    refine (if_neg hne).trans ?_
    exact bind_of_ok hrest

/-- The parser at the end of the structure block. -/
theorem parseStruct_end {header : FdtHeader} {ps : Properties} (hd : dtb.drop c = bigBytes 4 9 ++ rest)
    (hend : c + 4 ≤ header.structEnd) : parseStruct dtb header ⟨c, [], ps⟩ = .ok ps := by
  have htoken : structToken dtb header ⟨c, [], ps⟩ = .ok (.inr ps) := by
    refine (bind_of_ok (unpackBig_of_drop (by decide) (by decide) hd)).trans ?_
    dsimp only
    rw [if_neg (by decide), if_neg (by decide), if_neg (by decide), if_neg (by decide), if_pos (by decide)]
    exact bind_of_ok (exitIf_of_not (by simp))
  exact (parseStruct_eq hend).trans (bind_of_ok htoken)

/-- The parser on a header. -/
theorem parseHeader_pack {totalSize structOffset stringsOffset reserveOffset version lastVersion bootCpu stringsSize
      structSize : Nat}
    (hb : structPackBig 4 [0xD00DFEED, totalSize, structOffset, stringsOffset, reserveOffset, version, lastVersion, bootCpu,
      stringsSize, structSize] = .ok bs)
    (hd : dtb = bs ++ rest) (htotal : totalSize = dtb.length) (hstruct : structOffset + structSize ≤ dtb.length)
    (hstrings : stringsOffset + stringsSize ≤ dtb.length) :
    parseHeader dtb = .ok ⟨structOffset, stringsOffset, reserveOffset, stringsSize, structSize⟩ := by
  obtain ⟨hlt, rfl⟩ := of_structPackBig_ok hb
  have hdrop : dtb.drop 0 = _ ++ rest := (List.drop_zero).trans hd
  have hlen : 40 ≤ dtb.length := by
    have := length_le_of_drop hdrop (by simp)
    simpa using this
  have field := fun i hi => unpackBig_field (by decide) hlt hdrop (i := i) hi
  refine (bind_of_ok (exitIf_of_not (by omega))).trans ?_
  refine (bind_of_ok (field 0 (by simp))).trans ?_
  refine (bind_of_ok (field 1 (by simp))).trans ?_
  refine (bind_of_ok (field 2 (by simp))).trans ?_
  refine (bind_of_ok (field 3 (by simp))).trans ?_
  refine (bind_of_ok (field 4 (by simp))).trans ?_
  refine (bind_of_ok (field 8 (by simp))).trans ?_
  refine (bind_of_ok (field 9 (by simp))).trans ?_
  refine (bind_of_ok (exitIf_of_not (by simp))).trans ?_
  refine (bind_of_ok (exitIf_of_not (by simp [htotal]))).trans ?_
  refine (bind_of_ok (exitIf_of_not (by simp; omega))).trans ?_
  refine (bind_of_ok (exitIf_of_not (by simp; omega))).trans ?_
  rfl

end image

theorem lookup_reverse (properties : Properties) (key : List Char × List Char) :
    properties.reverse.lookup key = lastValue properties key := by
  rw [List.lookup_eq_findSome?, lastValue, List.getLast?_filterMap]

theorem length_ljust {bs : Bytes} {width : Nat} (h : bs.length ≤ width) : (ljust bs width).length = width := by
  rw [ljust, List.length_append, List.length_replicate, Nat.add_sub_cancel' h]

theorem ljust_eq_append (bs : Bytes) (width : Nat) : ∃ pad, ljust bs width = bs ++ pad := ⟨_, rfl⟩

theorem le_align (n : Nat) : n ≤ align n 4 := by
  rw [align]
  omega

/-- The blocks of an image stand where its header says. -/
structure LaidOut (image : Bytes) (header : FdtHeader) (reserveMap root strings : Bytes) : Prop where
  parsed : parseHeader image = .ok header
  aligned : header.structOffset % 4 = 0
  structEnd : header.structEnd = header.structOffset + root.length + 4
  stringsSize : header.stringsSize = strings.length
  reserveMap : ∃ rest, image.drop header.reserveOffset = reserveMap ++ rest
  root : ∃ rest, image.drop header.structOffset = root ++ (bigBytes 4 9 ++ rest)
  strings : image.drop header.stringsOffset = strings

theorem laidOut_of_buildImage {reserves : List (Nat × Nat)} {tree : FdtBody} {strings image : Bytes}
    (h : buildImage reserves tree strings = .ok image) :
    ∃ header reserveMap root, packReserves reserves = .ok reserveMap ∧ tree.encode = .ok root ∧
      LaidOut image header reserveMap root strings := by
  obtain ⟨root, hroot, h⟩ := of_bind_ok h
  obtain ⟨last, hlast, h⟩ := of_bind_ok h
  obtain ⟨reserveMap, hreserves, h⟩ := of_bind_ok h
  obtain ⟨header, hheader, h⟩ := of_bind_ok h
  obtain ⟨-, rfl⟩ := of_be32_ok hlast
  obtain rfl := Except.ok.inj h
  obtain ⟨-, hbytes⟩ := of_structPackBig_ok hheader
  have hlen : header.length = 40 := by
    rw [hbytes]
    simp
  generalize hS : align (40 + reserveMap.length) 4 = offStruct at *
  generalize hT : align (offStruct + (root ++ bigBytes 4 9).length) 4 = offStrings at *
  have hSle : 40 + reserveMap.length ≤ offStruct := hS ▸ le_align _
  have hTle : offStruct + (root ++ bigBytes 4 9).length ≤ offStrings := hT ▸ le_align _
  have hSmod : offStruct % 4 = 0 := by
    rw [← hS, align]
    omega
  have hfront : (ljust (header ++ reserveMap) offStruct).length = offStruct :=
    length_ljust (by rw [List.length_append, hlen]; exact hSle)
  have hback :
      (ljust (ljust (header ++ reserveMap) offStruct ++ (root ++ bigBytes 4 9)) offStrings).length = offStrings :=
    length_ljust (by rw [List.length_append, hfront]; exact hTle)
  -- the blocks, as the parser comes to them
  generalize himage :
    ljust (ljust (header ++ reserveMap) offStruct ++ (root ++ bigBytes 4 9)) offStrings ++ strings = image
  have htotal : image.length = offStrings + strings.length := by rw [← himage, List.length_append, hback]
  obtain ⟨pad, hpad⟩ := ljust_eq_append (header ++ reserveMap) offStruct
  obtain ⟨pad', hpad'⟩ :=
    ljust_eq_append (ljust (header ++ reserveMap) offStruct ++ (root ++ bigBytes 4 9)) offStrings
  have hatHeader : image = header ++ (reserveMap ++ (pad ++ (root ++ (bigBytes 4 9 ++ (pad' ++ strings))))) := by
    rw [← himage, hpad', hpad]
    simp only [List.append_assoc]
  have hatStruct : image.drop offStruct = root ++ (bigBytes 4 9 ++ (pad' ++ strings)) := by
    rw [← himage, hpad', List.append_assoc, List.append_assoc, List.drop_left' hfront, List.append_assoc]
  have hend : offStruct + (root ++ bigBytes 4 9).length = offStruct + root.length + 4 := by
    rw [List.length_append, length_bigBytes, Nat.add_assoc]
  refine ⟨⟨offStruct, offStrings, 40, strings.length, (root ++ bigBytes 4 9).length⟩, reserveMap, root, hreserves, hroot,
    ?_⟩
  exact {
    parsed := parseHeader_pack hheader hatHeader htotal.symm (by omega) (by omega)
    aligned := hSmod
    structEnd := hend
    stringsSize := rfl
    reserveMap := ⟨_, by rw [hatHeader]; exact List.drop_left' hlen⟩
    root := ⟨_, hatStruct⟩
    strings := by rw [← himage]; exact List.drop_left' hback }

/-- `parse_fdt` gives back what an image was built from: the reserve map, and under every path and name the value
of the last property there. -/
theorem parseFdt_buildImage {reserves : List (Nat × Nat)} {tree : FdtBody} {strings image : Bytes}
    (hr : (0, 0) ∉ reserves) (hn : tree.WellNamed strings) (h : buildImage reserves tree strings = .ok image) :
    ∃ properties, parseFdt image = .ok (reserves, properties) ∧
      ∀ key, properties.lookup key = lastValue (tree.properties strings []) key := by
  obtain ⟨header, reserveMap, root, hreserves, hroot, hlaid⟩ := laidOut_of_buildImage h
  obtain ⟨_, hatReserves⟩ := hlaid.reserveMap
  obtain ⟨_, hatRoot⟩ := hlaid.root
  have hbody : parseStruct image header ⟨header.structOffset, [], []⟩ =
      parseStruct image header ⟨header.structOffset + root.length, [], (tree.properties strings []).reverse ++ []⟩ :=
    (parseStruct_body hroot hatRoot hlaid.aligned (Nat.le_of_eq hlaid.structEnd.symm) hlaid.strings hlaid.stringsSize
      hn).2
  have hend : parseStruct image header
      ⟨header.structOffset + root.length, [], (tree.properties strings []).reverse ++ []⟩ =
        .ok ((tree.properties strings []).reverse ++ []) :=
    parseStruct_end (drop_add_of_drop hatRoot) (Nat.le_of_eq hlaid.structEnd.symm)
  refine ⟨(tree.properties strings []).reverse, ?_, lookup_reverse _⟩
  refine (bind_of_ok hlaid.parsed).trans ?_
  refine (bind_of_ok (parseReserves_pack hreserves hr hatReserves)).trans ?_
  refine (bind_of_ok (hbody.trans hend)).trans ?_
  rw [List.append_nil]
  rfl

/-! ### The tree of `build_dtb` -/

def DTB_ADDR : Nat := 0x01F80000
def DTB_MAX : Nat := 0x00010000

/-- `names` -/
def dtbNames : List (List Char) :=
  ["compatible".toList, "model".toList, "#address-cells".toList, "#size-cells".toList, "device_type".toList,
    "reg".toList, "bootargs".toList]

/-- What `names` add to `strings`. -/
def stringsOf (names : List (List Char)) : Bytes :=
  names.flatMap fun name => name.map (fun c => BitVec.ofNat 8 c.toNat) ++ [0]

/-- `strings` -/
def dtbStrings : Bytes := stringsOf dtbNames

/-- `name_offsets[name]`: the length of `strings` before the name. -/
def nameOffset (name : List Char) : Nat := (stringsOf (dtbNames.takeWhile (· ≠ name))).length

/-- A text with its terminator, or several of them. -/
def dtbText (texts : List String) : Bytes :=
  texts.flatMap fun text => text.toList.map (fun c => BitVec.ofNat 8 c.toNat) ++ [0]

/-- `root` -/
def dtbTree : FdtBody :=
  .node [] (.prop (nameOffset "compatible".toList) (dtbText ["zte,k3765-z", "qcom,msm6290"])
    (.prop (nameOffset "model".toList) (dtbText ["ZTE Vodafone K3765-Z (MSM6290)"])
    (.prop (nameOffset "#address-cells".toList) (bigBytes 4 1)
    (.prop (nameOffset "#size-cells".toList) (bigBytes 4 1)
    (.node "memory@100000".toList
      (.prop (nameOffset "device_type".toList) (dtbText ["memory"])
      (.prop (nameOffset "reg".toList) (bigBytes 4 0x00100000 ++ bigBytes 4 0x01F00000) .nil))
    (.node "chosen".toList
      (.prop (nameOffset "bootargs".toList)
        (dtbText ["earlycon loglevel=8 ignore_loglevel initcall_debug rdinit=/init"]) .nil)
    .nil)))))) .nil

def buildDtb : Except Exn Bytes := buildImage [(DTB_ADDR, DTB_MAX)] dtbTree dtbStrings

theorem parseFdt_buildDtb : ∃ image properties, buildDtb = .ok image ∧
    parseFdt image = .ok ([(DTB_ADDR, DTB_MAX)], properties) ∧
      properties.lookup ("/memory@100000".toList, "reg".toList) =
        some (bigBytes 4 0x00100000 ++ bigBytes 4 0x01F00000) := by
  obtain ⟨image, himage⟩ : ∃ image, buildDtb = .ok image := by
    have hsome : buildDtb.toOption.isSome = true := by decide +kernel
    cases h : buildDtb with
    | ok image => exact ⟨image, rfl⟩
    | error e =>
      rw [h] at hsome
      exact absurd hsome Bool.false_ne_true
  obtain ⟨properties, hparse, hlookup⟩ := parseFdt_buildImage (by decide) (by decide +kernel) himage
  exact ⟨image, properties, himage, hparse, (hlookup _).trans (by decide +kernel)⟩

end ShadowMsm.Kernel
