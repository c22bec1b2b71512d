import Mathlib.Algebra.Group.Int.Defs
import Mathlib.Algebra.Group.Nat.Defs
import ShadowMsm.Hdlc

/-!
# Python values of the host scripts

Exceptions, the packing of integers into bytes, and the little text processing the scripts do on the replies of the
target and on text files.  A text is a list of characters, an integer an `Int`.
-/

namespace ShadowMsm

/-- The exceptions the scripts raise or meet, with their messages where they make them. -/
inductive Exn
  | runtimeError (msg : String)
  | valueError (msg : String)
  | timeoutError (msg : String)
  /-- `int.to_bytes` of a negative or too large integer -/
  | overflowError
  /-- `struct.pack` of a negative or too large integer -/
  | structError
  /-- `OSError` or `SerialException`, raised by the port -/
  | osError
  | keyboardInterrupt
  | systemExit (msg : String)
  | keyError (key : String)
  deriving DecidableEq, Repr

/-- The `k` low bytes of a natural number, the lowest first. -/
def leBytes : Nat → Nat → Bytes
  | 0, _ => []
  | k + 1, n => BitVec.ofNat 8 n :: leBytes k (n / 256)

/-- `x.to_bytes(k, "big")` -/
def toBytesBig (k : Nat) (x : Int) : Except Exn Bytes :=
  if 0 ≤ x ∧ x < 256 ^ k then .ok (leBytes k x.toNat).reverse else .error .overflowError

/-- `int.from_bytes(bs, "big")` -/
def fromBytesBig (bs : Bytes) : Nat := bs.foldl (fun n b => 256 * n + b.toNat) 0

/-- `struct.pack` with one `I` for each integer, little-endian -/
def structPackI : List Int → Except Exn Bytes
  | [] => .ok []
  | x :: xs => do
    if ¬ (0 ≤ x ∧ x < 2 ^ 32) then throw .structError
    let rest ← structPackI xs
    return leBytes 4 x.toNat ++ rest

/-- `bytes.rstrip(set)` -/
def rstrip (set bs : Bytes) : Bytes := (bs.reverse.dropWhile (· ∈ set)).reverse

/-- `bytes.decode("ascii", "replace")` -/
def decodeAscii (bs : Bytes) : List Char := bs.map fun b => if b < 0x80 then Char.ofNat b.toNat else '\uFFFD'

/-- `text.encode("ascii", "replace")` -/
def encodeAscii (text : List Char) : Bytes := text.map fun c => if c.toNat < 0x80 then BitVec.ofNat 8 c.toNat else 0x3F

/-- `text.rstrip("\r\n")` -/
def rstripLine (text : List Char) : List Char :=
  (text.reverse.dropWhile fun c => c.toNat = 0x0D || c.toNat = 0x0A).reverse

def apostrophe : Char := Char.ofNat 0x27
def quotationMark : Char := Char.ofNat 0x22
def backslash : Char := Char.ofNat 0x5C

/-- One character of `repr(text)`; the texts are ASCII or the replacement character. -/
def reprChar (quote c : Char) : List Char :=
  if c = quote || c = backslash then [backslash, c]
  else if c.toNat = 0x0A then [backslash, 'n']
  else if c.toNat = 0x0D then [backslash, 'r']
  else if c.toNat = 0x09 then [backslash, 't']
  else if c.toNat < 0x20 || c.toNat = 0x7F then
    [backslash, 'x', Nat.digitChar (c.toNat / 16), Nat.digitChar (c.toNat % 16)]
  else [c]

/-- `repr(text)` -/
def reprText (text : List Char) : List Char :=
  let quote := if apostrophe ∈ text && quotationMark ∉ text then quotationMark else apostrophe
  quote :: (text.flatMap (reprChar quote) ++ [quote])

/-- `repr(texts)` of a list -/
def reprTexts (texts : List (List Char)) : String :=
  String.ofList ('[' :: (List.intercalate [',', ' '] (texts.map reprText) ++ [']']))

/-- The class `[0-9A-Fa-f]`. -/
def isHexDigit (c : Char) : Bool := ('0' ≤ c && c ≤ '9') || ('A' ≤ c && c ≤ 'F') || ('a' ≤ c && c ≤ 'f')

def hexValue (c : Char) : Nat :=
  if c ≤ '9' then c.toNat - 48 else if c ≤ 'F' then c.toNat - 55 else c.toNat - 87

/-- `int(text, 16)` for a text of hexadecimal digits, which every text that gets there is. -/
def intBase16 (text : List Char) : Nat := text.foldl (fun n c => 16 * n + hexValue c) 0

/-- Digits, padded with zeros to a width. -/
def zeroPadded (width : Nat) (digits : List Char) : String :=
  String.ofList (List.replicate (width - digits.length) '0' ++ digits)

/-- A number in capital hexadecimal digits, padded with zeros to a width. -/
def formatHex (width n : Nat) : String := zeroPadded width ((Nat.toDigits 16 n).map Char.toUpper)

/-- `f"{n:08X}"` -/
def format08X (n : Nat) : String := formatHex 8 n

/-- `f"{n:04X}"` -/
def format04X (n : Nat) : String := formatHex 4 n

/-- `f"{n:04x}"` -/
def format04x (n : Nat) : String := zeroPadded 4 (Nat.toDigits 16 n)

/-- `f"{n:,}"` -/
def formatThousands (n : Nat) : String :=
  String.ofList (List.intercalate [','] ((Nat.toDigits 10 n).reverse.toChunks 3)).reverse

/-- `bytes.hex()` -/
def bytesHex (bs : Bytes) : String :=
  String.ofList (bs.flatMap fun b => [Nat.digitChar (b.toNat / 16), Nat.digitChar (b.toNat % 16)])

/-- `bs.decode("ascii")`; the error is a `UnicodeDecodeError`, which is a `ValueError`. -/
def decodeStrict (bs : Bytes) : Except Exn (List Char) :=
  match bs.find? (0x80 ≤ ·) with
  | none => return bs.map fun b => Char.ofNat b.toNat
  | some bad =>
    throw (.valueError ("'ascii' codec can't decode byte 0x" ++ bytesHex [bad] ++ " in position " ++
      toString (bs.idxOf bad) ++ ": ordinal not in range(128)"))

/-- A file read as text: every line ends with a line feed. -/
def universalNewlines : List Char → List Char
  | '\r' :: '\n' :: text => '\n' :: universalNewlines text
  | '\r' :: text => '\n' :: universalNewlines text
  | c :: text => c :: universalNewlines text
  | [] => []

/-- The characters at which `str.splitlines` cuts an ASCII text. -/
def isLineBoundary (c : Char) : Bool := c.toNat ∈ [0x0A, 0x0B, 0x0C, 0x0D, 0x1C, 0x1D, 0x1E]

/-- `text.splitlines()`, for a text without carriage returns; nothing follows the last boundary. -/
def splitlines (text : List Char) : List (List Char) :=
  let lines := text.splitOnP isLineBoundary
  if lines.getLast? = some [] then lines.dropLast else lines

/-- A sequence that ends well is two parts that end well. -/
theorem of_bind_ok {ε α β : Type} {x : Except ε α} {f : α → Except ε β} {b : β} (h : (x >>= f) = .ok b) :
    ∃ a, x = .ok a ∧ f a = .ok b := by
  cases x with
  | error e => cases h
  | ok a => exact ⟨a, rfl, h⟩

/-- A step that ends well is followed by the next one. -/
theorem bind_of_ok {ε α β : Type} {x : Except ε α} {f : α → Except ε β} {a : α} (h : x = .ok a) :
    (x >>= f) = f a := by
  rw [h]
  rfl

@[simp] theorem length_leBytes (k n : Nat) : (leBytes k n).length = k := by
  induction k generalizing n with
  | zero => rfl
  | succ k ih => simp [leBytes, ih]

/-- Bytes packed in big-endian order are read back. -/
theorem fromBytesBig_leBytes {k n : Nat} (h : n < 256 ^ k) : fromBytesBig (leBytes k n).reverse = n := by
  induction k generalizing n with
  | zero =>
    have : n = 0 := by simpa using h
    subst this
    rfl
  | succ k ih =>
    have hdiv : n / 256 < 256 ^ k := by
      rw [Nat.pow_succ] at h
      omega
    have hrec : (leBytes k (n / 256)).reverse.foldl (fun n b => 256 * n + b.toNat) 0 = n / 256 := ih hdiv
    rw [leBytes, List.reverse_cons, fromBytesBig, List.foldl_append, hrec]
    simp
    omega

theorem toBytesBig_eq_ok {k : Nat} {x : Int} {bs : Bytes} :
    toBytesBig k x = .ok bs ↔ (0 ≤ x ∧ x < 256 ^ k) ∧ bs = (leBytes k x.toNat).reverse := by
  unfold toBytesBig
  split_ifs with h
  · simp [h, eq_comm]
  · simp [h]

/-- Integers in range are packed. -/
theorem structPackI_of_lt {xs : List Int} (h : ∀ x ∈ xs, 0 ≤ x ∧ x < 2 ^ 32) :
    structPackI xs = .ok (xs.flatMap fun x => leBytes 4 x.toNat) := by
  induction xs with
  | nil => rfl
  | cons x xs ih =>
    rw [structPackI, if_neg (not_not.mpr (h x (by simp))), ih fun y hy => h y (by simp [hy])]
    rfl

theorem intBase16_append (text : List Char) (c : Char) :
    intBase16 (text ++ [c]) = 16 * intBase16 text + hexValue c := by
  simp [intBase16]

theorem rstrip_concat_mem {set : Bytes} {b : Byte} (h : b ∈ set) (bs : Bytes) :
    rstrip set (bs ++ [b]) = rstrip set bs := by
  simp [rstrip, h]

theorem rstrip_of_notMem {set bs : Bytes} (h : ∀ b ∈ bs, b ∉ set) : rstrip set bs = bs := by
  rcases List.eq_nil_or_concat bs with rfl | ⟨init, b, rfl⟩
  · rfl
  · simp [rstrip, h b (by simp)]

theorem decodeStrict_of_lt {bs : Bytes} (h : ∀ b ∈ bs, b < 0x80) :
    decodeStrict bs = .ok (bs.map fun b => Char.ofNat b.toNat) := by
  have hfind : bs.find? (0x80 ≤ ·) = none := by
    rw [List.find?_eq_none]
    intro b hb
    have := h b hb
    simpa using this
  rw [decodeStrict, hfind]
  rfl

end ShadowMsm
