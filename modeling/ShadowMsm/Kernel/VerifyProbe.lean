import ShadowMsm.Kernel.Fdt

/-!
# The build verifier

`verify_probe.py` reads a zImage, the decompressed Image, a device tree and the `System.map` of a kernel build, and accepts
them or exits with a message.  What it accepts fits the memory map of the RAM boot (`Accepted`).
-/

namespace ShadowMsm.Kernel

/-! ### Python -/

/-- `str.isspace` of an ASCII character -/
def isSpace (c : Char) : Bool := c.toNat ∈ [0x09, 0x0A, 0x0B, 0x0C, 0x0D, 0x1C, 0x1D, 0x1E, 0x1F, 0x20]

/-- `text.split()` -/
def splitWords (text : List Char) : List (List Char) := (text.splitOnP isSpace).filter (· ≠ [])

/-- `int(text, 16)` of a text without spaces: a sign, a prefix, and digits with single underscores between them; none for a
`ValueError`. -/
def intHex (text : List Char) : Option Int :=
  let unsigned := if text.head? = some '-' ∨ text.head? = some '+' then text.tail else text
  let digits :=
    if unsigned.take 2 = ['0', 'x'] ∨ unsigned.take 2 = ['0', 'X'] then
      if (unsigned.drop 2).head? = some '_' then unsigned.drop 3 else unsigned.drop 2
    else unsigned
  let groups := digits.splitOnP (· = '_')
  if ∀ group ∈ groups, group ≠ [] ∧ group.all isHexDigit then
    let n : Int := intBase16 groups.flatten
    some (if text.head? = some '-' then -n else n)
  else none

/-- `f"{n:08X}"` of an integer -/
def format08XInt (n : Int) : String := if n < 0 then "-" ++ formatHex 7 n.natAbs else format08X n.toNat

/-- `repr` of a list of pairs of integers -/
def reprPairs (pairs : List (Nat × Nat)) : String :=
  "[" ++ ", ".intercalate (pairs.map fun p => "(" ++ toString p.1 ++ ", " ++ toString p.2 ++ ")") ++ "]"

/-! ### The symbols -/

/-- `symbols`: the last assignment first. -/
abbrev Symbols := List (List Char × Int)

/-- `symbols.get(name)` -/
def Symbols.get? (symbols : Symbols) (name : List Char) : Option Int := (symbols.find? fun s => s.1 = name).map Prod.snd

/-- `symbols[name]` -/
def Symbols.getItem (symbols : Symbols) (name : List Char) : Except Exn Int :=
  match symbols.get? name with
  | some address => return address
  | none => throw (.keyError (String.ofList name))

/-- The loop of `parse_symbols` from a line number on. -/
def parseSymbolLines : Nat → List (List Char) → Symbols → Except Exn Symbols
  | _, [], symbols => return symbols
  | lineNumber, line :: lines, symbols =>
    match splitWords line with
    | [addressText, _, name] =>
      match intHex addressText with
      | some address => parseSymbolLines (lineNumber + 1) lines ((name, address) :: symbols)
      | none =>
        throw (.systemExit ("bad System.map address on line " ++ toString lineNumber ++ ": " ++
          String.ofList (reprText addressText)))
    | _ =>
      throw (.systemExit ("malformed System.map line " ++ toString lineNumber ++ ": " ++ String.ofList (reprText line)))

def parseSymbols (file : Bytes) : Except Exn Symbols := do
  let text ← decodeStrict file
  parseSymbolLines 1 (splitlines (universalNewlines text)) []

/-! ### The verifier -/

def LINUX_PHYS_BASE : Nat := 0x00200000
def LINUX_PHYS_ENTRY : Nat := LINUX_PHYS_BASE + 0x00008000
def STAGE0_BASE : Nat := 0x00800000
def LINUX_RUNTIME_LIMIT : Nat := 0x00780000
def ZIMAGE_STAGE : Nat := 0x01200000
def ZIMAGE_LIMIT : Nat := 0x00D00000
def DTB_STAGE : Nat := 0x01F80000
def DTB_LIMIT : Nat := 0x00010000
def LINUX_RAM_SIZE : Nat := 0x01E00000
def STAGE0_RESERVE_SIZE : Nat := 0x00100000

def requiredSymbols : List (List Char) := ["_text".toList, "__bss_start".toList, "__bss_stop".toList, "_end".toList]

def expectedReserves : List (Nat × Nat) := [(STAGE0_BASE, STAGE0_RESERVE_SIZE), (DTB_STAGE, DTB_LIMIT)]

/-- `struct.pack(">II", LINUX_PHYS_BASE, LINUX_RAM_SIZE)` -/
def expectedMemoryReg : Bytes := (leBytes 4 LINUX_PHYS_BASE).reverse ++ (leBytes 4 LINUX_RAM_SIZE).reverse

/-- `properties.get(("/memory@200000", "reg"))` -/
def memoryReg (properties : Properties) : Option Bytes :=
  (properties.find? fun p => p.1 = ("/memory@200000".toList, "reg".toList)).map Prod.snd

/-- The `repr` of the memory map in the message about it. -/
def memoryRegText : Option Bytes → String
  | none => "missing"
  | some reg => if reg = [] then "missing" else bytesHex reg

/-- The numbers of the report. -/
structure Report where
  zimageSize : Nat
  zstart : Nat
  zend : Nat
  imageSize : Nat
  imageEnd : Int
  bssStart : Int
  bssStop : Int
  runtimeEnd : Int
  dtbSize : Nat
  deriving DecidableEq, Repr

/-- The checks of the sizes of the files. -/
def checkSizes (zimage image : Bytes) : Except Exn Unit := do
  exitIf (ZIMAGE_LIMIT < zimage.length) "zImage exceeds the 13 MiB staging window"
  exitIf (DTB_STAGE < ZIMAGE_STAGE + zimage.length) "zImage overlaps the DTB staging window"
  exitIf (STAGE0_BASE < LINUX_PHYS_ENTRY + image.length) "decompressed Image would overwrite stage-0"

/-- The checks of the symbols: the physical addresses of the end of the Image, of the BSS and of the runtime. -/
def checkRuntime (image : Bytes) (symbols : Symbols) : Except Exn (Int × Int × Int × Int) := do
  let missing := requiredSymbols.filter fun name => symbols.get? name = none
  exitIf (missing ≠ []) ("System.map is missing required symbols: " ++ ", ".intercalate (missing.map String.ofList))
  let text ← symbols.getItem "_text".toList
  exitIf (text ≠ 0xC0008000) ("unexpected virtual _text address: 0x" ++ format08XInt text)
  let bss ← symbols.getItem "__bss_start".toList
  let stop ← symbols.getItem "__bss_stop".toList
  let last ← symbols.getItem "_end".toList
  let imageEnd : Int := LINUX_PHYS_ENTRY + image.length
  let bssStart := LINUX_PHYS_ENTRY + (bss - text)
  let bssStop := LINUX_PHYS_ENTRY + (stop - text)
  let runtimeEnd := LINUX_PHYS_ENTRY + (last - text)
  exitIf (bssStart ≠ imageEnd) ("Image/BSS boundary mismatch: file ends at 0x" ++ format08XInt imageEnd ++
    ", BSS starts at 0x" ++ format08XInt bssStart)
  exitIf (¬(bssStart ≤ bssStop ∧ bssStop ≤ runtimeEnd)) "unexpected BSS/runtime symbol ordering"
  exitIf (LINUX_RUNTIME_LIMIT < runtimeEnd) ("Linux runtime ends at 0x" ++ format08XInt runtimeEnd ++
    ", beyond guarded limit 0x" ++ format08X LINUX_RUNTIME_LIMIT)
  return (imageEnd, bssStart, bssStop, runtimeEnd)

/-- The checks of the tree. -/
def checkFdt (dtb : Bytes) : Except Exn Unit := do
  let tree ← parseFdt dtb
  exitIf (¬expectedReserves ⊆ tree.1) ("missing required FDT reservations: " ++ reprPairs tree.1)
  exitIf (memoryReg tree.2 ≠ some expectedMemoryReg)
    ("unexpected FDT memory map: " ++ memoryRegText (memoryReg tree.2))

/-- `main`, after it has read the files; the digests of the report are left out. -/
def verifyProbe (zimage image dtb symbolFile : Bytes) : Except Exn Report := do
  let symbols ← parseSymbols symbolFile
  checkSizes zimage image
  let (imageEnd, bssStart, bssStop, runtimeEnd) ← checkRuntime image symbols
  exitIf (DTB_LIMIT < dtb.length) "DTB exceeds its 64 KiB staging window"
  let zmagic ← unpackLittle zimage 0x24
  exitIf (zmagic ≠ 0x016F2818) ("bad ARM zImage magic: 0x" ++ format08X zmagic)
  let zstart ← unpackLittle zimage 0x28
  let zend ← unpackLittle zimage 0x2C
  checkFdt dtb
  return ⟨zimage.length, zstart, zend, image.length, imageEnd, bssStart, bssStop, runtimeEnd, dtb.length⟩

/-! ### What is accepted -/

/-- The facts about accepted files that the loader and the bootloader rely on. -/
structure Accepted (image dtb : Bytes) (runtimeEnd : Int) : Prop where
  image_le_runtime : 0x00208000 + (image.length : Int) ≤ runtimeEnd
  runtime_le_limit : runtimeEnd ≤ 0x00780000
  dtb_length_le : dtb.length ≤ 0x00010000
  dtb_parsed : ∃ tree, parseFdt dtb = .ok tree

theorem of_checkRuntime_ok {image : Bytes} {symbols : Symbols} {r : Int × Int × Int × Int}
    (h : checkRuntime image symbols = .ok r) :
    0x00208000 + (image.length : Int) ≤ r.2.2.2 ∧ r.2.2.2 ≤ 0x00780000 := by
  obtain ⟨_, -, h⟩ := of_bind_ok h
  obtain ⟨text, -, h⟩ := of_bind_ok h
  obtain ⟨_, -, h⟩ := of_bind_ok h
  obtain ⟨bss, -, h⟩ := of_bind_ok h
  obtain ⟨stop, -, h⟩ := of_bind_ok h
  obtain ⟨last, -, h⟩ := of_bind_ok h
  obtain ⟨_, hbss, h⟩ := of_bind_ok h
  obtain ⟨_, horder, h⟩ := of_bind_ok h
  obtain ⟨_, hlimit, h⟩ := of_bind_ok h
  obtain rfl := Except.ok.inj h
  have hentry : (LINUX_PHYS_ENTRY : Int) = 0x00208000 := rfl
  have hend : (LINUX_RUNTIME_LIMIT : Int) = 0x00780000 := rfl
  have h1 := not_not.mp (of_exitIf_ok hbss)
  have h2 := not_not.mp (of_exitIf_ok horder)
  have h3 := of_exitIf_ok hlimit
  dsimp only
  omega

theorem accepted_of_ok {zimage image dtb symbolFile : Bytes} {report : Report}
    (h : verifyProbe zimage image dtb symbolFile = .ok report) : Accepted image dtb report.runtimeEnd := by
  obtain ⟨symbols, -, h⟩ := of_bind_ok h
  obtain ⟨_, -, h⟩ := of_bind_ok h
  obtain ⟨⟨imageEnd, bssStart, bssStop, runtimeEnd⟩, hruntime, h⟩ := of_bind_ok h
  obtain ⟨_, hdtb, h⟩ := of_bind_ok h
  obtain ⟨zmagic, -, h⟩ := of_bind_ok h
  obtain ⟨_, -, h⟩ := of_bind_ok h
  obtain ⟨zstart, -, h⟩ := of_bind_ok h
  obtain ⟨zend, -, h⟩ := of_bind_ok h
  obtain ⟨_, hfdt, h⟩ := of_bind_ok h
  obtain ⟨tree, htree, -⟩ := of_bind_ok hfdt
  cases h
  obtain ⟨h1, h2⟩ := of_checkRuntime_ok hruntime
  exact ⟨h1, h2, Nat.not_lt.mp (of_exitIf_ok hdtb), tree, htree⟩

end ShadowMsm.Kernel
