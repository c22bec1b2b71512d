import ShadowMsm.Arm.Encode
import ShadowMsm.Bl1.ImageBoot

/-!
# The file of BL1 0.4

`build_linux_image_bl1.py` after its checks of the Image: the listing is assembled, code that reaches the strings is
refused, and code, strings, digit table and text buffer go into one file.
-/

namespace ShadowMsm.Bl1

open Arm

namespace Layout

variable (y : Layout)

/-- `string_blob` -/
def stringBlob : Bytes := y.strings.flatMap fun s => encodeAscii s.2.toList ++ [0x00]

/-- `0123456789ABCDEF` -/
def hexDigits : Bytes := encodeAscii "0123456789ABCDEF".toList

/-- The text buffer, `0x00000000` and a line end, with a final zero. -/
def hexBuffer : Bytes := encodeAscii "0x00000000\r\n".toList ++ [0x00]

def zeros (n : Nat) : Bytes := List.replicate n 0x00

/-- The file: zeros where the builder puts nothing. -/
def file (code : Bytes) : Bytes :=
  code ++ zeros (y.stringsOffset - code.length) ++
    y.stringBlob ++ zeros (y.hexTableOffset - y.stringsOffset - y.stringBlob.length) ++
    hexDigits ++ zeros (y.hexBufferOffset - y.hexTableOffset - hexDigits.length) ++ hexBuffer

end Layout

/-- A built BL1: the program, and the bytes of the file that holds it. -/
structure ImageBl1 where
  program : Program Label
  data : Bytes

/-- `main` of the builder, with the assembler `asm`. -/
def buildLinuxImageBl1 (asm : Program Label → Bytes) (image : Bytes) : Except String ImageBl1 := do
  let program ← buildImageBoot image
  let code := asm program
  if Layout.imageBoot.stringsOffset < code.length then throw "BL1 code overlaps its strings"
  else return ⟨program, Layout.imageBoot.file code⟩

/-! ### The code fits -/

theorem length_probes_le (image : Bytes) : (probes image).length ≤ 17 := by
  rw [probes, List.length_map, imageProbeOffsets, List.length_mergeSort]
  calc ((probeOffsets image.length).dedup.filter _).length
      ≤ (probeOffsets image.length).dedup.length := List.length_filter_le _ _
    _ ≤ (probeOffsets image.length).length := (List.dedup_sublist _).length_le
    _ = 17 := rfl

theorem words_probeAsm (image : Bytes) : words (Layout.probeAsm image) = 7 * (probes image).length := by
  unfold Layout.probeAsm
  induction probes image with
  | nil => rfl
  | cons probe ps ih =>
    rw [List.flatMap_cons, words_append, ih, List.length_cons]
    change 7 + _ = _
    omega

section

variable (y : Layout)

theorem words_printLiteral (name : Text) : words (y.printLiteral name) = 3 := rfl

theorem words_failBlock (l : Label) (name : Text) (code : Word) : words (y.failBlock l name code) = 6 := rfl

theorem words_inputs : words y.imageInputsBlock = 24 := rfl

theorem words_tail : words y.imageTail = 150 := by
  have hmagic : words y.dtbMagicBlock = 9 := rfl
  have htotal : words y.dtbTotalBlock = 9 := rfl
  have hcpu : words y.cpuBlock = 15 := rfl
  have harmed : words (y.armedBlock (BitVec.ofNat 32 IMAGE_ADDR)) = 35 := rfl
  have hjump : words Layout.jumpBlock = 11 := rfl
  have hlast : words (y.lastFailBlock .failState .badState 0xBAD40005) = 5 := rfl
  have hfinish : words Layout.finishBlock = 5 := rfl
  have hvalue : words y.printValueBlock = 9 := rfl
  have hformat : words y.formatHexBlock = 7 := rfl
  have hloop : words Layout.hexLoopBlock = 7 := rfl
  have hswap : words Layout.bswap32Block = 11 := rfl
  simp only [Layout.imageTail, words_append, words_printLiteral, words_failBlock, hmagic, htotal, hcpu, harmed, hjump, hlast,
    hfinish, hvalue, hformat, hloop, hswap]

end

/-- The listing takes 1288 bytes at most, well below the strings. -/
theorem words_imageBoot (image : Bytes) : words (imageBoot image).lines ≤ 322 := by
  change words (Layout.imageBoot.imageBootSource image) ≤ 322
  have hprobes := length_probes_le image
  have hentry : words Layout.entryBlock = 8 := rfl
  have haddresses : words (L := Label) [.ldrc .r7 (BitVec.ofNat 32 IMAGE_ADDR), .ldrc .r8 DTB_ADDR] = 4 := rfl
  have hmarker : words Layout.imageMarkerBlock = 4 := rfl
  have hsize : words (Layout.imageSizeBlock image) = 10 := rfl
  rw [Layout.imageBootSource, words_append, words_append, words_append, words_append, words_append, words_append,
    words_append, words_probeAsm, words_inputs, words_tail, words_printLiteral]
  omega

theorem length_file {code : Bytes} (h : code.length ≤ 0x1000) : (Layout.imageBoot.file code).length = 5933 := by
  have hblob : Layout.imageBoot.stringBlob.length = Layout.blobLength Layout.imageBoot.strings := by
    simp only [Layout.stringBlob, Layout.blobLength, encodeAscii, List.length_flatMap, List.length_append, List.length_map,
      String.length_toList]
    rfl
  have hfit : Layout.blobLength Layout.imageBoot.strings ≤ 0x700 := stringsFit_imageBoot
  have hdigits : Layout.hexDigits.length = 16 := by decide
  have hbuffer : Layout.hexBuffer.length = 13 := by decide
  have hstrings : Layout.imageBoot.stringsOffset = 0x1000 := rfl
  have htable : Layout.imageBoot.hexTableOffset = 0x1700 := rfl
  have hoffset : Layout.imageBoot.hexBufferOffset = 0x1720 := rfl
  simp only [Layout.file, Layout.zeros, List.length_append, List.length_replicate, hblob, hdigits, hbuffer, hstrings,
    htable, hoffset]
  omega

/-- The builder refuses no Image for what its listing looks like. -/
theorem buildLinuxImageBl1_eq_ok {asm : Program Label → Bytes} (hasm : Assembles asm) {image : Bytes}
    (hsmall : 0x1000 ≤ image.length) (hlimit : IMAGE_ADDR + image.length ≤ IMAGE_LIMIT) :
    ∃ bl1, buildLinuxImageBl1 asm image = .ok bl1 ∧ bl1.program = imageBoot image ∧ bl1.data.length = 5933 := by
  have hbuild : buildImageBoot image = .ok (imageBoot image) := by
    rw [buildImageBoot, if_neg (by omega), if_neg (by omega), if_pos stringsFit_imageBoot]
  have hcode : (asm (imageBoot image)).length ≤ 0x1000 := by
    have h1 := hasm.length_le (imageBoot image)
    have h2 := words_imageBoot image
    omega
  refine ⟨⟨imageBoot image, Layout.imageBoot.file (asm (imageBoot image))⟩, ?_, rfl, length_file hcode⟩
  rw [buildLinuxImageBl1, hbuild]
  change (if 0x1000 < (asm (imageBoot image)).length then _ else _) = _
  rw [if_neg (by omega)]
  rfl

end ShadowMsm.Bl1
