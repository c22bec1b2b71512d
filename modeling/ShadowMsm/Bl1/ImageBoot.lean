import Mathlib.Data.List.Sort
import ShadowMsm.Bl1.Builders
import ShadowMsm.Python

/-!
# BL1 0.4

The handoff to a decompressed Linux Image.  The builder is given the Image and puts its size and some of its words, the
fingerprints, into the listing, which compares them with what is in RAM before it jumps.
-/

namespace ShadowMsm.Bl1

open Arm

def IMAGE_ADDR : Nat := 0x00208000
def IMAGE_LIMIT : Nat := 0x00780000
def IMAGE_MARKER : Word := 0x494D4731

/-! ### The fingerprints -/

/-- The set of offsets of which those inside the Image are taken. -/
def probeOffsets (size : Nat) : List Nat :=
  [0, 4, 8, 12, 0x00040000, 0x00080000, 0x000C0000, 0x00100000, 0x00140000, 0x00180000, 0x001C0000, 0x00200000,
   0x00240000, 0x00280000, 0x002C0000, 0x00300000, (size - 4) / 4 * 4]

def imageProbeOffsets (size : Nat) : List Nat :=
  ((probeOffsets size).dedup.filter fun offset => offset + 4 ≤ size).mergeSort

/-- `struct.unpack_from("<I", image, offset)`, for an offset with four bytes behind it. -/
def unpackFromI (image : Bytes) (offset : Nat) : Word :=
  image.getD (offset + 3) 0 ++ image.getD (offset + 2) 0 ++ image.getD (offset + 1) 0 ++ image.getD offset 0

def probes (image : Bytes) : List (Nat × Word) :=
  (imageProbeOffsets image.length).map fun offset => (offset, unpackFromI image offset)

/-! ### The listing -/

namespace Layout

def imageBoot : Layout where
  stringsOffset := 0x1000
  hexTableOffset := 0x1700
  hexBufferOffset := 0x1720
  table_before_buffer := zimageBoot.table_before_buffer
  buffer_below := zimageBoot.buffer_below
  strings :=
    [(.banner, "K3765-Z BL1 0.4 direct Linux Image boot\r\n"),
     (.mode, "Mode  : validated non-returning Image handoff\r\n"),
     (.persist, "Flash : untouched; RAM execution only\r\n"),
     (.sizes, "Input images\r\n"),
     (.imageSize, "Image size     : "),
     (.dtbSize, "DTB size       : "),
     (.marker, "Host marker     : "),
     (.headers, "Image fingerprints and DTB validation\r\n"),
     (.fingerprints, "Image sparse fingerprints: PASS\r\n"),
     (.dtbMagic, "DTB magic      : "),
     (.dtbTotal, "DTB total size : "),
     (.cpu, "Linux entry state\r\n"),
     (.cpsr, "CPSR            : "),
     (.sctlr, "SCTLR           : "),
     (.pc, "PC              : "),
     (.r0, "r0              : "),
     (.r1, "r1              : "),
     (.r2, "r2              : "),
     (.pass, "Validation PASS\r\n"),
     (.blue, "LED checkpoint  : blue\r\n"),
     (.jump, "JUMPING DIRECTLY TO DECOMPRESSED LINUX IMAGE\r\n"),
     (.badSize, "Validation FAIL: image size/range\r\n"),
     (.badImage, "Validation FAIL: Image fingerprint mismatch\r\n"),
     (.badDtb, "Validation FAIL: flattened device tree header\r\n"),
     (.badMarker, "Validation FAIL: host arming marker\r\n"),
     (.badState, "Validation FAIL: MMU or D-cache is enabled\r\n")]

variable (y : Layout) (image : Bytes)

def imageInputsBlock : List (Line Label) :=
  y.printLiteral .banner ++ y.printLiteral .mode ++ y.printLiteral .persist ++ y.printLiteral .sizes ++
  y.printAfter .imageSize (.mov .r1 (.reg .r4)) ++ y.printAfter .dtbSize (.mov .r1 (.reg .r5)) ++
  y.printAfter .marker (.mov .r1 (.reg .r6))

def imageMarkerBlock : List (Line Label) := [.ldrc .r0 IMAGE_MARKER, .cmp .r6 (.reg .r0), .bne .failMarker]

def imageSizeBlock : List (Line Label) :=
  [.ldrc .r0 (BitVec.ofNat 32 image.length), .cmp .r4 (.reg .r0), .bne .failSize,
   .cmp .r5 (.imm 0x28), .blo .failSize,
   .ldrc .r0 DTB_MAX, .cmp .r5 (.reg .r0), .bhi .failSize]

/-- The comparison of one fingerprint. -/
def probeLines (probe : Nat × Word) : List (Line Label) :=
  [.ldrc .r0 (BitVec.ofNat 32 (IMAGE_ADDR + probe.1)),
   .ldr .r0 .r0 0,
   .ldrc .r1 probe.2,
   .cmp .r0 (.reg .r1),
   .bne .failImage]

def probeAsm (image : Bytes) : List (Line Label) := (probes image).flatMap probeLines

/-- What follows the fingerprints. -/
def imageTail : List (Line Label) :=
  y.printLiteral .fingerprints ++ (y.dtbMagicBlock ++ (y.dtbTotalBlock ++ (y.cpuBlock ++
    (y.armedBlock (BitVec.ofNat 32 IMAGE_ADDR) ++ (jumpBlock ++
      (y.failBlock .failSize .badSize 0xBAD40003 ++ (y.failBlock .failImage .badImage 0xBAD40001 ++
        (y.failBlock .failDtb .badDtb 0xBAD40002 ++ (y.failBlock .failMarker .badMarker 0xBAD40004 ++
          (y.lastFailBlock .failState .badState 0xBAD40005 ++
            (finishBlock ++ (y.printValueBlock ++ (y.formatHexBlock ++ (hexLoopBlock ++ bswap32Block))))))))))))))

def imageBootSource : List (Line Label) :=
  entryBlock ++ ([.ldrc .r7 (BitVec.ofNat 32 IMAGE_ADDR), .ldrc .r8 DTB_ADDR] ++ (y.imageInputsBlock ++
    (imageMarkerBlock ++ (imageSizeBlock image ++ (y.printLiteral .headers ++ (probeAsm image ++ y.imageTail))))))

end Layout

def imageBoot (image : Bytes) : Program Label := ⟨BL1_BASE, Layout.imageBoot.imageBootSource image⟩

/-- The labels behind the entry are all in the tail. -/
theorem imageBoot_codeAt {image : Bytes} {l : Label} (hl : l ≠ .entry) :
    (imageBoot image).codeAt l = Layout.imageBoot.imageTail.dropWhile fun x => x ≠ .label l := by
  have hprobes : ∀ x ∈ Layout.probeAsm image, decide (x ≠ Line.label l) = true := by
    intro x hx
    obtain ⟨probe, -, hx⟩ := List.mem_flatMap.mp hx
    simp only [Layout.probeLines, List.mem_cons, List.not_mem_nil, or_false] at hx
    rcases hx with rfl | rfl | rfl | rfl | rfl <;> rfl
  have hentry : ∀ x ∈ Layout.entryBlock, decide (x ≠ Line.label l) = true := by
    intro x hx
    simp only [Layout.entryBlock, List.mem_cons, List.not_mem_nil, or_false] at hx
    rcases hx with rfl | rfl | rfl | rfl | rfl | rfl | rfl | rfl
    · simpa using Ne.symm hl
    all_goals rfl
  unfold Program.codeAt imageBoot Layout.imageBootSource
  rw [List.dropWhile_append_of_pos hentry, List.dropWhile_append_of_pos (List.all_eq_true.mp rfl),
    List.dropWhile_append_of_pos (List.all_eq_true.mp rfl), List.dropWhile_append_of_pos (List.all_eq_true.mp rfl),
    List.dropWhile_append_of_pos (List.all_eq_true.mp rfl), List.dropWhile_append_of_pos (List.all_eq_true.mp rfl),
    List.dropWhile_append_of_pos hprobes]

/-- One block of the tail in front of the next. -/
theorem imageBoot_block {image : Bytes} {l k : Label} {b : List (Line Label)} (hl : l ≠ .entry) (hn : k ≠ .entry)
    (h : (Layout.imageBoot.imageTail.dropWhile fun x => x ≠ .label l) =
      b ++ Layout.imageBoot.imageTail.dropWhile fun x => x ≠ .label k) :
    (imageBoot image).codeAt l = b ++ (imageBoot image).codeAt k := by
  rw [imageBoot_codeAt hl, imageBoot_codeAt hn]
  exact h

/-- The builder: its checks of the Image, and the listing that it assembles. -/
def buildImageBoot (image : Bytes) : Except String (Program Label) :=
  if image.length < 0x1000 then .error "Linux Image is implausibly small"
  else if IMAGE_LIMIT < IMAGE_ADDR + image.length then
    .error ("Linux Image ends at 0x" ++ format08X (IMAGE_ADDR + image.length) ++ ", beyond 0x" ++
      format08X IMAGE_LIMIT)
  else if Layout.imageBoot.stringsFit then .ok (imageBoot image)
  else .error "strings overlap the hexadecimal table"

theorem stringsFit_imageBoot : Layout.imageBoot.stringsFit := by decide +kernel

/-- What the builder accepts. -/
theorem buildImageBoot_ok {image : Bytes} {p : Program Label} (h : buildImageBoot image = .ok p) :
    p = imageBoot image ∧ IMAGE_ADDR + image.length ≤ IMAGE_LIMIT := by
  unfold buildImageBoot at h
  split at h
  · cases h
  · split at h
    · cases h
    · split at h
      · rename_i hle _
        cases h
        exact ⟨rfl, by omega⟩
      · cases h

end ShadowMsm.Bl1
