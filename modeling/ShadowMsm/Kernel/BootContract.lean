import Mathlib.Data.List.GetD
import ShadowMsm.Bl1.Handoff
import ShadowMsm.Bl1.ImageFile
import ShadowMsm.Host.Bundle
import ShadowMsm.Kernel.VerifyProbe

/-!
# The memory contract of the boot

The build verifier, the bundle loader and BL1 0.4 each check the memory map with comparisons of their own.  They agree: files
that the verifier accepts are loaded, leave the monitor alone at run time, and are booted (`verified_boots`).
-/

namespace ShadowMsm.Kernel

open Arm Bl1

/-! ### RAM that holds files -/

/-- The bytes of the files are at their addresses. -/
def Holds {P : Type} (μ : Mem) (bundle : List (Host.Image P)) : Prop :=
  ∀ c ∈ bundle.flatMap Host.Image.cells, μ (BitVec.ofInt 32 c.1) = c.2

section

variable {P : Type} {μ : Mem} {bundle : List (Host.Image P)} {i : Host.Image P} {base : Word}

theorem Holds.byte (h : Holds μ bundle) (hi : i ∈ bundle) (hbase : BitVec.ofInt 32 i.address = base) {k : Nat}
    (hk : k < i.data.length) : μ (base + BitVec.ofNat 32 k) = i.data.getD k 0 := by
  have hcell : (i.address + (k : Int), i.data.getD k 0) ∈ bundle.flatMap Host.Image.cells := by
    refine List.mem_flatMap.mpr ⟨i, hi, Host.mem_cells.mpr ⟨k, rfl, ?_⟩⟩
    rw [List.getD_eq_getElem _ _ hk, List.getElem?_eq_getElem hk]
  have := h _ hcell
  rwa [BitVec.ofInt_add, BitVec.ofInt_natCast, hbase] at this

theorem add_ofNat_add (base : Word) (o k : Nat) :
    base + BitVec.ofNat 32 o + BitVec.ofNat 32 k = base + BitVec.ofNat 32 (o + k) := by
  rw [BitVec.add_assoc, ← BitVec.ofNat_add]

theorem Holds.byte_add (h : Holds μ bundle) (hi : i ∈ bundle) (hbase : BitVec.ofInt 32 i.address = base) {o k : Nat}
    (hk : o + k < i.data.length) :
    μ (base + BitVec.ofNat 32 o + BitVec.ofNat 32 k) = i.data.getD (o + k) 0 := by
  rw [add_ofNat_add]
  exact h.byte hi hbase hk

/-- A word of a file in RAM is the word the builder took from the file. -/
theorem Holds.load32 (h : Holds μ bundle) (hi : i ∈ bundle) (hbase : BitVec.ofInt 32 i.address = base) {o : Nat}
    (ho : o + 4 ≤ i.data.length) : Arm.load32 μ (base + BitVec.ofNat 32 o) = unpackFromI i.data o := by
  have hbyte (k : Nat) (hk : k < 4) := h.byte_add hi hbase (show o + k < i.data.length by omega)
  have h0 := hbyte 0 (by omega)
  rw [BitVec.add_zero, Nat.add_zero] at h0
  rw [Arm.load32, unpackFromI, ← h0, ← hbyte 1 (by omega), ← hbyte 2 (by omega), ← hbyte 3 (by omega)]
  rfl

theorem toNat_append_four (a b c d : Byte) : (a ++ b ++ c ++ d : BitVec 32).toNat = fromBytesBig [a, b, c, d] := by
  have ha := a.isLt
  have hb := b.isLt
  have hc := c.isLt
  have hd := d.isLt
  simp only [BitVec.toNat_append, fromBytesBig, List.foldl_cons, List.foldl_nil]
  -- each byte fills the bits that the shift has cleared
  rw [← Nat.shiftLeft_add_eq_or_of_lt hb, ← Nat.shiftLeft_add_eq_or_of_lt hc, ← Nat.shiftLeft_add_eq_or_of_lt hd]
  simp only [Nat.shiftLeft_eq]
  omega

theorem take_four_drop {l : Bytes} {o : Nat} (h : o + 4 ≤ l.length) :
    (l.drop o).take 4 = [l.getD o 0, l.getD (o + 1) 0, l.getD (o + 2) 0, l.getD (o + 3) 0] := by
  rw [List.drop_eq_getElem_cons (by omega), List.drop_eq_getElem_cons (by omega), List.drop_eq_getElem_cons (by omega),
    List.drop_eq_getElem_cons (by omega), List.getD_eq_getElem _ _ (by omega), List.getD_eq_getElem _ _ (by omega),
    List.getD_eq_getElem _ _ (by omega), List.getD_eq_getElem _ _ (by omega)]
  rfl

/-- A big-endian word of a file in RAM is the one the verifier reads in the file. -/
theorem Holds.load32be (h : Holds μ bundle) (hi : i ∈ bundle) (hbase : BitVec.ofInt 32 i.address = base) {o : Nat}
    (ho : o + 4 ≤ i.data.length) :
    (Bl1.load32be μ (base + BitVec.ofNat 32 o)).toNat = fromBytesBig ((i.data.drop o).take 4) := by
  have hbyte (k : Nat) (hk : k < 4) := h.byte_add hi hbase (show o + k < i.data.length by omega)
  have h0 := hbyte 0 (by omega)
  rw [BitVec.add_zero, Nat.add_zero] at h0
  rw [take_four_drop ho, ← h0, ← hbyte 1 (by omega), ← hbyte 2 (by omega), ← hbyte 3 (by omega), ← toNat_append_four]
  rfl

end

/-! ### The agreement -/

section

variable {P : Type}

/-- The files of a RAM boot beside the monitor. -/
def bootImages (imagePath bl1Path dtbPath : P) (image bl1 dtb : Bytes) : List (Host.Image P) :=
  [⟨0x00208000, imagePath, image⟩, ⟨0x01000000, bl1Path, bl1⟩, ⟨0x01F80000, dtbPath, dtb⟩]

/-- What the running kernel may occupy, up to the end of its BSS. -/
def runtimeSpan (runtimeEnd : Int) : Set Int := Set.Ico 0x00208000 runtimeEnd

/-- A call of BL1 over RAM that holds the files, with MMU and data cache off. -/
structure BootCall (image dtb : Bytes) (bundle : List (Host.Image P)) (m : Machine) : Prop where
  ram : Holds m.mem bundle
  r0 : m.reg .r0 = BitVec.ofNat 32 image.length
  r1 : m.reg .r1 = BitVec.ofNat 32 dtb.length
  r2 : m.reg .r2 = IMAGE_MARKER
  mmu : (m.sys .sctlr).getLsbD 0 = false
  dcache : (m.sys .sctlr).getLsbD 2 = false

variable {image dtb bl1 monitor : Bytes} {runtimeEnd : Int} {monitorPath imagePath bl1Path dtbPath : P}

/-- The running kernel stays below the guard, and so below the monitor, BL1 and the tree. -/
theorem runtime_disjoint (h : Accepted image dtb runtimeEnd) {s : Set Int} (hs : ∀ x ∈ s, 0x00780000 ≤ x) :
    Disjoint (runtimeSpan runtimeEnd) s := by
  refine Set.disjoint_left.mpr ?_
  intro x hx hxs
  have h1 := hx.2
  have h2 := hs x hxs
  have h3 := h.runtime_le_limit
  omega

/-- Every check of BL1 passes over RAM that holds an accepted Image and tree among its files. -/
theorem validated_of_mem (h : Accepted image dtb runtimeEnd) (imagePath dtbPath : P) {bundle : List (Host.Image P)}
    {m : Machine} (himage : ⟨0x00208000, imagePath, image⟩ ∈ bundle)
    (htreeFile : ⟨0x01F80000, dtbPath, dtb⟩ ∈ bundle) (hm : BootCall image dtb bundle m) : Validated image m := by
  obtain ⟨tree, htree⟩ := h.dtb_parsed
  obtain ⟨hdtb, hmagic, htotal⟩ := of_parseFdt_ok htree
  have h3 := h.dtb_length_le
  intro c
  cases c with
  | marker => exact hm.r2
  | size =>
    refine ⟨hm.r0, ?_, ?_⟩
    · rw [hm.r1]
      bv_omega
    · rw [hm.r1]
      bv_omega
  | fingerprints =>
    rintro probe hp
    obtain ⟨o, ho, rfl⟩ := List.mem_map.mp hp
    exact hm.ram.load32 himage rfl (imageProbeOffsets_spec ho).2
  | dtb =>
    have hword {o : Nat} (ho : o + 4 ≤ dtb.length) :
        (Bl1.load32be m.mem (0x01F80000 + BitVec.ofNat 32 o)).toNat = fromBytesBig ((dtb.drop o).take 4) :=
      hm.ram.load32be htreeFile rfl ho
    constructor
    · apply BitVec.eq_of_toNat_eq
      exact (hword (o := 0) (by omega)).trans hmagic
    · rw [hm.r1]
      apply BitVec.eq_of_toNat_eq
      rw [BitVec.toNat_ofNat, Nat.mod_eq_of_lt (by omega)]
      exact (hword (o := 4) (by omega)).trans htotal
  | cpuState => exact ⟨hm.mmu, hm.dcache⟩

theorem validated_of_bootCall (h : Accepted image dtb runtimeEnd) {m : Machine}
    (hm : BootCall image dtb
      (⟨Host.MONITOR_BASE, monitorPath, monitor⟩ :: bootImages imagePath bl1Path dtbPath image bl1 dtb) m) :
    Validated image m :=
  validated_of_mem h imagePath dtbPath (by simp [bootImages]) (by simp [bootImages]) hm

variable [LinearOrder P] [ToString P]

/-- The loader takes the files in any order. -/
theorem checkBundle_of_accepted (hmonitor : monitor.length = 105928) (himage : 0x1000 ≤ image.length)
    (hbl1 : bl1.length = 5933) (h : Accepted image dtb runtimeEnd) {images : List (Host.Image P)}
    (hperm : images.Perm (bootImages imagePath bl1Path dtbPath image bl1 dtb)) :
    Host.checkBundle monitorPath monitor images = .ok (⟨Host.MONITOR_BASE, monitorPath, monitor⟩ :: images) := by
  obtain ⟨tree, htree⟩ := h.dtb_parsed
  have hdtb := (of_parseFdt_ok htree).1
  have h1 := h.image_le_runtime
  have h2 := h.runtime_le_limit
  have h3 := h.dtb_length_le
  have hwindow : ∀ i ∈ bootImages imagePath bl1Path dtbPath image bl1 dtb,
      i.data ≠ [] ∧ i.span.toSet ⊆ Host.windows := by
    intro i hi
    simp only [bootImages, List.mem_cons, List.not_mem_nil, or_false] at hi
    rcases hi with rfl | rfl | rfl
    · refine ⟨List.length_pos_iff.mp (by dsimp only; omega), Host.subset_windows_of_rangeIsAllowed ?_⟩
      exact Host.rangeIsAllowed_iff.mpr (.inl ⟨Int.le_refl _, by dsimp only; omega⟩)
    · refine ⟨List.length_pos_iff.mp (by dsimp only; omega), Host.subset_windows_of_rangeIsAllowed ?_⟩
      exact Host.rangeIsAllowed_iff.mpr (.inr ⟨by dsimp only; omega, by dsimp only; omega⟩)
    · refine ⟨List.length_pos_iff.mp (by dsimp only; omega), Host.subset_windows_of_rangeIsAllowed ?_⟩
      exact Host.rangeIsAllowed_iff.mpr (.inr ⟨by dsimp only; omega, by dsimp only; omega⟩)
  have hapart : (bootImages imagePath bl1Path dtbPath image bl1 dtb).Pairwise fun i j =>
      Disjoint i.span.toSet j.span.toSet := by
    have hib : (⟨0x00208000, imagePath, image⟩ : Host.Image P).span.Before
        (⟨0x01000000, bl1Path, bl1⟩ : Host.Image P).span := by
      change (0x00208000 : Int) + image.length ≤ 0x01000000
      omega
    have hbd : (⟨0x01000000, bl1Path, bl1⟩ : Host.Image P).span.Before
        (⟨0x01F80000, dtbPath, dtb⟩ : Host.Image P).span := by
      change (0x01000000 : Int) + bl1.length ≤ 0x01F80000
      omega
    have hchain : ((bootImages imagePath bl1Path dtbPath image bl1 dtb).map Host.Image.span).IsChain Span.Before := by
      simp [bootImages, hib, hbd]
    exact (List.pairwise_map.mp (Span.pairwise_apart_of_isChain hchain)).imp Span.Apart.disjoint
  refine Host.checkBundle_of_disjoint hmonitor (fun i hi => hwindow i (hperm.mem_iff.mp hi)) ?_
  exact hperm.symm.pairwise hapart fun h => h.symm

/-- Files that the verifier accepts are booted: the builder takes the Image, the loader takes the four files, the running
kernel stays clear of monitor, BL1, tree and guard, and BL1 passes all its checks and jumps to the Image. -/
theorem verified_boots (monitorPath imagePath bl1Path dtbPath : P) {asm : Program Label → Bytes} (hasm : Assembles asm)
    {monitor zimage image dtb symbolFile : Bytes} (hmonitor : monitor.length = 105928) (himage : 0x1000 ≤ image.length)
    {report : Report} (h : verifyProbe zimage image dtb symbolFile = .ok report) :
    ∃ bl1, buildLinuxImageBl1 asm image = .ok bl1 ∧
      (∀ images, images.Perm (bootImages imagePath bl1Path dtbPath image bl1.data dtb) →
        Host.checkBundle monitorPath monitor images = .ok (⟨Host.MONITOR_BASE, monitorPath, monitor⟩ :: images)) ∧
      (∀ s ∈ [(⟨Host.MONITOR_BASE, monitorPath, monitor⟩ : Host.Image P).span.toSet,
          (⟨0x01000000, bl1Path, bl1.data⟩ : Host.Image P).span.toSet,
          (⟨0x01F80000, dtbPath, dtb⟩ : Host.Image P).span.toSet, Host.guard],
        Disjoint (runtimeSpan report.runtimeEnd) s) ∧
      ∀ env, Resident env → Leaves image env → ∀ m,
        BootCall image dtb
          (⟨Host.MONITOR_BASE, monitorPath, monitor⟩ :: bootImages imagePath bl1Path dtbPath image bl1.data dtb) m →
        Validated image m ∧ wp bl1.program env bl1.program.lines m HandsOff := by
  have haccepted := accepted_of_ok h
  have hlimit : IMAGE_ADDR + image.length ≤ IMAGE_LIMIT := by
    have h1 := haccepted.image_le_runtime
    have h2 := haccepted.runtime_le_limit
    simp only [IMAGE_ADDR, IMAGE_LIMIT]
    omega
  obtain ⟨bl1, hbuild, hprogram, hlength⟩ := buildLinuxImageBl1_eq_ok hasm himage hlimit
  refine ⟨bl1, hbuild, fun _ hperm => checkBundle_of_accepted hmonitor himage hlength haccepted hperm, ?_, ?_⟩
  · intro s hs
    apply runtime_disjoint haccepted
    simp only [List.mem_cons, List.not_mem_nil, or_false] at hs
    rcases hs with rfl | rfl | rfl | rfl
    · exact fun x hx => le_trans (show (0x00780000 : Int) ≤ 0x00800000 by decide) hx.1
    · exact fun x hx => le_trans (show (0x00780000 : Int) ≤ 0x01000000 by decide) hx.1
    · exact fun x hx => le_trans (show (0x00780000 : Int) ≤ 0x01F80000 by decide) hx.1
    · exact fun x hx => hx.1
  · intro env henv hleaves m hm
    have hvalid := validated_of_bootCall haccepted hm
    refine ⟨hvalid, ?_⟩
    rw [hprogram]
    apply wp_mono (wp_imageBootSource henv (stable_intact hlimit hleaves))
    intro e m' hout
    exact hout.1.mpr hvalid

end

/-! ### A set of files -/

/-- An Image of zeros with its other files. -/
def zerosImage : Bytes := List.replicate 0x1000 0x00

def zerosMonitor : Bytes := List.replicate 105928 0x00

/-- The header fields of a zImage. -/
def zerosZimage : Bytes := List.replicate 0x24 0x00 ++ [0x18, 0x28, 0x6F, 0x01] ++ List.replicate 8 0x00

def zerosSymbols : Bytes :=
  encodeAscii "c0008000 T _text\nc0009000 B __bss_start\nc000a000 B __bss_stop\nc000a000 B _end\n".toList

/-- A tree with the two reservations and the memory node: header, reserve map, structure, strings. -/
def zerosDtb : Bytes :=
  [0xD00DFEED, 152, 88, 148, 40, 17, 16, 0, 4, 60,
   0, 0x00800000, 0, 0x00100000, 0, 0x01F80000, 0, 0x00010000, 0, 0, 0, 0,
   1, 0, 1, 0x6D656D6F, 0x72794032, 0x30303030, 0x30000000, 3, 8, 0, 0x00200000, 0x01E00000, 2, 2, 9,
   0x72656700].flatMap fun w => (leBytes 4 w).reverse

theorem zeros_verified : verifyProbe zerosZimage zerosImage zerosDtb zerosSymbols =
    .ok ⟨48, 0, 0, 4096, 0x00209000, 0x00209000, 0x0020A000, 0x0020A000, 152⟩ := by
  unfold verifyProbe checkSizes checkRuntime zerosImage
  simp only [List.length_replicate]
  decide +kernel

/-- RAM with the files, and zeros where there is none. -/
def zerosRam (bl1 : Bytes) : Mem := fun x =>
  if 0x01F80000 ≤ x.toNat then zerosDtb.getD (x.toNat - 0x01F80000) 0
  else if 0x01000000 ≤ x.toNat then bl1.getD (x.toNat - 0x01000000) 0
  else 0

theorem toNat_ofInt_add {a k : Nat} (h : a + k < 2 ^ 32) : (BitVec.ofInt 32 ((a : Int) + (k : Int))).toNat = a + k := by
  rw [← Int.natCast_add, BitVec.ofInt_natCast, BitVec.toNat_ofNat, Nat.mod_eq_of_lt h]

theorem zerosRam_low (bl1 : Bytes) {a k : Nat} (h : a + k < 0x01000000) :
    zerosRam bl1 (BitVec.ofInt 32 ((a : Int) + (k : Int))) = 0 := by
  rw [zerosRam, toNat_ofInt_add (by omega), if_neg (by omega), if_neg (by omega)]

theorem holds_zerosRam {bl1 : Bytes} (hbl1 : bl1.length = 5933) :
    Holds (zerosRam bl1) (⟨Host.MONITOR_BASE, "monitor", zerosMonitor⟩ ::
      bootImages "Image" "bl1" "dtb" zerosImage bl1 zerosDtb) := by
  have hdtb : zerosDtb.length = 152 := by decide +kernel
  rintro ⟨x, b⟩ hc
  obtain ⟨i, hi, hc⟩ := List.mem_flatMap.mp hc
  obtain ⟨k, rfl, hk⟩ := Host.mem_cells.mp hc
  obtain ⟨hlt, hb⟩ := List.getElem?_eq_some_iff.mp hk
  simp only [bootImages, List.mem_cons, List.not_mem_nil, or_false] at hi
  rcases hi with rfl | rfl | rfl | rfl
  · have hlt' : k < 105928 := hlt.trans_eq List.length_replicate
    have hb' : b = 0 := List.eq_of_mem_replicate (hb ▸ List.getElem_mem hlt)
    rw [hb']
    exact zerosRam_low bl1 (a := 0x00800000) (by omega)
  · have hlt' : k < 0x1000 := hlt.trans_eq List.length_replicate
    have hb' : b = 0 := List.eq_of_mem_replicate (hb ▸ List.getElem_mem hlt)
    rw [hb']
    exact zerosRam_low bl1 (a := 0x00208000) (by omega)
  · have hlt' : k < bl1.length := hlt
    change zerosRam bl1 (BitVec.ofInt 32 (((0x01000000 : Nat) : Int) + (k : Int))) = b
    rw [zerosRam, toNat_ofInt_add (by omega), if_neg (by omega), if_pos (by omega), Nat.add_sub_cancel_left,
      List.getD_eq_getElem _ _ hlt']
    exact hb
  · have hlt' : k < zerosDtb.length := hlt
    change zerosRam bl1 (BitVec.ofInt 32 (((0x01F80000 : Nat) : Int) + (k : Int))) = b
    rw [zerosRam, toNat_ofInt_add (by omega), if_pos (by omega), Nat.add_sub_cancel_left, List.getD_eq_getElem _ _ hlt']
    exact hb

/-- The monitor at the call of BL1, with the sizes of the files. -/
def zerosCaller (bl1 : Bytes) : Machine where
  reg r := if r = .r0 then 0x1000 else if r = .r1 then 152 else if r = .r2 then IMAGE_MARKER else monitorCaller.reg r
  flags := monitorCaller.flags
  ctl := monitorCaller.ctl
  sys := monitorCaller.sys
  mem := zerosRam bl1
  log := []

/-- These files are booted. -/
theorem verified_boots_zeros : ∃ bl1, buildLinuxImageBl1 assemble zerosImage = .ok bl1 ∧
    wp bl1.program (fun _ m => m) bl1.program.lines (zerosCaller bl1.data) HandsOff := by
  have himage : 0x1000 ≤ zerosImage.length := by rw [zerosImage, List.length_replicate]
  have hmonitor : zerosMonitor.length = 105928 := List.length_replicate
  obtain ⟨bl1, hbuild, -, -, hboot⟩ :=
    verified_boots "monitor" "Image" "bl1" "dtb" assembles_assemble hmonitor himage zeros_verified
  have hlength : bl1.data.length = 5933 := by
    obtain ⟨bl1', hbuild', -, hlength⟩ := buildLinuxImageBl1_eq_ok (assembles_assemble (L := Label)) himage
      (by rw [zerosImage, List.length_replicate]; decide)
    rw [hbuild] at hbuild'
    rw [Except.ok.inj hbuild', hlength]
  refine ⟨bl1, hbuild, (hboot _ resident_idle ⟨fun _ _ _ _ _ => rfl, fun _ _ _ => rfl⟩ (zerosCaller bl1.data) ?_).2⟩
  constructor
  · exact holds_zerosRam hlength
  · rw [zerosImage, List.length_replicate]
    rfl
  · have hdtb : zerosDtb.length = 152 := by decide +kernel
    rw [hdtb]
    rfl
  · rfl
  · exact BitVec.getLsbD_zero
  · exact BitVec.getLsbD_zero

end ShadowMsm.Kernel
