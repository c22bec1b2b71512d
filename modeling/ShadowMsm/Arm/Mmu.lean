import ShadowMsm.Arm.Footprint

/-!
# Section translation

The first-level page table of an ARMv5 core: 4096 descriptors of one word, each for one megabyte of virtual addresses.
A section descriptor gives the megabyte its physical address and one of sixteen domains, and the domain access
register decides what accesses in a domain are allowed.

A section table is an identity table if entry `i` maps megabyte `i` to itself.
-/

namespace Arm

/-- What the domain access register says of a domain. -/
inductive DomainAccess
  | noAccess | client | reserved | manager
  deriving DecidableEq, Repr

/-- The field of a domain in the domain access register. -/
def domainAccess (dacr : Word) (d : BitVec 4) : DomainAccess :=
  match (dacr.extractLsb' (2 * d.toNat) 2).toNat with
  | 0 => .noAccess
  | 1 => .client
  | 2 => .reserved
  | _ => .manager

/-- The kinds of first-level descriptors. -/
inductive DescriptorKind
  | fault | coarse | section1M | fine
  deriving DecidableEq, Repr

def descriptorKind (d : Word) : DescriptorKind :=
  match (d.extractLsb' 0 2).toNat with
  | 0 => .fault
  | 1 => .coarse
  | 2 => .section1M
  | _ => .fine

structure Mapping where
  pa : Word
  access : DomainAccess
  deriving DecidableEq, Repr

/-- The address of the descriptor for a virtual address. -/
def descriptorAddr (ttbr va : Word) : Word := ttbr.extractLsb' 14 18 ++ va.extractLsb' 20 12 ++ (0 : BitVec 2)

/-- Where a section descriptor puts a virtual address. -/
def sectionAddr (d va : Word) : Word := d.extractLsb' 20 12 ++ va.extractLsb' 0 20

namespace Machine

/-- Bit 0 of the control register. -/
def MmuOn (m : Machine) : Prop := (m.sys .sctlr).getLsbD 0 = true

instance (m : Machine) : Decidable m.MmuOn := inferInstanceAs (Decidable (_ = _))

/-- The section that maps an address, if a section maps it. -/
def walk (m : Machine) (va : Word) : Option Mapping :=
  let d := load32 m.mem (descriptorAddr (m.sys .ttbr) va)
  match descriptorKind d with
  | .section1M => some ⟨sectionAddr d va, domainAccess (m.sys .dacr) (d.extractLsb' 5 4)⟩
  | _ => none

end Machine

/-! ### Identity tables -/

/-- The descriptor that maps megabyte `i` to itself. -/
def identityEntry (flags : Word) (i : Nat) : Word := BitVec.ofNat 32 (i * 0x100000) ||| flags

/-- The first `n` descriptors of a table map their megabytes to themselves. -/
def IdentityEntries (μ : Mem) (table flags : Word) (n : Nat) : Prop :=
  ∀ i < n, load32 μ (table + BitVec.ofNat 32 (4 * i)) = identityEntry flags i

theorem getLsbD_identityEntry {flags : Word} {i j : Nat} (hj : j < 32) :
    (identityEntry flags i).getLsbD j = ((decide (20 ≤ j) && i.testBit (j - 20)) || flags.getLsbD j) := by
  have h20 : i * 0x100000 = i * 2 ^ 20 := rfl
  rw [identityEntry, BitVec.getLsbD_or, BitVec.getLsbD_ofNat, h20, Nat.testBit_mul_two_pow]
  simp [hj]

/-- Below the section base an entry has the bits of the flags. -/
theorem extractLsb'_identityEntry {flags : Word} {i s n : Nat} (h : s + n ≤ 20) :
    (identityEntry flags i).extractLsb' s n = flags.extractLsb' s n := by
  apply BitVec.eq_of_getLsbD_eq
  intro j hj
  rw [BitVec.getLsbD_extractLsb', BitVec.getLsbD_extractLsb', getLsbD_identityEntry (by omega)]
  simp [show ¬ 20 ≤ s + j by omega]

/-- The entry of the megabyte of an address maps the address to itself. -/
theorem sectionAddr_identityEntry {flags : Word} (hflags : flags.extractLsb' 20 12 = 0) (va : Word) :
    sectionAddr (identityEntry flags (va.toNat / 2 ^ 20)) va = va := by
  have hzero : ∀ j, 20 ≤ j → j < 32 → flags.getLsbD j = false := by
    intro j hj hj'
    have h := congrArg (fun x => BitVec.getLsbD x (j - 20)) hflags
    simp only [BitVec.getLsbD_extractLsb', show 20 + (j - 20) = j by omega] at h
    simpa [show j - 20 < 12 by omega] using h
  apply BitVec.eq_of_getLsbD_eq
  intro j hj
  rw [sectionAddr, BitVec.getLsbD_append, BitVec.getLsbD_extractLsb', BitVec.getLsbD_extractLsb']
  by_cases hlow : j < 20
  · simp [hlow]
  · have hbit : (va.toNat / 2 ^ 20).testBit (j - 20) = va.getLsbD j := by
      rw [← Nat.shiftRight_eq_div_pow, Nat.testBit_shiftRight, show 20 + (j - 20) = j by omega]
      rfl
    rw [show 20 + (j - 20) = j by omega, getLsbD_identityEntry hj, hbit, hzero j (by omega) hj]
    simp [hlow, show j - 20 < 12 by omega, show 20 ≤ j by omega]

/-- The descriptor address, in a table at a multiple of its size. -/
theorem descriptorAddr_eq {ttbr : Word} (h : ttbr.extractLsb' 0 14 = 0) (va : Word) :
    descriptorAddr ttbr va = ttbr + BitVec.ofNat 32 (4 * (va.toNat / 2 ^ 20)) := by
  have h0 : ttbr.toNat % 2 ^ 14 = 0 := by
    have := congrArg BitVec.toNat h
    simpa [BitVec.extractLsb'_toNat] using this
  have hva : va.toNat < 2 ^ 32 := va.isLt
  have httbr : ttbr.toNat < 2 ^ 32 := ttbr.isLt
  apply BitVec.eq_of_toNat_eq
  rw [descriptorAddr]
  simp only [BitVec.toNat_append, BitVec.extractLsb'_toNat, BitVec.toNat_add, BitVec.toNat_ofNat,
    Nat.shiftRight_eq_div_pow]
  rw [← Nat.shiftLeft_add_eq_or_of_lt (by omega), ← Nat.shiftLeft_add_eq_or_of_lt (by omega)]
  simp only [Nat.shiftLeft_eq, show (0 : BitVec 2).toNat = 0 from rfl]
  omega

/-- A full identity table translates every address to itself, in the domain of its flags. -/
theorem Machine.walk_identity {m : Machine} {flags : Word} (haligned : (m.sys .ttbr).extractLsb' 0 14 = 0)
    (hbase : flags.extractLsb' 20 12 = 0) (hkind : descriptorKind flags = .section1M)
    (h : IdentityEntries m.mem (m.sys .ttbr) flags 4096) (va : Word) :
    m.walk va = some ⟨va, domainAccess (m.sys .dacr) (flags.extractLsb' 5 4)⟩ := by
  have hi : va.toNat / 2 ^ 20 < 4096 := by omega
  have hk : descriptorKind (identityEntry flags (va.toNat / 2 ^ 20)) = .section1M := by
    rw [descriptorKind, extractLsb'_identityEntry (by omega)]
    exact hkind
  rw [walk, descriptorAddr_eq haligned, h _ hi]
  simp only [hk]
  rw [sectionAddr_identityEntry hbase, extractLsb'_identityEntry (by omega)]

/-! ### Filling a table -/

/-- Only the bytes of the entries count. -/
theorem IdentityEntries.congr {μ ν : Mem} {table flags : Word} {n : Nat} (h : IdentityEntries ν table flags n)
    (hn : 4 * n ≤ 2 ^ 32) (hs : SameOn μ ν table (4 * n)) : IdentityEntries μ table flags n := by
  intro i hi
  rw [← h i hi]
  apply SameOn.load32
  apply hs.mono
  intro x hx
  simp only [Within] at hx ⊢
  bv_omega

/-- One more entry. -/
theorem IdentityEntries.store {μ : Mem} {table flags : Word} {n : Nat} (h : IdentityEntries μ table flags n)
    (hn : 4 * (n + 1) ≤ 2 ^ 32) :
    IdentityEntries (store32 μ (table + BitVec.ofNat 32 (4 * n)) (identityEntry flags n)) table flags (n + 1) := by
  intro i hi
  by_cases he : i = n
  · rw [he, load32_store32]
  · refine (h.congr (by omega) ?_) i (by omega)
    apply sameOn_store32
    intro x hx hx'
    simp only [Within] at hx hx'
    bv_omega

end Arm
