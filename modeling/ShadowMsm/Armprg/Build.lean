import ShadowMsm.Arm.Encode
import ShadowMsm.Armprg.Listings
import ShadowMsm.Bl1.ImageBoot
import ShadowMsm.Lib.Patch

/-!
# The patched programmers

Three builders put their listings into the stock programmer, of which they take one verified file.  The LED builders
replace a handler and the diagnostic string; the builder of the stage-0 monitor also writes a second handler and a banner
into reclaimed code, and points every entry of the command table at the callback.
-/

namespace ShadowMsm.Armprg

open Arm Stage0

def EXPECTED_SOURCE_SIZE : Nat := 105928
def EXPECTED_SOURCE_SHA256 : String := "3e8339725a77d416de292ac1506cd5d4b4fedc8937bda00a4ddf0437500c6b83"

def STOCK_LOAD_BASE : Nat := 0x00800000
def TRAMPOLINE_OFFSET : Nat := TRAMPOLINE_ADDR.toNat - STOCK_LOAD_BASE
def HANDLER_OFFSET : Nat := HANDLER_ADDR.toNat - STOCK_LOAD_BASE
def INPUT_HANDLER_OFFSET : Nat := INPUT_HANDLER_ADDR.toNat - STOCK_LOAD_BASE
def NEXT_PRESERVED_FUNCTION : Nat := 0x00811778
def BANNER_OFFSET : Nat := BANNER_ADDR.toNat - STOCK_LOAD_BASE
def BANNER : Bytes := encodeAscii "K3765-S0-V1".toList ++ [0x00]
def COMMAND_TABLE_ADDR : Nat := 0x00819700
def COMMAND_TABLE_OFFSET : Nat := COMMAND_TABLE_ADDR - STOCK_LOAD_BASE
def COMMAND_TABLE_ENTRIES : Nat := 28
def MESSAGE_OFFSET : Nat := MESSAGE_ADDR.toNat - STOCK_LOAD_BASE

/-- The assembler, `ks.asm` at the address of the listing. -/
structure Keystone : Type 1 where
  asm : {L : Type} → [DecidableEq L] → Program L → Bytes

/-- `bs.ljust(n, b"\x00")` -/
def ljust (n : Nat) (bs : Bytes) : Bytes := bs ++ List.replicate (n - bs.length) 0x00

/-- The check of the stock file, which every builder makes first. -/
def verifySource (sha256 : Bytes → String) (stock : Bytes) : Except Exn Unit :=
  if stock.length ≠ EXPECTED_SOURCE_SIZE ∨ sha256 stock ≠ EXPECTED_SOURCE_SHA256 then
    throw (.systemExit ("firmware/armprg.bin does not match the verified K3765-Z programmer (size=" ++
      formatThousands stock.length ++ ", sha256=" ++ sha256 stock ++ ")"))
  else return ()

def oldMessage : Bytes := encodeAscii "Invalid Command".toList ++ [0x00]

/-- The stock diagnostic string gives way to a message that is no longer. -/
def replaceMessage (message data : Bytes) : Except Exn Bytes :=
  if Patch.slice data MESSAGE_OFFSET oldMessage.length ≠ oldMessage then
    throw (.systemExit "stock diagnostic string did not match")
  else return Patch.splice data MESSAGE_OFFSET (ljust oldMessage.length message)

/-- `changed` -/
def changedAt (stock data : Bytes) : List Nat :=
  (List.range (min stock.length data.length)).filter fun i => stock[i]? ≠ data[i]?

/-- The last check: no byte outside the regions has changed. -/
def checkOutside (regions : List (Patch Byte)) (stock data : Bytes) : Except Exn Unit :=
  let outside := (changedAt stock data).filter fun i => ∀ p ∈ regions, ¬ p.Covers i
  if outside ≠ [] then
    throw (.systemExit ("unexpected changes outside patch regions: " ++ toString (outside.take 8)))
  else return ()

/-- One round of the loop over the command table. -/
def lockEntry (stock data : Bytes) (index : Nat) : Except Exn Bytes :=
  let offset := COMMAND_TABLE_OFFSET + index * 4
  let original := (Bl1.unpackFromI stock offset).toNat
  if ¬ (STOCK_LOAD_BASE ≤ original ∧ original < STOCK_LOAD_BASE + stock.length) then
    throw (.systemExit ("command table entry " ++ toString (index + 1) ++ " is not a verified code pointer: 0x" ++
      format08X original))
  else return Patch.splice data offset (leBytes 4 HANDLER_ADDR.toNat)

/-- `b HANDLER_ADDR` -/
def trampoline : Program Empty := ⟨TRAMPOLINE_ADDR, [.bAbs HANDLER_ADDR]⟩

/-- What is written besides the command table and the message. -/
def codePatches (ks : Keystone) : List (Patch Byte) :=
  [⟨TRAMPOLINE_OFFSET, ks.asm trampoline⟩, ⟨HANDLER_OFFSET, ks.asm handler⟩,
   ⟨INPUT_HANDLER_OFFSET, ks.asm inputHandler⟩, ⟨BANNER_OFFSET, BANNER⟩]

def tablePatches : List (Patch Byte) :=
  (List.range COMMAND_TABLE_ENTRIES).map fun index => ⟨COMMAND_TABLE_OFFSET + index * 4, leBytes 4 HANDLER_ADDR.toNat⟩

def messagePatch (message : Bytes) : Patch Byte := ⟨MESSAGE_OFFSET, ljust oldMessage.length message⟩

def newMessage : Bytes := encodeAscii "00000000".toList ++ [0x00]

/-- Everything the builder writes. -/
def monitorPatches (ks : Keystone) : List (Patch Byte) := codePatches ks ++ (tablePatches ++ [messagePatch newMessage])

/-- The builder. -/
def buildMonitor (sha256 : Bytes → String) (ks : Keystone) (stock : Bytes) : Except Exn Bytes := do
  verifySource sha256 stock
  if INPUT_HANDLER_ADDR.toNat < HANDLER_ADDR.toNat + (ks.asm handler).length then
    throw (.systemExit ("stage-0 handler is " ++ toString (ks.asm handler).length ++
      " bytes and overlaps input extension at 0x" ++ format08X INPUT_HANDLER_ADDR.toNat))
  if BANNER_ADDR.toNat < INPUT_HANDLER_ADDR.toNat + (ks.asm inputHandler).length then
    throw (.systemExit ("input handler is " ++ toString (ks.asm inputHandler).length ++
      " bytes and overlaps banner at 0x" ++ format08X BANNER_ADDR.toNat))
  if (ks.asm trampoline).length ≠ 4 then throw (.systemExit "stage-0 trampoline was not one ARM instruction")
  if NEXT_PRESERVED_FUNCTION < BANNER_ADDR.toNat + BANNER.length then
    throw (.systemExit "stage-0 banner overlaps active USB vtable function")
  let data := Patch.applyAll stock (codePatches ks)
  let data ← (List.range COMMAND_TABLE_ENTRIES).foldlM (lockEntry stock) data
  let data ← replaceMessage newMessage data
  checkOutside (monitorPatches ks) stock data
  return data

/-- What the LED builders have in common: the listing, the refusal of one that is too long, the message, and whether the
result is compared with the stock file in the end. -/
structure Control where
  source : Program Label
  overlap : String
  message : Bytes
  compares : Bool

def rgb : Control where
  source := rgbControl
  overlap := "RGB handler overlaps the next preserved stock handler"
  message := encodeAscii "RGB_OK".toList ++ [0x00]
  compares := true

def led : Control where
  source := ledControl
  overlap := "LED handler overlaps the preserved 0x00810F34 handler"
  message := encodeAscii "LED_OK".toList ++ [0x00]
  compares := false

def controlPatches (ks : Keystone) (c : Control) : List (Patch Byte) :=
  [⟨TRAMPOLINE_OFFSET, ks.asm c.source⟩, messagePatch c.message]

/-- The LED builders. -/
def buildControl (c : Control) (sha256 : Bytes → String) (ks : Keystone) (stock : Bytes) : Except Exn Bytes := do
  verifySource sha256 stock
  if NEXT_HANDLER_ADDR.toNat < TRAMPOLINE_ADDR.toNat + (ks.asm c.source).length then throw (.systemExit c.overlap)
  let data := Patch.splice stock TRAMPOLINE_OFFSET (ks.asm c.source)
  let data ← replaceMessage c.message data
  if c.compares then checkOutside (controlPatches ks c) stock data
  return data

/-! ### What is accepted -/

/-- The stock files that the builder takes. -/
structure Verified (sha256 : Bytes → String) (stock : Bytes) : Prop where
  size : stock.length = EXPECTED_SOURCE_SIZE
  hash : sha256 stock = EXPECTED_SOURCE_SHA256
  message : Patch.slice stock MESSAGE_OFFSET oldMessage.length = oldMessage

/-- An entry of the command table points into the programmer. -/
def Pointer (stock : Bytes) (index : Nat) : Prop :=
  STOCK_LOAD_BASE ≤ (Bl1.unpackFromI stock (COMMAND_TABLE_OFFSET + index * 4)).toNat ∧
    (Bl1.unpackFromI stock (COMMAND_TABLE_OFFSET + index * 4)).toNat < STOCK_LOAD_BASE + stock.length

/-- The assembled listings fit into the places that are reclaimed for them. -/
structure Room (ks : Keystone) : Prop where
  trampoline : (ks.asm trampoline).length = 4
  handler : HANDLER_ADDR.toNat + (ks.asm handler).length ≤ INPUT_HANDLER_ADDR.toNat
  inputHandler : INPUT_HANDLER_ADDR.toNat + (ks.asm inputHandler).length ≤ BANNER_ADDR.toNat

/-! ### The regions -/

/-- The places that the regions may take up. -/
def slots : List (Nat × Nat) :=
  [(TRAMPOLINE_OFFSET, TRAMPOLINE_OFFSET + 4), (HANDLER_OFFSET, INPUT_HANDLER_OFFSET),
   (INPUT_HANDLER_OFFSET, BANNER_OFFSET), (BANNER_OFFSET, NEXT_PRESERVED_FUNCTION - STOCK_LOAD_BASE)] ++
  ((List.range COMMAND_TABLE_ENTRIES).map (fun i => (COMMAND_TABLE_OFFSET + i * 4, COMMAND_TABLE_OFFSET + i * 4 + 4)) ++
    [(MESSAGE_OFFSET, MESSAGE_OFFSET + 16)])

theorem slots_apart : slots.Pairwise fun s t => s.2 ≤ t.1 ∨ t.2 ≤ s.1 := by decide

theorem slots_le : ∀ s ∈ slots, s.2 ≤ EXPECTED_SOURCE_SIZE := by decide

variable {sha256 : Bytes → String} {ks : Keystone} {stock data data' : Bytes}

theorem patches_in_slots (h : Room ks) : List.Forall₂ (fun (p : Patch Byte) s => s.1 ≤ p.offset ∧
    p.offset + p.new.length ≤ s.2) (monitorPatches ks) slots := by
  have htable (l : List Nat) : List.Forall₂ (fun (p : Patch Byte) s => s.1 ≤ p.offset ∧
      p.offset + p.new.length ≤ s.2) (l.map fun i => ⟨COMMAND_TABLE_OFFSET + i * 4, leBytes 4 HANDLER_ADDR.toNat⟩)
      (l.map fun i => (COMMAND_TABLE_OFFSET + i * 4, COMMAND_TABLE_OFFSET + i * 4 + 4)) := by
    rw [List.forall₂_map_left_iff, List.forall₂_map_right_iff]
    exact List.forall₂_same.mpr fun i _ => ⟨le_refl _, by rw [length_leBytes]⟩
  have hhandler : 0x00811374 + (ks.asm handler).length ≤ 0x00811594 := h.handler
  have hinput : 0x00811594 + (ks.asm inputHandler).length ≤ 0x00811768 := h.inputHandler
  refine .cons ⟨le_refl _, ?_⟩ (.cons ⟨le_refl _, ?_⟩ (.cons ⟨le_refl _, ?_⟩ (.cons ⟨le_refl _, by decide⟩ ?_)))
  · rw [h.trampoline]
  · change 0x11374 + (ks.asm handler).length ≤ 0x11594
    omega
  · change 0x11594 + (ks.asm inputHandler).length ≤ 0x11768
    omega
  · exact List.rel_append (htable _) (.cons ⟨le_refl _, by decide⟩ .nil)

theorem regions_apart (h : Room ks) : (monitorPatches ks).Pairwise Patch.Apart :=
  Patch.pairwise_apart_of_slots slots_apart (patches_in_slots h)

theorem regions_fit (h : Room ks) (hsize : stock.length = EXPECTED_SOURCE_SIZE) :
    ∀ p ∈ monitorPatches ks, p.Fits stock.length :=
  hsize ▸ Patch.fits_of_slots slots_le (patches_in_slots h)

/-! ### The builder -/

theorem lockEntry_eq_ok {index : Nat} : lockEntry stock data index = .ok data' ↔
    Pointer stock index ∧ data' = Patch.splice data (COMMAND_TABLE_OFFSET + index * 4) (leBytes 4 HANDLER_ADDR.toNat) := by
  unfold lockEntry
  simp only
  split
  · rename_i h
    exact ⟨nofun, fun h' => absurd h'.1 h⟩
  · rename_i h
    rw [not_not] at h
    constructor
    · intro he
      cases he
      exact ⟨h, rfl⟩
    · rintro ⟨-, rfl⟩
      rfl

/-- The loop over the command table. -/
theorem lockEntries_eq_ok {l : List Nat} : l.foldlM (lockEntry stock) data = .ok data' ↔
    (∀ index ∈ l, Pointer stock index) ∧ data' = Patch.applyAll data
      (l.map fun index => ⟨COMMAND_TABLE_OFFSET + index * 4, leBytes 4 HANDLER_ADDR.toNat⟩) := by
  induction l generalizing data with
  | nil =>
    change Except.ok data = _ ↔ _
    simp [Patch.applyAll, eq_comm]
  | cons index l ih =>
    rw [List.foldlM_cons, List.forall_mem_cons]
    constructor
    · intro h
      obtain ⟨d, hd, h⟩ := of_bind_ok h
      obtain ⟨hp, rfl⟩ := lockEntry_eq_ok.mp hd
      obtain ⟨hps, hdata⟩ := ih.mp h
      exact ⟨⟨hp, hps⟩, hdata⟩
    · rintro ⟨⟨hp, hps⟩, hdata⟩
      rw [bind_of_ok (lockEntry_eq_ok.mpr ⟨hp, rfl⟩)]
      exact ih.mpr ⟨hps, hdata⟩

theorem lockTable_eq_ok : (List.range COMMAND_TABLE_ENTRIES).foldlM (lockEntry stock) data = .ok data' ↔
    (∀ index < COMMAND_TABLE_ENTRIES, Pointer stock index) ∧ data' = Patch.applyAll data tablePatches := by
  rw [lockEntries_eq_ok, tablePatches]
  simp only [List.mem_range]

theorem verifySource_eq_ok : verifySource sha256 stock = .ok () ↔
    stock.length = EXPECTED_SOURCE_SIZE ∧ sha256 stock = EXPECTED_SOURCE_SHA256 := by
  unfold verifySource
  split
  · rename_i h
    exact ⟨nofun, fun h' => absurd h (by simp [h'.1, h'.2])⟩
  · rename_i h
    simp only [not_or, not_not] at h
    exact ⟨fun _ => h, fun _ => rfl⟩

theorem replaceMessage_eq_ok {message : Bytes} : replaceMessage message data = .ok data' ↔
    Patch.slice data MESSAGE_OFFSET oldMessage.length = oldMessage ∧
      data' = Patch.applyAll data [messagePatch message] := by
  unfold replaceMessage
  split
  · rename_i h
    exact ⟨nofun, fun h' => absurd h'.1 h⟩
  · rename_i h
    rw [not_not] at h
    constructor
    · intro he
      cases he
      exact ⟨h, rfl⟩
    · rintro ⟨-, rfl⟩
      rfl

/-- The last check never fails: the patches are all that has changed. -/
theorem checkOutside_applyAll {ps : List (Patch Byte)} (h : ∀ p ∈ ps, p.Fits stock.length) :
    checkOutside ps stock (Patch.applyAll stock ps) = .ok () := by
  have hnone : (changedAt stock (Patch.applyAll stock ps)).filter (fun i => ∀ p ∈ ps, ¬ p.Covers i) = [] := by
    rw [List.filter_eq_nil_iff]
    intro i hi
    simp only [changedAt, List.mem_filter, decide_eq_true_eq] at hi
    rw [decide_eq_true_eq]
    exact fun hp => hi.2 (Patch.getElem?_applyAll_of_not h hp).symm
  unfold checkOutside
  simp only
  rw [if_neg (not_not.mpr hnone)]
  rfl

/-- The builder behind its checks of the listings. -/
theorem buildMonitor_of_room (h : Room ks) : buildMonitor sha256 ks stock = (do
    verifySource sha256 stock
    let data ← (List.range COMMAND_TABLE_ENTRIES).foldlM (lockEntry stock) (Patch.applyAll stock (codePatches ks))
    let data ← replaceMessage newMessage data
    checkOutside (monitorPatches ks) stock data
    return data) := by
  rw [buildMonitor, if_neg (not_lt.mpr h.handler), if_neg (not_lt.mpr h.inputHandler), if_neg (not_not.mpr h.trampoline)]
  rfl

theorem room_of_ok (h : buildMonitor sha256 ks stock = .ok data) : Room ks := by
  obtain ⟨⟨⟩, -, h⟩ := of_bind_ok h
  by_cases h1 : INPUT_HANDLER_ADDR.toNat < HANDLER_ADDR.toNat + (ks.asm handler).length
  · rw [if_pos h1] at h
    cases h
  rw [if_neg h1] at h
  by_cases h2 : BANNER_ADDR.toNat < INPUT_HANDLER_ADDR.toNat + (ks.asm inputHandler).length
  · rw [if_pos h2] at h
    cases h
  rw [if_neg h2] at h
  by_cases h3 : (ks.asm trampoline).length ≠ 4
  · rw [if_pos h3] at h
    cases h
  exact ⟨not_not.mp h3, not_lt.mp h1, not_lt.mp h2⟩

theorem monitorPatches_eq : codePatches ks ++ tablePatches ++ [messagePatch newMessage] = monitorPatches ks :=
  List.append_assoc _ _ _

theorem length_ljust {n : Nat} {bs : Bytes} (h : bs.length ≤ n) : (ljust n bs).length = n := by
  rw [ljust, List.length_append, List.length_replicate]
  omega

/-- The message is as in the stock file when its turn comes. -/
theorem slice_message {ps : List (Patch Byte)} {message : Bytes}
    (hfit : ∀ p ∈ ps ++ [messagePatch message], p.Fits stock.length)
    (hapart : (ps ++ [messagePatch message]).Pairwise Patch.Apart) (hlen : message.length ≤ oldMessage.length) :
    Patch.slice (Patch.applyAll stock ps) MESSAGE_OFFSET oldMessage.length =
      Patch.slice stock MESSAGE_OFFSET oldMessage.length := by
  obtain ⟨-, -, hapart⟩ := List.pairwise_append.mp hapart
  refine Patch.slice_applyAll_of_not (fun p hp => hfit p (List.mem_append_left _ hp)) fun p hp i hi hi' hcovers => ?_
  refine hapart p hp _ (List.mem_singleton_self _) i hcovers ⟨hi, ?_⟩
  change i < MESSAGE_OFFSET + (ljust oldMessage.length message).length
  rwa [length_ljust hlen]

theorem applyAll_append (ps qs : List (Patch Byte)) :
    Patch.applyAll (Patch.applyAll stock ps) qs = Patch.applyAll stock (ps ++ qs) := by
  simp only [Patch.applyAll, List.foldl_append]

/-- What the builder takes, and what it makes of it. -/
theorem buildMonitor_eq_ok (sha256 : Bytes → String) (ks : Keystone) (stock data : Bytes) :
    buildMonitor sha256 ks stock = .ok data ↔
      Verified sha256 stock ∧ (∀ index < COMMAND_TABLE_ENTRIES, Pointer stock index) ∧ Room ks ∧
        Patch.Applied (monitorPatches ks) stock data := by
  constructor
  · intro h
    have hroom := room_of_ok h
    rw [buildMonitor_of_room hroom] at h
    obtain ⟨⟨⟩, hverify, h⟩ := of_bind_ok h
    obtain ⟨hsize, hhash⟩ := verifySource_eq_ok.mp hverify
    obtain ⟨d₁, h1, h⟩ := of_bind_ok h
    obtain ⟨hpointers, hd1⟩ := lockTable_eq_ok.mp h1
    obtain ⟨d₂, h2, h⟩ := of_bind_ok h
    obtain ⟨hmessage, hd2⟩ := replaceMessage_eq_ok.mp h2
    obtain ⟨⟨⟩, -, h⟩ := of_bind_ok h
    obtain rfl : d₂ = data := Except.ok.inj h
    have hfit := regions_fit hroom hsize
    have hapart := regions_apart hroom
    rw [← monitorPatches_eq] at hfit hapart
    rw [applyAll_append] at hd1
    rw [hd1, slice_message hfit hapart (by decide)] at hmessage
    refine ⟨⟨hsize, hhash, hmessage⟩, hpointers, hroom, ?_⟩
    rw [← monitorPatches_eq, Patch.applied_iff hfit hapart, hd2, hd1, applyAll_append]
  · rintro ⟨hverified, hpointers, hroom, happlied⟩
    have hfit := regions_fit hroom hverified.size
    have hapart := regions_apart hroom
    have houtside := checkOutside_applyAll hfit
    rw [Patch.applied_iff hfit hapart] at happlied
    rw [← monitorPatches_eq] at hfit hapart
    rw [happlied, buildMonitor_of_room hroom, bind_of_ok (verifySource_eq_ok.mpr ⟨hverified.size, hverified.hash⟩),
      bind_of_ok (lockTable_eq_ok.mpr ⟨hpointers, rfl⟩), applyAll_append,
      bind_of_ok (replaceMessage_eq_ok.mpr ⟨(slice_message hfit hapart (by decide)).trans hverified.message, rfl⟩),
      applyAll_append, monitorPatches_eq]
    exact bind_of_ok houtside

/-! ### The LED builders -/

variable {c : Control}

theorem control_in_slots (h : TRAMPOLINE_ADDR.toNat + (ks.asm c.source).length ≤ NEXT_HANDLER_ADDR.toNat)
    (hlen : c.message.length ≤ oldMessage.length) : List.Forall₂ (fun (p : Patch Byte) s => s.1 ≤ p.offset ∧
      p.offset + p.new.length ≤ s.2) (controlPatches ks c) [(0x10DBC, 0x10F34), (MESSAGE_OFFSET, MESSAGE_OFFSET + 16)] := by
  have hcode : 0x00810DBC + (ks.asm c.source).length ≤ 0x00810F34 := h
  refine .cons ⟨le_refl _, ?_⟩ (.cons ⟨le_refl _, ?_⟩ .nil)
  · change 0x10DBC + (ks.asm c.source).length ≤ 0x10F34
    omega
  · change MESSAGE_OFFSET + (ljust oldMessage.length c.message).length ≤ _
    rw [length_ljust hlen]
    exact le_refl _

/-- The comparison with the stock file, where it is made, has nothing to say. -/
theorem compare_eq_ok (hfit : ∀ p ∈ controlPatches ks c, p.Fits stock.length) :
    (do if c.compares then checkOutside (controlPatches ks c) stock (Patch.applyAll stock (controlPatches ks c))
        return Patch.applyAll stock (controlPatches ks c)) =
      (Except.ok (Patch.applyAll stock (controlPatches ks c)) : Except Exn Bytes) := by
  rw [checkOutside_applyAll hfit]
  split
  · rfl
  · rfl

theorem buildControl_eq_ok (hlen : c.message.length ≤ oldMessage.length) :
    buildControl c sha256 ks stock = .ok data ↔
      Verified sha256 stock ∧ TRAMPOLINE_ADDR.toNat + (ks.asm c.source).length ≤ NEXT_HANDLER_ADDR.toNat ∧
        Patch.Applied (controlPatches ks c) stock data := by
  have hsplice : Patch.splice stock TRAMPOLINE_OFFSET (ks.asm c.source) =
      Patch.applyAll stock [⟨TRAMPOLINE_OFFSET, ks.asm c.source⟩] := rfl
  have hpatches : [⟨TRAMPOLINE_OFFSET, ks.asm c.source⟩] ++ [messagePatch c.message] = controlPatches ks c := rfl
  by_cases hroom : NEXT_HANDLER_ADDR.toNat < TRAMPOLINE_ADDR.toNat + (ks.asm c.source).length
  · refine ⟨fun h => ?_, fun h => absurd hroom (not_lt.mpr h.2.1)⟩
    obtain ⟨⟨⟩, -, h⟩ := of_bind_ok h
    rw [if_pos hroom] at h
    cases h
  have hslots := control_in_slots (not_lt.mp hroom) hlen
  have hapart := Patch.pairwise_apart_of_slots (by decide) hslots
  have hfits (hsize : stock.length = EXPECTED_SOURCE_SIZE) : ∀ p ∈ controlPatches ks c, p.Fits stock.length := by
    rw [hsize]
    exact Patch.fits_of_slots (by decide) hslots
  constructor
  · intro h
    obtain ⟨⟨⟩, hverify, h⟩ := of_bind_ok h
    obtain ⟨hsize, hhash⟩ := verifySource_eq_ok.mp hverify
    rw [if_neg hroom] at h
    obtain ⟨d, hd, h⟩ := of_bind_ok h
    obtain ⟨hmessage, hd⟩ := replaceMessage_eq_ok.mp hd
    rw [hsplice, applyAll_append, hpatches] at hd
    rw [hsplice, slice_message (hfits hsize) hapart hlen] at hmessage
    rw [hd] at h
    obtain rfl := Except.ok.inj ((compare_eq_ok (hfits hsize)).symm.trans h)
    exact ⟨⟨hsize, hhash, hmessage⟩, not_lt.mp hroom, (Patch.applied_iff (hfits hsize) hapart).mpr rfl⟩
  · rintro ⟨hverified, -, happlied⟩
    have hfit := hfits hverified.size
    rw [Patch.applied_iff hfit hapart] at happlied
    rw [happlied, buildControl, bind_of_ok (verifySource_eq_ok.mpr ⟨hverified.size, hverified.hash⟩), if_neg hroom]
    have hmessage : replaceMessage c.message (Patch.splice stock TRAMPOLINE_OFFSET (ks.asm c.source)) =
        .ok (Patch.applyAll stock (controlPatches ks c)) := by
      rw [replaceMessage_eq_ok, hsplice, applyAll_append, hpatches]
      exact ⟨(slice_message hfit hapart hlen).trans hverified.message, rfl⟩
    exact (bind_of_ok hmessage).trans (compare_eq_ok hfit)

/-- What each builder takes and what it makes of it, for every file and whatever the assembler makes of the listings: the
new file has the patches in their places and is otherwise the stock file. -/
theorem builders_exact (sha256 : Bytes → String) (ks : Keystone) (stock data : Bytes) :
    (buildMonitor sha256 ks stock = .ok data ↔
      Verified sha256 stock ∧ (∀ index < COMMAND_TABLE_ENTRIES, Pointer stock index) ∧ Room ks ∧
        Patch.Applied (monitorPatches ks) stock data) ∧
    ∀ c ∈ [rgb, led], buildControl c sha256 ks stock = .ok data ↔
      Verified sha256 stock ∧ TRAMPOLINE_ADDR.toNat + (ks.asm c.source).length ≤ NEXT_HANDLER_ADDR.toNat ∧
        Patch.Applied (controlPatches ks c) stock data := by
  refine ⟨buildMonitor_eq_ok sha256 ks stock data, fun c hc => buildControl_eq_ok ?_⟩
  simp only [List.mem_cons, List.not_mem_nil, or_false] at hc
  rcases hc with rfl | rfl
  · decide
  · decide

end ShadowMsm.Armprg
