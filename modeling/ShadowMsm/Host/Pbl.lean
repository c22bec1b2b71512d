import ShadowMsm.Host.Port

/-!
# Uploads through the PBL downloader

`pbl_write_ram`, `pbl_upload` and `pbl_execute` of the Linux shell; the two loaders have them as `write_ram`, `upload`
and `execute`, with other timeouts.  An upload cuts its data into packets, and a packet is repeated until the
downloader acknowledges it, three times at most.
-/

namespace ShadowMsm.Host

def MAX_CHUNK : Nat := 0x3F9

/-! ### The scripts -/

/-- The payload of a RAM write. -/
def ramWritePayload (address : Int) (data : Bytes) : Except Exn Bytes := do
  let addressBytes ← toBytesBig 4 address
  let lengthBytes ← toBytesBig 2 data.length
  return [0x0F] ++ addressBytes ++ lengthBytes ++ data

/-- `response == b"\x02" or (response and response[0] == 0x0F)` -/
def isAck (response : Bytes) : Bool := response = [0x02] || response.head? = some 0x0F

/-- The loop of `pbl_write_ram`, with the attempts that are left. -/
def pblWriteRamLoop (address : Int) (payload : Bytes) : Nat → Script Unit
  | 0 => throw (.timeoutError ("RAM write timeout at 0x" ++ format08X address.toNat))
  | attempts + 1 => do
    transmit (hdlcFrame payload)
    match ← readFrame with
    | none => pblWriteRamLoop address payload attempts
    | some response =>
      if isAck response then pure ()
      else if response ≠ [] then
        throw (.runtimeError ("RAM write at 0x" ++ format08X address.toNat ++ ": response " ++ bytesHex response))
      else pblWriteRamLoop address payload attempts

/-- `pbl_write_ram` -/
def pblWriteRam (address : Int) (data : Bytes) : Script Unit := do
  let payload ← Traced.ofExcept (ramWritePayload address data)
  pblWriteRamLoop address payload 3

/-- `data[written:written + MAX_CHUNK]` -/
def chunkAt (data : Bytes) (written : Nat) : Bytes := (data.drop written).take MAX_CHUNK

theorem length_chunkAt (data : Bytes) (written : Nat) :
    (chunkAt data written).length = min MAX_CHUNK (data.length - written) := by
  simp [chunkAt]

theorem chunkAt_pos {data : Bytes} {written : Nat} (h : written < data.length) :
    0 < (chunkAt data written).length := by
  rw [length_chunkAt, MAX_CHUNK]
  omega

/-- The loop of `pbl_upload`. -/
def pblUploadFrom (address : Int) (data : Bytes) (written : Nat) : Script Unit :=
  if _h : written < data.length then do
    pblWriteRam (address + written) (chunkAt data written)
    pblUploadFrom address data (written + (chunkAt data written).length)
  else pure ()
termination_by data.length - written
decreasing_by
  have := chunkAt_pos _h
  omega

/-- `pbl_upload` -/
def pblUpload (address : Int) (data : Bytes) : Script Unit := pblUploadFrom address data 0

/-- `pbl_execute`: an error of the port after the command is sent counts as no response. -/
def pblExecute (address : Int) : Script (Option Bytes) := do
  let addressBytes ← Traced.ofExcept (toBytesBig 4 address)
  transmit (hdlcFrame ([0x05] ++ addressBytes))
  tryCatch readFrame fun e =>
    match e with
    | .osError => pure none
    | .timeoutError _ => pure none
    | e => throw e

/-- The frame of `pbl_execute`. -/
def executeFrame (address : Int) : Bytes := hdlcFrame ([0x05] ++ (leBytes 4 address.toNat).reverse)

/-! ### Packets -/

/-- One RAM write. -/
structure Packet where
  address : Int
  data : Bytes
  deriving DecidableEq, Repr

namespace Packet

/-- The address fits the 32-bit field of a RAM write and the length its 16-bit field. -/
def Fits (p : Packet) : Prop := (0 ≤ p.address ∧ p.address < 2 ^ 32) ∧ p.data.length < 2 ^ 16

/-- The frame of a RAM write. -/
def frame (p : Packet) : Bytes :=
  hdlcFrame ([0x0F] ++ (leBytes 4 p.address.toNat).reverse ++ (leBytes 2 p.data.length).reverse ++ p.data)

end Packet

/-- `pbl_write_ram` sends the frame of its packet, when that fits. -/
theorem ramWritePayload_eq_ok {p : Packet} {payload : Bytes} (h : ramWritePayload p.address p.data = .ok payload) :
    p.Fits ∧ hdlcFrame payload = p.frame := by
  unfold ramWritePayload at h
  rcases ha : toBytesBig 4 p.address with e | addressBytes
  · rw [ha] at h
    cases h
  · rcases hn : toBytesBig 2 p.data.length with e | lengthBytes
    · rw [ha, hn] at h
      cases h
    · rw [ha, hn] at h
      obtain ⟨⟨ha1, ha2⟩, rfl⟩ := toBytesBig_eq_ok.mp ha
      obtain ⟨⟨-, hn2⟩, rfl⟩ := toBytesBig_eq_ok.mp hn
      cases h
      exact ⟨⟨⟨ha1, by simpa using ha2⟩, by omega⟩, rfl⟩

theorem ramWritePayload_of_fits {p : Packet} (h : p.Fits) :
    ∃ payload, ramWritePayload p.address p.data = .ok payload ∧ hdlcFrame payload = p.frame := by
  obtain ⟨⟨h0, h32⟩, h16⟩ := h
  refine ⟨_, ?_, rfl⟩
  unfold ramWritePayload
  rw [toBytesBig_eq_ok.mpr ⟨⟨h0, by simpa using h32⟩, rfl⟩, toBytesBig_eq_ok.mpr ⟨⟨by omega, by omega⟩, rfl⟩]
  rfl

/-- The packets of an upload. -/
def packetsFrom (address : Int) (data : Bytes) (written : Nat) : List Packet :=
  if _h : written < data.length then
    ⟨address + written, chunkAt data written⟩ ::
      packetsFrom address data (written + (chunkAt data written).length)
  else []
termination_by data.length - written
decreasing_by
  have := chunkAt_pos _h
  omega

def packets (address : Int) (data : Bytes) : List Packet := packetsFrom address data 0

/-! ### Cells -/

/-- The bytes of an image with their addresses. -/
def cells (address : Int) : Bytes → List (Int × Byte)
  | [] => []
  | b :: bs => (address, b) :: cells (address + 1) bs

theorem cells_append (address : Int) (bs bs' : Bytes) :
    cells address (bs ++ bs') = cells address bs ++ cells (address + bs.length) bs' := by
  induction bs generalizing address with
  | nil => simp [cells]
  | cons b bs ih =>
    have h : address + 1 + (bs.length : Int) = address + ((b :: bs).length : Int) := by
      rw [List.length_cons]
      omega
    rw [List.cons_append, cells, ih, cells, List.cons_append, h]

theorem mem_cells {address : Int} {bs : Bytes} {x : Int} {b : Byte} :
    (x, b) ∈ cells address bs ↔ ∃ i : Nat, x = address + i ∧ bs[i]? = some b := by
  induction bs generalizing address with
  | nil => simp [cells]
  | cons c bs ih =>
    rw [cells, List.mem_cons, ih, Prod.mk.injEq]
    constructor
    · rintro (⟨rfl, rfl⟩ | ⟨i, rfl, hi⟩)
      · exact ⟨0, by simp, rfl⟩
      · exact ⟨i + 1, by omega, by simpa using hi⟩
    · rintro ⟨i, rfl, hi⟩
      cases i with
      | zero => exact .inl ⟨by simp, by simpa using hi.symm⟩
      | succ i => exact .inr ⟨i, by omega, by simpa using hi⟩

/-- The addresses of the cells are those of the image. -/
theorem mem_map_fst_cells {address : Int} {bs : Bytes} {x : Int} :
    x ∈ (cells address bs).map Prod.fst ↔ address ≤ x ∧ x < address + bs.length := by
  rw [List.mem_map]
  constructor
  · rintro ⟨⟨y, b⟩, h, rfl⟩
    obtain ⟨i, rfl, hi⟩ := mem_cells.mp h
    have := (List.getElem?_eq_some_iff.mp hi).1
    omega
  · rintro ⟨h1, h2⟩
    have hlt : (x - address).toNat < bs.length := by omega
    exact ⟨(x, bs[(x - address).toNat]), mem_cells.mpr ⟨(x - address).toNat, by omega, by simp [hlt]⟩, rfl⟩

theorem nodup_map_fst_cells (address : Int) (bs : Bytes) : ((cells address bs).map Prod.fst).Nodup := by
  induction bs generalizing address with
  | nil => exact List.nodup_nil
  | cons b bs ih =>
    rw [cells, List.map_cons, List.nodup_cons, mem_map_fst_cells]
    exact ⟨by omega, ih (address + 1)⟩

def Packet.cells (p : Packet) : List (Int × Byte) := Host.cells p.address p.data

/-- Nothing is lost, repeated or moved by the chunking. -/
theorem flatMap_cells_packetsFrom (address : Int) (data : Bytes) (written : Nat) :
    (packetsFrom address data written).flatMap Packet.cells = cells (address + written) (data.drop written) := by
  induction written using packetsFrom.induct data with
  | case1 written h ih =>
    rw [packetsFrom, dif_pos h, List.flatMap_cons, ih, Packet.cells]
    have hlen := length_chunkAt data written
    have hrest : data.drop (written + (chunkAt data written).length) = (data.drop written).drop MAX_CHUNK := by
      rw [List.drop_drop, hlen]
      rcases Nat.le_total MAX_CHUNK (data.length - written) with hle | hle
      · rw [Nat.min_eq_left hle]
      · rw [Nat.min_eq_right hle, List.drop_eq_nil_of_le (by omega), List.drop_eq_nil_of_le (by omega)]
    have haddr : address + ((written + (chunkAt data written).length : Nat) : Int) =
        address + written + (chunkAt data written).length := by omega
    rw [hrest, haddr, ← cells_append, chunkAt, List.take_append_drop]
  | case2 written h =>
    rw [packetsFrom, dif_neg h, List.drop_eq_nil_of_le (by omega)]
    rfl

theorem flatMap_cells_packets (address : Int) (data : Bytes) :
    (packets address data).flatMap Packet.cells = cells address data := by
  simpa [packets] using flatMap_cells_packetsFrom address data 0

/-- A packet has some bytes and no more than the downloader takes. -/
theorem length_of_mem_packetsFrom {address : Int} {data : Bytes} {written : Nat} {p : Packet}
    (hp : p ∈ packetsFrom address data written) : 0 < p.data.length ∧ p.data.length ≤ MAX_CHUNK := by
  induction written using packetsFrom.induct data with
  | case1 written h ih =>
    rw [packetsFrom, dif_pos h, List.mem_cons] at hp
    rcases hp with rfl | hp
    · exact ⟨chunkAt_pos h, by rw [length_chunkAt]; exact Nat.min_le_left _ _⟩
    · exact ih hp
  | case2 written h =>
    rw [packetsFrom, dif_neg h] at hp
    exact absurd hp List.not_mem_nil

/-! ### What a transfer leaves -/

/-- The frame `f` was written `n` times at most, and the response to the last one acknowledges it. -/
def AcknowledgedIn (n : Nat) (f : Bytes) (l : List Event) : Prop :=
  ∃ retries polls response, l = retries ++ [.resetInput, .write f, .flush] ++ polls.map .poll ∧
    (∃ k < n, writes retries = List.replicate k f) ∧
    ShadowMsm.readFrame polls = (.ok (some response), []) ∧ isAck response = true

abbrev Acknowledged (f : Bytes) (l : List Event) : Prop := AcknowledgedIn 3 f l

/-- The packets were sent in order, each of them until it was acknowledged. -/
inductive Delivered : List Packet → List Event → Prop
  | nil : Delivered [] []
  | cons {p : Packet} {ps : List Packet} {l l' : List Event} (hfits : p.Fits) (hack : Acknowledged p.frame l)
      (hrest : Delivered ps l') : Delivered (p :: ps) (l ++ l')

/-- A packet that was not delivered: it does not fit, or it was sent without success. -/
def Attempted (p : Packet) (l : List Event) : Prop :=
  writes l = [] ∨ p.Fits ∧ ∃ k ≤ 3, writes l = List.replicate k p.frame

/-- A transfer of packets: all of them are delivered, or those before the one where an exception ended it. -/
def Transfer (ps : List Packet) : Except Exn Unit → List Event → Prop
  | .ok _, l => Delivered ps l
  | .error _, l => ∃ done p rest l₁ l₂, ps = done ++ p :: rest ∧ l = l₁ ++ l₂ ∧ Delivered done l₁ ∧ Attempted p l₂

/-! ### The rules -/

/-- One more attempt before an acknowledged one. -/
theorem AcknowledgedIn.retry {n : Nat} {f : Bytes} {l : List Event} (h : AcknowledgedIn n f l) (polls : List Poll) :
    AcknowledgedIn (n + 1) f ([.resetInput, .write f, .flush] ++ (polls.map .poll ++ l)) := by
  obtain ⟨retries, polls', response, rfl, ⟨k, hk, hretries⟩, hread, hack⟩ := h
  refine ⟨[.resetInput, .write f, .flush] ++ polls.map .poll ++ retries, polls', response, by simp, ?_, hread, hack⟩
  refine ⟨k + 1, by omega, ?_⟩
  simp [writes, hretries, List.replicate_succ]

/-- The loop ends well on an acknowledgement only. -/
theorem sat_pblWriteRamLoop (address : Int) (payload : Bytes) (attempts : Nat) :
    Traced.Sat (pblWriteRamLoop address payload attempts) fun r l =>
      match r with
      | .ok _ => AcknowledgedIn attempts (hdlcFrame payload) l
      | .error _ => ∃ k ≤ attempts, writes l = List.replicate k (hdlcFrame payload) := by
  induction attempts with
  | zero => exact Traced.sat_throw ⟨0, Nat.le_refl 0, rfl⟩
  | succ n ih =>
    have hone : ∀ l, writes l = [] ∨ writes l = [hdlcFrame payload] →
        ∃ k ≤ n + 1, writes l = List.replicate k (hdlcFrame payload) := by
      rintro l (h | h)
      · exact ⟨0, by omega, h⟩
      · exact ⟨1, by omega, h⟩
    -- an attempt without an acknowledgement leaves the rest of the loop one attempt less
    have hretry : ∀ polls : List Poll, Traced.Sat (pblWriteRamLoop address payload n) fun r l =>
        match r with
        | .ok _ => AcknowledgedIn (n + 1) (hdlcFrame payload)
            ([.resetInput, .write (hdlcFrame payload), .flush] ++ (polls.map .poll ++ l))
        | .error _ => ∃ k ≤ n + 1,
            writes ([.resetInput, .write (hdlcFrame payload), .flush] ++ (polls.map .poll ++ l)) =
              List.replicate k (hdlcFrame payload) := by
      intro polls
      apply ih.mono
      intro r l h
      cases r with
      | ok _ => exact AcknowledgedIn.retry h polls
      | error e =>
        obtain ⟨k, hk, hl⟩ := h
        exact ⟨k + 1, by omega, by simp [writes, hl, List.replicate_succ]⟩
    unfold pblWriteRamLoop
    refine Traced.sat_bind (φ := fun r l => match r with
      | .ok _ => l = [.resetInput, .write (hdlcFrame payload), .flush]
      | .error _ => writes l = [] ∨ writes l = [hdlcFrame payload]) (sat_transmit (fun _ _ h => h) rfl)
      (fun _ l h => hone l h) ?_
    rintro _ l rfl
    refine Traced.sat_bind sat_readFrame ?_ ?_
    · rintro e l ⟨polls, rfl, -⟩
      exact hone _ (.inr (by simp [writes]))
    · rintro o l ⟨polls, rfl, hread⟩
      cases o with
      | none => exact hretry polls
      | some response =>
        dsimp only
        split_ifs with hack hne
        · refine Traced.sat_pure ⟨[], polls, response, by simp, ⟨0, by omega, rfl⟩, hread _ rfl, hack⟩
        · exact Traced.sat_throw (hone _ (.inr (by simp [writes])))
        · exact hretry polls

theorem Delivered.append {ps qs : List Packet} {l l' : List Event} (h : Delivered ps l) (h' : Delivered qs l') :
    Delivered (ps ++ qs) (l ++ l') := by
  induction h with
  | nil => exact h'
  | cons hfits hack hrest ih =>
    rw [List.cons_append, List.append_assoc]
    exact .cons hfits hack ih

/-- `pbl_write_ram` transfers one packet. -/
theorem sat_pblWriteRam (address : Int) (data : Bytes) :
    Traced.Sat (pblWriteRam address data) (Transfer [⟨address, data⟩]) := by
  have hfail : ∀ e l, Attempted ⟨address, data⟩ l → Transfer [⟨address, data⟩] (.error e) l :=
    fun e l h => ⟨[], ⟨address, data⟩, [], [], l, rfl, rfl, .nil, h⟩
  unfold pblWriteRam
  refine Traced.sat_bind (φ := fun r l => r = ramWritePayload address data ∧ l = []) (Traced.sat_ofExcept ⟨rfl, rfl⟩) ?_ ?_
  · rintro e l ⟨-, rfl⟩
    exact hfail e _ (.inl rfl)
  · rintro payload l ⟨hpayload, rfl⟩
    obtain ⟨hfits, hframe⟩ := ramWritePayload_eq_ok (p := ⟨address, data⟩) hpayload.symm
    apply (sat_pblWriteRamLoop address payload 3).mono
    intro r l h
    rw [hframe] at h
    cases r with
    | ok _ =>
      have := Delivered.cons hfits h .nil
      rwa [List.append_nil] at this
    | error e => exact hfail e l (.inr ⟨hfits, h⟩)

/-- Transfers in sequence. -/
theorem sat_transfer_bind {ps qs : List Packet} {f g : Script Unit} (hf : Traced.Sat f (Transfer ps))
    (hg : Traced.Sat g (Transfer qs)) : Traced.Sat (f >>= fun _ => g) (Transfer (ps ++ qs)) := by
  apply Traced.sat_bind hf
  · rintro e l ⟨done, p, rest, l₁, l₂, rfl, rfl, h⟩
    exact ⟨done, p, rest ++ qs, l₁, l₂, by simp, rfl, h⟩
  · intro _ l hl
    apply hg.mono
    intro r l' hl'
    cases r with
    | ok _ => exact Delivered.append hl hl'
    | error e =>
      obtain ⟨done, p, rest, l₁, l₂, rfl, rfl, hdone, hatt⟩ := hl'
      exact ⟨ps ++ done, p, rest, l ++ l₁, l₂, by simp, by simp, hl.append hdone, hatt⟩

theorem sat_pblUploadFrom (address : Int) (data : Bytes) (written : Nat) :
    Traced.Sat (pblUploadFrom address data written) (Transfer (packetsFrom address data written)) := by
  induction written using pblUploadFrom.induct data with
  | case1 written h ih =>
    rw [pblUploadFrom, packetsFrom, dif_pos h, dif_pos h]
    exact sat_transfer_bind (sat_pblWriteRam _ _) ih
  | case2 written h =>
    rw [pblUploadFrom, packetsFrom, dif_neg h, dif_neg h]
    exact Traced.sat_pure .nil

/-- `pbl_upload` transfers its packets. -/
theorem sat_pblUpload (address : Int) (data : Bytes) :
    Traced.Sat (pblUpload address data) (Transfer (packets address data)) := sat_pblUploadFrom address data 0

/-- `pbl_execute` writes its command once at most, and returns after it has been sent. -/
theorem sat_pblExecute {address : Int} (h : 0 ≤ address ∧ address < 2 ^ 32) :
    Traced.Sat (pblExecute address) fun r l =>
      match r with
      | .ok _ => ∃ polls : List Poll, l = [.resetInput, .write (executeFrame address), .flush] ++ polls.map .poll
      | .error _ => writes l = [] ∨ writes l = [executeFrame address] := by
  have hbytes : toBytesBig 4 address = .ok (leBytes 4 address.toNat).reverse :=
    toBytesBig_eq_ok.mpr ⟨⟨h.1, by simpa using h.2⟩, rfl⟩
  unfold pblExecute
  rw [hbytes]
  refine Traced.sat_bind (φ := fun r l => r = .ok (leBytes 4 address.toNat).reverse ∧ l = [])
    (Traced.sat_ofExcept ⟨rfl, rfl⟩) ?_ ?_
  · rintro e l ⟨hr, -⟩
    cases hr
  · rintro addressBytes l ⟨hr, rfl⟩
    cases hr
    refine Traced.sat_bind (φ := fun r l => match r with
      | .ok _ => l = [.resetInput, .write (executeFrame address), .flush]
      | .error _ => writes l = [] ∨ writes l = [executeFrame address]) (sat_transmit (fun _ _ h => h) rfl)
      (fun _ _ h => h) ?_
    rintro _ l rfl
    refine Traced.sat_tryCatch sat_readFrame ?_ ?_
    · rintro r l ⟨polls, rfl, -⟩
      exact ⟨polls, rfl⟩
    · rintro e l ⟨polls, rfl, -⟩
      have hwrites : writes ([.resetInput, .write (executeFrame address), .flush] ++ polls.map .poll) =
          [executeFrame address] := by simp [writes]
      split
      · exact Traced.sat_pure ⟨polls, by simp⟩
      · exact Traced.sat_pure ⟨polls, by simp⟩
      · exact Traced.sat_throw (.inr (by simpa using hwrites))

end ShadowMsm.Host
