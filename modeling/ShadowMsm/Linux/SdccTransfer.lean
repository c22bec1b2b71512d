import Mathlib.Data.List.GetD
import ShadowMsm.Linux.Sdcc

/-!
# Fidelity of an SD data transfer

The loop of `shadow_sdcc_transfer_data` moves one word at most for each status it reads.  Its invariant `Progress`
counts the words, compares their bytes with the bounce buffer and keeps the trace such that every access of the
FIFO follows a status that allows it; it holds for every order of status values, FIFO words and readings of
`jiffies` (`transferData_faithful`).
-/

namespace ShadowMsm.Linux

open Traced

/-! ### Words and bytes -/

/-- The bytes of words, in little-endian order. -/
def wordsBytes (words : List U32) : Bytes := words.flatMap (wordBytes · 4)

@[simp] theorem wordsBytes_append (l₁ l₂ : List U32) : wordsBytes (l₁ ++ l₂) = wordsBytes l₁ ++ wordsBytes l₂ :=
  List.flatMap_append

@[simp] theorem length_wordBytes (word : U32) (count : Nat) : (wordBytes word count).length = count := by
  simp [wordBytes]

@[simp] theorem length_wordsBytes (words : List U32) : (wordsBytes words).length = 4 * words.length := by
  induction words with
  | nil => rfl
  | cons word words ih =>
    change (wordBytes word 4 ++ wordsBytes words).length = _
    rw [List.length_append, length_wordBytes, ih, List.length_cons]
    omega

theorem take_wordBytes (word : U32) {count : Nat} (h : count ≤ 4) :
    (wordBytes word 4).take count = wordBytes word count := by
  rw [wordBytes, wordBytes, ← List.map_take, List.take_range, Nat.min_eq_left h]

/-- A byte of a word made of bytes; those that are missing are zero. -/
theorem byte_wordOfBytes (bs : Bytes) {i : Nat} (h : i < 4) :
    (wordOfBytes bs >>> (8 * i)).setWidth 8 = bs.getD i 0 := by
  induction bs generalizing i with
  | nil => simp [wordOfBytes]
  | cons b bs ih =>
    have hcons : wordOfBytes (b :: bs) = (wordOfBytes bs <<< 8) ||| b.setWidth 32 := rfl
    rw [hcons]
    cases i with
    | zero =>
      ext j hj
      simp
    | succ i =>
      rw [List.getD_cons_succ, ← ih (by omega)]
      ext j hj
      have hhigh : ¬ 8 * (i + 1) + j < 8 := by omega
      have hword : 8 * (i + 1) + j < 32 := by omega
      have hshift : 8 * (i + 1) + j - 8 = 8 * i + j := by omega
      have hbyte : b.getLsbD (8 * (i + 1) + j) = false := BitVec.getLsbD_of_ge _ _ (by omega)
      simp [hhigh, hword, hshift, hbyte]
      rfl

theorem wordBytes_wordOfBytes {bs : Bytes} (h : bs.length ≤ 4) :
    wordBytes (wordOfBytes bs) 4 = bs ++ List.replicate (4 - bs.length) 0 := by
  apply List.ext_getElem
  · rw [length_wordBytes, List.length_append, List.length_replicate]
    omega
  · intro i hi hi'
    have hi4 : i < 4 := by rwa [length_wordBytes] at hi
    have hbyte : (wordBytes (wordOfBytes bs) 4)[i] = bs.getD i 0 := by
      simp only [wordBytes, List.getElem_map, List.getElem_range]
      exact byte_wordOfBytes bs hi4
    refine hbyte.trans ?_
    rw [List.getElem_append]
    split
    · exact List.getD_eq_getElem _ _ ‹_›
    · rw [List.getElem_replicate]
      exact List.getD_eq_default _ _ (by omega)

@[simp] theorem length_bytesAt (memory : Nat → Byte) (offset count : Nat) :
    (bytesAt memory offset count).length = count := by
  simp [bytesAt]

theorem bytesAt_add (memory : Nat → Byte) (offset m n : Nat) :
    bytesAt memory offset (m + n) = bytesAt memory offset m ++ bytesAt memory (offset + m) n := by
  simp [bytesAt, List.range_add, Nat.add_assoc]

theorem bytesAt_congr {memory memory' : Nat → Byte} {offset count : Nat}
    (h : ∀ i, offset ≤ i → i < offset + count → memory i = memory' i) :
    bytesAt memory offset count = bytesAt memory' offset count := by
  apply List.map_congr_left
  intro i hi
  have hi := List.mem_range.mp hi
  exact h _ (by omega) (by omega)

theorem memcpy_of_lt (memory : Nat → Byte) {offset i : Nat} (bs : Bytes) (h : i < offset) :
    memcpy memory offset bs i = memory i :=
  if_neg fun h' => by omega

theorem memcpy_of_le (memory : Nat → Byte) {offset i : Nat} {bs : Bytes} (h : offset + bs.length ≤ i) :
    memcpy memory offset bs i = memory i :=
  if_neg fun h' => by omega

theorem bytesAt_memcpy (memory : Nat → Byte) (offset : Nat) (bs : Bytes) :
    bytesAt (memcpy memory offset bs) offset bs.length = bs := by
  apply List.ext_getElem
  · exact length_bytesAt _ _ _
  · intro i hi hi'
    have hinside : offset ≤ offset + i ∧ offset + i < offset + bs.length := by omega
    simp only [bytesAt, List.getElem_map, List.getElem_range, memcpy]
    rw [if_pos hinside, Nat.add_sub_cancel_left]
    exact List.getD_eq_getElem _ _ hi'

/-! ### Accesses of the FIFO -/

/-- The word that an access pops from the FIFO. -/
def Access.pop : Access → Option U32
  | .read offset value => if offset = MCI_FIFO then some value else none
  | _ => none

/-- The word that an access pushes to the FIFO. -/
def Access.push : Access → Option U32
  | .write offset value => if offset = MCI_FIFO then some value else none
  | _ => none

def popped (log : List Access) : List U32 := log.filterMap Access.pop

def pushed (log : List Access) : List U32 := log.filterMap Access.push

@[simp] theorem popped_append (l₁ l₂ : List Access) : popped (l₁ ++ l₂) = popped l₁ ++ popped l₂ :=
  List.filterMap_append

@[simp] theorem pushed_append (l₁ l₂ : List Access) : pushed (l₁ ++ l₂) = pushed l₁ ++ pushed l₂ :=
  List.filterMap_append

/-- The status shows a word to pop and no error. -/
def RxReady (status : U32) : Prop := status &&& MCI_DATA_ERRORS = 0 ∧ status &&& MCI_STAT_RX_DATA_AVAIL ≠ 0

/-- The status shows room for a word and no error. -/
def TxReady (status : U32) : Prop :=
  status &&& MCI_DATA_ERRORS = 0 ∧ status &&& MCI_STAT_TX_FIFO_FULL = 0 ∧
    status &&& (MCI_STAT_TX_FIFO_HALF ||| MCI_STAT_TX_FIFO_EMPTY ||| MCI_STAT_TX_DATA_AVAIL) ≠ 0

/-- The FIFO is accessed only right after a status that allows it. -/
def Ready (log : List Access) : Prop :=
  ∀ before a after, log = before ++ a :: after →
    (a.pop ≠ none → ∃ l status, before = l ++ [.read MCI_STATUS status] ∧ RxReady status) ∧
      (a.push ≠ none → ∃ l status, before = l ++ [.read MCI_STATUS status] ∧ TxReady status)

/-- An access of something else. -/
def Access.Quiet (a : Access) : Prop := a.pop = none ∧ a.push = none

theorem popped_of_quiet {log : List Access} (h : ∀ a ∈ log, a.Quiet) : popped log = [] :=
  List.filterMap_eq_nil_iff.mpr fun a ha => (h a ha).1

theorem pushed_of_quiet {log : List Access} (h : ∀ a ∈ log, a.Quiet) : pushed log = [] :=
  List.filterMap_eq_nil_iff.mpr fun a ha => (h a ha).2

theorem ready_of_quiet {log : List Access} (h : ∀ a ∈ log, a.Quiet) : Ready log := by
  rintro before a after rfl
  have ha : a.Quiet := h a (by simp)
  exact ⟨fun hpop => absurd ha.1 hpop, fun hpush => absurd ha.2 hpush⟩

theorem Ready.append {l₁ l₂ : List Access} (h₁ : Ready l₁) (h₂ : Ready l₂) : Ready (l₁ ++ l₂) := by
  intro before a after h
  rcases List.append_eq_append_iff.mp h with ⟨l, hbefore, hl₂⟩ | ⟨l, hl₁, hafter⟩
  · obtain ⟨hpop, hpush⟩ := h₂ l a after hl₂
    constructor
    · intro ha
      obtain ⟨l', status, rfl, hstatus⟩ := hpop ha
      exact ⟨l₁ ++ l', status, by rw [hbefore, List.append_assoc], hstatus⟩
    · intro ha
      obtain ⟨l', status, rfl, hstatus⟩ := hpush ha
      exact ⟨l₁ ++ l', status, by rw [hbefore, List.append_assoc], hstatus⟩
  · cases l with
    | nil =>
      obtain ⟨hpop, hpush⟩ := h₂ [] a after hafter.symm
      exact ⟨fun ha => by simpa using hpop ha, fun ha => by simpa using hpush ha⟩
    | cons b l =>
      obtain ⟨rfl, -⟩ := List.cons.inj hafter
      exact h₁ before a l hl₁

/-- A status and then an access that it allows. -/
theorem ready_pair {status : U32} {a : Access} (hpop : a.pop ≠ none → RxReady status)
    (hpush : a.push ≠ none → TxReady status) : Ready [.read MCI_STATUS status, a] := by
  intro before b after h
  match before with
  | [] =>
    obtain ⟨rfl, -⟩ := List.cons.inj h
    exact ⟨fun hb => absurd rfl hb, fun hb => absurd rfl hb⟩
  | [c] =>
    obtain ⟨rfl, hrest⟩ := List.cons.inj h
    obtain ⟨rfl, -⟩ := List.cons.inj hrest
    exact ⟨fun hb => ⟨[], status, rfl, hpop hb⟩, fun hb => ⟨[], status, rfl, hpush hb⟩⟩
  | c :: d :: before =>
    exact absurd (congrArg List.length h) (by simp)

/-! ### The loop -/

/-- What one status can do to a transfer: an error, nothing, or one word. -/
inductive WordStep (data : MmcData) (t : Transfer) : Except Pending (Transfer ⊕ Transfer) → List Access → Prop
  | failed (status : U32) : WordStep data t (.ok (.inr { t with status := status, error := dataErrno status }))
      [.read MCI_STATUS status]
  | waiting (status : U32) : WordStep data t (.ok (.inl { t with status := status })) [.read MCI_STATUS status]
  | pop (status word : U32) (hdir : data.flags &&& MMC_DATA_READ ≠ 0) (hready : RxReady status) :
    WordStep data t
      (.ok (.inl { t with
        status := status
        bounce := memcpy t.bounce t.transferred (wordBytes word (min 4 (data.size.toNat - t.transferred)))
        transferred := t.transferred + min 4 (data.size.toNat - t.transferred) }))
      [.read MCI_STATUS status, .read MCI_FIFO word]
  | push (status : U32) (hdir : data.flags &&& MMC_DATA_READ = 0) (hready : TxReady status) :
    WordStep data t
      (.ok (.inl { t with
        status := status
        transferred := t.transferred + min 4 (data.size.toNat - t.transferred) }))
      [.read MCI_STATUS status, .write MCI_FIFO (wordOfBytes
        (bytesAt t.bounce t.transferred (min 4 (data.size.toNat - t.transferred))))]

theorem sat_transferWord (data : MmcData) (t : Transfer) : Sat (transferWord data t) (WordStep data t) := by
  apply sat_readl_bind
  intro status
  by_cases herr : status &&& MCI_DATA_ERRORS ≠ 0
  · rw [if_pos herr]
    exact sat_pure (.failed status)
  rw [if_neg herr]
  rw [not_not] at herr
  by_cases hdir : data.flags &&& MMC_DATA_READ ≠ 0
  · rw [if_pos hdir]
    by_cases havail : status &&& MCI_STAT_RX_DATA_AVAIL = 0
    · rw [if_pos havail]
      exact sat_pure (.waiting status)
    · rw [if_neg havail]
      apply sat_readl_bind
      intro word
      exact sat_pure (.pop status word hdir ⟨herr, havail⟩)
  rw [if_neg hdir]
  rw [not_not] at hdir
  by_cases hfull : status &&& MCI_STAT_TX_FIFO_FULL ≠ 0
  · rw [if_pos hfull]
    exact sat_pure (.waiting status)
  rw [if_neg hfull]
  by_cases hroom : status &&& (MCI_STAT_TX_FIFO_HALF ||| MCI_STAT_TX_FIFO_EMPTY ||| MCI_STAT_TX_DATA_AVAIL) = 0
  · rw [if_pos hroom]
    exact sat_pure (.waiting status)
  · rw [if_neg hroom]
    apply sat_writel_bind
    exact sat_pure (.push status hdir ⟨herr, not_not.mp hfull, hroom⟩)

/-- The transfer so far, from the bounce buffer it began with. -/
structure Progress (data : MmcData) (bounce : Nat → Byte) (t : Transfer) (log : List Access) : Prop where
  ready : Ready log
  transferred_eq : t.transferred = min (4 * ((popped log).length + (pushed log).length)) data.size.toNat
  count_le : (popped log).length + (pushed log).length ≤ (data.size.toNat + 3) / 4
  frame : ∀ i, data.size.toNat ≤ i → t.bounce i = bounce i
  read : data.flags &&& MMC_DATA_READ ≠ 0 →
    pushed log = [] ∧ bytesAt t.bounce 0 t.transferred = (wordsBytes (popped log)).take t.transferred
  write : data.flags &&& MMC_DATA_READ = 0 → popped log = [] ∧ t.bounce = bounce ∧
    wordsBytes (pushed log) =
      bytesAt bounce 0 t.transferred ++ List.replicate (4 * (pushed log).length - t.transferred) 0

theorem progress_start (data : MmcData) (bounce : Nat → Byte) : Progress data bounce ⟨bounce, 0, 0, 0⟩ [] where
  ready := ready_of_quiet (by simp)
  transferred_eq := by simp [popped, pushed]
  count_le := Nat.zero_le _
  frame _ _ := rfl
  read _ := ⟨rfl, rfl⟩
  write _ := ⟨rfl, rfl, rfl⟩

/-- Accesses of something else are no progress. -/
theorem Progress.quiet {data : MmcData} {bounce : Nat → Byte} {t t' : Transfer} {log l : List Access}
    (h : Progress data bounce t log) (hl : ∀ a ∈ l, a.Quiet) (hbounce : t'.bounce = t.bounce)
    (htransferred : t'.transferred = t.transferred) : Progress data bounce t' (log ++ l) := by
  have hpopped : popped (log ++ l) = popped log := by rw [popped_append, popped_of_quiet hl, List.append_nil]
  have hpushed : pushed (log ++ l) = pushed log := by rw [pushed_append, pushed_of_quiet hl, List.append_nil]
  refine ⟨h.ready.append (ready_of_quiet hl), ?_, ?_, ?_, ?_, ?_⟩
  · rw [htransferred, hpopped, hpushed]
    exact h.transferred_eq
  · rw [hpopped, hpushed]
    exact h.count_le
  · rw [hbounce]
    exact h.frame
  · rw [htransferred, hpopped, hpushed, hbounce]
    exact h.read
  · rw [htransferred, hpopped, hpushed, hbounce]
    exact h.write

/-- A word popped in a read. -/
theorem Progress.pop {data : MmcData} {bounce : Nat → Byte} {t : Transfer} {log : List Access} {status word : U32}
    (h : Progress data bounce t log) (hlt : t.transferred < data.size.toNat) (hdir : data.flags &&& MMC_DATA_READ ≠ 0)
    (hready : RxReady status) :
    Progress data bounce
      { t with
        status := status
        bounce := memcpy t.bounce t.transferred (wordBytes word (min 4 (data.size.toNat - t.transferred)))
        transferred := t.transferred + min 4 (data.size.toNat - t.transferred) }
      (log ++ [.read MCI_STATUS status, .read MCI_FIFO word]) := by
  obtain ⟨hpushed, hbytes⟩ := h.read hdir
  obtain ⟨count, hcount⟩ : ∃ count, min 4 (data.size.toNat - t.transferred) = count := ⟨_, rfl⟩
  have hk := h.transferred_eq
  rw [hpushed, List.length_nil, Nat.add_zero] at hk
  have htransferred : t.transferred = 4 * (popped log).length := by omega
  have hpopped' : popped (log ++ [.read MCI_STATUS status, .read MCI_FIFO word]) = popped log ++ [word] :=
    popped_append _ _
  have hpushed' : pushed (log ++ [.read MCI_STATUS status, .read MCI_FIFO word]) = [] := by
    rw [pushed_append, hpushed]
    rfl
  have hword : (wordBytes word count).length = count := length_wordBytes _ _
  rw [hcount]
  refine ⟨h.ready.append (ready_pair (fun _ => hready) fun hb => absurd rfl hb), ?_, ?_, ?_, ?_, ?_⟩
  · rw [hpopped', hpushed', List.length_append, List.length_singleton, List.length_nil]
    dsimp only
    omega
  · rw [hpopped', hpushed', List.length_append, List.length_singleton, List.length_nil]
    omega
  · intro i hi
    refine (memcpy_of_le _ ?_).trans (h.frame i hi)
    rw [hword]
    omega
  · intro _
    refine ⟨hpushed', ?_⟩
    -- the bytes so far stay, and the word is cut where the size is
    have hbefore : bytesAt (memcpy t.bounce t.transferred (wordBytes word count)) 0 t.transferred =
        bytesAt t.bounce 0 t.transferred := bytesAt_congr fun i _ hi => memcpy_of_lt _ _ (by omega)
    have hafter : bytesAt (memcpy t.bounce t.transferred (wordBytes word count)) (0 + t.transferred) count =
        wordBytes word count := by
      rw [Nat.zero_add]
      have hcopy := bytesAt_memcpy t.bounce t.transferred (wordBytes word count)
      rwa [hword] at hcopy
    have hlen : (wordsBytes (popped log)).length = t.transferred := by rw [length_wordsBytes, htransferred]
    have hsingle : wordsBytes [word] = wordBytes word 4 := List.append_nil _
    dsimp only
    rw [bytesAt_add, hbefore, hafter, hbytes, hpopped', wordsBytes_append, hsingle, List.take_append, hlen,
      List.take_of_length_le (by omega), List.take_of_length_le (by omega), Nat.add_sub_cancel_left,
      take_wordBytes word (by omega)]
  · intro hdir'
    exact absurd hdir' hdir

/-- A word pushed in a write. -/
theorem Progress.push {data : MmcData} {bounce : Nat → Byte} {t : Transfer} {log : List Access} {status : U32}
    (h : Progress data bounce t log) (hlt : t.transferred < data.size.toNat) (hdir : data.flags &&& MMC_DATA_READ = 0)
    (hready : TxReady status) :
    Progress data bounce
      { t with
        status := status
        transferred := t.transferred + min 4 (data.size.toNat - t.transferred) }
      (log ++ [.read MCI_STATUS status, .write MCI_FIFO (wordOfBytes
        (bytesAt t.bounce t.transferred (min 4 (data.size.toNat - t.transferred))))]) := by
  obtain ⟨hpopped, hbounce, hbytes⟩ := h.write hdir
  obtain ⟨count, hcount⟩ : ∃ count, min 4 (data.size.toNat - t.transferred) = count := ⟨_, rfl⟩
  rw [hcount]
  obtain ⟨word, hword⟩ : ∃ word, wordOfBytes (bytesAt t.bounce t.transferred count) = word := ⟨_, rfl⟩
  have hk := h.transferred_eq
  rw [hpopped, List.length_nil, Nat.zero_add] at hk
  have htransferred : t.transferred = 4 * (pushed log).length := by omega
  rw [hword]
  have hpushed' : pushed (log ++ [.read MCI_STATUS status, .write MCI_FIFO word]) = pushed log ++ [word] :=
    pushed_append _ _
  have hpopped' : popped (log ++ [.read MCI_STATUS status, .write MCI_FIFO word]) = [] := by
    rw [popped_append, hpopped]
    rfl
  refine ⟨h.ready.append (ready_pair (fun hb => absurd rfl hb) fun _ => hready), ?_, ?_, h.frame, ?_, ?_⟩
  · rw [hpopped', hpushed', List.length_append, List.length_singleton, List.length_nil]
    dsimp only
    omega
  · rw [hpopped', hpushed', List.length_append, List.length_singleton, List.length_nil]
    omega
  · intro hdir'
    exact absurd hdir hdir'
  · intro _
    refine ⟨hpopped', hbounce, ?_⟩
    have hsingle : wordsBytes [word] = bytesAt bounce t.transferred count ++ List.replicate (4 - count) 0 := by
      have hpad := @wordBytes_wordOfBytes (bytesAt t.bounce t.transferred count) (by rw [length_bytesAt]; omega)
      rw [hword, length_bytesAt, hbounce] at hpad
      exact (List.append_nil _).trans hpad
    -- only the last word is padded, so the words pushed so far are full
    have hfull : 4 * (pushed log).length - t.transferred = 0 := by omega
    have hrest : 4 * (pushed log ++ [word]).length - (t.transferred + count) = 4 - count := by
      rw [List.length_append, List.length_singleton]
      omega
    dsimp only
    rw [hpushed', wordsBytes_append, hbytes, hsingle, hfull, hrest, bytesAt_add, Nat.zero_add, List.replicate_zero,
      List.append_nil, List.append_assoc]

theorem quiet_status (status : U32) : Access.Quiet (.read MCI_STATUS status) := ⟨rfl, rfl⟩

theorem quiet_jiffies (now : U32) : Access.Quiet (.jiffies now) := ⟨rfl, rfl⟩

/-- One round keeps the invariant. -/
theorem sat_transferRound {data : MmcData} {deadline : U32} {bounce : Nat → Byte} {t : Transfer} {log : List Access}
    (h : Progress data bounce t log) :
    Sat (transferRound data deadline t) fun r l =>
      ∃ t', (r = .ok (.inl t') ∨ r = .ok (.inr t')) ∧ Progress data bounce t' (log ++ l) := by
  unfold transferRound
  by_cases hlt : t.transferred < data.size.toNat
  swap
  · rw [if_neg hlt]
    exact sat_pure ⟨t, .inr rfl, by rwa [List.append_nil]⟩
  rw [if_pos hlt]
  apply sat_jiffies_bind
  intro now
  have hnow : Progress data bounce t (log ++ [.jiffies now]) := by
    apply h.quiet ?_ rfl rfl
    intro a ha
    obtain rfl := List.mem_singleton.mp ha
    exact quiet_jiffies now
  by_cases hlate : timeAfter now deadline
  · rw [if_pos hlate]
    exact sat_pure ⟨t, .inr rfl, hnow⟩
  rw [if_neg hlate]
  apply (sat_transferWord data t).mono
  intro r l hl
  have hsplit : log ++ .jiffies now :: l = log ++ [.jiffies now] ++ l := by rw [List.append_assoc]; rfl
  rw [hsplit]
  have hstatus (status : U32) : ∀ a ∈ [Access.read MCI_STATUS status], a.Quiet := by
    intro a ha
    obtain rfl := List.mem_singleton.mp ha
    exact quiet_status status
  cases hl with
  | failed status => exact ⟨_, .inr rfl, hnow.quiet (hstatus status) rfl rfl⟩
  | waiting status => exact ⟨_, .inl rfl, hnow.quiet (hstatus status) rfl rfl⟩
  | pop status word hdir hready => exact ⟨_, .inl rfl, hnow.pop hlt hdir hready⟩
  | push status hdir hready => exact ⟨_, .inl rfl, hnow.push hlt hdir hready⟩

/-- The loop keeps the invariant, also where it has not ended. -/
theorem sat_transferLoop (n : Nat) (data : MmcData) (deadline : U32) (bounce : Nat → Byte) :
    Sat (loop (transferRound data deadline) Pending.polling n ⟨bounce, 0, 0, 0⟩) fun r l =>
      ∃ t, Progress data bounce t l ∧ ∀ t', r = .ok t' → t' = t := by
  refine sat_loop (I := Progress data bounce)
    (φ := fun r l => ∃ t, Progress data bounce t l ∧ ∀ t', r = .ok t' → t' = t) ?_ ?_ n (progress_start data bounce)
  · intro t log h
    apply (sat_transferRound h).mono
    rintro r l ⟨t', hr | hr, ht'⟩
    · rw [hr]
      refine ⟨?_, by simp, by simp⟩
      intro b hb
      cases hb
      exact ht'
    · rw [hr]
      refine ⟨by simp, ?_, by simp⟩
      intro b hb
      cases hb
      exact ⟨t', ht', fun t'' h'' => by cases h''; rfl⟩
  · intro t log h
    exact ⟨t, h, by simp⟩

/-! ### The end of a transfer -/

theorem quiet_transferWait (n : Nat) (data : MmcData) (t : Transfer) :
    Emits (transferWait n data t) Access.Quiet := by
  unfold transferWait
  split
  · exact emits_pure
  · split
    · exact emits_pure
    · exact emits_bind (emits_waitStatus quiet_status quiet_jiffies n _ _ _) fun _ => emits_pure

/-- The wait reports no error only after all bytes. -/
theorem sat_transferWait (n : Nat) (data : MmcData) (t : Transfer) :
    Sat (transferWait n data t) fun r _ => ∀ w, r = .ok w → w.1 = 0 → t.transferred = data.size.toNat := by
  unfold transferWait
  by_cases herr : t.error ≠ 0
  · rw [if_pos herr]
    apply sat_pure
    intro w h hw
    cases h
    exact absurd hw herr
  rw [if_neg herr]
  by_cases hsize : t.transferred ≠ data.size.toNat
  · rw [if_pos hsize]
    apply sat_pure
    intro w h hw
    cases h
    exact absurd (show -ETIMEDOUT = 0 from hw) (by decide)
  · exact ⟨fun _ _ _ _ => not_not.mp hsize⟩

theorem quiet_printFailure (error : Int) : Emits (printFailure error) Access.Quiet := by
  unfold printFailure
  split
  · apply emits_bind (emits_readl fun _ => ⟨rfl, rfl⟩)
    intro _
    apply emits_bind (emits_readl fun _ => ⟨rfl, rfl⟩)
    intro _
    apply emits_bind (emits_readl fun _ => ⟨rfl, rfl⟩)
    intro _
    exact emits_bind (emits_readl fun _ => ⟨rfl, rfl⟩) fun _ => emits_pure
  · exact emits_pure

/-- A result without an error: the scatterlist of a read holds the bytes of the bounce buffer. -/
theorem transferResult_ok {data : MmcData} {bounce : Nat → Byte} {error : Int}
    (h : (transferResult data bounce error).1 = 0) :
    error = 0 ∧ (data.flags &&& MMC_DATA_READ ≠ 0 → data.size.toNat ≤ data.sg.length ∧
      (transferResult data bounce error).2.sg =
        bytesAt bounce 0 data.size.toNat ++ data.sg.drop data.size.toNat) := by
  unfold transferResult at h ⊢
  by_cases herr : error ≠ 0
  · rw [if_pos herr] at h
    exact absurd h herr
  rw [if_neg herr] at h ⊢
  refine ⟨not_not.mp herr, ?_⟩
  intro hdir
  rw [if_pos hdir] at h ⊢
  by_cases hcopy : (sgCopyFromBuffer data.sg bounce data.size.toNat).2 ≠ data.size.toNat
  · dsimp only at h
    rw [if_pos hcopy] at h
    exact absurd (show -EFAULT = 0 from h) (by decide)
  dsimp only
  rw [if_neg hcopy]
  have hmin : min data.sg.length data.size.toNat = data.size.toNat := not_not.mp hcopy
  refine ⟨by omega, ?_⟩
  rw [sgCopyFromBuffer, hmin]

/-- The bytes that a transfer has to send: those of the scatterlist in a write. -/
def MmcData.outgoing (data : MmcData) (bounce : Nat → Byte) : Bytes :=
  if data.flags &&& MMC_DATA_WRITE ≠ 0 then data.sg.take data.size.toNat else bytesAt bounce 0 data.size.toNat

/-- What holds of a transfer, and of the part of one that has not returned: the FIFO is accessed in time and not
too often, the memory behind the data stays, and a transfer without an error moved all bytes. -/
structure Faithful (data : MmcData) (bounce : Nat → Byte) (source : Bytes)
    (r : Except Pending (Int × ShadowSdccHost × MmcData)) (log : List Access) : Prop where
  ready : Ready log
  count_le : (popped log).length + (pushed log).length ≤ (data.size.toNat + 3) / 4
  frame : ∀ t, r = .ok t → ∀ i, data.size.toNat ≤ i → t.2.1.bounce i = bounce i
  count_eq : ∀ t, r = .ok t → t.1 = 0 → (popped log).length + (pushed log).length = (data.size.toNat + 3) / 4
  read : ∀ t, r = .ok t → t.1 = 0 → data.flags &&& MMC_DATA_READ ≠ 0 →
    pushed log = [] ∧ data.size.toNat ≤ data.sg.length ∧
      t.2.2.sg = (wordsBytes (popped log)).take data.size.toNat ++ data.sg.drop data.size.toNat
  write : ∀ t, r = .ok t → t.1 = 0 → data.flags &&& MMC_DATA_READ = 0 →
    popped log = [] ∧ wordsBytes (pushed log) =
      source ++ List.replicate (4 * ((data.size.toNat + 3) / 4) - data.size.toNat) 0

/-- What comes after the loop does not touch the FIFO, and has no error only after a complete transfer. -/
structure Ended (data : MmcData) (t : Transfer) (r : Except Pending (Int × ShadowSdccHost × MmcData))
    (log : List Access) : Prop where
  quiet : ∀ a ∈ log, a.Quiet
  bounce : ∀ x, r = .ok x → x.2.1.bounce = t.bounce
  complete : ∀ x, r = .ok x → x.1 = 0 → t.transferred = data.size.toNat
  delivered : ∀ x, r = .ok x → x.1 = 0 → data.flags &&& MMC_DATA_READ ≠ 0 → data.size.toNat ≤ data.sg.length ∧
    x.2.2.sg = bytesAt t.bounce 0 data.size.toNat ++ data.sg.drop data.size.toNat

theorem Progress.faithful {data : MmcData} {bounce : Nat → Byte} {t : Transfer} {log log' : List Access}
    {r : Except Pending (Int × ShadowSdccHost × MmcData)} (h : Progress data bounce t log) (he : Ended data t r log') :
    Faithful data bounce (bytesAt bounce 0 data.size.toNat) r (log ++ log') := by
  have hend := h.quiet he.quiet rfl rfl
  refine ⟨hend.ready, hend.count_le, ?_, ?_, ?_, ?_⟩
  · intro x hx i hi
    rw [he.bounce x hx]
    exact h.frame i hi
  · intro x hx h0
    have hall := he.complete x hx h0
    have hk := hend.transferred_eq
    have hle := hend.count_le
    omega
  · intro x hx h0 hdir
    obtain ⟨hcovered, hsg⟩ := he.delivered x hx h0 hdir
    obtain ⟨hpushed, hbytes⟩ := hend.read hdir
    rw [he.complete x hx h0] at hbytes
    exact ⟨hpushed, hcovered, by rw [hsg, hbytes]⟩
  · intro x hx h0 hdir
    have hall := he.complete x hx h0
    obtain ⟨hpopped, -, hbytes⟩ := hend.write hdir
    have hk := hend.transferred_eq
    have hle := hend.count_le
    rw [hpopped, List.length_nil, Nat.zero_add] at hk hle
    have hcount : (pushed (log ++ log')).length = (data.size.toNat + 3) / 4 := by omega
    rw [hall, hcount] at hbytes
    exact ⟨hpopped, hbytes⟩

theorem sat_transferFrom (n : Nat) (data : MmcData) (deadline : U32) (bounce : Nat → Byte) :
    Sat (transferFrom n data deadline bounce) (Faithful data bounce (bytesAt bounce 0 data.size.toNat)) := by
  apply sat_bind (sat_transferLoop n data deadline bounce)
  · rintro e l ⟨t, ht, -⟩
    exact ⟨ht.ready, ht.count_le, by simp, by simp, by simp, by simp⟩
  rintro t l ⟨t', ht, heq⟩
  obtain rfl := heq t rfl
  -- after the loop nothing touches the FIFO, and only a complete transfer ends without an error
  refine Sat.mono (φ := Ended data t) ?_ fun r l' he => ht.faithful he
  apply sat_bind ((quiet_transferWait n data t).and (sat_transferWait n data t))
  · rintro e l₁ ⟨hl₁, -⟩
    exact ⟨hl₁, by simp, by simp, by simp⟩
  rintro w l₁ ⟨hl₁, hw⟩
  apply sat_bind (quiet_printFailure _)
  · intro e l₂ hl₂
    exact ⟨List.forall_mem_append.mpr ⟨hl₁, hl₂⟩, by simp, by simp, by simp⟩
  intro _ l₂ hl₂
  apply sat_writel_bind
  apply sat_writel_bind
  apply sat_pure
  refine ⟨?_, ?_, ?_, ?_⟩
  · refine List.forall_mem_append.mpr ⟨hl₁, List.forall_mem_append.mpr ⟨hl₂, ?_⟩⟩
    intro a ha
    rcases List.mem_pair.mp ha with rfl | rfl
    · exact ⟨rfl, rfl⟩
    · exact ⟨rfl, rfl⟩
  · intro x hx
    cases hx
    rfl
  · intro x hx h0
    cases hx
    exact hw w rfl (transferResult_ok h0).1
  · intro x hx h0
    cases hx
    exact (transferResult_ok h0).2

theorem sat_transferData (n : Nat) (host : ShadowSdccHost) (data : MmcData) :
    Sat (shadowSdccTransferData n host data) (Faithful data host.bounce (data.outgoing host.bounce)) := by
  apply sat_jiffies_bind
  intro now
  have hnow : ∀ a ∈ [Access.jiffies now], a.Quiet := by
    intro a ha
    obtain rfl := List.mem_singleton.mp ha
    exact quiet_jiffies now
  have hcons (bounce source : _) (r : _) (l : List Access) (h : Faithful data bounce source r l) :
      Faithful data bounce source r (.jiffies now :: l) :=
    ⟨(ready_of_quiet hnow).append h.ready, h.count_le, h.frame, h.count_eq, h.read, h.write⟩
  unfold MmcData.outgoing
  by_cases hwrite : data.flags &&& MMC_DATA_WRITE ≠ 0
  swap
  · dsimp only
    rw [if_neg hwrite, if_neg hwrite]
    exact (sat_transferFrom n data _ host.bounce).mono fun r l h => hcons _ _ r l h
  -- the scatterlist is copied to the start of the buffer, as far as it covers the data
  obtain ⟨copy, hcopy⟩ : ∃ copy, memcpy host.bounce 0 (data.sg.take data.size.toNat) = copy := ⟨_, rfl⟩
  have hframe : ∀ i, data.size.toNat ≤ i → copy i = host.bounce i := by
    intro i hi
    rw [← hcopy]
    refine memcpy_of_le _ ?_
    rw [List.length_take]
    omega
  dsimp only [sgCopyToBuffer]
  rw [if_pos hwrite, if_pos hwrite, hcopy]
  by_cases hshort : min data.sg.length data.size.toNat ≠ data.size.toNat
  · rw [if_pos hshort]
    apply sat_pure
    have herr : ∀ t : Int × ShadowSdccHost × MmcData,
        Except.ok (-EFAULT, ⟨copy⟩, data) = (.ok t : Except Pending _) → t.1 ≠ 0 := by
      intro t ht
      cases ht
      exact show -EFAULT ≠ 0 by decide
    refine ⟨ready_of_quiet hnow, Nat.zero_le _, ?_, ?_, ?_, ?_⟩
    · intro t ht
      cases ht
      exact hframe
    · exact fun t ht h0 => absurd h0 (herr t ht)
    · exact fun t ht h0 => absurd h0 (herr t ht)
    · exact fun t ht h0 => absurd h0 (herr t ht)
  rw [if_neg hshort]
  have hsource : bytesAt copy 0 data.size.toNat = data.sg.take data.size.toNat := by
    have hlen : (data.sg.take data.size.toNat).length = data.size.toNat := by
      rw [List.length_take]
      omega
    have hbytes := bytesAt_memcpy host.bounce 0 (data.sg.take data.size.toNat)
    rwa [hlen, hcopy] at hbytes
  apply (sat_transferFrom n data _ copy).mono
  intro r l h
  rw [hsource] at h
  refine hcons _ _ r l ⟨h.ready, h.count_le, ?_, h.count_eq, h.read, h.write⟩
  intro t ht i hi
  rw [h.frame t ht i hi, hframe i hi]

/-! ### The memory behind the data -/

/-- Memories with the same `size` bytes at the start. -/
def SameData (size : Nat) (memory memory' : Nat → Byte) : Prop := ∀ i, i < size → memory i = memory' i

theorem SameData.memcpy {size : Nat} {memory memory' : Nat → Byte} (h : SameData size memory memory') (offset : Nat)
    (bs : Bytes) : SameData size (memcpy memory offset bs) (memcpy memory' offset bs) := by
  intro i hi
  unfold Linux.memcpy
  rw [h i hi]

theorem SameData.bytesAt_eq {size : Nat} {memory memory' : Nat → Byte} (h : SameData size memory memory')
    {offset count : Nat} (hle : offset + count ≤ size) : bytesAt memory offset count = bytesAt memory' offset count :=
  bytesAt_congr fun i _ hi => h i (by omega)

/-- The same transfer, but for the memory behind the data. -/
def SameTransfer (size : Nat) (t t' : Transfer) : Prop :=
  t' = { t with bounce := t'.bounce } ∧ SameData size t.bounce t'.bounce

theorem alike_transferWord {data : MmcData} {t t' : Transfer} (h : SameTransfer data.size.toNat t t')
    (hlt : t.transferred < data.size.toNat) :
    Alike (Sum.LiftRel (SameTransfer data.size.toNat) (SameTransfer data.size.toNat)) (transferWord data t)
      (transferWord data t') := by
  obtain ⟨heq, hsame⟩ := h
  obtain ⟨bounce, hbounce⟩ : ∃ bounce, t'.bounce = bounce := ⟨_, rfl⟩
  rw [hbounce] at heq hsame
  subst heq
  have hbytes : bytesAt t.bounce t.transferred (min 4 (data.size.toNat - t.transferred)) =
      bytesAt bounce t.transferred (min 4 (data.size.toNat - t.transferred)) := hsame.bytesAt_eq (by omega)
  apply alike_bind_same
  intro status
  dsimp only
  rw [hbytes]
  split
  · exact alike_pure (.inr ⟨rfl, hsame⟩)
  split
  · split
    · exact alike_pure (.inl ⟨rfl, hsame⟩)
    · apply alike_bind_same
      intro word
      exact alike_pure (.inl ⟨rfl, hsame.memcpy _ _⟩)
  split
  · exact alike_pure (.inl ⟨rfl, hsame⟩)
  split
  · exact alike_pure (.inl ⟨rfl, hsame⟩)
  · apply alike_bind_same
    intro _
    exact alike_pure (.inl ⟨rfl, hsame⟩)

theorem alike_transferRound {data : MmcData} {deadline : U32} {t t' : Transfer}
    (h : SameTransfer data.size.toNat t t') :
    Alike (Sum.LiftRel (SameTransfer data.size.toNat) (SameTransfer data.size.toNat)) (transferRound data deadline t)
      (transferRound data deadline t') := by
  have htransferred : t'.transferred = t.transferred := by rw [h.1]
  unfold transferRound
  rw [htransferred]
  by_cases hlt : t.transferred < data.size.toNat
  · rw [if_pos hlt, if_pos hlt]
    apply alike_bind_same
    intro now
    split
    · exact alike_pure (.inr h)
    · exact alike_transferWord h hlt
  · rw [if_neg hlt, if_neg hlt]
    exact alike_pure (.inr h)

/-- Two results of a transfer that differ at most in the memory behind the data. -/
def SameResult (size : Nat) (t t' : Int × ShadowSdccHost × MmcData) : Prop :=
  t.1 = t'.1 ∧ t.2.2 = t'.2.2 ∧ SameData size t.2.1.bounce t'.2.1.bounce

theorem alike_transferFrom (n : Nat) (data : MmcData) (deadline : U32) {bounce bounce' : Nat → Byte}
    (h : SameData data.size.toNat bounce bounce') :
    Alike (SameResult data.size.toNat) (transferFrom n data deadline bounce)
      (transferFrom n data deadline bounce') := by
  apply alike_bind (alike_loop (fun _ _ ht => alike_transferRound ht) n (show SameTransfer _ _ _ from ⟨rfl, h⟩))
  rintro t t' ⟨heq, hsame⟩
  have hwait : transferWait n data t' = transferWait n data t := by rw [heq]; rfl
  -- the result is copied from the first `size` bytes of the buffer only
  have hresult (error : Int) : transferResult data t'.bounce error = transferResult data t.bounce error := by
    unfold transferResult sgCopyFromBuffer
    rw [hsame.bytesAt_eq (by omega)]
  rw [hwait]
  apply alike_bind_same
  intro w
  dsimp only
  rw [hresult]
  apply alike_bind_same
  intro _
  apply alike_bind_same
  intro _
  apply alike_bind_same
  intro _
  exact alike_pure ⟨rfl, rfl, hsame⟩

/-- A byte of the bounce buffer behind the data has no influence on a transfer. -/
theorem alike_transferData (n : Nat) {host host' : ShadowSdccHost} (data : MmcData)
    (h : SameData data.size.toNat host.bounce host'.bounce) :
    Alike (SameResult data.size.toNat) (shadowSdccTransferData n host data)
      (shadowSdccTransferData n host' data) := by
  apply alike_bind_same
  intro now
  dsimp only [sgCopyToBuffer]
  split
  · have hcopy := h.memcpy 0 (data.sg.take data.size.toNat)
    split
    · exact alike_pure ⟨rfl, rfl, hcopy⟩
    · exact alike_transferFrom n data _ hcopy
  · exact alike_transferFrom n data _ h

/-- Whatever the status, the FIFO and `jiffies` give, a transfer is faithful, and only the bytes of the data in
the bounce buffer take part in it. -/
theorem transferData_faithful (n : Nat) (host : ShadowSdccHost) (data : MmcData) :
    (∀ s, Faithful data host.bounce (data.outgoing host.bounce) (shadowSdccTransferData n host data s).1
        (shadowSdccTransferData n host data s).2.2) ∧
      ∀ host' : ShadowSdccHost, SameData data.size.toNat host.bounce host'.bounce →
        Alike (SameResult data.size.toNat) (shadowSdccTransferData n host data)
          (shadowSdccTransferData n host' data) :=
  ⟨(sat_transferData n host data).run, fun _ h => alike_transferData n data h⟩

/-- A read of two bytes out of one word. -/
example : (shadowSdccTransferData 2 ⟨fun _ => 0⟩ ⟨2, 1, MMC_DATA_READ, [0, 0, 7], 0, 0⟩ fun k =>
    if k = 2 then MCI_STAT_RX_DATA_AVAIL
    else if k = 3 then 0x44332211
    else if k = 5 then MCI_STAT_DATA_END
    else 0).1.toOption.map (fun t => (t.1, t.2.2.sg)) = some (0, [0x11, 0x22, 7]) := by decide

end ShadowMsm.Linux
