import Mathlib.Data.Int.ConditionallyCompleteOrder
import Mathlib.Data.List.Sort
import Mathlib.Data.Prod.Lex
import Mathlib.Data.String.Basic
import Mathlib.Order.ConditionallyCompleteLattice.Basic
import ShadowMsm.Host.Pbl
import ShadowMsm.Lib.Spans
import ShadowMsm.Requests

/-!
# The bundle loader

`k3765_ram_bundle_load.py`: the monitor and any number of images are checked against the RAM windows and against each
other, then uploaded one after the other.  A path is a value of an ordered type with a text, as the tuples that the
loader sorts end in one.
-/

namespace ShadowMsm.Host

/-! ### The scripts -/

/-- One entry of a bundle. -/
structure Image (P : Type) where
  address : Int
  path : P
  data : Bytes

/-- `range_is_allowed` -/
def rangeIsAllowed (address : Int) (length : Nat) : Bool :=
  (DIRECT_IMAGE_START ≤ address && address + length ≤ DIRECT_IMAGE_END) ||
    (SAFE_RAM_START ≤ address && address + length ≤ SAFE_RAM_END)

variable {P : Type} {images : List (Image P)}

/-- The window check of every image. -/
def checkWindows (outside : Image P → Exn) : List (Image P) → Except Exn Unit
  | [] => .ok ()
  | i :: images =>
    if rangeIsAllowed i.address i.data.length then checkWindows outside images else .error (outside i)

/-- The message of the bundle loader for an image outside the windows. -/
def outsideWindows [ToString P] (i : Image P) : Exn :=
  .systemExit (toString i.path ++ " is outside the direct-Image window 0x" ++ format08X DIRECT_IMAGE_START.toNat ++
    "..0x" ++ format08X (DIRECT_IMAGE_END - 1).toNat ++ " and stage-2 window 0x" ++
    format08X SAFE_RAM_START.toNat ++ "..0x" ++ format08X (SAFE_RAM_END - 1).toNat)

/-- The loop of uploads. -/
def uploadAll : List (Image P) → Script Unit
  | [] => pure ()
  | i :: images => do
    pblUpload i.address i.data
    uploadAll images

/-! ### Images and windows -/

def Image.cells (i : Image P) : List (Int × Byte) := Host.cells i.address i.data

/-- The addresses of an image. -/
def Image.span (i : Image P) : Span Int := ⟨i.address, i.address + i.data.length, by omega⟩

/-- The two windows for images. -/
def windows : Set Int := Set.Ico DIRECT_IMAGE_START DIRECT_IMAGE_END ∪ Set.Ico SAFE_RAM_START SAFE_RAM_END

theorem mem_map_fst_imageCells {i : Image P} {x : Int} : x ∈ i.cells.map Prod.fst ↔ x ∈ i.span.toSet :=
  mem_map_fst_cells

theorem checkWindows_eq_ok (outside : Image P → Exn) :
    checkWindows outside images = .ok () ↔ ∀ i ∈ images, rangeIsAllowed i.address i.data.length = true := by
  induction images with
  | nil => simp [checkWindows]
  | cons i images ih =>
    rw [checkWindows, List.forall_mem_cons]
    split_ifs with h
    · simp [h, ih]
    · simp [h]

theorem rangeIsAllowed_iff {address : Int} {length : Nat} : rangeIsAllowed address length = true ↔
    (0x00208000 ≤ address ∧ address + length ≤ 0x00780000) ∨
      (0x01000000 ≤ address ∧ address + length ≤ 0x02000000) := by
  simp only [rangeIsAllowed, Bool.or_eq_true, Bool.and_eq_true, decide_eq_true_eq]
  rfl

theorem subset_windows_of_rangeIsAllowed {i : Image P} (h : rangeIsAllowed i.address i.data.length = true) :
    i.span.toSet ⊆ windows := by
  rintro x ⟨h1, h2⟩
  change i.address ≤ x at h1
  change x < i.address + i.data.length at h2
  rcases rangeIsAllowed_iff.mp h with h | h
  · exact .inl ⟨h.1.trans h1, by unfold DIRECT_IMAGE_END; omega⟩
  · exact .inr ⟨h.1.trans h1, by unfold SAFE_RAM_END; omega⟩

/-- A range with some bytes inside the windows is inside one of them: it cannot reach over the gap. -/
theorem rangeIsAllowed_of_subset_windows {i : Image P} (hne : i.data ≠ []) (h : i.span.toSet ⊆ windows) :
    rangeIsAllowed i.address i.data.length = true := by
  have hpos := List.length_pos_iff.mpr hne
  have hmem : ∀ x, i.address ≤ x → x < i.address + i.data.length →
      (0x00208000 ≤ x ∧ x < 0x00780000) ∨ (0x01000000 ≤ x ∧ x < 0x02000000) := fun x h1 h2 => h ⟨h1, h2⟩
  have hfirst := hmem i.address (by omega) (by omega)
  have hlast := hmem (i.address + i.data.length - 1) (by omega) (by omega)
  have hgap : ¬ (i.address ≤ 0x00780000 ∧ 0x00780000 < i.address + i.data.length) := by
    intro hin
    have := hmem 0x00780000 hin.1 hin.2
    omega
  rw [rangeIsAllowed_iff]
  omega

/-- Images in the windows are apart from the monitor. -/
theorem apart_monitor {i : Image P} {monitorPath : P} {monitor : Bytes} (hlength : monitor.length = 105928)
    (h : rangeIsAllowed i.address i.data.length = true) :
    (⟨MONITOR_BASE, monitorPath, monitor⟩ : Image P).span.Apart i.span := by
  have h := rangeIsAllowed_iff.mp h
  simp only [Span.Apart, Span.Before, Image.span, hlength, MONITOR_BASE]
  omega

/-! ### The overlap check -/

/-- The loop over neighbours in the sorted list. -/
def checkOverlap [ToString P] (exn : String → Exn) : List (Int ×ₗ Int ×ₗ P) → Except Exn Unit
  | previous :: current :: rest =>
    if (ofLex current).1 < (ofLex (ofLex previous).2).1 then
      .error (exn ("RAM images overlap: " ++ toString (ofLex (ofLex previous).2).2 ++ " and " ++
        toString (ofLex (ofLex current).2).2))
    else checkOverlap exn (current :: rest)
  | _ => .ok ()

theorem checkOverlap_eq_ok [ToString P] {exn : String → Exn} {l : List (Int ×ₗ Int ×ₗ P)} :
    checkOverlap exn l = .ok () ↔ l.IsChain fun a b => (ofLex (ofLex a).2).1 ≤ (ofLex b).1 := by
  induction l with
  | nil => simp [checkOverlap]
  | cons a l ih =>
    cases l with
    | nil => simp [checkOverlap]
    | cons b l =>
      rw [checkOverlap, List.isChain_cons_cons, ← ih]
      split_ifs with h
      · simp [h]
      · simp [not_lt.mp h]

/-- What is compared when two entries are sorted: `(address, address + len(data), path)`. -/
def Image.key (i : Image P) : Int ×ₗ Int ×ₗ P := toLex (i.address, toLex (i.address + (i.data.length : Int), i.path))

variable [LinearOrder P] {bundle : List (Image P)}

/-- `sorted((address, address + len(data), path) for address, path, data in bundle)` -/
def occupied (bundle : List (Image P)) : List (Int ×ₗ Int ×ₗ P) := (bundle.map Image.key).insertionSort (· ≤ ·)

/-- The bundle in the order of `occupied`. -/
def sortedBundle (bundle : List (Image P)) : List (Image P) := bundle.insertionSort fun i j => i.key ≤ j.key

theorem occupied_eq (bundle : List (Image P)) : occupied bundle = (sortedBundle bundle).map Image.key :=
  (List.map_insertionSort _ _ Image.key bundle fun _ _ _ _ => Iff.rfl).symm

variable [ToString P]

theorem checkOverlap_occupied {exn : String → Exn} :
    checkOverlap exn (occupied bundle) = .ok () ↔ ((sortedBundle bundle).map Image.span).IsChain Span.Before := by
  rw [checkOverlap_eq_ok, occupied_eq, List.isChain_map, List.isChain_map]
  rfl

/-- The overlap check of neighbours in the sorted list is a check of all pairs. -/
theorem pairwise_apart_of_checkOverlap {exn : String → Exn} (h : checkOverlap exn (occupied bundle) = .ok ()) :
    bundle.Pairwise fun i j => i.span.Apart j.span := by
  have hsorted := List.pairwise_map.mp (Span.pairwise_apart_of_isChain (checkOverlap_occupied.mp h))
  exact (List.perm_insertionSort _ bundle).pairwise hsorted fun h => h.symm

/-- Images with some bytes that are pairwise apart pass the check. -/
theorem checkOverlap_of_pairwise_apart {exn : String → Exn} (hne : ∀ i ∈ bundle, i.data ≠ [])
    (h : bundle.Pairwise fun i j => i.span.Apart j.span) : checkOverlap exn (occupied bundle) = .ok () := by
  have hperm : (sortedBundle bundle).Perm bundle := List.perm_insertionSort _ bundle
  rw [checkOverlap_occupied]
  apply Span.isChain_of_pairwise_apart
  · intro s hs
    obtain ⟨i, hi, rfl⟩ := List.mem_map.mp hs
    have := List.length_pos_iff.mpr (hne i (hperm.mem_iff.mp hi))
    change i.address < i.address + i.data.length
    omega
  · refine List.pairwise_map.mpr ((List.pairwise_insertionSort _ bundle).imp ?_)
    intro i j hij
    rcases Prod.Lex.le_iff.mp hij with hlt | ⟨heq, -⟩
    · exact hlt.le
    · exact heq.le
  · exact List.pairwise_map.mpr (hperm.symm.pairwise h fun h => h.symm)

/-! ### The loader -/

/-- The checks of `main`, which come before the port is opened. -/
def checkBundle (monitorPath : P) (monitor : Bytes) (images : List (Image P)) : Except Exn (List (Image P)) := do
  if monitor.length ≠ 105928 then
    throw (.systemExit ("monitor must remain stock-sized (105,928); got " ++ formatThousands monitor.length))
  let bundle := ⟨MONITOR_BASE, monitorPath, monitor⟩ :: images
  checkWindows outsideWindows images
  checkOverlap .systemExit (occupied bundle)
  return bundle

/-- `main` of the bundle loader, after it has read the files. -/
def ramBundleLoad (monitorPath : P) (monitor : Bytes) (images : List (Image P)) : Script Unit := do
  let bundle ← Traced.ofExcept (checkBundle monitorPath monitor images)
  -- the log
  perform .system
  perform .openPort
  perform .resetInput
  perform .resetOutput
  uploadAll bundle
  let _ ← pblExecute MONITOR_BASE
  perform .system

variable {monitorPath : P} {monitor : Bytes}

theorem checkBundle_eq_ok : checkBundle monitorPath monitor images = .ok bundle ↔
    (monitor.length = 105928 ∧ (∀ i ∈ images, rangeIsAllowed i.address i.data.length = true) ∧
      checkOverlap .systemExit (occupied (⟨MONITOR_BASE, monitorPath, monitor⟩ :: images)) = .ok ()) ∧
    bundle = ⟨MONITOR_BASE, monitorPath, monitor⟩ :: images := by
  rw [← checkWindows_eq_ok outsideWindows]
  unfold checkBundle
  by_cases hlength : monitor.length = 105928
  · rcases hwindows : checkWindows outsideWindows images with e | ⟨⟨⟩⟩
    · simp [hlength, bind, Except.bind]
    · rcases hoverlap : checkOverlap Exn.systemExit (occupied (⟨MONITOR_BASE, monitorPath, monitor⟩ :: images))
        with e | ⟨⟨⟩⟩
      · simp [hlength, hoverlap, bind, Except.bind]
      · simp [hlength, hoverlap, bind, Except.bind, pure, Except.pure, eq_comm]
  · simp [hlength, bind, Except.bind, throw, throwThe, MonadExceptOf.throw]

/-! ### What is written -/

/-- `uploadAll` transfers the packets of its images. -/
theorem sat_uploadAll {P : Type} (bundle : List (Image P)) :
    Traced.Sat (uploadAll bundle) (Transfer (bundle.flatMap fun i => packets i.address i.data)) := by
  induction bundle with
  | nil => exact Traced.sat_pure .nil
  | cons i bundle ih => exact sat_transfer_bind (sat_pblUpload i.address i.data) ih

theorem flatMap_cells_bundle {P : Type} (bundle : List (Image P)) :
    (bundle.flatMap fun i => packets i.address i.data).flatMap Packet.cells = bundle.flatMap Image.cells := by
  rw [List.flatMap_assoc]
  exact List.flatMap_congr fun i _ => flatMap_cells_packets i.address i.data

/-- Packets with the number of times each is sent. -/
def framesOf (sent : List (Packet × Nat)) : List Bytes := sent.flatMap fun s => List.replicate s.2 s.1.frame

/-- Every packet fits its fields and is sent once, twice or three times. -/
def WellSent (sent : List (Packet × Nat)) : Prop := ∀ s ∈ sent, s.1.Fits ∧ 1 ≤ s.2 ∧ s.2 ≤ 3

theorem writes_delivered {ps : List Packet} {l : List Event} (h : Delivered ps l) :
    ∃ sent, sent.map Prod.fst = ps ∧ WellSent sent ∧ writes l = framesOf sent := by
  induction h with
  | nil => exact ⟨[], rfl, by simp [WellSent], rfl⟩
  | @cons p ps l l' hfits hack hrest ih =>
    obtain ⟨sent, rfl, hsent, hwrites⟩ := ih
    obtain ⟨retries, polls, response, rfl, ⟨k, hk, hretries⟩, -, -⟩ := hack
    refine ⟨(p, k + 1) :: sent, rfl, ?_, ?_⟩
    · rintro s hs
      rcases List.mem_cons.mp hs with rfl | hs
      · exact ⟨hfits, by omega, by omega⟩
      · exact hsent s hs
    · simp [writes, hretries, hwrites, framesOf, List.replicate_succ']

/-- The writes of a transfer: packets from the front of the list, all of them when it ends well. -/
theorem writes_transfer {ps : List Packet} {r : Except Exn Unit} {l : List Event} (h : Transfer ps r l) :
    ∃ sent, WellSent sent ∧ writes l = framesOf sent ∧ sent.map Prod.fst <+: ps ∧
      (r = .ok () → sent.map Prod.fst = ps) := by
  cases r with
  | ok _ =>
    obtain ⟨sent, hps, hsent, hwrites⟩ := writes_delivered h
    exact ⟨sent, hsent, hwrites, hps ▸ List.prefix_rfl, fun _ => hps⟩
  | error e =>
    obtain ⟨done, p, rest, l₁, l₂, rfl, rfl, hdone, hlast⟩ := h
    obtain ⟨sent, rfl, hsent, hwrites⟩ := writes_delivered hdone
    have hnone : writes l₂ = [] → ∃ sent', WellSent sent' ∧ writes (l₁ ++ l₂) = framesOf sent' ∧
        sent'.map Prod.fst <+: sent.map Prod.fst ++ p :: rest ∧
        (Except.error e = .ok () → sent'.map Prod.fst = sent.map Prod.fst ++ p :: rest) :=
      fun h => ⟨sent, hsent, by simp [hwrites, h], List.prefix_append _ _, by simp⟩
    rcases hlast with hlast | ⟨hfits, k, hk, hlast⟩
    · exact hnone hlast
    · cases k with
      | zero => exact hnone hlast
      | succ k =>
        refine ⟨sent ++ [(p, k + 1)], ?_, ?_, ⟨rest, by simp⟩, by simp⟩
        · intro s hs
          rcases List.mem_append.mp hs with hs | hs
          · exact hsent s hs
          · obtain rfl := List.mem_singleton.mp hs
            exact ⟨hfits, by omega, hk⟩
        · simp [hwrites, hlast, framesOf]

/-- The writes of a bundle load: packets that carry the bytes of the bundle in order, and then, when all of them have
been carried, the command to execute the monitor. -/
def BundleWrites {P : Type} (bundle : List (Image P)) (r : Except Exn Unit) (ws : List Bytes) : Prop :=
  ∃ sent go, WellSent sent ∧ ws = framesOf sent ++ go ∧ (go = [] ∨ go = [executeFrame MONITOR_BASE]) ∧
    (sent.map Prod.fst).flatMap Packet.cells <+: bundle.flatMap Image.cells ∧
    (go ≠ [] ∨ r = .ok () → (sent.map Prod.fst).flatMap Packet.cells = bundle.flatMap Image.cells)

/-- Uploads, and then the command to execute the monitor. -/
theorem sat_uploadExecute {P : Type} (bundle : List (Image P)) :
    Traced.Sat (do uploadAll bundle; let _ ← pblExecute MONITOR_BASE; perform .system) fun r l =>
      BundleWrites bundle r (writes l) := by
  refine Traced.sat_bind (sat_uploadAll bundle) ?_ ?_
  · intro e l hl
    obtain ⟨sent, hsent, hwrites, ⟨rest, hrest⟩, -⟩ := writes_transfer hl
    refine ⟨sent, [], hsent, by simp [hwrites], .inl rfl, ?_, by simp⟩
    rw [← flatMap_cells_bundle, ← hrest, List.flatMap_append]
    exact List.prefix_append _ _
  · intro _ l hl
    obtain ⟨sent, hsent, hwrites, -, hall⟩ := writes_transfer hl
    have hcells : (sent.map Prod.fst).flatMap Packet.cells = bundle.flatMap Image.cells := by
      rw [hall rfl, flatMap_cells_bundle]
    have hgo : ∀ r ws, ws = [] ∨ ws = [executeFrame MONITOR_BASE] → BundleWrites bundle r (writes l ++ ws) :=
      fun r ws hws => ⟨sent, ws, hsent, by rw [hwrites], hws, hcells ▸ List.prefix_rfl, fun _ => hcells⟩
    refine Traced.sat_bind (sat_pblExecute (by decide)) ?_ ?_
    · intro e l' hl'
      rw [writes_append]
      exact hgo _ _ hl'
    · rintro _ l' ⟨polls, rfl⟩
      apply sat_perform
      intro r
      rw [writes_append]
      exact hgo r _ (.inr (by simp [writes]))

theorem bundleWrites_nil {P : Type} (bundle : List (Image P)) (e : Exn) : BundleWrites bundle (.error e) [] :=
  ⟨[], [], by simp [WellSent], rfl, .inl rfl, by simp, by simp⟩

theorem sat_silent_perform {t : Event} (ht : writes [t] = []) : Traced.Sat (perform t) fun _ l => writes l = [] :=
  sat_perform fun _ => ht

theorem sat_ramBundleLoad (h : checkBundle monitorPath monitor images = .ok bundle) :
    Traced.Sat (ramBundleLoad monitorPath monitor images) fun r l => BundleWrites bundle r (writes l) := by
  have hstart := bundleWrites_nil bundle
  unfold ramBundleLoad
  rw [h]
  refine Traced.sat_bind (φ := fun r l => r = .ok bundle ∧ l = []) (Traced.sat_ofExcept ⟨rfl, rfl⟩) ?_ ?_
  · rintro e l ⟨hr, -⟩
    cases hr
  rintro accepted l ⟨hr, rfl⟩
  obtain rfl := Except.ok.inj hr
  refine sat_silent_bind (sat_silent_perform rfl) hstart fun _ => ?_
  refine sat_silent_bind (sat_silent_perform rfl) hstart fun _ => ?_
  refine sat_silent_bind (sat_silent_perform rfl) hstart fun _ => ?_
  refine sat_silent_bind (sat_silent_perform rfl) hstart fun _ => ?_
  exact sat_uploadExecute accepted

/-! ### Accepted bundles -/

/-- The guard below the monitor. -/
def guard : Set Int := Set.Ico DIRECT_IMAGE_END MONITOR_BASE

/-- The RAM of the monitor. -/
def monitorRam : Set Int := Set.Ico MONITOR_BASE (MONITOR_BASE + 105928)

/-- What the checks of a bundle promise: no address belongs to two entries, and all of them are in the windows or the
monitor's. -/
structure ExactBundle (bundle : List (Image P)) : Prop where
  inWindows : ∀ i ∈ bundle.tail, i.span.toSet ⊆ windows
  disjoint : bundle.Pairwise fun i j => Disjoint i.span.toSet j.span.toSet
  addresses_nodup : ((bundle.flatMap Image.cells).map Prod.fst).Nodup
  confined : ∀ c ∈ bundle.flatMap Image.cells, c.1 ∈ windows ∪ monitorRam ∧ c.1 ∉ guard

theorem exactBundle_of_checks {exn : String → Exn} (hlength : monitor.length = 105928)
    (hwindows : ∀ i ∈ images, rangeIsAllowed i.address i.data.length = true)
    (hoverlap : checkOverlap exn (occupied (⟨MONITOR_BASE, monitorPath, monitor⟩ :: images)) = .ok ()) :
    ExactBundle (⟨MONITOR_BASE, monitorPath, monitor⟩ :: images) := by
  have hin : ∀ i ∈ images, i.span.toSet ⊆ windows := fun i hi => subset_windows_of_rangeIsAllowed (hwindows i hi)
  have hapart := (pairwise_apart_of_checkOverlap hoverlap).imp Span.Apart.disjoint
  refine ⟨hin, hapart, ?_, ?_⟩
  · rw [List.map_flatMap, List.nodup_flatMap]
    refine ⟨fun i _ => nodup_map_fst_cells i.address i.data, hapart.imp ?_⟩
    intro i j hij
    refine List.disjoint_left.mpr ?_
    intro x hi hj
    exact Set.disjoint_left.mp hij (mem_map_fst_imageCells.mp hi) (mem_map_fst_imageCells.mp hj)
  · rintro c hc
    obtain ⟨i, hi, hc⟩ := List.mem_flatMap.mp hc
    have hspan : c.1 ∈ i.span.toSet := mem_map_fst_imageCells.mp (List.mem_map_of_mem hc)
    have hwhere : c.1 ∈ windows ∪ monitorRam := by
      rcases List.mem_cons.mp hi with rfl | hi
      · have hlt : c.1 < MONITOR_BASE + monitor.length := hspan.2
        rw [hlength] at hlt
        exact .inr ⟨hspan.1, hlt⟩
      · exact .inl (hin i hi hspan)
    refine ⟨hwhere, ?_⟩
    rintro ⟨hg1, hg2⟩
    simp only [windows, monitorRam, Set.mem_union, Set.mem_Ico, DIRECT_IMAGE_START, DIRECT_IMAGE_END, SAFE_RAM_START,
      SAFE_RAM_END, MONITOR_BASE] at hwhere hg1 hg2
    omega

theorem checks_of_disjoint {exn : String → Exn} (hlength : monitor.length = 105928)
    (himages : ∀ i ∈ images, i.data ≠ [] ∧ i.span.toSet ⊆ windows)
    (hdisjoint : images.Pairwise fun i j => Disjoint i.span.toSet j.span.toSet) :
    (∀ i ∈ images, rangeIsAllowed i.address i.data.length = true) ∧
      checkOverlap exn (occupied (⟨MONITOR_BASE, monitorPath, monitor⟩ :: images)) = .ok () := by
  have hwindows : ∀ i ∈ images, rangeIsAllowed i.address i.data.length = true :=
    fun i hi => rangeIsAllowed_of_subset_windows (himages i hi).1 (himages i hi).2
  have hlt : ∀ i ∈ images, i.span.lo < i.span.hi := by
    intro i hi
    have := List.length_pos_iff.mpr (himages i hi).1
    change i.address < i.address + i.data.length
    omega
  refine ⟨hwindows, ?_⟩
  apply checkOverlap_of_pairwise_apart
  · intro i hi
    rcases List.mem_cons.mp hi with rfl | hi
    · exact List.length_pos_iff.mp (by rw [hlength]; decide)
    · exact (himages i hi).1
  · refine List.pairwise_cons.mpr ⟨fun i hi => apart_monitor hlength (hwindows i hi), ?_⟩
    exact hdisjoint.imp_of_mem fun hi hj h => Span.apart_of_disjoint (hlt _ hi) (hlt _ hj) h

theorem checkBundle_of_disjoint (hlength : monitor.length = 105928)
    (himages : ∀ i ∈ images, i.data ≠ [] ∧ i.span.toSet ⊆ windows)
    (hdisjoint : images.Pairwise fun i j => Disjoint i.span.toSet j.span.toSet) :
    checkBundle monitorPath monitor images = .ok (⟨MONITOR_BASE, monitorPath, monitor⟩ :: images) :=
  checkBundle_eq_ok.mpr ⟨⟨hlength, checks_of_disjoint hlength himages hdisjoint⟩, rfl⟩

end ShadowMsm.Host
