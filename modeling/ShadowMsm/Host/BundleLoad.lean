import ShadowMsm.HdlcStream
import ShadowMsm.Host.Launcher

/-!
# Loading a bundle

The bundle loader and `load_ram_bundle` of the launcher check a bundle in the same way and upload it in the same way.
Whatever happens they write bytes of the bundle and nothing else (`ExactBundle`, `BundleWrites`); with every packet
acknowledged they write all of them and start the monitor (`bundle_exact`).
-/

namespace ShadowMsm.Host

/-! ### Acknowledgements -/

/-- The reads that meet these polls acknowledge one packet within `n` attempts; then the polls `rest` are left. -/
inductive Acks : Nat → List Poll → List Poll → Prop
  | ack {n : Nat} {polls rest : List Poll} {response : Bytes}
      (hread : ShadowMsm.readFrame polls = (.ok (some response), rest)) (hack : isAck response = true) :
      Acks (n + 1) polls rest
  /-- an attempt without a response, or with an empty one -/
  | again {n : Nat} {polls mid rest : List Poll} {o : Option Bytes} (hread : ShadowMsm.readFrame polls = (.ok o, mid))
      (ho : o = none ∨ o = some []) (h : Acks n mid rest) : Acks (n + 1) polls rest

/-- The reads acknowledge `n` packets, each within three attempts. -/
inductive AcksAll : Nat → List Poll → List Poll → Prop
  | zero (polls : List Poll) : AcksAll 0 polls polls
  | succ {n : Nat} {polls mid rest : List Poll} (h : Acks 3 polls mid) (hrest : AcksAll n mid rest) :
      AcksAll (n + 1) polls rest

/-- Acknowledgements of `m` and of `n` packets come one after the other. -/
theorem AcksAll.split {m n : Nat} {polls rest : List Poll} (h : AcksAll (m + n) polls rest) :
    ∃ mid, AcksAll m polls mid ∧ AcksAll n mid rest := by
  induction m generalizing polls with
  | zero => exact ⟨polls, .zero polls, by rwa [Nat.zero_add] at h⟩
  | succ m ih =>
    rw [Nat.add_right_comm] at h
    cases h with
    | succ hack hrest =>
      obtain ⟨mid, hm, hn⟩ := ih hrest
      exact ⟨mid, .succ hack hm, hn⟩

/-! ### Runs in which no call raises -/

/-- No call but the reads raises. -/
def World.Calm (w : World) : Prop := ∀ o ∈ w.outcomes, o = none

variable {α β : Type} {w : World} {rest polls : List Poll}

/-- The run returns `a`, and leaves the polls `rest` and calls that do not raise. -/
def Returns (f : Script α) (w : World) (a : α) (rest : List Poll) : Prop :=
  ∃ w' l, f w = (.ok a, w', l) ∧ w'.Calm ∧ w'.polls = rest

theorem returns_bind {f : Script α} {g : α → Script β} {a : α} {b : β} {mid : List Poll} (hf : Returns f w a mid)
    (hg : ∀ w' : World, w'.Calm → w'.polls = mid → Returns (g a) w' b rest) : Returns (f >>= g) w b rest := by
  obtain ⟨w₁, l₁, h₁, hcalm₁, hpolls₁⟩ := hf
  obtain ⟨w₂, l₂, h₂, hcalm₂, hpolls₂⟩ := hg w₁ hcalm₁ hpolls₁
  refine ⟨w₂, l₁ ++ l₂, ?_, hcalm₂, hpolls₂⟩
  rw [Traced.run_bind_ok h₁, h₂]

theorem returns_pure (hw : w.Calm) (hp : w.polls = polls) (a : α) : Returns (pure a) w a polls := ⟨w, [], rfl, hw, hp⟩

theorem returns_ofExcept {x : Except Exn α} {a : α} (hw : w.Calm) (hp : w.polls = polls) (h : x = .ok a) :
    Returns (Traced.ofExcept x) w a polls := ⟨w, [], by rw [h]; rfl, hw, hp⟩

theorem returns_perform (hw : w.Calm) (hp : w.polls = polls) (t : Event) : Returns (perform t) w () polls := by
  unfold Returns perform
  rcases ho : w.outcomes with - | ⟨o, outcomes⟩
  · exact ⟨w, [t], rfl, hw, hp⟩
  · obtain rfl : o = none := hw o (by rw [ho]; exact List.mem_cons_self)
    refine ⟨{ w with outcomes := outcomes }, [t], rfl, fun o ho' => hw o ?_, hp⟩
    rw [ho]
    exact List.mem_cons_of_mem none ho'

theorem returns_transmit (hw : w.Calm) (hp : w.polls = polls) (bs : Bytes) : Returns (transmit bs) w () polls := by
  refine returns_bind (returns_perform hw hp _) fun w₁ hw₁ hp₁ => ?_
  exact returns_bind (returns_perform hw₁ hp₁ _) fun w₂ hw₂ hp₂ => returns_perform hw₂ hp₂ _

theorem returns_readFrame (hw : w.Calm) (hp : w.polls = polls) {o : Option Bytes}
    (h : ShadowMsm.readFrame polls = (.ok o, rest)) : Returns readFrame w o rest := by
  subst hp
  refine ⟨{ w with polls := rest }, (w.polls.take (w.polls.length - rest.length)).map .poll, ?_, hw, rfl⟩
  rw [readFrame, readFrameWith, h]
  rfl

/-! ### Uploads -/

/-- An acknowledgement within the attempts that are left ends the loop. -/
theorem returns_pblWriteRamLoop {n : Nat} (address : Int) (payload : Bytes) (h : Acks n polls rest) (hw : w.Calm)
    (hp : w.polls = polls) : Returns (pblWriteRamLoop address payload n) w () rest := by
  induction h generalizing w with
  | @ack n polls rest response hread hack =>
    refine returns_bind (returns_transmit hw hp _) fun w₁ hw₁ hp₁ => ?_
    refine returns_bind (returns_readFrame hw₁ hp₁ hread) fun w₂ hw₂ hp₂ => ?_
    dsimp only
    rw [if_pos hack]
    exact returns_pure hw₂ hp₂ ()
  | @again n polls mid rest o hread ho _ ih =>
    refine returns_bind (returns_transmit hw hp _) fun w₁ hw₁ hp₁ => ?_
    refine returns_bind (returns_readFrame hw₁ hp₁ hread) fun w₂ hw₂ hp₂ => ?_
    rcases ho with rfl | rfl
    · exact ih hw₂ hp₂
    · exact ih hw₂ hp₂

theorem returns_pblWriteRam {p : Packet} (hfits : p.Fits) (h : Acks 3 polls rest) (hw : w.Calm) (hp : w.polls = polls) :
    Returns (pblWriteRam p.address p.data) w () rest := by
  obtain ⟨payload, hpayload, -⟩ := ramWritePayload_of_fits hfits
  refine returns_bind (returns_ofExcept hw hp hpayload) fun w₁ hw₁ hp₁ => ?_
  exact returns_pblWriteRamLoop _ _ h hw₁ hp₁

theorem returns_pblUploadFrom (address : Int) (data : Bytes) (written : Nat)
    (hfits : ∀ p ∈ packetsFrom address data written, p.Fits)
    (h : AcksAll (packetsFrom address data written).length polls rest) (hw : w.Calm) (hp : w.polls = polls) :
    Returns (pblUploadFrom address data written) w () rest := by
  induction written using pblUploadFrom.induct data generalizing w polls with
  | case1 written hlt ih =>
    rw [packetsFrom, dif_pos hlt] at hfits h
    rw [pblUploadFrom, dif_pos hlt]
    rw [List.length_cons] at h
    cases h with
    | succ hack hrest =>
      obtain ⟨hfirst, hfits⟩ := List.forall_mem_cons.mp hfits
      exact returns_bind (returns_pblWriteRam hfirst hack hw hp) fun w₁ hw₁ hp₁ => ih hfits hrest hw₁ hp₁
  | case2 written hlt =>
    rw [packetsFrom, dif_neg hlt] at h
    rw [pblUploadFrom, dif_neg hlt]
    cases h
    exact returns_pure hw hp ()

variable {P : Type} {bundle : List (Image P)}

/-- The packets of a bundle. -/
def bundlePackets (bundle : List (Image P)) : List Packet := bundle.flatMap fun i => packets i.address i.data

theorem returns_uploadAll (hfits : ∀ p ∈ bundlePackets bundle, p.Fits)
    (h : AcksAll (bundlePackets bundle).length polls rest) (hw : w.Calm) (hp : w.polls = polls) :
    Returns (uploadAll bundle) w () rest := by
  induction bundle generalizing w polls with
  | nil =>
    cases h
    exact returns_pure hw hp ()
  | cons i bundle ih =>
    rw [bundlePackets, List.flatMap_cons, List.length_append] at h
    rw [bundlePackets, List.flatMap_cons, List.forall_mem_append] at hfits
    obtain ⟨mid, hi, hbundle⟩ := h.split
    refine returns_bind (returns_pblUploadFrom _ _ _ hfits.1 hi hw hp) fun w₁ hw₁ hp₁ => ?_
    exact ih hfits.2 hbundle hw₁ hp₁

/-- A packet of an image below 4 GiB fits its fields. -/
theorem fits_of_mem_packets {address : Int} {data : Bytes} (h0 : 0 ≤ address) (h32 : address + data.length ≤ 2 ^ 32)
    {p : Packet} (hp : p ∈ packets address data) : p.Fits := by
  obtain ⟨hpos, hmax⟩ := length_of_mem_packetsFrom hp
  rw [MAX_CHUNK] at hmax
  have hfirst : (p.address, p.data[0]) ∈ p.cells := mem_cells.mpr ⟨0, by simp, List.getElem?_eq_getElem hpos⟩
  have hcell : (p.address, p.data[0]) ∈ cells address data := by
    rw [← flatMap_cells_packets]
    exact List.mem_flatMap.mpr ⟨p, hp, hfirst⟩
  have haddress := mem_map_fst_cells.mp (List.mem_map_of_mem hcell)
  exact ⟨⟨by omega, by omega⟩, by omega⟩

/-! ### Loads -/

/-- With every packet acknowledged all bytes of the bundle are written and then the monitor is started; the load returns,
but where the reply to the command does not match its CRC. -/
structure Completed (bundle : List (Image P)) (reply : List Poll) (r : Except Exn Unit) (ws : List Bytes) : Prop where
  writes : ∃ sent, WellSent sent ∧ (sent.map Prod.fst).flatMap Packet.cells = bundle.flatMap Image.cells ∧
    ws = framesOf sent ++ [executeFrame MONITOR_BASE]
  returns : (∀ got want, (ShadowMsm.readFrame reply).1 ≠ .error (.crcMismatch got want)) → r = .ok ()

/-- What a loader promises in the worlds with `W`. -/
structure ExactLoad (load : Script Unit) (W : World → Prop) (bundle : List (Image P)) : Prop
    extends ExactBundle bundle where
  runs : ∀ w, W w → BundleWrites bundle (load w).1 (writes (load w).2.2)
  completes : ∀ w rest, W w → w.Calm → AcksAll (bundlePackets bundle).length w.polls rest →
    Completed bundle rest (load w).1 (writes (load w).2.2)

/-- A script before the rest of the load, which returns and writes nothing. -/
theorem completed_bind {f : Script α} {g : α → Script Unit} {a : α} {w₁ : World} {l : List Event} {reply : List Poll}
    (hf : f w = (.ok a, w₁, l)) (hl : writes l = []) (hg : Completed bundle reply (g a w₁).1 (writes (g a w₁).2.2)) :
    Completed bundle reply ((f >>= g) w).1 (writes ((f >>= g) w).2.2) := by
  rw [Traced.run_bind_ok hf, writes_append, hl, List.nil_append]
  exact hg

theorem completed_perform_bind {g : Unit → Script Unit} {t : Event} (hw : w.Calm) (hp : w.polls = polls)
    (ht : writes [t] = [])
    (hg : ∀ w' : World, w'.Calm → w'.polls = polls → Completed bundle rest (g () w').1 (writes (g () w').2.2)) :
    Completed bundle rest ((perform t >>= g) w).1 (writes ((perform t >>= g) w).2.2) := by
  obtain ⟨w₁, l, h, hw₁, hp₁⟩ := returns_perform hw hp t
  exact completed_bind h (by rw [perform_ok h, ht]) (hg w₁ hw₁ hp₁)

/-- A read whose handler lets the errors of the port pass. -/
theorem tryCatch_readFrame_calm (hw : w.Calm) (hp : w.polls = polls) {f : Exn → Script (Option Bytes)}
    (hport : f .osError = pure none) (hraise : ∀ text, f (.runtimeError text) = throw (.runtimeError text)) :
    ∃ r w' l, (tryCatch readFrame f : Script (Option Bytes)) w = (r, w', l) ∧ writes l = [] ∧
      ((∀ got want, (ShadowMsm.readFrame polls).1 ≠ .error (.crcMismatch got want)) → (∃ o, r = .ok o) ∧ w'.Calm) := by
  change ∃ r w' l, Traced.tryCatch readFrame f w = (r, w', l) ∧ _
  rw [Traced.tryCatch, readFrame, readFrameWith, hp]
  cases (ShadowMsm.readFrame polls).1 with
  | ok o => exact ⟨.ok o, _, _, rfl, writes_map_poll _, fun _ => ⟨⟨o, rfl⟩, hw⟩⟩
  | error e =>
    cases e with
    | port =>
      simp only [Except.mapError, readFrameExnWith, hport]
      exact ⟨.ok none, _, _, rfl, by rw [writes_append, writes_map_poll]; rfl, fun _ => ⟨⟨none, rfl⟩, hw⟩⟩
    | crcMismatch got want =>
      simp only [Except.mapError, readFrameExnWith, hraise]
      exact ⟨.error _, _, _, rfl, by rw [writes_append, writes_map_poll]; rfl, fun h => absurd rfl (h got want)⟩

/-- The command to execute the monitor is sent; only a reply that does not match its CRC raises. -/
theorem pblExecute_calm (hw : w.Calm) (hp : w.polls = polls) :
    ∃ r w' l, pblExecute MONITOR_BASE w = (r, w', l) ∧ writes l = [executeFrame MONITOR_BASE] ∧
      ((∀ got want, (ShadowMsm.readFrame polls).1 ≠ .error (.crcMismatch got want)) → (∃ o, r = .ok o) ∧ w'.Calm) := by
  have hbytes : toBytesBig 4 MONITOR_BASE = .ok (leBytes 4 MONITOR_BASE.toNat).reverse :=
    toBytesBig_eq_ok.mpr ⟨⟨by decide, by decide⟩, rfl⟩
  obtain ⟨w₁, l₁, h₁, hw₁, hp₁⟩ :=
    returns_transmit hw hp (hdlcFrame ([0x05] ++ (leBytes 4 MONITOR_BASE.toNat).reverse))
  obtain rfl := transmit_ok h₁
  obtain ⟨f, hexecute, hport, hraise⟩ : ∃ f : Exn → Script (Option Bytes),
      (pblExecute MONITOR_BASE = do
        let addressBytes ← Traced.ofExcept (toBytesBig 4 MONITOR_BASE)
        transmit (hdlcFrame ([0x05] ++ addressBytes))
        tryCatch readFrame f) ∧
      f .osError = pure none ∧ ∀ text, f (.runtimeError text) = throw (.runtimeError text) := ⟨_, rfl, rfl, fun _ => rfl⟩
  obtain ⟨r, w₂, l₂, h₂, hl₂, hok⟩ := tryCatch_readFrame_calm hw₁ hp₁ hport hraise
  have hrun : pblExecute MONITOR_BASE w = (r, w₂, [.resetInput, .write (executeFrame MONITOR_BASE), .flush] ++ l₂) := by
    rw [hexecute]
    refine (Traced.run_ofExcept_bind hbytes).trans ((Traced.run_bind_ok h₁).trans ?_)
    exact congrArg (fun x : Except Exn (Option Bytes) × World × List Event =>
      (x.1, x.2.1, [.resetInput, .write (executeFrame MONITOR_BASE), .flush] ++ x.2.2)) h₂
  exact ⟨r, w₂, _, hrun, by rw [writes_append, hl₂]; rfl, hok⟩

/-- The uploads, and the command to execute the monitor. -/
theorem completed_uploadExecute (hfits : ∀ p ∈ bundlePackets bundle, p.Fits)
    (h : AcksAll (bundlePackets bundle).length polls rest) (hw : w.Calm) (hp : w.polls = polls) {load : Script Unit}
    (hload : load = do uploadAll bundle; let _ ← pblExecute MONITOR_BASE; perform .system) :
    Completed bundle rest (load w).1 (writes (load w).2.2) := by
  obtain ⟨w₁, l₁, h₁, hw₁, hp₁⟩ := returns_uploadAll hfits h hw hp
  obtain ⟨sent, hsent, hwrites, -, hall⟩ := writes_transfer ((sat_uploadAll bundle).of_run h₁)
  have hcells : (sent.map Prod.fst).flatMap Packet.cells = bundle.flatMap Image.cells := by
    rw [hall rfl, flatMap_cells_bundle]
  obtain ⟨r, w₂, l₂, h₂, hgo, hok⟩ := pblExecute_calm hw₁ hp₁
  rw [hload, Traced.run_bind_ok h₁]
  cases r with
  | error e =>
    rw [Traced.run_bind_error h₂]
    refine ⟨⟨sent, hsent, hcells, by rw [writes_append, hwrites, hgo]⟩, fun hcrc => ?_⟩
    obtain ⟨⟨o, ho⟩, -⟩ := hok hcrc
    cases ho
  | ok o =>
    rw [Traced.run_bind_ok h₂]
    refine ⟨⟨sent, hsent, hcells, ?_⟩, fun hcrc => ?_⟩
    · have hlast := (sat_silent_perform (t := .system) rfl).run w₂
      rw [writes_append, writes_append, hwrites, hgo, hlast, List.append_nil]
    · obtain ⟨w₃, l₃, h₃, -, -⟩ := returns_perform (hok hcrc).2 rfl .system
      rw [h₃]

theorem completed_ofExcept_bind {x : Except Exn α} {a : α} {g : α → Script Unit} {reply : List Poll} (hx : x = .ok a)
    (hg : Completed bundle reply (g a w).1 (writes (g a w).2.2)) :
    Completed bundle reply ((Traced.ofExcept x >>= g) w).1 (writes ((Traced.ofExcept x >>= g) w).2.2) := by
  rw [Traced.run_ofExcept_bind hx]
  exact hg

section

variable {monitorPath : P} {monitor : Bytes} {images : List (Image P)}

theorem fits_bundle (hlength : monitor.length = 105928)
    (hwindows : ∀ i ∈ images, rangeIsAllowed i.address i.data.length = true) :
    ∀ p ∈ bundlePackets (⟨MONITOR_BASE, monitorPath, monitor⟩ :: images), p.Fits := by
  intro p hp
  obtain ⟨i, hi, hp⟩ := List.mem_flatMap.mp hp
  rcases List.mem_cons.mp hi with rfl | hi
  · have hp : p ∈ packets MONITOR_BASE monitor := hp
    refine fits_of_mem_packets (by decide) ?_ hp
    rw [hlength]
    decide
  · have hin := rangeIsAllowed_iff.mp (hwindows i hi)
    exact fits_of_mem_packets (by omega) (by omega) hp

variable [LinearOrder P] [ToString P]

theorem exactLoad_ramBundleLoad (h : checkBundle monitorPath monitor images = .ok bundle) :
    ExactLoad (ramBundleLoad monitorPath monitor images) (fun _ => True) bundle := by
  obtain ⟨⟨hlength, hwindows, hoverlap⟩, rfl⟩ := checkBundle_eq_ok.mp h
  refine ⟨exactBundle_of_checks hlength hwindows hoverlap, fun w _ => (sat_ramBundleLoad h).run w, ?_⟩
  intro w rest _ hw hacks
  refine completed_ofExcept_bind h ?_
  refine completed_perform_bind hw rfl rfl fun w₁ hw₁ hp₁ => ?_
  refine completed_perform_bind hw₁ hp₁ rfl fun w₂ hw₂ hp₂ => ?_
  refine completed_perform_bind hw₂ hp₂ rfl fun w₃ hw₃ hp₃ => ?_
  refine completed_perform_bind hw₃ hp₃ rfl fun w₄ hw₄ hp₄ => ?_
  exact completed_uploadExecute (fits_bundle hlength hwindows) hacks hw₄ hp₄ rfl

end

/-! ### The launcher -/

theorem checkLauncherBundle_eq_ok {data : Payload → Bytes} : checkLauncherBundle data = .ok () ↔
    (data .monitor).length = 105928 ∧
      (∀ i ∈ (launcherBundle data).tail, rangeIsAllowed i.address i.data.length = true) ∧
      checkOverlap .runtimeError (occupied (launcherBundle data)) = .ok () := by
  rw [← checkWindows_eq_ok fun i : Image String => .runtimeError (i.path ++ " is outside the bounded SDRAM windows")]
  unfold checkLauncherBundle
  by_cases hlength : (data .monitor).length = 105928
  · rcases hwindows : checkWindows (fun i => .runtimeError (i.path ++ " is outside the bounded SDRAM windows"))
        (launcherBundle data).tail with e | ⟨⟨⟩⟩
    · simp [hlength, PAYLOADS, bind, Except.bind]
    · simp [hlength, PAYLOADS, bind, Except.bind]
  · simp [hlength, PAYLOADS, bind, Except.bind, throw, throwThe, MonadExceptOf.throw]

/-- The files read are `data`, in the order of the bundle. -/
def Offers (data : Payload → Bytes) (w : World) : Prop :=
  ∃ files, w.files = [some (data .monitor), some (data .image), some (data .bl1), some (data .dtb)] ++ files

/-- A payload is read before the rest of the load: nothing is written, and where the call does not raise the rest goes on. -/
theorem readLoaded_bind {payload : Payload} {file : Bytes} {files : List (Option Bytes)} {g : Bytes → Script Unit}
    {φ : Except Exn Unit → List Bytes → Prop} (hw : w.files = some file :: files) (herr : ¬ w.Calm → ∀ e, φ (.error e) [])
    (hg : ∀ w' : World, w'.files = files → w'.polls = w.polls → (w.Calm → w'.Calm) →
      φ (g file w').1 (writes (g file w').2.2)) :
    φ ((readLoaded payload >>= g) w).1 (writes ((readLoaded payload >>= g) w).2.2) := by
  obtain ⟨polls, outcomes, _, ports, passes, keys⟩ := w
  obtain rfl := hw
  rcases outcomes with - | ⟨- | e, outcomes⟩
  · exact hg ⟨polls, [], files, ports, passes, keys⟩ rfl rfl fun h => h
  · exact hg ⟨polls, outcomes, files, ports, passes, keys⟩ rfl rfl fun h o ho => h o (List.mem_cons_of_mem none ho)
  · refine herr (fun h => ?_) e
    cases h (some e) List.mem_cons_self

theorem loadRamBundle_offered {data : Payload → Bytes} {φ : Except Exn Unit → List Bytes → Prop} (hw : Offers data w)
    (herr : ¬ w.Calm → ∀ e, φ (.error e) [])
    (hg : ∀ w' : World, w'.polls = w.polls → (w.Calm → w'.Calm) →
      φ (loadImages data w').1 (writes (loadImages data w').2.2)) :
    φ (loadRamBundle w).1 (writes (loadRamBundle w).2.2) := by
  obtain ⟨files, hw⟩ := hw
  refine readLoaded_bind hw herr fun w₁ hw₁ hp₁ hc₁ => ?_
  refine readLoaded_bind hw₁ (fun h => herr (mt hc₁ h)) fun w₂ hw₂ hp₂ hc₂ => ?_
  refine readLoaded_bind hw₂ (fun h => herr (mt (hc₂ ∘ hc₁) h)) fun w₃ hw₃ hp₃ hc₃ => ?_
  refine readLoaded_bind hw₃ (fun h => herr (mt (hc₃ ∘ hc₂ ∘ hc₁) h)) fun w₄ _ hp₄ hc₄ => ?_
  have hdata (read : Payload → Bytes) (h : ∀ payload, read payload = data payload) :
      φ (loadImages read w₄).1 (writes (loadImages read w₄).2.2) := by
    obtain rfl : read = data := funext h
    exact hg w₄ (hp₄.trans (hp₃.trans (hp₂.trans hp₁))) (hc₄ ∘ hc₃ ∘ hc₂ ∘ hc₁)
  refine hdata _ fun payload => ?_
  cases payload <;> rfl

theorem sat_loadImages {data : Payload → Bytes} (h : checkLauncherBundle data = .ok ()) :
    Traced.Sat (loadImages data) fun r l => BundleWrites (launcherBundle data) r (writes l) := by
  have hstart := bundleWrites_nil (launcherBundle data)
  unfold loadImages openStage0Port
  rw [h, bind_assoc]
  refine sat_silent_bind (Traced.sat_ofExcept rfl) hstart fun _ => ?_
  refine sat_silent_bind (sat_silent_perform rfl) hstart fun _ => ?_
  refine sat_silent_bind (sat_silent_perform rfl) hstart fun _ => ?_
  refine sat_silent_bind (sat_silent_perform rfl) hstart fun _ => ?_
  refine sat_silent_bind (sat_silent_perform rfl) hstart fun _ => ?_
  exact sat_uploadExecute _

theorem exactLoad_loadRamBundle {data : Payload → Bytes} (h : checkLauncherBundle data = .ok ()) :
    ExactLoad loadRamBundle (Offers data) (launcherBundle data) := by
  obtain ⟨hlength, hwindows, hoverlap⟩ := checkLauncherBundle_eq_ok.mp h
  refine ⟨exactBundle_of_checks hlength hwindows hoverlap, ?_, ?_⟩
  · intro w hw
    exact loadRamBundle_offered hw (fun _ => bundleWrites_nil _) fun w' _ _ => (sat_loadImages h).run w'
  · intro w rest hw hcalm hacks
    refine loadRamBundle_offered hw (fun hn => absurd hcalm hn) fun w₀ hp₀ hc₀ => ?_
    unfold loadImages openStage0Port
    rw [bind_assoc]
    refine completed_ofExcept_bind h ?_
    refine completed_perform_bind (hc₀ hcalm) hp₀ rfl fun w₁ hw₁ hp₁ => ?_
    refine completed_perform_bind hw₁ hp₁ rfl fun w₂ hw₂ hp₂ => ?_
    refine completed_perform_bind hw₂ hp₂ rfl fun w₃ hw₃ hp₃ => ?_
    refine completed_perform_bind hw₃ hp₃ rfl fun w₄ hw₄ hp₄ => ?_
    exact completed_uploadExecute (fits_bundle hlength hwindows) hacks hw₄ hp₄ rfl

/-- Both loaders write exactly what they are given, all of it when the packets are acknowledged, and turn no bundle away
without a reason. -/
theorem bundle_exact [LinearOrder P] [ToString P] (monitorPath : P) (monitor : Bytes) (images : List (Image P))
    (data : Payload → Bytes) :
    ((∀ bundle, checkBundle monitorPath monitor images = .ok bundle →
        bundle = ⟨MONITOR_BASE, monitorPath, monitor⟩ :: images ∧
        ExactLoad (ramBundleLoad monitorPath monitor images) (fun _ => True) bundle) ∧
      (monitor.length = 105928 → (∀ i ∈ images, i.data ≠ [] ∧ i.span.toSet ⊆ windows) →
        (images.Pairwise fun i j => Disjoint i.span.toSet j.span.toSet) →
        checkBundle monitorPath monitor images = .ok (⟨MONITOR_BASE, monitorPath, monitor⟩ :: images))) ∧
    (checkLauncherBundle data = .ok () → ExactLoad loadRamBundle (Offers data) (launcherBundle data)) ∧
    ((data .monitor).length = 105928 → (∀ i ∈ (launcherBundle data).tail, i.data ≠ [] ∧ i.span.toSet ⊆ windows) →
      ((launcherBundle data).tail.Pairwise fun i j => Disjoint i.span.toSet j.span.toSet) →
      checkLauncherBundle data = .ok ()) := by
  refine ⟨⟨fun bundle h => ⟨(checkBundle_eq_ok.mp h).2, exactLoad_ramBundleLoad h⟩, checkBundle_of_disjoint⟩,
    exactLoad_loadRamBundle, fun hlength himages hdisjoint => ?_⟩
  exact checkLauncherBundle_eq_ok.mpr ⟨hlength, checks_of_disjoint hlength himages hdisjoint⟩

/-- The first attempt has no response; then every read finds an acknowledgement. -/
def acknowledging (n : Nat) : World := .polling (.expired :: (List.replicate n ((hdlcFrame [0x02]).map .byte)).flatten)

theorem acks_acknowledging {n : Nat} (hn : 0 < n) : AcksAll n (acknowledging n).polls [] := by
  obtain ⟨n, rfl⟩ := Nat.exists_eq_add_of_lt hn
  rw [Nat.zero_add]
  have hread : ∀ rest, ShadowMsm.readFrame ((hdlcFrame [0x02]).map .byte ++ rest) = (.ok (some [0x02]), rest) :=
    readFrame_hdlcFrame (List.cons_ne_nil _ _)
  have hack : ∀ m k, Acks (k + 1) (List.replicate (m + 1) ((hdlcFrame [0x02]).map Poll.byte)).flatten
      (List.replicate m ((hdlcFrame [0x02]).map Poll.byte)).flatten := by
    intro m k
    rw [List.replicate_succ, List.flatten_cons]
    exact .ack (hread _) rfl
  have hall : ∀ m, AcksAll m (List.replicate m ((hdlcFrame [0x02]).map Poll.byte)).flatten [] := by
    intro m
    induction m with
    | zero => exact .zero []
    | succ m ih => exact .succ (hack m 2) ih
  exact .succ (.again rfl (.inl rfl) (hack n 1)) (hall n)

/-- The files of a small kit. -/
def smallData : Payload → Bytes
  | .monitor => List.replicate 105928 0
  | .image => [0x01, 0x02]
  | .bl1 => [0x03]
  | .dtb => [0x04, 0x05, 0x06]

theorem bundle_exact_acknowledged : ∃ n n',
    (ramBundleLoad (PAYLOADS .monitor).name (smallData .monitor) (launcherBundle smallData).tail
      (acknowledging n)).1 = .ok () ∧
    ∃ sent, WellSent sent ∧ (sent.map Prod.fst).flatMap Packet.cells =
        cells MONITOR_BASE (smallData .monitor) ++ [(0x00208000, 0x01), (0x00208001, 0x02), (0x01000000, 0x03),
          (0x01F80000, 0x04), (0x01F80001, 0x05), (0x01F80002, 0x06)] ∧
      writes (loadRamBundle { acknowledging n' with
        files := [some (smallData .monitor), some [0x01, 0x02], some [0x03], some [0x04, 0x05, 0x06]] }).2.2 =
        framesOf sent ++ [executeFrame MONITOR_BASE] := by
  have h := bundle_exact (PAYLOADS .monitor).name (smallData .monitor) (launcherBundle smallData).tail smallData
  have hlength : (smallData .monitor).length = 105928 := List.length_replicate
  have hallowed : ∀ i ∈ (launcherBundle smallData).tail, i.data ≠ [] ∧ rangeIsAllowed i.address i.data.length = true := by
    decide
  have hin : ∀ i ∈ (launcherBundle smallData).tail, i.data ≠ [] ∧ i.span.toSet ⊆ windows :=
    fun i hi => ⟨(hallowed i hi).1, subset_windows_of_rangeIsAllowed (hallowed i hi).2⟩
  have hapart : (launcherBundle smallData).tail.Pairwise fun i j =>
      i.span.hi ≤ j.span.lo ∨ j.span.hi ≤ i.span.lo := by decide
  have hdisjoint := hapart.imp Span.Apart.disjoint
  have hpackets : 0 < (bundlePackets (launcherBundle smallData)).length := by
    refine List.length_pos_iff.mpr fun hnil => ?_
    have hcell : (0x01000000, 0x03) ∈ (launcherBundle smallData).flatMap Image.cells :=
      List.mem_flatMap.mpr ⟨⟨0x01000000, (PAYLOADS .bl1).name, [0x03]⟩,
        List.mem_cons_of_mem _ (List.mem_cons_of_mem _ List.mem_cons_self), List.mem_cons_self⟩
    rw [← flatMap_cells_bundle, ← bundlePackets, hnil] at hcell
    exact List.not_mem_nil hcell
  have hreply : ∀ got want, (ShadowMsm.readFrame []).1 ≠ .error (.crcMismatch got want) := nofun
  have hcalm : ∀ n files, World.Calm { acknowledging n with files := files } := fun _ _ => nofun
  have hload := (h.1.1 _ (h.1.2 hlength hin hdisjoint)).2.completes (acknowledging _) [] trivial (hcalm _ [])
    (acks_acknowledging hpackets)
  obtain ⟨sent, hsent, hcells, hwrites⟩ := ((h.2.1 (h.2.2 hlength hin hdisjoint)).completes
    { acknowledging _ with
      files := [some (smallData .monitor), some [0x01, 0x02], some [0x03], some [0x04, 0x05, 0x06]] } []
    ⟨[], rfl⟩ (hcalm _ _) (acks_acknowledging hpackets)).writes
  exact ⟨_, _, hload.returns hreply, sent, hsent, hcells, hwrites⟩

end ShadowMsm.Host
