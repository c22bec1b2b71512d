import ShadowMsm.HdlcStream
import ShadowMsm.Host.Pbl
import ShadowMsm.Lib.Runs

/-!
# An upload over a slow and lossy link

The downloader at the other end of the port writes the data of a RAM-write frame to its address and answers with one
acknowledgement.  The link in between may lose a frame or hold it back for any time, in both directions, but keeps the
order.  The bytes of an acknowledgement arrive one by one, and `port.reset_input_buffer()` discards those that have
arrived.

An acknowledgement names neither an address nor a number.  In this model it carries the request it answers, which the
host does not see: an upload is complete when every byte the host reads belongs to an answer to its last write.
-/

namespace ShadowMsm.Host

open Runs

/-! ### The downloader -/

/-- The RAM write in a frame, when the frame is intact. -/
def parseRamWrite (f : Bytes) : Option Packet :=
  match unframe f with
  | some (0x0F :: a₃ :: a₂ :: a₁ :: a₀ :: n₁ :: n₀ :: data) =>
    if data.length = fromBytesBig [n₁, n₀] then some ⟨fromBytesBig [a₃, a₂, a₁, a₀], data⟩ else none
  | _ => none

/-- The RAM after a write. -/
def Packet.store (p : Packet) (ram : Int → Byte) (x : Int) : Byte :=
  if p.address ≤ x ∧ x < p.address + p.data.length then p.data.getD (x - p.address).toNat 0 else ram x

/-! ### The link -/

/-- Host, link and downloader. -/
structure Link where
  /-- frames on their way to the downloader, the first sent first -/
  requests : List Bytes
  /-- acknowledgements on their way back, each with the request it answers -/
  acks : List (Bytes × Bytes)
  /-- bytes of acknowledgements that are arriving, each with the request -/
  arriving : List (Bytes × Byte)
  /-- the input buffer of the port -/
  input : List (Bytes × Byte)
  /-- the last frame the host wrote -/
  written : Option Bytes
  /-- the RAM writes the downloader has done -/
  served : List Bytes
  ram : Int → Byte

/-- A link at rest. -/
def Link.idle (ram : Int → Byte) : Link := ⟨[], [], [], [], none, [], ram⟩

inductive Act
  /-- the host makes a call -/
  | host (t : Event)
  /-- a request is lost -/
  | loseRequest (i : Nat)
  /-- the downloader takes the next request; a RAM write it answers with the given payload -/
  | serve (ack : Bytes)
  /-- an acknowledgement is lost -/
  | loseAck (i : Nat)
  /-- the next acknowledgement begins to arrive -/
  | deliver
  /-- a byte reaches the input buffer -/
  | arrive

/-- One step; none where the action is not possible. -/
def Link.step (s : Link) : Act → Option Link
  | .host .resetInput => some { s with input := [] }
  | .host (.write f) => some { s with requests := s.requests ++ [f], written := some f }
  | .host (.poll (.byte b)) =>
    match s.input with
    | [] => none
    | (_, c) :: rest => if c = b then some { s with input := rest } else none
  -- `port.read(1)` waits for a byte when there is none
  | .host (.poll .idle) => if s.input = [] then some s else none
  | .host _ => some s
  | .loseRequest i =>
    if i < s.requests.length then some { s with requests := s.requests.eraseIdx i } else none
  | .serve ack =>
    match s.requests with
    | [] => none
    | f :: rest =>
      match parseRamWrite f with
      | none => some { s with requests := rest }
      | some p =>
        if isAck ack then
          some { s with
            requests := rest
            acks := s.acks ++ [(f, hdlcFrame ack)]
            served := s.served ++ [f]
            ram := p.store s.ram }
        else none
  | .loseAck i => if i < s.acks.length then some { s with acks := s.acks.eraseIdx i } else none
  | .deliver =>
    match s.acks with
    | [] => none
    | (f, bs) :: rest => some { s with acks := rest, arriving := s.arriving ++ bs.map (f, ·) }
  | .arrive =>
    match s.arriving with
    | [] => none
    | x :: rest => some { s with arriving := rest, input := s.input ++ [x] }

/-- The host's part of an action. -/
def Act.event : Act → Option Event
  | .host t => some t
  | _ => none

/-- The trace of the host in a run. -/
def hostEvents (acts : List Act) : List Event := acts.filterMap Act.event

/-- Every byte the host reads belongs to an answer to its last write. -/
def FreshReads (s : Link) (acts : List Act) : Prop :=
  ∀ pre b post, acts = pre ++ .host (.poll (.byte b)) :: post →
    ∀ m, run Link.step s pre = some m → m.input.head?.map Prod.fst = m.written

/-- What an upload promises: every packet has been received, and the RAM holds the data. -/
structure Uploaded (address : Int) (data : Bytes) (s : Link) : Prop where
  received : ∀ p ∈ packets address data, p.frame ∈ s.served
  holds : ∀ (i : Nat) (hi : i < data.length), s.ram (address + i) = data[i]

/-- What a step does. -/
inductive Link.StepCase (s : Link) : Act → Link → Prop
  | reset : StepCase s (.host .resetInput) { s with input := [] }
  | write (f : Bytes) : StepCase s (.host (.write f)) { s with requests := s.requests ++ [f], written := some f }
  | read {g : Bytes} {b : Byte} {rest : List (Bytes × Byte)} (hinput : s.input = (g, b) :: rest) :
      StepCase s (.host (.poll (.byte b))) { s with input := rest }
  /-- a call that does not touch the link -/
  | other {t : Event} : StepCase s (.host t) s
  | loseRequest {i : Nat} (hi : i < s.requests.length) :
      StepCase s (.loseRequest i) { s with requests := s.requests.eraseIdx i }
  /-- a request that is no RAM write is not answered here -/
  | skip {ack f : Bytes} {rest : List Bytes} (hrequests : s.requests = f :: rest) (hparse : parseRamWrite f = none) :
      StepCase s (.serve ack) { s with requests := rest }
  | serve {ack f : Bytes} {rest : List Bytes} {p : Packet} (hrequests : s.requests = f :: rest)
      (hparse : parseRamWrite f = some p) (hack : isAck ack = true) :
      StepCase s (.serve ack) { s with
        requests := rest, acks := s.acks ++ [(f, hdlcFrame ack)], served := s.served ++ [f], ram := p.store s.ram }
  | loseAck {i : Nat} (hi : i < s.acks.length) : StepCase s (.loseAck i) { s with acks := s.acks.eraseIdx i }
  | deliver {f bs : Bytes} {rest : List (Bytes × Bytes)} (hacks : s.acks = (f, bs) :: rest) :
      StepCase s .deliver { s with acks := rest, arriving := s.arriving ++ bs.map (f, ·) }
  | arrive {x : Bytes × Byte} {rest : List (Bytes × Byte)} (harriving : s.arriving = x :: rest) :
      StepCase s .arrive { s with arriving := rest, input := s.input ++ [x] }

theorem Link.step_cases {s s' : Link} {a : Act} (h : s.step a = some s') : StepCase s a s' := by
  unfold step at h
  split at h
  · cases h
    exact .reset
  · cases h
    exact .write _
  · split at h
    · cases h
    · rename_i hinput
      split_ifs at h with hb
      cases h
      exact .read (hb ▸ hinput)
  · split_ifs at h
    cases h
    exact .other
  · cases h
    exact .other
  · split_ifs at h with hi
    cases h
    exact .loseRequest hi
  · split at h
    · cases h
    · rename_i hrequests
      split at h
      · rename_i hparse
        cases h
        exact .skip hrequests hparse
      · rename_i hparse
        split_ifs at h with hack
        cases h
        exact .serve hrequests hparse hack
  · split_ifs at h with hi
    cases h
    exact .loseAck hi
  · split at h
    · cases h
    · rename_i hacks
      cases h
      exact .deliver hacks
  · split at h
    · cases h
    · rename_i harriving
      cases h
      exact .arrive harriving

/-! ### Frames of packets -/

/-- The downloader reads a RAM write back. -/
theorem parseRamWrite_frame {p : Packet} (h : p.Fits) : parseRamWrite p.frame = some p := by
  obtain ⟨⟨h0, h32⟩, h16⟩ := h
  have haddress : fromBytesBig (leBytes 4 p.address.toNat).reverse = p.address.toNat :=
    fromBytesBig_leBytes (by omega)
  have hlength : fromBytesBig (leBytes 2 p.data.length).reverse = p.data.length :=
    fromBytesBig_leBytes (by omega)
  have hparse : parseRamWrite p.frame =
      if p.data.length = fromBytesBig (leBytes 2 p.data.length).reverse then
        some ⟨fromBytesBig (leBytes 4 p.address.toNat).reverse, p.data⟩ else none := by
    unfold parseRamWrite Packet.frame
    rw [unframe_hdlcFrame (by simp)]
    rfl
  rw [hparse, hlength, if_pos rfl, haddress, Int.toNat_of_nonneg h0]

/-- A cell of a packet is in the RAM after the packet is stored. -/
theorem Packet.store_of_mem {p : Packet} {ram : Int → Byte} {x : Int} {b : Byte} (h : (x, b) ∈ p.cells) :
    p.store ram x = b := by
  obtain ⟨i, rfl, hi⟩ := mem_cells.mp h
  have hlt := (List.getElem?_eq_some_iff.mp hi).1
  have hsub : (p.address + (i : Int) - p.address).toNat = i := by omega
  rw [Packet.store, if_pos (by omega), hsub, List.getD_eq_getElem?_getD, hi]
  rfl

/-- All other cells are as before. -/
theorem Packet.store_of_notMem {p : Packet} {ram : Int → Byte} {x : Int} (h : x ∉ p.cells.map Prod.fst) :
    p.store ram x = ram x := by
  rw [Packet.cells, mem_map_fst_cells] at h
  rw [Packet.store, if_neg h]

/-- Two packets of an upload agree where they meet. -/
theorem cells_packets_unique {address : Int} {data : Bytes} {p q : Packet} (hp : p ∈ packets address data)
    (hq : q ∈ packets address data) {x : Int} {b c : Byte} (hb : (x, b) ∈ p.cells) (hc : (x, c) ∈ q.cells) : b = c := by
  have hmem : ∀ r ∈ packets address data, ∀ z ∈ r.cells, z ∈ cells address data := by
    intro r hr z hz
    rw [← flatMap_cells_packets]
    exact List.mem_flatMap.mpr ⟨r, hr, hz⟩
  obtain ⟨i, hi, hib⟩ := mem_cells.mp (hmem p hp _ hb)
  obtain ⟨j, hj, hjc⟩ := mem_cells.mp (hmem q hq _ hc)
  have hij : i = j := by omega
  subst hij
  exact Option.some.inj (hib.symm.trans hjc)

/-! ### The invariant of a run -/

/-- The frames of an upload. -/
def FrameOf (address : Int) (data : Bytes) (f : Bytes) : Prop :=
  ∃ p ∈ packets address data, p.Fits ∧ f = p.frame

/-- Only frames of the upload are on the way, an answer comes after the write it answers, and the RAM has what was
written. -/
structure Settled (address : Int) (data : Bytes) (s : Link) : Prop where
  requests : ∀ f ∈ s.requests, FrameOf address data f
  acks : ∀ a ∈ s.acks, a.1 ∈ s.served
  arriving : ∀ x ∈ s.arriving, x.1 ∈ s.served
  input : ∀ x ∈ s.input, x.1 ∈ s.served
  ram : ∀ p ∈ packets address data, p.Fits → p.frame ∈ s.served → ∀ c ∈ p.cells, s.ram c.1 = c.2

theorem settled_idle (address : Int) (data : Bytes) (ram : Int → Byte) : Settled address data (Link.idle ram) where
  requests := by simp [Link.idle]
  acks := by simp [Link.idle]
  arriving := by simp [Link.idle]
  input := by simp [Link.idle]
  ram := by simp [Link.idle]

variable {address : Int} {data : Bytes} {s s' : Link}

/-- The downloader does the RAM write of the next request. -/
theorem Settled.serve {f : Bytes} {rest : List Bytes} {p : Packet} {ack : Bytes} (hs : Settled address data s)
    (hrequests : s.requests = f :: rest) (hparse : parseRamWrite f = some p) :
    Settled address data { s with
      requests := rest, acks := s.acks ++ [(f, hdlcFrame ack)], served := s.served ++ [f], ram := p.store s.ram } := by
  have hmono : ∀ {g}, g ∈ s.served → g ∈ s.served ++ [f] := List.mem_append_left _
  obtain ⟨q, hq, hqfits, rfl⟩ := hs.requests f (by simp [hrequests])
  obtain rfl : p = q := Option.some.inj (hparse.symm.trans (parseRamWrite_frame hqfits))
  refine ⟨?_, ?_, fun x hx => hmono (hs.arriving x hx), fun x hx => hmono (hs.input x hx), ?_⟩
  · intro g hg
    exact hs.requests g (by rw [hrequests]; exact List.mem_cons_of_mem _ hg)
  · intro a ha
    rcases List.mem_append.mp ha with ha | ha
    · exact hmono (hs.acks a ha)
    · obtain rfl := List.mem_singleton.mp ha
      simp
  · rintro r hr hrfits hserved ⟨x, b⟩ hc
    by_cases hx : x ∈ p.cells.map Prod.fst
    · obtain ⟨⟨y, c⟩, hy, rfl⟩ := List.mem_map.mp hx
      obtain rfl := cells_packets_unique hr hq hc hy
      exact Packet.store_of_mem hy
    · change p.store s.ram x = b
      rw [Packet.store_of_notMem hx]
      rcases List.mem_append.mp hserved with hserved | hserved
      · exact hs.ram r hr hrfits hserved (x, b) hc
      · -- the frame just served is that of `p`, whose cells do not have the address
        have hframe := List.mem_singleton.mp hserved
        have hparse' := parseRamWrite_frame hrfits
        rw [hframe, hparse] at hparse'
        obtain rfl := Option.some.inj hparse'
        exact absurd (List.mem_map_of_mem hc) hx

/-- Every step keeps the invariant, when the host writes frames of the upload only. -/
theorem Settled.step {a : Act} (h : s.step a = some s')
    (hwrite : ∀ f, a = .host (.write f) → FrameOf address data f) (hs : Settled address data s) :
    Settled address data s' := by
  cases Link.step_cases h with
  | reset => exact { hs with input := by simp }
  | write f =>
    refine { hs with requests := ?_ }
    intro g hg
    rcases List.mem_append.mp hg with hg | hg
    · exact hs.requests g hg
    · obtain rfl := List.mem_singleton.mp hg
      exact hwrite _ rfl
  | read hinput =>
    refine { hs with input := ?_ }
    intro x hx
    exact hs.input x (by rw [hinput]; exact List.mem_cons_of_mem _ hx)
  | other => exact hs
  | loseRequest => exact { hs with requests := fun f hf => hs.requests f (List.mem_of_mem_eraseIdx hf) }
  | skip hrequests =>
    refine { hs with requests := ?_ }
    intro g hg
    exact hs.requests g (by rw [hrequests]; exact List.mem_cons_of_mem _ hg)
  | serve hrequests hparse => exact hs.serve hrequests hparse
  | loseAck => exact { hs with acks := fun a ha => hs.acks a (List.mem_of_mem_eraseIdx ha) }
  | @deliver f bs rest hacks =>
    refine { hs with acks := ?_, arriving := ?_ }
    · intro a ha
      exact hs.acks a (by rw [hacks]; exact List.mem_cons_of_mem _ ha)
    · intro x hx
      rcases List.mem_append.mp hx with hx | hx
      · exact hs.arriving x hx
      · obtain ⟨b, -, rfl⟩ := List.mem_map.mp hx
        exact hs.acks (f, bs) (by simp [hacks])
  | arrive harriving =>
    refine { hs with arriving := ?_, input := ?_ }
    · intro y hy
      exact hs.arriving y (by rw [harriving]; exact List.mem_cons_of_mem _ hy)
    · intro y hy
      rcases List.mem_append.mp hy with hy | hy
      · exact hs.input y hy
      · obtain rfl := List.mem_singleton.mp hy
        exact hs.arriving y (by simp [harriving])

/-- A write stays done. -/
theorem served_step {a : Act} {f : Bytes} (h : s.step a = some s') (hf : f ∈ s.served) : f ∈ s'.served := by
  cases Link.step_cases h with
  | serve => exact List.mem_append_left _ hf
  | _ => exact hf

/-- Only a write changes what was written last. -/
theorem written_step {a : Act} (h : s.step a = some s') (ha : ∀ f, a ≠ .host (.write f)) : s'.written = s.written := by
  cases Link.step_cases h with
  | write f => exact absurd rfl (ha f)
  | _ => rfl

/-! ### Runs -/

theorem hostEvents_append (as bs : List Act) : hostEvents (as ++ bs) = hostEvents as ++ hostEvents bs :=
  List.filterMap_append

theorem mem_writes_hostEvents {f : Bytes} {acts : List Act} : f ∈ writes (hostEvents acts) ↔ .host (.write f) ∈ acts := by
  rw [mem_writes, hostEvents, List.mem_filterMap]
  constructor
  · rintro ⟨a, ha, he⟩
    cases a with
    | host t => exact Option.some.inj he ▸ ha
    | _ => cases he
  · exact fun h => ⟨_, h, rfl⟩

/-- An event of the host is an action of the run, with a run before and a run after it. -/
theorem split_hostEvents {acts : List Act} {l r : List Event} {t : Event} (h : hostEvents acts = l ++ t :: r) :
    ∃ as bs, acts = as ++ .host t :: bs ∧ hostEvents as = l ∧ hostEvents bs = r := by
  refine split_filterMap_of_eq (g := .host) ?_ h
  intro a ha
  cases a with
  | host u => rw [Option.some.inj ha]
  | _ => cases ha

theorem settled_run {acts : List Act} (h : run Link.step s acts = some s')
    (hwrites : ∀ f ∈ writes (hostEvents acts), FrameOf address data f) (hs : Settled address data s) :
    Settled address data s' := by
  refine run_invariant (A := fun a => ∀ f, a = .host (.write f) → FrameOf address data f)
    (fun s a s' hstep ha hs => hs.step hstep ha) h ?_ hs
  rintro a ha f rfl
  exact hwrites f (mem_writes_hostEvents.mpr ha)

theorem served_run {acts : List Act} {f : Bytes} (h : run Link.step s acts = some s') (hf : f ∈ s.served) :
    f ∈ s'.served :=
  run_invariant (P := fun m => f ∈ m.served) (A := fun _ => True) (fun _ _ _ hstep _ hs => served_step hstep hs) h
    (fun _ _ => trivial) hf

theorem written_run {acts : List Act} (h : run Link.step s acts = some s') (hwrites : writes (hostEvents acts) = []) :
    s'.written = s.written := by
  refine run_invariant (P := fun m => m.written = s.written) (A := fun a => ∀ f, a ≠ .host (.write f))
    (fun m a m' hstep ha hm => (written_step hstep ha).trans hm) h ?_ rfl
  rintro a ha f rfl
  have := mem_writes_hostEvents.mpr ha
  simp [hwrites] at this

theorem FreshReads.left {as bs : List Act} (h : FreshReads s (as ++ bs)) : FreshReads s as := by
  rintro pre b post rfl
  exact h pre b (post ++ bs) (by simp)

theorem FreshReads.right {as bs : List Act} {m : Link} (h : FreshReads s (as ++ bs))
    (hm : run Link.step s as = some m) : FreshReads m bs := by
  rintro pre b post rfl k hk
  exact h (as ++ pre) b post (by simp) k (run_append.mpr ⟨m, hm, hk⟩)

/-- An acknowledged frame has been served: the flag that closes the acknowledgement is an answer to that frame. -/
theorem served_of_acknowledged {n : Nat} {f : Bytes} {l : List Event} {acts : List Act} (hs : Settled address data s)
    (hack : AcknowledgedIn n f l) (hf : FrameOf address data f) (hacts : hostEvents acts = l)
    (hrun : run Link.step s acts = some s') (hfresh : FreshReads s acts) : f ∈ s'.served := by
  obtain ⟨retries, polls, response, rfl, ⟨k, -, hretries⟩, hread, -⟩ := hack
  obtain ⟨init, rfl⟩ := readFrameFrom_some hread
  -- the last write, what follows up to the closing flag, and the rest
  obtain ⟨as, cs, rfl, has, hcs⟩ := split_hostEvents (l := retries ++ [.resetInput])
    (r := .flush :: (init.map .poll ++ [.poll (.byte FLAG)])) (by simpa using hacts)
  obtain ⟨bs, ds, rfl, hbs, -⟩ := split_hostEvents (l := .flush :: init.map .poll) (r := []) (by simpa using hcs)
  obtain ⟨s₁, h1, hrun₁⟩ := run_append.mp hrun
  obtain ⟨s₂, h2, hrun₂⟩ := run_cons.mp hrun₁
  obtain ⟨s₃, h3, hrun₃⟩ := run_append.mp hrun₂
  have hset₂ : Settled address data s₂ := by
    apply Settled.step h2
    · rintro g hg
      cases hg
      exact hf
    · apply settled_run h1 _ hs
      intro g hg
      rw [has] at hg
      simp only [writes_append, writes, List.append_nil, hretries] at hg
      exact List.eq_of_mem_replicate hg ▸ hf
  have hset₃ : Settled address data s₃ := by
    apply settled_run h3 _ hset₂
    simp [hbs, writes]
  have hwritten : s₃.written = some f := by
    rw [written_run h3 (by simp [hbs, writes])]
    cases h2
    rfl
  have hhead : s₃.input.head?.map Prod.fst = some f := by
    rw [← hwritten]
    refine hfresh (as ++ .host (.write f) :: bs) FLAG ds (by simp) s₃ ?_
    exact run_append.mpr ⟨s₁, h1, run_cons.mpr ⟨s₂, h2, h3⟩⟩
  obtain ⟨x, hx, rfl⟩ := Option.map_eq_some_iff.mp hhead
  exact served_run hrun₃ (hset₃.input x (List.mem_of_mem_head? hx))

theorem writes_of_delivered {ps : List Packet} {l : List Event} (h : Delivered ps l) :
    ∀ f ∈ writes l, ∃ p ∈ ps, p.Fits ∧ f = p.frame := by
  induction h with
  | nil => simp [writes]
  | @cons p ps l l' hfits hack hrest ih =>
    obtain ⟨retries, polls, response, rfl, ⟨k, -, hretries⟩, -, -⟩ := hack
    intro f hf
    simp only [writes_append, writes_map_poll, writes, hretries, List.append_nil, List.mem_append,
      List.mem_replicate, List.mem_singleton] at hf
    rcases hf with (⟨-, rfl⟩ | rfl) | hf
    · exact ⟨p, by simp, hfits, rfl⟩
    · exact ⟨p, by simp, hfits, rfl⟩
    · obtain ⟨q, hq, h⟩ := ih f hf
      exact ⟨q, List.mem_cons_of_mem p hq, h⟩

/-- Packets of the upload that are delivered with fresh reads have been served. -/
theorem served_of_delivered {ps : List Packet} {l : List Event} {acts : List Act} (hdel : Delivered ps l)
    (hps : ∀ p ∈ ps, p ∈ packets address data) (hs : Settled address data s) (hacts : hostEvents acts = l)
    (hrun : run Link.step s acts = some s') (hfresh : FreshReads s acts) :
    ∀ p ∈ ps, p.Fits ∧ p.frame ∈ s'.served := by
  induction hdel generalizing s acts with
  | nil => simp
  | @cons p ps l l' hfits hack hrest ih =>
    have hp : FrameOf address data p.frame := ⟨p, hps p (by simp), hfits, rfl⟩
    obtain ⟨as, bs, rfl, has, hbs⟩ := List.filterMap_eq_append_iff.mp hacts
    obtain ⟨m, hm, hrun⟩ := run_append.mp hrun
    have hserved : p.frame ∈ m.served := served_of_acknowledged hs hack hp has hm hfresh.left
    have hsettled : Settled address data m := by
      apply settled_run hm _ hs
      intro f hf
      rw [show hostEvents as = l from has] at hf
      obtain ⟨q, hq, h⟩ := writes_of_delivered (.cons hfits hack .nil) f (by simpa using hf)
      obtain rfl := List.mem_singleton.mp hq
      exact ⟨q, hps q (by simp), h⟩
    intro q hq
    rcases List.mem_cons.mp hq with rfl | hq
    · exact ⟨hfits, served_run hrun hserved⟩
    · exact ih (fun r hr => hps r (List.mem_cons_of_mem p hr)) hsettled hbs hrun (hfresh.right hm) q hq

/-! ### Schedules -/

/-- The host reads the bytes `bs`. -/
def readsOf (bs : Bytes) : List Act := bs.map fun b => .host (.poll (.byte b))

/-- An acknowledgement arrives and is read. -/
def takeAck (bs : Bytes) : List Act := .deliver :: (List.replicate bs.length .arrive ++ readsOf bs)

/-- The host sends a frame. -/
def sends (f : Bytes) : List Act := [.host .resetInput, .host (.write f), .host .flush]

theorem hostEvents_takeAck (bs : Bytes) : hostEvents (takeAck bs) = (bs.map Poll.byte).map .poll := by
  have hreads : hostEvents (readsOf bs) = (bs.map Poll.byte).map .poll := by
    induction bs with
    | nil => rfl
    | cons b bs ih => exact congrArg (Event.poll (.byte b) :: ·) ih
  have harrive : ∀ n, hostEvents (List.replicate n .arrive) = [] := by
    intro n
    induction n with
    | zero => rfl
    | succ n ih => exact ih
  change hostEvents (List.replicate bs.length .arrive ++ readsOf bs) = _
  rw [hostEvents_append, harrive, hreads, List.nil_append]

theorem run_arrive (s : Link) (xs : List (Bytes × Byte)) :
    run Link.step { s with arriving := xs } (List.replicate xs.length .arrive) =
      some { s with arriving := [], input := s.input ++ xs } := by
  induction xs generalizing s with
  | nil => simp [run]
  | cons x xs ih =>
    have := ih { s with input := s.input ++ [x] }
    rw [List.append_assoc] at this
    exact this

theorem run_reads (s : Link) (f bs : Bytes) :
    run Link.step { s with input := bs.map (f, ·) } (readsOf bs) = some { s with input := [] } := by
  induction bs with
  | nil => rfl
  | cons b bs ih =>
    refine run_cons.mpr ⟨_, ?_, ih⟩
    simp [Link.step]

/-- The host takes the next acknowledgement, whatever request it answers. -/
theorem run_takeAck {f bs : Bytes} {rest : List (Bytes × Bytes)} (hacks : s.acks = (f, bs) :: rest)
    (harriving : s.arriving = []) (hinput : s.input = []) :
    run Link.step s (takeAck bs) = some { s with acks := rest } := by
  obtain ⟨requests, acks, arriving, input, written, served, ram⟩ := s
  subst hacks harriving hinput
  refine run_cons.mpr ⟨_, rfl, run_append.mpr ⟨_, ?_, run_reads ⟨requests, rest, [], [], written, served, ram⟩ f bs⟩⟩
  have := run_arrive ⟨requests, rest, [], [], written, served, ram⟩ (bs.map (f, ·))
  rwa [List.length_map] at this

theorem freshReads_reads {f : Bytes} (hwritten : s.written = some f) (bs : Bytes) :
    FreshReads { s with input := bs.map (f, ·) } (readsOf bs) := by
  induction bs with
  | nil =>
    intro pre b post h
    simp [readsOf] at h
  | cons c bs ih =>
    intro pre b post h m hm
    cases pre with
    | nil =>
      cases hm
      exact hwritten.symm
    | cons a pre =>
      obtain ⟨rfl, hrest⟩ :=
        List.cons.inj (show .host (.poll (.byte c)) :: readsOf bs = a :: (pre ++ .host (.poll (.byte b)) :: post) from h)
      obtain ⟨m', hm', hm⟩ := run_cons.mp hm
      have : m' = { s with input := bs.map (f, ·) } := by simpa [Link.step, eq_comm] using hm'
      exact ih pre b post hrest m (this ▸ hm)

theorem freshReads_of_none {as : List Act} (h : ∀ b, .host (.poll (.byte b)) ∉ as) : FreshReads s as := by
  rintro pre b post rfl
  exact absurd (by simp) (h b)

theorem FreshReads.append {as bs : List Act} (has : FreshReads s as)
    (hbs : ∀ m, run Link.step s as = some m → FreshReads m bs) : FreshReads s (as ++ bs) := by
  intro pre b post h k hk
  rcases List.append_eq_append_iff.mp h with ⟨cs, rfl, hcs⟩ | ⟨cs, rfl, hcs⟩
  · obtain ⟨m, hm, hk⟩ := run_append.mp hk
    exact hbs m hm cs b post hcs k hk
  · cases cs with
    | nil =>
      exact hbs k (by rwa [List.append_nil]) [] b post hcs.symm k rfl
    | cons c cs =>
      obtain ⟨rfl, -⟩ := List.cons.inj hcs
      exact has pre b cs rfl k hk

/-- Reading the answer to the last write is fresh. -/
theorem freshReads_takeAck {f bs : Bytes} {rest : List (Bytes × Bytes)} (hacks : s.acks = (f, bs) :: rest)
    (harriving : s.arriving = []) (hinput : s.input = []) (hwritten : s.written = some f) :
    FreshReads s (takeAck bs) := by
  obtain ⟨requests, acks, arriving, input, written, served, ram⟩ := s
  subst hacks harriving hinput
  change FreshReads _ ((.deliver :: List.replicate bs.length .arrive) ++ readsOf bs)
  refine FreshReads.append (freshReads_of_none (by simp [List.mem_replicate])) ?_
  intro m hm
  obtain ⟨k, hk, hm⟩ := run_cons.mp hm
  obtain rfl : (⟨requests, rest, bs.map (f, ·), [], written, served, ram⟩ : Link) = k := by
    simpa [Link.step] using hk
  have harrive := run_arrive ⟨requests, rest, [], [], written, served, ram⟩ (bs.map (f, ·))
  rw [List.length_map] at harrive
  obtain rfl := Option.some.inj (harrive.symm.trans hm)
  exact freshReads_reads (s := ⟨requests, rest, [], [], written, served, ram⟩) hwritten bs

/-! ### The host's side of the schedules -/

/-- An attempt that meets an acknowledgement ends the loop. -/
theorem pblWriteRamLoop_acknowledged (address : Int) (payload : Bytes) (n : Nat) {ack : Bytes} (hack : isAck ack = true)
    (rest : List Poll) :
    pblWriteRamLoop address payload (n + 1) (.polling ((hdlcFrame ack).map .byte ++ rest)) =
      (.ok (), .polling rest, hostEvents (sends (hdlcFrame payload) ++ takeAck (hdlcFrame ack))) := by
  have hne : ack ≠ [] := by
    rintro rfl
    exact absurd hack (by decide)
  rw [pblWriteRamLoop, Traced.run_bind_ok (transmit_polling _ _),
    Traced.run_bind_ok (readFrame_polling (readFrame_hdlcFrame hne rest)), hostEvents_append, hostEvents_takeAck]
  simp only [hack, if_true]
  simp [pure, Traced.pure, sends, hostEvents, Act.event]

/-- An attempt that meets its deadline is followed by the next one. -/
theorem pblWriteRamLoop_expired {address : Int} {payload : Bytes} {n : Nat} {polls : List Poll} {w : World}
    {l : List Event} (h : pblWriteRamLoop address payload n (.polling polls) = (.ok (), w, l)) :
    pblWriteRamLoop address payload (n + 1) (.polling (.expired :: polls)) =
      (.ok (), w, hostEvents (sends (hdlcFrame payload) ++ [.host (.poll .expired)]) ++ l) := by
  have hread : readFrame (.polling (.expired :: polls)) = (.ok none, .polling polls, [.poll .expired]) :=
    @readFrame_polling [.expired] polls none rfl
  rw [pblWriteRamLoop, Traced.run_bind_ok (transmit_polling _ _), Traced.run_bind_ok hread]
  simp [h, sends, hostEvents, Act.event]

/-- `pbl_write_ram` of a packet that fits is its loop. -/
theorem pblWriteRam_of_fits {p : Packet} (h : p.Fits) : ∃ payload, hdlcFrame payload = p.frame ∧
    ∀ w, pblWriteRam p.address p.data w = pblWriteRamLoop p.address payload 3 w := by
  obtain ⟨payload, hpayload, hframe⟩ := ramWritePayload_of_fits h
  refine ⟨payload, hframe, ?_⟩
  intro w
  rw [pblWriteRam, Traced.run_ofExcept_bind hpayload]

/-- A packet that is sent, served and answered without delay. -/
def prompt (f ack : Bytes) : List Act := sends f ++ [.serve ack] ++ takeAck (hdlcFrame ack)

theorem hostEvents_prompt (f ack : Bytes) :
    hostEvents (prompt f ack) = hostEvents (sends f ++ takeAck (hdlcFrame ack)) := by
  simp only [prompt, hostEvents_append]
  rfl

/-- A link with nothing on its way. -/
def Link.empty (written : Option Bytes) (served : List Bytes) (ram : Int → Byte) : Link :=
  ⟨[], [], [], [], written, served, ram⟩

section

variable {p : Packet} {ack : Bytes} (written : Option Bytes) (served : List Bytes) (ram : Int → Byte)

theorem run_sends_serve (hfits : p.Fits) (hack : isAck ack = true) :
    run Link.step (Link.empty written served ram) (sends p.frame ++ [.serve ack]) =
      some ⟨[], [(p.frame, hdlcFrame ack)], [], [], some p.frame, served ++ [p.frame], p.store ram⟩ := by
  simp [sends, run, Link.step, Link.empty, parseRamWrite_frame hfits, hack]

theorem run_prompt (hfits : p.Fits) (hack : isAck ack = true) :
    run Link.step (Link.empty written served ram) (prompt p.frame ack) =
      some (Link.empty (some p.frame) (served ++ [p.frame]) (p.store ram)) :=
  run_append.mpr ⟨_, run_sends_serve written served ram hfits hack, run_takeAck rfl rfl rfl⟩

theorem freshReads_prompt (hfits : p.Fits) (hack : isAck ack = true) :
    FreshReads (Link.empty written served ram) (prompt p.frame ack) := by
  refine FreshReads.append (freshReads_of_none (by simp [sends])) ?_
  intro m hm
  obtain rfl := Option.some.inj ((run_sends_serve written served ram hfits hack).symm.trans hm)
  exact freshReads_takeAck rfl rfl rfl rfl

end

/-- The first answer to `f₁` comes after its deadline, so `f₁` is sent twice; its second answer comes while the host
waits for one to `f₂`, which is lost. -/
def lateAck (f₁ f₂ ack : Bytes) : List Act :=
  sends f₁ ++ [.host (.poll .expired), .serve ack] ++ prompt f₁ ack ++ (sends f₂ ++ [.loseRequest 0]) ++
    takeAck (hdlcFrame ack)

/-- What the host does in an upload of two packets when the first deadline passes. -/
def onceExpired (f₁ f₂ ack : Bytes) : List Event :=
  hostEvents (sends f₁ ++ [.host (.poll .expired)]) ++ hostEvents (sends f₁ ++ takeAck (hdlcFrame ack)) ++
    hostEvents (sends f₂ ++ takeAck (hdlcFrame ack))

theorem hostEvents_lateAck (f₁ f₂ ack : Bytes) : hostEvents (lateAck f₁ f₂ ack) = onceExpired f₁ f₂ ack := by
  have hserve : hostEvents [.host (.poll .expired), .serve ack] = hostEvents [.host (.poll .expired)] := rfl
  have hlose : hostEvents [.loseRequest 0] = [] := rfl
  simp only [onceExpired, lateAck, hostEvents_append, hostEvents_prompt, hserve, hlose, List.nil_append, List.append_assoc]

/-- The second packet is never served. -/
theorem run_lateAck {p : Packet} {ack : Bytes} (f₂ : Bytes) (ram : Int → Byte) (hfits : p.Fits)
    (hack : isAck ack = true) :
    run Link.step (Link.idle ram) (lateAck p.frame f₂ ack) =
      some ⟨[], [], [], [], some f₂, [p.frame, p.frame], p.store (p.store ram)⟩ := by
  have hparse := parseRamWrite_frame hfits
  refine run_append.mpr ⟨⟨[], [(p.frame, hdlcFrame ack)], [], [], some f₂, [p.frame, p.frame], p.store (p.store ram)⟩, ?_,
    run_takeAck rfl rfl rfl⟩
  refine run_append.mpr ⟨⟨[], [(p.frame, hdlcFrame ack)], [], [], some p.frame, [p.frame, p.frame],
    p.store (p.store ram)⟩, ?_, by simp [sends, run, Link.step]⟩
  refine run_append.mpr ⟨⟨[], [(p.frame, hdlcFrame ack)], [], [], some p.frame, [p.frame], p.store ram⟩, ?_, ?_⟩
  · simp [sends, run, Link.step, Link.idle, hparse, hack]
  · refine run_append.mpr ⟨⟨[], [(p.frame, hdlcFrame ack), (p.frame, hdlcFrame ack)], [], [], some p.frame,
      [p.frame, p.frame], p.store (p.store ram)⟩, ?_, run_takeAck rfl rfl rfl⟩
    simp [sends, run, Link.step, hparse, hack]

/-- Such an upload returns. -/
theorem pblUpload_onceExpired {p₁ p₂ : Packet} {ack : Bytes} (h₁ : p₁.Fits) (h₂ : p₂.Fits)
    (hlength₁ : p₁.data.length = MAX_CHUNK) (hlength₂ : 0 < p₂.data.length) (hmax : p₂.data.length ≤ MAX_CHUNK)
    (haddress : p₂.address = p₁.address + MAX_CHUNK) (hack : isAck ack = true) :
    pblUpload p₁.address (p₁.data ++ p₂.data)
        (.polling (.expired :: ((hdlcFrame ack).map .byte ++ (hdlcFrame ack).map .byte))) =
      (.ok (), .polling [], onceExpired p₁.frame p₂.frame ack) := by
  obtain ⟨payload₁, hframe₁, hwrite₁⟩ := pblWriteRam_of_fits h₁
  obtain ⟨payload₂, hframe₂, hwrite₂⟩ := pblWriteRam_of_fits h₂
  have hchunk₁ : chunkAt (p₁.data ++ p₂.data) 0 = p₁.data := by
    rw [chunkAt, List.drop_zero, ← hlength₁, List.take_left]
  have hchunk₂ : chunkAt (p₁.data ++ p₂.data) p₁.data.length = p₂.data := by
    rw [chunkAt, List.drop_left, List.take_of_length_le hmax]
  have hfirst := pblWriteRamLoop_expired
    (pblWriteRamLoop_acknowledged p₁.address payload₁ 1 hack ((hdlcFrame ack).map .byte))
  have hsecond := pblWriteRamLoop_acknowledged p₂.address payload₂ 2 hack []
  rw [← hwrite₁, hframe₁] at hfirst
  rw [List.append_nil, ← hwrite₂, hframe₂, haddress, ← hlength₁] at hsecond
  rw [pblUpload, pblUploadFrom, dif_pos (by rw [List.length_append]; omega), hchunk₁, Int.natCast_zero, Int.add_zero,
    Traced.run_bind_ok hfirst, Nat.zero_add, pblUploadFrom, dif_pos (by rw [List.length_append]; omega), hchunk₂,
    Traced.run_bind_ok hsecond, pblUploadFrom, dif_neg (by rw [List.length_append]; omega), onceExpired]
  simp [pure, Traced.pure]

/-- The first answer to `f₁` is lost, so `f₁` is sent twice; every answer that is read is one to the last write. -/
def lostAck (f₁ f₂ ack : Bytes) : List Act :=
  sends f₁ ++ [.serve ack, .loseAck 0, .host (.poll .expired)] ++ prompt f₁ ack ++ prompt f₂ ack

theorem hostEvents_lostAck (f₁ f₂ ack : Bytes) : hostEvents (lostAck f₁ f₂ ack) = onceExpired f₁ f₂ ack := by
  have hlose : hostEvents [.serve ack, .loseAck 0, .host (.poll .expired)] = hostEvents [.host (.poll .expired)] := rfl
  simp only [onceExpired, lostAck, hostEvents_append, hostEvents_prompt, hlose, List.append_assoc]

theorem run_lost {p : Packet} {ack : Bytes} (ram : Int → Byte) (hfits : p.Fits) (hack : isAck ack = true) :
    run Link.step (Link.idle ram) (sends p.frame ++ [.serve ack, .loseAck 0, .host (.poll .expired)]) =
      some (Link.empty (some p.frame) [p.frame] (p.store ram)) := by
  simp [sends, run, Link.step, Link.idle, Link.empty, parseRamWrite_frame hfits, hack]

theorem run_lostAck {p₁ p₂ : Packet} {ack : Bytes} (ram : Int → Byte) (h₁ : p₁.Fits) (h₂ : p₂.Fits)
    (hack : isAck ack = true) :
    run Link.step (Link.idle ram) (lostAck p₁.frame p₂.frame ack) =
        some (Link.empty (some p₂.frame) [p₁.frame, p₁.frame, p₂.frame] (p₂.store (p₁.store (p₁.store ram)))) ∧
      FreshReads (Link.idle ram) (lostAck p₁.frame p₂.frame ack) := by
  have hlost := run_lost ram h₁ hack
  have hfirst := run_append.mpr ⟨_, hlost, run_prompt (some p₁.frame) [p₁.frame] (p₁.store ram) h₁ hack⟩
  refine ⟨run_append.mpr ⟨_, hfirst, run_prompt _ _ _ h₂ hack⟩, ?_⟩
  refine ((freshReads_of_none (by simp [sends])).append fun m hm => ?_).append fun m hm => ?_
  · obtain rfl := Option.some.inj (hlost.symm.trans hm)
    exact freshReads_prompt _ _ _ h₁ hack
  · obtain rfl := Option.some.inj (hfirst.symm.trans hm)
    exact freshReads_prompt _ _ _ h₂ hack

/-- An upload that returns has put its data into the RAM, if every byte it read was an answer to its last write. -/
theorem uploaded_of_freshReads {w w' : World} {acts : List Act} {ram : Int → Byte}
    (hhost : pblUpload address data w = (.ok (), w', hostEvents acts))
    (hrun : run Link.step (Link.idle ram) acts = some s') (hfresh : FreshReads (Link.idle ram) acts) :
    Uploaded address data s' := by
  have hdel : Delivered (packets address data) (hostEvents acts) := by
    have := (sat_pblUpload address data).run w
    rwa [hhost] at this
  have hserved := served_of_delivered hdel (fun _ h => h) (settled_idle address data ram) rfl hrun hfresh
  have hsettled : Settled address data s' :=
    settled_run hrun (writes_of_delivered hdel) (settled_idle address data ram)
  refine ⟨fun p hp => (hserved p hp).2, ?_⟩
  intro i hi
  have hcell : (address + (i : Int), data[i]) ∈ (packets address data).flatMap Packet.cells := by
    rw [flatMap_cells_packets]
    exact mem_cells.mpr ⟨i, rfl, List.getElem?_eq_getElem hi⟩
  obtain ⟨p, hp, hc⟩ := List.mem_flatMap.mp hcell
  exact hsettled.ram p hp (hserved p hp).1 (hserved p hp).2 _ hc

theorem uploaded_of_freshReads_lostAck :
    ∃ (w w' : World) (acts : List Act) (s' : Link),
      pblUpload 0x01000000 (List.replicate 1017 0x55 ++ [0xAA]) w = (.ok (), w', hostEvents acts) ∧
      run Link.step (Link.idle fun _ => 0) acts = some s' ∧ s'.served.length = 3 ∧
      Uploaded 0x01000000 (List.replicate 1017 0x55 ++ [0xAA]) s' := by
  have hlength : (List.replicate 1017 (0x55 : Byte)).length = MAX_CHUNK := List.length_replicate
  have h₁ : Packet.Fits ⟨0x01000000, List.replicate 1017 0x55⟩ := ⟨by decide, by rw [hlength]; decide⟩
  have h₂ : Packet.Fits ⟨0x010003F9, [0xAA]⟩ := ⟨by decide, by decide⟩
  have hack : isAck [0x02] = true := by decide
  have hhost := pblUpload_onceExpired h₁ h₂ hlength (by decide) (by decide) (by decide) hack
  rw [← hostEvents_lostAck] at hhost
  obtain ⟨hrun, hfresh⟩ := run_lostAck (fun _ => 0) h₁ h₂ hack
  exact ⟨_, _, _, _, hhost, hrun, rfl, uploaded_of_freshReads hhost hrun hfresh⟩

/-- An upload returns although the downloader never received its second packet: the late answer to the first packet is
taken for an answer to the second. -/
theorem pblUpload_loses_packet :
    ∃ (w w' : World) (acts : List Act) (s' : Link),
      pblUpload 0x01000000 (List.replicate 1017 0x55 ++ [0x55]) w = (.ok (), w', hostEvents acts) ∧
      run Link.step (Link.idle fun _ => 0) acts = some s' ∧
      ¬ Uploaded 0x01000000 (List.replicate 1017 0x55 ++ [0x55]) s' := by
  have hlength : (List.replicate 1017 (0x55 : Byte)).length = MAX_CHUNK := List.length_replicate
  have h₁ : Packet.Fits ⟨0x01000000, List.replicate 1017 0x55⟩ := ⟨by decide, by rw [hlength]; decide⟩
  have h₂ : Packet.Fits ⟨0x010003F9, [0x55]⟩ := ⟨by decide, by decide⟩
  have hack : isAck [0x02] = true := by decide
  have hhost := pblUpload_onceExpired h₁ h₂ hlength (by decide) (by decide) (by decide) hack
  rw [← hostEvents_lateAck] at hhost
  have hlink := run_lateAck (Packet.frame ⟨0x010003F9, [0x55]⟩) (fun _ => 0) h₁ hack
  refine ⟨_, _, _, _, hhost, hlink, ?_⟩
  intro h
  -- the cell of the second packet is as it was
  have hcell := h.holds MAX_CHUNK (by rw [List.length_append, hlength]; decide)
  have hout : ¬ ((0x01000000 : Int) ≤ 0x01000000 + (MAX_CHUNK : Nat) ∧
      (0x01000000 : Int) + (MAX_CHUNK : Nat) < 0x01000000 + (List.replicate 1017 (0x55 : Byte)).length) := by
    rw [hlength]
    omega
  rw [List.getElem_concat_length hlength.symm] at hcell
  simp only [Packet.store, if_neg hout] at hcell
  exact absurd hcell (by decide)

end ShadowMsm.Host
