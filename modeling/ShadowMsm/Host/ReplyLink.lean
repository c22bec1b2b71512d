import ShadowMsm.Host.Acknowledgement
import ShadowMsm.Host.Console
import ShadowMsm.Lib.Runs

/-!
# Requests to the monitor over a slow line

The monitor answers the requests of the host one at a time and in order, and it prints texts that nobody has asked for.
The line loses nothing and keeps the order, but may hold bytes back for any time.  `port.reset_input_buffer()` discards the
bytes that have arrived.

A reply names no request.  In this model every byte carries the frame it comes from, which the host does not see: the text
that `stage0_command` (`command` of the console) returns belongs to its own request if no other frame that comes between
the reset and the return has the form it waits for (`reply_to_own_request`).
-/

namespace ShadowMsm.Host

open Runs

/-! ### The line -/

/-- Where a frame comes from. -/
inductive Origin
  /-- the reply to the request with this number, counted from zero -/
  | reply (request : Nat)
  /-- the unsolicited text with this number -/
  | speech (text : Nat)
  deriving DecidableEq, Repr

/-- Host, line and monitor. -/
structure Line where
  /-- requests that the monitor has not answered, the first sent first -/
  requests : List Bytes
  /-- bytes on their way to the host, each with its frame -/
  flight : List (Origin × Byte)
  /-- the input buffer of the port -/
  input : List (Origin × Byte)
  /-- what the host has read since it cleared the buffer -/
  read : List (Origin × Byte)
  /-- the payloads of the replies, in the order of the requests -/
  answers : List Bytes
  /-- the payloads of the unsolicited texts -/
  spoken : List Bytes

/-- A line at rest. -/
def Line.idle : Line := ⟨[], [], [], [], [], []⟩

/-- The bytes of a frame. -/
def frameBytes (o : Origin) (payload : Bytes) : List (Origin × Byte) := (hdlcFrame payload).map (o, ·)

namespace Line

inductive Act
  /-- the host makes a call -/
  | host (t : Event)
  /-- the monitor takes the next request and answers it -/
  | answer (payload : Bytes)
  /-- the monitor prints a text on its own -/
  | speak (payload : Bytes)
  /-- a byte reaches the input buffer -/
  | arrive

/-- One step; none where the action is not possible. -/
def step (s : Line) : Act → Option Line
  | .host .resetInput => some { s with input := [], read := [] }
  | .host (.write f) => some { s with requests := s.requests ++ [f] }
  | .host (.poll (.byte b)) =>
    match s.input with
    | [] => none
    | (o, c) :: rest => if c = b then some { s with input := rest, read := s.read ++ [(o, c)] } else none
  -- `port.read(1)` waits for a byte when there is none
  | .host (.poll .idle) => if s.input = [] then some s else none
  | .host _ => some s
  | .answer payload =>
    match s.requests with
    | [] => none
    | _ :: rest =>
      if payload = [] then none
      else some { s with
        requests := rest
        flight := s.flight ++ frameBytes (.reply s.answers.length) payload
        answers := s.answers ++ [payload] }
  | .speak payload =>
    if payload = [] then none
    else some { s with
      flight := s.flight ++ frameBytes (.speech s.spoken.length) payload
      spoken := s.spoken ++ [payload] }
  | .arrive =>
    match s.flight with
    | [] => none
    | x :: rest => some { s with flight := rest, input := s.input ++ [x] }

/-- The host's part of an action. -/
def Act.event : Act → Option Event
  | .host t => some t
  | _ => none

/-- The trace of the host in a run. -/
def hostEvents (acts : List Act) : List Event := acts.filterMap Act.event

/-- The payload of a frame. -/
def payload (s : Line) : Origin → Option Bytes
  | .reply n => s.answers[n]?
  | .speech n => s.spoken[n]?

/-- All bytes since the buffer was cleared: those read, those in the buffer, those on their way. -/
def bytes (s : Line) : List (Origin × Byte) := s.read ++ (s.input ++ s.flight)

end Line

/-- A frame that a command which waits for `expected` takes for its reply. -/
def Matches (expected : Expected) (payload : Bytes) : Prop :=
  ∃ text, extractText (some payload) false = .ok text ∧ replyMatches expected text = true

/-- The request with number `n` is written in the state `m`, and the command returns in the state `r`: until then no other
frame can be taken for its reply, not one whose bytes are still to be read, not the reply to an earlier request, and not a
text that is printed. -/
structure Line.Clear (expected : Expected) (n : Nat) (m r : Line) : Prop where
  pending : ∀ x ∈ m.input ++ m.flight, ∀ p, r.payload x.1 = some p → ¬ Matches expected p
  unanswered : ∀ k p, m.answers.length ≤ k → k < n → r.answers[k]? = some p → ¬ Matches expected p
  later : ∀ k p, m.spoken.length ≤ k → r.spoken[k]? = some p → ¬ Matches expected p

/-! ### Frames in a stream -/

section

variable {fs : List (Origin × Bytes)} {o o₁ o₂ : Origin} {a b e : List (Origin × Byte)}

/-- The body of a frame. -/
def bodyBytes (o : Origin) (payload : Bytes) : List (Origin × Byte) := (stuffing.stuff (frameBody payload)).map (o, ·)

/-- A stream of frames. -/
def streamOf (fs : List (Origin × Bytes)) : List (Origin × Byte) := fs.flatMap fun x => frameBytes x.1 x.2

theorem frameBytes_eq (o : Origin) (payload : Bytes) :
    frameBytes o payload = (o, FLAG) :: (bodyBytes o payload ++ [(o, FLAG)]) := by
  simp [frameBytes, bodyBytes, hdlcFrame]

theorem streamOf_cons (x : Origin × Bytes) (fs : List (Origin × Bytes)) :
    streamOf (x :: fs) = (x.1, FLAG) :: (bodyBytes x.1 x.2 ++ (x.1, FLAG) :: streamOf fs) := by
  rw [streamOf, List.flatMap_cons, frameBytes_eq]
  simp [streamOf]

theorem flag_notMem_bodyBytes (o : Origin) (payload : Bytes) : ∀ x ∈ bodyBytes o payload, x.2 ≠ FLAG := by
  intro x hx hflag
  obtain ⟨c, hc, rfl⟩ := List.mem_map.mp hx
  exact flag_notMem_stuff_frameBody payload (hflag ▸ hc)

/-- What comes before the first flag. -/
private theorem append_flag_inj {e e' b b' : List (Origin × Byte)} {f f' : Origin × Byte} (he : ∀ x ∈ e, x.2 ≠ FLAG)
    (he' : ∀ x ∈ e', x.2 ≠ FLAG) (hf : f.2 = FLAG) (hf' : f'.2 = FLAG) (h : e ++ f :: b = e' ++ f' :: b') : e = e' := by
  induction e generalizing e' with
  | nil =>
    cases e' with
    | nil => rfl
    | cons y e' =>
      obtain ⟨rfl, -⟩ := List.cons.inj h
      exact absurd hf (he' _ List.mem_cons_self)
  | cons x e ih =>
    cases e' with
    | nil =>
      obtain ⟨rfl, -⟩ := List.cons.inj h
      exact absurd hf' (he _ List.mem_cons_self)
    | cons y e' =>
      obtain ⟨rfl, hrest⟩ := List.cons.inj h
      rw [ih (fun z hz => he z (List.mem_cons_of_mem _ hz)) (fun z hz => he' z (List.mem_cons_of_mem _ hz)) hrest]

/-- What stands between two flags of a stream of frames, if it is anything, is the body of one of the frames. -/
theorem body_of_flags {f f' : Origin × Byte} (h : streamOf fs = a ++ f :: (e ++ f' :: b)) (hf : f.2 = FLAG)
    (hf' : f'.2 = FLAG) (hne : e ≠ []) (he : ∀ x ∈ e, x.2 ≠ FLAG) : ∃ x ∈ fs, e = bodyBytes x.1 x.2 := by
  induction fs generalizing a with
  | nil =>
    cases a with
    | nil => cases h
    | cons y a => cases h
  | cons x fs ih =>
    rw [streamOf_cons] at h
    cases a with
    | nil =>
      obtain ⟨-, h⟩ := List.cons.inj h
      exact ⟨x, List.mem_cons_self, (append_flag_inj (flag_notMem_bodyBytes _ _) he rfl hf' h).symm⟩
    | cons y a =>
      obtain ⟨rfl, hrest⟩ := List.cons.inj h
      rcases List.append_eq_append_iff.mp hrest with ⟨c, rfl, hc⟩ | ⟨c, hbody, hc⟩
      · cases c with
        | nil =>
          -- the first flag is the closing one of the frame: what follows is a flag, or nothing
          obtain ⟨-, hc⟩ := List.cons.inj hc
          obtain ⟨z, e, rfl⟩ := List.exists_cons_of_ne_nil hne
          cases fs with
          | nil => cases hc
          | cons w fs =>
            rw [streamOf_cons] at hc
            obtain ⟨rfl, -⟩ := List.cons.inj hc
            exact absurd rfl (he _ List.mem_cons_self)
        | cons z c =>
          obtain ⟨-, hc⟩ := List.cons.inj hc
          obtain ⟨y, hy, hbody⟩ := ih hc
          exact ⟨y, List.mem_cons_of_mem _ hy, hbody⟩
      · cases c with
        | nil =>
          obtain ⟨-, hc⟩ := List.cons.inj hc
          obtain ⟨z, e, rfl⟩ := List.exists_cons_of_ne_nil hne
          cases fs with
          | nil => cases hc
          | cons w fs =>
            rw [streamOf_cons] at hc
            obtain ⟨rfl, -⟩ := List.cons.inj hc
            exact absurd rfl (he _ List.mem_cons_self)
        | cons z c =>
          obtain ⟨rfl, -⟩ := List.cons.inj hc
          exact absurd hf (flag_notMem_bodyBytes x.1 x.2 f (by rw [hbody]; simp))

end

/-! ### Steps -/

namespace Line

/-- What a step does. -/
inductive StepCase (s : Line) : Act → Line → Prop
  | reset : StepCase s (.host .resetInput) { s with input := [], read := [] }
  | write (f : Bytes) : StepCase s (.host (.write f)) { s with requests := s.requests ++ [f] }
  | read {o : Origin} {b : Byte} {rest : List (Origin × Byte)} (hinput : s.input = (o, b) :: rest) :
      StepCase s (.host (.poll (.byte b))) { s with input := rest, read := s.read ++ [(o, b)] }
  /-- a call that does not touch the line -/
  | other {t : Event} (hreset : t ≠ .resetInput) (hwrite : ∀ f, t ≠ .write f) (hread : ∀ b, t ≠ .poll (.byte b)) :
      StepCase s (.host t) s
  | answer {p f : Bytes} {rest : List Bytes} (hrequests : s.requests = f :: rest) (hp : p ≠ []) :
      StepCase s (.answer p) { s with
        requests := rest
        flight := s.flight ++ frameBytes (.reply s.answers.length) p
        answers := s.answers ++ [p] }
  | speak {p : Bytes} (hp : p ≠ []) :
      StepCase s (.speak p) { s with
        flight := s.flight ++ frameBytes (.speech s.spoken.length) p
        spoken := s.spoken ++ [p] }
  | arrive {x : Origin × Byte} {rest : List (Origin × Byte)} (hflight : s.flight = x :: rest) :
      StepCase s .arrive { s with flight := rest, input := s.input ++ [x] }

section

variable {s s' m : Line} {a : Act} {acts : List Act} {n : Nat} {o : Origin} {p : Bytes}

theorem step_cases (h : s.step a = some s') : StepCase s a s' := by
  cases a with
  | host t =>
    cases t with
    | resetInput =>
      cases h
      exact .reset
    | write f =>
      cases h
      exact .write f
    | poll q =>
      cases q with
      | byte b =>
        unfold step at h
        rcases hinput : s.input with - | ⟨⟨o, c⟩, rest⟩
        · simp [hinput] at h
        · simp only [hinput, Option.ite_none_right_eq_some, Option.some.injEq] at h
          obtain ⟨rfl, rfl⟩ := h
          exact .read hinput
      | idle =>
        simp only [step, Option.ite_none_right_eq_some, Option.some.injEq] at h
        obtain ⟨-, rfl⟩ := h
        exact .other nofun nofun nofun
      | expired | fault =>
        cases h
        exact .other nofun nofun nofun
    | resetOutput | flush | readBytes | openPort | system =>
      cases h
      exact .other nofun nofun nofun
  | answer p =>
    unfold step at h
    rcases hrequests : s.requests with - | ⟨f, rest⟩
    · simp [hrequests] at h
    · simp only [hrequests, Option.ite_none_left_eq_some, Option.some.injEq] at h
      obtain ⟨hp, rfl⟩ := h
      exact .answer hrequests hp
  | speak p =>
    simp only [step, Option.ite_none_left_eq_some, Option.some.injEq] at h
    obtain ⟨hp, rfl⟩ := h
    exact .speak hp
  | arrive =>
    unfold step at h
    rcases hflight : s.flight with - | ⟨x, rest⟩
    · simp [hflight] at h
    · simp only [hflight, Option.some.injEq] at h
      subst h
      exact .arrive hflight

/-- Replies and texts are added at the end. -/
theorem grows_step (h : s.step a = some s') : s.answers <+: s'.answers ∧ s.spoken <+: s'.spoken := by
  cases step_cases h with
  | answer => exact ⟨List.prefix_append _ _, List.prefix_refl _⟩
  | speak => exact ⟨List.prefix_refl _, List.prefix_append _ _⟩
  | reset | write | read | other | arrive => exact ⟨List.prefix_refl _, List.prefix_refl _⟩

theorem grows_run (h : run step s acts = some s') : s.answers <+: s'.answers ∧ s.spoken <+: s'.spoken :=
  run_invariant (P := fun m => s.answers <+: m.answers ∧ s.spoken <+: m.spoken) (A := fun _ => True)
    (fun _ _ _ hstep _ hm => ⟨hm.1.trans (grows_step hstep).1, hm.2.trans (grows_step hstep).2⟩) h (fun _ _ => trivial)
    ⟨List.prefix_refl _, List.prefix_refl _⟩

/-- A payload that is known stays the same. -/
theorem payload_of_grows (h : s.answers <+: s'.answers ∧ s.spoken <+: s'.spoken) (hp : s.payload o = some p) :
    s'.payload o = some p := by
  have hget {xs ys : List Bytes} (hxs : xs <+: ys) {k : Nat} (hk : xs[k]? = some p) : ys[k]? = some p := by
    obtain ⟨zs, rfl⟩ := hxs
    rw [List.getElem?_append_left (List.getElem?_eq_some_iff.mp hk).1]
    exact hk
  cases o with
  | reply k => exact hget h.1 hp
  | speech k => exact hget h.2 hp

/-! ### Whole frames -/

/-- The bytes come in whole frames, of which only the first ones may be missing. -/
def Framed (s : Line) : Prop :=
  ∃ fs, s.bytes <:+ streamOf fs ∧ ∀ x ∈ fs, x.2 ≠ [] ∧ s.payload x.1 = some x.2

theorem framed_idle : Line.idle.Framed := ⟨[], List.suffix_refl _, nofun⟩

/-- A frame that is new comes after the others. -/
private theorem framed_frame (hs : s.Framed) (hgrows : s.answers <+: s'.answers ∧ s.spoken <+: s'.spoken) (hp : p ≠ [])
    (hpayload : s'.payload o = some p) (hbytes : s'.bytes = s.bytes ++ frameBytes o p) : s'.Framed := by
  obtain ⟨fs, ⟨before, hfs⟩, hpayloads⟩ := hs
  refine ⟨fs ++ [(o, p)], ⟨before, ?_⟩, ?_⟩
  · rw [hbytes, ← List.append_assoc, hfs, streamOf, streamOf, List.flatMap_append]
    simp
  · intro x hx
    rcases List.mem_append.mp hx with hx | hx
    · exact ⟨(hpayloads x hx).1, payload_of_grows hgrows (hpayloads x hx).2⟩
    · rw [List.mem_singleton.mp hx]
      exact ⟨hp, hpayload⟩

theorem framed_step (h : s.step a = some s') (hs : s.Framed) : s'.Framed := by
  have hgrows := grows_step h
  cases step_cases h with
  | reset =>
    obtain ⟨fs, hfs, hpayloads⟩ := hs
    have hsuffix : bytes { s with input := [], read := [] } <:+ s.bytes := ⟨s.read ++ s.input, by simp [bytes]⟩
    exact ⟨fs, hsuffix.trans hfs, hpayloads⟩
  | write => exact hs
  | @read o b rest hinput =>
    obtain ⟨fs, hfs, hpayloads⟩ := hs
    refine ⟨fs, ?_, hpayloads⟩
    rw [bytes, hinput] at hfs
    simpa [bytes] using hfs
  | other => exact hs
  | answer hrequests hp =>
    exact framed_frame (o := .reply s.answers.length) hs hgrows hp (by simp [payload]) (by simp [bytes])
  | speak hp => exact framed_frame (o := .speech s.spoken.length) hs hgrows hp (by simp [payload]) (by simp [bytes])
  | @arrive x rest hflight =>
    obtain ⟨fs, hfs, hpayloads⟩ := hs
    refine ⟨fs, ?_, hpayloads⟩
    rw [bytes, hflight] at hfs
    simpa [bytes] using hfs

theorem framed_run (h : run step s acts = some s') (hs : s.Framed) : s'.Framed :=
  run_invariant (A := fun _ => True) (fun _ _ _ hstep _ hm => framed_step hstep hm) h (fun _ _ => trivial) hs

/-- A frame that the host has read between two flags is one of the frames of the line. -/
theorem frame_of_read {before encoded : Bytes} (hs : s.Framed)
    (hread : s.read.map Prod.snd = before ++ FLAG :: (encoded ++ [FLAG])) (hflag : FLAG ∉ encoded) (hne : encoded ≠ []) :
    ∃ o p, s.payload o = some p ∧ p ≠ [] ∧ encoded = stuffing.stuff (frameBody p) ∧ ∃ x ∈ s.bytes, x.1 = o := by
  obtain ⟨fs, ⟨missing, hfs⟩, hpayloads⟩ := hs
  obtain ⟨a, r, hread, -, hr⟩ := List.map_eq_append_iff.mp hread
  obtain ⟨f, r, rfl, hf, hr⟩ := List.map_eq_cons_iff.mp hr
  obtain ⟨e, r, rfl, rfl, hlast⟩ := List.map_eq_append_iff.mp hr
  obtain ⟨f', r, rfl, hf', hnothing⟩ := List.map_eq_cons_iff.mp hlast
  obtain rfl := List.map_eq_nil_iff.mp hnothing
  have hstream : streamOf fs = (missing ++ a) ++ f :: (e ++ f' :: (s.input ++ s.flight)) := by
    rw [← hfs, bytes, hread]
    simp
  have hflags : ∀ x ∈ e, x.2 ≠ FLAG := fun x hx h => hflag (h ▸ List.mem_map_of_mem hx)
  have hnil : e ≠ [] := fun h => hne (by rw [h]; rfl)
  obtain ⟨x, hx, hbody⟩ := body_of_flags hstream hf hf' hnil hflags
  refine ⟨x.1, x.2, (hpayloads x hx).2, (hpayloads x hx).1, ?_, ?_⟩
  · rw [hbody, bodyBytes, List.map_map]
    exact List.map_id _
  · obtain ⟨y, e', rfl⟩ := List.exists_cons_of_ne_nil hnil
    have hy : y ∈ bodyBytes x.1 x.2 := hbody ▸ List.mem_cons_self
    obtain ⟨c, -, rfl⟩ := List.mem_map.mp hy
    refine ⟨(x.1, c), ?_, rfl⟩
    rw [bytes, hread]
    simp

/-! ### After a request -/

/-- The number of requests that were written. -/
theorem requests_step (h : s.step a = some s') :
    s'.answers.length + s'.requests.length = s.answers.length + s.requests.length + (writes a.event.toList).length := by
  cases step_cases h with
  | answer hrequests hp =>
    simp only [List.length_append, Act.event, Option.toList_none, writes, List.length_nil, hrequests, List.length_cons]
    omega
  | write f =>
    simp only [List.length_append, List.length_singleton, Act.event, Option.toList_some, writes]
    omega
  | @other t hreset hwrite hread =>
    cases t with
    | write f => exact absurd rfl (hwrite f)
    | _ => rfl
  | reset | read | speak | arrive => rfl

theorem requests_run (h : run step s acts = some s') :
    s'.answers.length + s'.requests.length = s.answers.length + s.requests.length + (writes (hostEvents acts)).length := by
  induction acts generalizing s with
  | nil =>
    obtain rfl := Option.some.inj h
    rfl
  | cons a acts ih =>
    obtain ⟨m, hm, hrest⟩ := run_cons.mp h
    have hevents : hostEvents (a :: acts) = a.event.toList ++ hostEvents acts := by
      rw [hostEvents, List.filterMap_cons]
      cases a.event <;> rfl
    rw [ih hrest, requests_step hm, hevents, writes_append, List.length_append]
    omega

theorem hostEvents_cons (a : Act) (acts : List Act) : hostEvents (a :: acts) = a.event.toList ++ hostEvents acts := by
  rw [hostEvents, List.filterMap_cons]
  cases a.event <;> rfl

/-- A step that does not clear the buffer adds the byte it reads. -/
theorem read_step (h : s.step a = some s') (hreset : a.event ≠ some .resetInput) :
    s'.read.map Prod.snd = s.read.map Prod.snd ++ arrivals (pollsOf a.event.toList) := by
  cases step_cases h with
  | reset => exact absurd rfl hreset
  | @read o b rest hinput => simp [Act.event, pollsOf, arrivals]
  | @other t _ _ hread =>
    cases t with
    | poll q =>
      cases q with
      | byte b => exact absurd rfl (hread b)
      | idle | expired | fault => exact (List.append_nil _).symm
    | _ => exact (List.append_nil _).symm
  | write | answer | speak | arrive => exact (List.append_nil _).symm

/-- What the host has read since the buffer was cleared, if it was not cleared again. -/
theorem read_run (h : run step s acts = some s') (hreset : .resetInput ∉ hostEvents acts) :
    s'.read.map Prod.snd = s.read.map Prod.snd ++ arrivals (pollsOf (hostEvents acts)) := by
  induction acts generalizing s with
  | nil =>
    obtain rfl := Option.some.inj h
    simp [hostEvents, pollsOf, arrivals]
  | cons a acts ih =>
    obtain ⟨m, hm, hrest⟩ := run_cons.mp h
    rw [hostEvents_cons, List.mem_append, not_or] at hreset
    have hfirst : a.event ≠ some .resetInput := by
      intro ha
      rw [ha] at hreset
      exact hreset.1 List.mem_cons_self
    have hpolls : pollsOf (hostEvents (a :: acts)) = pollsOf a.event.toList ++ pollsOf (hostEvents acts) := by
      rw [hostEvents_cons, pollsOf, List.filterMap_append]
      rfl
    rw [ih hrest hreset.2, read_step hm hfirst, hpolls, arrivals_append, List.append_assoc]

/-- The frame is one that the host may read of after the state `m`. -/
def After (m : Line) (o : Origin) : Prop :=
  (∃ x ∈ m.input ++ m.flight, x.1 = o) ∨ (∃ k, m.answers.length ≤ k ∧ o = .reply k) ∨
    ∃ k, m.spoken.length ≤ k ∧ o = .speech k

theorem after_step (h : s.step a = some s') (hgrows : m.answers <+: s.answers ∧ m.spoken <+: s.spoken)
    (hs : ∀ x ∈ s.bytes, After m x.1) : ∀ x ∈ s'.bytes, After m x.1 := by
  have hframe {o : Origin} {p : Bytes} (hnew : After m o) : ∀ x ∈ s.bytes ++ frameBytes o p, After m x.1 := by
    intro x hx
    rcases List.mem_append.mp hx with hx | hx
    · exact hs x hx
    · obtain ⟨c, -, rfl⟩ := List.mem_map.mp hx
      exact hnew
  cases step_cases h with
  | reset =>
    intro x hx
    exact hs x (List.mem_append_right _ (List.mem_append_right _ (by simpa [bytes] using hx)))
  | write | other => exact hs
  | @read o b rest hinput =>
    rw [bytes, hinput] at hs
    simpa [bytes] using hs
  | @answer p f rest hrequests hp =>
    have hnew := hframe (p := p) (.inr (.inl ⟨s.answers.length, hgrows.1.length_le, rfl⟩))
    simpa [bytes] using hnew
  | @speak p hp =>
    have hnew := hframe (p := p) (.inr (.inr ⟨s.spoken.length, hgrows.2.length_le, rfl⟩))
    simpa [bytes] using hnew
  | @arrive x rest hflight =>
    rw [bytes, hflight] at hs
    simpa [bytes] using hs

theorem after_run (h : run step m acts = some s') (hread : m.read = []) : ∀ x ∈ s'.bytes, After m x.1 := by
  have hstart : ∀ x ∈ m.bytes, After m x.1 := by
    intro x hx
    rw [bytes, hread, List.nil_append] at hx
    exact .inl ⟨x, hx, rfl⟩
  exact (run_invariant (P := fun s => (m.answers <+: s.answers ∧ m.spoken <+: s.spoken) ∧ ∀ x ∈ s.bytes, After m x.1)
    (A := fun _ => True)
    (fun _ _ _ hstep _ hs => ⟨⟨hs.1.1.trans (grows_step hstep).1, hs.1.2.trans (grows_step hstep).2⟩,
      after_step hstep hs.1 hs.2⟩) h (fun _ _ => trivial)
    ⟨⟨List.prefix_refl _, List.prefix_refl _⟩, hstart⟩).2

theorem split_hostEvents {l r : List Event} {t : Event} (h : hostEvents acts = l ++ t :: r) :
    ∃ as bs, acts = as ++ .host t :: bs ∧ hostEvents as = l ∧ hostEvents bs = r := by
  refine split_filterMap_of_eq (g := .host) ?_ h
  intro a ha
  cases a with
  | host u => rw [Option.some.inj ha]
  | _ => cases ha

theorem hostEvents_append (as bs : List Act) : hostEvents (as ++ bs) = hostEvents as ++ hostEvents bs :=
  List.filterMap_append

/-- Right after the buffer was cleared nothing has been read. -/
theorem read_of_reset {pre : List Event} (h : run step s acts = some s') (hacts : hostEvents acts = pre ++ [.resetInput]) :
    s'.read = [] := by
  obtain ⟨as, bs, rfl, -, hbs⟩ := split_hostEvents hacts
  obtain ⟨m, -, hrest⟩ := run_append.mp h
  obtain ⟨m', hreset, hrest⟩ := run_cons.mp hrest
  cases hreset
  have hread := read_run hrest (by rw [hbs]; exact List.not_mem_nil)
  rw [hbs] at hread
  exact List.map_eq_nil_iff.mp hread

end

end Line

/-! ### The host's side -/

section

variable {payload : Bytes} {expected : Expected} {w w' : World} {text : List Char} {l : List Event}

theorem EndsWithFrame.append {polls polls' : List Poll} {encoded : Bytes} (h : EndsWithFrame polls' encoded) :
    EndsWithFrame (polls ++ polls') encoded := by
  obtain ⟨hflag, before, hbefore⟩ := h
  exact ⟨hflag, arrivals polls ++ before, by rw [arrivals_append, hbefore, List.append_assoc]⟩

/-- The loop of `command`: the texts it ignores are handed to `on_message`, if there is one. -/
def commandReplies (onMessage : Bool) (expected : Expected) (ignored : List (List Char)) : Nat → Script (List Char)
  | 0 =>
    throw (.runtimeError ("target response timeout" ++
      if ignored = [] then "" else "; ignored delayed replies: " ++ reprTexts ignored))
  | passes + 1 => do
    match ← readFrame with
    | none => commandReplies onMessage expected ignored passes
    | some response =>
      let text ← Traced.ofExcept (extractText (some response) false)
      if replyMatches expected text then pure text
      else do
        if onMessage then perform .system
        commandReplies onMessage expected (ignored ++ [text]) passes

/-- `command` of the stage-0 console, and `stage0_command` of the shell, which is the same. -/
def command (onMessage : Bool) (payload : Bytes) (expected : Expected) : Script (List Char) := do
  transmit (hdlcFrame payload)
  let passes ← drawPasses
  commandReplies onMessage expected [] passes

/-- The launcher gives no callback. -/
theorem command_false (payload : Bytes) (expected : Expected) : command false payload expected = stage0Exchange payload expected := by
  have hreplies (ignored : List (List Char)) (n : Nat) :
      commandReplies false expected ignored n = stage0Replies expected ignored n := by
    induction n generalizing ignored with
    | zero => rfl
    | succ n ih =>
      rw [commandReplies, stage0Replies]
      congr 1
      funext o
      cases o with
      | none => exact ih ignored
      | some response =>
        simp only [Bool.false_eq_true, if_false, ih]
  simp only [command, stage0Exchange, hreplies]

/-- The events of a loop that waits for a reply. -/
def Waits (l : List Event) : Prop := ∀ t ∈ l, (∃ p, t = .poll p) ∨ t = .system

theorem pollsOf_append (l l' : List Event) : pollsOf (l ++ l') = pollsOf l ++ pollsOf l' := List.filterMap_append

theorem pollsOf_map_poll (polls : List Poll) : pollsOf (polls.map .poll) = polls := by simp [pollsOf]

theorem waits_map_poll (polls : List Poll) : Waits (polls.map .poll) := by
  intro t ht
  obtain ⟨p, -, rfl⟩ := List.mem_map.mp ht
  exact .inl ⟨p, rfl⟩

theorem Waits.append {l l' : List Event} (h : Waits l) (h' : Waits l') : Waits (l ++ l') := by
  intro t ht
  rcases List.mem_append.mp ht with ht | ht
  · exact h t ht
  · exact h' t ht

theorem Waits.writes {l : List Event} (h : Waits l) : writes l = [] := by
  induction l with
  | nil => rfl
  | cons t l ih =>
    have hl := ih fun u hu => h u (List.mem_cons_of_mem t hu)
    rcases h t List.mem_cons_self with ⟨p, rfl⟩ | rfl
    · exact hl
    · exact hl

/-- A loop that returns a text has read a frame with this text at last. -/
theorem commandReplies_returns {onMessage : Bool} {ignored : List (List Char)} {n : Nat}
    (h : commandReplies onMessage expected ignored n w = (.ok text, w', l)) :
    Waits l ∧ ∃ encoded response, EndsWithFrame (pollsOf l) encoded ∧ decodeBody encoded = .ok response ∧
      extractText (some response) false = .ok text ∧ replyMatches expected text = true := by
  induction n generalizing ignored w l with
  | zero => cases h
  | succ n ih =>
    rw [commandReplies] at h
    obtain ⟨o, w₁, l₁, l₂, hread, hrest, rfl⟩ := Traced.of_run_bind_ok h
    obtain ⟨made, hmade, rfl, ⟨rfl, -⟩ | ⟨encoded, response, rfl, hscan, hdecode⟩⟩ := readFrame_ok hread
    · obtain ⟨hwaits, encoded, response, hends, hresponse⟩ := ih hrest
      refine ⟨(waits_map_poll made).append hwaits, encoded, response, ?_, hresponse⟩
      rw [pollsOf_append]
      exact hends.append
    · obtain ⟨t, w₂, l₃, l₄, hextract, hmatches, rfl⟩ := Traced.of_run_bind_ok hrest
      obtain ⟨htext, rfl, rfl⟩ := Traced.of_run_ofExcept_ok hextract
      rw [List.nil_append]
      by_cases ht : replyMatches expected t = true
      · rw [if_pos ht] at hmatches
        cases hmatches
        rw [hmade] at hscan
        rw [List.append_nil]
        refine ⟨waits_map_poll made, encoded, response, ?_, hdecode, htext, ht⟩
        rw [pollsOf_map_poll]
        exact scan_frame hscan
      · rw [if_neg ht] at hmatches
        obtain ⟨l₅, l₆, w₃, hsystem, hloop, rfl⟩ : ∃ l₅ l₆ w₃, Waits l₅ ∧
            commandReplies onMessage expected (ignored ++ [t]) n w₃ = (.ok text, w', l₆) ∧ l₄ = l₅ ++ l₆ := by
          cases onMessage with
          | false => exact ⟨[], l₄, w₁, nofun, hmatches, rfl⟩
          | true =>
            obtain ⟨_, w₃, l₅, l₆, hsystem, hloop, rfl⟩ := Traced.of_run_bind_ok hmatches
            obtain rfl := perform_ok hsystem
            exact ⟨[.system], l₆, w₃, fun u hu => .inr (List.mem_singleton.mp hu), hloop, rfl⟩
        obtain ⟨hwaits, encoded', response', hends, hresponse⟩ := ih hloop
        refine ⟨(waits_map_poll made).append (hsystem.append hwaits), encoded', response', ?_, hresponse⟩
        rw [pollsOf_append, pollsOf_append]
        exact hends.append.append

theorem command_returns {onMessage : Bool} (h : command onMessage payload expected w = (.ok text, w', l)) :
    ∃ waiting encoded response, l = [.resetInput, .write (hdlcFrame payload), .flush] ++ waiting ∧ Waits waiting ∧
      EndsWithFrame (pollsOf waiting) encoded ∧ decodeBody encoded = .ok response ∧
      extractText (some response) false = .ok text ∧ replyMatches expected text = true := by
  obtain ⟨_, w₁, l₁, l₂, hsent, hrest, rfl⟩ := Traced.of_run_bind_ok h
  obtain ⟨n, passes, hdraw⟩ := drawPasses_run w₁
  rw [Traced.run_bind_ok hdraw, List.nil_append] at hrest
  obtain ⟨hwaits, encoded, response, hends, hresponse⟩ := commandReplies_returns hrest
  exact ⟨l₂, encoded, response, by rw [transmit_ok hsent], hwaits, hends, hresponse⟩

theorem replyMatches_nil (expected : Expected) : replyMatches expected [] = false := by cases expected <;> rfl

end

/-! ### A reply to its own request -/

section

variable {payload : Bytes} {expected : Expected} {w w' : World} {text : List Char} {l pre : List Event}
  {before during after : List Line.Act} {m r s' : Line}

/-- The text that `command` returns is that of the reply to this very request, if no other frame that comes between the
write and the return has the form it waits for: whatever the host did before and does afterwards, and whenever the bytes
arrive. -/
theorem reply_to_own_request {onMessage : Bool} (h : command onMessage payload expected w = (.ok text, w', l))
    (hm : run Line.step .idle before = some m) (hbefore : Line.hostEvents before = pre ++ [.resetInput])
    (hr : run Line.step m (.host (.write (hdlcFrame payload)) :: during) = some r)
    (hduring : [.resetInput, .write (hdlcFrame payload)] ++ Line.hostEvents during = l)
    (hafter : run Line.step r after = some s') (hclear : Line.Clear expected (writes pre).length m r) :
    ∃ reply, s'.answers[(writes pre).length]? = some reply ∧ extractText (some reply) false = .ok text := by
  obtain ⟨waiting, encoded, response, hl, hwaits, ⟨hflag, bs, hbytes⟩, hdecode, htext, hmatches⟩ := command_returns h
  have hresponse : Matches expected response := ⟨text, htext, hmatches⟩
  have hencoded : encoded ≠ [] := by
    rintro rfl
    obtain rfl : [] = response := Except.ok.inj hdecode
    obtain rfl : [] = text := Except.ok.inj htext
    rw [replyMatches_nil] at hmatches
    cases hmatches
  have hevents : Line.hostEvents during = .flush :: waiting :=
    List.append_cancel_left (hduring.trans hl)
  obtain ⟨m₁, hwrite, hrun⟩ := run_cons.mp hr
  have hread₀ : m.read = [] := Line.read_of_reset hm hbefore
  have hbytesAfter : ∀ x ∈ r.bytes, m.After x.1 := Line.after_run hr hread₀
  have hframed : r.Framed := Line.framed_run (run_append.mpr ⟨m, hm, hr⟩) Line.framed_idle
  have hread : r.read.map Prod.snd = bs ++ FLAG :: (encoded ++ [FLAG]) := by
    have hpolls : pollsOf (.flush :: waiting) = pollsOf waiting := rfl
    have hreset : .resetInput ∉ Event.flush :: waiting := by
      intro hmem
      rcases List.mem_cons.mp hmem with h | h
      · cases h
      · rcases hwaits _ h with ⟨p, hp⟩ | hp
        · cases hp
        · cases hp
    have hwritten : m₁.read = [] := by
      cases hwrite
      exact hread₀
    rw [Line.read_run hrun (hevents ▸ hreset), hwritten, hevents, hpolls, hbytes]
    rfl
  obtain ⟨o, p, hpayload, hp, rfl, x, hx, rfl⟩ := Line.frame_of_read hframed hread hflag hencoded
  rw [decodeBody_stuff hp] at hdecode
  obtain rfl := Except.ok.inj hdecode
  -- the frame of the text is none of those that the condition rules out
  rcases hbytesAfter x hx with ⟨y, hy, hxy⟩ | ⟨k, hk, hxk⟩ | ⟨k, hk, hxk⟩
  · exact absurd hresponse (hclear.pending y hy p (hxy ▸ hpayload))
  · have hfinal := Line.payload_of_grows (Line.grows_run hafter) hpayload
    rw [hxk] at hfinal hpayload
    rcases Nat.lt_trichotomy k (writes pre).length with hlt | rfl | hlt
    · exact absurd hresponse (hclear.unanswered k p hk hlt hpayload)
    · exact ⟨p, hfinal, htext⟩
    · have hcount := Line.requests_run (run_append.mpr ⟨m, hm, hr⟩)
      have hanswered : k < r.answers.length := (List.getElem?_eq_some_iff.mp hpayload).1
      rw [Line.hostEvents_append, hbefore, Line.hostEvents_cons, hevents, writes_append, writes_append] at hcount
      simp [Line.idle, Line.Act.event, writes, hwaits.writes] at hcount
      omega
  · rw [hxk] at hpayload
    exact absurd hresponse (hclear.later k p hk hpayload)

/-! ### Schedules -/

/-- The host sends a frame. -/
def Line.sends (f : Bytes) : List Line.Act := [.host .resetInput, .host (.write f), .host .flush]

/-- Bytes arrive and are read one by one. -/
def Line.takes (xs : List (Origin × Byte)) : List Line.Act := xs.flatMap fun x => [.arrive, .host (.poll (.byte x.2))]

theorem Line.hostEvents_takes (xs : List (Origin × Byte)) :
    Line.hostEvents (Line.takes xs) = ((xs.map Prod.snd).map Poll.byte).map .poll := by
  induction xs with
  | nil => rfl
  | cons x xs ih => exact congrArg (Event.poll (.byte x.2) :: ·) ih

theorem Line.run_takes (s : Line) (xs rest : List (Origin × Byte)) (hinput : s.input = []) (hflight : s.flight = xs ++ rest) :
    run Line.step s (Line.takes xs) = some { s with flight := rest, read := s.read ++ xs } := by
  induction xs generalizing s with
  | nil =>
    rw [List.nil_append] at hflight
    rw [List.append_nil, ← hflight]
    rfl
  | cons x xs ih =>
    have harrive : s.step .arrive = some { s with flight := xs ++ rest, input := [x] } := by
      simp [Line.step, hflight, hinput]
    have hread : Line.step { s with flight := xs ++ rest, input := [x] } (.host (.poll (.byte x.2))) =
        some { s with flight := xs ++ rest, input := [], read := s.read ++ [x] } := by
      simp [Line.step]
    refine run_cons.mpr ⟨_, harrive, run_cons.mpr ⟨_, hread, ?_⟩⟩
    have htakes := ih { s with flight := xs ++ rest, input := [], read := s.read ++ [x] } rfl rfl
    rw [List.append_assoc] at htakes
    refine htakes.trans ?_
    rw [hinput]
    rfl

theorem Line.run_arrives (s : Line) (xs : List (Origin × Byte)) :
    run Line.step { s with flight := xs } (List.replicate xs.length .arrive) =
      some { s with flight := [], input := s.input ++ xs } := by
  induction xs generalizing s with
  | nil => simp [run]
  | cons x xs ih =>
    have hrest := ih { s with input := s.input ++ [x] }
    rw [List.append_assoc] at hrest
    exact hrest

theorem map_snd_frameBytes (o : Origin) (p : Bytes) : (frameBytes o p).map Prod.snd = hdlcFrame p := by
  rw [frameBytes, List.map_map]
  exact List.map_id _

/-- A world in which a frame comes at once. -/
def World.replying (reply : Bytes) : World := ⟨(hdlcFrame reply).map .byte, [], [], [], [1], []⟩

/-- A command whose world has a reply takes it, wherever this comes from. -/
theorem command_takes {onMessage : Bool} {reply : Bytes} (o : Origin) (hreply : reply ≠ [])
    (htext : extractText (some reply) false = .ok text) (hmatches : replyMatches expected text = true) :
    command onMessage payload expected (.replying reply) =
      (.ok text, .polling [], Line.hostEvents (Line.sends (hdlcFrame payload)) ++
        Line.hostEvents (Line.takes (frameBytes o reply))) := by
  have htransmit : transmit (hdlcFrame payload) (.replying reply) =
      (.ok (), .replying reply, [.resetInput, .write (hdlcFrame payload), .flush]) := rfl
  have hpasses : drawPasses (.replying reply) = (.ok 1, .polling ((hdlcFrame reply).map .byte ++ []), []) := by
    rw [List.append_nil]
    rfl
  have hread := readFrame_polling (readFrame_hdlcFrame hreply [])
  rw [command, Traced.run_bind_ok htransmit, Traced.run_bind_ok hpasses, commandReplies, Traced.run_bind_ok hread]
  dsimp only
  rw [Traced.run_ofExcept_bind htext, if_pos hmatches, Line.hostEvents_takes, map_snd_frameBytes]
  simp [pure, Traced.pure, Line.sends, Line.hostEvents, Line.Act.event]

/-- The CRC of the first 15.5 MiB of the window, which takes the monitor more than three seconds, and that of the DTB. -/
def slowQuery : Bytes := request 0x0C (leBytes 4 0x01000000 ++ leBytes 4 0x00F80000)

def nextQuery : Bytes := request 0x0C (leBytes 4 0x01F80000 ++ leBytes 4 883)

def slowReply : Bytes := 0x0E :: encodeAscii "11111111\n".toList

def nextReply : Bytes := 0x0E :: encodeAscii "C511699F\n".toList

private theorem extractText_slowReply : extractText (some slowReply) false = .ok "11111111".toList := by decide

private theorem extractText_nextReply : extractText (some nextReply) false = .ok "C511699F".toList := by decide

private theorem matches_slowReply : replyMatches .hex "11111111".toList = true := by decide

private theorem matches_nextReply : replyMatches .hex "C511699F".toList = true := by decide

theorem command_slowQuery : command false slowQuery .hex ⟨[.expired], [], [], [], [1], []⟩ =
    (.error (.runtimeError "target response timeout"), .polling [],
      Line.hostEvents (Line.sends (hdlcFrame slowQuery) ++ [.host (.poll .expired)])) := rfl

/-- A request times out, and its reply arrives before the buffer is cleared for the next one. -/
def clearedReply (f reply : Bytes) : List Line.Act :=
  Line.sends f ++ [.host (.poll .expired), .answer reply] ++
    List.replicate (frameBytes (.reply 0) reply).length .arrive ++ [.host .resetInput]

theorem run_clearedReply (f : Bytes) {reply : Bytes} (h : reply ≠ []) :
    run Line.step .idle (clearedReply f reply) = some ⟨[], [], [], [], [reply], []⟩ := by
  have hsent : run Line.step .idle (Line.sends f ++ [.host (.poll .expired), .answer reply]) =
      some ⟨[], frameBytes (.reply 0) reply, [], [], [reply], []⟩ := by
    simp [Line.sends, run, Line.step, Line.idle, h]
  have harrive := Line.run_arrives ⟨[], [], [], [], [reply], []⟩ (frameBytes (.reply 0) reply)
  exact run_append.mpr ⟨_, run_append.mpr ⟨_, hsent, harrive⟩, rfl⟩

theorem hostEvents_clearedReply (f reply : Bytes) : Line.hostEvents (clearedReply f reply) =
    Line.hostEvents (Line.sends f ++ [.host (.poll .expired)]) ++ [.resetInput] := by
  have hnone : Line.hostEvents (List.replicate (frameBytes (.reply 0) reply).length .arrive) = [] :=
    List.filterMap_eq_nil_iff.mpr fun a ha => by rw [List.eq_of_mem_replicate ha]; rfl
  rw [clearedReply, Line.hostEvents_append, Line.hostEvents_append, hnone]
  rfl

/-- The next request is answered at once. -/
theorem run_promptReply (f : Bytes) {first reply : Bytes} (h : reply ≠ []) :
    run Line.step ⟨[], [], [], [], [first], []⟩ (.host (.write f) :: ([.host .flush, .answer reply] ++
      Line.takes (frameBytes (.reply 1) reply))) =
      some ⟨[], [], [], frameBytes (.reply 1) reply, [first, reply], []⟩ := by
  have hanswered : run Line.step ⟨[], [], [], [], [first], []⟩ [.host (.write f), .host .flush, .answer reply] =
      some ⟨[], frameBytes (.reply 1) reply, [], [], [first, reply], []⟩ := by
    simp [run, Line.step, h]
  exact run_append.mpr ⟨_, hanswered, Line.run_takes ⟨[], frameBytes (.reply 1) reply, [], [], [first, reply], []⟩
    (frameBytes (.reply 1) reply) [] rfl (List.append_nil _).symm⟩

theorem hostEvents_promptReply (f reply : Bytes) (xs : List (Origin × Byte)) :
    [.resetInput, .write f] ++ Line.hostEvents ([.host .flush, .answer reply] ++ Line.takes xs) =
      Line.hostEvents (Line.sends f) ++ Line.hostEvents (Line.takes xs) := by
  rw [Line.hostEvents_append]
  rfl

theorem writes_expired (f : Bytes) :
    (writes (Line.hostEvents (Line.sends f ++ [.host (.poll .expired)]))).length = 1 := rfl

theorem reply_to_own_request_cleared : ∃ w w' w₂ w₂' l l₂ acts s',
    command false slowQuery .hex w = (.error (.runtimeError "target response timeout"), w', l) ∧
    command false nextQuery .hex w₂ = (.ok "C511699F".toList, w₂', l₂) ∧
    Line.hostEvents acts = l ++ l₂ ∧ run Line.step .idle acts = some s' ∧
    ∃ reply, s'.answers[1]? = some reply ∧ extractText (some reply) false = .ok "C511699F".toList := by
  have hne : nextReply ≠ [] := List.cons_ne_nil _ _
  have hhost : command false nextQuery .hex (.replying nextReply) = (.ok "C511699F".toList, .polling [],
      Line.hostEvents (Line.sends (hdlcFrame nextQuery)) ++
        Line.hostEvents (Line.takes (frameBytes (.reply 1) nextReply))) :=
    command_takes (.reply 1) hne extractText_nextReply matches_nextReply
  have htimeout := command_slowQuery
  generalize hdlcFrame slowQuery = f at htimeout
  have hm := run_clearedReply f (List.cons_ne_nil _ _ : slowReply ≠ [])
  have hr := @run_promptReply (hdlcFrame nextQuery) slowReply nextReply hne
  have hclear : Line.Clear .hex 1 ⟨[], [], [], [], [slowReply], []⟩
      ⟨[], [], [], frameBytes (.reply 1) nextReply, [slowReply, nextReply], []⟩ :=
    ⟨nofun, fun k p hk hlt => absurd hk (Nat.not_le_of_lt hlt), fun k p _ hk => by cases hk⟩
  rw [← writes_expired f] at hclear
  have hduring := hostEvents_promptReply (hdlcFrame nextQuery) nextReply (frameBytes (.reply 1) nextReply)
  have hdone (s : Line) : run Line.step s [] = some s := rfl
  have hreply := reply_to_own_request hhost hm (hostEvents_clearedReply f slowReply) hr hduring (hdone _) hclear
  rw [writes_expired f] at hreply
  refine ⟨_, _, _, _, _, _, _, _, htimeout, hhost, ?_, run_append.mpr ⟨_, hm, hr⟩, hreply⟩
  rw [Line.hostEvents_append, hostEvents_clearedReply, ← hduring, List.append_assoc, Line.hostEvents_cons]
  rfl

/-- The first query times out.  Its reply comes after the buffer was cleared for the second one and is taken for the reply to
that. -/
theorem command_takes_late_reply : ∃ w w' w₂ w₂' l l₂ acts s',
    command false slowQuery .hex w = (.error (.runtimeError "target response timeout"), w', l) ∧
    command false nextQuery .hex w₂ = (.ok "11111111".toList, w₂', l₂) ∧
    Line.hostEvents acts = l ++ l₂ ∧ run Line.step .idle acts = some s' ∧
    s'.answers = [slowReply, nextReply] ∧ extractText (some nextReply) false = .ok "C511699F".toList := by
  have hslow : slowReply ≠ [] := List.cons_ne_nil _ _
  have hnext : nextReply ≠ [] := List.cons_ne_nil _ _
  let first : List Line.Act := Line.sends (hdlcFrame slowQuery) ++ [.host (.poll .expired), .answer slowReply]
  let sent : Line := ⟨[hdlcFrame nextQuery], frameBytes (.reply 0) slowReply, [], [], [slowReply], []⟩
  let taken : Line := { sent with flight := [], read := frameBytes (.reply 0) slowReply }
  have hsent : run Line.step .idle (first ++ Line.sends (hdlcFrame nextQuery)) = some sent := by
    simp [first, sent, Line.sends, run, Line.step, Line.idle, hslow]
  have htaken : run Line.step sent (Line.takes (frameBytes (.reply 0) slowReply)) = some taken :=
    Line.run_takes sent (frameBytes (.reply 0) slowReply) [] rfl (List.append_nil _).symm
  have hanswered : run Line.step taken [.answer nextReply] = some
      { taken with requests := [], flight := frameBytes (.reply 1) nextReply, answers := [slowReply, nextReply] } := by
    simp [taken, sent, run, Line.step, hnext]
  have hrun := run_append.mpr ⟨taken, run_append.mpr ⟨sent, hsent, htaken⟩, hanswered⟩
  have hhost : command false nextQuery .hex (.replying slowReply) = (.ok "11111111".toList, .polling [],
      Line.hostEvents (Line.sends (hdlcFrame nextQuery)) ++ Line.hostEvents (Line.takes (frameBytes (.reply 0) slowReply))) :=
    command_takes (.reply 0) hslow extractText_slowReply matches_slowReply
  refine ⟨_, _, _, _, _, _, _, _, command_slowQuery, hhost, ?_, hrun, rfl, extractText_nextReply⟩
  simp only [Line.hostEvents_append, List.append_assoc]
  exact congrArg (_ ++ ·) (congrArg (_ ++ ·) (List.append_nil _))

end

end ShadowMsm.Host
