import ShadowMsm.Lib.Traced
import ShadowMsm.Python

/-!
# What the host scripts do

A script is a program over a `World`, the answers its environment still has to give, and leaves an `Event` for every
call it makes.  Statements about a script quantify over the world, so they hold for all bytes the target sends, all
timeouts and all errors of the port.
-/

namespace ShadowMsm.Host

/-- The files of `PAYLOADS`. -/
inductive Payload
  | monitor
  | image
  | bl1
  | dtb
  deriving DecidableEq, Repr

/-- A call of a script. -/
inductive Event
  /-- `port.reset_input_buffer()` -/
  | resetInput
  /-- `port.reset_output_buffer()` -/
  | resetOutput
  /-- `port.write(bs)`; a write that raises may have transmitted some of the bytes -/
  | write (bs : Bytes)
  /-- `port.flush()` -/
  | flush
  /-- one pass of the loop of `read_frame` -/
  | poll (p : Poll)
  /-- `path.read_bytes()` of a payload file -/
  | readBytes (payload : Payload) (data : Bytes)
  /-- opening a port and setting its lines -/
  | openPort
  /-- any other call, or several in a row: logs, processes, the list of ports, the terminal -/
  | system
  deriving DecidableEq, Repr

/-- What `live_chunks.get_nowait()` finds. -/
inductive Key
  | empty
  | detach
  | chunk (bs : Bytes)
  deriving DecidableEq, Repr

/-- The answers of the environment, the next one first. -/
structure World where
  /-- what the passes of `read_frame` meet -/
  polls : List Poll
  /-- how the other calls end: `none` for a return, else what is raised; when the list is used up they all return -/
  outcomes : List (Option Exn)
  /-- contents of the files read, none where there is no such file -/
  files : List (Option Bytes)
  /-- results of the port selections -/
  ports : List (Option String)
  /-- for each loop with a deadline, how many passes it has before that -/
  passes : List Nat
  /-- what the keyboard queue holds at each look -/
  keys : List Key

/-- A world in which the reads meet `polls` and no other call raises. -/
def World.polling (polls : List Poll) : World := ⟨polls, [], [], [], [], []⟩

/-- The scripts. -/
abbrev Script := Traced Exn World Event

/-- A call without a result. -/
def perform (t : Event) : Script Unit := fun w =>
  match w.outcomes with
  | [] => (.ok (), w, [t])
  | none :: rest => (.ok (), { w with outcomes := rest }, [t])
  | some e :: rest => (.error e, { w with outcomes := rest }, [t])

/-- The exceptions of a `read_frame` that writes its checksums with `hex`. -/
def readFrameExnWith (hex : Nat → String) : ReadError → Exn
  | .crcMismatch got want => .runtimeError ("CRC mismatch: " ++ hex got.toNat ++ " != " ++ hex want.toNat)
  | .port => .osError

/-- The exceptions of the `read_frame` that the consoles and the loaders share. -/
def readFrameExn : ReadError → Exn := readFrameExnWith format04X

/-- A `read_frame` that writes its checksums with `hex`, with the polls that it makes. -/
def readFrameWith (hex : Nat → String) : Script (Option Bytes) := fun w =>
  let r := ShadowMsm.readFrame w.polls
  let made := w.polls.take (w.polls.length - r.2.length)
  (r.1.mapError (readFrameExnWith hex), { w with polls := r.2 }, made.map .poll)

/-- `read_frame` -/
def readFrame : Script (Option Bytes) := readFrameWith format04X

/-- The three calls that every request starts with: `port.reset_input_buffer()`, `port.write(bs)`, `port.flush()`. -/
def transmit (bs : Bytes) : Script Unit := do
  perform .resetInput
  perform (.write bs)
  perform .flush

/-- The bytes of the writes of a trace, write by write. -/
def writes : List Event → List Bytes
  | [] => []
  | .write bs :: l => bs :: writes l
  | _ :: l => writes l

/-! ### Rules -/

theorem sat_perform {t : Event} {φ : Except Exn Unit → List Event → Prop} (h : ∀ r, φ r [t]) :
    Traced.Sat (perform t) φ := by
  constructor
  intro w
  unfold perform
  rcases w.outcomes with - | ⟨o, rest⟩
  · exact h _
  · cases o with
    | none => exact h _
    | some e => exact h _

/-- A byte moves the loop to another state of its variables, or it is the flag that ends it. -/
theorem readFrameFrom_byte (started : Bool) (encoded : Bytes) (b : Byte) :
    (∃ started' encoded', ∀ polls,
      readFrameFrom started encoded (.byte b :: polls) = readFrameFrom started' encoded' polls) ∨
    (b = FLAG ∧ ∃ r, ∀ polls, readFrameFrom started encoded (.byte b :: polls) = (r, polls)) := by
  by_cases hflag : b = FLAG
  · cases started with
    | false => exact .inl ⟨true, encoded, fun polls => by simp [readFrameFrom, hflag]⟩
    | true =>
      by_cases hempty : encoded = []
      · exact .inl ⟨true, encoded, fun polls => by simp [readFrameFrom, hflag, hempty]⟩
      · exact .inr ⟨hflag, (decodeBody encoded).map some, fun polls => by simp [readFrameFrom, hflag, hempty]⟩
  · cases started with
    | false => exact .inl ⟨false, encoded, fun polls => by simp [readFrameFrom, hflag]⟩
    | true => exact .inl ⟨true, encoded ++ [b], fun polls => by simp [readFrameFrom, hflag]⟩

/-- The polls of one call are those it takes off the front, and they alone decide its result. -/
theorem readFrameFrom_made (started : Bool) (encoded : Bytes) (polls : List Poll) :
    ∃ made, polls = made ++ (readFrameFrom started encoded polls).2 ∧
      readFrameFrom started encoded made = ((readFrameFrom started encoded polls).1, []) := by
  induction polls generalizing started encoded with
  | nil => exact ⟨[], rfl, rfl⟩
  | cons p polls ih =>
    cases p with
    | expired => exact ⟨[.expired], rfl, rfl⟩
    | fault => exact ⟨[.fault], rfl, rfl⟩
    | idle =>
      obtain ⟨made, h1, h2⟩ := ih started encoded
      exact ⟨.idle :: made, congrArg (Poll.idle :: ·) h1, h2⟩
    | byte b =>
      rcases readFrameFrom_byte started encoded b with ⟨started', encoded', h⟩ | ⟨-, r, h⟩
      · obtain ⟨made, h1, h2⟩ := ih started' encoded'
        rw [h]
        exact ⟨.byte b :: made, congrArg (Poll.byte b :: ·) h1, (h made).trans h2⟩
      · rw [h]
        exact ⟨[.byte b], rfl, h []⟩

/-- A call that returns a frame has read a byte, at the end: the closing flag. -/
theorem readFrameFrom_some {started : Bool} {encoded response : Bytes} {polls : List Poll}
    (h : readFrameFrom started encoded polls = (.ok (some response), [])) :
    ∃ init, polls = init ++ [.byte FLAG] := by
  induction polls generalizing started encoded with
  | nil => simp [readFrameFrom] at h
  | cons p polls ih =>
    cases p with
    | expired => simp [readFrameFrom] at h
    | fault => simp [readFrameFrom] at h
    | idle =>
      obtain ⟨init, rfl⟩ := ih h
      exact ⟨.idle :: init, rfl⟩
    | byte b =>
      rcases readFrameFrom_byte started encoded b with ⟨started', encoded', hgo⟩ | ⟨rfl, r, hend⟩
      · rw [hgo] at h
        obtain ⟨init, rfl⟩ := ih h
        exact ⟨.byte b :: init, rfl⟩
      · rw [hend, Prod.mk.injEq] at h
        exact ⟨[], by rw [h.2, List.nil_append]⟩

/-- A `read_frame` leaves the polls it makes, and they give its result. -/
theorem sat_readFrameWith (hex : Nat → String) : Traced.Sat (readFrameWith hex) fun r l =>
    ∃ polls : List Poll, l = polls.map .poll ∧ ∀ o, r = .ok o → ShadowMsm.readFrame polls = (.ok o, []) := by
  constructor
  intro w
  obtain ⟨made, h1, h2⟩ := readFrameFrom_made false [] w.polls
  have htake : w.polls.take (w.polls.length - (readFrameFrom false [] w.polls).2.length) = made := by
    generalize (readFrameFrom false [] w.polls).2 = rest at h1
    rw [h1]
    simp
  refine ⟨made, congrArg (List.map Event.poll) htake, ?_⟩
  intro o ho
  change (readFrameFrom false [] w.polls).1.mapError (readFrameExnWith hex) = .ok o at ho
  change readFrameFrom false [] made = _
  cases hr : (readFrameFrom false [] w.polls).1 with
  | error e => simp [hr, Except.mapError] at ho
  | ok o' =>
    rw [h2, hr]
    simpa [hr, Except.mapError] using ho

theorem sat_readFrame : Traced.Sat readFrame fun r l =>
    ∃ polls : List Poll, l = polls.map .poll ∧ ∀ o, r = .ok o → ShadowMsm.readFrame polls = (.ok o, []) :=
  sat_readFrameWith format04X

/-- What `readFrame` leaves is what `read_frame` of its polls leaves. -/
theorem readFrame_run {w w' : World} {r : Except Exn (Option Bytes)} {l : List Event} (h : readFrame w = (r, w', l)) :
    ∃ made, w.polls = made ++ w'.polls ∧ l = made.map .poll ∧ r = (ShadowMsm.readFrame w.polls).1.mapError readFrameExn ∧
      w' = { w with polls := (ShadowMsm.readFrame w.polls).2 } := by
  obtain ⟨made, h1, -⟩ := readFrameFrom_made false [] w.polls
  obtain ⟨rfl, rfl, rfl⟩ : _ ∧ _ ∧ _ := by simpa [readFrame, readFrameWith, Prod.ext_iff] using h
  refine ⟨made, h1, ?_, rfl, rfl⟩
  rw [← List.map_take]
  refine congrArg (List.map Event.poll) ?_
  change w.polls.take (w.polls.length - (readFrameFrom false [] w.polls).2.length) = made
  generalize (readFrameFrom false [] w.polls).2 = rest at h1
  rw [h1]
  simp

theorem transmit_polling (bs : Bytes) (polls : List Poll) :
    transmit bs (.polling polls) = (.ok (), .polling polls, [.resetInput, .write bs, .flush]) := rfl

theorem readFrame_polling {made rest : List Poll} {r : Option Bytes}
    (h : ShadowMsm.readFrame (made ++ rest) = (.ok r, rest)) :
    readFrame (.polling (made ++ rest)) = (.ok r, .polling rest, made.map .poll) := by
  simp [readFrame, readFrameWith, World.polling, h, Except.mapError]

/-- Only a read takes polls. -/
theorem perform_polls {t : Event} {w w' : World} {r : Except Exn Unit} {l : List Event}
    (h : perform t w = (r, w', l)) : w'.polls = w.polls := by
  unfold perform at h
  split at h
  all_goals
    cases h
    rfl

theorem transmit_polls {bs : Bytes} {w w' : World} {a : Unit} {l : List Event} (h : transmit bs w = (.ok a, w', l)) :
    w'.polls = w.polls := by
  obtain ⟨_, w₁, l₁, l₂, h₁, h, -⟩ := Traced.of_run_bind_ok h
  obtain ⟨_, w₂, l₃, l₄, h₂, h₃, -⟩ := Traced.of_run_bind_ok h
  exact ((perform_polls h₃).trans (perform_polls h₂)).trans (perform_polls h₁)

/-! ### Writes of a trace -/

theorem sat_transmit {bs : Bytes} {φ : Except Exn Unit → List Event → Prop}
    (herr : ∀ e l, writes l = [] ∨ writes l = [bs] → φ (.error e) l) (hok : φ (.ok ()) [.resetInput, .write bs, .flush]) :
    Traced.Sat (transmit bs) φ := by
  unfold transmit
  apply Traced.sat_bind (φ := fun _ l => l = [.resetInput]) (sat_perform fun _ => rfl)
  · rintro e l rfl
    exact herr e _ (.inl rfl)
  · rintro _ l rfl
    apply Traced.sat_bind (φ := fun _ l => l = [.write bs]) (sat_perform fun _ => rfl)
    · rintro e l rfl
      exact herr e _ (.inr rfl)
    · rintro _ l rfl
      apply sat_perform
      intro r
      cases r with
      | error e => exact herr e _ (.inr rfl)
      | ok _ => exact hok

theorem perform_ok {t : Event} {w w' : World} {a : Unit} {l : List Event} (h : perform t w = (.ok a, w', l)) :
    l = [t] :=
  (sat_perform (φ := fun _ l => l = [t]) fun _ => rfl).of_run h

theorem transmit_ok {bs : Bytes} {w w' : World} {a : Unit} {l : List Event} (h : transmit bs w = (.ok a, w', l)) :
    l = [.resetInput, .write bs, .flush] :=
  (sat_transmit (φ := fun r l => ∀ a, r = .ok a → l = [.resetInput, .write bs, .flush])
    (fun _ _ _ _ h => nomatch h) fun _ _ => rfl).of_run h a rfl

@[simp] theorem writes_append (l l' : List Event) : writes (l ++ l') = writes l ++ writes l' := by
  induction l with
  | nil => rfl
  | cons t l ih => cases t <;> simp [writes, ih]

@[simp] theorem writes_map_poll (polls : List Poll) : writes (polls.map .poll) = [] := by
  induction polls with
  | nil => rfl
  | cons p polls ih => simp [writes, ih]

theorem mem_writes {f : Bytes} {l : List Event} : f ∈ writes l ↔ .write f ∈ l := by
  induction l with
  | nil => simp [writes]
  | cons t l ih => cases t <;> simp [writes, ih]

/-- A script that writes nothing, before one whose property is about its writes. -/
theorem sat_silent_bind {α β : Type} {f : Script α} {g : α → Script β} {φ : Except Exn β → List Bytes → Prop}
    (hf : Traced.Sat f fun _ l => writes l = []) (herr : ∀ e, φ (.error e) [])
    (hg : ∀ a, Traced.Sat (g a) fun r l => φ r (writes l)) : Traced.Sat (f >>= g) fun r l => φ r (writes l) := by
  apply Traced.sat_bind hf
  · intro e l hl
    rw [hl]
    exact herr e
  · intro a l hl
    simpa [hl] using hg a

end ShadowMsm.Host
