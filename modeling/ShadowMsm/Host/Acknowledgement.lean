import ShadowMsm.HdlcStream
import ShadowMsm.Host.Pbl

/-!
# What counts as an acknowledgement of a RAM write

`read_frame` checks the CRC of a frame only when the frame has more than two bytes, so `pbl_write_ram` (`write_ram` of the
bundle loader) can take a frame of one or two bytes for an acknowledgement.  Apart from such frames every
acknowledgement it takes carries the CRC of its payload (`authenticated_iff`).
-/

namespace ShadowMsm.Host

/-! ### Frames in a history -/

/-- Where one call of `read_frame` stops. -/
inductive Scan
  | deadline
  | fault
  /-- at the closing flag of a frame, with the bytes between its flags -/
  | frame (encoded : Bytes)
  deriving DecidableEq, Repr

/-- The flags of a history, as `read_frame` follows them, without a look at what is between them. -/
def scanFrom (started : Bool) (encoded : Bytes) : List Poll → Scan × List Poll
  | [] => (.deadline, [])
  | .expired :: polls => (.deadline, polls)
  | .idle :: polls => scanFrom started encoded polls
  | .fault :: polls => (.fault, polls)
  | .byte b :: polls =>
    if b = FLAG then
      if !started then scanFrom true encoded polls
      else if encoded = [] then scanFrom started encoded polls
      else (.frame encoded, polls)
    else if started then scanFrom started (encoded ++ [b]) polls
    else scanFrom started encoded polls

def scan (polls : List Poll) : Scan × List Poll := scanFrom false [] polls

/-- What `read_frame` makes of it. -/
def Scan.result : Scan → Except ReadError (Option Bytes)
  | .deadline => .ok none
  | .fault => .error .port
  | .frame encoded => (decodeBody encoded).map some

/-- The bytes seen since the opening flag, and then `s`. -/
private def heard (started : Bool) (encoded s : Bytes) : Bytes := if started then FLAG :: (encoded ++ s) else s

/-- The frame that a history of polls ends with. -/
def EndsWithFrame (polls : List Poll) (encoded : Bytes) : Prop :=
  FLAG ∉ encoded ∧ ∃ before, arrivals polls = before ++ FLAG :: (encoded ++ [FLAG])

/-- The frame on which `pbl_write_ram` comes to a decision, with the attempts that are left: the first one that is not
empty once the escaping is undone.  A deadline or an empty frame is followed by the next attempt. -/
def decidingFrame : Nat → List Poll → Option Bytes
  | 0, _ => none
  | attempts + 1, polls =>
    match (scan polls).1 with
    | .deadline => decidingFrame attempts (scan polls).2
    | .fault => none
    | .frame encoded =>
      if stuffing.unstuff false encoded = [] then decidingFrame attempts (scan polls).2 else some encoded

/-- A frame of one or two bytes, too short for a CRC, that passes the test of the response. -/
def ShortAck (encoded : Bytes) : Prop :=
  (stuffing.unstuff false encoded).length < 3 ∧ isAck (stuffing.unstuff false encoded) = true

instance (encoded : Bytes) : Decidable (ShortAck encoded) := inferInstanceAs (Decidable (_ ∧ _))

/-- The body of a frame is an acknowledgement followed by its CRC. -/
def Authentic (encoded : Bytes) : Prop :=
  ∃ payload, stuffing.unstuff false encoded = frameBody payload ∧ isAck payload = true

/-- A RAM write that returns has read, since it sent its request the last time, a stream of bytes that ends with a complete
frame around an acknowledgement and its CRC. -/
def Authenticated (address : Int) (data : Bytes) (w : World) : Prop :=
  ∀ a w' l, pblWriteRam address data w = (.ok a, w', l) → ∃ retries polls encoded,
    l = retries ++ [.resetInput, .write (Packet.frame ⟨address, data⟩), .flush] ++ polls.map .poll ∧
      EndsWithFrame polls encoded ∧ Authentic encoded

/-- The polls of a trace. -/
def pollsOf (l : List Event) : List Poll := l.filterMap fun t => match t with | .poll p => some p | _ => none

/-! ### Scanning -/

theorem readFrameFrom_eq_scan (started : Bool) (encoded : Bytes) (polls : List Poll) :
    readFrameFrom started encoded polls =
      ((scanFrom started encoded polls).1.result, (scanFrom started encoded polls).2) := by
  induction polls generalizing started encoded with
  | nil => rfl
  | cons p polls ih =>
    cases p with
    | expired | fault => rfl
    | idle => exact ih started encoded
    | byte b =>
      rw [readFrameFrom, scanFrom]
      split_ifs
      · exact ih true encoded
      · exact ih started encoded
      · rfl
      · exact ih started (encoded ++ [b])
      · exact ih started encoded

theorem readFrame_eq_scan (polls : List Poll) : ShadowMsm.readFrame polls = ((scan polls).1.result, (scan polls).2) :=
  readFrameFrom_eq_scan false [] polls

/-- A scan that has gone past a poll has not stopped before it. -/
private theorem scanFrom_past {started : Bool} {encoded : Bytes} {result : Scan} {p : Poll} {polls rest made : List Poll}
    (h : scanFrom started encoded polls = (result, rest)) (hmade : p :: polls = made ++ rest) :
    ∃ made', made = p :: made' ∧ polls = made' ++ rest := by
  cases made with
  | nil =>
    have hlen : (scanFrom started encoded polls).2.length ≤ polls.length := by
      obtain ⟨made', h1, -⟩ := readFrameFrom_made started encoded polls
      simp only [readFrameFrom_eq_scan] at h1
      have := congrArg List.length h1
      rw [List.length_append] at this
      omega
    rw [h, ← show p :: polls = rest from hmade, List.length_cons] at hlen
    omega
  | cons q made' =>
    rw [List.cons_append, List.cons.injEq] at hmade
    exact ⟨made', by rw [hmade.1], hmade.2⟩

/-- The polls up to the end of a frame end with this frame, between its flags. -/
private theorem scanFrom_frame {started : Bool} {encoded e : Bytes} {polls rest made : List Poll}
    (h : scanFrom started encoded polls = (.frame e, rest)) (hmade : polls = made ++ rest) (hf : FLAG ∉ encoded)
    (hs : started = false → encoded = []) :
    FLAG ∉ e ∧ ∃ before, heard started encoded (arrivals made) = before ++ FLAG :: (e ++ [FLAG]) := by
  induction polls generalizing started encoded made with
  | nil => simp [scanFrom] at h
  | cons p polls ih =>
    cases p with
    | expired | fault => simp [scanFrom] at h
    | idle =>
      have hscan : scanFrom started encoded polls = (.frame e, rest) := h
      obtain ⟨made', rfl, hm⟩ := scanFrom_past hscan hmade
      obtain ⟨he, hheard⟩ := ih hscan hm hf hs
      exact ⟨he, hheard⟩
    | byte b =>
      rw [scanFrom] at h
      split_ifs at h with hflag hstart hempty hstart
      · -- the opening flag
        obtain ⟨made', rfl, hm⟩ := scanFrom_past h hmade
        obtain rfl : started = false := by simpa using hstart
        obtain rfl := hs rfl
        obtain ⟨he, before, hb⟩ := ih h hm hf (by simp)
        refine ⟨he, before, ?_⟩
        simpa [heard, arrivals, hflag] using hb
      · -- a flag right after the opening flag
        obtain ⟨made', rfl, hm⟩ := scanFrom_past h hmade
        obtain rfl : started = true := by simpa using hstart
        obtain ⟨he, before, hb⟩ := ih h hm hf (by simp)
        refine ⟨he, FLAG :: before, ?_⟩
        simpa [heard, arrivals, hflag, hempty] using hb
      · -- the closing flag
        obtain rfl : started = true := by simpa using hstart
        obtain ⟨rfl, rfl⟩ : encoded = e ∧ polls = rest := by simpa using h
        have hone : made ++ polls = [.byte b] ++ polls := by simpa using hmade.symm
        obtain rfl := List.append_cancel_right hone
        exact ⟨hf, [], by simp [heard, arrivals, hflag]⟩
      · -- a byte between the flags
        obtain ⟨made', rfl, hm⟩ := scanFrom_past h hmade
        have hf' : FLAG ∉ encoded ++ [b] := by simp [hf, Ne.symm hflag]
        obtain ⟨he, before, hb⟩ := ih h hm hf' (by simp [hstart])
        refine ⟨he, before, ?_⟩
        simpa [heard, hstart, arrivals] using hb
      · -- a byte before the opening flag
        obtain ⟨made', rfl, hm⟩ := scanFrom_past h hmade
        obtain rfl : started = false := by simpa using hstart
        obtain ⟨he, before, hb⟩ := ih h hm hf hs
        refine ⟨he, b :: before, ?_⟩
        simp only [heard, Bool.false_eq_true, if_false] at hb ⊢
        rw [arrivals, hb, List.cons_append]

theorem scan_frame {e : Bytes} {made rest : List Poll} (h : scan (made ++ rest) = (.frame e, rest)) :
    EndsWithFrame made e := scanFrom_frame h rfl (by simp) fun _ => rfl

/-- The frame at the end of what was read is the same however the trace is cut. -/
theorem EndsWithFrame.unique {l l' : List Event} {polls polls' : List Poll} {e e' : Bytes}
    (h : l ++ polls.map .poll = l' ++ polls'.map .poll) (he : EndsWithFrame polls e) (he' : EndsWithFrame polls' e') :
    e = e' := by
  obtain ⟨hf, before, hb⟩ := he
  obtain ⟨hf', before', hb'⟩ := he'
  have hpolls : ∀ (l : List Event) (polls : List Poll), pollsOf (l ++ polls.map .poll) = pollsOf l ++ polls := by
    intro l polls
    simp [pollsOf]
  have hbytes := congrArg arrivals (congrArg pollsOf h)
  rw [hpolls, hpolls, arrivals_append, arrivals_append, hb, hb'] at hbytes
  -- read backwards, both are what comes before the next flag
  have hlast : ∀ (a b : Bytes) {e : Bytes}, FLAG ∉ e →
      ((a ++ (b ++ FLAG :: (e ++ [FLAG]))).reverse.drop 1).takeWhile (· ≠ FLAG) = e.reverse := by
    intro a b e hf
    have hall : ∀ x ∈ e.reverse, decide (x ≠ FLAG) = true := by
      intro x hx
      refine decide_eq_true ?_
      rintro rfl
      exact hf (List.mem_reverse.mp hx)
    simp only [List.reverse_append, List.reverse_cons, List.reverse_nil, List.nil_append,
      List.append_assoc, List.cons_append, List.drop_succ_cons, List.drop_zero]
    rw [List.takeWhile_append_of_pos hall]
    simp
  have := hlast (pollsOf l |> arrivals) before hf
  rw [hbytes, hlast _ _ hf'] at this
  exact (List.reverse_injective this).symm

/-! ### Decoding -/

theorem le16_fromLe16 {raw : Bytes} (h : raw.length = 2) : le16 (fromLe16 raw) = raw := by
  obtain ⟨a, b, rfl⟩ := List.length_eq_two.mp h
  have hlow : ((fromLe16 [a, b]).setWidth 8 : Byte) = a := by
    ext i hi
    simp [fromLe16, ← BitVec.getLsbD_eq_getElem]
  have hhigh : ((fromLe16 [a, b] >>> 8).setWidth 8 : Byte) = b := by
    ext i hi
    have h8 : ¬ 8 + i < 8 := by omega
    have h16 : i < 16 ∧ 8 + i < 16 := by omega
    simp [fromLe16, ← BitVec.getLsbD_eq_getElem, h8, h16, hi]
  rw [le16, hlow, hhigh]

/-- A body that decodes is too short for a CRC, or it is what it decodes to and the CRC of that. -/
theorem unstuff_of_decodeBody {encoded payload : Bytes} (h : decodeBody encoded = .ok payload) :
    ((stuffing.unstuff false encoded).length < 3 ∧ stuffing.unstuff false encoded = payload) ∨
      (3 ≤ (stuffing.unstuff false encoded).length ∧ stuffing.unstuff false encoded = frameBody payload) := by
  unfold decodeBody at h
  generalize stuffing.unstuff false encoded = raw at h
  dsimp only at h
  split_ifs at h with hlen hcrc
  · exact .inl ⟨hlen, Except.ok.inj h⟩
  · right
    obtain rfl := Except.ok.inj h
    have hdrop : (raw.drop (raw.length - 2)).length = 2 := by
      rw [List.length_drop]
      omega
    refine ⟨Nat.le_of_not_lt hlen, ?_⟩
    rw [frameBody, ← not_not.mp hcrc, le16_fromLe16 hdrop, List.take_append_drop]

theorem decodeBody_of_short {encoded : Bytes} (h : (stuffing.unstuff false encoded).length < 3) :
    decodeBody encoded = .ok (stuffing.unstuff false encoded) := by
  unfold decodeBody
  exact if_pos h

/-- A short frame has no room for a payload and its CRC. -/
theorem not_authentic_of_short {encoded : Bytes} (h : ShortAck encoded) : ¬ Authentic encoded := by
  rintro ⟨payload, hbody, hack⟩
  have hlen := h.1
  rw [hbody, length_frameBody] at hlen
  obtain rfl : payload = [] := List.length_eq_zero_iff.mp (by omega)
  exact absurd hack (by decide)

/-! ### The loop -/

/-- A read that returns has met its deadline, or a frame that decodes to its result. -/
theorem readFrame_ok {w w' : World} {o : Option Bytes} {l : List Event} (h : readFrame w = (.ok o, w', l)) :
    ∃ made, w.polls = made ++ w'.polls ∧ l = made.map .poll ∧
      ((o = none ∧ scan w.polls = (.deadline, w'.polls)) ∨ ∃ encoded response, o = some response ∧
        scan w.polls = (.frame encoded, w'.polls) ∧ decodeBody encoded = .ok response) := by
  obtain ⟨made, hmade, rfl, hresult, hw'⟩ := readFrame_run h
  refine ⟨made, hmade, rfl, ?_⟩
  have hrest : w'.polls = (scan w.polls).2 := by rw [hw', readFrame_eq_scan]
  rw [readFrame_eq_scan] at hresult
  rcases hscan : scan w.polls with ⟨stop, rest⟩
  rw [hscan] at hresult hrest
  rw [hrest]
  cases stop with
  | fault => cases hresult
  | deadline => exact .inl ⟨by simpa [Scan.result, Except.mapError] using hresult, rfl⟩
  | frame encoded =>
    right
    cases hdecode : decodeBody encoded with
    | error e => simp [Scan.result, hdecode, Except.map, Except.mapError] at hresult
    | ok response =>
      exact ⟨encoded, response, by simpa [Scan.result, hdecode, Except.map, Except.mapError] using hresult, rfl,
        hdecode⟩

/-- The response is empty exactly when nothing is left of the frame. -/
theorem unstuff_eq_nil_iff {encoded response : Bytes} (h : decodeBody encoded = .ok response) :
    stuffing.unstuff false encoded = [] ↔ response = [] := by
  rcases unstuff_of_decodeBody h with ⟨-, hraw⟩ | ⟨hlen, hraw⟩
  · rw [hraw]
  · rw [hraw, length_frameBody] at hlen
    have hresponse : response ≠ [] := by
      rintro rfl
      exact absurd hlen (by decide)
    refine iff_of_false ?_ hresponse
    intro h0
    rw [hraw] at h0
    have := length_frameBody response
    simp [h0] at this

/-- A loop that returns has come to its decision on the last frame it read, and took it for an acknowledgement. -/
theorem decidingFrame_of_ok {address : Int} {payload : Bytes} {n : Nat} {w w' : World} {a : Unit} {l : List Event}
    (h : pblWriteRamLoop address payload n w = (.ok a, w', l)) :
    ∃ retries polls encoded response, l = retries ++ [.resetInput, .write (hdlcFrame payload), .flush] ++ polls.map .poll ∧
      decidingFrame n w.polls = some encoded ∧ EndsWithFrame polls encoded ∧ decodeBody encoded = .ok response ∧
      isAck response = true := by
  induction n generalizing w l with
  | zero => cases h
  | succ n ih =>
    rw [pblWriteRamLoop] at h
    obtain ⟨_, w₁, l₁, l₂, h₁, hread, rfl⟩ := Traced.of_run_bind_ok h
    obtain ⟨o, w₂, l₃, l₄, h₂, h₃, rfl⟩ := Traced.of_run_bind_ok hread
    obtain ⟨made, hmade, rfl, hcases⟩ := readFrame_ok h₂
    rw [transmit_polls h₁] at hmade hcases
    -- a further attempt comes to the decision
    have hnext : pblWriteRamLoop address payload n w₂ = (.ok a, w', l₄) →
        decidingFrame (n + 1) w.polls = decidingFrame n w₂.polls →
        ∃ retries polls encoded response,
          l₁ ++ (made.map .poll ++ l₄) =
            retries ++ [.resetInput, .write (hdlcFrame payload), .flush] ++ polls.map .poll ∧
          decidingFrame (n + 1) w.polls = some encoded ∧ EndsWithFrame polls encoded ∧
          decodeBody encoded = .ok response ∧ isAck response = true := by
      intro hl hdec
      obtain ⟨retries, polls, encoded, response, rfl, hd, hrest⟩ := ih hl
      exact ⟨l₁ ++ (made.map .poll ++ retries), polls, encoded, response, by simp, hdec.trans hd, hrest⟩
    rcases hcases with ⟨rfl, hscan⟩ | ⟨encoded, response, rfl, hscan, hdecode⟩
    · exact hnext h₃ (by simp [decidingFrame, hscan])
    · dsimp only at h₃
      split_ifs at h₃ with hack hne
      · cases h₃
        rw [hmade] at hscan
        refine ⟨[], made, encoded, response, by rw [transmit_ok h₁]; simp, ?_, scan_frame hscan, hdecode, hack⟩
        have hraw : stuffing.unstuff false encoded ≠ [] := by
          rw [Ne, unstuff_eq_nil_iff hdecode]
          rintro rfl
          exact absurd hack (by decide)
        simp [decidingFrame, hmade, hscan, hraw]
      · cases h₃
      · have hraw := (unstuff_eq_nil_iff hdecode).mpr (not_not.mp hne)
        exact hnext h₃ (by simp [decidingFrame, hscan, hraw])

theorem readFrame_scan {polls : List Poll} {o : Option Bytes} (h : (scan polls).1.result = .ok o) :
    ∃ l, readFrame (.polling polls) = (.ok o, .polling (scan polls).2, l) := by
  refine ⟨(polls.take (polls.length - (scan polls).2.length)).map .poll, ?_⟩
  simp [readFrame, readFrameWith, World.polling, readFrame_eq_scan, h, Except.mapError]

/-- With no error of the port, the loop returns on a short acknowledgement. -/
theorem pblWriteRamLoop_of_shortAck (address : Int) (payload : Bytes) {n : Nat} {polls : List Poll} {encoded : Bytes}
    (h : decidingFrame n polls = some encoded) (hshort : ShortAck encoded) :
    ∃ w' l, pblWriteRamLoop address payload n (.polling polls) = (.ok (), w', l) := by
  induction n generalizing polls with
  | zero => cases h
  | succ n ih =>
    rw [decidingFrame] at h
    rw [pblWriteRamLoop, Traced.run_bind_ok (transmit_polling _ _)]
    rcases hscan : (scan polls).1 with - | - | e
    · have hresult : (scan polls).1.result = .ok none := by rw [hscan]; rfl
      obtain ⟨l₁, hread⟩ := readFrame_scan hresult
      rw [hscan] at h
      obtain ⟨w', l, hl⟩ := ih h
      rw [Traced.run_bind_ok hread]
      exact ⟨w', [.resetInput, .write (hdlcFrame payload), .flush] ++ (l₁ ++ l), by simp only [hl]⟩
    · rw [hscan] at h
      cases h
    · rw [hscan] at h
      dsimp only at h
      have hlen : (stuffing.unstuff false e).length < 3 := by
        split_ifs at h with hempty
        · simp [hempty]
        · exact Option.some.inj h ▸ hshort.1
      have hresult : (scan polls).1.result = .ok (some (stuffing.unstuff false e)) := by
        rw [hscan, Scan.result, decodeBody_of_short hlen]
        rfl
      obtain ⟨l₁, hread⟩ := readFrame_scan hresult
      rw [Traced.run_bind_ok hread]
      split_ifs at h with hempty
      · obtain ⟨w', l, hl⟩ := ih h
        have hack : isAck [] = false := by decide
        refine ⟨w', [.resetInput, .write (hdlcFrame payload), .flush] ++ (l₁ ++ l), ?_⟩
        simp [hempty, hack, hl]
      · obtain rfl := Option.some.inj h
        simp only [hshort.2, if_true]
        exact ⟨_, _, rfl⟩

/-! ### The theorem -/

/-- A short acknowledgement that decides a RAM write is taken, unless a call of the port raises. -/
theorem not_authenticated_of_shortAck {address : Int} {data : Bytes} {polls : List Poll} {encoded : Bytes}
    (hfits : Packet.Fits ⟨address, data⟩) (hdec : decidingFrame 3 polls = some encoded) (hshort : ShortAck encoded) :
    ¬ Authenticated address data (.polling polls) := by
  intro h
  obtain ⟨payload, hpayload, -⟩ := ramWritePayload_of_fits hfits
  obtain ⟨w', l, hl⟩ := pblWriteRamLoop_of_shortAck address payload hdec hshort
  have hrun : pblWriteRam address data (.polling polls) = (.ok (), w', l) := by
    rw [pblWriteRam, Traced.run_ofExcept_bind hpayload, hl]
  obtain ⟨retries, made, e, hl₁, hends, hauth⟩ := h _ _ _ hrun
  obtain ⟨retries', made', e', response, hl₂, hdec', hends', -, -⟩ := decidingFrame_of_ok hl
  obtain rfl := Option.some.inj (hdec.symm.trans hdec')
  rw [hl₁] at hl₂
  obtain rfl := EndsWithFrame.unique hl₂ hends hends'
  exact not_authentic_of_short hshort hauth

/-- On a history of the port, the RAM writes that fit their request take authenticated acknowledgements only, exactly
when the frame that decides them there is not a short one. -/
theorem authenticated_iff (address : Int) (data : Bytes) (polls : List Poll) :
    (∀ w : World, w.polls = polls → Authenticated address data w) ↔
      (Packet.Fits ⟨address, data⟩ → ∀ encoded, decidingFrame 3 polls = some encoded → ¬ ShortAck encoded) := by
  constructor
  · intro h hfits encoded hdec hshort
    exact not_authenticated_of_shortAck hfits hdec hshort (h _ rfl)
  · intro h w hw a w' l hrun
    obtain ⟨payload, w₁, l₁, l₂, h₁, hloop, rfl⟩ := Traced.of_run_bind_ok hrun
    obtain ⟨hpayload, rfl, rfl⟩ := Traced.of_run_ofExcept_ok h₁
    obtain ⟨retries, made, encoded, response, rfl, hdec, hends, hdecode, hack⟩ := decidingFrame_of_ok hloop
    obtain ⟨hfits, hframe⟩ := ramWritePayload_eq_ok (p := ⟨address, data⟩) hpayload
    refine ⟨retries, made, encoded, by rw [hframe]; rfl, hends, ?_⟩
    rw [hw] at hdec
    rcases unstuff_of_decodeBody hdecode with ⟨hlen, hraw⟩ | ⟨-, hraw⟩
    · exact absurd ⟨hlen, hraw ▸ hack⟩ (h hfits encoded hdec)
    · exact ⟨response, hraw, hack⟩

/-- A frame of the single byte 02 is taken for an acknowledgement. -/
theorem pblWriteRam_takes_short : ¬ ∀ (address : Int) (data : Bytes) (w : World), Authenticated address data w := by
  intro h
  have hfits : Packet.Fits ⟨0x01000000, [0xAA]⟩ := ⟨by decide, by decide⟩
  have hdec : decidingFrame 3 ([FLAG, 0x02, FLAG].map .byte) = some [0x02] := by decide
  exact not_authenticated_of_shortAck hfits hdec (by decide) (h _ _ _)

end ShadowMsm.Host
