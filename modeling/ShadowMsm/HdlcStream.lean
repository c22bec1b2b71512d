import ShadowMsm.Hdlc

/-!
# Reading a stream of frames

What a caller of `read_frame` obtains from a stream of back-to-back frames.

* (resynchronisation) Reading may start at any byte of the stream: the bytes up to the next flag are skipped, a closing
  flag met first is taken for an opening one, and the true opening flag after it changes nothing, so exactly the frames
  that begin at or after the starting byte are read (`readCalls_stream_drop`).
* (deadlines) The bytes of an unfinished frame live in the local variables of one call, so a deadline that passes inside
  a frame loses this frame, and a deadline between two frames loses nothing (`received_iff`).
-/

namespace ShadowMsm

/-- The bytes sent for a list of payloads. -/
def stream (payloads : List Bytes) : Bytes := payloads.flatMap hdlcFrame

/-- The bytes a history brings. -/
def arrivals : List Poll → Bytes
  | [] => []
  | .byte b :: polls => b :: arrivals polls
  | _ :: polls => arrivals polls

/-- The payloads with the positions of the opening flags of their frames, the first one at `start`. -/
def withOpening : Nat → List Bytes → List (Nat × Bytes)
  | _, [] => []
  | start, p :: ps => (start, p) :: withOpening (start + (hdlcFrame p).length) ps

/-- The payloads of the frames whose opening flag is at position `o` of the stream or later. -/
def payloadsFrom (o : Nat) (payloads : List Bytes) : List Bytes :=
  ((withOpening 0 payloads).filter fun f => o ≤ f.1).map Prod.snd

/-- A history that brings the bytes of `s`, after which nothing arrives any more: no deadline passes, and the port does
not fail, before the last of these bytes. -/
def Delivers (polls : List Poll) (s : Bytes) : Prop :=
  ∃ live silent, polls = live ++ silent ∧ arrivals live = s ∧
    (∀ p ∈ live, p ≠ .expired ∧ p ≠ .fault) ∧ ∀ p ∈ silent, p = .idle ∨ p = .expired

/-- What the result of one call gives to a caller that calls again after each `None`. -/
def delivered : Except ReadError (Option Bytes) → Option (Except ReadError Bytes)
  | .ok none => none
  | .ok (some payload) => some (.ok payload)
  | .error e => some (.error e)

/-- Every deadline passes between two frames, before the first one or after the last one. -/
def DeadlinesBetweenFrames (payloads : List Bytes) (polls : List Poll) : Prop :=
  ∀ pre post, polls = pre ++ .expired :: post → ∃ j ≤ payloads.length, arrivals pre = stream (payloads.take j)

/-! ### Histories -/

@[simp] theorem stream_nil : stream [] = [] := rfl

@[simp] theorem stream_cons (p : Bytes) (ps : List Bytes) : stream (p :: ps) = hdlcFrame p ++ stream ps := rfl

@[simp] theorem arrivals_append (a b : List Poll) : arrivals (a ++ b) = arrivals a ++ arrivals b := by
  induction a with
  | nil => rfl
  | cons p a ih => cases p <;> simp [arrivals, ih]

private theorem arrivals_silent {polls : List Poll} (h : ∀ p ∈ polls, p = .idle ∨ p = .expired) :
    arrivals polls = [] := by
  induction polls with
  | nil => rfl
  | cons x polls ih =>
    rcases h x (List.mem_cons_self ..) with rfl | rfl <;>
      exact ih fun p hp => h p (List.mem_cons_of_mem _ hp)

/-- A history is cut where its bytes are cut. -/
private theorem split_arrivals {polls : List Poll} {a b : Bytes} (h : arrivals polls = a ++ b) :
    ∃ p q, polls = p ++ q ∧ arrivals p = a ∧ arrivals q = b := by
  induction polls generalizing a with
  | nil =>
    simp only [arrivals] at h
    obtain ⟨rfl, rfl⟩ := List.append_eq_nil_iff.1 h.symm
    exact ⟨[], [], rfl, rfl, rfl⟩
  | cons x polls ih =>
    cases x with
    | byte c =>
      cases a with
      | nil => exact ⟨[], .byte c :: polls, rfl, rfl, h⟩
      | cons d a =>
        simp only [arrivals, List.cons_append, List.cons.injEq] at h
        obtain ⟨rfl, h⟩ := h
        obtain ⟨p, q, rfl, hp, hq⟩ := ih h
        exact ⟨.byte c :: p, q, rfl, by simp [arrivals, hp], hq⟩
    | expired =>
      obtain ⟨p, q, rfl, hp, hq⟩ := ih h
      exact ⟨.expired :: p, q, rfl, hp, hq⟩
    | idle =>
      obtain ⟨p, q, rfl, hp, hq⟩ := ih h
      exact ⟨.idle :: p, q, rfl, hp, hq⟩
    | fault =>
      obtain ⟨p, q, rfl, hp, hq⟩ := ih h
      exact ⟨.fault :: p, q, rfl, hp, hq⟩

/-- A history that brings a byte next contains it after polls without a byte. -/
private theorem split_byte {polls : List Poll} {c : Byte} {b : Bytes} (h : arrivals polls = c :: b) :
    ∃ l q, polls = l ++ .byte c :: q ∧ arrivals l = [] ∧ arrivals q = b := by
  induction polls with
  | nil => simp [arrivals] at h
  | cons x polls ih =>
    cases x with
    | byte d =>
      simp only [arrivals, List.cons.injEq] at h
      obtain ⟨rfl, h⟩ := h
      exact ⟨[], polls, rfl, rfl, h⟩
    | expired =>
      obtain ⟨l, q, rfl, hl, hq⟩ := ih h
      exact ⟨.expired :: l, q, rfl, hl, hq⟩
    | idle =>
      obtain ⟨l, q, rfl, hl, hq⟩ := ih h
      exact ⟨.idle :: l, q, rfl, hl, hq⟩
    | fault =>
      obtain ⟨l, q, rfl, hl, hq⟩ := ih h
      exact ⟨.fault :: l, q, rfl, hl, hq⟩

/-- The polls up to and including a flag that the bytes `t` precede. -/
private theorem split_flag {polls : List Poll} {t b : Bytes} (h : arrivals polls = t ++ FLAG :: b) :
    ∃ l q, polls = l ++ .byte FLAG :: q ∧ arrivals l = t ∧ arrivals q = b := by
  obtain ⟨p, q, rfl, hp, hq⟩ := split_arrivals h
  obtain ⟨l, r, rfl, hl, hr⟩ := split_byte hq
  exact ⟨p ++ l, r, by simp, by simp [hp, hl], hr⟩

/-- The polls of one frame, around its two flags. -/
private theorem split_frame {polls : List Poll} {p b : Bytes} (h : arrivals polls = hdlcFrame p ++ b) :
    ∃ lead mid q, polls = lead ++ .byte FLAG :: (mid ++ .byte FLAG :: q) ∧ arrivals lead = [] ∧
      arrivals mid = stuffing.stuff (frameBody p) ∧ arrivals q = b := by
  have h1 : arrivals polls = [] ++ FLAG :: (stuffing.stuff (frameBody p) ++ FLAG :: b) := by
    rw [h]; simp [hdlcFrame]
  obtain ⟨lead, r, rfl, hlead, hr⟩ := split_flag h1
  obtain ⟨mid, q, rfl, hmid, hq⟩ := split_flag hr
  exact ⟨lead, mid, q, rfl, hlead, hmid, hq⟩

/-! ### One call of the reader -/

section reader

variable {polls rest : List Poll} {started : Bool} {encoded : Bytes}

/-- Before the opening flag everything is skipped. -/
theorem readFrameFrom_skip (hl : ∀ p ∈ polls, p ≠ .expired ∧ p ≠ .fault) (hf : FLAG ∉ arrivals polls) :
    readFrameFrom false [] (polls ++ rest) = readFrameFrom false [] rest := by
  induction polls with
  | nil => rfl
  | cons x polls ih =>
    have hl' := fun p hp => hl p (List.mem_cons_of_mem _ hp)
    cases x with
    | expired => exact absurd rfl (hl _ (List.mem_cons_self ..)).1
    | fault => exact absurd rfl (hl _ (List.mem_cons_self ..)).2
    | idle => exact ih hl' hf
    | byte b =>
      simp only [arrivals, List.mem_cons, not_or] at hf
      simp [readFrameFrom, Ne.symm hf.1, ih hl' hf.2]

/-- After the opening flag the bytes are collected. -/
theorem readFrameFrom_collect (hl : ∀ p ∈ polls, p ≠ .expired ∧ p ≠ .fault) (hf : FLAG ∉ arrivals polls) :
    readFrameFrom true encoded (polls ++ rest) = readFrameFrom true (encoded ++ arrivals polls) rest := by
  induction polls generalizing encoded with
  | nil => simp [arrivals]
  | cons x polls ih =>
    have hl' := fun p hp => hl p (List.mem_cons_of_mem _ hp)
    cases x with
    | expired => exact absurd rfl (hl _ (List.mem_cons_self ..)).1
    | fault => exact absurd rfl (hl _ (List.mem_cons_self ..)).2
    | idle => exact ih hl' hf
    | byte b =>
      simp only [arrivals, List.mem_cons, not_or] at hf
      simp [readFrameFrom, Ne.symm hf.1, ih hl' hf.2, arrivals]

/-- A flag taken for an opening flag makes no difference when a flag, or nothing, comes next. -/
private theorem readFrameFrom_restart (h : ∀ b ∈ (arrivals polls).head?, b = FLAG) :
    readFrameFrom true [] polls = readFrameFrom false [] polls := by
  induction polls with
  | nil => rfl
  | cons x polls ih =>
    cases x with
    | expired => rfl
    | fault => rfl
    | idle => exact ih h
    | byte b =>
      have hb : b = FLAG := h b (by simp [arrivals])
      simp [readFrameFrom, hb]

private theorem head?_stream (payloads : List Bytes) : ∀ b ∈ (stream payloads).head?, b = FLAG := by
  cases payloads with
  | nil => simp
  | cons p ps => simp [hdlcFrame, eq_comm]

/-- A frame that arrives before any deadline is returned, whether or not a flag was seen before it. -/
private theorem readFrameFrom_frame (rest : List Poll) {lead mid : List Poll} {p : Bytes} (hp : p ≠ [])
    (hlead : arrivals lead = []) (hmid : arrivals mid = stuffing.stuff (frameBody p))
    (hl : ∀ x ∈ lead, x ≠ .expired ∧ x ≠ .fault) (hm : ∀ x ∈ mid, x ≠ .expired ∧ x ≠ .fault) :
    readFrameFrom false [] (lead ++ .byte FLAG :: (mid ++ .byte FLAG :: rest)) = (.ok (some p), rest) := by
  have hne := stuff_frameBody_ne_nil p
  rw [readFrameFrom_skip hl (by simp [hlead])]
  simp only [readFrameFrom, if_true, Bool.not_false]
  rw [readFrameFrom_collect hm (by rw [hmid]; exact flag_notMem_stuff_frameBody p), hmid]
  simp [readFrameFrom, hne, decodeBody_stuff hp, Except.map]

theorem arrivals_map_byte (bs : Bytes) : arrivals (bs.map .byte) = bs := by
  induction bs with
  | nil => rfl
  | cons b bs ih => simp [arrivals, ih]

/-- A frame that comes without a pause is returned. -/
theorem readFrame_hdlcFrame {p : Bytes} (hp : p ≠ []) (rest : List Poll) :
    readFrame ((hdlcFrame p).map .byte ++ rest) = (.ok (some p), rest) := by
  have hmid := arrivals_map_byte (stuffing.stuff (frameBody p))
  have := readFrameFrom_frame rest hp (rfl : arrivals [] = []) hmid (by simp) (by simp)
  simpa [hdlcFrame, readFrame] using this

/-- Starting inside a frame: its closing flag is taken for an opening flag, and the next frame is read as from its own
opening flag. -/
private theorem readFrame_resync (hl : ∀ p ∈ polls, p ≠ .expired ∧ p ≠ .fault) (hf : FLAG ∉ arrivals polls)
    (h : ∀ b ∈ (arrivals rest).head?, b = FLAG) :
    readFrame (polls ++ .byte FLAG :: rest) = readFrame rest := by
  simp only [readFrame]
  rw [readFrameFrom_skip hl hf]
  simp only [readFrameFrom, if_true, Bool.not_false]
  exact readFrameFrom_restart h

end reader

/-! ### Successive calls -/

private theorem readCalls_congr {polls polls' : List Poll} (h : readFrame polls = readFrame polls') (n : Nat) :
    readCalls n polls = readCalls n polls' := by
  cases n with
  | zero => rfl
  | succ n => simp only [readCalls, h]

private theorem readCalls_silent {polls : List Poll} (h : ∀ p ∈ polls, p = .idle ∨ p = .expired) (n : Nat) :
    readCalls n polls = List.replicate n (.ok none) := by
  have key : ∀ polls : List Poll, (∀ p ∈ polls, p = .idle ∨ p = .expired) →
      (readFrame polls).1 = .ok none ∧ ∀ p ∈ (readFrame polls).2, p = .idle ∨ p = .expired := by
    intro polls h
    induction polls with
    | nil => exact ⟨rfl, by simp [readFrame, readFrameFrom]⟩
    | cons x polls ih =>
      have h' := fun p hp => h p (List.mem_cons_of_mem _ hp)
      rcases h x (List.mem_cons_self ..) with rfl | rfl
      · exact ih h'
      · exact ⟨rfl, h'⟩
  induction n generalizing polls with
  | zero => rfl
  | succ n ih =>
    simp only [readCalls, List.replicate_succ, (key polls h).1, ih (key polls h).2]

/-- Reading a stream from the start of a frame. -/
private theorem readCalls_stream {payloads : List Bytes} (hne : ∀ p ∈ payloads, p ≠ []) {polls : List Poll}
    (hd : Delivers polls (stream payloads)) (n : Nat) :
    readCalls (payloads.length + n) polls =
      payloads.map (fun p => .ok (some p)) ++ List.replicate n (.ok none) := by
  induction payloads generalizing polls with
  | nil =>
    obtain ⟨live, silent, rfl, hs, hl, hsil⟩ := hd
    simp only [List.length_nil, Nat.zero_add, List.map_nil, List.nil_append]
    refine readCalls_silent (fun p hp => ?_) n
    rcases List.mem_append.1 hp with hp | hp
    · cases p with
      | idle => exact Or.inl rfl
      | expired => exact absurd rfl (hl _ hp).1
      | fault => exact absurd rfl (hl _ hp).2
      | byte b =>
        obtain ⟨u, v, rfl⟩ := List.append_of_mem hp
        simp [arrivals] at hs
    · exact hsil p hp
  | cons p ps ih =>
    obtain ⟨live, silent, rfl, hs, hl, hsil⟩ := hd
    obtain ⟨lead, mid, q, rfl, hlead, hmid, hq⟩ := split_frame hs
    have hcall := readFrameFrom_frame (q ++ silent) (hne p (by simp)) hlead hmid
      (fun x hx => hl x (by simp [hx])) (fun x hx => hl x (by simp [hx]))
    have hrest := ih (fun p' hp' => hne p' (List.mem_cons_of_mem _ hp'))
      ⟨q, silent, rfl, hq, fun x hx => hl x (by simp [hx]), hsil⟩
    simp only [List.append_assoc, List.cons_append, List.length_cons, List.map_cons,
      Nat.add_right_comm _ 1 n, readCalls, readFrame, hcall, hrest]

/-! ### Starting inside the stream -/

private theorem withOpening_shift (k start : Nat) (payloads : List Bytes) :
    withOpening (k + start) payloads = (withOpening start payloads).map fun f => (k + f.1, f.2) := by
  induction payloads generalizing start with
  | nil => rfl
  | cons p ps ih => simp [withOpening, Nat.add_assoc, ih]

private theorem le_of_mem_withOpening {start : Nat} {payloads : List Bytes} {f : Nat × Bytes}
    (h : f ∈ withOpening start payloads) : start ≤ f.1 := by
  induction payloads generalizing start with
  | nil => simp [withOpening] at h
  | cons p ps ih =>
    rcases List.mem_cons.1 h with rfl | h
    · exact Nat.le_refl _
    · have := ih h; omega

private theorem map_snd_withOpening (start : Nat) (payloads : List Bytes) :
    (withOpening start payloads).map Prod.snd = payloads := by
  induction payloads generalizing start with
  | nil => rfl
  | cons p ps ih => simp [withOpening, ih]

private theorem payloadsFrom_zero (payloads : List Bytes) : payloadsFrom 0 payloads = payloads := by
  simp [payloadsFrom, map_snd_withOpening]

/-- From a position inside the first frame, or at its end, all later frames are read. -/
private theorem payloadsFrom_inside {o : Nat} (p : Bytes) (ps : List Bytes) (ho : 0 < o)
    (hle : o ≤ (hdlcFrame p).length) : payloadsFrom o (p :: ps) = ps := by
  have hall : (withOpening (hdlcFrame p).length ps).filter (fun f => o ≤ f.1) =
      withOpening (hdlcFrame p).length ps := by
    rw [List.filter_eq_self]
    intro f hf
    have := le_of_mem_withOpening hf
    simp; omega
  simp only [payloadsFrom, withOpening, Nat.zero_add, List.filter_cons, hall]
  simp [show ¬ o ≤ 0 by omega, map_snd_withOpening]

private theorem payloadsFrom_beyond {o : Nat} (p : Bytes) (ps : List Bytes) (h : (hdlcFrame p).length < o) :
    payloadsFrom o (p :: ps) = payloadsFrom (o - (hdlcFrame p).length) ps := by
  have hs := withOpening_shift (hdlcFrame p).length 0 ps
  simp only [Nat.add_zero] at hs
  have hfilter : (withOpening 0 ps).filter (fun f => decide (o ≤ (hdlcFrame p).length + f.1)) =
      (withOpening 0 ps).filter (fun f => decide (o - (hdlcFrame p).length ≤ f.1)) := by
    apply List.filter_congr
    intro f _
    rw [decide_eq_decide]
    omega
  simp only [payloadsFrom, withOpening, Nat.zero_add, List.filter_cons, hs, List.filter_map,
    show ¬ o ≤ 0 by omega, decide_false, Bool.false_eq_true, ↓reduceIte, List.map_map]
  exact congrArg (List.map Prod.snd) hfilter

/-- What is left of a frame after its first byte: nothing, or bytes without a flag and the closing flag. -/
private theorem drop_hdlcFrame {o : Nat} (p : Bytes) (ho : 0 < o) (hle : o ≤ (hdlcFrame p).length) :
    (hdlcFrame p).drop o = [] ∨ ∃ t, FLAG ∉ t ∧ (hdlcFrame p).drop o = t ++ [FLAG] := by
  obtain ⟨k, rfl⟩ : ∃ k, o = k + 1 := ⟨o - 1, by omega⟩
  have hlen : (hdlcFrame p).length = (stuffing.stuff (frameBody p)).length + 2 := by simp [hdlcFrame]
  have hdrop : (hdlcFrame p).drop (k + 1) = (stuffing.stuff (frameBody p) ++ [FLAG]).drop k := by
    simp [hdlcFrame]
  rw [hdrop]
  by_cases hk : k ≤ (stuffing.stuff (frameBody p)).length
  · right
    refine ⟨(stuffing.stuff (frameBody p)).drop k, ?_, List.drop_append_of_le_length hk⟩
    exact fun h => flag_notMem_stuff_frameBody p (List.mem_of_mem_drop h)
  · left
    rw [List.drop_eq_nil_iff]
    simp; omega

/-- Successive calls of `read_frame` on the stream of some nonempty payloads, from any byte `o` of it on, return the
payloads of the frames that begin there or later, each once and in order, and then `None`. -/
theorem readCalls_stream_drop {payloads : List Bytes} (hne : ∀ p ∈ payloads, p ≠ []) (o : Nat)
    {polls : List Poll} (hd : Delivers polls ((stream payloads).drop o)) (n : Nat) :
    readCalls ((payloadsFrom o payloads).length + n) polls =
      (payloadsFrom o payloads).map (fun p => .ok (some p)) ++ List.replicate n (.ok none) := by
  induction payloads generalizing o with
  | nil =>
    have hnil : ∀ p ∈ ([] : List Bytes), p ≠ [] := by simp
    exact readCalls_stream hnil (by simpa using hd) n
  | cons p ps ih =>
    have hne' := fun p' hp' => hne p' (List.mem_cons_of_mem _ hp')
    rcases Nat.eq_zero_or_pos o with rfl | ho
    · rw [payloadsFrom_zero]
      exact readCalls_stream hne hd n
    by_cases hle : o ≤ (hdlcFrame p).length
    · rw [payloadsFrom_inside p ps ho hle]
      rw [stream_cons, List.drop_append_of_le_length hle] at hd
      rcases drop_hdlcFrame p ho hle with hnil | ⟨t, ht, hdrop⟩
      · rw [hnil, List.nil_append] at hd
        exact readCalls_stream hne' hd n
      · obtain ⟨live, silent, rfl, hs, hl, hsil⟩ := hd
        rw [hdrop, List.append_assoc] at hs
        obtain ⟨l, q, rfl, hlt, hq⟩ := split_flag hs
        have hcall : readFrame ((l ++ .byte FLAG :: q) ++ silent) = readFrame (q ++ silent) := by
          rw [List.append_assoc, List.cons_append]
          exact readFrame_resync (fun x hx => hl x (by simp [hx])) (hlt ▸ ht)
            (by simp only [arrivals_append, hq, arrivals_silent hsil]; simpa using head?_stream ps)
        rw [readCalls_congr hcall]
        exact readCalls_stream hne' ⟨q, silent, rfl, hq, fun x hx => hl x (by simp [hx]), hsil⟩ n
    · rw [payloadsFrom_beyond p ps (by omega)]
      refine ih hne' _ ?_
      rwa [stream_cons, List.drop_append, List.drop_eq_nil_of_le (by omega), List.nil_append] at hd

/-- Two frames, entered at the escaped second byte of the first one. -/
theorem readCalls_stream_drop_two :
    readCalls 3 ((((stream [[0x41, 0x7E], [0x42]]).drop 2).map Poll.byte) ++ [.expired]) =
      [.ok (some [0x42]), .ok none, .ok none] :=
  @readCalls_stream_drop [[0x41, 0x7E], [0x42]] (by decide) 2 _
    ⟨((stream [[0x41, 0x7E], [0x42]]).drop 2).map Poll.byte, [.expired], rfl, by decide, by decide, by decide⟩ 2

/-! ### Deadlines -/

/-- What a caller that calls `read_frame` again after each `None` obtains from a history, in one scan of it. -/
private def collect (started : Bool) (encoded : Bytes) : List Poll → List (Except ReadError Bytes)
  | [] => []
  | .expired :: polls => collect false [] polls
  | .idle :: polls => collect started encoded polls
  | .fault :: polls => .error .port :: collect false [] polls
  | .byte b :: polls =>
    if b = FLAG then
      if !started then collect true encoded polls
      else if encoded = [] then collect started encoded polls
      else decodeBody encoded :: collect false [] polls
    else if started then collect started (encoded ++ [b]) polls
    else collect started encoded polls

private theorem collect_eq (started : Bool) (encoded : Bytes) (polls : List Poll) :
    collect started encoded polls =
      (delivered (readFrameFrom started encoded polls).1).toList ++
        collect false [] (readFrameFrom started encoded polls).2 := by
  induction polls generalizing started encoded with
  | nil => rfl
  | cons x polls ih =>
    cases x with
    | expired => rfl
    | fault => rfl
    | idle => exact ih started encoded
    | byte b =>
      simp only [collect, readFrameFrom]
      split
      · split
        · exact ih true encoded
        · split
          · exact ih started encoded
          · cases decodeBody encoded <;> rfl
      · split
        · exact ih started (encoded ++ [b])
        · exact ih started encoded

private theorem length_readFrameFrom (started : Bool) (encoded : Bytes) (polls : List Poll) :
    (readFrameFrom started encoded polls).2.length ≤ polls.length - 1 := by
  induction polls generalizing started encoded with
  | nil => simp [readFrameFrom]
  | cons x polls ih =>
    cases x with
    | expired => simp [readFrameFrom]
    | fault => simp [readFrameFrom]
    | idle => have := ih started encoded; simp only [readFrameFrom, List.length_cons]; omega
    | byte b =>
      have h1 := ih true encoded
      have h2 := ih started encoded
      have h3 := ih started (encoded ++ [b])
      simp only [readFrameFrom, List.length_cons]
      split <;> split <;> (try split) <;> (try simp only) <;> omega

private theorem filterMap_readCalls {polls : List Poll} {n : Nat} (hn : polls.length ≤ n) :
    (readCalls n polls).filterMap delivered = collect false [] polls := by
  induction n generalizing polls with
  | zero =>
    obtain rfl : polls = [] := List.length_eq_zero_iff.1 (by omega)
    rfl
  | succ n ih =>
    have hlen := length_readFrameFrom false [] polls
    rw [collect_eq, readCalls, List.filterMap_cons]
    simp only [readFrame] at *
    rw [ih (by omega)]
    cases delivered (readFrameFrom false [] polls).1 <;> rfl

private theorem collect_skip {polls : List Poll} (rest : List Poll) (hl : .fault ∉ polls) (hf : FLAG ∉ arrivals polls) :
    collect false [] (polls ++ rest) = collect false [] rest := by
  induction polls with
  | nil => rfl
  | cons x polls ih =>
    simp only [List.mem_cons, not_or] at hl
    cases x with
    | fault => exact absurd rfl hl.1
    | expired => exact ih hl.2 hf
    | idle => exact ih hl.2 hf
    | byte b =>
      simp only [arrivals, List.mem_cons, not_or] at hf
      simp [collect, Ne.symm hf.1, ih hl.2 hf.2]

private theorem collect_frame {polls rest : List Poll} {encoded : Bytes} (hl : .fault ∉ polls)
    (he : .expired ∉ polls) (hf : FLAG ∉ arrivals polls) :
    collect true encoded (polls ++ rest) = collect true (encoded ++ arrivals polls) rest := by
  induction polls generalizing encoded with
  | nil => simp [arrivals]
  | cons x polls ih =>
    simp only [List.mem_cons, not_or] at hl he
    cases x with
    | fault => exact absurd rfl hl.1
    | expired => exact absurd rfl he.1
    | idle => exact ih hl.2 he.2 hf
    | byte b =>
      simp only [arrivals, List.mem_cons, not_or] at hf
      simp [collect, Ne.symm hf.1, ih hl.2 he.2 hf.2, arrivals]

/-- A deadline inside the body: what was collected is forgotten. -/
private theorem collect_expired {polls rest : List Poll} {encoded : Bytes} (hl : .fault ∉ polls)
    (he : .expired ∈ polls) (hf : FLAG ∉ arrivals polls) :
    collect true encoded (polls ++ rest) = collect false [] rest := by
  induction polls generalizing encoded with
  | nil => simp at he
  | cons x polls ih =>
    simp only [List.mem_cons, not_or] at hl
    cases x with
    | fault => exact absurd rfl hl.1
    | expired => exact collect_skip _ hl.2 hf
    | idle => exact ih hl.2 (by simpa using he) hf
    | byte b =>
      simp only [arrivals, List.mem_cons, not_or] at hf
      simp [collect, Ne.symm hf.1, ih hl.2 (by simpa using he) hf.2]

private theorem collect_restart {polls : List Poll} (h : ∀ b ∈ (arrivals polls).head?, b = FLAG) :
    collect true [] polls = collect false [] polls := by
  induction polls with
  | nil => rfl
  | cons x polls ih =>
    cases x with
    | expired => rfl
    | fault => rfl
    | idle => exact ih h
    | byte b =>
      have hb : b = FLAG := h b (by simp [arrivals])
      simp [collect, hb]

/-- One frame of a stream: it is obtained exactly when no deadline passes between its two flags. -/
private theorem collect_hdlcFrame {lead mid q : List Poll} {p : Bytes} {ps : List Bytes} (hp : p ≠ [])
    (hf : .fault ∉ lead ++ .byte FLAG :: (mid ++ .byte FLAG :: q)) (hlead : arrivals lead = [])
    (hmid : arrivals mid = stuffing.stuff (frameBody p)) (hq : arrivals q = stream ps) :
    collect false [] (lead ++ .byte FLAG :: (mid ++ .byte FLAG :: q)) =
      (if .expired ∈ mid then [] else [.ok p]) ++ collect false [] q := by
  have hflag : FLAG ∉ arrivals mid := hmid ▸ flag_notMem_stuff_frameBody p
  rw [collect_skip _ (fun h => hf (by simp [h])) (by simp [hlead])]
  simp only [collect, if_true, Bool.not_false]
  split
  · rename_i he
    rw [collect_expired (fun h => hf (by simp [h])) he hflag]
    simp only [collect, if_true, Bool.not_false, List.nil_append]
    exact collect_restart (hq ▸ head?_stream ps)
  · rename_i he
    rw [collect_frame (fun h => hf (by simp [h])) he hflag, hmid]
    simp [collect, stuff_frameBody_ne_nil p, decodeBody_stuff hp]

/-- Whatever the deadlines do, nothing is invented, repeated or reordered. -/
private theorem collect_sublist {payloads : List Bytes} (hne : ∀ p ∈ payloads, p ≠ []) {polls : List Poll}
    (hf : .fault ∉ polls) (harr : arrivals polls = stream payloads) :
    (collect false [] polls).Sublist (payloads.map .ok) := by
  induction payloads generalizing polls with
  | nil =>
    have h := collect_skip [] hf (by simp [harr])
    rw [List.append_nil] at h
    rw [h]
    exact List.Sublist.refl _
  | cons p ps ih =>
    obtain ⟨lead, mid, q, rfl, hlead, hmid, hq⟩ := split_frame harr
    have hrest := ih (fun p' hp' => hne p' (List.mem_cons_of_mem _ hp')) (fun h => hf (by simp [h])) hq
    rw [collect_hdlcFrame (hne p (by simp)) hf hlead hmid hq, List.map_cons]
    split
    · exact hrest.cons _
    · exact hrest.cons_cons _

/-- The bytes up to some poll inside a frame are no whole number of frames. -/
private theorem stream_take_ne {p t : Bytes} {ps : List Bytes} (ht : t.length < (hdlcFrame p).length) (hne : t ≠ [])
    (j : Nat) : t ≠ stream ((p :: ps).take j) := by
  intro h
  cases j with
  | zero => exact hne (by simpa using h)
  | succ j =>
    have := congrArg List.length h
    simp at this
    omega

private theorem length_hdlcFrame (p : Bytes) :
    (hdlcFrame p).length = (stuffing.stuff (frameBody p)).length + 2 := by
  simp [hdlcFrame]

/-- A deadline between the two flags of a frame is inside a frame. -/
private theorem not_deadlines_of_mem {lead mid q : List Poll} {p : Bytes} {ps : List Bytes}
    (hlead : arrivals lead = []) (hmid : arrivals mid = stuffing.stuff (frameBody p)) (he : .expired ∈ mid) :
    ¬ DeadlinesBetweenFrames (p :: ps) (lead ++ .byte FLAG :: (mid ++ .byte FLAG :: q)) := by
  intro h
  obtain ⟨a, b, rfl⟩ := List.append_of_mem he
  obtain ⟨j, -, hj⟩ := h (lead ++ .byte FLAG :: a) (b ++ .byte FLAG :: q) (by simp)
  simp only [arrivals_append, arrivals, hlead, List.nil_append] at hj hmid
  have hlen := congrArg List.length hmid
  have hframe := length_hdlcFrame p
  simp only [List.length_append] at hlen
  exact stream_take_ne (by simp; omega) (by simp) j hj

private theorem deadlines_cons {lead mid q : List Poll} {p : Bytes} {ps : List Bytes}
    (hlead : arrivals lead = []) (hmid : arrivals mid = stuffing.stuff (frameBody p)) (he : .expired ∉ mid) :
    DeadlinesBetweenFrames (p :: ps) (lead ++ .byte FLAG :: (mid ++ .byte FLAG :: q)) ↔
      DeadlinesBetweenFrames ps q := by
  have hframe : hdlcFrame p = FLAG :: (arrivals mid ++ [FLAG]) := by rw [hmid]; simp [hdlcFrame]
  constructor
  · rintro h pre post rfl
    obtain ⟨j, hj, hpre⟩ := h (lead ++ .byte FLAG :: (mid ++ .byte FLAG :: pre)) post (by simp)
    have hpre' : hdlcFrame p ++ arrivals pre = stream ((p :: ps).take j) := by
      rw [← hpre, hframe]
      simp [arrivals, hlead]
    cases j with
    | zero => simp [hdlcFrame] at hpre'
    | succ j =>
      rw [List.take_succ_cons, stream_cons] at hpre'
      exact ⟨j, by simpa using hj, List.append_cancel_left hpre'⟩
  · intro h pre post hsplit
    -- the deadline lies before the opening flag, in the body, or after the closing flag
    rcases List.append_eq_append_iff.1 hsplit with ⟨a, rfl, ha⟩ | ⟨a, rfl, -⟩
    · cases a with
      | nil => simp at ha
      | cons x a =>
        simp only [List.cons_append, List.cons.injEq] at ha
        obtain ⟨rfl, ha⟩ := ha
        rcases List.append_eq_append_iff.1 ha with ⟨c, rfl, hc⟩ | ⟨c, rfl, hc⟩
        · cases c with
          | nil => simp at hc
          | cons y c =>
            simp only [List.cons_append, List.cons.injEq] at hc
            obtain ⟨rfl, rfl⟩ := hc
            obtain ⟨j, hj, hcj⟩ := h c post rfl
            refine ⟨j + 1, by simpa using hj, ?_⟩
            rw [List.take_succ_cons, stream_cons, ← hcj, hframe]
            simp [arrivals, hlead]
        · cases c with
          | nil => simp at hc
          | cons y c =>
            simp only [List.cons_append, List.cons.injEq] at hc
            exact absurd (by simp [← hc.1]) he
    · refine ⟨0, Nat.zero_le _, ?_⟩
      simp only [arrivals_append, List.append_eq_nil_iff] at hlead
      simpa using hlead.1

/-- The frames that are collected from a history of a stream: all of them, exactly when no deadline passes inside one. -/
private theorem collect_eq_iff {payloads : List Bytes} (hne : ∀ p ∈ payloads, p ≠ []) {polls : List Poll}
    (hf : .fault ∉ polls) (harr : arrivals polls = stream payloads) :
    collect false [] polls = payloads.map .ok ↔ DeadlinesBetweenFrames payloads polls := by
  induction payloads generalizing polls with
  | nil =>
    have h := collect_sublist hne hf harr
    simp only [List.map_nil, List.sublist_nil] at h
    refine iff_of_true h fun pre post hsplit => ⟨0, Nat.le_refl _, ?_⟩
    rw [hsplit] at harr
    simp only [arrivals_append, stream_nil, List.append_eq_nil_iff] at harr
    exact harr.1
  | cons p ps ih =>
    obtain ⟨lead, mid, q, rfl, hlead, hmid, hq⟩ := split_frame harr
    have hne' := fun p' hp' => hne p' (List.mem_cons_of_mem _ hp')
    have hfq : .fault ∉ q := fun h => hf (by simp [h])
    rw [collect_hdlcFrame (hne p (by simp)) hf hlead hmid hq]
    split
    · rename_i he
      refine iff_of_false (fun h => ?_) (not_deadlines_of_mem hlead hmid he)
      have := (collect_sublist hne' hfq hq).length_le
      have hlen := congrArg List.length h
      simp at this hlen
      omega
    · rename_i he
      rw [deadlines_cons hlead hmid he, ← ih hne' hfq hq]
      simp

/-- With every deadline between two frames, every payload of a stream is read. -/
theorem filterMap_readCalls_stream {payloads : List Bytes} (hne : ∀ p ∈ payloads, p ≠ []) {polls : List Poll}
    (hf : .fault ∉ polls) (harr : arrivals polls = stream payloads) (h : DeadlinesBetweenFrames payloads polls) {n : Nat}
    (hn : polls.length ≤ n) : (readCalls n polls).filterMap delivered = payloads.map .ok := by
  rw [filterMap_readCalls hn]
  exact (collect_eq_iff hne hf harr).mpr h

/-- A caller that calls `read_frame` again after each `None` obtains every payload of a stream of frames, each once and
in order, exactly when no deadline passes inside a frame. -/
theorem received_iff {payloads : List Bytes} (hne : ∀ p ∈ payloads, p ≠ []) {polls : List Poll}
    (hf : .fault ∉ polls) (harr : arrivals polls = stream payloads) {n : Nat} (hn : polls.length ≤ n) :
    (readCalls n polls).filterMap delivered = payloads.map .ok ↔ DeadlinesBetweenFrames payloads polls := by
  rw [filterMap_readCalls hn]
  exact collect_eq_iff hne hf harr

/-- A deadline right after a frame loses nothing. -/
theorem received_between :
    (readCalls 8 (((hdlcFrame [0x41]).map .byte) ++ [.expired])).filterMap delivered = [.ok [0x41]] :=
  (@received_iff [[0x41]] (by decide) _ (by decide) (by decide) _ (by decide)).2
    (by
      intro pre post h
      refine ⟨1, by decide, ?_⟩
      obtain ⟨rfl, -⟩ : pre = (hdlcFrame [0x41]).map Poll.byte ∧ post = [] := by
        rcases List.eq_nil_or_concat post with rfl | ⟨post, x, rfl⟩
        · have := List.append_inj_left' h rfl
          exact ⟨this.symm, rfl⟩
        · have hmem : Poll.expired ∈ (hdlcFrame [0x41]).map Poll.byte := by
            have h' : (hdlcFrame [0x41]).map Poll.byte ++ [.expired] = (pre ++ .expired :: post) ++ [x] := by
              rw [h]; simp
            rw [List.append_inj_left' h' rfl]; simp
          simp at hmem
      decide)

/-- A deadline after the first byte of a frame loses its payload. -/
theorem received_inside :
    ¬ ∀ (payloads : List Bytes), (∀ p ∈ payloads, p ≠ []) → ∀ polls : List Poll, .fault ∉ polls →
      arrivals polls = stream payloads → ∀ n, polls.length ≤ n →
        (readCalls n polls).filterMap delivered = payloads.map .ok := by
  intro h
  have := h [[0x41]] (by decide) (.byte FLAG :: .expired :: ((hdlcFrame [0x41]).drop 1).map .byte) (by decide)
    (by decide) 6 (by decide)
  exact absurd this (by decide)

end ShadowMsm
