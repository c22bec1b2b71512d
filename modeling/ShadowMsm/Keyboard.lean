import ShadowMsm.BootRequest
import ShadowMsm.Host.SessionLog
import ShadowMsm.Linux.InputReaders
import ShadowMsm.Userspace.Start

/-!
# From the keyboard to the commands of PID 1

`send_linux_input` cuts an item into packets, the monitor puts their data into the mailbox, the reads of
`/dev/shadowtrace` take it out, and the loop of `_start` makes commands of it.  PID 1 reads as much as a packet may hold,
and at most one packet comes with a read: without another reader the mailbox never overflows, though no one waits for it.
-/

namespace ShadowMsm

open Arm Linux Stage0 Userspace

/-! ### The frames of a host -/

/-- The data of a frame with an input packet. -/
def inputData (frame : Bytes) : Option Bytes :=
  match unframe frame with
  | some (0x1C :: 0x0E :: data) => some data
  | _ => none

theorem inputData_inputPacket (data : Bytes) : inputData (Host.inputPacket data) = some data := by
  have hpayload : unframe (Host.inputPacket data) = some (0x1C :: 0x0E :: data) := unframe_hdlcFrame (by simp [Host.request])
  rw [inputData, hpayload]
  rfl

theorem filterMap_inputPacket (chunks : List Bytes) : (chunks.map Host.inputPacket).filterMap inputData = chunks := by
  have hsome : inputData ∘ Host.inputPacket = some := funext inputData_inputPacket
  rw [List.filterMap_map, hsome, List.filterMap_some]

/-- The boot request is not an input packet. -/
theorem inputData_stage2Request {address r0 r1 r2 : Int} {frame : Bytes}
    (h : Host.stage2Request address r0 r1 r2 = .ok frame) : inputData frame = none := by
  obtain ⟨payload, rfl, hp⟩ := stage2Packet_of_ok h
  have hpayload : unframe (hdlcFrame payload) = some payload := unframe_hdlcFrame (by simp [hp.payload_eq, Host.request])
  rw [inputData, hpayload, hp.payload_eq]
  rfl

/-! ### What a session sends -/

section

variable {l : List Host.Event} {es : List Host.Session.Entry}

theorem inputs_sentAs {data : Bytes} (h : Host.SentAs data l) :
    ((Host.writes l).filterMap inputData).flatten = data := by
  obtain ⟨chunks, ⟨hflat, -⟩, rfl⟩ := h
  have hwrites : Host.writes (chunks.flatMap fun chunk => [.write (Host.inputPacket chunk), .flush]) =
      chunks.map Host.inputPacket := by
    clear hflat
    induction chunks with
    | nil => rfl
    | cons chunk chunks ih => rw [List.flatMap_cons, Host.writes_append, ih]; rfl
  rw [hwrites, filterMap_inputPacket, hflat]

theorem inputs_shown {e : Host.Session.Entry} (h : e.Shown l) :
    ((Host.writes l).filterMap inputData).flatten = e.data := by
  cases e with
  | command line => exact inputs_sentAs h
  | key bs => exact inputs_sentAs h
  | text text =>
    obtain ⟨polls, payload, rfl, -⟩ := h
    have hwrites : Host.writes (polls.map .poll ++ [.system]) = [] := by simp [Host.writes]
    rw [hwrites]
    rfl
  | pause =>
    obtain ⟨polls, rfl, -⟩ := h
    have hwrites : Host.writes (polls.map .poll) = [] := by simp
    rw [hwrites]
    rfl

theorem inputs_log {log : List (Host.Session.Entry × List Host.Event)} (h : ∀ x ∈ log, x.1.Shown x.2) :
    ((Host.writes (log.flatMap Prod.snd)).filterMap inputData).flatten =
      (log.map Prod.fst).flatMap Host.Session.Entry.data := by
  induction log with
  | nil => rfl
  | cons x log ih =>
    rw [List.flatMap_cons, Host.writes_append, List.filterMap_append, List.flatten_append,
      inputs_shown (h x List.mem_cons_self), ih fun y hy => h y (List.mem_cons_of_mem _ hy), List.map_cons,
      List.flatMap_cons]

/-- The input packets of a run carry the items of its session in order; only an exception cuts the last one short. -/
theorem inputs_inOrder {address r0 r1 r2 : Int} {boot finished : Bool} {commands : List (List Char)}
    {keys keys' : List Host.Key} {before after : List Host.Event} {log : List (Host.Session.Entry × List Host.Event)}
    {interrupted : List Host.Session.Entry}
    (h : Host.InOrder (Host.stage2Request address r0 r1 r2) boot commands keys keys' finished l before log after interrupted) :
    ((Host.writes l).filterMap inputData).flatten <+:
        (log.map Prod.fst ++ interrupted).flatMap Host.Session.Entry.data ∧
      (finished = true → ((Host.writes l).filterMap inputData).flatten =
        (log.map Prod.fst ++ interrupted).flatMap Host.Session.Entry.data) := by
  have hbefore : (Host.writes before).filterMap inputData = [] := by
    rcases h.boot_request with hnone | ⟨-, packet, hpacket, hone⟩
    · rw [hnone]
      rfl
    · rw [hone, List.filterMap_cons, inputData_stage2Request hpacket]
      rfl
  rw [h.trace, Host.writes_append, Host.writes_append, List.filterMap_append, List.filterMap_append, hbefore,
    List.nil_append, List.flatten_append, inputs_log h.shown, List.flatMap_append]
  rcases h.after with ⟨rfl, hnone⟩ | ⟨hfinished, e, chunks, rfl, ⟨hflat, -⟩, hpre⟩
  · rw [hnone]
    exact ⟨List.prefix_refl _, fun _ => rfl⟩
  · have hchunks := (hpre.filterMap inputData).flatten
    rw [filterMap_inputPacket, hflat, ← List.flatMap_singleton Host.Session.Entry.data e] at hchunks
    exact ⟨(List.prefix_append_right_inj _).mpr hchunks, fun h => absurd (hfinished.symm.trans h) (by decide)⟩

end

/-! ### What the reads give -/

/-- The bytes that a receive call takes out. -/
def Linux.ReceiveRecord.taken (c : ReceiveRecord) : Bytes := (shadowMsmDiagReceive c.queued c.limit).1

/-- What the result of a read is to PID 1, to which an error is no input. -/
inductive Gives : Except ReadErrno Bytes → Received → Prop
  | input {bytes : Bytes} (h : 1 ≤ bytes.length ∧ bytes.length ≤ SHADOW_INPUT_LENGTH) : Gives (.ok bytes) (.input bytes h)
  | empty : Gives (.ok []) .nothing
  | error (e : ReadErrno) : Gives (.error e) .nothing

/-- The receive calls of PID 1's reads, one read after the other, and what the reads have given.  Each is into the array
`input`, which can be written; a read makes further calls until it returns. -/
inductive Reads : List ReceiveRecord → List Received → Prop
  | nil : Reads [] []
  | sleeps {c : ReceiveRecord} {cs : List ReceiveRecord} {reads : List Received} (r : Round) (hr : r.fault = false)
      (hc : c.caller = .traceRead SHADOW_INPUT_LENGTH) (h : afterReceive c.limit r c.taken = .waiting c.limit)
      (hs : Reads cs reads) : Reads (c :: cs) reads
  | returns {c : ReceiveRecord} {cs : List ReceiveRecord} {reads : List Received} {result : Except ReadErrno Bytes}
      {received : Received} (r : Round) (hr : r.fault = false) (hc : c.caller = .traceRead SHADOW_INPUT_LENGTH)
      (h : afterReceive c.limit r c.taken = .returned result) (hg : Gives result received) (hs : Reads cs reads) :
      Reads (c :: cs) (received :: reads)

section

variable {c : ReceiveRecord} {cs : List ReceiveRecord} {reads : List Received} {μ μ' : Mem}

/-- A round into an array that can be written has what it took for its result. -/
theorem bytes_round {r : Round} (hr : r.fault = false) : (afterReceive c.limit r c.taken).bytes = c.taken := by
  refine bytes_afterReceive fun h => ?_
  have hfault := (afterReceive_eq_efault_iff.mp h).1
  rw [hr] at hfault
  cases hfault

theorem Gives.bytes_eq {result : Except ReadErrno Bytes} {received : Received} (h : Gives result received) :
    (ReadCall.returned result).bytes = received.bytes := by
  cases h <;> rfl

theorem Reads.bytes_eq (h : Reads cs reads) : reads.flatMap Received.bytes = cs.flatMap ReceiveRecord.taken := by
  induction h with
  | nil => rfl
  | @sleeps c _ _ r hr _ hround _ ih =>
    have htaken := bytes_round (c := c) hr
    rw [hround] at htaken
    rw [List.flatMap_cons, ← htaken, ih]
    rfl
  | @returns c _ _ _ _ r hr _ hround hg _ ih =>
    have htaken := bytes_round (c := c) hr
    rw [hround, hg.bytes_eq] at htaken
    rw [List.flatMap_cons, List.flatMap_cons, htaken, ih]

theorem Reads.limit (h : Reads cs reads) : ∀ c ∈ cs, c.limit = 64 := by
  have hlimit : ∀ {c : ReceiveRecord}, c.caller = .traceRead SHADOW_INPUT_LENGTH → c.limit = 64 := by
    intro c hc
    have heq := c.limit_eq
    rw [hc] at heq
    exact (Option.some.inj heq).symm
  induction h with
  | nil => nofun
  | sleeps r _ hc _ _ ih => exact List.forall_mem_cons.mpr ⟨hlimit hc, ih⟩
  | returns r _ hc _ _ _ ih => exact List.forall_mem_cons.mpr ⟨hlimit hc, ih⟩

/-- A call of such a read takes the whole packet that comes with it, and leaves the mailbox as empty as it was. -/
theorem taken_of_empty (hd : Dispatched c.before c.packet c.queued)
    (hr : SameOn μ (shadowMsmDiagReceive c.queued c.limit).2 INPUT_MAILBOX_ADDR 268) (hok : MailboxOk c.before)
    (hempty : mailboxContents c.before = []) (hlimit : c.limit = 64) :
    c.taken = c.packet.getD [] ∧ MailboxOk μ ∧ mailboxContents μ = [] := by
  have hlen := c.length_data
  obtain ⟨hok', hqueued, hleft⟩ := ReceiveRecord.exact hd hr hok
  obtain ⟨hokq, -⟩ := hd.contents hok c.packet_le
  rw [hempty, List.nil_append, List.take_of_length_le (by simp; omega)] at hqueued
  refine ⟨?_, hok', ?_⟩
  · rw [ReceiveRecord.taken, (shadowMsmDiagReceive_eq hokq c.limit).1, hqueued, List.take_of_length_le (by omega)]
    rfl
  · rw [hleft, hqueued, List.drop_of_length_le (by omega)]

/-- Without another reader nothing is lost: the reads have taken the packets that came. -/
theorem taken_of_run (h : ReceiveRun μ cs μ') (hok : MailboxOk μ) (hempty : mailboxContents μ = [])
    (hlimit : ∀ c ∈ cs, c.limit = 64) :
    cs.flatMap ReceiveRecord.taken = (cs.filterMap fun c => c.packet).flatten ∧ mailboxContents μ' = [] := by
  induction h with
  | nil μ => exact ⟨rfl, hempty⟩
  | @cons c cs μ μ' hd hr _ ih =>
    obtain ⟨htaken, hok', hempty'⟩ := taken_of_empty hd hr hok hempty (hlimit c List.mem_cons_self)
    obtain ⟨htakens, hlast⟩ := ih hok' hempty' fun c' hc' => hlimit c' (List.mem_cons_of_mem _ hc')
    refine ⟨?_, hlast⟩
    rw [List.flatMap_cons, htaken, htakens, List.filterMap_cons]
    cases c.packet <;> rfl

end

/-! ### The commands -/

/-- In every run of `_start` the commands are those of what it has read. -/
theorem Userspace.Session.lines {d : Int} {r : Except Stop Editor} {l : List SysCall} (h : Session d r l) :
    List.Forall₂ RunsFrom (lines l) (streamCommands [] (input l)) := by
  cases h.outcome with
  | runs _ hcommands => exact hcommands
  | shell _ hlines hinput =>
    rw [lines_append, hlines, input_append, hinput]
    exact .nil

/-- The commands of a first part of a stream are the first ones of it. -/
theorem streamCommands_prefix {stream stream' : Bytes} (h : stream <+: stream') (kept : Bytes) :
    streamCommands kept stream <+: streamCommands kept stream' := by
  obtain ⟨rest, rfl⟩ := h
  rw [streamCommands_append]
  exact List.prefix_append _ _

/-- A text that the line buffer of PID 1 holds as it is. -/
def OneLine (text : List Char) : Prop := text.length ≤ 95 ∧ ∀ c ∈ text, 32 ≤ c.toNat ∧ c.toNat ≤ 126

theorem printable_of_oneLine {text : List Char} (h : OneLine text) : ∀ b ∈ encodeAscii text, Printable b := by
  intro b hb
  obtain ⟨c, hc, rfl⟩ := List.mem_map.mp hb
  obtain ⟨hlow, hhigh⟩ := h.2 c hc
  rw [if_pos (by omega), Printable]
  constructor <;> simp only [BitVec.le_def, BitVec.ofNat_eq_ofNat, BitVec.toNat_ofNat] <;> omega

theorem keep_printable {kept text : Bytes} (hprintable : ∀ b ∈ text, Printable b) (hroom : kept.length + text.length ≤ 95) :
    text.foldl keepCharacter kept = kept ++ text ∧ streamCommands kept text = [] := by
  induction text generalizing kept with
  | nil => exact ⟨(List.append_nil kept).symm, rfl⟩
  | cons b text ih =>
    obtain ⟨hb, htext⟩ := List.forall_mem_cons.mp hprintable
    rw [List.length_cons] at hroom
    have hlf : b ≠ 0x0A := by rintro rfl; exact absurd hb (by decide)
    have hdelete : ¬ (b = 8 ∨ b = 127) := by rintro (rfl | rfl) <;> exact absurd hb (by decide)
    have hkeep : keepCharacter kept b = kept ++ [b] := by
      rw [keepCharacter, if_neg hlf, if_neg hdelete, if_pos ⟨hb, by omega⟩]
    obtain ⟨hfold, hnone⟩ := @ih (kept ++ [b]) htext (by rw [List.length_append, List.length_singleton]; omega)
    have hrun : ¬ (b = 0x0A ∧ kept ≠ []) := fun h => hlf h.1
    rw [List.foldl_cons, streamCommands, hkeep, hfold, hnone, if_neg hrun, List.append_assoc]
    exact ⟨rfl, rfl⟩

/-- A line that is sent runs as the command that it is. -/
theorem streamCommands_line {text : List Char} (h : OneLine text) (stream : Bytes) :
    streamCommands [] (encodeAscii (text ++ ['\n']) ++ stream) =
      (if encodeAscii text ≠ [] then [encodeAscii text] else []) ++ streamCommands [] stream := by
  have hsplit : encodeAscii (text ++ ['\n']) = encodeAscii text ++ [0x0A] := by
    rw [encodeAscii, List.map_append]
    rfl
  obtain ⟨hfold, hnone⟩ := keep_printable (printable_of_oneLine h)
    (show ([] : Bytes).length + (encodeAscii text).length ≤ 95 by simpa [encodeAscii] using h.1)
  have hline : keepCharacter (encodeAscii text) 0x0A = [] := rfl
  rw [hsplit, List.append_assoc, streamCommands_append, hnone, hfold, List.nil_append, List.nil_append,
    List.singleton_append, streamCommands, hline]
  simp

/-- The entries of a session without keyboard items have the scripted lines for their data. -/
theorem data_of_script {es : List Host.Session.Entry} (h : Host.Session.sentKeys es = []) :
    es.flatMap Host.Session.Entry.data = (Host.Session.sentCommands es).flatMap encodeAscii := by
  induction es with
  | nil => rfl
  | cons e es ih =>
    cases e with
    | command line => exact congrArg (encodeAscii line ++ ·) (ih h)
    | key bs => cases h
    | text text => exact ih h
    | pause => exact ih h

/-- The commands of a script: an empty line is none. -/
def scriptCommands (commands : List (List Char)) : List Bytes :=
  (commands.map fun command => encodeAscii (rstripLine command)).filter (· ≠ [])

theorem streamCommands_script {commands : List (List Char)} (h : ∀ command ∈ commands, OneLine (rstripLine command)) :
    streamCommands [] ((commands.map fun command => rstripLine command ++ ['\n']).flatMap encodeAscii) =
      scriptCommands commands := by
  induction commands with
  | nil => rfl
  | cons command commands ih =>
    obtain ⟨hcommand, hcommands⟩ := List.forall_mem_cons.mp h
    rw [List.map_cons, List.flatMap_cons, streamCommands_line hcommand, ih hcommands, scriptCommands, scriptCommands,
      List.map_cons, List.filter_cons]
    by_cases hempty : encodeAscii (rstripLine command) = []
    · simp [hempty]
    · simp [hempty]

/-! ### The whole way -/

/-- A host that has written `frames`, and a PID 1 that has made the calls `l` and is the only reader of the mailbox.  The
first frames have come through, the data of those with input each during one of the receive calls of PID 1's reads. -/
structure Connected (frames : List Bytes) (l : List SysCall) (cs : List ReceiveRecord) (μ μ' : Mem) : Prop where
  arrived : ∃ arrived, arrived <+: frames ∧ arrived.filterMap inputData = cs.filterMap fun c => c.packet
  reads : Reads cs (Userspace.reads l)
  calls : ReceiveRun μ cs μ'
  ok : MailboxOk μ
  empty : mailboxContents μ = []

/-- PID 1 has read the input that has come through to it, which is that of the session `es`, and has run its commands. -/
structure Obeyed (commands : List (List Char)) (boot : Bool) (keys : List Host.Key) (finished : Bool)
    (frames : List Bytes) (l : List SysCall) (cs : List ReceiveRecord) (es : List Host.Session.Entry) : Prop where
  sequenced : Host.Session.Sequenced (commands.map fun command => rstripLine command ++ ['\n']) boot es
  keys : Host.Session.sentKeys es <+: Host.typed keys
  delivered : (cs.filterMap fun c => c.packet).flatten <+: es.flatMap Host.Session.Entry.data
  whole : finished = true → frames.filterMap inputData = (cs.filterMap fun c => c.packet) →
    (cs.filterMap fun c => c.packet).flatten = es.flatMap Host.Session.Entry.data
  input : input l = (cs.filterMap fun c => c.packet).flatten
  run : List.Forall₂ RunsFrom (lines l) (streamCommands [] (cs.filterMap fun c => c.packet).flatten)

/-- Without keyboard items the commands are the first ones of the script. -/
theorem Obeyed.script {commands : List (List Char)} {boot finished : Bool} {keys : List Host.Key} {frames : List Bytes}
    {l : List SysCall} {cs : List ReceiveRecord} {es : List Host.Session.Entry}
    (h : Obeyed commands boot keys finished frames l cs es) (hkeys : Host.typed keys = [])
    (hlines : ∀ command ∈ commands, OneLine (rstripLine command)) :
    ∃ run, run <+: scriptCommands commands ∧ List.Forall₂ RunsFrom (lines l) run := by
  have hnone : Host.Session.sentKeys es = [] := List.prefix_nil.mp (hkeys ▸ h.keys)
  have hdelivered := h.delivered
  rw [data_of_script hnone] at hdelivered
  have hscript := streamCommands_prefix (hdelivered.trans (h.sequenced.commands_prefix.flatMap encodeAscii)) []
  rw [streamCommands_script hlines] at hscript
  exact ⟨_, hscript, h.run⟩

/-- What is typed and scripted at the host is what PID 1 runs, whatever the kernel answers elsewhere, whenever PID 1 reads
and however its reads fall between the packets: nothing is lost on the way or comes out of order, and the commands are
those of the stream that was sent, as far as it has come. -/
theorem typed_commands (address r0 r1 r2 : Int) (bounded rawKeys boot : Bool) (commands : List (List Char))
    (w : Host.World) (line : Vector Byte SHADOW_LINE_LENGTH) (digits : Vector Byte 11) (n : Nat) (kernel : Kernel)
    {cs : List ReceiveRecord} {μ μ' : Mem}
    (h : Connected (Host.writes (Host.followLinux address r0 r1 r2 bounded rawKeys commands boot w).2.2)
      (start line digits n kernel).2.2 cs μ μ') :
    mailboxContents μ' = [] ∧
    (∃ es, Obeyed commands boot w.keys (Host.followLinux address r0 r1 r2 bounded rawKeys commands boot w).1.isOk
      (Host.writes (Host.followLinux address r0 r1 r2 bounded rawKeys commands boot w).2.2)
      (start line digits n kernel).2.2 cs es) ∧
    (Host.typed w.keys = [] → (∀ command ∈ commands, OneLine (rstripLine command)) →
      ∃ run, run <+: scriptCommands commands ∧ List.Forall₂ RunsFrom (lines (start line digits n kernel).2.2) run) := by
  obtain ⟨before, log, after, interrupted, horder⟩ :=
    (Host.followLinux_eq address r0 r1 r2 bounded rawKeys commands boot ▸ Host.followSession_transmitsInOrder _ :
      Host.TransmitsInOrder (Host.followLinux address r0 r1 r2 bounded rawKeys commands boot)
        (Host.stage2Request address r0 r1 r2) boot commands) w
  generalize Host.followLinux address r0 r1 r2 bounded rawKeys commands boot w = host at *
  obtain ⟨hpre, hwhole⟩ := inputs_inOrder horder
  obtain ⟨htaken, hlast⟩ := taken_of_run h.calls h.ok h.empty h.reads.limit
  obtain ⟨d, hsession⟩ := (sat_start line digits n).run kernel
  have hinput : input (start line digits n kernel).2.2 = (cs.filterMap fun c => c.packet).flatten := by
    rw [input_eq_reads, h.reads.bytes_eq, htaken]
  have hobeyed : Obeyed commands boot w.keys host.1.isOk (Host.writes host.2.2) (start line digits n kernel).2.2 cs
      (log.map Prod.fst ++ interrupted) := by
    refine ⟨horder.sequenced, ?_, ?_, fun hfinished hall => ?_, hinput, hinput ▸ hsession.lines⟩
    · obtain ⟨used, hused, hsent⟩ := horder.keys
      rw [hsent, hused, Host.typed_append]
      exact List.prefix_append _ _
    · obtain ⟨arrived, harrived, hpackets⟩ := h.arrived
      rw [← hpackets]
      exact (harrived.filterMap inputData).flatten.trans hpre
    · rw [← hall, hwhole hfinished]
  exact ⟨hlast, ⟨_, hobeyed⟩, hobeyed.script⟩

deriving instance DecidableEq for Received

/-- The kernel of a PID 1 that has no tty and reads a line on the trace device. -/
def traceKernel : Kernel where
  io := fun _ => ⟨fun count => ⟨count, le_refl _⟩, 0⟩
  replies := fun i =>
    { value := if i = 2 then 3 else -1
      names := ⟨Vector.replicate _ 0, Vector.replicate _ 0, Vector.replicate _ 0⟩
      failed := some (-2)
      received := .input [0x69, 0x64, 0x0A] (by decide) }

/-- The read of a packet with the line. -/
def lineRead : ReceiveCall where
  packet := some [0x69, 0x64, 0x0A]
  packet_le := by simp
  caller := .traceRead SHADOW_INPUT_LENGTH
  limit := 64
  limit_eq := rfl

/-- A scripted line, sent to a shell that is running, is taken out of the mailbox by the one read, and is run. -/
theorem typed_commands_id : ∃ (c : ReceiveRecord) (array : Bytes), c.packet = some [0x69, 0x64, 0x0A] ∧
    Connected (Host.writes (Host.followLinux 0 0 0 0 true false ["id".toList] false (.polling [])).2.2)
      (start (Vector.replicate _ 0) (Vector.replicate _ 0) 1 traceKernel).2.2 [c] (fun _ => 0)
      (shadowMsmDiagReceive c.queued 64).2 ∧
    mailboxContents c.queued = [0x69, 0x64, 0x0A] ∧ mailboxContents (shadowMsmDiagReceive c.queued 64).2 = [] ∧
    input (start (Vector.replicate _ 0) (Vector.replicate _ 0) 1 traceKernel).2.2 = [0x69, 0x64, 0x0A] ∧
    lines (start (Vector.replicate _ 0) (Vector.replicate _ 0) 1 traceKernel).2.2 = [array] ∧
    RunsFrom array [0x69, 0x64] := by
  have hwrites : Host.writes (Host.followLinux 0 0 0 0 true false ["id".toList] false (.polling [])).2.2 =
      [Host.inputPacket [0x69, 0x64, 0x0A]] := by decide +kernel
  have hreads : reads (start (Vector.replicate _ 0) (Vector.replicate _ 0) 1 traceKernel).2.2 =
      [.input [0x69, 0x64, 0x0A] (by decide)] := by decide +kernel
  have hok : MailboxOk fun _ => 0 := by decide
  have hempty : mailboxContents (fun _ => 0) = [] := by decide
  obtain ⟨μq, hd⟩ := exists_dispatched hok lineRead.packet lineRead.packet_le
  have htaken := taken_of_empty (c := ⟨lineRead, fun _ => 0, μq⟩) hd (SameOn.refl _ _ _) hok hempty rfl
  have hcalls : ReceiveRun (fun _ => 0) [⟨lineRead, fun _ => 0, μq⟩] (shadowMsmDiagReceive μq 64).2 :=
    .cons (c := ⟨lineRead, fun _ => 0, μq⟩) hd (SameOn.refl _ _ _) (.nil _)
  have hconnected : Connected (Host.writes (Host.followLinux 0 0 0 0 true false ["id".toList] false (.polling [])).2.2)
      (start (Vector.replicate _ 0) (Vector.replicate _ 0) 1 traceKernel).2.2 [⟨lineRead, fun _ => 0, μq⟩] (fun _ => 0)
      (shadowMsmDiagReceive μq 64).2 := by
    refine ⟨⟨_, List.prefix_refl _, ?_⟩, ?_, hcalls, hok, hempty⟩
    · rw [hwrites, List.filterMap_cons, inputData_inputPacket]
      rfl
    · rw [hreads]
      refine .returns ⟨false, false, false⟩ rfl rfl ?_ (.input (by decide)) .nil
      rw [htaken.1]
      rfl
  obtain ⟨hlast, ⟨es, hobeyed⟩, -⟩ :=
    typed_commands 0 0 0 0 true false false ["id".toList] (.polling []) _ _ 1 traceKernel hconnected
  obtain ⟨array, rest, hrun, hrest, hlines⟩ := List.forall₂_cons_right_iff.mp hobeyed.run
  rw [List.forall₂_nil_right_iff.mp hrest] at hlines
  have hqueued := (hd.contents hok lineRead.packet_le).2
  rw [hempty, List.nil_append] at hqueued
  exact ⟨_, array, rfl, hconnected, hqueued, hlast, hobeyed.input, hlines, hrun⟩

end ShadowMsm
