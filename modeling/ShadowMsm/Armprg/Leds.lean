import ShadowMsm.Arm.Report
import ShadowMsm.Arm.Frames
import ShadowMsm.Armprg.Listings

/-!
# What the LED callbacks drive

Both callbacks are followed with the frame of their entry and the calls made so far.  Every packet byte leads to exactly
the calls of its table, in this order, and back to the dispatcher.
-/

namespace ShadowMsm.Armprg

open Arm Stage0

def routines : List Word := [PM_LED_INTENSITY, PM_MPP_I_SINK, SEND_MESSAGE]

/-- The routines called keep the callee-saved registers and the callback's frame. -/
structure Conforms (env : Word → Machine → Machine) : Prop where
  reg : ∀ t ∈ routines, ∀ m, ∀ r ∈ calleeSaves, (env t m).reg r = m.reg r
  stack : ∀ t ∈ routines, ∀ m x, Within x (m.reg .sp) 8 → (env t m).mem x = m.mem x

/-- A call of a routine with its arguments in `r0`, `r1` and `r2`. -/
def Calls (t : Word) (args : List Word) (a : Access) : Prop :=
  ∃ reg μ, a = .call t reg μ ∧ ([.r0, .r1, .r2].take args.length).map reg = args

def calls : Access → Bool
  | .call _ _ _ => true
  | _ => false

/-- The callback entered with a packet outside its frame. -/
structure CallbackEntry (m : Machine) : Prop where
  room : 8 ≤ (m.reg .sp).toNat
  aligned : align (m.reg .sp - 8) = m.reg .sp - 8
  packet : ¬ Within (m.reg .r0 + 7) (m.reg .sp - 8) 8

/-- What a callback may do: use its frame, load the byte it acts on, and call the routines. -/
def Allowed (m : Machine) : Access → Prop
  | .load a n => a = m.reg .sp - 8 ∧ n = 8 ∨ a = m.reg .r0 + 7 ∧ n = 1
  | .store a n => a = m.reg .sp - 8 ∧ n = 8
  | .call t _ _ => t ∈ routines

/-- The byte that the callbacks act on. -/
def selector (m : Machine) : Word := (m.mem (m.reg .r0 + 7)).setWidth 32

/-- `on` if the bit is set. -/
def chosen (mask bit on : Word) : Word := if mask &&& bit ≠ 0 then on else 0

/-- The calls of the RGB callback for a mask. -/
def rgbCalls (mask : Word) : List (Word × List Word) :=
  [(PM_LED_INTENSITY, [0, chosen mask 1 15]), (PM_LED_INTENSITY, [1, chosen mask 2 15]),
   (PM_MPP_I_SINK, [1, 2, chosen mask 4 1]), (PM_MPP_I_SINK, [3, 2, chosen mask 8 1]),
   (SEND_MESSAGE, [6, MESSAGE_ADDR])]

/-- The calls of the LED callback. -/
def ledCalls (level0 level1 : Word) : List (Word × List Word) :=
  [(PM_LED_INTENSITY, [0, level0]), (PM_LED_INTENSITY, [1, level1]), (SEND_MESSAGE, [6, MESSAGE_ADDR])]

/-- The levels of the LED callback: values other than 1, 2 and 3 switch both channels off. -/
def levels (value : Word) : Word × Word :=
  if value = 1 then (15, 0) else if value = 2 then (0, 15) else if value = 3 then (15, 15) else (0, 0)

def Made (cs : List (Word × List Word)) : List (Access → Prop) := cs.map fun c => Calls c.1 c.2

/-- The callback was entered with `m₀`, its frame is on the stack, and these calls have been made. -/
structure Driving (m₀ : Machine) (value : Word) (cs : List (Word × List Word)) (m : Machine) : Prop where
  active : Active (fun _ _ => True) (m₀.reg .sp - 8) ([.r4].map m₀.reg ++ [m₀.reg .lr]) [.r4] (fun _ => value) m
  others : ∀ r ∈ calleeSaves, r ≠ .r4 → r ≠ .sp → m.reg r = m₀.reg r
  reports : Reports (Allowed m₀) calls m₀ (Made cs) m

variable {env : Word → Machine → Machine} {Q : Exit → Machine → Prop} {p : Program Label} {m₀ m : Machine} {value : Word}
  {cs : List (Word × List Word)} {k : List (Line Label)}

/-- An operation on scratch registers. -/
theorem Driving.exec (hm : Driving m₀ value cs m) {o : Op} {ds : List Reg} (ho : o.writes = some ds)
    (hds : ∀ r ∈ calleeSaves, r ∉ ds) (hlog : (o.exec m).log = m.log) : Driving m₀ value cs (o.exec m) where
  active := hm.active.exec ho (by simp [hds .sp (by decide), hds .r4 (by decide)])
  others := fun r hr h4 hsp => (Op.reg_exec ho (hds r hr)).trans (hm.others r hr h4 hsp)
  reports := hm.reports.same hlog

/-- A call. -/
theorem Driving.callOut (henv : Conforms env) (hm : Driving m₀ value cs m) {t b : Word} {a : List Word}
    (ht : t ∈ routines) (hargs : ([.r0, .r1, .r2].take a.length).map m.reg = a) :
    Driving m₀ value (cs ++ [(t, a)]) (m.callOut env t b) := by
  have hreg (r : Reg) (hr : r ∈ calleeSaves) : (m.callOut env t b).reg r = m.reg r := by
    refine (henv.reg t ht _ r hr).trans ?_
    rw [Machine.reg_touch, Machine.reg_set, if_neg]
    rintro rfl
    exact absurd hr (by decide)
  refine ⟨⟨(hreg _ (by decide)).trans hm.active.sp_eq, ?_, ?_, trivial⟩, ?_, ?_⟩
  · intro r hr
    rw [List.mem_singleton.mp hr]
    exact (hreg _ (by decide)).trans (hm.active.regs .r4 (by simp))
  · refine hm.active.saved.congr (by simp) fun x hx => ?_
    refine henv.stack t ht _ x ?_
    rw [Machine.reg_touch, Machine.reg_set, if_neg (by decide), hm.active.sp_eq]
    exact hx
  · intro r hr h4 hsp
    exact (hreg r hr).trans (hm.others r hr h4 hsp)
  · rw [Made, List.map_append]
    refine hm.reports.shown (Machine.log_callOut m env _ b) ht rfl ⟨_, _, rfl, ?_⟩
    -- the return address is no argument
    refine Eq.trans (List.map_congr_left fun r hr => ?_) hargs
    rw [Machine.reg_set, if_neg]
    rintro rfl
    exact absurd (List.mem_of_mem_take hr) (by decide)

/-! ### The blocks -/

/-- A level by a bit of the mask. -/
theorem wp_select (hm : Driving m₀ value cs m) {bit on : Word} {rd : Reg} (hrd : ∀ r ∈ calleeSaves, r ∉ [rd])
    (h : ∀ m', Driving m₀ value cs m' → m'.reg rd = chosen value bit on → (∀ r, r ≠ rd → m'.reg r = m.reg r) →
      wp p env k m' Q) : wp p env (select bit rd on ++ k) m Q := by
  have h1 := hm.exec (o := .tst .r4 (.imm bit)) rfl (by simp) rfl
  have hflags : ((Op.tst .r4 (.imm bit)).exec m).flags = testFlags m.flags (value &&& bit) := by
    rw [← hm.active.regs .r4 (by simp)]
    rfl
  simp only [select, List.cons_append, List.nil_append]
  rw [wp_op_al, wp_op_if, hflags, holds_ne_test]
  by_cases hbit : value &&& bit = 0
  · rw [if_neg (by simpa using hbit), wp_op_if, hflags, if_pos (by simpa [Cond.holds, testFlags] using hbit)]
    refine h _ (h1.exec (o := .mov rd (.imm 0)) rfl hrd rfl) ?_ fun r hr => ?_
    · rw [chosen, if_neg (by simpa using hbit)]
      simp [Op.exec, Op2.eval, Machine.reg_set]
    · simp [Op.exec, Machine.reg_set, hr]
  · have hflags' : ((Op.mov rd (.imm on)).exec ((Op.tst .r4 (.imm bit)).exec m)).flags =
        testFlags m.flags (value &&& bit) := hflags
    rw [if_pos (by simpa using hbit), wp_op_if, hflags', if_neg (by simpa [Cond.holds, testFlags] using hbit)]
    refine h _ (h1.exec (o := .mov rd (.imm on)) rfl hrd rfl) ?_ fun r hr => ?_
    · rw [chosen, if_pos hbit]
      simp [Op.exec, Op2.eval, Machine.reg_set]
    · simp [Op.exec, Machine.reg_set, hr]

theorem wp_ledBlock (henv : Conforms env) (hm : Driving m₀ value cs m) {channel bit : Word}
    (h : ∀ m', Driving m₀ value (cs ++ [(PM_LED_INTENSITY, [channel, chosen value bit 15])]) m' → wp p env k m' Q) :
    wp p env (ledBlock channel bit ++ k) m Q := by
  have h1 := hm.exec (o := .mov .r0 (.imm channel)) rfl (by decide) rfl
  simp only [ledBlock, List.append_assoc, List.cons_append, List.nil_append]
  rw [wp_op_al]
  refine wp_select h1 (by decide) fun m' hm' hr1 hrest => ?_
  rw [wp_call]
  refine h _ (hm'.callOut henv (by decide) ?_)
  have hr0 : m'.reg .r0 = channel := hrest .r0 (by decide)
  simp [hr0, hr1]

theorem wp_sinkBlock (henv : Conforms env) (hm : Driving m₀ value cs m) {sink bit : Word}
    (h : ∀ m', Driving m₀ value (cs ++ [(PM_MPP_I_SINK, [sink, 2, chosen value bit 1])]) m' → wp p env k m' Q) :
    wp p env (sinkBlock sink bit ++ k) m Q := by
  have h1 := hm.exec (o := .mov .r0 (.imm sink)) rfl (by decide) rfl
  have h2 := h1.exec (o := .mov .r1 (.imm 2)) rfl (by decide) rfl
  simp only [sinkBlock, List.append_assoc, List.cons_append, List.nil_append]
  rw [wp_op_al, wp_op_al]
  refine wp_select h2 (by decide) fun m' hm' hr2 hrest => ?_
  rw [wp_call]
  refine h _ (hm'.callOut henv (by decide) ?_)
  have hr0 : m'.reg .r0 = sink := hrest .r0 (by decide)
  have hr1 : m'.reg .r1 = 2 := hrest .r1 (by decide)
  simp [hr0, hr1, hr2]

theorem wp_channelsBlock (henv : Conforms env) (hm : Driving m₀ value cs m) {level0 level1 : Word}
    (h : ∀ m', Driving m₀ value (cs ++ [(PM_LED_INTENSITY, [0, level0])] ++ [(PM_LED_INTENSITY, [1, level1])]) m' →
      wp p env k m' Q) : wp p env (channelsBlock level0 level1 ++ k) m Q := by
  have hlevels (m₁ : Machine) (channel level : Word) :
      ([.r0, .r1, .r2].take [channel, level].length).map
        ((Op.mov .r1 (.imm level)).exec ((Op.mov .r0 (.imm channel)).exec m₁)).reg = [channel, level] := by
    simp [Op.exec, Op2.eval, Machine.reg_set]
  have h1 := (hm.exec (o := .mov .r0 (.imm 0)) rfl (by decide) rfl).exec (o := .mov .r1 (.imm level0)) rfl (by decide) rfl
  simp only [channelsBlock, List.cons_append, List.nil_append]
  rw [wp_op_al, wp_op_al, wp_call]
  have h2 := h1.callOut henv (b := p.addr (.mov .r0 (.imm 1) :: .mov .r1 (.imm level1) :: .call PM_LED_INTENSITY :: k))
    (t := PM_LED_INTENSITY) (by decide) (hlevels m 0 level0)
  have h3 := (h2.exec (o := .mov .r0 (.imm 1)) rfl (by decide) rfl).exec (o := .mov .r1 (.imm level1)) rfl (by decide) rfl
  rw [wp_op_al, wp_op_al, wp_call]
  exact h _ (h3.callOut henv (by decide) (hlevels _ 1 level1))

/-! ### Entering and leaving -/

/-- The callback is back at its caller, and these calls have been made. -/
structure Drove (m₀ : Machine) (cs : List (Word × List Word)) (e : Exit) (m : Machine) : Prop where
  exit : e = ⟨.pop, m₀.reg .lr⟩
  status : m.reg .r0 = 0
  kept : ∀ r ∈ calleeSaves, m.reg r = m₀.reg r
  reports : Reports (Allowed m₀) calls m₀ (Made cs) m

/-- The frame, and the byte of the packet in `r4`. -/
theorem wp_enter (hm : CallbackEntry m) (h : ∀ m', Driving m (selector m) [] m' → wp p env k m' Q) :
    wp p env (.push [.r4, .lr] :: .ldrb .r4 .r0 7 :: k) m Q := by
  have hroom := hm.room
  have hsp : align (m.reg .sp - BitVec.ofNat 32 (wordBytes [.r4, .lr])) = m.reg .sp - 8 := hm.aligned
  have hentry : Active (fun _ _ => True) (m.reg .sp) [] [] m.reg m := ⟨rfl, by simp, trivial, trivial⟩
  have h1 : Active (fun _ _ => True) (m.reg .sp - 8) ([Reg.r4, .lr].map m.reg ++ []) [] m.reg
      ((Op.push [.r4, .lr]).exec m) :=
    hentry.push rfl hm.aligned (by simp) hroom (by simp; bv_omega) fun _ _ => trivial
  have hpacket : ((Op.push [.r4, .lr]).exec m).mem (m.reg .r0 + 7) = m.mem (m.reg .r0 + 7) := by
    simp only [Op.exec, Machine.mem_touch, Machine.mem_set, Machine.mem_setMem, hsp]
    exact storeWords_of_not_within hm.packet
  have hrest (r : Reg) (h4 : r ∉ [Reg.r4]) (hne : r ≠ .sp) :
      ((Op.ldrb .r4 .r0 7).exec ((Op.push [.r4, .lr]).exec m)).reg r = m.reg r := by
    rw [Op.reg_exec rfl h4, Op.exec, Machine.reg_touch, Machine.reg_set, if_neg hne, Machine.reg_setMem]
  have hr0 : ((Op.push [.r4, .lr]).exec m).reg .r0 = m.reg .r0 := by
    rw [Op.exec, Machine.reg_touch, Machine.reg_set, if_neg (by decide), Machine.reg_setMem]
  rw [wp_op_al, wp_op_al]
  refine h _ ⟨⟨?_, ?_, ?_, trivial⟩, ?_, ?_⟩
  · exact (Op.reg_exec rfl (show Reg.sp ∉ [Reg.r4] by decide)).trans h1.sp_eq
  · intro r hr
    rw [List.mem_singleton.mp hr, Op.exec, Machine.reg_touch, Machine.reg_set, if_pos rfl, hr0, hpacket, selector]
  · rw [Op.mem_exec (show (Op.ldrb .r4 .r0 7).writes = some [.r4] from rfl)]
    simpa using h1.saved
  · exact fun r _ h4 hne => hrest r (by simpa using h4) hne
  · refine (Reports.refl _ _ m).hidden (l := [.store (m.reg .sp - 8) 8, .load (m.reg .r0 + 7) 1]) ?_ ?_ ?_
    · rw [← hsp, ← hr0]
      simp [Op.exec]
    · simp [Allowed]
    · simp [calls]

/-- The answer to the host, and the way back. -/
theorem wp_reply (henv : Conforms env) (hentry : CallbackEntry m₀) (hm : Driving m₀ value cs m)
    (h : ∀ e m', Drove m₀ (cs ++ [(SEND_MESSAGE, [6, MESSAGE_ADDR])]) e m' → Q e m') :
    wp p env replyBlock m Q := by
  have h1 := (hm.exec (o := .mov .r0 (.imm 6)) rfl (by decide) rfl).exec (o := .ldrc .r1 MESSAGE_ADDR) rfl (by decide) rfl
  simp only [replyBlock]
  rw [wp_op_al, wp_op_al, wp_call, wp_op_al, wp_popPc]
  have h2 := h1.callOut henv (t := SEND_MESSAGE) (a := [6, MESSAGE_ADDR])
    (b := p.addr [.mov .r0 (.imm 0), .popPc [.r4]]) (by decide) (by simp [Op.exec, Op2.eval, Machine.reg_set])
  have h3 := h2.exec (o := .mov .r0 (.imm 0)) rfl (by decide) rfl
  have hr0 : ((Op.mov .r0 (.imm 0)).exec
      (((Op.ldrc .r1 MESSAGE_ADDR).exec ((Op.mov .r0 (.imm 6)).exec m)).callOut env SEND_MESSAGE
        (p.addr [.mov .r0 (.imm 0), .popPc [.r4]]))).reg .r0 = 0 := by
    simp [Op.exec, Op2.eval, Machine.reg_set]
  generalize (Op.mov .r0 (.imm 0)).exec _ = m' at h3 hr0 ⊢
  have hpop : Active (fun _ _ => True) (m₀.reg .sp) [] [.r4] m₀.reg (m'.popped [.r4]) :=
    h3.active.popped hentry.aligned (by decide) (by simp) (by simp)
  refine h _ _ ⟨?_, ?_, ?_, ?_⟩
  · rw [h3.active.load_return hentry.aligned]
  · rw [Machine.reg_touch, Machine.reg_set, if_neg (by decide), reg_popInto_of_notMem (by decide), hr0]
  · intro r hr
    by_cases hsp : r = .sp
    · rw [hsp]
      exact hpop.sp_eq
    by_cases h4 : r = .r4
    · rw [h4]
      exact hpop.regs .r4 (by simp)
    rw [Machine.reg_touch, Machine.reg_set, if_neg hsp, reg_popInto_of_notMem (by simpa using h4)]
    exact h3.others r hr h4 hsp
  · refine h3.reports.hidden (l := [.load (align (m'.reg .sp)) 8]) rfl ?_ (by simp [calls])
    simp only [List.mem_singleton, forall_eq, Allowed, h3.active.sp_eq]
    exact Or.inl ⟨hentry.aligned, by decide⟩

/-! ### The callbacks -/

/-- The RGB callback looks at the low four bits only. -/
theorem Driving.mask (hm : Driving m₀ value cs m) :
    Driving m₀ (value &&& 15) cs ((Op.alu .and .r4 .r4 (.imm 15)).exec m) := by
  refine ⟨⟨?_, ?_, ?_, trivial⟩, fun r hr h4 hsp => ?_, hm.reports.same rfl⟩
  · exact (Op.reg_exec rfl (show Reg.sp ∉ [Reg.r4] by decide)).trans hm.active.sp_eq
  · intro r hr
    rw [List.mem_singleton.mp hr, ← hm.active.regs .r4 (by simp), Op.exec, Machine.reg_set, if_pos rfl]
    rfl
  · rw [Op.mem_exec (show (Op.alu .and .r4 .r4 (.imm 15)).writes = some [.r4] from rfl)]
    exact hm.active.saved
  · exact (Op.reg_exec rfl (show r ∉ [Reg.r4] by simpa using h4)).trans (hm.others r hr h4 hsp)

theorem wp_rgbControl (henv : Conforms env) (hm : CallbackEntry m) :
    wp rgbControl env rgbControl.lines m (Drove m (rgbCalls (selector m &&& 15))) := by
  simp only [rgbControl, List.append_assoc, List.cons_append, List.nil_append]
  refine wp_enter hm fun m1 h1 => ?_
  rw [wp_op_al]
  refine wp_ledBlock henv h1.mask fun m2 h2 => ?_
  refine wp_ledBlock henv h2 fun m3 h3 => ?_
  refine wp_sinkBlock henv h3 fun m4 h4 => ?_
  refine wp_sinkBlock henv h4 fun m5 h5 => ?_
  exact wp_reply henv hm h5 fun _ _ h => h

theorem wp_ledControl (henv : Conforms env) (hm : CallbackEntry m) :
    wp ledControl env ledControl.lines m (Drove m (ledCalls (levels (selector m)).1 (levels (selector m)).2)) := by
  have hreply : ledControl.codeAt .reply = .label .reply :: replyBlock := rfl
  have hjump {k : List (Line Label)} {m' : Machine} {level0 level1 : Word} (h' : Driving m (selector m) [] m') :
      wp ledControl env (channelsBlock level0 level1 ++ (.b .reply :: k)) m' (Drove m (ledCalls level0 level1)) := by
    refine wp_channelsBlock henv h' fun m'' h'' => ?_
    rw [wp_b, if_pos (holds_al _), hreply, wp_label]
    exact wp_reply henv hm h'' fun _ _ h => h
  have hchannel0 : ledControl.codeAt .channel0 = .label .channel0 :: (channelsBlock 15 0 ++ (.b .reply ::
    ledControl.codeAt .channel1)) := rfl
  have hchannel1 : ledControl.codeAt .channel1 = .label .channel1 :: (channelsBlock 0 15 ++ (.b .reply ::
    ledControl.codeAt .both)) := rfl
  have hboth : ledControl.codeAt .both = .label .both :: (channelsBlock 15 15 ++ (.label .reply :: replyBlock)) := rfl
  have hlines : ledControl.lines = [.push [.r4, .lr], .ldrb .r4 .r0 7, .cmp .r4 (.imm 1), .beq .channel0,
      .cmp .r4 (.imm 2), .beq .channel1, .cmp .r4 (.imm 3), .beq .both] ++ (channelsBlock 0 0 ++ (.b .reply ::
    ledControl.codeAt .channel0)) := rfl
  rw [hlines]
  simp only [List.cons_append, List.nil_append]
  refine wp_enter hm fun m1 h1 => ?_
  have hcmp {m' : Machine} (h' : Driving m (selector m) [] m') (v : Word) :
      Cond.eq.holds ((Op.cmp .r4 (.imm v)).exec m').flags = decide (selector m = v) := by
    rw [← h'.active.regs .r4 (by simp)]
    rfl
  have h2 := h1.exec (o := .cmp .r4 (.imm 1)) rfl (by simp) rfl
  have h3 := h2.exec (o := .cmp .r4 (.imm 2)) rfl (by simp) rfl
  have h4 := h3.exec (o := .cmp .r4 (.imm 3)) rfl (by simp) rfl
  rw [wp_op_al, wp_b, hcmp h1, hchannel0, wp_label]
  by_cases hv1 : selector m = 1
  · rw [if_pos (decide_eq_true hv1)]
    have hlevels : levels (selector m) = (15, 0) := by rw [levels, if_pos hv1]
    rw [hlevels]
    exact hjump h2
  rw [if_neg (by simpa using hv1), wp_op_al, wp_b, hcmp h2, hchannel1, wp_label]
  by_cases hv2 : selector m = 2
  · rw [if_pos (decide_eq_true hv2)]
    have hlevels : levels (selector m) = (0, 15) := by rw [levels, if_neg hv1, if_pos hv2]
    rw [hlevels]
    exact hjump h3
  rw [if_neg (by simpa using hv2), wp_op_al, wp_b, hcmp h3, hboth, wp_label]
  by_cases hv3 : selector m = 3
  · rw [if_pos (decide_eq_true hv3)]
    have hlevels : levels (selector m) = (15, 15) := by rw [levels, if_neg hv1, if_neg hv2, if_pos hv3]
    rw [hlevels]
    refine wp_channelsBlock henv h4 fun _ h' => ?_
    rw [wp_label]
    exact wp_reply henv hm h' fun _ _ h => h
  rw [if_neg (by simpa using hv3)]
  have hlevels : levels (selector m) = (0, 0) := by rw [levels, if_neg hv1, if_neg hv2, if_neg hv3]
  rw [hlevels]
  exact hjump h4

/-- The channel calls among the calls of a callback. -/
def channelCalls (cs : List (Word × List Word)) : List (Word × List Word) := cs.filter fun c => c.1 = PM_LED_INTENSITY

/-- For the four values that both listings give a meaning to, the channels are set alike. -/
theorem channelCalls_agree {value : Word} (h : value < 4) :
    channelCalls (rgbCalls (value &&& 15)) = channelCalls (ledCalls (levels value).1 (levels value).2) := by
  have hcases : value = 0 ∨ value = 1 ∨ value = 2 ∨ value = 3 := by bv_omega
  rcases hcases with rfl | rfl | rfl | rfl <;> decide

/-- Entered with any packet, each callback ends at its caller with status 0 and the callee-saved registers as they were.
It has touched nothing but its frame and the byte it acts on, and has made the calls of its table in order, the answer
to the host last.  On the values below 4 both set the channels alike. -/
theorem callbacks_drive (henv : Conforms env) (hm : CallbackEntry m) :
    wp rgbControl env rgbControl.lines m (Drove m (rgbCalls (selector m &&& 15))) ∧
      wp ledControl env ledControl.lines m (Drove m (ledCalls (levels (selector m)).1 (levels (selector m)).2)) ∧
      (selector m < 4 → channelCalls (rgbCalls (selector m &&& 15)) =
        channelCalls (ledCalls (levels (selector m)).1 (levels (selector m)).2)) :=
  ⟨wp_rgbControl henv hm, wp_ledControl henv hm, channelCalls_agree⟩

/-- The callback entered with the packet `1C 02`. -/
def packetEntry : Machine where
  reg r := if r = .r0 then 0x0081A000 else if r = .sp then 0x0081F000 else if r = .lr then 0x00810E00 else 0
  flags := ⟨false, false, false, false⟩
  ctl := 0xD3
  sys _ := 0
  mem x := if x = 0x0081A007 then 2 else 0
  log := []

theorem conforms_setR0 : Conforms fun _ m => m.set .r0 0 where
  reg t _ m r hr := by
    rw [Machine.reg_set, if_neg]
    rintro rfl
    exact absurd hr (by decide)
  stack _ _ _ _ _ := rfl

theorem callbacks_drive_packetEntry :
    wp rgbControl (fun _ m => m.set .r0 0) rgbControl.lines packetEntry (Drove packetEntry (rgbCalls 2)) ∧
      wp ledControl (fun _ m => m.set .r0 0) ledControl.lines packetEntry (Drove packetEntry (ledCalls 0 15)) ∧
      channelCalls (rgbCalls 2) = channelCalls (ledCalls 0 15) := by
  have hentry : CallbackEntry packetEntry := ⟨by decide, by decide, by decide⟩
  have h := callbacks_drive conforms_setR0 hentry
  exact ⟨h.1, h.2.1, h.2.2 (by decide)⟩

end ShadowMsm.Armprg
