import Mathlib.Data.List.GetD
import ShadowMsm.Arm.Hex
import ShadowMsm.TimerProbe.Listing

/-!
# What the timer probe reports

The probe is followed with the frame of its entry, its own image in memory, and the list of what it has reported so far.
In the end it has read every register exactly twice, in the order of the table, has printed each value that it read, has
not written to a device, and is back at its caller (`probe_reports`).
-/

namespace ShadowMsm.TimerProbe

open Arm

/-! ### Memory -/

def IMAGE_SIZE : Nat := 0x172D

/-- The address of what the entry has pushed. -/
def FRAME : Word := 0x01FFEFD8

/-- The image is as before, up to the digits in its text buffer. -/
def Kept (μ₀ μ : Mem) : Prop := ∀ x, Within x BASE IMAGE_SIZE → ¬ Within x (hexBufferAddr + 2) 8 → μ x = μ₀ x

/-- The data of the image: strings, digit table, and the text around the digits. -/
structure Loaded (μ : Mem) : Prop where
  text : ∀ name s, (name, s) ∈ stringTable → bytesAt μ (addresses name) (s.length + 1) = s ++ [0x00]
  table : bytesAt μ hexTableAddr 16 = hexDigits
  head : bytesAt μ hexBufferAddr 2 = hexHead
  tail : bytesAt μ (hexBufferAddr + 10) 3 = hexTail

section

variable {μ μ₀ μ₁ : Mem}

theorem stringTable_nodup : (stringTable.map Prod.fst).Nodup := by decide

theorem loaded_of_image {code : Bytes} (hcode : code.length ≤ STRINGS_OFFSET)
    (h : bytesAt μ BASE (image code).length = image code) : Loaded μ := by
  have hblob := strings_fit
  simp only [STRINGS_OFFSET, HEX_TABLE_OFFSET] at hcode hblob
  have hpad : (code ++ zeros (STRINGS_OFFSET - code.length)).length = 0x1000 := by
    simp only [STRINGS_OFFSET, zeros, List.length_append, List.length_replicate]
    omega
  have hmid : (stringBlob stringTable ++
      zeros (HEX_TABLE_OFFSET - STRINGS_OFFSET - (stringBlob stringTable).length)).length = 0x700 := by
    simp only [HEX_TABLE_OFFSET, STRINGS_OFFSET, zeros, List.length_append, List.length_replicate]
    omega
  unfold image at h
  generalize code ++ zeros (STRINGS_OFFSET - code.length) = front at h hpad
  constructor
  · intro name s hs
    refine bytesAt_string stringTable_nodup hs (a := BASE + BitVec.ofNat 32 STRINGS_OFFSET) ?_
    simp only [List.append_assoc] at h
    rw [← show front.length = STRINGS_OFFSET from hpad]
    exact bytesAt_mid h
  · generalize stringBlob stringTable ++ zeros _ = strings at h hmid
    have := bytesAt_mid (x := front ++ strings) (y := hexDigits)
      (z := zeros 16 ++ (hexHead ++ encodeAscii "00000000".toList ++ hexTail)) (by simpa [List.append_assoc] using h)
    rw [List.length_append, hpad, hmid] at this
    exact this
  · generalize stringBlob stringTable ++ zeros _ = strings at h hmid
    have := bytesAt_mid (x := front ++ strings ++ (hexDigits ++ zeros 16)) (y := hexHead)
      (z := encodeAscii "00000000".toList ++ hexTail) (by simpa [List.append_assoc] using h)
    rw [List.length_append, List.length_append, hpad, hmid] at this
    exact this
  · generalize stringBlob stringTable ++ zeros _ = strings at h hmid
    have := bytesAt_mid (x := front ++ strings ++ (hexDigits ++ zeros 16) ++ (hexHead ++ encodeAscii "00000000".toList))
      (y := hexTail) (z := []) (by simpa [List.append_assoc] using h)
    rw [List.length_append, List.length_append, List.length_append, hpad, hmid] at this
    exact this

theorem Kept.refl (μ : Mem) : Kept μ μ := fun _ _ _ => rfl

/-- A write outside the image. -/
theorem Kept.write (h : Kept μ₀ μ) {a : Word} {n : Nat} (hμ : ∀ x, ¬ Within x a n → μ₁ x = μ x)
    (ha : ∀ x, Within x BASE IMAGE_SIZE → ¬ Within x (hexBufferAddr + 2) 8 → ¬ Within x a n) : Kept μ₀ μ₁ := by
  intro x hx hx'
  rw [hμ x (ha x hx hx'), h x hx hx']

/-- The data that the probe prints from is not overwritten. -/
theorem Loaded.kept (h : Loaded μ₀) (hμ : Kept μ₀ μ) : Loaded μ := by
  have hsame : ∀ (o n : Nat), o + n ≤ 0x1722 ∨ 0x172A ≤ o ∧ o + n ≤ IMAGE_SIZE →
      bytesAt μ (BASE + BitVec.ofNat 32 o) n = bytesAt μ₀ (BASE + BitVec.ofNat 32 o) n := by
    intro o n ho
    simp only [IMAGE_SIZE] at ho
    apply bytesAt_congr
    · intro x hx
      apply hμ x
      · simp only [IMAGE_SIZE, Within] at hx ⊢
        bv_omega
      · simp only [hexBufferAddr, HEX_BUFFER_OFFSET, Within] at hx ⊢
        bv_omega
    · omega
  constructor
  · intro name s hs
    have hle := stringOffset_add_le stringTable_nodup hs
    have hfit := strings_fit
    simp only [HEX_TABLE_OFFSET, STRINGS_OFFSET] at hfit
    rw [← h.text name s hs]
    have haddr : addresses name = BASE + BitVec.ofNat 32 (0x1000 + stringOffset stringTable name) := by
      rw [addresses, BitVec.ofNat_add, BitVec.add_assoc]
      rfl
    rw [haddr]
    exact hsame _ _ (Or.inl (by omega))
  · rw [← h.table]
    exact hsame 0x1700 16 (Or.inl (by omega))
  · rw [← h.head]
    exact hsame 0x1720 2 (Or.inl (by omega))
  · rw [← h.tail]
    exact hsame 0x172A 3 (Or.inr ⟨by omega, by decide⟩)

end

/-! ### Accesses -/

/-- The print routine follows the procedure call standard: it keeps `sp` and the registers `r4`-`r11`, and the stack and
the image of its caller. -/
structure Resident (env : Word → Machine → Machine) : Prop where
  reg : ∀ m, ∀ r ∈ calleeSaves, (env PRINT_STRING m).reg r = m.reg r
  stack : ∀ m x, m.reg .sp ≤ x → x < STACK_TOP → (env PRINT_STRING m).mem x = m.mem x
  image : ∀ m x, Within x BASE IMAGE_SIZE → (env PRINT_STRING m).mem x = m.mem x

/-- What the probe may do: use its stack, its digit table and its text buffer, load the registers, and print. -/
def Permitted : Access → Prop
  | .load a n => Inside a n (FRAME - 20) 60 ∨ Inside a n hexTableAddr 16 ∨ ∃ r ∈ REGISTERS, a = r.address ∧ n = 4
  | .store a n => Inside a n (FRAME - 20) 60 ∨ Inside a n (hexBufferAddr + 2) 8
  | .call t _ _ => t = PRINT_STRING

/-- Calls, and whatever touches the upper half of the address space, where the devices are. -/
def seen : Access → Bool
  | .load a _ | .store a _ => decide (0x80000000 ≤ a)
  | .call _ _ _ => true

/-- A call that prints a text. -/
def Prints (text : Bytes) (a : Access) : Prop :=
  ∃ reg μ, a = .call PRINT_STRING reg μ ∧ bytesAt μ (reg .r0) (text.length + 1) = text ++ [0x00]

/-- The printed form of a value. -/
def valueText (v : Word) : Bytes :=
  hexHead ++ (List.range 8).map (fun i => hexDigits.getD (nibble v i).toNat 0x00) ++ hexTail

/-- A call that prints what a register holds. -/
def PrintsValue (r : Register) (a : Access) : Prop :=
  ∃ reg μ, a = .call PRINT_STRING reg μ ∧ bytesAt μ (reg .r0) 13 = valueText (load32 μ r.address)

def Reads (r : Register) (a : Access) : Prop := a = .load r.address 4

def reportOf (r : Register) : List (Access → Prop) := [Prints (textOf (.register r)), Reads r, PrintsValue r]

/-- Everything that can be seen of a run. -/
def report : List (Access → Prop) :=
  [.banner, .scope, .persist, .base, .snapshotA].map (fun name => Prints (textOf name)) ++
    REGISTERS.flatMap reportOf ++ [Prints (textOf .snapshotB)] ++ REGISTERS.flatMap reportOf ++ [Prints (textOf .done)]

/-! ### The body -/

/-- The probe was entered with `m₀`; the stack holds `ws` from `a` on, and the report so far is `spec`. -/
structure At (m₀ : Machine) (a : Word) (ws : List Word) (spec : List (Access → Prop)) (m : Machine) : Prop where
  active : Active (fun μ _ => Kept m₀.mem μ) a ws [] m₀.reg m
  reports : Reports Permitted seen m₀ spec m

variable {env : Word → Machine → Machine} {Q : Exit → Machine → Prop} {m₀ m : Machine} {a : Word} {ws : List Word}
  {spec : List (Access → Prop)} {k : List (Line Label)}

/-- An operation on registers that loads nothing. -/
theorem At.exec (hm : At m₀ a ws spec m) {o : Op} {ds : List Reg} (ho : o.writes = some ds) (hsp : Reg.sp ∉ ds)
    (hlog : (o.exec m).log = m.log) : At m₀ a ws spec (o.exec m) :=
  ⟨hm.active.exec ho (by simpa using hsp), hm.reports.same hlog⟩

/-- A call of the print routine. -/
theorem At.callOut (henv : Resident env) (hm : At m₀ a ws spec m) (htop : a.toNat + 4 * ws.length = 0x01FFF000)
    {ret : Word} {P : Access → Prop} (hP : P (.call PRINT_STRING (m.set .lr ret).reg m.mem)) :
    At m₀ a ws (spec ++ [P]) (m.callOut env PRINT_STRING ret) := by
  refine ⟨⟨?_, by simp, ?_, ?_⟩, hm.reports.shown (Machine.log_callOut m env _ ret) rfl rfl hP⟩
  · refine (henv.reg _ .sp (by decide)).trans ?_
    rw [Machine.reg_touch, Machine.reg_set, if_neg (by decide)]
    exact hm.active.sp_eq
  · apply hm.active.saved.congr (by omega)
    intro x hx
    refine henv.stack _ x ?_ ?_
    · rw [Machine.reg_touch, Machine.reg_set, if_neg (by decide), hm.active.sp_eq]
      simp only [Within] at hx
      bv_omega
    · unfold STACK_TOP
      simp only [Within] at hx
      bv_omega
  · exact fun x hx hx' => (henv.image _ x hx).trans (hm.active.inv x hx hx')

/-- A string of the table. -/
theorem wp_print (henv : Resident env) (hμ : Loaded m₀.mem) {name : Text} (hname : name ∈ names)
    (hm : At m₀ a ws spec m) (htop : a.toNat + 4 * ws.length = 0x01FFF000)
    (h : ∀ m', At m₀ a ws (spec ++ [Prints (textOf name)]) m' → wp probe env k m' Q) :
    wp probe env (printLiteral name ++ k) m Q := by
  have h1 := hm.exec (o := .ldrc .r0 (addresses name)) rfl (by decide) rfl
  simp only [printLiteral, List.cons_append, List.nil_append]
  rw [wp_op_al, wp_call]
  apply h
  apply h1.callOut henv htop
  refine ⟨_, _, rfl, ?_⟩
  have hr0 : (((Op.ldrc .r0 (addresses name)).exec m).set .lr (probe.addr k)).reg .r0 = addresses name := by
    simp [Op.exec, Machine.reg_set]
  rw [hr0]
  exact (hμ.kept h1.active.inv).text name _ (List.mem_map_of_mem hname)

/-! ### `print_hex_value` -/

/-- The text buffer with the digits of a value. -/
theorem bytesAt_buffer {μ : Mem} (hμ : Loaded μ) (v : Word) :
    bytesAt (storeBytes μ (hexBufferAddr + 2) (hexText μ hexTableAddr v)) hexBufferAddr 13 = valueText v := by
  have hdigit : hexText μ hexTableAddr v = (List.range 8).map fun i => hexDigits.getD (nibble v i).toNat 0x00 := by
    apply List.map_congr_left
    intro i hi
    have hlt : (nibble v i).toNat < 16 := by
      simp only [nibble, BitVec.toNat_ushiftRight, Nat.shiftRight_eq_div_pow]
      omega
    have hget := getElem_bytesAt (μ := μ) (a := hexTableAddr) (n := 16) (i := (nibble v i).toNat) (by simpa using hlt)
    rw [List.getD_eq_getElem _ _ (by exact hlt.trans_eq (by decide))]
    simp only [hμ.table] at hget
    rw [hget]
    congr 1
    bv_omega
  have hlen : (hexText μ hexTableAddr v).length = 8 := length_hexText ..
  have hdigits := bytesAt_storeBytes (μ := μ) (a := hexBufferAddr + 2) (hexText μ hexTableAddr v) (by rw [hlen]; decide)
  rw [hlen] at hdigits
  rw [show (13 : Nat) = 2 + (8 + 3) by rfl, bytesAt_add, bytesAt_add, valueText, ← hdigit, List.append_assoc]
  have hhead : bytesAt (storeBytes μ (hexBufferAddr + 2) (hexText μ hexTableAddr v)) hexBufferAddr 2 = hexHead := by
    rw [← hμ.head]
    apply bytesAt_congr ?_ (by decide)
    intro x hx
    apply storeBytes_of_not_within (by rw [hlen]; decide)
    simp only [hlen, Within] at hx ⊢
    bv_omega
  have htail : bytesAt (storeBytes μ (hexBufferAddr + 2) (hexText μ hexTableAddr v)) (hexBufferAddr + 10) 3 =
      hexTail := by
    rw [← hμ.tail]
    apply bytesAt_congr ?_ (by decide)
    intro x hx
    apply storeBytes_of_not_within (by rw [hlen]; decide)
    simp only [hlen, Within] at hx ⊢
    bv_omega
  have haddr : hexBufferAddr + BitVec.ofNat 32 2 + BitVec.ofNat 32 8 = hexBufferAddr + 10 := by
    rw [BitVec.add_assoc]
    rfl
  rw [hhead, haddr, htail]
  exact congrArg (fun t => hexHead ++ (t ++ hexTail)) hdigits

/-- The stack is not in the part of the address space that is seen. -/
theorem seen_stack {a : Word} {n : Nat} (h : Inside a n (FRAME - 20) 60) (hn : 0 < n) :
    seen (.load a n) = false ∧ seen (.store a n) = false := by
  have hlow : ¬ 0x80000000 ≤ a := by
    unfold FRAME at h
    simp only [Inside] at h
    bv_omega
  exact ⟨decide_eq_false hlow, decide_eq_false hlow⟩

/-- The accesses of the digit loop are permitted, and not seen. -/
theorem permitted_hexAccess {a : Access} (h : HexAccess hexTableAddr (hexBufferAddr + 2) a) :
    Permitted a ∧ seen a = false := by
  cases a with
  | load x n =>
    obtain ⟨hw, rfl⟩ := h
    refine ⟨Or.inr (Or.inl (inside_of_within hw)), decide_eq_false ?_⟩
    unfold hexTableAddr BASE HEX_TABLE_OFFSET at hw
    simp only [Within] at hw
    bv_omega
  | store x n =>
    obtain ⟨hw, rfl⟩ := h
    refine ⟨Or.inr (inside_of_within (by simp only [Within] at hw ⊢; omega)), decide_eq_false ?_⟩
    unfold hexBufferAddr BASE HEX_BUFFER_OFFSET at hw
    simp only [Within] at hw
    bv_omega
  | call => exact h.elim

/-- No register lies in the stack or in the text buffer. -/
theorem register_apart {r : Register} : Apart r.address 4 (FRAME - 20) 20 ∧ Apart r.address 4 (hexBufferAddr + 2) 8 := by
  cases r
  all_goals exact ⟨Apart.symm (apart_of_le (by decide) (by decide)), Apart.symm (apart_of_le (by decide) (by decide))⟩

/-- The frame of `print_hex_value`. -/
theorem At.push (hm : At m₀ FRAME (entryWords m₀) spec m) :
    At m₀ (FRAME - 20) ([.r4, .r5, .r6, .r7, .lr].map m.reg ++ entryWords m₀) spec
      ((Op.push [.r4, .r5, .r6, .r7, .lr]).exec m) := by
  have hlow : align (FRAME - 20) = FRAME - 20 := by decide
  constructor
  · apply hm.active.push (by decide) hlow (by simp) (by decide) (by rw [length_entryWords]; decide)
    intro μ hμ
    apply hm.active.inv.write hμ
    intro x hx _
    unfold BASE IMAGE_SIZE at hx
    unfold FRAME
    simp only [wordBytes_cons, wordBytes_nil, Within] at hx ⊢
    bv_omega
  · have hin : Inside (FRAME - 20) 20 (FRAME - 20) 60 := by decide
    have hsp : align (m.reg .sp - BitVec.ofNat 32 (wordBytes [.r4, .r5, .r6, .r7, .lr])) = FRAME - 20 := by
      rw [hm.active.sp_eq]
      decide
    apply hm.reports.hidden (l := [.store (FRAME - 20) 20])
    · rw [← hsp]
      rfl
    · intro b hb
      rw [List.mem_singleton.mp hb]
      exact Or.inl hin
    · intro b hb
      rw [List.mem_singleton.mp hb]
      exact (seen_stack hin (by decide)).2

/-- The value in `r0`, which a register holds, is printed. -/
theorem wp_printHexValue (henv : Resident env) (hμ : Loaded m₀.mem) {r : Register}
    (hm : At m₀ FRAME (entryWords m₀) spec m) (hv : m.reg .r0 = load32 m.mem r.address)
    (h : ∀ m', At m₀ FRAME (entryWords m₀) (spec ++ [PrintsValue r]) m' → wp probe env k m' Q) :
    wp probe env (.bl .printHexValue :: k) m Q := by
  have hcode : probe.codeAt .printHexValue = printHexValueBlock ++ probe.codeAt .formatHexLoop := rfl
  have hloop : probe.codeAt .formatHexLoop = hexLoop .formatHexLoop .r4 .r0 .r5 .r6 .r7 ++
      [.ldrc .r0 hexBufferAddr, .call PRINT_STRING, .popPc [.r4, .r5, .r6, .r7]] := rfl
  have hlow : align (FRAME - 20) = FRAME - 20 := by decide
  have h1 : At m₀ FRAME (entryWords m₀) spec (m.set .lr (probe.addr k)) :=
    ⟨hm.active.set (by decide) (by simp) _, hm.reports.same rfl⟩
  have h2 := h1.push
  have hmem2 : ∀ x, ¬ Within x (FRAME - 20) 20 →
      ((Op.push [.r4, .r5, .r6, .r7, .lr]).exec (m.set .lr (probe.addr k))).mem x = m.mem x := by
    intro x hx
    simp only [Op.exec, Machine.mem_touch, Machine.mem_set, Machine.mem_setMem, h1.active.sp_eq]
    apply storeWords_of_not_within
    exact hx
  have h3 := h2.exec (o := .mov .r4 (.reg .r0)) rfl (by decide) rfl
  have h4 := h3.exec (o := .ldrc .r5 (hexBufferAddr + 2)) rfl (by decide) rfl
  have h5 := h4.exec (o := .ldrc .r6 hexTableAddr) rfl (by decide) rfl
  have h6 := h5.exec (o := .mov .r7 (.imm 8)) rfl (by decide) rfl
  apply wp_bl_of_return
  rw [hcode]
  simp only [printHexValueBlock, List.cons_append, List.nil_append]
  rw [wp_label, wp_op_al, wp_op_al, wp_op_al, wp_op_al, wp_op_al]
  generalize hm6 : (Op.mov .r7 (.imm 8)).exec _ = m6 at h6
  have hr4 : m6.reg .r4 = m.reg .r0 := by
    rw [← hm6]
    simp [Op.exec, Op2.eval, Machine.reg_set]
  have hr5 : m6.reg .r5 = hexBufferAddr + 2 := by
    rw [← hm6]
    simp [Op.exec, Op2.eval, Machine.reg_set]
  have hr6 : m6.reg .r6 = hexTableAddr := by
    rw [← hm6]
    simp [Op.exec, Op2.eval, Machine.reg_set]
  have hr7 : m6.reg .r7 = 8 := by
    rw [← hm6]
    simp [Op.exec, Op2.eval, Machine.reg_set]
  have hmem6 : ∀ x, ¬ Within x (FRAME - 20) 20 → m6.mem x = m.mem x := by
    intro x hx
    rw [← hmem2 x hx, ← hm6]
    rfl
  apply wp_hexLoop hloop (by decide) (by rw [hr5, hr6]; exact apart_of_le (by decide) (by decide)) hr7
  intro m7 hx
  rw [hr4, hr5, hr6] at hx
  have hmem7 : m7.mem = storeBytes m6.mem (hexBufferAddr + 2) (hexText m6.mem hexTableAddr (m.reg .r0)) := by
    rw [hx.mem, List.take_of_length_le (by simp)]
  -- the digits have not changed what the register holds
  have hvalue : load32 m7.mem r.address = m.reg .r0 := by
    rw [hv]
    apply SameOn.load32
    intro x hx'
    rw [hx.digitsOnly.mem x (register_apart.2 x hx'), hmem6 x (register_apart.1 x hx')]
  obtain ⟨lg, hlog, hacc⟩ := hx.log
  have h7 : At m₀ (FRAME - 20) ([.r4, .r5, .r6, .r7, .lr].map (m.set .lr (probe.addr k)).reg ++ entryWords m₀) spec
      m7 := by
    constructor
    · apply h6.active.hexAt hx (by decide) (by simp)
      · simp only [List.length_append, List.length_map, length_entryWords]
        exact Apart.symm (apart_of_le (by decide) (by decide))
      · intro μ hμ'
        exact h6.active.inv.write hμ' fun _ _ hx' => hx'
    · exact h6.reports.hidden hlog (fun b hb => (permitted_hexAccess (hacc b hb)).1)
        fun b hb => (permitted_hexAccess (hacc b hb)).2
  have h8 := h7.exec (o := .ldrc .r0 hexBufferAddr) rfl (by decide) rfl
  rw [wp_op_al, wp_call]
  have hprints : PrintsValue r (.call PRINT_STRING
      (((Op.ldrc .r0 hexBufferAddr).exec m7).set .lr (probe.addr [.popPc [.r4, .r5, .r6, .r7]])).reg
      ((Op.ldrc .r0 hexBufferAddr).exec m7).mem) := by
    refine ⟨_, _, rfl, ?_⟩
    have hr0 : (((Op.ldrc .r0 hexBufferAddr).exec m7).set .lr (probe.addr [.popPc [.r4, .r5, .r6, .r7]])).reg .r0 =
        hexBufferAddr := by
      simp [Op.exec, Machine.reg_set]
    have hmem : ((Op.ldrc .r0 hexBufferAddr).exec m7).mem = m7.mem := rfl
    rw [hr0, hmem, hvalue, hmem7]
    exact bytesAt_buffer (hμ.kept h6.active.inv) (m.reg .r0)
  have h9 := h8.callOut henv (by simp [FRAME]) hprints
  generalize ((Op.ldrc .r0 hexBufferAddr).exec m7).callOut env PRINT_STRING _ = m9 at h9
  have hframe : Active (fun μ _ => Kept m₀.mem μ) (FRAME - 20)
      ([.r4, .r5, .r6, .r7].map (m.set .lr (probe.addr k)).reg ++ probe.addr k :: entryWords m₀) [] m₀.reg m9 := by
    have hlr : (m.set .lr (probe.addr k)).reg .lr = probe.addr k := by rw [Machine.reg_set, if_pos rfl]
    rw [← hlr]
    exact h9.active
  rw [wp_popPc, hframe.load_return hlow]
  refine ⟨rfl, h _ ⟨hframe.popped hlow (by decide) (by decide) (by simp), ?_⟩⟩
  have hin : Inside (FRAME - 20) 20 (FRAME - 20) 60 := by decide
  apply h9.reports.hidden (l := [.load (align (m9.reg .sp)) 20]) rfl
  · intro b hb
    rw [List.mem_singleton.mp hb, hframe.sp_eq, hlow]
    exact Or.inl hin
  · intro b hb
    rw [List.mem_singleton.mp hb, hframe.sp_eq, hlow]
    exact (seen_stack hin (by decide)).1

/-! ### The registers -/

theorem dvd_address (r : Register) : 4 ∣ r.address.toNat := by cases r <;> decide

theorem register_mem (r : Register) : r ∈ REGISTERS ∧ Text.register r ∈ names ∧ 0x80000000 ≤ r.address := by
  cases r <;> decide

/-- One register: its name, its value, the printed value. -/
theorem wp_readRegister (henv : Resident env) (hμ : Loaded m₀.mem) {r : Register}
    (hm : At m₀ FRAME (entryWords m₀) spec m)
    (h : ∀ m', At m₀ FRAME (entryWords m₀) (spec ++ reportOf r) m' → wp probe env k m' Q) :
    wp probe env (readRegister r ++ k) m Q := by
  obtain ⟨hr, hname, hdevice⟩ := register_mem r
  have hcode : readRegister r = printLiteral (.register r) ++
      [.ldrc .r0 r.address, .ldr .r0 .r0 0, .bl .printHexValue] := rfl
  rw [hcode, List.append_assoc]
  apply wp_print henv hμ hname hm (by rw [length_entryWords]; decide)
  intro m1 h1
  have h2 := h1.exec (o := .ldrc .r0 r.address) rfl (by decide) rfl
  have hr0 : ((Op.ldrc .r0 r.address).exec m1).reg .r0 = r.address := by simp [Op.exec, Machine.reg_set]
  simp only [List.cons_append, List.nil_append]
  rw [wp_op_al, wp_op_al]
  generalize (Op.ldrc .r0 r.address).exec m1 = m2 at h2 hr0
  have haddr : align (m2.reg .r0 + 0) = r.address := by
    rw [hr0, add_zero, align_of_dvd (dvd_address r)]
  have h3 : At m₀ FRAME (entryWords m₀) (spec ++ [Prints (textOf (.register r))] ++ [Reads r])
      ((Op.ldr .r0 .r0 0).exec m2) := by
    refine ⟨h2.active.exec rfl (by decide), h2.reports.shown (a := .load r.address 4) ?_ ?_ ?_ rfl⟩
    · rw [← haddr]
      rfl
    · exact Or.inr (Or.inr ⟨r, hr, rfl, rfl⟩)
    · exact decide_eq_true hdevice
  have hvalue : ((Op.ldr .r0 .r0 0).exec m2).reg .r0 = load32 ((Op.ldr .r0 .r0 0).exec m2).mem r.address := by
    rw [Op.exec, Machine.reg_touch, Machine.reg_set, if_pos rfl, hr0, add_zero,
      Machine.loadWord_of_dvd (dvd_address r)]
    rfl
  apply wp_printHexValue henv hμ h3 hvalue
  intro m4 h4
  apply h
  simpa only [reportOf, List.append_assoc, List.cons_append, List.nil_append] using h4

theorem wp_reads (henv : Resident env) (hμ : Loaded m₀.mem) (rs : List Register)
    (hm : At m₀ FRAME (entryWords m₀) spec m)
    (h : ∀ m', At m₀ FRAME (entryWords m₀) (spec ++ rs.flatMap reportOf) m' → wp probe env k m' Q) :
    wp probe env (rs.flatMap readRegister ++ k) m Q := by
  induction rs generalizing m spec with
  | nil =>
    apply h
    simpa using hm
  | cons r rs ih =>
    rw [List.flatMap_cons, List.append_assoc]
    apply wp_readRegister henv hμ hm
    intro m1 h1
    apply ih h1
    intro m2 h2
    apply h
    rw [List.flatMap_cons, ← List.append_assoc]
    exact h2

/-- Several strings. -/
theorem wp_prints (henv : Resident env) (hμ : Loaded m₀.mem) (texts : List Text) (htexts : ∀ name ∈ texts, name ∈ names)
    (hm : At m₀ FRAME (entryWords m₀) spec m)
    (h : ∀ m', At m₀ FRAME (entryWords m₀) (spec ++ texts.map fun name => Prints (textOf name)) m' →
      wp probe env k m' Q) : wp probe env (texts.flatMap printLiteral ++ k) m Q := by
  induction texts generalizing m spec with
  | nil =>
    apply h
    simpa using hm
  | cons name texts ih =>
    obtain ⟨hname, htexts⟩ := List.forall_mem_cons.mp htexts
    rw [List.flatMap_cons, List.append_assoc]
    apply wp_print henv hμ hname hm (by rw [length_entryWords]; decide)
    intro m1 h1
    apply ih htexts h1
    intro m2 h2
    apply h
    rw [List.map_cons, ← List.singleton_append, ← List.append_assoc]
    exact h2

/-! ### Entry, delay and exit -/

theorem log_push {rs : List Reg} (h : align (m.reg .sp - BitVec.ofNat 32 (wordBytes rs)) = a) :
    ((Op.push rs).exec m).log = m.log ++ [.store a (wordBytes rs)] := by
  rw [← h]
  rfl

theorem log_pop {rs : List Reg} (h : align (m.reg .sp) = a) :
    ((Op.pop rs).exec m).log = m.log ++ [.load a (wordBytes rs)] := by
  rw [Op.exec, Machine.log_touch, Machine.log_set, log_popInto, h]

theorem wp_entry (h : ∀ m', At m₀ FRAME (entryWords m₀) [] m' → wp probe env k m' Q) :
    wp probe env (entryBlock ++ k) m₀ Q := by
  have hlow : align (FRAME + 4) = FRAME + 4 := by decide
  have htop : align FRAME = FRAME := by decide
  have outside {a : Word} {n : Nat} (ha : FRAME ≤ a) (hn : a.toNat + n ≤ 0x01FFF000) {x : Word}
      (hx : Within x BASE IMAGE_SIZE) : ¬ Within x a n := by
    unfold BASE IMAGE_SIZE at hx
    unfold FRAME at ha
    simp only [Within] at hx ⊢
    bv_omega
  -- the caller's `sp` is in `r12` while its own registers are pushed
  have h0 : Active (fun μ _ => Kept m₀.mem μ) STACK_TOP [] [.r12] (fun _ => m₀.reg .sp)
      ((Op.ldrc .sp STACK_TOP).exec ((Op.mov .r12 (.reg .sp)).exec m₀)) := by
    refine ⟨?_, ?_, trivial, Kept.refl _⟩
    · simp [Op.exec, Machine.reg_set]
    · simp [Op.exec, Op2.eval, Machine.reg_set]
  have hsaves : entrySaves.map ((Op.ldrc .sp STACK_TOP).exec ((Op.mov .r12 (.reg .sp)).exec m₀)).reg =
      entrySaves.map m₀.reg := by
    simp [entrySaves, Op.exec, Machine.reg_set]
  have h1 : Active (fun μ _ => Kept m₀.mem μ) (FRAME + 4) (entrySaves.map m₀.reg ++ []) [.r12] (fun _ => m₀.reg .sp)
      ((Op.push entrySaves).exec ((Op.ldrc .sp STACK_TOP).exec ((Op.mov .r12 (.reg .sp)).exec m₀))) := by
    rw [← hsaves]
    apply h0.push (by decide) hlow (by decide) (by decide) (by decide)
    intro μ hμ
    exact h0.inv.write hμ fun x hx _ => outside (by decide) (by decide) hx
  have hr12 : [.r12].map ((Op.push entrySaves).exec ((Op.ldrc .sp STACK_TOP).exec
      ((Op.mov .r12 (.reg .sp)).exec m₀))).reg = [m₀.reg .sp] := by
    rw [List.map_singleton, h1.regs .r12 (by simp)]
  have h2 : Active (fun μ _ => Kept m₀.mem μ) FRAME (entryWords m₀) [.r12] (fun _ => m₀.reg .sp)
      ((Op.push [.r12]).exec ((Op.push entrySaves).exec ((Op.ldrc .sp STACK_TOP).exec
        ((Op.mov .r12 (.reg .sp)).exec m₀)))) := by
    have hwords : entryWords m₀ = [m₀.reg .sp] ++ (entrySaves.map m₀.reg ++ []) := by simp [entryWords]
    rw [hwords, ← hr12]
    apply h1.push (by decide) htop (by decide) (by decide) (by simp [FRAME, entrySaves])
    intro μ hμ
    exact h1.inv.write hμ fun x hx _ => outside (by decide) (by decide) hx
  simp only [entryBlock, List.cons_append, List.nil_append]
  rw [wp_label, wp_op_al, wp_op_al, wp_op_al, wp_op_al]
  apply h
  refine ⟨h2.weaken (by simp), ?_⟩
  have hlog : ((Op.push [.r12]).exec ((Op.push entrySaves).exec ((Op.ldrc .sp STACK_TOP).exec
      ((Op.mov .r12 (.reg .sp)).exec m₀)))).log = m₀.log ++ [.store (FRAME + 4) 36, .store FRAME 4] := by
    have e1 : align (((Op.ldrc .sp STACK_TOP).exec ((Op.mov .r12 (.reg .sp)).exec m₀)).reg .sp -
        BitVec.ofNat 32 (wordBytes entrySaves)) = FRAME + 4 := by
      rw [h0.sp_eq]
      decide
    have e2 : align (((Op.push entrySaves).exec ((Op.ldrc .sp STACK_TOP).exec
        ((Op.mov .r12 (.reg .sp)).exec m₀))).reg .sp - BitVec.ofNat 32 (wordBytes [.r12])) = FRAME := by
      rw [h1.sp_eq]
      decide
    rw [log_push e2, log_push e1, List.append_assoc]
    rfl
  have hin1 : Inside (FRAME + 4) 36 (FRAME - 20) 60 := by decide
  have hin2 : Inside FRAME 4 (FRAME - 20) 60 := by decide
  apply (Reports.refl Permitted seen m₀).hidden hlog
  · intro b hb
    simp only [List.mem_cons, List.not_mem_nil, or_false] at hb
    rcases hb with rfl | rfl
    · exact Or.inl hin1
    · exact Or.inl hin2
  · intro b hb
    simp only [List.mem_cons, List.not_mem_nil, or_false] at hb
    rcases hb with rfl | rfl
    · exact (seen_stack hin1 (by decide)).2
    · exact (seen_stack hin2 (by decide)).2

theorem wp_delay (hcode : probe.codeAt .delayLoop = delayLoopBlock ++ k) (hm : At m₀ FRAME (entryWords m₀) spec m)
    (h : ∀ m', At m₀ FRAME (entryWords m₀) spec m' → wp probe env k m' Q) :
    wp probe env (delayBlock ++ (delayLoopBlock ++ k)) m Q := by
  have h1 := hm.exec (o := .ldrc .r4 1000000) rfl (by decide) rfl
  have hr4 : ((Op.ldrc .r4 1000000).exec m).reg .r4 = BitVec.ofNat 32 1000000 := by simp [Op.exec, Machine.reg_set]
  simp only [delayBlock, List.cons_append, List.nil_append]
  rw [← hcode, wp_op_al]
  obtain ⟨t, hpass, -, -⟩ := passes_countdown hcode (by omega) (by omega) hr4
  apply hpass.wp
  apply h
  have h2 := h1.active.set (r := .r4) (by decide) (by simp) 0
  exact ⟨⟨h2.sp_eq, by simp, h2.saved, h2.inv⟩, h1.reports.same rfl⟩

/-- What the probe hands back. -/
structure Returned (m₀ : Machine) (e : Exit) (m : Machine) : Prop where
  exit : e = ⟨.bx .lr, m₀.reg .lr⟩
  magic : m.reg .r0 = RETURN_MAGIC
  regs : ∀ r ∈ calleeSaves, m.reg r = m₀.reg r
  image : Kept m₀.mem m.mem

/-- The registers of the caller, with the result in `r3` and the stack pointer in `r12`. -/
private def exitRegs (m₀ : Machine) : Reg → Word
  | .r3 => RETURN_MAGIC
  | .r12 => m₀.reg .sp
  | r => m₀.reg r

theorem wp_return (hm : At m₀ FRAME (entryWords m₀) spec m) :
    wp probe env (returnBlock ++ k) m fun e m' => Returned m₀ e m' ∧ Reports Permitted seen m₀ spec m' := by
  have h1 : Active (fun μ _ => Kept m₀.mem μ) FRAME ([.r12].map (exitRegs m₀) ++ entrySaves.map m₀.reg) [.r3] (exitRegs m₀)
      ((Op.ldrc .r3 RETURN_MAGIC).exec m) := by
    have hlit := hm.active.exec (o := .ldrc .r3 RETURN_MAGIC) rfl (by decide)
    refine ⟨hlit.sp_eq, ?_, hlit.saved, hlit.inv⟩
    simp [Op.exec, Machine.reg_set, exitRegs]
  have h2 : Active (fun μ _ => Kept m₀.mem μ) (FRAME + 4) (entrySaves.map (exitRegs m₀) ++ []) [.r3, .r12] (exitRegs m₀)
      ((Op.pop [.r12]).exec ((Op.ldrc .r3 RETURN_MAGIC).exec m)) := by
    have hsaves : entrySaves.map (exitRegs m₀) ++ [] = entrySaves.map m₀.reg := by simp [entrySaves, exitRegs]
    rw [hsaves]
    exact h1.pop (by decide) (by decide) (by decide) (by simp)
  have h3 : Active (fun μ _ => Kept m₀.mem μ) STACK_TOP [] ([.r3, .r12] ++ entrySaves) (exitRegs m₀)
      ((Op.pop entrySaves).exec ((Op.pop [.r12]).exec ((Op.ldrc .r3 RETURN_MAGIC).exec m))) :=
    h2.pop (by decide) (by decide) (by decide) (by simp [entrySaves])
  have hlog : ((Op.pop entrySaves).exec ((Op.pop [.r12]).exec ((Op.ldrc .r3 RETURN_MAGIC).exec m))).log =
      m.log ++ [.load FRAME 4, .load (FRAME + 4) 36] := by
    have e1 : align (((Op.ldrc .r3 RETURN_MAGIC).exec m).reg .sp) = FRAME := by
      rw [h1.sp_eq]
      decide
    have e2 : align (((Op.pop [.r12]).exec ((Op.ldrc .r3 RETURN_MAGIC).exec m)).reg .sp) = FRAME + 4 := by
      rw [h2.sp_eq]
      decide
    rw [log_pop e2, log_pop e1, List.append_assoc]
    rfl
  simp only [returnBlock, List.cons_append, List.nil_append]
  rw [wp_op_al, wp_op_al, wp_op_al, wp_op_al, wp_op_al, wp_bx]
  generalize (Op.pop entrySaves).exec ((Op.pop [.r12]).exec ((Op.ldrc .r3 RETURN_MAGIC).exec m)) = m3 at h3 hlog
  have hregs := h3.regs
  simp only [entrySaves, List.cons_append, List.nil_append, List.forall_mem_cons, List.not_mem_nil, false_imp_iff,
    implies_true, and_true, exitRegs] at hregs
  have hin1 : Inside FRAME 4 (FRAME - 20) 60 := by decide
  have hin2 : Inside (FRAME + 4) 36 (FRAME - 20) 60 := by decide
  refine ⟨⟨?_, ?_, ?_, h3.inv⟩, ?_⟩
  · simp [Op.exec, Machine.reg_set, hregs]
  · simp [Op.exec, Op2.eval, Machine.reg_set, hregs]
  · simp [calleeSaves, Op.exec, Op2.eval, Machine.reg_set, hregs]
  · apply hm.reports.hidden (l := [.load FRAME 4, .load (FRAME + 4) 36]) hlog
    · intro b hb
      simp only [List.mem_cons, List.not_mem_nil, or_false] at hb
      rcases hb with rfl | rfl
      · exact Or.inl hin1
      · exact Or.inl hin2
    · intro b hb
      simp only [List.mem_cons, List.not_mem_nil, or_false] at hb
      rcases hb with rfl | rfl
      · exact (seen_stack hin1 (by decide)).1
      · exact (seen_stack hin2 (by decide)).1

/-! ### The whole run -/

set_option maxRecDepth 4096 in
/-- The builder refuses nothing.  From every caller, the file that it makes returns "TMR2" with `sp` and `r4`-`r11` as they
were, and what can be seen of its run is the report: the strings, and twice every register in the order of the table, each
read once and printed with the value that it held then.  No access to a device is a store. -/
theorem probe_reports {asm : Program Label → Bytes} (hasm : Assembles asm) : ∃ data, build asm = .ok data ∧
    ∀ env m₀, Resident env → bytesAt m₀.mem BASE data.length = data →
      wp probe env probe.lines m₀ fun e m => Returned m₀ e m ∧ Reports Permitted seen m₀ report m := by
  obtain ⟨hok, hcode⟩ := build_eq_ok hasm
  refine ⟨_, hok, fun env m₀ henv hload => ?_⟩
  have hμ := loaded_of_image hcode hload
  have hlines : probe.lines = entryBlock ++ ([.banner, .scope, .persist, .base, .snapshotA].flatMap printLiteral ++
      (REGISTERS.flatMap readRegister ++ (delayBlock ++ (delayLoopBlock ++ ([.snapshotB].flatMap printLiteral ++
        (REGISTERS.flatMap readRegister ++ ([.done].flatMap printLiteral ++
          (returnBlock ++ probe.codeAt .printHexValue)))))))) := rfl
  have hdelay : probe.codeAt .delayLoop = delayLoopBlock ++ ([.snapshotB].flatMap printLiteral ++
      (REGISTERS.flatMap readRegister ++ ([.done].flatMap printLiteral ++
        (returnBlock ++ probe.codeAt .printHexValue)))) := rfl
  rw [hlines]
  apply wp_entry
  intro m1 h1
  apply wp_prints henv hμ _ (by decide) h1
  intro m2 h2
  apply wp_reads henv hμ _ h2
  intro m3 h3
  apply wp_delay hdelay h3
  intro m4 h4
  apply wp_prints henv hμ _ (by decide) h4
  intro m5 h5
  apply wp_reads henv hμ _ h5
  intro m6 h6
  apply wp_prints henv hμ _ (by decide) h6
  intro m7 h7
  apply wp_mono (wp_return h7)
  rintro e m ⟨hret, hrep⟩
  refine ⟨hret, ?_⟩
  simpa only [report, List.nil_append, List.map_cons, List.map_nil] using hrep

theorem length_image {code : Bytes} (hcode : code.length ≤ STRINGS_OFFSET) : (image code).length = IMAGE_SIZE := by
  have hblob := strings_fit
  have hdigits : hexDigits.length = 16 := by decide
  have hbuffer : (hexHead ++ encodeAscii "00000000".toList ++ hexTail).length = 13 := by decide
  rw [image, List.length_append, List.length_append, List.length_append, hbuffer]
  simp only [IMAGE_SIZE, STRINGS_OFFSET, HEX_TABLE_OFFSET, zeros, List.length_append, List.length_replicate, hdigits]
    at hcode hblob ⊢
  omega

/-- A caller in the resident monitor, with a file in memory. -/
def probeCaller (data : Bytes) : Machine where
  reg r := if r = .sp then 0x0081F000 else if r = .lr then 0x00817000 else 0
  flags := ⟨false, false, false, false⟩
  ctl := 0xD3
  sys _ := 0
  mem := storeBytes (fun _ => 0) BASE data
  log := []

theorem resident_scratched : Resident scratched where
  reg m _ hr := reg_scratched _ m hr
  stack _ _ _ _ := rfl
  image _ _ _ := rfl

theorem probe_reports_probeCaller : ∃ data, build assemble = .ok data ∧
    wp probe scratched probe.lines (probeCaller data) fun e m =>
      Returned (probeCaller data) e m ∧ Reports Permitted seen (probeCaller data) report m := by
  obtain ⟨data, hdata, hreports⟩ := probe_reports (assembles_assemble (L := Label))
  obtain ⟨hok, hcode⟩ := build_eq_ok (assembles_assemble (L := Label))
  obtain rfl := Except.ok.inj (hok.symm.trans hdata)
  have hlen := length_image hcode
  refine ⟨_, hok, hreports _ _ resident_scratched ?_⟩
  generalize image (assemble probe) = data at hlen
  exact bytesAt_storeBytes data (by rw [hlen]; decide)

end ShadowMsm.TimerProbe
