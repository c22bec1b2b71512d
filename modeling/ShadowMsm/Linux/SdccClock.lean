import Mathlib.Algebra.Order.Floor.Semifield
import Mathlib.Data.Rat.Floor
import ShadowMsm.Linux.Sdcc

/-!
# The clock of the SD host

`shadow_sdcc_set_ios` divides the 16 MHz of the source clock by twice a divider plus one.  The division that finds
the divider rounds down, so the card is clocked faster than requested unless the request divides 8 MHz
(`honestClock_iff`).
-/

namespace ShadowMsm.Linux

/-! ### Constants and records -/

def SHADOW_SDCC_MCLK : U32 := 16000000

def MCI_PWR_OFF : U32 := 0x00
def MCI_PWR_UP : U32 := 0x02
def MCI_PWR_ON : U32 := 0x03
def MCI_PWR_ROD : U32 := BIT 7

def MCI_CLK_ENABLE : U32 := BIT 8
def MCI_CLK_BYPASS : U32 := BIT 10
def MCI_CLK_WIDEBUS_4 : U32 := BIT 11
def MCI_CLK_QCOM_FLOWENA : U32 := BIT 12
def MCI_CLK_QCOM_FBCLK : U32 := BIT 15

/-- `MMC_POWER_...` -/
inductive PowerMode
  | off | up | on | undefined
  deriving DecidableEq, Repr

/-- `MMC_BUSMODE_...` -/
inductive BusMode
  | openDrain | pushPull
  deriving DecidableEq, Repr

/-- `MMC_BUS_WIDTH_...` -/
inductive BusWidth
  | width1 | width4 | width8
  deriving DecidableEq, Repr

structure MmcIos where
  clock : U32
  busWidth : BusWidth
  busMode : BusMode
  powerMode : PowerMode

/-- `host->actual_clock` and `mmc->actual_clock` -/
structure ActualClock where
  host : U32
  mmc : U32

/-! ### `shadow_sdcc_set_ios` -/

/-- `divisor` -/
def clockDivisor (clock : U32) : U32 :=
  let divisor := SHADOW_SDCC_MCLK / (2 * clock)
  let divisor := if divisor ≠ 0 then divisor - 1 else divisor
  if divisor < 255 then divisor else 255

/-- `clock`, but for the width of the bus, and `host->actual_clock`. -/
def clockControl (clock : U32) : U32 × U32 :=
  if clock ≠ 0 then
    let control :=
      if SHADOW_SDCC_MCLK ≤ clock then (MCI_CLK_BYPASS, SHADOW_SDCC_MCLK)
      else (clockDivisor clock, SHADOW_SDCC_MCLK / (2 * (clockDivisor clock + 1)))
    (control.1 ||| (MCI_CLK_ENABLE ||| MCI_CLK_QCOM_FLOWENA ||| MCI_CLK_QCOM_FBCLK), control.2)
  else (0, 0)

/-- `power` -/
def powerControl (ios : MmcIos) : U32 :=
  let power :=
    match ios.powerMode with
    | .up => MCI_PWR_UP
    | .on => MCI_PWR_ON
    | _ => MCI_PWR_OFF
  if ios.busMode = .openDrain then power ||| MCI_PWR_ROD else power

def shadowSdccSetIos (ios : MmcIos) : Sdcc ActualClock := do
  let control := clockControl ios.clock
  let clock := if ios.busWidth = .width4 then control.1 ||| MCI_CLK_WIDEBUS_4 else control.1
  writel clock MCI_CLOCK
  writel (powerControl ios) MCI_POWER
  return ⟨control.2, control.2⟩

/-! ### The frequency of the card -/

/-- The frequency in Hz that a value of `MCI_CLOCK` makes of the source clock. -/
def mciFrequency (value : U32) : ℚ :=
  if value &&& MCI_CLK_BYPASS ≠ 0 then 16000000 else 16000000 / (2 * ((value &&& 0xFF).toNat + 1) : ℕ)

/-- The arithmetic on 32 bits is that on integers, and no divisor is zero. -/
structure NoOverflow (clock : U32) : Prop where
  double : (2 * clock).toNat = 2 * clock.toNat
  double_ne : 2 * clock ≠ 0
  period : (2 * (clockDivisor clock + 1)).toNat = 2 * ((clockDivisor clock).toNat + 1)
  period_ne : 2 * (clockDivisor clock + 1) ≠ 0

/-- The value written to `MCI_CLOCK` gives the clock that is reported, and none above a request of at least 16 MHz
/ 512. -/
structure HonestClock (ios : MmcIos) : Prop where
  noOverflow : ios.clock < SHADOW_SDCC_MCLK → NoOverflow ios.clock
  programmed : ∀ s, ∃ value power actual, shadowSdccSetIos ios s =
      (.ok ⟨actual, actual⟩, s, [.write MCI_CLOCK value, .write MCI_POWER power]) ∧
    actual.toNat = ⌊mciFrequency value⌋₊ ∧ (31250 ≤ ios.clock.toNat → mciFrequency value ≤ (ios.clock.toNat : ℚ))

/-! ### The divider -/

theorem toNat_double {clock : U32} (h : clock < SHADOW_SDCC_MCLK) : (2 * clock).toNat = 2 * clock.toNat := by
  have hlt : clock.toNat < 16000000 := h
  rw [BitVec.toNat_mul]
  exact Nat.mod_eq_of_lt (show 2 * clock.toNat < _ by omega)

theorem toNat_clockDivisor {clock : U32} (h : clock < SHADOW_SDCC_MCLK) :
    (clockDivisor clock).toNat = min (16000000 / (2 * clock.toNat) - 1) 255 := by
  obtain ⟨divisor, hdivisor⟩ : ∃ divisor, SHADOW_SDCC_MCLK / (2 * clock) = divisor := ⟨_, rfl⟩
  have hdiv : divisor.toNat = 16000000 / (2 * clock.toNat) := by
    rw [← hdivisor, BitVec.toNat_udiv, toNat_double h]
    rfl
  obtain ⟨pred, hpred⟩ : ∃ pred, (if divisor ≠ 0 then divisor - 1 else divisor) = pred := ⟨_, rfl⟩
  have hsub : pred.toNat = divisor.toNat - 1 := by
    rw [← hpred]
    by_cases hzero : divisor = 0
    · rw [if_neg (not_not.mpr hzero), hzero]
      rfl
    · have hpos : divisor.toNat ≠ 0 := fun h0 => hzero (BitVec.eq_of_toNat_eq h0)
      rw [if_pos hzero]
      bv_omega
  have hresult : clockDivisor clock = if pred < 255 then pred else 255 := by rw [clockDivisor, hdivisor, hpred]
  rw [hresult, ← hdiv, ← hsub]
  by_cases hlt : pred < 255
  · have hlt' : pred.toNat < 255 := hlt
    rw [if_pos hlt]
    omega
  · have hlt' : ¬ pred.toNat < 255 := hlt
    rw [if_neg hlt, Nat.min_eq_right (by omega)]
    rfl

theorem noOverflow_of_lt {clock : U32} (h0 : clock ≠ 0) (h : clock < SHADOW_SDCC_MCLK) : NoOverflow clock := by
  have hpos : clock.toNat ≠ 0 := fun h => h0 (BitVec.eq_of_toNat_eq h)
  have hle : (clockDivisor clock).toNat ≤ 255 := by
    rw [toNat_clockDivisor h]
    exact Nat.min_le_right _ _
  have hdouble := toNat_double h
  have hperiod : (2 * (clockDivisor clock + 1)).toNat = 2 * ((clockDivisor clock).toNat + 1) := by
    rw [BitVec.toNat_mul, BitVec.toNat_add]
    change 2 * (((clockDivisor clock).toNat + 1) % 2 ^ 32) % 2 ^ 32 = _
    omega
  refine ⟨hdouble, fun hzero => ?_, hperiod, fun hzero => ?_⟩
  · rw [hzero] at hdouble
    change 0 = _ at hdouble
    omega
  · rw [hzero] at hperiod
    change 0 = _ at hperiod
    omega

/-! ### The programmed value -/

/-- The bits of `MCI_CLOCK` beside the divider. -/
def clockFlags (width : BusWidth) : U32 :=
  MCI_CLK_ENABLE ||| MCI_CLK_QCOM_FLOWENA ||| MCI_CLK_QCOM_FBCLK |||
    (if width = .width4 then MCI_CLK_WIDEBUS_4 else 0)

/-- The flags are apart from the divider and from the bit of the bypass. -/
theorem clockFlags_apart (width : BusWidth) :
    clockFlags width &&& MCI_CLK_BYPASS = 0 ∧ clockFlags width &&& 0xFF = 0 := by
  cases width <;> decide

/-- What `shadow_sdcc_set_ios` writes and reports. -/
theorem setIos_run {ios : MmcIos} (h0 : ios.clock ≠ 0) (s : Readings) :
    let control := if SHADOW_SDCC_MCLK ≤ ios.clock then (MCI_CLK_BYPASS, SHADOW_SDCC_MCLK)
      else (clockDivisor ios.clock, SHADOW_SDCC_MCLK / (2 * (clockDivisor ios.clock + 1)))
    shadowSdccSetIos ios s = (.ok ⟨control.2, control.2⟩, s,
      [.write MCI_CLOCK (control.1 ||| clockFlags ios.busWidth), .write MCI_POWER (powerControl ios)]) := by
  intro control
  have hcontrol : clockControl ios.clock =
      (control.1 ||| (MCI_CLK_ENABLE ||| MCI_CLK_QCOM_FLOWENA ||| MCI_CLK_QCOM_FBCLK), control.2) := if_pos h0
  have hvalue : (if ios.busWidth = .width4 then (clockControl ios.clock).1 ||| MCI_CLK_WIDEBUS_4
      else (clockControl ios.clock).1) = control.1 ||| clockFlags ios.busWidth := by
    rw [hcontrol, clockFlags]
    split
    · exact BitVec.or_assoc _ _ _
    · exact congrArg (control.1 ||| ·) BitVec.or_zero.symm
  have hrun : shadowSdccSetIos ios s = (.ok ⟨(clockControl ios.clock).2, (clockControl ios.clock).2⟩, s,
      [.write MCI_CLOCK (if ios.busWidth = .width4 then (clockControl ios.clock).1 ||| MCI_CLK_WIDEBUS_4
        else (clockControl ios.clock).1), .write MCI_POWER (powerControl ios)]) := rfl
  rw [hrun, hvalue, hcontrol]

theorem mciFrequency_bypass (width : BusWidth) :
    mciFrequency (MCI_CLK_BYPASS ||| clockFlags width) = 16000000 := by
  apply if_pos
  cases width <;> decide

theorem mciFrequency_divisor {divisor : U32} (h : divisor.toNat ≤ 255) (width : BusWidth) :
    mciFrequency (divisor ||| clockFlags width) = 16000000 / (2 * (divisor.toNat + 1) : ℕ) := by
  obtain ⟨hbypass, hlow⟩ := clockFlags_apart width
  -- a divider of eight bits survives the mask and leaves the bit of the bypass clear
  have hdivisor : divisor &&& 0xFF = divisor := by
    apply BitVec.eq_of_toNat_eq
    rw [BitVec.toNat_and]
    exact (Nat.and_two_pow_sub_one_eq_mod _ 8).trans (Nat.mod_eq_of_lt (by omega))
  have hzero : divisor &&& MCI_CLK_BYPASS = 0 := by
    rw [← hdivisor, BitVec.and_assoc]
    exact BitVec.and_zero
  have hlow' : (divisor ||| clockFlags width) &&& 0xFF = divisor := by
    rw [BitVec.and_or_distrib_right, hlow, hdivisor]
    exact BitVec.or_zero
  have hbypass' : (divisor ||| clockFlags width) &&& MCI_CLK_BYPASS = 0 := by
    rw [BitVec.and_or_distrib_right, hbypass, hzero]
    rfl
  rw [mciFrequency, if_neg (not_not.mpr hbypass'), hlow']

/-- The frequency keeps to the request where the division that gave the divider left no rest. -/
theorem frequency_le_iff {clock : U32} (h : clock < SHADOW_SDCC_MCLK) (hslow : 31250 ≤ clock.toNat) :
    (16000000 / (2 * ((clockDivisor clock).toNat + 1) : ℕ) : ℚ) ≤ clock.toNat ↔
      8000000 ≤ clock.toNat ∨ clock.toNat ∣ 8000000 := by
  have hperiod : (0 : ℚ) < (2 * ((clockDivisor clock).toNat + 1) : ℕ) := by
    exact_mod_cast Nat.succ_pos _
  rw [div_le_iff₀ hperiod]
  have hcast : (16000000 : ℚ) ≤ clock.toNat * (2 * ((clockDivisor clock).toNat + 1) : ℕ) ↔
      8000000 ≤ clock.toNat * ((clockDivisor clock).toNat + 1) := by
    have hnat : (16000000 : ℚ) ≤ clock.toNat * (2 * ((clockDivisor clock).toNat + 1) : ℕ) ↔
        16000000 ≤ clock.toNat * (2 * ((clockDivisor clock).toNat + 1)) := by exact_mod_cast Iff.rfl
    rw [hnat, Nat.mul_left_comm]
    omega
  have hquot : 16000000 / (2 * clock.toNat) = 8000000 / clock.toNat :=
    Nat.mul_div_mul_left 8000000 _ (show 0 < 2 by decide)
  have hq : 8000000 / clock.toNat ≤ 8000000 / 31250 := Nat.div_le_div_left hslow (show 0 < 31250 by decide)
  rw [hcast, toNat_clockDivisor h, hquot]
  -- above 8 MHz the quotient is zero and the decrement is left out; below, the period is the quotient itself
  by_cases hfast : 8000000 < clock.toNat
  · have hzero : 8000000 / clock.toNat = 0 := Nat.div_eq_of_lt hfast
    have hone : min (8000000 / clock.toNat - 1) 255 + 1 = 1 := by omega
    rw [hone, Nat.mul_one]
    exact iff_of_true (by omega) (.inl (by omega))
  have hpos : 0 < 8000000 / clock.toNat := Nat.div_pos (by omega) (by omega)
  have hperiod : min (8000000 / clock.toNat - 1) 255 + 1 = 8000000 / clock.toNat := by omega
  rw [hperiod]
  constructor
  · intro hle
    exact .inr ⟨_, Nat.le_antisymm hle (Nat.mul_div_le _ _)⟩
  · rintro (hle | hdvd)
    · have heq : clock.toNat = 8000000 := by omega
      rw [heq]
    · exact (Nat.mul_div_cancel' hdvd).ge

/-- The clock is honest if the one value that is written gives a frequency that keeps to the request. -/
theorem honestClock_of_run {ios : MmcIos} (h0 : ios.clock ≠ 0) {value power actual : U32}
    (hrun : ∀ s, shadowSdccSetIos ios s = (.ok ⟨actual, actual⟩, s, [.write MCI_CLOCK value, .write MCI_POWER power]))
    (hactual : actual.toNat = ⌊mciFrequency value⌋₊) :
    HonestClock ios ↔ (31250 ≤ ios.clock.toNat → mciFrequency value ≤ (ios.clock.toNat : ℚ)) := by
  constructor
  · intro h
    obtain ⟨value', power', actual', hrun', -, hle⟩ := h.programmed fun _ => 0
    have hvalue : value' = value := by
      have hlog := congrArg (fun x => x.2.2.head?) (hrun'.symm.trans (hrun _))
      simpa using hlog
    rwa [hvalue] at hle
  · intro hle
    exact ⟨noOverflow_of_lt h0, fun s => ⟨value, power, actual, hrun s, hactual, hle⟩⟩

/-- The clock is honest for every request that divides 8 MHz, and for those at 8 MHz or above and below 16 MHz /
512. -/
theorem honestClock_iff {ios : MmcIos} (h0 : ios.clock ≠ 0) :
    HonestClock ios ↔ ios.clock.toNat < 31250 ∨ 8000000 ≤ ios.clock.toNat ∨ ios.clock.toNat ∣ 8000000 := by
  have hrun := setIos_run h0
  -- the bypass runs at 16 MHz; every other request goes through the divider
  by_cases hbypass : SHADOW_SDCC_MCLK ≤ ios.clock
  · have hle : 16000000 ≤ ios.clock.toNat := hbypass
    simp only [if_pos hbypass] at hrun
    rw [honestClock_of_run h0 hrun]
    · rw [mciFrequency_bypass]
      exact iff_of_true (fun _ => by exact_mod_cast hle) (.inr (.inl (by omega)))
    · rw [mciFrequency_bypass]
      exact (Nat.floor_ofNat 16000000).symm
  have hlt : ios.clock < SHADOW_SDCC_MCLK := BitVec.not_le.mp hbypass
  have hdivisor : (clockDivisor ios.clock).toNat ≤ 255 := by
    rw [toNat_clockDivisor hlt]
    exact Nat.min_le_right _ _
  simp only [if_neg hbypass] at hrun
  rw [honestClock_of_run h0 hrun]
  · rw [mciFrequency_divisor hdivisor]
    by_cases hslow : 31250 ≤ ios.clock.toNat
    · have hnot : ¬ ios.clock.toNat < 31250 := by omega
      simp only [hslow, hnot, true_imp_iff, false_or]
      exact frequency_le_iff hlt hslow
    · exact iff_of_true (fun h => absurd h hslow) (.inl (by omega))
  · rw [mciFrequency_divisor hdivisor]
    have hactual : (SHADOW_SDCC_MCLK / (2 * (clockDivisor ios.clock + 1))).toNat =
        16000000 / (2 * ((clockDivisor ios.clock).toNat + 1)) := by
      rw [BitVec.toNat_udiv, (noOverflow_of_lt h0 hlt).period]
      rfl
    rw [hactual]
    exact (Nat.floor_div_eq_div (K := ℚ) 16000000 _).symm

/-- The settings of an initialised card with this clock. -/
def iosAt (clock : U32) : MmcIos := ⟨clock, .width4, .pushPull, .on⟩

/-- The clock of the identification phase. -/
theorem honestClock_400kHz : HonestClock (iosAt 400000) :=
  (honestClock_iff (by decide)).mpr (.inr (.inr ⟨20, rfl⟩))

/-- A request for 3 MHz clocks the card at 4 MHz. -/
theorem not_honestClock_3MHz : shadowSdccSetIos (iosAt 3000000) (fun _ => 0) =
      (.ok ⟨4000000, 4000000⟩, (fun _ => 0), [.write MCI_CLOCK 0x9901, .write MCI_POWER 3]) ∧
    mciFrequency 0x9901 = 4000000 ∧ ¬ HonestClock (iosAt 3000000) := by
  have hrun : shadowSdccSetIos (iosAt 3000000) (fun _ => 0) =
      (.ok ⟨4000000, 4000000⟩, (fun _ => 0), [.write MCI_CLOCK 0x9901, .write MCI_POWER 3]) := by rfl
  have hfrequency : mciFrequency 0x9901 = 4000000 := by
    have hperiod : mciFrequency 0x9901 = 16000000 / (4 : ℕ) := if_neg (by decide)
    rw [hperiod]
    norm_num
  refine ⟨hrun, hfrequency, ?_⟩
  intro h
  obtain ⟨value, power, actual, hrun', -, hle⟩ := h.programmed fun _ => 0
  have hvalue : value = 0x9901 := by
    have hlog := congrArg (fun x => x.2.2.head?) (hrun'.symm.trans hrun)
    simpa using hlog
  have hfast := hle (by decide)
  rw [hvalue, hfrequency] at hfast
  have hclock : ((iosAt 3000000).clock.toNat : ℚ) = 3000000 := by
    have hnat : (iosAt 3000000).clock.toNat = 3000000 := rfl
    rw [hnat]
    norm_num
  rw [hclock] at hfast
  norm_num at hfast

end ShadowMsm.Linux
