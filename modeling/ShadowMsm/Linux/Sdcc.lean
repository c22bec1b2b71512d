import ShadowMsm.Hdlc
import ShadowMsm.Lib.Traced
import ShadowMsm.Linux.Numbers

/-!
# The polling SD host

`sdcc-shadow-msm.c` completes one request at a time by polling the status and FIFO registers of the PL180.  A
function of the driver is a program over the readings it takes, of registers and of `jiffies`, and leaves its
accesses as a trace; the records of the MMC core that it changes are passed and returned.  Statements quantify
over the readings, so they hold for every behaviour of the hardware and of the scheduler.

`wmb`, `cpu_relax`, `shadow_msm_watchdog_service` and the printed texts are left out; the register reads among the
arguments of a print are kept.
-/

namespace ShadowMsm.Linux

def BIT (n : Nat) : U32 := 1 <<< n

/-! ### Constants of the driver and of the MMC core -/

def SHADOW_MAX_TRANSFER : U32 := 512

def MCI_POWER : U32 := 0x000
def MCI_CLOCK : U32 := 0x004
def MCI_ARGUMENT : U32 := 0x008
def MCI_COMMAND : U32 := 0x00C
def MCI_RESPONSE0 : U32 := 0x014
def MCI_RESPONSE1 : U32 := 0x018
def MCI_RESPONSE2 : U32 := 0x01C
def MCI_RESPONSE3 : U32 := 0x020
def MCI_DATATIMER : U32 := 0x024
def MCI_DATALENGTH : U32 := 0x028
def MCI_DATACTRL : U32 := 0x02C
def MCI_DATACNT : U32 := 0x030
def MCI_STATUS : U32 := 0x034
def MCI_CLEAR : U32 := 0x038
def MCI_FIFOCOUNT : U32 := 0x048
def MCI_FIFO : U32 := 0x080

def MCI_CMD_RESPONSE : U32 := BIT 6
def MCI_CMD_LONG_RESPONSE : U32 := BIT 7
def MCI_CMD_ENABLE : U32 := BIT 10
def MCI_CMD_QCOM_DATA : U32 := BIT 12

def MCI_DATA_ENABLE : U32 := BIT 0
def MCI_DATA_READ : U32 := BIT 1
def MCI_DATA_BLOCK_SHIFT : Nat := 4

def MCI_STAT_CMD_CRC_FAIL : U32 := BIT 0
def MCI_STAT_DATA_CRC_FAIL : U32 := BIT 1
def MCI_STAT_CMD_TIMEOUT : U32 := BIT 2
def MCI_STAT_DATA_TIMEOUT : U32 := BIT 3
def MCI_STAT_TX_UNDERRUN : U32 := BIT 4
def MCI_STAT_RX_OVERRUN : U32 := BIT 5
def MCI_STAT_CMD_RESP_END : U32 := BIT 6
def MCI_STAT_CMD_SENT : U32 := BIT 7
def MCI_STAT_DATA_END : U32 := BIT 8
def MCI_STAT_START_BIT_ERR : U32 := BIT 9
def MCI_STAT_TX_FIFO_HALF : U32 := BIT 14
def MCI_STAT_TX_FIFO_FULL : U32 := BIT 16
def MCI_STAT_TX_FIFO_EMPTY : U32 := BIT 18
def MCI_STAT_TX_DATA_AVAIL : U32 := BIT 20
def MCI_STAT_RX_DATA_AVAIL : U32 := BIT 21

def MCI_CLEAR_ALL : U32 := 0x7FF
def MCI_CMD_ERRORS : U32 := MCI_STAT_CMD_CRC_FAIL ||| MCI_STAT_CMD_TIMEOUT
def MCI_DATA_ERRORS : U32 :=
  MCI_STAT_DATA_CRC_FAIL ||| MCI_STAT_DATA_TIMEOUT ||| MCI_STAT_TX_UNDERRUN ||| MCI_STAT_RX_OVERRUN ||| MCI_STAT_START_BIT_ERR

def SHADOW_CMD_TIMEOUT_MS : U32 := 2000
def SHADOW_DATA_TIMEOUT_MS : U32 := 5000

def MMC_READ_SINGLE_BLOCK : U32 := 17
def MMC_SEND_STATUS : U32 := 13
def MMC_WRITE_BLOCK : U32 := 24

def MMC_RSP_PRESENT : U32 := BIT 0
def MMC_RSP_136 : U32 := BIT 1
def MMC_RSP_CRC : U32 := BIT 2

def MMC_DATA_WRITE : U32 := BIT 8
def MMC_DATA_READ : U32 := BIT 9

/-! ### Records of the MMC core -/

/-- `struct mmc_command`; `hasData` says whether the pointer `data` is set. -/
structure MmcCommand where
  opcode : U32
  arg : U32
  flags : U32
  hasData : Bool
  resp : U32 × U32 × U32 × U32
  error : Int

/-- `struct mmc_data`; `sg` are the bytes its scatterlist covers. -/
structure MmcData where
  blksz : U32
  blocks : U32
  flags : U32
  sg : Bytes
  bytesXfered : U32
  error : Int

/-- `data->blksz * data->blocks` as an `u32` -/
def MmcData.size (data : MmcData) : U32 := data.blksz * data.blocks

structure MmcRequest where
  sbc : Option MmcCommand
  cmd : MmcCommand
  data : Option MmcData
  stop : Option MmcCommand

/-- `struct shadow_sdcc_host`; `bounce` gives the memory from the bounce buffer on, the buffer first. -/
structure ShadowSdccHost where
  bounce : Nat → Byte

/-! ### Programs of the driver -/

/-- An access of the driver. -/
inductive Access
  | read (offset value : U32)
  | write (offset value : U32)
  | jiffies (value : U32)
  deriving DecidableEq, Repr

/-- What the reads to come give, whatever they read. -/
abbrev Readings := Nat → U32

/-- The driver has not returned when the rounds allowed to its loops are used up. -/
inductive Pending
  | polling

abbrev Sdcc := Traced Pending Readings Access

/-- `readl_relaxed(host->base + offset)` -/
def readl (offset : U32) : Sdcc U32 := fun s => (.ok (s 0), fun k => s (k + 1), [.read offset (s 0)])

/-- `writel_relaxed(value, host->base + offset)` -/
def writel (value offset : U32) : Sdcc Unit := fun s => (.ok (), s, [.write offset value])

/-- a reading of `jiffies` -/
def jiffies : Sdcc U32 := fun s => (.ok (s 0), fun k => s (k + 1), [.jiffies (s 0)])

/-! ### Memory and scatterlists -/

/-- The bytes `memcpy` takes from a word, in little-endian order. -/
def wordBytes (word : U32) (count : Nat) : Bytes := (List.range count).map fun i => (word >>> (8 * i)).setWidth 8

/-- The word, zero at first, that `memcpy` makes of at most four bytes. -/
def wordOfBytes (bs : Bytes) : U32 := bs.foldr (fun b n => (n <<< 8) ||| b.setWidth 32) 0

/-- The bytes at `offset` and the addresses behind it. -/
def bytesAt (memory : Nat → Byte) (offset count : Nat) : Bytes :=
  (List.range count).map fun i => memory (offset + i)

/-- Memory with `bs` copied to `offset`. -/
def memcpy (memory : Nat → Byte) (offset : Nat) (bs : Bytes) : Nat → Byte := fun i =>
  if offset ≤ i ∧ i < offset + bs.length then bs.getD (i - offset) 0 else memory i

/-- `sg_copy_to_buffer`: as many bytes as the list covers, at most `size`, and their number. -/
def sgCopyToBuffer (sg : Bytes) (buffer : Nat → Byte) (size : Nat) : (Nat → Byte) × Nat :=
  (memcpy buffer 0 (sg.take size), min sg.length size)

/-- `sg_copy_from_buffer`: as many bytes as the list covers, at most `size`, and their number. -/
def sgCopyFromBuffer (sg : Bytes) (buffer : Nat → Byte) (size : Nat) : Bytes × Nat :=
  (bytesAt buffer 0 (min sg.length size) ++ sg.drop size, min sg.length size)

/-! ### Waiting and commands -/

def shadowSdccTraceOpcode (opcode : U32) : Bool :=
  opcode != MMC_SEND_STATUS && opcode != MMC_READ_SINGLE_BLOCK && opcode != MMC_WRITE_BLOCK

/-- One round of the loop of `shadow_sdcc_wait_status`; it is left with the error and `*last_status`. -/
def waitRound (wanted errors deadline : U32) : Sdcc (Unit ⊕ (Int × U32)) := do
  let status ← readl MCI_STATUS
  if status &&& errors ≠ 0 then return .inr (- EIO, status)
  else if status &&& wanted ≠ 0 then return .inr (0, status)
  else do
    let now ← jiffies
    if timeAfter now deadline then do
      let last ← readl MCI_STATUS
      return .inr (-ETIMEDOUT, last)
    else return .inl ()

def shadowSdccWaitStatus (n : Nat) (wanted errors timeoutMs : U32) : Sdcc (Int × U32) := do
  let now ← jiffies
  Traced.loop (fun _ => waitRound wanted errors (now + msecsToJiffies timeoutMs)) .polling n ()

/-- The value written to `MCI_COMMAND`. -/
def commandWord (cmd : MmcCommand) : U32 :=
  (cmd.opcode &&& 0x3F)
    ||| (if cmd.flags &&& MMC_RSP_PRESENT ≠ 0 then
      MCI_CMD_RESPONSE ||| (if cmd.flags &&& MMC_RSP_136 ≠ 0 then MCI_CMD_LONG_RESPONSE else 0) else 0)
    ||| (if cmd.hasData then MCI_CMD_QCOM_DATA else 0)
    ||| MCI_CMD_ENABLE

/-- The status bit that ends a command. -/
def terminal (cmd : MmcCommand) : U32 :=
  if cmd.flags &&& MMC_RSP_PRESENT ≠ 0 then MCI_STAT_CMD_RESP_END else MCI_STAT_CMD_SENT

/-- The error of a command from the result of the wait; a response without a checksum may fail its check. -/
def commandErrno (cmd : MmcCommand) (error : Int) (status : U32) : Int :=
  if error = - EIO then
    if status &&& MCI_STAT_CMD_TIMEOUT ≠ 0 then -ETIMEDOUT
    else if status &&& MCI_STAT_CMD_CRC_FAIL ≠ 0 ∧ cmd.flags &&& MMC_RSP_CRC ≠ 0 then -EILSEQ
    else 0
  else error

/-- The response of a command that succeeded. -/
def readResponses (cmd : MmcCommand) (error : Int) : Sdcc MmcCommand :=
  if error = 0 ∧ cmd.flags &&& MMC_RSP_PRESENT ≠ 0 then do
    let r0 ← readl MCI_RESPONSE0
    let r1 ← readl MCI_RESPONSE1
    let r2 ← readl MCI_RESPONSE2
    let r3 ← readl MCI_RESPONSE3
    return { cmd with resp := (r0, r1, r2, r3) }
  else return cmd

/-- `shadow_sdcc_command` from the end of its wait on. -/
def commandEnd (cmd : MmcCommand) (error : Int) (status : U32) : Sdcc (Int × MmcCommand) := do
  let cmd ← readResponses cmd error
  writel (status &&& (MCI_STAT_CMD_CRC_FAIL ||| MCI_STAT_CMD_TIMEOUT ||| MCI_STAT_CMD_RESP_END ||| MCI_STAT_CMD_SENT)) MCI_CLEAR
  return (error, { cmd with error := error })

def shadowSdccCommand (n : Nat) (cmd : MmcCommand) : Sdcc (Int × MmcCommand) := do
  writel 0 MCI_COMMAND
  writel MCI_CLEAR_ALL MCI_CLEAR
  writel cmd.arg MCI_ARGUMENT
  writel (commandWord cmd) MCI_COMMAND
  let w ← shadowSdccWaitStatus n (terminal cmd) MCI_CMD_ERRORS SHADOW_CMD_TIMEOUT_MS
  commandEnd cmd (commandErrno cmd w.1 w.2) w.2

/-! ### Data -/

def isPowerOf2 (n : U32) : Prop := n ≠ 0 ∧ n &&& (n - 1) = 0

instance (n : U32) : Decidable (isPowerOf2 n) := inferInstanceAs (Decidable (_ ∧ _))

/-- The sizes `shadow_sdcc_start_data` takes. -/
def MmcData.Accepted (data : MmcData) : Prop :=
  isPowerOf2 data.blksz ∧ ¬SHADOW_MAX_TRANSFER < data.size ∧ data.blocks = 1

instance (data : MmcData) : Decidable data.Accepted := inferInstanceAs (Decidable (_ ∧ _ ∧ _))

/-- The value written to `MCI_DATACTRL` for a transfer. -/
def dataControl (data : MmcData) : U32 :=
  (data.blksz <<< MCI_DATA_BLOCK_SHIFT) ||| (if data.flags &&& MMC_DATA_READ ≠ 0 then MCI_DATA_READ else 0) ||| MCI_DATA_ENABLE

def shadowSdccStartData (data : MmcData) : Sdcc Int :=
  if data.Accepted then do
    writel 0 MCI_DATACTRL
    writel MCI_CLEAR_ALL MCI_CLEAR
    writel 0xFFFFFFFF MCI_DATATIMER
    writel data.size MCI_DATALENGTH
    writel (dataControl data) MCI_DATACTRL
    return 0
  else return -EINVAL

/-- The error for a status with one of `MCI_DATA_ERRORS`. -/
def dataErrno (status : U32) : Int :=
  if status &&& MCI_STAT_DATA_TIMEOUT ≠ 0 then -ETIMEDOUT
  else if status &&& MCI_STAT_DATA_CRC_FAIL ≠ 0 then -EILSEQ
  else - EIO

/-- The variables of the loop of `shadow_sdcc_transfer_data`. -/
structure Transfer where
  bounce : Nat → Byte
  transferred : Nat
  status : U32
  error : Int

/-- The body of the loop of `shadow_sdcc_transfer_data`: a word, nothing (`keep_waiting`), or an error. -/
def transferWord (data : MmcData) (t : Transfer) : Sdcc (Transfer ⊕ Transfer) := do
  let count := min 4 (data.size.toNat - t.transferred)
  let status ← readl MCI_STATUS
  if status &&& MCI_DATA_ERRORS ≠ 0 then return .inr { t with status := status, error := dataErrno status }
  else if data.flags &&& MMC_DATA_READ ≠ 0 then
    if status &&& MCI_STAT_RX_DATA_AVAIL = 0 then return .inl { t with status := status }
    else do
      let word ← readl MCI_FIFO
      return .inl { t with
        status := status
        bounce := memcpy t.bounce t.transferred (wordBytes word count)
        transferred := t.transferred + count }
  else if status &&& MCI_STAT_TX_FIFO_FULL ≠ 0 then return .inl { t with status := status }
  else if status &&& (MCI_STAT_TX_FIFO_HALF ||| MCI_STAT_TX_FIFO_EMPTY ||| MCI_STAT_TX_DATA_AVAIL) = 0 then
    return .inl { t with status := status }
  else do
    writel (wordOfBytes (bytesAt t.bounce t.transferred count)) MCI_FIFO
    return .inl { t with status := status, transferred := t.transferred + count }

/-- One round of the loop, its condition first. -/
def transferRound (data : MmcData) (deadline : U32) (t : Transfer) : Sdcc (Transfer ⊕ Transfer) :=
  if t.transferred < data.size.toNat then do
    let now ← jiffies
    if timeAfter now deadline then return .inr t
    else transferWord data t
  else return .inr t

/-- From the end of the loop to the end of the wait for the end of data: the error and the status. -/
def transferWait (n : Nat) (data : MmcData) (t : Transfer) : Sdcc (Int × U32) :=
  if t.error ≠ 0 then return (t.error, t.status)
  else if t.transferred ≠ data.size.toNat then return (-ETIMEDOUT, t.status)
  else do
    let w ← shadowSdccWaitStatus n MCI_STAT_DATA_END MCI_DATA_ERRORS SHADOW_DATA_TIMEOUT_MS
    return (if w.1 = - EIO then dataErrno w.2 else w.1, w.2)

/-- The data of a read go to the scatterlist; `bytes_xfered` is set where there is no error. -/
def transferResult (data : MmcData) (bounce : Nat → Byte) (error : Int) : Int × MmcData :=
  if error ≠ 0 then (error, data)
  else if data.flags &&& MMC_DATA_READ ≠ 0 then
    let copy := sgCopyFromBuffer data.sg bounce data.size.toNat
    if copy.2 ≠ data.size.toNat then (-EFAULT, { data with sg := copy.1 })
    else (0, { data with sg := copy.1, bytesXfered := data.size })
  else (0, { data with bytesXfered := data.size })

/-- The register reads of the printed failure. -/
def printFailure (error : Int) : Sdcc Unit :=
  if error ≠ 0 then do
    let _ ← readl MCI_DATACNT
    let _ ← readl MCI_FIFOCOUNT
    let _ ← readl MCI_DATACTRL
    let _ ← readl MCI_CLOCK
    return ()
  else return ()

/-- `shadow_sdcc_transfer_data` from its loop on. -/
def transferFrom (n : Nat) (data : MmcData) (deadline : U32) (bounce : Nat → Byte) :
    Sdcc (Int × ShadowSdccHost × MmcData) := do
  let t ← Traced.loop (transferRound data deadline) .polling n ⟨bounce, 0, 0, 0⟩
  let w ← transferWait n data t
  let r := transferResult data t.bounce w.1
  printFailure r.1
  writel 0 MCI_DATACTRL
  writel (w.2 &&& MCI_CLEAR_ALL) MCI_CLEAR
  return (r.1, ⟨t.bounce⟩, { r.2 with error := r.1 })

def shadowSdccTransferData (n : Nat) (host : ShadowSdccHost) (data : MmcData) :
    Sdcc (Int × ShadowSdccHost × MmcData) := do
  let now ← jiffies
  let deadline := now + msecsToJiffies SHADOW_DATA_TIMEOUT_MS
  if data.flags &&& MMC_DATA_WRITE ≠ 0 then
    let copy := sgCopyToBuffer data.sg host.bounce data.size.toNat
    if copy.2 ≠ data.size.toNat then return (-EFAULT, ⟨copy.1⟩, data)
    else transferFrom n data deadline copy.1
  else transferFrom n data deadline host.bounce

/-! ### Requests -/

/-- The register reads of the printed request. -/
def printRequest (request : MmcRequest) : Sdcc Unit :=
  if shadowSdccTraceOpcode request.cmd.opcode then do
    let _ ← readl MCI_CLOCK
    let _ ← readl MCI_POWER
    return ()
  else return ()

/-- The stop command and `done`. -/
def requestStop (n : Nat) (host : ShadowSdccHost) (request : MmcRequest) : Sdcc (ShadowSdccHost × MmcRequest) :=
  match request.stop with
  | none => return (host, request)
  | some stop => do
    let c ← shadowSdccCommand n stop
    return (host, { request with stop := some c.2 })

/-- The transfer after a command that succeeded. -/
def requestTransfer (n : Nat) (host : ShadowSdccHost) (request : MmcRequest) (data : MmcData) :
    Sdcc (ShadowSdccHost × MmcRequest) := do
  let t ← shadowSdccTransferData n host data
  requestStop n t.2.1 { request with data := some t.2.2 }

/-- `shadow_sdcc_request` from its main command on. -/
def requestCommand (n : Nat) (host : ShadowSdccHost) (request : MmcRequest) :
    Sdcc (ShadowSdccHost × MmcRequest) := do
  let c ← shadowSdccCommand n request.cmd
  match request.data with
  | none =>
    if c.1 ≠ 0 then return (host, { request with cmd := c.2 })
    else requestStop n host { request with cmd := c.2 }
  | some data =>
    if c.1 ≠ 0 then do
      writel 0 MCI_DATACTRL
      return (host, { request with cmd := c.2, data := some { data with error := c.1 } })
    else if data.flags &&& MMC_DATA_WRITE ≠ 0 then do
      let error ← shadowSdccStartData data
      if error ≠ 0 then return (host, { request with cmd := c.2, data := some { data with error := error } })
      else requestTransfer n host { request with cmd := c.2 } data
    else requestTransfer n host { request with cmd := c.2 } data

/-- `shadow_sdcc_request` after its `sbc`. -/
def requestData (n : Nat) (host : ShadowSdccHost) (request : MmcRequest) : Sdcc (ShadowSdccHost × MmcRequest) :=
  match request.data with
  | none => requestCommand n host request
  | some data => do
    let data := { data with bytesXfered := 0, error := 0 }
    if data.flags &&& MMC_DATA_READ ≠ 0 then do
      let error ← shadowSdccStartData data
      if error ≠ 0 then
        return (host, { request with cmd := { request.cmd with error := error }, data := some { data with error := error } })
      else requestCommand n host { request with data := some data }
    else requestCommand n host { request with data := some data }

/-- The request handed to `mmc_request_done`, with the state of the host then. -/
def shadowSdccRequest (n : Nat) (host : ShadowSdccHost) (request : MmcRequest) :
    Sdcc (ShadowSdccHost × MmcRequest) := do
  printRequest request
  match request.sbc with
  | none => requestData n host request
  | some sbc => do
    let c ← shadowSdccCommand n sbc
    if c.1 ≠ 0 then return (host, { request with sbc := some c.2 })
    else requestData n host { request with sbc := some c.2 }

/-! ### The accesses of a program -/

section

open Traced

variable {P : Access → Prop}

theorem emits_readl {offset : U32} (h : ∀ value, P (.read offset value)) : Emits (readl offset) P := by
  constructor
  intro s a ha
  obtain rfl := List.mem_singleton.mp ha
  exact h (s 0)

theorem emits_jiffies (h : ∀ value, P (.jiffies value)) : Emits jiffies P := by
  constructor
  intro s a ha
  obtain rfl := List.mem_singleton.mp ha
  exact h (s 0)

theorem emits_writel {value offset : U32} (h : P (.write offset value)) : Emits (writel value offset) P := by
  constructor
  intro s a ha
  obtain rfl := List.mem_singleton.mp ha
  exact h

theorem sat_readl_bind {α : Type} {offset : U32} {f : U32 → Sdcc α} {φ : Except Pending α → List Access → Prop}
    (h : ∀ value, Sat (f value) fun r l => φ r (.read offset value :: l)) : Sat (readl offset >>= f) φ :=
  ⟨fun s => (h (s 0)).run fun k => s (k + 1)⟩

theorem sat_jiffies_bind {α : Type} {f : U32 → Sdcc α} {φ : Except Pending α → List Access → Prop}
    (h : ∀ value, Sat (f value) fun r l => φ r (.jiffies value :: l)) : Sat (jiffies >>= f) φ :=
  ⟨fun s => (h (s 0)).run fun k => s (k + 1)⟩

theorem sat_writel_bind {α : Type} {value offset : U32} {f : Unit → Sdcc α} {φ : Except Pending α → List Access → Prop}
    (h : Sat (f ()) fun r l => φ r (.write offset value :: l)) : Sat (writel value offset >>= f) φ :=
  ⟨fun s => h.run s⟩

/-- A wait reads the status and `jiffies`. -/
theorem emits_waitStatus (hread : ∀ value, P (.read MCI_STATUS value)) (hjiffies : ∀ value, P (.jiffies value)) (n : Nat)
    (wanted errors timeoutMs : U32) : Emits (shadowSdccWaitStatus n wanted errors timeoutMs) P := by
  apply emits_bind (emits_jiffies hjiffies)
  intro start
  refine emits_loop (fun _ => ?_) n ()
  apply emits_bind (emits_readl hread)
  intro status
  split
  · exact emits_pure
  · split
    · exact emits_pure
    · apply emits_bind (emits_jiffies hjiffies)
      intro now
      split
      · exact emits_bind (emits_readl hread) fun _ => emits_pure
      · exact emits_pure

/-- The end of a command reads the response and clears the status. -/
theorem emits_commandEnd (h0 : ∀ value, P (.read MCI_RESPONSE0 value)) (h1 : ∀ value, P (.read MCI_RESPONSE1 value))
    (h2 : ∀ value, P (.read MCI_RESPONSE2 value)) (h3 : ∀ value, P (.read MCI_RESPONSE3 value))
    (hclear : ∀ value, P (.write MCI_CLEAR value)) (cmd : MmcCommand) (error : Int) (status : U32) :
    Emits (commandEnd cmd error status) P := by
  have hread : Emits (readResponses cmd error) P := by
    unfold readResponses
    split
    · exact emits_bind (emits_readl h0) fun _ => emits_bind (emits_readl h1) fun _ => emits_bind (emits_readl h2) fun _ =>
        emits_bind (emits_readl h3) fun _ => emits_pure
    · exact emits_pure
  exact emits_bind hread fun _ => emits_bind (emits_writel (hclear _)) fun _ => emits_pure

end

end ShadowMsm.Linux
