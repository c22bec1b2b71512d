import ShadowMsm.Linux.DiagBorrow
import ShadowMsm.Linux.InputReaders

/-!
# The input queue under concurrent calls

What the threads that call the timer driver see of the host's input is a queue of at most 255 bytes, whatever the
interleaving of their calls: a receive first appends what there is room for of the packet that its dispatcher iteration
processes, and then takes the oldest bytes; a reset empties the queue.
-/

namespace ShadowMsm.Linux

open Arm Simulation Stage0

variable {T : Type}

/-- The bytes that a waiting queue of `n` bytes takes of a packet. -/
def admitted (n : Nat) (packet : Option (List (BitVec 8))) : List (BitVec 8) :=
  (packet.getD []).take (min 64 (255 - n))

/-- The bytes that an event hands to a reader. -/
def DiagEvent.received : DiagEvent T → List (BitVec 8)
  | .masked .. => []
  | .restored _ _ _ bytes _ _ => bytes

/-- The queue after an event. -/
def DiagEvent.after (q : List (BitVec 8)) : DiagEvent T → List (BitVec 8)
  | .restored _ (.receive limit) packet _ _ _ => (q ++ admitted q.length packet).drop limit
  | .restored _ .inputReset _ _ _ _ => []
  | _ => q

/-- The mailbox of the calls one at a time holds the queue. -/
def Holds (s : Serial T) (q : List (BitVec 8)) : Prop := MailboxOk s.mem ∧ mailboxContents s.mem = q

variable [DecidableEq T]

/-- The monitor's routines, where printing leaves memory alone. -/
def resident : Platform where
  initTtbr := 0x4000
  timerBase := true
  print := fun _ μ μ' => μ' = μ
  dispatch := fun packet μ μ' => Dispatched μ packet μ'

/-- A mailbox with a byte waiting. -/
def waiting : Mem :=
  storeBytes (fun _ => 0) INPUT_MAILBOX_ADDR [0x4E, 0x49, 0x4D, 0x53, 1, 0, 0, 0, 0, 0, 0, 0, 0x68]

end ShadowMsm.Linux
