import ImeBridge.Protocol
import ImeBridge.Keyboard.Bios

/-! # The state of the resident program

The variables of `foreground.c`, `serial_pc98.c`, `serial_irq_buffer_pc98.c` and
`keyboard_bios.c` that the resident entry points read, in two groups: `Session`
is the state of the conversation with the host, `Intake` lies between the devices
and the session.  `Hardware` is the machine around them.  The diagnostic counters
only feed the debug port, which release builds do not have, and are left out.
-/

namespace ImeBridge

inductive LinkState where
  | closed
  | helloWait
  | ready
  deriving DecidableEq, Repr

/-- What an observer of the resident program notes down. -/
inductive Event where
  /-- A `send_packet` call: how many bytes reached the data port, and its result. -/
  | sent (packet : Packet) (written : Nat) (succeeded : Bool)
  | linkReset
  /-- `toggle_ime_hotkey` ran and turned the IME on or off. -/
  | toggled (on : Bool)
  | acceptedText (sequence : Word) (payload : List Byte)
  /-- `besideText` tells whether a TEXT was staged at that moment. -/
  | acceptedKey (sequence : Word) (key : Word) (besideText : Bool)
  | acceptedClose (sequence : Word)
  | queuedText (key : Word)
  | queuedKey (key : Word)
  deriving DecidableEq, Repr

def Event.failed : Event → Bool
  | .sent _ _ succeeded => !succeeded
  | _ => false

structure Session where
  linkState : LinkState := .closed
  openPending : Bool := false
  imeActive : Bool := false
  imeEnabled : Bool := false
  sequence : Word := 0#16
  openSequence : Word := 0#16
  waitTicks : Word := 0#16
  /-- The part of `pending_text` the last accepted TEXT filled. -/
  pendingText : List Byte := []
  pendingLength : Nat := 0
  pendingOffset : Nat := 0
  pendingSequence : Word := 0#16
  pendingKey : Word := 0#16
  pendingKeyActive : Bool := false
  serialOpened : Bool := false
  /-- What the copy did so far; no variable of the program. -/
  history : List Event := []

structure Intake where
  /-- `rx_packet[0..rx_count)` -/
  rxPacket : List Byte := []
  rxExpected : Word := 0#16
  hotkeyModifierMask : Byte := 0x01#8
  hotkeyLatched : Bool := false
  irqCapture : Bool := false
  irqReadPos : Byte := 0#8
  irqWritePos : Byte := 0#8
  irqBuffer : Byte → Byte := fun _ => 0#8
  savedPicMask : Byte := 0#8
  picMaskSaved : Bool := false

structure Hardware where
  memory : Memory := Memory.blank
  /-- Interrupt mask register, port 02h. -/
  picMask : Byte := 0xff#8
  /-- Received bytes the UART still holds, oldest first. -/
  received : List Byte := []
  /-- For each coming `pc98_serial_write`, how many bytes the transmitter takes
  before it stops answering; writes past the end of the list succeed. -/
  transmitLimits : List Nat := []

/-- A resident copy at work on its machine. -/
structure Tsr extends Session, Intake, Hardware

/-- TEXT or KEY input waits for room in the BIOS queue. -/
def Session.Staged (session : Session) : Prop :=
  session.pendingLength ≠ 0 ∨ session.pendingKeyActive = true

instance (session : Session) : Decidable session.Staged := by unfold Session.Staged; infer_instance

def Session.note (event : Event) (session : Session) : Session :=
  { session with history := session.history ++ [event] }

def Tsr.note (event : Event) (tsr : Tsr) : Tsr := { tsr with history := tsr.history ++ [event] }

end ImeBridge
