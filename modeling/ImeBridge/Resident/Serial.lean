import ImeBridge.Resident.State

/-! # COM1, its receive ring and the hotkey

`serial_pc98.c` and `serial_irq_buffer_pc98.c`, and `pc98_poll_hotkey` of
`tsr_hook.S`.  Programming the 8251 and the PIT has no effect the model observes;
the transmitter is the list of limits in `Hardware`.
-/

namespace ImeBridge

/-- Always returns 1. -/
def pc98SerialOpen (tsr : Tsr) : Tsr := { tsr with serialOpened := true }

def pc98SerialClose (tsr : Tsr) : Tsr := { tsr with serialOpened := false }

/-- The result, and the number of bytes written to the data port. -/
def pc98SerialWrite (data : List Byte) (tsr : Tsr) : Bool × Nat × Tsr :=
  if tsr.serialOpened then
    match tsr.transmitLimits with
    | [] => (true, data.length, tsr)
    | limit :: limits =>
      (decide (data.length ≤ limit), min data.length limit, { tsr with transmitLimits := limits })
  else (false, 0, tsr)

/-- Direct polling of the receiver. -/
def pc98SerialTryReadByte (tsr : Tsr) : Option Byte × Tsr :=
  if tsr.serialOpened then
    match tsr.received with
    | [] => (none, tsr)
    | value :: received => (some value, { tsr with received := received })
  else (none, tsr)

def pc98TsrSerialCaptureBegin (tsr : Tsr) : Tsr :=
  { tsr with
    irqReadPos := 0#8
    irqWritePos := 0#8
    irqCapture := true
    savedPicMask := tsr.picMask
    picMaskSaved := true
    picMask := tsr.picMask &&& ~~~0x10#8 }

def pc98TsrSerialCaptureEnd (tsr : Tsr) : Tsr :=
  let tsr := { tsr with irqCapture := false }
  let tsr := if tsr.picMaskSaved then
      { tsr with picMask := tsr.savedPicMask, picMaskSaved := false }
    else tsr
  { tsr with irqReadPos := tsr.irqWritePos }

/-- The oldest byte of the receive ring. -/
def pc98TsrSerialTryReadByte (tsr : Tsr) : Option Byte × Tsr :=
  if tsr.irqReadPos = tsr.irqWritePos then (none, tsr)
  else (some (tsr.irqBuffer tsr.irqReadPos),
    { tsr with irqReadPos := (tsr.irqReadPos + 1#8) &&& 0x7f#8 })

/-- The ring part of `pc98_serial_irq_hook`: a full ring drops the byte. -/
def irqStore (value : Byte) (tsr : Tsr) : Tsr :=
  let next := (tsr.irqWritePos + 1#8) &&& 0x7f#8
  if next = tsr.irqReadPos then tsr
  else { tsr with
    irqBuffer := fun position => if position = tsr.irqWritePos then value else tsr.irqBuffer position
    irqWritePos := next }

/-- 0 when the hotkey is up, 1 on a new press, 2 while it is held. -/
def pc98PollHotkey (tsr : Tsr) : Word × Tsr :=
  if tsr.memory.readByte 0x053a#16 &&& tsr.hotkeyModifierMask = 0#8 ∨
      tsr.memory.readByte 0x0530#16 &&& 0x10#8 = 0#8 then
    (0#16, { tsr with hotkeyLatched := false })
  else if tsr.hotkeyLatched then (2#16, tsr)
  else (1#16, { tsr with hotkeyLatched := true })

end ImeBridge
