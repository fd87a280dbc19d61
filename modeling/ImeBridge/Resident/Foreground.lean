import ImeBridge.Library.Run
import ImeBridge.Resident.Serial

/-! # The resident worker

`dos/pc98/foreground.c`, function by function.  Debug output is left out.
-/

namespace ImeBridge

def sendPacket (type : Byte) (sequence : Word) (payload : List Byte) (tsr : Tsr) : Bool × Tsr :=
  let data := imePacketBuild type sequence payload
  if data = [] then (false, tsr)
  else
    let (succeeded, written, tsr) := pc98SerialWrite data tsr
    (succeeded, tsr.note (.sent ⟨type, sequence, payload⟩ written succeeded))

def resetLink (tsr : Tsr) : Tsr :=
  let tsr := pc98TsrSerialCaptureEnd tsr
  let tsr := pc98SerialClose tsr
  { tsr with
    linkState := .closed
    imeActive := false
    waitTicks := 0#16
    rxPacket := []
    rxExpected := 0#16 }.note .linkReset

def sendOpenIme (tsr : Tsr) : Tsr :=
  -- The number is used up even if the packet does not go out whole.
  let tsr := { tsr with sequence := tsr.sequence + 1#16, openSequence := tsr.sequence + 1#16 }
  let (succeeded, tsr) := sendPacket imeOpenIme tsr.openSequence [] tsr
  if succeeded then { tsr with imeActive := true, openPending := false, waitTicks := 0#16 }
  else { resetLink tsr with openPending := true }

def closeIme (tsr : Tsr) : Tsr :=
  -- Best effort: the result of the CLOSE_IME is not looked at.
  let tsr := if tsr.linkState = .ready then (sendPacket imeCloseIme tsr.openSequence [] tsr).2 else tsr
  let tsr := if tsr.linkState ≠ .closed then resetLink tsr else tsr
  { tsr with
    imeEnabled := false
    openPending := false
    imeActive := false
    pendingLength := 0
    pendingOffset := 0
    pendingKeyActive := false
    waitTicks := 0#16 }

def pc98PrepareUninstall (tsr : Tsr) : Tsr := closeIme tsr

/-- The BIOS word of a KEY code; `none` is the `default` of the switch. -/
def keyCodeWord (code : Byte) : Option Word :=
  if code = imeKeyEnter then some 0x1c0d#16
  else if code = imeKeyLeft then some 0x3b00#16
  else if code = imeKeyRight then some 0x3c00#16
  else if code = imeKeyUp then some 0x3a00#16
  else if code = imeKeyDown then some 0x3d00#16
  else if code = imeKeyBackspace then some 0x0e08#16
  else none

/-- The packet carries the number of the OPEN_IME the client waits on. -/
def Session.expects (packet : Packet) (session : Session) : Bool :=
  session.imeActive && packet.sequence = session.openSequence

/-- `handle_packet` behind its call of `ime_packet_parse`. -/
def handleParsed (packet : Packet) (tsr : Tsr) : Tsr :=
  if packet.type = imePong ∧ tsr.linkState = .helloWait then
    -- Any PONG does: its sequence number is not compared with that of the HELLO.
    let tsr := { tsr with linkState := .ready, waitTicks := 0#16 }
    if tsr.openPending then sendOpenIme tsr else tsr
  else if packet.type = imeText ∧ tsr.toSession.expects packet ∧ packet.payload.length ≤ 512 then
    -- A TEXT that is still staged, whole or in part, is overwritten.
    { tsr with
      pendingText := packet.payload
      pendingLength := packet.payload.length
      pendingOffset := 0
      pendingSequence := packet.sequence
      waitTicks := 0#16 }.note (.acceptedText packet.sequence packet.payload)
  else if packet.type = imeKey ∧ tsr.toSession.expects packet ∧ packet.payload.length = 1 then
    match keyCodeWord (packet.payload.getD 0 0) with
    | none => tsr
    | some key =>
      -- `pending_sequence` is shared with a staged TEXT.
      { tsr with
        pendingKey := key
        pendingKeyActive := true
        pendingSequence := packet.sequence
        waitTicks := 0#16 }.note (.acceptedKey packet.sequence key (tsr.pendingLength ≠ 0))
  else if packet.type = imeCloseIme ∧ tsr.toSession.expects packet ∧ packet.payload.length = 0 then
    closeIme (tsr.note (.acceptedClose packet.sequence))
  else tsr

def handlePacket (tsr : Tsr) : Tsr :=
  match imePacketParse tsr.rxPacket with
  | none => tsr
  | some packet => handleParsed packet tsr

def acceptByte (value : Byte) (tsr : Tsr) : Tsr :=
  if tsr.rxPacket.length = 0 ∧ value ≠ imeMagic0 then tsr
  else if tsr.rxPacket.length = 1 ∧ value ≠ imeMagic1 then
    -- This byte may itself begin a packet.
    { tsr with rxPacket := if value = imeMagic0 then tsr.rxPacket else [] }
  else if tsr.rxPacket.length ≥ 522 then { tsr with rxPacket := [], rxExpected := 0#16 }
  else
    let tsr : Tsr := { tsr with rxPacket := tsr.rxPacket ++ [value] }
    let tsr : Tsr :=
      if tsr.rxPacket.length = 8 then
        -- A 16-bit sum: a length field of FFF6h or more wraps to a small number.
        let expected := 10#16 + word (tsr.rxPacket.getD 6 0) (tsr.rxPacket.getD 7 0)
        if expected > 522#16 then { tsr with rxPacket := [], rxExpected := 0#16 }
        else { tsr with rxExpected := expected }
      else tsr
    if tsr.rxExpected ≠ 0#16 ∧ tsr.rxPacket.length = tsr.rxExpected.toNat then
      { handlePacket tsr with rxPacket := [], rxExpected := 0#16 }
    else tsr

/-- The byte of one turn of `poll_transport`: the receive ring before the port. -/
def pollByte (tsr : Tsr) : Option Byte × Tsr :=
  match pc98TsrSerialTryReadByte tsr with
  | (some value, tsr) => (some value, tsr)
  | (none, tsr) => pc98SerialTryReadByte tsr

def pollLoop : Nat → Tsr → Tsr
  | 0, tsr => tsr
  | budget + 1, tsr =>
    match pollByte tsr with
    | (none, tsr) => tsr
    | (some value, tsr) => pollLoop budget (acceptByte value tsr)

def pollTransport (tsr : Tsr) : Tsr := pollLoop 32 tsr

/-- `pc98_bios_enqueue_word`, with the word noted as coming from a TEXT or a KEY. -/
def enqueueNoting (event : Event) (key : Word) (tsr : Tsr) : Bool × Tsr :=
  match pc98BiosEnqueueWord key tsr.memory with
  | (false, memory) => (false, { tsr with memory := memory })
  | (true, memory) => (true, { tsr with memory := memory }.note event)

/-- The loop of `inject_pending_text`; `false` when it returns on a full queue. -/
def injectTextLoop : Nat → Tsr → Bool × Tsr
  | 0, tsr => (true, tsr)
  | budget + 1, tsr =>
    if tsr.pendingOffset < tsr.pendingLength then
      let (key, input) := pc98BiosEncodeKey tsr.pendingText tsr.pendingLength tsr.pendingOffset
      match enqueueNoting (.queuedText key) key tsr with
      | (false, tsr) => (false, tsr)
      | (true, tsr) => injectTextLoop budget { tsr with pendingOffset := input + 1 }
    else (true, tsr)

def injectPendingText (tsr : Tsr) : Tsr :=
  match injectTextLoop 16 tsr with
  | (false, tsr) => tsr
  | (true, tsr) =>
    -- With the budget of 16 words spent, the rest of the text waits for a later run.
    if tsr.pendingOffset ≥ tsr.pendingLength then
      let tsr := (sendPacket imeTextAck tsr.pendingSequence [] tsr).2
      { tsr with
        pendingLength := 0
        pendingOffset := 0
        imeActive := false
        openPending := tsr.imeEnabled }
    else tsr

def injectPendingKey (tsr : Tsr) : Tsr :=
  match enqueueNoting (.queuedKey tsr.pendingKey) tsr.pendingKey tsr with
  | (false, tsr) => tsr
  | (true, tsr) =>
    let tsr := (sendPacket imeKeyAck tsr.pendingSequence [] tsr).2
    { tsr with
      pendingKeyActive := false
      imeActive := false
      openPending := tsr.imeEnabled }

def hello : List Byte :=
  [0x01#8, 0x02#8, 0x43#8, 0x50#8, 0x39#8, 0x33#8, 0x32#8, 0x00#8, 0x00#8, 0x02#8, 0x02#8]

def startLink (tsr : Tsr) : Tsr :=
  let tsr := pc98SerialOpen tsr
  let tsr := pc98TsrSerialCaptureBegin tsr
  let tsr := { tsr with sequence := tsr.sequence + 1#16 }
  let (succeeded, tsr) := sendPacket imeHello tsr.sequence hello tsr
  if succeeded then { tsr with linkState := .helloWait, waitTicks := 0#16 } else resetLink tsr

def toggleImeHotkey (tsr : Tsr) : Tsr :=
  if tsr.imeEnabled then closeIme (tsr.note (.toggled false))
  else { tsr with imeEnabled := true, openPending := true }.note (.toggled true)

/-- The return value and the state. -/
def pc98ServiceReturnedHotkey (tsr : Tsr) : Bool × Tsr :=
  let (hotkeyState, tsr) := pc98PollHotkey tsr
  if hotkeyState ≠ 0#16 then (true, toggleImeHotkey tsr) else (false, tsr)

/-! `pc98_service_foreground` runs five stages in a row. -/

def hotkeyStage (tsr : Tsr) : Tsr :=
  let (hotkeyState, tsr) := pc98PollHotkey tsr
  if hotkeyState ≠ 0#16 then
    -- Only a Space taken back from the BIOS queue toggles, so a held key counts once.
    match pc98BiosDiscardHotkeySpace tsr.memory with
    | (true, memory) => toggleImeHotkey { tsr with memory := memory }
    | (false, memory) => { tsr with memory := memory }
  else tsr

def receiveStage (tsr : Tsr) : Tsr :=
  if tsr.linkState ≠ .closed then pollTransport tsr else tsr

def injectStage (tsr : Tsr) : Tsr :=
  let tsr := if tsr.pendingLength ≠ 0 then injectPendingText tsr else tsr
  if tsr.pendingKeyActive then injectPendingKey tsr else tsr

def openStage (tsr : Tsr) : Tsr :=
  if tsr.openPending ∧ ¬ tsr.imeActive then
    if tsr.linkState = .ready then sendOpenIme tsr
    else if tsr.linkState = .closed then startLink tsr
    else tsr
  else tsr

/-- The host owes an answer, so the response timer runs. -/
def Session.waiting (session : Session) : Bool :=
  session.linkState = .helloWait || session.imeActive

/-- The response timeout fires at the end of this run. -/
def Session.timesOut (session : Session) : Bool :=
  session.waiting && session.waitTicks + 1#16 = 0xffff#16

def tickStage (tsr : Tsr) : Tsr :=
  if tsr.toSession.waiting then
    let tsr := { tsr with waitTicks := tsr.waitTicks + 1#16 }
    if tsr.waitTicks = 0xffff#16 then
      -- Unlike `close_ime`, no CLOSE_IME is sent and staged input stays.
      { resetLink tsr with imeEnabled := false, openPending := false }
    else tsr
  else tsr

def pc98ServiceForeground (tsr : Tsr) : Tsr :=
  tickStage (openStage (injectStage (receiveStage (hotkeyStage tsr))))

/-- `pc98_serial_irq_hook`: with capture off, or no byte received, it chains. -/
def pc98SerialIrqHook (tsr : Tsr) : Tsr :=
  if tsr.irqCapture then
    match tsr.received with
    | [] => tsr
    | value :: received => pc98ServiceForeground (irqStore value { tsr with received := received })
  else tsr

end ImeBridge
