import ImeBridge.Protocol

/-! # The host side of one connection

`ServeAsync`, `SendText`, `SendKey` and `SendCloseIme` of `BridgeForm.cs`.  Each
handler writes at most one packet and runs to its end before the next one starts;
writes succeed.  Status texts, the input box and window focus are left out.
-/

namespace ImeBridge

structure Host where
  imeReady : Bool := false
  openSequence : Word := 0#16
  targetMaxTextBytes : Nat := imeMaxPayload

/-- What the bridge is started with. -/
structure Bridge where
  automaticText : Option (List Byte)
  /-- `Encoding.GetEncoding(932).GetBytes` of .NET, on UTF-16 code units. -/
  encode932 : List Word → List Byte

/-- The keys with a KEY code. -/
inductive RemoteKey where
  | enter
  | left
  | right
  | up
  | down
  | backspace
  deriving DecidableEq, Repr

def RemoteKey.code : RemoteKey → Byte
  | .enter => imeKeyEnter
  | .left => imeKeyLeft
  | .right => imeKeyRight
  | .up => imeKeyUp
  | .down => imeKeyDown
  | .backspace => imeKeyBackspace

/-- One turn of the loop of `ServeAsync`: the packet it writes, and its state after. -/
def serveAsync (bridge : Bridge) (packet : Packet) (host : Host) : Option Packet × Host :=
  if packet.type = imeHello then
    let advertised :=
      if packet.payload.length ≥ 10 then
        -- `BitConverter.ToUInt16`, low byte first.
        (word (packet.payload.getD 8 0) (packet.payload.getD 9 0)).toNat
      else imeMaxPayload
    let advertised :=
      if advertised ≤ 0 ∨ advertised > imeMaxPayload then imeMaxPayload else advertised
    (some ⟨imePong, packet.sequence, []⟩, { host with targetMaxTextBytes := advertised })
  else if packet.type = imePing then (some ⟨imePong, packet.sequence, []⟩, host)
  else if packet.type = imeOpenIme then
    let host := { host with openSequence := packet.sequence, imeReady := true }
    match bridge.automaticText with
    | some text =>
      -- Sending the automatic text leaves the host ready.
      if text.length > host.targetMaxTextBytes then (none, host)
      else (some ⟨imeText, host.openSequence, text⟩, host)
    | none => (none, host)
  else if packet.type = imeCloseIme then (none, { host with openSequence := 0#16, imeReady := false })
  -- An ACK is not compared with `openSequence`, nor with what was sent.
  else if packet.type = imeTextAck then (none, { host with openSequence := 0#16, imeReady := false })
  else if packet.type = imeKeyAck then (none, { host with openSequence := 0#16, imeReady := false })
  else (none, host)

def sendText (bridge : Bridge) (text : List Word) (host : Host) : Option Packet × Host :=
  if ¬ host.imeReady ∨ text = [] then (none, host)
  else
    let bytes := bridge.encode932 text
    if bytes.length > host.targetMaxTextBytes then (none, host)
    else (some ⟨imeText, host.openSequence, bytes⟩, { host with imeReady := false })

def sendKey (key : RemoteKey) (host : Host) : Option Packet × Host :=
  if ¬ host.imeReady then (none, host)
  else (some ⟨imeKey, host.openSequence, [key.code]⟩, { host with imeReady := false })

def sendCloseIme (host : Host) : Option Packet × Host :=
  if ¬ host.imeReady then (none, host)
  else (some ⟨imeCloseIme, host.openSequence, []⟩, { host with imeReady := false })

/-- What the user can do in the window. -/
inductive UserAction where
  | text (content : List Word)
  | key (pressed : RemoteKey)
  | close

def UserAction.perform (bridge : Bridge) (action : UserAction) (host : Host) : Option Packet × Host :=
  match action with
  | .text content => sendText bridge content host
  | .key pressed => sendKey pressed host
  | .close => sendCloseIme host

/-! ## What the host writes -/

/-- The packets the user can make a host in this state write. -/
inductive Host.Writes (bridge : Bridge) (host : Host) : Packet → Prop where
  | text (content : List Word) (nonempty : content ≠ [])
      (fits : (bridge.encode932 content).length ≤ host.targetMaxTextBytes) :
      host.Writes bridge ⟨imeText, host.openSequence, bridge.encode932 content⟩
  | key (pressed : RemoteKey) : host.Writes bridge ⟨imeKey, host.openSequence, [pressed.code]⟩
  | close : host.Writes bridge ⟨imeCloseIme, host.openSequence, []⟩

theorem Host.Writes.fits {bridge : Bridge} {host : Host} {packet : Packet} (writes : host.Writes bridge packet)
    (capacity : host.targetMaxTextBytes ≤ imeMaxPayload) : packet.payload.length ≤ imeMaxPayload := by
  cases writes with
  | text content _ fits => exact fits.trans capacity
  | key | close => simp [imeMaxPayload]

/-- A user action writes nothing and changes nothing, or writes for the OPEN_IME the
host is ready for, which ends its readiness. -/
theorem perform_cases (bridge : Bridge) (action : UserAction) (host : Host) :
    action.perform bridge host = (none, host) ∨
      (host.imeReady = true ∧ ∃ packet, host.Writes bridge packet ∧
        action.perform bridge host = (some packet, { host with imeReady := false })) := by
  cases action with
  | text content =>
    simp only [UserAction.perform, sendText]
    split_ifs with refused tooLong
    · exact .inl rfl
    · exact .inl rfl
    · simp only [not_or, not_not] at refused
      exact .inr ⟨refused.1, _, .text content refused.2 (not_lt.mp tooLong), rfl⟩
  | key pressed =>
    simp only [UserAction.perform, sendKey]
    split_ifs with ready
    · exact .inr ⟨ready, _, .key pressed, rfl⟩
    · exact .inl rfl
  | close =>
    simp only [UserAction.perform, sendCloseIme]
    split_ifs with ready
    · exact .inr ⟨ready, _, .close, rfl⟩
    · exact .inl rfl

/-- A received packet is answered by nothing, by a PONG, or an OPEN_IME by the
automatic text. -/
theorem serveAsync_answer (bridge : Bridge) (packet : Packet) (host : Host) {answer : Packet}
    (answers : (serveAsync bridge packet host).1 = some answer) :
    answer.type = imePong ∨ (packet.type = imeOpenIme ∧
      ∃ text, bridge.automaticText = some text ∧ answer = ⟨imeText, packet.sequence, text⟩) := by
  by_cases isHello : packet.type = imeHello
  · simp only [serveAsync, if_pos isHello] at answers
    cases answers
    exact .inl rfl
  by_cases isPing : packet.type = imePing
  · simp only [serveAsync, if_neg isHello, if_pos isPing] at answers
    cases answers
    exact .inl rfl
  by_cases isOpen : packet.type = imeOpenIme
  · simp only [serveAsync, if_neg isHello, if_neg isPing, if_pos isOpen] at answers
    cases automatic : bridge.automaticText with
    | none => simp [automatic] at answers
    | some text =>
      simp only [automatic] at answers
      split at answers
      · simp at answers
      · cases answers
        exact .inr ⟨isOpen, text, rfl, rfl⟩
  · simp only [serveAsync, if_neg isHello, if_neg isPing, if_neg isOpen] at answers
    split_ifs at answers

/-- What the host answers fits a packet. -/
theorem serveAsync_fits (bridge : Bridge) (packet : Packet) {host : Host} {answer : Packet}
    (fits : host.targetMaxTextBytes ≤ imeMaxPayload) (answers : (serveAsync bridge packet host).1 = some answer) :
    answer.payload.length ≤ imeMaxPayload := by
  by_cases isHello : packet.type = imeHello
  · simp only [serveAsync, if_pos isHello] at answers
    cases answers
    exact Nat.zero_le _
  by_cases isPing : packet.type = imePing
  · simp only [serveAsync, if_neg isHello, if_pos isPing] at answers
    cases answers
    exact Nat.zero_le _
  by_cases isOpen : packet.type = imeOpenIme
  · simp only [serveAsync, if_neg isHello, if_neg isPing, if_pos isOpen] at answers
    cases automatic : bridge.automaticText with
    | none => simp [automatic] at answers
    | some text =>
      simp only [automatic] at answers
      split at answers
      · simp at answers
      · rename_i short
        cases answers
        exact (not_lt.mp short).trans fits
  · simp only [serveAsync, if_neg isHello, if_neg isPing, if_neg isOpen] at answers
    split_ifs at answers

/-- The host never expects the client to take more than a packet carries. -/
theorem serveAsync_capacity (bridge : Bridge) (packet : Packet) {host : Host}
    (fits : host.targetMaxTextBytes ≤ imeMaxPayload) :
    (serveAsync bridge packet host).2.targetMaxTextBytes ≤ imeMaxPayload := by
  by_cases isHello : packet.type = imeHello
  · simp only [serveAsync, if_pos isHello]
    split_ifs <;> omega
  · simp only [serveAsync, if_neg isHello]
    split_ifs with isPing isOpen
    · exact fits
    · cases bridge.automaticText with
      | none => exact fits
      | some text =>
        dsimp only
        split <;> exact fits
    all_goals exact fits

end ImeBridge
