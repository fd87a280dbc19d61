import ImeBridge.Host.KeyBindings
import ImeBridge.Host.Permission

/-! # The window of the bridge

`BridgeForm.cs` over one connection after the other.  Its handlers run on the UI thread,
each to its end; what .NET and the outside decide (how a write and a connection end, what is
typed, where the focus is) comes with the action.  Closing the window, the activity log and
the windows that get the focus are left out.
-/

namespace ImeBridge

open Library

structure KeyEventArgs where
  keyCode : Keys
  modifiers : Keys
  deriving DecidableEq, Repr

def KeyBinding.Matches (binding : KeyBinding) (e : KeyEventArgs) : Prop :=
  binding.enabled = true ∧ e.keyCode = binding.key ∧ e.modifiers = binding.modifiers

instance (binding : KeyBinding) (e : KeyEventArgs) : Decidable (binding.Matches e) := by
  unfold KeyBinding.Matches
  infer_instance

/-- The exceptions that `ListenAsync` tells apart. -/
inductive FailureKind where
  | endOfStream
  | io
  | invalidData
  | other
  deriving DecidableEq, Repr

structure Failure where
  kind : FailureKind
  message : String
  deriving DecidableEq, Repr

inductive Transport where
  | pipeClient
  | pipeServer
  | tcp
  deriving DecidableEq, Repr

/-- What `ListenAsync` shows of an exception, and whether it waits for another connection. -/
def Transport.report (transport : Transport) (failure : Failure) : Option String × Bool :=
  match transport, failure.kind with
  | _, .endOfStream => (some "Disconnected", true)
  | .tcp, .io => (some ("TCP error: " ++ failure.message), true)
  | _, .io => (some ("Pipe error: " ++ failure.message), true)
  | _, .invalidData => (some ("Protocol error: " ++ failure.message), true)
  -- Nobody catches it.
  | .pipeClient, .other => (none, false)
  | .pipeServer, .other => (some ("Error: " ++ failure.message), true)
  | .tcp, .other => (some ("Error: " ++ failure.message), false)

/-- What was given to `BeginInvoke`. -/
inductive Posted where
  | clearInput
  | focusInput
  deriving DecidableEq, Repr

/-- What an observer of the window notes down; connections are numbered. -/
inductive WindowEvent where
  | connected (connection : Nat)
  | disconnected (connection : Nat)
  | received (connection : Nat) (packet : Packet)
  /-- With the text in the input box at that moment. -/
  | wrote (connection : Nat) (packet : Packet) (input : List Word)
  /-- The write threw; the peer may have got a part of it. -/
  | failed (connection : Nat) (packet : Packet)
  deriving DecidableEq, Repr

structure Window extends Host where
  stream : Option Nat := none
  /-- `ListenAsync` is running. -/
  listening : Bool := true
  /-- `input.Text`, in UTF-16 code units. -/
  input : List Word := []
  /-- `input.Focused` -/
  focused : Bool := false
  posted : List Posted := []
  status : String := "Waiting for PC-98"
  target : String := "Target: --"
  /-- How many connections there were; no variable of the program. -/
  connections : Nat := 0
  /-- Oldest first; no variable of the program. -/
  log : List WindowEvent := []

/-- What the window is opened with. -/
structure Setup where
  bridge : Bridge
  bindings : BridgeKeyBindings := {}
  transport : Transport := .pipeServer

namespace Window

def note (event : WindowEvent) (window : Window) : Window := { window with log := window.log ++ [event] }

def setStatus (status : String) (window : Window) : Window := { window with status := status }

def setTarget (target : String) (window : Window) : Window := { window with target := "Target: " ++ target }

def post (posted : Posted) (window : Window) : Window := { window with posted := window.posted ++ [posted] }

/-- Encode and write; the exception, if there is one. -/
def sendAsync (outcome : Option Failure) (connection : Nat) (packet : Packet) (window : Window) :
    Option Failure × Window :=
  if packet.payload.length > imeMaxPayload then
    (some ⟨.invalidData, "Payload exceeds 512 bytes."⟩, window.note (.failed connection packet))
  else
    match outcome with
    | none => (none, window.note (.wrote connection packet window.input))
    | some failure => (some failure, window.note (.failed connection packet))

/-! ## A connection -/

/-- The beginning of `ServeAsync`, for the next client. -/
def connect (description : String) (window : Window) : Window :=
  if window.listening ∧ window.stream = none then
    ({ window with
      toHost := {}
      stream := some window.connections
      connections := window.connections + 1 }.setStatus ("Connected: " ++ description)).note
        (.connected window.connections)
  else window

/-- `finally`, and what `ListenAsync` does with the exception. -/
def disconnect (transport : Transport) (connection : Nat) (failure : Failure) (window : Window) : Window :=
  let window :=
    if window.stream = some connection then { window with stream := none, toHost := {} } else window
  let (status, listening) := transport.report failure
  let window := { window with listening := listening }.note (.disconnected connection)
  match status with
  | none => window
  | some status => window.setStatus status

/-- What `ServeAsync` shows and posts for a packet before it writes an answer. -/
def announce (bridge : Bridge) (packet : Packet) (window : Window) : Window :=
  if packet.type = imeHello then
    (window.setStatus "PC-98 connection confirmed").setTarget
      (if packet.payload.head? = some 1#8 then "PC-98" else "Unknown")
  else if packet.type = imePing then window
  else if packet.type = imeOpenIme then
    let window := window.setStatus "Input ready"
    match bridge.automaticText with
    | some text =>
      if text.length > window.targetMaxTextBytes then
        window.setStatus ("Automatic text is too long: " ++ toString text.length ++ "/" ++
          toString window.targetMaxTextBytes ++ " bytes")
      else window
    | none => window.post .focusInput
  else if packet.type = imeCloseIme then (window.post .clearInput).setStatus "Input cancelled"
  else if packet.type = imeTextAck then window.setStatus "PC-98 received text"
  else if packet.type = imeKeyAck then window.setStatus "PC-98 received key"
  else window

/-- What `ServeAsync` writes for a packet, and what it shows behind that. -/
def reply (transport : Transport) (packet : Packet) (outcome : Option Failure) (connection : Nat)
    (answer : Option Packet) (window : Window) : Window :=
  match answer with
  | none => window
  | some answer =>
    match window.sendAsync outcome connection answer with
    | (some failure, window) => window.disconnect transport connection failure
    | (none, window) => if packet.type = imeOpenIme then window.setStatus "Automatic text sent" else window

/-- One turn of the loop of `ServeAsync`. -/
def serve (setup : Setup) (packet : Packet) (outcome : Option Failure) (window : Window) : Window :=
  match window.stream with
  | none => window
  | some connection =>
    let (answer, host) := serveAsync setup.bridge packet window.toHost
    let window := { window with toHost := host }.note (.received connection packet)
    (window.announce setup.bridge packet).reply setup.transport packet outcome connection answer

/-! ## The user -/

/-- The common part of `SendText`, `SendKey` and `SendCloseIme`: readiness is given up, and
comes back if the write throws. -/
def submit (outcome : Option Failure) (connection : Nat) (packet : Packet) (sent : Window → Window)
    (error : String) (window : Window) : Window :=
  match { window with imeReady := false }.sendAsync outcome connection packet with
  | (none, window) => sent window
  | (some failure, window) => { window with imeReady := true }.setStatus (error ++ failure.message)

def sendText (bridge : Bridge) (outcome : Option Failure) (window : Window) : Window :=
  match window.stream with
  | none => window
  | some connection =>
    if ¬ window.imeReady ∨ window.input = [] then window
    else
      let bytes := bridge.encode932 window.input
      if bytes.length > window.targetMaxTextBytes then
        window.setStatus ("Text is too long: " ++ toString bytes.length ++ "/" ++
          toString window.targetMaxTextBytes ++ " CP932 bytes")
      else
        window.submit outcome connection ⟨imeText, window.openSequence, bytes⟩
          (fun window => { window with input := [] }.setStatus "Text sent; waiting for acknowledgement")
          "Send error: "

def sendKey (keyCode : RemoteKey) (keyName : String) (outcome : Option Failure) (window : Window) : Window :=
  match window.stream with
  | none => window
  | some connection =>
    if ¬ window.imeReady then window
    else
      window.submit outcome connection ⟨imeKey, window.openSequence, [keyCode.code]⟩
        (fun window => window.setStatus (keyName ++ " sent; waiting for acknowledgement"))
        "Key send error: "

def sendCloseIme (outcome : Option Failure) (window : Window) : Window :=
  match window.stream with
  | none => window
  | some connection =>
    if ¬ window.imeReady then window
    else
      window.submit outcome connection ⟨imeCloseIme, window.openSequence, []⟩
        (fun window => window.setStatus "IME off requested by Escape") "IME off request error: "

/-- `OnKeyDown`, with `SuppressKeyPress` for its result. -/
def onKeyDown (setup : Setup) (e : KeyEventArgs) (outcome : Option Failure) (window : Window) :
    Bool × Window :=
  let bindings := setup.bindings
  if window.input ≠ [] ∧ bindings.send.Matches e then (true, window.sendText setup.bridge outcome)
  else if window.focused ∧ window.input = [] ∧ bindings.remoteEnter.Matches e then
    (true, window.sendKey .enter "Enter" outcome)
  else if window.focused ∧ window.input = [] ∧ bindings.remoteBackspace.Matches e then
    (true, window.sendKey .backspace "Backspace" outcome)
  else if bindings.close.Matches e then
    if window.input ≠ [] then (true, { window with input := [] })
    else (true, window.sendCloseIme outcome)
  else if window.focused ∧ window.input = [] then
    if bindings.remoteLeft.Matches e then (true, window.sendKey .left "Left" outcome)
    else if bindings.remoteRight.Matches e then (true, window.sendKey .right "Right" outcome)
    else if bindings.remoteUp.Matches e then (true, window.sendKey .up "Up" outcome)
    else if bindings.remoteDown.Matches e then (true, window.sendKey .down "Down" outcome)
    else (false, window)
  else (false, window)

/-- The UI thread runs the oldest callback. -/
def pump (window : Window) : Window :=
  match window.posted with
  | [] => window
  | .clearInput :: posted => { window with posted := posted, input := [] }
  | .focusInput :: posted => { window with posted := posted, focused := true }

end Window

/-- What can happen to the window. -/
inductive WindowAction where
  | connect (description : String)
  | packet (packet : Packet) (outcome : Option Failure)
  /-- Reading the next packet throws. -/
  | fail (failure : Failure)
  | keyDown (e : KeyEventArgs) (outcome : Option Failure)
  /-- The user edits the text. -/
  | edit (text : List Word)
  | focus (focused : Bool)
  | pump

def WindowAction.apply (setup : Setup) (action : WindowAction) (window : Window) : Window :=
  match action with
  | .connect description => window.connect description
  | .packet received outcome => window.serve setup received outcome
  | .fail failure =>
    match window.stream with
    | none => window
    | some connection => window.disconnect setup.transport connection failure
  | .keyDown e outcome => (window.onKeyDown setup e outcome).2
  | .edit text => { window with input := text }
  | .focus focused => { window with focused := focused }
  | .pump => window.pump

end ImeBridge
