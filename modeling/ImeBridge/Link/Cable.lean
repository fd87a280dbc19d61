import ImeBridge.Host.ReadPacket
import ImeBridge.Link.Bytes
import ImeBridge.Resident.Reception

/-! # The host and the resident client on a cable

`Cable` runs the client with its UART, receive ring and framer against the host with the
reader of its stream.  Bytes come one at a time and whenever they like; while nobody reads them
they may be lost.
-/

namespace ImeBridge

open Library

structure Cable where
  client : Tsr
  host : Host := {}
  /-- How many bytes of the client the host has read. -/
  consumed : Nat := 0
  /-- Bytes of the host that have not come to the UART. -/
  wire : List Byte := []
  /-- `ServeAsync` has not ended. -/
  serving : Bool := true
  /-- The packets the host wrote; no variable of either program. -/
  written : List Packet := []

/-- The machine changes as it likes, but the bytes in the UART are those that came. -/
def Action.onCable (tsr : Tsr) : Action → Action
  | .environment hardware => .environment { hardware with received := tsr.received }
  | action => action

namespace Cable

inductive Action where
  | client (action : ImeBridge.Action)
  /-- The next byte comes to the UART. -/
  | arrives
  /-- Link down, the oldest byte is lost. -/
  | lost
  /-- A turn of `ServeAsync`. -/
  | serve
  | user (action : UserAction)

/-- What the client put on the cable and the host has not read. -/
def toHost (cable : Cable) : List Byte := (cable.client.history.flatMap Event.bytes).drop cable.consumed

/-- What is to come to the client. -/
def toClient (cable : Cable) : List Byte := cable.client.received ++ cable.wire

/-- `SendAsync` behind its `Encode`. -/
def puts (packet : Packet) (bytes : List Byte) (cable : Cable) : Cable :=
  { cable with wire := cable.wire ++ bytes, written := cable.written ++ [packet] }

/-- The `finally` of `ServeAsync`. -/
def ends (cable : Cable) : Cable := { cable with host := {}, serving := false }

def serve (bridge : Bridge) (cable : Cable) : Cable :=
  match BridgeForm.readPacketAsync cable.toHost with
  | .ok (packet, rest) =>
    let (answer, host) := serveAsync bridge packet cable.host
    let cable := { cable with host := host, consumed := cable.consumed + (cable.toHost.length - rest.length) }
    match answer with
    | none => cable
    | some packet =>
      match CSharp.encode packet with
      | .ok bytes => cable.puts packet bytes
      | .error _ => cable.ends
  -- The reader waits for more.
  | .error .endOfStream => cable
  | .error (.invalidData _) => cable.ends

/-- `SendText`, `SendKey` or `SendCloseIme`. -/
def perform (bridge : Bridge) (action : UserAction) (cable : Cable) : Cable :=
  let (packet, host) := action.perform bridge cable.host
  match packet with
  | none => { cable with host := host }
  | some packet =>
    match CSharp.encode packet with
    | .ok bytes => { cable with host := host }.puts packet bytes
    -- The `catch` of the handler.
    | .error _ => { cable with host := { host with imeReady := true } }

def apply (bridge : Bridge) (action : Action) (cable : Cable) : Cable :=
  match action with
  | .client action => { cable with client := (action.onCable cable.client).apply cable.client }
  | .arrives =>
    match cable.wire with
    | [] => cable
    | value :: wire =>
      { cable with client := { cable.client with received := cable.client.received ++ [value] }, wire := wire }
  | .lost =>
    if cable.client.linkState = .closed then
      match cable.client.received with
      | [] => { cable with wire := cable.wire.tail }
      | _ :: received => { cable with client := { cable.client with received := received } }
    else cable
  | .serve => if cable.serving then cable.serve bridge else cable
  | .user action => if cable.serving then cable.perform bridge action else cable

/-- A fresh connection to a freshly installed client. -/
def start (modifierMask : Byte) (hardware : Hardware) : Cable :=
  { client := cleared modifierMask { hardware with received := [] } }

/-- What is left in front when the whole packets behind it, newest first, are taken away: the rest
of a packet that has begun to come. -/
def overhang : List Packet → List Byte → List Byte
  | [], coming => coming
  | packet :: older, coming =>
    let whole := 10 + packet.payload.length
    if whole ≤ coming.length then overhang older (coming.take (coming.length - whole)) else coming

/-- The host is not given the beginning of a packet without the rest; and where a session begins, the rest of a
packet that is still to come does not look like the beginning of another one. -/
def Fair (cable : Cable) : Action → Prop
  | .serve => cable.client.SendsWhole
  | .client action => cable.client.linkState = .closed → action.begins cable.client = true →
    ¬ [imeMagic0, imeMagic1] <:+: overhang cable.written.reverse cable.toClient
  | _ => True

instance (cable : Cable) (action : Action) : Decidable (cable.Fair action) := by
  cases action <;> unfold Fair <;> infer_instance

end Cable

end ImeBridge
