import ImeBridge.Library.History
import ImeBridge.Resident.Consistency

/-! # COM1, read off the history

`start_link` sends HELLO on a port it has just opened, and the end of a link closes
the port, so the events tell whether it is open.  A send that fails is a transmit
timeout only with the port open: with the port closed `pc98_serial_write` returns at
once.
-/

namespace ImeBridge

open Library Session

/-- What an event leaves of a port. -/
def Event.port (opened : Bool) : Event → Bool
  | .sent packet _ _ => opened || packet.type = imeHello
  | .linkReset => false
  | _ => opened

/-- COM1 is open behind these events. -/
def portOpen (history : List Event) : Bool := history.foldl Event.port false

theorem portOpen_concat (history : List Event) (event : Event) :
    portOpen (history ++ [event]) = event.port (portOpen history) := by
  simp [portOpen]

/-- No transmit timed out: each `send_packet` that failed found the port closed. -/
def Transmitted (history : List Event) : Prop :=
  History.Everywhere (fun before event => event.failed = true → portOpen (before ++ [event]) = false)
    history

instance (history : List Event) : Decidable (Transmitted history) := by
  unfold Transmitted; infer_instance

theorem Transmitted.earlier {history longer : List Event} (transmitted : Transmitted longer)
    (grows : history <+: longer) : Transmitted history :=
  History.Everywhere.earlier transmitted grows

/-- On an open port a send succeeds. -/
theorem Transmitted.succeeded {history longer : List Event} {packet : Packet} {written : Nat}
    {succeeded : Bool} (transmitted : Transmitted longer) (opened : portOpen history = true)
    (sends : history ++ [.sent packet written succeeded] <+: longer) : succeeded = true := by
  have last := (History.everywhere_concat.mp (transmitted.earlier sends)).2
  cases succeeded with
  | true => rfl
  | false =>
    have closed := last rfl
    simp [portOpen_concat, Event.port, opened] at closed

/-- The history tells whether COM1 is open. -/
def Session.PortNoted (session : Session) : Prop := session.serialOpened = portOpen session.history

namespace Session.PortNoted

variable {session next : Session}

/-- An event that is neither a send nor the end of a link. -/
theorem note (noted : session.PortNoted) {event : Event} (aside : ∀ opened, event.port opened = opened) :
    (session.note event).PortNoted := by
  rw [PortNoted, Session.note, portOpen_concat, aside]
  exact noted

theorem reset (session : Session) : session.reset.PortNoted := by
  rw [PortNoted, Session.reset, portOpen_concat]
  rfl

theorem closed (noted : session.PortNoted) (written : Nat) (succeeded : Bool) :
    (session.closed written succeeded).PortNoted := by
  rw [PortNoted] at noted ⊢
  cases link : session.linkState with
  | closed => simpa [Session.closed, Session.farewell, link] using noted
  | helloWait => simp [Session.closed, Session.farewell, link, portOpen, Event.port]
  | ready => simp [Session.closed, Session.farewell, link, portOpen, Event.port]

theorem asked (noted : session.PortNoted) (written : Nat) (succeeded : Bool) :
    (session.asked written succeeded).PortNoted := by
  cases succeeded with
  | true =>
    have sent : (session.asked written true).history =
        session.history ++ [.sent ⟨imeOpenIme, session.sequence + 1#16, []⟩ written true] := by
      simp [Session.asked_history]
    have other : ¬ imeOpenIme = imeHello := by decide
    have same : (session.asked written true).serialOpened = session.serialOpened := rfl
    rw [PortNoted, sent, portOpen_concat, same, noted]
    simp [Event.port, other]
  | false => exact reset _

theorem greeting (session : Session) (written : Nat) (succeeded : Bool) :
    (session.greeting written succeeded).PortNoted := by
  cases succeeded with
  | true =>
    have sent : (session.greeting written true).history =
        session.history ++ [.sent ⟨imeHello, session.sequence + 1#16, hello⟩ written true] := by
      simp [Session.greeting_history]
    rw [PortNoted, sent, portOpen_concat]
    simp [Session.greeting, Session.note, Event.port]
  | false => exact reset _

/-- An answer to staged input goes out on the port as it is. -/
theorem answered {answer : Byte} (noted : session.PortNoted) (isAnswer : answer ≠ imeHello)
    (written : Nat) (succeeded : Bool) :
    (session.note (.sent ⟨answer, session.pendingSequence, []⟩ written succeeded)).PortNoted :=
  noted.note fun opened => by simp [Event.port, isAnswer]

theorem handled {packet : Packet} (does : Handled packet session next) (noted : session.PortNoted) :
    next.PortNoted := by
  cases does with
  | greeted | ignored => exact noted
  | greetedAsking written succeeded =>
    have up : { session with linkState := .ready, waitTicks := 0#16 }.PortNoted := noted
    exact up.asked written succeeded
  | text => exact noted.note fun _ => rfl
  | key => exact noted.note fun _ => rfl
  | close written succeeded =>
    have accepted : (session.note (.acceptedClose packet.sequence)).PortNoted := noted.note fun _ => rfl
    exact accepted.closed written succeeded

theorem step (does : Step session next) (noted : session.PortNoted) : next.PortNoted := by
  cases does with
  | turnedOn off => exact noted.note fun _ => rfl
  | turnedOff written succeeded =>
    have toggled : (session.note (.toggled false)).PortNoted := noted.note fun _ => rfl
    exact toggled.closed written succeeded
  | shutDown written succeeded => exact noted.closed written succeeded
  | queuedText => exact noted.note fun _ => rfl
  | answeredText written succeeded => exact noted.answered (by decide) written succeeded
  | answeredKey written succeeded =>
    have queued : (session.note (.queuedKey session.pendingKey)).PortNoted := noted.note fun _ => rfl
    have answered := queued.answered (show imeKeyAck ≠ imeHello by decide) written succeeded
    rw [PortNoted, answeredKey_history]
    exact answered
  | asked written succeeded => exact noted.asked written succeeded
  | greeting written succeeded => exact greeting session written succeeded
  | ticked => exact noted

theorem timedOut (session : Session) : session.timedOut.PortNoted := reset session

end Session.PortNoted

end ImeBridge
