import ImeBridge.Host.Bridge
import ImeBridge.Resident.Accounts

/-! # The line between the host and the resident client

The host, the two channels and what an observer of the line notes down.  The
channel to the host holds what the client got out and the host has not taken yet,
so it is read off the client's history.
-/

namespace ImeBridge

/-- A message, with the number of OPEN_IMEs on its sender's side: for the client how
often it tried to send one, for the host which of these it last received. -/
structure Mail where
  packet : Packet
  opening : Nat
  deriving DecidableEq, Repr

/-- A message of the host, numbered. -/
structure Letter extends Mail where
  number : Nat
  deriving DecidableEq, Repr

/-- The client took a TEXT, KEY or CLOSE_IME. -/
structure Taking where
  /-- The OPEN_IME the host had last received when it wrote the message. -/
  opening : Nat
  /-- The client's own last OPEN_IME when it took it, and its `open_sequence`. -/
  current : Nat
  number : Word
  deriving DecidableEq, Repr

def Event.opens : Event → Nat
  | .sent packet _ _ => if packet.type = imeOpenIme then 1 else 0
  | _ => 0

/-- How often the client tried to send OPEN_IME. -/
def openings (history : List Event) : Nat := (history.map Event.opens).sum

/-- The packet that an event puts on the line.  One that is cut off is none; for its bytes see
`Event.bytes`. -/
def Event.mail (opening : Nat) : Event → List Mail
  | .sent packet _ true => [⟨packet, opening⟩]
  | _ => []

/-- What a row of events puts on the line, after `opening` attempts at OPEN_IME. -/
def mailing (opening : Nat) : List Event → List Mail
  | [] => []
  | event :: events =>
    event.mail (opening + event.opens) ++ mailing (opening + event.opens) events

/-- The packets the client got out whole, oldest first. -/
def posted (history : List Event) : List Mail := mailing 0 history

/-- The host's side of the line. -/
structure Line where
  host : Host := {}
  /-- How many of the posted packets have left the channel to the host. -/
  arrived : Nat := 0
  toClient : List Letter := []
  /-- The OPEN_IME the host last received, counted as the client counts them. -/
  heard : Nat := 0
  /-- How many packets the host wrote. -/
  written : Nat := 0
  /-- The last TEXT the host wrote, until it processes a TEXT_ACK. -/
  textOut : Option Nat := none
  /-- The last KEY the host wrote, until it processes a KEY_ACK. -/
  keyOut : Option Nat := none
  /-- The TEXTs the client accepted, newest first as in its account. -/
  texts : List Nat := []
  keys : List Nat := []
  taken : List Taking := []
  /-- For each ACK processed with an input outstanding: had all its words been enqueued? -/
  verdicts : List Bool := []

/-- The input with this number was accepted and is wholly enqueued. -/
def Enqueued (number : Nat) (numbers : List Nat) (jobs : List InputJob) : Prop :=
  ∃ entry ∈ numbers.zip jobs, entry.1 = number ∧ entry.2.Whole

instance (number : Nat) (numbers : List Nat) (jobs : List InputJob) :
    Decidable (Enqueued number numbers jobs) := by
  unfold Enqueued; infer_instance

namespace Line

def toHost (history : List Event) (line : Line) : List Mail := (posted history).drop line.arrived

/-- The host writes a packet, if it has one to write. -/
def write (packet : Option Packet) (line : Line) : Line :=
  match packet with
  | none => line
  | some packet =>
    { line with
      toClient := line.toClient ++ [⟨⟨packet, line.heard⟩, line.written⟩]
      written := line.written + 1
      textOut := if packet.type = imeText then some line.written else line.textOut
      keyOut := if packet.type = imeKey then some line.written else line.keyOut }

/-- What the host makes of an ACK, against the client's accounts. -/
def judge (accounts : Accounts) (packet : Packet) (line : Line) : Line :=
  if packet.type = imeTextAck then
    match line.textOut with
    -- Nothing of this kind outstanding: the ACK stands for nothing.
    | none => line
    | some number =>
      { line with
        textOut := none
        verdicts := line.verdicts ++ [decide (Enqueued number line.texts accounts.texts)] }
  else if packet.type = imeKeyAck then
    match line.keyOut with
    | none => line
    | some number =>
      { line with
        keyOut := none
        verdicts := line.verdicts ++ [decide (Enqueued number line.keys accounts.keys)] }
  else line

/-- The host receives the oldest packet on its way, if there is one. -/
def serve (bridge : Bridge) (history : List Event) (line : Line) : Line :=
  match line.toHost history with
  | [] => line
  | mail :: _ =>
    let (answer, host) := serveAsync bridge mail.packet line.host
    -- The ACK is judged by what the client has enqueued at this moment.
    { line.judge (accounts history) mail.packet with
      host := host
      arrived := line.arrived + 1
      heard := if mail.packet.type = imeOpenIme then mail.opening else line.heard }.write answer

def perform (bridge : Bridge) (action : UserAction) (line : Line) : Line :=
  let (packet, host) := action.perform bridge line.host
  { line with host := host }.write packet

/-- What the client's handling of a letter adds to the notes. -/
def note (letter : Letter) (session : Session) (line : Line) : Event → Line
  | .acceptedText _ _ =>
    { line with
      texts := letter.number :: line.texts
      taken := line.taken ++ [⟨letter.opening, openings session.history, session.openSequence⟩] }
  | .acceptedKey _ _ _ =>
    { line with
      keys := letter.number :: line.keys
      taken := line.taken ++ [⟨letter.opening, openings session.history, session.openSequence⟩] }
  | .acceptedClose _ =>
    { line with
      taken := line.taken ++ [⟨letter.opening, openings session.history, session.openSequence⟩] }
  | _ => line

/-- The client took the letter at the head of its channel, which led from a session to
a history. -/
def deliver (letter : Letter) (rest : List Letter) (session : Session) (after : List Event)
    (line : Line) : Line :=
  (after.drop session.history.length).foldl (note letter session) { line with toClient := rest }

end Line

/-- What happens outside the client on a line that loses nothing. -/
inductive HostAction where
  /-- A turn of `ServeAsync`. -/
  | serve
  | user (action : UserAction)

def HostAction.perform (bridge : Bridge) (action : HostAction) (history : List Event) (line : Line) :
    Line :=
  match action with
  | .serve => line.serve bridge history
  | .user action => line.perform bridge action

/-- What happens outside the client on a line that loses messages: a lost one leaves
its channel without reaching the other end. -/
inductive LossyAction where
  | host (action : HostAction)
  | loseToHost
  | loseToClient

def LossyAction.perform (bridge : Bridge) (action : LossyAction) (history : List Event)
    (line : Line) : Line :=
  match action with
  | .host action => action.perform bridge history line
  | .loseToHost => { line with arrived := min (line.arrived + 1) (posted history).length }
  | .loseToClient => { line with toClient := line.toClient.tail }

/-! ## How the channel to the host grows -/

theorem openings_append (history events : List Event) :
    openings (history ++ events) = openings history + openings events := by
  simp [openings]

theorem openings_note (session : Session) {event : Event} (isOther : event.opens = 0) :
    openings (session.note event).history = openings session.history := by
  simp [Session.note, openings, isOther]

theorem mailing_append (opening : Nat) (history events : List Event) :
    mailing opening (history ++ events) =
      mailing opening history ++ mailing (opening + openings history) events := by
  induction history generalizing opening with
  | nil => simp [mailing, openings]
  | cons event history inductionHypothesis =>
    simp only [List.cons_append, mailing, inductionHypothesis, List.append_assoc]
    simp [openings, Nat.add_assoc]

theorem posted_append (history events : List Event) :
    posted (history ++ events) = posted history ++ mailing (openings history) events := by
  simp [posted, mailing_append]

namespace Line

/-- The host took no more than was posted. -/
def Kept (history : List Event) (line : Line) : Prop := line.arrived ≤ (posted history).length

variable {line : Line} {history : List Event}

theorem toHost_append (kept : line.Kept history) (events : List Event) :
    line.toHost (history ++ events) = line.toHost history ++ mailing (openings history) events := by
  rw [toHost, posted_append, List.drop_append_of_le_length kept]
  rfl

theorem Kept.append (kept : line.Kept history) (events : List Event) :
    line.Kept (history ++ events) := by
  rw [Kept, posted_append, List.length_append]
  exact Nat.le_add_right_of_le kept

end Line

end ImeBridge
