import ImeBridge.Resident.Foreground

/-! # The session machine

What the resident program is for, without bytes, queue or ports: a client that
asks the host for input, stages what it is sent and answers.  Sends succeed or
fail and the BIOS queue takes words at any time; a step is one thing the program
can do to its session.  `Resident.Refinement` shows that the worker does nothing else.
-/

namespace ImeBridge.Session

section Operations

variable (session : Session)

/-- `reset_link`. -/
def reset : Session :=
  { session with
    serialOpened := false
    linkState := .closed
    imeActive := false
    waitTicks := 0#16
    history := session.history ++ [.linkReset] }

/-- `send_open_ime`, of which `written` bytes went out. -/
def asked (written : Nat) (succeeded : Bool) : Session :=
  let next := session.sequence + 1#16
  let session : Session := { session with sequence := next, openSequence := next }.note
    (.sent ⟨imeOpenIme, next, []⟩ written succeeded)
  if succeeded then { session with imeActive := true, openPending := false, waitTicks := 0#16 }
  else { session.reset with openPending := true }

/-- What closing the IME tells the host. -/
def farewell (written : Nat) (succeeded : Bool) : List Event :=
  match session.linkState with
  | .closed => []
  | .helloWait => [.linkReset]
  | .ready => [.sent ⟨imeCloseIme, session.openSequence, []⟩ written succeeded, .linkReset]

/-- `close_ime`. -/
def closed (written : Nat) (succeeded : Bool) : Session :=
  { session with
    serialOpened := session.linkState = .closed && session.serialOpened
    linkState := .closed
    imeEnabled := false
    openPending := false
    imeActive := false
    pendingLength := 0
    pendingOffset := 0
    pendingKeyActive := false
    waitTicks := 0#16
    history := session.history ++ session.farewell written succeeded }

/-- `start_link`. -/
def greeting (written : Nat) (succeeded : Bool) : Session :=
  let next := session.sequence + 1#16
  let session : Session := { session with serialOpened := true, sequence := next }.note
    (.sent ⟨imeHello, next, hello⟩ written succeeded)
  if succeeded then { session with linkState := .helloWait, waitTicks := 0#16 } else session.reset

/-- The end of `inject_pending_text`. -/
def answeredText (written : Nat) (succeeded : Bool) : Session :=
  { session with
    pendingLength := 0
    pendingOffset := 0
    imeActive := false
    openPending := session.imeEnabled
    history := session.history ++
      [.sent ⟨imeTextAck, session.pendingSequence, []⟩ written succeeded] }

/-- `inject_pending_key` with room in the queue. -/
def answeredKey (written : Nat) (succeeded : Bool) : Session :=
  { session with
    pendingKeyActive := false
    imeActive := false
    openPending := session.imeEnabled
    history := session.history ++ [.queuedKey session.pendingKey,
      .sent ⟨imeKeyAck, session.pendingSequence, []⟩ written succeeded] }

/-- The response timeout. -/
def timedOut : Session := { session.reset with imeEnabled := false, openPending := false }

/-- The packet is one that `handle_packet` acts on. -/
def Accepts (packet : Packet) : Prop :=
  (packet.type = imePong ∧ session.linkState = .helloWait) ∨
    session.expects packet = true ∧
      ((packet.type = imeText ∧ packet.payload.length ≤ 512) ∨
        (packet.type = imeKey ∧ packet.payload.length = 1 ∧
          keyCodeWord (packet.payload.getD 0 0) ≠ none) ∨
        (packet.type = imeCloseIme ∧ packet.payload.length = 0))

end Operations

/-- What a received packet can do. -/
inductive Handled (packet : Packet) : Session → Session → Prop where
  /-- The answer to HELLO: the link is up. -/
  | greeted {session : Session} (isPong : packet.type = imePong) (link : session.linkState = .helloWait)
      (noRequest : session.openPending = false) :
      Handled packet session { session with linkState := .ready, waitTicks := 0#16 }
  /-- The answer to HELLO, with an OPEN_IME held back for it. -/
  | greetedAsking {session : Session} (written : Nat) (succeeded : Bool) (isPong : packet.type = imePong)
      (link : session.linkState = .helloWait) (request : session.openPending = true) :
      Handled packet session
        ({ session with linkState := .ready, waitTicks := 0#16 }.asked written succeeded)
  | text {session : Session} (isText : packet.type = imeText) (expected : session.expects packet = true)
      (fits : packet.payload.length ≤ 512) :
      Handled packet session ({ session with
        pendingText := packet.payload
        pendingLength := packet.payload.length
        pendingOffset := 0
        pendingSequence := packet.sequence
        waitTicks := 0#16 }.note (.acceptedText packet.sequence packet.payload))
  | key {session : Session} (key : Word) (isKey : packet.type = imeKey)
      (expected : session.expects packet = true) (code : packet.payload.length = 1)
      (known : keyCodeWord (packet.payload.getD 0 0) = some key) :
      Handled packet session ({ session with
        pendingKey := key
        pendingKeyActive := true
        pendingSequence := packet.sequence
        waitTicks := 0#16 }.note
          (.acceptedKey packet.sequence key (session.pendingLength ≠ 0)))
  | close {session : Session} (written : Nat) (succeeded : Bool) (isClose : packet.type = imeCloseIme)
      (expected : session.expects packet = true) (bare : packet.payload.length = 0) :
      Handled packet session
        ((session.note (.acceptedClose packet.sequence)).closed written succeeded)
  | ignored {session : Session} (unwanted : ¬ session.Accepts packet) : Handled packet session session

/-- What the program can do on its own, the response timeout apart. -/
inductive Step : Session → Session → Prop where
  | turnedOn {session : Session} (off : session.imeEnabled = false) :
      Step session
        ({ session with imeEnabled := true, openPending := true }.note (.toggled true))
  | turnedOff {session : Session} (written : Nat) (succeeded : Bool) (on : session.imeEnabled = true) :
      Step session ((session.note (.toggled false)).closed written succeeded)
  | shutDown {session : Session} (written : Nat) (succeeded : Bool) :
      Step session (session.closed written succeeded)
  | queuedText {session : Session} (key : Word) (input : Nat)
      (remaining : session.pendingOffset < session.pendingLength)
      (encoded : pc98BiosEncodeKey session.pendingText session.pendingLength
        session.pendingOffset = (key, input)) :
      Step session ({ session with pendingOffset := input + 1 }.note (.queuedText key))
  | answeredText {session : Session} (written : Nat) (succeeded : Bool) (staged : session.pendingLength ≠ 0)
      (finished : session.pendingOffset ≥ session.pendingLength) :
      Step session (session.answeredText written succeeded)
  | answeredKey {session : Session} (written : Nat) (succeeded : Bool)
      (staged : session.pendingKeyActive = true) :
      Step session (session.answeredKey written succeeded)
  | asked {session : Session} (written : Nat) (succeeded : Bool) (request : session.openPending = true)
      (idle : session.imeActive = false) (link : session.linkState = .ready) :
      Step session (session.asked written succeeded)
  | greeting {session : Session} (written : Nat) (succeeded : Bool) (request : session.openPending = true)
      (idle : session.imeActive = false) (link : session.linkState = .closed) :
      Step session (session.greeting written succeeded)
  | ticked {session : Session} (waiting : session.waiting = true) (early : session.timesOut = false) :
      Step session { session with waitTicks := session.waitTicks + 1#16 }

/-- A step of the program or the arrival of a packet. -/
inductive Move : Session → Session → Prop where
  | own {session next : Session} (step : Step session next) : Move session next
  | packet {session next : Session} (packet : Packet) (fits : packet.payload.length ≤ imeMaxPayload)
      (handled : Handled packet session next) : Move session next

/-! ## The history only grows -/

section Growth

variable (session : Session) (written : Nat) (succeeded : Bool)

theorem asked_history : (session.asked written succeeded).history = session.history ++
    (.sent ⟨imeOpenIme, session.sequence + 1#16, []⟩ written succeeded ::
      if succeeded then [] else [.linkReset]) := by
  cases succeeded <;> simp [Session.asked, Session.note, Session.reset]

theorem greeting_history : (session.greeting written succeeded).history = session.history ++
    (.sent ⟨imeHello, session.sequence + 1#16, hello⟩ written succeeded ::
      if succeeded then [] else [.linkReset]) := by
  cases succeeded <;> simp [Session.greeting, Session.note, Session.reset]

theorem answeredKey_history : (session.answeredKey written succeeded).history =
    (session.history ++ [.queuedKey session.pendingKey]) ++
      [.sent ⟨imeKeyAck, session.pendingSequence, []⟩ written succeeded] := by
  simp [Session.answeredKey]

theorem asked_grows : session.history <+: (session.asked written succeeded).history := by
  rw [asked_history]
  exact List.prefix_append _ _

theorem greeting_grows : session.history <+: (session.greeting written succeeded).history := by
  rw [greeting_history]
  exact List.prefix_append _ _

theorem timedOut_grows : session.history <+: session.timedOut.history := List.prefix_append _ _

variable {session} {next : Session}

theorem Handled.grows {packet : Packet} (does : Handled packet session next) :
    session.history <+: next.history := by
  cases does with
  | greeted | ignored => exact List.prefix_rfl
  | greetedAsking written succeeded =>
    exact asked_grows { session with linkState := .ready, waitTicks := 0#16 } written succeeded
  | text | key => exact List.prefix_append _ _
  | close => exact (List.prefix_append _ _).trans (List.prefix_append _ _)

theorem Step.grows (does : Step session next) : session.history <+: next.history := by
  cases does with
  | turnedOn | shutDown | queuedText | answeredText | answeredKey => exact List.prefix_append _ _
  | turnedOff => exact (List.prefix_append _ _).trans (List.prefix_append _ _)
  | asked written succeeded => exact asked_grows session written succeeded
  | greeting written succeeded => exact greeting_grows session written succeeded
  | ticked => exact List.prefix_rfl

theorem Move.grows (does : Move session next) : session.history <+: next.history := by
  cases does with
  | own does => exact does.grows
  | packet packet fits does => exact does.grows

end Growth

end ImeBridge.Session
