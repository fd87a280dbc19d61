import Mathlib.Logic.Relation
import ImeBridge.Keyboard.Encoding
import ImeBridge.Resident.Session

/-! # The worker refines the session machine

One lemma per function of the worker: what it does to the session is a step of
the machine, or a row of them.  Nothing after this module unfolds a function of
the worker for its effect on the session.
-/

namespace ImeBridge

open Relation Session

namespace Session

abbrev Steps : Session → Session → Prop := ReflTransGen Step

abbrev Moves : Session → Session → Prop := ReflTransGen Move

theorem Steps.moves {session next : Session} (steps : Steps session next) : Moves session next :=
  ReflTransGen.mono (fun _ _ => Move.own) _ _ steps

end Session

variable (tsr : Tsr)

/-! ## Transmissions -/

theorem sendPacket_eq (type : Byte) (sequence : Word) (payload : List Byte)
    (fits : payload.length ≤ imeMaxPayload) : ∃ written succeeded limits,
    sendPacket type sequence payload tsr = (succeeded,
      { tsr with transmitLimits := limits }.note
        (.sent ⟨type, sequence, payload⟩ written succeeded)) := by
  -- A payload that fits is built, so the early return of `send_packet` is not taken.
  have nonempty : imePacketBuild type sequence payload ≠ [] := by
    intro empty
    have length := length_imePacketBuild type sequence fits
    rw [empty] at length
    simp only [List.length_nil] at length
    omega
  obtain ⟨session, intake, memory, picMask, received, limits⟩ := tsr
  simp only [sendPacket, if_neg nonempty, pc98SerialWrite]
  cases session.serialOpened with
  | false => exact ⟨_, _, limits, rfl⟩
  | true =>
    cases limits with
    | nil => exact ⟨_, _, [], rfl⟩
    | cons limit limits => exact ⟨_, _, limits, rfl⟩

theorem resetLink_session : (resetLink tsr).toSession = tsr.toSession.reset := by
  cases saved : tsr.picMaskSaved <;>
    simp [resetLink, pc98TsrSerialCaptureEnd, pc98SerialClose, Tsr.note, Session.reset, saved]

theorem sendOpenIme_session : ∃ written succeeded,
    (sendOpenIme tsr).toSession = tsr.toSession.asked written succeeded := by
  obtain ⟨written, succeeded, limits, sends⟩ := sendPacket_eq
    { tsr with sequence := tsr.sequence + 1#16, openSequence := tsr.sequence + 1#16 }
    imeOpenIme (tsr.sequence + 1#16) [] (by simp)
  refine ⟨written, succeeded, ?_⟩
  simp only [sendOpenIme, sends]
  cases succeeded with
  | true => rfl
  | false => simp [resetLink_session, Session.asked, Tsr.note, Session.note]

theorem closeIme_session : ∃ written succeeded,
    (closeIme tsr).toSession = tsr.toSession.closed written succeeded := by
  obtain ⟨written, succeeded, limits, sends⟩ := sendPacket_eq tsr imeCloseIme tsr.openSequence
    [] (by simp)
  refine ⟨written, succeeded, ?_⟩
  cases link : tsr.linkState with
  | closed => simp [closeIme, link, Session.closed, Session.farewell]
  | helloWait => simp [closeIme, link, resetLink_session, Session.closed, Session.farewell,
      Session.reset]
  | ready => simp [closeIme, link, sends, resetLink_session, Session.closed, Session.farewell,
      Session.reset, Tsr.note]

/-- The HELLO of `start_link` goes out of the port that it has just opened. -/
theorem startLink_greeting {written : Nat} {succeeded : Bool} {limits : List Nat}
    (sends : sendPacket imeHello (tsr.sequence + 1#16) hello
        { pc98TsrSerialCaptureBegin (pc98SerialOpen tsr) with sequence := tsr.sequence + 1#16 } =
      (succeeded, { { pc98TsrSerialCaptureBegin (pc98SerialOpen tsr) with
          sequence := tsr.sequence + 1#16 } with transmitLimits := limits }.note
        (.sent ⟨imeHello, tsr.sequence + 1#16, hello⟩ written succeeded))) :
    (startLink tsr).toSession = tsr.toSession.greeting written succeeded := by
  simp only [startLink]
  rw [show (pc98TsrSerialCaptureBegin (pc98SerialOpen tsr)).sequence = tsr.sequence from rfl, sends]
  cases succeeded with
  | true => rfl
  | false => simp [resetLink_session, Session.greeting, Tsr.note, Session.note,
      pc98TsrSerialCaptureBegin, pc98SerialOpen]

theorem startLink_session : ∃ written succeeded,
    (startLink tsr).toSession = tsr.toSession.greeting written succeeded := by
  obtain ⟨written, succeeded, limits, sends⟩ := sendPacket_eq
    { pc98TsrSerialCaptureBegin (pc98SerialOpen tsr) with sequence := tsr.sequence + 1#16 }
    imeHello (tsr.sequence + 1#16) hello (by decide)
  exact ⟨written, succeeded, startLink_greeting tsr sends⟩

/-! ## Received packets -/

theorem handleParsed_session (packet : Packet) :
    Handled packet tsr.toSession (handleParsed packet tsr).toSession := by
  dsimp only [handleParsed]
  split_ifs with pong request text key close
  · obtain ⟨written, succeeded, asks⟩ := sendOpenIme_session
      { tsr with linkState := .ready, waitTicks := 0#16 }
    rw [asks]
    exact .greetedAsking written succeeded pong.1 pong.2 request
  · exact .greeted pong.1 pong.2 (by simpa using request)
  · exact .text text.1 text.2.1 text.2.2
  · split
    · -- `default: return;` leaves the client as it was.
      rename_i unknown
      refine .ignored ?_
      simp_all [Session.Accepts]
    · rename_i word known
      exact .key word key.1 key.2.1 key.2.2 known
  · obtain ⟨written, succeeded, closes⟩ := closeIme_session (tsr.note (.acceptedClose packet.sequence))
    rw [closes]
    exact .close written succeeded close.1 close.2.1 close.2.2
  · refine .ignored ?_
    simp only [Session.Accepts]
    tauto

/-- The framer only ever changes the session through a packet it accepts. -/
theorem acceptByte_cases (value : Byte) : (acceptByte value tsr).toSession = tsr.toSession ∨
    ∃ packet, packet.payload.length ≤ imeMaxPayload ∧
      Handled packet tsr.toSession (acceptByte value tsr).toSession := by
  -- Only the branch with a whole packet matters; all else is in the framer's variables.
  have handled : ∀ rest : Tsr, rest.toSession = tsr.toSession →
      (handlePacket rest).toSession = tsr.toSession ∨
        ∃ packet, packet.payload.length ≤ imeMaxPayload ∧
          Handled packet tsr.toSession (handlePacket rest).toSession := by
    intro rest same
    rw [← same]
    cases parsed : imePacketParse rest.rxPacket with
    | none => simp only [handlePacket, parsed, true_or]
    | some packet =>
      simp only [handlePacket, parsed]
      exact .inr ⟨packet, length_payload_of_parse parsed, handleParsed_session rest packet⟩
  dsimp only [acceptByte]
  split_ifs
  any_goals exact .inl rfl
  all_goals exact handled _ rfl

theorem acceptByte_session (value : Byte) :
    ReflGen Move tsr.toSession (acceptByte value tsr).toSession := by
  obtain same | ⟨packet, fits, handled⟩ := acceptByte_cases tsr value
  · rw [same]
  · exact .single (.packet packet fits handled)

/-- A byte comes out of the receive ring, or out of an open port with the ring empty. -/
theorem pollByte_cases :
    (tsr.irqReadPos ≠ tsr.irqWritePos ∧ pollByte tsr = (some (tsr.irqBuffer tsr.irqReadPos),
        { tsr with irqReadPos := (tsr.irqReadPos + 1#8) &&& 0x7f#8 })) ∨
      (tsr.irqReadPos = tsr.irqWritePos ∧ (pollByte tsr = (none, tsr) ∨
        ∃ value received, tsr.received = value :: received ∧
          pollByte tsr = (some value, { tsr with received := received }))) := by
  by_cases empty : tsr.irqReadPos = tsr.irqWritePos
  · refine .inr ⟨empty, ?_⟩
    cases opened : tsr.serialOpened with
    | false => simp [pollByte, pc98TsrSerialTryReadByte, pc98SerialTryReadByte, empty, opened]
    | true =>
      cases received : tsr.received with
      | nil => simp [pollByte, pc98TsrSerialTryReadByte, pc98SerialTryReadByte, empty, opened, received]
      | cons => simp [pollByte, pc98TsrSerialTryReadByte, pc98SerialTryReadByte, empty, opened, received]
  · exact .inl ⟨empty, by simp [pollByte, pc98TsrSerialTryReadByte, empty]⟩

theorem pollByte_session : (pollByte tsr).2.toSession = tsr.toSession := by
  obtain ⟨-, fetched⟩ | ⟨-, nothing | ⟨value, received, -, fetched⟩⟩ := pollByte_cases tsr
  · rw [fetched]
  · rw [nothing]
  · rw [fetched]

/-- Every turn of the receive loop fetches a byte and accepts it. -/
theorem pollLoop_rule {relation : Tsr → Tsr → Prop} (ends : ∀ tsr, relation tsr tsr)
    (trans : ∀ {first middle last}, relation first middle → relation middle last → relation first last)
    (polled : ∀ tsr, relation tsr (pollByte tsr).2)
    (accepted : ∀ tsr value, relation tsr (acceptByte value tsr)) (budget : Nat) :
    relation tsr (pollLoop budget tsr) := by
  induction budget generalizing tsr with
  | zero => exact ends tsr
  | succ budget inductionHypothesis =>
    have fetched := polled tsr
    simp only [pollLoop]
    rcases byte : pollByte tsr with ⟨_ | value, rest⟩
    · rwa [byte] at fetched
    · rw [byte] at fetched
      exact trans (trans fetched (accepted rest value)) (inductionHypothesis _)

theorem pollLoop_session (budget : Nat) : Moves tsr.toSession (pollLoop budget tsr).toSession := by
  refine @pollLoop_rule tsr (fun before after => Moves before.toSession after.toSession)
    (fun _ => .refl) .trans ?_ ?_ budget
  · intro rest
    rw [pollByte_session]
  · intro rest value
    exact (acceptByte_session rest value).to_reflTransGen

/-! ## Staged input -/

/-- The loop finds the queue full, or queues one word before the rest of its turns. -/
theorem injectTextLoop_rule {relation : Tsr → Tsr → Prop} (ends : ∀ tsr, relation tsr tsr)
    (refused : ∀ (tsr : Tsr) key memory, pc98BiosEnqueueWord key tsr.memory = (false, memory) →
      relation tsr { tsr with memory := memory })
    (queued : ∀ (tsr after : Tsr) key input memory, tsr.pendingOffset < tsr.pendingLength →
      pc98BiosEncodeKey tsr.pendingText tsr.pendingLength tsr.pendingOffset = (key, input) →
      pc98BiosEnqueueWord key tsr.memory = (true, memory) →
      relation { { tsr with memory := memory }.note (.queuedText key) with pendingOffset := input + 1 }
        after → relation tsr after)
    (budget : Nat) : relation tsr (injectTextLoop budget tsr).2 := by
  induction budget generalizing tsr with
  | zero => exact ends tsr
  | succ budget inductionHypothesis =>
    simp only [injectTextLoop]
    split
    · rename_i remaining
      rcases encoded : pc98BiosEncodeKey tsr.pendingText tsr.pendingLength tsr.pendingOffset
        with ⟨key, input⟩
      simp only [enqueueNoting]
      rcases enqueued : pc98BiosEnqueueWord key tsr.memory with ⟨_ | _, memory⟩
      · exact refused tsr key memory enqueued
      · exact queued tsr _ key input memory remaining encoded enqueued (inductionHypothesis _)
    · exact ends tsr

theorem injectTextLoop_session (budget : Nat) :
    Steps tsr.toSession (injectTextLoop budget tsr).2.toSession := by
  refine @injectTextLoop_rule tsr (fun before after => Steps before.toSession after.toSession)
    (fun _ => .refl) (fun _ _ _ _ => .refl) ?_ budget
  -- One word queued is one step; the turns that are left start behind it.
  intro rest after key input memory remaining encoded _ later
  exact .head (.queuedText key input remaining encoded) later

theorem injectTextLoop_pendingLength (budget : Nat) :
    (injectTextLoop budget tsr).2.pendingLength = tsr.pendingLength :=
  @injectTextLoop_rule tsr (fun before after => after.pendingLength = before.pendingLength)
    (fun _ => rfl) (fun _ _ _ _ => rfl) (fun _ _ _ _ _ _ _ _ later => later) budget

/-- Behind its loop the text is answered if all of it is queued. -/
theorem injectPendingText_cases : ∃ rest sent : Tsr, (injectTextLoop 16 tsr).2 = rest ∧
    (sendPacket imeTextAck rest.pendingSequence [] rest).2 = sent ∧
    (injectPendingText tsr = rest ∨
      ((injectTextLoop 16 tsr).1 = true ∧ rest.pendingOffset ≥ rest.pendingLength) ∧
        injectPendingText tsr = { sent with
          pendingLength := 0
          pendingOffset := 0
          imeActive := false
          openPending := sent.imeEnabled }) := by
  simp only [injectPendingText]
  rcases injectTextLoop 16 tsr with ⟨_ | _, rest⟩
  · exact ⟨rest, _, rfl, rfl, .inl rfl⟩
  · refine ⟨rest, _, rfl, rfl, ?_⟩
    dsimp only
    split
    · rename_i finished
      exact .inr ⟨⟨rfl, finished⟩, rfl⟩
    · exact .inl rfl

theorem injectPendingKey_cases : ∃ memory,
    pc98BiosEnqueueWord tsr.pendingKey tsr.memory = (false, memory) ∧
        injectPendingKey tsr = { tsr with memory := memory } ∨
      pc98BiosEnqueueWord tsr.pendingKey tsr.memory = (true, memory) ∧ ∃ rest sent : Tsr,
        { tsr with memory := memory }.note (.queuedKey tsr.pendingKey) = rest ∧
        (sendPacket imeKeyAck rest.pendingSequence [] rest).2 = sent ∧
        injectPendingKey tsr = { sent with
          pendingKeyActive := false
          imeActive := false
          openPending := sent.imeEnabled } := by
  simp only [injectPendingKey, enqueueNoting]
  rcases pc98BiosEnqueueWord tsr.pendingKey tsr.memory with ⟨_ | _, memory⟩
  · exact ⟨memory, .inl ⟨rfl, rfl⟩⟩
  · exact ⟨memory, .inr ⟨rfl, _, _, rfl, rfl, rfl⟩⟩

theorem injectPendingText_session (staged : tsr.pendingLength ≠ 0) :
    Steps tsr.toSession (injectPendingText tsr).toSession := by
  have loop := injectTextLoop_session tsr 16
  have length := injectTextLoop_pendingLength tsr 16
  obtain ⟨rest, sent, looped, sends, waits | ⟨⟨-, finished⟩, answers⟩⟩ := injectPendingText_cases tsr
  · rwa [waits, ← looped]
  · rw [looped] at loop length
    obtain ⟨written, succeeded, limits, eq⟩ := sendPacket_eq rest imeTextAck rest.pendingSequence []
      (by simp)
    rw [answers, ← sends, eq]
    -- The loop leaves `pending_length` alone: the text is still staged.
    exact loop.tail (.answeredText written succeeded (length ▸ staged) finished)

theorem injectPendingKey_session (staged : tsr.pendingKeyActive = true) :
    Steps tsr.toSession (injectPendingKey tsr).toSession := by
  obtain ⟨memory, ⟨-, refused⟩ | ⟨-, rest, sent, queued, sends, answers⟩⟩ := injectPendingKey_cases tsr
  · rw [refused]
  · obtain ⟨written, succeeded, limits, eq⟩ := sendPacket_eq rest imeKeyAck rest.pendingSequence []
      (by simp)
    rw [answers, ← sends, eq, ← queued]
    refine .single ?_
    convert Step.answeredKey written succeeded staged using 1
    simp [Session.answeredKey, Tsr.note]

/-! ## The entry points -/

theorem toggleImeHotkey_cases :
    (tsr.imeEnabled = true ∧ ∃ written succeeded, (toggleImeHotkey tsr).toSession =
        (tsr.toSession.note (.toggled false)).closed written succeeded) ∨
      (tsr.imeEnabled = false ∧ (toggleImeHotkey tsr).toSession =
        { tsr.toSession with imeEnabled := true, openPending := true }.note (.toggled true)) := by
  cases on : tsr.imeEnabled with
  | true =>
    obtain ⟨written, succeeded, closes⟩ := closeIme_session (tsr.note (.toggled false))
    exact .inl ⟨rfl, written, succeeded, by rw [toggleImeHotkey, if_pos on]; exact closes⟩
  | false => exact .inr ⟨rfl, by simp [toggleImeHotkey, on, Tsr.note, Session.note]⟩

theorem toggleImeHotkey_session : Steps tsr.toSession (toggleImeHotkey tsr).toSession := by
  obtain ⟨on, written, succeeded, closes⟩ | ⟨off, opens⟩ := toggleImeHotkey_cases tsr
  · rw [closes]
    exact .single (.turnedOff written succeeded on)
  · rw [opens]
    exact .single (.turnedOn off)

theorem pc98PollHotkey_session : (pc98PollHotkey tsr).2.toSession = tsr.toSession := by
  simp only [pc98PollHotkey]
  split_ifs <;> rfl

theorem pc98PrepareUninstall_session :
    Steps tsr.toSession (pc98PrepareUninstall tsr).toSession := by
  obtain ⟨written, succeeded, closes⟩ := closeIme_session tsr
  rw [pc98PrepareUninstall, closes]
  exact .single (.shutDown written succeeded)

theorem pc98ServiceReturnedHotkey_session :
    Steps tsr.toSession (pc98ServiceReturnedHotkey tsr).2.toSession := by
  have polled := pc98PollHotkey_session tsr
  simp only [pc98ServiceReturnedHotkey]
  rcases poll : pc98PollHotkey tsr with ⟨hotkeyState, rest⟩
  rw [poll] at polled
  rw [← polled]
  dsimp only
  split
  · exact toggleImeHotkey_session rest
  · exact .refl

theorem hotkeyStage_cases : (hotkeyStage tsr).toSession = tsr.toSession ∨
    ∃ rest : Tsr, rest.toSession = tsr.toSession ∧
      (hotkeyStage tsr).toSession = (toggleImeHotkey rest).toSession := by
  have polled := pc98PollHotkey_session tsr
  simp only [hotkeyStage]
  rcases poll : pc98PollHotkey tsr with ⟨hotkeyState, rest⟩
  rw [poll] at polled
  dsimp only
  split
  · rcases pc98BiosDiscardHotkeySpace rest.memory with ⟨_ | _, memory⟩
    · exact .inl polled
    · exact .inr ⟨{ rest with memory := memory }, polled, rfl⟩
  · exact .inl polled

theorem hotkeyStage_session : Steps tsr.toSession (hotkeyStage tsr).toSession := by
  obtain same | ⟨rest, same, toggles⟩ := hotkeyStage_cases tsr
  · rw [same]
  · rw [toggles, ← same]
    exact toggleImeHotkey_session rest

/-- With the link down nothing is read. -/
theorem receiveStage_closed (link : tsr.linkState = .closed) : receiveStage tsr = tsr := by
  simp [receiveStage, link]

/-- With nothing received and an empty receive ring there is nothing to read. -/
theorem receiveStage_silent (received : tsr.received = []) (drained : tsr.irqReadPos = tsr.irqWritePos) :
    receiveStage tsr = tsr := by
  simp [receiveStage, pollTransport, pollLoop, pollByte, pc98TsrSerialTryReadByte, pc98SerialTryReadByte,
    drained, received]

theorem receiveStage_session : Moves tsr.toSession (receiveStage tsr).toSession := by
  simp only [receiveStage]
  split
  · exact pollLoop_session tsr 32
  · exact .refl

/-- The stage does the text, if there is one, and then the key, if there is one. -/
theorem injectStage_rule {relation : Tsr → Tsr → Prop} (idle : relation tsr tsr)
    (text : tsr.pendingLength ≠ 0 → relation tsr (injectPendingText tsr))
    (key : ∀ rest, relation tsr rest → rest.pendingKeyActive = true →
      relation tsr (injectPendingKey rest)) : relation tsr (injectStage tsr) := by
  have first : relation tsr (if tsr.pendingLength ≠ 0 then injectPendingText tsr else tsr) := by
    split
    · rename_i staged
      exact text staged
    · exact idle
  simp only [injectStage]
  generalize (if tsr.pendingLength ≠ 0 then injectPendingText tsr else tsr) = rest at first ⊢
  split
  · rename_i staged
    exact key rest first staged
  · exact first

theorem injectStage_session : Steps tsr.toSession (injectStage tsr).toSession :=
  @injectStage_rule tsr (fun before after => Steps before.toSession after.toSession) .refl
    (injectPendingText_session tsr)
    (fun rest text staged => text.trans (injectPendingKey_session rest staged))

/-- With nothing staged nothing is enqueued. -/
theorem injectStage_empty (nothing : ¬ tsr.Staged) : injectStage tsr = tsr := by
  simp only [Session.Staged, not_or, not_not] at nothing
  simp [injectStage, nothing.1, nothing.2]

theorem openStage_cases :
    (tsr.openPending = true ∧ tsr.imeActive = false ∧
      ((tsr.linkState = .ready ∧ ∃ written succeeded,
          (openStage tsr).toSession = tsr.toSession.asked written succeeded) ∨
        (tsr.linkState = .closed ∧ ∃ written succeeded,
          (openStage tsr).toSession = tsr.toSession.greeting written succeeded))) ∨
      ((tsr.openPending = true → tsr.imeActive = false → tsr.linkState = .helloWait) ∧
        openStage tsr = tsr) := by
  simp only [openStage]
  split_ifs with wanted ready closed
  · exact .inl ⟨wanted.1, by simpa using wanted.2, .inl ⟨ready, sendOpenIme_session tsr⟩⟩
  · exact .inl ⟨wanted.1, by simpa using wanted.2, .inr ⟨closed, startLink_session tsr⟩⟩
  · refine .inr ⟨fun _ _ => ?_, rfl⟩
    cases link : tsr.linkState with
    | helloWait => rfl
    | closed => exact absurd link closed
    | ready => exact absurd link ready
  · refine .inr ⟨fun request idle => ?_, rfl⟩
    simp [request, idle] at wanted

theorem openStage_session : Steps tsr.toSession (openStage tsr).toSession := by
  obtain ⟨request, idle, ⟨link, written, succeeded, asks⟩ | ⟨link, written, succeeded, greets⟩⟩ |
    ⟨_, same⟩ := openStage_cases tsr
  · rw [asks]
    exact .single (.asked written succeeded request idle link)
  · rw [greets]
    exact .single (.greeting written succeeded request idle link)
  · rw [same]

/-- The state in which the response timer is looked at. -/
def beforeTick (tsr : Tsr) : Tsr := openStage (injectStage (receiveStage (hotkeyStage tsr)))

theorem beforeTick_session : Moves tsr.toSession (beforeTick tsr).toSession :=
  (hotkeyStage_session tsr).moves.trans <| (receiveStage_session _).trans <|
    (injectStage_session _).moves.trans (openStage_session _).moves

theorem tickStage_session : (tickStage tsr).toSession =
    if tsr.toSession.timesOut then tsr.toSession.timedOut
    else if tsr.toSession.waiting then { tsr.toSession with waitTicks := tsr.waitTicks + 1#16 }
    else tsr.toSession := by
  cases waiting : tsr.toSession.waiting with
  | false => simp [tickStage, Session.timesOut, waiting]
  | true =>
    by_cases last : tsr.waitTicks + 1#16 = 0xffff#16
    · simp [tickStage, Session.timesOut, waiting, last, resetLink_session, Session.timedOut,
        Session.reset]
    · simp [tickStage, Session.timesOut, waiting, last]

end ImeBridge
