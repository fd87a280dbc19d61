import ImeBridge.Library.Permit
import ImeBridge.Library.Run
import ImeBridge.Host.Bridge

/-! # One message for each OPEN_IME

One connection as `ServeAsync` and the handlers of the window see it: packets come in and
the user acts, in any order.  `imeReady` is the host's permit to send; the handlers give
it up when they use it, the automatic text does not.
-/

namespace ImeBridge

open Library

/-- What the host receives and writes on a connection. -/
inductive HostEvent where
  | received (packet : Packet)
  | wrote (packet : Packet)
  deriving DecidableEq, Repr

/-- An OPEN_IME asks for one message. -/
def HostEvent.asks : HostEvent → Option Word
  | .received packet => if packet.type = imeOpenIme then some packet.sequence else none
  | .wrote _ => none

/-- A TEXT, KEY or CLOSE_IME is the message. -/
def HostEvent.message : HostEvent → Option Word
  | .received _ => none
  | .wrote packet =>
    if packet.type = imeText ∨ packet.type = imeKey ∨ packet.type = imeCloseIme then some packet.sequence
    else none

structure Conversation where
  host : Host := {}
  /-- The automatic text went out for the last OPEN_IME; no variable of the program. -/
  automaticSent : Bool := false
  /-- Oldest first; no variable of the program. -/
  log : List HostEvent := []

inductive ConversationAction where
  | receive (packet : Packet)
  | user (action : UserAction)

namespace Conversation

def step (bridge : Bridge) (action : ConversationAction) (conversation : Conversation) : Conversation :=
  match action with
  | .receive packet =>
    let (answer, host) := serveAsync bridge packet conversation.host
    { host := host
      automaticSent := if packet.type = imeOpenIme then answer.isSome else conversation.automaticSent
      log := conversation.log ++ .received packet :: (answer.map .wrote).toList }
  | .user action =>
    let (sent, host) := action.perform bridge conversation.host
    { conversation with host := host, log := conversation.log ++ (sent.map .wrote).toList }

/-- Every message the host wrote is the only one for the last OPEN_IME before it, and has its
number. -/
def OneForEach (conversation : Conversation) : Prop :=
  Permit.UsedOnce HostEvent.asks HostEvent.message conversation.log

/-- While the host is ready, the OPEN_IME it remembers is still to be used, unless the automatic
text has used it. -/
def Sound (conversation : Conversation) : Prop :=
  conversation.host.imeReady = true →
    (conversation.automaticSent = false →
      Permit.Standing HostEvent.asks HostEvent.message conversation.log conversation.host.openSequence) ∧
    (conversation.automaticSent = true → ∀ label,
      ¬ Permit.Standing HostEvent.asks HostEvent.message conversation.log label)

end Conversation

/-- The action has something to send that fits. -/
def UserAction.Wanted (bridge : Bridge) (host : Host) : UserAction → Prop
  | .text content => content ≠ [] ∧ (bridge.encode932 content).length ≤ host.targetMaxTextBytes
  | .key _ | .close => True

/-- The user does not act on a host that is still ready after its automatic text. -/
def Conversation.Spares (bridge : Bridge) (conversation : Conversation) (action : ConversationAction) : Prop :=
  match action with
  | .receive _ => True
  | .user action => conversation.host.imeReady = true → conversation.automaticSent = true →
      ¬ action.Wanted bridge conversation.host

/-! ## What the handlers do -/

variable {bridge : Bridge}

theorem UserAction.perform_wanted {action : UserAction} {host : Host} (ready : host.imeReady = true)
    (wanted : action.Wanted bridge host) : ∃ packet, host.Writes bridge packet ∧
      action.perform bridge host = (some packet, { host with imeReady := false }) := by
  cases action with
  | text content =>
    have fits : ¬ (bridge.encode932 content).length > host.targetMaxTextBytes := Nat.not_lt.mpr wanted.2
    exact ⟨_, .text content wanted.1 wanted.2, by simp [perform, sendText, ready, wanted.1, fits]⟩
  | key pressed => exact ⟨_, .key pressed, by simp [perform, sendKey, ready]⟩
  | close => exact ⟨_, .close, by simp [perform, sendCloseIme, ready]⟩

theorem UserAction.perform_refused {action : UserAction} {host : Host}
    (refused : ¬ (host.imeReady = true ∧ action.Wanted bridge host)) :
    action.perform bridge host = (none, host) := by
  cases action with
  | text content =>
    simp only [Wanted, not_and_or, not_not, Nat.not_le] at refused
    simp only [perform, sendText]
    split_ifs with early tooLong
    · rfl
    · rfl
    · simp_all
  | key pressed =>
    have unready : ¬ host.imeReady = true := fun ready => refused ⟨ready, trivial⟩
    simp [perform, sendKey, unready]
  | close =>
    have unready : ¬ host.imeReady = true := fun ready => refused ⟨ready, trivial⟩
    simp [perform, sendCloseIme, unready]

/-- All that the user can make the host write is a message for the OPEN_IME it remembers. -/
theorem Host.Writes.message {host : Host} {packet : Packet} (writes : host.Writes bridge packet) :
    (HostEvent.wrote packet).message = some host.openSequence := by
  cases writes with
  | text | key | close => simp [HostEvent.message]

theorem serveAsync_open {packet : Packet} (isOpen : packet.type = imeOpenIme) (host : Host) :
    (serveAsync bridge packet host).2 = { host with openSequence := packet.sequence, imeReady := true } ∧
      ((serveAsync bridge packet host).1 = none ∨
        ∃ text, (serveAsync bridge packet host).1 = some ⟨imeText, packet.sequence, text⟩) := by
  simp only [serveAsync, isOpen]
  cases bridge.automaticText with
  | none => exact ⟨rfl, .inl rfl⟩
  | some text =>
    by_cases tooLong : text.length > host.targetMaxTextBytes
    · simp [tooLong]
    · simp [tooLong]

/-- No other packet makes the host ready or has it write a message. -/
theorem serveAsync_other {packet : Packet} (notOpen : packet.type ≠ imeOpenIme) (host : Host) :
    (∀ answer, (serveAsync bridge packet host).1 = some answer → (HostEvent.wrote answer).message = none) ∧
      ((serveAsync bridge packet host).2.imeReady = true → host.imeReady = true ∧
        (serveAsync bridge packet host).2.openSequence = host.openSequence) := by
  constructor
  · intro answer answers
    cases serveAsync_answer bridge packet host answers with
    | inl pong => simp [HostEvent.message, pong]
    | inr automatic => exact absurd automatic.1 notOpen
  · intro ready
    simp only [serveAsync, if_neg notOpen] at ready ⊢
    split_ifs at ready ⊢ <;> simp_all

/-! ## One step -/

namespace Conversation

variable {conversation : Conversation}

/-- A packet other than OPEN_IME leaves the permit as it is, and at most takes readiness away. -/
theorem receive_other {packet : Packet} (notOpen : packet.type ≠ imeOpenIme) (sound : conversation.Sound) :
    (step bridge (.receive packet) conversation).Sound ∧
      ((step bridge (.receive packet) conversation).OneForEach ↔ conversation.OneForEach) := by
  obtain ⟨pongs, keeps⟩ := @serveAsync_other bridge packet notOpen conversation.host
  simp only [OneForEach, step, if_neg notOpen]
  generalize serveAsync bridge packet conversation.host = served at *
  obtain ⟨answer, host⟩ := served
  dsimp only at *
  have quiet : ∀ event ∈ HostEvent.received packet :: (answer.map .wrote).toList,
      event.asks = none ∧ event.message = none := by
    intro event member
    cases answer with
    | none => simp_all [HostEvent.asks, HostEvent.message]
    | some answer =>
      have silent := pongs answer rfl
      simp only [Option.map_some, Option.toList_some, List.mem_cons, List.not_mem_nil, or_false] at member
      obtain rfl | rfl := member
      · simp [HostEvent.asks, HostEvent.message, notOpen]
      · exact ⟨rfl, silent⟩
  refine ⟨fun ready => ?_, Permit.usedOnce_append fun event member => (quiet event member).2⟩
  obtain ⟨wasReady, sequence⟩ := keeps ready
  obtain ⟨spare, spent⟩ := sound wasReady
  simp only [Permit.standing_append quiet, sequence]
  exact ⟨spare, spent⟩

/-- An OPEN_IME is a new permit, which the automatic text uses at once. -/
theorem receive_open {packet : Packet} (isOpen : packet.type = imeOpenIme) (conversation : Conversation) :
    (step bridge (.receive packet) conversation).Sound ∧
      ((step bridge (.receive packet) conversation).OneForEach ↔ conversation.OneForEach) := by
  obtain ⟨remembers, answers⟩ := @serveAsync_open bridge packet isOpen conversation.host
  have asks : (HostEvent.received packet).asks = some packet.sequence := by simp [HostEvent.asks, isOpen]
  have standing : Permit.Standing HostEvent.asks HostEvent.message
      (conversation.log ++ [.received packet]) packet.sequence := Permit.standing_grant asks
  have received : Permit.UsedOnce HostEvent.asks HostEvent.message (conversation.log ++ [.received packet]) ↔
      Permit.UsedOnce HostEvent.asks HostEvent.message conversation.log :=
    Permit.usedOnce_append (by simp [HostEvent.message])
  simp only [OneForEach, step, if_pos isOpen, remembers]
  cases answers with
  | inl silent =>
    rw [silent]
    exact ⟨fun _ => ⟨fun _ => standing, by simp⟩, received⟩
  | inr automatic =>
    obtain ⟨text, sent⟩ := automatic
    have isMessage : (HostEvent.wrote ⟨imeText, packet.sequence, text⟩).message = some packet.sequence := by
      simp [HostEvent.message]
    rw [sent, List.append_cons]
    refine ⟨fun _ => ⟨by simp, fun _ label => Permit.not_standing_use rfl isMessage⟩, ?_⟩
    exact (Permit.usedOnce_use isMessage).trans ((and_iff_left standing).trans received)

/-- The user's message takes readiness away, and it is a second one exactly if the automatic text
was the first. -/
theorem user (action : UserAction) (sound : conversation.Sound) :
    (step bridge (.user action) conversation).Sound ∧
      ((step bridge (.user action) conversation).OneForEach ↔
        conversation.OneForEach ∧ conversation.Spares bridge (.user action)) := by
  by_cases sends : conversation.host.imeReady = true ∧ action.Wanted bridge conversation.host
  · obtain ⟨ready, wanted⟩ := sends
    obtain ⟨packet, writes, performs⟩ := UserAction.perform_wanted ready wanted
    obtain ⟨spare, spent⟩ := sound ready
    simp only [OneForEach, step, performs]
    refine ⟨fun ready => absurd ready Bool.noConfusion, ?_⟩
    refine (Permit.usedOnce_use writes.message).trans (and_congr_right fun _ => ?_)
    cases sent : conversation.automaticSent with
    | false => simp [Spares, sent, spare sent]
    | true => simp [Spares, sent, spent sent, ready, wanted]
  · have spares : conversation.Spares bridge (.user action) := fun ready _ wanted => sends ⟨ready, wanted⟩
    simp only [OneForEach, step, UserAction.perform_refused sends]
    simp only [Option.map_none, Option.toList_none, List.append_nil]
    exact ⟨sound, (and_iff_left spares).symm⟩

end Conversation

/-- Over a whole connection, every message the host writes is the only one for the last OPEN_IME
it received and carries its number, exactly if the user spares the automatic text. -/
theorem one_message_per_open (bridge : Bridge) (actions : List ConversationAction) :
    (Run.run (Conversation.step bridge) actions {}).OneForEach ↔
      Run.AllSteps (Conversation.step bridge) (Conversation.Spares bridge) actions {} := by
  have start : Conversation.Sound {} := fun ready => absurd ready Bool.noConfusion
  have none : Conversation.OneForEach {} := History.everywhere_nil
  have both : ∀ (conversation : Conversation) action, conversation.Sound →
      (Conversation.step bridge action conversation).Sound ∧
        ((Conversation.step bridge action conversation).OneForEach ↔
          conversation.OneForEach ∧ conversation.Spares bridge action) := by
    intro conversation action sound
    cases action with
    | receive packet =>
      have always : conversation.Spares bridge (.receive packet) := trivial
      rw [and_iff_left always]
      by_cases isOpen : packet.type = imeOpenIme
      · exact Conversation.receive_open isOpen conversation
      · exact Conversation.receive_other isOpen sound
    | user action => exact Conversation.user action sound
  have run := @Run.holds_iff_allSteps _ _ (Conversation.step bridge) Conversation.Sound
    Conversation.OneForEach (Conversation.Spares bridge)
    (fun conversation action sound => (both conversation action sound).1)
    (fun conversation action sound => (both conversation action sound).2) actions {} start
  exact run.trans (and_iff_right none)

/-- The automatic text answers OPEN_IME 1, and Enter in the empty field does so once more. -/
theorem two_messages_for_one_open :
    let bridge : Bridge := { automaticText := some [0x41], encode932 := fun _ => [] }
    let conversation := Run.run (Conversation.step bridge)
      [.receive ⟨imeOpenIme, 1#16, []⟩, .user (.key .enter)] {}
    conversation.log = [.received ⟨imeOpenIme, 1#16, []⟩, .wrote ⟨imeText, 1#16, [0x41]⟩,
        .wrote ⟨imeKey, 1#16, [1]⟩] ∧
      ¬ conversation.OneForEach := by
  intro bridge conversation
  have log : conversation.log = [.received ⟨imeOpenIme, 1#16, []⟩] ++ [.wrote ⟨imeText, 1#16, [0x41]⟩] ++
      [.wrote ⟨imeKey, 1#16, [1]⟩] := by rfl
  refine ⟨log, ?_⟩
  have isKey : (HostEvent.wrote ⟨imeKey, 1#16, [1]⟩).message = some 1#16 := by decide
  have isText : (HostEvent.wrote ⟨imeText, 1#16, [0x41]⟩).message = some 1#16 := by decide
  rw [Conversation.OneForEach, log, Permit.usedOnce_use isKey]
  exact fun both => Permit.not_standing_use rfl isText both.2

end ImeBridge
