import ImeBridge.Link.Net
import ImeBridge.Resident.Port

/-! # The client's packets as bytes

The line carries the packets that went out whole.  Of a packet that was cut off the host
gets the first bytes, and takes what follows for the rest of it; as long as there is none
the bytes on the line are those of the packets posted.
-/

namespace ImeBridge

/-- The bytes of an event that reach the data port. -/
def Event.bytes : Event → List Byte
  | .sent packet written _ => (imePacketBuild packet.type packet.sequence packet.payload).take written
  | _ => []

/-- The event leaves the beginning of a packet on the line. -/
def Event.cut : Event → Bool
  | .sent _ written succeeded => !succeeded && written ≠ 0
  | _ => false

/-- Nothing but whole packets has been put on the line. -/
def Session.SendsWhole (session : Session) : Prop := ∀ event ∈ session.history, event.cut = false

instance (session : Session) : Decidable session.SendsWhole := by unfold Session.SendsWhole; infer_instance

def Mail.bytes (mail : Mail) : List Byte :=
  imePacketBuild mail.packet.type mail.packet.sequence mail.packet.payload

theorem Event.bytes_whole {event : Event} (honest : event.Honest) (whole : event.cut = false) (opening : Nat) :
    event.bytes = (event.mail opening).flatMap Mail.bytes := by
  cases event with
  | sent packet written succeeded =>
    cases succeeded with
    | true =>
      have all := honest.2.mp rfl
      simp [bytes, mail, Mail.bytes, all]
    | false =>
      have nothing : written = 0 := by simpa [cut] using whole
      simp [bytes, mail, nothing]
  | _ => rfl

/-- Then the line carries the packets that were posted, one behind the other. -/
theorem bytes_posted {history : List Event} (honest : ∀ event ∈ history, event.Honest)
    (whole : ∀ event ∈ history, event.cut = false) :
    history.flatMap Event.bytes = (posted history).flatMap Mail.bytes := by
  have row (opening : Nat) : history.flatMap Event.bytes = (mailing opening history).flatMap Mail.bytes := by
    induction history generalizing opening with
    | nil => rfl
    | cons event history inductionHypothesis =>
      have first := Event.bytes_whole (honest event (.head _)) (whole event (.head _)) (opening + event.opens)
      have later := inductionHypothesis (fun other member => honest other (.tail _ member))
        (fun other member => whole other (.tail _ member)) (opening + event.opens)
      rw [List.flatMap_cons, first, later, mailing, List.flatMap_append]
  exact row 0

theorem Session.SendsWhole.append {session next : Session} (whole : session.SendsWhole) {added : List Event}
    (history : next.history = session.history ++ added) (more : ∀ event ∈ added, event.cut = false) :
    next.SendsWhole := by
  rw [SendsWhole, history, List.forall_mem_append]
  exact ⟨whole, more⟩

/-! ## What fits a packet -/

/-- The packet of the event carries no more than a packet may. -/
def Event.Fits : Event → Prop
  | .sent packet _ _ => packet.payload.length ≤ imeMaxPayload
  | _ => True

theorem mailing_fits {history : List Event} (fits : ∀ event ∈ history, event.Fits) (opening : Nat) :
    ∀ mail ∈ mailing opening history, mail.packet.payload.length ≤ imeMaxPayload := by
  induction history generalizing opening with
  | nil => simp [mailing]
  | cons event history inductionHypothesis =>
    obtain ⟨first, later⟩ := List.forall_mem_cons.mp fits
    rw [mailing, List.forall_mem_append]
    refine ⟨fun mail member => ?_, inductionHypothesis later (opening + event.opens)⟩
    cases event with
    | sent packet written succeeded =>
      cases succeeded with
      | true =>
        rw [List.mem_singleton.mp member]
        exact first
      | false => simp [Event.mail] at member
    | _ => simp [Event.mail] at member

theorem Session.farewell_fits (session : Session) (written : Nat) (succeeded : Bool) :
    ∀ event ∈ session.farewell written succeeded, event.Fits := by
  cases link : session.linkState with
  | closed | helloWait | ready => simp [farewell, link, Event.Fits]

/-- The client sends HELLO with its eleven bytes, and otherwise packets without payload. -/
theorem Session.Move.fits (session next : Session) (does : Move session next)
    (fits : ∀ event ∈ session.history, event.Fits) : ∀ event ∈ next.history, event.Fits := by
  have grows {events : List Event} (history : next.history = session.history ++ events)
      (new : ∀ event ∈ events, event.Fits) : ∀ event ∈ next.history, event.Fits := by
    rw [history, List.forall_mem_append]
    exact ⟨fits, new⟩
  have reset (succeeded : Bool) : ∀ event ∈ (if succeeded then [] else [.linkReset] : List Event), event.Fits := by
    cases succeeded with
    | true | false => simp [Event.Fits]
  have closes (first : Event) (opening : first.Fits) (session : Session) (written : Nat) (succeeded : Bool) :
      ∀ event ∈ first :: session.farewell written succeeded, event.Fits :=
    List.forall_mem_cons.mpr ⟨opening, session.farewell_fits written succeeded⟩
  have asks (number : Word) (written : Nat) (succeeded : Bool) :
      ∀ event ∈ Event.sent ⟨imeOpenIme, number, []⟩ written succeeded ::
        (if succeeded then [] else [.linkReset]), event.Fits :=
    List.forall_mem_cons.mpr ⟨Nat.zero_le _, reset succeeded⟩
  cases does with
  | own does =>
    cases does with
    | turnedOn | queuedText => exact grows rfl (by simp [Event.Fits])
    | answeredText | answeredKey => exact grows rfl (by simp [Event.Fits])
    | turnedOff written succeeded =>
      exact grows (List.append_assoc _ _ _) (closes (.toggled false) trivial _ written succeeded)
    | shutDown written succeeded => exact grows rfl (session.farewell_fits written succeeded)
    | asked written succeeded => exact grows (asked_history session written succeeded) (asks _ written succeeded)
    | greeting written succeeded =>
      have short : hello.length ≤ imeMaxPayload := by decide
      exact grows (greeting_history session written succeeded) (List.forall_mem_cons.mpr ⟨short, reset succeeded⟩)
    | ticked => exact fits
  | packet packet _ does =>
    cases does with
    | greeted | ignored => exact fits
    | greetedAsking written succeeded => exact grows (asked_history _ written succeeded) (asks _ written succeeded)
    | text | key => exact grows rfl (by simp [Event.Fits])
    | close written succeeded =>
      exact grows (List.append_assoc _ _ _) (closes (.acceptedClose packet.sequence) trivial _ written succeeded)

/-! ## The log of a run -/

namespace Net

variable {Outside : Type} (outside : Outside → List Event → Line → Line)

theorem turn_honest (net : Net) (turn : Option Outside) (honest : ∀ event ∈ net.client.history, event.Honest) :
    ∀ event ∈ (net.turn outside turn).client.history, event.Honest := by
  cases turn with
  | none =>
    simp only [Net.turn, receive]
    split
    · exact honest
    · split
      · exact honest
      · exact (handleParsed_serves net.client _).toWorks.honest honest
  | some action => exact honest

theorem apply_honest (net : Net) (action : Action Outside) (honest : ∀ event ∈ net.client.history, event.Honest) :
    ∀ event ∈ (net.apply outside action).client.history, event.Honest := by
  cases action with
  | worker hardware turns =>
    have row : ∀ (turns : List (Option Outside)) (net : Net), (∀ event ∈ net.client.history, event.Honest) →
        ∀ event ∈ (turns.foldl (turn outside) net).client.history, event.Honest := by
      intro turns
      induction turns with
      | nil => exact fun _ honest => honest
      | cons first turns inductionHypothesis =>
        exact fun net honest => inductionHypothesis _ (turn_honest outside net first honest)
    have polled := @hotkeyStage_honest { net.client with toHardware := hardware } honest
    have received := row turns { net with client := hotkeyStage { net.client with toHardware := hardware } } polled
    have injected := (injectStage_serves _).toWorks.honest received
    exact (tickStage_serves _).toWorks.honest ((openStage_works _).honest injected)
  | returnedHotkey hardware =>
    exact @pc98ServiceReturnedHotkey_honest { net.client with toHardware := hardware } honest
  | prepareUninstall hardware =>
    exact (closeIme_serves { net.client with toHardware := hardware }).toWorks.honest honest
  | outside action => exact honest
  | unread =>
    simp only [apply]
    split
    · exact honest
    · exact honest

end Net

end ImeBridge
