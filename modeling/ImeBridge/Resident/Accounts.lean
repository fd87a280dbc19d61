import ImeBridge.Library.History
import ImeBridge.Library.Ledger
import ImeBridge.Resident.Runs

/-! # What the history says about staged input

The accounts count the ON sessions and keep one ledger of accepted TEXTs and one
of accepted KEYs.  `Session.Aside` collects the moves that have no entry there.
-/

namespace ImeBridge

open Library

/-- What an accepted input is filed under. -/
structure Receipt where
  sequence : Word
  /-- The ON session, counted from 1. -/
  session : Nat
  deriving DecidableEq, Repr

abbrev InputJob := Ledger.Job Receipt Word

structure Accounts where
  session : Nat := 0
  texts : List InputJob := []
  keys : List InputJob := []

def Accounts.enter (accounts : Accounts) : Event → Accounts
  | .toggled true => { accounts with session := accounts.session + 1 }
  | .acceptedText sequence payload =>
    { accounts with
      texts := Ledger.accept ⟨sequence, accounts.session⟩ (keyWords payload) accounts.texts }
  | .acceptedKey sequence key _ =>
    { accounts with keys := Ledger.accept ⟨sequence, accounts.session⟩ [key] accounts.keys }
  | .queuedText key => { accounts with texts := Ledger.deliver key accounts.texts }
  | .queuedKey key => { accounts with keys := Ledger.deliver key accounts.keys }
  | _ => accounts

def accounts (history : List Event) : Accounts := history.foldl Accounts.enter {}

@[simp] theorem accounts_concat (history : List Event) (event : Event) :
    accounts (history ++ [event]) = (accounts history).enter event := by
  simp [accounts]

namespace Event

/-- The number a TEXT_ACK carries. -/
def textAck : Event → Option Word
  | .sent packet _ _ => if packet.type = imeTextAck then some packet.sequence else none
  | _ => none

/-- The number a KEY_ACK carries. -/
def keyAck : Event → Option Word
  | .sent packet _ _ => if packet.type = imeKeyAck then some packet.sequence else none
  | _ => none

/-- The number and the words of an accepted TEXT. -/
def textInput : Event → Option (Word × List Word)
  | .acceptedText sequence payload => some (sequence, keyWords payload)
  | _ => none

/-- The number and the word of an accepted KEY. -/
def keyInput : Event → Option (Word × List Word)
  | .acceptedKey sequence key _ => some (sequence, [key])
  | _ => none

/-- An event that is neither staged input, nor its delivery, nor its answer. -/
def aside : Event → Bool
  | .sent packet _ _ => packet.type ≠ imeTextAck && packet.type ≠ imeKeyAck
  | .linkReset => true
  | .toggled on => !on
  | .acceptedClose _ => true
  | _ => false

variable {event : Event} (isAside : event.aside = true)
include isAside

theorem textAck_of_aside : event.textAck = none := by
  cases event with
  | sent packet written succeeded =>
    obtain ⟨other, -⟩ : packet.type ≠ imeTextAck ∧ packet.type ≠ imeKeyAck := by
      simpa [aside] using isAside
    exact if_neg other
  | _ => rfl

theorem keyAck_of_aside : event.keyAck = none := by
  cases event with
  | sent packet written succeeded =>
    obtain ⟨-, other⟩ : packet.type ≠ imeTextAck ∧ packet.type ≠ imeKeyAck := by
      simpa [aside] using isAside
    exact if_neg other
  | _ => rfl

theorem enter_of_aside (accounts : Accounts) : accounts.enter event = accounts := by
  cases event with
  | toggled on =>
    cases on with
    | false => rfl
    | true => simp [aside] at isAside
  | sent | linkReset | acceptedClose => rfl
  | acceptedText | acceptedKey | queuedText | queuedKey => simp [aside] at isAside

end Event

theorem accounts_aside (history : List Event) {events : List Event}
    (areAside : ∀ event ∈ events, event.aside = true) :
    accounts (history ++ events) = accounts history := by
  induction events using List.reverseRecOn with
  | nil => simp
  | append_singleton events event inductionHypothesis =>
    rw [← List.append_assoc, accounts_concat, Event.enter_of_aside (areAside event (by simp))]
    exact inductionHypothesis fun earlier member => areAside earlier (by simp [member])

/-- What an account of input is filed under, and its words. -/
def InputJob.entry (job : InputJob) : Word × List Word := (job.label.sequence, job.items)

/-- A delivery changes no entry. -/
theorem map_entry_deliver (key : Word) (jobs : List InputJob) :
    (Ledger.deliver key jobs).map InputJob.entry = jobs.map InputJob.entry := by
  cases jobs <;> rfl

/-- The accounts have an entry for each accepted TEXT and each accepted KEY, and no others. -/
theorem accounts_entries (history : List Event) :
    (accounts history).texts.reverse.map InputJob.entry = history.filterMap Event.textInput ∧
      (accounts history).keys.reverse.map InputJob.entry = history.filterMap Event.keyInput := by
  induction history using List.reverseRecOn with
  | nil => exact ⟨rfl, rfl⟩
  | append_singleton history event inductionHypothesis =>
    obtain ⟨texts, keys⟩ := inductionHypothesis
    rw [accounts_concat, List.filterMap_append, List.filterMap_append, ← texts, ← keys]
    simp only [List.map_reverse] at texts keys ⊢
    cases event with
    | acceptedText sequence payload =>
      simp [Accounts.enter, Ledger.accept, InputJob.entry, Event.textInput, Event.keyInput]
    | acceptedKey sequence key besideText =>
      simp [Accounts.enter, Ledger.accept, InputJob.entry, Event.textInput, Event.keyInput]
    | queuedText key =>
      simp [Accounts.enter, map_entry_deliver, Event.textInput, Event.keyInput]
    | queuedKey key =>
      simp [Accounts.enter, map_entry_deliver, Event.textInput, Event.keyInput]
    | toggled on => cases on <;> simp [Accounts.enter, Event.textInput, Event.keyInput]
    | sent | linkReset | acceptedClose => simp [Accounts.enter, Event.textInput, Event.keyInput]

namespace Session

theorem not_staged_closed (session : Session) (written : Nat) (succeeded : Bool) :
    ¬ (session.closed written succeeded).Staged := by
  simp [Session.closed, Session.Staged]

@[simp] theorem staged_asked (session : Session) (written : Nat) (succeeded : Bool) :
    (session.asked written succeeded).Staged ↔ session.Staged := by
  cases succeeded <;> exact Iff.rfl

@[simp] theorem staged_greeting (session : Session) (written : Nat) (succeeded : Bool) :
    (session.greeting written succeeded).Staged ↔ session.Staged := by
  cases succeeded <;> exact Iff.rfl

/-- The move leaves staged input alone, or drops all of it. -/
structure Aside (session next : Session) : Prop where
  history : ∃ events, next.history = session.history ++ events ∧
    ∀ event ∈ events, event.aside = true
  staged : ¬ next.Staged ∨
    (next.pendingText = session.pendingText ∧ next.pendingLength = session.pendingLength ∧
      next.pendingOffset = session.pendingOffset ∧
      next.pendingSequence = session.pendingSequence ∧ next.pendingKey = session.pendingKey ∧
      next.pendingKeyActive = session.pendingKeyActive)

namespace Aside

variable (session : Session) (written : Nat) (succeeded : Bool)

theorem farewell : ∀ event ∈ session.farewell written succeeded, event.aside = true := by
  cases link : session.linkState with
  | closed => simp [Session.farewell, link]
  | helloWait => simp [Session.farewell, link, Event.aside]
  | ready => simp [Session.farewell, link, Event.aside]

theorem closed : session.Aside (session.closed written succeeded) :=
  ⟨⟨_, rfl, farewell session written succeeded⟩, .inl (by simp [Session.closed, Session.Staged])⟩

theorem note_closed {event : Event} (isAside : event.aside = true) :
    session.Aside ((session.note event).closed written succeeded) := by
  refine ⟨⟨event :: (session.note event).farewell written succeeded, ?_, ?_⟩,
    .inl (by simp [Session.closed, Session.Staged])⟩
  · simp [Session.closed, Session.note]
  · exact List.forall_mem_cons.mpr ⟨isAside, farewell _ written succeeded⟩

theorem asked : session.Aside (session.asked written succeeded) := by
  refine ⟨⟨_, session.asked_history written succeeded, ?_⟩, .inr ?_⟩
  · cases succeeded <;> simp [Event.aside]
  · cases succeeded <;> exact ⟨rfl, rfl, rfl, rfl, rfl, rfl⟩

theorem greeting : session.Aside (session.greeting written succeeded) := by
  refine ⟨⟨_, session.greeting_history written succeeded, ?_⟩, .inr ?_⟩
  · cases succeeded <;> simp [Event.aside]
  · cases succeeded <;> exact ⟨rfl, rfl, rfl, rfl, rfl, rfl⟩

theorem linked (linkState : LinkState) (waitTicks : Word) :
    session.Aside { session with linkState := linkState, waitTicks := waitTicks } :=
  ⟨⟨[], (List.append_nil _).symm, by simp⟩, .inr ⟨rfl, rfl, rfl, rfl, rfl, rfl⟩⟩

theorem timedOut : session.Aside session.timedOut :=
  ⟨⟨_, rfl, by simp [Event.aside]⟩, .inr ⟨rfl, rfl, rfl, rfl, rfl, rfl⟩⟩

end Aside

end Session

end ImeBridge
