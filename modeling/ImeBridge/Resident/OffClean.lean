import ImeBridge.Resident.Accounts
import ImeBridge.Resident.Consistency
import ImeBridge.Resident.Idle

/-! # OFF is clean

Closing the IME drops staged input; the response timeout, which turns the IME off
without `close_ime`, does not.  As long as no timeout fires on staged input, an IME
that is off has none, and input is enqueued and answered in its own ON session only.
-/

namespace ImeBridge

open Library Session

/-- The response timeout does not fire while input is staged. -/
def Calm (tsr : Tsr) (action : Action) : Prop :=
  ∀ before ∈ action.atTimer tsr, before.timesOut = true → ¬ before.Staged

instance (tsr : Tsr) (action : Action) : Decidable (Calm tsr action) := by
  unfold Calm; infer_instance

/-- A word enqueued for a TEXT or a KEY is the next one the newest accepted input
owes, an ACK comes when that input owes nothing more, and both in the ON session it
was accepted in. -/
def OwnSession (before : List Event) (event : Event) : Prop :=
  let current := fun receipt : Receipt => receipt.session = (accounts before).session
  (∀ key, event = .queuedText key →
      ∃ rest, Ledger.Owes (key :: rest) current (fun _ => True) (accounts before).texts) ∧
    (∀ key, event = .queuedKey key →
      Ledger.Owes [key] current (fun _ => True) (accounts before).keys) ∧
    (event.textAck ≠ none → Ledger.Owes [] current (fun _ => True) (accounts before).texts) ∧
    (event.keyAck ≠ none → Ledger.Owes [] current (fun _ => True) (accounts before).keys)

namespace Session

structure OffClean (session : Session) : Prop where
  off : session.imeEnabled = false → ¬ session.Staged
  length : session.pendingLength ≠ 0 → session.pendingText.length = session.pendingLength
  text : session.pendingLength ≠ 0 →
    Ledger.Owes (keyWords (session.pendingText.drop session.pendingOffset))
      (fun receipt => receipt.session = (accounts session.history).session) (fun _ => True)
      (accounts session.history).texts
  key : session.pendingKeyActive = true →
    Ledger.Owes [session.pendingKey]
      (fun receipt => receipt.session = (accounts session.history).session) (fun _ => True)
      (accounts session.history).keys
  own : History.Everywhere OwnSession session.history

namespace OffClean

variable {session next : Session}

theorem initial : ({} : Session).OffClean :=
  ⟨by simp [Session.Staged], by simp, by simp, by simp, History.everywhere_nil⟩

theorem own_aside (before : List Event) {event : Event} (isAside : event.aside = true) :
    OwnSession before event := by
  refine ⟨?_, ?_, by simp [Event.textAck_of_aside isAside], by simp [Event.keyAck_of_aside isAside]⟩
  · rintro key rfl
    simp [Event.aside] at isAside
  · rintro key rfl
    simp [Event.aside] at isAside

theorem own_concat {history : List Event} {event : Event}
    (own : History.Everywhere OwnSession history) (right : OwnSession history event) :
    History.Everywhere OwnSession (history ++ [event]) :=
  History.everywhere_concat.mpr ⟨own, right⟩

theorem aside (moved : session.Aside next)
    (off : next.imeEnabled = false → next.Staged → session.imeEnabled = false ∧ session.Staged)
    (clean : session.OffClean) : next.OffClean := by
  obtain ⟨⟨events, history, areAside⟩, staged⟩ := moved
  have own : History.Everywhere OwnSession next.history := by
    rw [history]
    exact History.everywhere_append clean.own fun before event member =>
      own_aside before (areAside event member)
  have stillOff : next.imeEnabled = false → ¬ next.Staged := fun disabled staged =>
    clean.off (off disabled staged).1 (off disabled staged).2
  obtain dropped | ⟨text, length, offset, sequence, key, active⟩ := staged
  · -- All staged input is gone; nothing is owed any more.
    have noText : next.pendingLength = 0 := not_not.mp fun staged => dropped (.inl staged)
    have noKey : next.pendingKeyActive ≠ true := fun staged => dropped (.inr staged)
    exact ⟨stillOff, by simp [noText], by simp [noText], fun staged => absurd staged noKey, own⟩
  · refine ⟨stillOff, ?_, ?_, ?_, own⟩
    · rw [text, length]
      exact clean.length
    · rw [history, accounts_aside _ areAside, text, length, offset]
      exact clean.text
    · rw [history, accounts_aside _ areAside, key, active]
      exact clean.key

/-- With no input staged there is nothing to be clean of. -/
theorem dropped (moved : session.Aside next) (unstaged : ¬ next.Staged) (clean : session.OffClean) :
    next.OffClean :=
  clean.aside moved fun _ staged => absurd staged unstaged

/-- Asking for input and greeting the host neither turn the IME off nor stage input. -/
theorem asked (written : Nat) (succeeded : Bool) (clean : session.OffClean) :
    (session.asked written succeeded).OffClean :=
  clean.aside (.asked session written succeeded) fun disabled staged =>
    ⟨by cases succeeded <;> exact disabled, (staged_asked session written succeeded).mp staged⟩

theorem greeting (written : Nat) (succeeded : Bool) (clean : session.OffClean) :
    (session.greeting written succeeded).OffClean :=
  clean.aside (.greeting session written succeeded) fun disabled staged =>
    ⟨by cases succeeded <;> exact disabled, (staged_greeting session written succeeded).mp staged⟩

/-- An accepted packet finds the IME on. -/
theorem enabled_of_expects {packet : Packet} (consistent : session.Consistent)
    (expected : session.expects packet = true) : session.imeEnabled = true := by
  simp only [Session.expects, Bool.and_eq_true] at expected
  exact consistent.active_enabled expected.1

theorem acceptedText {packet : Packet} (on : session.imeEnabled = true) (clean : session.OffClean) :
    ({ session with
      pendingText := packet.payload
      pendingLength := packet.payload.length
      pendingOffset := 0
      pendingSequence := packet.sequence
      waitTicks := 0#16 }.note (.acceptedText packet.sequence packet.payload)).OffClean where
  off disabled := by simp [Session.note, on] at disabled
  length _ := rfl
  text _ := by
    simp only [Session.note, accounts_concat, Accounts.enter]
    exact Ledger.owes_accept _ _ rfl fun _ _ => trivial
  key staged := by simpa [Session.note, Accounts.enter] using clean.key staged
  own := own_concat clean.own (by simp [OwnSession, Event.textAck, Event.keyAck])

theorem acceptedKey {packet : Packet} {key : Word} {besideText : Bool}
    (on : session.imeEnabled = true) (clean : session.OffClean) :
    ({ session with
      pendingKey := key
      pendingKeyActive := true
      pendingSequence := packet.sequence
      waitTicks := 0#16 }.note (.acceptedKey packet.sequence key besideText)).OffClean where
  off disabled := by simp [Session.note, on] at disabled
  length := clean.length
  text staged := by simpa [Session.note, Accounts.enter] using clean.text staged
  key _ := by
    simp only [Session.note, accounts_concat, Accounts.enter]
    exact Ledger.owes_accept _ _ rfl fun _ _ => trivial
  own := own_concat clean.own (by simp [OwnSession, Event.textAck, Event.keyAck])

theorem handled {packet : Packet} (does : Handled packet session next)
    (consistent : session.Consistent) (clean : session.OffClean) : next.OffClean := by
  cases does with
  | greeted => exact ⟨clean.off, clean.length, clean.text, clean.key, clean.own⟩
  | greetedAsking written succeeded =>
    have linked : ({ session with linkState := .ready, waitTicks := 0#16 } : Session).OffClean :=
      ⟨clean.off, clean.length, clean.text, clean.key, clean.own⟩
    exact linked.asked written succeeded
  | text isText expected => exact clean.acceptedText (enabled_of_expects consistent expected)
  | key key isKey expected => exact clean.acceptedKey (enabled_of_expects consistent expected)
  | close written succeeded =>
    exact clean.dropped (.note_closed session written succeeded rfl)
      (not_staged_closed _ written succeeded)
  | ignored => exact clean

theorem queuedText {key : Word} {input : Nat} (clean : session.OffClean)
    (remaining : session.pendingOffset < session.pendingLength)
    (encoded : pc98BiosEncodeKey session.pendingText session.pendingLength session.pendingOffset =
      (key, input)) :
    ({ session with pendingOffset := input + 1 }.note (.queuedText key)).OffClean := by
  have staged : session.pendingLength ≠ 0 := by omega
  have length := clean.length staged
  have owes := clean.text staged
  rw [(pc98BiosEncodeKey_spec (length ▸ remaining)).1, length, encoded] at owes
  have right : OwnSession session.history (.queuedText key) := by
    refine ⟨fun word same => ?_, by simp, by simp [Event.textAck], by simp [Event.keyAck]⟩
    cases same
    exact ⟨_, owes⟩
  exact
    { off := clean.off
      length := clean.length
      text := fun _ => by simpa [Session.note, Accounts.enter] using owes.deliver
      key := fun active => by simpa [Session.note, Accounts.enter] using clean.key active
      own := own_concat clean.own right }

theorem answeredText {written : Nat} {succeeded : Bool} (clean : session.OffClean)
    (staged : session.pendingLength ≠ 0)
    (finished : session.pendingOffset ≥ session.pendingLength) :
    (session.answeredText written succeeded).OffClean := by
  have owes := clean.text staged
  have nothing : session.pendingText.drop session.pendingOffset = [] := by
    simp [clean.length staged, finished]
  rw [nothing] at owes
  exact
    { off := fun disabled => absurd (.inl staged) (clean.off disabled)
      length := by simp [Session.answeredText]
      text := by simp [Session.answeredText]
      key := fun active => by simpa [Session.answeredText, Accounts.enter] using clean.key active
      own := own_concat clean.own ⟨by simp, by simp, fun _ => owes, fun isAck => absurd rfl isAck⟩ }

theorem answeredKey {written : Nat} {succeeded : Bool} (clean : session.OffClean)
    (staged : session.pendingKeyActive = true) :
    (session.answeredKey written succeeded).OffClean := by
  have owes := clean.key staged
  have history := session.answeredKey_history written succeeded
  -- The word is enqueued first; by the time of the KEY_ACK nothing is owed.
  have queued : OwnSession session.history (.queuedKey session.pendingKey) := by
    refine ⟨by simp, fun word same => ?_, by simp [Event.textAck], by simp [Event.keyAck]⟩
    cases same
    exact owes
  have delivered : Ledger.Owes []
      (fun receipt => receipt.session =
        (accounts (session.history ++ [.queuedKey session.pendingKey])).session) (fun _ => True)
      (accounts (session.history ++ [.queuedKey session.pendingKey])).keys := by
    simpa [Accounts.enter] using owes.deliver
  exact
    { off := fun disabled => absurd (.inr staged) (clean.off disabled)
      length := clean.length
      text := fun staged => by
        rw [history, accounts_concat, accounts_concat]
        exact clean.text staged
      key := by simp [Session.answeredKey]
      own := by
        rw [history]
        exact own_concat (own_concat clean.own queued)
          ⟨by simp, by simp, fun isAck => absurd rfl isAck, fun _ => delivered⟩ }

theorem step (does : Step session next) (clean : session.OffClean) : next.OffClean := by
  cases does with
  | turnedOn off =>
    -- The session number moves on, but there is no staged input to belong to it.
    have dropped : ¬ session.Staged := clean.off off
    simp only [Session.Staged, not_or, not_not] at dropped
    exact
      { off := by simp [Session.note]
        length := clean.length
        text := fun staged => absurd dropped.1 staged
        key := fun staged => absurd staged dropped.2
        own := own_concat clean.own (by simp [OwnSession, Event.textAck, Event.keyAck]) }
  | turnedOff written succeeded =>
    exact clean.dropped (.note_closed session written succeeded rfl)
      (not_staged_closed _ written succeeded)
  | shutDown written succeeded =>
    exact clean.dropped (.closed session written succeeded) (not_staged_closed _ written succeeded)
  | queuedText key input remaining encoded => exact clean.queuedText remaining encoded
  | answeredText written succeeded staged finished => exact clean.answeredText staged finished
  | answeredKey written succeeded staged => exact clean.answeredKey staged
  | asked written succeeded => exact clean.asked written succeeded
  | greeting written succeeded => exact clean.greeting written succeeded
  | ticked => exact ⟨clean.off, clean.length, clean.text, clean.key, clean.own⟩

theorem timedOut (clean : session.OffClean) (calm : ¬ session.Staged) : session.timedOut.OffClean :=
  clean.dropped (.timedOut session) calm

end OffClean

end Session

theorem Action.offClean (tsr : Tsr) (action : Action) (start : tsr.Consistent ∧ tsr.OffClean)
    (calm : Calm tsr action) : (action.apply tsr).Consistent ∧ (action.apply tsr).OffClean := by
  refine action.preserves (fun session => session.Consistent ∧ session.OffClean) ?_ ?_ start
  · rintro session next does ⟨consistent, clean⟩
    refine ⟨consistent.move _ _ does, ?_⟩
    cases does with
    | own does => exact clean.step does
    | packet packet fits does => exact clean.handled does consistent
  · rintro before timer late ⟨_, clean⟩
    exact ⟨.timedOut before.toSession, clean.timedOut (calm before timer late)⟩

/-! ## A run that starts OFF -/

/-- The event puts a word of a TEXT or a KEY into the BIOS queue. -/
def Event.queues : Event → Bool
  | .queuedText _ | .queuedKey _ => true
  | _ => false

/-- From one state to the other, no input reached the BIOS queue. -/
def Session.QueuesNothing (session next : Session) : Prop :=
  ∃ events, next.history = session.history ++ events ∧ ∀ event ∈ events, event.queues = false

namespace Session.QueuesNothing

variable {session middle next : Session}

theorem refl : session.QueuesNothing session := ⟨[], by simp, by simp⟩

theorem trans (first : session.QueuesNothing middle) (second : middle.QueuesNothing next) :
    session.QueuesNothing next := by
  obtain ⟨events, history, quiet⟩ := first
  obtain ⟨events', history', quiet'⟩ := second
  refine ⟨events ++ events', by simp [history', history], fun event member => ?_⟩
  exact (List.mem_append.mp member).elim (quiet event) (quiet' event)

theorem of_aside (moved : session.Aside next) : session.QueuesNothing next := by
  obtain ⟨events, history, areAside⟩ := moved.history
  refine ⟨events, history, fun event member => ?_⟩
  have isAside := areAside event member
  cases event with
  | queuedText | queuedKey => simp [Event.aside] at isAside
  | acceptedText | acceptedKey | acceptedClose | sent | linkReset | toggled => rfl

theorem openStage (tsr : Tsr) : tsr.QueuesNothing (openStage tsr).toSession := by
  obtain ⟨_, _, ⟨_, written, succeeded, asks⟩ | ⟨_, written, succeeded, greets⟩⟩ | ⟨_, same⟩ :=
    openStage_cases tsr
  · rw [asks]
    exact of_aside (.asked tsr.toSession written succeeded)
  · rw [greets]
    exact of_aside (.greeting tsr.toSession written succeeded)
  · rw [same]
    exact refl

theorem tickStage (tsr : Tsr) : tsr.QueuesNothing (tickStage tsr).toSession := by
  rw [tickStage_session]
  split_ifs
  · exact of_aside (.timedOut tsr.toSession)
  · exact refl
  · exact refl

theorem toggleImeHotkey (tsr : Tsr) : tsr.QueuesNothing (toggleImeHotkey tsr).toSession := by
  obtain ⟨_, written, succeeded, closes⟩ | ⟨_, opens⟩ := toggleImeHotkey_cases tsr
  · rw [closes]
    exact of_aside (.note_closed _ written succeeded rfl)
  · rw [opens]
    exact ⟨_, rfl, by simp [Event.queues]⟩

/-- Off and clean, a foreground run stays clear of the receive and inject stages,
whether or not it turns the IME on. -/
theorem foreground {tsr : Tsr} (settled : tsr.Settled) (off : tsr.imeEnabled = false)
    (clean : ¬ tsr.Staged) : tsr.QueuesNothing (pc98ServiceForeground tsr).toSession := by
  have closed := (settled.off off).1
  have hotkey : tsr.QueuesNothing (hotkeyStage tsr).toSession ∧
      (hotkeyStage tsr).linkState = .closed ∧ ¬ (hotkeyStage tsr).Staged := by
    obtain same | ⟨rest, same, toggles⟩ := hotkeyStage_cases tsr
    · rw [same]
      exact ⟨refl, closed, clean⟩
    · -- The IME was off, so the toggle turns it on and leaves the link down.
      have quiet := toggleImeHotkey rest
      obtain ⟨on, _⟩ | ⟨_, opens⟩ := toggleImeHotkey_cases rest
      · rw [same, off] at on
        contradiction
      · rw [toggles, ← same]
        rw [← same] at closed clean
        rw [opens]
        exact ⟨opens ▸ quiet, closed, clean⟩
  obtain ⟨quiet, closed, clean⟩ := hotkey
  rw [pc98ServiceForeground, receiveStage_closed _ closed, injectStage_empty _ clean]
  exact quiet.trans ((openStage _).trans (tickStage _))

theorem action {tsr : Tsr} (action : Action) (settled : tsr.Settled) (off : tsr.imeEnabled = false)
    (clean : ¬ tsr.Staged) : tsr.QueuesNothing (action.apply tsr).toSession := by
  cases serves : action.service tsr with
  | none =>
    obtain same | ⟨rest, same, toggles⟩ | ⟨written, succeeded, closes⟩ := Action.service_none serves
    · rw [same]
      exact refl
    · rw [toggles, ← same]
      exact toggleImeHotkey rest
    · rw [closes]
      exact of_aside (.closed tsr.toSession written succeeded)
  | some rest =>
    obtain ⟨same, applies⟩ := Action.service_some serves
    rw [applies, ← same]
    rw [← same] at settled off clean
    exact foreground settled off clean

end Session.QueuesNothing

/-- OFF is clean in every run in which no response timeout fires on staged input:
an IME that is off has nothing staged, a worker run that starts off enqueues no word
of a TEXT or a KEY, and every such word and every ACK belongs to an input accepted in
the current ON session. -/
theorem off_is_clean (modifierMask : Byte) (hardware : Hardware) (actions : List Action)
    (calm : Run.AllSteps Action.apply Calm actions (cleared modifierMask hardware)) :
    let tsr := Run.run Action.apply actions (cleared modifierMask hardware)
    (tsr.imeEnabled = false → tsr.pendingLength = 0 ∧ tsr.pendingKeyActive = false) ∧
      (∀ action : Action, tsr.imeEnabled = false →
        tsr.QueuesNothing (action.apply tsr).toSession) ∧
      History.Everywhere OwnSession tsr.history := by
  intro tsr
  have clean : tsr.Consistent ∧ tsr.OffClean := Run.invariant_of_allSteps Action.apply
    Action.offClean ⟨.initial, .initial⟩ calm
  have settled : tsr.Settled := Run.invariant Action.apply Action.settled actions
    (cleared_settled modifierMask hardware)
  refine ⟨fun off => ?_, fun action off => ?_, clean.2.own⟩
  · simpa [Session.Staged] using clean.2.off off
  · exact Session.QueuesNothing.action action settled off (clean.2.off off)

/-- After OPEN_IME 2 a TEXT of one byte is staged, but the BIOS queue is full. -/
def textArrives : List Action :=
  opening ++ [.environment (machine 16#8 (imePacketBuild imeText 2#16 [0x41#8])), .foreground]

def textWaiting : Tsr := Run.run Action.apply textArrives (cleared 0x01#8 {})

theorem textWaiting_idle : Idle textWaiting :=
  ⟨by decide +kernel, by decide +kernel, by decide +kernel, by decide +kernel, by decide +kernel,
    by decide +kernel, by decide +kernel, by decide +kernel⟩

theorem textWaiting_atTicks : textWaiting = textWaiting.atTicks 1 := by
  have ticks : textWaiting.waitTicks = BitVec.ofNat 16 1 := by decide +kernel
  rw [Tsr.atTicks, ← ticks]

/-- The queue stays full until the response timeout fires. -/
def textTimesOut : List Action :=
  textArrives ++ (List.replicate 0xfffd .foreground ++ [.foreground])

theorem textTimesOut_session : (Run.run Action.apply textTimesOut (cleared 0x01#8 {})).toSession =
    (textWaiting.atTicks 0xfffe).timedOut := by
  have late := textWaiting_idle.run_late (show 1 + 0xfffd = 0xfffe by decide)
  rw [← textWaiting_atTicks] at late
  rw [textTimesOut, Run.run_append, ← textWaiting, late]

/-- Then the IME is off and the TEXT still staged. -/
theorem off_with_staged_text :
    ¬ ∀ actions : List Action,
      (Run.run Action.apply actions (cleared 0x01#8 {})).imeEnabled = false →
        (Run.run Action.apply actions (cleared 0x01#8 {})).pendingLength = 0 ∧
          (Run.run Action.apply actions (cleared 0x01#8 {})).pendingKeyActive = false := by
  intro all
  have length : textWaiting.pendingLength = 1 := by decide +kernel
  have off : (Run.run Action.apply textTimesOut (cleared 0x01#8 {})).imeEnabled = false := by
    rw [textTimesOut_session, Session.timedOut]
  have empty := (all textTimesOut off).1
  have kept (tsr : Tsr) : (tsr.atTicks 0xfffe).timedOut.pendingLength = tsr.pendingLength := rfl
  rw [textTimesOut_session, kept, length] at empty
  exact absurd empty (by decide)

/-- The same TEXT with the hotkey pressed before the timeout. -/
def textCancelled : List Action :=
  textArrives ++ [.environment (hotkeyHeld (machine 16#8 [])), .returnedHotkey]

theorem off_is_clean_after_hotkey :
    (Run.run Action.apply textCancelled (cleared 0x01#8 {})).pendingLength = 0 ∧
      (Run.run Action.apply textCancelled (cleared 0x01#8 {})).pendingKeyActive = false := by
  have off : (Run.run Action.apply textCancelled (cleared 0x01#8 {})).imeEnabled = false := by
    decide +kernel
  have calm : Run.AllSteps Action.apply Calm textCancelled (cleared 0x01#8 {}) := by
    simp only [textCancelled, textArrives, opening, List.cons_append, List.nil_append, Run.AllSteps]
    decide +kernel
  exact (off_is_clean 0x01#8 {} textCancelled calm).1 off

end ImeBridge
