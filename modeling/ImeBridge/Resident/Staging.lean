import ImeBridge.Resident.Accounts

/-! # Acknowledged TEXTs were enqueued whole

The staging buffer holds what the newest accepted TEXT still owes the BIOS queue.
`handle_packet` takes a second TEXT for the same OPEN_IME while the first is
unfinished, and the one TEXT_ACK then answers both.  Without that, every TEXT_ACK
is true.
-/

namespace ImeBridge

open Library

/-- The event is no TEXT_ACK, or every TEXT accepted under its number is whole. -/
def WholeAtAck (before : List Event) (event : Event) : Prop :=
  ∀ sequence, event.textAck = some sequence →
    ∀ job ∈ (accounts before).texts, job.label.sequence = sequence → job.Whole

/-- The acceptance displaces no unfinished TEXT of its own number: a TEXT finds all
earlier ones whole, and a KEY that comes while a TEXT is staged all but that one. -/
def Undisturbed (before : List Event) : Event → Prop
  | .acceptedText sequence _ =>
    ∀ job ∈ (accounts before).texts, job.label.sequence = sequence → job.Whole
  | .acceptedKey sequence _ true =>
    ∀ job ∈ (accounts before).texts.tail, job.label.sequence = sequence → job.Whole
  | _ => True

instance (before : List Event) (event : Event) : Decidable (Undisturbed before event) := by
  unfold Undisturbed; split <;> infer_instance

namespace Session

/-- What the staged TEXT still owes, next to the answers given so far. -/
structure Staging (session : Session) : Prop where
  length : session.pendingLength ≠ 0 → session.pendingText.length = session.pendingLength
  owes : session.pendingLength ≠ 0 →
    Ledger.Owes (keyWords (session.pendingText.drop session.pendingOffset)) (fun _ => True)
      (fun job => job.label.sequence = session.pendingSequence → job.Whole)
      (accounts session.history).texts
  answered : History.Everywhere WholeAtAck session.history

namespace Staging

variable {session next : Session}

theorem initial : ({} : Session).Staging :=
  ⟨by simp, by simp, History.everywhere_nil⟩

theorem aside (moved : session.Aside next) (staging : session.Staging) : next.Staging := by
  obtain ⟨⟨events, history, areAside⟩, staged⟩ := moved
  have answered : History.Everywhere WholeAtAck next.history := by
    rw [history]
    refine History.everywhere_append staging.answered fun before event member sequence isAck => ?_
    simp [Event.textAck_of_aside (areAside event member)] at isAck
  obtain dropped | ⟨text, length, offset, sequence, -, -⟩ := staged
  · have empty : next.pendingLength = 0 := not_not.mp fun staged => dropped (.inl staged)
    exact ⟨by simp [empty], by simp [empty], answered⟩
  · refine ⟨?_, ?_, answered⟩
    · rw [text, length]
      exact staging.length
    · rw [history, accounts_aside _ areAside, text, length, offset, sequence]
      exact staging.owes

/-- An event that is no TEXT_ACK leaves the answers true. -/
theorem answered_concat {history : List Event} {event : Event} (noAck : event.textAck = none)
    (answered : History.Everywhere WholeAtAck history) :
    History.Everywhere WholeAtAck (history ++ [event]) :=
  History.everywhere_concat.mpr ⟨answered, by simp [WholeAtAck, noAck]⟩

theorem queuedText {key : Word} {input : Nat} (staging : session.Staging)
    (remaining : session.pendingOffset < session.pendingLength)
    (encoded : pc98BiosEncodeKey session.pendingText session.pendingLength session.pendingOffset =
      (key, input)) :
    ({ session with pendingOffset := input + 1 }.note (.queuedText key)).Staging := by
  have staged : session.pendingLength ≠ 0 := by omega
  have length := staging.length staged
  refine ⟨fun _ => length, fun _ => ?_, answered_concat rfl staging.answered⟩
  -- The word the encoder returns is the first that is still owed.
  have encodes := (pc98BiosEncodeKey_spec (length ▸ remaining)).1
  have owes := staging.owes staged
  rw [encodes, length, encoded] at owes
  simpa [Session.note, Accounts.enter] using owes.deliver

theorem answeredText {written : Nat} {succeeded : Bool} (staging : session.Staging)
    (staged : session.pendingLength ≠ 0)
    (finished : session.pendingOffset ≥ session.pendingLength) :
    (session.answeredText written succeeded).Staging := by
  refine ⟨by simp [Session.answeredText], by simp [Session.answeredText],
    History.everywhere_concat.mpr ⟨staging.answered, ?_⟩⟩
  have owes := staging.owes staged
  -- Past the end of the text nothing is owed, so the newest TEXT is whole too.
  have nothing : session.pendingText.drop session.pendingOffset = [] := by
    simp [staging.length staged, finished]
  rw [nothing] at owes
  intro sequence isAck job member same
  simp only [Event.textAck, if_true, Option.some.injEq] at isAck
  exact owes.done (fun job whole _ => whole) job member (same.trans isAck.symm)

theorem answeredKey {written : Nat} {succeeded : Bool} (staging : session.Staging) :
    (session.answeredKey written succeeded).Staging := by
  have history := session.answeredKey_history written succeeded
  refine ⟨staging.length, fun staged => ?_, ?_⟩
  · rw [history, accounts_concat, accounts_concat]
    exact staging.owes staged
  · rw [history]
    exact answered_concat rfl (answered_concat rfl staging.answered)

theorem handled {packet : Packet} (does : Session.Handled packet session next)
    (undisturbed : History.Everywhere Undisturbed next.history) (staging : session.Staging) :
    next.Staging := by
  cases does with
  | greeted => exact ⟨staging.length, staging.owes, staging.answered⟩
  | greetedAsking written succeeded =>
    have linked : ({ session with linkState := .ready, waitTicks := 0#16 } : Session).Staging :=
      ⟨staging.length, staging.owes, staging.answered⟩
    exact linked.aside (.asked _ written succeeded)
  | text =>
    -- The TEXT that was staged until now joins those that must be whole already.
    have settled := (History.everywhere_concat.mp undisturbed).2
    refine ⟨fun _ => rfl, fun _ => ?_, answered_concat rfl staging.answered⟩
    simp only [Session.note, accounts_concat, Accounts.enter]
    exact Ledger.owes_accept _ _ trivial settled
  | key key =>
    -- The staged TEXT is answered under the number of the KEY from now on.
    refine ⟨staging.length, fun staged => ?_, answered_concat rfl staging.answered⟩
    have unfinished : session.pendingLength ≠ 0 := staged
    have settled := (History.everywhere_concat.mp undisturbed).2
    simp only [decide_eq_true unfinished] at settled
    simpa [Session.note, Accounts.enter] using (staging.owes unfinished).weaken (fun _ => id) settled
  | close written succeeded => exact staging.aside (.note_closed session written succeeded rfl)
  | ignored => exact staging

theorem step (does : Session.Step session next) (staging : session.Staging) : next.Staging := by
  cases does with
  | turnedOn =>
    refine ⟨staging.length, fun staged => ?_, answered_concat rfl staging.answered⟩
    simpa [Session.note, Accounts.enter] using staging.owes staged
  | turnedOff written succeeded => exact staging.aside (.note_closed session written succeeded rfl)
  | shutDown written succeeded => exact staging.aside (.closed session written succeeded)
  | queuedText key input remaining encoded => exact staging.queuedText remaining encoded
  | answeredText written succeeded staged finished => exact staging.answeredText staged finished
  | answeredKey written succeeded => exact staging.answeredKey
  | asked written succeeded => exact staging.aside (.asked session written succeeded)
  | greeting written succeeded => exact staging.aside (.greeting session written succeeded)
  | ticked => exact ⟨staging.length, staging.owes, staging.answered⟩

end Staging

end Session

theorem Action.staging (tsr : Tsr) (action : Action)
    (start : History.Everywhere Undisturbed tsr.history → tsr.Staging) :
    History.Everywhere Undisturbed (action.apply tsr).history → (action.apply tsr).Staging := by
  refine action.preserves (fun session =>
    History.Everywhere Undisturbed session.history → session.Staging) ?_ ?_ start
  · intro session next does staging undisturbed
    have before := staging (undisturbed.earlier does.grows)
    cases does with
    | own does => exact before.step does
    | packet packet fits does => exact before.handled does undisturbed
  · intro before _ _ staging undisturbed
    exact (staging (undisturbed.earlier (List.prefix_append _ _))).aside (.timedOut before.toSession)

/-- In every run in which no acceptance displaces an unfinished TEXT of its own
number, whatever bytes the peer sends: when a TEXT_ACK is written, every TEXT
accepted under its number has all its key words in the BIOS queue, in order. -/
theorem textAck_after_whole_text (modifierMask : Byte) (hardware : Hardware) (actions : List Action)
    (undisturbed : History.Everywhere Undisturbed
      (Run.run Action.apply actions (cleared modifierMask hardware)).history) :
    History.Everywhere WholeAtAck
      (Run.run Action.apply actions (cleared modifierMask hardware)).history :=
  (Run.invariant Action.apply Action.staging actions (fun _ => .initial) undisturbed).answered

/-- Two TEXTs for one OPEN_IME arrive while the BIOS queue is full; then it drains. -/
def twoTexts : List Action :=
  opening ++ [.environment (machine 16#8 (imePacketBuild imeText 2#16 [0x41#8] ++
    imePacketBuild imeText 2#16 [0x42#8])), .foreground, .environment (machine 0#8 []), .foreground]

/-- The one TEXT_ACK of that run also answers the first TEXT, which was displaced
before any of its words was enqueued. -/
theorem textAck_before_whole_text :
    (Run.run Action.apply twoTexts (cleared 0x01#8 {})).history.drop 3 =
        [.acceptedText 2#16 [0x41#8], .acceptedText 2#16 [0x42#8], .queuedText 0x0042#16,
          .sent ⟨imeTextAck, 2#16, []⟩ 10 true, .sent ⟨imeOpenIme, 3#16, []⟩ 10 true] ∧
      ¬ ∀ actions, History.Everywhere WholeAtAck
        (Run.run Action.apply actions (cleared 0x01#8 {})).history := by
  have history : (Run.run Action.apply twoTexts (cleared 0x01#8 {})).history =
      [.toggled true, .sent ⟨imeHello, 1#16, hello⟩ 21 true, .sent ⟨imeOpenIme, 2#16, []⟩ 10 true,
        .acceptedText 2#16 [0x41#8], .acceptedText 2#16 [0x42#8], .queuedText 0x0042#16] ++
      .sent ⟨imeTextAck, 2#16, []⟩ 10 true :: [.sent ⟨imeOpenIme, 3#16, []⟩ 10 true] := by
    decide +kernel
  refine ⟨by rw [history]; rfl, fun all => ?_⟩
  have whole := all twoTexts _ _ _ history 2#16 rfl
    ⟨⟨2#16, 1⟩, [0x0041#16], []⟩ (by decide) rfl
  exact absurd whole (by decide)

/-- One TEXT for the OPEN_IME: the run meets the condition and answers it. -/
theorem textAck_after_whole_text_single :
    History.Everywhere WholeAtAck (Run.run Action.apply
      (opening ++ [.environment (machine 0#8 (imePacketBuild imeText 2#16 [0x41#8])), .foreground])
      (cleared 0x01#8 {})).history := by
  apply textAck_after_whole_text
  have history : (Run.run Action.apply
      (opening ++ [.environment (machine 0#8 (imePacketBuild imeText 2#16 [0x41#8])), .foreground])
      (cleared 0x01#8 {})).history =
      [.toggled true, .sent ⟨imeHello, 1#16, hello⟩ 21 true, .sent ⟨imeOpenIme, 2#16, []⟩ 10 true,
        .acceptedText 2#16 [0x41#8], .queuedText 0x0041#16, .sent ⟨imeTextAck, 2#16, []⟩ 10 true,
        .sent ⟨imeOpenIme, 3#16, []⟩ 10 true] := by
    decide +kernel
  rw [history]
  decide +kernel

end ImeBridge
