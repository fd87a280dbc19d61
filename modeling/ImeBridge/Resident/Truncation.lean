import ImeBridge.Library.History
import ImeBridge.Resident.Port

/-! # What follows a packet that was cut off

`send_packet` has five callers.  Those of HELLO, OPEN_IME and CLOSE_IME end the link
before anything else is written; those of TEXT_ACK and KEY_ACK do not look at the
result.
-/

namespace ImeBridge

open Library

/-- The packet is one of the two answers to staged input. -/
def Event.isAnswer : Event → Bool
  | .sent packet _ _ => packet.type = imeTextAck || packet.type = imeKeyAck
  | _ => false

/-- The event writes to the data port. -/
def Event.writes : Event → Bool
  | .sent _ written _ => written ≠ 0
  | _ => false

/-- What happened since the last `reset_link`, newest first. -/
def sinceReset (history : List Event) : List Event :=
  history.reverse.takeWhile fun event => event ≠ .linkReset

@[simp] theorem sinceReset_reset (history : List Event) : sinceReset (history ++ [.linkReset]) = [] := by
  simp [sinceReset]

theorem mem_sinceReset_concat {history : List Event} {event earlier : Event}
    (member : earlier ∈ sinceReset (history ++ [event])) :
    earlier = event ∨ earlier ∈ sinceReset history := by
  simp only [sinceReset, List.reverse_append, List.reverse_cons, List.reverse_nil, List.nil_append,
    List.singleton_append, List.takeWhile_cons] at member
  split at member
  · exact List.mem_cons.mp member
  · simp at member

/-- A byte is written only while every packet of its link has gone out whole. -/
def Unspoiled (before : List Event) (event : Event) : Prop :=
  event.writes = true → ∀ earlier ∈ sinceReset before, earlier.failed = false

/-- A byte is written only while every TEXT_ACK and KEY_ACK since the last `reset_link` has
gone out whole. -/
def AnswersWhole (before : List Event) (event : Event) : Prop :=
  event.writes = true → ∀ earlier ∈ sinceReset before, earlier.isAnswer = true → earlier.failed = false

instance (before : List Event) (event : Event) : Decidable (Unspoiled before event) := by
  unfold Unspoiled; infer_instance

instance (before : List Event) (event : Event) : Decidable (AnswersWhole before event) := by
  unfold AnswersWhole; infer_instance

/-- Since the last `reset_link`, only answers failed; and it was so before each event. -/
structure OnlyAnswersFail (history : List Event) : Prop where
  now : ∀ earlier ∈ sinceReset history, earlier.failed = true → earlier.isAnswer = true
  always : History.Everywhere (fun before event => event.writes = true →
    ∀ earlier ∈ sinceReset before, earlier.failed = true → earlier.isAnswer = true) history

namespace OnlyAnswersFail

variable {history : List Event} {event : Event}

theorem empty : OnlyAnswersFail [] := ⟨by simp [sinceReset], History.everywhere_nil⟩

/-- An event that is no failed send, or an answer. -/
theorem concat (only : OnlyAnswersFail history) (handled : event.failed = true → event.isAnswer = true) :
    OnlyAnswersFail (history ++ [event]) where
  now := by
    intro earlier member failed
    rcases mem_sinceReset_concat member with rfl | before
    · exact handled failed
    · exact only.now earlier before failed
  always := History.everywhere_concat.mpr ⟨only.always, fun _ => only.now⟩

theorem reset (only : OnlyAnswersFail history) : OnlyAnswersFail (history ++ [.linkReset]) :=
  only.concat (by simp [Event.failed])

/-- A send that may fail, with `reset_link` right behind it. -/
theorem sendReset (only : OnlyAnswersFail history) (event : Event) :
    OnlyAnswersFail (history ++ [event, .linkReset]) where
  now := by
    rw [List.append_cons, sinceReset_reset]
    simp
  always := by
    have sent := History.everywhere_concat.mpr ⟨only.always, fun (_ : event.writes = true) => only.now⟩
    rw [List.append_cons]
    exact History.everywhere_concat.mpr ⟨sent, by simp [Event.writes]⟩

/-- A send after whose failure `reset_link` runs. -/
theorem send (only : OnlyAnswersFail history) (packet : Packet) (written : Nat) (succeeded : Bool) :
    OnlyAnswersFail (history ++
      (.sent packet written succeeded :: if succeeded then [] else [.linkReset])) := by
  cases succeeded with
  | true => exact only.concat (by simp [Event.failed])
  | false => exact only.sendReset _

variable {session next : Session}

theorem closed (only : OnlyAnswersFail session.history) (written : Nat) (succeeded : Bool) :
    OnlyAnswersFail (session.closed written succeeded).history := by
  simp only [Session.closed, Session.farewell]
  cases session.linkState with
  | closed => simpa using only
  | helloWait => exact only.reset
  | ready => exact only.sendReset _

theorem handled {packet : Packet} (does : Session.Handled packet session next)
    (only : OnlyAnswersFail session.history) : OnlyAnswersFail next.history := by
  cases does with
  | greeted | ignored => exact only
  | greetedAsking written succeeded =>
    rw [Session.asked_history]
    exact only.send _ written succeeded
  | text | key => exact only.concat (by simp [Event.failed])
  | close written succeeded =>
    have noted : OnlyAnswersFail (session.note (.acceptedClose packet.sequence)).history :=
      only.concat (by simp [Event.failed])
    exact noted.closed written succeeded

theorem step (does : Session.Step session next) (only : OnlyAnswersFail session.history) :
    OnlyAnswersFail next.history := by
  cases does with
  | turnedOn | queuedText => exact only.concat (by simp [Event.failed])
  | turnedOff written succeeded =>
    have noted : OnlyAnswersFail (session.note (.toggled false)).history :=
      only.concat (by simp [Event.failed])
    exact noted.closed written succeeded
  | shutDown written succeeded => exact only.closed written succeeded
  | answeredText written succeeded =>
    -- The result of the ACK is not looked at: it may have failed.
    exact only.concat (by simp [Event.isAnswer])
  | answeredKey written succeeded =>
    rw [Session.answeredKey_history]
    exact (only.concat (by simp [Event.failed])).concat (by simp [Event.isAnswer])
  | asked written succeeded =>
    rw [Session.asked_history]
    exact only.send _ written succeeded
  | greeting written succeeded =>
    rw [Session.greeting_history]
    exact only.send _ written succeeded
  | ticked => exact only

end OnlyAnswersFail

theorem Action.onlyAnswersFail (tsr : Tsr) (action : Action) (only : OnlyAnswersFail tsr.history) :
    OnlyAnswersFail (action.apply tsr).history := by
  refine action.preserves (fun session => OnlyAnswersFail session.history) ?_ ?_ only
  · intro session next does only
    cases does with
    | own does => exact only.step does
    | packet packet fits does => exact only.handled does
  · intro before _ _ only
    exact only.reset

/-! ## Answers that go out whole -/

/-- COM1 is open and the transmitter takes the ten bytes of an answer. -/
def Tsr.TakesAnswer (tsr : Tsr) : Prop :=
  tsr.serialOpened = true ∧ ∀ limit ∈ tsr.transmitLimits.head?, 10 ≤ limit

instance (tsr : Tsr) : Decidable tsr.TakesAnswer := by unfold Tsr.TakesAnswer; infer_instance

/-- The staged TEXT comes to its end here, and its TEXT_ACK does not go out whole. -/
def Tsr.CutsTextAck (tsr : Tsr) : Prop :=
  let loop := injectTextLoop 16 tsr
  tsr.pendingLength ≠ 0 ∧ (loop.1 = true ∧ loop.2.pendingOffset ≥ loop.2.pendingLength) ∧
    ¬ loop.2.TakesAnswer

/-- The staged KEY is queued here, and its KEY_ACK does not go out whole. -/
def Tsr.CutsKeyAck (tsr : Tsr) : Prop :=
  tsr.pendingKeyActive = true ∧ (pc98BiosEnqueueWord tsr.pendingKey tsr.memory).1 = true ∧
    ¬ tsr.TakesAnswer

instance (tsr : Tsr) : Decidable tsr.CutsTextAck := by unfold Tsr.CutsTextAck; infer_instance

instance (tsr : Tsr) : Decidable tsr.CutsKeyAck := by unfold Tsr.CutsKeyAck; infer_instance

/-- The worker run of the action comes to answer staged input, and the answer does not go
out whole. -/
def CutsAnswer (tsr : Tsr) (action : Action) : Prop :=
  match action.service tsr with
  | none => False
  | some start =>
    let received := receiveStage (hotkeyStage start)
    received.CutsTextAck ∨
      Tsr.CutsKeyAck (if received.pendingLength ≠ 0 then injectPendingText received else received)

instance (tsr : Tsr) (action : Action) : Decidable (CutsAnswer tsr action) := by
  unfold CutsAnswer; split <;> infer_instance

/-- The history grows, and not by an answer that failed. -/
def Session.KeepsWhole (session next : Session) : Prop :=
  ∃ added, next.history = session.history ++ added ∧
    ∀ event ∈ added, event.isAnswer = true → event.failed = false

namespace Session.KeepsWhole

variable {session middle next : Session}

theorem same (history : next.history = session.history) : session.KeepsWhole next :=
  ⟨[], by simp [history], by simp⟩

theorem trans (first : session.KeepsWhole middle) (second : middle.KeepsWhole next) :
    session.KeepsWhole next := by
  obtain ⟨firstAdded, firstHistory, firstWhole⟩ := first
  obtain ⟨secondAdded, secondHistory, secondWhole⟩ := second
  refine ⟨firstAdded ++ secondAdded, by simp [secondHistory, firstHistory], fun event member => ?_⟩
  exact (List.mem_append.mp member).elim (firstWhole event) (secondWhole event)

theorem single {event : Event} (history : next.history = session.history ++ [event])
    (whole : event.isAnswer = true → event.failed = false) : session.KeepsWhole next :=
  ⟨[event], history, by simpa using whole⟩

/-- A send that is no answer, with what follows it. -/
theorem send {packet : Packet} {written : Nat} {succeeded : Bool} {added : List Event}
    (other : packet.type ≠ imeTextAck ∧ packet.type ≠ imeKeyAck)
    (history : next.history = session.history ++ .sent packet written succeeded :: added)
    (resets : ∀ event ∈ added, event = .linkReset) : session.KeepsWhole next := by
  refine ⟨_, history, fun event member answer => ?_⟩
  rcases List.mem_cons.mp member with rfl | later
  · simp [Event.isAnswer, other] at answer
  · rw [resets event later]
    rfl

theorem asked (session : Session) (written : Nat) (succeeded : Bool) :
    session.KeepsWhole (session.asked written succeeded) := by
  refine send (by dsimp only; decide) (session.asked_history written succeeded) ?_
  cases succeeded with
  | false => simp
  | true => simp

theorem greeting (session : Session) (written : Nat) (succeeded : Bool) :
    session.KeepsWhole (session.greeting written succeeded) := by
  refine send (by dsimp only; decide) (session.greeting_history written succeeded) ?_
  cases succeeded with
  | false => simp
  | true => simp

theorem closed (session : Session) (written : Nat) (succeeded : Bool) :
    session.KeepsWhole (session.closed written succeeded) := by
  refine ⟨session.farewell written succeeded, rfl, fun event member answer => ?_⟩
  simp only [Session.farewell] at member
  split at member
  · simp at member
  · rw [List.mem_singleton.mp member]
    rfl
  · rcases List.mem_cons.mp member with rfl | reset
    · simp [Event.isAnswer, imeCloseIme, imeTextAck, imeKeyAck] at answer
    · rw [List.mem_singleton.mp reset]
      rfl

theorem handled {packet : Packet} (does : Session.Handled packet session next) :
    session.KeepsWhole next := by
  cases does with
  | greeted | ignored => exact same rfl
  | greetedAsking written succeeded =>
    exact asked { session with linkState := .ready, waitTicks := 0#16 } written succeeded
  | text | key => exact single rfl (by simp [Event.isAnswer])
  | close written succeeded =>
    have noted : session.KeepsWhole (session.note (.acceptedClose packet.sequence)) :=
      single rfl (by simp [Event.isAnswer])
    exact noted.trans (closed _ written succeeded)

end Session.KeepsWhole

section Stages

open Session

variable (tsr : Tsr)

theorem toggleImeHotkey_keepsWhole : tsr.KeepsWhole (toggleImeHotkey tsr).toSession := by
  obtain ⟨on, written, succeeded, closes⟩ | ⟨off, opens⟩ := toggleImeHotkey_cases tsr
  · rw [closes]
    have noted : tsr.KeepsWhole (tsr.toSession.note (.toggled false)) :=
      .single rfl (by simp [Event.isAnswer])
    exact noted.trans (.closed _ written succeeded)
  · rw [opens]
    exact .single rfl (by simp [Event.isAnswer])

theorem hotkeyStage_keepsWhole : tsr.KeepsWhole (hotkeyStage tsr).toSession := by
  obtain same | ⟨rest, same, toggles⟩ := hotkeyStage_cases tsr
  · rw [same]
    exact .same rfl
  · rw [toggles, ← same]
    exact toggleImeHotkey_keepsWhole rest

theorem receiveStage_keepsWhole : tsr.KeepsWhole (receiveStage tsr).toSession := by
  simp only [receiveStage]
  split
  · refine @pollLoop_rule tsr (fun before after => before.KeepsWhole after.toSession)
      (fun _ => .same rfl) .trans ?_ ?_ 32
    · intro rest
      exact .same (congrArg Session.history (pollByte_session rest))
    · intro rest value
      obtain same | ⟨packet, _, handled⟩ := acceptByte_cases rest value
      · exact .same (congrArg Session.history same)
      · exact .handled handled
  · exact .same rfl

theorem injectPendingText_keepsWhole (staged : tsr.pendingLength ≠ 0) (takes : ¬ tsr.CutsTextAck) :
    tsr.KeepsWhole (injectPendingText tsr).toSession := by
  have loop : tsr.KeepsWhole (injectTextLoop 16 tsr).2.toSession := by
    refine @injectTextLoop_rule tsr (fun before after => before.KeepsWhole after.toSession)
      (fun _ => .same rfl) (fun _ _ _ _ => .same rfl) ?_ 16
    intro rest after key input memory _ _ _ later
    have noted : rest.KeepsWhole (rest.toSession.note (.queuedText key)) :=
      .single rfl (by simp [Event.isAnswer])
    exact noted.trans later
  obtain ⟨rest, sent, looped, sends, waits | ⟨finished, answers⟩⟩ := injectPendingText_cases tsr
  · rwa [waits, ← looped]
  · rw [looped] at loop
    have goesOut : rest.TakesAnswer := by
      by_contra cut
      rw [← looped] at finished cut
      exact takes ⟨staged, finished, cut⟩
    have whole := (sendPacket_takes goesOut.1 imeTextAck rest.pendingSequence
      (show ([] : List Byte).length ≤ imeMaxPayload by simp)).mpr goesOut.2
    obtain ⟨written, succeeded, limits, eq⟩ := sendPacket_eq rest imeTextAck rest.pendingSequence []
      (by simp)
    rw [eq] at whole
    rw [answers, ← sends, eq]
    refine loop.trans (.single rfl fun _ => ?_)
    simpa [Event.failed] using whole

theorem injectPendingKey_keepsWhole (staged : tsr.pendingKeyActive = true) (takes : ¬ tsr.CutsKeyAck) :
    tsr.KeepsWhole (injectPendingKey tsr).toSession := by
  obtain ⟨memory, ⟨-, refused⟩ | ⟨room, rest, sent, queued, sends, answers⟩⟩ :=
    injectPendingKey_cases tsr
  · rw [refused]
    exact .same rfl
  · have goesOut : tsr.TakesAnswer := by
      by_contra cut
      exact takes ⟨staged, by rw [room], cut⟩
    have noted : tsr.KeepsWhole rest.toSession := by
      rw [← queued]
      exact .single rfl (by simp [Event.isAnswer])
    have whole := (@sendPacket_takes rest (queued ▸ goesOut.1) imeKeyAck rest.pendingSequence
      [] (by simp)).mpr (queued ▸ goesOut.2)
    obtain ⟨written, succeeded, limits, eq⟩ := sendPacket_eq rest imeKeyAck rest.pendingSequence []
      (by simp)
    rw [eq] at whole
    rw [answers, ← sends, eq]
    refine noted.trans (.single rfl fun _ => ?_)
    simpa [Event.failed] using whole

theorem openStage_keepsWhole : tsr.KeepsWhole (openStage tsr).toSession := by
  obtain ⟨-, -, ⟨-, written, succeeded, asks⟩ | ⟨-, written, succeeded, greets⟩⟩ | ⟨-, same⟩ :=
    openStage_cases tsr
  · rw [asks]
    exact .asked _ written succeeded
  · rw [greets]
    exact .greeting _ written succeeded
  · rw [same]
    exact .same rfl

theorem tickStage_keepsWhole : tsr.KeepsWhole (tickStage tsr).toSession := by
  rw [tickStage_session]
  split_ifs
  · exact .single rfl (by simp [Event.isAnswer])
  · exact .same rfl
  · exact .same rfl

theorem injectStage_keepsWhole (text : ¬ tsr.CutsTextAck)
    (key : ¬ Tsr.CutsKeyAck (if tsr.pendingLength ≠ 0 then injectPendingText tsr else tsr)) :
    tsr.KeepsWhole (injectStage tsr).toSession := by
  have first : tsr.KeepsWhole
      (if tsr.pendingLength ≠ 0 then injectPendingText tsr else tsr).toSession := by
    split
    · rename_i staged
      exact injectPendingText_keepsWhole tsr staged text
    · exact .same rfl
  simp only [injectStage]
  generalize (if tsr.pendingLength ≠ 0 then injectPendingText tsr else tsr) = rest at first key ⊢
  split
  · rename_i staged
    exact first.trans (injectPendingKey_keepsWhole rest staged key)
  · exact first

end Stages

theorem Action.keepsWhole {tsr : Tsr} {action : Action} (takes : ¬ CutsAnswer tsr action) :
    tsr.KeepsWhole (action.apply tsr).toSession := by
  cases serves : action.service tsr with
  | none =>
    obtain same | ⟨rest, same, toggles⟩ | ⟨written, succeeded, closes⟩ := service_none serves
    · exact .same (congrArg Session.history same)
    · rw [toggles, ← same]
      exact toggleImeHotkey_keepsWhole rest
    · rw [closes]
      exact .closed _ written succeeded
  | some start =>
    obtain ⟨same, applies⟩ := service_some serves
    simp only [CutsAnswer, serves, not_or] at takes
    obtain ⟨text, key⟩ := takes
    have received := (hotkeyStage_keepsWhole start).trans (receiveStage_keepsWhole (hotkeyStage start))
    rw [applies, pc98ServiceForeground, ← same]
    generalize receiveStage (hotkeyStage start) = rest at received text key ⊢
    have injected := received.trans (injectStage_keepsWhole rest text key)
    have opened := injected.trans (openStage_keepsWhole (injectStage rest))
    exact opened.trans (tickStage_keepsWhole (openStage (injectStage rest)))

/-- In a run in which no answer is cut off, none has failed. -/
theorem run_answers_whole {modifierMask : Byte} {hardware : Hardware} {actions : List Action}
    (takes : Run.AllSteps Action.apply (fun tsr action => ¬ CutsAnswer tsr action) actions
      (cleared modifierMask hardware)) :
    ∀ event ∈ (Run.run Action.apply actions (cleared modifierMask hardware)).history,
      event.isAnswer = true → event.failed = false := by
  refine @Run.invariant_of_allSteps Tsr Action Action.apply
    (fun tsr => ∀ event ∈ tsr.history, event.isAnswer = true → event.failed = false) _
    ?_ actions _ (by simp [cleared]) takes
  intro tsr action whole goesOut event member
  obtain ⟨added, history, newWhole⟩ := Action.keepsWhole goesOut
  rw [history] at member
  exact (List.mem_append.mp member).elim (whole event) (newWhole event)

/-! ## The sequence of packets -/

/-- Only a TEXT_ACK or KEY_ACK that was cut off is ever followed by another packet of its
link: as long as every worker run that comes to answer staged input gets the answer out
whole, every byte is written to a link without a cut packet.  Without that it is so
exactly in the runs in which nothing is written behind a cut answer.  What counts as
whole has been written whole. -/
theorem packets_follow_whole_packets (modifierMask : Byte) (hardware : Hardware) (actions : List Action) :
    let history := (Run.run Action.apply actions (cleared modifierMask hardware)).history
    (Run.AllSteps Action.apply (fun tsr action => ¬ CutsAnswer tsr action) actions
        (cleared modifierMask hardware) → History.Everywhere Unspoiled history) ∧
      (History.Everywhere Unspoiled history ↔ History.Everywhere AnswersWhole history) ∧
      ∀ event ∈ history, event.Honest := by
  intro history
  have only : OnlyAnswersFail history := Run.invariant Action.apply
    (fun state action => Action.onlyAnswersFail state action) actions .empty
  have honest : ∀ event ∈ history, event.Honest := Run.invariant Action.apply
    (fun state action => Action.honest state action) actions (by simp [cleared])
  have exact : History.Everywhere AnswersWhole history → History.Everywhere Unspoiled history := by
    intro whole before event after split writes earlier member
    by_contra failed
    have isFailed : earlier.failed = true := by simpa using failed
    have isAnswer := only.always before event after split writes earlier member isFailed
    exact failed (whole before event after split writes earlier member isAnswer)
  refine ⟨fun takes => exact ?_, ⟨fun unspoiled before event after split writes earlier member _ =>
    unspoiled before event after split writes earlier member, exact⟩, honest⟩
  have answers : ∀ event ∈ history, event.isAnswer = true → event.failed = false :=
    run_answers_whole takes
  intro before event after split _ earlier member isAnswer
  have inBefore : earlier ∈ before := List.mem_reverse.mp ((List.takeWhile_sublist _).subset member)
  exact answers earlier (by rw [split]; simp [inBefore]) isAnswer

/-- A TEXT for OPEN_IME 2 arrives, and its TEXT_ACK goes out. -/
def answerWhole : List Action :=
  opening ++ [.environment (machine 0#8 (imePacketBuild imeText 2#16 [0x41#8])), .foreground]

theorem packets_follow_whole_answer :
    (Run.run Action.apply answerWhole (cleared 0x01#8 {})).history.drop 5 =
        [.sent ⟨imeTextAck, 2#16, []⟩ 10 true, .sent ⟨imeOpenIme, 3#16, []⟩ 10 true] ∧
      History.Everywhere Unspoiled (Run.run Action.apply answerWhole (cleared 0x01#8 {})).history := by
  refine ⟨by decide +kernel, (packets_follow_whole_packets 0x01#8 {} answerWhole).1 ?_⟩
  simp only [answerWhole, opening, List.cons_append, List.nil_append, Run.AllSteps, and_true]
  decide +kernel

/-- A TEXT for OPEN_IME 2 arrives, and the transmitter stops in the middle of its TEXT_ACK. -/
def answerCut : List Action :=
  opening ++ [.environment { machine 0#8 (imePacketBuild imeText 2#16 [0x41#8]) with
    transmitLimits := [5] }, .foreground]

/-- Five bytes of TEXT_ACK 2 and then all of OPEN_IME 3 go out on one link. -/
theorem packet_follows_cut_answer :
    (Run.run Action.apply answerCut (cleared 0x01#8 {})).history.drop 5 =
        [.sent ⟨imeTextAck, 2#16, []⟩ 5 false, .sent ⟨imeOpenIme, 3#16, []⟩ 10 true] ∧
      ¬ ∀ actions, History.Everywhere Unspoiled
        (Run.run Action.apply actions (cleared 0x01#8 {})).history := by
  have spoiled : ¬ History.Everywhere Unspoiled
      (Run.run Action.apply answerCut (cleared 0x01#8 {})).history := by decide +kernel
  exact ⟨by decide +kernel, fun all => spoiled (all answerCut)⟩

end ImeBridge
