import ImeBridge.Resident.Runs

/-! # The flags of the session agree with one another

`Consistent` holds between any two steps, inside a run as well.  Only the last
part of the session-state invariant, that a ready link has an input request out,
is broken by an answer and restored by `openStage` in the same run.
-/

namespace ImeBridge

open Library Session

namespace Session

structure Consistent (session : Session) : Prop where
  opened : session.serialOpened = true ↔ session.linkState ≠ .closed
  active_ready : session.imeActive = true → session.linkState = .ready
  off : session.imeEnabled = false →
    session.linkState = .closed ∧ session.imeActive = false ∧ session.openPending = false
  on : session.imeEnabled = true → session.openPending = !session.imeActive

namespace Consistent

variable {session next : Session}

theorem initial : ({} : Session).Consistent :=
  ⟨by simp, by simp, by simp, by simp⟩

/-- With the link up, the IME is on. -/
theorem enabled (consistent : session.Consistent) (link : session.linkState ≠ .closed) :
    session.imeEnabled = true := by
  by_contra disabled
  exact link (consistent.off (by simpa using disabled)).1

/-- Where the link is not up, no input is requested. -/
theorem idle (consistent : session.Consistent) (notReady : session.linkState ≠ .ready) :
    session.imeActive = false :=
  Bool.eq_false_of_not_eq_true fun active => notReady (consistent.active_ready active)

theorem active_enabled (consistent : session.Consistent) (active : session.imeActive = true) :
    session.imeEnabled = true := by
  apply consistent.enabled
  simp [consistent.active_ready active]

theorem pending_enabled (consistent : session.Consistent) (request : session.openPending = true) :
    session.imeEnabled = true := by
  by_contra disabled
  simp [(consistent.off (by simpa using disabled)).2.2] at request

theorem closed (session : Session) (written : Nat) (succeeded : Bool)
    (consistent : session.Consistent) : (session.closed written succeeded).Consistent := by
  have opened := consistent.opened
  refine ⟨?_, by simp [Session.closed], by simp [Session.closed], by simp [Session.closed]⟩
  cases link : session.linkState with
  | closed | helloWait | ready => simp [Session.closed, opened, link]

/-- Asking for input on a ready link, whether or not the request goes out. -/
theorem asked (written : Nat) (succeeded : Bool) (opened : session.serialOpened = true)
    (link : session.linkState = .ready) (on : session.imeEnabled = true) :
    (session.asked written succeeded).Consistent := by
  cases succeeded with
  | true =>
    exact
      { opened := by simp [Session.asked, Session.note, opened, link]
        active_ready := by simp [Session.asked, Session.note, link]
        off := by simp [Session.asked, Session.note, on]
        on := by simp [Session.asked, Session.note] }
  | false =>
    exact
      { opened := by simp [Session.asked, Session.reset]
        active_ready := by simp [Session.asked, Session.reset]
        off := by simp [Session.asked, Session.reset, Session.note, on]
        on := by simp [Session.asked, Session.reset] }

theorem handled {packet : Packet} (does : Handled packet session next)
    (consistent : session.Consistent) : next.Consistent := by
  cases does with
  | greeted isPong link noRequest =>
    -- Off the books: with the link in `helloWait` an OPEN_IME is always held back.
    have on := consistent.enabled (by simp [link])
    have active := consistent.on on
    have ready := consistent.active_ready
    simp_all
  | greetedAsking written succeeded isPong link request =>
    have opened : session.serialOpened = true := consistent.opened.mpr (by simp [link])
    exact asked written succeeded opened rfl (consistent.pending_enabled request)
  | text => exact ⟨consistent.opened, consistent.active_ready, consistent.off, consistent.on⟩
  | key => exact ⟨consistent.opened, consistent.active_ready, consistent.off, consistent.on⟩
  | close written succeeded =>
    have noted : (session.note (.acceptedClose packet.sequence)).Consistent :=
      ⟨consistent.opened, consistent.active_ready, consistent.off, consistent.on⟩
    exact noted.closed _ written succeeded
  | ignored => exact consistent

theorem step (does : Step session next) (consistent : session.Consistent) : next.Consistent := by
  cases does with
  | turnedOn off =>
    obtain ⟨closed, idle, noRequest⟩ := consistent.off off
    exact ⟨consistent.opened, consistent.active_ready, by simp [Session.note],
      by simp [Session.note, idle]⟩
  | turnedOff written succeeded =>
    have noted : (session.note (.toggled false)).Consistent :=
      ⟨consistent.opened, consistent.active_ready, consistent.off, consistent.on⟩
    exact noted.closed _ written succeeded
  | shutDown written succeeded => exact consistent.closed _ written succeeded
  | queuedText => exact ⟨consistent.opened, consistent.active_ready, consistent.off, consistent.on⟩
  | answeredText written succeeded =>
    exact ⟨consistent.opened, by simp [Session.answeredText],
      fun off => ⟨(consistent.off off).1, rfl, off⟩, by simp [Session.answeredText]⟩
  | answeredKey written succeeded =>
    exact ⟨consistent.opened, by simp [Session.answeredKey],
      fun off => ⟨(consistent.off off).1, rfl, off⟩, by simp [Session.answeredKey]⟩
  | asked written succeeded request idle link =>
    -- A failed OPEN_IME takes the link down but keeps the request.
    exact asked written succeeded (consistent.opened.mpr (by simp [link])) link
      (consistent.pending_enabled request)
  | greeting written succeeded request idle link =>
    have on := consistent.pending_enabled request
    cases succeeded with
    | true =>
      exact
        { opened := by simp [Session.greeting, Session.note]
          active_ready := by simp [Session.greeting, Session.note, idle]
          off := by simp [Session.greeting, Session.note, on]
          on := by simp [Session.greeting, Session.note, idle, request] }
    | false =>
      exact
        { opened := by simp [Session.greeting, Session.reset]
          active_ready := by simp [Session.greeting, Session.reset]
          off := by simp [Session.greeting, Session.reset, Session.note, on]
          on := by simp [Session.greeting, Session.reset, Session.note, request] }
  | ticked => exact ⟨consistent.opened, consistent.active_ready, consistent.off, consistent.on⟩

theorem move (session next : Session) (does : Move session next) (consistent : session.Consistent) :
    next.Consistent := by
  cases does with
  | own does => exact consistent.step does
  | packet packet fits does => exact consistent.handled does

theorem timedOut (session : Session) : session.timedOut.Consistent :=
  ⟨by simp [Session.timedOut, Session.reset], by simp [Session.timedOut, Session.reset],
    by simp [Session.timedOut, Session.reset], by simp [Session.timedOut]⟩

end Consistent

end Session

/-! ## What holds between runs only -/

/-- Every part of the session-state invariant. -/
structure Session.Settled (session : Session) : Prop extends Consistent session where
  ready_active : session.linkState = .ready → session.imeActive = true

theorem openStage_settled (tsr : Tsr) (consistent : tsr.Consistent) : (openStage tsr).Settled := by
  have steps := (openStage_session tsr).moves.preserves Consistent.move consistent
  refine ⟨steps, fun link => ?_⟩
  obtain ⟨request, idle, ⟨_, written, succeeded, asks⟩ | ⟨_, written, succeeded, greets⟩⟩ |
    ⟨asked, same⟩ := openStage_cases tsr
  · rw [asks] at link ⊢
    cases succeeded with
    | false => simp [Session.asked, Session.reset] at link
    | true => simp [Session.asked]
  · rw [greets] at link
    cases succeeded with
    | false => simp [Session.greeting, Session.reset] at link
    | true => simp [Session.greeting] at link
  · -- A ready link without a sent request would have a pending one, which is sent here.
    rw [same] at link ⊢
    by_contra idle
    have request := consistent.on (consistent.enabled (by simp [link]))
    simp_all

theorem tickStage_settled (tsr : Tsr) (settled : tsr.Settled) : (tickStage tsr).Settled := by
  rw [tickStage_session]
  split_ifs
  · exact ⟨.timedOut tsr.toSession, by simp [Session.timedOut, Session.reset]⟩
  · exact ⟨⟨settled.opened, settled.active_ready, settled.off, settled.on⟩, settled.ready_active⟩
  · exact settled

theorem toggleImeHotkey_settled (tsr : Tsr) (settled : tsr.Settled) :
    (toggleImeHotkey tsr).Settled := by
  have steps := (toggleImeHotkey_session tsr).moves.preserves Consistent.move settled.toConsistent
  refine ⟨steps, fun link => ?_⟩
  obtain ⟨_, written, succeeded, closes⟩ | ⟨off, opens⟩ := toggleImeHotkey_cases tsr
  · simp [closes, Session.closed] at link
  · simp [opens, Session.note, (settled.off off).1] at link

theorem beforeTick_settled (tsr : Tsr) (settled : tsr.Settled) : (beforeTick tsr).Settled := by
  have moves : Moves tsr.toSession (injectStage (receiveStage (hotkeyStage tsr))).toSession :=
    (hotkeyStage_session tsr).moves.trans <|
      (receiveStage_session _).trans (injectStage_session _).moves
  exact openStage_settled _ (moves.preserves Consistent.move settled.toConsistent)

theorem Action.settled (tsr : Tsr) (action : Action) (start : tsr.Settled) :
    (action.apply tsr).Settled := by
  cases serves : action.service tsr with
  | none =>
    obtain same | ⟨rest, same, toggles⟩ | ⟨written, succeeded, closes⟩ := service_none serves
    · rwa [same]
    · rw [toggles]
      exact toggleImeHotkey_settled rest (same ▸ start)
    · rw [closes]
      exact ⟨.closed _ written succeeded start.toConsistent, by simp [Session.closed]⟩
  | some rest =>
    obtain ⟨same, applies⟩ := service_some serves
    -- Inside the run the flags agree; its last two stages settle them.
    rw [applies]
    exact tickStage_settled _ (beforeTick_settled rest (same ▸ start))

theorem cleared_settled (modifierMask : Byte) (hardware : Hardware) :
    (cleared modifierMask hardware).Settled :=
  ⟨.initial, by simp [cleared]⟩

/-- The session-state invariant: after every sequence of worker runs, whatever the
machine does in between, the port is open exactly while the link is up, input is
only requested on a ready link, OFF means closed and idle, ON means that exactly
one of a pending and a sent input request is there, and a ready link has one sent. -/
theorem session_flags_agree (modifierMask : Byte) (hardware : Hardware) (actions : List Action) :
    let tsr := Run.run Action.apply actions (cleared modifierMask hardware)
    (tsr.serialOpened = true ↔ tsr.linkState ≠ .closed) ∧
      (tsr.imeActive = true → tsr.linkState = .ready) ∧
      (tsr.imeEnabled = false →
        tsr.linkState = .closed ∧ tsr.imeActive = false ∧ tsr.openPending = false) ∧
      (tsr.imeEnabled = true → Xor (tsr.openPending = true) (tsr.imeActive = true)) ∧
      (tsr.linkState = .ready → tsr.imeActive = true) := by
  intro tsr
  have settled : tsr.Settled := Run.invariant Action.apply
    (fun state action => Action.settled state action) actions (cleared_settled modifierMask hardware)
  refine ⟨settled.opened, settled.active_ready, settled.off, fun on => ?_, settled.ready_active⟩
  rw [settled.on on]
  cases tsr.imeActive <;> simp [Xor]

end ImeBridge
