import ImeBridge.Library.Progress
import ImeBridge.Resident.Consistency
import ImeBridge.Resident.Reception

/-! # The response timeout

Runs of the worker in which nothing comes from the host and no hotkey word is seen.
With the link up they lead to OFF, by way of a failed OPEN_IME and LINK_CLOSED at
the worst.  In LINK_CLOSED nothing counts: the client tries HELLO again in every
run, and only a HELLO that goes out starts the timer.
-/

namespace ImeBridge

open Library

/-! ## Between two actions -/

/-- What holds between two actions of every run. -/
structure Tsr.Resting (tsr : Tsr) : Prop where
  settled : tsr.Settled
  captured : tsr.port.capture = tsr.port.up
  empty : tsr.port.Holds []

theorem Action.resting (tsr : Tsr) (action : Action) (rests : tsr.Resting) :
    (action.apply tsr).Resting := by
  have settled := Action.settled tsr action rests.settled
  by_cases outside : ∃ hardware, action = .environment hardware
  · obtain ⟨hardware, rfl⟩ := outside
    exact ⟨settled, rests.captured, rests.empty⟩
  · have inside : ∀ hardware, action ≠ .environment hardware := fun hardware is => outside ⟨hardware, is⟩
    obtain ⟨lost, frames⟩ := action.frames inside rests.empty rests.captured
    have captured := (action.port_steps tsr inside).preserves (fun _ _ step => step.captured)
      rests.captured
    exact ⟨settled, captured, frames.drained⟩

theorem cleared_resting (modifierMask : Byte) (hardware : Hardware) :
    (cleared modifierMask hardware).Resting :=
  ⟨cleared_settled modifierMask hardware, by simp [cleared, Tsr.port], rfl⟩

/-- The client is OFF, with nothing of the session left. -/
structure Tsr.Off (tsr : Tsr) : Prop where
  disabled : tsr.imeEnabled = false
  noRequest : tsr.openPending = false
  inactive : tsr.imeActive = false
  link : tsr.linkState = .closed
  capture : tsr.irqCapture = false

theorem Tsr.Resting.off {tsr : Tsr} (rests : tsr.Resting) (disabled : tsr.imeEnabled = false) :
    tsr.Off := by
  obtain ⟨link, inactive, noRequest⟩ := rests.settled.off disabled
  have capture : tsr.irqCapture = tsr.port.up := rests.captured
  refine ⟨disabled, noRequest, inactive, link, ?_⟩
  rw [capture]
  simp [Tsr.port, link]

/-! ## Answers to staged input -/

/-- How many staged inputs are still to be answered. -/
def Session.answersLeft (session : Session) : Nat :=
  (if session.pendingLength ≠ 0 then 1 else 0) + if session.pendingKeyActive then 1 else 0

/-- What answering staged input can do to the session and the transmitter. -/
structure Tsr.Answers (before after : Tsr) : Prop where
  linkState : after.linkState = before.linkState
  imeEnabled : after.imeEnabled = before.imeEnabled
  waitTicks : after.waitTicks = before.waitTicks
  serialOpened : after.serialOpened = before.serialOpened
  limits : before.serialOpened = false → after.transmitLimits = before.transmitLimits
  outcome : (after.imeActive = before.imeActive ∧ after.openPending = before.openPending ∧
      after.answersLeft = before.answersLeft) ∨
    after.imeActive = false ∧ after.openPending = before.imeEnabled ∧
      after.answersLeft < before.answersLeft

namespace Tsr.Answers

variable {before middle after : Tsr}

theorem trans (first : before.Answers middle) (second : middle.Answers after) : before.Answers after where
  linkState := second.linkState.trans first.linkState
  imeEnabled := second.imeEnabled.trans first.imeEnabled
  waitTicks := second.waitTicks.trans first.waitTicks
  serialOpened := second.serialOpened.trans first.serialOpened
  limits := fun closed => (second.limits (first.serialOpened.trans closed)).trans (first.limits closed)
  outcome := by
    have enabled := first.imeEnabled
    rcases first.outcome with ⟨active, request, left⟩ | ⟨active, request, left⟩
    · rcases second.outcome with ⟨activeNext, requestNext, leftNext⟩ | ⟨activeNext, requestNext, leftNext⟩
      · exact .inl ⟨activeNext.trans active, requestNext.trans request, leftNext.trans left⟩
      · exact .inr ⟨activeNext, requestNext.trans enabled, left ▸ leftNext⟩
    · rcases second.outcome with ⟨activeNext, requestNext, leftNext⟩ | ⟨activeNext, requestNext, leftNext⟩
      · exact .inr ⟨activeNext.trans active, requestNext.trans request, leftNext ▸ left⟩
      · exact .inr ⟨activeNext, requestNext.trans enabled, leftNext.trans left⟩

theorem refl (tsr : Tsr) : tsr.Answers tsr :=
  ⟨rfl, rfl, rfl, rfl, fun _ => rfl, .inl ⟨rfl, rfl, rfl⟩⟩

end Tsr.Answers

/-- Sending touches neither the flags nor, with the port closed, the transmitter. -/
theorem sendPacket_answers (type : Byte) (sequence : Word) (payload : List Byte) (tsr : Tsr) :
    tsr.Answers (sendPacket type sequence payload tsr).2 := by
  simp only [sendPacket, pc98SerialWrite]
  split
  · exact .refl tsr
  · cases opened : tsr.serialOpened with
    | false => exact ⟨rfl, rfl, rfl, rfl, fun _ => rfl, .inl ⟨rfl, rfl, rfl⟩⟩
    | true =>
      cases tsr.transmitLimits with
      | nil => exact ⟨rfl, rfl, rfl, rfl, fun _ => rfl, .inl ⟨rfl, rfl, rfl⟩⟩
      | cons limit limits =>
        exact ⟨rfl, rfl, rfl, rfl, fun closed => by simp [opened] at closed, .inl ⟨rfl, rfl, rfl⟩⟩

theorem injectTextLoop_answers (budget : Nat) (tsr : Tsr) :
    tsr.Answers (injectTextLoop budget tsr).2 := by
  refine @injectTextLoop_rule tsr Tsr.Answers Tsr.Answers.refl ?_ ?_ budget
  · intro rest key memory _
    exact ⟨rfl, rfl, rfl, rfl, fun _ => rfl, .inl ⟨rfl, rfl, rfl⟩⟩
  · intro rest after key input memory _ _ _ later
    refine Tsr.Answers.trans ?_ later
    exact ⟨rfl, rfl, rfl, rfl, fun _ => rfl, .inl ⟨rfl, rfl, rfl⟩⟩

theorem injectPendingText_answers {tsr : Tsr} (staged : tsr.pendingLength ≠ 0) :
    tsr.Answers (injectPendingText tsr) := by
  have loop := injectTextLoop_answers 16 tsr
  have length := injectTextLoop_pendingLength tsr 16
  obtain ⟨rest, sent, looped, sends, waits | ⟨-, answers⟩⟩ := injectPendingText_cases tsr
  · rwa [waits, ← looped]
  · rw [looped] at loop length
    have sending := loop.trans (sendPacket_answers imeTextAck rest.pendingSequence [] rest)
    have stillStaged : sent.pendingLength ≠ 0 := by
      obtain ⟨written, succeeded, limits, eq⟩ := sendPacket_eq rest imeTextAck rest.pendingSequence []
        (by simp)
      rw [← sends, eq]
      exact fun none => staged (length ▸ none)
    rw [sends] at sending
    rw [answers]
    refine sending.trans ⟨rfl, rfl, rfl, rfl, fun _ => rfl, .inr ⟨rfl, rfl, ?_⟩⟩
    simp [Session.answersLeft, stillStaged]

theorem injectPendingKey_answers {tsr : Tsr} (staged : tsr.pendingKeyActive = true) :
    tsr.Answers (injectPendingKey tsr) := by
  obtain ⟨memory, ⟨-, refused⟩ | ⟨-, rest, sent, queued, sends, answers⟩⟩ := injectPendingKey_cases tsr
  · rw [refused]
    exact ⟨rfl, rfl, rfl, rfl, fun _ => rfl, .inl ⟨rfl, rfl, rfl⟩⟩
  · have noted : tsr.Answers rest := by
      rw [← queued]
      exact ⟨rfl, rfl, rfl, rfl, fun _ => rfl, .inl ⟨rfl, rfl, rfl⟩⟩
    have sending := noted.trans (sendPacket_answers imeKeyAck rest.pendingSequence [] rest)
    have stillStaged : sent.pendingKeyActive = true := by
      obtain ⟨written, succeeded, limits, eq⟩ := sendPacket_eq rest imeKeyAck rest.pendingSequence []
        (by simp)
      rw [← sends, eq, ← queued]
      exact staged
    rw [sends] at sending
    rw [answers]
    refine sending.trans ⟨rfl, rfl, rfl, rfl, fun _ => rfl, .inr ⟨rfl, rfl, ?_⟩⟩
    simp [Session.answersLeft, stillStaged]

theorem injectStage_answers (tsr : Tsr) : tsr.Answers (injectStage tsr) :=
  @injectStage_rule tsr Tsr.Answers (.refl tsr) injectPendingText_answers
    (fun _ text staged => text.trans (injectPendingKey_answers staged))

/-! ## One quiet run -/

/-- A run from here sees neither a byte nor a hotkey word. -/
structure Tsr.Quiet (tsr : Tsr) : Prop where
  nothingReceived : tsr.received = []
  noHotkey : tsr.HotkeyHeld → (pc98BiosDiscardHotkeySpace tsr.memory).1 = false

/-- The transmitter takes a HELLO whole. -/
def Hardware.TakesHello (hardware : Hardware) : Prop :=
  ∀ limit, hardware.transmitLimits.head? = some limit → 21 ≤ limit

/-- The IME is on with the link down: HELLO is still to be sent, or to be sent again. -/
structure Session.Unlinked (session : Session) : Prop where
  enabled : session.imeEnabled = true
  link : session.linkState = .closed

/-- HELLO has been sent and `count` runs have been counted since. -/
structure Session.Greeted (count : Nat) (session : Session) : Prop where
  enabled : session.imeEnabled = true
  link : session.linkState = .helloWait
  ticks : session.waitTicks = BitVec.ofNat 16 count

/-- How many quiet runs the response timer has left. -/
def Session.ticksLeft (session : Session) : Nat := (0xffff#16 - (session.waitTicks + 1#16)).toNat + 1

/-- Each answer starts the timer anew. -/
def Session.runsLeft (session : Session) : Nat := session.answersLeft * 65536 + session.ticksLeft

theorem Session.runsLeft_le (session : Session) : session.runsLeft ≤ 3 * 65536 := by
  have answers : session.answersLeft ≤ 2 := by
    simp only [Session.answersLeft]
    split_ifs <;> omega
  have ticks := (0xffff#16 - (session.waitTicks + 1#16)).isLt
  simp only [Session.runsLeft, Session.ticksLeft]
  omega

/-- A request that goes out starts the timer anew. -/
theorem Session.asked_runsLeft (session : Session) (written : Nat) :
    (session.asked written true).runsLeft = session.answersLeft * 65536 + 65535 := by
  have ticks : (session.asked written true).waitTicks = 0#16 := rfl
  have answers : (session.asked written true).answersLeft = session.answersLeft := rfl
  simp [Session.runsLeft, answers, Session.ticksLeft, ticks]

/-- Up to its look at the request and at the timer, a quiet run only answers staged input. -/
theorem quiet_answers {tsr : Tsr} (quiet : tsr.Quiet) (empty : tsr.port.Holds []) :
    tsr.Answers (beforeOpen tsr) := by
  have hotkey : tsr.Answers (hotkeyStage tsr) ∧
      (hotkeyStage tsr).received = [] ∧ (hotkeyStage tsr).port.Holds [] := by
    by_cases held : tsr.HotkeyHeld
    · rw [hotkeyStage_held tsr held]
      simp only [quiet.noHotkey held, Bool.false_eq_true, if_false]
      exact ⟨⟨rfl, rfl, rfl, rfl, fun _ => rfl, .inl ⟨rfl, rfl, rfl⟩⟩, quiet.nothingReceived, empty⟩
    · rw [hotkeyStage_released tsr held]
      exact ⟨⟨rfl, rfl, rfl, rfl, fun _ => rfl, .inl ⟨rfl, rfl, rfl⟩⟩, quiet.nothingReceived, empty⟩
  obtain ⟨answers, received, drained⟩ := hotkey
  have nothing : receiveStage (hotkeyStage tsr) = hotkeyStage tsr :=
    receiveStage_silent (hotkeyStage tsr) received drained
  rw [beforeOpen, nothing]
  exact answers.trans (injectStage_answers (hotkeyStage tsr))

theorem startLink_takes (tsr : Tsr) : ∃ written succeeded,
    (startLink tsr).toSession = tsr.toSession.greeting written succeeded ∧
      (succeeded = true ↔ tsr.toHardware.TakesHello) := by
  obtain ⟨written, succeeded, limits, sends⟩ := sendPacket_eq
    { pc98TsrSerialCaptureBegin (pc98SerialOpen tsr) with sequence := tsr.sequence + 1#16 }
    imeHello (tsr.sequence + 1#16) hello (by decide)
  have takes := @sendPacket_takes
    { pc98TsrSerialCaptureBegin (pc98SerialOpen tsr) with sequence := tsr.sequence + 1#16 } rfl
    imeHello (tsr.sequence + 1#16) hello (by decide)
  rw [sends] at takes
  exact ⟨written, succeeded, startLink_greeting tsr sends, takes⟩

variable {tsr : Tsr}

/-- A HELLO that goes out starts the timer; one that does not leaves all as it was. -/
theorem quiet_unlinked (quiet : tsr.Quiet) (rests : tsr.Resting) (unlinked : tsr.Unlinked) :
    (tsr.TakesHello → (pc98ServiceForeground tsr).Greeted 1) ∧
      (¬ tsr.TakesHello → (pc98ServiceForeground tsr).Unlinked) := by
  have answers := quiet_answers quiet rests.empty
  have link := answers.linkState.trans unlinked.link
  have enabled := answers.imeEnabled.trans unlinked.enabled
  have opened : tsr.serialOpened = false := by
    by_contra opened
    exact rests.settled.opened.mp (by simpa using opened) unlinked.link
  have idle : tsr.imeActive = false := rests.settled.idle (by simp [unlinked.link])
  have request : tsr.openPending = true := by simp [rests.settled.on unlinked.enabled, idle]
  have starts : (beforeOpen tsr).Starts := by
    rcases answers.outcome with ⟨active, pending, _⟩ | ⟨active, pending, _⟩
    · exact ⟨pending.trans request, active.trans idle, link⟩
    · exact ⟨pending.trans unlinked.enabled, active, link⟩
  obtain ⟨written, succeeded, greets, takes⟩ := startLink_takes (beforeOpen tsr)
  have sameTaking : (beforeOpen tsr).TakesHello ↔ tsr.TakesHello := by
    simp only [Hardware.TakesHello, answers.limits opened]
  rw [serviceForeground_stages, tickStage_session, openStage_starts _ starts, greets]
  rw [sameTaking] at takes
  generalize (beforeOpen tsr).toSession = session at enabled ⊢
  constructor
  · intro whole
    rw [takes.mpr whole]
    exact ⟨enabled, rfl, rfl⟩
  · intro cut
    rw [Bool.eq_false_of_not_eq_true (mt takes.mp cut)]
    exact ⟨enabled, rfl⟩

/-- Between HELLO and its answer every run counts, up to the last. -/
theorem quiet_greeted (quiet : tsr.Quiet) (rests : tsr.Resting) {count : Nat}
    (greeted : tsr.Greeted count) :
    (count < 0xfffe → (pc98ServiceForeground tsr).Greeted (count + 1)) ∧
      (count = 0xfffe → (pc98ServiceForeground tsr).imeEnabled = false) := by
  have answers := quiet_answers quiet rests.empty
  have link := answers.linkState.trans greeted.link
  have ticks := answers.waitTicks.trans greeted.ticks
  have same : openStage (beforeOpen tsr) = beforeOpen tsr := by simp [openStage, link]
  have waiting : (beforeOpen tsr).waiting = true := by simp [Session.waiting, link]
  rw [serviceForeground_stages, tickStage_session, same]
  constructor
  · intro early
    have goesOn : (beforeOpen tsr).timesOut = false := by
      have notLast : (BitVec.ofNat 16 count + 1#16) ≠ 0xffff#16 := by bv_omega
      simp [Session.timesOut, ticks, notLast]
    simp only [goesOn, waiting, Bool.false_eq_true, if_false, if_true]
    refine ⟨answers.imeEnabled.trans greeted.enabled, link, ?_⟩
    rw [ticks, BitVec.ofNat_add]
  · rintro rfl
    have ends : (beforeOpen tsr).timesOut = true := by simp [Session.timesOut, waiting, ticks]
    simp only [ends, if_true, Session.timedOut]

/-- A timer that runs fires or comes one run nearer to it. -/
theorem tickStage_nearer (waiting : tsr.waiting = true) : (tickStage tsr).imeEnabled = false ∨
    (tickStage tsr).linkState = tsr.linkState ∧ (tickStage tsr).runsLeft < tsr.runsLeft := by
  rw [tickStage_session]
  cases late : tsr.timesOut with
  | true => exact .inl rfl
  | false =>
    have notLast : tsr.waitTicks + 1#16 ≠ 0xffff#16 := by simpa [Session.timesOut, waiting] using late
    have nearer : (0xffff#16 - (tsr.waitTicks + 1#16 + 1#16)).toNat <
        (0xffff#16 - (tsr.waitTicks + 1#16)).toNat := by bv_omega
    simp only [waiting, Bool.false_eq_true, if_false, if_true, true_and]
    exact .inr (Nat.add_lt_add_left (Nat.succ_lt_succ nearer) _)

/-- With the link up, a quiet run brings the timeout nearer unless a failed send takes
the link down. -/
theorem quiet_linked (quiet : tsr.Quiet) (rests : tsr.Resting) (enabled : tsr.imeEnabled = true)
    (up : tsr.linkState ≠ .closed) :
    (pc98ServiceForeground tsr).imeEnabled = false ∨ (pc98ServiceForeground tsr).Unlinked ∨
      (pc98ServiceForeground tsr).linkState ≠ .closed ∧
        (pc98ServiceForeground tsr).runsLeft < tsr.runsLeft := by
  have answers := quiet_answers quiet rests.empty
  have stillUp : (beforeOpen tsr).linkState ≠ .closed := answers.linkState ▸ up
  have sameTicks : (beforeOpen tsr).ticksLeft = tsr.ticksLeft := by
    simp only [Session.ticksLeft, answers.waitTicks]
  have fewer : (beforeOpen tsr).runsLeft ≤ tsr.runsLeft := by
    simp only [Session.runsLeft, sameTicks]
    rcases answers.outcome with ⟨_, _, left⟩ | ⟨_, _, left⟩ <;> omega
  rw [serviceForeground_stages]
  obtain ⟨request, idle, ⟨ready, written, succeeded, asks⟩ | ⟨closed, _⟩⟩ | ⟨asked, same⟩ :=
    openStage_cases (beforeOpen tsr)
  · -- An input has been answered: the next request starts the timer anew.
    cases succeeded with
    | false =>
      refine .inr (.inl ?_)
      rw [tickStage_session, asks]
      have stillOn := answers.imeEnabled.trans enabled
      generalize (beforeOpen tsr).toSession = session at stillOn ⊢
      exact ⟨stillOn, rfl⟩
    | true =>
      have waiting : (openStage (beforeOpen tsr)).waiting = true := by
        rw [asks]
        simp [Session.asked, Session.waiting]
      have answered : (beforeOpen tsr).answersLeft < tsr.answersLeft := by
        rcases answers.outcome with ⟨active, _, _⟩ | ⟨_, _, left⟩
        · have idleBefore := rests.settled.ready_active (answers.linkState.symm.trans ready)
          rw [← active, idle] at idleBefore
          exact absurd idleBefore (by simp)
        · exact left
      have anew : (openStage (beforeOpen tsr)).runsLeft < tsr.runsLeft := by
        rw [asks, Session.asked_runsLeft, Session.runsLeft]
        omega
      rcases tickStage_nearer waiting with fired | ⟨link, nearer⟩
      · exact .inl fired
      · refine .inr (.inr ⟨?_, nearer.trans anew⟩)
        rw [link, asks]
        simp [Session.asked, Session.note, ready]
  · exact absurd closed stillUp
  · rw [same]
    have waiting : (beforeOpen tsr).waiting = true := by
      cases link : (beforeOpen tsr).linkState with
      | closed => exact absurd link stillUp
      | helloWait => simp [Session.waiting, link]
      | ready =>
        rcases answers.outcome with ⟨active, _, _⟩ | ⟨idle, request, _⟩
        · have active := active.trans (rests.settled.ready_active (answers.linkState.symm.trans link))
          simp [Session.waiting, active]
        · -- A request that was open on a ready link would have been sent.
          simp [asked (request.trans enabled) idle] at link
    rcases tickStage_nearer waiting with fired | ⟨link, nearer⟩
    · exact .inl fired
    · refine .inr (.inr ⟨?_, nearer.trans_le fewer⟩)
      rwa [link]

/-- With the IME off nothing happens. -/
theorem quiet_off (quiet : tsr.Quiet) (rests : tsr.Resting) (off : tsr.imeEnabled = false) :
    (pc98ServiceForeground tsr).imeEnabled = false := by
  have answers := quiet_answers quiet rests.empty
  obtain ⟨closed, idle, noRequest⟩ := rests.settled.off off
  have disabled := answers.imeEnabled.trans off
  have link := answers.linkState.trans closed
  have still : (beforeOpen tsr).imeActive = false ∧ (beforeOpen tsr).openPending = false := by
    rcases answers.outcome with ⟨active, pending, _⟩ | ⟨active, pending, _⟩
    · exact ⟨active.trans idle, pending.trans noRequest⟩
    · exact ⟨active, pending.trans off⟩
  have same : openStage (beforeOpen tsr) = beforeOpen tsr := by simp [openStage, still.2]
  rw [serviceForeground_stages, tickStage_session, same]
  simp [Session.timesOut, Session.waiting, link, still.1, disabled]

/-! ## Run after run -/

/-- The client after so many worker runs, each of them on the machine given for it. -/
def waited (machines : Nat → Hardware) (tsr : Tsr) : Nat → Tsr
  | 0 => tsr
  | run + 1 => pc98ServiceForeground { waited machines tsr run with toHardware := machines run }

theorem waited_succ (machines : Nat → Hardware) (tsr : Tsr) (run : Nat) : waited machines tsr (run + 1) =
    pc98ServiceForeground { waited machines tsr run with toHardware := machines run } := rfl

section Waiting

variable {machines : Nat → Hardware} {tsr : Tsr} {limit : Nat}

theorem waited_resting (rests : tsr.Resting) (run : Nat) : (waited machines tsr run).Resting := by
  induction run with
  | zero => exact rests
  | succ run inductionHypothesis =>
    exact Action.resting _ .foreground (Action.resting _ (.environment (machines run)) inductionHypothesis)

/-- The machine of the run that comes next is put in place. -/
theorem Tsr.Resting.withHardware (rests : tsr.Resting) (hardware : Hardware) :
    Tsr.Resting { tsr with toHardware := hardware } := Action.resting tsr (.environment hardware) rests

/-- The first `limit` runs are quiet. -/
def QuietRuns (machines : Nat → Hardware) (tsr : Tsr) (limit : Nat) : Prop :=
  ∀ run < limit, Tsr.Quiet { waited machines tsr run with toHardware := machines run }

/-- A HELLO that goes out is followed by runs that count to the timeout. -/
theorem greeted_lasts (rests : tsr.Resting) (quiet : QuietRuns machines tsr limit) {run : Nat}
    (early : run < limit) (unlinked : (waited machines tsr run).Unlinked)
    (takes : (machines run).TakesHello) :
    ∀ more, 1 + more ≤ 0xfffe → run + 1 + more ≤ limit →
      (waited machines tsr (run + 1 + more)).Greeted (1 + more) := by
  have begins : (waited machines tsr (run + 1)).Greeted 1 :=
    (quiet_unlinked (quiet run early) ((waited_resting rests run).withHardware _) unlinked).1 takes
  have counts : ∀ index < limit, ∀ count < 0xfffe, (waited machines tsr index).Greeted count →
      (waited machines tsr (index + 1)).Greeted (count + 1) := fun index early count notLast greeted =>
    (quiet_greeted (quiet index early) ((waited_resting rests index).withHardware _) greeted).1 notLast
  exact @Progress.phase_lasts Tsr (waited machines tsr) limit (fun count tsr => tsr.Greeted count) 1
    0xfffe (run + 1) begins counts

/-- So the timeout is 65535 runs after it. -/
theorem greeted_ends (rests : tsr.Resting) (quiet : QuietRuns machines tsr limit) {run : Nat}
    (unlinked : (waited machines tsr run).Unlinked) (takes : (machines run).TakesHello)
    (within : run + 65535 ≤ limit) : (waited machines tsr (run + 65535)).imeEnabled = false := by
  obtain ⟨last, next, index⟩ : ∃ last, run + 65535 = last + 1 ∧ last = run + 1 + 0xfffd :=
    ⟨_, by omega, rfl⟩
  have greeted := greeted_lasts rests quiet (by omega) unlinked takes 0xfffd (by omega) (by omega)
  rw [← index] at greeted
  rw [next, waited_succ]
  exact (quiet_greeted (quiet last (by omega)) ((waited_resting rests last).withHardware _) greeted).2
    (by omega)

/-- From a link that is down, OFF is only reached by way of a HELLO that goes out. -/
theorem unlinked_ends (rests : tsr.Resting) (quiet : QuietRuns machines tsr limit) {run more : Nat}
    (within : run + more ≤ limit) (unlinked : (waited machines tsr run).Unlinked)
    (off : (waited machines tsr (run + more)).imeEnabled = false) :
    ∃ greeting, run ≤ greeting ∧ greeting + 65535 ≤ run + more ∧
      (waited machines tsr greeting).Unlinked ∧ (machines greeting).TakesHello := by
  induction more generalizing run with
  | zero =>
    have enabled := unlinked.enabled
    rw [Nat.add_zero] at off
    simp [off] at enabled
  | succ more inductionHypothesis =>
    by_cases takes : (machines run).TakesHello
    · refine ⟨run, le_rfl, ?_, unlinked, takes⟩
      by_contra tooFew
      have greeted := greeted_lasts rests quiet (by omega) unlinked takes more (by omega) (by omega)
      have enabled := greeted.enabled
      rw [show run + 1 + more = run + (more + 1) by omega, off] at enabled
      simp at enabled
    · have still : (waited machines tsr (run + 1)).Unlinked := (quiet_unlinked (quiet run (by omega))
        ((waited_resting rests run).withHardware _) unlinked).2 takes
      rw [show run + (more + 1) = run + 1 + more by omega] at off
      obtain ⟨greeting, later, ends⟩ := inductionHypothesis (by omega) still off
      exact ⟨greeting, by omega, by omega, ends.2⟩

/-- OFF stays OFF. -/
theorem off_stays (rests : tsr.Resting) (quiet : QuietRuns machines tsr limit) {run more : Nat}
    (within : run + more ≤ limit) (off : (waited machines tsr run).imeEnabled = false) :
    (waited machines tsr (run + more)).imeEnabled = false := by
  induction more with
  | zero => exact off
  | succ more inductionHypothesis =>
    rw [← Nat.add_assoc, waited_succ]
    exact quiet_off (quiet (run + more) (by omega)) ((waited_resting rests _).withHardware _)
      (inductionHypothesis (by omega))

end Waiting

/-- In quiet runs the IME, once ON, goes OFF within 4 × 65536 runs exactly if the link is
up all that time, or else a HELLO goes out while 65535 runs are still to come: the
response timer counts no run without one. -/
theorem response_timeout_reached (modifierMask : Byte) (hardware : Hardware) (actions : List Action)
    (machines : Nat → Hardware) :
    let tsr := Run.run Action.apply actions (cleared modifierMask hardware)
    tsr.imeEnabled = true → QuietRuns machines tsr (4 * 65536) →
      ((∃ runs ≤ 4 * 65536, (waited machines tsr runs).Off) ↔
        ((∃ run < 4 * 65536, (waited machines tsr run).Unlinked) →
          ∃ run, run + 65535 ≤ 4 * 65536 ∧ (waited machines tsr run).Unlinked ∧
            (machines run).TakesHello)) := by
  intro tsr enabled quiet
  have rests : tsr.Resting := Run.invariant Action.apply
    (fun state action => Action.resting state action) actions (cleared_resting modifierMask hardware)
  constructor
  · rintro ⟨runs, within, off⟩ ⟨run, early, unlinked⟩
    rcases le_or_gt run runs with before | after
    · obtain ⟨more, rfl⟩ := Nat.exists_eq_add_of_le before
      obtain ⟨greeting, _, ends, takes⟩ := unlinked_ends rests quiet within unlinked off.disabled
      exact ⟨greeting, by omega, takes⟩
    · -- OFF would have stayed.
      obtain ⟨more, rfl⟩ := Nat.exists_eq_add_of_lt after
      have disabled := off_stays rests quiet (by omega : runs + (more + 1) ≤ 4 * 65536) off.disabled
      have enabled := unlinked.enabled
      simp [← Nat.add_assoc, enabled] at disabled
  · intro condition
    by_cases linked : ∃ run < 4 * 65536, (waited machines tsr run).Unlinked
    · obtain ⟨run, within, unlinked, takes⟩ := condition linked
      exact ⟨run + 65535, within,
        (waited_resting rests _).off (greeted_ends rests quiet unlinked takes within)⟩
    · have falls : ∀ index < 4 * 65536, ¬ ((waited machines tsr index).imeEnabled = false ∨
          (waited machines tsr index).Unlinked) →
          ((waited machines tsr (index + 1)).imeEnabled = false ∨
            (waited machines tsr (index + 1)).Unlinked) ∨
          (waited machines tsr (index + 1)).runsLeft < (waited machines tsr index).runsLeft := by
        intro index early going
        rw [waited_succ]
        obtain ⟨on, notUnlinked⟩ := not_or.mp going
        have enabled : (waited machines tsr index).imeEnabled = true := by simpa using on
        have up : (waited machines tsr index).linkState ≠ .closed := fun link =>
          notUnlinked ⟨enabled, link⟩
        rcases quiet_linked (quiet index early) ((waited_resting rests index).withHardware _) enabled up
          with off | unlinked | ⟨_, nearer⟩
        · exact .inl (.inl off)
        · exact .inl (.inr unlinked)
        · exact .inr nearer
      have bound : tsr.runsLeft ≤ 3 * 65536 := Session.runsLeft_le _
      obtain ⟨count, soon, ends⟩ := @Progress.exists_done Tsr (waited machines tsr) (4 * 65536)
        (fun tsr => tsr.imeEnabled = false ∨ tsr.Unlinked) (fun tsr => tsr.runsLeft) falls 0
        (by simp only [waited]; omega)
      simp only [waited] at soon
      rw [Nat.zero_add] at ends
      rcases ends with off | unlinked
      · exact ⟨count, by omega, (waited_resting rests count).off off⟩
      · exact absurd ⟨count, by omega, unlinked⟩ linked

/-- The IME has just been turned on by a word that a blocked read returned. -/
def turnedOn : List Action := [.environment (hotkeyHeld (machine 16#8 [])), .returnedHotkey]

/-- A machine on which nothing is pressed and nothing arrives gives a quiet run. -/
theorem machine_quiet (tsr : Tsr) (limits : List Nat) :
    Tsr.Quiet { tsr with toHardware := { machine 0#8 [] with transmitLimits := limits } } where
  nothingReceived := rfl
  noHotkey := by
    have released : (machine 0#8 []).memory.readByte 0x0530#16 &&& 0x10#8 = 0#8 := by decide +kernel
    exact fun held => absurd released held.2

theorem response_timeout_reached_turnedOn : ∃ runs ≤ 4 * 65536,
    (waited (fun _ => machine 0#8 []) (Run.run Action.apply turnedOn (cleared 0x01#8 {})) runs).Off := by
  have enabled : (Run.run Action.apply turnedOn (cleared 0x01#8 {})).imeEnabled = true := by
    decide +kernel
  have unlinked : (Run.run Action.apply turnedOn (cleared 0x01#8 {})).Unlinked :=
    ⟨enabled, by decide +kernel⟩
  refine (response_timeout_reached 0x01#8 {} turnedOn (fun _ => machine 0#8 []) enabled
    fun run _ => machine_quiet _ []).mpr fun _ => ⟨0, by omega, unlinked, ?_⟩
  intro limit taken
  simp [machine] at taken

/-- With a transmitter that never takes a byte the IME stays ON for good, on a machine on
which nothing is pressed, nothing arrives and the BIOS queue is empty. -/
theorem response_timeout_never :
    let machines : Nat → Hardware := fun _ => { machine 0#8 [] with transmitLimits := [0] }
    let tsr := Run.run Action.apply turnedOn (cleared 0x01#8 {})
    tsr.imeEnabled = true ∧ (∀ limit, QuietRuns machines tsr limit) ∧
      ¬ ∃ runs ≤ 4 * 65536, (waited machines tsr runs).Off := by
  intro machines tsr
  have enabled : tsr.imeEnabled = true := by decide +kernel
  have unlinked : (waited machines tsr 0).Unlinked := ⟨enabled, by decide +kernel⟩
  have rests : tsr.Resting := Run.invariant Action.apply
    (fun state action => Action.resting state action) turnedOn (cleared_resting 0x01#8 {})
  have quiet : ∀ limit, QuietRuns machines tsr limit := fun limit run _ => machine_quiet _ [0]
  have cut : ∀ run, ¬ (machines run).TakesHello := fun run takes => by
    have whole := takes 0 rfl
    omega
  refine ⟨enabled, quiet, ?_⟩
  rintro ⟨runs, _, off⟩
  have disabled := off.disabled
  rw [← Nat.zero_add runs] at disabled
  obtain ⟨greeting, _, _, _, takes⟩ := unlinked_ends rests (quiet runs) (by omega) unlinked disabled
  exact cut greeting takes

end ImeBridge
