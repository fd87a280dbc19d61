import ImeBridge.Input.Hotkey
import ImeBridge.Resident.Timeout

/-! # What the hook leaves undone when it sleeps

A worker run that turns the IME on also sends HELLO.  A returned hotkey word turns it
on without one, and the loop behind AH=00h has no worker run in it.
-/

namespace ImeBridge

open Library

/-- The IME is on and nothing has been sent yet: COM1 interrupts are not captured. -/
def Session.Unstarted (session : Session) : Prop :=
  session.imeEnabled = true ∧ session.openPending = true ∧ session.linkState = .closed

instance (session : Session) : Decidable session.Unstarted := by
  unfold Session.Unstarted; infer_instance

/-! ## A worker run starts what is unstarted -/

section Worker

variable {tsr : Tsr}

theorem sendOpenIme_takes (opened : tsr.serialOpened = true) (takes : tsr.transmitLimits = []) :
    ∃ written, (sendOpenIme tsr).toSession = tsr.toSession.asked written true := by
  obtain ⟨written, succeeded, limits, sends⟩ := sendPacket_eq
    { tsr with sequence := tsr.sequence + 1#16, openSequence := tsr.sequence + 1#16 }
    imeOpenIme (tsr.sequence + 1#16) [] (by simp)
  have whole := (@sendPacket_takes
    { tsr with sequence := tsr.sequence + 1#16, openSequence := tsr.sequence + 1#16 } opened
    imeOpenIme (tsr.sequence + 1#16) [] (by simp)).mpr (by simp [takes])
  rw [sends] at whole
  obtain rfl : succeeded = true := whole
  refine ⟨written, ?_⟩
  simp only [sendOpenIme, sends]
  rfl

/-- With its sends going out, the fourth stage of a worker run leaves nothing unstarted. -/
theorem openStage_started (consistent : tsr.Consistent) (takes : tsr.transmitLimits = []) :
    ¬ (openStage tsr).Unstarted := by
  rintro ⟨enabled, request, closed⟩
  by_cases wanted : tsr.openPending = true ∧ ¬ tsr.imeActive = true
  · cases link : tsr.linkState with
    | closed =>
      obtain ⟨written, succeeded, greets, whole⟩ := startLink_takes tsr
      have out : succeeded = true := whole.mpr (by simp [Hardware.TakesHello, takes])
      have starts : openStage tsr = startLink tsr := by simp [openStage, wanted, link]
      rw [starts, greets, out] at closed
      simp [Session.greeting] at closed
    | helloWait =>
      have stays : openStage tsr = tsr := by simp [openStage, link]
      rw [stays, link] at closed
      contradiction
    | ready =>
      obtain ⟨written, asks⟩ := sendOpenIme_takes (consistent.opened.mpr (by simp [link])) takes
      have sends : openStage tsr = sendOpenIme tsr := by simp [openStage, wanted, link]
      rw [sends, asks] at request
      simp [Session.asked] at request
  · -- A request on a closed link is always wanted.
    have stays : openStage tsr = tsr := by simp only [openStage, if_neg wanted]
    rw [stays] at request closed
    exact wanted ⟨request, by simp [consistent.idle (show tsr.linkState ≠ .ready by simp [closed])]⟩

theorem tickStage_started (started : ¬ tsr.Unstarted) : ¬ (tickStage tsr).Unstarted := by
  rw [tickStage_session]
  split_ifs
  · simp [Session.Unstarted, Session.timedOut]
  · exact started
  · exact started

theorem hotkeyStage_limits (tsr : Tsr) : (hotkeyStage tsr).transmitLimits <:+ tsr.transmitLimits := by
  by_cases held : tsr.HotkeyHeld
  · rw [hotkeyStage_held tsr held]
    dsimp only
    split
    · exact (toggleImeHotkey_serves { tsr with
        memory := (pc98BiosDiscardHotkeySpace tsr.memory).2
        hotkeyLatched := true }).limits
    · exact List.suffix_refl _
  · rw [hotkeyStage_released tsr held]

theorem pc98ServiceForeground_started (settled : tsr.Settled) (takes : tsr.transmitLimits = []) :
    ¬ (pc98ServiceForeground tsr).Unstarted ∧ (pc98ServiceForeground tsr).Settled ∧
      (pc98ServiceForeground tsr).transmitLimits = [] := by
  have hotkey := hotkeyStage_limits tsr
  have before := ((injectStage_limits (receiveStage (hotkeyStage tsr))).trans
    (receiveStage_works (hotkeyStage tsr)).limits).trans hotkey
  have after := (pc98ServiceForeground_works tsr).limits.trans hotkey
  rw [takes, List.suffix_nil] at before after
  have moves : Session.Moves tsr.toSession (beforeOpen tsr).toSession :=
    (hotkeyStage_session tsr).moves.trans <|
      (receiveStage_session _).trans (injectStage_session _).moves
  have consistent : (beforeOpen tsr).Consistent :=
    moves.preserves Session.Consistent.move settled.toConsistent
  exact ⟨tickStage_started (openStage_started consistent before),
    Action.settled tsr .foreground settled, after⟩

/-- Toggling turns the IME off, or on with HELLO still to be sent. -/
theorem toggleImeHotkey_started (settled : tsr.Settled) (takes : tsr.transmitLimits = []) :
    (toggleImeHotkey tsr).Settled ∧ (toggleImeHotkey tsr).transmitLimits = [] ∧
      (toggleImeHotkey tsr).imeEnabled = !tsr.imeEnabled ∧
      ((toggleImeHotkey tsr).Unstarted ↔ (toggleImeHotkey tsr).imeEnabled = true) := by
  have next := toggleImeHotkey_settled tsr settled
  have limits := (toggleImeHotkey_serves tsr).limits
  refine ⟨next, List.suffix_nil.mp (takes ▸ limits), ?_⟩
  obtain ⟨on, written, succeeded, closes⟩ | ⟨off, opens⟩ := toggleImeHotkey_cases tsr
  · rw [closes, on]
    simp [Session.Unstarted, Session.closed]
  · rw [opens, off]
    simp [Session.Unstarted, Session.note, (settled.off off).1]

end Worker

/-! ## The hook -/

namespace Console

/-- Behind AH=00h: the leading Space words have toggled the IME one by one, and the hook
sleeps if there was nothing else. -/
structure Dozes (before after : Console) : Prop where
  settled : after.Settled
  takes : after.transmitLimits = []
  enabled : after.imeEnabled =
    (before.imeEnabled ^^ decide (before.leadingHotkeys.length % 2 = 1))
  unstarted : after.Unstarted ↔
    if before.leadingHotkeys = [] then before.Unstarted else after.imeEnabled = true
  sleeps : after.phase = .halted ↔ before.leadingHotkeys = before.queued
  returned : after.phase ≠ .oldHandler

theorem dozes : HookRule fun before after =>
    before.Settled → before.transmitLimits = [] → before.Dozes after where
  halts := by
    intro console none settled takes
    have leading : console.leadingHotkeys = [] := by simp [leadingHotkeys, none]
    exact
      { settled := settled
        takes := takes
        enabled := by simp [leading]
        unstarted := by simp [leading]
        sleeps := by simp [leading, none]
        returned := by simp }
  dequeues := by
    intro console after memory keyState dozes settled takes
    have held : Tsr.HotkeyHeld { console.toTsr with memory := memory } ↔ console.HotkeyHeld :=
      hotkeyHeld_congr keyState rfl
    have leading : leadingHotkeys { console with memory := memory } = console.leadingHotkeys := by
      simp only [leadingHotkeys, held]
    have dozes := dozes settled takes
    have enabled := dozes.enabled
    have unstarted := dozes.unstarted
    have sleeps := dozes.sleeps
    rw [leading] at enabled unstarted sleeps
    exact ⟨dozes.settled, dozes.takes, enabled, unstarted, sleeps, dozes.returned⟩
  retries := by
    intro before next after retries dozes settled takes
    obtain ⟨key, queued, leading, -⟩ := retries.key
    obtain ⟨nextSettled, nextTakes, flipped, unstarted⟩ :=
      @toggleImeHotkey_started { before.toTsr with hotkeyLatched := true } settled takes
    rw [← retries.tsr] at nextSettled nextTakes flipped unstarted
    have later := dozes nextSettled nextTakes
    refine ⟨later.settled, later.takes, ?_, ?_, ?_, later.returned⟩
    · rw [later.enabled, flipped, leading, List.length_cons]
      rcases Nat.mod_two_eq_zero_or_one next.leadingHotkeys.length with even | odd
      · simp [Nat.add_mod, even]
      · simp [Nat.add_mod, odd]
    · rw [later.unstarted, leading, if_neg (List.cons_ne_nil _ _)]
      split
      · rename_i none
        rw [unstarted, later.enabled, none]
        simp
      · rfl
    · rw [later.sleeps, leading, queued, List.cons_inj_right]
  delivers := by
    rintro before after delivers settled takes
    obtain ⟨latched, tsr⟩ := delivers.tsr
    have session : after.toSession = before.toSession := by rw [tsr]
    have limits : after.transmitLimits = before.transmitLimits := by rw [tsr]
    exact
      { settled := session ▸ settled
        takes := limits.trans takes
        enabled := by simp [delivers.leading, session]
        unstarted := by simp [delivers.leading, session]
        sleeps := by simp [delivers.phase, delivers.leading, delivers.waiting.symm]
        returned := by simp [delivers.phase] }

/-- All that is queued is taken if it is Space throughout and the hotkey is held. -/
theorem leadingHotkeys_all {console : Console} (nonempty : console.queued ≠ []) :
    console.leadingHotkeys = console.queued ↔
      console.HotkeyHeld ∧ ∀ key ∈ console.queued, key.word = 0x3420#16 := by
  by_cases held : console.HotkeyHeld
  · simp [leadingHotkeys, held, List.takeWhile_eq_self_iff]
  · simp [leadingHotkeys, held, nonempty.symm]

end Console

/-- The action puts the words of the queue through the filter for a blocked AH=00h. -/
def InputAction.readsAh00 (action : InputAction) (console : Console) : Bool :=
  match action with
  | .oldHandlerReturns => console.phase = .oldHandler && console.inputOriginalAh = .ah00
  | .wake => console.phase = .halted
  | _ => false

/-- A blocked AH=00h goes to work with the hotkey held on a queue of Space words alone. -/
def FindsOnlySpaces (console : Console) (action : InputAction) : Prop :=
  action.readsAh00 console = true ∧ console.HotkeyHeld ∧ console.memory.queue ≠ [] ∧
    ∀ word ∈ console.memory.queue, word = 0x3420#16

/-- If so, their number leaves the IME off. -/
def EndsOff (console : Console) (action : InputAction) : Prop :=
  FindsOnlySpaces console action →
    (console.memory.queue.length % 2 = 1 ↔ console.imeEnabled = true)

/-- The hook does not come to its `hlt` with the IME on and nothing sent. -/
def SleepsStarted (bios : Bios) (console : Console) (action : InputAction) : Prop :=
  (action.apply bios console).phase = .halted → ¬ (action.apply bios console).Unstarted

/-- What holds between two actions while transmissions succeed. -/
structure Console.Awake (console : Console) : Prop extends Console.InStep console where
  settled : console.Settled
  takes : console.transmitLimits = []
  waiting : console.phase ≠ .application → ¬ console.Unstarted

/-- Back in the application nothing is asked of the link. -/
theorem answered {console : Console} (settled : console.Settled) (takes : console.transmitLimits = [])
    {after : Console} (inStep : after.InStep) (phase : after.phase = .application)
    (tsr : (∃ latched, after.toTsr = { console.toTsr with hotkeyLatched := latched }) ∨
      after.toTsr = toggleImeHotkey { console.toTsr with hotkeyLatched := true }) : after.Awake := by
  have idle : after.phase ≠ .application → ¬ after.Unstarted := fun busy => absurd phase busy
  rcases tsr with ⟨latched, same⟩ | toggled
  · refine ⟨inStep, ?_, ?_, idle⟩
    · rwa [same]
    · rwa [same]
  · obtain ⟨settledAfter, takesAfter, -⟩ :=
      @toggleImeHotkey_started { console.toTsr with hotkeyLatched := true } settled takes
    rw [← toggled] at settledAfter takesAfter
    exact ⟨inStep, settledAfter, takesAfter, idle⟩

namespace Console.Awake

variable {console : Console}

/-- The hook's work for AH=00h, from the state before to the state behind it. -/
theorem dozed (awake : console.Awake) (blocked : console.phase ≠ .application) {after : Console}
    (inStep : after.InStep) (dozes : console.Dozes after) :
    ((after.phase = .halted → ¬ after.Unstarted) ↔
        (console.HotkeyHeld ∧ console.memory.queue ≠ [] ∧
            (∀ word ∈ console.memory.queue, word = 0x3420#16) →
          (console.memory.queue.length % 2 = 1 ↔ console.imeEnabled = true))) ∧
      ((after.phase = .halted → ¬ after.Unstarted) → after.Awake) := by
  constructor
  · rw [awake.queue, List.length_map, dozes.sleeps, dozes.unstarted]
    by_cases nonempty : console.queued = []
    · -- The hook has found nothing to do.
      have nothing : console.leadingHotkeys = [] := by simp [leadingHotkeys, nonempty]
      simp [nothing, nonempty, awake.waiting blocked]
    · have words : (∀ word ∈ console.queued.map Key.word, word = 0x3420#16) ↔
          ∀ key ∈ console.queued, key.word = 0x3420#16 := by simp
      rw [leadingHotkeys_all nonempty, words]
      by_cases all : console.HotkeyHeld ∧ ∀ key ∈ console.queued, key.word = 0x3420#16
      · have leading := (leadingHotkeys_all nonempty).mpr all
        have enabled := dozes.enabled
        rw [leading] at enabled
        rw [leading, if_neg nonempty, enabled]
        cases console.imeEnabled <;> simp [nonempty, all]
      · simp only [all, false_implies, true_iff]
        rintro ⟨held, _, spaces⟩
        exact absurd ⟨held, spaces⟩ all
  · intro started
    refine ⟨inStep, dozes.settled, dozes.takes, fun busy => ?_⟩
    cases phase : after.phase with
    | application => exact absurd phase busy
    | oldHandler => exact absurd phase dozes.returned
    | halted => exact started phase

/-- A worker run leaves the console awake, wherever it is called from. -/
theorem served (awake : console.Awake) {after : Console} (inStep : after.InStep) {tsr : Tsr}
    (session : tsr.toSession = console.toSession) (limits : tsr.transmitLimits = console.transmitLimits)
    (serves : after.toTsr = pc98ServiceForeground tsr) : after.Awake := by
  obtain ⟨started, settled, takes⟩ := pc98ServiceForeground_started
    (show tsr.Settled from session ▸ awake.settled) (limits.trans awake.takes)
  rw [← serves] at started settled takes
  exact ⟨inStep, settled, takes, fun _ => started⟩

/-- Nothing the worker or the hook does. -/
theorem kept (awake : console.Awake) {after : Console} (inStep : after.InStep)
    (session : after.toSession = console.toSession) (takes : after.transmitLimits = [])
    (phase : after.phase ≠ .application → console.phase ≠ .application) : after.Awake where
  toInStep := inStep
  settled := session ▸ awake.settled
  takes := takes
  waiting := fun busy => session ▸ awake.waiting (phase busy)

end Console.Awake

/-- The transmitter takes all that is sent from here on. -/
def InputAction.Sends (action : InputAction) : Prop :=
  ∀ received transmitLimits, action = .host received transmitLimits → transmitLimits = []

section Actions

variable (bios : Bios) {console : Console}

theorem InputAction.awake_other (awake : console.Awake) {action : InputAction} (sends : action.Sends)
    (other : action.readsAh00 console = false) : (action.apply bios console).Awake := by
  have inStep := (action.apply_spec bios awake.toInStep).1
  cases action with
  | keyboard spaceRow modifiers word =>
    cases word with
    | none => exact awake.kept inStep rfl awake.takes id
    | some word => exact awake.kept inStep rfl awake.takes id
  | host received transmitLimits => exact awake.kept inStep rfl (sends received transmitLimits rfl) id
  | serialIrq =>
    simp only [apply] at inStep ⊢
    cases serves : Action.service .serialIrq console.toTsr with
    | none => exact awake
    | some tsr =>
      rw [serves] at inStep
      obtain ⟨-, -, limits, session⟩ := serialIrq_service serves
      exact awake.served inStep session limits (console.service_tsr tsr)
  | call ah =>
    simp only [apply] at inStep ⊢
    split
    · rename_i waits
      rw [if_pos waits] at inStep
      have serves := console.service_tsr console.toTsr
      generalize console.service console.toTsr = served at inStep serves ⊢
      exact awake.served inStep rfl rfl serves
    · exact awake
  | oldHandlerReturns =>
    by_cases waits : console.phase = .oldHandler
    · have ah : console.inputOriginalAh ≠ .ah00 := by simpa [readsAh00, waits] using other
      simp only [apply, if_pos waits] at inStep ⊢
      split
      · rename_i empty
        rw [if_pos empty, if_neg ah] at inStep
        exact answered awake.settled awake.takes inStep rfl (.inl ⟨console.hotkeyLatched, rfl⟩)
      · rename_i waiting
        rw [if_neg waiting] at inStep
        split
        · rename_i looks
          rw [if_pos looks] at inStep
          obtain ⟨phase, tsr⟩ := Console.inputReturned_application ah
          exact answered awake.settled awake.takes inStep phase tsr
        · rename_i removes
          rw [if_neg removes] at inStep
          obtain ⟨phase, tsr⟩ := @Console.inputReturned_application
            { console with memory := (bios.take console.memory).2 } (bios.take console.memory).1 ah
          exact @answered { console with memory := (bios.take console.memory).2 } awake.settled awake.takes
            _ inStep phase tsr
    · have same : oldHandlerReturns.apply bios console = console := by simp [apply, waits]
      rwa [same]
  | wake =>
    have awakened : console.phase ≠ .halted := by simpa [readsAh00] using other
    have same : wake.apply bios console = console := by simp [apply, awakened]
    rwa [same]

theorem InputAction.awake (awake : console.Awake) (action : InputAction) (sends : action.Sends) :
    (SleepsStarted bios console action ↔ EndsOff console action) ∧
      (SleepsStarted bios console action → (action.apply bios console).Awake) := by
  cases reads : action.readsAh00 console with
  | false =>
    have after := awake_other bios awake sends reads
    have sleeps : SleepsStarted bios console action := fun halted => after.waiting (by simp [halted])
    have ends : EndsOff console action := fun finds =>
      absurd finds.1 (by simp [reads])
    exact ⟨iff_of_true sleeps ends, fun _ => after⟩
  | true =>
    cases action with
    | keyboard | host | serialIrq | call => simp [readsAh00] at reads
    | wake =>
      have halted : console.phase = .halted := by simpa [readsAh00] using reads
      obtain ⟨inStep, dozes⟩ := Console.dozes.retryBlocking awake.toInStep (awake.halted halted)
      have dozed := awake.dozed (by simp [halted]) inStep (dozes awake.settled awake.takes)
      simpa [SleepsStarted, EndsOff, FindsOnlySpaces, reads, apply, halted] using dozed
    | oldHandlerReturns =>
      obtain ⟨waits, ah⟩ : console.phase = .oldHandler ∧ console.inputOriginalAh = .ah00 := by
        simpa [readsAh00] using reads
      by_cases empty : console.memory.count = 0
      · have same : oldHandlerReturns.apply bios console = console := by simp [apply, waits, empty, ah]
        have none : console.memory.queue = [] := by
          rwa [← List.length_eq_zero_iff, Memory.WellFormedRing.queue_length]
        have sleeps : SleepsStarted bios console oldHandlerReturns := by
          simp [SleepsStarted, same, waits]
        have ends : EndsOff console oldHandlerReturns := fun finds => absurd none finds.2.2.1
        exact ⟨iff_of_true sleeps ends, fun _ => by rwa [same]⟩
      · have removes : console.inputOriginalAh ≠ .ah01 := by simp [ah]
        obtain ⟨-, removed, keyState⟩ := @Console.InStep.holds bios console awake.toInStep empty
        obtain ⟨inStep, dozes⟩ := Console.dozes.returned (removed removes) ah
        have dozed := awake.dozed (by simp [waits]) inStep
          (Console.dozes.dequeues keyState dozes awake.settled awake.takes)
        simpa [SleepsStarted, EndsOff, FindsOnlySpaces, reads, apply, waits, ah, empty] using dozed

end Actions

theorem installed_awake (modifierMask : Byte) (booted : Booted) (takes : booted.transmitLimits = []) :
    (Console.installed modifierMask booted).Awake :=
  ⟨installed_inStep modifierMask booted, cleared_settled modifierMask booted.toHardware, takes,
    by simp [Console.installed]⟩

/-- With transmissions succeeding, the hook comes to its `hlt` with HELLO unsent exactly if
a blocked AH=00h goes to work, with the hotkey held and nothing but Space words queued,
on an odd number of them while the IME is off or an even number while it is on. -/
theorem hook_sleeps_started (bios : Bios) (modifierMask : Byte) (booted : Booted)
    (actions : List InputAction) (takes : booted.transmitLimits = [])
    (sends : ∀ action ∈ actions, action.Sends) :
    Run.AllSteps (InputAction.apply bios) (SleepsStarted bios) actions
        (Console.installed modifierMask booted) ↔
      Run.AllSteps (InputAction.apply bios) EndsOff actions (Console.installed modifierMask booted) :=
  Run.allSteps_congr (InputAction.apply bios)
    (fun _ action member awake => (action.awake bios awake (sends action member)).1)
    (fun _ action member awake => (action.awake bios awake (sends action member)).2)
    (installed_awake modifierMask booted takes)

/-- The application asks for a key, and Shift+Space is pressed twice before it gets one. -/
def pressedTwiceWhileBlocked : List InputAction :=
  [.call .ah00, .keyboard 0x10#8 0x01#8 (some 0x3420#16), .keyboard 0x00#8 0x01#8 none,
    .keyboard 0x10#8 0x01#8 (some 0x3420#16), .oldHandlerReturns]

theorem hook_sleeps_started_twice :
    Run.AllSteps (InputAction.apply ringBios) (SleepsStarted ringBios) pressedTwiceWhileBlocked
      (Console.installed 0x01#8 justBooted) := by
  have sends : ∀ action ∈ pressedTwiceWhileBlocked, action.Sends := by
    rintro action member received transmitLimits rfl
    simp [pressedTwiceWhileBlocked] at member
  have idle : ∀ (console : Console) (action : InputAction), action.readsAh00 console = false →
      EndsOff console action := fun _ _ other finds => absurd finds.1 (by simp [other])
  have ends : Run.AllSteps (InputAction.apply ringBios) EndsOff pressedTwiceWhileBlocked
      (Console.installed 0x01#8 justBooted) := by
    refine ⟨idle _ _ rfl, idle _ _ rfl, idle _ _ rfl, idle _ _ rfl, fun _ => ?_, trivial⟩
    rw [Memory.WellFormedRing.queue_length]
    decide +kernel
  exact (hook_sleeps_started ringBios 0x01#8 justBooted pressedTwiceWhileBlocked rfl sends).mpr ends

/-- The application asks for a key, and Shift+Space is pressed. -/
def pressedWhileBlocked : List InputAction :=
  [.call .ah00, .keyboard 0x10#8 0x01#8 (some 0x3420#16), .oldHandlerReturns]

theorem hook_sleeps_unstarted :
    let console :=
      Run.run (InputAction.apply ringBios) pressedWhileBlocked (Console.installed 0x01#8 justBooted)
    console.phase = .halted ∧ console.Unstarted ∧ console.irqCapture = false ∧
      console.history = [.toggled true] := by
  decide +kernel

end ImeBridge
