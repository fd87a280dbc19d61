import ImeBridge.Input.Steps
import ImeBridge.Link.Bytes
import ImeBridge.Link.Traffic
import ImeBridge.Resident.Answering

/-! # The hotkey brings a line up again

Neither end repeats a message, so on a line that loses some the two can come to wait for
one another: the client for a TEXT that is lost, the host for an OPEN_IME.  What brings
them together again is the user, who turns the IME off and on.  That works from every
state a run over a line with losses leads to, by a row of actions without one, as long
as what the client puts on the line is whole packets: the host takes the bytes behind a
packet that was cut off for the rest of it.
-/

namespace ImeBridge

open Library Session

/-- The configured modifier and Space are held down. -/
def Hardware.HotkeyHeld (modifierMask : Byte) (hardware : Hardware) : Prop :=
  hardware.memory.readByte 0x053a#16 &&& modifierMask ≠ 0#8 ∧
    hardware.memory.readByte 0x0530#16 &&& 0x10#8 ≠ 0#8

instance (modifierMask : Byte) (hardware : Hardware) : Decidable (hardware.HotkeyHeld modifierMask) := by
  unfold Hardware.HotkeyHeld; infer_instance

/-! ## What the client does on the way -/

/-- The IME is off, with nothing left of the session before. -/
structure Session.TurnedOff (session : Session) : Prop where
  link : session.linkState = .closed
  disabled : session.imeEnabled = false
  idle : session.imeActive = false
  unstaged : ¬ session.Staged

/-- The IME has been turned on, and the next run of the worker sends HELLO. -/
structure Session.Requests (session : Session) : Prop where
  link : session.linkState = .closed
  request : session.openPending = true
  idle : session.imeActive = false
  unstaged : ¬ session.Staged

/-- HELLO is out, and OPEN_IME is to follow the PONG. -/
structure Session.Greets (session : Session) : Prop where
  link : session.linkState = .helloWait
  opened : session.serialOpened = true
  request : session.openPending = true
  unstaged : ¬ session.Staged

theorem Session.closed_turnedOff (session : Session) (written : Nat) (succeeded : Bool) :
    (session.closed written succeeded).TurnedOff :=
  ⟨rfl, rfl, rfl, by simp [Session.Staged, Session.closed]⟩

section Client

variable {tsr : Tsr}

theorem pc98ServiceReturnedHotkey_off (held : tsr.HotkeyHeld) (on : tsr.imeEnabled = true) :
    (pc98ServiceReturnedHotkey tsr).2.TurnedOff := by
  rw [pc98ServiceReturnedHotkey_eq, if_pos held]
  obtain ⟨-, written, succeeded, closes⟩ | ⟨off, -⟩ :=
    toggleImeHotkey_cases { tsr with hotkeyLatched := decide tsr.HotkeyHeld }
  · have turned := closed_turnedOff (note (.toggled false) tsr.toSession) written succeeded
    rw [← closes] at turned
    exact turned
  · exact absurd (off.symm.trans on) Bool.noConfusion

theorem pc98ServiceReturnedHotkey_on (held : tsr.HotkeyHeld) (off : tsr.imeEnabled = false) :
    (pc98ServiceReturnedHotkey tsr).2.toSession =
      { tsr.toSession with imeEnabled := true, openPending := true }.note (.toggled true) := by
  rw [pc98ServiceReturnedHotkey_eq, if_pos held]
  obtain ⟨on, -⟩ | ⟨-, opens⟩ := toggleImeHotkey_cases { tsr with hotkeyLatched := decide tsr.HotkeyHeld }
  · exact absurd (off.symm.trans on) Bool.noConfusion
  · exact opens

theorem hotkeyStage_modifierMask (tsr : Tsr) :
    (hotkeyStage tsr).hotkeyModifierMask = tsr.hotkeyModifierMask := by
  by_cases held : tsr.HotkeyHeld
  · rw [hotkeyStage_held tsr held]
    dsimp only
    split
    · exact (toggleImeHotkey_serves _).modifierMask
    · rfl
  · rw [hotkeyStage_released tsr held]

/-- The first tick of the response timer. -/
theorem tickStage_first (waiting : tsr.waiting = true) (ticks : tsr.waitTicks = 0#16) :
    (tickStage tsr).toSession = { tsr.toSession with waitTicks := 1#16 } := by
  have early : tsr.toSession.timesOut = false := by simp [Session.timesOut, ticks]
  rw [tickStage_session, early, waiting, ticks]
  rfl

/-- With nothing in the transmitter's way, the worker sends the HELLO that is asked for. -/
theorem worker_greets (released : ¬ tsr.HotkeyHeld) (limits : tsr.transmitLimits = [])
    (requests : tsr.Requests) : ∃ written,
    (tickStage (openStage (injectStage (hotkeyStage tsr)))).toSession =
      { tsr.toSession.greeting written true with waitTicks := 1#16 } := by
  have starts : Tsr.Starts { tsr with hotkeyLatched := false } := ⟨requests.request, requests.idle, requests.link⟩
  rw [hotkeyStage_released tsr released, injectStage_empty { tsr with hotkeyLatched := false } requests.unstaged,
    openStage_starts _ starts]
  obtain ⟨written, succeeded, greets, takes⟩ := startLink_takes { tsr with hotkeyLatched := false }
  have whole : succeeded = true := takes.mpr fun limit first => by simp [limits] at first
  subst whole
  refine ⟨written, ?_⟩
  rw [tickStage_first (by rw [greets]; rfl) (by rw [greets]; rfl), greets]

/-- On an open port with nothing in its way, OPEN_IME goes out whole. -/
theorem sendOpenIme_whole (opened : tsr.serialOpened = true) (limits : tsr.transmitLimits = []) :
    (sendOpenIme tsr).toSession = tsr.toSession.asked 10 true := by
  have sends := @sendPacket_whole
    { tsr with sequence := tsr.sequence + 1#16, openSequence := tsr.sequence + 1#16 }
    opened limits imeOpenIme (tsr.sequence + 1#16)
  simp only [sendOpenIme, sends, if_true]
  rfl

/-- The PONG brings the link up, and the OPEN_IME out. -/
theorem handleParsed_pong {packet : Packet} (isPong : packet.type = imePong) (greets : tsr.Greets)
    (limits : tsr.transmitLimits = []) : (handleParsed packet tsr).toSession =
      { tsr.toSession with linkState := .ready, waitTicks := 0#16 }.asked 10 true := by
  rw [handleParsed, if_pos ⟨isPong, greets.link⟩]
  dsimp only
  rw [if_pos greets.request]
  exact sendOpenIme_whole greets.opened limits

/-- Behind the OPEN_IME the rest of the run only ticks. -/
theorem worker_rests (active : tsr.imeActive = true) (noRequest : tsr.openPending = false)
    (unstaged : ¬ tsr.Staged) (ticks : tsr.waitTicks = 0#16) :
    (tickStage (openStage (injectStage tsr))).toSession = { tsr.toSession with waitTicks := 1#16 } := by
  have asksNot : openStage tsr = tsr := by simp [openStage, noRequest]
  rw [injectStage_empty _ unstaged, asksNot]
  exact tickStage_first (by simp [Session.waiting, active]) ticks

end Client

namespace Net

/-! ## What every action keeps -/

section Outside

variable {Outside : Type} (outside : Outside → List Event → Line → Line)

theorem turn_modifierMask (net : Net) (turn : Option Outside) :
    (net.turn outside turn).client.hotkeyModifierMask = net.client.hotkeyModifierMask := by
  cases turn with
  | none =>
    simp only [turn, receive]
    split
    · rfl
    · split
      · rfl
      · exact (handleParsed_serves net.client _).modifierMask
  | some action => rfl

theorem apply_modifierMask (net : Net) (action : Action Outside) :
    (net.apply outside action).client.hotkeyModifierMask = net.client.hotkeyModifierMask := by
  cases action with
  | worker hardware turns =>
    have row : ∀ (turns : List (Option Outside)) (net : Net),
        (turns.foldl (turn outside) net).client.hotkeyModifierMask = net.client.hotkeyModifierMask := by
      intro turns
      induction turns with
      | nil => exact fun _ => rfl
      | cons first turns inductionHypothesis =>
        exact fun net => (inductionHypothesis _).trans (turn_modifierMask outside net first)
    refine (tickStage_serves _).modifierMask.trans ((openStage_works _).modifierMask.trans
      ((injectStage_serves _).modifierMask.trans ((row turns _).trans ?_)))
    exact hotkeyStage_modifierMask _
  | returnedHotkey hardware => exact (pc98ServiceReturnedHotkey_keys _).2.2.1
  | prepareUninstall hardware => exact (closeIme_serves _).modifierMask
  | outside action => rfl
  | unread =>
    simp only [apply]
    split
    · rfl
    · rfl

/-- The host has taken no more than was posted, the hotkey is the one the client was
installed with, and the log tells the truth about what was written. -/
structure Steady (modifierMask : Byte) (net : Net) : Prop where
  sound : net.link.Sound
  modifierMask : net.client.hotkeyModifierMask = modifierMask
  honest : ∀ event ∈ net.client.history, event.Honest

theorem Steady.apply {modifierMask : Byte}
    (keeps : ∀ action history line, line.Kept history → (outside action history line).Kept history)
    (net : Net) (action : Action Outside) (steady : net.Steady modifierMask) :
    (net.apply outside action).Steady modifierMask where
  sound := preserves outside Link.Sound (fun _ _ does sound => sound.step keeps does)
    (fun _ _ _ sound => sound.timedOut) steady.sound
  modifierMask := (apply_modifierMask outside net action).trans steady.modifierMask
  honest := apply_honest outside net action steady.honest

end Outside

theorem kept_lossy (bridge : Bridge) (action : LossyAction) (history : List Event) (line : Line)
    (kept : line.Kept history) : (action.perform bridge history line).Kept history := by
  cases action with
  | host action => exact Line.kept_host bridge action history line kept
  | loseToHost => exact Nat.min_le_right _ _
  | loseToClient => exact kept

/-! ## The way back -/

/-- The messages on their way to the host. -/
def onWay (net : Net) : List Mail := net.toHost net.client.history

/-- One press of the hotkey turns an IME off that is on; one that is off is turned on first, which
makes sure that nothing of the session before is left. -/
def turnOff (held : Hardware) (net : Net) : List (Action HostAction) :=
  List.replicate (if net.client.imeEnabled then 1 else 2) (.returnedHotkey held)

/-- The host takes what is on its way to it. -/
def serves (net : Net) : List (Action HostAction) := List.replicate net.onWay.length (.outside .serve)

/-- What is on its way to the client comes while nobody reads it. -/
def passes (net : Net) : List (Action HostAction) := List.replicate net.toClient.length .unread

/-- The next press, and the runs of the worker and of the host that follow it. -/
def turnOn (held idle : Hardware) : List (Action HostAction) :=
  [.returnedHotkey held, .worker idle [], .outside .serve, .worker idle [none], .outside .serve]

/-- Off, a pause until the line is silent, and on again. -/
def recovery (bridge : Bridge) (held idle : Hardware) (net : Net) : List (Action HostAction) :=
  let off := Run.run (act bridge) (net.turnOff held) net
  let heard := Run.run (act bridge) off.serves off
  net.turnOff held ++ (off.serves ++ (heard.passes ++ turnOn held idle))

/-- Both ends wait for the same input. -/
structure Up (net : Net) : Prop where
  link : net.client.linkState = .ready
  active : net.client.imeActive = true
  ready : net.host.imeReady = true
  sameOpen : net.host.openSequence = net.client.openSequence

/-- Nothing is on its way. -/
structure Silent (net : Net) : Prop where
  toHost : net.onWay = []
  toClient : net.toClient = []

section Recovery

variable {bridge : Bridge} {modifierMask : Byte} {held idle : Hardware} {net : Net}

theorem Steady.act (steady : net.Steady modifierMask) (action : Action HostAction) :
    (Net.act bridge action net).Steady modifierMask :=
  Steady.apply _ (Line.kept_host bridge) net action steady

theorem turnOff_spec (pressed : held.HotkeyHeld modifierMask) (steady : net.Steady modifierMask) :
    (Run.run (act bridge) (net.turnOff held) net).client.TurnedOff ∧
      (Run.run (act bridge) (net.turnOff held) net).Steady modifierMask := by
  have down : ∀ net : Net, net.Steady modifierMask →
      Tsr.HotkeyHeld { net.client with toHardware := held } := by
    rintro net ⟨-, rfl⟩
    exact pressed
  cases on : net.client.imeEnabled with
  | true =>
    have once : net.turnOff held = [.returnedHotkey held] := by rw [turnOff, on]; rfl
    rw [once]
    have next := @Steady.act bridge _ _ steady (.returnedHotkey held)
    exact ⟨pc98ServiceReturnedHotkey_off (down net steady) on, next⟩
  | false =>
    have turned := pc98ServiceReturnedHotkey_on (down net steady) on
    have next := @Steady.act bridge _ _ steady (.returnedHotkey held)
    have isOn : (act bridge (.returnedHotkey held) net).client.imeEnabled = true :=
      congrArg Session.imeEnabled turned
    have twice : net.turnOff held = [.returnedHotkey held, .returnedHotkey held] := by rw [turnOff, on]; rfl
    rw [twice]
    exact ⟨pc98ServiceReturnedHotkey_off (down _ next) isOn, @Steady.act bridge _ _ next (.returnedHotkey held)⟩

theorem serves_spec (steady : net.Steady modifierMask) :
    ((Run.run (act bridge) net.serves net).client = net.client ∧
      (Run.run (act bridge) net.serves net).Steady modifierMask) ∧
      (Run.run (act bridge) net.serves net).onWay.length = 0 := by
  refine @Run.run_drains _ _ (act bridge) (fun later => later.client = net.client ∧ later.Steady modifierMask)
    (fun later => later.onWay.length) (.outside .serve) ?_ _ ⟨rfl, steady⟩
  rintro later ⟨client, steady⟩
  refine ⟨⟨client, steady.act _⟩, ?_⟩
  have served := congrArg List.length (later.toLine.toHost_serve bridge later.client.history)
  rw [List.length_tail] at served
  exact served

theorem passes_spec (steady : net.Steady modifierMask) (off : net.client.TurnedOff) (taken : net.onWay = []) :
    ((Run.run (act bridge) net.passes net).client = net.client ∧
      (Run.run (act bridge) net.passes net).Steady modifierMask ∧
      (Run.run (act bridge) net.passes net).onWay = []) ∧
      (Run.run (act bridge) net.passes net).toClient.length = 0 := by
  refine @Run.run_drains _ _ (act bridge)
    (fun later => later.client = net.client ∧ later.Steady modifierMask ∧ later.onWay = [])
    (fun later => later.toClient.length) .unread ?_ _ ⟨rfl, steady, taken⟩
  rintro later ⟨client, steady, taken⟩
  have next := @Steady.act bridge _ _ steady .unread
  have passed : act bridge .unread later = { later with toClient := later.toClient.tail } := by
    rw [Net.act, apply, if_pos (client ▸ off.link)]
  rw [passed] at next ⊢
  exact ⟨⟨client, next, taken⟩, List.length_tail⟩

/-- HELLO is on its way, and the client waits for the PONG. -/
structure Greeting (net : Net) : Prop where
  greets : net.client.Greets
  toHost : ∃ mail, net.onWay = [mail] ∧ mail.packet.type = imeHello ∧ mail.packet.payload = hello
  toClient : net.toClient = []

/-- The PONG is on its way. -/
structure Greeted (net : Net) : Prop where
  greets : net.client.Greets
  capacity : net.host.targetMaxTextBytes = imeMaxPayload
  toHost : net.onWay = []
  toClient : ∃ letter, net.toClient = [letter] ∧ letter.packet.type = imePong

/-- OPEN_IME is on its way. -/
structure Asking (net : Net) : Prop where
  link : net.client.linkState = .ready
  active : net.client.imeActive = true
  noRequest : net.client.openPending = false
  unstaged : ¬ net.client.Staged
  capacity : net.host.targetMaxTextBytes = imeMaxPayload
  toHost : ∃ opening, net.onWay = [⟨⟨imeOpenIme, net.client.openSequence, []⟩, opening⟩]
  toClient : net.toClient = []

theorem turnedOn (pressed : held.HotkeyHeld modifierMask) (steady : net.Steady modifierMask)
    (off : net.client.TurnedOff) (silent : net.Silent) :
    (act bridge (.returnedHotkey held) net).client.Requests ∧ (act bridge (.returnedHotkey held) net).Silent ∧
      (act bridge (.returnedHotkey held) net).client.history = net.client.history ++ [.toggled true] := by
  obtain ⟨sound, rfl, -⟩ := steady
  have opens := @pc98ServiceReturnedHotkey_on { net.client with toHardware := held } pressed off.disabled
  have quiet := @Line.toHost_note net.toLine
    { net.client.toSession with imeEnabled := true, openPending := true } (.toggled true) fun _ => rfl
  have session : (act bridge (.returnedHotkey held) net).client.toSession = _ := opens
  refine ⟨?_, ⟨?_, silent.toClient⟩, congrArg Session.history session⟩
  · rw [session]
    exact ⟨off.link, rfl, off.idle, off.unstaged⟩
  · rw [onWay, session]
    exact quiet.trans silent.toHost

theorem greeting (released : ¬ idle.HotkeyHeld modifierMask) (limits : idle.transmitLimits = [])
    (steady : net.Steady modifierMask) (requests : net.client.Requests) (silent : net.Silent) :
    (act bridge (.worker idle []) net).Greeting ∧ ∃ packet written,
      (act bridge (.worker idle []) net).client.history = net.client.history ++ [.sent packet written true] := by
  obtain ⟨sound, rfl, -⟩ := steady
  obtain ⟨written, session⟩ := @worker_greets { net.client with toHardware := idle } released limits requests
  have session : (act bridge (.worker idle []) net).client.toSession = _ := session
  have posts := @Line.toHost_greeting net.toLine net.client.toSession written true sound.kept
  have history := (congrArg Session.history session).trans (net.client.toSession.greeting_history written true)
  refine ⟨⟨?_, ⟨⟨⟨imeHello, net.client.sequence + 1#16, hello⟩, openings net.client.history⟩, ?_, rfl, rfl⟩,
    silent.toClient⟩, _, _, history⟩
  · rw [session]
    exact ⟨rfl, rfl, requests.request, requests.unstaged⟩
  · rw [onWay, session]
    exact posts.trans (by rw [show net.toHost net.client.history = [] from silent.toHost]; rfl)

theorem greeted (before : net.Greeting) : (act bridge (.outside .serve) net).Greeted := by
  obtain ⟨mail, toHost, isHello, payload⟩ := before.toHost
  have answers : serveAsync bridge mail.packet net.host =
      (some ⟨imePong, mail.packet.sequence, []⟩, { net.host with targetMaxTextBytes := imeMaxPayload }) := by
    rw [serveAsync, if_pos isHello, payload]
    rfl
  have host : (act bridge (.outside .serve) net).host = _ := Line.serve_host net.toLine toHost
  have toClient : (act bridge (.outside .serve) net).toClient = _ := Line.serve_toClient net.toLine toHost
  rw [answers] at host toClient
  refine ⟨before.greets, by rw [host], ?_, _, toClient.trans (by rw [before.toClient]; rfl), rfl⟩
  have left := net.toLine.toHost_serve bridge net.client.history
  rw [show net.toHost net.client.history = [mail] from toHost] at left
  exact left

/-- A run of the worker that takes the one letter on its way. -/
theorem worker_takes {letter : Letter} {rest : List Letter} (incoming : net.toClient = letter :: rest)
    (up : net.client.linkState ≠ .closed) (released : ¬ idle.HotkeyHeld net.client.hotkeyModifierMask) :
    let handled := handleParsed letter.packet
      { net.client with toHardware := idle, hotkeyLatched := false }
    act bridge (.worker idle [none]) net =
      { net.toLine.deliver letter rest net.client.toSession handled.history with
        client := tickStage (openStage (injectStage handled)) } := by
  have polled := hotkeyStage_released { net.client with toHardware := idle } released
  simp only [Net.act, apply, beforeTick, work, List.foldl_cons, List.foldl_nil, turn, receive, polled,
    if_neg up, incoming]

theorem asking (released : ¬ idle.HotkeyHeld modifierMask) (limits : idle.transmitLimits = [])
    (steady : net.Steady modifierMask) (greeted : net.Greeted) :
    (act bridge (.worker idle [none]) net).Asking ∧ ∃ packet written,
      (act bridge (.worker idle [none]) net).client.history = net.client.history ++ [.sent packet written true] := by
  obtain ⟨sound, rfl, -⟩ := steady
  obtain ⟨letter, incoming, isPong⟩ := greeted.toClient
  have greets := greeted.greets
  have up : net.client.linkState ≠ .closed := by simp [greets.link]
  have handled := @handleParsed_pong { net.client with toHardware := idle, hotkeyLatched := false } _
    isPong ⟨greets.link, greets.opened, greets.request, greets.unstaged⟩ limits
  have takes := @worker_takes bridge idle net _ _ incoming up released
  dsimp only at takes
  generalize handleParsed letter.packet { net.client with toHardware := idle, hotkeyLatched := false } = tsr
    at handled takes
  have rests := @worker_rests tsr (by rw [handled]; rfl) (by rw [handled]; rfl)
    (by rw [handled]; exact greets.unstaged) (by rw [handled]; rfl)
  have session : (act bridge (.worker idle [none]) net).client.toSession = _ :=
    (congrArg (fun net => net.client.toSession) takes).trans rests
  rw [handled] at session
  have asks := @Line.toHost_asked net.toLine
    { net.client.toSession with linkState := .ready, waitTicks := 0#16 } 10 true sound.kept
  have line : (act bridge (.worker idle [none]) net).toLine = _ := congrArg Net.toLine takes
  have toHost : (act bridge (.worker idle [none]) net).onWay = _ :=
    (congrArg₂ Line.toHost (congrArg Session.history session) line).trans
      (net.toLine.deliver_toHost letter [] net.client.toSession tsr.history _)
  refine ⟨?_, _, _, (congrArg Session.history session).trans (Session.asked_history _ 10 true)⟩
  constructor
  · rw [session]; rfl
  · rw [session]; rfl
  · rw [session]; rfl
  · rw [session]; exact greets.unstaged
  · rw [line, Line.deliver_host]; exact greeted.capacity
  · rw [session]
    refine ⟨openings net.client.history + 1, toHost.trans (asks.trans ?_)⟩
    rw [show net.toHost net.client.history = [] from greeted.toHost]
    rfl
  · rw [line, Line.deliver_toClient]

theorem serveAsync_openIme (number : Word) (host : Host) :
    (serveAsync bridge ⟨imeOpenIme, number, []⟩ host).2 =
        { host with openSequence := number, imeReady := true } ∧
      (serveAsync bridge ⟨imeOpenIme, number, []⟩ host).1 =
        (bridge.automaticText.filter fun text => text.length ≤ host.targetMaxTextBytes).map
          (⟨imeText, number, ·⟩) := by
  cases automatic : bridge.automaticText with
  | none => simp [serveAsync, automatic, imeOpenIme, imeHello, imePing]
  | some text =>
    by_cases large : text.length > host.targetMaxTextBytes
    · simp [serveAsync, automatic, imeOpenIme, imeHello, imePing, large]
    · simp [serveAsync, automatic, imeOpenIme, imeHello, imePing, large, not_lt.mp large]

/-- What the host answers to the OPEN_IME is all that is on its way. -/
theorem answered (asking : net.Asking) : (act bridge (.outside .serve) net).Up ∧
    (act bridge (.outside .serve) net).host.targetMaxTextBytes = imeMaxPayload ∧
    (act bridge (.outside .serve) net).toClient.map (·.packet) =
      ((bridge.automaticText.filter fun text => text.length ≤ imeMaxPayload).map
        (⟨imeText, net.client.openSequence, ·⟩)).toList := by
  obtain ⟨opening, toHost⟩ := asking.toHost
  obtain ⟨opens, answers⟩ := @serveAsync_openIme bridge net.client.openSequence net.host
  have host : (act bridge (.outside .serve) net).host = _ := Line.serve_host net.toLine toHost
  have toClient : (act bridge (.outside .serve) net).toClient = _ := Line.serve_toClient net.toLine toHost
  rw [opens] at host
  rw [answers, asking.capacity, asking.toClient, List.nil_append] at toClient
  refine ⟨⟨asking.link, asking.active, by rw [host], by rw [host]; rfl⟩, by rw [host]; exact asking.capacity, ?_⟩
  rw [toClient, List.map_map]
  exact List.map_id _

/-- A TEXT for the OPEN_IME the client waits on is accepted. -/
theorem accepts {payload : List Byte} (link : net.client.linkState = .ready) (active : net.client.imeActive = true)
    (released : ¬ idle.HotkeyHeld net.client.hotkeyModifierMask)
    (incoming : net.toClient.map (·.packet) = [⟨imeText, net.client.openSequence, payload⟩])
    (fits : payload.length ≤ imeMaxPayload) :
    ∃ events, (act bridge (.worker idle [none]) net).client.history =
      net.client.history ++ .acceptedText net.client.openSequence payload :: events := by
  obtain ⟨letter, incoming, packet⟩ := List.map_eq_singleton_iff.mp incoming
  have takes := @worker_takes bridge idle net _ _ incoming (by simp [link]) released
  dsimp only at takes
  have handled :
      (handleParsed letter.packet { net.client with toHardware := idle, hotkeyLatched := false }).history =
        net.client.history ++ [.acceptedText net.client.openSequence payload] := by
    have expected : net.client.toSession.expects ⟨imeText, net.client.openSequence, payload⟩ = true := by
      simp [Session.expects, active]
    rw [packet, handleParsed, if_neg (fun pong => by simp [imeText, imePong] at pong),
      if_pos ⟨rfl, expected, fits⟩]
    rfl
  generalize handleParsed letter.packet { net.client with toHardware := idle, hotkeyLatched := false } = tsr
    at handled takes
  have works := ((injectStage_serves tsr).toWorks.trans (openStage_works _)).trans (tickStage_serves _).toWorks
  obtain ⟨events, history, -⟩ := works.history
  refine ⟨events, (congrArg (·.client.history) takes).trans ?_⟩
  rw [history, handled, List.append_assoc, List.singleton_append]

/-- Both ends wait for the same input, and the next one arrives. -/
structure Recovered (bridge : Bridge) (idle : Hardware) (net : Net) : Prop where
  up : net.Up
  typed : bridge.automaticText = none → ∀ content, content ≠ [] →
    (bridge.encode932 content).length ≤ imeMaxPayload →
      ∃ events, (Run.run (act bridge) [.outside (.user (.text content)), .worker idle [none]] net).client.history =
        net.client.history ++ .acceptedText net.client.openSequence (bridge.encode932 content) :: events
  automatic : ∀ text, bridge.automaticText = some text → text.length ≤ imeMaxPayload →
    ∃ events, (act bridge (.worker idle [none]) net).client.history =
      net.client.history ++ .acceptedText net.client.openSequence text :: events

theorem recovered (released : ¬ idle.HotkeyHeld modifierMask) (steady : net.Steady modifierMask)
    (asking : net.Asking) : (act bridge (.outside .serve) net).Recovered bridge idle := by
  have steady := @Steady.act bridge _ _ steady (.outside .serve)
  obtain ⟨up, capacity, toClient⟩ := @answered bridge net asking
  have number : (act bridge (.outside .serve) net).client.openSequence = net.client.openSequence := rfl
  rw [← number] at toClient
  generalize act bridge (.outside .serve) net = later at *
  obtain ⟨-, rfl⟩ := steady
  refine ⟨up, fun interactive content nonempty fits => ?_, fun text automatic fits => ?_⟩
  · have silent : later.toClient = [] := by
      rw [interactive] at toClient
      exact List.map_eq_nil_iff.mp toClient
    have sends : sendText bridge content later.host =
        (some ⟨imeText, later.client.openSequence, bridge.encode932 content⟩,
          { later.host with imeReady := false }) := by
      simp [sendText, up.ready, nonempty, capacity, fits, up.sameOpen]
    have typed : (act bridge (.outside (.user (.text content))) later).toClient.map (·.packet) =
        [⟨imeText, later.client.openSequence, bridge.encode932 content⟩] := by
      have performs : act bridge (.outside (.user (.text content))) later = { Line.write
          (sendText bridge content later.host).1
          { later.toLine with host := (sendText bridge content later.host).2 } with client := later.client } := rfl
      rw [performs, sends, Line.write_toClient, silent]
      rfl
    exact @accepts bridge idle (act bridge (.outside (.user (.text content))) later) _ up.link up.active
      released typed fits
  · rw [automatic] at toClient
    refine accepts up.link up.active released (toClient.trans ?_) fits
    simp [fits]

end Recovery

end Net

/-- Whatever got lost so far, the hotkey and a line that loses nothing more bring both ends to wait
for the same input, and that input arrives.  What the client puts on the line until it is turned
off has to be whole packets; then it is so to the end. -/
theorem hotkey_recovers (bridge : Bridge) (modifierMask : Byte) (hardware held idle : Hardware)
    (pressed : held.HotkeyHeld modifierMask) (released : ¬ idle.HotkeyHeld modifierMask)
    (limits : idle.transmitLimits = []) (actions : List (Net.Action LossyAction)) :
    let net := Run.run (Net.apply (LossyAction.perform bridge)) actions (Net.start modifierMask hardware)
    let recovered := Run.run (Net.act bridge) (net.recovery bridge held idle) net
    (Run.run (Net.act bridge) (net.turnOff held) net).client.SendsWhole →
      recovered.Recovered bridge idle ∧
        recovered.client.history.flatMap Event.bytes = (posted recovered.client.history).flatMap Mail.bytes := by
  intro net recovered whole
  have steady : net.Steady modifierMask :=
    Run.invariant (Net.apply (LossyAction.perform bridge)) (Net.Steady.apply _ (Net.kept_lossy bridge)) actions
      ⟨.start modifierMask hardware, rfl, by simp [Net.start, cleared]⟩
  simp only [recovered]
  generalize net = net at steady whole ⊢
  simp only [Net.recovery, Run.run_append]
  obtain ⟨isOff, steady⟩ := @Net.turnOff_spec bridge _ _ _ pressed steady
  generalize Run.run (Net.act bridge) (net.turnOff held) net = off at *
  obtain ⟨⟨sameClient, steady⟩, taken⟩ := @Net.serves_spec bridge _ _ steady
  generalize Run.run (Net.act bridge) off.serves off = heard at *
  obtain ⟨⟨sameAgain, steady, taken⟩, passed⟩ := @Net.passes_spec bridge _ _ steady (sameClient ▸ isOff)
    (List.length_eq_zero_iff.mp taken)
  generalize Run.run (Net.act bridge) heard.passes heard = silent at *
  have isOff : silent.client.TurnedOff := sameAgain ▸ sameClient ▸ isOff
  have whole : silent.client.SendsWhole := sameAgain ▸ sameClient ▸ whole
  obtain ⟨requests, isSilent, toggled⟩ := @Net.turnedOn bridge _ _ _ pressed steady isOff
    ⟨taken, List.length_eq_zero_iff.mp passed⟩
  have steady := @Net.Steady.act bridge _ _ steady (.returnedHotkey held)
  have whole := whole.append toggled (by simp [Event.cut])
  obtain ⟨greeting, _, _, greets⟩ := @Net.greeting bridge _ _ _ released limits steady requests isSilent
  have steady := @Net.Steady.act bridge _ _ steady (.worker idle [])
  have whole := whole.append greets (by simp [Event.cut])
  have greeted := @Net.greeted bridge _ greeting
  have steady := @Net.Steady.act bridge _ _ steady (.outside .serve)
  obtain ⟨asking, _, _, asks⟩ := @Net.asking bridge _ _ _ released limits steady greeted
  have steady := @Net.Steady.act bridge _ _ steady (.worker idle [none])
  have whole := whole.append asks (by simp [Event.cut])
  exact ⟨Net.recovered released steady asking, bytes_posted steady.honest whole⟩

/-- The HELLO of a client that has just been turned on gets lost. -/
def helloLost : List (Net.Action LossyAction) :=
  [.returnedHotkey (hotkeyHeld (machine 0#8 [])), .worker (machine 0#8 []) [], .outside .loseToHost]

theorem hotkey_recovers_helloLost :
    let net := Run.run (Net.apply (LossyAction.perform plainBridge)) helloLost (Net.start 0x01#8 {})
    let recovered := Run.run (Net.act plainBridge)
      (net.recovery plainBridge (hotkeyHeld (machine 0#8 [])) (machine 0#8 [])) net
    (net.client.linkState = .helloWait ∧ net.Silent) ∧ recovered.Recovered plainBridge (machine 0#8 []) ∧
      recovered.client.history.flatMap Event.bytes = (posted recovered.client.history).flatMap Mail.bytes :=
  ⟨⟨by decide +kernel, ⟨by decide +kernel, by decide +kernel⟩⟩, hotkey_recovers plainBridge 0x01#8 {} _ _
    (by decide) (by decide) rfl helloLost (by decide +kernel)⟩

end ImeBridge
