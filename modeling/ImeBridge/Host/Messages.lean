import ImeBridge.Host.Window

/-! # What the window sends

A message of an interactive window answers an OPEN_IME of the connection that is open, for
which nothing was sent and which nothing has ended since, whatever connections there were
before and however writes failed; and it goes with what stands in the input box.
-/

namespace ImeBridge

open Library

namespace WindowEvent

/-- An OPEN_IME asks for a message on its connection; an answer to one, CLOSE_IME and the ends
of a connection make it void. -/
def asks : WindowEvent → Option (Option (Nat × Word))
  | .connected _ | .disconnected _ => some none
  | .received connection packet =>
    if packet.type = imeOpenIme then some (some (connection, packet.sequence))
    else if packet.type = imeCloseIme ∨ packet.type = imeTextAck ∨ packet.type = imeKeyAck then some none
    else none
  | .wrote _ _ _ | .failed _ _ => none

/-- TEXT, KEY and CLOSE_IME are messages. -/
def message : WindowEvent → Option (Option (Nat × Word))
  | .wrote connection packet _ =>
    if packet.type = imeText ∨ packet.type = imeKey ∨ packet.type = imeCloseIme then
      some (some (connection, packet.sequence))
    else none
  | .connected _ | .disconnected _ | .received _ _ | .failed _ _ => none

end WindowEvent

/-- The capacity that HELLO advertises, if it does. -/
def Packet.capacity (packet : Packet) : Nat :=
  let advertised := (word (packet.payload.getD 8 0) (packet.payload.getD 9 0)).toNat
  if 10 ≤ packet.payload.length ∧ 0 < advertised ∧ advertised ≤ imeMaxPayload then advertised
  else imeMaxPayload

namespace Window

/-- The capacity that the PC-98 advertised last on the open connection. -/
def capacity (log : List WindowEvent) : Nat :=
  log.foldl (fun capacity event =>
    match event with
    | .connected _ | .disconnected _ => imeMaxPayload
    | .received _ packet => if packet.type = imeHello then packet.capacity else capacity
    | .wrote _ _ _ | .failed _ _ => capacity) imeMaxPayload

@[simp] theorem capacity_wrote (log : List WindowEvent) (connection : Nat) (packet : Packet)
    (input : List Word) : capacity (log ++ [.wrote connection packet input]) = capacity log := by
  simp [capacity]

@[simp] theorem capacity_failed (log : List WindowEvent) (connection : Nat) (packet : Packet) :
    capacity (log ++ [.failed connection packet]) = capacity log := by
  simp [capacity]

@[simp] theorem capacity_received (log : List WindowEvent) (connection : Nat) (packet : Packet) :
    capacity (log ++ [.received connection packet]) =
      if packet.type = imeHello then packet.capacity else capacity log := by
  simp [capacity]

/-- What may be written while this stands in the input box. -/
inductive Suits (bridge : Bridge) (capacity : Nat) (input : List Word) : Packet → Prop where
  | text (sequence : Word) (nonempty : input ≠ []) (fits : (bridge.encode932 input).length ≤ capacity) :
      Suits bridge capacity input ⟨imeText, sequence, bridge.encode932 input⟩
  | key (sequence : Word) (pressed : RemoteKey) (empty : input = []) :
      Suits bridge capacity input ⟨imeKey, sequence, [pressed.code]⟩
  | close (sequence : Word) (empty : input = []) : Suits bridge capacity input ⟨imeCloseIme, sequence, []⟩
  | pong (sequence : Word) : Suits bridge capacity input ⟨imePong, sequence, []⟩

/-- A packet that was written suits the input box. -/
def SuitsInput (bridge : Bridge) (before : List WindowEvent) : WindowEvent → Prop
  | .wrote _ packet input => Suits bridge (capacity before) input packet
  | .connected _ | .disconnected _ | .received _ _ | .failed _ _ => True

/-- The OPEN_IME with this label waits for a message. -/
abbrev Waits (log : List WindowEvent) (label : Option (Nat × Word)) : Prop :=
  Permit.Standing WindowEvent.asks WindowEvent.message log label

/-- The variables of a connection next to what happened; a ready host has a permit. -/
structure Sound (bridge : Bridge) (host : Host) (stream : Option Nat) (log : List WindowEvent) : Prop where
  ready : host.imeReady = true → ∃ connection, stream = some connection ∧
    Waits log (some (connection, host.openSequence))
  target : host.targetMaxTextBytes = capacity log
  asked : Permit.UsedOnce WindowEvent.asks WindowEvent.message log
  suits : History.Everywhere (SuitsInput bridge) log

/-! ## Packets -/

variable {bridge : Bridge}

theorem serveAsync_targetMaxTextBytes (packet : Packet) (host : Host) :
    (serveAsync bridge packet host).2.targetMaxTextBytes =
      if packet.type = imeHello then packet.capacity else host.targetMaxTextBytes := by
  by_cases isHello : packet.type = imeHello
  · simp only [serveAsync, if_pos isHello, Packet.capacity]
    split_ifs <;> omega
  · simp only [serveAsync, if_neg isHello]
    split_ifs
    · rfl
    · cases bridge.automaticText with
      | none => rfl
      | some text =>
        dsimp only
        split <;> rfl
    all_goals rfl

/-- An interactive bridge answers by PONG only, and stays ready only where the OPEN_IME still
waits. -/
theorem serveAsync_waits (interactive : bridge.automaticText = none) (connection : Nat) (packet : Packet)
    (host : Host) :
    (∀ answer, (serveAsync bridge packet host).1 = some answer → answer = ⟨imePong, packet.sequence, []⟩) ∧
      ((serveAsync bridge packet host).2.imeReady = true →
        (WindowEvent.received connection packet).asks =
            some (some (connection, (serveAsync bridge packet host).2.openSequence)) ∨
          (WindowEvent.received connection packet).asks = none ∧ host.imeReady = true ∧
            (serveAsync bridge packet host).2.openSequence = host.openSequence) := by
  simp only [serveAsync, interactive, WindowEvent.asks]
  split_ifs <;> simp_all

/-! ## Steps -/

section Steps

variable {host : Host} {stream : Option Nat} {log : List WindowEvent} {window : Window}

/-- An event that neither asks nor answers leaves the permit as it is. -/
theorem Waits.concat {label : Option (Nat × Word)} {event : WindowEvent} (waits : Waits log label)
    (noAsk : event.asks = none) (noMessage : event.message = none) : Waits (log ++ [event]) label :=
  (Permit.standing_append (by simp [noAsk, noMessage])).mpr waits

namespace Sound

/-- Writing a PONG, and a write that throws. -/
theorem quiet (sound : Sound bridge host stream log) {event : WindowEvent} (noAsk : event.asks = none)
    (noMessage : event.message = none) (sameCapacity : capacity (log ++ [event]) = capacity log)
    (suits : SuitsInput bridge log event) : Sound bridge host stream (log ++ [event]) where
  ready isReady := by
    obtain ⟨connection, isOpen, waits⟩ := sound.ready isReady
    exact ⟨connection, isOpen, waits.concat noAsk noMessage⟩
  target := sound.target.trans sameCapacity.symm
  asked := Permit.usedOnce_concat.mpr ⟨sound.asked, by simp [noMessage]⟩
  suits := History.everywhere_concat.mpr ⟨sound.suits, suits⟩

theorem failed (sound : Sound bridge host stream log) (connection : Nat) (packet : Packet) :
    Sound bridge host stream (log ++ [.failed connection packet]) :=
  sound.quiet rfl rfl (capacity_failed log connection packet) trivial

/-- The ends of a connection. -/
theorem fresh (sound : Sound bridge host stream log) {event : WindowEvent} (stream' : Option Nat)
    (noMessage : event.message = none) (fresh : capacity (log ++ [event]) = imeMaxPayload)
    (suits : SuitsInput bridge log event) : Sound bridge {} stream' (log ++ [event]) where
  ready isReady := absurd isReady Bool.noConfusion
  target := fresh.symm
  asked := Permit.usedOnce_concat.mpr ⟨sound.asked, by simp [noMessage]⟩
  suits := History.everywhere_concat.mpr ⟨sound.suits, suits⟩

theorem received (interactive : bridge.automaticText = none) {connection : Nat} (packet : Packet)
    (sound : Sound bridge host (some connection) log) :
    Sound bridge (serveAsync bridge packet host).2 (some connection)
      (log ++ [.received connection packet]) where
  ready isReady := by
    obtain granted | ⟨noAsk, wasReady, same⟩ := (serveAsync_waits interactive connection packet host).2 isReady
    · exact ⟨connection, rfl, Permit.standing_grant granted⟩
    · obtain ⟨other, isOpen, waits⟩ := sound.ready wasReady
      cases isOpen
      exact ⟨connection, rfl, same ▸ waits.concat noAsk rfl⟩
  target := by
    rw [serveAsync_targetMaxTextBytes, capacity_received, sound.target]
  asked := Permit.usedOnce_concat.mpr ⟨sound.asked, by simp [WindowEvent.message]⟩
  suits := History.everywhere_concat.mpr ⟨sound.suits, trivial⟩

/-- The message of a ready host. -/
theorem wrote {connection : Nat} {packet : Packet} {input : List Word}
    (sound : Sound bridge host (some connection) log) (ready : host.imeReady = true)
    (isMessage : (WindowEvent.wrote connection packet input).message =
      some (some (connection, host.openSequence)))
    (suits : Suits bridge (capacity log) input packet) :
    Sound bridge { host with imeReady := false } (some connection)
      (log ++ [.wrote connection packet input]) where
  ready isReady := absurd isReady Bool.noConfusion
  target := sound.target.trans (capacity_wrote log connection packet input).symm
  asked := by
    obtain ⟨other, isOpen, waits⟩ := sound.ready ready
    cases isOpen
    exact (Permit.usedOnce_use isMessage).mpr ⟨sound.asked, waits⟩
  suits := History.everywhere_concat.mpr ⟨sound.suits, suits⟩

end Sound

/-- What is known of a window. -/
abbrev Kept (bridge : Bridge) (window : Window) : Prop :=
  Sound bridge window.toHost window.stream window.log

theorem sendAsync_cases (outcome : Option Failure) (connection : Nat) (packet : Packet) (window : Window) :
    (∃ failure, window.sendAsync outcome connection packet =
      (some failure, window.note (.failed connection packet))) ∨
    window.sendAsync outcome connection packet =
      (none, window.note (.wrote connection packet window.input)) := by
  unfold sendAsync
  split
  · exact .inl ⟨_, rfl⟩
  · cases outcome with
    | none => exact .inr rfl
    | some failure => exact .inl ⟨failure, rfl⟩

theorem kept_connect (description : String) (kept : window.Kept bridge) :
    (window.connect description).Kept bridge := by
  unfold connect
  split
  · exact kept.fresh _ rfl (by simp [capacity]) trivial
  · exact kept

theorem kept_disconnect (transport : Transport) {connection : Nat} (failure : Failure)
    (isOpen : window.stream = some connection) (kept : window.Kept bridge) :
    (window.disconnect transport connection failure).Kept bridge := by
  have ends : Sound bridge {} none (window.log ++ [.disconnected connection]) :=
    kept.fresh none rfl (by simp [capacity]) trivial
  unfold disconnect
  rw [if_pos isOpen]
  obtain ⟨status, listening⟩ := transport.report failure
  cases status with
  | none => exact ends
  | some status => exact ends

theorem announce_same (packet : Packet) (window : Window) :
    (window.announce bridge packet).toHost = window.toHost ∧
      (window.announce bridge packet).stream = window.stream ∧
      (window.announce bridge packet).log = window.log := by
  simp only [announce]
  cases bridge.automaticText with
  | none => split_ifs <;> exact ⟨rfl, rfl, rfl⟩
  | some text =>
    dsimp only
    split_ifs <;> exact ⟨rfl, rfl, rfl⟩

/-- A PONG goes out, or the connection ends. -/
theorem kept_reply (transport : Transport) (packet : Packet) (outcome : Option Failure) {connection : Nat}
    {answer : Option Packet} (pong : ∀ written, answer = some written → written = ⟨imePong, packet.sequence, []⟩)
    (isOpen : window.stream = some connection) (kept : window.Kept bridge) :
    (window.reply transport packet outcome connection answer).Kept bridge := by
  unfold reply
  cases answer with
  | none => exact kept
  | some answer =>
    dsimp only
    obtain ⟨failure, fails⟩ | writes := window.sendAsync_cases outcome connection answer
    · rw [fails]
      exact kept_disconnect transport failure isOpen (kept.failed connection answer)
    · obtain rfl := pong answer rfl
      have wrote : (window.note (.wrote connection ⟨imePong, packet.sequence, []⟩ window.input)).Kept bridge :=
        kept.quiet rfl (by simp [WindowEvent.message]) (capacity_wrote _ _ _ _) (.pong _)
      rw [writes]
      dsimp only
      split
      · exact wrote
      · exact wrote

theorem kept_serve {setup : Setup} (interactive : setup.bridge.automaticText = none) (packet : Packet)
    (outcome : Option Failure) (kept : window.Kept setup.bridge) :
    (window.serve setup packet outcome).Kept setup.bridge := by
  unfold serve
  split
  · exact kept
  · rename_i connection isOpen
    have pong := (serveAsync_waits interactive connection packet window.toHost).1
    rw [Kept, isOpen] at kept
    have received := kept.received interactive packet
    rw [← isOpen] at received
    generalize serveAsync setup.bridge packet window.toHost = served at pong received ⊢
    obtain ⟨answer, host⟩ := served
    obtain ⟨sameHost, sameStream, sameLog⟩ := @announce_same setup.bridge packet
      (note (.received connection packet) { window with toHost := host })
    refine kept_reply setup.transport packet outcome pong (sameStream.trans isOpen) ?_
    rw [Kept, sameHost, sameStream, sameLog]
    exact received

theorem kept_submit {connection : Nat} {packet : Packet} {sent : Window → Window} {error : String}
    (outcome : Option Failure) (same : ∀ window, (sent window).toHost = window.toHost ∧
      (sent window).stream = window.stream ∧ (sent window).log = window.log)
    (isOpen : window.stream = some connection) (ready : window.imeReady = true)
    (isMessage : (WindowEvent.wrote connection packet window.input).message =
      some (some (connection, window.openSequence)))
    (suits : Suits bridge (capacity window.log) window.input packet) (kept : window.Kept bridge) :
    (window.submit outcome connection packet sent error).Kept bridge := by
  unfold submit
  obtain ⟨failure, fails⟩ | writes := ({ window with imeReady := false }).sendAsync_cases outcome connection packet
  · -- Readiness comes back as it was.
    have restored : ({ window.toHost with imeReady := true } : Host) = window.toHost := by
      rw [← ready]
    rw [fails]
    change Sound bridge { window.toHost with imeReady := true } window.stream _
    rw [restored]
    exact kept.failed connection packet
  · rw [Kept, isOpen] at kept
    have wrote := kept.wrote ready isMessage suits
    rw [← isOpen] at wrote
    rw [writes]
    obtain ⟨sameHost, sameStream, sameLog⟩ := same
      (note (.wrote connection packet window.input) { window with imeReady := false })
    dsimp only
    rw [Kept, sameHost, sameStream, sameLog]
    exact wrote

theorem kept_sendText (outcome : Option Failure) (kept : window.Kept bridge) :
    (window.sendText bridge outcome).Kept bridge := by
  unfold sendText
  cases isOpen : window.stream with
  | none => exact kept
  | some connection =>
    dsimp only
    split_ifs with refused tooLong
    · exact kept
    · exact kept
    · simp only [not_or, not_not] at refused
      have fits := kept.target ▸ not_lt.mp tooLong
      exact kept_submit outcome (fun _ => ⟨rfl, rfl, rfl⟩) isOpen refused.1 (by simp [WindowEvent.message])
        (.text _ refused.2 fits) kept

theorem kept_sendKey (pressed : RemoteKey) (keyName : String) (outcome : Option Failure)
    (empty : window.input = []) (kept : window.Kept bridge) :
    (window.sendKey pressed keyName outcome).Kept bridge := by
  unfold sendKey
  cases isOpen : window.stream with
  | none => exact kept
  | some connection =>
    dsimp only
    split_ifs with ready
    · exact kept_submit outcome (fun _ => ⟨rfl, rfl, rfl⟩) isOpen ready (by simp [WindowEvent.message])
        (.key _ pressed empty) kept
    · exact kept

theorem kept_sendCloseIme (outcome : Option Failure) (empty : window.input = []) (kept : window.Kept bridge) :
    (window.sendCloseIme outcome).Kept bridge := by
  unfold sendCloseIme
  cases isOpen : window.stream with
  | none => exact kept
  | some connection =>
    dsimp only
    split_ifs with ready
    · exact kept_submit outcome (fun _ => ⟨rfl, rfl, rfl⟩) isOpen ready (by simp [WindowEvent.message])
        (.close _ empty) kept
    · exact kept

theorem kept_onKeyDown {setup : Setup} (e : KeyEventArgs) (outcome : Option Failure)
    (kept : window.Kept setup.bridge) : (window.onKeyDown setup e outcome).2.Kept setup.bridge := by
  simp only [onKeyDown]
  split
  · exact kept_sendText outcome kept
  split
  · rename_i enter
    exact kept_sendKey .enter _ outcome enter.2.1 kept
  split
  · rename_i backspace
    exact kept_sendKey .backspace _ outcome backspace.2.1 kept
  split
  · split
    · exact kept
    · rename_i filled
      exact kept_sendCloseIme outcome (not_not.mp filled) kept
  split
  · rename_i quiet
    split
    · exact kept_sendKey .left _ outcome quiet.2 kept
    split
    · exact kept_sendKey .right _ outcome quiet.2 kept
    split
    · exact kept_sendKey .up _ outcome quiet.2 kept
    split
    · exact kept_sendKey .down _ outcome quiet.2 kept
    · exact kept
  · exact kept

theorem kept_apply {setup : Setup} (interactive : setup.bridge.automaticText = none) (window : Window)
    (action : WindowAction) (kept : window.Kept setup.bridge) :
    (action.apply setup window).Kept setup.bridge := by
  cases action with
  | connect description => exact kept_connect description kept
  | packet received outcome => exact kept_serve interactive received outcome kept
  | fail failure =>
    simp only [WindowAction.apply]
    cases isOpen : window.stream with
    | none => exact kept
    | some connection => exact kept_disconnect setup.transport failure isOpen kept
  | keyDown e outcome => exact kept_onKeyDown e outcome kept
  | edit | focus => exact kept
  | pump =>
    simp only [WindowAction.apply, pump]
    split <;> exact kept

end Steps

end Window

/-- Whatever connections come and go, whatever the peer sends, however writes fail and whatever
keys are pressed with any shortcuts: a TEXT, KEY or CLOSE_IME of an interactive window is the only
one for the last OPEN_IME of the connection it is written on and has its number, no ACK or
CLOSE_IME has come since, a TEXT is what stands in the input box and within the capacity that
the PC-98 advertised last, and the others are written with an empty box only. -/
theorem window_messages_are_asked_for (setup : Setup) (interactive : setup.bridge.automaticText = none)
    (actions : List WindowAction) :
    let window := Run.run (WindowAction.apply setup) actions {}
    Permit.UsedOnce WindowEvent.asks WindowEvent.message window.log ∧
      History.Everywhere (Window.SuitsInput setup.bridge) window.log := by
  intro window
  have kept : window.Kept setup.bridge := Run.invariant (WindowAction.apply setup)
    (Window.kept_apply interactive) actions
    ⟨fun ready => absurd ready Bool.noConfusion, rfl, History.everywhere_nil, History.everywhere_nil⟩
  exact ⟨kept.asked, kept.suits⟩

/-- An interactive bridge whose texts are plain ASCII. -/
def plainWindow : Bridge := { automaticText := none, encode932 := fun text => text.map Word.low }

/-- The line breaks behind an OPEN_IME, and Enter on the next connection sends nothing before it
has one of its own. -/
def reconnecting : List WindowAction :=
  [.connect "NamedPipe:com1", .packet ⟨imeOpenIme, 1#16, []⟩ none, .edit [0x0041#16],
    .fail ⟨.endOfStream, ""⟩, .connect "NamedPipe:com1", .keyDown ⟨Keys.enter, Keys.none⟩ none,
    .packet ⟨imeOpenIme, 7#16, []⟩ none, .keyDown ⟨Keys.enter, Keys.none⟩ none]

theorem window_messages_are_asked_for_reconnecting :
    let window := Run.run (WindowAction.apply { bridge := plainWindow }) reconnecting {}
    Permit.UsedOnce WindowEvent.asks WindowEvent.message window.log ∧
      History.Everywhere (Window.SuitsInput plainWindow) window.log :=
  window_messages_are_asked_for { bridge := plainWindow } rfl reconnecting

end ImeBridge
