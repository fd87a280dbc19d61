import ImeBridge.Resident.Runs

/-! # What the worker does to COM1

Of the machine and of COM1 the pieces of the worker change little: those that neither
read a byte nor open the port leave COM1 as it is or give it back (`Serves`), and
none but the BIOS queue routines writes to memory (`Works`).  Each piece is walked
once here; what holds of the port, of the transmitter and of the log follows.
-/

namespace ImeBridge

/-- COM1 and its interrupt, as far as the program holds them. -/
structure Port where
  /-- `link_state` is not `LINK_CLOSED`. -/
  up : Bool
  capture : Bool
  readPos : Byte
  writePos : Byte
  buffer : Byte → Byte
  savedMask : Byte
  maskSaved : Bool
  picMask : Byte
  received : List Byte

def Tsr.port (tsr : Tsr) : Port where
  up := tsr.linkState ≠ .closed
  capture := tsr.irqCapture
  readPos := tsr.irqReadPos
  writePos := tsr.irqWritePos
  buffer := tsr.irqBuffer
  savedMask := tsr.savedPicMask
  maskSaved := tsr.picMaskSaved
  picMask := tsr.picMask
  received := tsr.received

namespace Port

variable (port : Port)

/-- `reset_link`. -/
def released : Port :=
  { port with
    up := false
    capture := false
    readPos := port.writePos
    maskSaved := false
    picMask := if port.maskSaved then port.savedMask else port.picMask }

/-- `start_link` with its HELLO sent. -/
def claimed : Port :=
  { port with
    up := true
    capture := true
    readPos := 0#8
    writePos := 0#8
    savedMask := port.picMask
    maskSaved := true
    picMask := port.picMask &&& ~~~0x10#8 }

@[simp] theorem released_released : port.released.released = port.released := rfl

/-- Left alone or given back. -/
def Kept (port next : Port) : Prop := next = port ∨ next = port.released

theorem Kept.trans {port middle next : Port} (first : port.Kept middle) (second : middle.Kept next) :
    port.Kept next := by
  rcases first with rfl | rfl
  · exact second
  · rcases second with rfl | rfl
    · exact .inr rfl
    · exact .inr (released_released port)

end Port

/-- A `send_packet` that reports success has written all its bytes, and one that does
not has stopped before the last. -/
def Event.Honest : Event → Prop
  | .sent packet written succeeded =>
    let length := (imePacketBuild packet.type packet.sequence packet.payload).length
    written ≤ length ∧ (succeeded = true ↔ written = length)
  | _ => True

/-- `toggle_ime_hotkey` ran. -/
def Event.isToggle : Event → Bool
  | .toggled _ => true
  | _ => false

/-- What every piece of the worker but the BIOS queue routines keeps to. -/
structure Tsr.Works (tsr next : Tsr) : Prop where
  memory : next.memory = tsr.memory
  modifierMask : next.hotkeyModifierMask = tsr.hotkeyModifierMask
  limits : next.transmitLimits <:+ tsr.transmitLimits
  history : ∃ added, next.history = tsr.history ++ added ∧
    ∀ event ∈ added, event.Honest ∧ event.isToggle = false

/-- A piece of the worker that neither reads a byte nor opens the port. -/
structure Tsr.Serves (tsr next : Tsr) : Prop extends Tsr.Works tsr next where
  port : tsr.port.Kept next.port

namespace Tsr

variable {tsr middle next : Tsr}

theorem Works.trans (first : tsr.Works middle) (second : middle.Works next) : tsr.Works next := by
  obtain ⟨firstAdded, firstHistory, firstEvents⟩ := first.history
  obtain ⟨secondAdded, secondHistory, secondEvents⟩ := second.history
  exact
    { memory := second.memory.trans first.memory
      modifierMask := second.modifierMask.trans first.modifierMask
      limits := second.limits.trans first.limits
      history := ⟨firstAdded ++ secondAdded, by rw [secondHistory, firstHistory, List.append_assoc],
        fun event member => (List.mem_append.mp member).elim (firstEvents event) (secondEvents event)⟩ }

theorem Serves.trans (first : tsr.Serves middle) (second : middle.Serves next) : tsr.Serves next :=
  ⟨first.toWorks.trans second.toWorks, first.port.trans second.port⟩

/-- The other variables of the program may change as they like. -/
theorem Works.quiet (memory : next.memory = tsr.memory)
    (modifierMask : next.hotkeyModifierMask = tsr.hotkeyModifierMask)
    (limits : next.transmitLimits = tsr.transmitLimits) (history : next.history = tsr.history) :
    tsr.Works next where
  memory := memory
  modifierMask := modifierMask
  limits := limits ▸ List.suffix_refl _
  history := ⟨[], by rw [history, List.append_nil], by simp⟩

theorem Serves.quiet (port : next.port = tsr.port) (memory : next.memory = tsr.memory)
    (modifierMask : next.hotkeyModifierMask = tsr.hotkeyModifierMask)
    (limits : next.transmitLimits = tsr.transmitLimits) (history : next.history = tsr.history) :
    tsr.Serves next :=
  ⟨.quiet memory modifierMask limits history, .inl port⟩

theorem Serves.refl (tsr : Tsr) : tsr.Serves tsr := .quiet rfl rfl rfl rfl rfl

/-- An event is noted, and some of the transmitter's limits may be used up. -/
theorem note_serves (tsr : Tsr) (event : Event) (honest : event.Honest) (other : event.isToggle = false)
    {limits : List Nat} (used : limits <:+ tsr.transmitLimits) :
    tsr.Serves ({ tsr with transmitLimits := limits }.note event) where
  memory := rfl
  modifierMask := rfl
  limits := used
  history := ⟨[event], rfl, by simp [honest, other]⟩
  port := .inl rfl

end Tsr

open Tsr

variable (tsr : Tsr)

/-! ## Sending and closing -/

theorem sendPacket_serves (type : Byte) (sequence : Word) (payload : List Byte) :
    tsr.Serves (sendPacket type sequence payload tsr).2 := by
  simp only [sendPacket]
  split
  · exact .refl tsr
  · rename_i built
    have nonempty : (imePacketBuild type sequence payload).length ≠ 0 := by simpa using built
    simp only [pc98SerialWrite]
    cases opened : tsr.serialOpened with
    | false =>
      have honest : (Event.sent ⟨type, sequence, payload⟩ 0 false).Honest :=
        ⟨Nat.zero_le _, by simpa using nonempty.symm⟩
      exact note_serves tsr _ honest rfl (List.suffix_refl _)
    | true =>
      cases pattern : tsr.transmitLimits with
      | nil =>
        have honest : (Event.sent ⟨type, sequence, payload⟩
            (imePacketBuild type sequence payload).length true).Honest := ⟨le_rfl, by simp⟩
        exact note_serves tsr _ honest rfl (List.suffix_refl _)
      | cons limit limits =>
        have honest : (Event.sent ⟨type, sequence, payload⟩
            (min (imePacketBuild type sequence payload).length limit)
            (decide ((imePacketBuild type sequence payload).length ≤ limit))).Honest :=
          ⟨Nat.min_le_left _ _, by simp⟩
        exact note_serves tsr _ honest rfl (pattern ▸ List.suffix_cons limit limits)

/-- On an open port a packet goes out whole if the transmitter takes all its bytes. -/
theorem sendPacket_takes {tsr : Tsr} (opened : tsr.serialOpened = true) (type : Byte) (sequence : Word)
    {payload : List Byte} (fits : payload.length ≤ imeMaxPayload) :
    (sendPacket type sequence payload tsr).1 = true ↔
      ∀ limit, tsr.transmitLimits.head? = some limit → 10 + payload.length ≤ limit := by
  have built := length_imePacketBuild type sequence fits
  have nonempty : imePacketBuild type sequence payload ≠ [] := by
    rw [ne_eq, ← List.length_eq_zero_iff, built]
    omega
  simp only [sendPacket, if_neg nonempty, pc98SerialWrite, opened, if_true, built]
  cases tsr.transmitLimits with
  | nil => simp
  | cons limit limits => simp

theorem resetLink_port : (resetLink tsr).port = tsr.port.released := by
  cases saved : tsr.picMaskSaved with
  | false =>
    simp [resetLink, pc98TsrSerialCaptureEnd, pc98SerialClose, Tsr.note, Tsr.port, Port.released, saved]
  | true =>
    simp [resetLink, pc98TsrSerialCaptureEnd, pc98SerialClose, Tsr.note, Tsr.port, Port.released, saved]

theorem resetLink_keeps : (resetLink tsr).memory = tsr.memory ∧
    (resetLink tsr).hotkeyModifierMask = tsr.hotkeyModifierMask ∧
    (resetLink tsr).transmitLimits = tsr.transmitLimits := by
  cases saved : tsr.picMaskSaved with
  | false => simp [resetLink, pc98TsrSerialCaptureEnd, pc98SerialClose, Tsr.note, saved]
  | true => simp [resetLink, pc98TsrSerialCaptureEnd, pc98SerialClose, Tsr.note, saved]

theorem resetLink_serves : tsr.Serves (resetLink tsr) := by
  obtain ⟨memory, modifierMask, limits⟩ := resetLink_keeps tsr
  exact
    { memory := memory
      modifierMask := modifierMask
      limits := limits ▸ List.suffix_refl _
      history := ⟨[.linkReset], congrArg Session.history (resetLink_session tsr), by
        simp [Event.Honest, Event.isToggle]⟩
      port := .inr (resetLink_port tsr) }

theorem sendOpenIme_serves : tsr.Serves (sendOpenIme tsr) := by
  have numbered : tsr.Serves
      { tsr with sequence := tsr.sequence + 1#16, openSequence := tsr.sequence + 1#16 } :=
    .quiet rfl rfl rfl rfl rfl
  have sent := numbered.trans (sendPacket_serves _ imeOpenIme (tsr.sequence + 1#16) [])
  simp only [sendOpenIme]
  split
  · exact sent.trans (.quiet rfl rfl rfl rfl rfl)
  · exact (sent.trans (resetLink_serves _)).trans (.quiet rfl rfl rfl rfl rfl)

theorem closeIme_serves : tsr.Serves (closeIme tsr) := by
  have told : tsr.Serves (if tsr.linkState = .ready then
      (sendPacket imeCloseIme tsr.openSequence [] tsr).2 else tsr) := by
    split
    · exact sendPacket_serves tsr _ _ _
    · exact .refl tsr
  simp only [closeIme]
  generalize (if tsr.linkState = .ready then (sendPacket imeCloseIme tsr.openSequence [] tsr).2
    else tsr) = rest at told
  have closed : tsr.Serves (if rest.linkState ≠ .closed then resetLink rest else rest) := by
    split
    · exact told.trans (resetLink_serves rest)
    · exact told
  exact closed.trans (.quiet rfl rfl rfl rfl rfl)

/-! ## Received packets -/

theorem handleParsed_serves (packet : Packet) : tsr.Serves (handleParsed packet tsr) := by
  dsimp only [handleParsed]
  split
  · rename_i pong
    have up : tsr.Serves { tsr with linkState := .ready, waitTicks := 0#16 } :=
      .quiet (by simp [Tsr.port, pong.2]) rfl rfl rfl rfl
    split
    · exact up.trans (sendOpenIme_serves _)
    · exact up
  split
  · have staged : tsr.Serves { tsr with
        pendingText := packet.payload
        pendingLength := packet.payload.length
        pendingOffset := 0
        pendingSequence := packet.sequence
        waitTicks := 0#16 } := .quiet rfl rfl rfl rfl rfl
    exact staged.trans (note_serves _ (.acceptedText packet.sequence packet.payload) trivial rfl
      (List.suffix_refl _))
  split
  · split
    · exact .refl tsr
    · rename_i key _
      have staged : tsr.Serves { tsr with
          pendingKey := key
          pendingKeyActive := true
          pendingSequence := packet.sequence
          waitTicks := 0#16 } := .quiet rfl rfl rfl rfl rfl
      exact staged.trans (note_serves _ (.acceptedKey packet.sequence key (tsr.pendingLength ≠ 0)) trivial
        rfl (List.suffix_refl _))
  split
  · have noted : tsr.Serves (tsr.note (.acceptedClose packet.sequence)) :=
      note_serves tsr (.acceptedClose packet.sequence) trivial rfl (List.suffix_refl _)
    exact noted.trans (closeIme_serves _)
  · exact .refl tsr

theorem handlePacket_serves : tsr.Serves (handlePacket tsr) := by
  simp only [handlePacket]
  split
  · exact .refl tsr
  · exact handleParsed_serves tsr _

theorem acceptByte_serves (value : Byte) : tsr.Serves (acceptByte value tsr) := by
  unfold acceptByte
  split
  · exact .refl tsr
  · split
    · exact .quiet rfl rfl rfl rfl rfl
    · split
      · exact .quiet rfl rfl rfl rfl rfl
      · -- Outside `handle_packet` only the framer's variables change.
        extract_lets lengthened expected headed
        have framed : tsr.Serves headed := by
          simp only [headed]
          split
          · split
            · exact .quiet rfl rfl rfl rfl rfl
            · exact .quiet rfl rfl rfl rfl rfl
          · exact .quiet rfl rfl rfl rfl rfl
        split
        · exact (framed.trans (handlePacket_serves headed)).trans (.quiet rfl rfl rfl rfl rfl)
        · exact framed

theorem pollByte_works : tsr.Works (pollByte tsr).2 := by
  obtain ⟨-, fetched⟩ | ⟨-, nothing | ⟨value, received, -, fetched⟩⟩ := pollByte_cases tsr
  · rw [fetched]
    exact .quiet rfl rfl rfl rfl
  · rw [nothing]
    exact .quiet rfl rfl rfl rfl
  · rw [fetched]
    exact .quiet rfl rfl rfl rfl

theorem pollLoop_works (budget : Nat) : tsr.Works (pollLoop budget tsr) :=
  @pollLoop_rule tsr Tsr.Works (fun rest => (Serves.refl rest).toWorks) Works.trans pollByte_works
    (fun rest value => (acceptByte_serves rest value).toWorks) budget

theorem receiveStage_works : tsr.Works (receiveStage tsr) := by
  simp only [receiveStage]
  split
  · exact pollLoop_works tsr 32
  · exact (Serves.refl tsr).toWorks

/-! ## Staged input

The BIOS queue routines write to memory; apart from that they keep to the same. -/

/-- A piece of work that does not look at memory can be done with any memory. -/
theorem Tsr.Works.withMemory {tsr next : Tsr} (works : tsr.Works next) (memory : Memory) :
    Tsr.Works { tsr with memory := memory } { next with memory := memory } :=
  ⟨rfl, works.modifierMask, works.limits, works.history⟩

theorem Tsr.Serves.withMemory {tsr next : Tsr} (serves : tsr.Serves next) (memory : Memory) :
    Tsr.Serves { tsr with memory := memory } { next with memory := memory } :=
  ⟨serves.toWorks.withMemory memory, serves.port⟩

theorem injectTextLoop_serves (budget : Nat) :
    Tsr.Serves { tsr with memory := (injectTextLoop budget tsr).2.memory } (injectTextLoop budget tsr).2 := by
  refine @injectTextLoop_rule tsr
    (fun before after => Tsr.Serves { before with memory := after.memory } after)
    (fun rest => .refl rest) (fun _ _ _ _ => .refl _) ?_ budget
  intro rest after key input memory _ _ _ later
  have noted := note_serves { rest with memory := after.memory } (.queuedText key) trivial rfl
    (List.suffix_refl _)
  have advanced : Tsr.Serves { rest with memory := after.memory }
      { { rest with memory := after.memory }.note (.queuedText key) with pendingOffset := input + 1 } :=
    noted.trans (.quiet rfl rfl rfl rfl rfl)
  exact advanced.trans later

theorem injectPendingText_serves :
    Tsr.Serves { tsr with memory := (injectPendingText tsr).memory } (injectPendingText tsr) := by
  have loop := injectTextLoop_serves tsr 16
  obtain ⟨rest, sent, looped, sends, waits | ⟨-, answers⟩⟩ := injectPendingText_cases tsr
  · rwa [waits, ← looped]
  · rw [looped] at loop
    have sending := sendPacket_serves rest imeTextAck rest.pendingSequence []
    rw [sends] at sending
    rw [answers]
    exact ((loop.withMemory sent.memory).trans (sending.withMemory sent.memory)).trans
      (.quiet rfl rfl rfl rfl rfl)

theorem injectPendingKey_serves :
    Tsr.Serves { tsr with memory := (injectPendingKey tsr).memory } (injectPendingKey tsr) := by
  obtain ⟨memory, ⟨-, refused⟩ | ⟨-, rest, sent, queued, sends, answers⟩⟩ := injectPendingKey_cases tsr
  · rw [refused]
    exact .refl _
  · have noted := note_serves { tsr with memory := memory } (.queuedKey tsr.pendingKey) trivial rfl
      (List.suffix_refl _)
    have sending := sendPacket_serves rest imeKeyAck rest.pendingSequence []
    rw [queued] at noted
    rw [sends] at sending
    rw [answers]
    exact ((noted.withMemory sent.memory).trans (sending.withMemory sent.memory)).trans
      (.quiet rfl rfl rfl rfl rfl)

theorem injectStage_serves :
    Tsr.Serves { tsr with memory := (injectStage tsr).memory } (injectStage tsr) :=
  @injectStage_rule tsr (fun before after => Tsr.Serves { before with memory := after.memory } after)
    (.refl tsr) (fun _ => injectPendingText_serves tsr)
    (fun rest text _ => (text.withMemory _).trans (injectPendingKey_serves rest))

theorem injectStage_port : tsr.port.Kept (injectStage tsr).port := (injectStage_serves tsr).port

theorem injectStage_limits : (injectStage tsr).transmitLimits <:+ tsr.transmitLimits :=
  (injectStage_serves tsr).limits

/-! ## Opening the link -/

theorem startLink_works : tsr.Works (startLink tsr) := by
  have opened : tsr.Works
      { pc98TsrSerialCaptureBegin (pc98SerialOpen tsr) with sequence := tsr.sequence + 1#16 } :=
    .quiet rfl rfl rfl rfl
  have sent := opened.trans (sendPacket_serves _ imeHello (tsr.sequence + 1#16) hello).toWorks
  simp only [startLink]
  rw [show (pc98TsrSerialCaptureBegin (pc98SerialOpen tsr)).sequence = tsr.sequence from rfl]
  generalize sendPacket imeHello (tsr.sequence + 1#16) hello _ = sending at sent ⊢
  split
  · exact sent.trans (.quiet rfl rfl rfl rfl)
  · exact sent.trans (resetLink_serves _).toWorks

theorem startLink_port :
    (startLink tsr).port = tsr.port.claimed ∨ (startLink tsr).port = tsr.port.claimed.released := by
  obtain ⟨written, succeeded, limits, sends⟩ := sendPacket_eq
    { pc98TsrSerialCaptureBegin (pc98SerialOpen tsr) with sequence := tsr.sequence + 1#16 }
    imeHello (tsr.sequence + 1#16) hello (by decide)
  simp only [startLink]
  rw [show (pc98TsrSerialCaptureBegin (pc98SerialOpen tsr)).sequence = tsr.sequence from rfl, sends]
  cases succeeded with
  | true => exact .inl rfl
  | false =>
    refine .inr ?_
    simp only [Bool.false_eq_true, if_false, resetLink_port]
    rfl

/-- The run comes to `start_link`. -/
def Tsr.Starts (tsr : Tsr) : Prop :=
  tsr.openPending = true ∧ tsr.imeActive = false ∧ tsr.linkState = .closed

instance decidableStarts : Decidable tsr.Starts := by unfold Tsr.Starts; infer_instance

theorem openStage_works : tsr.Works (openStage tsr) := by
  simp only [openStage]
  split_ifs
  · exact (sendOpenIme_serves tsr).toWorks
  · exact startLink_works tsr
  · exact (Serves.refl tsr).toWorks
  · exact (Serves.refl tsr).toWorks

theorem openStage_starts (starts : tsr.Starts) : openStage tsr = startLink tsr := by
  simp [openStage, starts.1, starts.2.1, starts.2.2]

theorem openStage_port (stays : ¬ tsr.Starts) : tsr.port.Kept (openStage tsr).port := by
  simp only [openStage]
  split_ifs with wanted ready closed
  · exact (sendOpenIme_serves tsr).port
  · exact absurd ⟨wanted.1, by simpa using wanted.2, closed⟩ stays
  · exact .inl rfl
  · exact .inl rfl

theorem tickStage_serves : tsr.Serves (tickStage tsr) := by
  have ticked : tsr.Serves { tsr with waitTicks := tsr.waitTicks + 1#16 } := .quiet rfl rfl rfl rfl rfl
  simp only [tickStage]
  split_ifs
  · exact (ticked.trans (resetLink_serves _)).trans (.quiet rfl rfl rfl rfl rfl)
  · exact ticked
  · exact .refl tsr

/-! ## The hotkey -/

/-- The configured modifier and Space are held down. -/
def Tsr.HotkeyHeld (tsr : Tsr) : Prop :=
  tsr.memory.readByte 0x053a#16 &&& tsr.hotkeyModifierMask ≠ 0#8 ∧
    tsr.memory.readByte 0x0530#16 &&& 0x10#8 ≠ 0#8

instance decidableHotkeyHeld : Decidable tsr.HotkeyHeld := by unfold Tsr.HotkeyHeld; infer_instance

/-- Only whether the result is 0 matters to the callers: a latched key still counts. -/
theorem pc98PollHotkey_spec : ((pc98PollHotkey tsr).1 ≠ 0#16 ↔ tsr.HotkeyHeld) ∧
    (pc98PollHotkey tsr).2 = { tsr with hotkeyLatched := decide tsr.HotkeyHeld } := by
  by_cases held : tsr.HotkeyHeld
  · have down : ¬ (tsr.memory.readByte 0x053a#16 &&& tsr.hotkeyModifierMask = 0#8 ∨
        tsr.memory.readByte 0x0530#16 &&& 0x10#8 = 0#8) := not_or.mpr held
    cases latched : tsr.hotkeyLatched with
    | true =>
      have same : { tsr with hotkeyLatched := true } = tsr := by rw [← latched]
      simp [pc98PollHotkey, down, held, latched, same]
    | false => simp [pc98PollHotkey, down, held, latched]
  · have released : tsr.memory.readByte 0x053a#16 &&& tsr.hotkeyModifierMask = 0#8 ∨
        tsr.memory.readByte 0x0530#16 &&& 0x10#8 = 0#8 := by
      by_contra down
      exact held (not_or.mp down)
    simp [pc98PollHotkey, released, held]

theorem toggleImeHotkey_serves :
    (tsr.note (.toggled !tsr.imeEnabled)).Serves (toggleImeHotkey tsr) := by
  cases on : tsr.imeEnabled with
  | true =>
    rw [toggleImeHotkey, if_pos on]
    exact closeIme_serves _
  | false =>
    simp only [toggleImeHotkey, on, Bool.false_eq_true, if_false]
    exact .quiet rfl rfl rfl rfl rfl

theorem hotkeyStage_released (released : ¬ tsr.HotkeyHeld) :
    hotkeyStage tsr = { tsr with hotkeyLatched := false } := by
  obtain ⟨nonzero, latched⟩ := pc98PollHotkey_spec tsr
  have zero : (pc98PollHotkey tsr).1 = 0#16 := not_not.mp fun down => released (nonzero.mp down)
  simp only [hotkeyStage, zero, latched, released, decide_false, ne_eq, not_true, if_false]

theorem hotkeyStage_held (held : tsr.HotkeyHeld) :
    hotkeyStage tsr =
      let discarded := pc98BiosDiscardHotkeySpace tsr.memory
      let rest : Tsr := { tsr with memory := discarded.2, hotkeyLatched := true }
      if discarded.1 then toggleImeHotkey rest else rest := by
  obtain ⟨nonzero, latched⟩ := pc98PollHotkey_spec tsr
  simp only [hotkeyStage, if_pos (nonzero.mpr held), latched, held, decide_true]
  rcases pc98BiosDiscardHotkeySpace tsr.memory with ⟨_ | _, memory⟩
  · rfl
  · rfl

/-- A returned Space word is the hotkey exactly if the hotkey is held. -/
theorem pc98ServiceReturnedHotkey_eq : pc98ServiceReturnedHotkey tsr =
    let polled : Tsr := { tsr with hotkeyLatched := decide tsr.HotkeyHeld }
    if tsr.HotkeyHeld then (true, toggleImeHotkey polled) else (false, polled) := by
  obtain ⟨nonzero, latched⟩ := pc98PollHotkey_spec tsr
  by_cases held : tsr.HotkeyHeld
  · simp only [pc98ServiceReturnedHotkey, if_pos (nonzero.mpr held), if_pos held, latched]
  · have zero := mt nonzero.mp held
    simp only [pc98ServiceReturnedHotkey, if_neg zero, if_neg held, latched]

theorem toggleImeHotkey_port : tsr.port.Kept (toggleImeHotkey tsr).port :=
  (toggleImeHotkey_serves tsr).port

theorem hotkeyStage_port : tsr.port.Kept (hotkeyStage tsr).port := by
  by_cases held : tsr.HotkeyHeld
  · rw [hotkeyStage_held tsr held]
    dsimp only
    split
    · exact toggleImeHotkey_port { tsr with
        memory := (pc98BiosDiscardHotkeySpace tsr.memory).2
        hotkeyLatched := true }
    · exact .inl rfl
  · rw [hotkeyStage_released tsr held]
    exact .inl rfl

/-- The last two stages of a worker run do not write to memory. -/
theorem finish_memory : (tickStage (openStage tsr)).memory = tsr.memory :=
  (tickStage_serves (openStage tsr)).memory.trans (openStage_works tsr).memory

/-- What ends with the last three stages of a worker run. -/
theorem Tsr.Works.finish {start rest last : Tsr} (works : start.Works rest)
    (finishes : last = tickStage (openStage (injectStage rest))) :
    Tsr.Works { start with memory := last.memory } last := by
  have injected := (injectStage_serves rest).toWorks
  have opened := openStage_works (injectStage rest)
  have ticked := (tickStage_serves (openStage (injectStage rest))).toWorks
  rw [finishes, finish_memory]
  exact (((works.withMemory _).trans injected).trans opened).trans ticked

/-- Past its first stage a worker run writes to memory only through the BIOS queue. -/
theorem pc98ServiceForeground_works :
    Tsr.Works { hotkeyStage tsr with memory := (pc98ServiceForeground tsr).memory }
      (pc98ServiceForeground tsr) :=
  (receiveStage_works (hotkeyStage tsr)).finish rfl

/-! ## The log -/

theorem Tsr.Works.honest {tsr next : Tsr} (works : tsr.Works next)
    (honest : ∀ event ∈ tsr.history, event.Honest) : ∀ event ∈ next.history, event.Honest := by
  obtain ⟨added, history, events⟩ := works.history
  intro event member
  rw [history] at member
  rcases List.mem_append.mp member with before | new
  · exact honest event before
  · exact (events event new).1

theorem toggleImeHotkey_honest {tsr : Tsr} (honest : ∀ event ∈ tsr.history, event.Honest) :
    ∀ event ∈ (toggleImeHotkey tsr).history, event.Honest := by
  apply (toggleImeHotkey_serves tsr).toWorks.honest
  intro event member
  rcases List.mem_append.mp member with before | new
  · exact honest event before
  · rw [List.mem_singleton.mp new]
    trivial

theorem hotkeyStage_honest {tsr : Tsr} (honest : ∀ event ∈ tsr.history, event.Honest) :
    ∀ event ∈ (hotkeyStage tsr).history, event.Honest := by
  by_cases held : tsr.HotkeyHeld
  · rw [hotkeyStage_held tsr held]
    dsimp only
    split
    · exact toggleImeHotkey_honest honest
    · exact honest
  · rw [hotkeyStage_released tsr held]
    exact honest

theorem pc98ServiceReturnedHotkey_honest {tsr : Tsr} (honest : ∀ event ∈ tsr.history, event.Honest) :
    ∀ event ∈ (pc98ServiceReturnedHotkey tsr).2.history, event.Honest := by
  obtain ⟨_, latched⟩ := pc98PollHotkey_spec tsr
  simp only [pc98ServiceReturnedHotkey, latched]
  split
  · exact toggleImeHotkey_honest honest
  · exact honest

theorem pc98ServiceForeground_honest {tsr : Tsr} (honest : ∀ event ∈ tsr.history, event.Honest) :
    ∀ event ∈ (pc98ServiceForeground tsr).history, event.Honest :=
  Tsr.Works.honest (pc98ServiceForeground_works tsr) (hotkeyStage_honest honest)

/-- In every state reached, the log tells the truth about what was written. -/
theorem Action.honest (tsr : Tsr) (action : Action) (honest : ∀ event ∈ tsr.history, event.Honest) :
    ∀ event ∈ (action.apply tsr).history, event.Honest := by
  cases action with
  | environment hardware => exact honest
  | foreground => exact pc98ServiceForeground_honest honest
  | serialIrq =>
    simp only [apply, pc98SerialIrqHook]
    split
    · split
      · exact honest
      · apply pc98ServiceForeground_honest
        rw [irqStore_session]
        exact honest
    · exact honest
  | returnedHotkey => exact pc98ServiceReturnedHotkey_honest honest
  | prepareUninstall => exact (closeIme_serves tsr).toWorks.honest honest

/-! ## COM1 over a whole action -/

namespace Port

/-- What can happen to COM1 from inside the program. -/
inductive Step : Port → Port → Prop where
  | released {port : Port} : Step port port.released
  | claimed {port : Port} (down : port.up = false) : Step port port.claimed
  /-- A byte is taken out of the ring or out of the UART. -/
  | fetched {port : Port} (readPos : Byte) (received : List Byte) :
      Step port { port with readPos := readPos, received := received }
  /-- The interrupt puts a byte into the ring. -/
  | stored {port : Port} (buffer : Byte → Byte) (writePos : Byte) (received : List Byte) :
      Step port { port with buffer := buffer, writePos := writePos, received := received }

abbrev Steps : Port → Port → Prop := Relation.ReflTransGen Step

theorem Kept.steps {port next : Port} (kept : port.Kept next) : port.Steps next := by
  rcases kept with rfl | rfl
  · exact .refl
  · exact .single .released

/-- What every step preserves, any number of steps preserves. -/
theorem Steps.preserves {invariant : Port → Prop}
    (step : ∀ port next, Step port next → invariant port → invariant next) {port next : Port}
    (steps : port.Steps next) (start : invariant port) : invariant next := by
  induction steps with
  | refl => exact start
  | tail _ last inductionHypothesis => exact step _ _ last inductionHypothesis

end Port

theorem pollByte_steps : tsr.port.Steps (pollByte tsr).2.port := by
  obtain ⟨-, fetched⟩ | ⟨-, nothing | ⟨value, received, -, fetched⟩⟩ := pollByte_cases tsr
  · rw [fetched]
    exact .single (.fetched _ _)
  · rw [nothing]
  · rw [fetched]
    exact .single (.fetched _ _)

theorem pollLoop_steps (budget : Nat) : tsr.port.Steps (pollLoop budget tsr).port :=
  @pollLoop_rule tsr (fun before after => before.port.Steps after.port) (fun _ => .refl) .trans
    pollByte_steps (fun rest value => (acceptByte_serves rest value).port.steps) budget

theorem receiveStage_steps : tsr.port.Steps (receiveStage tsr).port := by
  simp only [receiveStage]
  split
  · exact pollLoop_steps tsr 32
  · exact .refl

theorem openStage_steps : tsr.port.Steps (openStage tsr).port := by
  by_cases starts : tsr.Starts
  · have down : tsr.port.up = false := by simp [Tsr.port, starts.2.2]
    rw [openStage_starts tsr starts]
    rcases startLink_port tsr with whole | cut
    · rw [whole]
      exact .single (.claimed down)
    · rw [cut]
      exact .tail (.single (.claimed down)) .released
  · exact (openStage_port tsr starts).steps

theorem pc98ServiceForeground_steps : tsr.port.Steps (pc98ServiceForeground tsr).port := by
  have received := (hotkeyStage_port tsr).steps.trans (receiveStage_steps (hotkeyStage tsr))
  rw [pc98ServiceForeground]
  generalize receiveStage (hotkeyStage tsr) = rest at received ⊢
  have injected := received.trans (injectStage_port rest).steps
  have opened := injected.trans (openStage_steps (injectStage rest))
  exact opened.trans (tickStage_serves (openStage (injectStage rest))).port.steps

theorem irqStore_steps (value : Byte) (received : List Byte) :
    tsr.port.Steps (irqStore value { tsr with received := received }).port := by
  simp only [irqStore]
  split
  · exact .single (.fetched tsr.irqReadPos received)
  · exact .single (.stored _ _ received)

/-- From inside the program COM1 only makes these steps. -/
theorem Action.port_steps (action : Action) (inside : ∀ hardware, action ≠ .environment hardware) :
    tsr.port.Steps (action.apply tsr).port := by
  cases action with
  | environment hardware => exact absurd rfl (inside hardware)
  | foreground => exact pc98ServiceForeground_steps tsr
  | serialIrq =>
    simp only [apply, pc98SerialIrqHook]
    split
    · split
      · exact .refl
      · exact (irqStore_steps tsr _ _).trans (pc98ServiceForeground_steps _)
    · exact .refl
  | returnedHotkey =>
    obtain ⟨_, latched⟩ := pc98PollHotkey_spec tsr
    simp only [apply, pc98ServiceReturnedHotkey]
    split
    · rw [latched]
      exact (toggleImeHotkey_port { tsr with hotkeyLatched := decide tsr.HotkeyHeld }).steps
    · rw [latched]
      exact .refl
  | prepareUninstall => exact (closeIme_serves tsr).port.steps

end ImeBridge
