import ImeBridge.Resident.Port
import ImeBridge.Resident.ReceiveRing

/-! # Received bytes on their way to the framer

Bytes leave the UART in two places, in the COM1 interrupt through a ring and in the
worker's receive loop directly, and meet again in `accept_byte`.  Two notes are kept
beside the program for each session, from its `capture_begin` on: what was read from the UART
and what was passed to `accept_byte`.
-/

namespace ImeBridge

open Library

/-- The bytes that `poll_transport` passes to `accept_byte`. -/
def pollFramed : Nat → Tsr → List Byte
  | 0, _ => []
  | budget + 1, tsr =>
    match pollByte tsr with
    | (none, _) => []
    | (some value, rest) => value :: pollFramed budget (acceptByte value rest)

/-- The bytes that a worker run passes to `accept_byte`. -/
def serviceFramed (tsr : Tsr) : List Byte :=
  let tsr := hotkeyStage tsr
  if tsr.linkState ≠ .closed then pollFramed 32 tsr else []

/-- The state in which a worker run comes to its last transmissions. -/
def beforeOpen (tsr : Tsr) : Tsr := injectStage (receiveStage (hotkeyStage tsr))

theorem serviceForeground_stages (tsr : Tsr) :
    pc98ServiceForeground tsr = tickStage (openStage (beforeOpen tsr)) := rfl

def Action.framed (action : Action) (tsr : Tsr) : List Byte :=
  match action.service tsr with
  | none => []
  | some start => serviceFramed start

/-- The action runs `capture_begin`. -/
def Action.begins (action : Action) (tsr : Tsr) : Bool :=
  match action.service tsr with
  | none => false
  | some start => decide (beforeOpen start).Starts

/-- The bytes that leave the UART during an action of the program. -/
def Action.read (action : Action) (tsr : Tsr) : List Byte :=
  match action with
  | .environment _ => []
  | action => tsr.received.take (tsr.received.length - (action.apply tsr).received.length)

/-- The notes on a session. -/
structure Notes where
  read : List Byte := []
  framed : List Byte := []

/-- What was passed to `accept_byte` is what was read, but for the last byte at most. -/
structure Notes.Kept (notes : Notes) : Prop where
  within : notes.framed <+: notes.read
  missing : notes.read.length ≤ notes.framed.length + 1

/-- The program with the notes on its current session, or on the last one. -/
structure Reception extends Notes where
  tsr : Tsr
  /-- The sessions before. -/
  ended : List Notes := []

def Reception.apply (action : Action) (reception : Reception) : Reception :=
  let notes : Notes :=
    { read := reception.read ++ action.read reception.tsr
      framed := reception.framed ++ action.framed reception.tsr }
  -- `capture_begin` comes behind all that the run reads.
  if action.begins reception.tsr then
    { tsr := action.apply reception.tsr
      ended := reception.ended ++ [notes] }
  else { reception with toNotes := notes, tsr := action.apply reception.tsr }

/-! ## The receive ring -/

/-- The bytes in the receive ring; more than one there never are. -/
def Port.Holds (port : Port) : List Byte → Prop
  | [] => port.readPos = port.writePos
  | [value] => port.writePos = (port.readPos + 1#8) &&& 0x7f#8 ∧ port.buffer port.readPos = value
  | _ => False

theorem next_ne (position : Byte) : (position + 1#8) &&& 0x7f#8 ≠ position := by
  intro same
  have turned := congrArg BitVec.toNat same
  rw [nextPosition_toNat] at turned
  omega

theorem Port.Kept.holds {port next : Port} (kept : port.Kept next) (empty : port.Holds []) :
    next.Holds [] := by
  rcases kept with rfl | rfl
  · exact empty
  · rfl

theorem Port.Kept.received {port next : Port} (kept : port.Kept next) : next.received = port.received := by
  rcases kept with rfl | rfl
  · rfl
  · rfl

/-- An interrupt finds the ring empty, so there is room for its byte. -/
theorem irqStore_holds (value : Byte) (tsr : Tsr) (empty : tsr.port.Holds []) :
    (irqStore value tsr).port = { tsr.port with
      buffer := (irqStore value tsr).irqBuffer
      writePos := (tsr.irqWritePos + 1#8) &&& 0x7f#8 } ∧ (irqStore value tsr).port.Holds [value] := by
  have drained : tsr.irqReadPos = tsr.irqWritePos := empty
  have room : (tsr.irqWritePos + 1#8) &&& 0x7f#8 ≠ tsr.irqReadPos := by
    rw [drained]
    exact next_ne tsr.irqWritePos
  simp only [irqStore, if_neg room]
  refine ⟨rfl, ?_, ?_⟩
  · simp [Tsr.port, drained]
  · simp [Tsr.port, drained]

/-- The ring comes before the port: the loop frames the byte in the ring and then what it
reads, and leaves the ring empty. -/
theorem pollLoop_framed (budget : Nat) {tsr : Tsr} {held : List Byte} (holds : tsr.port.Holds held)
    (enough : held.length ≤ budget) :
    held ++ tsr.received = pollFramed budget tsr ++ (pollLoop budget tsr).received ∧
      (pollLoop budget tsr).port.Holds [] := by
  induction budget generalizing tsr held with
  | zero =>
    cases held with
    | nil => exact ⟨rfl, holds⟩
    | cons value held => simp at enough
  | succ budget inductionHypothesis =>
    have frames : ∀ value (rest : Tsr), pollByte tsr = (some value, rest) → rest.port.Holds [] →
        value :: rest.received = pollFramed (budget + 1) tsr ++ (pollLoop (budget + 1) tsr).received ∧
          (pollLoop (budget + 1) tsr).port.Holds [] := by
      intro value rest byte empty
      have kept := (acceptByte_serves rest value).port
      have later := inductionHypothesis (kept.holds empty) (Nat.zero_le budget)
      have received : (acceptByte value rest).received = rest.received := kept.received
      simp only [pollFramed, pollLoop, byte]
      rw [List.cons_append, ← later.1, received]
      exact ⟨rfl, later.2⟩
    cases held with
    | nil =>
      have empty : tsr.irqReadPos = tsr.irqWritePos := holds
      rw [List.nil_append]
      obtain ⟨holding, -⟩ | ⟨-, nothing | ⟨value, received, arrived, fetched⟩⟩ := pollByte_cases tsr
      · exact absurd empty holding
      · simp only [pollFramed, pollLoop, nothing, List.nil_append, true_and]
        exact holds
      · rw [arrived]
        exact frames value { tsr with received := received } fetched holds
    | cons value held =>
      cases held with
      | nil =>
        obtain ⟨one, oldest⟩ := holds
        have drained : (tsr.irqReadPos + 1#8) &&& 0x7f#8 = tsr.irqWritePos := one.symm
        obtain ⟨-, fetched⟩ | ⟨empty, -⟩ := pollByte_cases tsr
        · rw [show value = tsr.irqBuffer tsr.irqReadPos from oldest.symm]
          exact frames _ { tsr with irqReadPos := (tsr.irqReadPos + 1#8) &&& 0x7f#8 } fetched drained
        · -- The ring holds the byte.
          exact absurd (drained.trans empty.symm) (next_ne tsr.irqReadPos)
      | cons => exact absurd holds id

/-! ## A worker run -/

theorem Port.Kept.up {port next : Port} (kept : port.Kept next) (up : next.up = true) : next = port := by
  rcases kept with rfl | rfl
  · rfl
  · simp [Port.released] at up

/-- What keeps the port does not bring up a link that is down. -/
theorem Port.Kept.down {tsr next : Tsr} (kept : tsr.port.Kept next.port) (link : tsr.linkState = .closed) :
    next.linkState = .closed := by
  by_contra opened
  have same := congrArg Port.up (kept.up (by simp [Tsr.port, opened]))
  simp [Tsr.port, opened, link] at same

/-- Behind the receive loop no byte moves any more. -/
theorem beforeOpen_port (tsr : Tsr) : (receiveStage (hotkeyStage tsr)).port.Kept (beforeOpen tsr).port :=
  injectStage_port (receiveStage (hotkeyStage tsr))

theorem openStage_received (tsr : Tsr) (empty : tsr.port.Holds []) :
    (tickStage (openStage tsr)).port.Holds [] ∧
      (tickStage (openStage tsr)).received = tsr.received := by
  have ticked := (tickStage_serves (openStage tsr)).port
  suffices opened : (openStage tsr).port.Holds [] ∧ (openStage tsr).port.received = tsr.received from
    ⟨ticked.holds opened.1, ticked.received.trans opened.2⟩
  by_cases starts : tsr.Starts
  · rw [openStage_starts tsr starts]
    rcases startLink_port tsr with whole | cut
    · rw [whole]
      exact ⟨rfl, rfl⟩
    · rw [cut]
      exact ⟨rfl, rfl⟩
  · have kept := openStage_port tsr starts
    exact ⟨kept.holds empty, kept.received⟩

/-- A run that starts with the byte of an interrupt in the ring frames it first and then
what it reads, unless the hotkey closes the session before. -/
theorem pc98ServiceForeground_framed {tsr : Tsr} {held : List Byte} (holds : tsr.port.Holds held)
    (single : held.length ≤ 1) (idle : tsr.linkState = .closed → held = []) :
    (pc98ServiceForeground tsr).port.Holds [] ∧
      if (hotkeyStage tsr).linkState = .closed then
        serviceFramed tsr = [] ∧ (pc98ServiceForeground tsr).received = tsr.received
      else held ++ tsr.received = serviceFramed tsr ++ (pc98ServiceForeground tsr).received := by
  have hotkey := hotkeyStage_port tsr
  have ends : ∀ rest, rest = receiveStage (hotkeyStage tsr) → rest.port.Holds [] →
      (pc98ServiceForeground tsr).port.Holds [] ∧
        (pc98ServiceForeground tsr).received = rest.received := by
    rintro rest rfl empty
    have injected := beforeOpen_port tsr
    obtain ⟨drained, received⟩ := openStage_received (beforeOpen tsr) (injected.holds empty)
    rw [serviceForeground_stages]
    exact ⟨drained, received.trans injected.received⟩
  split
  · rename_i down
    have stays : receiveStage (hotkeyStage tsr) = hotkeyStage tsr := by simp [receiveStage, down]
    have empty : (hotkeyStage tsr).port.Holds [] := by
      rcases hotkey with same | released
      · -- The link was down before: the ring was empty.
        have link : tsr.linkState = .closed := by
          have up := congrArg Port.up same
          simpa [Tsr.port, down] using up.symm
        rw [same]
        rwa [idle link] at holds
      · rw [released]
        rfl
    obtain ⟨drained, received⟩ := ends _ rfl (by rwa [stays])
    rw [stays] at received
    have framed : serviceFramed tsr = [] := by simp [serviceFramed, down]
    exact ⟨drained, framed, received.trans hotkey.received⟩
  · rename_i link
    have same : (hotkeyStage tsr).port = tsr.port := hotkey.up (by simp [Tsr.port, link])
    have received : (hotkeyStage tsr).received = tsr.received := congrArg Port.received same
    have receives : receiveStage (hotkeyStage tsr) = pollLoop 32 (hotkeyStage tsr) := by
      simp [receiveStage, link, pollTransport]
    obtain ⟨framed, empty⟩ := pollLoop_framed 32 (same ▸ holds) (by omega : held.length ≤ 32)
    obtain ⟨drained, left⟩ := ends _ rfl (by rwa [receives])
    have frames : serviceFramed tsr = pollFramed 32 (hotkeyStage tsr) := by simp [serviceFramed, link]
    rw [receives] at left
    rw [left, frames, ← framed, received]
    exact ⟨drained, rfl⟩

/-- Once the hotkey has closed the session, a run that does not start another one leaves
it closed. -/
theorem pc98ServiceForeground_down {tsr : Tsr} (down : (hotkeyStage tsr).linkState = .closed)
    (stays : ¬ (beforeOpen tsr).Starts) : (pc98ServiceForeground tsr).linkState = .closed := by
  by_contra link
  have up : (pc98ServiceForeground tsr).port.up = true := by simp [Tsr.port, link]
  have opened := (tickStage_serves (openStage (beforeOpen tsr))).port.up up
  have injected := (openStage_port (beforeOpen tsr) stays).up (opened ▸ up)
  have received := (beforeOpen_port tsr).up (injected ▸ opened ▸ up)
  have hotkey : (hotkeyStage tsr).port.up = true := by
    rw [show hotkeyStage tsr = receiveStage (hotkeyStage tsr) by simp [receiveStage, down], ← received,
      ← injected, ← opened]
    exact up
  simp [Tsr.port, down] at hotkey

/-! ## An action -/

/-- What an action of the program reads it frames, `lost` apart: one byte at most, and that
only when the session ends in the action. -/
structure Action.Frames (action : Action) (tsr : Tsr) (lost : List Byte) : Prop where
  drained : (action.apply tsr).port.Holds []
  received : tsr.received = action.framed tsr ++ lost ++ (action.apply tsr).received
  down : tsr.linkState = .closed → action.framed tsr = [] ∧
    (action.begins tsr = false → (action.apply tsr).linkState = .closed)
  single : lost.length ≤ 1
  ends : lost ≠ [] → tsr.linkState ≠ .closed ∧
    (action.begins tsr = true ∨ (action.apply tsr).linkState = .closed)

/-- An action without a worker run reads nothing. -/
theorem Action.frames_idle {action : Action} {tsr : Tsr} (serves : action.service tsr = none)
    (kept : tsr.port.Kept (action.apply tsr).port) (empty : tsr.port.Holds []) :
    action.Frames tsr [] := by
  have nothing : action.framed tsr = [] := by simp [framed, serves]
  have received : (action.apply tsr).received = tsr.received := kept.received
  exact
    { drained := kept.holds empty
      received := by simp [nothing, received]
      down := fun link => ⟨nothing, fun _ => kept.down link⟩
      single := by simp
      ends := by simp }

theorem hotkeyStage_down {tsr : Tsr} (link : tsr.linkState = .closed) :
    (hotkeyStage tsr).linkState = .closed := (hotkeyStage_port tsr).down link

theorem Action.frames_foreground {tsr : Tsr} (empty : tsr.port.Holds []) :
    Action.foreground.Frames tsr [] := by
  obtain ⟨drained, does⟩ := pc98ServiceForeground_framed empty (by simp) fun _ => rfl
  have framed : Action.foreground.framed tsr = serviceFramed tsr := rfl
  have applies : Action.foreground.apply tsr = pc98ServiceForeground tsr := rfl
  refine
    { drained := applies ▸ drained
      received := ?_
      down := fun link => ?_
      single := by simp
      ends := by simp }
  · rw [framed, applies, List.append_nil]
    split at does
    · rw [does.1, List.nil_append]
      exact does.2.symm
    · exact does
  · have closed := hotkeyStage_down link
    rw [if_pos closed] at does
    rw [framed, applies]
    refine ⟨does.1, fun stays => pc98ServiceForeground_down closed ?_⟩
    simpa [Action.begins, Action.service] using stays

/-- The byte of an interrupt is framed by the interrupt's own run, unless the hotkey ends
the session there. -/
theorem Action.frames_serialIrq {tsr : Tsr} {value : Byte} {received : List Byte}
    (capture : tsr.irqCapture = true) (arrived : tsr.received = value :: received)
    (empty : tsr.port.Holds []) (captured : tsr.port.capture = tsr.port.up) :
    ∃ lost, Action.serialIrq.Frames tsr lost := by
  let start := irqStore value { tsr with received := received }
  have serves : Action.serialIrq.service tsr = some start := by simp [service, capture, arrived, start]
  have applies : Action.serialIrq.apply tsr = pc98ServiceForeground start := by
    simp [apply, pc98SerialIrqHook, capture, arrived, start]
  have up : tsr.linkState ≠ .closed := by
    have link : tsr.port.up = true := captured ▸ capture
    simpa [Tsr.port] using link
  obtain ⟨stored, holds⟩ := irqStore_holds value { tsr with received := received } empty
  have startLink : start.linkState = tsr.linkState :=
    congrArg Session.linkState (irqStore_session value { tsr with received := received })
  have startReceived : start.received = received := congrArg Port.received stored
  obtain ⟨drained, does⟩ := pc98ServiceForeground_framed holds (by simp)
    fun link => absurd (startLink.symm.trans link) up
  have frames : Action.serialIrq.framed tsr = serviceFramed start := by simp [framed, serves]
  by_cases closed : (hotkeyStage start).linkState = .closed
  · rw [if_pos closed] at does
    obtain ⟨nothing, left⟩ := does
    refine ⟨[value],
      { drained := by rw [applies]; exact drained
        received := ?_
        down := fun link => absurd link up
        single := by simp
        ends := fun _ => ⟨up, ?_⟩ }⟩
    · rw [frames, nothing, applies, left, startReceived, arrived]
      rfl
    · by_cases starts : (beforeOpen start).Starts
      · exact .inl (by simp [begins, serves, starts])
      · rw [applies]
        exact .inr (pc98ServiceForeground_down closed starts)
  · rw [if_neg closed] at does
    refine ⟨[],
      { drained := by rw [applies]; exact drained
        received := ?_
        down := fun link => absurd link up
        single := by simp
        ends := by simp }⟩
    rw [frames, applies, List.append_nil, ← does, startReceived, arrived]
    rfl

theorem Action.frames (action : Action) {tsr : Tsr}
    (inside : ∀ hardware, action ≠ .environment hardware) (empty : tsr.port.Holds [])
    (captured : tsr.port.capture = tsr.port.up) : ∃ lost, action.Frames tsr lost := by
  cases action with
  | environment hardware => exact absurd rfl (inside hardware)
  | foreground => exact ⟨[], frames_foreground empty⟩
  | returnedHotkey =>
    refine ⟨[], frames_idle rfl ?_ empty⟩
    obtain ⟨_, latched⟩ := pc98PollHotkey_spec tsr
    simp only [apply, pc98ServiceReturnedHotkey, latched]
    split
    · exact toggleImeHotkey_port { tsr with hotkeyLatched := decide tsr.HotkeyHeld }
    · exact .inl rfl
  | prepareUninstall => exact ⟨[], frames_idle rfl (closeIme_serves tsr).port empty⟩
  | serialIrq =>
    cases capture : tsr.irqCapture with
    | false =>
      have chains : Action.serialIrq.apply tsr = tsr := by simp [apply, pc98SerialIrqHook, capture]
      exact ⟨[], frames_idle (by simp [service, capture]) (.inl (by rw [chains])) empty⟩
    | true =>
      cases arrived : tsr.received with
      | nil =>
        have chains : Action.serialIrq.apply tsr = tsr := by
          simp [apply, pc98SerialIrqHook, capture, arrived]
        exact ⟨[], frames_idle (by simp [service, capture, arrived]) (.inl (by rw [chains])) empty⟩
      | cons value received => exact frames_serialIrq capture arrived empty captured

/-- What leaves the UART is what is read. -/
theorem Action.read_eq {action : Action} {tsr : Tsr} {taken : List Byte}
    (inside : ∀ hardware, action ≠ .environment hardware)
    (left : tsr.received = taken ++ (action.apply tsr).received) : action.read tsr = taken := by
  have cut : tsr.received.take (tsr.received.length - (action.apply tsr).received.length) = taken := by
    rw [left, List.length_append, Nat.add_sub_cancel, List.take_left]
  cases action with
  | environment hardware => exact absurd rfl (inside hardware)
  | foreground | serialIrq | returnedHotkey | prepareUninstall => exact cut

/-! ## Sessions -/

/-- Between two actions: the ring is empty, and all that was read in a session is framed,
but for one byte at most when it is over. -/
structure Reception.Sound (reception : Reception) : Prop where
  empty : reception.tsr.port.Holds []
  captured : reception.tsr.port.capture = reception.tsr.port.up
  live : reception.tsr.linkState ≠ .closed → reception.framed = reception.read
  kept : reception.Kept
  ended : ∀ notes ∈ reception.ended, notes.Kept

theorem Port.Step.captured {port next : Port} (step : port.Step next) (start : port.capture = port.up) :
    next.capture = next.up := by
  cases step with
  | released => rfl
  | claimed => rfl
  | fetched => exact start
  | stored => exact start

/-- What an action adds to the notes on the session. -/
theorem Reception.Sound.notes {action : Action} {reception : Reception} (sound : reception.Sound)
    {lost : List Byte} (frames : action.Frames reception.tsr lost) :
    (Notes.mk (reception.read ++ (action.framed reception.tsr ++ lost))
      (reception.framed ++ action.framed reception.tsr)).Kept := by
  by_cases link : reception.tsr.linkState = .closed
  · -- With the link down before, nothing is read.
    have nothing : lost = [] := by
      by_contra something
      exact (frames.ends something).1 link
    rw [(frames.down link).1, nothing, List.append_nil, List.append_nil, List.append_nil]
    exact sound.kept
  · have single := frames.single
    rw [sound.live link]
    refine ⟨⟨lost, List.append_assoc _ _ _⟩, ?_⟩
    simp only [List.length_append]
    omega

theorem Reception.Sound.apply (action : Action) (reception : Reception) (sound : reception.Sound) :
    (reception.apply action).Sound := by
  by_cases outside : ∃ hardware, action = .environment hardware
  · -- Outside the program nothing is read and nothing framed.
    obtain ⟨hardware, rfl⟩ := outside
    have same : reception.apply (.environment hardware) =
        { reception with tsr := { reception.tsr with toHardware := hardware } } := by
      simp [Reception.apply, Action.begins, Action.service, Action.apply, Action.read, Action.framed]
    rw [same]
    exact ⟨sound.empty, sound.captured, sound.live, sound.kept, sound.ended⟩
  · have inside : ∀ hardware, action ≠ .environment hardware := fun hardware is => outside ⟨hardware, is⟩
    obtain ⟨lost, frames⟩ := action.frames inside sound.empty sound.captured
    have captured := (action.port_steps reception.tsr inside).preserves
      (fun _ _ step => step.captured) sound.captured
    have kept := sound.notes frames
    rw [← Action.read_eq inside frames.received] at kept
    cases begins : action.begins reception.tsr with
    | true =>
      simp only [Reception.apply, begins, if_true]
      refine ⟨frames.drained, captured, fun _ => rfl, ⟨List.prefix_refl _, Nat.zero_le _⟩, ?_⟩
      exact List.forall_mem_append.mpr ⟨sound.ended, List.forall_mem_singleton.mpr kept⟩
    | false =>
      simp only [Reception.apply, begins, Bool.false_eq_true, if_false]
      refine ⟨frames.drained, captured, fun up => ?_, kept, sound.ended⟩
      have link : reception.tsr.linkState ≠ .closed := fun down => up ((frames.down down).2 begins)
      have nothing : lost = [] := by
        by_contra something
        obtain ended | down := (frames.ends something).2
        · simp [begins] at ended
        · exact up down
      have read := Action.read_eq inside frames.received
      rw [nothing, List.append_nil] at read
      exact congrArg₂ (· ++ ·) (sound.live link) read.symm

/-- The notes do not disturb the program. -/
theorem Reception.run_tsr (actions : List Action) (reception : Reception) :
    (Run.run Reception.apply actions reception).tsr = Run.run Action.apply actions reception.tsr := by
  induction actions generalizing reception with
  | nil => rfl
  | cons action actions inductionHypothesis =>
    have step : (reception.apply action).tsr = action.apply reception.tsr := by
      simp only [Reception.apply]
      split
      · rfl
      · rfl
    rw [Run.run_cons, Run.run_cons, inductionHypothesis, step]

/-- Received bytes reach the framer once each and in order: after every action the ring is
empty, and while a session lasts the bytes passed to `accept_byte` are those read
from the UART, which are those that left it; of a session that is over they are a prefix, all
but one byte at most, also where the action that ends it begins another one.  An
interrupt always finds room in the ring. -/
theorem received_bytes_are_framed (modifierMask : Byte) (hardware : Hardware) (actions : List Action) :
    let reception := Run.run Reception.apply actions { tsr := cleared modifierMask hardware }
    let tsr := Run.run Action.apply actions (cleared modifierMask hardware)
    reception.tsr = tsr ∧ tsr.irqReadPos = tsr.irqWritePos ∧
      (tsr.linkState ≠ .closed → reception.framed = reception.read) ∧
      (∀ session ∈ reception.toNotes :: reception.ended,
        session.framed <+: session.read ∧ session.read.length ≤ session.framed.length + 1) ∧
      (∀ action : Action, (∀ hardware, action ≠ .environment hardware) →
        tsr.received = action.read tsr ++ (action.apply tsr).received) ∧
      ∀ value received,
        let stored := irqStore value { tsr with received := received }
        (tsr.irqWritePos + 1#8) &&& 0x7f#8 ≠ tsr.irqReadPos ∧
          stored.irqWritePos = (stored.irqReadPos + 1#8) &&& 0x7f#8 ∧
          stored.irqBuffer stored.irqReadPos = value := by
  intro reception tsr
  have sound : reception.Sound := Run.invariant Reception.apply
    (fun state action start => start.apply action state) actions
    ⟨rfl, by simp [cleared, Tsr.port], fun _ => rfl, ⟨List.prefix_refl _, Nat.zero_le _⟩, by simp⟩
  have same : reception.tsr = tsr := Reception.run_tsr actions { tsr := cleared modifierMask hardware }
  refine ⟨same, same ▸ sound.empty, same ▸ sound.live, ?_, ?_, ?_⟩
  · intro session member
    cases member with
    | head => exact ⟨sound.kept.within, sound.kept.missing⟩
    | tail _ before => exact ⟨(sound.ended session before).within, (sound.ended session before).missing⟩
  · intro action inside
    obtain ⟨lost, frames⟩ := action.frames inside sound.empty sound.captured
    rw [← same, Action.read_eq inside frames.received]
    exact frames.received
  · intro value received
    have empty : tsr.port.Holds [] := same ▸ sound.empty
    have drained : tsr.irqReadPos = tsr.irqWritePos := empty
    rw [drained]
    exact ⟨next_ne tsr.irqWritePos, (irqStore_holds value { tsr with received := received } empty).2⟩

end ImeBridge
