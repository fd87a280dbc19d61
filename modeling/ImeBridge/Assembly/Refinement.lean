import ImeBridge.Library.HandlerModels
import ImeBridge.Assembly.Hooks
import ImeBridge.Resident.Consistency
import ImeBridge.Resident.Port

/-! # The hooks refine the resident model

`Resident.Runs` takes an entry into the resident copy as one action.  Here the hooks execute it an
instruction at a time, with other programs, interrupts and calls of INT 18h in between; the
routines in C are as `Resident.Foreground` has them.
-/

namespace ImeBridge.Assembly

open Library Library.Handlers

/-! ## The variables in both -/

/-- The receive ring and segment 0 as the hooks have them. -/
def Resident.shown (resident : Resident) (tsr : Tsr) : Tsr :=
  { tsr with
    irqCapture := resident.serialIrqCapture != 0#8
    irqReadPos := resident.serialIrqReadPos
    irqWritePos := resident.serialIrqWritePos
    irqBuffer := fun position => resident.serialIrqBuffer (word position 0#8)
    memory := resident.memory 0#16 }

/-- The same variables as the C code leaves them. -/
def Resident.written (tsr : Tsr) (resident : Resident) : Resident :=
  { resident with
    serialIrqCapture := if tsr.irqCapture then 1#8 else 0#8
    serialIrqReadPos := tsr.irqReadPos
    serialIrqWritePos := tsr.irqWritePos
    serialIrqBuffer := fun index => tsr.irqBuffer (Word.low index)
    memory := Function.update resident.memory 0#16 tsr.memory }

/-- The receive ring is the resident copy's own; `outside` is what other programs make of segment 0
when they want it to be another. -/
def Resident.altered (outside : Memory → Memory → Memory) (resident wanted : Resident) : Resident :=
  { wanted with
    serialIrqCapture := resident.serialIrqCapture
    serialIrqReadPos := resident.serialIrqReadPos
    serialIrqWritePos := resident.serialIrqWritePos
    serialIrqBuffer := resident.serialIrqBuffer
    memory := Function.update wanted.memory 0#16
      (outside (resident.memory 0#16) (wanted.memory 0#16)) }

theorem shown_written (tsr : Tsr) (resident other : Resident) :
    (resident.confine (other.written tsr)).shown tsr = tsr := by
  cases capture : tsr.irqCapture <;> simp [Resident.shown, Resident.written, Resident.confine, capture] <;>
    rw [← capture]

/-! ## What the routines in C do -/

/-- The devices as they are now; segment 0 is not theirs. -/
def withDevices (hardware : Hardware) (tsr : Tsr) : Tsr :=
  { tsr with toHardware := { hardware with memory := tsr.memory } }

def withMemory (memory : Memory) (tsr : Tsr) : Tsr := { tsr with memory := memory }

def Symbol.routine (symbol : Symbol) (tsr : Tsr) : Tsr :=
  match symbol with
  | .pc98ServiceForeground => ImeBridge.pc98ServiceForeground tsr
  | .pc98ServiceReturnedHotkey => (ImeBridge.pc98ServiceReturnedHotkey tsr).2
  | .pc98PrepareUninstall => ImeBridge.pc98PrepareUninstall tsr
  -- These are variables.
  | .pc98InputOriginalAh | .pc98ReturnedHotkeyHandled => tsr

@[simps]
def resident (outside : Memory → Memory → Memory) : Tie Symbol Resident Tsr Hardware where
  shown := Resident.shown
  written := Resident.written
  work symbol hardware tsr := symbol.routine (withDevices hardware tsr)
  altered := Resident.altered outside

/-- What happens to the resident copy at a time. -/
inductive Turn where
  /-- Bytes on the line, the transmitter's coming behaviour, the interrupt mask. -/
  | devices (hardware : Hardware)
  /-- A program or some other handler writes to segment 0. -/
  | program (wanted : Memory)
  /-- The INT 18h hook takes the oldest word of the BIOS queue. -/
  | inputWaitQueue
  | foreground
  | serialIrq
  | returnedHotkey
  | prepareUninstall

def Turn.apply (outside : Memory → Memory → Memory) (turn : Turn) (tsr : Tsr) : Tsr :=
  match turn with
  | .devices hardware => withDevices hardware tsr
  | .program wanted => withMemory (outside tsr.memory wanted) tsr
  | .inputWaitQueue => withMemory (pc98InputWaitQueue tsr.memory).2 tsr
  | .foreground => Action.apply .foreground tsr
  | .serialIrq => Action.apply .serialIrq tsr
  | .returnedHotkey => Action.apply .returnedHotkey tsr
  | .prepareUninstall => Action.apply .prepareUninstall tsr

section Blocks

variable (copy : Copy) {outside : Memory → Memory → Memory} (reached : Tsr → Prop)

/-- What holds at each label.  The receive ring and the BIOS queue are only worked on with interrupts
off. -/
def Refines (label : Label) (spot : Spot Resident) (tsr : Tsr) : Prop :=
  match label with
  | .pc98SerialIrqHook => interrupts spot.flags = false ∧ reached (spot.store.shown tsr)
  | .pc98SerialIrqEoi => interrupts spot.flags = false ∧ ∀ hardware,
      reached (pc98ServiceForeground (withDevices hardware (spot.store.shown tsr)))
  | .pc98InputDequeue => interrupts spot.flags = false ∧ spot.registers.es = 0#16 ∧
      (spot.store.memory 0#16).readByte pc98KbCount ≠ 0#8 ∧ reached (spot.store.shown tsr)
  | .pc98InputStoreHead => interrupts spot.flags = false ∧ spot.registers.es = 0#16 ∧
      reached (withMemory ((spot.store.memory 0#16).writeWord pc98KbHead spot.registers.bx)
        (spot.store.shown tsr))
  | _ => reached (spot.store.shown tsr)

variable {reached}

theorem routine_reached (closed : ∀ (turn : Turn) tsr, reached tsr → reached (turn.apply outside tsr))
    (symbol : Symbol) (hardware : Hardware) (tsr : Tsr) (here : reached tsr) :
    reached (symbol.routine (withDevices hardware tsr)) := by
  have devices : reached (withDevices hardware tsr) := closed (.devices hardware) tsr here
  cases symbol with
  | pc98ServiceForeground => exact closed .foreground _ devices
  | pc98ServiceReturnedHotkey => exact closed .returnedHotkey _ devices
  | pc98PrepareUninstall => exact closed .prepareUninstall _ devices
  | pc98InputOriginalAh | pc98ReturnedHotkeyHandled => exact devices

attribute [local simp] Copy.code Tie.Plain Refines

theorem plain (closed : ∀ (turn : Turn) tsr, reached tsr → reached (turn.apply outside tsr)) (label : Label)
    (isPlain : label ∉ [Label.pc98InputWaitQueue, .pc98InputDequeue, .pc98InputStoreHead, .pc98SerialIrqHook,
      .pc98SerialIrqEoi]) :
    (resident outside).Plain reached (Refines reached) false (copy.code label) := by
  have serves := routine_reached closed
  cases label <;> simp +contextual [Resident.shown, serves] at isPlain ⊢

variable {spot : Spot Resident} {tsr : Tsr}

theorem follows_plain (closed : ∀ (turn : Turn) tsr, reached tsr → reached (turn.apply outside tsr)) (label : Label)
    (isPlain : label ∉ [Label.pc98InputWaitQueue, .pc98InputDequeue, .pc98InputStoreHead, .pc98SerialIrqHook,
      .pc98SerialIrqEoi]) (here : reached (spot.store.shown tsr)) :
    (resident outside).Follows reached (Refines reached) (copy.hooks.code label) spot tsr :=
  (plain copy closed label isPlain).follows here nofun

theorem shown_memory (resident : Resident) (memory : Word → Memory) (tsr : Tsr) :
    ({ resident with memory := memory } : Resident).shown tsr =
      withMemory (memory 0#16) (resident.shown tsr) := rfl

theorem follows_inputWaitQueue (here : reached (spot.store.shown tsr)) :
    (resident outside).Follows reached (Refines reached) (copy.code .pc98InputWaitQueue) spot tsr := by
  refine @Tie.follows_cons _ _ _ _ _ _ _ _ _ _ _ _ false here nofun fun spot tsr here _ => ?_
  obtain ⟨registers, flags, store⟩ := spot
  have again : (resident outside).Plain reached (Refines reached) false [hlt, jmp .pc98InputWaitQueue] := by simp
  simp
  split_ifs with isEmpty
  · intro oldEs oldBx
    exact again.follows here nofun
  · exact ⟨isEmpty, here⟩

/-- The words behind the one taken, as the hook leaves them. -/
theorem inputWaitQueue_eq {memory : Memory} (some : memory.readByte pc98KbCount ≠ 0#8) :
    (pc98InputWaitQueue memory).2 =
      let rest := memory.writeByte pc98KbCount (memory.readByte pc98KbCount - 1#8)
      let head := rest.readWord pc98KbHead + 2#16
      rest.writeWord pc98KbHead (if BitVec.ult head pc98KbBufferEnd then head else pc98KbBufferStart) := by
  rw [pc98InputWaitQueue, if_pos some, pc98InputDequeue]
  simp only [BitVec.ult_iff_lt]

theorem follows_inputDequeue (closed : ∀ (turn : Turn) tsr, reached tsr → reached (turn.apply outside tsr))
    (holds : Refines reached .pc98InputDequeue spot tsr) :
    (resident outside).Follows reached (Refines reached) (copy.code .pc98InputDequeue) spot tsr := by
  obtain ⟨registers, flags, store⟩ := spot
  obtain ⟨off, segment, some, here⟩ := holds
  dsimp only at off segment some here
  have taken : reached (withMemory (pc98InputWaitQueue (store.memory 0#16)).2 (store.shown tsr)) :=
    closed .inputWaitQueue _ here
  rw [inputWaitQueue_eq some] at taken
  simp [off, segment, shown_memory]
  split_ifs with below
  · exact Eq.mp (congrArg (fun head => reached (withMemory (Memory.writeWord _ _ head) _)) (if_pos below)) taken
  · exact Eq.mp (congrArg (fun head => reached (withMemory (Memory.writeWord _ _ head) _)) (if_neg below)) taken

theorem follows_inputStoreHead (holds : Refines reached .pc98InputStoreHead spot tsr) :
    (resident outside).Follows reached (Refines reached) (copy.code .pc98InputStoreHead) spot tsr := by
  obtain ⟨registers, flags, store⟩ := spot
  obtain ⟨off, segment, here⟩ := holds
  dsimp only at off segment here
  simp [off, segment, shown_memory]
  exact here

theorem irqStore_full {value : Byte} (full : (tsr.irqWritePos + 1#8) &&& 0x7f#8 = tsr.irqReadPos) :
    irqStore value tsr = tsr := if_pos full

theorem irqStore_room {value : Byte} (room : (tsr.irqWritePos + 1#8) &&& 0x7f#8 ≠ tsr.irqReadPos) :
    irqStore value tsr = { tsr with
      irqBuffer := fun position => if position = tsr.irqWritePos then value else tsr.irqBuffer position
      irqWritePos := (tsr.irqWritePos + 1#8) &&& 0x7f#8 } := if_neg room

/-- A byte comes and the resident copy is entered for it. -/
theorem receives (closed : ∀ (turn : Turn) tsr, reached tsr → reached (turn.apply outside tsr))
    (here : reached tsr) (capture : tsr.irqCapture = true) (value : Byte) (hardware : Hardware) :
    reached (pc98ServiceForeground (withDevices hardware (irqStore value tsr))) := by
  have arrived := closed (.devices { hardware with received := value :: hardware.received }) tsr here
  have served : reached (pc98SerialIrqHook
      (withDevices { hardware with received := value :: hardware.received } tsr)) :=
    closed .serialIrq _ arrived
  have same : irqStore value { withDevices { hardware with received := value :: hardware.received } tsr with
      received := hardware.received } = withDevices hardware (irqStore value tsr) := by
    by_cases full : (tsr.irqWritePos + 1#8) &&& 0x7f#8 = tsr.irqReadPos
    · rw [irqStore_full full, irqStore_full (by exact full)]
      rfl
    · rw [irqStore_room full, irqStore_room (by exact full)]
      rfl
  rw [pc98SerialIrqHook, if_pos (by exact capture)] at served
  exact same ▸ served

theorem shown_counted (resident : Resident) (entry ready stored : Word) (tsr : Tsr) :
    ({ resident with
      serialIrqEntryCount := entry
      serialIrqRxReadyCount := ready
      serialIrqStoredCount := stored } : Resident).shown tsr = resident.shown tsr := rfl

theorem shown_saved (resident : Resident) (segment offset : Word) (tsr : Tsr) :
    ({ resident with workerOldSs := segment, workerOldSp := offset } : Resident).shown tsr =
      resident.shown tsr := rfl

theorem shown_stored (resident : Resident) (value : Byte) (tsr : Tsr)
    (room : (resident.serialIrqWritePos + 1#8) &&& 0x7f#8 ≠ resident.serialIrqReadPos) :
    ({ resident with
      serialIrqBuffer := Function.update resident.serialIrqBuffer (word resident.serialIrqWritePos 0#8) value
      serialIrqWritePos := (resident.serialIrqWritePos + 1#8) &&& 0x7f#8 } : Resident).shown tsr =
      irqStore value (resident.shown tsr) := by
  have buffer : (fun position => Function.update resident.serialIrqBuffer
      (word resident.serialIrqWritePos 0#8) value (word position 0#8)) =
        fun position => if position = resident.serialIrqWritePos then value
          else resident.serialIrqBuffer (word position 0#8) := by
    funext position
    simp only [Function.update_apply, word_eq_iff, low_word, high_word, and_true]
  rw [irqStore_room (by exact room)]
  simp only [Resident.shown, buffer]
  rfl

theorem follows_serialIrqHook (closed : ∀ (turn : Turn) tsr, reached tsr → reached (turn.apply outside tsr))
    (holds : Refines reached .pc98SerialIrqHook spot tsr) :
    (resident outside).Follows reached (Refines reached) (copy.code .pc98SerialIrqHook) spot tsr := by
  obtain ⟨registers, flags, store⟩ := spot
  obtain ⟨off, here⟩ := holds
  dsimp only at off here
  have received : store.serialIrqCapture ≠ 0#8 → ∀ value hardware,
      reached (pc98ServiceForeground (withDevices hardware (irqStore value (store.shown tsr)))) :=
    fun busy => receives closed here (by simpa [Resident.shown] using busy)
  by_cases full : (store.serialIrqWritePos + 1#8) &&& 0x7f#8 = store.serialIrqReadPos
  · have same : ∀ value, irqStore value (store.shown tsr) = store.shown tsr :=
      fun value => irqStore_full full
    simp only [same] at received
    simp [off, shown_counted, full]
    split_ifs with idle
    · exact here
    intro status
    split_ifs
    · exact here
    · exact received idle 0#8
  · have same : ∀ value, irqStore value (store.shown tsr) = _ :=
      fun value => (shown_stored store value tsr full).symm
    simp only [same] at received
    simp [off, shown_counted, full]
    split_ifs with idle
    · exact here
    intro status
    split_ifs
    · exact here
    · exact received idle

theorem follows_serialIrqEoi (holds : Refines reached .pc98SerialIrqEoi spot tsr) :
    (resident outside).Follows reached (Refines reached) (copy.code .pc98SerialIrqEoi) spot tsr := by
  obtain ⟨registers, flags, store⟩ := spot
  obtain ⟨off, here⟩ := holds
  dsimp only at off here
  simp [off, shown_saved]
  intro hardware
  refine ⟨here hardware, fun registers flags store off same => ?_⟩
  refine Tie.Plain.follows (?_ : (resident outside).Plain reached (Refines reached) true _) ?_ fun _ => off
  · simp
  · rw [resident_shown, same]
    exact here hardware

theorem hooks_tied (closed : ∀ (turn : Turn) tsr, reached tsr → reached (turn.apply outside tsr)) :
    Tied (resident outside) reached (Refines reached) copy.hooks where
  follows := by
    intro label spot tsr holds
    cases label with
    | pc98InputWaitQueue => exact follows_inputWaitQueue copy holds
    | pc98InputDequeue => exact follows_inputDequeue copy closed holds
    | pc98InputStoreHead => exact follows_inputStoreHead copy holds
    | pc98SerialIrqHook => exact follows_serialIrqHook copy closed holds
    | pc98SerialIrqEoi => exact follows_serialIrqEoi copy holds
    | _ =>
      refine follows_plain copy closed _ ?_ holds
      decide
  entered := by
    intro label spot tsr way off here
    cases way with
    | inl isIrq =>
      subst isIrq
      exact ⟨off, here⟩
    | inr isInput =>
      obtain rfl : label = .pc98InputHook := by cases label <;> simp at isInput ⊢
      exact here
  called := by
    intro label spot tsr way here
    obtain rfl : label = .pc98UninstallPrepareEntry := by cases label <;> simp at way ⊢
    exact here
  altered store other tsr here := closed (.program (other.memory 0#16)) _ here
  written store tsr := shown_written tsr store store

end Blocks

/-! ## Runs -/

/-- The hooks, with the routines in C as the model has them. -/
abbrev Serviced := Modelled Label Symbol Resident Observed Tsr

section Runs

variable (outside : Memory → Memory → Memory)

/-- Where no handler is at work with interrupts off, the resident copy is as a run of the model
leaves it. -/
def AsInRun (start : Tsr) (serviced : Serviced) : Prop :=
  ∀ tsr ∈ (resident outside).current serviced, ∃ turns, Run.run (Turn.apply outside) turns start = tsr

/-- Whatever interrupts, calls and other programs come between the instructions, the hooks and the
routines do what some run of the resident model does. -/
theorem hooks_refine_model (copy : Copy) (machine : Machine Resident) (tsr : Tsr)
    (events : List (Handlers.Action Label Resident × Hardware)) :
    AsInRun outside (machine.store.shown tsr)
      (Run.run (copy.hooks.follow (resident outside)) events ⟨⟨machine, [.program]⟩, tsr⟩) := by
  have closed : ∀ (turn : Turn) (later : Tsr),
      (∃ turns, Run.run (Turn.apply outside) turns (machine.store.shown tsr) = later) →
        ∃ turns, Run.run (Turn.apply outside) turns (machine.store.shown tsr) =
          turn.apply outside later := by
    rintro turn later ⟨turns, rfl⟩
    exact ⟨turns ++ [turn], Run.run_append (Turn.apply outside) turns [turn] _⟩
  intro later isCurrent
  exact (hooks_tied copy closed).run events ⟨[], rfl⟩ isCurrent

/-- COM1 interrupts with a byte on the line: it is in the ring and out of it again when the worker
is done. -/
example :
    let copy : Copy := ⟨0x2000#16, 0x1c00#16⟩
    let tsr : Tsr := { linkState := .helloWait, serialOpened := true, irqCapture := true }
    let machine : Machine Resident := { store := ({} : Resident).written tsr, flags := 0x0200#16 }
    let idle : Hardware := {}
    let events := [(.interrupts 0#16 0#16, idle)] ++ List.replicate 12 (.executes 0x02#8, idle) ++
      List.replicate 32 (.executes imeMagic0, idle)
    let serviced := Run.run (copy.hooks.follow (resident fun _ wanted => wanted)) events
      ⟨⟨machine, [.program]⟩, tsr⟩
    serviced.model.rxPacket = [imeMagic0] ∧ serviced.model.irqReadPos = 1#8 := by
  decide +kernel

/-! ## What carries over -/

theorem Turn.isAction (turn : Turn) (tsr : Tsr) :
    ∃ action, turn.apply outside tsr = Action.apply action tsr := by
  cases turn with
  | devices hardware => exact ⟨.environment { hardware with memory := tsr.memory }, rfl⟩
  | program wanted => exact ⟨.environment { tsr.toHardware with memory := outside tsr.memory wanted }, rfl⟩
  | inputWaitQueue =>
    exact ⟨.environment { tsr.toHardware with memory := (pc98InputWaitQueue tsr.memory).2 }, rfl⟩
  | foreground => exact ⟨.foreground, rfl⟩
  | serialIrq => exact ⟨.serialIrq, rfl⟩
  | returnedHotkey => exact ⟨.returnedHotkey, rfl⟩
  | prepareUninstall => exact ⟨.prepareUninstall, rfl⟩

/-- What every action of the model keeps, the hooks keep. -/
theorem hooks_keep {kept : Tsr → Prop} (keeps : ∀ tsr (action : Action), kept tsr → kept (action.apply tsr))
    (copy : Copy) (machine : Machine Resident) (tsr : Tsr) (start : kept (machine.store.shown tsr))
    (events : List (Handlers.Action Label Resident × Hardware)) {later : Tsr}
    (isCurrent : (resident outside).current
      (Run.run (copy.hooks.follow (resident outside)) events ⟨⟨machine, [.program]⟩, tsr⟩) = some later) :
    kept later := by
  refine (hooks_tied copy fun turn tsr before => ?_).run events start isCurrent
  obtain ⟨action, same⟩ := turn.isAction outside tsr
  rw [same]
  exact keeps tsr action before

/-- The flags of the session agree, and COM1's interrupts are taken for the time of it. -/
structure TakesInSession (tsr : Tsr) : Prop where
  settled : tsr.Settled
  capture : tsr.port.capture = tsr.port.up

theorem capture_step {port next : Port} (does : Port.Step port next) (before : port.capture = port.up) :
    next.capture = next.up := by
  cases does with
  | released | claimed => rfl
  | fetched | stored => exact before

theorem TakesInSession.action (tsr : Tsr) (action : Action) (before : TakesInSession tsr) :
    TakesInSession (action.apply tsr) := by
  refine ⟨action.settled tsr before.settled, ?_⟩
  by_cases outside : ∃ hardware, action = .environment hardware
  · obtain ⟨hardware, rfl⟩ := outside
    exact before.capture
  · have steps := action.port_steps tsr fun hardware same => outside ⟨hardware, same⟩
    exact steps.preserves (fun _ _ => capture_step) before.capture

/-- From its installation on, the hooks take COM1's interrupts for the time of a session. -/
theorem hooks_take_in_session (copy : Copy) (machine : Machine Resident) (modifierMask : Byte)
    (hardware : Hardware) (events : List (Handlers.Action Label Resident × Hardware)) :
    ∀ tsr ∈ (resident outside).current (Run.run (copy.hooks.follow (resident outside)) events
      ⟨⟨{ machine with store := machine.store.written (cleared modifierMask hardware) }, [.program]⟩,
        cleared modifierMask hardware⟩), TakesInSession tsr := by
  intro tsr isCurrent
  refine hooks_keep outside TakesInSession.action copy _ _ ?_ events isCurrent
  have same : (machine.store.written (cleared modifierMask hardware)).shown (cleared modifierMask hardware) =
      cleared modifierMask hardware := shown_written (cleared modifierMask hardware) _ machine.store
  dsimp only
  rw [same]
  exact ⟨cleared_settled modifierMask hardware, rfl⟩

/-- The hotkey is held down, and its Space is in the BIOS queue. -/
def spaceHeld : Hardware :=
  hotkeyHeld { memory := (machine 1#8 []).memory.writeWord 0x0502#16 0x3420#16 }

/-- The hotkey turns the IME on in a call of INT 18h, and before the call is over COM1 interrupts with
a byte of the host. -/
def takingIn : List (Handlers.Action Label Resident × Hardware) :=
  let idle : Hardware := {}
  -- Up to the worker, which sends HELLO; through the old handler; the interrupt and its worker.
  (.enters .pc98InputHook 0#16 0#16, idle) :: List.replicate 26 (.executes 0#8, idle) ++
    ((.returns 0#16, idle) :: List.replicate 18 (.executes 0#8, idle)) ++
    ((.returns 0x0200#16, idle) :: (.interrupts 0#16 0#16, idle) ::
      List.replicate 12 (.executes 0x02#8, idle) ++ List.replicate 32 (.executes imeMagic0, idle))

def takenIn : Serviced :=
  let copy : Copy := ⟨0x2000#16, 0x1c00#16⟩
  let machine : Machine Resident :=
    { store := ({} : Resident).written (cleared 0x01#8 spaceHeld), flags := 0x0200#16 }
  Run.run (copy.hooks.follow (resident fun _ wanted => wanted)) takingIn
    ⟨⟨machine, [.program]⟩, cleared 0x01#8 spaceHeld⟩

theorem hooks_take_in_session_greeting :
    ∃ tsr ∈ (resident fun _ wanted => wanted).current takenIn,
      TakesInSession tsr ∧ tsr.linkState = .helloWait ∧ tsr.irqCapture = true ∧ tsr.rxPacket = [imeMagic0] := by
  have takes : ∀ tsr ∈ (resident fun _ wanted => wanted).current takenIn, TakesInSession tsr :=
    hooks_take_in_session (fun _ wanted => wanted) ⟨0x2000#16, 0x1c00#16⟩
      { store := {}, flags := 0x0200#16 } 0x01#8 spaceHeld takingIn
  have up : ((resident fun _ wanted => wanted).current takenIn).any fun tsr =>
      tsr.linkState = .helloWait ∧ tsr.irqCapture = true ∧ tsr.rxPacket = [imeMagic0] := by
    decide +kernel
  generalize (resident fun _ wanted => wanted).current takenIn = current at takes up ⊢
  cases current with
  | none => simp at up
  | some tsr => exact ⟨tsr, rfl, takes tsr rfl, of_decide_eq_true up⟩

end Runs

end ImeBridge.Assembly
