import ImeBridge.Serial.Handshake

/-! # Programming the UART and the timer

An 8251 as far as its control port goes, and channel 2 of an 8253.  What a control byte
means depends on the bytes before it, and `pc98_serial_open` does not know what these
were: another program may have left the chip anywhere.
-/

namespace ImeBridge

/-! ## The chips -/

/-- What the 8251 takes the next control byte for. -/
inductive UsartPhase where
  | mode
  /-- A synchronization character, with another one to come or not. -/
  | character (another : Bool)
  | command
  deriving DecidableEq, Repr

structure Usart where
  phase : UsartPhase := .mode
  mode : Option Byte := none
  command : Option Byte := none
  deriving DecidableEq, Repr

/-- A byte on the control port. -/
def Usart.control (value : Byte) (usart : Usart) : Usart :=
  match usart.phase with
  | .mode =>
    -- The low bits choose the factor of the clock; 00 is synchronous operation.
    if value &&& 0x03#8 = 0#8 then
      { phase := .character (value &&& 0x80#8 = 0#8), mode := some value, command := none }
    else { phase := .command, mode := some value, command := none }
  | .character true => { usart with phase := .character false }
  | .character false => { usart with phase := .command }
  | .command => if value &&& 0x40#8 = 0#8 then { usart with command := some value } else {}

/-- Channel 2 of the timer. -/
structure PitChannel where
  /-- The last control word for the channel. -/
  controlWord : Byte := 0#8
  /-- The low byte of a count whose high byte is still to come. -/
  half : Option Byte := none
  count : Option Word := none
  deriving DecidableEq, Repr

/-- A byte on the control port, which all channels share. -/
def PitChannel.control (value : Byte) (channel : PitChannel) : PitChannel :=
  if value &&& 0xc0#8 ≠ 0x80#8 then channel
  -- Latching the count does not change how the channel works.
  else if value &&& 0x30#8 = 0#8 then channel
  else { controlWord := value, half := none, count := none }

/-- A byte on the channel's own port. -/
def PitChannel.load (value : Byte) (channel : PitChannel) : PitChannel :=
  if channel.controlWord &&& 0x30#8 = 0x30#8 then
    match channel.half with
    | none => { channel with half := some value }
    | some low => { channel with half := none, count := some (word low value) }
  else if channel.controlWord &&& 0x30#8 = 0x10#8 then { channel with count := some (word value 0#8) }
  else if channel.controlWord &&& 0x30#8 = 0x20#8 then { channel with count := some (word 0#8 value) }
  else channel

structure Chips where
  usart : Usart := {}
  channel : PitChannel := {}
  deriving DecidableEq, Repr

/-- What an access does to the chips, the UART having its control port at `control`. -/
def Chips.access (control : Word) (chips : Chips) : PortAccess → Chips
  | .read _ _ => chips
  | .write port value =>
    if port = control then { chips with usart := chips.usart.control value }
    else if port = 0x0077#16 then { chips with channel := chips.channel.control value }
    else if port = 0x0075#16 then { chips with channel := chips.channel.load value }
    else chips

/-! ## The reset -/

namespace Usart

variable {usart : Usart}

/-- Three zeros get any 8251 to where it takes commands: two may be taken for characters that
the first one asks for. -/
theorem control_zeros (usart : Usart) :
    (((usart.control 0x00#8).control 0x00#8).control 0x00#8).phase = .command := by
  obtain ⟨phase, mode, command⟩ := usart
  cases phase with
  | mode => rfl
  | character another => cases another <;> rfl
  | command => rfl

/-- Two are not enough. -/
example : ((control 0x00#8 {}).control 0x00#8).phase ≠ .command := by decide

theorem control_reset (takes : usart.phase = .command) : usart.control 0x40#8 = {} := by
  simp [control, takes]

/-- Whatever the chip was in, behind the zeros and the reset it is as after power-on. -/
theorem control_controlling (usart : Usart) (mode command : Byte) :
    (SerialPort.controlling mode command).foldl (fun usart value => usart.control value) usart =
      (control mode {}).control command := by
  simp only [SerialPort.controlling, List.foldl_cons, List.foldl_nil]
  rw [control_reset (control_zeros usart)]

/-- The chip works with this mode and this command. -/
def Runs (mode command : Byte) (usart : Usart) : Prop :=
  usart = { phase := .command, mode := some mode, command := some command }

instance (mode command : Byte) (usart : Usart) : Decidable (usart.Runs mode command) := by
  unfold Runs
  infer_instance

/-- A mode and a command that can be programmed by these two bytes: the mode is asynchronous, and
the command does not reset the chip again. -/
theorem runs_iff (mode command : Byte) : ((control mode {}).control command).Runs mode command ↔
    mode &&& 0x03#8 ≠ 0#8 ∧ command &&& 0x40#8 = 0#8 := by
  by_cases synchronous : mode &&& 0x03#8 = 0#8
  · -- The command is taken for the first character.
    refine iff_of_false (fun runs => ?_) fun programmed => programmed.1 synchronous
    have unset := congrArg Usart.command runs
    simp only [control, if_pos synchronous] at unset
    cases another : decide (mode &&& 0x80#8 = 0#8) <;> simp [another] at unset
  · by_cases resets : command &&& 0x40#8 = 0#8
    · exact iff_of_true (by simp [Runs, control, synchronous, resets]) ⟨synchronous, resets⟩
    · refine iff_of_false (fun runs => ?_) fun programmed => resets programmed.2
      simp [Runs, control, synchronous, resets] at runs

end Usart

/-- A control word and the two bytes of a count. -/
theorem PitChannel.programmed (channel : PitChannel) (count : Word) :
    ((channel.control 0xb6#8).load count.low).load count.high =
      { controlWord := 0xb6#8, half := none, count := some count } := by
  have programs : channel.control 0xb6#8 = { controlWord := 0xb6#8 } := rfl
  rw [programs]
  simp [load]

namespace Chips

variable {control : Word}

theorem controlled (chips : Chips) (values : List Byte) :
    (values.map (.write control)).foldl (access control) chips =
      { chips with usart := values.foldl (fun usart value => usart.control value) chips.usart } := by
  induction values generalizing chips with
  | nil => rfl
  | cons value values inductionHypothesis =>
    have first : access control chips (.write control value) =
        { chips with usart := chips.usart.control value } := if_pos rfl
    rw [List.map_cons, List.foldl_cons, first, inductionHypothesis]
    rfl

end Chips

/-- `pc98_serial_open` finds the chips as anyone left them.  Behind it channel 2 of the timer
divides by the configured count in mode 3; and the UART runs with the configured mode and
command exactly if that mode is an asynchronous one and that command does not reset it. -/
theorem open_programs_iff (serial : SerialPort) (chips : Chips)
    (apart : serial.statusPort ≠ 0x0075#16 ∧ serial.statusPort ≠ 0x0077#16) :
    ∃ accesses, serial.pc98SerialOpen.accesses = serial.accesses ++ accesses ∧
      let opened := accesses.foldl (Chips.access serial.statusPort) chips
      opened.channel = { controlWord := 0xb6#8, half := none, count := some serial.timerCount } ∧
      (opened.usart.Runs serial.mode serial.command ↔
        serial.mode &&& 0x03#8 ≠ 0#8 ∧ serial.command &&& 0x40#8 = 0#8) := by
  refine ⟨SerialPort.programming serial.toSettings, by rw [SerialPort.pc98SerialOpen_eq]; rfl, ?_⟩
  have counter : (0x0077#16 : Word) ≠ serial.statusPort := apart.2.symm
  have loader : (0x0075#16 : Word) ≠ serial.statusPort := apart.1.symm
  rw [SerialPort.programming, List.foldl_append, Chips.controlled, Usart.control_controlling]
  simp only [List.foldl_cons, List.foldl_nil, Chips.access, if_neg counter, if_neg loader]
  exact ⟨PitChannel.programmed chips.channel serial.timerCount, Usart.runs_iff serial.mode serial.command⟩

/-- The defaults, with the UART left in the middle of its synchronization characters. -/
theorem open_programs_default :
    ∃ accesses, (SerialPort.pc98SerialOpen {}).accesses = [] ++ accesses ∧
      let opened := accesses.foldl (Chips.access 0x0032#16) { usart := { phase := .character true } }
      opened.channel = { controlWord := 0xb6#8, half := none, count := some 0x0008#16 } ∧
      (opened.usart.Runs 0x02#8 0x27#8 ↔ (0x02#8 : Byte) &&& 0x03#8 ≠ 0#8 ∧ (0x27#8 : Byte) &&& 0x40#8 = 0#8) :=
  open_programs_iff {} { usart := { phase := .character true } } (by decide)

end ImeBridge
