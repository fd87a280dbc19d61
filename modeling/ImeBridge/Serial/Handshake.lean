import ImeBridge.Library.History
import ImeBridge.Library.Run
import ImeBridge.Serial.Ports

/-! # The handshake with the UART

Every byte waits for its own poll of the status port.  A poll loop that gives up has seen
the device not ready as often as its budget allows, and the call writes nothing more.
-/

namespace ImeBridge

open Library

namespace SerialPort

variable {devices : Devices} {serial : SerialPort}

@[simp] theorem accesses_access (accesses : List PortAccess) :
    (serial.access accesses).accesses = serial.accesses ++ accesses := rfl

@[simp] theorem toSettings_access (accesses : List PortAccess) :
    (serial.access accesses).toSettings = serial.toSettings := rfl

@[simp] theorem access_nil : serial.access [] = serial := by simp [access]

@[simp] theorem access_access (first later : List PortAccess) :
    (serial.access first).access later = serial.access (first ++ later) := by
  simp [access, List.append_assoc]

/-! ## What a call does on the ports -/

/-- The control bytes that reset an 8251 and program it. -/
def controlling (mode command : Byte) : List Byte := [0x00#8, 0x00#8, 0x00#8, 0x40#8, mode, command]

/-- The accesses of `pc98_serial_open`. -/
def programming (settings : Settings) : List PortAccess :=
  (controlling settings.mode settings.command).map (.write settings.statusPort) ++
    [.write 0x0077#16 0xb6#8, .write 0x0075#16 settings.timerCount.low,
      .write 0x0075#16 settings.timerCount.high]

theorem resetUsart_eq (serial : SerialPort) (port : Word) (mode command : Byte) :
    serial.resetUsart port mode command = serial.access ((controlling mode command).map (.write port)) := by
  simp [resetUsart, portOut, controlling]

theorem pc98SerialOpen_eq (serial : SerialPort) : serial.pc98SerialOpen =
    { serial.access (programming serial.toSettings) with serialOpened := true, serialError := "no error" } := by
  simp only [pc98SerialOpen, resetUsart_eq, portOut, access_access, programming]
  simp [access]

/-- The values that a loop of polls reads, and whether it ends on the bit it waits for. -/
inductive Polled (ready : Byte) (budget : Nat) : List Byte → Bool → Prop where
  | found {idle : List Byte} {status : Byte} (few : idle.length < budget)
      (waits : ∀ earlier ∈ idle, earlier &&& ready = 0#8) (isReady : status &&& ready ≠ 0#8) :
      Polled ready budget (idle ++ [status]) true
  | spent {idle : List Byte} (all : idle.length = budget) (waits : ∀ earlier ∈ idle, earlier &&& ready = 0#8) :
      Polled ready budget idle false

theorem Polled.length_le {ready : Byte} {budget : Nat} {polls : List Byte} {outcome : Bool}
    (polled : Polled ready budget polls outcome) : polls.length ≤ budget := by
  cases polled with
  | found few =>
    rw [List.length_append, List.length_singleton]
    exact few
  | spent all => exact all.le

/-- Reads of the status port. -/
def statusReads (port : Word) (polls : List Byte) : List PortAccess := polls.map (.read port)

theorem awaitReady_spec (devices : Devices) (ready : Byte) (budget : Nat) (serial : SerialPort) :
    ∃ polls outcome, Polled ready budget polls outcome ∧ serial.awaitReady devices ready budget =
      (outcome, serial.access (statusReads serial.statusPort polls)) := by
  induction budget generalizing serial with
  | zero => exact ⟨[], false, .spent rfl (by simp), by simp [awaitReady, statusReads]⟩
  | succ budget inductionHypothesis =>
    by_cases idle : devices serial.accesses serial.statusPort &&& ready = 0#8
    · -- One poll that finds nothing, and the rest of the loop.
      obtain ⟨polls, outcome, polled, same⟩ := inductionHypothesis
        (serial.portIn devices serial.statusPort).2
      refine ⟨devices serial.accesses serial.statusPort :: polls, outcome, ?_, ?_⟩
      · cases polled with
        | @found earlier status few waits isReady =>
          exact @Polled.found _ _ (devices serial.accesses serial.statusPort :: earlier) _
            (Nat.succ_lt_succ few) (List.forall_mem_cons.mpr ⟨idle, waits⟩) isReady
        | spent all waits =>
          exact .spent (congrArg Nat.succ all) (List.forall_mem_cons.mpr ⟨idle, waits⟩)
      · refine (if_pos idle).trans (same.trans ?_)
        simp [statusReads, portIn]
    · refine ⟨[devices serial.accesses serial.statusPort], true,
        @Polled.found _ _ [] _ budget.succ_pos (by simp) idle, ?_⟩
      exact if_neg idle

/-- The accesses of `pc98_serial_write`, its result and the number of bytes that go out. -/
inductive Sends (settings : Settings) : List Byte → List PortAccess → Bool → Nat → Prop where
  | done : Sends settings [] [] true 0
  | timeout {value : Byte} {data polls : List Byte} (polled : Polled 0x01#8 0x2000 polls false) :
      Sends settings (value :: data) (statusReads settings.statusPort polls) false 0
  | byte {value : Byte} {data polls : List Byte} {accesses : List PortAccess} {outcome : Bool} {written : Nat}
      (polled : Polled 0x01#8 0x2000 polls true) (rest : Sends settings data accesses outcome written) :
      Sends settings (value :: data)
        (statusReads settings.statusPort polls ++ .write settings.dataPort value :: accesses) outcome (written + 1)

theorem writeLoop_spec (devices : Devices) (data : List Byte) (serial : SerialPort) :
    ∃ accesses outcome written, Sends serial.toSettings data accesses outcome written ∧
      serial.writeLoop devices data = (outcome, { serial.access accesses with
        serialError := if outcome then serial.serialError else "TX timeout" }) := by
  induction data generalizing serial with
  | nil => exact ⟨[], true, 0, .done, by simp [writeLoop, access]⟩
  | cons value data inductionHypothesis =>
    obtain ⟨polls, found, polled, awaited⟩ := awaitReady_spec devices 0x01#8 0x2000 serial
    cases found with
    | false => exact ⟨_, false, 0, .timeout polled, by simp only [writeLoop, awaited]; rfl⟩
    | true =>
      obtain ⟨accesses, outcome, written, rest, ends⟩ := inductionHypothesis
        ((serial.access (statusReads serial.statusPort polls)).portOut serial.dataPort value)
      refine ⟨_, outcome, written + 1, .byte polled rest, ?_⟩
      simp only [writeLoop, awaited]
      refine ends.trans ?_
      simp [portOut, access]

/-! ## What is read off a call -/

end SerialPort

/-- The value that an access writes. -/
def PortAccess.output : PortAccess → Option Byte
  | .write _ value => some value
  | .read _ _ => none

/-- What a row of accesses writes. -/
def outputs (accesses : List PortAccess) : List Byte := accesses.filterMap PortAccess.output

@[simp] theorem outputs_append (first later : List PortAccess) :
    outputs (first ++ later) = outputs first ++ outputs later := List.filterMap_append

@[simp] theorem outputs_write (port : Word) (value : Byte) (accesses : List PortAccess) :
    outputs (.write port value :: accesses) = value :: outputs accesses := rfl

namespace SerialPort

/-- Waiting for a byte ends behind the last poll of the budget, or takes a byte behind a poll
that found one. -/
theorem pc98SerialReadByte_spec (devices : Devices) {serial : SerialPort} (opened : serial.serialOpened = true) :
    ∃ polls,
      (Polled 0x02#8 0xffff polls false ∧ serial.pc98SerialReadByte devices =
        (none, { serial.access (statusReads serial.statusPort polls) with serialError := "RX timeout" })) ∨
      (Polled 0x02#8 0xffff polls true ∧ ∃ value, serial.pc98SerialReadByte devices =
        (some value, serial.access (statusReads serial.statusPort polls ++ [.read serial.dataPort value]))) := by
  obtain ⟨polls, found, polled, awaited⟩ := awaitReady_spec devices 0x02#8 0xffff serial
  refine ⟨polls, ?_⟩
  rw [pc98SerialReadByte, opened, if_pos rfl, awaited]
  cases found with
  | false => exact .inl ⟨polled, rfl⟩
  | true => exact .inr ⟨polled, _, congrArg (Prod.mk _) (access_access _ _)⟩

/-- One poll, and a byte if it found one. -/
theorem pc98SerialTryReadByte_spec (devices : Devices) {serial : SerialPort}
    (opened : serial.serialOpened = true) : ∃ status,
      (status &&& 0x02#8 = 0#8 ∧ serial.pc98SerialTryReadByte devices =
        (none, serial.access (statusReads serial.statusPort [status]))) ∨
      (status &&& 0x02#8 ≠ 0#8 ∧ ∃ value, serial.pc98SerialTryReadByte devices =
        (some value, serial.access (statusReads serial.statusPort [status] ++ [.read serial.dataPort value]))) := by
  refine ⟨devices serial.accesses serial.statusPort, ?_⟩
  rw [pc98SerialTryReadByte, opened, if_pos rfl]
  by_cases idle : devices serial.accesses serial.statusPort &&& 0x02#8 = 0#8
  · exact .inl ⟨idle, if_pos idle⟩
  · exact .inr ⟨idle, _, (if_neg idle).trans (congrArg (Prod.mk _) (access_access _ _))⟩

variable {settings : Settings} {data : List Byte} {accesses : List PortAccess} {outcome : Bool} {written : Nat}

@[simp] theorem outputs_statusReads (port : Word) (polls : List Byte) : outputs (statusReads port polls) = [] := by
  induction polls with
  | nil => rfl
  | cons status polls inductionHypothesis => exact inductionHypothesis

/-- The bytes that go out are the first ones, and the call succeeds if they are all. -/
theorem Sends.outputs (sends : Sends settings data accesses outcome written) :
    ImeBridge.outputs accesses = data.take written ∧ written ≤ data.length ∧
      outcome = decide (data.length ≤ written) := by
  induction sends with
  | done => exact ⟨rfl, le_rfl, rfl⟩
  | timeout => exact ⟨by simp, Nat.zero_le _, rfl⟩
  | @byte value data polls accesses outcome written polled rest inductionHypothesis =>
    obtain ⟨out, few, all⟩ := inductionHypothesis
    refine ⟨?_, Nat.succ_le_succ few, ?_⟩
    · rw [outputs_append, outputs_statusReads, outputs_write, out]
      rfl
    · rw [all, List.length_cons]
      simp

/-- Each byte costs one budget of polls at most. -/
theorem Sends.length_le (sends : Sends settings data accesses outcome written) :
    accesses.length ≤ 0x2001 * data.length := by
  induction sends with
  | done => exact le_rfl
  | @timeout value data polls polled =>
    have few := polled.length_le
    rw [statusReads, List.length_map, List.length_cons]
    omega
  | @byte value data polls accesses outcome written polled rest inductionHypothesis =>
    have few := polled.length_le
    rw [List.length_append, statusReads, List.length_map, List.length_cons, List.length_cons]
    omega

/-! ## The handshake -/

/-- The data port is written only where the last access has found TxRDY, and read only where
it has found RxRDY. -/
def Handshake (settings : Settings) (before : List PortAccess) : PortAccess → Prop
  | .write port _ => port = settings.dataPort →
    ∃ status, before.getLast? = some (.read settings.statusPort status) ∧ status &&& 0x01#8 ≠ 0#8
  | .read port _ => port = settings.dataPort →
    ∃ status, before.getLast? = some (.read settings.statusPort status) ∧ status &&& 0x02#8 ≠ 0#8

end SerialPort

/-- The data port is none of the other ports that are used. -/
structure Settings.Apart (settings : Settings) : Prop where
  status : settings.statusPort ≠ settings.dataPort
  timer : 0x0075#16 ≠ settings.dataPort ∧ 0x0077#16 ≠ settings.dataPort
  diagnostic : 0x0035#16 ≠ settings.dataPort ∧ 0x0002#16 ≠ settings.dataPort

namespace SerialPort

section Apart

variable {settings : Settings} {before : List PortAccess}

/-- A poll that finds the bit is the last access. -/
theorem Polled.last {ready : Byte} {budget : Nat} {polls : List Byte} (polled : Polled ready budget polls true)
    (before : List PortAccess) (port : Word) : ∃ status,
      (before ++ statusReads port polls).getLast? = some (.read port status) ∧ status &&& ready ≠ 0#8 := by
  cases polled with
  | found few waits isReady => exact ⟨_, by simp [statusReads], isReady⟩

variable (apart : settings.Apart)
include apart

theorem Handshake.statusReads (shaken : History.Everywhere (Handshake settings) before) (polls : List Byte) :
    History.Everywhere (Handshake settings) (before ++ statusReads settings.statusPort polls) := by
  refine History.everywhere_append shaken fun earlier access member => ?_
  obtain ⟨status, -, rfl⟩ := List.mem_map.mp member
  exact fun isData => absurd isData apart.status

theorem Handshake.sends {data : List Byte} {accesses : List PortAccess} {outcome : Bool} {written : Nat}
    (shaken : History.Everywhere (Handshake settings) before)
    (sends : Sends settings data accesses outcome written) :
    History.Everywhere (Handshake settings) (before ++ accesses) := by
  induction sends generalizing before with
  | done => rwa [List.append_nil]
  | timeout => exact Handshake.statusReads apart shaken _
  | @byte value data polls accesses outcome written polled rest inductionHypothesis =>
    have writes : Handshake settings (before ++ SerialPort.statusReads settings.statusPort polls)
        (.write settings.dataPort value) := fun _ => polled.last before settings.statusPort
    have whole := inductionHypothesis
      (History.everywhere_concat.mpr ⟨Handshake.statusReads apart shaken polls, writes⟩)
    rwa [List.append_assoc, List.append_assoc] at whole

theorem Handshake.read {ready : Byte} {budget : Nat} {polls : List Byte} (isReceiver : ready = 0x02#8)
    (shaken : History.Everywhere (Handshake settings) before) (polled : Polled ready budget polls true)
    (value : Byte) : History.Everywhere (Handshake settings)
      (before ++ SerialPort.statusReads settings.statusPort polls ++ [.read settings.dataPort value]) := by
  subst isReceiver
  have reads : Handshake settings (before ++ SerialPort.statusReads settings.statusPort polls)
      (.read settings.dataPort value) := fun _ => polled.last before settings.statusPort
  exact History.everywhere_concat.mpr ⟨Handshake.statusReads apart shaken polls, reads⟩

end Apart

/-! ## Whole programs -/

end SerialPort

/-- The calls of `serial_pc98.c` that touch the ports. -/
inductive SerialCall where
  | serialOpen
  | serialClose
  | write (data : List Byte)
  | readByte
  | tryReadByte
  | status
  | systemPort
  | picMask
  deriving DecidableEq, Repr

namespace SerialCall

def apply (devices : Devices) (call : SerialCall) (serial : SerialPort) : SerialPort :=
  match call with
  | .serialOpen => serial.pc98SerialOpen
  | .serialClose => serial.pc98SerialClose
  | .write data => (serial.pc98SerialWrite devices data).2
  | .readByte => (serial.pc98SerialReadByte devices).2
  | .tryReadByte => (serial.pc98SerialTryReadByte devices).2
  | .status => (serial.pc98SerialStatus devices).2
  | .systemPort => (serial.pc98SerialSystemPort devices).2
  | .picMask => (serial.pc98SerialPicMask devices).2

/-- How many accesses the call makes at most. -/
def cost : SerialCall → Nat
  | .serialOpen => 9
  | .serialClose => 0
  | .write data => 0x2001 * data.length
  | .readByte => 0x10000
  | .tryReadByte => 2
  | .status | .systemPort | .picMask => 1

open SerialPort

/-- What a call does on the ports: it keeps to the handshake and to its cost. -/
structure Keeps (cost : Nat) (serial next : SerialPort) : Prop where
  settings : next.toSettings = serial.toSettings
  adds : ∃ accesses, next.accesses = serial.accesses ++ accesses ∧ accesses.length ≤ cost
  shaken : History.Everywhere (Handshake serial.toSettings) serial.accesses →
    History.Everywhere (Handshake serial.toSettings) next.accesses

variable {devices : Devices} {serial : SerialPort}

theorem Keeps.same (cost : Nat) : Keeps cost serial serial :=
  ⟨rfl, ⟨[], (List.append_nil _).symm, Nat.zero_le _⟩, id⟩

/-- Accesses to other ports than the data port are always right. -/
theorem Keeps.quiet {next : SerialPort} {cost : Nat} (same : next.toSettings = serial.toSettings)
    (accesses : List PortAccess) (adds : next.accesses = serial.accesses ++ accesses)
    (few : accesses.length ≤ cost)
    (elsewhere : ∀ access ∈ accesses, ∀ before, Handshake serial.toSettings before access) :
    Keeps cost serial next := by
  refine ⟨same, ⟨accesses, adds, few⟩, fun shaken => ?_⟩
  rw [adds]
  exact History.everywhere_append shaken fun before access member => elsewhere access member before

theorem portIn_keeps {port : Word} (other : port ≠ serial.dataPort) :
    Keeps 1 serial (serial.portIn devices port).2 := by
  refine .quiet rfl [_] (accesses_access _) le_rfl fun access member before => ?_
  cases List.mem_singleton.mp member
  exact fun isData => absurd isData other

theorem serialOpen_keeps (apart : serial.toSettings.Apart) : Keeps 9 serial serial.pc98SerialOpen := by
  have elsewhere {port : Word} (other : port ≠ serial.dataPort) (value : Byte) (before : List PortAccess) :
      Handshake serial.toSettings before (.write port value) := fun isData => absurd isData other
  rw [pc98SerialOpen_eq]
  refine .quiet rfl _ rfl (by simp [programming, controlling]) fun access member before => ?_
  rw [programming, List.mem_append] at member
  cases member with
  | inl control =>
    obtain ⟨value, -, rfl⟩ := List.mem_map.mp control
    exact elsewhere apart.status value before
  | inr timer =>
    simp only [List.mem_cons, List.not_mem_nil, or_false] at timer
    obtain rfl | rfl | rfl := timer
    · exact elsewhere apart.timer.2 _ before
    · exact elsewhere apart.timer.1 _ before
    · exact elsewhere apart.timer.1 _ before

variable (apart : serial.toSettings.Apart)
include apart

theorem write_keeps (data : List Byte) :
    Keeps (0x2001 * data.length) serial (serial.pc98SerialWrite devices data).2 := by
  cases opened : serial.serialOpened with
  | false =>
    rw [SerialPort.pc98SerialWrite, opened]
    exact .same _
  | true =>
    obtain ⟨accesses, outcome, written, sends, ends⟩ := writeLoop_spec devices data serial
    rw [SerialPort.pc98SerialWrite, opened, if_pos rfl, ends]
    exact ⟨rfl, ⟨accesses, rfl, sends.length_le⟩, fun shaken => Handshake.sends apart shaken sends⟩

theorem readByte_keeps : Keeps 0x10000 serial (serial.pc98SerialReadByte devices).2 := by
  cases opened : serial.serialOpened with
  | false =>
    rw [SerialPort.pc98SerialReadByte, opened]
    exact .same _
  | true =>
    obtain ⟨polls, ⟨polled, ends⟩ | ⟨polled, value, ends⟩⟩ := pc98SerialReadByte_spec devices opened
    · have few := polled.length_le
      rw [ends]
      refine ⟨rfl, ⟨_, rfl, ?_⟩, fun shaken => Handshake.statusReads apart shaken polls⟩
      rw [statusReads, List.length_map]
      omega
    · have few := polled.length_le
      rw [ends]
      refine ⟨rfl, ⟨_, rfl, ?_⟩, fun shaken => ?_⟩
      · rw [List.length_append, statusReads, List.length_map, List.length_singleton]
        omega
      · rw [accesses_access, ← List.append_assoc]
        exact Handshake.read apart rfl shaken polled value

theorem tryReadByte_keeps : Keeps 2 serial (serial.pc98SerialTryReadByte devices).2 := by
  cases opened : serial.serialOpened with
  | false =>
    rw [SerialPort.pc98SerialTryReadByte, opened]
    exact .same _
  | true =>
    obtain ⟨status, ⟨idle, ends⟩ | ⟨ready, value, ends⟩⟩ := pc98SerialTryReadByte_spec devices opened
    · rw [ends]
      exact ⟨rfl, ⟨_, rfl, Nat.le_succ 1⟩, fun shaken => Handshake.statusReads apart shaken [status]⟩
    · have polled : Polled 0x02#8 1 [status] true := @Polled.found _ _ [] _ Nat.one_pos (by simp) ready
      rw [ends]
      refine ⟨rfl, ⟨_, rfl, le_rfl⟩, fun shaken => ?_⟩
      rw [accesses_access, ← List.append_assoc]
      exact Handshake.read apart rfl shaken polled value

theorem apply_keeps (call : SerialCall) : Keeps call.cost serial (call.apply devices serial) := by
  cases call with
  | serialOpen => exact serialOpen_keeps apart
  | serialClose => exact ⟨rfl, ⟨[], (List.append_nil _).symm, le_rfl⟩, id⟩
  | write data => exact write_keeps apart data
  | readByte => exact readByte_keeps apart
  | tryReadByte => exact tryReadByte_keeps apart
  | status => exact portIn_keeps apart.status
  | systemPort => exact portIn_keeps apart.diagnostic.1
  | picMask => exact portIn_keeps apart.diagnostic.2

end SerialCall

/-- Whatever the devices answer, the program never writes a byte that the UART has not asked
for and never reads one that it has not announced, and the settings stay as configured.
From every state reached each further call returns after a bounded number of accesses. -/
theorem serial_keeps_handshake (devices : Devices) (settings : Settings) (apart : settings.Apart)
    (calls : List SerialCall) :
    let serial := Run.run (SerialCall.apply devices) calls { settings with }
    History.Everywhere (SerialPort.Handshake settings) serial.accesses ∧
      serial.toSettings = settings ∧
      (∀ call : SerialCall, ∃ accesses,
        (call.apply devices serial).accesses = serial.accesses ++ accesses ∧ accesses.length ≤ call.cost) ∧
      serial.accesses.length ≤ (calls.map SerialCall.cost).sum := by
  intro serial
  have costs : ∀ (state : SerialPort) (call : SerialCall),
      (state.toSettings = settings ∧ History.Everywhere (SerialPort.Handshake settings) state.accesses) →
      ((call.apply devices state).toSettings = settings ∧
          History.Everywhere (SerialPort.Handshake settings) (call.apply devices state).accesses) ∧
        (call.apply devices state).accesses.length ≤ state.accesses.length + call.cost := by
    rintro state call ⟨rfl, shaken⟩
    obtain ⟨same, ⟨accesses, adds, few⟩, stays⟩ :=
      @SerialCall.apply_keeps devices state apart call
    refine ⟨⟨same, stays shaken⟩, ?_⟩
    rw [adds, List.length_append]
    omega
  obtain ⟨⟨same, shaken⟩, total⟩ := @Run.run_cost _ _ (SerialCall.apply devices) _
    (fun state => state.accesses.length) SerialCall.cost costs calls { settings with }
    ⟨rfl, History.everywhere_nil⟩
  have apartStill : serial.toSettings.Apart := same ▸ apart
  exact ⟨shaken, same, fun call => (SerialCall.apply_keeps apartStill call).adds, by simpa using total⟩

/-- The ports of the normal RS-232C registers, and a UART that is never ready: a byte is given up
after its polls. -/
theorem serial_keeps_handshake_default :
    let serial := Run.run (SerialCall.apply fun _ _ => 0#8) [.serialOpen, .tryReadByte, .status] {}
    History.Everywhere (SerialPort.Handshake {}) serial.accesses ∧ serial.toSettings = {} ∧
      (∀ call : SerialCall, ∃ accesses,
        (call.apply (fun _ _ => 0#8) serial).accesses = serial.accesses ++ accesses ∧
          accesses.length ≤ call.cost) ∧
      serial.accesses.length ≤ 9 + (2 + (1 + 0)) :=
  serial_keeps_handshake (fun _ _ => 0#8) {} ⟨by decide, by decide, by decide⟩ [.serialOpen, .tryReadByte, .status]

end ImeBridge
