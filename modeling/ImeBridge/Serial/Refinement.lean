import ImeBridge.Resident.Serial
import ImeBridge.Serial.Handshake

/-! # The UART of the resident program

`Resident.Serial` takes the transmitter for a list of limits and the receiver for a list of
bytes.  Every conduct of the devices behind the ports is one that such lists describe.
-/

namespace ImeBridge

open Library

/-- The calls of the resident program, without its diagnostic ones. -/
inductive TransportCall where
  | serialOpen
  | serialClose
  | write (data : List Byte)
  | tryReadByte
  deriving DecidableEq, Repr

/-- What the caller gets, and for a write the bytes that reached the data port. -/
inductive TransportAnswer where
  | done
  | written (succeeded : Bool) (bytes : List Byte)
  | read (value : Option Byte)
  deriving DecidableEq, Repr

namespace TransportCall

/-- On the ports. -/
def onPorts (devices : Devices) (call : TransportCall) (serial : SerialPort) : TransportAnswer × SerialPort :=
  match call with
  | .serialOpen => (.done, serial.pc98SerialOpen)
  | .serialClose => (.done, serial.pc98SerialClose)
  | .write data =>
    let (succeeded, next) := serial.pc98SerialWrite devices data
    (.written succeeded (outputs (next.accesses.drop serial.accesses.length)), next)
  | .tryReadByte =>
    let (value, next) := serial.pc98SerialTryReadByte devices
    (.read value, next)

/-- In the model of the resident program. -/
def onMachine (call : TransportCall) (tsr : Tsr) : TransportAnswer × Tsr :=
  match call with
  | .serialOpen => (.done, ImeBridge.pc98SerialOpen tsr)
  | .serialClose => (.done, ImeBridge.pc98SerialClose tsr)
  | .write data =>
    let (succeeded, count, tsr) := ImeBridge.pc98SerialWrite data tsr
    (.written succeeded (data.take count), tsr)
  | .tryReadByte =>
    let (value, tsr) := ImeBridge.pc98SerialTryReadByte tsr
    (.read value, tsr)

end TransportCall

namespace TransportAnswer

/-- The byte that a read got. -/
def byte : TransportAnswer → Option Byte
  | .read value => value
  | .done | .written _ _ => none

/-- The bytes that were read. -/
def bytes (answers : List TransportAnswer) : List Byte := answers.filterMap byte

/-- Behind a read that got nothing no byte is read any more, as in `poll_transport`, which stops
there. -/
def Polls : List TransportAnswer → Prop
  | [] => True
  | .read none :: answers => bytes answers = [] ∧ Polls answers
  | _ :: answers => Polls answers

instance decidablePolls : (answers : List TransportAnswer) → Decidable (Polls answers)
  | [] => .isTrue trivial
  | .read none :: answers =>
    have := decidablePolls answers
    inferInstanceAs (Decidable (bytes answers = [] ∧ Polls answers))
  | .read (some _) :: answers | .done :: answers | .written _ _ :: answers => decidablePolls answers

end TransportAnswer

namespace Tsr

/-- The machine has these bytes waiting and stops its writes at these limits. -/
def facing (received : List Byte) (limits : List Nat) (tsr : Tsr) : Tsr :=
  { tsr with received := received, transmitLimits := limits }

end Tsr

namespace TransportCall

open TransportAnswer

/-- Both programs have the port open, or neither. -/
def Alike (serial : SerialPort) (tsr : Tsr) : Prop := serial.serialOpened = tsr.serialOpened

variable {devices : Devices} {serial : SerialPort} {tsr : Tsr}

/-- The transmitter stops behind the bytes that went out. -/
theorem write_simulated (alike : Alike serial tsr) (data : List Byte) :
    Alike (onPorts devices (.write data) serial).2 tsr ∧ ∀ received limits, ∃ limits',
      onMachine (.write data) (tsr.facing received limits') =
        ((onPorts devices (.write data) serial).1, tsr.facing received limits) := by
  cases opened : serial.serialOpened with
  | false =>
    have closed : tsr.serialOpened = false := alike.symm.trans opened
    have nothing : onPorts devices (.write data) serial = (.written false [], serial) := by
      simp [onPorts, SerialPort.pc98SerialWrite, opened, outputs]
    rw [nothing]
    refine ⟨alike, fun received limits => ⟨limits, ?_⟩⟩
    simp [onMachine, ImeBridge.pc98SerialWrite, Tsr.facing, closed]
  | true =>
    have isOpen : tsr.serialOpened = true := alike.symm.trans opened
    obtain ⟨accesses, outcome, written, sends, ends⟩ := SerialPort.writeLoop_spec devices data serial
    obtain ⟨out, few, succeeds⟩ := sends.outputs
    have wrote : (onPorts devices (.write data) serial).1 = .written outcome (data.take written) := by
      simp only [onPorts, SerialPort.pc98SerialWrite, opened, if_true, ends, SerialPort.accesses_access,
        List.drop_left, out]
    refine ⟨?_, fun received limits => ⟨written :: limits, ?_⟩⟩
    · simp only [Alike, onPorts, SerialPort.pc98SerialWrite, opened, if_true, ends, isOpen]
      exact opened
    · rw [wrote, succeeds]
      simp [onMachine, ImeBridge.pc98SerialWrite, Tsr.facing, isOpen, Nat.min_eq_right few]

/-- A read that got a byte took the first one waiting. -/
theorem tryReadByte_simulated (alike : Alike serial tsr) (later : List Byte)
    (last : (onPorts devices .tryReadByte serial).1 = .read none → later = []) :
    Alike (onPorts devices .tryReadByte serial).2 tsr ∧ ∀ limits,
      onMachine .tryReadByte
          (tsr.facing ((onPorts devices .tryReadByte serial).1.byte.toList ++ later) limits) =
        ((onPorts devices .tryReadByte serial).1, tsr.facing later limits) := by
  cases opened : serial.serialOpened with
  | false =>
    have closed : tsr.serialOpened = false := alike.symm.trans opened
    have nothing : onPorts devices .tryReadByte serial = (.read none, serial) := by
      simp [onPorts, SerialPort.pc98SerialTryReadByte, opened]
    rw [nothing]
    refine ⟨alike, fun limits => ?_⟩
    simp [onMachine, ImeBridge.pc98SerialTryReadByte, Tsr.facing, closed, byte]
  | true =>
    have isOpen : tsr.serialOpened = true := alike.symm.trans opened
    obtain ⟨status, ⟨-, ends⟩ | ⟨-, value, ends⟩⟩ := SerialPort.pc98SerialTryReadByte_spec devices opened
    · have nothing : onPorts devices .tryReadByte serial =
          (.read none, serial.access (SerialPort.statusReads serial.statusPort [status])) := by
        simp [onPorts, ends]
      obtain rfl := last (by rw [nothing])
      rw [nothing]
      refine ⟨opened.trans isOpen.symm, fun limits => ?_⟩
      simp [onMachine, ImeBridge.pc98SerialTryReadByte, Tsr.facing, isOpen, byte]
    · have taken : onPorts devices .tryReadByte serial = (.read (some value), serial.access
          (SerialPort.statusReads serial.statusPort [status] ++ [.read serial.dataPort value])) := by
        simp [onPorts, ends]
      rw [taken]
      refine ⟨opened.trans isOpen.symm, fun limits => ?_⟩
      simp [onMachine, ImeBridge.pc98SerialTryReadByte, Tsr.facing, isOpen, byte]

end TransportCall

namespace TransportAnswer

variable {answer : TransportAnswer} {answers : List TransportAnswer}

theorem bytes_cons : bytes (answer :: answers) = answer.byte.toList ++ bytes answers := by
  rw [bytes, List.filterMap_cons]
  cases answer.byte <;> rfl

theorem Polls.tail (polls : Polls (answer :: answers)) : Polls answers := by
  cases answer with
  | read value =>
    cases value with
    | none => exact polls.2
    | some value => exact polls
  | done | written => exact polls

theorem Polls.last (polls : Polls (answer :: answers)) (nothing : answer = .read none) : bytes answers = [] := by
  subst nothing
  exact polls.1

end TransportAnswer

open TransportCall TransportAnswer

/-- Whatever the devices behind the ports do while a run of the resident program reads until it
finds nothing, its calls get the answers that the model gives on one machine: the bytes that
are read wait in its receiver, and its transmitter stops where the devices do. -/
theorem ports_refine_machine (devices : Devices) (calls : List TransportCall) (serial : SerialPort) (tsr : Tsr)
    (alike : Alike serial tsr) (polls : Polls (Run.respond (onPorts devices) calls serial).1) :
    ∃ limits, (Run.respond (onPorts devices) calls serial).1 =
      (Run.respond onMachine calls
        (tsr.facing (bytes (Run.respond (onPorts devices) calls serial).1) limits)).1 := by
  induction calls generalizing serial tsr with
  | nil => exact ⟨[], rfl⟩
  | cons call calls inductionHypothesis =>
    rw [Run.respond_cons] at polls ⊢
    cases call with
    | serialOpen =>
      have next : Alike serial.pc98SerialOpen (ImeBridge.pc98SerialOpen tsr) := by
        rw [SerialPort.pc98SerialOpen_eq]
        rfl
      obtain ⟨limits, same⟩ := inductionHypothesis _ _ next polls
      exact ⟨limits, congrArg (List.cons .done) same⟩
    | serialClose =>
      have next : Alike serial.pc98SerialClose (ImeBridge.pc98SerialClose tsr) := rfl
      obtain ⟨limits, same⟩ := inductionHypothesis _ _ next polls
      exact ⟨limits, congrArg (List.cons .done) same⟩
    | write data =>
      obtain ⟨next, anyLimits⟩ := @write_simulated devices serial tsr alike data
      obtain ⟨later, same⟩ := inductionHypothesis _ tsr next polls.tail
      obtain ⟨limits, now⟩ := anyLimits (bytes (Run.respond (onPorts devices) calls
        (onPorts devices (.write data) serial).2).1) later
      refine ⟨limits, ?_⟩
      rw [show bytes _ = _ from bytes_cons, show ((onPorts devices (.write data) serial).1.byte).toList = [] from rfl,
        List.nil_append, Run.respond_cons, now, ← same]
    | tryReadByte =>
      obtain ⟨next, anyLimits⟩ := tryReadByte_simulated alike
        (bytes (Run.respond (onPorts devices) calls (onPorts devices .tryReadByte serial).2).1) polls.last
      obtain ⟨limits, same⟩ := inductionHypothesis _ tsr next polls.tail
      refine ⟨limits, ?_⟩
      rw [bytes_cons, Run.respond_cons, anyLimits limits, ← same]

/-- A receiver that always has the byte 55h and a transmitter that is always ready. -/
theorem ports_refine_machine_ready :
    ∃ limits, (Run.respond (onPorts fun _ port => if port = 0x32#16 then 0x03#8 else 0x55#8)
        [.serialOpen, .tryReadByte, .write [0x41#8]] {}).1 =
      (Run.respond onMachine [.serialOpen, .tryReadByte, .write [0x41#8]]
        (({} : Tsr).facing (bytes (Run.respond
          (onPorts fun _ port => if port = 0x32#16 then 0x03#8 else 0x55#8)
          [.serialOpen, .tryReadByte, .write [0x41#8]] {}).1) limits)).1 :=
  ports_refine_machine _ _ {} {} rfl (by decide)

end ImeBridge
