import ImeBridge.Client.Main
import ImeBridge.Device.Requests

/-! # The programs that use the driver

`ime98_control.c` and `device_test.c`, and the foreground client with what it does to IME98$.
DOS passes their calls of INT 21h on to the driver.
-/

namespace ImeBridge.Device

open Library

/-! ## INT 21h -/

/-- The calls of INT 21h that reach the driver. -/
inductive DosCall where
  /-- AX=3D02h -/
  | openDevice
  /-- AX=3E00h -/
  | closeDevice
  /-- AX=4402h -/
  | ioctlInput (length : Word)
  /-- AX=4403h -/
  | ioctlOutput (packet : List Byte)

def DosCall.command : DosCall → Byte
  | .openDevice => 0x0d#8
  | .closeDevice => 0x0e#8
  | .ioctlInput _ => 0x03#8
  | .ioctlOutput _ => 0x0c#8

/-- CX -/
def DosCall.length : DosCall → Word
  | .openDevice | .closeDevice => 0#16
  | .ioctlInput length => length
  | .ioctlOutput packet => BitVec.ofNat 16 packet.length

/-- DOS and where it keeps its request headers, the first call of INT 21h being number 0. -/
structure Kernel where
  image : Image
  request : Nat → DosCall → Request
  command_request : ∀ number call, (request number call).command = call.command
  length_request : ∀ number call, (request number call).IsIoctl → (request number call).length = call.length
  buffer_request : ∀ number packet, packet.length ≤ 2 ^ 16 →
    let made := request number (.ioctlOutput packet)
    made.memory.readBytes made.bufferSegment made.bufferOffset packet.length = packet
  /-- The handle for IME98$ beside those that are open, if there is a driver and a handle. -/
  handle : Nat → List Word → Option Word
  fresh : ∀ {number : Nat} {handles : List Word} {opened : Word}, handle number handles = some opened →
    opened ∉ handles
  /-- AX behind an IOCTL that transferred so many bytes. -/
  ax : Nat → Word → Word

/-- The driver, and DOS's side of it. -/
structure Station where
  driver : Driver := {}
  calls : Nat := 0
  /-- Those of IME98$. -/
  handles : List Word := []

namespace Station

variable (kernel : Kernel) (station : Station)

def serve (call : DosCall) : Reply × Station :=
  let (reply, driver) := station.driver.serve kernel.image (kernel.request station.calls call).toCall
  (reply, { station with driver := driver, calls := station.calls + 1 })

def openHandle : Option Word × Station :=
  match kernel.handle station.calls station.handles with
  | none => (none, { station with calls := station.calls + 1 })
  | some handle => (some handle, { (station.serve kernel .openDevice).2 with handles := handle :: station.handles })

def closeHandle (handle : Word) : Station :=
  if handle ∈ station.handles then
    { (station.serve kernel .closeDevice).2 with handles := station.handles.erase handle }
  else { station with calls := station.calls + 1 }

/-- AX and the first bytes of the buffer, unless the carry flag is set. -/
def ioctl (call : DosCall) (handle : Word) : Option (Word × List Byte) × Station :=
  if handle ∈ station.handles then
    let (reply, next) := station.serve kernel call
    (if reply.Failed then none else some (kernel.ax station.calls reply.count, reply.buffer), next)
  else (none, { station with calls := station.calls + 1 })

end Station

/-! ## `ime98_control.c` -/

/-- Its variables; nothing clears them when the program is loaded. -/
structure Control where
  deviceHandle : Word
  deviceIsOpen : Bool

structure Desk extends Station, Control

namespace Desk

variable (kernel : Kernel) (desk : Desk)

def ime98ControlOpen : Bool × Desk :=
  let desk : Desk := { desk with deviceIsOpen := false, deviceHandle := 0#16 }
  match desk.openHandle kernel with
  | (none, station) => (false, { desk with toStation := station })
  | (some handle, station) => (true, { toStation := station, deviceHandle := handle, deviceIsOpen := true })

/-- AX is only kept for a message. -/
def ime98ControlCommand (command : Byte) : Bool × Desk :=
  if !desk.deviceIsOpen then (false, desk)
  else
    let (answer, station) := desk.ioctl kernel (.ioctlOutput [0x49#8, 0x39#8, 0x38#8, 1#8, command])
      desk.deviceHandle
    (answer.isSome, { desk with toStation := station })

def ime98ControlClose : Desk :=
  if !desk.deviceIsOpen then desk
  else { desk with toStation := desk.closeHandle kernel desk.deviceHandle, deviceIsOpen := false }

/-- `close_session` of `main.c`, without the port. -/
def closeSession : Desk := ((desk.ime98ControlCommand kernel 2#8).2).ime98ControlClose kernel

end Desk

/-! ## The foreground client on the device -/

section Client

variable (kernel : Kernel) (surroundings : Surroundings)

/-- `main` up to the TEXT, with what it does to IME98$ on each of its ways out. -/
def receiveText (client : Client) (desk : Desk) : Option (List Byte) × Client × Desk :=
  match desk.ime98ControlOpen kernel with
  | (false, desk) => (none, client, desk)
  | (true, desk) =>
    match desk.ime98ControlCommand kernel 1#8 with
    | (false, desk) => (none, client.serialClose, desk.closeSession kernel)
    | (true, desk) =>
      match client.serialOpen.helloExchange with
      | (false, client) => (none, client.serialClose, desk.closeSession kernel)
      | (true, client) =>
        match client.exchange imePing 2#16 with
        | (none, client) => (none, client.serialClose, desk.closeSession kernel)
        | (some (type, _), client) =>
          if type ≠ imePong then (none, client.serialClose, desk.closeSession kernel)
          else
            match client.exchange imeOpenIme 3#16 with
            | (none, client) => (none, client.serialClose, desk.closeSession kernel)
            | (some (type, text), client) =>
              if type ≠ imeText then (none, client.serialClose, desk.closeSession kernel)
              else (some text, client.note (.received text), desk)

/-- `main` behind the TEXT, with its exit code. -/
def acknowledge (verifyInjection : Bool) (text : List Byte) (client : Client) (desk : Desk) : Nat × Client × Desk :=
  let client := if verifyInjection then (surroundings.pc98BiosInjectVerify text client).2 else client
  match client.serialWrite ⟨imeTextAck, 3#16, []⟩ (imePacketBuild imeTextAck 3#16 []) with
  | (false, client) => (1, client.serialClose, desk.closeSession kernel)
  | (true, client) =>
    let client := client.serialClose
    let desk := desk.closeSession kernel
    if verifyInjection then (0, client, desk)
    else
      match surroundings.inject text client with
      | (true, client) => (0, client, desk)
      | (false, client) => (1, client, desk)

def clientMain (argv : List (List Byte)) (desk : Desk) : Nat × Client × Desk :=
  match receiveText kernel surroundings.start desk with
  | (none, client, desk) => (1, client, desk)
  | (some text, client, desk) =>
    acknowledge kernel surroundings (Surroundings.verifyInjection argv) text client desk

end Client

/-! ## `device_test.c` -/

/-- `print_hex` -/
def printHex (value : Byte) : String :=
  let digits := "0123456789ABCDEF".toList
  String.ofList [digits.getD (value >>> 4).toNat '0', digits.getD (value &&& 0x0f#8).toNat '0']

/-- The bytes of `command_packet` with a command. -/
def commandPacket (command : Byte) : List Byte := [0x49#8, 0x39#8, 0x38#8, 1#8, command]

/-- The tests of the status packet. -/
def StatusOk (status : List Byte) : Prop :=
  status.getD 0 0#8 = 0x49#8 ∧ status.getD 1 0#8 = 0x39#8 ∧ status.getD 2 0#8 = 0x38#8 ∧
    status.getD 3 0#8 = 1#8 ∧ status.getD 4 0#8 ≠ 0#8 ∧ status.getD 5 0#8 = 1#8 ∧ status.getD 6 0#8 = 1#8

instance (status : List Byte) : Decidable (StatusOk status) := by unfold StatusOk; infer_instance

/-- `main` of `device_test.c`: the exit code and what is printed. -/
def deviceTest (kernel : Kernel) (station : Station) : Nat × List String × Station :=
  let title := "IME98 device IOCTL test\r\n"
  match station.openHandle kernel with
  | (none, station) => (1, [title, "FAIL: cannot open IME98$\r\n"], station)
  | (some handle, station) =>
    match station.ioctl kernel (.ioctlOutput (commandPacket 1#8)) handle with
    | (none, station) => (1, [title, "FAIL: IOCTL output\r\n"], station.closeHandle kernel handle)
    | (some (transferred, _), station) =>
      if transferred ≠ 5#16 then (1, [title, "FAIL: IOCTL output\r\n"], station.closeHandle kernel handle)
      else
        match station.ioctl kernel (.ioctlInput 8#16) handle with
        | (none, station) => (1, [title, "FAIL: IOCTL input\r\n"], station.closeHandle kernel handle)
        | (some (transferred, status), station) =>
          if transferred ≠ 8#16 ∨ ¬ StatusOk status then
            (1, [title, "FAIL: IOCTL input\r\n"], station.closeHandle kernel handle)
          else
            let passed := "PASS: version=" ++ printHex (status.getD 3 0#8) ++ " open-count=" ++
              printHex (status.getD 4 0#8) ++ " command=" ++ printHex (status.getD 5 0#8) ++ "\r\n"
            match station.ioctl kernel (.ioctlOutput (commandPacket 2#8)) handle with
            | (none, station) =>
              (1, [title, passed, "FAIL: IOCTL session close\r\n"], station.closeHandle kernel handle)
            | (some (transferred, _), station) =>
              if transferred ≠ 5#16 then
                (1, [title, passed, "FAIL: IOCTL session close\r\n"], station.closeHandle kernel handle)
              else (0, [title, passed], station.closeHandle kernel handle)

end ImeBridge.Device
