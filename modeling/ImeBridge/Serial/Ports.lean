import ImeBridge.Configuration.Line

/-! # COM1 by its ports

`serial_pc98.c` behind the loader, access by access.  What a read of a port returns may
depend on all accesses before it, so nothing is assumed of the devices.
-/

namespace ImeBridge

/-- An access to an I/O port. -/
inductive PortAccess where
  | read (port : Word) (value : Byte)
  | write (port : Word) (value : Byte)
  deriving DecidableEq, Repr

/-- What a port returns after these accesses, oldest first. -/
abbrev Devices := List PortAccess → Word → Byte

/-- The variables of `serial_pc98.c`. -/
structure SerialPort extends Settings where
  serialOpened : Bool := false
  serialError : String := "no error"
  /-- The accesses so far, oldest first; no variable of the program. -/
  accesses : List PortAccess := []

namespace SerialPort

section Accesses

variable (serial : SerialPort)

def access (accesses : List PortAccess) : SerialPort :=
  { serial with accesses := serial.accesses ++ accesses }

def portOut (port : Word) (value : Byte) : SerialPort := serial.access [.write port value]

def portIn (devices : Devices) (port : Word) : Byte × SerialPort :=
  let value := devices serial.accesses port
  (value, serial.access [.read port value])

/-- Reset an 8251 and give it its mode and its command. -/
def resetUsart (port : Word) (mode command : Byte) : SerialPort :=
  let serial := serial.portOut port 0x00#8
  let serial := serial.portOut port 0x00#8
  let serial := serial.portOut port 0x00#8
  let serial := serial.portOut port 0x40#8
  let serial := serial.portOut port mode
  serial.portOut port command

/-- Always returns 1. -/
def pc98SerialOpen : SerialPort :=
  let serial := serial.resetUsart serial.statusPort serial.mode serial.command
  -- PIT channel 2, low byte of the count first.
  let serial := serial.portOut 0x0077#16 0xb6#8
  let serial := serial.portOut 0x0075#16 serial.timerCount.low
  let serial := serial.portOut 0x0075#16 serial.timerCount.high
  { serial with serialOpened := true, serialError := "no error" }

def pc98SerialClose : SerialPort := { serial with serialOpened := false }

end Accesses

/-- `while (!(port_in(pc98_serial_status_port) & ready) && --timeout);` on the way out:
whether `timeout` is not zero. -/
def awaitReady (devices : Devices) (ready : Byte) : Nat → SerialPort → Bool × SerialPort
  | 0, serial => (false, serial)
  | timeout + 1, serial =>
    let (status, serial) := serial.portIn devices serial.statusPort
    -- The poll that spends the last of the budget still counts if it finds the bit.
    if status &&& ready = 0#8 then awaitReady devices ready timeout serial else (true, serial)

/-- The loop of `pc98_serial_write`. -/
def writeLoop (devices : Devices) : List Byte → SerialPort → Bool × SerialPort
  | [], serial => (true, serial)
  | value :: data, serial =>
    match serial.awaitReady devices 0x01#8 0x2000 with
    | (false, serial) => (false, { serial with serialError := "TX timeout" })
    | (true, serial) => writeLoop devices data (serial.portOut serial.dataPort value)

section Calls

variable (devices : Devices) (serial : SerialPort)

def pc98SerialWrite (data : List Byte) : Bool × SerialPort :=
  if serial.serialOpened then serial.writeLoop devices data else (false, serial)

def pc98SerialReadByte : Option Byte × SerialPort :=
  if serial.serialOpened then
    match serial.awaitReady devices 0x02#8 0xffff with
    | (false, serial) => (none, { serial with serialError := "RX timeout" })
    | (true, serial) => (serial.portIn devices serial.dataPort).map some id
  else (none, serial)

def pc98SerialTryReadByte : Option Byte × SerialPort :=
  if serial.serialOpened then
    let (status, serial) := serial.portIn devices serial.statusPort
    if status &&& 0x02#8 = 0#8 then (none, serial)
    else (serial.portIn devices serial.dataPort).map some id
  else (none, serial)

def pc98SerialStatus : Byte × SerialPort := serial.portIn devices serial.statusPort

def pc98SerialSystemPort : Byte × SerialPort := serial.portIn devices 0x0035#16

def pc98SerialPicMask : Byte × SerialPort := serial.portIn devices 0x0002#16

end Calls

end SerialPort

end ImeBridge
