import ImeBridge.Machine.RealMode

/-! # The device driver IME98.SYS

`device_driver.S`, label by label.  `Cpu` has the registers its code addresses memory
with, the variables of the driver, and the memory outside the driver, where DOS keeps the
request header and its caller the buffer.  The registers the interrupt entry saves and
restores are left out.
-/

namespace ImeBridge.Device

/-! ## State -/

structure DriverState where
  openCount : Byte := 0#8
  lastCommand : Byte := 0xff#8
  sessionState : Byte := 0#8
  deriving DecidableEq, Repr

structure Driver extends DriverState where
  requestOffset : Word := 0#16
  requestSegment : Word := 0#16

/-- Where the driver is loaded, and the offset of its end. -/
structure Image where
  segment : Word
  residentEnd : Word

structure Cpu where
  es : Word
  bx : Word
  di : Word
  driver : Driver
  memory : RealMemory
  /-- What DOS was asked to show. -/
  printed : List String := []

namespace Cpu

variable (cpu : Cpu)

/-- A byte behind `%es:`. -/
def readByte (offset : Word) : Byte := cpu.memory.readByte cpu.es offset

def readWord (offset : Word) : Word := cpu.memory.readWord cpu.es offset

def writeWord (offset value : Word) : Cpu :=
  { cpu with memory := cpu.memory.writeWord cpu.es offset value }

/-- `movb` to `%es:0(%di)`, `%es:1(%di)` and so on. -/
def writeBytes (offset : Word) (values : List Byte) : Cpu :=
  { cpu with memory := cpu.memory.writeBytes cpu.es offset values }

/-- The three variables that are not pointers. -/
def update (change : DriverState → DriverState) : Cpu :=
  { cpu with driver := { cpu.driver with toDriverState := change cpu.driver.toDriverState } }

@[simp] theorem state_update (change : DriverState → DriverState) :
    (cpu.update change).driver.toDriverState = change cpu.driver.toDriverState := rfl

/-! ## The ends of a request -/

def strategyEntry : Cpu :=
  { cpu with driver := { cpu.driver with requestOffset := cpu.bx, requestSegment := cpu.es } }

def loadRequest : Cpu :=
  { cpu with bx := cpu.driver.requestOffset, es := cpu.driver.requestSegment }

def requestDone : Cpu := cpu.writeWord (cpu.bx + 3#16) 0x0100#16

/-- Nothing was transferred. -/
def refuse (status : Word) : Cpu :=
  let cpu := cpu.writeWord (cpu.bx + 18#16) 0#16
  cpu.writeWord (cpu.bx + 3#16) status

def badPacket : Cpu := cpu.loadRequest.refuse 0x810c#16

def badCommand : Cpu := cpu.loadRequest.refuse 0x8103#16

/-- ES:BX is the request header here. -/
def badLength : Cpu := cpu.refuse 0x8105#16

/-- The count is left alone. -/
def unsupportedCommand : Cpu := cpu.writeWord (cpu.bx + 3#16) 0x8103#16

/-! ## The requests -/

/-- The label `initialize`. -/
def initializeDriver (image : Image) : Cpu :=
  let cpu := cpu.writeWord (cpu.bx + 14#16) image.residentEnd
  let cpu := cpu.writeWord (cpu.bx + 16#16) image.segment
  let cpu := cpu.writeWord (cpu.bx + 3#16) 0x0100#16
  { cpu with printed := cpu.printed ++ ["IME98.SYS loaded (safe IOCTL v1)\r\n"] }

def deviceOpen : Cpu :=
  if cpu.driver.openCount = 0xff#8 then cpu.requestDone
  else (cpu.update fun state => { state with openCount := state.openCount + 1#8 }).requestDone

def deviceClose : Cpu :=
  if cpu.driver.openCount = 0x00#8 then cpu.requestDone
  else (cpu.update fun state => { state with openCount := state.openCount - 1#8 }).requestDone

def commandAccepted : Cpu :=
  let cpu := cpu.loadRequest
  (cpu.writeWord (cpu.bx + 18#16) 5#16).requestDone

def checkSessionClose (al : Byte) : Cpu :=
  if al ≠ 2#8 then cpu.commandAccepted
  else (cpu.update fun state => { state with sessionState := 0#8 }).commandAccepted

/-- Both addresses are loaded before ES is. -/
def loadBuffer : Cpu :=
  { cpu with di := cpu.readWord (cpu.bx + 14#16), es := cpu.readWord (cpu.bx + 16#16) }

def ioctlOutput : Cpu :=
  if cpu.readWord (cpu.bx + 18#16) < 5#16 then cpu.badLength
  else
    let cpu := cpu.loadBuffer
    -- 'I', '9', '8', version 1
    if cpu.readByte (cpu.di + 0#16) ≠ 0x49#8 then cpu.badPacket
    else if cpu.readByte (cpu.di + 1#16) ≠ 0x39#8 then cpu.badPacket
    else if cpu.readByte (cpu.di + 2#16) ≠ 0x38#8 then cpu.badPacket
    else if cpu.readByte (cpu.di + 3#16) ≠ 1#8 then cpu.badPacket
    else
      let al := cpu.readByte (cpu.di + 4#16)
      if al > 2#8 then cpu.badCommand
      else
        let cpu := cpu.update fun state => { state with lastCommand := al }
        if al ≠ 1#8 then cpu.checkSessionClose al
        else (cpu.update fun state => { state with sessionState := 1#8 }).commandAccepted

def ioctlInput : Cpu :=
  if cpu.readWord (cpu.bx + 18#16) < 8#16 then cpu.badLength
  else
    let cpu := cpu.loadBuffer
    let cpu := cpu.writeBytes cpu.di [0x49#8, 0x39#8, 0x38#8, 1#8, cpu.driver.openCount,
      cpu.driver.lastCommand, cpu.driver.sessionState, 0#8]
    let cpu := cpu.loadRequest
    (cpu.writeWord (cpu.bx + 18#16) 8#16).requestDone

def interruptEntry (image : Image) : Cpu :=
  let cpu := cpu.loadRequest
  let al := cpu.readByte (cpu.bx + 2#16)
  if al = 0x00#8 then cpu.initializeDriver image
  else if al = 0x03#8 then cpu.ioctlInput
  else if al = 0x0c#8 then cpu.ioctlOutput
  else if al = 0x0d#8 then cpu.deviceOpen
  else if al = 0x0e#8 then cpu.deviceClose
  else cpu.unsupportedCommand

end Cpu

/-! ## What DOS sees -/

/-- A call of the two entries: ES:BX for the strategy entry, and the registers and the memory
that the interrupt entry finds. -/
structure Call where
  segment : Word
  offset : Word
  es : Word
  bx : Word
  di : Word
  memory : RealMemory

namespace Call

variable (call : Call)

def command : Byte := call.memory.readByte call.segment (call.offset + 2#16)
def bufferOffset : Word := call.memory.readWord call.segment (call.offset + 14#16)
def bufferSegment : Word := call.memory.readWord call.segment (call.offset + 16#16)
def length : Word := call.memory.readWord call.segment (call.offset + 18#16)

/-- IOCTL input or output. -/
def IsIoctl : Prop := call.command = 0x03#8 ∨ call.command = 0x0c#8

instance : Decidable call.IsIoctl := by unfold IsIoctl; infer_instance

/-- The byte of an IOCTL output packet that tells the command. -/
def packetCommand : Byte := call.memory.readByte call.bufferSegment (call.bufferOffset + 4#16)

/-- The driver answers an IOCTL input in eight bytes of the caller's buffer, and DOS keeps the
twenty bytes of its request header elsewhere. -/
def Separate : Prop :=
  call.command = 0x03#8 → 8#16 ≤ call.length → ∀ index < 8, ∀ field < 20,
    linear call.bufferSegment (call.bufferOffset + BitVec.ofNat 16 index) ≠
      linear call.segment (call.offset + BitVec.ofNat 16 field)

instance : Decidable call.Separate := by unfold Separate; infer_instance

end Call

/-- A call of an IOCTL input does not ask for an answer in its own request header. -/
structure Request extends Call where
  separate : toCall.Separate

structure Reply where
  status : Word
  /-- Bytes transferred, of an IOCTL. -/
  count : Word
  /-- The first eight bytes of the buffer. -/
  buffer : List Byte
  deriving DecidableEq, Repr

/-- Bit 15 of the status is the error bit. -/
def Reply.Failed (reply : Reply) : Prop := reply.status.msb = true

instance (reply : Reply) : Decidable reply.Failed := by unfold Reply.Failed; infer_instance

/-- What DOS and its caller read when the driver is done. -/
def Call.reply (call : Call) (memory : RealMemory) : Reply where
  status := memory.readWord call.segment (call.offset + 3#16)
  count := memory.readWord call.segment (call.offset + 18#16)
  buffer := memory.readBytes call.bufferSegment call.bufferOffset 8

def Call.finish (call : Call) (image : Image) (driver : Driver) : Cpu :=
  let entered : Cpu := { es := call.segment, bx := call.offset, di := call.di, driver, memory := call.memory }
  { entered.strategyEntry with es := call.es, bx := call.bx }.interruptEntry image

def Driver.serve (image : Image) (call : Call) (driver : Driver) : Reply × Driver :=
  let cpu := call.finish image driver
  (call.reply cpu.memory, cpu.driver)

end ImeBridge.Device
