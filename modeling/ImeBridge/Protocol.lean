import ImeBridge.Machine.Memory

/-! # The packet codec of the DOS side

`dos/include/protocol.h` and `dos/common/protocol.c`.  A buffer and its 16-bit
length are one list; `imePacketBuild` returns the bytes it wrote, none standing
for its return value 0.
-/

namespace ImeBridge

def imeMagic0 : Byte := 0x49#8
def imeMagic1 : Byte := 0x44#8
def imeVersion : Byte := 1#8
def imeMaxPayload : Nat := 512

@[simp] abbrev imeHello : Byte := 1#8
@[simp] abbrev imePing : Byte := 2#8
@[simp] abbrev imePong : Byte := 3#8
@[simp] abbrev imeOpenIme : Byte := 4#8
@[simp] abbrev imeText : Byte := 5#8
@[simp] abbrev imeTextAck : Byte := 6#8
@[simp] abbrev imeCloseIme : Byte := 7#8
@[simp] abbrev imeKey : Byte := 8#8
@[simp] abbrev imeKeyAck : Byte := 9#8

abbrev imeKeyEnter : Byte := 1#8
abbrev imeKeyLeft : Byte := 2#8
abbrev imeKeyRight : Byte := 3#8
abbrev imeKeyUp : Byte := 4#8
abbrev imeKeyDown : Byte := 5#8
abbrev imeKeyBackspace : Byte := 6#8

/-- What a parsed packet carries; any byte may stand as its type. -/
structure Packet where
  type : Byte
  sequence : Word
  payload : List Byte
  deriving DecidableEq, Repr

/-- One turn of the inner loop of `ime_crc16`. -/
def crcBit (crc : Word) : Word :=
  if crc &&& 1#16 = 1#16 then (crc >>> 1) ^^^ 0xA001#16 else crc >>> 1

def crcByte (crc : Word) (value : Byte) : Word :=
  crcBit^[8] (crc ^^^ value.setWidth 16)

def imeCrc16 (data : List Byte) : Word := data.foldl crcByte 0xFFFF#16

def imePacketBuild (type : Byte) (sequence : Word) (payload : List Byte) : List Byte :=
  if payload.length > imeMaxPayload then []
  else
    let payloadLength : Word := BitVec.ofNat 16 payload.length
    let out := [imeMagic0, imeMagic1, imeVersion, type, sequence.low, sequence.high,
      payloadLength.low, payloadLength.high] ++ payload
    let crc := imeCrc16 out
    out ++ [crc.low, crc.high]

def imePacketParse (packet : List Byte) : Option Packet :=
  if packet.length < 10 ∨ packet.getD 0 0 ≠ imeMagic0 ∨ packet.getD 1 0 ≠ imeMagic1 ∨
      packet.getD 2 0 ≠ imeVersion then none
  else
    let length := word (packet.getD 6 0) (packet.getD 7 0)
    let expected := 10#16 + length
    if length.toNat > imeMaxPayload ∨ packet.length ≠ expected.toNat then none
    else
      let actual := word (packet.getD (8 + length.toNat) 0) (packet.getD (9 + length.toNat) 0)
      if actual ≠ imeCrc16 (packet.take (8 + length.toNat)) then none
      else some {
        type := packet.getD 3 0
        sequence := word (packet.getD 4 0) (packet.getD 5 0)
        payload := (packet.drop 8).take length.toNat }

theorem length_imePacketBuild (type : Byte) (sequence : Word) {payload : List Byte}
    (fits : payload.length ≤ imeMaxPayload) :
    (imePacketBuild type sequence payload).length = 10 + payload.length := by
  simp [imePacketBuild, Nat.not_lt.mpr fits]
  omega

/-- Every packet the parser accepts fits the staging buffer. -/
theorem length_payload_of_parse {packet : List Byte} {parsed : Packet}
    (accepted : imePacketParse packet = some parsed) : parsed.payload.length ≤ imeMaxPayload := by
  simp only [imePacketParse] at accepted
  split at accepted
  · contradiction
  split at accepted
  · contradiction
  rename_i lengthOk
  split at accepted
  · contradiction
  cases accepted
  simp only [List.length_take]
  omega

example : imeCrc16 [0x31, 0x32, 0x33, 0x34, 0x35, 0x36, 0x37, 0x38, 0x39] = 0x4B37#16 := by
  decide +kernel

end ImeBridge
