import ImeBridge.Wire.Frame

/-! # The other two codecs

`host/ImeDosBridge/Protocol.cs` and `tools/protocol.py`, each with the widths of
its language: C# computes in `int` and cuts the results to `ushort`, Python has
integers without a bound.  An exception is the text it carries.  Both write the
same bytes as the codec of the DOS side, and accept the same strings with the
same fields.
-/

namespace ImeBridge

/-! ## `Packet` of `Protocol.cs` -/

namespace CSharp

def maxPayload : Nat := 512
def version : Byte := 1#8
def magic0 : Byte := 0x49#8
def magic1 : Byte := 0x44#8

/-- `WriteUInt16LittleEndian(buffer.AsSpan(offset), value)` -/
def writeUInt16LittleEndian (buffer : List Byte) (offset : Nat) (value : Word) : List Byte :=
  (buffer.set offset value.low).set (offset + 1) value.high

def readUInt16LittleEndian (source : List Byte) : Word := word (source.getD 0 0) (source.getD 1 0)

def slice (data : List Byte) (start length : Nat) : List Byte := (data.drop start).take length

/-- `source.CopyTo(buffer, offset)` -/
def copyTo (source buffer : List Byte) (offset : Nat) : List Byte :=
  buffer.take offset ++ source ++ buffer.drop (offset + source.length)

/-- One turn of the inner loop of `Crc16`; its operands are promoted to `int`. -/
def crcBit (crc : Word) : Word :=
  let promoted : BitVec 32 := crc.setWidth 32
  if promoted &&& 1#32 ≠ 0#32 then (promoted.sshiftRight 1 ^^^ 0xA001#32).setWidth 16
  else (promoted.sshiftRight 1).setWidth 16

def crcByte (crc : Word) (value : Byte) : Word :=
  crcBit^[8] ((crc.setWidth 32 ^^^ value.setWidth 32 : BitVec 32).setWidth 16)

def crc16 (data : List Byte) : Word := data.foldl crcByte 0xFFFF#16

/-- The record has the three fields of the DOS side's packet. -/
def encode (packet : Packet) : Except String (List Byte) :=
  if packet.payload.length > maxPayload then .error "Payload exceeds 512 bytes."
  else
    let result := List.replicate (10 + packet.payload.length) 0#8
    let result := result.set 0 magic0
    let result := result.set 1 magic1
    let result := result.set 2 version
    let result := result.set 3 packet.type
    let result := writeUInt16LittleEndian result 4 packet.sequence
    let result := writeUInt16LittleEndian result 6 (BitVec.ofNat 16 packet.payload.length)
    let result := copyTo packet.payload result 8
    .ok (writeUInt16LittleEndian result (8 + packet.payload.length)
      (crc16 (slice result 0 (8 + packet.payload.length))))

def decode (data : List Byte) : Except String Packet :=
  if data.length < 10 ∨ data.getD 0 0 ≠ magic0 ∨ data.getD 1 0 ≠ magic1 ∨ data.getD 2 0 ≠ version then
    .error "Invalid packet header."
  else
    let length := (readUInt16LittleEndian (slice data 6 2)).toNat
    if length > maxPayload ∨ data.length ≠ 10 + length then .error "Invalid packet length."
    else
      let expected := readUInt16LittleEndian (slice data (8 + length) 2)
      if expected ≠ crc16 (slice data 0 (8 + length)) then .error "CRC mismatch."
      else .ok {
        type := data.getD 3 0
        sequence := readUInt16LittleEndian (slice data 4 2)
        payload := slice data 8 length }

theorem crcBit_eq (crc : Word) : crcBit crc = ImeBridge.crcBit crc := by
  have odd : (crc.setWidth 32 &&& 1#32 ≠ 0#32) ↔ crc &&& 1#16 = 1#16 := by
    have cut : (crc.setWidth 32 &&& 1#32 : BitVec 32) = (crc &&& 1#16).setWidth 32 := by
      simp [BitVec.setWidth_and]
    rw [cut, BitVec.and_one_eq_setWidth_ofBool_getLsbD]
    cases crc.getLsbD 0 <;> decide
  -- A promoted operand is not negative, so the shift brings in zeros.
  have shifted : (crc.setWidth 32).sshiftRight 1 = (crc >>> 1).setWidth 32 := by
    rw [BitVec.sshiftRight_eq_of_msb_false (by simp [BitVec.msb_setWidth])]
    apply BitVec.eq_of_toNat_eq
    simp
  simp only [crcBit, ImeBridge.crcBit, odd, shifted, BitVec.setWidth_xor,
    BitVec.setWidth_setWidth_of_le _ (by decide : 16 ≤ 32), BitVec.setWidth_eq]
  rfl

theorem crc16_eq (data : List Byte) : crc16 data = imeCrc16 data := by
  have byte : crcByte = ImeBridge.crcByte := by
    funext crc value
    simp only [crcByte, ImeBridge.crcByte, BitVec.setWidth_xor,
      BitVec.setWidth_setWidth_of_le _ (by decide : 16 ≤ 32), BitVec.setWidth_eq, funext crcBit_eq]
  simp only [crc16, imeCrc16, byte]

/-- A word written over the two bytes behind `before`. -/
theorem writeUInt16LittleEndian_append (before after : List Byte) (first second : Byte) (value : Word) :
    writeUInt16LittleEndian (before ++ first :: second :: after) before.length value =
      before ++ value.low :: value.high :: after := by
  simp only [writeUInt16LittleEndian]
  rw [List.set_append_right _ _ (by omega), List.set_append_right _ _ (by omega)]
  simp

theorem copyTo_append (before room after source : List Byte) (fits : room.length = source.length) :
    copyTo source (before ++ (room ++ after)) before.length = before ++ source ++ after := by
  rw [copyTo, List.take_left, ← List.drop_drop, List.drop_left, List.drop_left' fits]

/-- The header and the checksum are written into a fresh buffer at fixed places. -/
theorem encode_eq (packet : Packet) (fits : packet.payload.length ≤ imeMaxPayload) :
    encode packet = .ok (packet.frame fits).bytes := by
  obtain ⟨type, sequence, payload⟩ := packet
  let frame := (Packet.mk type sequence payload).frame fits
  have fresh : List.replicate (10 + payload.length) 0#8 =
      List.replicate 8 0#8 ++ (List.replicate payload.length 0#8 ++ [0#8, 0#8]) := by
    rw [show 10 + payload.length = 8 + (payload.length + 2) by omega, List.replicate_add,
      List.replicate_add]
    rfl
  have header : ∀ rest length, writeUInt16LittleEndian (writeUInt16LittleEndian
      (((((List.replicate 8 0#8 ++ rest).set 0 magic0).set 1 magic1).set 2 version).set 3 type)
        4 sequence) 6 length =
      [magic0, magic1, version, type, sequence.low, sequence.high, Word.low length,
        Word.high length] ++ rest := fun rest length => rfl
  have copied := copyTo_append [magic0, magic1, version, type, sequence.low, sequence.high,
    Word.low (BitVec.ofNat 16 payload.length), Word.high (BitVec.ofNat 16 payload.length)]
    (List.replicate payload.length 0#8) [0#8, 0#8] payload List.length_replicate
  have covered : slice (frame.body ++ [0#8, 0#8]) 0 (8 + payload.length) = frame.body :=
    List.take_left' frame.length_body
  have sound : imeCrc16 frame.body = frame.crc := (Packet.frame_good _ fits).2.symm
  have sealed : writeUInt16LittleEndian (frame.body ++ [0#8, 0#8]) (8 + payload.length) frame.crc =
      frame.bytes := by
    rw [show 8 + payload.length = frame.body.length from frame.length_body.symm]
    exact writeUInt16LittleEndian_append frame.body [] 0#8 0#8 frame.crc
  have short : ¬ payload.length > maxPayload := Nat.not_lt.mpr fits
  simp only [encode, if_neg short, fresh, header]
  have body : copyTo payload _ 8 = frame.body ++ [0#8, 0#8] := copied
  rw [body, covered, crc16_eq, sound, sealed]

theorem readUInt16LittleEndian_slice (data : List Byte) (offset : Nat) :
    readUInt16LittleEndian (slice data offset 2) =
      word (data.getD offset 0) (data.getD (offset + 1) 0) := by
  simp [readUInt16LittleEndian, slice, List.getD_eq_getElem?_getD, List.getElem?_drop]

theorem decode_bytes (frame : Frame) :
    (decode frame.bytes).toOption = if frame.Good then some frame.packet else none := by
  obtain ⟨magic0, magic1, version, type, sequence, length⟩ := frame.header_bytes
  have fits := frame.fits
  have crc := frame.crc_bytes
  rw [show 9 + frame.payload.length = 8 + frame.payload.length + 1 by omega] at crc
  have covered : slice frame.bytes 0 (8 + frame.payload.length) = frame.body := frame.take_bytes
  have payload : slice frame.bytes 8 frame.payload.length = frame.payload := frame.payload_bytes
  simp only [decode, readUInt16LittleEndian_slice, magic0, magic1, version, type, sequence, length,
    frame.toNat_length, frame.length_bytes, crc, covered, payload, crc16_eq]
  split
  · rename_i header
    have foreign : frame.version ≠ imeVersion := by
      rintro current
      simp [current, CSharp.magic0, CSharp.magic1, CSharp.version, imeMagic0, imeMagic1, imeVersion] at header
    rw [if_neg fun good => foreign good.1]
    rfl
  rename_i header
  split
  · rename_i lengths
    simp only [maxPayload, imeMaxPayload] at lengths fits
    omega
  split
  · rename_i wrong
    rw [if_neg fun good => wrong good.2]
    rfl
  · rename_i sound
    simp only [not_or, not_not] at header sound
    rw [if_pos ⟨header.2.2.2, sound⟩]
    rfl

theorem exists_frame_of_decode {data : List Byte} (accepted : (decode data).toOption ≠ none) :
    ∃ frame : Frame, frame.bytes = data := by
  simp only [decode, readUInt16LittleEndian_slice] at accepted
  split at accepted
  · exact absurd rfl accepted
  rename_i header
  split at accepted
  · exact absurd rfl accepted
  rename_i lengths
  simp only [not_or, not_not] at header lengths
  exact exists_frame (by omega) header.2.1 header.2.2.1 (Nat.le_of_not_lt lengths.1) lengths.2

/-- `Decode` reads what the parser of the DOS side reads. -/
theorem decode_eq (data : List Byte) : (decode data).toOption = imePacketParse data := by
  rw [eq_imePacketParse id decode_bytes (fun _ => exists_frame_of_decode) data, Option.map_id, id]

end CSharp

/-! ## `tools/protocol.py` -/

namespace Python

def magic : List Byte := [0x49#8, 0x44#8]
def version : Nat := 1
def maxPayload : Nat := 512

/-- `HEADER.size` -/
def headerSize : Nat := 8

/-- `CRC.size` -/
def crcSize : Nat := 2

/-- The `B` of a `struct` format; the value is in range. -/
def packByte (value : Nat) : List Byte := [BitVec.ofNat 8 value]

/-- The `H` of a little-endian `struct` format; the value is in range. -/
def packWord (value : Nat) : List Byte := [BitVec.ofNat 8 value, BitVec.ofNat 8 (value / 256)]

def unpackByte (data : List Byte) (offset : Nat) : Nat := (data.getD offset 0).toNat

def unpackWord (data : List Byte) (offset : Nat) : Nat :=
  (data.getD offset 0).toNat + 256 * (data.getD (offset + 1) 0).toNat

/-- `data[start : stop]` -/
def slice (data : List Byte) (start stop : Nat) : List Byte := (data.drop start).take (stop - start)

def crcBit (value : Nat) : Nat :=
  if value &&& 1 ≠ 0 then (value >>> 1) ^^^ 0xA001 else value >>> 1

def crcByte (value : Nat) (byte : Byte) : Nat := crcBit^[8] (value ^^^ byte.toNat)

def crc16 (data : List Byte) : Nat := data.foldl crcByte 0xFFFF

theorem crcBit_eq (crc : Word) : crcBit crc.toNat = (ImeBridge.crcBit crc).toNat := by
  have odd : (crc.toNat &&& 1 ≠ 0) ↔ crc &&& 1#16 = 1#16 := by
    rw [← BitVec.toNat_inj]
    simp only [BitVec.toNat_and, BitVec.toNat_ofNat, Nat.reducePow, Nat.reduceMod, Nat.and_one_is_mod]
    omega
  simp only [crcBit, ImeBridge.crcBit, odd]
  split
  · simp
  · simp

theorem crc16_eq (data : List Byte) : crc16 data = (imeCrc16 data).toNat := by
  have bits : ∀ count (crc : Word), crcBit^[count] crc.toNat = (ImeBridge.crcBit^[count] crc).toNat := by
    intro count
    induction count with
    | zero => exact fun crc => rfl
    | succ count inductionHypothesis =>
      intro crc
      rw [Function.iterate_succ_apply, Function.iterate_succ_apply, crcBit_eq, inductionHypothesis]
  have byte : ∀ (crc : Word) (value : Byte),
      crcByte crc.toNat value = (ImeBridge.crcByte crc value).toNat := by
    intro crc value
    have bound := value.isLt
    rw [crcByte, ImeBridge.crcByte, ← bits, BitVec.toNat_xor, BitVec.toNat_setWidth,
      Nat.mod_eq_of_lt (by omega)]
  have fold : ∀ crc : Word, data.foldl crcByte crc.toNat = (data.foldl ImeBridge.crcByte crc).toNat := by
    induction data with
    | nil => exact fun crc => rfl
    | cons value data inductionHypothesis =>
      intro crc
      rw [List.foldl_cons, List.foldl_cons, byte, inductionHypothesis]
  exact fold 0xFFFF#16

structure Packet where
  kind : Int
  sequence : Int
  payload : List Byte
  deriving DecidableEq, Repr

def encode (packet : Packet) : Except String (List Byte) :=
  if ¬ (0 ≤ packet.kind ∧ packet.kind ≤ 255) then .error "packet type out of range"
  else if ¬ (0 ≤ packet.sequence ∧ packet.sequence ≤ 0xFFFF) then .error "sequence out of range"
  else if packet.payload.length > maxPayload then .error "payload exceeds negotiated maximum"
  else
    let header := magic ++ packByte version ++ packByte packet.kind.toNat ++
      packWord packet.sequence.toNat ++ packWord packet.payload.length
    .ok (header ++ packet.payload ++ packWord (crc16 (header ++ packet.payload)))

def decode (data : List Byte) : Except String Packet :=
  if data.length < headerSize + crcSize then .error "short packet"
  else
    let length := unpackWord data 6
    if slice data 0 2 ≠ magic ∨ unpackByte data 2 ≠ version then .error "invalid packet header"
    else if length > maxPayload ∨ data.length ≠ headerSize + length + crcSize then
      .error "invalid packet length"
    else
      let payload := slice data headerSize (headerSize + length)
      let actual := unpackWord data (headerSize + length)
      if actual ≠ crc16 (slice data 0 (headerSize + length)) then .error "CRC mismatch"
      else .ok {
        kind := unpackByte data 3
        sequence := unpackWord data 4
        payload := payload }

/-- The packet of the other two codecs, as integers. -/
def ofPacket (packet : ImeBridge.Packet) : Packet where
  kind := packet.type.toNat
  sequence := packet.sequence.toNat
  payload := packet.payload

theorem packWord_eq (value : Word) : packWord value.toNat = [value.low, value.high] := by
  have low : BitVec.ofNat 8 value.toNat = value.low := by
    simp [Word.low, BitVec.extractLsb']
  have high : BitVec.ofNat 8 (value.toNat / 256) = value.high := by
    simp [Word.high, BitVec.extractLsb', Nat.shiftRight_eq_div_pow]
  rw [packWord, low, high]

theorem unpackWord_eq (data : List Byte) (offset : Nat) :
    unpackWord data offset = (word (data.getD offset 0) (data.getD (offset + 1) 0)).toNat := by
  have low := (data.getD offset 0).isLt
  simp only [unpackWord, word, BitVec.toNat_append]
  rw [← Nat.shiftLeft_add_eq_or_of_lt low, Nat.shiftLeft_eq]
  omega

theorem encode_eq (packet : ImeBridge.Packet) (fits : packet.payload.length ≤ imeMaxPayload) :
    encode (ofPacket packet) = .ok (packet.frame fits).bytes := by
  have kind : 0 ≤ (ofPacket packet).kind ∧ (ofPacket packet).kind ≤ 255 := by
    have bound := packet.type.isLt
    simp only [ofPacket]
    omega
  have sequence : 0 ≤ (ofPacket packet).sequence ∧ (ofPacket packet).sequence ≤ 0xFFFF := by
    have bound := packet.sequence.isLt
    simp only [ofPacket]
    omega
  have short : ¬ (ofPacket packet).payload.length > maxPayload := Nat.not_lt.mpr fits
  have length : packWord packet.payload.length =
      [(packet.frame fits).length.low, (packet.frame fits).length.high] := by
    rw [← packWord_eq, Frame.toNat_length]
    rfl
  have header : magic ++ packByte version ++ packByte packet.type.toNat ++
      packWord packet.sequence.toNat ++ packWord packet.payload.length ++ packet.payload =
        (packet.frame fits).body := by
    have type : packByte packet.type.toNat = [packet.type] := by
      rw [packByte, BitVec.ofNat_toNat, BitVec.setWidth_eq]
    rw [length, packWord_eq, type]
    rfl
  rw [encode, if_neg (not_not.mpr kind), if_neg (not_not.mpr sequence), if_neg short]
  simp only [ofPacket, Int.toNat_natCast]
  rw [header, crc16_eq, packWord_eq, ← (packet.frame_good fits).2]
  rfl

theorem decode_bytes (frame : Frame) :
    (decode frame.bytes).toOption = if frame.Good then some (ofPacket frame.packet) else none := by
  obtain ⟨magic0, magic1, version, type, sequence, length⟩ := frame.header_bytes
  have fits := frame.fits
  have crc := frame.crc_bytes
  rw [show 9 + frame.payload.length = 8 + frame.payload.length + 1 by omega] at crc
  have opening : slice frame.bytes 0 2 = magic := rfl
  have covered : slice frame.bytes 0 (8 + frame.payload.length) = frame.body := frame.take_bytes
  have payload : slice frame.bytes 8 (8 + frame.payload.length) = frame.payload := by
    rw [slice, Nat.add_sub_cancel_left]
    exact frame.payload_bytes
  simp only [decode, unpackWord_eq, unpackByte, headerSize, crcSize, opening, version, type, sequence,
    length, frame.toNat_length, frame.length_bytes, crc, covered, payload, crc16_eq]
  split
  · omega
  split
  · rename_i header
    have foreign : frame.version ≠ imeVersion := by
      rintro current
      simp [current, Python.version, imeVersion] at header
    rw [if_neg fun good => foreign good.1]
    rfl
  rename_i header
  split
  · rename_i lengths
    simp only [maxPayload, imeMaxPayload] at lengths fits
    omega
  split
  · rename_i wrong
    rw [if_neg fun good => wrong (congrArg _ good.2)]
    rfl
  · rename_i sound
    simp only [not_or, not_not] at header sound
    rw [if_pos ⟨BitVec.eq_of_toNat_eq header.2, BitVec.eq_of_toNat_eq sound⟩]
    rfl

theorem exists_frame_of_decode {data : List Byte} (accepted : (decode data).toOption ≠ none) :
    ∃ frame : Frame, frame.bytes = data := by
  simp only [decode, unpackWord_eq, headerSize, crcSize, Nat.reduceAdd] at accepted
  split at accepted
  · exact absurd rfl accepted
  rename_i long
  split at accepted
  · exact absurd rfl accepted
  rename_i header
  split at accepted
  · exact absurd rfl accepted
  rename_i lengths
  simp only [not_or, not_not] at header lengths
  obtain ⟨b0, b1, b2, b3, b4, b5, b6, b7, rest, rfl⟩ := exists_header (by omega : 10 ≤ data.length)
  have opening : [b0, b1] = magic := header.1
  simp only [magic, List.cons.injEq, and_true] at opening
  exact exists_frame (by omega) opening.1 opening.2 (Nat.le_of_not_lt lengths.1)
    (by rw [lengths.2]; exact Nat.add_right_comm 8 _ 2)

/-- `decode` reads what the parser of the DOS side reads. -/
theorem decode_eq (data : List Byte) : (decode data).toOption = (imePacketParse data).map ofPacket :=
  eq_imePacketParse ofPacket decode_bytes (fun _ => exists_frame_of_decode) data

end Python

/-- One wire format: the three codecs write the same bytes for a payload that fits, and
read every string the same way, rejected ones included. -/
theorem codecs_agree :
    (∀ type sequence payload, payload.length ≤ imeMaxPayload →
      CSharp.encode ⟨type, sequence, payload⟩ = .ok (imePacketBuild type sequence payload) ∧
        Python.encode ⟨type.toNat, sequence.toNat, payload⟩ =
          .ok (imePacketBuild type sequence payload)) ∧
    ∀ data, (CSharp.decode data).toOption = imePacketParse data ∧
      (Python.decode data).toOption = (imePacketParse data).map Python.ofPacket := by
  refine ⟨fun type sequence payload fits => ?_, fun data => ?_⟩
  · rw [imePacketBuild_eq type sequence payload fits]
    have python := Python.encode_eq ⟨type, sequence, payload⟩ fits
    rw [Python.ofPacket] at python
    exact ⟨CSharp.encode_eq _ fits, python⟩
  · exact ⟨CSharp.decode_eq data, Python.decode_eq data⟩

end ImeBridge
