import ImeBridge.Protocol

/-! # Frames on the wire

What the packet codec means: a frame is the magic, a version, the fields of a
packet, its length and a checksum, and the bytes of a frame are fixed by these.
The parser accepts exactly the frames of this version whose checksum is right,
and the builder writes exactly those.
-/

namespace ImeBridge

/-- A frame with any version and any checksum; its length field tells the truth. -/
structure Frame where
  version : Byte
  type : Byte
  sequence : Word
  payload : List Byte
  crc : Word
  fits : payload.length ≤ imeMaxPayload

namespace Frame

variable (frame : Frame)

def length : Word := BitVec.ofNat 16 frame.payload.length

/-- All that the checksum covers. -/
def body : List Byte :=
  [imeMagic0, imeMagic1, frame.version, frame.type, frame.sequence.low, frame.sequence.high,
    frame.length.low, frame.length.high] ++ frame.payload

def bytes : List Byte := frame.body ++ [frame.crc.low, frame.crc.high]

def packet : Packet where
  type := frame.type
  sequence := frame.sequence
  payload := frame.payload

/-- This version, and the checksum of its own bytes. -/
def Good : Prop := frame.version = imeVersion ∧ frame.crc = imeCrc16 frame.body

instance decidableGood : Decidable frame.Good := by unfold Good; infer_instance

theorem toNat_length : frame.length.toNat = frame.payload.length := by
  have fits := frame.fits
  simp only [imeMaxPayload] at fits
  simp only [length, BitVec.toNat_ofNat]
  omega

@[simp] theorem length_body : frame.body.length = 8 + frame.payload.length := by
  simp [body]
  omega

@[simp] theorem length_bytes : frame.bytes.length = 10 + frame.payload.length := by
  simp [bytes]
  omega

theorem take_bytes : frame.bytes.take (8 + frame.payload.length) = frame.body := by
  rw [bytes, ← length_body, List.take_left]

theorem payload_bytes : (frame.bytes.drop 8).take frame.payload.length = frame.payload := by
  simp [bytes, body]

theorem crc_bytes : word (frame.bytes.getD (8 + frame.payload.length) 0)
    (frame.bytes.getD (9 + frame.payload.length) 0) = frame.crc := by
  have low : frame.bytes.getD (8 + frame.payload.length) 0 = frame.crc.low := by
    simp [bytes, List.getD_eq_getElem?_getD]
  have high : frame.bytes.getD (9 + frame.payload.length) 0 = frame.crc.high := by
    rw [bytes, List.getD_eq_getElem?_getD, List.getElem?_append_right (by simp), length_body,
      show 9 + frame.payload.length - (8 + frame.payload.length) = 1 by omega]
    rfl
  rw [low, high, word_low_high]

theorem header_bytes : frame.bytes.getD 0 0 = imeMagic0 ∧ frame.bytes.getD 1 0 = imeMagic1 ∧
    frame.bytes.getD 2 0 = frame.version ∧ frame.bytes.getD 3 0 = frame.type ∧
    word (frame.bytes.getD 4 0) (frame.bytes.getD 5 0) = frame.sequence ∧
    word (frame.bytes.getD 6 0) (frame.bytes.getD 7 0) = frame.length := by
  simp [bytes, body]

/-- The length of the whole packet, in a word. -/
theorem toNat_total : (10#16 + frame.length).toNat = 10 + frame.payload.length := by
  have fits := frame.fits
  have lengthNat := frame.toNat_length
  simp only [imeMaxPayload] at fits
  bv_omega

theorem getD_front {front rest : List Byte} (split : front ++ rest = frame.bytes) {index : Nat}
    (inside : index < front.length) : front.getD index 0 = frame.bytes.getD index 0 := by
  rw [← split, List.getD_eq_getElem?_getD, List.getD_eq_getElem?_getD, List.getElem?_append_left inside]

/-- With the header the length field is there. -/
theorem length_front {front rest : List Byte} (split : front ++ rest = frame.bytes)
    (header : 8 ≤ front.length) : word (front.getD 6 0) (front.getD 7 0) = frame.length := by
  rw [frame.getD_front split (by omega), frame.getD_front split (by omega)]
  exact frame.header_bytes.2.2.2.2.2

theorem magic_front {front rest : List Byte} (split : front ++ rest = frame.bytes) :
    front.take 2 <+: [imeMagic0, imeMagic1] := by
  have begins := (List.prefix_append front rest).take 2
  rw [split] at begins
  exact begins

/-- A byte of the header is not the last one. -/
theorem more_behind {front rest : List Byte} {value : Byte} (split : front ++ value :: rest = frame.bytes)
    (header : front.length < 8) : rest ≠ [] := by
  have lengths := congrArg List.length split
  simp only [List.length_append, List.length_cons, length_bytes] at lengths
  rintro rfl
  simp only [List.length_nil] at lengths
  omega

/-- The last byte is the one with which the length is reached. -/
theorem last_iff {front rest : List Byte} {value : Byte} (split : front ++ value :: rest = frame.bytes) :
    rest = [] ↔ front.length + 1 = (10#16 + frame.length).toNat := by
  have lengths := congrArg List.length split
  have sum := frame.toNat_total
  simp only [List.length_append, List.length_cons, length_bytes] at lengths
  rw [← List.length_eq_zero_iff]
  omega

theorem total_le : ¬ 10#16 + frame.length > 522#16 := by
  have fits := frame.fits
  have sum := frame.toNat_total
  simp only [imeMaxPayload] at fits
  bv_omega

theorem total_ne_zero : 10#16 + frame.length ≠ 0#16 := by
  have sum := frame.toNat_total
  bv_omega

/-- The parser looks at the version and the checksum of a frame, and at nothing else. -/
theorem imePacketParse_bytes :
    imePacketParse frame.bytes = if frame.Good then some frame.packet else none := by
  obtain ⟨magic0, magic1, version, type, sequence, length⟩ := frame.header_bytes
  have fits := frame.fits
  simp only [imeMaxPayload] at fits
  have expected : (10#16 + frame.length).toNat = frame.bytes.length := by
    rw [frame.toNat_total, length_bytes]
  simp only [imePacketParse, magic0, magic1, version, type, sequence, length, toNat_length,
    crc_bytes, take_bytes, payload_bytes, expected]
  by_cases current : frame.version = imeVersion
  · by_cases sound : frame.crc = imeCrc16 frame.body
    · simp [current, sound, Good, imeMaxPayload, fits, packet]
    · simp [current, sound, Good]
  · simp [current, Good]

end Frame

/-! ## Length fields that are too large -/

/-- Ten bytes more are too many, unless their number does not fit in a word. -/
theorem oversized_sum {length : Word} (oversized : 512 < length.toNat) :
    10#16 + length > 522#16 ↔ length ≤ 0xFFF5#16 := by
  bv_omega

/-- A number that does not fit may be that of a header. -/
theorem header_sum {length : Word} : 8 = (10#16 + length).toNat ↔ length = 0xFFFE#16 := by bv_omega

theorem header_sum_ne_zero {length : Word} (wraps : 8 = (10#16 + length).toNat) : 10#16 + length ≠ 0#16 := by
  bv_omega

/-- The tests for the first two bytes of a packet let the magic pass. -/
theorem magic_passes {held : List Byte} {value : Byte}
    (magic : (held ++ [value]).take 2 <+: [imeMagic0, imeMagic1]) :
    ¬ (held.length = 0 ∧ value ≠ imeMagic0) ∧ ¬ (held.length = 1 ∧ value ≠ imeMagic1) := by
  constructor
  · rintro ⟨empty, other⟩
    rw [List.length_eq_zero_iff.mp empty] at magic
    simp [other] at magic
  · rintro ⟨one, other⟩
    obtain ⟨byte0, rfl⟩ := List.length_eq_one_iff.mp one
    simp [other] at magic

/-- The frame of a packet, as the builder fills it in. -/
def Packet.frame (packet : Packet) (fits : packet.payload.length ≤ imeMaxPayload) : Frame :=
  let unsealed : Frame := {
    version := imeVersion
    type := packet.type
    sequence := packet.sequence
    payload := packet.payload
    crc := 0#16
    fits := fits }
  { unsealed with crc := imeCrc16 unsealed.body }

theorem Packet.frame_good (packet : Packet) (fits : packet.payload.length ≤ imeMaxPayload) :
    (packet.frame fits).Good := by
  constructor
  · rfl
  · -- The checksum is no part of the body it covers.
    simp only [frame, Frame.body, Frame.length]

/-- A good frame is the frame of its packet. -/
theorem Frame.Good.eq_frame {frame : Frame} (good : frame.Good) :
    frame.packet.frame frame.fits = frame := by
  obtain ⟨version, type, sequence, payload, crc, fits⟩ := frame
  obtain ⟨rfl, sound⟩ := good
  simp only [Packet.frame, Frame.packet, Frame.mk.injEq, true_and]
  exact sound.symm

theorem imePacketBuild_eq (type : Byte) (sequence : Word) (payload : List Byte)
    (fits : payload.length ≤ imeMaxPayload) :
    imePacketBuild type sequence payload = ((Packet.mk type sequence payload).frame fits).bytes := by
  simp [imePacketBuild, Nat.not_lt.mpr fits, Frame.bytes, Frame.body, Frame.length, Packet.frame]

/-- A string of ten bytes or more has the eight bytes of a header. -/
theorem exists_header {data : List Byte} (long : 10 ≤ data.length) :
    ∃ b0 b1 b2 b3 b4 b5 b6 b7 rest, data = [b0, b1, b2, b3, b4, b5, b6, b7] ++ rest := by
  rcases data with _ | ⟨b0, _ | ⟨b1, _ | ⟨b2, _ | ⟨b3, _ | ⟨b4, _ | ⟨b5, _ | ⟨b6, _ | ⟨b7, rest⟩⟩⟩⟩⟩⟩⟩⟩
  all_goals simp at long
  exact ⟨b0, b1, b2, b3, b4, b5, b6, b7, rest, rfl⟩

/-- A string with the magic whose length field gives its own length is a frame. -/
theorem exists_frame {data : List Byte} (long : 10 ≤ data.length) (magic0 : data.getD 0 0 = imeMagic0)
    (magic1 : data.getD 1 0 = imeMagic1)
    (fits : (word (data.getD 6 0) (data.getD 7 0)).toNat ≤ imeMaxPayload)
    (exact : data.length = 10 + (word (data.getD 6 0) (data.getD 7 0)).toNat) :
    ∃ frame : Frame, frame.bytes = data := by
  obtain ⟨b0, b1, b2, b3, b4, b5, b6, b7, rest, rfl⟩ := exists_header long
  simp only [List.getD_eq_getElem?_getD, List.cons_append, List.getElem?_cons_zero,
    List.getElem?_cons_succ, Option.getD_some, List.nil_append, List.length_cons] at magic0 magic1 fits exact
  have restLength : rest.length = (word b6 b7).toNat + 2 := by omega
  -- What follows the header is the payload and two bytes.
  obtain ⟨low, high, tail⟩ : ∃ low high, rest.drop (word b6 b7).toNat = [low, high] := by
    apply List.length_eq_two.mp
    simp [restLength]
  have payloadLength : (rest.take (word b6 b7).toNat).length = (word b6 b7).toNat := by
    simp [restLength]
  refine ⟨{
    version := b2
    type := b3
    sequence := word b4 b5
    payload := rest.take (word b6 b7).toNat
    crc := word low high
    fits := by rw [payloadLength]; exact fits }, ?_⟩
  simp only [Frame.bytes, Frame.body, Frame.length, payloadLength, BitVec.ofNat_toNat,
    BitVec.setWidth_eq, low_word, high_word, magic0, magic1]
  rw [List.append_assoc, ← tail, List.take_append_drop]

/-- The parser accepts nothing but good frames. -/
theorem exists_frame_of_parse {data : List Byte} {parsed : Packet}
    (accepted : imePacketParse data = some parsed) :
    ∃ frame : Frame, frame.bytes = data ∧ frame.Good ∧ frame.packet = parsed := by
  have framed : ∃ frame : Frame, frame.bytes = data := by
    simp only [imePacketParse] at accepted
    split at accepted
    · contradiction
    rename_i header
    split at accepted
    · contradiction
    rename_i lengths
    simp only [not_or, not_not, imeMaxPayload] at header lengths
    refine exists_frame (by omega) header.2.1 header.2.2.1 (by simp only [imeMaxPayload]; omega) ?_
    -- The 16-bit sum of the code does not wrap: the length field is at most 512.
    have small := lengths.1
    bv_omega
  obtain ⟨frame, rfl⟩ := framed
  rw [Frame.imePacketParse_bytes] at accepted
  split at accepted
  · rename_i good
    exact ⟨frame, rfl, good, Option.some.inj accepted⟩
  · contradiction

/-- A decoder that accepts the good frames with their packets, and rejects other frames
and all that is no frame, is the parser. -/
theorem eq_imePacketParse {Result : Type} (view : Packet → Result) {decode : List Byte → Option Result}
    (reads : ∀ frame : Frame,
      decode frame.bytes = if frame.Good then some (view frame.packet) else none)
    (framed : ∀ data, decode data ≠ none → ∃ frame : Frame, frame.bytes = data) (data : List Byte) :
    decode data = (imePacketParse data).map view := by
  by_cases isFrame : ∃ frame : Frame, frame.bytes = data
  · obtain ⟨frame, rfl⟩ := isFrame
    rw [reads, Frame.imePacketParse_bytes]
    split
    · rfl
    · rfl
  · have rejected : decode data = none := by
      by_contra accepted
      exact isFrame (framed data accepted)
    cases parsed : imePacketParse data with
    | none => exact rejected
    | some packet =>
      obtain ⟨frame, bytes, _⟩ := exists_frame_of_parse parsed
      exact absurd ⟨frame, bytes⟩ isFrame

/-- What the builder writes the parser reads back; what the parser accepts the
builder writes; and a payload that does not fit is not written at all. -/
theorem imePacketBuild_imePacketParse :
    (∀ type sequence payload, payload.length ≤ imeMaxPayload →
      (imePacketBuild type sequence payload).length = 10 + payload.length ∧
        imePacketParse (imePacketBuild type sequence payload) = some ⟨type, sequence, payload⟩) ∧
    (∀ data parsed, imePacketParse data = some parsed →
      imePacketBuild parsed.type parsed.sequence parsed.payload = data) ∧
    ∀ type sequence payload, imeMaxPayload < payload.length →
      imePacketBuild type sequence payload = [] := by
  refine ⟨fun type sequence payload fits => ⟨length_imePacketBuild type sequence fits, ?_⟩,
    fun data parsed accepted => ?_, fun type sequence payload long => ?_⟩
  · rw [imePacketBuild_eq type sequence payload fits, Frame.imePacketParse_bytes,
      if_pos (Packet.frame_good _ fits)]
    rfl
  · obtain ⟨frame, rfl, good, rfl⟩ := exists_frame_of_parse accepted
    rw [imePacketBuild_eq frame.packet.type frame.packet.sequence frame.packet.payload frame.fits]
    exact congrArg Frame.bytes good.eq_frame
  · simp [imePacketBuild, long]

end ImeBridge
