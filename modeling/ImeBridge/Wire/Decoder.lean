import ImeBridge.Wire.Codecs

/-! # The reference decoder

`StreamDecoder` of `tools/protocol.py`: where the front of its buffer is no packet it
drops one byte and looks again.
-/

namespace ImeBridge.Python.StreamDecoder

/-- One turn of the loop of `feed`: the packet it appends, if it does, and how many bytes
it deletes from the buffer; `none` leaves the loop. -/
def turn (buffer : List Byte) : Option (Option Packet × Nat) :=
  if buffer.length < headerSize + crcSize then none
  else if slice buffer 0 2 ≠ magic then some (none, 1)
  else
    let length := unpackWord buffer 6
    let total := headerSize + length + crcSize
    if length > maxPayload then some (none, 1)
    else if buffer.length < total then none
    else
      match decode (slice buffer 0 total) with
      | .error _ => some (none, 1)
      | .ok packet => some (some packet, total)

theorem turn_deletes {buffer : List Byte} {packet : Option Packet} {count : Nat}
    (turned : turn buffer = some (packet, count)) : 0 < count ∧ count ≤ buffer.length := by
  dsimp only [turn] at turned
  split_ifs at turned with short other long unfinished
  · cases turned
    simp only [headerSize, crcSize] at short
    omega
  · cases turned
    simp only [headerSize, crcSize] at short
    omega
  · simp only [headerSize, crcSize] at short unfinished turned
    split at turned
    · cases turned
      omega
    · cases turned
      omega

/-- The loop of `feed`: each packet it appends, with the bytes that were in the buffer at
that turn, and the buffer it leaves. -/
def loop (buffer : List Byte) : List (Nat × Packet) × List Byte :=
  match _ : turn buffer with
  | none => ([], buffer)
  | some (packet, count) =>
    let rest := loop (buffer.drop count)
    (packet.toList.map (fun packet => (buffer.length, packet)) ++ rest.1, rest.2)
termination_by buffer.length
decreasing_by
  rename_i turned
  have deletes := turn_deletes turned
  simp only [List.length_drop]
  omega

/-- `feed`: the packets it returns, and the buffer it leaves. -/
def feed (data buffer : List Byte) : List Packet × List Byte :=
  let outcome := loop (buffer ++ data)
  (outcome.1.map Prod.snd, outcome.2)

theorem slice_front (front rest : List Byte) : slice (front ++ rest) 0 front.length = front := by
  simp [slice]

/-- A good frame in front of the buffer is returned. -/
theorem turn_frame {frame : Frame} (good : frame.Good) (rest : List Byte) :
    turn (frame.bytes ++ rest) = some (some (ofPacket frame.packet), frame.bytes.length) := by
  have length := frame.length_bytes
  have fits : frame.payload.length ≤ maxPayload := frame.fits
  have opening : slice (frame.bytes ++ rest) 0 2 = magic := by
    simp [slice, Frame.bytes, Frame.body, magic, imeMagic0, imeMagic1]
  have field : unpackWord (frame.bytes ++ rest) 6 = frame.payload.length := by
    rw [unpackWord_eq, ← frame.toNat_length]
    exact congrArg BitVec.toNat (word_low_high frame.length)
  have total : headerSize + frame.payload.length + crcSize = frame.bytes.length := by
    simp only [headerSize, crcSize]
    omega
  have enough : ¬ (frame.bytes ++ rest).length < headerSize + crcSize := by
    rw [List.length_append]
    simp only [headerSize, crcSize]
    omega
  have complete : ¬ (frame.bytes ++ rest).length < frame.bytes.length := by simp
  have decoded := decode_eq frame.bytes
  rw [Frame.imePacketParse_bytes, if_pos good] at decoded
  simp only [turn, if_neg enough, opening, ne_eq, not_true_eq_false, if_false, field,
    if_neg (Nat.not_lt.mpr fits), total, if_neg complete, slice_front]
  cases result : decode frame.bytes with
  | error message => simp [result, Except.toOption] at decoded
  | ok packet =>
    simp only [result, Except.toOption, Option.map_some, Option.some.injEq] at decoded
    rw [decoded]

end ImeBridge.Python.StreamDecoder
