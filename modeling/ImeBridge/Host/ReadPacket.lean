import ImeBridge.Wire.Codecs

/-! # The receivers of the host

`ReadPacketAsync` of `BridgeForm.cs` and of `Program.cs`.  The stream is the list of
the bytes that come until it ends; a reader returns what it leaves of it.
-/

namespace ImeBridge

/-- What a read of a packet throws. -/
inductive ReadError where
  | endOfStream
  | invalidData (message : String)
  deriving DecidableEq

abbrev Reader (Result : Type) := StateT (List Byte) (Except ReadError) Result

/-- `ReadExactlyAsync` -/
def readExactlyAsync (count : Nat) : Reader (List Byte) := fun stream =>
  if stream.length < count then .error .endOfStream
  else .ok (stream.take count, stream.drop count)

/-- The loop that looks for the magic: a byte, and a second one behind a 49h. -/
def findMagic : List Byte → Except ReadError (Unit × List Byte)
  | [] => .error .endOfStream
  | [_] => .error .endOfStream
  | first :: second :: stream =>
    if first ≠ 0x49#8 then findMagic (second :: stream)
    else if second = 0x44#8 then .ok ((), stream)
    -- Both bytes are gone, also a second 49h.
    else findMagic stream

/-- Both copies of `ReadPacketAsync`; they differ in how they join the header and the rest. -/
def readPacketWith (join : List Byte → List Byte → List Byte) : Reader Packet := do
  findMagic
  let fields ← readExactlyAsync 6
  let header := 0x49#8 :: 0x44#8 :: fields
  let length := (CSharp.readUInt16LittleEndian (header.drop 6)).toNat
  if length > CSharp.maxPayload then throw (.invalidData "Payload too large.")
  let rest ← readExactlyAsync (length + 2)
  match CSharp.decode (join header rest) with
  | .ok packet => pure packet
  | .error message => throw (.invalidData message)

/-- `ReadPacketAsync` of `BridgeForm.cs`: `header.Concat(rest).ToArray()` -/
def BridgeForm.readPacketAsync : Reader Packet := readPacketWith (· ++ ·)

/-- `ReadPacketAsync` of `Program.cs`: both are copied into a fresh array. -/
def Program.readPacketAsync : Reader Packet :=
  readPacketWith fun header rest =>
    CSharp.copyTo rest
      (CSharp.copyTo header (List.replicate (header.length + rest.length) 0#8) 0) header.length

theorem copyTo_fresh (header rest : List Byte) :
    CSharp.copyTo rest
      (CSharp.copyTo header (List.replicate (header.length + rest.length) 0#8) 0) header.length =
      header ++ rest := by
  have copied := CSharp.copyTo_append [] (List.replicate header.length 0#8)
    (List.replicate rest.length 0#8) header List.length_replicate
  have joined := CSharp.copyTo_append header (List.replicate rest.length 0#8) [] rest
    List.length_replicate
  rw [List.nil_append, List.nil_append, ← List.replicate_add] at copied
  rw [List.append_nil, List.append_nil] at joined
  rw [show CSharp.copyTo header (List.replicate (header.length + rest.length) 0#8) 0 =
    header ++ List.replicate rest.length 0#8 from copied, joined]

/-- The two copies are one function. -/
theorem readPacketAsync_eq : Program.readPacketAsync = BridgeForm.readPacketAsync := by
  simp only [Program.readPacketAsync, BridgeForm.readPacketAsync, copyTo_fresh]

theorem Reader.bind_ok {First Result : Type} {first : Reader First} {next : First → Reader Result}
    {stream rest : List Byte} {result : Result} (read : (first >>= next) stream = .ok (result, rest)) :
    ∃ value left, first stream = .ok (value, left) ∧ next value left = .ok (result, rest) := by
  cases done : first stream with
  | error error => simp [bind, StateT.bind, Except.bind, done] at read
  | ok outcome =>
    refine ⟨outcome.1, outcome.2, rfl, ?_⟩
    simpa [bind, StateT.bind, Except.bind, done] using read

namespace BridgeForm

/-! ## Behind the magic -/

/-- What is behind the magic decides the rest. -/
theorem readPacketAsync_congr {stream other : List Byte} (same : findMagic stream = findMagic other) :
    readPacketAsync stream = readPacketAsync other := by
  simp only [readPacketAsync, readPacketWith, bind, StateT.bind, same]

theorem readExactlyAsync_append (front stream : List Byte) :
    readExactlyAsync front.length (front ++ stream) = .ok (front, stream) := by
  have enough : ¬ (front ++ stream).length < front.length := by simp
  rw [readExactlyAsync, if_neg enough, List.take_left, List.drop_left]

theorem readExactlyAsync_ok {count : Nat} {stream front rest : List Byte}
    (read : readExactlyAsync count stream = .ok (front, rest)) :
    stream = front ++ rest ∧ front.length = count := by
  simp only [readExactlyAsync] at read
  split at read
  · contradiction
  · rename_i enough
    cases read
    exact ⟨(List.take_append_drop count stream).symm, by simp; omega⟩

/-- A frame whose magic has just been found is read whole. -/
theorem readPacketAsync_frame (packet : Packet) (fits : packet.payload.length ≤ imeMaxPayload)
    {stream rest : List Byte}
    (found : findMagic stream = .ok ((), (packet.frame fits).bytes.drop 2 ++ rest)) :
    readPacketAsync stream = .ok (packet, rest) := by
  let frame := packet.frame fits
  let fields := [frame.version, frame.type, frame.sequence.low, frame.sequence.high,
    frame.length.low, frame.length.high]
  let tail := frame.payload ++ [frame.crc.low, frame.crc.high]
  have cut : frame.bytes.drop 2 ++ rest = fields ++ (tail ++ rest) := by
    simp [Frame.bytes, Frame.body, fields, tail]
  have first : readExactlyAsync 6 (fields ++ (tail ++ rest)) = .ok (fields, tail ++ rest) :=
    readExactlyAsync_append fields _
  have lengthField : (CSharp.readUInt16LittleEndian
      ((0x49#8 :: 0x44#8 :: fields).drop 6)).toNat = frame.payload.length := by
    rw [← frame.toNat_length]
    exact congrArg BitVec.toNat (word_low_high frame.length)
  have second : readExactlyAsync (frame.payload.length + 2) (tail ++ rest) = .ok (tail, rest) := by
    have length : tail.length = frame.payload.length + 2 := by simp [tail]
    rw [← length]
    exact readExactlyAsync_append tail rest
  have short : ¬ frame.payload.length > CSharp.maxPayload := Nat.not_lt.mpr fits
  have wire : (0x49#8 :: 0x44#8 :: fields) ++ tail = frame.bytes := by
    simp [Frame.bytes, Frame.body, fields, tail, imeMagic0, imeMagic1]
  have decoded : CSharp.decode frame.bytes = .ok packet := by
    have accepted := CSharp.decode_bytes frame
    rw [if_pos (packet.frame_good fits)] at accepted
    cases result : CSharp.decode frame.bytes with
    | error message => simp [result, Except.toOption] at accepted
    | ok other =>
      simp only [result, Except.toOption, Option.some.injEq] at accepted
      rw [accepted]
      rfl
  rw [cut] at found
  simp only [readPacketAsync, readPacketWith, bind, StateT.bind, found, Except.bind, first, lengthField,
    if_neg short, second, wire, decoded]
  rfl

theorem length_findMagic {stream rest : List Byte} (found : findMagic stream = .ok ((), rest)) :
    rest.length + 2 ≤ stream.length := by
  induction stream using findMagic.induct with
  | case1 => contradiction
  | case2 => contradiction
  | case3 first second stream noise inductionHypothesis =>
    rw [findMagic, if_pos noise] at found
    exact (inductionHypothesis found).trans (by simp)
  | case4 first stream begins =>
    rw [findMagic, if_neg begins, if_pos rfl] at found
    cases found
    simp
  | case5 first second stream begins mismatch inductionHypothesis =>
    rw [findMagic, if_neg begins, if_neg mismatch] at found
    have shorter := inductionHypothesis found
    simp only [List.length_cons]
    omega

/-- A packet that is read has come whole on the stream. -/
theorem length_readPacketAsync {stream rest : List Byte} {packet : Packet}
    (read : readPacketAsync stream = .ok (packet, rest)) :
    10 + packet.payload.length + rest.length ≤ stream.length := by
  obtain ⟨_, behind, found, header⟩ := Reader.bind_ok read
  obtain ⟨fields, left, first, payload⟩ := Reader.bind_ok header
  dsimp only at payload
  split at payload
  · contradiction
  obtain ⟨tail, last, second, decodes⟩ := Reader.bind_ok payload
  have shorter := length_findMagic found
  obtain ⟨rfl, six⟩ := readExactlyAsync_ok first
  obtain ⟨rfl, whole⟩ := readExactlyAsync_ok second
  cases decoded : CSharp.decode (0x49#8 :: 0x44#8 :: fields ++ tail) with
  | error message =>
    simp only [decoded] at decodes
    contradiction
  | ok other =>
    simp only [decoded] at decodes
    cases decodes
    -- What `Decode` accepts is the frame of the packet.
    have accepted := CSharp.decode_eq (0x49#8 :: 0x44#8 :: fields ++ tail)
    rw [decoded] at accepted
    obtain ⟨frame, bytes, _, rfl⟩ := exists_frame_of_parse accepted.symm
    have length := congrArg List.length bytes
    simp only [Frame.length_bytes, List.length_append, List.length_cons] at length shorter
    change 10 + frame.payload.length + _ ≤ _
    omega

end BridgeForm

end ImeBridge
