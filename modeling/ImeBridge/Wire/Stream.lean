import ImeBridge.Library.Pace
import ImeBridge.Wire.Decoder

/-! # The reference decoder on whole streams

`StreamDecoder` of `tools/protocol.py` is a scanner whose turns are final.  So it does not
matter how a stream is cut, and it finds every packet that no other one covers.
-/

namespace ImeBridge.Python

open Library

/-- The bytes of an encoded packet. -/
def Packet.size (packet : Packet) : Nat := headerSize + packet.payload.length + crcSize

/-- What `encode` accepts is a packet of the other two codecs, and what it writes its frame. -/
theorem exists_frame_of_encode {packet : Packet} {wire : List Byte} (encoded : encode packet = .ok wire) :
    ∃ frame : Frame, frame.Good ∧ packet = ofPacket frame.packet ∧ wire = frame.bytes := by
  obtain ⟨kind, sequence, payload⟩ := packet
  have accepted := encoded
  simp only [encode] at accepted
  split at accepted
  · contradiction
  rename_i kindRange
  split at accepted
  · contradiction
  rename_i sequenceRange
  split at accepted
  · contradiction
  rename_i fits
  rw [not_not] at kindRange sequenceRange
  have short : payload.length ≤ imeMaxPayload := Nat.le_of_not_lt fits
  let plain : ImeBridge.Packet := ⟨BitVec.ofNat 8 kind.toNat, BitVec.ofNat 16 sequence.toNat, payload⟩
  have same : (⟨kind, sequence, payload⟩ : Packet) = ofPacket plain := by
    simp only [ofPacket, plain, BitVec.toNat_ofNat, Packet.mk.injEq, and_true]
    omega
  rw [same, encode_eq plain short] at encoded
  cases encoded
  exact ⟨plain.frame short, plain.frame_good short, same, rfl⟩

namespace StreamDecoder

/-! ## One turn -/

/-- A turn that returns a packet has its encoding at the front of the buffer. -/
theorem turn_packet {buffer : List Byte} {packet : Packet} {count : Nat}
    (turned : turn buffer = some (some packet, count)) :
    count = packet.size ∧ encode packet = .ok (slice buffer 0 count) := by
  dsimp only [turn] at turned
  split_ifs at turned with short other long unfinished
  · cases turned
  · cases turned
  split at turned
  · cases turned
  · rename_i parsed accepted
    cases turned
    have decoded := decode_eq (slice buffer 0 (headerSize + unpackWord buffer 6 + crcSize))
    rw [accepted] at decoded
    obtain ⟨plain, parses, isPacket⟩ := Option.map_eq_some_iff.mp decoded.symm
    obtain ⟨frame, bytes, good, rfl⟩ := exists_frame_of_parse parses
    have length := congrArg List.length bytes
    rw [Frame.length_bytes, slice, Nat.sub_zero, List.drop_zero, List.length_take,
      Nat.min_eq_left (Nat.le_of_not_lt unfinished)] at length
    subst isPacket
    refine ⟨?_, ?_⟩
    · simp only [Packet.size, ofPacket, Frame.packet, headerSize, crcSize] at length ⊢
      omega
    · rw [← bytes, encode_eq frame.packet frame.fits]
      exact congrArg (fun frame => Except.ok frame.bytes) good.eq_frame

theorem turn_skips {buffer : List Byte} {count : Nat} (turned : turn buffer = some (none, count)) :
    count = 1 := by
  dsimp only [turn] at turned
  split_ifs at turned with short other long unfinished
  · cases turned
    rfl
  · cases turned
    rfl
  · split at turned
    · cases turned
      rfl
    · cases turned

theorem unpackWord_append {buffer : List Byte} {offset : Nat} (inside : offset + 1 < buffer.length)
    (more : List Byte) : unpackWord (buffer ++ more) offset = unpackWord buffer offset := by
  simp [unpackWord, List.getD_eq_getElem?_getD, List.getElem?_append_left inside,
    List.getElem?_append_left (Nat.lt_of_succ_lt inside)]

theorem slice_append {buffer : List Byte} {stop : Nat} (inside : stop ≤ buffer.length)
    (more : List Byte) : slice (buffer ++ more) 0 stop = slice buffer 0 stop := by
  simp [slice, List.take_append_of_le_length inside]

/-- What a turn decides on a buffer it decides on every longer one. -/
theorem turn_final {buffer : List Byte} {outcome : Option Packet × Nat} (turned : turn buffer = some outcome)
    (more : List Byte) : turn (buffer ++ more) = some outcome := by
  by_cases enough : buffer.length < headerSize + crcSize
  · rw [turn, if_pos enough] at turned
    contradiction
  have long : 10 ≤ buffer.length := Nat.le_of_not_lt enough
  have still : ¬ (buffer ++ more).length < headerSize + crcSize := by
    rw [List.length_append]
    simp only [headerSize, crcSize]
    omega
  simp only [turn, if_neg enough, if_neg still, slice_append (by omega : 2 ≤ buffer.length),
    unpackWord_append (by omega : 6 + 1 < buffer.length)] at turned ⊢
  split_ifs at turned with other oversized waits
  · rwa [if_pos other]
  · rwa [if_neg other, if_pos oversized]
  · have complete : ¬ (buffer ++ more).length < headerSize + unpackWord buffer 6 + crcSize := by
      rw [List.length_append]
      omega
    rwa [if_neg other, if_neg oversized, if_neg complete, slice_append (Nat.le_of_not_lt waits)]

/-- What waits for more is shorter than the longest packet. -/
theorem length_of_turn_none {buffer : List Byte} (waits : turn buffer = none) : buffer.length ≤ 521 := by
  dsimp only [turn] at waits
  split_ifs at waits with short other long unfinished
  · simp only [headerSize, crcSize] at short
    omega
  · simp only [headerSize, crcSize, maxPayload] at long unfinished
    omega
  · split at waits <;> contradiction

/-! ## The decoder is a scanner -/

def scanner : Scanner Byte Packet where
  turn := turn
  size := Packet.size
  takes := fun turned => (turn_packet turned).1
  skips := turn_skips
  deletes := turn_deletes
  final := turn_final

theorem loop_eq_scan (buffer : List Byte) : loop buffer = scanner.scan buffer := by
  -- Both are defined by recursion over the turns.
  induction buffer using @Scanner.scan_induction _ _ scanner with
  | waiting buffer waits =>
    rw [Scanner.scan_waits waits, loop]
    split
    · rfl
    · rename_i turned
      have waits : turn buffer = none := waits
      rw [waits] at turned
      contradiction
  | turning buffer packet count turned inductionHypothesis =>
    rw [Scanner.scan_turn turned, ← inductionHypothesis, loop]
    have turned : turn buffer = some (packet, count) := turned
    split
    · rename_i waits
      rw [waits] at turned
      contradiction
    · rename_i turned'
      rw [turned'] at turned
      cases turned
      rfl

theorem feed_eq_feed (data buffer : List Byte) : feed data buffer = scanner.feed data buffer := by
  rw [feed, Scanner.feed, loop_eq_scan]

theorem turn_nil : scanner.turn [] = none := rfl

/-- The packets that `feed` returns to a fresh decoder, with the positions of their first
bytes in the stream. -/
def returned (data : List Byte) : List (Nat × Packet) :=
  (loop data).1.map fun found => (data.length - found.1, found.2)

theorem returned_eq_taken (data : List Byte) : returned data = scanner.taken data := by
  rw [returned, loop_eq_scan, Scanner.taken]

/-- Packet by packet, and over bytes that begin none one by one. -/
def packetPace : Pace Byte where
  step := fun ahead =>
    let size := 10 + (word (ahead.getD 6 0) (ahead.getD 7 0)).toNat
    if (imePacketParse (ahead.take size)).isSome then size else 1
  positive := by
    intro ahead
    dsimp only
    split_ifs
    · omega
    · exact Nat.one_pos

/-- Bytes with a good frame in front go on behind it. -/
theorem packetPace_frame {frame : Frame} (good : frame.Good) (rest : List Byte) :
    packetPace.step (frame.bytes ++ rest) = frame.bytes.length := by
  have field : word ((frame.bytes ++ rest).getD 6 0) ((frame.bytes ++ rest).getD 7 0) = frame.length := by
    have long : 8 ≤ frame.bytes.length := by
      have length := frame.length_bytes
      omega
    rw [← frame.length_front (List.append_nil _) long, List.getD_eq_getElem?_getD,
      List.getD_eq_getElem?_getD, List.getElem?_append_left (by omega),
      List.getElem?_append_left (by omega), List.getD_eq_getElem?_getD, List.getD_eq_getElem?_getD]
  simp only [packetPace, field, frame.toNat_length, ← frame.length_bytes, List.take_left,
    frame.imePacketParse_bytes, if_pos good, Option.isSome_some, if_true]

/-- Bytes with no packet in front go on behind the first. -/
theorem packetPace_none {ahead : List Byte} (rejects : ∀ count, imePacketParse (ahead.take count) = none) :
    packetPace.step ahead = 1 := by
  simp [packetPace, rejects]

/-- Where it does not wait, the decoder goes packet by packet. -/
theorem scanner_pace {ahead : List Byte} (goesOn : turn ahead ≠ none) :
    scanner.pace.step ahead = packetPace.step ahead := by
  have step : ∀ {outcome}, turn ahead = some outcome → scanner.pace.step ahead = outcome.2 := by
    intro outcome turned
    have turned : scanner.turn ahead = some outcome := turned
    simp [Scanner.pace, turned]
  by_cases begins : ∃ frame : Frame, frame.Good ∧ frame.bytes <+: ahead
  · obtain ⟨frame, good, rest, rfl⟩ := begins
    rw [step (turn_frame good rest), packetPace_frame good rest]
  · have rejects : ∀ count, imePacketParse (ahead.take count) = none := by
      intro count
      cases parsed : imePacketParse (ahead.take count) with
      | none => rfl
      | some packet =>
        obtain ⟨frame, bytes, good, _⟩ := exists_frame_of_parse parsed
        exact absurd ⟨frame, good, bytes ▸ List.take_prefix count ahead⟩ begins
    rw [packetPace_none rejects]
    cases turned : turn ahead with
    | none => exact absurd turned goesOn
    | some outcome =>
      obtain ⟨item, count⟩ := outcome
      cases item with
      | none => rw [step turned, turn_skips turned]
      | some packet =>
        obtain ⟨frame, good, _, bytes⟩ := exists_frame_of_encode (turn_packet turned).2
        refine absurd ⟨frame, good, ?_⟩ begins
        rw [← bytes]
        exact List.take_prefix _ _

/-- Up to a frame with enough bytes behind it the decoder does not wait. -/
theorem turn_goes_on (before : List Byte) (frame : Frame) {further : List Byte}
    (enough : 512 ≤ further.length) {earlier : Nat} (inside : earlier ≤ before.length) :
    turn ((before ++ frame.bytes ++ further).drop earlier) ≠ none := by
  intro waits
  -- From before the packet there are more bytes than any packet has.
  have short := length_of_turn_none waits
  have length := frame.length_bytes
  simp only [List.length_drop, List.length_append] at short
  omega

/-- A good frame with enough bytes behind it is returned from its own place exactly if no
packet lies across its beginning. -/
theorem returned_frame_iff {frame : Frame} (good : frame.Good) (before further : List Byte)
    (enough : 512 ≤ further.length) :
    ((frame.bytes ++ further).length, ofPacket frame.packet) ∈ (loop (before ++ frame.bytes ++ further)).1 ↔
      packetPace.Stands (before ++ frame.bytes ++ further) before.length := by
  have goesOn (earlier : Nat) (below : earlier < before.length) :
      turn ((before ++ frame.bytes ++ further).drop earlier) ≠ none :=
    turn_goes_on before frame enough (Nat.le_of_lt below)
  have here : scanner.turn ((before ++ frame.bytes ++ further).drop before.length) =
      some (some (ofPacket frame.packet), frame.bytes.length) := by
    rw [List.append_assoc, List.drop_left]
    exact turn_frame good further
  have position : (before ++ frame.bytes ++ further).length - (frame.bytes ++ further).length =
      before.length := by
    simp only [List.length_append]
    omega
  rw [loop_eq_scan, Scanner.mem_scan_iff (by simp only [List.length_append]; omega), position,
    Scanner.mem_taken_iff_stands here goesOn]
  exact Pace.stands_congr fun earlier below => scanner_pace (goesOn earlier below)

end StreamDecoder

end ImeBridge.Python

namespace ImeBridge

open Library

open Python.StreamDecoder in
/-- Cut into any chunks, a stream gives a fresh decoder the same packets and leaves the
same buffer as in one piece.  Every `feed` ends after no more turns than there are bytes,
and leaves 521 bytes at most. -/
theorem feed_fragments (chunks : List (List Byte)) :
    (Run.respond feed chunks []).1.flatten = (feed chunks.flatten []).1 ∧
      (Run.respond feed chunks []).2 = (feed chunks.flatten []).2 ∧
      ∀ data buffer, scanner.scanWithin (buffer ++ data).length (buffer ++ data) =
          some (loop (buffer ++ data)) ∧
        (feed data buffer).2.length ≤ 521 := by
  have same : feed = scanner.feed := funext₂ feed_eq_feed
  obtain ⟨packets, rest⟩ := @Scanner.respond_feed _ _ scanner [] chunks turn_nil
  rw [same]
  refine ⟨packets, rest, fun data buffer => ⟨?_, length_of_turn_none ?_⟩⟩
  · rw [loop_eq_scan]
    exact Scanner.scanWithin_length _ _ le_rfl
  · exact @Scanner.turn_rest _ _ scanner (buffer ++ data)

open Python Python.StreamDecoder in
/-- The packets a fresh decoder returns occupy disjoint slices of the stream, in order.
An encoded packet with 512 bytes behind it is returned from its own place, unless a
packet that begins before it and is returned lies across its first byte. -/
theorem decoder_resynchronizes (data : List Byte) :
    (feed data []).1 = (returned data).map Prod.snd ∧
      (returned data).Pairwise (fun first second => first.1 + first.2.size ≤ second.1) ∧
      (∀ found ∈ returned data,
        encode found.2 = .ok (slice data found.1 (found.1 + found.2.size))) ∧
      ∀ before packet wire further, data = before ++ wire ++ further →
        encode packet = .ok wire → 512 ≤ further.length →
        (before.length, packet) ∈ returned data ∨ ∃ earlier ∈ returned data,
          earlier.1 < before.length ∧ before.length < earlier.1 + earlier.2.size := by
  rw [returned_eq_taken]
  refine ⟨?_, @Scanner.taken_disjoint _ _ scanner data, fun found member => ?_, ?_⟩
  · rw [feed, loop_eq_scan, List.nil_append, Scanner.taken, List.map_map]
    rfl
  · have encoded := (turn_packet (Scanner.turn_taken data found member)).2
    rwa [slice, Nat.add_sub_cancel_left]
  · rintro before packet wire further rfl encoded enough
    obtain ⟨frame, good, rfl, rfl⟩ := exists_frame_of_encode encoded
    refine Scanner.takes_or_crosses (?_ : scanner.turn _ = some (some _, frame.bytes.length))
      fun earlier inside => turn_goes_on before frame enough (Nat.le_of_lt inside)
    rw [List.append_assoc, List.drop_left]
    exact turn_frame good further

end ImeBridge
