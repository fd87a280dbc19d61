import Mathlib.Data.List.ReduceOption
import ImeBridge.Resident.Foreground
import ImeBridge.Wire.Frame

/-! # The framer

`accept_byte` as an automaton over `rx_packet` and `rx_expected` alone.  It hands a
buffer to `handle_packet` when a byte completes it; over noise and frames it hands
over the frames, each whole and once.
-/

namespace ImeBridge

open Library

/-- `rx_packet[0..rx_count)` and `rx_expected`. -/
structure Framer where
  buffer : List Byte := []
  expected : Word := 0#16
  deriving DecidableEq

namespace Framer

/-- The buffer that the byte completes, if it does, and the variables behind it. -/
def accept (value : Byte) (framer : Framer) : Option (List Byte) × Framer :=
  if framer.buffer.length = 0 ∧ value ≠ imeMagic0 then (none, framer)
  else if framer.buffer.length = 1 ∧ value ≠ imeMagic1 then
    (none, { framer with buffer := if value = imeMagic0 then framer.buffer else [] })
  else if framer.buffer.length ≥ 522 then (none, {})
  else
    let buffer := framer.buffer ++ [value]
    let framer : Framer :=
      if buffer.length = 8 then
        let expected := 10#16 + word (buffer.getD 6 0) (buffer.getD 7 0)
        if expected > 522#16 then {} else { buffer := buffer, expected := expected }
      else { framer with buffer := buffer }
    if framer.expected ≠ 0#16 ∧ framer.buffer.length = framer.expected.toNat then
      (some framer.buffer, {})
    else (none, framer)

end Framer

def Tsr.framer (tsr : Tsr) : Framer where
  buffer := tsr.rxPacket
  expected := tsr.rxExpected

/-- `accept_byte`, with the packet that `ime_packet_parse` accepts inside its call of
`handle_packet`. -/
def acceptByteNoting (value : Byte) (tsr : Tsr) : Option Packet × Tsr :=
  if tsr.rxPacket.length = 0 ∧ value ≠ imeMagic0 then (none, tsr)
  else if tsr.rxPacket.length = 1 ∧ value ≠ imeMagic1 then
    (none, { tsr with rxPacket := if value = imeMagic0 then tsr.rxPacket else [] })
  else if tsr.rxPacket.length ≥ 522 then (none, { tsr with rxPacket := [], rxExpected := 0#16 })
  else
    let tsr : Tsr := { tsr with rxPacket := tsr.rxPacket ++ [value] }
    let tsr : Tsr :=
      if tsr.rxPacket.length = 8 then
        let expected := 10#16 + word (tsr.rxPacket.getD 6 0) (tsr.rxPacket.getD 7 0)
        if expected > 522#16 then { tsr with rxPacket := [], rxExpected := 0#16 }
        else { tsr with rxExpected := expected }
      else tsr
    if tsr.rxExpected ≠ 0#16 ∧ tsr.rxPacket.length = tsr.rxExpected.toNat then
      (imePacketParse tsr.rxPacket, { handlePacket tsr with rxPacket := [], rxExpected := 0#16 })
    else (none, tsr)

theorem acceptByteNoting_state (value : Byte) (tsr : Tsr) :
    (acceptByteNoting value tsr).2 = acceptByte value tsr := by
  unfold acceptByteNoting acceptByte
  split
  · rfl
  · split
    · rfl
    · split
      · rfl
      · -- Both lengthen the packet alike, so only its completion matters.
        extract_lets
        split
        · rfl
        · rfl

namespace Framer

/-! ## Noise -/

/-- What the framer holds when no frame has begun. -/
def Between (framer : Framer) : Prop := framer = {} ∨ framer = { buffer := [imeMagic0] }

/-- Unless it is the second magic byte behind the first, a byte leaves no frame begun. -/
theorem accept_between {framer : Framer} (between : framer.Between) (value : Byte)
    (apart : framer ≠ {} → value ≠ imeMagic1) :
    (framer.accept value).1 = none ∧ (framer.accept value).2.Between ∧
      ((framer.accept value).2 ≠ {} → value = imeMagic0) := by
  obtain rfl | rfl := between
  · by_cases begins : value = imeMagic0
    · simp [accept, begins, Between]
    · simp [accept, begins, Between]
  · have second := apart (by simp)
    by_cases begins : value = imeMagic0
    · simp [accept, begins, imeMagic0, imeMagic1, Between]
    · simp [accept, begins, second, Between]

/-- Bytes without the magic, in whatever amount, hand over nothing. -/
theorem respond_noise {bytes : List Byte} (clean : ¬ [imeMagic0, imeMagic1] <:+: bytes)
    {framer : Framer} (between : framer.Between)
    (apart : framer ≠ {} → bytes.head? ≠ some imeMagic1) :
    (Run.respond accept bytes framer).1.reduceOption = [] ∧
      (Run.respond accept bytes framer).2.Between := by
  induction bytes generalizing framer with
  | nil => exact ⟨rfl, between⟩
  | cons value bytes inductionHypothesis =>
    obtain ⟨nothing, stays, began⟩ := accept_between between value (by simpa using apart)
    have cleanRest : ¬ [imeMagic0, imeMagic1] <:+: bytes :=
      fun within => clean (within.trans (List.suffix_cons value bytes).isInfix)
    have apartRest : (framer.accept value).2 ≠ {} → bytes.head? ≠ some imeMagic1 := by
      -- A first magic byte held back is the last byte read.
      intro holds follows
      obtain ⟨rest, rfl⟩ := List.head?_eq_some_iff.mp follows
      rw [began holds] at clean
      exact clean ⟨[], rest, rfl⟩
    rw [Run.respond_cons, nothing, List.reduceOption_cons_of_none]
    exact inductionHypothesis cleanRest stays apartRest

/-! ## Frames -/

/-- What the framer holds of a frame that has begun. -/
def filling (frame : Frame) (filled : List Byte) : Framer where
  buffer := filled
  expected := if filled.length < 8 then 0#16 else 10#16 + frame.length

/-- One more byte of a frame, the last one or not. -/
theorem accept_filling (frame : Frame) {filled rest : List Byte} {value : Byte}
    (split : filled ++ value :: rest = frame.bytes) (begun : 2 ≤ filled.length) :
    accept value (filling frame filled) =
      if rest = [] then (some frame.bytes, {}) else (none, filling frame (filled ++ [value])) := by
  have ends := frame.last_iff split
  have small := frame.total_le
  have lengths := congrArg List.length split
  simp only [List.length_append, List.length_cons, Frame.length_bytes] at lengths
  have fits := frame.fits
  simp only [imeMaxPayload] at fits
  -- The bytes before are never back at the point where the magic is looked for, and never too many.
  have magicDone : ¬ (filled.length = 0 ∧ value ≠ imeMagic0) := by omega
  have headDone : ¬ (filled.length = 1 ∧ value ≠ imeMagic1) := by omega
  have room : ¬ filled.length ≥ 522 := by omega
  have next : (filled ++ [value]).length = filled.length + 1 := by simp
  simp only [accept, filling, magicDone, headDone, room, next, if_false]
  rcases Nat.lt_trichotomy (filled.length + 1) 8 with header | complete | payload
  · have more := frame.more_behind split (by omega)
    simp [header, header.ne, more, show filled.length < 8 by omega]
  · -- The header is complete: its length field fixes what is expected.
    have more := frame.more_behind split (by omega)
    have here : (filled ++ [value]) ++ rest = frame.bytes := by rw [← split, ← List.append_cons]
    have field := frame.length_front here (by omega)
    have unfinished : ¬ 8 = (10#16 + frame.length).toNat := by
      rw [← complete, ← ends]
      exact more
    simp only [complete, field, small, next, unfinished, more, and_false, if_true, if_false, lt_irrefl]
  · have counted : ¬ filled.length < 8 := by omega
    have counting : ¬ filled.length + 1 < 8 := by omega
    simp only [payload.ne', counted, counting, next, if_false, ← ends]
    by_cases last : rest = []
    · have complete : filled ++ [value] = frame.bytes := by rw [← split, last]
      rw [if_pos ⟨frame.total_ne_zero, last⟩, if_pos last, complete]
    · simp only [last, and_false, if_false]

/-- Bytes of a frame from the third on, as long as it is not complete. -/
theorem respond_filling (frame : Frame) {filled rest more : List Byte}
    (split : filled ++ rest ++ more = frame.bytes) (begun : 2 ≤ filled.length) (unfinished : more ≠ []) :
    Run.respond accept rest (filling frame filled) =
      (List.replicate rest.length none, filling frame (filled ++ rest)) := by
  induction rest generalizing filled with
  | nil => simp
  | cons value rest inductionHypothesis =>
    have here : filled ++ value :: (rest ++ more) = frame.bytes := by rw [← split]; simp
    have next : filled ++ [value] ++ rest ++ more = frame.bytes := by rw [← split]; simp
    have goes : ¬ rest ++ more = [] := by simp [unfinished]
    rw [Run.respond_cons, accept_filling frame here begun, if_neg goes,
      inductionHypothesis next (by simp; omega)]
    simp [List.replicate_succ]

/-- The first bytes of a frame, two or more. -/
theorem respond_begun (frame : Frame) {front more : List Byte} (split : front ++ more = frame.bytes)
    (begun : 2 ≤ front.length) (unfinished : more ≠ []) {framer : Framer} (between : framer.Between) :
    Run.respond accept front framer = (List.replicate front.length none, filling frame front) := by
  obtain ⟨byte0, byte1, rest, rfl⟩ : ∃ byte0 byte1 rest, front = byte0 :: byte1 :: rest := by
    rcases front with _ | ⟨byte0, _ | ⟨byte1, rest⟩⟩
    · simp at begun
    · simp at begun
    · exact ⟨byte0, byte1, rest, rfl⟩
  obtain ⟨tail, bytes⟩ : ∃ tail, frame.bytes = imeMagic0 :: imeMagic1 :: tail := ⟨_, rfl⟩
  rw [bytes, List.cons_append, List.cons_append, List.cons.injEq, List.cons.injEq] at split
  obtain ⟨rfl, rfl, split⟩ := split
  -- A magic byte that ended the noise counts for nothing: the frame's own takes its place.
  have first : framer.accept imeMagic0 = (none, { buffer := [imeMagic0] }) := by
    obtain rfl | rfl := between
    · rfl
    · rfl
  have second : ({ buffer := [imeMagic0] } : Framer).accept imeMagic1 =
      (none, filling frame [imeMagic0, imeMagic1]) := rfl
  have whole : [imeMagic0, imeMagic1] ++ rest ++ more = frame.bytes := by
    rw [bytes, ← split]
    rfl
  rw [Run.respond_cons, first, Run.respond_cons, second, respond_filling frame whole (by simp) unfinished]
  rfl

/-- The last byte of a frame completes it, and leaves nothing behind. -/
theorem respond_whole (frame : Frame) {framer : Framer} (between : framer.Between) :
    Run.respond accept frame.bytes framer =
      (List.replicate (frame.bytes.length - 1) none ++ [some frame.bytes], {}) := by
  have length := frame.length_bytes
  obtain ⟨front, last, split⟩ : ∃ front last, frame.bytes = front ++ [last] :=
    ⟨frame.body ++ [frame.crc.low], frame.crc.high, by simp [Frame.bytes]⟩
  have lengths := congrArg List.length split
  simp only [List.length_append, List.length_singleton] at lengths
  have begun : 2 ≤ front.length := by omega
  have completes := accept_filling frame split.symm begun
  rw [if_pos rfl] at completes
  have counted : frame.bytes.length - 1 = front.length := by omega
  rw [counted]
  conv_lhs => rw [split]
  rw [Run.respond_append, respond_begun frame split.symm begun (by simp) between]
  simp [completes]

theorem respond_frame (frame : Frame) {framer : Framer} (between : framer.Between) :
    (Run.respond accept frame.bytes framer).1.reduceOption = [frame.bytes] ∧
      (Run.respond accept frame.bytes framer).2 = {} := by
  rw [respond_whole frame between]
  refine ⟨?_, rfl⟩
  rw [List.reduceOption_append, List.reduceOption_replicate_none, List.nil_append,
    List.reduceOption_singleton]
  rfl

/-- Frames one behind the other. -/
theorem respond_frames (frames : List Frame) :
    (Run.respond accept (frames.flatMap Frame.bytes) {}).1.reduceOption = frames.map Frame.bytes ∧
      (Run.respond accept (frames.flatMap Frame.bytes) {}).2 = {} := by
  induction frames with
  | nil => exact ⟨rfl, rfl⟩
  | cons frame frames inductionHypothesis =>
    obtain ⟨whole, done⟩ := respond_frame frame (.inl rfl : Between {})
    rw [List.flatMap_cons, Run.respond_append, List.reduceOption_append, whole, done,
      inductionHypothesis.1, inductionHypothesis.2]
    exact ⟨rfl, rfl⟩

end Framer

/-! ## Streams -/

/-- Bytes without the magic; they may end in its first half. -/
structure Noise where
  bytes : List Byte
  clean : ¬ [imeMagic0, imeMagic1] <:+: bytes

/-- Frames, each behind a run of noise that may be empty, and a last run of noise. -/
structure Stream where
  stretches : List (Noise × Frame)
  tail : Noise

namespace Stream

variable (stream : Stream)

def bytes : List Byte :=
  stream.stretches.flatMap (fun stretch => stretch.1.bytes ++ stretch.2.bytes) ++ stream.tail.bytes

def frames : List Frame := stream.stretches.map Prod.snd

/-- The packets of the good frames, in order. -/
def packets : List Packet := (stream.frames.filter fun frame => frame.Good).map Frame.packet

end Stream

/-- Over a stream the framer hands over its frames. -/
theorem Framer.respond_stream (stream : Stream) :
    (Run.respond accept stream.bytes {}).1.reduceOption = stream.frames.map Frame.bytes ∧
      (Run.respond accept stream.bytes {}).2.Between := by
  obtain ⟨stretches, tail⟩ := stream
  have fresh : ({} : Framer).Between := .inl rfl
  induction stretches with
  | nil => exact respond_noise tail.clean fresh (by simp)
  | cons stretch stretches inductionHypothesis =>
    obtain ⟨noise, frame⟩ := stretch
    obtain ⟨quiet, between⟩ := respond_noise noise.clean fresh (by simp)
    obtain ⟨whole, done⟩ := respond_frame frame between
    have bytes : Stream.bytes ⟨(noise, frame) :: stretches, tail⟩ =
        noise.bytes ++ (frame.bytes ++ Stream.bytes ⟨stretches, tail⟩) := by
      simp [Stream.bytes]
    rw [bytes, Run.respond_append, Run.respond_append, List.reduceOption_append,
      List.reduceOption_append, quiet, whole, done, inductionHypothesis.1]
    exact ⟨rfl, inductionHypothesis.2⟩

/-! ## The framer inside the program -/

/-- Noting and handling packets is all the rest of the program adds to the framer. -/
theorem acceptByteNoting_framer (value : Byte) (tsr : Tsr) :
    (acceptByteNoting value tsr).1 = (tsr.framer.accept value).1.bind imePacketParse ∧
      (acceptByteNoting value tsr).2.framer = (tsr.framer.accept value).2 := by
  dsimp only [acceptByteNoting, Framer.accept, Tsr.framer]
  split_ifs <;> exact ⟨rfl, rfl⟩

theorem respond_acceptByteNoting (bytes : List Byte) (tsr : Tsr) :
    (Run.respond acceptByteNoting bytes tsr).1 =
      (Run.respond Framer.accept bytes tsr.framer).1.map (fun handed => handed.bind imePacketParse) ∧
    (Run.respond acceptByteNoting bytes tsr).2.framer = (Run.respond Framer.accept bytes tsr.framer).2 := by
  let parsing : Byte → Framer → Option Packet × Framer := fun value framer =>
    ((Framer.accept value framer).1.bind imePacketParse, (Framer.accept value framer).2)
  have refines : ∀ value (rest : Tsr) framer, rest.framer = framer →
      (acceptByteNoting value rest).1 = (parsing value framer).1 ∧
        (acceptByteNoting value rest).2.framer = (parsing value framer).2 := by
    rintro value rest framer rfl
    exact acceptByteNoting_framer value rest
  obtain ⟨answers, states⟩ := @Run.respond_refines Byte Tsr Framer (Option Packet) acceptByteNoting parsing
    (fun rest framer => rest.framer = framer) refines bytes tsr tsr.framer rfl
  have mapped := Run.respond_map (fun handed : Option (List Byte) => handed.bind imePacketParse)
    Framer.accept bytes tsr.framer
  rw [answers, states, show Run.respond parsing bytes tsr.framer = _ from mapped]
  exact ⟨rfl, rfl⟩

theorem run_acceptByte_framer (bytes : List Byte) (tsr : Tsr) :
    (Run.run acceptByte bytes tsr).framer = (Run.respond Framer.accept bytes tsr.framer).2 := by
  rw [← (respond_acceptByteNoting bytes tsr).2, Run.respond_state acceptByteNoting_state]

theorem reduceOption_acceptByteNoting (bytes : List Byte) (tsr : Tsr) :
    (Run.respond acceptByteNoting bytes tsr).1.reduceOption =
      (Run.respond Framer.accept bytes tsr.framer).1.reduceOption.filterMap imePacketParse := by
  rw [(respond_acceptByteNoting bytes tsr).1]
  simp only [List.reduceOption, List.filterMap_map, List.filterMap_filterMap]
  rfl

/-- From an empty buffer, the packets that `accept_byte` has accepted over a stream of
frames and noise are those of its good frames, each once and in order. -/
theorem acceptByte_packets (stream : Stream) (tsr : Tsr) (empty : tsr.rxPacket = [])
    (nothing : tsr.rxExpected = 0#16) :
    (Run.respond acceptByteNoting stream.bytes tsr).1.reduceOption = stream.packets ∧
      (Run.respond acceptByteNoting stream.bytes tsr).2 = Run.run acceptByte stream.bytes tsr := by
  have fresh : tsr.framer = {} := by rw [Tsr.framer, empty, nothing]
  refine ⟨?_, Run.respond_state acceptByteNoting_state stream.bytes tsr⟩
  rw [reduceOption_acceptByteNoting, fresh, (Framer.respond_stream stream).1, List.filterMap_map,
    Stream.packets, ← List.filterMap_eq_map, List.filterMap_filter]
  congr 1
  funext frame
  simp [Frame.imePacketParse_bytes]

/-- Garbage that ends in half a magic, a PING with a bad checksum, and a TEXT that holds
the magic. -/
def badThenGood : Stream where
  stretches :=
    [(⟨[0x67#8, 0x61#8, 0x49#8], by decide⟩,
        { (Packet.mk imePing 1#16 []).frame (by decide) with crc := 0#16 }),
      (⟨[], by decide⟩, (Packet.mk imeText 2#16 [0x49#8, 0x44#8]).frame (by decide))]
  tail := ⟨[0x49#8], by decide⟩

theorem acceptByte_packets_badThenGood :
    (Run.respond acceptByteNoting badThenGood.bytes {}).1.reduceOption =
      [⟨imeText, 2#16, [0x49#8, 0x44#8]⟩] := by
  have good : badThenGood.packets = [⟨imeText, 2#16, [0x49#8, 0x44#8]⟩] := by decide +kernel
  rw [(acceptByte_packets badThenGood {} rfl rfl).1, good]

end ImeBridge
