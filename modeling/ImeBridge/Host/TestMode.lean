import ImeBridge.Link.Receivers

/-! # The test mode of the host

`RunClientAsync` and `SendAsync` of `Program.cs` on the bytes of one connection, with what
they write to it and to the console.
-/

namespace ImeBridge.Program

/-- A line on the console. -/
inductive ConsoleLine where
  | rx (packet : Packet)
  | tx (packet : Packet)
  | closeIme (sequence : Word)
  | textAck (sequence : Word)
  | disconnected
  deriving DecidableEq, Repr

def ConsoleLine.text : ConsoleLine → String
  | .rx packet =>
    s!"RX type={packet.type.toNat} seq={packet.sequence.toNat} length={packet.payload.length}"
  | .tx packet =>
    s!"TX type={packet.type.toNat} seq={packet.sequence.toNat} length={packet.payload.length}"
  | .closeIme sequence => s!"CLOSE_IME seq={sequence.toNat}"
  | .textAck sequence => s!"TEXT_ACK seq={sequence.toNat}"
  | .disconnected => "Disconnected"

/-- What a part of the program writes, and the message of the exception that ends it. -/
structure TestRun where
  written : List Byte := []
  console : List ConsoleLine := []
  thrown : Option String := none
  deriving DecidableEq, Repr

/-- The later part is only come to if the first one does not throw. -/
def TestRun.followedBy (first later : TestRun) : TestRun :=
  match first.thrown with
  | some _ => first
  | none => ⟨first.written ++ later.written, first.console ++ later.console, later.thrown⟩

def print (line : ConsoleLine) : TestRun := { console := [line] }

def sendAsync (packet : Packet) : TestRun :=
  match CSharp.encode packet with
  | .error message => { thrown := some message }
  | .ok wire => TestRun.followedBy { written := wire } (print (.tx packet))

/-- The body of the loop behind the read. -/
def receive (text : List Byte) (packet : Packet) : TestRun :=
  (print (.rx packet)).followedBy <|
    if packet.type = imeHello ∨ packet.type = imePing then sendAsync ⟨imePong, packet.sequence, []⟩
    else if packet.type = imeOpenIme then sendAsync ⟨imeText, packet.sequence, text⟩
    else if packet.type = imeCloseIme then print (.closeIme packet.sequence)
    else if packet.type = imeTextAck then print (.textAck packet.sequence)
    else {}

/-- Each turn takes a packet off the stream, so a stream never needs more turns than it has
bytes, and one. -/
def runTurns (text : List Byte) : Nat → List Byte → TestRun
  | 0, _ => {}
  | turns + 1, stream =>
    match readPacketAsync stream with
    | .error .endOfStream => print .disconnected
    | .error (.invalidData message) => { thrown := some message }
    | .ok (packet, rest) => (receive text packet).followedBy (runTurns text turns rest)

def runClientAsync (text stream : List Byte) : TestRun := runTurns text (stream.length + 1) stream

/-! ## One turn after the other -/

/-- What `RunClientAsync` answers. -/
def answer (text : List Byte) (packet : Packet) : Option Packet :=
  if packet.type = imeHello ∨ packet.type = imePing then some ⟨imePong, packet.sequence, []⟩
  else if packet.type = imeOpenIme then some ⟨imeText, packet.sequence, text⟩
  else none

/-- And prints. -/
def lines (text : List Byte) (packet : Packet) : List ConsoleLine :=
  .rx packet :: (answer text packet).toList.map .tx ++
    (if packet.type = imeCloseIme then [.closeIme packet.sequence]
    else if packet.type = imeTextAck then [.textAck packet.sequence] else [])

def wire (packet : Packet) : List Byte := imePacketBuild packet.type packet.sequence packet.payload

theorem sendAsync_eq (packet : Packet) (fits : packet.payload.length ≤ imeMaxPayload) :
    sendAsync packet = ⟨wire packet, [.tx packet], none⟩ := by
  rw [sendAsync, CSharp.encode_eq packet fits, wire, imePacketBuild_eq _ _ _ fits]
  simp [TestRun.followedBy, print]

/-- Unless it is an OPEN_IME and the text is too long for a packet, the packet is answered. -/
theorem receive_eq {text : List Byte} {packet : Packet}
    (fits : packet.type = imeOpenIme → text.length ≤ imeMaxPayload) :
    receive text packet = ⟨(answer text packet).toList.flatMap wire, lines text packet, none⟩ := by
  simp only [receive, answer, lines]
  by_cases asks : packet.type = imeHello ∨ packet.type = imePing
  · rw [if_pos asks, if_pos asks, sendAsync_eq _ (Nat.zero_le _)]
    rcases asks with hello | ping
    · simp [TestRun.followedBy, print, hello]
    · simp [TestRun.followedBy, print, ping]
  rw [if_neg asks, if_neg asks]
  by_cases opens : packet.type = imeOpenIme
  · rw [if_pos opens, if_pos opens, sendAsync_eq _ (fits opens)]
    simp [TestRun.followedBy, print, opens]
  rw [if_neg opens, if_neg opens]
  by_cases closes : packet.type = imeCloseIme
  · simp [TestRun.followedBy, print, closes]
  by_cases acknowledges : packet.type = imeTextAck
  · simp [TestRun.followedBy, print, acknowledges]
  · simp [TestRun.followedBy, print, closes, acknowledges]

/-- With a text that is too long for a packet, `Packet.Encode` throws at an OPEN_IME. -/
theorem receive_oversized {text : List Byte} (oversized : imeMaxPayload < text.length) {packet : Packet}
    (opens : packet.type = imeOpenIme) :
    receive text packet = ⟨[], [.rx packet], some "Payload exceeds 512 bytes."⟩ := by
  have asks : ¬ (packet.type = imeHello ∨ packet.type = imePing) := by simp [opens]
  have throws : CSharp.encode ⟨imeText, packet.sequence, text⟩ = .error "Payload exceeds 512 bytes." :=
    if_pos oversized
  rw [receive, if_neg asks, if_pos opens, sendAsync, throws]
  rfl

/-- More turns than bytes change nothing. -/
theorem runTurns_enough (text : List Byte) {turns : Nat} {stream : List Byte} (enough : stream.length < turns) :
    runTurns text turns stream = runClientAsync text stream := by
  rw [runClientAsync]
  -- On the turns there are; what is left of the stream behind a packet is shorter.
  induction turns using Nat.strong_induction_on generalizing stream with
  | _ turns inductionHypothesis =>
    obtain ⟨turns, rfl⟩ : ∃ fewer, turns = fewer + 1 := ⟨turns - 1, by omega⟩
    simp only [runTurns]
    cases read : readPacketAsync stream with
    | error error => cases error <;> rfl
    | ok outcome =>
      obtain ⟨packet, rest⟩ := outcome
      have shorter := BridgeForm.length_readPacketAsync (readPacketAsync_eq ▸ read)
      dsimp only
      by_cases more : stream.length < turns
      · rw [inductionHypothesis turns (Nat.lt_succ_self _) (by omega : rest.length < turns),
          inductionHypothesis stream.length (by omega) (by omega : rest.length < stream.length)]
      · obtain rfl : turns = stream.length := by omega
        rfl

theorem runClientAsync_packet (text : List Byte) {stream rest : List Byte} {packet : Packet}
    (read : readPacketAsync stream = .ok (packet, rest)) :
    runClientAsync text stream = (receive text packet).followedBy (runClientAsync text rest) := by
  have shorter := BridgeForm.length_readPacketAsync (readPacketAsync_eq ▸ read)
  rw [runClientAsync, runTurns, read]
  exact congrArg (receive text packet).followedBy
    (runTurns_enough text (by omega : rest.length < stream.length))

/-! ## Whole streams -/

/-- A packet on the stream and the noise before it, which does not hide it. -/
structure Sent where
  noise : List Byte
  clean : ¬ [imeMagic0, imeMagic1] <:+: noise
  even : Even (trailingMagic noise)
  packet : Packet
  fits : packet.payload.length ≤ imeMaxPayload

def Sent.bytes (sent : Sent) : List Byte := sent.noise ++ wire sent.packet

theorem Sent.read (sent : Sent) (rest : List Byte) :
    readPacketAsync (sent.bytes ++ rest) = .ok (sent.packet, rest) := by
  rw [readPacketAsync_eq, bytes, wire, imePacketBuild_eq _ _ _ sent.fits]
  exact (readPacketAsync_noise sent.clean sent.packet sent.fits rest).mpr sent.even

/-- A frame that is found is read whole, whatever `Decode` makes of it. -/
theorem readPacketAsync_whole (frame : Frame) {stream rest : List Byte}
    (found : findMagic stream = .ok ((), frame.bytes.drop 2 ++ rest)) :
    BridgeForm.readPacketAsync stream =
      match CSharp.decode frame.bytes with
      | .ok packet => .ok (packet, rest)
      | .error message => .error (.invalidData message) := by
  let fields := [frame.version, frame.type, frame.sequence.low, frame.sequence.high,
    frame.length.low, frame.length.high]
  let tail := frame.payload ++ [frame.crc.low, frame.crc.high]
  have cut : frame.bytes.drop 2 ++ rest = fields ++ (tail ++ rest) := by
    simp [Frame.bytes, Frame.body, fields, tail]
  have header : readExactlyAsync 6 (fields ++ (tail ++ rest)) = .ok (fields, tail ++ rest) :=
    BridgeForm.readExactlyAsync_append fields _
  have lengthField : (CSharp.readUInt16LittleEndian
      ((0x49#8 :: 0x44#8 :: fields).drop 6)).toNat = frame.payload.length := by
    rw [← frame.toNat_length]
    exact congrArg BitVec.toNat (word_low_high frame.length)
  have behind : readExactlyAsync (frame.payload.length + 2) (tail ++ rest) = .ok (tail, rest) := by
    have length : tail.length = frame.payload.length + 2 := by simp [tail]
    rw [← length]
    exact BridgeForm.readExactlyAsync_append tail rest
  have short : ¬ frame.payload.length > CSharp.maxPayload := Nat.not_lt.mpr frame.fits
  have whole : (0x49#8 :: 0x44#8 :: fields) ++ tail = frame.bytes := by
    simp [Frame.bytes, Frame.body, fields, tail, imeMagic0, imeMagic1]
  rw [cut] at found
  simp only [BridgeForm.readPacketAsync, readPacketWith, bind, StateT.bind, found, Except.bind, header,
    lengthField, if_neg short, behind, whole]
  cases CSharp.decode frame.bytes <;> rfl

/-- A frame with a checksum or a version that is not right ends the program. -/
theorem runClientAsync_damaged (text : List Byte) {noise : List Byte}
    (clean : ¬ [imeMagic0, imeMagic1] <:+: noise) (even : Even (trailingMagic noise)) {frame : Frame}
    (damaged : ¬ frame.Good) (rest : List Byte) :
    ∃ message, runClientAsync text (noise ++ frame.bytes ++ rest) = { thrown := some message } := by
  have found := findMagic_noise clean (frame.bytes.drop 2 ++ rest)
  rw [if_pos even] at found
  have stream : noise ++ imeMagic0 :: imeMagic1 :: (frame.bytes.drop 2 ++ rest) =
      noise ++ frame.bytes ++ rest := by
    simp [Frame.bytes, Frame.body]
  rw [stream] at found
  have read := readPacketAsync_whole frame found
  rw [← readPacketAsync_eq] at read
  have refused := CSharp.decode_bytes frame
  rw [if_neg damaged] at refused
  cases decoded : CSharp.decode frame.bytes with
  | ok packet => simp [decoded, Except.toOption] at refused
  | error message =>
    rw [decoded] at read
    exact ⟨message, by simp only [runClientAsync, runTurns, read]⟩

theorem runClientAsync_sent {text : List Byte} (sent : List Sent)
    (fits : ∀ packet ∈ sent.map Sent.packet, packet.type = imeOpenIme → text.length ≤ imeMaxPayload)
    (rest : List Byte) :
    runClientAsync text (sent.flatMap Sent.bytes ++ rest) =
      { written := (sent.filterMap fun sent => answer text sent.packet).flatMap wire ++
          (runClientAsync text rest).written
        console := sent.flatMap (fun sent => lines text sent.packet) ++ (runClientAsync text rest).console
        thrown := (runClientAsync text rest).thrown } := by
  induction sent with
  | nil => rfl
  | cons first sent inductionHypothesis =>
    obtain ⟨here, later⟩ := List.forall_mem_cons.mp fits
    rw [List.flatMap_cons, List.append_assoc, runClientAsync_packet text (first.read _), receive_eq here,
      inductionHypothesis later]
    cases answers : answer text first.packet with
    | none => simp [TestRun.followedBy, answers]
    | some packet => simp [TestRun.followedBy, answers]

end ImeBridge.Program

namespace ImeBridge

open Program

/-- The test host answers each HELLO, PING and OPEN_IME of a stream, in their order and with
their numbers, noise between the packets or not; it ends where the stream does, and at the
first frame whose checksum or version is not right, by an exception and without an answer to
anything behind it.  So it does at the first OPEN_IME if its text is too long for a packet. -/
theorem test_host_answers {text : List Byte} (sent : List Sent)
    (fits : ∀ packet ∈ sent.map Sent.packet, packet.type = imeOpenIme → text.length ≤ imeMaxPayload) :
    let answers := (sent.filterMap fun sent => answer text sent.packet).flatMap wire
    let printed := sent.flatMap fun sent => lines text sent.packet
    runClientAsync text (sent.flatMap Sent.bytes) = ⟨answers, printed ++ [.disconnected], none⟩ ∧
      (∀ (noise : List Byte) (frame : Frame) (rest : List Byte), ¬ [imeMagic0, imeMagic1] <:+: noise →
        Even (trailingMagic noise) → ¬ frame.Good →
        ∃ message, runClientAsync text (sent.flatMap Sent.bytes ++ (noise ++ frame.bytes ++ rest)) =
          ⟨answers, printed, some message⟩) ∧
      ∀ (opened : Sent) (rest : List Byte), opened.packet.type = imeOpenIme → imeMaxPayload < text.length →
        ∃ message, runClientAsync text (sent.flatMap Sent.bytes ++ (opened.bytes ++ rest)) =
          ⟨answers, printed ++ [.rx opened.packet], some message⟩ := by
  intro answers printed
  refine ⟨?_, ?_, ?_⟩
  · have ends := runClientAsync_sent sent fits []
    rw [List.append_nil] at ends
    rw [ends]
    simp only [show runClientAsync text [] = print .disconnected from rfl, print, List.append_nil]
    rfl
  · intro noise frame rest clean even damaged
    obtain ⟨message, thrown⟩ := runClientAsync_damaged text clean even damaged rest
    refine ⟨message, ?_⟩
    rw [runClientAsync_sent sent fits, thrown, List.append_nil, List.append_nil]
  · intro opened rest opens oversized
    have thrown : runClientAsync text (opened.bytes ++ rest) = _ :=
      (runClientAsync_packet text (opened.read rest)).trans
        (congrArg (TestRun.followedBy · _) (receive_oversized oversized opens))
    refine ⟨"Payload exceeds 512 bytes.", ?_⟩
    rw [runClientAsync_sent sent fits, thrown]
    simp only [TestRun.followedBy, List.append_nil]
    rfl

theorem strayMagic_clean : ¬ [imeMagic0, imeMagic1] <:+: [0x67#8, 0x49#8, 0x49#8] := by decide

/-- A HELLO behind three bytes of noise, and an OPEN_IME. -/
def greetedAndOpened : List Sent :=
  [{ noise := [0x67#8, 0x49#8, 0x49#8], clean := strayMagic_clean, even := ⟨1, rfl⟩
     packet := ⟨imeHello, 1#16, []⟩, fits := Nat.zero_le 512 },
    { noise := [], clean := fun stray => (List.cons_ne_nil _ _ (List.infix_nil.mp stray)).elim, even := ⟨0, rfl⟩
      packet := ⟨imeOpenIme, 2#16, []⟩, fits := Nat.zero_le 512 }]

theorem test_host_answers_letter :
    let answers := (greetedAndOpened.filterMap fun sent => answer [0x41#8] sent.packet).flatMap wire
    let printed := greetedAndOpened.flatMap fun sent => lines [0x41#8] sent.packet
    runClientAsync [0x41#8] (greetedAndOpened.flatMap Sent.bytes) = ⟨answers, printed ++ [.disconnected], none⟩ ∧
      (∀ (noise : List Byte) (frame : Frame) (rest : List Byte), ¬ [imeMagic0, imeMagic1] <:+: noise →
        Even (trailingMagic noise) → ¬ frame.Good →
        ∃ message, runClientAsync [0x41#8]
            (greetedAndOpened.flatMap Sent.bytes ++ (noise ++ frame.bytes ++ rest)) =
          ⟨answers, printed, some message⟩) ∧
      ∀ (opened : Sent) (rest : List Byte), opened.packet.type = imeOpenIme →
        imeMaxPayload < [0x41#8].length →
        ∃ message, runClientAsync [0x41#8] (greetedAndOpened.flatMap Sent.bytes ++ (opened.bytes ++ rest)) =
          ⟨answers, printed ++ [.rx opened.packet], some message⟩ :=
  @test_host_answers [0x41#8] greetedAndOpened fun _ _ _ => by decide

end ImeBridge
