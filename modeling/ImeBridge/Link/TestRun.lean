import ImeBridge.Client.Main
import ImeBridge.Host.TestMode

/-! # A run of the foreground client against the test host

IME98.COM and the test mode of the host on one connection.  The bytes of the host may come
late, but never behind four reads that time out.
-/

namespace ImeBridge

open Program

/-! ## Bytes that come late -/

/-- Bytes, each behind as many reads that time out as `delay` says. -/
def late : List Byte → (Nat → Nat) → List (Option Byte)
  | [], _ => []
  | byte :: bytes, delay =>
    List.replicate (delay 0) none ++ some byte :: late bytes fun index => delay (index + 1)

theorem reduceOption_late (bytes : List Byte) (delay : Nat → Nat) : (late bytes delay).reduceOption = bytes := by
  induction bytes generalizing delay with
  | nil => rfl
  | cons byte bytes inductionHypothesis =>
    have waits : (List.replicate (delay 0) (none : Option Byte)).reduceOption = [] := by
      rw [List.reduceOption_replicate_none]
    rw [late, List.reduceOption_append, waits, List.nil_append, List.reduceOption_cons_of_some,
      inductionHypothesis]

theorem prompt_replicate {idle count : Nat} (few : idle + count < 4) {reads : List (Option Byte)} {byte : Byte}
    (prompt : ReadPacket.Prompt 0 reads) :
    ReadPacket.Prompt idle (List.replicate count none ++ some byte :: reads) := by
  induction count generalizing idle with
  | zero => exact prompt
  | succ count inductionHypothesis => exact ⟨by omega, inductionHypothesis (by omega)⟩

theorem prompt_late (bytes : List Byte) {delay : Nat → Nat} (soon : ∀ index, delay index < 4) :
    ReadPacket.Prompt 0 (late bytes delay) := by
  induction bytes generalizing delay with
  | nil => trivial
  | cons byte bytes inductionHypothesis =>
    exact prompt_replicate (by have := soon 0; omega) (inductionHypothesis fun index => soon (index + 1))

theorem getLast?_late (bytes : List Byte) (delay : Nat → Nat) :
    (late bytes delay).getLast? ≠ some none := by
  induction bytes generalizing delay with
  | nil => simp [late]
  | cons byte bytes inductionHypothesis =>
    rw [late, List.getLast?_append, List.getLast?_cons]
    cases last : (late bytes fun index => delay (index + 1)).getLast? with
    | none => simp
    | some read =>
      have isByte := inductionHypothesis fun index => delay (index + 1)
      rw [last] at isByte
      simpa using isByte

/-- Behind the last byte nothing is left. -/
theorem late_suffix {bytes : List Byte} {delay : Nat → Nat} {left : List (Option Byte)}
    (suffix : left <:+ late bytes delay) (nothing : left.reduceOption = []) : left = [] := by
  obtain ⟨count, rfl⟩ := (List.reduceOption_eq_nil_iff left).mp nothing
  cases count with
  | zero => rfl
  | succ count =>
    obtain ⟨front, split⟩ := suffix
    have last := getLast?_late bytes delay
    rw [← split, List.replicate_succ', ← List.append_assoc, List.getLast?_concat] at last
    exact absurd rfl last

namespace ReadPacket

/-- A frame that is longer than the byte budget is never returned. -/
theorem loop_long (frame : Frame) (long : 128 < frame.bytes.length) {filled rest : List Byte}
    {locals : ReadPacket} (split : filled ++ rest = frame.bytes) (packet : locals.packet = filled)
    (expected : locals.expected = if filled.length < 8 then 0#16 else 10#16 + frame.length)
    (counted : locals.byteReads = filled.length) : (loop (rest.map some) locals).1 = none := by
  induction rest generalizing filled locals with
  | nil => rfl
  | cons value rest inductionHypothesis =>
    rw [List.map_cons, loop]
    split
    · rename_i running
      have budget := running.2
      rw [body_frame frame split packet expected]
      have more : rest ≠ [] := by
        rintro rfl
        have lengths := congrArg List.length split
        rw [List.length_append, List.length_singleton] at lengths
        omega
      simp only [more, if_false]
      refine inductionHypothesis ?_ rfl rfl (by simp [counted])
      rw [← split, ← List.append_cons]
    · rfl

end ReadPacket

/-- Within the budget a late frame is read, and nothing is left of it. -/
theorem readPacket_late (frame : Frame) {delay : Nat → Nat} (soon : ∀ index, delay index < 4) :
    (frame.bytes.length ≤ 128 → readPacket (late frame.bytes delay) = (some frame.bytes, [])) ∧
      (128 < frame.bytes.length → (readPacket (late frame.bytes delay)).1 = none) := by
  have bytes := (@ReadPacket.loop_prompt (late frame.bytes delay) {} (prompt_late _ soon) (by decide)).1
  rw [reduceOption_late] at bytes
  constructor
  · intro short
    have unfinished : frame.bytes ≠ [] := by
      rw [ne_eq, ← List.length_eq_zero_iff, Frame.length_bytes]
      omega
    have whole := @ReadPacket.loop_frame frame [] frame.bytes {} rfl unfinished rfl rfl (by decide)
      (by dsimp only; omega) []
    rw [List.append_nil] at whole
    obtain ⟨packet, nothing⟩ := Prod.mk.inj (bytes.symm.trans whole)
    have left := late_suffix (ReadPacket.loop_suffix (late frame.bytes delay) {})
      (List.map_eq_nil_iff.mp nothing)
    exact Prod.ext packet left
  · intro long
    have none := @ReadPacket.loop_long frame long [] frame.bytes {} rfl rfl rfl rfl
    exact (congrArg Prod.fst bytes).symm.trans none

namespace Client

variable {client : Client}

/-- The transmitter works, and nothing is on its way. -/
structure Healthy (client : Client) : Prop where
  opened : client.serialOpened = true
  limits : client.transmitLimits = []
  coming : client.coming = []

/-- A packet has gone out whole; this is left of what came back. -/
def answered (client : Client) (packet : Packet) (length : Nat) (left : List (Option Byte)) : Client :=
  { client with
    taken := client.taken + 1
    coming := left
    history := client.history ++ [.sent packet length true] }

theorem Healthy.takes (healthy : client.Healthy) (length : Nat) : client.Takes length :=
  ⟨healthy.opened, by simp [healthy.limits]⟩

theorem Healthy.answered (healthy : client.Healthy) (packet : Packet) (length : Nat) :
    (client.answered packet length []).Healthy := ⟨healthy.opened, healthy.limits, rfl⟩

theorem Healthy.note (healthy : client.Healthy) (event : ClientEvent) : (client.note event).Healthy :=
  ⟨healthy.opened, healthy.limits, healthy.coming⟩

/-- What is read behind a request. -/
theorem Healthy.readPacket (healthy : client.Healthy) (packet : Packet) (length : Nat) :
    (client.send packet length).readPacket =
      ((ImeBridge.readPacket (client.host client.taken packet)).1,
        client.answered packet length (ImeBridge.readPacket (client.host client.taken packet)).2) := by
  obtain ⟨⟨host, taken, coming, limits⟩, opened, memory, history⟩ := client
  obtain ⟨isOpen, noLimit, nothing⟩ := healthy
  obtain rfl : opened = true := isOpen
  obtain rfl : limits = [] := noLimit
  obtain rfl : coming = [] := nothing
  rfl

section Answer

variable {answerType : Byte} {payload : List Byte} {delay : Nat → Nat}

/-- The reads of an answer, and the answer if it is within the budget of `read_packet`. -/
theorem readPacket_answer (sequence : Word) (fits : payload.length ≤ imeMaxPayload)
    (soon : ∀ index, delay index < 4) :
    ∃ left, ImeBridge.readPacket (late (imePacketBuild answerType sequence payload) delay) =
        (if payload.length ≤ 118 then some (imePacketBuild answerType sequence payload) else none, left) ∧
      (payload.length ≤ 118 → left = []) := by
  rw [imePacketBuild_eq answerType sequence payload fits]
  obtain ⟨short, long⟩ := readPacket_late ((Packet.mk answerType sequence payload).frame fits) soon
  have length : ((Packet.mk answerType sequence payload).frame fits).bytes.length = 10 + payload.length :=
    Frame.length_bytes _
  rw [length] at short long
  refine ⟨_, Prod.ext ?_ rfl, fun within => ?_⟩
  · by_cases within : payload.length ≤ 118
    · rw [if_pos within, short (by omega)]
    · rw [if_neg within]
      exact long (by omega)
  · rw [short (by omega)]

theorem parse_answer (sequence : Word) (fits : payload.length ≤ imeMaxPayload) :
    imePacketParse (imePacketBuild answerType sequence payload) = some ⟨answerType, sequence, payload⟩ := by
  rw [imePacketBuild_eq answerType sequence payload fits, Frame.imePacketParse_bytes,
    if_pos (Packet.frame_good _ fits)]
  rfl

/-- A request that is answered in time. -/
theorem Healthy.exchange (healthy : client.Healthy) (type : Byte) {sequence : Word}
    (fits : payload.length ≤ imeMaxPayload) (soon : ∀ index, delay index < 4)
    (answers : client.host client.taken ⟨type, sequence, []⟩ =
      late (imePacketBuild answerType sequence payload) delay) :
    ∃ left, client.exchange type sequence =
        (if payload.length ≤ 118 then some (answerType, payload) else none,
          client.answered ⟨type, sequence, []⟩ 10 left) ∧
      (payload.length ≤ 118 → left = []) := by
  obtain ⟨left, read, nothing⟩ := @readPacket_answer answerType payload delay sequence fits soon
  refine ⟨left, ?_, nothing⟩
  rw [exchange_takes type sequence (healthy.takes 10), asking, healthy.readPacket, answers, read]
  refine Prod.ext ?_ rfl
  by_cases within : payload.length ≤ 118
  · simp [answerOf, within, parse_answer sequence fits]
  · simp [answerOf, within]

/-- HELLO is answered at the first attempt. -/
theorem Healthy.helloExchange (healthy : client.Healthy) (soon : ∀ index, delay index < 4)
    (answers : client.host client.taken ⟨imeHello, 1#16, hello⟩ = late helloAnswer delay) :
    client.helloExchange = (true, client.answered ⟨imeHello, 1#16, hello⟩ 21 []) := by
  have length : (imePacketBuild imeHello 1#16 hello).length = 21 := by decide
  obtain ⟨left, read, nothing⟩ := @readPacket_answer imePong [] delay 1#16 (Nat.zero_le _) soon
  obtain rfl := nothing (Nat.zero_le _)
  have written := serialWrite_takes ⟨imeHello, 1#16, hello⟩ (healthy.takes (imePacketBuild imeHello 1#16 hello).length)
  rw [length] at written
  have attempt : client.helloAttempt = (true, client.answered ⟨imeHello, 1#16, hello⟩ 21 []) := by
    have parsed := @parse_answer imePong [] 1#16 (Nat.zero_le _)
    simp only [helloAttempt, written, Bool.not_true, healthy.readPacket, answers]
    rw [helloAnswer, read]
    simp [parsed]
  simp only [Client.helloExchange, helloAttempts, if_true, attempt]

end Answer

end Client

/-! ## The run -/

/-- The bytes that reach the other end of the line. -/
def ClientEvent.onLine : ClientEvent → List Byte
  | .sent packet written _ => (wire packet).take written
  | _ => []

/-- The line to the test host, whose answer to a packet is the one of `RunClientAsync`. -/
def testLine (text : List Byte) (delay : Nat → Nat → Nat) : HostLine where
  host taken packet := late ((answer text packet).toList.flatMap wire) (delay taken)

/-- What comes back on it is what `RunClientAsync` writes. -/
theorem testLine_written {text : List Byte} (fits : text.length ≤ imeMaxPayload) (delay : Nat → Nat → Nat)
    (packets : List Packet) (whole : ∀ packet ∈ packets, packet.payload.length ≤ imeMaxPayload)
    (taken : Nat) :
    ((packets.zipIdx taken).flatMap fun numbered => (testLine text delay).host numbered.2 numbered.1).reduceOption =
      (runClientAsync text (packets.flatMap wire)).written := by
  induction packets generalizing taken with
  | nil => rfl
  | cons packet packets inductionHypothesis =>
    let sent : Sent :=
      { noise := [], clean := by decide, even := by decide, packet, fits := whole packet List.mem_cons_self }
    have first : wire packet = sent.bytes := rfl
    have rest := inductionHypothesis (fun other member => whole other (List.mem_cons_of_mem _ member)) (taken + 1)
    rw [List.zipIdx_cons, List.flatMap_cons, List.reduceOption_append, rest, List.flatMap_cons, first,
      runClientAsync_packet text (sent.read _), receive_eq fun _ => fits]
    simp only [testLine, reduceOption_late]
    rfl

theorem testLine_pong (text : List Byte) (delay : Nat → Nat → Nat) (taken : Nat) {packet : Packet}
    (asks : packet.type = imeHello ∨ packet.type = imePing) :
    (testLine text delay).host taken packet = late (imePacketBuild imePong packet.sequence []) (delay taken) := by
  simp only [testLine, answer, if_pos asks, Option.toList_some, List.flatMap_singleton]
  rfl

theorem testLine_text (text : List Byte) (delay : Nat → Nat → Nat) (taken : Nat) (sequence : Word) :
    (testLine text delay).host taken ⟨imeOpenIme, sequence, []⟩ =
      late (imePacketBuild imeText sequence text) (delay taken) := by
  simp [testLine, answer, wire]

namespace Surroundings

variable {surroundings : Surroundings}

/-- The injection returns 1 exactly if there are words and they come into the queue. -/
theorem inject_iff_roomy (text : List Byte) (client : Client) (ring : client.memory.WellFormedRing) :
    (surroundings.inject text client).1 = true ↔
      keyWords text ≠ [] ∧ KeyboardInterrupt.Roomy surroundings.arrivals text client.memory := by
  obtain ⟨ring', reaches⟩ := surroundings.interrupt.injectTests_spec surroundings.arrivals text ring
  have result : (surroundings.inject text client).1 =
    (surroundings.interrupt.pc98BiosInject surroundings.arrivals text client.memory).1 := rfl
  rw [result]
  constructor
  · intro queued
    have words : keyWords text ≠ [] := by
      rintro none
      simp only [KeyboardInterrupt.pc98BiosInject] at queued
      generalize surroundings.interrupt.injectTests surroundings.arrivals text client.memory = tests at *
      obtain ⟨passes, typed⟩ := tests
      cases passes with
      | false => simp at queued
      | true =>
        have some := (reaches rfl).1.1
        rw [none] at some
        exact absurd some (Nat.lt_irrefl 0)
    refine ⟨words, (surroundings.interrupt.places_iff_roomy ring words).mp ?_⟩
    simp only [KeyboardInterrupt.pc98BiosInject] at queued ⊢
    generalize surroundings.interrupt.injectTests surroundings.arrivals text client.memory = tests at *
    obtain ⟨passes, typed⟩ := tests
    cases passes with
    | false => simp at queued
    | true =>
      have ring' : typed.WellFormedRing := ring'
      obtain ⟨succeeds, queue⟩ := ring'.injectLoop_spec text text.length 0 (by omega)
      rw [List.drop_zero] at succeeds queue
      have room := succeeds.mp queued
      refine queue.trans (List.take_of_length_le ?_)
      rw [List.length_append, Memory.WellFormedRing.queue_length]
      exact room
  · rintro ⟨words, empty, first, second, third, room⟩
    have some : 0 < (keyWords text).length := List.length_pos_iff.mpr words
    have passes := surroundings.interrupt.injectTests_passes ring empty some (by omega) first second third
    simp only [KeyboardInterrupt.pc98BiosInject, passes]
    obtain ⟨cli, queue, _⟩ := surroundings.interrupt.arrive_spec surroundings.arrivals.beforeCli ring
    refine (cli.injectLoop_spec text text.length 0 (by omega)).1.mpr ?_
    rw [List.drop_zero, ← Memory.WellFormedRing.queue_length, queue, empty, List.nil_append, List.length_take]
    omega

/-- What the client writes up to the TEXT. -/
def asked : List ClientEvent :=
  [.sent ⟨imeHello, 1#16, Client.hello⟩ 21 true, .sent ⟨imePing, 2#16, []⟩ 10 true,
    .sent ⟨imeOpenIme, 3#16, []⟩ 10 true]

section Test

variable {text : List Byte} {delay : Nat → Nat → Nat}

/-- With the device at hand the client gets its TEXT if that is within its budget. -/
theorem receiveText_test (fits : text.length ≤ imeMaxPayload) (soon : ∀ taken index, delay taken index < 4)
    (line : surroundings.line = testLine text delay) (control : surroundings.controlOpens = true)
    (session : surroundings.sessionOpens = true) :
    ∃ client : Client, surroundings.receiveText surroundings.start =
        (if text.length ≤ 118 then some text else none, client) ∧ client.memory = surroundings.memory ∧
      (text.length ≤ 118 → client.Healthy ∧ client.history = asked ++ [.received text]) ∧
      (¬ text.length ≤ 118 → client.history = asked) := by
  have start : surroundings.start.serialOpen.Healthy := ⟨rfl, by simp [start, line, testLine, Client.serialOpen],
    by simp [start, line, testLine, Client.serialOpen]⟩
  have host : surroundings.start.serialOpen.host = (testLine text delay).host := by
    simp [Surroundings.start, line, Client.serialOpen]
  have memory : surroundings.start.serialOpen.memory = surroundings.memory := rfl
  have history : surroundings.start.serialOpen.history = [] := rfl
  unfold receiveText
  simp only [control, session, Bool.not_true, Bool.false_eq_true, if_false]
  generalize surroundings.start.serialOpen = client at *
  have greeted := start.helloExchange (soon client.taken) (by rw [host]; exact testLine_pong text delay _ (.inl rfl))
  have waiting := start.answered ⟨imeHello, 1#16, Client.hello⟩ 21
  rw [greeted]
  have host' : (client.answered ⟨imeHello, 1#16, Client.hello⟩ 21 []).host = (testLine text delay).host := host
  have memory' : (client.answered ⟨imeHello, 1#16, Client.hello⟩ 21 []).memory = surroundings.memory := memory
  have history' : (client.answered ⟨imeHello, 1#16, Client.hello⟩ 21 []).history =
      [.sent ⟨imeHello, 1#16, Client.hello⟩ 21 true] := by simp [Client.answered, history]
  generalize client.answered ⟨imeHello, 1#16, Client.hello⟩ 21 [] = greeting at *
  obtain ⟨_, ponged, nothing⟩ := @Client.Healthy.exchange greeting imePong [] (delay greeting.taken) waiting
    imePing 2#16 (Nat.zero_le _) (soon greeting.taken)
    (by rw [host']; exact testLine_pong text delay _ (.inr rfl))
  obtain rfl := nothing (Nat.zero_le _)
  dsimp only
  rw [ponged]
  have ready := waiting.answered ⟨imePing, 2#16, []⟩ 10
  have host'' : (greeting.answered ⟨imePing, 2#16, []⟩ 10 []).host = (testLine text delay).host := host'
  have memory'' : (greeting.answered ⟨imePing, 2#16, []⟩ 10 []).memory = surroundings.memory := memory'
  have history'' : (greeting.answered ⟨imePing, 2#16, []⟩ 10 []).history =
      [.sent ⟨imeHello, 1#16, Client.hello⟩ 21 true, .sent ⟨imePing, 2#16, []⟩ 10 true] := by
    simp [Client.answered, history']
  generalize greeting.answered ⟨imePing, 2#16, []⟩ 10 [] = ponging at *
  obtain ⟨left, opened, nothing⟩ := @Client.Healthy.exchange ponging imeText text (delay ponging.taken) ready
    imeOpenIme 3#16 fits (soon ponging.taken) (by rw [host'']; exact testLine_text text delay _ _)
  by_cases within : text.length ≤ 118
  · obtain rfl := nothing within
    simp only [List.length_nil, Nat.zero_le, if_true, opened, within, ne_eq, not_true_eq_false, if_false]
    refine ⟨_, rfl, memory'', fun _ => ⟨(ready.answered _ _).note _, ?_⟩, False.elim⟩
    simp [Client.note, Client.answered, history'', asked]
  · simp only [List.length_nil, Nat.zero_le, if_true, opened, within, ne_eq, not_true_eq_false, if_false]
    refine ⟨_, rfl, memory'', fun short => absurd short id, fun _ => ?_⟩
    simp [Client.serialClose, Client.answered, history'', asked]

/-- Behind it the TEXT_ACK goes out, and the exit code is a matter of the queue. -/
theorem acknowledge_healthy {client : Client} (healthy : client.Healthy)
    (memory : client.memory = surroundings.memory) (verifyInjection : Bool) (text : List Byte) :
    ((surroundings.acknowledge verifyInjection text client).1 = 0 ↔
        verifyInjection = true ∨ keyWords text ≠ [] ∧
          KeyboardInterrupt.Roomy surroundings.arrivals text surroundings.memory) ∧
      ∃ before later, (surroundings.acknowledge verifyInjection text client).2.history =
          client.history ++ before ++ .sent ⟨imeTextAck, 3#16, []⟩ 10 true :: later ∧
        ∀ event ∈ before ++ later, ∃ typed queue, event = .injected typed queue := by
  have length : (imePacketBuild imeTextAck 3#16 []).length = 10 := by decide
  cases verifyInjection with
  | true =>
    obtain ⟨noted, line, opened⟩ := surroundings.pc98BiosInjectVerify_notes text client
    have healthy' : (surroundings.pc98BiosInjectVerify text client).2.Healthy := by
      refine ⟨opened.trans healthy.opened, ?_, ?_⟩
      · rw [line]
        exact healthy.limits
      · rw [line]
        exact healthy.coming
    simp only [acknowledge, if_true]
    generalize (surroundings.pc98BiosInjectVerify text client).2 = verified at *
    have written := Client.serialWrite_takes ⟨imeTextAck, 3#16, []⟩
      (healthy'.takes (imePacketBuild imeTextAck 3#16 []).length)
    rw [written, length]
    refine ⟨by simp, [surroundings.injection text client.memory], [], ?_, ?_⟩
    · simp [Client.serialClose, Client.send, Client.deliver, Client.note, noted]
    · intro event member
      rw [List.append_nil] at member
      exact ⟨_, _, List.mem_singleton.mp member⟩
  | false =>
    have written := Client.serialWrite_takes ⟨imeTextAck, 3#16, []⟩
      (healthy.takes (imePacketBuild imeTextAck 3#16 []).length)
    rw [length] at written
    simp only [acknowledge, Bool.false_eq_true, if_false, written, Bool.not_true, false_or]
    have same : (client.send ⟨imeTextAck, 3#16, []⟩ 10).serialClose.memory = surroundings.memory := memory
    have queued := @inject_iff_roomy surroundings text (client.send ⟨imeTextAck, 3#16, []⟩ 10).serialClose
      (same ▸ surroundings.ring)
    have noted := (surroundings.inject_notes text (client.send ⟨imeTextAck, 3#16, []⟩ 10).serialClose).1
    rw [same] at queued
    have history : (client.send ⟨imeTextAck, 3#16, []⟩ 10).serialClose.history =
        client.history ++ [.sent ⟨imeTextAck, 3#16, []⟩ 10 true] := rfl
    rw [history, same] at noted
    generalize surroundings.inject text (client.send ⟨imeTextAck, 3#16, []⟩ 10).serialClose = injected at *
    obtain ⟨succeeds, final⟩ := injected
    rw [← queued]
    refine ⟨by cases succeeds <;> simp, [], [surroundings.injection text surroundings.memory], ?_, ?_⟩
    · cases succeeds <;> simpa using noted
    · intro event member
      exact ⟨_, _, List.mem_singleton.mp member⟩

end Test

end Surroundings

/-- Other events than writes are not seen on the line. -/
theorem onLine_injected {events : List ClientEvent}
    (injections : ∀ event ∈ events, ∃ typed queue, event = .injected typed queue) :
    events.flatMap ClientEvent.onLine = [] := by
  rw [List.flatMap_eq_nil_iff]
  intro event member
  obtain ⟨typed, queue, rfl⟩ := injections event member
  rfl

/-- The test host on packets without noise. -/
theorem runClientAsync_packets {text : List Byte} (fits : text.length ≤ imeMaxPayload) (packets : List Packet)
    (whole : ∀ packet ∈ packets, packet.payload.length ≤ imeMaxPayload) :
    runClientAsync text (packets.flatMap wire) =
      ⟨(packets.filterMap (answer text)).flatMap wire, packets.flatMap (lines text) ++ [.disconnected], none⟩ := by
  induction packets with
  | nil => rfl
  | cons packet packets inductionHypothesis =>
    let sent : Sent :=
      { noise := [], clean := by decide, even := by decide, packet, fits := whole packet List.mem_cons_self }
    have first : wire packet = sent.bytes := rfl
    rw [List.flatMap_cons, first, runClientAsync_packet text (sent.read _), receive_eq fun _ => fits,
      inductionHypothesis fun other member => whole other (List.mem_cons_of_mem _ member)]
    cases answers : answer text packet with
    | none => simp [TestRun.followedBy, sent, answers]
    | some reply => simp [TestRun.followedBy, sent, answers]

/-- The four packets of a client that gets its TEXT. -/
def testPackets : List Packet :=
  [⟨imeHello, 1#16, Client.hello⟩, ⟨imePing, 2#16, []⟩, ⟨imeOpenIme, 3#16, []⟩, ⟨imeTextAck, 3#16, []⟩]

theorem testPackets_whole : ∀ packet ∈ testPackets, packet.payload.length ≤ imeMaxPayload := by decide

theorem onLine_asked : Surroundings.asked.flatMap ClientEvent.onLine = (testPackets.take 3).flatMap wire := by
  decide +kernel

/-- The client and the test host, whose answers may come late but never behind four reads that
time out.  The exit code is 0 exactly if IME98$ opens a session, the text is within the budget
of `read_packet`, and its words come into the queue or /VERIFY was given; the host prints the
TEXT_ACK whatever became of the words, and it ends with the connection.  What comes over the
line is what the host writes. -/
theorem test_run_passes_iff (surroundings : Surroundings) {text : List Byte} (fits : text.length ≤ imeMaxPayload)
    {delay : Nat → Nat → Nat} (soon : ∀ taken index, delay taken index < 4)
    (line : surroundings.line = testLine text delay) (argv : List (List Byte)) :
    let run := surroundings.main argv
    let host := runClientAsync text (run.2.history.flatMap ClientEvent.onLine)
    let arrives := surroundings.controlOpens = true ∧ surroundings.sessionOpens = true ∧ text.length ≤ 118
    (run.1 = 0 ↔ arrives ∧ (Surroundings.verifyInjection argv = true ∨ keyWords text ≠ [] ∧
        KeyboardInterrupt.Roomy surroundings.arrivals text surroundings.memory)) ∧
      (.textAck 3#16 ∈ host.console ↔ arrives) ∧ host.console.getLast? = some .disconnected ∧
      host.thrown = none ∧
      ∀ packets : List Packet, (∀ packet ∈ packets, packet.payload.length ≤ imeMaxPayload) →
        (packets.zipIdx.flatMap fun sent => surroundings.line.host sent.2 sent.1).reduceOption =
          (runClientAsync text (packets.flatMap wire)).written := by
  intro run host arrives
  have writes : ∀ packets : List Packet, (∀ packet ∈ packets, packet.payload.length ≤ imeMaxPayload) →
      (packets.zipIdx.flatMap fun sent => surroundings.line.host sent.2 sent.1).reduceOption =
        (runClientAsync text (packets.flatMap wire)).written := by
    intro packets whole
    rw [line]
    exact testLine_written fits delay packets whole 0
  by_cases opens : surroundings.controlOpens = true ∧ surroundings.sessionOpens = true
  swap
  · -- The client gives up before it writes anything.
    have fails : ¬ arrives := fun within => opens ⟨within.1, within.2.1⟩
    have gives : run.1 = 1 ∧ run.2.history = [] := by
      simp only [run, Surroundings.main, Surroundings.receiveText]
      cases control : surroundings.controlOpens with
      | false => exact ⟨rfl, rfl⟩
      | true =>
        have session : surroundings.sessionOpens = false := by simpa [control] using opens
        rw [session]
        exact ⟨rfl, rfl⟩
    have silent : host = ⟨[], [.disconnected], none⟩ := by
      simp only [host, gives.2]
      rfl
    rw [gives.1, silent]
    exact ⟨iff_of_false (by decide) fun within => fails within.1, iff_of_false (by decide) fails, rfl, rfl, writes⟩
  obtain ⟨control, session⟩ := opens
  obtain ⟨client, received, memory, short, long⟩ :=
    @Surroundings.receiveText_test surroundings text delay fits soon line control session
  by_cases within : text.length ≤ 118
  · have all : arrives := ⟨control, session, within⟩
    obtain ⟨healthy, history⟩ := short within
    obtain ⟨passes, before, later, written, injections⟩ :=
      surroundings.acknowledge_healthy healthy memory (Surroundings.verifyInjection argv) text
    have acknowledges : run = surroundings.acknowledge (Surroundings.verifyInjection argv) text client := by
      simp only [run, Surroundings.main, received, if_pos within]
    have sent : run.2.history.flatMap ClientEvent.onLine = testPackets.flatMap wire := by
      have first := onLine_injected fun event member => injections event (List.mem_append_left _ member)
      have last := onLine_injected fun event member => injections event (List.mem_append_right _ member)
      have received : (ClientEvent.received text).onLine = [] := rfl
      have acknowledged : (ClientEvent.sent ⟨imeTextAck, 3#16, []⟩ 10 true).onLine =
        wire ⟨imeTextAck, 3#16, []⟩ := by decide +kernel
      have all : testPackets = testPackets.take 3 ++ [⟨imeTextAck, 3#16, []⟩] := rfl
      rw [acknowledges, written, history, all]
      simp only [List.flatMap_append, List.flatMap_cons, List.flatMap_nil, onLine_asked, first, last, received,
        acknowledged, List.append_nil]
    have console : host = _ := (congrArg (runClientAsync text) sent).trans
      (runClientAsync_packets fits testPackets testPackets_whole)
    rw [console, acknowledges, passes]
    exact ⟨(and_iff_right all).symm, iff_of_true (by simp [testPackets, lines, answer]) all, by simp, rfl,
      writes⟩
  · have fails : ¬ arrives := fun within' => within within'.2.2
    have gives : run = (1, client) := by
      simp only [run, Surroundings.main, received, if_neg within]
    have sent : run.2.history.flatMap ClientEvent.onLine = (testPackets.take 3).flatMap wire := by
      rw [gives, long within, onLine_asked]
    have console : host = _ := (congrArg (runClientAsync text) sent).trans
      (runClientAsync_packets fits (testPackets.take 3) (by decide))
    rw [console, gives]
    exact ⟨iff_of_false (by simp) fun within' => fails within'.1,
      iff_of_false (by simp [testPackets, lines, answer]) fails, by simp, rfl, writes⟩

/-- The letter A, each byte of the host behind three reads that time out. -/
def slowLetter : Surroundings := { letterInTime with line := testLine [0x41#8] fun _ _ => 3 }

theorem test_run_passes_iff_letter :
    let run := slowLetter.main [[], [0x2f#8, 0x76#8]]
    let host := runClientAsync [0x41#8] (run.2.history.flatMap ClientEvent.onLine)
    let arrives := slowLetter.controlOpens = true ∧ slowLetter.sessionOpens = true ∧ [0x41#8].length ≤ 118
    (run.1 = 0 ↔ arrives ∧ (Surroundings.verifyInjection [[], [0x2f#8, 0x76#8]] = true ∨
        keyWords [0x41#8] ≠ [] ∧ KeyboardInterrupt.Roomy slowLetter.arrivals [0x41#8] slowLetter.memory)) ∧
      (.textAck 3#16 ∈ host.console ↔ arrives) ∧ host.console.getLast? = some .disconnected ∧
      host.thrown = none ∧
      ∀ packets : List Packet, (∀ packet ∈ packets, packet.payload.length ≤ imeMaxPayload) →
        (packets.zipIdx.flatMap fun sent => slowLetter.line.host sent.2 sent.1).reduceOption =
          (runClientAsync [0x41#8] (packets.flatMap wire)).written :=
  @test_run_passes_iff slowLetter [0x41#8] (by decide) (fun _ _ => 3) (fun _ _ => by decide) rfl [[], [0x2f#8, 0x76#8]]

end ImeBridge
