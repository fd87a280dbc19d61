import ImeBridge.Client.ReadPacket

/-! # The requests of the foreground client

`exchange` and `hello_exchange` of `dos/pc98/main.c` on a line whose other end may answer
late.  A request that is repeated carries the same sequence number again; opening the port
once more leaves the bytes that are on their way.
-/

namespace ImeBridge

/-- What an observer of the client notes down. -/
inductive ClientEvent where
  /-- How many bytes reached the data port, and the result of the write. -/
  | sent (packet : Packet) (written : Nat) (succeeded : Bool)
  /-- `main` has the TEXT that answers its OPEN_IME. -/
  | received (text : List Byte)
  /-- An injection: the words in the queue where the text goes, and those in it then. -/
  | injected (typed queue : List Word)
  deriving DecidableEq, Repr

/-- The line to the host. -/
structure HostLine where
  /-- What the host makes of the packets that go out whole, the first one being number 0:
  the bytes of its answer, among reads that time out. -/
  host : Nat → Packet → List (Option Byte)
  /-- How many packets went out whole. -/
  taken : Nat := 0
  /-- What the coming reads of a byte return, `none` being one that times out. -/
  coming : List (Option Byte) := []
  /-- How many bytes the transmitter takes at each coming write before it stops answering;
  writes past the end of the list succeed. -/
  transmitLimits : List Nat := []

structure Client extends HostLine where
  serialOpened : Bool := false
  memory : Memory := Memory.blank
  /-- What the client did so far; no variable of the program. -/
  history : List ClientEvent := []

namespace Client

variable (client : Client)

def note (event : ClientEvent) : Client := { client with history := client.history ++ [event] }

/-- Always returns 1. -/
def serialOpen : Client := { client with serialOpened := true }

def serialClose : Client := { client with serialOpened := false }

/-- The packet has gone out whole. -/
def deliver (packet : Packet) (length : Nat) : Client :=
  { client with
    taken := client.taken + 1
    coming := client.coming ++ client.host client.taken packet }.note (.sent packet length true)

/-- `pc98_serial_write` of a packet that was built. -/
def serialWrite (packet : Packet) (data : List Byte) : Bool × Client :=
  if client.serialOpened then
    match client.transmitLimits with
    | [] => (true, client.deliver packet data.length)
    | limit :: limits =>
      let client := { client with transmitLimits := limits }
      if data.length ≤ limit then (true, client.deliver packet data.length)
      else (false, client.note (.sent packet limit false))
  else (false, client.note (.sent packet 0 false))

/-- `read_packet`; a closed port has nothing to read. -/
def readPacket : Option (List Byte) × Client :=
  if client.serialOpened then
    let (packet, coming) := ImeBridge.readPacket client.coming
    (packet, { client with coming := coming })
  else (none, client)

/-- The type and the payload of the answer if the result is 1. -/
def exchange (type : Byte) (sequence : Word) : Option (Byte × List Byte) × Client :=
  let (written, client) := client.serialWrite ⟨type, sequence, []⟩ (imePacketBuild type sequence [])
  if !written then (none, client)
  else
    let (packet, client) := client.readPacket
    match packet.bind imePacketParse with
    | none => (none, client)
    -- The packet is lost, and no other is read.
    | some answer => if answer.sequence ≠ sequence then (none, client)
      else (some (answer.type, answer.payload), client)

/-- The payload of HELLO. -/
def hello : List Byte :=
  [0x01#8, 0x01#8, 0x43#8, 0x50#8, 0x39#8, 0x33#8, 0x32#8, 0#8, 16#8, 0#8, 0x01#8]

/-- One turn of `hello_exchange` behind the reopening. -/
def helloAttempt : Bool × Client :=
  let (written, client) := client.serialWrite ⟨imeHello, 1#16, hello⟩ (imePacketBuild imeHello 1#16 hello)
  if !written then (false, client)
  else
    let (packet, client) := client.readPacket
    match packet.bind imePacketParse with
    | none => (false, client)
    | some answer => (answer.sequence = 1#16 && answer.type = imePong, client)

/-- The loop of `hello_exchange` over the attempts to come. -/
def helloAttempts : List Nat → Client → Bool × Client
  | [], client => (false, client)
  | attempt :: attempts, client =>
    -- What is on its way to the port stays there.
    let client := if attempt = 0 then client else client.serialClose.serialOpen
    match client.helloAttempt with
    | (true, client) => (true, client)
    | (false, client) => helloAttempts attempts client

def helloExchange : Bool × Client := helloAttempts [0, 1, 2, 3] client

end Client

/-! ## The answers to HELLO -/

def helloAnswer : List Byte := imePacketBuild imePong 1#16 []

/-- Answers to HELLO, one behind the other. -/
def helloAnswers (count : Nat) : List Byte := (List.replicate count helloAnswer).flatten

theorem length_helloAnswer : helloAnswer.length = 10 := by decide

theorem helloAnswers_add (first second : Nat) :
    helloAnswers (first + second) = helloAnswers first ++ helloAnswers second := by
  rw [helloAnswers, List.replicate_add, List.flatten_append]
  rfl

theorem helloAnswers_succ (count : Nat) : helloAnswers (count + 1) = helloAnswer ++ helloAnswers count := by
  rw [Nat.add_comm, helloAnswers_add]
  simp [helloAnswers]

theorem length_helloAnswers (count : Nat) : (helloAnswers count).length = 10 * count := by
  simp [helloAnswers, length_helloAnswer, Nat.mul_comm]

theorem helloAnswers_getElem? {count index : Nat} (inside : index < 10 * count) :
    (helloAnswers count)[index]? = helloAnswer[index % 10]? := by
  induction count generalizing index with
  | zero => omega
  | succ count inductionHypothesis =>
    rw [helloAnswers_succ]
    by_cases first : index < 10
    · rw [List.getElem?_append_left (by rw [length_helloAnswer]; exact first), Nat.mod_eq_of_lt first]
    · rw [List.getElem?_append_right (by rw [length_helloAnswer]; omega), length_helloAnswer,
        inductionHypothesis (by omega), ← Nat.mod_eq_sub_mod (by omega)]

/-- Only the first byte of an answer is the first one of the magic. -/
theorem magic_in_helloAnswer : ∀ index < 10, helloAnswer[index]? = some imeMagic0 → index = 0 := by
  decide +kernel

/-- A frame among the answers is one of them. -/
theorem frame_in_helloAnswers {frame : Frame} {front rest : List Byte} {count : Nat}
    (split : front ++ frame.bytes ++ rest = helloAnswers count) :
    frame.bytes = helloAnswer ∧ ∃ later, rest = helloAnswers later := by
  have lengths := congrArg List.length split
  simp only [List.length_append, length_helloAnswers, Frame.length_bytes] at lengths
  have first : (helloAnswers count)[front.length]? = some imeMagic0 := by
    rw [← split, List.append_assoc, List.getElem?_append_right le_rfl, Nat.sub_self]
    rfl
  -- So the frame begins where an answer does.
  rw [helloAnswers_getElem? (by omega)] at first
  have aligned := magic_in_helloAnswer _ (Nat.mod_lt _ (by decide)) first
  obtain ⟨before, frontLength⟩ := Nat.dvd_of_mod_eq_zero aligned
  obtain ⟨behind, rfl⟩ : ∃ behind, count = before + (behind + 1) := ⟨count - before - 1, by omega⟩
  rw [helloAnswers_add, List.append_assoc] at split
  obtain ⟨-, same⟩ := List.append_inj split (by rw [length_helloAnswers, frontLength])
  rw [helloAnswers_succ] at same
  -- Its header is that of an answer, and the header tells the length.
  have header : frame.bytes.take 8 = helloAnswer.take 8 := by
    have taken := congrArg (List.take 8) same
    rwa [List.take_append_of_le_length (by rw [Frame.length_bytes]; omega),
      List.take_append_of_le_length (by decide)] at taken
  have length : frame.length = 0#16 := by
    have field := frame.length_front (List.take_append_drop 8 frame.bytes)
      (by rw [List.length_take, Frame.length_bytes]; omega)
    rw [← field, header]
    decide +kernel
  have bytesLength : frame.bytes.length = helloAnswer.length := by
    rw [Frame.length_bytes, ← frame.toNat_length, length]
    decide
  obtain ⟨isAnswer, others⟩ := List.append_inj same bytesLength
  exact ⟨isAnswer, behind, others⟩

namespace Client

variable {client : Client}

/-- The transmitter takes a packet of this length. -/
def Takes (client : Client) (length : Nat) : Prop :=
  client.serialOpened = true ∧ ∀ limit ∈ client.transmitLimits.head?, length ≤ limit

instance (client : Client) (length : Nat) : Decidable (client.Takes length) := by
  unfold Takes
  infer_instance

/-- The transmitter has taken the packet. -/
def send (client : Client) (packet : Packet) (length : Nat) : Client :=
  { client with transmitLimits := client.transmitLimits.tail }.deliver packet length

theorem serialWrite_takes (packet : Packet) {data : List Byte} (takes : client.Takes data.length) :
    client.serialWrite packet data = (true, client.send packet data.length) := by
  obtain ⟨⟨host, taken, coming, limits⟩, opened, memory, history⟩ := client
  obtain ⟨isOpen, room⟩ := takes
  obtain rfl : opened = true := isOpen
  cases limits with
  | nil => rfl
  | cons limit rest =>
    have fits : data.length ≤ limit := room limit rfl
    simp [serialWrite, send, fits]

/-- A write that fails leaves all but the transmitter and the log as they are. -/
theorem serialWrite_fails (packet : Packet) {data : List Byte} (fails : ¬ client.Takes data.length) :
    ∃ written limits, client.serialWrite packet data =
      (false, { client with transmitLimits := limits }.note (.sent packet written false)) := by
  obtain ⟨⟨host, taken, coming, limits⟩, opened, memory, history⟩ := client
  cases opened with
  | false => exact ⟨0, limits, rfl⟩
  | true =>
    cases limits with
    | nil => exact absurd ⟨rfl, by simp⟩ fails
    | cons limit rest =>
      have short : ¬ data.length ≤ limit := fun fits => fails ⟨rfl, by simpa using fits⟩
      exact ⟨limit, rest, by simp [serialWrite, short]⟩

/-- What is unread is the end of answers to HELLO. -/
def Unread (client : Client) : Prop := ∃ count, client.coming.reduceOption <:+ helloAnswers count

/-- The host answers every HELLO. -/
def AnswersHello (host : Nat → Packet → List (Option Byte)) : Prop :=
  ∀ taken, (host taken ⟨imeHello, 1#16, hello⟩).reduceOption = helloAnswer

theorem Unread.send {packet : Packet} {length : Nat} (unread : client.Unread)
    (answers : (client.host client.taken packet).reduceOption = helloAnswer) :
    (client.send packet length).Unread := by
  obtain ⟨count, front, split⟩ := unread
  refine ⟨count + 1, front, ?_⟩
  have together : (client.send packet length).coming = client.coming ++ client.host client.taken packet := rfl
  rw [together, List.reduceOption_append, answers, ← List.append_assoc, split, helloAnswers_add]
  simp [helloAnswers]

theorem reduceOption_suffix {left reads : List (Option Byte)} (suffix : left <:+ reads) :
    left.reduceOption <:+ reads.reduceOption := by
  obtain ⟨front, rfl⟩ := suffix
  rw [List.reduceOption_append]
  exact List.suffix_append _ _

/-- Behind a packet that parses the answers go on. -/
theorem Unread.readPacket (unread : client.Unread) {packet : List Byte} {answer : Packet}
    (read : client.readPacket.1 = some packet) (parsed : imePacketParse packet = some answer) :
    ∃ count, client.readPacket.2.coming.reduceOption = helloAnswers count := by
  cases opened : client.serialOpened with
  | false => simp [Client.readPacket, opened] at read
  | true =>
    simp only [Client.readPacket, opened, if_true, ImeBridge.readPacket] at read ⊢
    obtain ⟨frame, rfl, _⟩ := exists_frame_of_parse parsed
    obtain ⟨⟨front, split⟩, _⟩ := @ReadPacket.loop_segment _ _ {} _ le_rfl (Prod.ext read rfl)
    obtain ⟨count, before, whole⟩ := unread
    -- The packet stands among the answers, so it is one of them.
    rw [List.nil_append] at split
    rw [split, ← List.append_assoc, ← List.append_assoc] at whole
    exact (frame_in_helloAnswers whole).2

theorem readPacket_keeps (client : Client) : client.readPacket.2.host = client.host ∧
    client.readPacket.2.serialOpened = client.serialOpened ∧
    client.readPacket.2.coming <:+ client.coming := by
  simp only [readPacket]
  split
  · exact ⟨rfl, rfl, ReadPacket.loop_suffix _ _⟩
  · exact ⟨rfl, rfl, List.suffix_refl _⟩

/-- An attempt keeps to the answers; one that succeeds ends behind an answer. -/
theorem helloAttempt_spec (unread : client.Unread) (answers : AnswersHello client.host) :
    client.helloAttempt.2.host = client.host ∧ client.helloAttempt.2.Unread ∧
      (client.helloAttempt.1 = true → client.helloAttempt.2.serialOpened = true ∧
        ∃ count, client.helloAttempt.2.coming.reduceOption = helloAnswers count) := by
  by_cases takes : client.Takes (imePacketBuild imeHello 1#16 hello).length
  · have written := serialWrite_takes ⟨imeHello, 1#16, hello⟩ takes
    have sent : (client.send ⟨imeHello, 1#16, hello⟩ (imePacketBuild imeHello 1#16 hello).length).Unread :=
      unread.send (answers client.taken)
    have waits : (client.send ⟨imeHello, 1#16, hello⟩ (imePacketBuild imeHello 1#16 hello).length).host =
      client.host := rfl
    have opened : (client.send ⟨imeHello, 1#16, hello⟩
      (imePacketBuild imeHello 1#16 hello).length).serialOpened = true := takes.1
    simp only [helloAttempt, written, Bool.not_true]
    generalize client.send ⟨imeHello, 1#16, hello⟩ (imePacketBuild imeHello 1#16 hello).length = waiting at *
    obtain ⟨host, stillOpen, left⟩ := readPacket_keeps waiting
    obtain ⟨count, suffix⟩ := sent
    have unread' : waiting.readPacket.2.Unread := ⟨count, (reduceOption_suffix left).trans suffix⟩
    cases read : waiting.readPacket.1 with
    | none => exact ⟨host.trans waits, unread', fun answered => by simp at answered⟩
    | some packet =>
      cases parsed : imePacketParse packet with
      | none =>
        simp only [Option.bind_some, parsed]
        exact ⟨host.trans waits, unread', fun answered => by simp at answered⟩
      | some answer =>
        simp only [Option.bind_some, parsed]
        exact ⟨host.trans waits, unread', fun _ => ⟨stillOpen.trans opened,
          Unread.readPacket ⟨count, suffix⟩ read parsed⟩⟩
  · obtain ⟨count, limits, failed⟩ := serialWrite_fails ⟨imeHello, 1#16, hello⟩ takes
    simp only [helloAttempt, failed]
    exact ⟨rfl, unread, fun answered => by simp at answered⟩

theorem helloAttempts_spec (attempts : List Nat) (unread : client.Unread) (answers : AnswersHello client.host)
    (answered : (helloAttempts attempts client).1 = true) :
    (helloAttempts attempts client).2.host = client.host ∧
      (helloAttempts attempts client).2.serialOpened = true ∧
      ∃ count, (helloAttempts attempts client).2.coming.reduceOption = helloAnswers count := by
  induction attempts generalizing client with
  | nil => simp [helloAttempts] at answered
  | cons attempt attempts inductionHypothesis =>
    have reopened : ∃ opened : Client, opened.host = client.host ∧ opened.Unread ∧
        opened = if attempt = 0 then client else client.serialClose.serialOpen := by
      by_cases first : attempt = 0
      · exact ⟨client, rfl, unread, (if_pos first).symm⟩
      · exact ⟨client.serialClose.serialOpen, rfl, unread, (if_neg first).symm⟩
    obtain ⟨opened, host, unread', same⟩ := reopened
    obtain ⟨host', unread'', succeeds⟩ := helloAttempt_spec unread' (host ▸ answers)
    rw [helloAttempts, ← same] at answered ⊢
    cases attempted : opened.helloAttempt with
    | mk succeeded next =>
      rw [attempted] at answered host' unread'' succeeds
      cases succeeded with
      | true =>
        obtain ⟨stillOpen, count⟩ := succeeds rfl
        exact ⟨host'.trans host, stillOpen, count⟩
      | false =>
        obtain ⟨host'', rest⟩ := inductionHypothesis unread'' (by rw [host', host]; exact answers) answered
        exact ⟨host''.trans (host'.trans host), rest⟩

/-- Reads in time that begin with a frame of no more than 128 bytes. -/
theorem readPacket_frame {frame : Frame} {rest : List Byte} (opened : client.serialOpened = true)
    (prompt : ReadPacket.Prompt 0 client.coming) (begins : client.coming.reduceOption = frame.bytes ++ rest)
    (budget : frame.bytes.length ≤ 128) :
    client.readPacket.1 = some frame.bytes ∧ client.readPacket.2.coming.reduceOption = rest := by
  have bytes := (@ReadPacket.loop_prompt client.coming {} prompt (by decide)).1
  have nonempty : frame.bytes ≠ [] := by
    rw [ne_eq, ← List.length_eq_zero_iff, Frame.length_bytes]
    omega
  have whole := @ReadPacket.loop_frame frame [] frame.bytes {} rfl nonempty rfl rfl (by decide)
    (by dsimp only; omega) (rest.map some)
  rw [begins, List.map_append] at bytes
  obtain ⟨packet, left⟩ := Prod.mk.inj (bytes.symm.trans whole)
  simp only [readPacket, opened, if_true, ImeBridge.readPacket]
  exact ⟨packet, List.map_injective_iff.mpr (Option.some_injective _) left⟩

/-- The request has gone out. -/
def asking (client : Client) (type : Byte) (sequence : Word) : Client := client.send ⟨type, sequence, []⟩ 10

/-- What `exchange` makes of a packet that was read. -/
def answerOf (sequence : Word) (packet : Option (List Byte)) : Option (Byte × List Byte) :=
  match packet.bind imePacketParse with
  | none => none
  | some answer => if answer.sequence ≠ sequence then none else some (answer.type, answer.payload)

theorem exchange_takes (type : Byte) (sequence : Word) (takes : client.Takes 10) :
    client.exchange type sequence = (answerOf sequence (client.asking type sequence).readPacket.1,
      (client.asking type sequence).readPacket.2) := by
  have length : (imePacketBuild type sequence []).length = 10 :=
    length_imePacketBuild type sequence (Nat.zero_le _)
  have written := serialWrite_takes ⟨type, sequence, []⟩ (length.symm ▸ takes)
  rw [length] at written
  simp only [exchange, written, Bool.not_true, answerOf, asking]
  generalize client.send ⟨type, sequence, []⟩ 10 = waiting
  obtain ⟨packet, next⟩ := waiting.readPacket
  dsimp only
  cases packet.bind imePacketParse with
  | none => rfl
  | some answer => by_cases same : answer.sequence = sequence <;> simp [same]

theorem exchange_fails (type : Byte) (sequence : Word) (fails : ¬ client.Takes 10) :
    (client.exchange type sequence).1 = none := by
  have length : (imePacketBuild type sequence []).length = 10 :=
    length_imePacketBuild type sequence (Nat.zero_le _)
  obtain ⟨written, limits, failed⟩ := serialWrite_fails ⟨type, sequence, []⟩ (length.symm ▸ fails)
  simp [exchange, failed]

theorem asking_keeps (client : Client) (type : Byte) (sequence : Word) :
    let next := (client.asking type sequence).readPacket.2
    next.host = client.host ∧ next.taken = client.taken + 1 ∧ next.serialOpened = client.serialOpened ∧
      next.transmitLimits = client.transmitLimits.tail ∧
      next.coming <:+ client.coming ++ client.host client.taken ⟨type, sequence, []⟩ := by
  simp only [readPacket]
  split
  · exact ⟨rfl, rfl, rfl, rfl, ReadPacket.loop_suffix _ _⟩
  · exact ⟨rfl, rfl, rfl, rfl, List.suffix_refl _⟩

/-- The next packet on the line, if it comes in time and is not too long, is what an exchange
reads. -/
theorem asking_reads {type answerType : Byte} {sequence other : Word} {payload rest : List Byte}
    (short : payload.length ≤ 118) (opened : client.serialOpened = true)
    (prompt : ReadPacket.Prompt 0 (client.coming ++ client.host client.taken ⟨type, sequence, []⟩))
    (next : (client.coming ++ client.host client.taken ⟨type, sequence, []⟩).reduceOption =
      imePacketBuild answerType other payload ++ rest) :
    answerOf sequence (client.asking type sequence).readPacket.1 =
        (if other ≠ sequence then none else some (answerType, payload)) ∧
      (client.asking type sequence).readPacket.2.coming.reduceOption = rest := by
  have fits : payload.length ≤ imeMaxPayload := by
    unfold imeMaxPayload
    omega
  rw [imePacketBuild_eq answerType other payload fits] at next
  have budget : ((Packet.mk answerType other payload).frame fits).bytes.length ≤ 128 := by
    have length : ((Packet.mk answerType other payload).frame fits).bytes.length = 10 + payload.length :=
      Frame.length_bytes _
    omega
  obtain ⟨read, left⟩ := @readPacket_frame (client.asking type sequence) _ _ opened prompt next budget
  refine ⟨?_, left⟩
  rw [read, answerOf, Option.bind_some, Frame.imePacketParse_bytes, if_pos (Packet.frame_good _ fits)]
  rfl

/-- A packet that an exchange returns is within the budget of `read_packet`. -/
theorem asking_short {type answerType : Byte} {sequence : Word} {payload : List Byte}
    (returns : answerOf sequence (client.asking type sequence).readPacket.1 = some (answerType, payload)) :
    payload.length ≤ 118 := by
  unfold answerOf at returns
  cases read : (client.asking type sequence).readPacket.1 with
  | none => simp [read] at returns
  | some packet =>
    cases parsed : imePacketParse packet with
    | none => simp [read, parsed] at returns
    | some answer =>
      simp only [read, Option.bind_some, parsed] at returns
      split at returns
      · contradiction
      · obtain ⟨rfl, rfl⟩ := Prod.mk.inj (Option.some.inj returns)
        obtain ⟨frame, rfl, _, rfl⟩ := exists_frame_of_parse parsed
        simp only [readPacket] at read
        split at read
        · have few := (@ReadPacket.loop_segment _ _ {} _ le_rfl (Prod.ext read rfl)).2
          rw [Frame.length_bytes] at few
          have same : frame.packet.payload.length = frame.payload.length := rfl
          omega
        · simp at read

end Client

/-- A host that answers, and a client at its `hello_exchange` that is answered. -/
structure Greeting where
  client : Client
  text : List Byte
  fits : text.length ≤ imeMaxPayload
  nothing : client.coming = []
  helloAnswer : Client.AnswersHello client.host
  pingAnswer : ∀ taken, (client.host taken ⟨imePing, 2#16, []⟩).reduceOption =
    imePacketBuild imePong 2#16 []
  openAnswer : ∀ taken, (client.host taken ⟨imeOpenIme, 3#16, []⟩).reduceOption =
    imePacketBuild imeText 3#16 text
  answered : client.helloExchange.1 = true
  /-- From then on never four reads in a row time out. -/
  prompt :
    let later := client.helloExchange.2
    ReadPacket.Prompt 0 (later.coming ++ later.host later.taken ⟨imePing, 2#16, []⟩ ++
      later.host (later.taken + 1) ⟨imeOpenIme, 3#16, []⟩)

namespace Greeting

variable (greeting : Greeting)

/-- Behind `hello_exchange`. -/
def later : Client := greeting.client.helloExchange.2

/-- Both exchanges succeed and return the answers of the host. -/
def Answered : Prop :=
  let pong := greeting.later.exchange imePing 2#16
  let text := pong.2.exchange imeOpenIme 3#16
  pong.1 = some (imePong, []) ∧ text.1 = some (imeText, greeting.text)

instance : Decidable greeting.Answered := by
  unfold Answered
  infer_instance

end Greeting

namespace Client

/-- Where the answers of the host come in time and answers to HELLO may be left before them,
both exchanges are answered exactly if none is left, the text is within the budget of
`read_packet` and the transmitter takes both requests. -/
theorem exchanges_spec {client : Client} {text : List Byte} (opened : client.serialOpened = true)
    (left : ∃ count, client.coming.reduceOption = helloAnswers count)
    (pingAnswer : (client.host client.taken ⟨imePing, 2#16, []⟩).reduceOption = imePacketBuild imePong 2#16 [])
    (openAnswer : (client.host (client.taken + 1) ⟨imeOpenIme, 3#16, []⟩).reduceOption =
      imePacketBuild imeText 3#16 text)
    (prompt : ReadPacket.Prompt 0 (client.coming ++ client.host client.taken ⟨imePing, 2#16, []⟩ ++
      client.host (client.taken + 1) ⟨imeOpenIme, 3#16, []⟩)) :
    ((client.exchange imePing 2#16).1 = some (imePong, []) ∧
      ((client.exchange imePing 2#16).2.exchange imeOpenIme 3#16).1 = some (imeText, text)) ↔
    client.coming.reduceOption = [] ∧ text.length ≤ 118 ∧
      ∀ limit ∈ client.transmitLimits.take 2, 10 ≤ limit := by
  obtain ⟨count, left⟩ := left
  by_cases takes : client.Takes 10
  swap
  · -- PING does not go out.
    rw [exchange_fails _ _ takes]
    refine ⟨fun answered => by simp at answered, fun ⟨_, _, room⟩ => absurd ⟨opened, ?_⟩ takes⟩
    cases limits : client.transmitLimits with
    | nil => simp
    | cons limit rest =>
      rw [limits] at room
      simpa using room limit (by simp)
  rw [exchange_takes _ _ takes]
  have together : (client.coming ++ client.host client.taken ⟨imePing, 2#16, []⟩).reduceOption =
      helloAnswers count ++ imePacketBuild imePong 2#16 [] := by
    rw [List.reduceOption_append, left, pingAnswer]
  cases count with
  | succ count =>
    -- PING is answered by what answers HELLO.
    rw [helloAnswers_succ, List.append_assoc] at together
    obtain ⟨read, _⟩ := asking_reads (Nat.zero_le _) opened prompt.front together
    rw [if_pos (by decide)] at read
    refine ⟨fun answered => ?_, fun ⟨nothing, _⟩ => ?_⟩
    · exact absurd (read.symm.trans answered.1) (by simp)
    · rw [left, helloAnswers_succ] at nothing
      exact absurd (congrArg List.length nothing) (by simp [length_helloAnswer])
  | zero =>
    -- Each request is answered by the next packet on the line.
    have nothing : client.coming.reduceOption = [] := left
    obtain ⟨read, rest⟩ := asking_reads (Nat.zero_le _) opened prompt.front
      (show _ = imePacketBuild imePong 2#16 [] ++ [] by rw [together, List.append_nil]; rfl)
    rw [if_neg (by decide)] at read
    obtain ⟨host, taken, stillOpen, limits, suffix⟩ := asking_keeps client imePing 2#16
    generalize (client.asking imePing 2#16).readPacket = outcome at *
    obtain ⟨packet, next⟩ := outcome
    dsimp only at read rest host taken stillOpen limits suffix ⊢
    rw [← host, ← taken] at openAnswer
    have prompt' : ReadPacket.Prompt 0 (next.coming ++ next.host next.taken ⟨imeOpenIme, 3#16, []⟩) := by
      obtain ⟨front, split⟩ := suffix
      rw [← split, List.append_assoc, ← host, ← taken] at prompt
      exact prompt.suffix (List.suffix_append _ _)
    -- The first limit is kept to already.
    have room : (∀ limit ∈ client.transmitLimits.take 2, 10 ≤ limit) ↔
        ∀ limit ∈ next.transmitLimits.head?, 10 ≤ limit := by
      rw [limits]
      cases own : client.transmitLimits with
      | nil => simp
      | cons head tail =>
        have head_takes : 10 ≤ head := takes.2 head (by rw [own]; rfl)
        cases tail with
        | nil => simpa using head_takes
        | cons second others => simpa using fun _ => head_takes
    rw [read, room]
    by_cases takes' : next.Takes 10
    · rw [exchange_takes _ _ takes']
      have answer : (next.coming ++ next.host next.taken ⟨imeOpenIme, 3#16, []⟩).reduceOption =
          imePacketBuild imeText 3#16 text ++ [] := by
        rw [List.reduceOption_append, rest, openAnswer, List.append_nil]
        rfl
      refine ⟨fun ⟨_, returned⟩ => ⟨nothing, asking_short returned, takes'.2⟩, fun ⟨_, short, _⟩ => ⟨rfl, ?_⟩⟩
      obtain ⟨read', _⟩ := asking_reads short (stillOpen.trans opened) prompt' answer
      rwa [if_neg (by decide)] at read'
    · -- OPEN_IME does not go out.
      rw [exchange_fails _ _ takes']
      exact ⟨fun ⟨_, returned⟩ => by simp at returned,
        fun ⟨_, _, room'⟩ => absurd ⟨stillOpen.trans opened, room'⟩ takes'⟩

end Client

/-- Exactly if no byte of an answer to HELLO is left, the text is within the budget of
`read_packet` and the transmitter takes both requests, both exchanges are answered. -/
theorem exchanges_answered_iff (greeting : Greeting) :
    greeting.Answered ↔ greeting.later.coming.reduceOption = [] ∧ greeting.text.length ≤ 118 ∧
      ∀ limit ∈ greeting.later.transmitLimits.take 2, 10 ≤ limit := by
  obtain ⟨client, text, fits, nothing, helloAnswer, pingAnswer, openAnswer, answered, prompt⟩ := greeting
  have unread : client.Unread := ⟨0, by rw [nothing]; exact List.nil_suffix⟩
  obtain ⟨host, opened, left⟩ := Client.helloAttempts_spec [0, 1, 2, 3] unread helloAnswer answered
  change client.helloExchange.2.host = client.host at host
  rw [← host] at pingAnswer openAnswer
  exact Client.exchanges_spec opened left (pingAnswer _) (openAnswer _) prompt

/-- The answers of a host whose text is the letter A. -/
def letterAnswer (packet : Packet) : List Byte :=
  if packet.type = imeOpenIme then imePacketBuild imeText packet.sequence [0x41#8]
  else imePacketBuild imePong packet.sequence []

/-- Its answer to the first packet comes behind some reads that time out. -/
def lateHost (timeouts taken : Nat) (packet : Packet) : List (Option Byte) :=
  (if taken = 0 then List.replicate timeouts none else []) ++ (letterAnswer packet).map some

theorem reduceOption_lateHost (timeouts taken : Nat) (packet : Packet) :
    (lateHost timeouts taken packet).reduceOption = letterAnswer packet := by
  have bytes : ((letterAnswer packet).map some).reduceOption = letterAnswer packet := by
    rw [List.reduceOption, List.filterMap_map]
    exact List.filterMap_some
  have late : (if taken = 0 then List.replicate timeouts none else []).reduceOption = ([] : List Byte) := by
    split
    · simp [List.reduceOption]
    · rfl
  rw [lateHost, List.reduceOption_append, late, bytes, List.nil_append]

def letterClient (timeouts : Nat) : Client := { host := lateHost timeouts, serialOpened := true }

/-- A greeting by this host, whose answers may come late only at first. -/
def letterGreeting (timeouts : Nat) (answered : (letterClient timeouts).helloExchange.1 = true)
    (prompt :
      let later := (letterClient timeouts).helloExchange.2
      ReadPacket.Prompt 0 (later.coming ++ later.host later.taken ⟨imePing, 2#16, []⟩ ++
        later.host (later.taken + 1) ⟨imeOpenIme, 3#16, []⟩)) : Greeting where
  client := letterClient timeouts
  text := [0x41#8]
  fits := by decide
  nothing := rfl
  helloAnswer _ := by
    rw [letterClient, reduceOption_lateHost]
    rfl
  pingAnswer _ := by
    rw [letterClient, reduceOption_lateHost]
    rfl
  openAnswer _ := by
    rw [letterClient, reduceOption_lateHost]
    rfl
  answered := answered
  prompt := prompt

/-- HELLO is answered at once. -/
def promptGreeting : Greeting := letterGreeting 0 (by decide +kernel) (by dsimp only; decide +kernel)

theorem exchanges_prompt_pong : promptGreeting.Answered :=
  (exchanges_answered_iff promptGreeting).mpr (by decide +kernel)

/-- The second HELLO is answered twice. -/
def lateGreeting : Greeting := letterGreeting 4 (by decide +kernel) (by dsimp only; decide +kernel)

/-- PING gets the second answer to HELLO. -/
theorem exchanges_late_pong : ¬ lateGreeting.Answered := by decide +kernel

end ImeBridge
