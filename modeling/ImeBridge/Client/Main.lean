import ImeBridge.Client.Exchange
import ImeBridge.Keyboard.Injection
import ImeBridge.Library.History

/-! # The foreground client

`main` of `dos/pc98/main.c` and `pc98_bios_inject_verify`.  What they log and print is left
out, and so is what IME98$ does with its commands.
-/

namespace ImeBridge

open Library

def stringEqual : List Byte → List Byte → Bool
  | a :: left, b :: right =>
    let a := if a ≥ 0x61#8 ∧ a ≤ 0x7a#8 then a - 0x20#8 else a
    let b := if b ≥ 0x61#8 ∧ b ≤ 0x7a#8 then b - 0x20#8 else b
    if a ≠ b then false else stringEqual left right
  | left, right => left.isEmpty && right.isEmpty

/-- What the program finds when it is started, and what comes from outside while it runs. -/
structure Surroundings where
  line : HostLine
  /-- Whether `ime98_control_open` succeeds. -/
  controlOpens : Bool := true
  /-- Whether IME98$ takes the command that opens a session. -/
  sessionOpens : Bool := true
  memory : Memory
  ring : memory.WellFormedRing
  interrupt : KeyboardInterrupt
  /-- The key words that come during the call of `pc98_bios_inject` or before it. -/
  arrivals : Arrivals := {}
  /-- INT 18h with AH=05h, its first call being number 0: AX and BX, and the memory then. -/
  senseKey : Nat → Memory → Word × Word × Memory

namespace Surroundings

variable (surroundings : Surroundings)

def start : Client := { toHostLine := surroundings.line, memory := surroundings.memory }

/-- `pc98_bios_inject` as `main` calls it. -/
def inject (text : List Byte) (client : Client) : Bool × Client :=
  let typed := (surroundings.interrupt.injectTests surroundings.arrivals text client.memory).2.queue
  let (queued, memory) := surroundings.interrupt.pc98BiosInject surroundings.arrivals text client.memory
  (queued, { client with memory := memory }.note (.injected typed memory.queue))

/-- The loop of `pc98_bios_inject_verify` from index `input` on, with its calls of INT 18h
numbered; a text of `fuel` bytes never needs more than `fuel` turns. -/
def verifyLoop (text : List Byte) : Nat → Nat → Nat → Memory → Int × Memory
  | 0, _, _, memory => (1, memory)
  | fuel + 1, input, call, memory =>
    if input < text.length then
      let (expected, input) := pc98BiosEncodeKey text text.length input
      let (ax, bx, memory) := surroundings.senseKey call memory
      if bx &&& 0x0100#16 = 0#16 ∨ ax ≠ expected then (0, memory)
      else verifyLoop text fuel (input + 1) (call + 1) memory
    else (1, memory)

def pc98BiosInjectVerify (text : List Byte) (client : Client) : Int × Client :=
  match surroundings.inject text client with
  | (false, client) => (-1, client)
  | (true, client) =>
    let (result, memory) := surroundings.verifyLoop text text.length 0 0 client.memory
    (result, { client with memory := memory })

/-- `main` up to the TEXT that answers its OPEN_IME; `none` where it gives up. -/
def receiveText (client : Client) : Option (List Byte) × Client :=
  if !surroundings.controlOpens then (none, client)
  else if !surroundings.sessionOpens then (none, client.serialClose)
  else
    match client.serialOpen.helloExchange with
    | (false, client) => (none, client.serialClose)
    | (true, client) =>
      match client.exchange imePing 2#16 with
      | (none, client) => (none, client.serialClose)
      | (some (type, _), client) =>
        if type ≠ imePong then (none, client.serialClose)
        else
          match client.exchange imeOpenIme 3#16 with
          | (none, client) => (none, client.serialClose)
          | (some (type, text), client) =>
            if type ≠ imeText then (none, client.serialClose)
            else (some text, client.note (.received text))

/-- `main` behind the TEXT, with its exit code. -/
def acknowledge (verifyInjection : Bool) (text : List Byte) (client : Client) : Nat × Client :=
  -- The result is only logged.
  let client := if verifyInjection then (surroundings.pc98BiosInjectVerify text client).2 else client
  let (written, client) :=
    client.serialWrite ⟨imeTextAck, 3#16, []⟩ (imePacketBuild imeTextAck 3#16 [])
  let client := client.serialClose
  if !written then (1, client)
  else if verifyInjection then (0, client)
  else
    -- The host has its TEXT_ACK by now.
    match surroundings.inject text client with
    | (true, client) => (0, client)
    | (false, client) => (1, client)

/-- `argv[1]` is /VERIFY. -/
def verifyInjection : List (List Byte) → Bool
  | _ :: argument :: _ =>
    stringEqual argument [0x2f#8, 0x56#8, 0x45#8, 0x52#8, 0x49#8, 0x46#8, 0x59#8]
  | _ => false

def main (argv : List (List Byte)) : Nat × Client :=
  match surroundings.receiveText surroundings.start with
  | (none, client) => (1, client)
  | (some text, client) => surroundings.acknowledge (verifyInjection argv) text client

end Surroundings

/-! ## The exchanges -/

/-- A packet is sent, and it is no TEXT_ACK. -/
def ClientEvent.Asks (event : ClientEvent) : Prop :=
  ∃ packet written succeeded, event = .sent packet written succeeded ∧ packet.type ≠ imeTextAck

namespace Client

/-- The client has only asked so far and has left the memory alone. -/
structure OnlyAsked (memory : Memory) (client : Client) : Prop where
  memory_eq : client.memory = memory
  asks : ∀ event ∈ client.history, event.Asks

variable {client : Client} {memory : Memory}

/-- A write leaves the memory alone and is noted down. -/
theorem serialWrite_notes (client : Client) (packet : Packet) (data : List Byte) :
    (client.serialWrite packet data).2.memory = client.memory ∧
      (client.serialWrite packet data).1 = decide (client.Takes data.length) ∧
      ∃ written, (client.serialWrite packet data).2.history =
        client.history ++ [.sent packet written (decide (client.Takes data.length))] := by
  by_cases takes : client.Takes data.length
  · rw [serialWrite_takes packet takes, decide_eq_true takes]
    exact ⟨rfl, rfl, _, rfl⟩
  · obtain ⟨written, limits, failed⟩ := serialWrite_fails packet takes
    rw [failed, decide_eq_false takes]
    exact ⟨rfl, rfl, written, rfl⟩

theorem OnlyAsked.serialWrite (asking : client.OnlyAsked memory) {packet : Packet} (data : List Byte)
    (asks : packet.type ≠ imeTextAck) : (client.serialWrite packet data).2.OnlyAsked memory := by
  obtain ⟨same, _, written, noted⟩ := serialWrite_notes client packet data
  refine ⟨same.trans asking.memory_eq, fun event member => ?_⟩
  rw [noted, List.mem_append, List.mem_singleton] at member
  rcases member with earlier | rfl
  · exact asking.asks event earlier
  · exact ⟨_, _, _, rfl, asks⟩

theorem OnlyAsked.readPacket (asking : client.OnlyAsked memory) : client.readPacket.2.OnlyAsked memory := by
  rw [Client.readPacket]
  split
  · exact ⟨asking.memory_eq, asking.asks⟩
  · exact asking

theorem OnlyAsked.serialOpen (asking : client.OnlyAsked memory) : client.serialOpen.OnlyAsked memory :=
  ⟨asking.memory_eq, asking.asks⟩

theorem OnlyAsked.serialClose (asking : client.OnlyAsked memory) : client.serialClose.OnlyAsked memory :=
  ⟨asking.memory_eq, asking.asks⟩

theorem OnlyAsked.exchange (asking : client.OnlyAsked memory) {type : Byte} (sequence : Word)
    (asks : type ≠ imeTextAck) : (client.exchange type sequence).2.OnlyAsked memory := by
  have sent := @OnlyAsked.serialWrite _ _ asking ⟨type, sequence, []⟩ (imePacketBuild type sequence []) asks
  unfold Client.exchange
  generalize client.serialWrite _ _ = outcome at sent ⊢
  obtain ⟨written, next⟩ := outcome
  cases written with
  | false => exact sent
  | true =>
    have read := OnlyAsked.readPacket sent
    simp only [Bool.not_true, Bool.false_eq_true, if_false]
    split
    · exact read
    · split <;> exact read

theorem OnlyAsked.helloAttempt (asking : client.OnlyAsked memory) : client.helloAttempt.2.OnlyAsked memory := by
  have sent := @OnlyAsked.serialWrite _ _ asking ⟨imeHello, 1#16, hello⟩ (imePacketBuild imeHello 1#16 hello)
    (by decide)
  unfold Client.helloAttempt
  generalize client.serialWrite _ _ = outcome at sent ⊢
  obtain ⟨written, next⟩ := outcome
  cases written with
  | false => exact sent
  | true =>
    have read := OnlyAsked.readPacket sent
    simp only [Bool.not_true, Bool.false_eq_true, if_false]
    split <;> exact read

theorem OnlyAsked.helloAttempts (attempts : List Nat) (asking : client.OnlyAsked memory) :
    (Client.helloAttempts attempts client).2.OnlyAsked memory := by
  induction attempts generalizing client with
  | nil => exact asking
  | cons attempt attempts inductionHypothesis =>
    have reopened : OnlyAsked memory (if attempt = 0 then client else client.serialClose.serialOpen) := by
      split
      · exact asking
      · exact asking.serialClose.serialOpen
    have attempted := OnlyAsked.helloAttempt reopened
    rw [Client.helloAttempts]
    generalize Client.helloAttempt _ = outcome at attempted ⊢
    obtain ⟨succeeded, next⟩ := outcome
    cases succeeded with
    | true => exact attempted
    | false => exact inductionHypothesis attempted

end Client

namespace Surroundings

variable (surroundings : Surroundings)

open Client

/-- Up to the TEXT the client only asks; then it notes down what it received. -/
theorem receiveText_spec :
    match surroundings.receiveText surroundings.start with
    | (none, client) => client.OnlyAsked surroundings.memory
    | (some text, client) => client.memory = surroundings.memory ∧
      ∃ asked, client.history = asked ++ [.received text] ∧ ∀ event ∈ asked, event.Asks := by
  have started : surroundings.start.OnlyAsked surroundings.memory := ⟨rfl, fun _ member => nomatch member⟩
  unfold receiveText
  split_ifs
  · exact started
  · exact started.serialClose
  have greeted : surroundings.start.serialOpen.helloExchange.2.OnlyAsked surroundings.memory :=
    OnlyAsked.helloAttempts _ started.serialOpen
  generalize surroundings.start.serialOpen.helloExchange = outcome at greeted ⊢
  obtain ⟨answered, client⟩ := outcome
  cases answered with
  | false => exact greeted.serialClose
  | true =>
    have pinged := greeted.exchange 2#16 (show imePing ≠ imeTextAck by decide)
    dsimp only at pinged ⊢
    generalize client.exchange imePing 2#16 = outcome at pinged ⊢
    obtain ⟨answer, client⟩ := outcome
    cases answer with
    | none => exact pinged.serialClose
    | some answer =>
      dsimp only
      split_ifs with pong
      · exact pinged.serialClose
      have opened := pinged.exchange 3#16 (show imeOpenIme ≠ imeTextAck by decide)
      dsimp only at opened ⊢
      generalize client.exchange imeOpenIme 3#16 = outcome at opened ⊢
      obtain ⟨answer, client⟩ := outcome
      cases answer with
      | none => exact opened.serialClose
      | some answer =>
        dsimp only
        split_ifs with isText
        · exact opened.serialClose
        · exact ⟨opened.memory_eq, client.history, rfl, opened.asks⟩

/-! ## The acknowledgement -/

/-- What injecting the text into this memory is noted down as. -/
def injection (text : List Byte) (memory : Memory) : ClientEvent :=
  .injected (surroundings.interrupt.injectTests surroundings.arrivals text memory).2.queue
    (surroundings.interrupt.pc98BiosInject surroundings.arrivals text memory).2.queue

/-- An injection is noted down; port and line stay as they are. -/
theorem inject_notes (text : List Byte) (client : Client) :
    (surroundings.inject text client).2.history =
        client.history ++ [surroundings.injection text client.memory] ∧
      (surroundings.inject text client).2.toHostLine = client.toHostLine ∧
      (surroundings.inject text client).2.serialOpened = client.serialOpened := ⟨rfl, rfl, rfl⟩

theorem pc98BiosInjectVerify_notes (text : List Byte) (client : Client) :
    (surroundings.pc98BiosInjectVerify text client).2.history =
        client.history ++ [surroundings.injection text client.memory] ∧
      (surroundings.pc98BiosInjectVerify text client).2.toHostLine = client.toHostLine ∧
      (surroundings.pc98BiosInjectVerify text client).2.serialOpened = client.serialOpened := by
  have notes := surroundings.inject_notes text client
  unfold pc98BiosInjectVerify
  generalize surroundings.inject text client = outcome at notes ⊢
  obtain ⟨queued, client⟩ := outcome
  cases queued <;> exact notes

/-- What comes before the TEXT_ACK, which is whole if the transmitter takes it, and behind it. -/
theorem acknowledge_history (verifyInjection : Bool) (text : List Byte) (client : Client) :
    ∃ written later,
      (surroundings.acknowledge verifyInjection text client).2.history =
        (client.history ++ if verifyInjection then [surroundings.injection text client.memory] else []) ++
          .sent ⟨imeTextAck, 3#16, []⟩ written (decide (client.Takes 10)) :: later ∧
      ∀ event ∈ later, ∃ typed queue, event = .injected typed queue := by
  -- With or without an injection the line is as it was when the TEXT came.
  obtain ⟨acknowledging, same, history, takes⟩ : ∃ acknowledging : Client, acknowledging =
        (if verifyInjection then (surroundings.pc98BiosInjectVerify text client).2 else client) ∧
      acknowledging.history = (client.history ++
        if verifyInjection then [surroundings.injection text client.memory] else []) ∧
      (acknowledging.Takes 10 ↔ client.Takes 10) := by
    refine ⟨_, rfl, ?_⟩
    cases verifyInjection with
    | false => exact ⟨(List.append_nil _).symm, Iff.rfl⟩
    | true =>
      obtain ⟨noted, line, opened⟩ := surroundings.pc98BiosInjectVerify_notes text client
      exact ⟨noted, by simp only [Takes, if_true, line, opened]⟩
  unfold acknowledge
  rw [← same]
  have length : (imePacketBuild imeTextAck 3#16 []).length = 10 := by decide
  obtain ⟨_, whole, written, noted⟩ :=
    serialWrite_notes acknowledging ⟨imeTextAck, 3#16, []⟩ (imePacketBuild imeTextAck 3#16 [])
  have fits : decide (acknowledging.Takes 10) = decide (client.Takes 10) := decide_eq_decide.mpr takes
  rw [length, fits] at whole noted
  rw [history] at noted
  cases outcome : acknowledging.serialWrite ⟨imeTextAck, 3#16, []⟩ (imePacketBuild imeTextAck 3#16 []) with
  | mk succeeded next =>
    rw [outcome] at whole noted
    dsimp only at whole noted ⊢
    rw [outcome]
    cases succeeded with
    | false => exact ⟨written, [], noted, fun _ member => nomatch member⟩
    | true =>
      cases verifyInjection with
      | true => exact ⟨written, [], noted, fun _ member => nomatch member⟩
      | false =>
        -- The injection comes behind.
        refine ⟨written, [surroundings.injection text next.memory], ?_, fun event member => ?_⟩
        · have injected := (surroundings.inject_notes text next.serialClose).1
          change _ = next.history ++ [surroundings.injection text next.memory] at injected
          rw [noted, List.append_assoc] at injected
          simp only [Bool.not_true, Bool.false_eq_true, if_false]
          split <;> rename_i queued <;> rw [queued] at injected <;> exact injected
        · exact ⟨_, _, List.mem_singleton.mp member⟩

end Surroundings

/-- A TEXT_ACK that goes out whole has the injection of all words of the received text before
it. -/
def AcknowledgesInjected (before : List ClientEvent) : ClientEvent → Prop
  | .sent packet _ true => packet.type = imeTextAck →
    ∃ text, .received text ∈ before ∧
      (keyWords text = [] ∨ ∃ typed, .injected typed (typed ++ keyWords text) ∈ before)
  | _ => True

theorem ClientEvent.Asks.quiet {event : ClientEvent} (asks : event.Asks) (before : List ClientEvent) :
    AcknowledgesInjected before event := by
  obtain ⟨packet, written, succeeded, rfl, other⟩ := asks
  cases succeeded with
  | false => trivial
  | true => exact fun acknowledges => absurd acknowledges other

namespace Surroundings

variable {surroundings : Surroundings}

/-- With the text received, and injected where /VERIFY is given, a whole TEXT_ACK is right if
there is nothing to inject or the words came into the queue. -/
theorem acknowledges_iff {asked : List ClientEvent} {text : List Byte} {verifyInjection : Bool}
    (asks : ∀ event ∈ asked, event.Asks) (written : Nat) :
    AcknowledgesInjected
      (asked ++ [.received text] ++
        if verifyInjection then [surroundings.injection text surroundings.memory] else [])
      (.sent ⟨imeTextAck, 3#16, []⟩ written true) ↔
    keyWords text = [] ∨ verifyInjection = true ∧
      KeyboardInterrupt.Roomy surroundings.arrivals text surroundings.memory := by
  have noText (received : List Byte) : .received received ∉ asked := by
    intro member
    obtain ⟨_, _, _, differs, _⟩ := asks _ member
    contradiction
  have noInjection (typed queue : List Word) : .injected typed queue ∉ asked := by
    intro member
    obtain ⟨_, _, _, differs, _⟩ := asks _ member
    contradiction
  have isText {received : List Byte} (member : .received received ∈ asked ++ [.received text] ++
      if verifyInjection then [surroundings.injection text surroundings.memory] else []) : received = text := by
    cases verifyInjection <;> simpa [noText, injection] using member
  by_cases words : keyWords text = []
  · exact iff_of_true (fun _ => ⟨text, by simp, .inl words⟩) (.inl words)
  rw [or_iff_right words, ← surroundings.interrupt.places_iff_roomy surroundings.ring words]
  constructor
  · -- The injection that is asked for can only be the one of /VERIFY.
    intro right
    obtain ⟨received, member, nothing | ⟨typed, injected⟩⟩ := right rfl <;> obtain rfl := isText member
    · exact absurd nothing words
    · cases verifyInjection with
      | false => simp [noInjection] at injected
      | true =>
        have same : .injected typed (typed ++ keyWords received) =
            surroundings.injection received surroundings.memory := by simpa [noInjection] using injected
        obtain ⟨rfl, queue⟩ := ClientEvent.injected.inj same
        exact ⟨rfl, queue.symm⟩
  · rintro ⟨rfl, placed⟩ _
    refine ⟨text, by simp, .inr
      ⟨(surroundings.interrupt.injectTests surroundings.arrivals text surroundings.memory).2.queue, ?_⟩⟩
    rw [← placed]
    simp [injection]

end Surroundings

/-- Each TEXT_ACK comes behind the injection of all that was received, exactly if what `main`
receives holds no key, if its TEXT_ACK does not go out, or if /VERIFY is given and the text
comes into an empty queue with room for it. -/
theorem acknowledges_injected_iff (surroundings : Surroundings) (argv : List (List Byte)) :
    History.Everywhere AcknowledgesInjected (surroundings.main argv).2.history ↔
      ∀ text waiting, surroundings.receiveText surroundings.start = (some text, waiting) →
        keyWords text = [] ∨ ¬ waiting.Takes 10 ∨ Surroundings.verifyInjection argv = true ∧
          KeyboardInterrupt.Roomy surroundings.arrivals text surroundings.memory := by
  have spec := surroundings.receiveText_spec
  unfold Surroundings.main
  generalize surroundings.receiveText surroundings.start = outcome at spec ⊢
  obtain ⟨answer, waiting⟩ := outcome
  cases answer with
  | none =>
    refine iff_of_true ?_ (fun _ _ received => by simp at received)
    have quiet := History.everywhere_append History.everywhere_nil
      fun before event member => (spec.asks event member).quiet before
    exact quiet
  | some text =>
    obtain ⟨memory, asked, history, asks⟩ := spec
    obtain ⟨written, later, whole, injections⟩ :=
      surroundings.acknowledge_history (Surroundings.verifyInjection argv) text waiting
    dsimp only
    -- Only the TEXT_ACK can be wrong.
    rw [whole, history, memory, History.everywhere_between]
    · by_cases takes : waiting.Takes 10
      · rw [decide_eq_true takes, Surroundings.acknowledges_iff asks]
        constructor
        · rintro right _ _ ⟨⟩
          exact right.imp_right .inr
        · intro right
          simpa [takes] using right text waiting rfl
      · rw [decide_eq_false takes]
        refine iff_of_true trivial ?_
        rintro _ _ ⟨⟩
        exact .inr (.inl takes)
    · intro before event member
      rw [List.mem_append, List.mem_append, List.mem_singleton] at member
      rcases member with (asked | rfl) | injected
      · exact (asks event asked).quiet before
      · trivial
      · split at injected
        · rw [List.mem_singleton.mp injected]
          trivial
        · simp at injected
    · intro before event member
      obtain ⟨typed, queue, rfl⟩ := injections event member
      trivial

/-- INT 18h with AH=05h takes the word at the head of the queue, if there is one. -/
def senseHead (memory : Memory) : Word × Word × Memory :=
  match pc98InputWaitQueue memory with
  | (some key, memory) => (key, 0x0100#16, memory)
  | (none, memory) => (0#16, 0#16, memory)

/-- An empty queue, no keys, and a host that sends the letter A in time. -/
def letterInTime : Surroundings where
  line := { host := fun _ packet => (letterAnswer packet).map some }
  memory := emptyRing
  ring := emptyRing_wellFormed
  interrupt := enqueueInterrupt
  senseKey := fun _ => senseHead

/-- Without /VERIFY the letter comes into the queue behind its TEXT_ACK. -/
theorem acknowledges_before_injecting :
    ¬ History.Everywhere AcknowledgesInjected (letterInTime.main []).2.history := by
  intro all
  have history : (letterInTime.main []).2.history =
      [.sent ⟨imeHello, 1#16, Client.hello⟩ 21 true, .sent ⟨imePing, 2#16, []⟩ 10 true,
        .sent ⟨imeOpenIme, 3#16, []⟩ 10 true, .received [0x41#8]] ++
      .sent ⟨imeTextAck, 3#16, []⟩ 10 true :: [.injected [] [0x0041#16]] := by decide +kernel
  obtain ⟨text, received, nothing | ⟨typed, injected⟩⟩ := all _ _ _ history rfl
  · obtain rfl : text = [0x41#8] := by simpa using received
    exact absurd nothing (by decide)
  · simp at injected

end ImeBridge
