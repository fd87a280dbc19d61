import ImeBridge.Resident.Batches
import ImeBridge.Resident.Timeout

/-! # Every accepted input is answered

Runs behind an accepted TEXT or KEY in which neither a hotkey word nor a packet is seen,
every send goes out and the BIOS queue has room: the input is queued, answered once, and
the next OPEN_IME follows in the same run.  A TEXT without bytes is the exception: its
length of 0 is also what says that nothing is staged.
-/

namespace ImeBridge

open Library Session

/-- From one state to a later one exactly these packets are sent. -/
def Session.Sends (before : Session) (packets : List Packet) (after : Session) : Prop :=
  ∃ events, after.history = before.history ++ events ∧ events.filterMap Event.sentPacket = packets

namespace Session.Sends

variable {before middle after : Session} {first second : List Packet}

theorem refl (session : Session) : session.Sends [] session := ⟨[], by simp, rfl⟩

theorem quiet {events : List Event} (grows : after.history = before.history ++ events)
    (silent : ∀ event ∈ events, event.sentPacket = none) : before.Sends [] after :=
  ⟨events, grows, List.filterMap_eq_nil_iff.mpr silent⟩

theorem trans (early : before.Sends first middle) (late : middle.Sends second after) :
    before.Sends (first ++ second) after := by
  obtain ⟨events, history, packets⟩ := early
  obtain ⟨more, longer, others⟩ := late
  refine ⟨events ++ more, ?_, ?_⟩
  · rw [longer, history, List.append_assoc]
  · rw [List.filterMap_append, packets, others]

theorem unique (one : before.Sends first after) (other : before.Sends second after) : first = second := by
  obtain ⟨events, history, rfl⟩ := one
  obtain ⟨more, longer, rfl⟩ := other
  rw [List.append_cancel_left (history.symm.trans longer)]

end Session.Sends

/-! ## A calm run -/

/-- A run from here sees neither a hotkey word nor a packet it acts on, every packet it sends
goes out, and the BIOS queue has room for a word. -/
structure Tsr.Calm (tsr : Tsr) : Prop where
  noHotkey : tsr.HotkeyHeld → (pc98BiosDiscardHotkeySpace tsr.memory).1 = false
  noPacket : (receiveStage (hotkeyStage tsr)).toSession = (hotkeyStage tsr).toSession
  transmits : tsr.transmitLimits = []
  ring : tsr.memory.WellFormedRing
  room : tsr.memory.count < 16

variable {tsr : Tsr}

/-- The first two stages of a calm run change nothing the others look at. -/
theorem Tsr.Calm.received (calm : tsr.Calm) :
    (receiveStage (hotkeyStage tsr)).toSession = tsr.toSession ∧
      (receiveStage (hotkeyStage tsr)).memory = tsr.memory ∧
      (receiveStage (hotkeyStage tsr)).transmitLimits = [] := by
  have hotkey : (hotkeyStage tsr).toSession = tsr.toSession ∧ (hotkeyStage tsr).memory = tsr.memory ∧
      (hotkeyStage tsr).transmitLimits = [] := by
    by_cases held : tsr.HotkeyHeld
    · have refused := calm.noHotkey held
      have newest : tsr.memory.queue.getLast? ≠ some 0x3420#16 := fun space => by
        rw [(calm.ring.discard_space space).1] at refused
        contradiction
      rw [hotkeyStage_held tsr held, calm.ring.discard_other newest]
      exact ⟨rfl, rfl, calm.transmits⟩
    · rw [hotkeyStage_released tsr held]
      exact ⟨rfl, rfl, calm.transmits⟩
  obtain ⟨session, memory, limits⟩ := hotkey
  have works := receiveStage_works (hotkeyStage tsr)
  refine ⟨calm.noPacket.trans session, works.memory.trans memory, ?_⟩
  exact List.suffix_nil.mp (limits ▸ works.limits)

/-- With COM1 open and nothing in its way, a packet goes out whole. -/
theorem sendPacket_whole (opened : tsr.serialOpened = true) (limits : tsr.transmitLimits = [])
    (type : Byte) (sequence : Word) : sendPacket type sequence [] tsr =
      (true, tsr.note (.sent ⟨type, sequence, []⟩ 10 true)) := by
  have length := @length_imePacketBuild type sequence [] (by simp)
  have nonempty : imePacketBuild type sequence [] ≠ [] := by
    intro empty
    simp [empty] at length
  simp only [sendPacket, if_neg nonempty, pc98SerialWrite, opened, if_true, limits, length,
    List.length_nil, Nat.add_zero]

/-- Nothing is staged and no request is to be sent. -/
def Session.Idles (session : Session) : Prop := ¬ session.Staged ∧ session.openPending = false

/-- The timer sends nothing, and it stages nothing. -/
theorem tickStage_idles (idles : tsr.Idles) :
    (tickStage tsr).Idles ∧ tsr.Sends [] (tickStage tsr).toSession := by
  rw [tickStage_session]
  split_ifs
  · exact ⟨⟨idles.1, rfl⟩, .quiet rfl (by simp [Event.sentPacket])⟩
  · exact ⟨idles, .refl _⟩
  · exact ⟨idles, .refl _⟩

/-- A calm run of an idle client sends nothing. -/
theorem Tsr.Calm.idles (calm : tsr.Calm) (idles : tsr.Idles) :
    (pc98ServiceForeground tsr).Idles ∧ tsr.Sends [] (pc98ServiceForeground tsr).toSession := by
  obtain ⟨session, -, -⟩ := calm.received
  have idle : (receiveStage (hotkeyStage tsr)).Idles := session ▸ idles
  have asksNot : openStage (receiveStage (hotkeyStage tsr)) = receiveStage (hotkeyStage tsr) := by
    simp [openStage, idle.2]
  have ticked := tickStage_idles idle
  rw [session] at ticked
  rw [pc98ServiceForeground, injectStage_empty _ idle.1, asksNot]
  exact ticked

/-! ## The run that answers -/

/-- The client waits for input, with the OPEN_IME of this number as its last packet. -/
structure Session.Waits (number : Word) (session : Session) : Prop where
  link : session.linkState = .ready
  opened : session.serialOpened = true
  active : session.imeActive = true
  enabled : session.imeEnabled = true
  noRequest : session.openPending = false
  sequence : session.sequence = number

/-- The last answer has just gone out, and the run has come to its request. -/
structure Session.Answered (number : Word) (session : Session) : Prop where
  link : session.linkState = .ready
  opened : session.serialOpened = true
  inactive : session.imeActive = false
  request : session.openPending = true
  unstaged : ¬ session.Staged
  sequence : session.sequence = number

/-- The request goes out behind the answer. -/
theorem Session.Answered.finish {number : Word} (answered : tsr.Answered number)
    (limits : tsr.transmitLimits = []) : (tickStage (openStage tsr)).Idles ∧
      tsr.Sends [⟨imeOpenIme, number + 1#16, []⟩] (tickStage (openStage tsr)).toSession := by
  have sends := @sendPacket_whole
    { tsr with sequence := tsr.sequence + 1#16, openSequence := tsr.sequence + 1#16 }
    answered.opened limits imeOpenIme (tsr.sequence + 1#16)
  have asks : openStage tsr = { Tsr.note (.sent ⟨imeOpenIme, tsr.sequence + 1#16, []⟩ 10 true)
      { tsr with sequence := tsr.sequence + 1#16, openSequence := tsr.sequence + 1#16 } with
      imeActive := true, openPending := false, waitTicks := 0#16 } := by
    rw [openStage, if_pos ⟨answered.request, by simp [answered.inactive]⟩, if_pos answered.link]
    simp only [sendOpenIme, sends, if_true]
  have idles : (openStage tsr).Idles := by
    rw [asks]
    exact ⟨answered.unstaged, rfl⟩
  have asked : tsr.Sends [⟨imeOpenIme, number + 1#16, []⟩] (openStage tsr).toSession := by
    rw [asks, answered.sequence]
    exact ⟨_, rfl, rfl⟩
  obtain ⟨still, silent⟩ := tickStage_idles idles
  exact ⟨still, asked.trans silent⟩

/-- What remains of a staged TEXT, and how long the client has waited. -/
structure Session.TextStaged (number : Word) (left : List Word) (ticks : Nat) (session : Session) : Prop
    extends Session.Waits number session where
  unfinished : session.pendingOffset < session.pendingLength
  whole : session.pendingText.length = session.pendingLength
  noKey : session.pendingKeyActive = false
  answers : session.pendingSequence = number
  left : session.wordsLeft = left
  ticks : session.waitTicks = BitVec.ofNat 16 ticks

/-- A staged KEY. -/
structure Session.KeyStaged (number : Word) (session : Session) : Prop
    extends Session.Waits number session where
  noText : session.pendingLength = 0
  key : session.pendingKeyActive = true
  answers : session.pendingSequence = number

/-- The timer of a client that waits moves on by one run. -/
theorem tickStage_waits {number : Word} {ticks : Nat} (waits : tsr.Waits number)
    (early : ticks + 1 < 65535) (counted : tsr.waitTicks = BitVec.ofNat 16 ticks) :
    (tickStage tsr).toSession = { tsr.toSession with waitTicks := BitVec.ofNat 16 (ticks + 1) } := by
  have next : tsr.waitTicks + 1#16 = BitVec.ofNat 16 (ticks + 1) := by rw [counted]; bv_omega
  have notLast : BitVec.ofNat 16 (ticks + 1) ≠ 0xffff#16 := by bv_omega
  have waiting : tsr.waiting = true := by simp [Session.waiting, waits.active]
  have inTime : tsr.timesOut = false := by simp [Session.timesOut, next, notLast]
  rw [tickStage_session, inTime, waiting, next]
  rfl

/-- A calm run queues some of the TEXT, or the rest of it, and then it answers and asks. -/
theorem Tsr.Calm.text {number : Word} {left : List Word} {ticks : Nat} (calm : tsr.Calm)
    (staged : tsr.TextStaged number left ticks) (early : ticks + 1 < 65535) :
    (∃ rest, rest.length < left.length ∧
        (pc98ServiceForeground tsr).TextStaged number rest (ticks + 1) ∧
        tsr.Sends [] (pc98ServiceForeground tsr).toSession) ∨
      (pc98ServiceForeground tsr).Idles ∧
        tsr.Sends [⟨imeTextAck, number, []⟩, ⟨imeOpenIme, number + 1#16, []⟩]
          (pc98ServiceForeground tsr).toSession := by
  obtain ⟨session, memory, limits⟩ := calm.received
  simp only [pc98ServiceForeground]
  generalize receiveStage (hotkeyStage tsr) = received at *
  have staged : received.TextStaged number left ticks := session ▸ staged
  rw [← session]
  have isStaged : received.pendingLength ≠ 0 := by
    have unfinished := staged.unfinished
    omega
  obtain ⟨words, rest, queues, ends⟩ := injectPendingText_queues (memory ▸ calm.ring) staged.whole
  have keeps : rest.toSession = { received.toSession with
      pendingOffset := rest.pendingOffset
      history := received.history ++ words.map .queuedText } := congrArg Tsr.toSession queues.frame
  have silent : received.Sends [] rest.toSession := by
    refine .quiet (congrArg Session.history keeps) ?_
    simp [Event.sentPacket]
  have noKey : rest.pendingKeyActive = false := (congrArg Session.pendingKeyActive keeps).trans staged.noKey
  cases ends with
  | inl waits =>
    -- The rest of the text stays staged, and the timer moves on.
    obtain ⟨unfinished, batch, stays⟩ := waits
    have injects : injectStage received = rest := by simp [injectStage, isStaged, stays, noKey]
    have still : rest.TextStaged number rest.wordsLeft ticks := by
      rw [keeps]
      exact { staged with unfinished := unfinished, left := rfl }
    have asksNot : openStage rest = rest := by simp [openStage, still.noRequest]
    have shorter : rest.wordsLeft.length < left.length := by
      have split := congrArg List.length (staged.left.symm.trans queues.left)
      have room := calm.room
      rw [← memory] at room
      rw [List.length_append] at split
      omega
    rw [injects, asksNot, tickStage_waits still.toWaits early still.ticks]
    refine .inl ⟨rest.wordsLeft, shorter, ?_, silent⟩
    exact { still with ticks := rfl }
  | inr answers =>
    -- The words are all queued: the answer goes out, and the request behind it.
    obtain ⟨finished, sent, sends, answers⟩ := answers
    have stillOpen : rest.serialOpened = true := (congrArg Session.serialOpened keeps).trans staged.opened
    have stillFree : rest.transmitLimits = [] := by rw [queues.frame]; exact limits
    have acked : sent = rest.note (.sent ⟨imeTextAck, number, []⟩ 10 true) := by
      rw [← sends, sendPacket_whole stillOpen stillFree, staged.answers]
    have sentKey : sent.pendingKeyActive = false := by rw [acked]; exact noKey
    have injects : injectStage received = { sent with
        pendingLength := 0
        pendingOffset := 0
        imeActive := false
        openPending := sent.imeEnabled } := by
      simp [injectStage, isStaged, answers, sentKey]
    have answered : (injectStage received).Answered number := by
      rw [injects, acked]
      exact
        { link := (congrArg Session.linkState keeps).trans staged.link
          opened := stillOpen
          inactive := rfl
          request := (congrArg Session.imeEnabled keeps).trans staged.enabled
          unstaged := by simp [Session.Staged, Tsr.note, noKey]
          sequence := (congrArg Session.sequence keeps).trans staged.sequence }
    have freed : (injectStage received).transmitLimits = [] := by
      rw [injects, acked]
      exact stillFree
    have out : received.Sends [⟨imeTextAck, number, []⟩] (injectStage received).toSession := by
      refine silent.trans ⟨[.sent ⟨imeTextAck, number, []⟩ 10 true], ?_, rfl⟩
      rw [injects, acked]
      rfl
    obtain ⟨idles, asks⟩ := answered.finish freed
    exact .inr ⟨idles, out.trans asks⟩

/-- A calm run queues the KEY, answers and asks. -/
theorem Tsr.Calm.key {number : Word} (calm : tsr.Calm) (staged : tsr.KeyStaged number) :
    (pc98ServiceForeground tsr).Idles ∧
      tsr.Sends [⟨imeKeyAck, number, []⟩, ⟨imeOpenIme, number + 1#16, []⟩]
        (pc98ServiceForeground tsr).toSession := by
  obtain ⟨session, memory, limits⟩ := calm.received
  simp only [pc98ServiceForeground]
  generalize receiveStage (hotkeyStage tsr) = received at *
  have staged : received.KeyStaged number := session ▸ staged
  rw [← session]
  obtain ⟨succeeds, -, -⟩ := Memory.WellFormedRing.enqueue_room (memory ▸ calm.ring) (memory ▸ calm.room)
    received.pendingKey
  rcases enqueued : pc98BiosEnqueueWord received.pendingKey received.memory with ⟨succeeded, queue⟩
  rw [enqueued] at succeeds
  cases succeeds
  have sends := @sendPacket_whole ({ received with memory := queue }.note (.queuedKey received.pendingKey))
    staged.opened limits imeKeyAck received.pendingSequence
  have injects : injectStage received = { ({ received with memory := queue }.note
      (.queuedKey received.pendingKey)).note (.sent ⟨imeKeyAck, number, []⟩ 10 true) with
      pendingKeyActive := false
      imeActive := false
      openPending := true } := by
    have noText : ¬ received.pendingLength ≠ 0 := not_not.mpr staged.noText
    rw [injectStage, if_neg noText, if_pos staged.key]
    simp only [injectPendingKey, enqueueNoting, enqueued]
    rw [show (Tsr.note (.queuedKey received.pendingKey) { received with memory := queue }).pendingSequence =
      received.pendingSequence from rfl, sends, staged.answers]
    simp [Tsr.note, staged.enabled]
  have answered : (injectStage received).Answered number := by
    rw [injects]
    exact
      { link := staged.link
        opened := staged.opened
        inactive := rfl
        request := rfl
        unstaged := by simp [Session.Staged, Tsr.note, staged.noText]
        sequence := staged.sequence }
  have freed : (injectStage received).transmitLimits = [] := by
    rw [injects]
    exact limits
  have out : received.Sends [⟨imeKeyAck, number, []⟩] (injectStage received).toSession := by
    refine ⟨[.queuedKey received.pendingKey, .sent ⟨imeKeyAck, number, []⟩ 10 true], ?_, rfl⟩
    rw [injects]
    simp [Tsr.note]
  obtain ⟨idles, asks⟩ := answered.finish freed
  exact ⟨idles, out.trans asks⟩

/-! ## Run after run -/

/-- The first `limit` runs are calm, each on the machine given for it. -/
def CalmRuns (machines : Nat → Hardware) (tsr : Tsr) (limit : Nat) : Prop :=
  ∀ run < limit, Tsr.Calm { waited machines tsr run with toHardware := machines run }

section Waiting

variable {machines : Nat → Hardware} {start : Tsr} {limit run : Nat}

/-- An idle client stays idle and sends nothing. -/
theorem CalmRuns.idles (calm : CalmRuns machines start limit) (idles : (waited machines start run).Idles)
    (more : Nat) (within : run + more ≤ limit) : (waited machines start (run + more)).Idles ∧
      (waited machines start run).Sends [] (waited machines start (run + more)).toSession := by
  induction more with
  | zero => exact ⟨idles, .refl _⟩
  | succ more inductionHypothesis =>
    obtain ⟨still, silent⟩ := inductionHypothesis (by omega)
    obtain ⟨next, quiet⟩ := (calm (run + more) (by omega)).idles still
    exact ⟨next, silent.trans quiet⟩

/-- The packets are sent together, in one of the first `bound` runs, and nothing in the others. -/
def SentOnce (machines : Nat → Hardware) (start : Tsr) (limit bound : Nat) (packets : List Packet) : Prop :=
  ∃ sending, 0 < sending ∧ sending ≤ bound ∧ ∀ run ≤ limit,
    start.Sends (if run < sending then [] else packets) (waited machines start run).toSession

theorem SentOnce.weaken {bound wider : Nat} {packets : List Packet}
    (sent : SentOnce machines start limit bound packets) (within : bound ≤ wider) :
    SentOnce machines start limit wider packets := by
  obtain ⟨sending, late, soon, sends⟩ := sent
  exact ⟨sending, late, soon.trans within, sends⟩

/-- A client that is idle from the start never sends them. -/
theorem CalmRuns.not_sentOnce (calm : CalmRuns machines start limit) (idles : start.Idles) {bound : Nat}
    (within : bound ≤ limit) {packets : List Packet} (some : packets ≠ []) :
    ¬ SentOnce machines start limit bound packets := by
  rintro ⟨sending, late, soon, sends⟩
  have sent := sends sending (soon.trans within)
  have silent := (@CalmRuns.idles machines start limit 0 calm idles sending (by omega)).2
  rw [if_neg (lt_irrefl sending)] at sent
  rw [Nat.zero_add] at silent
  exact some (sent.unique silent)

/-- After the run that sends them the client is idle. -/
theorem CalmRuns.sentOnce (calm : CalmRuns machines start limit) {packets : List Packet}
    (before : ∀ earlier ≤ run, start.Sends [] (waited machines start earlier).toSession)
    (idles : (waited machines start (run + 1)).Idles)
    (sends : start.Sends packets (waited machines start (run + 1)).toSession) :
    SentOnce machines start limit (run + 1) packets := by
  refine ⟨run + 1, Nat.succ_pos run, le_rfl, fun later bound => ?_⟩
  by_cases early : later < run + 1
  · rw [if_pos early]
    exact before later (by omega)
  · rw [if_neg early]
    obtain ⟨more, rfl⟩ := Nat.exists_eq_add_of_le (Nat.not_lt.mp early)
    have after := sends.trans (calm.idles idles more bound).2
    rwa [List.append_nil] at after

/-- Each run queues at least one of the words left, and the last of them is answered. -/
theorem CalmRuns.text (calm : CalmRuns machines start limit) {number : Word} {left : List Word}
    (staged : (waited machines start run).TextStaged number left run) (within : run + left.length ≤ limit)
    (inTime : run + left.length < 65535)
    (before : ∀ earlier ≤ run, start.Sends [] (waited machines start earlier).toSession) :
    SentOnce machines start limit (run + left.length)
      [⟨imeTextAck, number, []⟩, ⟨imeOpenIme, number + 1#16, []⟩] := by
  -- On the number of words left, which every run makes smaller.
  induction length : left.length using Nat.strong_induction_on generalizing run left with
  | _ count inductionHypothesis =>
    have someLeft : left ≠ [] := staged.left ▸ Session.wordsLeft_ne_nil staged.whole staged.unfinished
    have positive := List.length_pos_iff.mpr someLeft
    have next := (calm run (by omega)).text staged (by omega)
    cases next with
    | inl goesOn =>
      obtain ⟨rest, fewer, still, silent⟩ := goesOn
      have quiet : ∀ earlier ≤ run + 1, start.Sends [] (waited machines start earlier).toSession := by
        intro earlier bound
        cases Nat.le_succ_iff.mp bound with
        | inl early => exact before earlier early
        | inr now => exact now ▸ (before run le_rfl).trans silent
      obtain ⟨sending, late, soon, sends⟩ :=
        inductionHypothesis rest.length (length ▸ fewer) still (by omega) (by omega) quiet rfl
      exact ⟨sending, late, by omega, sends⟩
    | inr answers =>
      obtain ⟨idles, sends⟩ := answers
      obtain ⟨sending, late, soon, sent⟩ := calm.sentOnce before idles
        ((before run le_rfl).trans sends)
      exact ⟨sending, late, by omega, sent⟩

theorem CalmRuns.key (calm : CalmRuns machines start limit) {number : Word} (staged : start.KeyStaged number)
    (within : 1 ≤ limit) : SentOnce machines start limit 1
      [⟨imeKeyAck, number, []⟩, ⟨imeOpenIme, number + 1#16, []⟩] := by
  obtain ⟨idles, sends⟩ := (calm 0 within).key staged
  refine calm.sentOnce (fun earlier bound => ?_) idles sends
  rw [Nat.le_zero.mp bound]
  exact .refl _

end Waiting

/-! ## The state in which input is accepted -/

/-- The OPEN_IME the client waits on has the last number given out. -/
def Session.Current (session : Session) : Prop :=
  session.imeActive = true → session.openSequence = session.sequence

theorem Session.Current.move {session next : Session} (does : Move session next) (current : session.Current) :
    next.Current := by
  cases does with
  | own does =>
    cases does with
    | turnedOn | queuedText | ticked => exact current
    | turnedOff | shutDown | answeredText | answeredKey => exact fun active => absurd active Bool.noConfusion
    | asked written succeeded => cases succeeded <;> exact fun _ => rfl
    | greeting written succeeded request idle =>
      cases succeeded with
      | true => exact fun active => absurd (idle.symm.trans active) Bool.noConfusion
      | false => exact fun active => absurd active Bool.noConfusion
  | packet packet fits does =>
    cases does with
    | greeted | text | key | ignored => exact current
    | greetedAsking written succeeded => cases succeeded <;> exact fun _ => rfl
    | close => exact fun active => absurd active Bool.noConfusion

/-- The client within its `bytes`-th turn of `poll_transport`, where `handle_packet` is called. -/
def polling (bytes : Nat) (tsr : Tsr) : Tsr := pollLoop bytes (hotkeyStage tsr)

theorem polling_waits {before : Tsr} (settled : before.Settled) (current : before.Current) {bytes : Nat}
    (active : (polling bytes before).imeActive = true) :
    (polling bytes before).Waits (polling bytes before).openSequence := by
  have moves : Moves before.toSession (polling bytes before).toSession :=
    (hotkeyStage_session before).moves.trans (pollLoop_session (hotkeyStage before) bytes)
  have consistent := moves.preserves Consistent.move settled.toConsistent
  have ready := consistent.active_ready active
  have enabled := consistent.active_enabled active
  have last := moves.preserves (fun _ _ does start => Session.Current.move does start) current
  exact
    { link := ready
      opened := consistent.opened.mpr (by simp [ready])
      active := active
      enabled := enabled
      noRequest := by rw [consistent.on enabled, active]; rfl
      sequence := (last active).symm }

/-- A TEXT, or a KEY with a code that is known. -/
def Packet.IsInput (packet : Packet) : Prop :=
  (packet.type = imeText ∧ packet.payload.length ≤ 512) ∨
    (packet.type = imeKey ∧ packet.payload.length = 1 ∧ keyCodeWord (packet.payload.getD 0 0) ≠ none)

/-- The key words an input packet stands for. -/
def Packet.words (packet : Packet) : List Word :=
  if packet.type = imeText then keyWords packet.payload
  else (keyCodeWord (packet.payload.getD 0 0)).toList

/-- The answer to an input packet, and the next OPEN_IME. -/
def Packet.answers (packet : Packet) : List Packet :=
  [⟨if packet.type = imeText then imeTextAck else imeKeyAck, packet.sequence, []⟩,
    ⟨imeOpenIme, packet.sequence + 1#16, []⟩]

theorem length_keyWords_le (text : List Byte) : (keyWords text).length ≤ text.length := by
  fun_induction keyWords text with
  | case1 | case2 => simp
  | case3 first second rest enter inductionHypothesis => simp; omega
  | case4 first second rest separate inductionHypothesis => simpa using inductionHypothesis

/-- An accepted input is answered once, within one run for each of its words and one more,
and the next OPEN_IME follows at once, exactly if it is no TEXT without bytes. -/
theorem input_answered_iff (modifierMask : Byte) (hardware : Hardware) (actions : List Action)
    (bytes : Nat) (packet : Packet) (machines : Nat → Hardware) (limit : Nat) :
    let tsr := polling bytes (Run.run Action.apply actions (cleared modifierMask hardware))
    let start := handleParsed packet tsr
    packet.IsInput → tsr.expects packet = true → ¬ tsr.Staged → CalmRuns machines start limit →
      packet.words.length + 1 ≤ limit →
      (SentOnce machines start limit (packet.words.length + 1) packet.answers ↔
        ¬ (packet.type = imeText ∧ packet.payload = [])) := by
  intro tsr start input expected unstaged calm enough
  obtain ⟨active, sequence⟩ : tsr.imeActive = true ∧ packet.sequence = tsr.openSequence := by
    simpa [Session.expects] using expected
  have waits : tsr.Waits packet.sequence := by
    have settled := Run.invariant Action.apply (fun state action => Action.settled state action) actions
      (cleared_settled modifierMask hardware)
    have current := @Run.invariant Tsr Action Action.apply (fun tsr => tsr.Current)
      (fun _ action => action.preserves Session.Current (fun _ _ does start => start.move does)
        (fun _ _ _ _ active => absurd active Bool.noConfusion))
      actions (cleared modifierMask hardware) (fun _ => rfl)
    exact sequence ▸ polling_waits settled current active
  obtain ⟨noText, noKey⟩ : tsr.pendingLength = 0 ∧ tsr.pendingKeyActive = false := by
    simpa [Session.Staged] using unstaged
  cases input with
  | inl text =>
    obtain ⟨isText, fits⟩ := text
    have starts : start = ({ tsr with
        pendingText := packet.payload
        pendingLength := packet.payload.length
        pendingOffset := 0
        pendingSequence := packet.sequence
        waitTicks := 0#16 } : Tsr).note (.acceptedText packet.sequence packet.payload) := by
      have notPong : ¬ (packet.type = imePong ∧ tsr.linkState = .helloWait) := by simp [isText]
      simp only [start]
      rw [handleParsed, if_neg notPong, if_pos ⟨isText, expected, fits⟩]
    have words : packet.words = keyWords packet.payload := if_pos isText
    by_cases empty : packet.payload = []
    · -- Its length says that nothing is staged, so no run comes to answer it.
      have idles : start.Idles := by
        rw [starts]
        exact ⟨by simp [Session.Staged, Tsr.note, empty, noKey], waits.noRequest⟩
      exact iff_of_false (calm.not_sentOnce idles enough (by simp [Packet.answers])) fun other =>
        other ⟨isText, empty⟩
    · have staged : start.TextStaged packet.sequence (keyWords packet.payload) 0 := by
        rw [starts]
        exact { waits with
          unfinished := List.length_pos_iff.mpr empty
          whole := rfl
          noKey := noKey
          answers := rfl
          left := rfl
          ticks := rfl }
      have short := length_keyWords_le packet.payload
      rw [words] at enough ⊢
      have sent := @CalmRuns.text machines start limit 0 calm _ _ staged (by omega) (by omega)
        (fun earlier bound => Nat.le_zero.mp bound ▸ .refl _)
      refine iff_of_true ?_ fun both => empty both.2
      rw [Packet.answers, if_pos isText]
      exact sent.weaken (by omega)
  | inr key =>
    obtain ⟨isKey, code, known⟩ := key
    obtain ⟨word, found⟩ := Option.ne_none_iff_exists'.mp known
    have notText : packet.type ≠ imeText := by simp [isKey]
    have starts : start = ({ tsr with
        pendingKey := word
        pendingKeyActive := true
        pendingSequence := packet.sequence
        waitTicks := 0#16 } : Tsr).note (.acceptedKey packet.sequence word (tsr.pendingLength ≠ 0)) := by
      have notPong : ¬ (packet.type = imePong ∧ tsr.linkState = .helloWait) := by simp [isKey]
      have noText : ¬ (packet.type = imeText ∧ tsr.expects packet = true ∧ packet.payload.length ≤ 512) :=
        fun text => notText text.1
      simp only [start]
      rw [handleParsed, if_neg notPong, if_neg noText, if_pos ⟨isKey, expected, code⟩, found]
    have staged : start.KeyStaged packet.sequence := by
      rw [starts]
      exact { waits with noText := noText, key := rfl, answers := rfl }
    refine iff_of_true ?_ fun both => notText both.1
    rw [Packet.answers, if_neg notText]
    exact (calm.key staged (by omega)).weaken (by omega)

/-! ## Two inputs behind the run that opens a session -/

/-- The client with OPEN_IME 2 out, and a TEXT with these bytes just accepted. -/
def textAccepted (payload : List Byte) : Tsr :=
  handleParsed ⟨imeText, 2#16, payload⟩ (polling 0 (Run.run Action.apply opening (cleared 0x01#8 {})))

theorem Tsr.holds_nil (drained : tsr.irqReadPos = tsr.irqWritePos) : tsr.port.Holds [] := drained

theorem machine_calm {tsr : Tsr} (rests : tsr.Resting) :
    Tsr.Calm { tsr with toHardware := machine 0#8 [] } := by
  have quiet := machine_quiet tsr []
  have ring : (machine 0#8 []).memory.WellFormedRing := ⟨by decide, by decide, by decide, by decide⟩
  have room : (machine 0#8 []).memory.count < 16 := by decide
  have released : ¬ Tsr.HotkeyHeld { tsr with toHardware := machine 0#8 [] } := by
    have up : (machine 0#8 []).memory.readByte 0x0530#16 &&& 0x10#8 = 0#8 := by decide +kernel
    exact fun held => absurd up held.2
  refine ⟨quiet.noHotkey, ?_, rfl, ring, room⟩
  rw [hotkeyStage_released _ released]
  exact congrArg Tsr.toSession (receiveStage_silent _ rfl rests.empty)

theorem textAccepted_calm {payload : List Byte} (rests : (textAccepted payload).Resting) (limit : Nat) :
    CalmRuns (fun _ => machine 0#8 []) (textAccepted payload) limit :=
  fun run _ => machine_calm (waited_resting rests run)

theorem input_answered_letter :
    SentOnce (fun _ => machine 0#8 []) (textAccepted [0x41]) 2 2
      [⟨imeTextAck, 2#16, []⟩, ⟨imeOpenIme, 3#16, []⟩] := by
  have drained : (textAccepted [0x41]).irqReadPos = (textAccepted [0x41]).irqWritePos := by decide +kernel
  have rests : (textAccepted [0x41]).Resting :=
    { settled := ⟨⟨by decide +kernel, by decide +kernel, by decide +kernel, by decide +kernel⟩, by decide +kernel⟩
      captured := by decide +kernel
      empty := Tsr.holds_nil drained }
  refine (input_answered_iff 0x01#8 {} opening 0 ⟨imeText, 2#16, [0x41]⟩ (fun _ => machine 0#8 []) 2
    (.inl ⟨rfl, by decide⟩) (by decide +kernel) (by decide +kernel) (textAccepted_calm rests 2)
    (by decide)).mpr (by simp)

/-- A TEXT without bytes is accepted and never answered, however long the host waits. -/
theorem empty_text_unanswered :
    let machines : Nat → Hardware := fun _ => machine 0#8 []
    let tsr := polling 0 (Run.run Action.apply opening (cleared 0x01#8 {}))
    let start := handleParsed ⟨imeText, 2#16, []⟩ tsr
    tsr.expects ⟨imeText, 2#16, []⟩ = true ∧ ¬ tsr.Staged ∧
      start.history = tsr.history ++ [.acceptedText 2#16 []] ∧ (∀ limit, CalmRuns machines start limit) ∧
      ∀ run, start.Sends [] (waited machines start run).toSession := by
  intro machines tsr start
  have drained : (textAccepted []).irqReadPos = (textAccepted []).irqWritePos := by decide +kernel
  have rests : (textAccepted []).Resting :=
    { settled := ⟨⟨by decide +kernel, by decide +kernel, by decide +kernel, by decide +kernel⟩, by decide +kernel⟩
      captured := by decide +kernel
      empty := Tsr.holds_nil drained }
  have calm : ∀ limit, CalmRuns machines start limit := textAccepted_calm rests
  have idles : start.Idles := ⟨by decide +kernel, by decide +kernel⟩
  refine ⟨by decide +kernel, by decide +kernel, by decide +kernel, calm, fun run => ?_⟩
  have silent := (@CalmRuns.idles machines start run 0 (calm run) idles run (by omega)).2
  rwa [Nat.zero_add] at silent

end ImeBridge
