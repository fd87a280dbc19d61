import ImeBridge.Link.Net
import ImeBridge.Resident.Consistency

/-! # What each step puts on the line

For each thing the client does to its session: the packets that follow in the
channel to the host, and its count of OPEN_IMEs.
-/

namespace ImeBridge

namespace Line

variable {line : Line} {session : Session} (written : Nat) (succeeded : Bool)

theorem toHost_note (event : Event) (silent : ∀ opening, event.mail opening = []) :
    line.toHost (session.note event).history = line.toHost session.history := by
  simp [toHost, Session.note, posted_append, mailing, silent]

theorem kept_note (kept : line.Kept session.history) (event : Event) :
    line.Kept (session.note event).history := kept.append [event]

theorem toHost_closed (kept : line.Kept session.history) :
    line.toHost (session.closed written succeeded).history = line.toHost session.history ++
      if session.linkState = .ready ∧ succeeded = true then
        [⟨⟨imeCloseIme, session.openSequence, []⟩, openings session.history⟩]
      else [] := by
  rw [Session.closed, toHost_append kept]
  cases link : session.linkState <;> cases succeeded <;>
    simp [Session.farewell, link, mailing, Event.mail, Event.opens]

theorem toHost_asked (kept : line.Kept session.history) :
    line.toHost (session.asked written succeeded).history = line.toHost session.history ++
      if succeeded = true then
        [⟨⟨imeOpenIme, session.sequence + 1#16, []⟩, openings session.history + 1⟩]
      else [] := by
  rw [Session.asked_history, toHost_append kept]
  cases succeeded <;> simp [mailing, Event.mail, Event.opens]

theorem toHost_greeting (kept : line.Kept session.history) :
    line.toHost (session.greeting written succeeded).history = line.toHost session.history ++
      if succeeded = true then
        [⟨⟨imeHello, session.sequence + 1#16, hello⟩, openings session.history⟩]
      else [] := by
  rw [Session.greeting_history, toHost_append kept]
  cases succeeded <;> simp [mailing, Event.mail, Event.opens]

theorem toHost_answeredText (kept : line.Kept session.history) :
    line.toHost (session.answeredText written succeeded).history = line.toHost session.history ++
      if succeeded = true then
        [⟨⟨imeTextAck, session.pendingSequence, []⟩, openings session.history⟩]
      else [] := by
  rw [Session.answeredText, toHost_append kept]
  cases succeeded <;> simp [mailing, Event.mail, Event.opens]

theorem toHost_answeredKey (kept : line.Kept session.history) :
    line.toHost (session.answeredKey written succeeded).history = line.toHost session.history ++
      if succeeded = true then
        [⟨⟨imeKeyAck, session.pendingSequence, []⟩, openings session.history⟩]
      else [] := by
  rw [Session.answeredKey, toHost_append kept]
  cases succeeded <;> simp [mailing, Event.mail, Event.opens]

theorem toHost_timedOut : line.toHost session.timedOut.history = line.toHost session.history := by
  simp [toHost, Session.timedOut, Session.reset, posted_append, mailing, Event.mail]

/-! ## What the host does to the line -/

variable (line) (packet : Option Packet) (accounts : Accounts) (received : Packet)

@[simp] theorem write_host : (line.write packet).host = line.host := by cases packet <;> rfl

@[simp] theorem write_arrived : (line.write packet).arrived = line.arrived := by cases packet <;> rfl

@[simp] theorem write_heard : (line.write packet).heard = line.heard := by cases packet <;> rfl

@[simp] theorem write_taken : (line.write packet).taken = line.taken := by cases packet <;> rfl

@[simp] theorem write_toHost (history : List Event) :
    (line.write packet).toHost history = line.toHost history := by
  simp [toHost]

theorem write_toClient : (line.write packet).toClient = line.toClient ++
    packet.toList.map fun packet => ⟨⟨packet, line.heard⟩, line.written⟩ := by
  cases packet <;> simp [write]

/-- Judging an ACK touches nothing but the notes on outstanding input. -/
theorem judge_eq : line.judge accounts received =
    { line with
      textOut := (line.judge accounts received).textOut
      keyOut := (line.judge accounts received).keyOut
      verdicts := (line.judge accounts received).verdicts } := by
  simp only [judge]
  split_ifs
  · cases line.textOut <;> rfl
  · cases line.keyOut <;> rfl
  · rfl

theorem serve_nil {bridge : Bridge} {history : List Event} (quiet : line.toHost history = []) :
    line.serve bridge history = line := by
  simp [serve, quiet]

theorem serve_cons {bridge : Bridge} {history : List Event} {mail : Mail} {rest : List Mail}
    (waiting : line.toHost history = mail :: rest) :
    line.serve bridge history = (Line.write (serveAsync bridge mail.packet line.host).1
      { line.judge (ImeBridge.accounts history) mail.packet with
        host := (serveAsync bridge mail.packet line.host).2
        arrived := line.arrived + 1
        heard := if mail.packet.type = imeOpenIme then mail.opening else line.heard }) := by
  simp [serve, waiting]

section Waiting

variable {bridge : Bridge} {history : List Event} {mail : Mail} {rest : List Mail}
  (waiting : line.toHost history = mail :: rest)
include waiting

theorem serve_host : (line.serve bridge history).host = (serveAsync bridge mail.packet line.host).2 := by
  rw [serve_cons line waiting, write_host]

theorem serve_heard : (line.serve bridge history).heard =
    if mail.packet.type = imeOpenIme then mail.opening else line.heard := by
  rw [serve_cons line waiting, write_heard]

theorem serve_toClient : (line.serve bridge history).toClient = line.toClient ++
    (serveAsync bridge mail.packet line.host).1.toList.map fun answer =>
      ⟨⟨answer, (line.serve bridge history).heard⟩, line.written⟩ := by
  rw [serve_heard line waiting, serve_cons line waiting, write_toClient, judge_eq]

end Waiting

theorem serve_taken (bridge : Bridge) (history : List Event) :
    (line.serve bridge history).taken = line.taken := by
  cases waiting : line.toHost history with
  | nil => rw [serve_nil line waiting]
  | cons mail rest => rw [serve_cons line waiting, write_taken, judge_eq]

/-- The user changes nothing, or has a ready host write for the OPEN_IME it is ready
for, which ends its readiness. -/
theorem perform_cases (bridge : Bridge) (action : UserAction) :
    line.perform bridge action = line ∨
      (line.host.imeReady = true ∧ ∃ packet, line.host.Writes bridge packet ∧
        line.perform bridge action =
          write (some packet) { line with host := { line.host with imeReady := false } }) := by
  obtain same | ⟨ready, packet, writes, sends⟩ := ImeBridge.perform_cases bridge action line.host
  · exact .inl (by simp [perform, same, write])
  · exact .inr ⟨ready, packet, writes, by simp [perform, sends]⟩

theorem toHost_serve (bridge : Bridge) (history : List Event) :
    (line.serve bridge history).toHost history = (line.toHost history).tail := by
  cases waiting : line.toHost history with
  | nil => simp [serve_nil line waiting, waiting]
  | cons mail rest =>
    rw [serve_cons line waiting, write_toHost, List.tail_cons]
    have dropped : (posted history).drop (line.arrived + 1) =
        ((posted history).drop line.arrived).tail := by simp
    rw [toHost, dropped, ← toHost, waiting, List.tail_cons]

theorem kept_serve (bridge : Bridge) {history : List Event} (kept : line.Kept history) :
    (line.serve bridge history).Kept history := by
  cases waiting : line.toHost history with
  | nil => rwa [serve_nil line waiting]
  | cons mail rest =>
    have some : line.arrived < (posted history).length := by
      by_contra none
      simp [toHost, List.drop_eq_nil_of_le (not_lt.mp none)] at waiting
    simpa [serve_cons line waiting, Kept] using some

/-- The host takes no more than was posted, whatever it does. -/
theorem kept_host (bridge : Bridge) (action : HostAction) (history : List Event) (line : Line)
    (kept : line.Kept history) : (action.perform bridge history line).Kept history := by
  cases action with
  | serve => exact line.kept_serve bridge kept
  | user action => simpa [HostAction.perform, Line.perform, Line.Kept] using kept

/-! ## What the client's handling of a letter does to it -/

/-- Handling a letter takes it off its channel and adds to the notes on the client. -/
theorem deliver_eq (letter : Letter) (rest : List Letter) (session : Session) (after : List Event) :
    line.deliver letter rest session after =
      { line with
        toClient := rest
        texts := (line.deliver letter rest session after).texts
        keys := (line.deliver letter rest session after).keys
        taken := (line.deliver letter rest session after).taken } := by
  have notes : ∀ (events : List Event) (line : Line),
      events.foldl (note letter session) line =
        { line with
          texts := (events.foldl (note letter session) line).texts
          keys := (events.foldl (note letter session) line).keys
          taken := (events.foldl (note letter session) line).taken } := by
    intro events
    induction events with
    | nil => exact fun _ => rfl
    | cons event events inductionHypothesis =>
      intro line
      rw [List.foldl_cons, inductionHypothesis]
      cases event <;> rfl
  exact notes _ _

variable (letter : Letter) (rest : List Letter) (session : Session) (after history : List Event)

@[simp] theorem deliver_toHost :
    (line.deliver letter rest session after).toHost history = line.toHost history := by
  rw [deliver_eq]
  rfl

@[simp] theorem deliver_host : (line.deliver letter rest session after).host = line.host := by
  rw [deliver_eq]

@[simp] theorem deliver_heard : (line.deliver letter rest session after).heard = line.heard := by
  rw [deliver_eq]

@[simp] theorem deliver_toClient : (line.deliver letter rest session after).toClient = rest := by
  rw [deliver_eq]

variable {letter rest session after history} in
theorem kept_deliver
    (kept : line.Kept history) : (line.deliver letter rest session after).Kept history := by
  rw [deliver_eq]
  exact kept

end Line

namespace Line

section Aside

variable {letter : Letter} {session : Session}

/-- An event aside leaves the notes on accepted input as they are. -/
theorem note_aside {event : Event} (isAside : event.aside = true) (line : Line) :
    (line.note letter session event).texts = line.texts ∧
      (line.note letter session event).keys = line.keys := by
  cases event with
  | acceptedText | acceptedKey => simp [Event.aside] at isAside
  | acceptedClose | sent | linkReset | toggled | queuedText | queuedKey => exact ⟨rfl, rfl⟩

theorem notes_aside {events : List Event} (areAside : ∀ event ∈ events, event.aside = true)
    (line : Line) : (events.foldl (note letter session) line).texts = line.texts ∧
      (events.foldl (note letter session) line).keys = line.keys := by
  induction events generalizing line with
  | nil => exact ⟨rfl, rfl⟩
  | cons event events inductionHypothesis =>
    obtain ⟨isAside, areAside⟩ := List.forall_mem_cons.mp areAside
    obtain ⟨texts, keys⟩ := @note_aside letter session event isAside line
    rw [List.foldl_cons, ← texts, ← keys]
    exact inductionHypothesis areAside _

end Aside

theorem deliver_aside (line : Line) (letter : Letter) (rest : List Letter) {session : Session}
    {after events : List Event} (grows : after = session.history ++ events)
    (areAside : ∀ event ∈ events, event.aside = true) :
    (line.deliver letter rest session after).texts = line.texts ∧
      (line.deliver letter rest session after).keys = line.keys := by
  rw [deliver, grows, List.drop_left]
  exact notes_aside areAside { line with toClient := rest }

/-- The host touches no notes on accepted input. -/
theorem write_notes (packet : Option Packet) (line : Line) :
    (line.write packet).texts = line.texts ∧ (line.write packet).keys = line.keys := by
  cases packet <;> exact ⟨rfl, rfl⟩

end Line

namespace Link

variable {Outside : Type} {outside : Outside → List Event → Line → Line} {link next : Link}

theorem Step.grows (does : Step outside link next) :
    link.session.history <+: next.session.history := by
  cases does with
  | own does => exact does.grows
  | receive letter rest incoming up does => exact does.grows
  | outside | unread => exact List.prefix_rfl

/-- What needs no assumption on the line: the flags of the client agree, and the host
has taken no more than was posted. -/
structure Sound (link : Link) : Prop where
  consistent : link.session.Consistent
  kept : link.Kept link.session.history

theorem Sound.step
    (keeps : ∀ action history line, line.Kept history → (outside action history line).Kept history)
    (does : Step outside link next) (sound : link.Sound) : next.Sound := by
  cases does with
  | own does =>
    obtain ⟨events, history⟩ := does.grows
    exact ⟨sound.consistent.step does, history ▸ sound.kept.append events⟩
  | receive letter rest incoming up does =>
    obtain ⟨events, history⟩ := does.grows
    exact ⟨sound.consistent.handled does,
      Line.kept_deliver _ (history ▸ sound.kept.append events)⟩
  | outside action => exact ⟨sound.consistent, keeps action _ _ sound.kept⟩
  | unread => exact ⟨sound.consistent, sound.kept⟩

theorem Sound.timedOut (sound : link.Sound) :
    ({ link with session := link.session.timedOut } : Link).Sound :=
  ⟨.timedOut link.session, sound.kept.append _⟩

theorem Sound.start (modifierMask : Byte) (hardware : Hardware) :
    (Net.start modifierMask hardware).link.Sound :=
  ⟨.initial, Nat.zero_le _⟩

end Link

end ImeBridge
