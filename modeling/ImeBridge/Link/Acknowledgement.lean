import ImeBridge.Link.Idle
import ImeBridge.Link.Turn

/-! # An ACK the host acts on is true

The turn for an OPEN_IME passes from the host over the letter and the staged input to
the ACK.  Only the response timeout can leave input staged whose turn is over; without
that, an ACK answers the outstanding input, and that is enqueued whole.
-/

namespace ImeBridge

open Library

/-- An event that neither stages nor answers input puts no ACK on the line. -/
theorem Event.mail_aside {event : Event} (isAside : event.aside = true) (opening : Nat) :
    (event.mail opening).filter (fun mail => mail.packet.acks) = [] := by
  cases event with
  | sent packet written succeeded =>
    cases succeeded with
    | false => rfl
    | true =>
      obtain ⟨textAck, keyAck⟩ : packet.type ≠ imeTextAck ∧ packet.type ≠ imeKeyAck := by
        simpa [Event.aside] using isAside
      simp [Event.mail, Packet.acks, textAck, keyAck]
  | _ => rfl

theorem mailing_aside {opening : Nat} {events : List Event}
    (areAside : ∀ event ∈ events, event.aside = true) :
    (mailing opening events).filter (fun mail => mail.packet.acks) = [] := by
  induction events generalizing opening with
  | nil => rfl
  | cons event events inductionHypothesis =>
    obtain ⟨isAside, areAside⟩ := List.forall_mem_cons.mp areAside
    rw [mailing, List.filter_append, Event.mail_aside isAside, inductionHypothesis areAside,
      List.append_nil]

namespace Link

variable {bridge : Bridge} {link next : Link}

namespace Quiet

/-- The client does something that puts no ACK on the line. -/
theorem own (sound : link.Sound) (session : Session) (events : List Event)
    (grows : session.history = link.session.history ++ events)
    (silent : (mailing (openings link.session.history) events).filter
      (fun mail => mail.packet.acks) = [])
    (staged : ¬ session.Staged ∨
      (session.pendingText = link.session.pendingText ∧
        session.pendingLength = link.session.pendingLength ∧
        session.pendingOffset = link.session.pendingOffset ∧
        session.pendingKey = link.session.pendingKey ∧
        session.pendingKeyActive = link.session.pendingKeyActive))
    (waits : session.Staged → session.imeActive = true ∧ openings session.history = link.heard)
    (textJobs : (accounts session.history).texts = (accounts link.session.history).texts)
    (keyJobs : (accounts session.history).keys = (accounts link.session.history).keys) :
    link.Quiet { link with session := session } where
  ready := id
  live := List.Sublist.refl _
  heard := rfl
  acks := by
    rw [Link.acks, Link.acks, grows, Line.toHost_append sound.kept, List.filter_append, silent,
      List.append_nil]
  staged := staged
  waits := waits
  textOut := rfl
  keyOut := rfl
  texts := rfl
  keys := rfl
  textJobs := textJobs
  keyJobs := keyJobs
  verdicts := rfl

theorem aside (sound : link.Sound) {session : Session} (moved : link.session.Aside session)
    (waits : session.Staged → session.imeActive = true ∧ openings session.history = link.heard) :
    link.Quiet { link with session := session } := by
  obtain ⟨⟨events, grows, areAside⟩, staged⟩ := moved
  have same : accounts session.history = accounts link.session.history := by
    rw [grows, accounts_aside _ areAside]
  refine own sound session events grows (mailing_aside areAside) ?_ waits (by rw [same]) (by rw [same])
  obtain dropped | ⟨text, length, offset, -, key, active⟩ := staged
  · exact .inl dropped
  · exact .inr ⟨text, length, offset, key, active⟩

/-- The same while a letter leaves its channel. -/
theorem receive (sound : link.Sound) {session : Session} {letter : Letter} {rest : List Letter}
    (incoming : link.toClient = letter :: rest) (moved : link.session.Aside session)
    (waits : session.Staged → session.imeActive = true ∧ openings session.history = link.heard) :
    link.Quiet { link.toLine.deliver letter rest link.session session.history with
      session := session } := by
  have quiet := aside sound moved waits
  obtain ⟨⟨events, grows, areAside⟩, _⟩ := moved
  obtain ⟨texts, keys⟩ := link.toLine.deliver_aside letter rest grows areAside
  have fewer : (rest.filter (Letter.live link.heard)).Sublist
      ((letter :: rest).filter (Letter.live link.heard)) := (List.sublist_cons_self _ _).filter _
  exact
    { ready := by simp
      live := by simpa [Link.live, incoming] using fewer
      heard := by simp
      acks := by rw [← quiet.acks, Link.acks, Link.acks, Line.deliver_toHost]
      staged := quiet.staged
      waits := waits
      textOut := by rw [Line.deliver_eq]
      keyOut := by rw [Line.deliver_eq]
      texts := texts
      keys := keys
      textJobs := quiet.textJobs
      keyJobs := quiet.keyJobs
      verdicts := by rw [Line.deliver_eq] }

end Quiet

theorem acks_own (sound : link.Sound) (session : Session) {events : List Event}
    (grows : session.history = link.session.history ++ events) :
    acks { link with session := session } = link.acks ++
      (mailing (openings link.session.history) events).filter fun mail => mail.packet.acks := by
  rw [acks, acks, grows, Line.toHost_append sound.kept, List.filter_append]

namespace Acknowledged

theorem unstaged (before : link.Acknowledged) (idle : link.session.imeActive = false) :
    ¬ link.session.Staged := fun staged => by
  have active := (before.waits staged).1
  rw [idle] at active
  contradiction

theorem lands_of_live (live : link.live = []) (kind : Byte) (number : Nat) :
    ¬ ∃ letter ∈ link.live, letter.packet.type = kind ∧ letter.number = number := by
  rintro ⟨letter, member, _⟩
  exact absurd (live ▸ member) List.not_mem_nil

theorem unanswered_of_acks (noAcks : link.acks = []) (kind : Byte) :
    ¬ ∃ mail ∈ link.acks, mail.packet.type = kind := by
  rintro ⟨mail, member, _⟩
  exact absurd (noAcks ▸ member) List.not_mem_nil

theorem queuedText {key : Word} {input : Nat} (sound : link.Sound) (before : link.Acknowledged)
    (remaining : link.session.pendingOffset < link.session.pendingLength)
    (encoded : pc98BiosEncodeKey link.session.pendingText link.session.pendingLength
      link.session.pendingOffset = (key, input)) :
    Acknowledged { link with
      session := { link.session with pendingOffset := input + 1 }.note (.queuedText key) } := by
  have staged : link.session.pendingLength ≠ 0 := by omega
  have length := before.length staged
  obtain ⟨ready, live, noKey, noAcks⟩ := alone_of_text before.one staged
  have acks := acks_own sound
    ({ link.session with pendingOffset := input + 1 }.note (.queuedText key)) rfl
  rw [noAcks] at acks
  have jobs : (accounts (link.session.history ++ [Event.queuedText key])).texts =
      Ledger.deliver key (accounts link.session.history).texts := by
    rw [accounts_concat]
    rfl
  have slot := before.text
  rw [TextSlot, (pc98BiosEncodeKey_spec (length ▸ remaining)).1, length, encoded] at slot
  obtain ⟨active, current⟩ := before.waits (.inl staged)
  exact
    { one := by
        have one := before.one
        rw [turns, noAcks] at one
        rw [turns, acks]
        exact one
      waits := fun _ => ⟨active, (openings_note link.session rfl).trans current⟩
      current := by
        rw [acks]
        exact fun mail member => absurd member List.not_mem_nil
      length := fun _ => length
      text := by
        rw [TextSlot, acks]
        exact jobs ▸ slot.deliver staged (lands_of_live live imeText) (by simp [mailing, Event.mail])
      key := by
        rw [KeySlot, acks]
        exact Slot.empty (lands_of_live live imeKey) (by simp [Session.note, noKey])
          (by simp [mailing, Event.mail])
      verdicts := before.verdicts }

/-- The answer to staged input takes over its turn. -/
theorem answered {session : Session} {mail : Mail} {succeeded : Bool} (before : link.Acknowledged)
    (ready : link.host.imeReady = false) (live : link.live = [])
    (acks : acks { link with session := session } = if succeeded = true then [mail] else [])
    (current : mail.opening = link.heard) (unstaged : ¬ session.Staged)
    (text : TextSlot { link with session := session })
    (key : KeySlot { link with session := session }) :
    Acknowledged { link with session := session } := by
  have noText : session.pendingLength = 0 := not_not.mp fun staged => unstaged (.inl staged)
  have noKey : session.pendingKeyActive = false :=
    Bool.eq_false_of_not_eq_true fun staged => unstaged (.inr staged)
  have noLetters : Link.live { link with session := session } = [] := live
  exact
    { one := by
        rw [turns, acks, noLetters, noText, noKey, ready]
        cases succeeded <;> simp
      waits := fun staged => absurd staged unstaged
      current := by
        rw [acks]
        intro other member
        cases succeeded with
        | false => exact absurd member List.not_mem_nil
        | true => exact List.mem_singleton.mp member ▸ current
      length := fun staged => absurd noText staged
      text := text
      key := key
      verdicts := before.verdicts }

theorem answeredText {written : Nat} {succeeded : Bool} (sound : link.Sound)
    (before : link.Acknowledged) (staged : link.session.pendingLength ≠ 0)
    (finished : link.session.pendingOffset ≥ link.session.pendingLength) :
    Acknowledged { link with session := link.session.answeredText written succeeded } := by
  obtain ⟨ready, live, noKey, noAcks⟩ := alone_of_text before.one staged
  have acks : acks { link with session := link.session.answeredText written succeeded } =
      if succeeded = true then
        [⟨⟨imeTextAck, link.session.pendingSequence, []⟩, openings link.session.history⟩]
      else [] := by
    rw [Link.acks, Line.toHost_answeredText written succeeded sound.kept, List.filter_append,
      ← Link.acks, noAcks]
    cases succeeded <;> rfl
  have slot := before.text
  -- The offset reached the end of the text, so the slot owes no word.
  have nothing : link.session.pendingText.drop link.session.pendingOffset = [] := by
    simp [before.length staged, finished]
  rw [TextSlot, nothing] at slot
  have jobs : (accounts (link.session.answeredText written succeeded).history) =
      accounts link.session.history := accounts_concat _ _
  refine before.answered ready live acks (before.waits (.inl staged)).2 ?_ ?_ ?_
  · simp [Session.Staged, Session.answeredText, noKey]
  · rw [TextSlot, jobs]
    exact slot.answer staged (lands_of_live live imeText) (by simp [Session.answeredText])
  · refine Slot.empty (lands_of_live live imeKey) (by simp [Session.answeredText, noKey]) ?_
    rw [acks]
    cases succeeded <;> simp

theorem answeredKey {written : Nat} {succeeded : Bool} (sound : link.Sound)
    (before : link.Acknowledged) (staged : link.session.pendingKeyActive = true) :
    Acknowledged { link with session := link.session.answeredKey written succeeded } := by
  obtain ⟨ready, live, noText, noAcks⟩ := alone_of_key before.one staged
  have acks : acks { link with session := link.session.answeredKey written succeeded } =
      if succeeded = true then
        [⟨⟨imeKeyAck, link.session.pendingSequence, []⟩, openings link.session.history⟩]
      else [] := by
    rw [Link.acks, Line.toHost_answeredKey written succeeded sound.kept, List.filter_append,
      ← Link.acks, noAcks]
    cases succeeded <;> rfl
  have jobs : (accounts (link.session.answeredKey written succeeded).history).keys =
      Ledger.deliver link.session.pendingKey (accounts link.session.history).keys := by
    rw [Session.answeredKey_history, accounts_concat, accounts_concat]
    rfl
  have delivered : Slot link.keyOut link.keys
      (Ledger.deliver link.session.pendingKey (accounts link.session.history).keys) (fun _ => False)
      (link.session.pendingKeyActive = true) [] False :=
    before.key.deliver staged (fun _ => id) id
  refine before.answered ready live acks (before.waits (.inr staged)).2 ?_ ?_ ?_
  · simp [Session.Staged, Session.answeredKey, noText]
  · refine Slot.empty (lands_of_live live imeText) (by simp [Session.answeredKey, noText]) ?_
    rw [acks]
    cases succeeded <;> simp
  · rw [KeySlot, jobs]
    exact delivered.answer staged (lands_of_live live imeKey) (by simp [Session.answeredKey])

/-- Input that is dropped gives up its turn. -/
theorem dropped {session : Session} (sound : link.Sound) (moved : link.session.Aside session)
    (unstaged : ¬ session.Staged) (before : link.Acknowledged) :
    Acknowledged { link with session := session } :=
  (Quiet.aside sound moved fun staged => absurd staged unstaged).acknowledged before

theorem own {session : Session} (does : Session.Step link.session session) (sound : link.Sound)
    (before : link.Acknowledged) : Acknowledged { link with session := session } := by
  cases does with
  | turnedOn off =>
    -- An OFF client has nothing staged, and the accounts only count up the ON session.
    have unstaged := before.unstaged (sound.consistent.off off).2.1
    refine (Quiet.own sound
      ({ link.session with imeEnabled := true, openPending := true }.note (.toggled true))
      [.toggled true] rfl rfl (.inr ⟨rfl, rfl, rfl, rfl, rfl⟩)
      (fun staged => absurd staged unstaged) ?_ ?_).acknowledged before
    · simp [Session.note, Accounts.enter]
    · simp [Session.note, Accounts.enter]
  | turnedOff written succeeded =>
    exact before.dropped sound (.note_closed link.session written succeeded rfl)
      (Session.not_staged_closed _ written succeeded)
  | shutDown written succeeded =>
    exact before.dropped sound (.closed link.session written succeeded)
      (Session.not_staged_closed _ written succeeded)
  | queuedText key input remaining encoded => exact before.queuedText sound remaining encoded
  | answeredText written succeeded staged finished => exact before.answeredText sound staged finished
  | answeredKey written succeeded staged => exact before.answeredKey sound staged
  | asked written succeeded request idle =>
    -- An idle client has nothing staged, so a new OPEN_IME finds no input to confuse with.
    exact before.dropped sound (.asked link.session written succeeded)
      ((Session.staged_asked _ _ _).not.mpr (before.unstaged idle))
  | greeting written succeeded request idle =>
    exact before.dropped sound (.greeting link.session written succeeded)
      ((Session.staged_greeting _ _ _).not.mpr (before.unstaged idle))
  | ticked =>
    have moved := Session.Aside.linked link.session link.session.linkState (link.session.waitTicks + 1#16)
    exact (Quiet.aside sound moved before.waits).acknowledged before

/-- A letter the client acts on answers the host's last OPEN_IME. -/
theorem live_of_expected {letter : Letter} {rest : List Letter} (fresh : link.Fresh)
    (ordered : link.Ordered) (below : (numbers link.session.history).length < 2 ^ 16)
    (incoming : link.toClient = letter :: rest) (notPong : letter.packet.type ≠ imePong)
    (expected : link.session.expects letter.packet = true) :
    letter ∈ link.live ∧ openings link.session.history = link.heard := by
  have head : letter ∈ link.toClient := by simp [incoming]
  -- Its OPEN_IME is the client's last one, which the host cannot have gone beyond.
  have current := (fresh.current below head notPong expected).1
  have upper := ordered.letters letter head
  have lower := ordered.heard
  have heard : letter.opening = link.heard := by omega
  exact ⟨List.mem_filter.mpr ⟨head, by simp [Letter.live, notPong, heard]⟩, current ▸ heard⟩

/-- With its letter gone, the turn is with the staged input. -/
theorem live_rest {letter : Letter} {rest : List Letter} (before : link.Acknowledged)
    (incoming : link.toClient = letter :: rest) (isLive : letter ∈ link.live) :
    rest.filter (Letter.live link.heard) = [] := by
  have alone := (alone_of_live before.one isLive).2.1
  have live := (List.mem_filter.mp isLive).2
  rw [Link.live, incoming, List.filter_cons_of_pos live] at alone
  exact (List.cons.inj alone).2

/-- The input that arrived has the turn. -/
theorem accepted {next : Link} (ready : next.host.imeReady = false) (live : next.live = [])
    (acks : next.acks = [])
    (single : next.session.pendingLength = 0 ∨ next.session.pendingKeyActive = false)
    (waits : next.session.imeActive = true ∧ openings next.session.history = next.heard)
    (length : next.session.pendingLength ≠ 0 →
      next.session.pendingText.length = next.session.pendingLength)
    (text : next.TextSlot) (key : next.KeySlot) (verdicts : ∀ verdict ∈ next.verdicts, verdict = true) :
    next.Acknowledged := by
  have one : next.turns ≤ 1 := by
    have textTurn := Bool.toNat_le (decide (next.session.pendingLength ≠ 0))
    have keyTurn := Bool.toNat_le next.session.pendingKeyActive
    rw [turns, ready, live, acks, Bool.toNat_false, List.length_nil, List.length_nil]
    cases single with
    | inl noText =>
      simp only [noText, ne_eq, not_true_eq_false, decide_false, Bool.toNat_false]
      omega
    | inr noKey =>
      rw [noKey, Bool.toNat_false]
      omega
  exact
    { one := one
      waits := fun _ => waits
      current := by
        rw [acks]
        exact fun mail member => absurd member List.not_mem_nil
      length := length
      text := text
      key := key
      verdicts := verdicts }

theorem acceptedText {letter : Letter} {rest : List Letter} (before : link.Acknowledged)
    (incoming : link.toClient = letter :: rest) (isText : letter.packet.type = imeText)
    (isLive : letter ∈ link.live) (current : openings link.session.history = link.heard)
    (active : link.session.imeActive = true) (sound : link.Sound) :
    let session := { link.session with
      pendingText := letter.packet.payload
      pendingLength := letter.packet.payload.length
      pendingOffset := 0
      pendingSequence := letter.packet.sequence
      waitTicks := 0#16 }.note (.acceptedText letter.packet.sequence letter.packet.payload)
    Acknowledged { link.toLine.deliver letter rest link.session session.history with
      session := session } := by
  intro session
  obtain ⟨ready, _, unstaged, noAcks⟩ := alone_of_live before.one isLive
  simp only [Session.Staged, not_or, not_not, Bool.not_eq_true] at unstaged
  have line : link.toLine.deliver letter rest link.session session.history =
      { link.toLine with
        toClient := rest
        texts := letter.number :: link.texts
        taken := link.taken ++
          [⟨letter.opening, openings link.session.history, link.session.openSequence⟩] } := by
    simp [session, Line.deliver, Session.note, Line.note]
  have jobs : accounts session.history = (accounts link.session.history).enter
      (.acceptedText letter.packet.sequence letter.packet.payload) := accounts_concat _ _
  rw [line]
  let next : Link := { link with
    toClient := rest
    texts := letter.number :: link.texts
    session := session }
  have live : next.live = [] := before.live_rest incoming isLive
  have acks : next.acks = [] := by
    have own := acks_own sound session rfl
    rw [noAcks] at own
    exact own
  refine accepted ready live acks (.inr unstaged.2) ⟨active, (openings_note _ rfl).trans current⟩
    (fun _ => rfl) ?_ ?_ before.verdicts
  · rw [TextSlot, jobs]
    exact Slot.accept _ (before.text.flying letter.number ⟨letter, isLive, isText, rfl⟩)
      (lands_of_live live imeText) (unanswered_of_acks acks imeTextAck)
  · exact Slot.empty (lands_of_live live imeKey) (by simp [session, Session.note, unstaged.2])
      (unanswered_of_acks acks imeKeyAck)

theorem acceptedKey {letter : Letter} {rest : List Letter} (key : Word) (before : link.Acknowledged)
    (incoming : link.toClient = letter :: rest) (isKey : letter.packet.type = imeKey)
    (isLive : letter ∈ link.live) (current : openings link.session.history = link.heard)
    (active : link.session.imeActive = true) (sound : link.Sound) :
    let session := { link.session with
      pendingKey := key
      pendingKeyActive := true
      pendingSequence := letter.packet.sequence
      waitTicks := 0#16 }.note
        (.acceptedKey letter.packet.sequence key (link.session.pendingLength ≠ 0))
    Acknowledged { link.toLine.deliver letter rest link.session session.history with
      session := session } := by
  intro session
  obtain ⟨ready, _, unstaged, noAcks⟩ := alone_of_live before.one isLive
  simp only [Session.Staged, not_or, not_not, Bool.not_eq_true] at unstaged
  have line : link.toLine.deliver letter rest link.session session.history =
      { link.toLine with
        toClient := rest
        keys := letter.number :: link.keys
        taken := link.taken ++
          [⟨letter.opening, openings link.session.history, link.session.openSequence⟩] } := by
    simp [session, Line.deliver, Session.note, Line.note]
  have jobs : accounts session.history = (accounts link.session.history).enter
      (.acceptedKey letter.packet.sequence key (link.session.pendingLength ≠ 0)) :=
    accounts_concat _ _
  rw [line]
  let next : Link := { link with
    toClient := rest
    keys := letter.number :: link.keys
    session := session }
  have live : next.live = [] := before.live_rest incoming isLive
  have acks : next.acks = [] := by
    have own := acks_own sound session rfl
    rw [noAcks] at own
    exact own
  refine accepted ready live acks (.inl unstaged.1) ⟨active, (openings_note _ rfl).trans current⟩
    (fun staged => absurd unstaged.1 staged) ?_ ?_ before.verdicts
  · exact Slot.empty (lands_of_live live imeText) (by simp [session, Session.note, unstaged.1])
      (unanswered_of_acks acks imeTextAck)
  · rw [KeySlot, jobs]
    exact Slot.accept _ (before.key.flying letter.number ⟨letter, isLive, isKey, rfl⟩)
      (lands_of_live live imeKey) (unanswered_of_acks acks imeKeyAck)

theorem receive {session : Session} {letter : Letter} {rest : List Letter}
    (incoming : link.toClient = letter :: rest)
    (does : Session.Handled letter.packet link.session session) (sound : link.Sound)
    (fresh : link.Fresh) (ordered : link.Ordered)
    (below : (numbers link.session.history).length < 2 ^ 16) (before : link.Acknowledged) :
    Acknowledged { link.toLine.deliver letter rest link.session session.history with
      session := session } := by
  -- While the client waits for a PONG it waits for no input.
  have idle (waiting : link.session.linkState = .helloWait) : link.session.imeActive = false :=
    sound.consistent.idle (by simp [waiting])
  cases does with
  | greeted isPong waiting =>
    exact (Quiet.receive sound incoming (.linked link.session .ready 0#16) fun staged =>
      absurd staged (before.unstaged (idle waiting))).acknowledged before
  | greetedAsking written succeeded isPong waiting =>
    have asks := Session.Aside.asked { link.session with linkState := .ready, waitTicks := 0#16 }
      written succeeded
    have moved : link.session.Aside ({ link.session with
      linkState := .ready, waitTicks := 0#16 }.asked written succeeded) := ⟨asks.history, asks.staged⟩
    exact (Quiet.receive sound incoming moved fun staged =>
      absurd ((Session.staged_asked _ _ _).mp staged) (before.unstaged (idle waiting))).acknowledged
        before
  | text isText expected fits =>
    have notPong : letter.packet.type ≠ imePong := by simp [isText]
    obtain ⟨isLive, current⟩ := live_of_expected fresh ordered below incoming notPong expected
    exact before.acceptedText incoming isText isLive current (by simp_all [Session.expects]) sound
  | key key isKey expected code known =>
    have notPong : letter.packet.type ≠ imePong := by simp [isKey]
    obtain ⟨isLive, current⟩ := live_of_expected fresh ordered below incoming notPong expected
    exact before.acceptedKey key incoming isKey isLive current (by simp_all [Session.expects]) sound
  | close written succeeded =>
    exact (Quiet.receive sound incoming (.note_closed link.session written succeeded rfl) fun staged =>
      absurd staged (Session.not_staged_closed _ written succeeded)).acknowledged before
  | ignored =>
    exact (Quiet.receive sound incoming (.linked link.session _ _) before.waits).acknowledged before

/-- Nobody but the host can have the turn. -/
theorem vacant {next : Link} (live : next.live = []) (unstaged : ¬ next.session.Staged)
    (acks : next.acks = []) (verdicts : ∀ verdict ∈ next.verdicts, verdict = true) :
    next.Acknowledged := by
  have noText : ¬ next.session.pendingLength ≠ 0 := fun staged => unstaged (.inl staged)
  have noKey : ¬ next.session.pendingKeyActive = true := fun staged => unstaged (.inr staged)
  exact
    { one := by
        rw [turns, live, acks, decide_eq_false noText, Bool.eq_false_of_not_eq_true noKey]
        exact Bool.toNat_le _
      waits := fun staged => absurd staged unstaged
      current := by
        rw [acks]
        exact fun mail member => absurd member List.not_mem_nil
      length := fun staged => absurd staged noText
      text := Slot.empty (lands_of_live live imeText) noText (unanswered_of_acks acks imeTextAck)
      key := Slot.empty (lands_of_live live imeKey) noKey (unanswered_of_acks acks imeKeyAck)
      verdicts := verdicts }

section Serve

variable {mail : Mail} {rest : List Mail}
  (waiting : link.toHost link.session.history = mail :: rest)
include waiting

theorem acks_serve : acks { link.toLine.serve bridge link.session.history with session := link.session } =
    rest.filter fun mail => mail.packet.acks := by
  rw [acks, Line.toHost_serve, waiting, List.tail_cons]

variable (interactive : bridge.automaticText = none)
include interactive

/-- An interactive host answers a packet by a PONG at most. -/
theorem serve_line : ∃ toClient written,
    link.toLine.serve bridge link.session.history =
      { link.toLine.judge (accounts link.session.history) mail.packet with
        host := (serveAsync bridge mail.packet link.host).2
        arrived := link.arrived + 1
        heard := if mail.packet.type = imeOpenIme then mail.opening else link.heard
        toClient := toClient
        written := written } ∧
      ∀ heard, toClient.filter (Letter.live heard) = link.toClient.filter (Letter.live heard) := by
  rw [Line.serve_cons link.toLine waiting, Line.judge_eq]
  cases answers : (serveAsync bridge mail.packet link.host).1 with
  | none => exact ⟨link.toClient, link.written, rfl, fun _ => rfl⟩
  | some answer =>
    obtain isPong | ⟨_, text, automatic, _⟩ := serveAsync_answer bridge mail.packet link.host answers
    · refine ⟨link.toClient ++ [⟨⟨answer,
        if mail.packet.type = imeOpenIme then mail.opening else link.heard⟩, link.written⟩],
        link.written + 1, ?_, fun heard => ?_⟩
      · simp [Line.write, isPong]
      · simp [Letter.live, isPong]
    · exact absurd (interactive.symm.trans automatic) (by simp)

/-- The host turns to a new OPEN_IME: everything that answers an older one is gone. -/
theorem serve_open (isOpen : mail.packet.type = imeOpenIme) (ordered : link.Ordered)
    (before : link.Acknowledged) :
    Acknowledged { link.toLine.serve bridge link.session.history with session := link.session } := by
  obtain ⟨toClient, written, line, live⟩ := serve_line waiting interactive
  have head : mail ∈ link.toHost link.session.history := by simp [waiting]
  -- A new OPEN_IME is counted higher than anything the old turn can be with.
  have newer := (ordered.mails mail head).2 isOpen
  have upper := posted_le (List.mem_of_mem_drop head)
  refine vacant ?_ (fun staged => ?_) ?_ ?_
  · rw [Link.live, line, live, if_pos isOpen, List.filter_eq_nil_iff]
    intro letter member isLive
    have older := ordered.letters letter member
    simp only [Letter.live, Bool.and_eq_true, decide_eq_true_eq] at isLive
    omega
  · have current := (before.waits staged).2
    omega
  · rw [acks_serve waiting, List.filter_eq_nil_iff]
    intro later member isAck
    have behind := (Ordered.behind waiting later member).1
    have waits : later ∈ link.toHost link.session.history := by simp [waiting, member]
    have current := before.current later (List.mem_filter.mpr ⟨waits, isAck⟩)
    omega
  · rw [line, Line.judge]
    simp only [isOpen]
    exact before.verdicts

/-- An ACK answers the outstanding input, which is whole, and gives up the turn. -/
theorem serve_ack (isAck : mail.packet.acks = true) (before : link.Acknowledged) :
    Acknowledged { link.toLine.serve bridge link.session.history with session := link.session } := by
  obtain ⟨toClient, written, line, live⟩ := serve_line waiting interactive
  have waits : mail ∈ link.toHost link.session.history := by simp [waiting]
  have member : mail ∈ link.acks := List.mem_filter.mpr ⟨waits, isAck⟩
  obtain ⟨ready, noLetters, unstaged, alone⟩ := alone_of_ack before.one member
  have notOpen : mail.packet.type ≠ imeOpenIme := by
    intro isOpen
    simp [Packet.acks, isOpen] at isAck
  refine vacant ?_ unstaged ?_ ?_
  · rw [Link.live, line, live, if_neg notOpen]
    exact noLetters
  · rw [Link.acks, waiting, List.filter_cons, if_pos isAck] at alone
    rw [acks_serve waiting]
    exact (List.cons.inj alone).2
  · -- The slot of its kind is acknowledged, so the host's verdict is true.
    rw [line]
    simp only [Packet.acks, Bool.or_eq_true, decide_eq_true_eq] at isAck
    cases isAck with
    | inl isText =>
      obtain ⟨number, out, enqueued⟩ := before.text.acked ⟨mail, member, isText⟩
      simpa [Line.judge, isText, out, enqueued] using before.verdicts
    | inr isKey =>
      obtain ⟨number, out, enqueued⟩ := before.key.acked ⟨mail, member, isKey⟩
      simpa [Line.judge, isKey, out, enqueued] using before.verdicts

/-- Any other packet gives nobody the turn. -/
theorem serve_other (notOpen : mail.packet.type ≠ imeOpenIme) (notAck : mail.packet.acks = false)
    (before : link.Acknowledged) :
    Acknowledged { link.toLine.serve bridge link.session.history with session := link.session } := by
  obtain ⟨toClient, written, line, live⟩ := serve_line waiting interactive
  have host : (link.toLine.serve bridge link.session.history).host =
      (serveAsync bridge mail.packet link.host).2 := link.toLine.serve_host waiting
  have judged : link.toLine.judge (accounts link.session.history) mail.packet = link.toLine := by
    simp only [Packet.acks, Bool.or_eq_false_iff, decide_eq_false_iff_not] at notAck
    rw [Line.judge, if_neg notAck.1, if_neg notAck.2]
  rw [judged, if_neg notOpen] at line
  -- Only an OPEN_IME makes the host ready.
  have stillReady (ready : (link.toLine.serve bridge link.session.history).host.imeReady = true) :
      link.host.imeReady = true := by
    have offers := serveAsync_offers bridge mail.packet link.host
    rw [host] at ready
    rw [Host.offers, if_pos ready, Packet.offer, if_neg notOpen] at offers
    by_contra unready
    rw [Host.offers, if_neg unready] at offers
    simp at offers
  refine Quiet.acknowledged ?_ before
  exact
    { ready := stillReady
      live := by
        rw [Link.live, line, live]
        exact List.Sublist.refl _
      heard := by rw [line]
      acks := by
        rw [acks_serve waiting, Link.acks, waiting, List.filter_cons_of_neg (by simp [notAck])]
      staged := .inr ⟨rfl, rfl, rfl, rfl, rfl⟩
      waits := before.waits
      textOut := by rw [line]
      keyOut := by rw [line]
      texts := by rw [line]
      keys := by rw [line]
      textJobs := rfl
      keyJobs := rfl
      verdicts := by rw [line] }

end Serve

theorem serve (interactive : bridge.automaticText = none) (ordered : link.Ordered)
    (before : link.Acknowledged) :
    Acknowledged { link.toLine.serve bridge link.session.history with session := link.session } := by
  cases waiting : link.toHost link.session.history with
  | nil =>
    rw [Line.serve_nil link.toLine waiting]
    exact before
  | cons mail rest =>
    by_cases isOpen : mail.packet.type = imeOpenIme
    · exact serve_open waiting interactive isOpen ordered before
    · cases isAck : mail.packet.acks with
      | true => exact serve_ack waiting interactive isAck before
      | false => exact serve_other waiting interactive isOpen isAck before

/-- What the user has a ready host write takes over its turn. -/
theorem perform (action : UserAction) (before : link.Acknowledged) :
    Acknowledged { link.toLine.perform bridge action with session := link.session } := by
  obtain same | ⟨ready, packet, writes, sends⟩ := link.toLine.perform_cases bridge action
  · rw [same]
    exact before
  obtain ⟨noLetters, unstaged, noAcks⟩ := alone_of_ready before.one ready
  have noText : ¬ link.session.pendingLength ≠ 0 := fun staged => unstaged (.inl staged)
  have noKey : ¬ link.session.pendingKeyActive = true := fun staged => unstaged (.inr staged)
  have notPong : packet.type ≠ imePong := by cases writes <;> simp
  rw [sends]
  -- The new letter answers the OPEN_IME last heard of, so the turn goes over to it.
  let letter : Letter := ⟨⟨packet, link.heard⟩, link.written⟩
  let next : Link := { Line.write (some packet)
    { link.toLine with host := { link.host with imeReady := false } } with session := link.session }
  have isLive : Letter.live link.heard letter = true := by simp [Letter.live, letter, notPong]
  have live : next.live = [letter] := by
    have split : next.live = link.live ++ [letter].filter (Letter.live link.heard) :=
      List.filter_append _ _
    rw [split, noLetters, List.filter_singleton, isLive]
    rfl
  have acks : next.acks = [] := noAcks
  have acknowledged : next.Acknowledged :=
    { one := by
        rw [turns, live, acks, decide_eq_false noText, Bool.eq_false_of_not_eq_true noKey]
        rfl
      waits := fun staged => absurd staged unstaged
      current := by
        rw [acks]
        exact fun mail member => absurd member List.not_mem_nil
      length := fun staged => absurd staged noText
      text := by
        rw [TextSlot, live]
        exact Slot.written letter imeText noText (unanswered_of_acks acks imeTextAck)
      key := by
        rw [KeySlot, live]
        exact Slot.written letter imeKey noKey (unanswered_of_acks acks imeKeyAck)
      verdicts := before.verdicts }
  exact acknowledged

theorem step (interactive : bridge.automaticText = none)
    (does : Step (HostAction.perform bridge) link next) (sound : link.Sound) (fresh : link.Fresh)
    (ordered : link.Ordered) (below : (numbers link.session.history).length < 2 ^ 16)
    (before : link.Acknowledged) : next.Acknowledged := by
  cases does with
  | own does => exact before.own does sound
  | receive letter rest incoming up does => exact before.receive incoming does sound fresh ordered below
  | outside action =>
    cases action with
    | serve => exact before.serve interactive ordered
    | user action => exact before.perform action
  | unread =>
    have fewer : (link.toClient.tail.filter (Letter.live link.heard)).Sublist link.live :=
      (List.tail_sublist _).filter _
    have quiet : link.Quiet { link with toClient := link.toClient.tail } :=
      { ready := id
        live := fewer
        heard := rfl
        acks := rfl
        staged := .inr ⟨rfl, rfl, rfl, rfl, rfl⟩
        waits := before.waits
        textOut := rfl
        keyOut := rfl
        texts := rfl
        keys := rfl
        textJobs := rfl
        keyJobs := rfl
        verdicts := rfl }
    exact quiet.acknowledged before

/-- The response timeout leaves the turn with staged input, so there must be none. -/
theorem timedOut (calm : ¬ link.session.Staged) (sound : link.Sound) (before : link.Acknowledged) :
    Acknowledged { link with session := link.session.timedOut } :=
  before.dropped sound (.timedOut link.session) calm

end Acknowledged

end Link

/-- The response timeout does not fire while input is staged. -/
def Net.Calm (bridge : Bridge) (net : Net) (action : Net.Action HostAction) : Prop :=
  ∀ before ∈ net.atTimer (HostAction.perform bridge) action, before.client.timesOut = true →
    ¬ before.client.Staged

instance Net.decidableCalm (bridge : Bridge) (net : Net) (action : Net.Action HostAction) :
    Decidable (net.Calm bridge action) := by
  unfold Net.Calm; infer_instance

/-- What is known of the line, the turns as long as there are numbers left. -/
structure Link.Turned (link : Link) : Prop where
  sound : link.Sound
  fresh : link.Fresh
  ordered : link.Ordered
  acknowledged : (numbers link.session.history).length < 2 ^ 16 → link.Acknowledged

/-- One action keeps the turns in order. -/
theorem Net.turned {bridge : Bridge} (interactive : bridge.automaticText = none) (net : Net)
    (action : Net.Action HostAction) (start : net.link.Turned) (calm : net.Calm bridge action) :
    (net.act bridge action).link.Turned := by
  refine Net.preserves _ Link.Turned (fun link next does turned => ?_)
    (fun before timer late turned => ?_) start
  · refine ⟨turned.sound.step (Line.kept_host bridge) does, turned.fresh.step does.lossy,
      turned.ordered.step does turned.sound, fun below => ?_⟩
    have below := numbers_below does.grows below
    exact (turned.acknowledged below).step interactive does turned.sound turned.fresh
      turned.ordered below
  · refine ⟨turned.sound.timedOut, turned.fresh.timedOut, turned.ordered.timedOut turned.sound,
      fun below => ?_⟩
    have below := numbers_below before.link.session.timedOut_grows below
    exact (turned.acknowledged below).timedOut (calm before timer late) turned.sound

theorem Link.Turned.start (modifierMask : Byte) (hardware : Hardware) :
    (Net.start modifierMask hardware).link.Turned where
  sound := .start modifierMask hardware
  fresh := .start modifierMask hardware
  ordered := .start modifierMask hardware
  acknowledged _ := .vacant rfl (by simp [Net.link, Net.start, cleared, Session.Staged]) rfl
    fun _ member => absurd member List.not_mem_nil

/-- In every run with an interactive bridge in which no response timeout fires on staged
input, as long as HELLO and OPEN_IME used fewer numbers than there are: whenever the
host processes an ACK while a TEXT (or KEY) it sent is outstanding, all words of that
very TEXT (or KEY) were enqueued by then. -/
theorem acted_on_ack_is_true (bridge : Bridge) (interactive : bridge.automaticText = none)
    (modifierMask : Byte) (hardware : Hardware) (actions : List (Net.Action HostAction))
    (calm : Run.AllSteps (Net.act bridge) (Net.Calm bridge) actions (Net.start modifierMask hardware)) :
    let net := Run.run (Net.act bridge) actions (Net.start modifierMask hardware)
    (numbers net.client.history).length < 2 ^ 16 → ∀ verdict ∈ net.verdicts, verdict = true := by
  intro net below
  have turned : net.link.Turned := Run.invariant_of_allSteps (Net.act bridge)
    (Net.turned interactive) (.start modifierMask hardware) calm
  exact (turned.acknowledged below).verdicts

/-- The user sends one letter for OPEN_IME 2; it is staged, but the BIOS queue is full. -/
def letterArrives : List (Net.Action HostAction) :=
  lineOpens ++ [.outside (.user (.text [0x0041#16])), .worker (machine 16#8 []) [none]]

def letterWaiting : Net := Run.run (Net.act plainBridge) letterArrives (Net.start 0x01#8 {})

theorem letterWaiting_idle : Idle letterWaiting.client :=
  ⟨by decide +kernel, by decide +kernel, by decide +kernel, by decide +kernel, by decide +kernel,
    by decide +kernel, by decide +kernel, by decide +kernel⟩

theorem letterWaiting_atTicks : letterWaiting = letterWaiting.atTicks 1 := by
  have ticks : letterWaiting.client.waitTicks = BitVec.ofNat 16 1 := by decide +kernel
  rw [Net.atTicks, Tsr.atTicks, ← ticks]

/-- After the response timeout: the user turns the IME on, HELLO 3 and its PONG,
OPEN_IME 4, the user sends another letter, and while that is on its way, the queue
drains. -/
def secondLetter : List (Net.Action HostAction) :=
  [.returnedHotkey (hotkeyHeld (machine 16#8 [])), .worker (machine 16#8 []) [], .outside .serve,
    .worker (machine 16#8 []) [none], .outside .serve, .outside (.user (.text [0x0042#16])),
    .worker (machine 0#8 []) [], .outside .serve]

def letterOvertakes : List (Net.Action HostAction) :=
  letterArrives ++ ((List.replicate 0xfffd (letterWaiting.pause HostAction) ++
    [letterWaiting.pause HostAction]) ++ secondLetter)

theorem letterOvertakes_run : Run.run (Net.act plainBridge) letterOvertakes (Net.start 0x01#8 {}) =
    Run.run (Net.act plainBridge) secondLetter ((letterWaiting.atTicks 0xfffe).work tickStage) := by
  have late := Net.run_pause_late (HostAction.perform plainBridge) letterWaiting_idle
    (show 1 + 0xfffd = 0xfffe by decide)
  rw [← letterWaiting_atTicks] at late
  rw [letterOvertakes, Run.run_append, ← letterWaiting, Run.run_append, late]

/-- The ACK for the first letter is taken for one of the second. -/
theorem acted_on_ack_is_false :
    ¬ ∀ actions : List (Net.Action HostAction),
      let net := Run.run (Net.act plainBridge) actions (Net.start 0x01#8 {})
      (numbers net.client.history).length < 2 ^ 16 → ∀ verdict ∈ net.verdicts, verdict = true := by
  intro all
  have verdicts := all letterOvertakes
  rw [letterOvertakes_run] at verdicts
  -- The runs up to the timeout are dealt with; what is left is short enough to run.
  have wrong : (Run.run (Net.act plainBridge) secondLetter
      ((letterWaiting.atTicks 0xfffe).work tickStage)).verdicts = [false] := by decide +kernel
  exact absurd (verdicts (by decide +kernel) false (by rw [wrong]; exact List.mem_singleton_self _))
    (by decide)

/-- The first letter with the queue drained in time. -/
theorem acted_on_ack_is_true_in_time :
    let net := Run.run (Net.act plainBridge)
      (letterArrives ++ [.worker (machine 0#8 []) [], .outside .serve]) (Net.start 0x01#8 {})
    net.verdicts = [true] ∧ ∀ verdict ∈ net.verdicts, verdict = true := by
  refine ⟨by decide +kernel, acted_on_ack_is_true plainBridge rfl 0x01#8 {} _ ?_ (by decide +kernel)⟩
  simp only [letterArrives, lineOpens, List.cons_append, List.nil_append, Run.AllSteps]
  decide +kernel

end ImeBridge
