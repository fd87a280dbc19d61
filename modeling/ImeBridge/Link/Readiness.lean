import ImeBridge.Link.Offers

/-! # The user is never locked out

A client that waits for input has input staged, or an answer on its way to it, or a
host that stands ready for it or will.
-/

namespace ImeBridge

open Library

/-- The packets a client that waits on this OPEN_IME acts on. -/
inductive Answers (number : Word) : Packet → Prop where
  | text (payload : List Byte) (nonempty : payload ≠ []) (fits : payload.length ≤ imeMaxPayload) :
      Answers number ⟨imeText, number, payload⟩
  | key (pressed : RemoteKey) : Answers number ⟨imeKey, number, [pressed.code]⟩
  | close : Answers number ⟨imeCloseIme, number, []⟩

/-- Every key the host sends is one the client knows. -/
theorem RemoteKey.known (pressed : RemoteKey) : keyCodeWord pressed.code ≠ none := by
  cases pressed <;> decide

theorem Answers.accepted {session : Session} {packet : Packet} (active : session.imeActive = true)
    (answers : Answers session.openSequence packet) : session.Accepts packet := by
  have expected : session.expects packet = true := by
    cases answers <;> simp [Session.expects, active]
  refine .inr ⟨expected, ?_⟩
  cases answers with
  | text payload nonempty fits => exact .inl ⟨rfl, fits⟩
  | key pressed => exact .inr (.inl ⟨rfl, rfl, pressed.known⟩)
  | close => exact .inr (.inr ⟨rfl, rfl⟩)

theorem Answers.nonempty {number : Word} {packet : Packet} (answers : Answers number packet)
    (isText : packet.type = imeText) : packet.payload ≠ [] := by
  cases answers with
  | text payload nonempty => exact nonempty
  | key | close => simp at isText

/-- What the user sends through a ready host answers the OPEN_IME it is ready for. -/
theorem Host.Writes.answers {bridge : Bridge} {host : Host} {packet : Packet}
    (writes : host.Writes bridge packet) (capacity : host.targetMaxTextBytes ≤ imeMaxPayload)
    (encodes : ∀ text, text ≠ [] → bridge.encode932 text ≠ []) :
    Answers host.openSequence packet := by
  cases writes with
  | text content nonempty fits => exact .text _ (encodes content nonempty) (fits.trans capacity)
  | key pressed => exact .key pressed
  | close => exact .close

namespace Link

/-- The input a waiting client waits for is staged, on its way, or up to the host. -/
def Awaited (link : Link) : Prop :=
  link.settles link.session.history = some link.session.openSequence ∨
    (∃ letter ∈ link.toClient, Answers link.session.openSequence letter.packet) ∨
    link.session.Staged

structure Served (link : Link) : Prop where
  capacity : link.host.targetMaxTextBytes ≤ imeMaxPayload
  texts : ∀ letter ∈ link.toClient, letter.packet.type = imeText → letter.packet.payload ≠ []
  awaited : link.session.imeActive = true → link.Awaited

variable {bridge : Bridge} {link next : Link}

/-- A request that goes out is the one the host will be ready for. -/
theorem awaited_asked {line : Line} {session : Session} (written : Nat) (succeeded : Bool)
    (kept : line.Kept session.history)
    (active : (session.asked written succeeded).imeActive = true) :
    Awaited { line with session := session.asked written succeeded } := by
  cases succeeded with
  | false => simp [Session.asked, Session.reset] at active
  | true =>
    refine .inl ?_
    rw [Line.settles_append (Line.toHost_asked written true kept)]
    rfl

theorem Awaited.own {session : Session} (does : Session.Step link.session session) (sound : link.Sound)
    (awaited : link.session.imeActive = true → link.Awaited) (active : session.imeActive = true) :
    Awaited { link with session := session } := by
  cases does with
  | turnedOn off =>
    have idle : link.session.imeActive = false := (sound.consistent.off off).2.1
    simp [Session.note, idle] at active
  -- Closing and answering end the wait.
  | turnedOff | shutDown => simp [Session.closed] at active
  | answeredText => simp [Session.answeredText] at active
  | answeredKey => simp [Session.answeredKey] at active
  | queuedText =>
    obtain settled | answered | staged := awaited active
    · exact .inl ((Line.settles_note fun _ => rfl).trans settled)
    · exact .inr (.inl answered)
    · exact .inr (.inr staged)
  | asked written succeeded => exact awaited_asked written succeeded sound.kept active
  | greeting written succeeded request idle =>
    cases succeeded <;> simp [Session.greeting, Session.note, Session.reset, idle] at active
  | ticked => exact awaited active

theorem Awaited.receive {session : Session} {letter : Letter} {rest : List Letter}
    (incoming : link.toClient = letter :: rest)
    (does : Session.Handled letter.packet link.session session) (sound : link.Sound)
    (nonempty : letter.packet.type = imeText → letter.packet.payload ≠ [])
    (awaited : link.session.imeActive = true → link.Awaited) (active : session.imeActive = true) :
    Awaited { link.toLine.deliver letter rest link.session session.history with
      session := session } := by
  cases does with
  | greeted isPong waiting =>
    have idle := sound.consistent.idle (by simp [waiting])
    simp [idle] at active
  | greetedAsking written succeeded =>
    exact awaited_asked written succeeded (Line.kept_deliver link.toLine sound.kept) active
  | text isText =>
    -- An empty TEXT would be accepted without being staged; the host writes none.
    exact .inr (.inr (.inl fun empty => nonempty isText (List.length_eq_zero_iff.mp empty)))
  | key => exact .inr (.inr (.inr rfl))
  | close => simp [Session.closed] at active
  | ignored unwanted =>
    obtain settled | ⟨answer, member, answers⟩ | staged := awaited active
    · exact .inl ((Line.settles_deliver ..).trans settled)
    · rw [incoming] at member
      cases member with
      -- A letter the client waits for is not ignored.
      | head => exact absurd (answers.accepted active) unwanted
      | tail _ member =>
        exact .inr (.inl ⟨answer, by rwa [Line.deliver_toClient], answers⟩)
    · exact .inr (.inr staged)

theorem Served.serve (interactive : bridge.automaticText = none) (served : link.Served) :
    Served { link.toLine.serve bridge link.session.history with session := link.session } := by
  cases waiting : link.toHost link.session.history with
  | nil =>
    rw [Line.serve_nil link.toLine waiting]
    exact served
  | cons mail rest =>
    have grows : ∀ letter ∈ link.toClient,
        letter ∈ (link.toLine.serve bridge link.session.history).toClient := by
      intro letter member
      rw [link.toLine.serve_toClient waiting]
      exact List.mem_append_left _ member
    refine ⟨?_, ?_, fun active => ?_⟩
    · rw [link.toLine.serve_host waiting]
      exact serveAsync_capacity bridge mail.packet served.capacity
    · intro letter member isText
      change letter ∈ (link.toLine.serve bridge link.session.history).toClient at member
      rw [link.toLine.serve_toClient waiting] at member
      cases List.mem_append.mp member with
      | inl old => exact served.texts letter old isText
      | inr new =>
        obtain ⟨answer, writes, rfl⟩ := List.mem_map.mp new
        obtain isPong | ⟨_, text, automatic, _⟩ :=
          serveAsync_answer bridge mail.packet link.host (Option.mem_toList.mp writes)
        · simp [isPong] at isText
        · exact absurd (interactive.symm.trans automatic) (by simp)
    · -- Looking ahead over one packet less, the host comes to the same end.
      obtain settled | ⟨letter, member, answers⟩ | staged := served.awaited active
      · exact .inl ((Line.settles_serve bridge).trans settled)
      · exact .inr (.inl ⟨letter, grows letter member, answers⟩)
      · exact .inr (.inr staged)

theorem Served.perform (encodes : ∀ text, text ≠ [] → bridge.encode932 text ≠ [])
    (action : UserAction) (served : link.Served) :
    Served { link.toLine.perform bridge action with session := link.session } := by
  obtain same | ⟨ready, packet, writes, sends⟩ := link.toLine.perform_cases bridge action
  · rw [same]
    exact served
  · have answers := writes.answers served.capacity encodes
    rw [sends]
    refine ⟨served.capacity, ?_, fun active => ?_⟩
    · intro letter member isText
      cases List.mem_append.mp member with
      | inl old => exact served.texts letter old isText
      | inr new =>
        cases List.mem_singleton.mp new
        exact answers.nonempty isText
    · obtain settled | ⟨letter, member, answers⟩ | staged := served.awaited active
      · -- Unless packets on their way decide, the host is ready for the client's OPEN_IME.
        obtain decided | same := Line.foldl_offer_cases (link.toHost link.session.history)
          link.host.offers
        · exact .inl ((decided none).trans settled)
        · have offered : link.host.offers = some link.session.openSequence := same.symm.trans settled
          rw [Host.offers, if_pos ready, Option.some_inj] at offered
          rw [offered] at answers
          exact .inr (.inl ⟨_, List.mem_append_right _ (List.mem_singleton_self _), answers⟩)
      · exact .inr (.inl ⟨letter, List.mem_append_left _ member, answers⟩)
      · exact .inr (.inr staged)

theorem Served.step (interactive : bridge.automaticText = none)
    (encodes : ∀ text, text ≠ [] → bridge.encode932 text ≠ [])
    (does : Step (HostAction.perform bridge) link next) (sound : link.Sound) (served : link.Served) :
    next.Served := by
  cases does with
  | own does => exact ⟨served.capacity, served.texts, Awaited.own does sound served.awaited⟩
  | receive letter rest incoming up does =>
    have head : letter ∈ link.toClient := by simp [incoming]
    refine ⟨by simpa using served.capacity, ?_, ?_⟩
    · intro other member
      rw [Line.deliver_toClient] at member
      exact served.texts other (by simp [incoming, member])
    · exact Awaited.receive incoming does sound (served.texts letter head) served.awaited
  | outside action =>
    cases action with
    | serve => exact served.serve interactive
    | user action => exact served.perform encodes action
  | unread down =>
    refine ⟨served.capacity, fun letter member => ?_, fun active => ?_⟩
    · exact served.texts letter (List.mem_of_mem_tail member)
    · have idle := sound.consistent.idle (by simp [down])
      simp [idle] at active

end Link

/-- One action keeps a waiting client served. -/
theorem Net.served {bridge : Bridge} (interactive : bridge.automaticText = none)
    (encodes : ∀ text, text ≠ [] → bridge.encode932 text ≠ []) (net : Net)
    (action : Net.Action HostAction) (start : net.link.Sound ∧ net.link.Served) :
    (net.act bridge action).link.Sound ∧ (net.act bridge action).link.Served := by
  refine Net.preserves _ (fun link => link.Sound ∧ link.Served) ?_ ?_ start
  · rintro link next does ⟨sound, served⟩
    exact ⟨sound.step (Line.kept_host bridge) does, served.step interactive encodes does sound⟩
  · rintro before timer late ⟨sound, served⟩
    exact ⟨sound.timedOut, served.capacity, served.texts, fun active => absurd active Bool.noConfusion⟩

/-- With an interactive bridge whose encoding leaves no text empty: once both channels
are empty, a client that waits for input and has none staged finds the host ready for
the very OPEN_IME it waits on. -/
theorem waiting_client_is_served (bridge : Bridge) (interactive : bridge.automaticText = none)
    (encodes : ∀ text, text ≠ [] → bridge.encode932 text ≠ []) (modifierMask : Byte)
    (hardware : Hardware) (actions : List (Net.Action HostAction)) :
    let net := Run.run (Net.act bridge) actions (Net.start modifierMask hardware)
    net.toHost net.client.history = [] → net.toClient = [] → net.client.imeActive = true →
      ¬ net.client.Staged →
      net.host.imeReady = true ∧ net.host.openSequence = net.client.openSequence := by
  intro net quiet empty active unstaged
  have initial : (Net.start modifierMask hardware).link.Served :=
    ⟨le_rfl, fun letter member => absurd member List.not_mem_nil,
      fun active => absurd active Bool.noConfusion⟩
  have served : net.link.Served := (Run.invariant (Net.act bridge)
    (Net.served interactive encodes) actions ⟨.start modifierMask hardware, initial⟩).2
  obtain settled | ⟨letter, member, _⟩ | staged := served.awaited active
  · -- Nothing is on its way, so it is the host's own state that settles it.
    have offered : net.host.offers = some net.client.openSequence := by
      have decided : net.settles net.client.history = net.host.offers := by
        rw [Line.settles, quiet, List.foldl_nil]
      exact decided.symm.trans settled
    rw [Host.offers] at offered
    split_ifs at offered with ready
    exact ⟨ready, Option.some.inj offered⟩
  · have nonempty : net.toClient ≠ [] := List.ne_nil_of_mem member
    exact absurd empty nonempty
  · exact absurd staged unstaged

/-- The client of `lineOpens` is served. -/
theorem waiting_client_is_served_opened :
    let net := Run.run (Net.act plainBridge) lineOpens (Net.start 0x01#8 {})
    net.host.imeReady = true ∧ net.host.openSequence = net.client.openSequence :=
  waiting_client_is_served plainBridge rfl (fun text nonempty => by simpa [plainBridge] using nonempty)
    0x01#8 {} lineOpens (by decide +kernel) (by decide +kernel) (by decide +kernel)
    (by decide +kernel)

end ImeBridge
