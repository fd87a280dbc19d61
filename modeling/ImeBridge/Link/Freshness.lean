import ImeBridge.Link.Offers
import ImeBridge.Resident.Numbers

/-! # No stale message takes effect

Every message of the host carries the number of the OPEN_IME it had last received
when it wrote it, and the client acts only on the number of its own last OPEN_IME.
Less than a full turn of the counter, these are the same OPEN_IME.
-/

namespace ImeBridge

open Library

theorem length_opened (history : List Event) : (opened history).length = openings history := by
  induction history with
  | nil => rfl
  | cons event history inductionHypothesis =>
    have counts : openings (event :: history) = event.opens + openings history := by simp [openings]
    rw [counts, ← inductionHypothesis, opened, List.filterMap_cons]
    cases event with
    | sent packet =>
      by_cases isOpen : packet.type = imeOpenIme
      · simp [Event.openNumber, Event.opens, isOpen, opened, Nat.add_comm]
      · simp [Event.openNumber, Event.opens, isOpen, opened]
    | _ => simp [Event.openNumber, Event.opens, opened]

/-- An OPEN_IME on the line carries the number it was sent with. -/
theorem posted_openedAs {history : List Event} {mail : Mail} (onLine : mail ∈ posted history)
    (isOpen : mail.packet.type = imeOpenIme) :
    OpenedAs history mail.opening mail.packet.sequence := by
  induction history using List.reverseRecOn with
  | nil => simp [posted, mailing] at onLine
  | append_singleton history event inductionHypothesis =>
    -- Only the newest event can have put a packet there that was not there before.
    rw [posted_append, List.mem_append] at onLine
    cases onLine with
    | inl earlier => exact (inductionHypothesis earlier).later (List.prefix_append _ _)
    | inr new =>
      cases event with
      | sent packet written succeeded =>
        cases succeeded with
        | false => simp [mailing, Event.mail] at new
        | true =>
          simp only [mailing, Event.mail, List.append_nil, List.mem_singleton] at new
          subst new
          have isOpen : packet.type = imeOpenIme := isOpen
          simp only [Event.opens, isOpen, if_true, OpenedAs, opened, List.filterMap_append]
          rw [← length_opened]
          simp [Event.openNumber, isOpen, opened]
      | _ => simp [mailing, Event.mail] at new

namespace Line

variable {session next : Session} {letter : Letter}

/-- What the client takes, it takes for the number it waits on. -/
theorem taken_handled (line : Line) (rest : List Letter)
    (does : Session.Handled letter.packet session next) :
    (line.deliver letter rest session next.history).taken = line.taken ∨
      (line.deliver letter rest session next.history).taken =
        line.taken ++ [⟨letter.opening, openings session.history, session.openSequence⟩] ∧
      session.expects letter.packet = true ∧ letter.packet.type ≠ imePong := by
  cases does with
  | greeted | ignored => exact .inl (by simp [deliver])
  | greetedAsking written succeeded =>
    refine .inl ?_
    rw [Session.asked_history]
    cases succeeded <;> simp [deliver, note]
  | text isText expected =>
    refine .inr ⟨by simp [deliver, Session.note, note], expected, ?_⟩
    simp [isText]
  | key key isKey expected =>
    refine .inr ⟨by simp [deliver, Session.note, note], expected, ?_⟩
    simp [isKey]
  | close written succeeded isClose expected =>
    refine .inr ⟨?_, expected, ?_⟩
    · cases link : session.linkState <;>
        simp [deliver, Session.closed, Session.farewell, Session.note, note, link]
    · simp [isClose]

end Line

namespace Link

/-- Host and letters carry the numbers of the OPEN_IMEs they belong to, and what the
client took belonged to its last one. -/
structure Fresh (link : Link) : Prop where
  counted : link.session.Counted
  offers : ∀ number, link.host.offers = some number →
    OpenedAs link.session.history link.heard number
  letters : ∀ letter ∈ link.toClient, letter.packet.type ≠ imePong →
    OpenedAs link.session.history letter.opening letter.packet.sequence
  taken : (numbers link.session.history).length < 2 ^ 16 →
    ∀ taking ∈ link.taken, taking.opening = taking.current ∧
      OpenedAs link.session.history taking.current taking.number

variable {bridge : Bridge} {link next : Link}

/-- A line that loses nothing is one that may lose messages. -/
theorem Step.lossy (does : Step (HostAction.perform bridge) link next) :
    Step (LossyAction.perform bridge) link next := by
  cases does with
  | own does => exact .own does
  | receive letter rest incoming up does => exact .receive letter rest incoming up does
  | outside action => exact Step.outside (LossyAction.host action)
  | unread down => exact .unread down

namespace Fresh

theorem grows {session : Session} (grows : link.session.history <+: session.history)
    (counted : session.Counted) (fresh : link.Fresh) : Fresh { link with session := session } := by
  refine ⟨counted, fun number offers => ?_, fun letter member notPong => ?_, fun below => ?_⟩
  · exact (fresh.offers number offers).later grows
  · exact (fresh.letters letter member notPong).later grows
  · intro taking member
    obtain ⟨current, number⟩ := fresh.taken (numbers_below grows below) taking member
    exact ⟨current, number.later grows⟩

/-- A letter the client acts on belongs to its last OPEN_IME. -/
theorem current {letter : Letter} (fresh : link.Fresh)
    (below : (numbers link.session.history).length < 2 ^ 16) (member : letter ∈ link.toClient)
    (notPong : letter.packet.type ≠ imePong) (expected : link.session.expects letter.packet = true) :
    letter.opening = openings link.session.history ∧
      OpenedAs link.session.history (openings link.session.history) link.session.openSequence := by
  simp only [Session.expects, Bool.and_eq_true, decide_eq_true_eq] at expected
  obtain ⟨active, number⟩ := expected
  -- Two OPEN_IMEs with one number: less than a full turn, they are the same.
  have last := fresh.counted.waits_for_last active
  have own := fresh.letters letter member notPong
  rw [number] at own
  rw [← length_opened]
  exact ⟨own.unique (fresh.counted.nodup below) last, last⟩

theorem receive {session : Session} {letter : Letter} {rest : List Letter}
    (incoming : link.toClient = letter :: rest)
    (does : Session.Handled letter.packet link.session session) (fresh : link.Fresh) :
    Fresh { link.toLine.deliver letter rest link.session session.history with
      session := session } := by
  have grown := fresh.grows does.grows (fresh.counted.handled does)
  have head : letter ∈ link.toClient := by simp [incoming]
  refine ⟨grown.counted, ?_, ?_, fun below taking member => ?_⟩
  · simpa using grown.offers
  · intro other member
    rw [Line.deliver_toClient] at member
    exact grown.letters other (by simp [incoming, member])
  · change taking ∈ (link.toLine.deliver letter rest link.session session.history).taken at member
    obtain same | ⟨takes, expected, notPong⟩ := link.toLine.taken_handled rest does
    · exact grown.taken below taking (same ▸ member)
    · rw [takes, List.mem_append, List.mem_singleton] at member
      obtain old | rfl := member
      · exact grown.taken below taking old
      · obtain ⟨current, number⟩ :=
          fresh.current (numbers_below does.grows below) head notPong expected
        exact ⟨current, number.later does.grows⟩

theorem serve (fresh : link.Fresh) :
    Fresh { link.toLine.serve bridge link.session.history with session := link.session } := by
  cases waiting : link.toHost link.session.history with
  | nil =>
    rw [Line.serve_nil link.toLine waiting]
    exact fresh
  | cons mail rest =>
    have onLine : mail ∈ posted link.session.history :=
      List.mem_of_mem_drop (show mail ∈ link.toHost link.session.history by simp [waiting])
    refine ⟨fresh.counted, ?_, ?_, (link.toLine.serve_taken bridge _) ▸ fresh.taken⟩
    · -- The host is ready for what it was ready for, or for the OPEN_IME it just received.
      intro number offers
      rw [link.toLine.serve_host waiting, serveAsync_offers, Packet.offer] at offers
      rw [link.toLine.serve_heard waiting]
      split_ifs at offers ⊢ with isOpen
      · cases offers
        exact posted_openedAs onLine isOpen
      · exact fresh.offers number offers
    · intro letter member notPong
      change letter ∈ (link.toLine.serve bridge link.session.history).toClient at member
      rw [link.toLine.serve_toClient waiting] at member
      cases List.mem_append.mp member with
      | inl old => exact fresh.letters letter old notPong
      | inr new =>
        -- The automatic text answers the OPEN_IME at once, under its number.
        obtain ⟨answer, writes, rfl⟩ := List.mem_map.mp new
        obtain isPong | ⟨isOpen, text, automatic, rfl⟩ :=
          serveAsync_answer bridge mail.packet link.host (Option.mem_toList.mp writes)
        · exact absurd isPong notPong
        · dsimp only
          rw [link.toLine.serve_heard waiting, if_pos isOpen]
          exact posted_openedAs onLine isOpen

theorem perform (action : UserAction) (fresh : link.Fresh) :
    Fresh { link.toLine.perform bridge action with session := link.session } := by
  obtain same | ⟨ready, packet, writes, sends⟩ := link.toLine.perform_cases bridge action
  · rw [same]
    exact fresh
  · have current : OpenedAs link.session.history link.heard packet.sequence := by
      have number : packet.sequence = link.host.openSequence := by cases writes <;> rfl
      rw [number]
      exact fresh.offers _ (by rw [Host.offers, if_pos ready])
    rw [sends]
    refine ⟨fresh.counted, fun number offers => by simp [Host.offers] at offers, ?_, fresh.taken⟩
    intro letter member notPong
    rw [Line.write_toClient] at member
    cases List.mem_append.mp member with
    | inl old => exact fresh.letters letter old notPong
    | inr new =>
      cases List.mem_singleton.mp new
      exact current

/-- What happens outside the client, messages lost included, keeps everything fresh. -/
theorem outside (action : LossyAction) (fresh : link.Fresh) :
    Fresh { action.perform bridge link.session.history link.toLine with session := link.session } := by
  cases action with
  | host action =>
    cases action with
    | serve => exact fresh.serve
    | user action => exact fresh.perform action
  | loseToHost => exact ⟨fresh.counted, fresh.offers, fresh.letters, fresh.taken⟩
  | loseToClient =>
    refine ⟨fresh.counted, fresh.offers, fun letter member => ?_, fresh.taken⟩
    exact fresh.letters letter (List.mem_of_mem_tail member)

theorem step (does : Step (LossyAction.perform bridge) link next) (fresh : link.Fresh) : next.Fresh := by
  cases does with
  | own does => exact fresh.grows does.grows (fresh.counted.step does)
  | receive letter rest incoming up does => exact fresh.receive incoming does
  | outside action => exact fresh.outside action
  | unread =>
    refine ⟨fresh.counted, fresh.offers, fun letter member => ?_, fresh.taken⟩
    exact fresh.letters letter (List.mem_of_mem_tail member)

theorem timedOut (fresh : link.Fresh) : Fresh { link with session := link.session.timedOut } :=
  fresh.grows link.session.timedOut_grows fresh.counted.timedOut

end Fresh

end Link

/-- One action keeps everything fresh. -/
theorem Net.fresh (bridge : Bridge) (net : Net) (action : Net.Action LossyAction)
    (start : net.link.Fresh) : (net.apply (LossyAction.perform bridge) action).link.Fresh :=
  Net.preserves (LossyAction.perform bridge) Link.Fresh (fun _ _ does fresh => fresh.step does)
    (fun _ _ _ fresh => fresh.timedOut) start

theorem Link.Fresh.start (modifierMask : Byte) (hardware : Hardware) :
    (Net.start modifierMask hardware).link.Fresh :=
  ⟨.initial, fun number offers => absurd offers (by simp [Host.offers, Net.link, Net.start]),
    fun letter member => absurd member List.not_mem_nil,
    fun _ taking member => absurd member List.not_mem_nil⟩

/-- In every run on a line that may lose messages, as long as HELLO and OPEN_IME used
fewer numbers than there are: each TEXT, KEY and CLOSE_IME the client took was written
when the OPEN_IME the host had last received was the client's last one, which is the one
with the number `open_sequence`. -/
theorem taken_input_is_current (bridge : Bridge) (modifierMask : Byte) (hardware : Hardware)
    (actions : List (Net.Action LossyAction)) :
    let net := Run.run (Net.apply (LossyAction.perform bridge)) actions (Net.start modifierMask hardware)
    (numbers net.client.history).length < 2 ^ 16 →
      ∀ taking ∈ net.taken, taking.opening = taking.current ∧
        OpenedAs net.client.history taking.current taking.number := by
  intro net below
  have fresh : net.link.Fresh := Run.invariant (Net.apply (LossyAction.perform bridge))
    (Net.fresh bridge) actions (.start modifierMask hardware)
  exact fresh.taken below

/-- The first OPEN_IME is lost, the user turns the IME off and on again, and the text
is for the second one. -/
def losesOpen : List (Net.Action LossyAction) :=
  [.returnedHotkey (hotkeyHeld (machine 16#8 [])), .worker (machine 16#8 []) [],
    .outside (.host .serve), .worker (machine 16#8 []) [none], .outside .loseToHost,
    .worker (machine 16#8 []) [], .returnedHotkey (hotkeyHeld (machine 16#8 [])),
    .worker (machine 16#8 []) [], .returnedHotkey (hotkeyHeld (machine 16#8 [])),
    .worker (machine 16#8 []) [], .outside (.host .serve), .outside (.host .serve),
    .worker (machine 16#8 []) [none], .outside (.host .serve),
    .outside (.host (.user (.text [0x0041#16]))), .worker (machine 16#8 []) [none]]

/-- That text is the only message taken. -/
theorem taken_input_is_current_losesOpen :
    let net := Run.run (Net.apply (LossyAction.perform plainBridge)) losesOpen (Net.start 0x01#8 {})
    net.taken = [⟨2, 2, 4#16⟩] ∧ ∀ taking ∈ net.taken, taking.opening = taking.current ∧
      OpenedAs net.client.history taking.current taking.number :=
  ⟨by decide +kernel, taken_input_is_current plainBridge 0x01#8 {} losesOpen (by decide +kernel)⟩

end ImeBridge
