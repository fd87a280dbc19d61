import ImeBridge.Link.Traffic

/-! # What the host will stand ready for

The host is ready for the last OPEN_IME it received, until it writes a packet or
receives the end of the session.  `settles` looks ahead over the packets on their way.
-/

namespace ImeBridge

/-- The OPEN_IME the host stands ready for. -/
def Host.offers (host : Host) : Option Word := if host.imeReady then some host.openSequence else none

/-- What a packet makes of it. -/
def Packet.offer (packet : Packet) (offers : Option Word) : Option Word :=
  if packet.type = imeOpenIme then some packet.sequence
  else if packet.type = imeCloseIme ∨ packet.type = imeTextAck ∨ packet.type = imeKeyAck then none
  else offers

/-- The OPEN_IME the host will stand ready for after the packets on their way. -/
def Line.settles (history : List Event) (line : Line) : Option Word :=
  (line.toHost history).foldl (fun offers mail => mail.packet.offer offers) line.host.offers

theorem serveAsync_offers (bridge : Bridge) (packet : Packet) (host : Host) :
    (serveAsync bridge packet host).2.offers = packet.offer host.offers := by
  by_cases isHello : packet.type = imeHello
  · simp only [serveAsync, Packet.offer, isHello]
    rfl
  by_cases isPing : packet.type = imePing
  · simp only [serveAsync, Packet.offer, isPing]
    rfl
  by_cases isOpen : packet.type = imeOpenIme
  · simp only [serveAsync, Packet.offer, if_neg isHello, if_neg isPing, if_pos isOpen]
    cases bridge.automaticText with
    | none => rfl
    | some text =>
      dsimp only
      split <;> rfl
  simp only [serveAsync, Packet.offer, if_neg isHello, if_neg isPing, if_neg isOpen]
  split_ifs <;> simp_all [Host.offers]

/-- What the user does can only end the host's readiness. -/
theorem perform_offers (bridge : Bridge) (action : UserAction) (host : Host) :
    (action.perform bridge host).2.offers = host.offers ∨
      (action.perform bridge host).2.offers = none := by
  obtain same | ⟨_, packet, _, writes⟩ := perform_cases bridge action host
  · exact .inl (by rw [same])
  · exact .inr (by rw [writes]; rfl)

namespace Line

variable {line : Line} {history : List Event}

theorem settles_serve (bridge : Bridge) :
    (line.serve bridge history).settles history = line.settles history := by
  cases waiting : line.toHost history with
  | nil => rw [serve_nil line waiting]
  | cons mail rest =>
    rw [settles, toHost_serve, settles, waiting, serve_cons line waiting]
    simp [serveAsync_offers]

/-- What is decided by packets on their way does not depend on the host. -/
theorem foldl_offer_of_none (mails : List Mail) (offers : Option Word) {number : Word}
    (settled : mails.foldl (fun offers mail => mail.packet.offer offers) none = some number) :
    mails.foldl (fun offers mail => mail.packet.offer offers) offers = some number := by
  induction mails generalizing offers with
  | nil => simp at settled
  | cons mail mails inductionHypothesis =>
    -- OPEN_IME and the ends of a session forget what was before; the rest passes it on.
    simp only [List.foldl_cons, Packet.offer] at settled ⊢
    split_ifs at settled ⊢
    · exact settled
    · exact settled
    · exact inductionHypothesis offers settled

theorem settles_perform (bridge : Bridge) (action : UserAction) {number : Word}
    (settled : (line.perform bridge action).settles history = some number) :
    line.settles history = some number := by
  have same : (line.perform bridge action).toHost history = line.toHost history := by
    simp [perform, toHost]
  rw [settles, same] at settled
  simp only [perform, write_host] at settled
  cases perform_offers bridge action line.host with
  | inl offers => rwa [offers] at settled
  | inr offers =>
    rw [offers] at settled
    exact foldl_offer_of_none _ _ settled

/-- The last packet on its way decides, if it decides at all. -/
theorem settles_append {later : List Event} {mails : List Mail}
    (grows : line.toHost later = line.toHost history ++ mails) :
    line.settles later =
      mails.foldl (fun offers mail => mail.packet.offer offers) (line.settles history) := by
  rw [settles, grows, List.foldl_append, settles]

/-- Either the packets on their way decide, or the host's state does. -/
theorem foldl_offer_cases (mails : List Mail) (offers : Option Word) :
    (∀ offers', mails.foldl (fun offers mail => mail.packet.offer offers) offers' =
        mails.foldl (fun offers mail => mail.packet.offer offers) offers) ∨
      mails.foldl (fun offers mail => mail.packet.offer offers) offers = offers := by
  induction mails generalizing offers with
  | nil => exact .inr rfl
  | cons mail mails inductionHypothesis =>
    simp only [List.foldl_cons, Packet.offer]
    split_ifs
    · exact .inl fun _ => rfl
    · exact .inl fun _ => rfl
    · exact inductionHypothesis offers

theorem settles_note {session : Session} {event : Event} (silent : ∀ opening, event.mail opening = []) :
    line.settles (session.note event).history = line.settles session.history := by
  rw [settles, toHost_note event silent, settles]

theorem settles_deliver (letter : Letter) (rest : List Letter) (session : Session) (after : List Event) :
    (line.deliver letter rest session after).settles history = line.settles history := by
  rw [settles, deliver_toHost, deliver_host, settles]

end Line

end ImeBridge
