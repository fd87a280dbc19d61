import ImeBridge.Link.Freshness

/-! # The order of messages and OPEN_IMEs

Both channels keep their order, so a packet of the client is older than every
OPEN_IME that follows it, and the host writes for the last one it received.
-/

namespace ImeBridge

/-- What an event row puts on the line belongs to the OPEN_IMEs counted before it or
in it. -/
theorem mailing_bounds {opening : Nat} {events : List Event} {mail : Mail}
    (onLine : mail ∈ mailing opening events) :
    opening ≤ mail.opening ∧ mail.opening ≤ opening + openings events ∧
      (mail.packet.type = imeOpenIme → opening < mail.opening) := by
  -- On the events, with the count of OPEN_IMEs before them moving along.
  induction events generalizing opening with
  | nil => simp [mailing] at onLine
  | cons event events inductionHypothesis =>
    have counts : openings (event :: events) = event.opens + openings events := by simp [openings]
    rw [mailing, List.mem_append] at onLine
    cases onLine with
    | inl first =>
      cases event with
      | sent packet written succeeded =>
        cases succeeded with
        | false => simp [Event.mail] at first
        | true =>
          cases List.mem_singleton.mp first
          refine ⟨Nat.le_add_right _ _, by dsimp only; omega, fun isOpen => ?_⟩
          have isOpen : packet.type = imeOpenIme := isOpen
          simp [Event.opens, isOpen]
      | _ => simp [Event.mail] at first
    | inr later =>
      obtain ⟨lower, upper, strict⟩ := inductionHypothesis later
      exact ⟨by omega, by omega, fun isOpen => by have := strict isOpen; omega⟩

theorem posted_le {history : List Event} {mail : Mail} (onLine : mail ∈ posted history) :
    mail.opening ≤ openings history := by
  have bound := (mailing_bounds onLine).2.1
  omega

/-- An OPEN_IME raises the count that later packets carry. -/
def Mail.Precedes (mail later : Mail) : Prop :=
  mail.opening ≤ later.opening ∧ (later.packet.type = imeOpenIme → mail.opening < later.opening)

theorem posted_sorted (history : List Event) : (posted history).Pairwise Mail.Precedes := by
  induction history using List.reverseRecOn with
  | nil => exact .nil
  | append_singleton history event inductionHypothesis =>
    rw [posted_append, List.pairwise_append]
    refine ⟨inductionHypothesis, ?_, fun mail earlier later new => ?_⟩
    · cases event with
      | sent packet written succeeded => cases succeeded <;> simp [mailing, Event.mail]
      | _ => simp [mailing, Event.mail]
    · have upper := posted_le earlier
      obtain ⟨lower, _, strict⟩ := mailing_bounds new
      exact ⟨upper.trans lower, fun isOpen => lt_of_le_of_lt upper (strict isOpen)⟩

namespace Link

/-- The host never heard of more OPEN_IMEs than there were, what is on its way is
younger, and what it wrote is older. -/
structure Ordered (link : Link) : Prop where
  heard : link.heard ≤ openings link.session.history
  mails : ∀ mail ∈ link.toHost link.session.history,
    link.heard ≤ mail.opening ∧ (mail.packet.type = imeOpenIme → link.heard < mail.opening)
  letters : ∀ letter ∈ link.toClient, letter.opening ≤ link.heard

variable {bridge : Bridge} {link next : Link}

namespace Ordered

/-- The client's history grows, letters leave their channel. -/
theorem grows {session : Session} {line : Line} (sound : link.Sound)
    (grows : link.session.history <+: session.history)
    (arrived : line.arrived = link.arrived) (heard : line.heard = link.heard)
    (fewer : line.toClient ⊆ link.toClient) (ordered : link.Ordered) :
    Ordered { line with session := session } := by
  obtain ⟨events, history⟩ := grows
  have same : ∀ history, line.toHost history = link.toHost history := by
    intro history
    rw [Line.toHost, arrived, ← Line.toHost]
  have increases : openings session.history = openings link.session.history + openings events := by
    rw [← history, openings_append]
  refine ⟨?_, fun mail waiting => ?_, fun letter member => ?_⟩
  · have before := ordered.heard
    rw [heard]
    dsimp only
    omega
  · rw [same, ← history, Line.toHost_append sound.kept, List.mem_append] at waiting
    rw [heard]
    cases waiting with
    | inl earlier => exact ordered.mails mail earlier
    | inr new =>
      have before := ordered.heard
      obtain ⟨lower, _, strict⟩ := mailing_bounds new
      exact ⟨before.trans lower, fun isOpen => lt_of_le_of_lt before (strict isOpen)⟩
  · rw [heard]
    exact ordered.letters letter (fewer member)

/-- A packet on its way is older than the ones behind it. -/
theorem behind {mail : Mail} {rest : List Mail}
    (waiting : link.toHost link.session.history = mail :: rest) :
    ∀ later ∈ rest, mail.Precedes later := by
  have sorted : (link.toHost link.session.history).Pairwise Mail.Precedes :=
    (posted_sorted link.session.history).sublist (List.drop_sublist _ _)
  rw [waiting] at sorted
  exact fun later => List.rel_of_pairwise_cons sorted

theorem serve (ordered : link.Ordered) :
    Ordered { link.toLine.serve bridge link.session.history with session := link.session } := by
  cases waiting : link.toHost link.session.history with
  | nil =>
    rw [Line.serve_nil link.toLine waiting]
    exact ordered
  | cons mail rest =>
    have head : mail ∈ link.toHost link.session.history := by simp [waiting]
    have left := link.toLine.toHost_serve bridge link.session.history
    rw [waiting, List.tail_cons] at left
    obtain ⟨lower, strict⟩ := ordered.mails mail head
    have upper : mail.opening ≤ openings link.session.history := posted_le (List.mem_of_mem_drop head)
    -- The host moves from the OPEN_IME it heard of towards this packet's, never past it.
    have heard : link.heard ≤ (link.toLine.serve bridge link.session.history).heard ∧
        (link.toLine.serve bridge link.session.history).heard ≤ mail.opening := by
      rw [link.toLine.serve_heard waiting]
      split_ifs
      · exact ⟨lower, le_rfl⟩
      · exact ⟨le_rfl, lower⟩
    refine ⟨heard.2.trans upper, fun later member => ?_, fun letter member => ?_⟩
    · have precedes := behind waiting later (left ▸ member)
      exact ⟨heard.2.trans precedes.1, fun isOpen => lt_of_le_of_lt heard.2 (precedes.2 isOpen)⟩
    · change letter ∈ (link.toLine.serve bridge link.session.history).toClient at member
      rw [link.toLine.serve_toClient waiting] at member
      cases List.mem_append.mp member with
      | inl old => exact (ordered.letters letter old).trans heard.1
      | inr new =>
        obtain ⟨answer, _, rfl⟩ := List.mem_map.mp new
        exact le_rfl

theorem perform (action : UserAction) (ordered : link.Ordered) :
    Ordered { link.toLine.perform bridge action with session := link.session } := by
  have heard : (link.toLine.perform bridge action).heard = link.heard := by simp [Line.perform]
  refine ⟨heard ▸ ordered.heard, fun mail waiting => ?_, fun letter member => ?_⟩
  · rw [heard]
    refine ordered.mails mail ?_
    simpa [Line.perform, Line.toHost] using waiting
  · rw [heard]
    change letter ∈ (link.toLine.perform bridge action).toClient at member
    rw [Line.perform, Line.write_toClient] at member
    cases List.mem_append.mp member with
    | inl old => exact ordered.letters letter old
    | inr new =>
      obtain ⟨packet, _, rfl⟩ := List.mem_map.mp new
      exact le_rfl

theorem step (does : Step (HostAction.perform bridge) link next) (sound : link.Sound)
    (ordered : link.Ordered) : next.Ordered := by
  cases does with
  | own does => exact ordered.grows sound does.grows rfl rfl (List.Subset.refl _)
  | receive letter rest incoming up does =>
    refine ordered.grows sound does.grows ?_ (by simp) ?_
    · rw [Line.deliver_eq]
    · simp [incoming]
  | outside action =>
    cases action with
    | serve => exact ordered.serve
    | user action => exact ordered.perform action
  | unread =>
    refine ⟨ordered.heard, ordered.mails, fun letter member => ?_⟩
    exact ordered.letters letter (List.mem_of_mem_tail member)

theorem timedOut (sound : link.Sound) (ordered : link.Ordered) :
    Ordered { link with session := link.session.timedOut } :=
  ordered.grows sound link.session.timedOut_grows rfl rfl (List.Subset.refl _)

theorem start (modifierMask : Byte) (hardware : Hardware) :
    (Net.start modifierMask hardware).link.Ordered :=
  ⟨Nat.zero_le _, fun _ member => absurd member List.not_mem_nil,
    fun _ member => absurd member List.not_mem_nil⟩

end Ordered

end Link

end ImeBridge
