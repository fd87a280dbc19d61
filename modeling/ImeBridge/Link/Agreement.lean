import ImeBridge.Link.Idle
import ImeBridge.Link.Offers
import ImeBridge.Resident.PortLog

/-! # Host and client agree when the line is quiet

A host that will be ready, once it has received what is on its way, is ready for the
OPEN_IME the client waits on.  Every end of a session is told to the host, except by
the response timeout.
-/

namespace ImeBridge

open Library

namespace Link

/-- Where the host stands ready or will, the client waits for it on that OPEN_IME. -/
def Agrees (link : Link) : Prop :=
  ∀ number, link.settles link.session.history = some number →
    link.session.imeActive = true ∧ link.session.linkState = .ready ∧
      link.session.openSequence = number

/-! ### What each step of the client makes of it -/

section Client

variable {line : Line} {session : Session} {written : Nat} {succeeded : Bool}

/-- Where the link is up whenever the host settles on an OPEN_IME, an answer that does not go
out finds a host that is ready for nothing. -/
theorem settles_unanswered (opened : session.serialOpened = true ↔ session.linkState ≠ .closed)
    (ready : ∀ number, line.settles session.history = some number → session.linkState = .ready)
    (port : session.serialOpened = true → succeeded = true) (failed : succeeded = false) :
    line.settles session.history = none := by
  cases settled : line.settles session.history with
  | none => rfl
  | some number =>
    have up : session.linkState ≠ .closed := by simp [ready number settled]
    exact absurd (port (opened.mpr up)) (by simp [failed])

/-- Closing the IME leaves a host that is ready for nothing. -/
theorem settles_closed (kept : line.Kept session.history) (noted : session.PortNoted)
    (opened : session.serialOpened = true ↔ session.linkState ≠ .closed)
    (ready : ∀ number, line.settles session.history = some number → session.linkState = .ready)
    (transmitted : Transmitted (session.closed written succeeded).history) :
    line.settles (session.closed written succeeded).history = none := by
  rw [Line.settles_append (Line.toHost_closed written succeeded kept)]
  by_cases link : session.linkState = .ready
  · -- CLOSE_IME goes out on the open port.
    have sends : succeeded = true := transmitted.succeeded (noted.symm.trans (opened.mpr (by simp [link])))
      (show session.history ++ [.sent ⟨imeCloseIme, session.openSequence, []⟩ written succeeded] <+: _ by
        simp [Session.closed, Session.farewell, link])
    rw [if_pos ⟨link, sends⟩]
    rfl
  · rw [if_neg fun both => link both.1]
    cases settled : line.settles session.history with
    | none => rfl
    | some number => exact absurd (ready number settled) link

theorem settles_answeredText (kept : line.Kept session.history) (noted : session.PortNoted)
    (opened : session.serialOpened = true ↔ session.linkState ≠ .closed)
    (ready : ∀ number, line.settles session.history = some number → session.linkState = .ready)
    (transmitted : Transmitted (session.answeredText written succeeded).history) :
    line.settles (session.answeredText written succeeded).history = none := by
  rw [Line.settles_append (Line.toHost_answeredText written succeeded kept)]
  have port : session.serialOpened = true → succeeded = true := fun up =>
    transmitted.succeeded (noted.symm.trans up) (List.prefix_refl _)
  cases succeeded with
  | true => rfl
  | false => exact settles_unanswered opened ready port rfl

theorem settles_answeredKey (kept : line.Kept session.history) (noted : session.PortNoted)
    (opened : session.serialOpened = true ↔ session.linkState ≠ .closed)
    (ready : ∀ number, line.settles session.history = some number → session.linkState = .ready)
    (transmitted : Transmitted (session.answeredKey written succeeded).history) :
    line.settles (session.answeredKey written succeeded).history = none := by
  rw [Line.settles_append (Line.toHost_answeredKey written succeeded kept)]
  have port : session.serialOpened = true → succeeded = true := fun up => by
    have queued : portOpen (session.history ++ [.queuedKey session.pendingKey]) = true := by
      rw [portOpen_concat, ← noted, up]
      rfl
    exact transmitted.succeeded queued (by rw [Session.answeredKey_history])
  cases succeeded with
  | true => rfl
  | false => exact settles_unanswered opened ready port rfl

/-- A request that goes out is the one the host will be ready for. -/
theorem agrees_asked (kept : line.Kept session.history) (noted : session.PortNoted)
    (opened : session.serialOpened = true) (link : session.linkState = .ready)
    (transmitted : Transmitted (session.asked written succeeded).history) :
    Agrees { line with session := session.asked written succeeded } := by
  have sends : succeeded = true := transmitted.succeeded (noted.symm.trans opened)
    (show session.history ++
        [.sent ⟨imeOpenIme, session.sequence + 1#16, []⟩ written succeeded] <+: _ by
      simp [Session.asked_history])
  intro number settled
  have asked := Line.settles_append (Line.toHost_asked written succeeded kept)
  rw [if_pos sends] at asked
  rw [asked] at settled
  cases settled
  rw [sends]
  exact ⟨rfl, link, rfl⟩

end Client

variable {bridge : Bridge} {link next : Link}

theorem Agrees.own {session : Session} (does : Session.Step link.session session) (sound : link.Sound)
    (noted : link.session.PortNoted) (transmitted : Transmitted session.history) (agrees : link.Agrees) :
    Agrees { link with session := session } := by
  have ready : ∀ number, link.settles link.session.history = some number →
      link.session.linkState = .ready := fun number settled => (agrees number settled).2.1
  -- A step after which the host is ready for nothing needs no more.
  have nothing : link.settles session.history = none → Agrees { link with session := session } :=
    fun none number settled => absurd (none.symm.trans settled) (by simp)
  have opened := sound.consistent.opened
  cases does with
  | turnedOn off =>
    intro number settled
    rw [Line.settles_note fun _ => rfl] at settled
    exact agrees number settled
  | turnedOff written succeeded =>
    refine nothing (settles_closed (Line.kept_note sound.kept _) (noted.note fun _ => rfl) opened ?_
      transmitted)
    intro number settled
    rw [Line.settles_note fun _ => rfl] at settled
    exact ready number settled
  | shutDown written succeeded => exact nothing (settles_closed sound.kept noted opened ready transmitted)
  | queuedText =>
    intro number settled
    rw [Line.settles_note fun _ => rfl] at settled
    exact agrees number settled
  | answeredText => exact nothing (settles_answeredText sound.kept noted opened ready transmitted)
  | answeredKey => exact nothing (settles_answeredKey sound.kept noted opened ready transmitted)
  | asked written succeeded request idle linked =>
    exact agrees_asked sound.kept noted (opened.mpr (by simp [linked])) linked transmitted
  | greeting written succeeded request idle down =>
    -- The link was down, so the host was ready for nothing; HELLO does not change that.
    refine nothing ?_
    rw [Line.settles_append (Line.toHost_greeting written succeeded sound.kept)]
    cases settled : link.settles link.session.history with
    | none => cases succeeded <;> rfl
    | some number =>
      have up := ready number settled
      simp [down] at up
  | ticked => exact agrees

theorem Agrees.receive {session : Session} {letter : Letter} {rest : List Letter}
    (does : Session.Handled letter.packet link.session session) (sound : link.Sound)
    (noted : link.session.PortNoted) (transmitted : Transmitted session.history) (agrees : link.Agrees) :
    Agrees { link.toLine.deliver letter rest link.session session.history with
      session := session } := by
  -- What the host will be ready for does not depend on the letters to the client.
  suffices Agrees { link with session := session } by
    intro number settled
    exact this number (by rwa [Line.settles_deliver] at settled)
  have ready : ∀ number, link.settles link.session.history = some number →
      link.session.linkState = .ready := fun number settled => (agrees number settled).2.1
  have opened := sound.consistent.opened
  cases does with
  | greeted isPong waiting noRequest =>
    -- The client was waiting for a PONG, so the host was ready for nothing.
    intro number settled
    have up := ready number settled
    simp [waiting] at up
  | greetedAsking written succeeded isPong waiting request =>
    have greeted : { link.session with linkState := .ready, waitTicks := 0#16 }.PortNoted := noted
    exact agrees_asked sound.kept greeted (opened.mpr (by simp [waiting])) rfl transmitted
  | text | key =>
    intro number settled
    rw [Line.settles_note fun _ => rfl] at settled
    exact agrees number settled
  | close written succeeded =>
    intro number settled
    rw [settles_closed (Line.kept_note sound.kept _) (noted.note fun _ => rfl) opened ?_ transmitted]
      at settled
    · simp at settled
    · intro number settled
      rw [Line.settles_note fun _ => rfl] at settled
      exact ready number settled
  | ignored => exact agrees

theorem Agrees.step (does : Step (HostAction.perform bridge) link next) (sound : link.Sound)
    (noted : link.session.PortNoted) (transmitted : Transmitted next.session.history) (agrees : link.Agrees) : next.Agrees := by
  cases does with
  | own does => exact agrees.own does sound noted transmitted
  | receive letter rest incoming up does => exact agrees.receive does sound noted transmitted
  | outside action =>
    intro number settled
    cases action with
    | serve =>
      rw [HostAction.perform, Line.settles_serve] at settled
      exact agrees number settled
    | user action => exact agrees number (Line.settles_perform bridge action settled)
  | unread => exact agrees

/-- The response timeout tells the host nothing, which is right if it stands ready for nothing. -/
theorem Agrees.timedOut (nothing : link.settles link.session.history = none) :
    Agrees { link with session := link.session.timedOut } := by
  intro number settled
  rw [Line.settles, Line.toHost_timedOut, ← Line.settles, nothing] at settled
  simp at settled

theorem Agrees.start (modifierMask : Byte) (hardware : Hardware) :
    (Net.start modifierMask hardware).link.Agrees := by
  intro number settled
  have nothing : (Net.start modifierMask hardware).link.settles [] = none := rfl
  exact absurd (nothing.symm.trans settled) (by simp)

end Link

/-- The response timeout fires only on a host that neither stands ready nor will be
ready after the packets on their way. -/
def Unneeded (bridge : Bridge) (net : Net) (action : Net.Action HostAction) : Prop :=
  ∀ before ∈ net.atTimer (HostAction.perform bridge) action, before.client.timesOut = true →
    before.settles before.client.history = none

instance (bridge : Bridge) (net : Net) (action : Net.Action HostAction) :
    Decidable (Unneeded bridge net action) := by
  unfold Unneeded; infer_instance

theorem Link.noted (outside : HostAction → List Event → Line → Line) {link next : Link}
    (does : Step outside link next) (noted : link.session.PortNoted) : next.session.PortNoted := by
  cases does with
  | own does => exact noted.step does
  | receive letter rest incoming up does => exact noted.handled does
  | outside | unread => exact noted

/-- One action keeps host and client in agreement. -/
theorem Net.agrees (bridge : Bridge) (net : Net) (action : Net.Action HostAction)
    (start : net.link.Sound ∧ net.link.session.PortNoted ∧
      (Transmitted net.link.session.history → net.link.Agrees))
    (unneeded : Unneeded bridge net action) :
    (net.act bridge action).link.Sound ∧ (net.act bridge action).link.session.PortNoted ∧
      (Transmitted (net.act bridge action).link.session.history →
        (net.act bridge action).link.Agrees) := by
  refine Net.preserves _ (fun link => link.Sound ∧ link.session.PortNoted ∧
    (Transmitted link.session.history → link.Agrees)) ?_ ?_ start
  · rintro link next does ⟨sound, noted, agrees⟩
    refine ⟨sound.step (Line.kept_host bridge) does, Link.noted _ does noted, fun transmitted => ?_⟩
    exact (agrees (transmitted.earlier does.grows)).step does sound noted transmitted
  · rintro before timer late ⟨sound, _⟩
    exact ⟨sound.timedOut, .timedOut before.client.toSession, fun _ => .timedOut (unneeded before timer late)⟩

/-- In every run in which the response timeout fires on a host that is ready for
nothing only, and no transmit times out: once both channels are empty, a ready host
finds the client waiting on the very OPEN_IME it is ready for. -/
theorem quiet_host_agrees (bridge : Bridge) (modifierMask : Byte) (hardware : Hardware)
    (actions : List (Net.Action HostAction))
    (unneeded : Run.AllSteps (Net.act bridge) (Unneeded bridge) actions
      (Net.start modifierMask hardware)) :
    let net := Run.run (Net.act bridge) actions (Net.start modifierMask hardware)
    Transmitted net.client.history → net.toHost net.client.history = [] → net.toClient = [] →
      net.host.imeReady = true →
      net.client.linkState = .ready ∧ net.client.imeActive = true ∧
        net.client.openSequence = net.host.openSequence := by
  intro net transmitted quiet _ ready
  have agrees : net.link.Agrees := (Run.invariant_of_allSteps (Net.act bridge) (Net.agrees bridge)
    ⟨.start modifierMask hardware, rfl, fun _ => Link.Agrees.start modifierMask hardware⟩
    unneeded).2.2 transmitted
  have settled : net.settles net.client.history = some net.host.openSequence := by
    rw [Line.settles, quiet, List.foldl_nil, Host.offers, if_pos ready]
  obtain ⟨active, link, number⟩ := agrees _ settled
  exact ⟨link, active, number⟩

/-- The user opens the IME, and leaves it at that. -/
def lineWaiting : Net := Run.run (Net.act plainBridge) lineOpens (Net.start 0x01#8 {})

theorem lineWaiting_idle : Idle lineWaiting.client :=
  ⟨by decide +kernel, by decide +kernel, by decide +kernel, by decide +kernel, by decide +kernel,
    by decide +kernel, by decide +kernel, by decide +kernel⟩

theorem lineWaiting_atTicks : lineWaiting = lineWaiting.atTicks 1 := by
  have ticks : lineWaiting.client.waitTicks = BitVec.ofNat 16 1 := by decide +kernel
  rw [Net.atTicks, Tsr.atTicks, ← ticks]

/-- ... until the response timeout fires. -/
def lineTimesOut : List (Net.Action HostAction) :=
  lineOpens ++ (List.replicate 0xfffd (lineWaiting.pause HostAction) ++ [lineWaiting.pause HostAction])

theorem lineTimesOut_link : (Run.run (Net.act plainBridge) lineTimesOut (Net.start 0x01#8 {})).link =
    { lineWaiting.toLine with session := (lineWaiting.client.atTicks 0xfffe).timedOut } := by
  have late := Net.run_pause_late (HostAction.perform plainBridge) lineWaiting_idle
    (show 1 + 0xfffd = 0xfffe by decide)
  rw [← lineWaiting_atTicks] at late
  rw [lineTimesOut, Run.run_append, ← lineWaiting, late, Net.late_link lineWaiting_idle]

/-- Then the line is quiet, the host ready and the client off. -/
theorem quiet_host_disagrees :
    ¬ ∀ actions : List (Net.Action HostAction),
      let link := (Run.run (Net.act plainBridge) actions (Net.start 0x01#8 {})).link
      Transmitted link.session.history → link.toHost link.session.history = [] →
        link.toClient = [] → link.host.imeReady = true →
        link.session.linkState = .ready ∧ link.session.imeActive = true ∧
          link.session.openSequence = link.host.openSequence := by
  intro all
  have agrees := all lineTimesOut
  rw [lineTimesOut_link] at agrees
  have history (tsr : Tsr) : (tsr.atTicks 0xfffe).timedOut.history = tsr.history ++ [.linkReset] := rfl
  have idle (tsr : Tsr) : (tsr.atTicks 0xfffe).timedOut.imeActive = false := rfl
  simp only [history, idle] at agrees
  have active := (agrees (by decide +kernel) (by decide +kernel) (by decide +kernel)
    (by decide +kernel)).2.1
  exact absurd active (by decide)

/-- Without the pause they agree. -/
theorem quiet_host_agrees_opened :
    lineWaiting.client.linkState = .ready ∧ lineWaiting.client.imeActive = true ∧
      lineWaiting.client.openSequence = lineWaiting.host.openSequence := by
  have unneeded : Run.AllSteps (Net.act plainBridge) (Unneeded plainBridge) lineOpens
      (Net.start 0x01#8 {}) := by
    simp only [lineOpens, Run.AllSteps]
    decide +kernel
  exact quiet_host_agrees plainBridge 0x01#8 {} lineOpens unneeded (by decide +kernel)
    (by decide +kernel) (by decide +kernel) (by decide +kernel)

end ImeBridge
