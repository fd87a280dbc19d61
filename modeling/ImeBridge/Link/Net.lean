import ImeBridge.Link.Line

/-! # The host and the resident client on one line

`Net` runs the worker's own functions against the host, a packet at a time: a run
takes packets off the channel where the byte-level worker completes them in its
receive buffer (`pollLoop_session`).  `Link` is the same with the session machine in
the client's place, and the refinement carries every invariant over.  What goes on
outside the client, host and channels, is a parameter of both.
-/

namespace ImeBridge

open Relation Library

structure Net extends Line where
  client : Tsr

structure Link extends Line where
  session : Session

def Net.link (net : Net) : Link := { net.toLine with session := net.client.toSession }

section Outside

variable {Outside : Type} (outside : Outside → List Event → Line → Line)

namespace Net

/-- The client does something on its own. -/
def work (does : Tsr → Tsr) (net : Net) : Net := { net with client := does net.client }

/-- The client takes the next packet; with the link down it reads nothing. -/
def receive (net : Net) : Net :=
  if net.client.linkState = .closed then net
  else
    match net.toClient with
    | [] => net
    | letter :: rest =>
      -- The letter leaves its channel whether or not the client acts on it.
      let client := handleParsed letter.packet net.client
      { net.toLine.deliver letter rest net.client.toSession client.history with client := client }

def meanwhile (action : Outside) (net : Net) : Net :=
  { outside action net.client.history net.toLine with client := net.client }

/-- A turn of the receive loop, or something that happens outside meanwhile. -/
def turn (net : Net) : Option Outside → Net
  | none => net.receive
  | some action => net.meanwhile outside action

inductive Action (Outside : Type) where
  /-- A run of the foreground worker: the machine it finds, and the turns of its
  receive loop between the things that happen outside meanwhile. -/
  | worker (hardware : Hardware) (turns : List (Option Outside))
  | returnedHotkey (hardware : Hardware)
  | prepareUninstall (hardware : Hardware)
  | outside (action : Outside)
  /-- Link down, bytes that arrive are not read. -/
  | unread

/-- The state in which a worker run comes to look at the response timer. -/
def beforeTick (hardware : Hardware) (turns : List (Option Outside)) (net : Net) : Net :=
  let net := net.work fun client => hotkeyStage { client with toHardware := hardware }
  let net := turns.foldl (turn outside) net
  (net.work injectStage).work openStage

def apply (action : Action Outside) (net : Net) : Net :=
  match action with
  | .worker hardware turns => (net.beforeTick outside hardware turns).work tickStage
  | .returnedHotkey hardware =>
    net.work fun client => (pc98ServiceReturnedHotkey { client with toHardware := hardware }).2
  | .prepareUninstall hardware =>
    net.work fun client => pc98PrepareUninstall { client with toHardware := hardware }
  | .outside action => net.meanwhile outside action
  | .unread =>
    if net.client.linkState = .closed then { net with toClient := net.toClient.tail } else net

def atTimer (action : Action Outside) (net : Net) : Option Net :=
  match action with
  | .worker hardware turns => some (net.beforeTick outside hardware turns)
  | _ => none

/-- A fresh connection to a freshly installed client. -/
def start (modifierMask : Byte) (hardware : Hardware) : Net :=
  { client := cleared modifierMask hardware }

end Net

namespace Link

/-- What can happen on the line, the response timeout apart. -/
inductive Step : Link → Link → Prop where
  | own {link : Link} {next : Session} (does : Session.Step link.session next) :
      Step link { link with session := next }
  | receive {link : Link} {next : Session} (letter : Letter) (rest : List Letter)
      (incoming : link.toClient = letter :: rest) (up : link.session.linkState ≠ .closed)
      (does : Session.Handled letter.packet link.session next) :
      Step link
        { link.toLine.deliver letter rest link.session next.history with session := next }
  | outside {link : Link} (action : Outside) :
      Step link { outside action link.session.history link.toLine with session := link.session }
  | unread {link : Link} (down : link.session.linkState = .closed) :
      Step link { link with toClient := link.toClient.tail }

end Link

/-! ## The refinement -/

namespace Net

open Link

theorem work_link (does : Tsr → Tsr) (net : Net)
    (steps : Session.Steps net.client.toSession (does net.client).toSession) :
    ReflTransGen (Step outside) net.link (net.work does).link :=
  ReflTransGen.lift (Link.mk net.toLine) (fun session next does =>
    show Step outside ⟨net.toLine, session⟩ ⟨net.toLine, next⟩ from .own does) _ _ steps

theorem receive_link (net : Net) : ReflTransGen (Step outside) net.link net.receive.link := by
  simp only [receive]
  split
  · exact .refl
  · rename_i up
    split
    · exact .refl
    · rename_i letter rest incoming
      exact .single (.receive letter rest incoming up (handleParsed_session net.client letter.packet))

theorem turn_link (net : Net) (turn : Option Outside) :
    ReflTransGen (Step outside) net.link (net.turn outside turn).link := by
  cases turn with
  | none => exact receive_link outside net
  | some action => exact .single (@Step.outside Outside outside net.link action)

theorem turns_link (net : Net) (turns : List (Option Outside)) :
    ReflTransGen (Step outside) net.link (turns.foldl (turn outside) net).link := by
  induction turns generalizing net with
  | nil => exact .refl
  | cons turn turns inductionHypothesis =>
    exact (turn_link outside net turn).trans (inductionHypothesis _)

theorem beforeTick_link (net : Net) (hardware : Hardware) (turns : List (Option Outside)) :
    ReflTransGen (Step outside) net.link (net.beforeTick outside hardware turns).link := by
  refine (work_link outside (fun client => hotkeyStage { client with toHardware := hardware }) net
    (hotkeyStage_session { net.client with toHardware := hardware })).trans ?_
  refine (turns_link outside _ turns).trans ?_
  exact (work_link outside injectStage _ (injectStage_session _)).trans
    (work_link outside openStage _ (openStage_session _))

/-- An action without the response timer is a row of steps of the line. -/
theorem apply_link {action : Action Outside} {net : Net} (timer : net.atTimer outside action = none) :
    ReflTransGen (Step outside) net.link (net.apply outside action).link := by
  cases action with
  | worker => simp [atTimer] at timer
  | returnedHotkey hardware =>
    exact work_link outside
      (fun client => (pc98ServiceReturnedHotkey { client with toHardware := hardware }).2) net
      (pc98ServiceReturnedHotkey_session { net.client with toHardware := hardware })
  | prepareUninstall hardware =>
    exact work_link outside (fun client => pc98PrepareUninstall { client with toHardware := hardware })
      net (pc98PrepareUninstall_session { net.client with toHardware := hardware })
  | outside action => exact turn_link outside net (some action)
  | unread =>
    simp only [apply]
    split
    · rename_i down
      exact .single (.unread down)
    · exact .refl

/-- What steps of the line and the response timeout preserve, every action preserves. -/
theorem preserves (invariant : Link → Prop)
    (step : ∀ link next, Step outside link next → invariant link → invariant next)
    {action : Action Outside} {net : Net}
    (timeout : ∀ before ∈ net.atTimer outside action, before.client.timesOut = true →
      invariant before.link → invariant { before.link with session := before.client.timedOut })
    (start : invariant net.link) : invariant (net.apply outside action).link := by
  -- Everything up to the response timer is a row of steps; the timer itself comes last.
  have row : ∀ {first last : Link}, ReflTransGen (Step outside) first last →
      invariant first → invariant last := by
    intro first last steps holds
    induction steps with
    | refl => exact holds
    | tail _ last inductionHypothesis => exact step _ _ last inductionHypothesis
  cases timer : net.atTimer outside action with
  | none => exact row (apply_link outside timer) start
  | some before =>
    cases action with
    | worker hardware turns =>
      cases timer
      have reached := row (beforeTick_link outside net hardware turns) start
      have ticks := tickStage_session (net.beforeTick outside hardware turns).client
      simp only [apply, link, work, ticks]
      split_ifs with late waiting
      · exact timeout _ rfl late reached
      · exact step _ _ (.own (.ticked waiting (eq_false_of_ne_true late))) reached
      · exact reached
    | _ => simp [atTimer] at timer

end Net

end Outside

/-! ## A line that loses nothing -/

/-- An action of the client, or of the host over a line that loses nothing. -/
abbrev Net.act (bridge : Bridge) : Net.Action HostAction → Net → Net :=
  Net.apply (HostAction.perform bridge)

/-- A bridge without automatic text, whose texts are plain ASCII. -/
def plainBridge : Bridge := { automaticText := none, encode932 := fun text => text.map Word.low }

/-- Press the hotkey; HELLO 1 and its PONG, OPEN_IME 2, while the application lets the
BIOS queue stay full. -/
def lineOpens : List (Net.Action HostAction) :=
  [.returnedHotkey (hotkeyHeld (machine 16#8 [])), .worker (machine 16#8 []) [], .outside .serve,
    .worker (machine 16#8 []) [none], .outside .serve]

example :
    let net := Run.run (Net.act plainBridge) lineOpens (Net.start 0x01#8 {})
    net.host.imeReady = true ∧ net.host.openSequence = 2#16 ∧ net.heard = 1 := by
  decide +kernel

end ImeBridge
