import ImeBridge.Link.Carriage
import ImeBridge.Link.Traffic
import ImeBridge.Resident.Core
import ImeBridge.Resident.Reception
import ImeBridge.Resident.Release

/-! # The client on a line of bytes

What the client does with the bytes that come is what it does on `Net` with whole packets.
A worker run is followed stage by stage: on one side the framer and the bytes that come, on
the other the letters in the channel.  Where a session ends inside a packet, its letter is
left over until the run is done (`Trails`); from the receive loop to `start_link` there is none
(`Follows`).
-/

namespace ImeBridge

open Library

/-- What the framer holds and the bytes that come stand for the packets `flying`; with the link
down it holds nothing. -/
structure Aligned (past flying : List Frame) (tsr : Tsr) (coming : List Byte) : Prop where
  up : tsr.linkState ≠ .closed → Carries past tsr.framer coming flying
  down : tsr.linkState = .closed → tsr.framer = {} ∧ Lies past coming flying

theorem linkState_of_port {tsr next : Tsr} (same : next.port.up = tsr.port.up) :
    next.linkState = .closed ↔ tsr.linkState = .closed := by
  simpa [Tsr.port] using congrArg (! ·) same

namespace Aligned

variable {past flying : List Frame} {tsr next : Tsr} {coming : List Byte}

theorem leaves (aligned : Aligned past flying tsr coming) (leaves : tsr.Leaves next) :
    Aligned past flying next coming := by
  have link := linkState_of_port (congrArg Port.up leaves.port)
  refine ⟨fun up => ?_, fun down => ?_⟩
  · rw [leaves.framer]
    exact aligned.up (link.not.mp up)
  · rw [leaves.framer]
    exact aligned.down (link.mp down)

/-- With the link, the beginning of a packet is given up as well. -/
theorem spares (aligned : Aligned past flying tsr coming) (spares : tsr.Spares next) :
    ∃ begun left, flying = begun ++ left ∧ Aligned (past ++ begun) left next coming ∧
      (begun ≠ [] → tsr.linkState ≠ .closed ∧ next.linkState = .closed) := by
  cases spares with
  | inl left =>
    refine ⟨[], flying, rfl, ?_, fun some => absurd rfl some⟩
    rw [List.append_nil]
    exact aligned.leaves left
  | inr released =>
    obtain ⟨port, framer⟩ := released
    have down : next.linkState = .closed := by
      have isDown := congrArg Port.up port
      simpa [Tsr.port, Port.released] using isDown
    by_cases link : tsr.linkState = .closed
    · refine ⟨[], flying, rfl, ⟨fun up => absurd down up, fun _ => ⟨framer, ?_⟩⟩, fun some => absurd rfl some⟩
      rw [List.append_nil]
      exact (aligned.down link).2
    · -- With the framer the packet goes of which it held the beginning.
      obtain ⟨begun, left, split, lies⟩ := (aligned.up link).lies
      exact ⟨begun, left, split, ⟨fun up => absurd down up, fun _ => ⟨framer, lies⟩⟩, fun _ => ⟨link, down⟩⟩

/-- With the link down bytes may be lost. -/
theorem drop (aligned : Aligned past flying tsr coming) (down : tsr.linkState = .closed) (count : Nat) :
    ∃ begun left, flying = begun ++ left ∧ Aligned (past ++ begun) left tsr (coming.drop count) := by
  obtain ⟨framer, lies⟩ := aligned.down down
  obtain ⟨begun, left, split, dropped⟩ := lies.drop count
  exact ⟨begun, left, split, fun up => absurd down up, fun _ => ⟨framer, dropped⟩⟩

end Aligned

namespace Net

/-- The client is the same apart from what is received, and its channel holds the letters `begun`,
which are lost with the link, and those that the bytes stand for. -/
structure Trails (net : Net) (frames begun : List Frame) (tsr : Tsr) (coming : List Byte) : Prop where
  core : net.client.core = tsr.core
  letters : ∃ past left, frames = past ++ begun ++ left ∧
    net.toClient.map (·.packet) = (begun ++ left).map Frame.packet ∧ Aligned (past ++ begun) left tsr coming
  down : begun ≠ [] → tsr.linkState = .closed

/-- The host has not done anything meanwhile. -/
structure HostWaits (net next : Net) : Prop where
  host : next.host = net.host
  arrived : next.arrived = net.arrived

theorem HostWaits.refl (net : Net) : net.HostWaits net := ⟨rfl, rfl⟩

theorem HostWaits.trans {net middle next : Net} (first : net.HostWaits middle) (second : middle.HostWaits next) :
    net.HostWaits next := ⟨second.host.trans first.host, second.arrived.trans first.arrived⟩

namespace Trails

variable {net : Net} {frames begun : List Frame} {tsr next : Tsr} {coming : List Byte}

theorem session (trails : net.Trails frames begun tsr coming) : net.client.toSession = tsr.toSession :=
  session_of_core trails.core

/-- A piece of the worker that reads nothing. -/
theorem works (trails : net.Trails frames begun tsr coming) {does : Tsr → Tsr} (overlooks : Overlooks does)
    (spares : tsr.Spares (does tsr)) :
    ∃ more, (net.work does).Trails frames (begun ++ more) (does tsr) coming ∧
      (more ≠ [] → tsr.linkState ≠ .closed) := by
  obtain ⟨past, left, split, letters, aligned⟩ := trails.letters
  obtain ⟨more, rest, rfl, kept, ended⟩ := aligned.spares spares
  refine ⟨more, ⟨overlooks.alike trails.core, ⟨past, rest, ?_, ?_, ?_⟩, fun some => ?_⟩,
    fun some => (ended some).1⟩
  · rw [split]
    simp only [List.append_assoc]
  · rw [List.append_assoc]
    exact letters
  · rw [← List.append_assoc]
    exact kept
  · cases begun with
    | nil => exact (ended some).2
    | cons frame begun =>
      -- A link that is down stays down.
      exact spares.kept.down (trails.down (List.cons_ne_nil frame begun))

theorem leaves (trails : net.Trails frames begun tsr coming) {does : Tsr → Tsr} (overlooks : Overlooks does)
    (leaves : tsr.Leaves (does tsr)) : (net.work does).Trails frames begun (does tsr) coming := by
  obtain ⟨past, left, split, letters, aligned⟩ := trails.letters
  refine ⟨overlooks.alike trails.core, ⟨past, left, split, letters, aligned.leaves leaves⟩, fun some => ?_⟩
  exact (linkState_of_port (congrArg Port.up leaves.port)).mpr (trails.down some)

/-- With the link down bytes may be lost. -/
theorem drop (trails : net.Trails frames begun tsr coming) (link : tsr.linkState = .closed) (count : Nat) :
    ∃ more, net.Trails frames (begun ++ more) tsr (coming.drop count) := by
  obtain ⟨past, left, split, letters, aligned⟩ := trails.letters
  obtain ⟨more, rest, rfl, kept⟩ := aligned.drop link count
  refine ⟨more, trails.core, ⟨past, rest, ?_, ?_, ?_⟩, fun _ => link⟩
  · rw [split]
    simp only [List.append_assoc]
  · rw [List.append_assoc]
    exact letters
  · rw [← List.append_assoc]
    exact kept

end Trails

/-- The client is the same apart from what is received, and its channel holds the letters that the
framer and the bytes that come make up. -/
structure Follows (net : Net) (frames : List Frame) (tsr : Tsr) (coming : List Byte) : Prop where
  core : net.client.core = tsr.core
  letters : ∃ past left, frames = past ++ left ∧
    net.toClient.map (·.packet) = left.map Frame.packet ∧ Carries past tsr.framer coming left
  down : tsr.linkState = .closed → tsr.framer = {}

namespace Trails

variable {net : Net} {frames begun : List Frame} {tsr : Tsr} {coming : List Byte}

/-- With the link up nothing is left over. -/
theorem follows (trails : net.Trails frames begun tsr coming) (up : tsr.linkState ≠ .closed) :
    net.Follows frames tsr coming := by
  obtain ⟨past, left, split, letters, aligned⟩ := trails.letters
  have nothing : begun = [] := by
    by_contra some
    exact up (trails.down some)
  subst nothing
  rw [List.append_nil] at split aligned
  exact ⟨trails.core, ⟨past, left, split, letters, aligned.up up⟩, fun down => absurd down up⟩

/-- What comes first is the rest of a packet, and does not look like the beginning of one. -/
def Clean (frames : List Frame) (coming : List Byte) : Prop :=
  ∀ past left rest, frames = past ++ left → coming = rest ++ left.flatMap Frame.bytes → Cuts past rest →
    ¬ [imeMagic0, imeMagic1] <:+: rest

/-- With the link down the framer is empty, ready for a session. -/
theorem ready (trails : net.Trails frames [] tsr coming) (link : tsr.linkState = .closed)
    (clean : Clean frames coming) : net.Follows frames tsr coming := by
  obtain ⟨past, left, split, letters, aligned⟩ := trails.letters
  obtain ⟨framer, rest, comes, cuts⟩ := aligned.down link
  rw [List.append_nil] at split cuts
  refine ⟨trails.core, ⟨past, left, split, letters, ?_⟩, fun _ => framer⟩
  rw [framer, comes]
  exact .fresh (clean past left rest split comes cuts) cuts

end Trails

namespace Follows

variable {net : Net} {frames : List Frame} {tsr : Tsr} {coming : List Byte}

theorem session (follows : net.Follows frames tsr coming) : net.client.toSession = tsr.toSession :=
  session_of_core follows.core

theorem trails (follows : net.Follows frames tsr coming) : ∃ begun, net.Trails frames begun tsr coming := by
  obtain ⟨past, left, split, letters, carries⟩ := follows.letters
  by_cases down : tsr.linkState = .closed
  · obtain ⟨begun, later, rfl, lies⟩ := carries.lies
    refine ⟨begun, follows.core, ⟨past, later, ?_, letters, ?_, ?_⟩, fun _ => down⟩
    · rw [split, List.append_assoc]
    · exact fun up => absurd down up
    · exact fun _ => ⟨follows.down down, lies⟩
  · refine ⟨[], follows.core, ⟨past, left, ?_, letters, ?_, ?_⟩, fun some => absurd rfl some⟩
    · rw [split, List.append_nil]
    · exact fun _ => (List.append_nil past).symm ▸ carries
    · exact fun closed => absurd closed down

theorem leaves (follows : net.Follows frames tsr coming) {does : Tsr → Tsr} (overlooks : Overlooks does)
    (leaves : tsr.Leaves (does tsr)) : (net.work does).Follows frames (does tsr) coming := by
  refine ⟨overlooks.alike follows.core, ?_, fun down => ?_⟩
  · rw [leaves.framer]
    exact follows.letters
  · rw [leaves.framer]
    exact follows.down ((linkState_of_port (congrArg Port.up leaves.port)).mp down)

/-- A byte has been fetched. -/
theorem fetched {fetched : Tsr} (follows : net.Follows frames tsr coming) (core : fetched.core = tsr.core)
    (framer : fetched.framer = tsr.framer) : net.Follows frames fetched coming := by
  have link : fetched.linkState = tsr.linkState := congrArg Session.linkState (session_of_core core)
  refine ⟨follows.core.trans core.symm, ?_, ?_⟩
  · rw [framer]
    exact follows.letters
  · rw [framer, link]
    exact follows.down

/-- `start_link` leaves the framer alone, or empties it. -/
theorem starts (follows : net.Follows frames tsr coming) (starts : tsr.Starts) :
    (net.work openStage).Follows frames (openStage tsr) coming := by
  have fresh := follows.down starts.2.2
  have same : (openStage tsr).framer = tsr.framer := by
    rw [openStage_starts tsr starts]
    cases startLink_spares tsr with
    | inl begun => exact begun.2
    | inr failed => exact failed.2.trans fresh.symm
  refine ⟨openStage_overlooks.alike follows.core, ?_, fun _ => same.trans fresh⟩
  rw [same]
  exact follows.letters

section Receiving

variable {Outside : Type} (outside : Outside → List Event → Line → Line)

/-- A byte that comes completes the packet of the next letter, or none. -/
theorem accept (good : ∀ frame ∈ frames, frame.Good) {value : Byte} (up : tsr.linkState ≠ .closed)
    (follows : net.Follows frames tsr (value :: coming)) :
    ∃ count, ((List.replicate count none).foldl (turn outside) net).Follows frames (acceptByte value tsr) coming ∧
      net.HostWaits ((List.replicate count none).foldl (turn outside) net) := by
  obtain ⟨past, left, split, letters, carries⟩ := follows.letters
  have framed := acceptByte_framer value tsr
  obtain ⟨incomplete, carries⟩ | ⟨frame, later, rfl, complete, fresh, comes⟩ := carries.accept
  · have core := acceptByte_incomplete incomplete
    have same : (acceptByte value tsr).linkState = tsr.linkState :=
      congrArg Session.linkState (session_of_core core)
    refine ⟨0, ⟨follows.core.trans core.symm, ⟨past, left, split, letters, framed ▸ carries⟩, ?_⟩, .refl net⟩
    exact fun down => absurd (same.symm.trans down) up
  · obtain ⟨letter, rest, incoming, packet, others⟩ := List.map_eq_cons_iff.mp letters
    have isGood : frame.Good := good frame (split ▸ List.mem_append_right _ List.mem_cons_self)
    have core := (handleParsed_overlooks frame.packet).alike follows.core
    have link : net.client.linkState ≠ .closed := by
      rw [follows.session]
      exact up
    have takes : net.turn outside none =
        { net.toLine.deliver letter rest net.client.toSession (handleParsed letter.packet net.client).history with
          client := handleParsed letter.packet net.client } := by
      simp only [turn, receive, if_neg link, incoming]
    rw [fresh] at framed
    refine ⟨1, ?_⟩
    rw [List.replicate_one, List.foldl_cons, List.foldl_nil, takes, packet]
    refine ⟨⟨core.trans (acceptByte_complete isGood complete).symm, ⟨past ++ [frame], later, ?_, ?_, ?_⟩,
      fun _ => framed⟩, ⟨?_, ?_⟩⟩
    · rw [split, List.append_assoc, List.singleton_append]
    · rw [Line.deliver_toClient]
      exact others
    · rw [framed, comes]
      exact .whole
    · rw [Line.deliver_eq]
    · rw [Line.deliver_eq]

/-- The receive loop: as many packets as the bytes that are read complete.  With the link down the
ring is empty and the port closed, so that nothing more is read. -/
theorem poll (good : ∀ frame ∈ frames, frame.Good) (budget : Nat) {held wire : List Byte}
    (holds : tsr.port.Holds held) (enough : held.length ≤ budget) (consistent : tsr.Consistent)
    (idle : tsr.linkState = .closed → held = [])
    (follows : net.Follows frames tsr (held ++ tsr.received ++ wire)) :
    ∃ count, ((List.replicate count none).foldl (turn outside) net).Follows frames (pollLoop budget tsr)
        ((pollLoop budget tsr).received ++ wire) ∧
      net.HostWaits ((List.replicate count none).foldl (turn outside) net) := by
  induction budget generalizing net tsr held with
  | zero =>
    cases held with
    | nil => exact ⟨0, follows, .refl net⟩
    | cons value held => simp at enough
  | succ budget inductionHypothesis =>
    -- A byte that is fetched is accepted, and the rest of the loop follows.
    have goesOn : ∀ value (rest : Tsr), pollByte tsr = (some value, rest) → rest.core = tsr.core →
        rest.framer = tsr.framer → rest.port.Holds [] → held ++ tsr.received = value :: rest.received →
        tsr.linkState ≠ .closed →
        ∃ count, ((List.replicate count none).foldl (turn outside) net).Follows frames (pollLoop (budget + 1) tsr)
            ((pollLoop (budget + 1) tsr).received ++ wire) ∧
          net.HostWaits ((List.replicate count none).foldl (turn outside) net) := by
      intro value rest byte core framer empty comes up
      rw [comes] at follows
      have session := session_of_core core
      have link : rest.linkState ≠ .closed := by
        rw [session]
        exact up
      obtain ⟨first, accepted, waits⟩ := (follows.fetched core framer).accept outside good link
      have kept := (acceptByte_serves rest value).port
      have received : (acceptByte value rest).received = rest.received := kept.received
      have flags : rest.toSession.Consistent := by
        rw [session]
        exact consistent
      have moves : Session.Moves rest.toSession (acceptByte value rest).toSession :=
        (acceptByte_session rest value).to_reflTransGen
      have next : (acceptByte value rest).Consistent := moves.preserves Session.Consistent.move flags
      rw [← received] at accepted
      obtain ⟨count, polled, waitsOn⟩ := inductionHypothesis (kept.holds empty) (Nat.zero_le budget) next
        (fun _ => rfl) accepted
      refine ⟨first + count, ?_, ?_⟩
      · rw [List.replicate_add, List.foldl_append, pollLoop, byte]
        exact polled
      · rw [List.replicate_add, List.foldl_append]
        exact waits.trans waitsOn
    cases held with
    | nil =>
      have empty : tsr.irqReadPos = tsr.irqWritePos := holds
      obtain ⟨holding, -⟩ | ⟨-, nothing | ⟨value, received, arrived, byte⟩⟩ := pollByte_cases tsr
      · exact absurd empty holding
      · exact ⟨0, by rw [pollLoop, nothing]; exact follows, .refl net⟩
      · have up : tsr.linkState ≠ .closed := by
          intro down
          have closed : tsr.serialOpened = false := by
            rw [← Bool.not_eq_true, consistent.opened]
            exact not_not.mpr down
          simp [pollByte, pc98TsrSerialTryReadByte, pc98SerialTryReadByte, empty, closed] at byte
        exact goesOn value { tsr with received := received } byte rfl rfl holds arrived up
    | cons value held =>
      have up : tsr.linkState ≠ .closed := fun down => List.cons_ne_nil _ _ (idle down)
      cases held with
      | nil =>
        obtain ⟨one, oldest⟩ := holds
        have drained : (tsr.irqReadPos + 1#8) &&& 0x7f#8 = tsr.irqWritePos := one.symm
        obtain ⟨-, byte⟩ | ⟨empty, -⟩ := pollByte_cases tsr
        · rw [show tsr.irqBuffer tsr.irqReadPos = value from oldest] at byte
          exact goesOn value { tsr with irqReadPos := (tsr.irqReadPos + 1#8) &&& 0x7f#8 } byte rfl rfl drained
            rfl up
        · -- The ring holds the byte.
          exact absurd (drained.trans empty.symm) (next_ne tsr.irqReadPos)
      | cons => exact absurd holds id

end Receiving

end Follows

/-! ## A worker run -/

section Finishing

variable {net : Net} {frames begun : List Frame} {tsr : Tsr} {coming : List Byte}

/-- A run that does not start a session. -/
theorem Trails.finish (trails : net.Trails frames begun tsr coming) (stays : ¬ tsr.Starts) :
    ∃ more, ((net.work openStage).work tickStage).Trails frames more (tickStage (openStage tsr)) coming := by
  obtain ⟨opening, opened, -⟩ := trails.works openStage_overlooks (openStage_spares tsr stays)
  obtain ⟨ticking, ticked, -⟩ := opened.works tickStage_overlooks (tickStage_spares (openStage tsr))
  exact ⟨_, ticked⟩

theorem Follows.finish (follows : net.Follows frames tsr coming) :
    ∃ more, ((net.work openStage).work tickStage).Trails frames more (tickStage (openStage tsr)) coming := by
  by_cases starts : tsr.Starts
  · obtain ⟨begun, opened⟩ := (follows.starts starts).trails
    obtain ⟨ticking, ticked, -⟩ := opened.works tickStage_overlooks (tickStage_spares (openStage tsr))
    exact ⟨_, ticked⟩
  · obtain ⟨begun, trails⟩ := follows.trails
    exact trails.finish starts

end Finishing

end Net

/-- The run in which the hotkey closes the session does not start another one. -/
theorem hotkeyStage_ends {tsr : Tsr} (up : tsr.linkState ≠ .closed)
    (down : (hotkeyStage tsr).linkState = .closed) : ¬ (beforeOpen tsr).Starts := by
  have stays : receiveStage (hotkeyStage tsr) = hotkeyStage tsr := receiveStage_closed (hotkeyStage tsr) down
  rw [beforeOpen, stays]
  obtain same | ⟨rest, same, toggles⟩ := hotkeyStage_cases tsr
  · rw [same] at down
    exact absurd down up
  · obtain ⟨-, written, succeeded, closes⟩ | ⟨-, opens⟩ := toggleImeHotkey_cases rest
    · rw [closes] at toggles
      have unstaged : ¬ (hotkeyStage tsr).Staged := by
        rw [toggles]
        simp [Session.Staged, Session.closed]
      rw [injectStage_empty _ unstaged]
      intro starts
      have pending := starts.1
      rw [toggles] at pending
      simp [Session.closed] at pending
    · rw [toggles, opens, same] at down
      exact absurd down up

/-- Behind the receive loop nothing is read. -/
theorem pc98ServiceForeground_received (tsr : Tsr) :
    (pc98ServiceForeground tsr).received = (receiveStage (hotkeyStage tsr)).received := by
  have opened : (openStage (beforeOpen tsr)).port.received = (beforeOpen tsr).received := by
    by_cases starts : (beforeOpen tsr).Starts
    · rw [openStage_starts _ starts]
      cases startLink_port (beforeOpen tsr) with
      | inl whole => rw [whole]; rfl
      | inr cut => rw [cut]; rfl
    · exact (openStage_port _ starts).received
  have ticked := (tickStage_serves (openStage (beforeOpen tsr))).port.received
  exact (ticked.trans opened).trans (beforeOpen_port tsr).received

namespace Net

variable {Outside : Type} (outside : Outside → List Event → Line → Line)

/-- A worker run on bytes is one on packets.  Letters may be left over where the link is down
behind it. -/
theorem Trails.worker {net : Net} {frames : List Frame} {tsr : Tsr} {held wire : List Byte}
    (trails : net.Trails frames [] tsr (held ++ tsr.received ++ wire)) (good : ∀ frame ∈ frames, frame.Good)
    (holds : tsr.port.Holds held) (single : held.length ≤ 1) (consistent : tsr.Consistent)
    (idle : tsr.linkState = .closed → held = [])
    (clean : tsr.linkState = .closed → (beforeOpen tsr).Starts → Clean frames (tsr.received ++ wire)) :
    ∃ count begun,
      let next := net.apply outside (.worker tsr.toHardware (List.replicate count none))
      next.Trails frames begun (pc98ServiceForeground tsr) ((pc98ServiceForeground tsr).received ++ wire) ∧
        net.HostWaits next := by
  have found : Overlooks fun client => hotkeyStage { client with toHardware := tsr.toHardware } :=
    fun other => hotkeyStage_overlooks.alike rfl
  obtain ⟨begun, polled, ended⟩ := trails.works found (hotkeyStage_spares tsr)
  rw [List.nil_append] at polled
  have kept := hotkeyStage_port tsr
  have flags : (hotkeyStage tsr).Consistent :=
    (hotkeyStage_session tsr).moves.preserves Session.Consistent.move consistent
  have received := pc98ServiceForeground_received tsr
  by_cases down : (hotkeyStage tsr).linkState = .closed
  · -- Nothing is read; what the ring held is lost with the session.
    have stays : receiveStage (hotkeyStage tsr) = hotkeyStage tsr := receiveStage_closed (hotkeyStage tsr) down
    rw [stays, show (hotkeyStage tsr).received = tsr.received from kept.received] at received
    refine ⟨0, ?_⟩
    rw [received, show pc98ServiceForeground tsr = tickStage (openStage (injectStage (hotkeyStage tsr))) by
      rw [pc98ServiceForeground, stays]]
    by_cases link : tsr.linkState = .closed
    · -- There was no session: the run may start one, behind whatever is still to come.
      have nothing : begun = [] := by
        by_contra some
        exact ended some link
      subst nothing
      rw [idle link, List.nil_append] at polled
      have injected := polled.leaves injectStage_overlooks (injectStage_leaves (hotkeyStage tsr))
      by_cases starts : (injectStage (hotkeyStage tsr)).Starts
      · have ready := injected.ready starts.2.2 (clean link (by rwa [beforeOpen, stays]))
        obtain ⟨more, finished⟩ := ready.finish
        exact ⟨more, finished, rfl, rfl⟩
      · obtain ⟨more, finished⟩ := injected.finish starts
        exact ⟨more, finished, rfl, rfl⟩
    · -- The hotkey has ended the session, and this run does not start another one.
      obtain ⟨lost, dropped⟩ := polled.drop down held.length
      rw [List.append_assoc, List.drop_left] at dropped
      have injected := dropped.leaves injectStage_overlooks (injectStage_leaves (hotkeyStage tsr))
      have starts := hotkeyStage_ends link down
      rw [beforeOpen, stays] at starts
      obtain ⟨more, finished⟩ := injected.finish starts
      exact ⟨more, finished, rfl, rfl⟩
  · -- The session goes on: what the loop reads, the line delivers packet by packet.
    have same : (hotkeyStage tsr).port = tsr.port := kept.up (by simp [Tsr.port, down])
    have polls : receiveStage (hotkeyStage tsr) = pollLoop 32 (hotkeyStage tsr) := by
      simp [receiveStage, down, pollTransport]
    have follows := polled.follows down
    rw [← show (hotkeyStage tsr).received = tsr.received from congrArg Port.received same] at follows
    have enough : held.length ≤ 32 := by omega
    obtain ⟨count, fetched, waits⟩ := follows.poll outside good 32 (same ▸ holds) enough flags
      (fun closed => absurd closed down)
    rw [← polls] at fetched
    have injected := fetched.leaves injectStage_overlooks (injectStage_leaves (receiveStage (hotkeyStage tsr)))
    obtain ⟨more, finished⟩ := injected.finish
    refine ⟨count, more, ?_, waits.host, waits.arrived⟩
    rw [received]
    exact finished

end Net

/-! ## The rest of the line -/

namespace Net

/-- The client finds the machine so. -/
def finding (hardware : Hardware) (net : Net) : Net :=
  { net with client := { net.client with toHardware := hardware } }

theorem finds_overlooks (hardware : Hardware) : Overlooks fun tsr => { tsr with toHardware := hardware } :=
  fun _ => rfl

variable {net : Net} {frames begun : List Frame} {tsr : Tsr} {coming : List Byte}

theorem Trails.finding (trails : net.Trails frames begun tsr coming) :
    (net.finding tsr.toHardware).Trails frames begun tsr coming :=
  ⟨(finds_overlooks tsr.toHardware).alike trails.core, trails.letters, trails.down⟩

/-- Where the bytes lie makes no difference. -/
theorem Trails.moved {moved : Tsr} (trails : net.Trails frames begun tsr coming) (core : moved.core = tsr.core)
    (framer : moved.framer = tsr.framer) : net.Trails frames begun moved coming := by
  obtain ⟨past, left, split, letters, aligned⟩ := trails.letters
  have link : moved.linkState = tsr.linkState := congrArg Session.linkState (session_of_core core)
  refine ⟨trails.core.trans core.symm, ⟨past, left, split, letters, ?_, ?_⟩, fun some => link ▸ trails.down some⟩
  · rw [framer, link]
    exact aligned.up
  · rw [framer, link]
    exact aligned.down

/-- A packet is written behind the others. -/
theorem Trails.write {next : Net} {frame : Frame} (trails : net.Trails frames [] tsr coming)
    (client : next.client = net.client)
    (letters : next.toClient.map (·.packet) = net.toClient.map (·.packet) ++ [frame.packet]) :
    next.Trails (frames ++ [frame]) [] tsr (coming ++ frame.bytes) := by
  obtain ⟨past, left, split, before, aligned⟩ := trails.letters
  rw [List.append_nil] at split aligned
  refine ⟨client ▸ trails.core, ⟨past, left ++ [frame], ?_, ?_, ?_⟩, fun some => absurd rfl some⟩
  · rw [split, List.append_nil, List.append_assoc]
  · rw [letters, before, List.nil_append, List.nil_append, List.map_append]
    rfl
  · rw [List.append_nil]
    refine ⟨fun up => (aligned.up up).write frame, fun down => ?_⟩
    exact ⟨(aligned.down down).1, (aligned.down down).2.write frame⟩

/-- The letters left over are not read. -/
theorem Trails.unread (bridge : Bridge) (trails : net.Trails frames begun tsr coming) :
    let next := Run.run (act bridge) (List.replicate begun.length .unread) net
    next.Trails frames [] tsr coming ∧ net.HostWaits next := by
  induction begun generalizing net with
  | nil => exact ⟨trails, .refl net⟩
  | cons frame begun inductionHypothesis =>
    obtain ⟨past, left, split, letters, aligned⟩ := trails.letters
    have link : tsr.linkState = .closed := trails.down (List.cons_ne_nil frame begun)
    have down : net.client.linkState = .closed := by
      rw [trails.session]
      exact link
    have passes : act bridge .unread net = { net with toClient := net.toClient.tail } := by
      simp only [act, apply, if_pos down]
    have later : (act bridge .unread net).Trails frames begun tsr coming := by
      rw [passes]
      refine ⟨trails.core, ⟨past ++ [frame], left, ?_, ?_, ?_⟩, fun _ => link⟩
      · rw [split, List.append_cons past]
      · rw [List.map_tail, letters]
        rfl
      · rw [← List.append_cons]
        exact aligned
    obtain ⟨reached, waits⟩ := inductionHypothesis later
    rw [List.length_cons, List.replicate_succ, Run.run_cons]
    refine ⟨reached, ?_⟩
    have here : net.HostWaits (act bridge .unread net) := by
      rw [passes]
      exact ⟨rfl, rfl⟩
    exact here.trans waits

/-- What is not read is not looked at by the machine. -/
theorem unread_finding (bridge : Bridge) (hardware : Hardware) (count : Nat) (net : Net) :
    Run.run (act bridge) (List.replicate count .unread) (net.finding hardware) =
      (Run.run (act bridge) (List.replicate count .unread) net).finding hardware := by
  induction count generalizing net with
  | zero => rfl
  | succ count inductionHypothesis =>
    have once : act bridge .unread (net.finding hardware) = (act bridge .unread net).finding hardware := by
      by_cases down : net.client.linkState = .closed
      · have same : (net.finding hardware).client.linkState = .closed := down
        rw [act, apply, apply, if_pos down, if_pos same]
        rfl
      · have same : (net.finding hardware).client.linkState ≠ .closed := down
        rw [act, apply, apply, if_neg down, if_neg same]
    rw [List.replicate_succ, Run.run_cons, Run.run_cons, once]
    exact inductionHypothesis _

end Net

end ImeBridge
