import ImeBridge.Link.Cable
import ImeBridge.Link.Receivers
import ImeBridge.Link.Transport

/-! # Bytes refine packets

Every run of `Cable` is one of `Net`, action by action, as long as the host is not given the
beginning of a packet without the rest, and no session begins inside a packet whose rest looks
like the beginning of another one.
-/

namespace ImeBridge

open Library

/-! ## The client's side -/

/-- What holds of the client between two actions. -/
structure Tsr.Between (tsr : Tsr) : Prop where
  settled : tsr.Settled
  empty : tsr.port.Holds []
  captured : tsr.port.capture = tsr.port.up
  honest : ∀ event ∈ tsr.history, event.Honest
  fits : ∀ event ∈ tsr.history, event.Fits

theorem Tsr.Between.apply {tsr : Tsr} (between : tsr.Between) (action : Action) :
    (action.apply tsr).Between := by
  have fits : ∀ event ∈ (action.apply tsr).history, event.Fits :=
    action.preserves (fun session => ∀ event ∈ session.history, event.Fits) Session.Move.fits
      (fun _ _ _ fits => List.forall_mem_append.mpr ⟨fits, by simp [Event.Fits]⟩) between.fits
  suffices port : (action.apply tsr).port.Holds [] ∧
      (action.apply tsr).port.capture = (action.apply tsr).port.up from
    ⟨action.settled tsr between.settled, port.1, port.2, action.honest tsr between.honest, fits⟩
  by_cases outside : ∃ hardware, action = .environment hardware
  · obtain ⟨hardware, rfl⟩ := outside
    exact ⟨between.empty, between.captured⟩
  · have inside : ∀ hardware, action ≠ .environment hardware := fun hardware is => outside ⟨hardware, is⟩
    obtain ⟨lost, frames⟩ := action.frames inside between.empty between.captured
    have captured := (action.port_steps tsr inside).preserves (fun _ _ step => step.captured) between.captured
    exact ⟨frames.drained, captured⟩

namespace Cable

/-- How the cable and the line are kept together.  The letters on the line are the packets of which
bytes are still to come, and the host has read as many packets as it has taken off the line. -/
structure Keeps (cable : Cable) (net : Net) : Prop where
  between : cable.client.Between
  trails : ∃ frames : List Frame, (∀ frame ∈ frames, frame.Good) ∧ cable.written = frames.map Frame.packet ∧
    (net.finding cable.client.toHardware).Trails frames [] cable.client cable.toClient
  host : net.host = cable.host
  capacity : cable.host.targetMaxTextBytes ≤ imeMaxPayload
  serving : cable.serving = true
  kept : net.arrived ≤ (posted cable.client.history).length
  consumed : cable.consumed = (((posted cable.client.history).take net.arrived).flatMap Mail.bytes).length

theorem overhang_flying {past flying : List Frame} {rest : List Byte} (cuts : Cuts past rest) :
    overhang ((past ++ flying).map Frame.packet).reverse (rest ++ flying.flatMap Frame.bytes) = rest := by
  -- From the newest packet to the oldest that is still whole.
  induction flying using List.reverseRecOn with
  | nil =>
    rw [List.append_nil, List.flatMap_nil, List.append_nil]
    cases past using List.reverseRecOn with
    | nil => rfl
    | append_singleton past frame =>
      have shorter := cuts frame List.getLast?_concat
      rw [frame.length_bytes] at shorter
      rw [List.map_append, List.reverse_append, List.map_singleton, List.reverse_singleton, List.singleton_append,
        overhang]
      exact if_neg (not_le.mpr shorter)
  | append_singleton flying frame inductionHypothesis =>
    have whole : 10 + frame.packet.payload.length = frame.bytes.length := frame.length_bytes.symm
    have fits : frame.bytes.length ≤ (rest ++ (flying ++ [frame]).flatMap Frame.bytes).length := by
      simp only [List.flatMap_append, List.flatMap_singleton, List.length_append]
      omega
    have front : (rest ++ (flying ++ [frame]).flatMap Frame.bytes).take
        ((rest ++ (flying ++ [frame]).flatMap Frame.bytes).length - frame.bytes.length) =
          rest ++ flying.flatMap Frame.bytes := by
      rw [List.flatMap_append, List.flatMap_singleton, ← List.append_assoc, List.length_append, Nat.add_sub_cancel,
        List.take_left]
    rw [← List.append_assoc, List.map_append, List.reverse_append, List.map_singleton, List.reverse_singleton,
      List.singleton_append, overhang, whole, if_pos fits, front]
    exact inductionHypothesis

variable {bridge : Bridge} {cable : Cable} {net : Net}

namespace Keeps

/-- The client has done something that the line can follow; letters left over go unread. -/
theorem client {frames begun : List Frame} {next : Tsr} {wire : List Byte} {row : List (Net.Action HostAction)}
    (keeps : cable.Keeps net) (good : ∀ frame ∈ frames, frame.Good)
    (written : cable.written = frames.map Frame.packet) (between : next.Between)
    (grows : cable.client.history <+: next.history)
    (trails : ((Run.run (Net.act bridge) row net).finding next.toHardware).Trails frames begun next
      (next.received ++ wire)) (waits : net.HostWaits (Run.run (Net.act bridge) row net)) :
    ∃ row, ({ cable with client := next, wire := wire }).Keeps (Run.run (Net.act bridge) row net) := by
  obtain ⟨reached, passes⟩ := trails.unread bridge
  refine ⟨row ++ List.replicate begun.length .unread, ?_⟩
  rw [Run.run_append]
  generalize Run.run (Net.act bridge) row net = middle at reached waits passes
  rw [Net.unread_finding] at reached passes
  generalize Run.run (Net.act bridge) (List.replicate begun.length .unread) middle = last at reached passes
  -- The client has only sent more, so what the host has read of it stays what it was.
  obtain ⟨events, history⟩ := grows
  have host : last.host = net.host := passes.host.trans waits.host
  have arrived : last.arrived = net.arrived := passes.arrived.trans waits.arrived
  have more : posted next.history =
      posted cable.client.history ++ mailing (openings cable.client.history) events := by
    rw [← history, posted_append]
  exact
    { between := between
      trails := ⟨frames, good, written, reached⟩
      host := host.trans keeps.host
      capacity := keeps.capacity
      serving := keeps.serving
      kept := by
        rw [arrived, more, List.length_append]
        exact Nat.le_add_right_of_le keeps.kept
      consumed := by
        rw [arrived, more, List.take_append_of_le_length keeps.kept]
        exact keeps.consumed }

/-- A run of the worker that starts with `held` in the ring. -/
theorem worker (keeps : cable.Keeps net) {start : Tsr} {held : List Byte}
    (core : start.core = cable.client.core) (framer : start.framer = cable.client.framer)
    (holds : start.port.Holds held) (single : held.length ≤ 1) (idle : start.linkState = .closed → held = [])
    (coming : held ++ start.received = cable.client.received)
    (between : (pc98ServiceForeground start).Between)
    (grows : cable.client.history <+: (pc98ServiceForeground start).history)
    (clean : cable.client.linkState = .closed → (beforeOpen start).Starts →
      ¬ [imeMagic0, imeMagic1] <:+: overhang cable.written.reverse cable.toClient) :
    ∃ row, ({ cable with client := pc98ServiceForeground start }).Keeps (Run.run (Net.act bridge) row net) := by
  obtain ⟨frames, good, written, trails⟩ := keeps.trails
  have session := session_of_core core
  have consistent : start.Consistent := by
    rw [session]
    exact keeps.between.settled.toConsistent
  have comes : cable.toClient = held ++ start.received ++ cable.wire := by rw [coming]; rfl
  have ready : start.linkState = .closed → (beforeOpen start).Starts →
      Net.Trails.Clean frames (start.received ++ cable.wire) := by
    -- What is still to come of a packet is the overhang.
    intro down starts past left rest split bytes cuts
    have apart := clean (session ▸ down) starts
    rw [idle down, List.nil_append] at comes
    rwa [written, split, comes, bytes, overhang_flying cuts] at apart
  rw [comes] at trails
  obtain ⟨count, begun, reached, waits⟩ := (trails.moved core framer).finding.worker (HostAction.perform bridge)
    good holds single consistent idle ready
  let row : List (Net.Action HostAction) := [.worker start.toHardware (List.replicate count none)]
  have onLine : net.HostWaits (Run.run (Net.act bridge) row net) := ⟨waits.host, waits.arrived⟩
  have follows : (Run.run (Net.act bridge) row net).Trails frames begun (pc98ServiceForeground start)
      ((pc98ServiceForeground start).received ++ cable.wire) := reached
  exact keeps.client good written between grows follows.finding onLine

/-- Outside the worker the client reads nothing. -/
theorem works (keeps : cable.Keeps net) {does : Tsr → Tsr} {action : Net.Action HostAction}
    (acts : Net.act bridge action net = (net.finding cable.client.toHardware).work does)
    (overlooks : Overlooks does) (spares : cable.client.Spares (does cable.client))
    (between : (does cable.client).Between) (grows : cable.client.history <+: (does cable.client).history) :
    ∃ row, ({ cable with client := does cable.client }).Keeps (Run.run (Net.act bridge) row net) := by
  obtain ⟨frames, good, written, trails⟩ := keeps.trails
  obtain ⟨begun, worked, -⟩ := trails.works overlooks spares
  have received : (does cable.client).received = cable.client.received := spares.kept.received
  have follows : (Run.run (Net.act bridge) [action] net).Trails frames begun (does cable.client)
      ((does cable.client).received ++ cable.wire) := by
    rw [Run.run_cons, acts, received]
    exact worked
  have onLine : net.HostWaits (Run.run (Net.act bridge) [action] net) := by
    rw [Run.run_cons, acts]
    exact ⟨rfl, rfl⟩
  exact keeps.client good written between grows follows.finding onLine

/-- The machine changes, or a byte comes to the UART. -/
theorem changes (keeps : cable.Keeps net) {hardware : Hardware} {wire : List Byte}
    (coming : hardware.received ++ wire = cable.toClient)
    (between : Tsr.Between { cable.client with toHardware := hardware }) :
    ({ cable with client := { cable.client with toHardware := hardware }, wire := wire }).Keeps net := by
  obtain ⟨frames, good, written, trails⟩ := keeps.trails
  refine ⟨between, ⟨frames, good, written, ?_⟩, keeps.host, keeps.capacity, keeps.serving, keeps.kept,
    keeps.consumed⟩
  obtain ⟨past, left, split, letters, aligned⟩ := trails.letters
  have core := (Net.finds_overlooks hardware).alike trails.core
  refine ⟨core, ⟨past, left, split, letters, ?_⟩, trails.down⟩
  rw [toClient, coming]
  exact ⟨aligned.up, aligned.down⟩

/-- An interrupt that is not the program's, or without a byte. -/
theorem chains (keeps : cable.Keeps net) {action : ImeBridge.Action}
    (same : (action.onCable cable.client).apply cable.client = cable.client) :
    ∃ row, (cable.apply bridge (.client action)).Keeps (Run.run (Net.act bridge) row net) := by
  refine ⟨[], ?_⟩
  rw [apply, same]
  exact keeps

theorem apply_client (keeps : cable.Keeps net) (action : ImeBridge.Action) (fair : cable.Fair (.client action)) :
    ∃ row, (cable.apply bridge (.client action)).Keeps (Run.run (Net.act bridge) row net) := by
  have between := keeps.between.apply (action.onCable cable.client)
  have grows := (action.onCable cable.client).grows cable.client
  cases action with
  | environment hardware => exact ⟨[], keeps.changes rfl between⟩
  | returnedHotkey =>
    have acts : Net.act bridge (.returnedHotkey cable.client.toHardware) net =
        (net.finding cable.client.toHardware).work fun tsr => (pc98ServiceReturnedHotkey tsr).2 := rfl
    exact keeps.works acts pc98ServiceReturnedHotkey_overlooks (pc98ServiceReturnedHotkey_spares cable.client)
      between grows
  | prepareUninstall =>
    have acts : Net.act bridge (.prepareUninstall cable.client.toHardware) net =
        (net.finding cable.client.toHardware).work closeIme := rfl
    exact keeps.works acts closeIme_overlooks (closeIme_spares cable.client) between grows
  | foreground =>
    refine keeps.worker rfl rfl keeps.between.empty (Nat.zero_le 1) (fun _ => rfl) rfl between grows ?_
    exact fun down starts => fair down (decide_eq_true starts)
  | serialIrq =>
    cases capture : cable.client.irqCapture with
    | false =>
      have chains : (ImeBridge.Action.serialIrq).apply cable.client = cable.client := by
        simp [Action.apply, pc98SerialIrqHook, capture]
      exact keeps.chains chains
    | true =>
      cases arrived : cable.client.received with
      | nil =>
        have chains : (ImeBridge.Action.serialIrq).apply cable.client = cable.client := by
          simp [Action.apply, pc98SerialIrqHook, capture, arrived]
        exact keeps.chains chains
      | cons value received =>
        -- The byte goes through the ring into the worker's run.
        let start := irqStore value { cable.client with received := received }
        have applies : (ImeBridge.Action.serialIrq).apply cable.client = pc98ServiceForeground start := by
          simp [Action.apply, pc98SerialIrqHook, capture, arrived, start]
        have up : cable.client.linkState ≠ .closed := by
          have isUp : cable.client.port.up = true := keeps.between.captured ▸ capture
          simpa [Tsr.port] using isUp
        obtain ⟨stored, holds⟩ :=
          irqStore_holds value { cable.client with received := received } keeps.between.empty
        obtain ⟨core, framer⟩ := irqStore_core value { cable.client with received := received }
        have left : start.received = received := congrArg Port.received stored
        have link : start.linkState = cable.client.linkState := congrArg Session.linkState (session_of_core core)
        have comes : [value] ++ start.received = cable.client.received := by rw [left, arrived]; rfl
        obtain ⟨row, kept⟩ := keeps.worker core framer holds le_rfl (fun down => absurd (link.symm.trans down) up)
          comes (applies ▸ between) (applies ▸ grows) (fun down => absurd down up)
        refine ⟨row, ?_⟩
        rw [← applies] at kept
        exact kept

/-! ## The bytes and the host -/

theorem apply_arrives (keeps : cable.Keeps net) : (cable.apply bridge .arrives).Keeps net := by
  simp only [apply]
  split
  · exact keeps
  · rename_i value wire coming
    have same : cable.client.received ++ [value] ++ wire = cable.toClient := by
      rw [toClient, coming, List.append_assoc]
      rfl
    have between := keeps.between
    let hardware : Hardware := { cable.client.toHardware with received := cable.client.received ++ [value] }
    have fits : Tsr.Between { cable.client with toHardware := hardware } :=
      ⟨between.settled, between.empty, between.captured, between.honest, between.fits⟩
    exact keeps.changes same fits

/-- Of a byte that is lost the packet is lost as well. -/
theorem drops (keeps : cable.Keeps net) (down : cable.client.linkState = .closed) {received wire : List Byte}
    (coming : received ++ wire = cable.toClient.drop 1) :
    ∃ row, ({ cable with client := { cable.client with received := received }, wire := wire }).Keeps
      (Run.run (Net.act bridge) row net) := by
  obtain ⟨frames, good, written, trails⟩ := keeps.trails
  obtain ⟨begun, dropped⟩ := trails.drop down 1
  rw [← coming] at dropped
  let next : Tsr := { cable.client with received := received }
  have between : next.Between :=
    ⟨keeps.between.settled, keeps.between.empty, keeps.between.captured, keeps.between.honest, keeps.between.fits⟩
  have left := (@Net.Trails.moved _ _ _ _ _ next dropped rfl rfl).finding
  exact @client bridge cable net frames _ next wire [] keeps good written between List.prefix_rfl left (.refl net)

theorem apply_lost (keeps : cable.Keeps net) :
    ∃ row, (cable.apply bridge .lost).Keeps (Run.run (Net.act bridge) row net) := by
  simp only [apply]
  split
  · rename_i down
    split
    · rename_i none
      refine keeps.drops down ?_
      rw [toClient, none, List.nil_append, List.nil_append, List.drop_one]
    · rename_i value received arrived
      refine keeps.drops down ?_
      rw [toClient, arrived]
      rfl
  · exact ⟨[], keeps⟩

/-- The bytes the host has not read are those of the packets on their way to it. -/
theorem toHost_bytes (keeps : cable.Keeps net) (whole : cable.client.SendsWhole) :
    cable.toHost = (((posted cable.client.history).drop net.arrived).flatMap Mail.bytes) := by
  have bytes : (posted cable.client.history).flatMap Mail.bytes =
      ((posted cable.client.history).take net.arrived).flatMap Mail.bytes ++
        ((posted cable.client.history).drop net.arrived).flatMap Mail.bytes := by
    rw [← List.flatMap_append, List.take_append_drop]
  rw [toHost, bytes_posted keeps.between.honest whole, keeps.consumed, bytes, List.drop_left]

theorem session (keeps : cable.Keeps net) : net.client.toSession = cable.client.toSession := by
  obtain ⟨frames, good, written, trails⟩ := keeps.trails
  exact trails.session

/-- The host writes a packet, byte by byte on the cable and whole on the line. -/
theorem writes (keeps : cable.Keeps net) {packet : Packet} (fits : packet.payload.length ≤ imeMaxPayload)
    {next : Net} {host : Host} {consumed : Nat} (client : next.client = net.client)
    (letters : next.toClient.map (·.packet) = net.toClient.map (·.packet) ++ [packet])
    (sameHost : next.host = host) (capacity : host.targetMaxTextBytes ≤ imeMaxPayload)
    (kept : next.arrived ≤ (posted cable.client.history).length)
    (read : consumed = (((posted cable.client.history).take next.arrived).flatMap Mail.bytes).length) :
    Keeps (puts packet (packet.frame fits).bytes { cable with host := host, consumed := consumed }) next := by
  obtain ⟨frames, good, written, trails⟩ := keeps.trails
  refine ⟨keeps.between, ⟨frames ++ [packet.frame fits], ?_, ?_, ?_⟩, sameHost, capacity, keeps.serving, kept,
    read⟩
  · exact List.forall_mem_append.mpr ⟨good, List.forall_mem_singleton.mpr (packet.frame_good fits)⟩
  · rw [List.map_append, ← written]
    rfl
  · have behind :
        toClient (puts packet (packet.frame fits).bytes { cable with host := host, consumed := consumed }) =
          cable.toClient ++ (packet.frame fits).bytes := (List.append_assoc _ _ _).symm
    rw [behind]
    refine Net.Trails.write trails ?_ letters
    rw [Net.finding, Net.finding, client]
    rfl

/-- The host has done something without writing. -/
theorem silent (keeps : cable.Keeps net) {next : Net} {host : Host} {consumed : Nat}
    (client : next.client = net.client) (letters : next.toClient = net.toClient) (sameHost : next.host = host)
    (capacity : host.targetMaxTextBytes ≤ imeMaxPayload)
    (kept : next.arrived ≤ (posted cable.client.history).length)
    (read : consumed = (((posted cable.client.history).take next.arrived).flatMap Mail.bytes).length) :
    Keeps { cable with host := host, consumed := consumed } next := by
  obtain ⟨frames, good, written, trails⟩ := keeps.trails
  refine ⟨keeps.between, ⟨frames, good, written, ?_⟩, sameHost, capacity, keeps.serving, kept, read⟩
  have core : (next.finding cable.client.toHardware).client.core = cable.client.core := by
    rw [Net.finding, client]
    exact trails.core
  refine ⟨core, ?_, trails.down⟩
  have same : (next.finding cable.client.toHardware).toClient = (net.finding cable.client.toHardware).toClient :=
    letters
  rw [same]
  exact trails.letters

theorem apply_serve (keeps : cable.Keeps net) (whole : cable.client.SendsWhole) :
    ∃ row, (cable.apply bridge .serve).Keeps (Run.run (Net.act bridge) row net) := by
  have bytes := keeps.toHost_bytes whole
  have turn : cable.apply bridge .serve = cable.serve bridge := if_pos keeps.serving
  rw [turn, serve]
  cases waiting : (posted cable.client.history).drop net.arrived with
  | nil =>
    rw [waiting] at bytes
    rw [bytes]
    exact ⟨[], keeps⟩
  | cons mail rest =>
    rw [waiting, List.flatMap_cons] at bytes
    have fits : mail.packet.payload.length ≤ imeMaxPayload :=
      mailing_fits keeps.between.fits 0 mail (List.mem_of_mem_drop (waiting ▸ List.mem_cons_self))
    -- The stream begins with the oldest packet that was posted, whole.
    have read : BridgeForm.readPacketAsync cable.toHost = .ok (mail.packet, rest.flatMap Mail.bytes) := by
      rw [bytes, Mail.bytes, imePacketBuild_eq _ _ _ fits]
      exact (@readPacketAsync_noise [] (by simp) mail.packet fits _).mpr Even.zero
    have one : (posted cable.client.history).take (net.arrived + 1) =
        (posted cable.client.history).take net.arrived ++ [mail] := by
      rw [List.take_add_one, ← List.head?_drop, waiting]
      rfl
    have more : net.arrived + 1 ≤ (posted cable.client.history).length := by
      have left := congrArg List.length waiting
      rw [List.length_drop, List.length_cons] at left
      omega
    have taken : cable.consumed + (cable.toHost.length - (rest.flatMap Mail.bytes).length) =
        (((posted cable.client.history).take (net.arrived + 1)).flatMap Mail.bytes).length := by
      rw [one, List.flatMap_append, List.length_append, ← keeps.consumed, bytes, List.length_append,
        List.flatMap_singleton, Nat.add_sub_cancel]
    have onLine : net.toHost net.client.history = mail :: rest := by
      rw [keeps.session]
      exact waiting
    -- The same turn on the line.
    let next := Net.act bridge (.outside .serve) net
    have serves : next.toLine = net.toLine.serve bridge net.client.history := rfl
    have host : next.host = (serveAsync bridge mail.packet cable.host).2 := by
      rw [serves, Line.serve_host net.toLine onLine, keeps.host]
    have letters : (net.toLine.serve bridge net.client.history).toClient = _ :=
      Line.serve_toClient net.toLine onLine
    have arrived : next.arrived = net.arrived + 1 := by
      rw [serves, Line.serve_cons net.toLine onLine, Line.write_arrived]
    have capacity := serveAsync_capacity bridge mail.packet keeps.capacity
    rw [← serves, keeps.host] at letters
    rw [← arrived] at more taken
    refine ⟨[.outside .serve], ?_⟩
    rw [read]
    dsimp only
    cases answers : (serveAsync bridge mail.packet cable.host).1 with
    | none =>
      rw [answers] at letters
      exact keeps.silent rfl (by simpa using letters) host capacity more taken
    | some answer =>
      have short := serveAsync_fits bridge mail.packet keeps.capacity answers
      rw [answers] at letters
      have behind : next.toClient.map (·.packet) = net.toClient.map (·.packet) ++ [answer] := by
        rw [letters, List.map_append]
        rfl
      simp only [CSharp.encode_eq answer short]
      exact keeps.writes short rfl behind host capacity more taken

theorem apply_user (keeps : cable.Keeps net) (action : UserAction) :
    ∃ row, (cable.apply bridge (.user action)).Keeps (Run.run (Net.act bridge) row net) := by
  have turn : cable.apply bridge (.user action) = cable.perform bridge action := if_pos keeps.serving
  let next := Net.act bridge (.outside (.user action)) net
  have performs : next.toLine = net.toLine.perform bridge action := rfl
  rw [turn, perform]
  obtain same | ⟨ready, packet, writes, sends⟩ := ImeBridge.perform_cases bridge action cable.host
  · rw [same]
    exact ⟨[], keeps⟩
  · have short := writes.fits keeps.capacity
    refine ⟨[.outside (.user action)], ?_⟩
    rw [sends]
    simp only [CSharp.encode_eq packet short]
    have line : next.toLine =
        Line.write (some packet) { net.toLine with host := { cable.host with imeReady := false } } := by
      rw [performs, Line.perform, keeps.host, sends]
    have letters :=
      Line.write_toClient { net.toLine with host := { cable.host with imeReady := false } } (some packet)
    rw [← line] at letters
    have host : next.host = { cable.host with imeReady := false } := by rw [line, Line.write_host]
    have arrived : next.arrived = net.arrived := by rw [line, Line.write_arrived]
    have behind : next.toClient.map (·.packet) = net.toClient.map (·.packet) ++ [packet] := by
      rw [letters, List.map_append]
      rfl
    have kept := keeps.kept
    have read := keeps.consumed
    rw [← arrived] at kept read
    exact keeps.writes short rfl behind host keeps.capacity kept read

end Keeps

theorem Keeps.apply (keeps : cable.Keeps net) (action : Action) (fair : cable.Fair action) :
    ∃ row, (cable.apply bridge action).Keeps (Run.run (Net.act bridge) row net) := by
  cases action with
  | client action => exact keeps.apply_client action fair
  | arrives => exact ⟨[], keeps.apply_arrives⟩
  | lost => exact keeps.apply_lost
  | serve => exact keeps.apply_serve fair
  | user action => exact keeps.apply_user action

theorem Keeps.start (modifierMask : Byte) (hardware : Hardware) :
    (start modifierMask hardware).Keeps (Net.start modifierMask hardware) where
  between :=
    ⟨cleared_settled modifierMask _, rfl, rfl, by simp [Cable.start, cleared], by simp [Cable.start, cleared]⟩
  trails :=
    ⟨[], by simp, rfl, rfl, ⟨[], [], rfl, rfl, fun _ => @Carries.whole [] [], fun _ => ⟨rfl, [], rfl, .whole []⟩⟩,
      fun some => absurd rfl some⟩
  host := rfl
  capacity := le_rfl
  serving := rfl
  kept := Nat.zero_le _
  consumed := rfl

end Cable

open Cable in
/-- Bytes refine packets: as long as the host reads whole packets only and no session wakes to the rest of
a packet that looks like the beginning of one, a run on bytes is one on packets, a row of actions
for each of its own, after each of which the session and the host are the same; and the host never meets a
packet it cannot read. -/
theorem bytes_refine_packets (bridge : Bridge) (modifierMask : Byte) (hardware : Hardware)
    (actions : List Cable.Action)
    (fair : Run.AllSteps (Cable.apply bridge) Fair actions (Cable.start modifierMask hardware)) :
    ∃ rows : List (List (Net.Action HostAction)), rows.length = actions.length ∧ ∀ count,
      let cable := Run.run (Cable.apply bridge) (actions.take count) (Cable.start modifierMask hardware)
      let net := Run.run (Net.act bridge) (rows.take count).flatten (Net.start modifierMask hardware)
      net.client.toSession = cable.client.toSession ∧ net.host = cable.host ∧ cable.serving = true := by
  obtain ⟨rows, length, related⟩ := Run.run_simulated (Cable.apply bridge)
    (fun cable action net keeps fair => keeps.apply action fair) (Keeps.start modifierMask hardware) fair
  refine ⟨rows, length, fun count => ?_⟩
  exact ⟨(related count).session, (related count).host, (related count).serving⟩

/-- Three bytes of the first PONG come before the hotkey ends the session, and one is lost; the session behind
it wakes to the last six. -/
def wokenInside : List Cable.Action :=
  let held : List Cable.Action :=
    [.client (.environment (hotkeyHeld (machine 16#8 []))), .client .returnedHotkey]
  let begins : List Cable.Action := [.client (.environment (machine 16#8 [])), .client .foreground, .serve]
  let byte : List Cable.Action := [.arrives, .client .serialIrq]
  held ++ begins ++ byte ++ byte ++ byte ++ held ++ [.arrives, .lost] ++ held ++ begins ++
    List.replicate 16 .arrives ++ [.client .foreground, .serve]

theorem bytes_refine_packets_woken :
    let cable := Run.run (Cable.apply plainBridge) wokenInside (Cable.start 0x01#8 {})
    cable.client.imeActive = true ∧ cable.host.imeReady = true ∧
      ∃ rows : List (List (Net.Action HostAction)), rows.length = wokenInside.length ∧ ∀ count,
        let cable := Run.run (Cable.apply plainBridge) (wokenInside.take count) (Cable.start 0x01#8 {})
        let net := Run.run (Net.act plainBridge) (rows.take count).flatten (Net.start 0x01#8 {})
        net.client.toSession = cable.client.toSession ∧ net.host = cable.host ∧ cable.serving = true :=
  ⟨by decide +kernel, by decide +kernel,
    bytes_refine_packets plainBridge 0x01#8 {} wokenInside (by decide +kernel)⟩

end ImeBridge
