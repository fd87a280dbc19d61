import ImeBridge.Device.Control

/-! # What the programs leave behind

Whatever programs use IME98$ one after the other, each gives back its handle, takes its open
off the count again and ends its session.
-/

namespace ImeBridge.Device

open Library

/-! ## The requests -/

namespace Kernel

variable (kernel : Kernel) (number : Nat)

theorem ask_openDevice : (kernel.request number .openDevice).ask = .opened :=
  (Call.opened_iff _).mpr (kernel.command_request number .openDevice)

theorem ask_closeDevice : (kernel.request number .closeDevice).ask = .closed :=
  (Call.closed_iff _).mpr (kernel.command_request number .closeDevice)

theorem ask_ioctlInput : (kernel.request number (.ioctlInput 8#16)).ask = .queried := by
  have input := kernel.command_request number (.ioctlInput 8#16)
  have length := kernel.length_request number (.ioctlInput 8#16) (.inl input)
  refine (Call.queried_iff _).mpr ⟨input, ?_⟩
  rw [length]
  decide

theorem ask_ioctlOutput {command : Byte} (known : command ≤ 2#8) :
    (kernel.request number (.ioctlOutput (commandPacket command))).ask = .sent command := by
  have output := kernel.command_request number (.ioctlOutput (commandPacket command))
  have length := kernel.length_request number (.ioctlOutput (commandPacket command)) (.inr output)
  have bytes := kernel.buffer_request number (commandPacket command) (by simp [commandPacket])
  dsimp only at bytes
  generalize kernel.request number (.ioctlOutput (commandPacket command)) = request at *
  -- The packet stands in the buffer byte by byte.
  simp only [commandPacket, List.length_cons, List.length_nil, RealMemory.readBytes, List.range_succ,
    List.range_zero, List.nil_append, List.map_cons, List.map_nil, List.cons_append,
    List.cons.injEq, and_true] at bytes
  obtain ⟨first, second, third, version, asked⟩ := bytes
  have signed : request.toCall.Signed := (Call.signed_iff _).mpr ⟨first, second, third, version⟩
  have packet : request.toCall.packetCommand = command := asked
  have enough : ¬ request.toCall.length < 5#16 := by
    rw [length]
    simp [DosCall.length, commandPacket]
  have unknown : ¬ command > 2#8 := BitVec.not_lt.mpr known
  rw [Call.ask_output output, if_neg enough, if_neg (not_not.mpr signed), packet, if_neg unknown]

end Kernel

namespace Station

variable {kernel : Kernel} {station : Station}

theorem serve_state (call : DosCall) :
    (station.serve kernel call).2.driver.toDriverState =
      (kernel.request station.calls call).ask.next station.driver.toDriverState :=
  (station.driver.serve_answers kernel.image (kernel.request station.calls call).toCall).state

/-- An IOCTL that asks for something the driver knows. -/
theorem ioctl_accepted {call : DosCall} {handle : Word} (opened : handle ∈ station.handles)
    (ioctl : (kernel.request station.calls call).IsIoctl)
    (known : ∀ refusal, (kernel.request station.calls call).ask ≠ .refused refusal) :
    (station.ioctl kernel call handle).1 =
        some (kernel.ax station.calls (kernel.request station.calls call).ask.count,
          (station.serve kernel call).1.buffer) ∧
      (station.ioctl kernel call handle).2 = (station.serve kernel call).2 := by
  have succeeds : ¬ (station.serve kernel call).1.Failed := by
    rintro failed
    obtain ⟨refusal, asks⟩ := (station.driver.serve_failed_iff kernel.image
      (kernel.request station.calls call).toCall).mp failed
    exact known refusal asks
  have count : (station.serve kernel call).1.count = (kernel.request station.calls call).ask.count :=
    (station.driver.serve_answers kernel.image (kernel.request station.calls call).toCall).count ioctl
  rw [Station.ioctl, if_pos opened]
  dsimp only
  rw [if_neg succeeds, count]
  exact ⟨rfl, rfl⟩

/-- A program has a handle open, beside these. -/
structure Holds (handle : Word) (handles : List Word) (state : DriverState) (station : Station) : Prop where
  handles_eq : station.handles = handle :: handles
  state_eq : station.driver.toDriverState = state

variable {handle : Word} {handles : List Word} {state : DriverState}

theorem Holds.opened (holds : station.Holds handle handles state) : handle ∈ station.handles := by
  rw [holds.handles_eq]
  exact List.mem_cons_self

theorem openHandle_spec :
    (kernel.handle station.calls station.handles = none ∧ (station.openHandle kernel).1 = none ∧
        (station.openHandle kernel).2.handles = station.handles ∧
        (station.openHandle kernel).2.driver = station.driver) ∨
      ∃ handle, kernel.handle station.calls station.handles = some handle ∧
        (station.openHandle kernel).1 = some handle ∧
        (station.openHandle kernel).2.Holds handle station.handles
          (Ask.opened.next station.driver.toDriverState) := by
  unfold openHandle
  cases found : kernel.handle station.calls station.handles with
  | none => exact .inl ⟨rfl, rfl, rfl, rfl⟩
  | some handle =>
    refine .inr ⟨handle, rfl, rfl, rfl, ?_⟩
    rw [← kernel.ask_openDevice station.calls]
    exact serve_state .openDevice

/-- An accepted command. -/
theorem Holds.command (holds : station.Holds handle handles state) {command : Byte} (known : command ≤ 2#8) :
    ∃ buffer, (station.ioctl kernel (.ioctlOutput (commandPacket command)) handle).1 =
        some (kernel.ax station.calls 5#16, buffer) ∧
      (station.ioctl kernel (.ioctlOutput (commandPacket command)) handle).2.Holds handle handles
        ((Ask.sent command).next state) := by
  have asks := kernel.ask_ioctlOutput station.calls known
  obtain ⟨answer, next⟩ := @ioctl_accepted kernel station (.ioctlOutput (commandPacket command)) handle
    holds.opened (.inr (kernel.command_request _ _)) (by simp [asks])
  rw [asks] at answer
  refine ⟨_, answer, ?_, ?_⟩
  · rw [next]
    exact holds.handles_eq
  · rw [next, serve_state, asks, holds.state_eq]

/-- A query changes nothing. -/
theorem Holds.query (holds : station.Holds handle handles state) :
    (station.ioctl kernel (.ioctlInput 8#16) handle).1 = some (kernel.ax station.calls 8#16, state.packet) ∧
      (station.ioctl kernel (.ioctlInput 8#16) handle).2.Holds handle handles state := by
  have asks := kernel.ask_ioctlInput station.calls
  obtain ⟨answer, next⟩ := @ioctl_accepted kernel station (.ioctlInput 8#16) handle holds.opened
    (.inl (kernel.command_request _ _)) (by simp [asks])
  have packet := station.driver.serve_packet kernel.image (kernel.request station.calls (.ioctlInput 8#16)) asks
  rw [asks] at answer
  refine ⟨?_, ?_, ?_⟩
  · rw [answer, ← holds.state_eq]
    exact congrArg (fun buffer => some (_, buffer)) packet
  · rw [next]
    exact holds.handles_eq
  · rw [next, serve_state, asks, holds.state_eq]
    rfl

theorem Holds.close (holds : station.Holds handle handles state) :
    (station.closeHandle kernel handle).handles = handles ∧
      (station.closeHandle kernel handle).driver.toDriverState = Ask.closed.next state := by
  rw [closeHandle, if_pos holds.opened]
  refine ⟨?_, ?_⟩
  · dsimp only
    rw [holds.handles_eq, List.erase_cons_head]
  · rw [← kernel.ask_closeDevice station.calls, ← holds.state_eq]
    exact serve_state .closeDevice

end Station

namespace Desk

variable {kernel : Kernel} {desk : Desk} {handles : List Word} {state : DriverState}

/-- `ime98_control_open` has succeeded. -/
structure Active (handles : List Word) (state : DriverState) (desk : Desk) : Prop where
  isOpen : desk.deviceIsOpen = true
  holds : desk.toStation.Holds desk.deviceHandle handles state

theorem ime98ControlOpen_spec :
    (kernel.handle desk.calls desk.handles = none ∧ (desk.ime98ControlOpen kernel).1 = false ∧
        (desk.ime98ControlOpen kernel).2.handles = desk.handles ∧
        (desk.ime98ControlOpen kernel).2.driver = desk.driver) ∨
      ((kernel.handle desk.calls desk.handles).isSome = true ∧ (desk.ime98ControlOpen kernel).1 = true ∧
        (desk.ime98ControlOpen kernel).2.Active desk.handles (Ask.opened.next desk.driver.toDriverState)) := by
  have opens := @Station.openHandle_spec kernel desk.toStation
  unfold ime98ControlOpen
  dsimp only
  generalize desk.openHandle kernel = outcome at opens ⊢
  obtain ⟨result, station⟩ := outcome
  rcases opens with ⟨none, rfl, same⟩ | ⟨handle, some, rfl, holds⟩
  · exact .inl ⟨none, rfl, same⟩
  · exact .inr ⟨by rw [some]; rfl, rfl, rfl, holds⟩

theorem Active.command (active : desk.Active handles state) {command : Byte} (known : command ≤ 2#8) :
    (desk.ime98ControlCommand kernel command).1 = true ∧
      (desk.ime98ControlCommand kernel command).2.Active handles ((Ask.sent command).next state) := by
  obtain ⟨buffer, answer, holds⟩ := @Station.Holds.command kernel _ _ _ _ active.holds command known
  simp only [ime98ControlCommand, active.isOpen, Bool.not_true, Bool.false_eq_true, if_false]
  rw [commandPacket] at answer holds
  rw [answer]
  exact ⟨rfl, active.isOpen, holds⟩

theorem Active.closeSession (active : desk.Active handles state) :
    (desk.closeSession kernel).handles = handles ∧
      (desk.closeSession kernel).driver.toDriverState = Ask.closed.next ((Ask.sent 2#8).next state) := by
  have closing := (@Active.command kernel _ _ _ active 2#8 (by decide)).2
  unfold Desk.closeSession
  generalize (desk.ime98ControlCommand kernel 2#8).2 = ending at closing ⊢
  rw [ime98ControlClose, closing.isOpen]
  exact closing.holds.close

end Desk

/-! ## A program from its start to its end -/

/-- Opened, with a session begun and ended, and closed. -/
def DriverState.used (state : DriverState) : DriverState :=
  Ask.closed.next ((Ask.sent 2#8).next ((Ask.sent 1#8).next (Ask.opened.next state)))

/-- An open that the count has no room for is not counted, and its close is. -/
theorem DriverState.used_eq (state : DriverState) :
    state.used = ⟨if state.openCount = 0xff#8 then 0xfe#8 else state.openCount, 2#8, 0#8⟩ := by
  obtain ⟨openCount, lastCommand, sessionState⟩ := state
  by_cases full : openCount = 0xff#8
  · subst full
    simp [used, Ask.next]
  · have counted : openCount + 1#8 ≠ 0#8 := by bv_omega
    have back : openCount + 1#8 - 1#8 = openCount := by bv_omega
    simp [used, Ask.next, full, counted, back]

section Programs

variable {kernel : Kernel}

/-- With a session of IME98$ the client does what it does, and each way out ends the session. -/
theorem receiveText_eq (surroundings : Surroundings) (client : Client) {desk opened working : Desk}
    (opens : desk.ime98ControlOpen kernel = (true, opened))
    (begins : opened.ime98ControlCommand kernel 1#8 = (true, working)) :
    receiveText kernel client desk =
      match Surroundings.receiveText { surroundings with controlOpens := true, sessionOpens := true } client with
      | (none, client) => (none, client, working.closeSession kernel)
      | (some text, client) => (some text, client, working) := by
  simp only [receiveText, Surroundings.receiveText, opens, begins, Bool.not_true, Bool.false_eq_true, if_false]
  generalize client.serialOpen.helloExchange = greeted
  obtain ⟨answered, client⟩ := greeted
  cases answered with
  | false => rfl
  | true =>
    dsimp only
    generalize client.exchange imePing 2#16 = pinged
    obtain ⟨_ | answer, client⟩ := pinged
    · rfl
    dsimp only
    split
    · rfl
    generalize client.exchange imeOpenIme 3#16 = texted
    obtain ⟨_ | answer, client⟩ := texted
    · rfl
    dsimp only
    split
    · rfl
    · rfl

/-- Behind the TEXT it does not matter how the client came to it. -/
theorem verifyLoop_granted (surroundings : Surroundings) (text : List Byte) (fuel input call : Nat)
    (memory : Memory) :
    Surroundings.verifyLoop { surroundings with controlOpens := true, sessionOpens := true } text fuel input call
      memory = surroundings.verifyLoop text fuel input call memory := by
  induction fuel generalizing input call memory with
  | zero => rfl
  | succ fuel inductionHypothesis => simp only [Surroundings.verifyLoop, inductionHypothesis]

theorem acknowledge_granted (surroundings : Surroundings) (verifyInjection : Bool) (text : List Byte)
    (client : Client) :
    Surroundings.acknowledge { surroundings with controlOpens := true, sessionOpens := true } verifyInjection text
      client = surroundings.acknowledge verifyInjection text client := by
  simp only [Surroundings.acknowledge, Surroundings.pc98BiosInjectVerify, verifyLoop_granted]
  rfl

theorem acknowledge_eq (surroundings : Surroundings) (verifyInjection : Bool) (text : List Byte)
    (client : Client) (desk : Desk) :
    acknowledge kernel surroundings verifyInjection text client desk =
      ((surroundings.acknowledge verifyInjection text client).1,
        (surroundings.acknowledge verifyInjection text client).2, desk.closeSession kernel) := by
  simp only [acknowledge, Surroundings.acknowledge]
  generalize Client.serialWrite _ _ _ = written
  obtain ⟨succeeded, client⟩ := written
  cases succeeded with
  | false => rfl
  | true =>
    cases verifyInjection with
    | true => rfl
    | false =>
      simp only [Bool.false_eq_true, if_false, Bool.not_true]
      generalize surroundings.inject text client.serialClose = injected
      obtain ⟨queued, client⟩ := injected
      cases queued <;> rfl

/-- The client asks the driver for its session, and whatever becomes of it, ends that session
and closes the device. -/
theorem clientMain_spec (surroundings : Surroundings) (argv : List (List Byte)) (desk : Desk) :
    let opened := (kernel.handle desk.calls desk.handles).isSome
    let run := clientMain kernel surroundings argv desk
    (run.1, run.2.1) =
        Surroundings.main { surroundings with controlOpens := opened, sessionOpens := true } argv ∧
      run.2.2.handles = desk.handles ∧
      run.2.2.driver.toDriverState =
        if opened then desk.driver.used else desk.driver.toDriverState := by
  intro opened run
  rcases @Desk.ime98ControlOpen_spec kernel desk with ⟨none, fails, handles, driver⟩ | ⟨some, succeeds, active⟩
  · have absent : opened = false := by simp [opened, none]
    have gives : run = (1, surroundings.start, (desk.ime98ControlOpen kernel).2) := by
      simp only [run, clientMain, receiveText]
      rw [← Prod.mk.eta (p := desk.ime98ControlOpen kernel), fails]
    rw [gives, absent]
    exact ⟨rfl, handles, congrArg _ driver⟩
  · have present : opened = true := some
    obtain ⟨begins, working⟩ := @Desk.Active.command kernel _ _ _ active 1#8 (by decide)
    obtain ⟨handles, state⟩ := @Desk.Active.closeSession kernel _ _ _ working
    have received := @receiveText_eq kernel surroundings surroundings.start desk _ _
      (Prod.ext succeeds rfl) (Prod.ext begins rfl)
    rw [present]
    simp only [run, clientMain, Surroundings.main, received]
    have start : surroundings.start =
      Surroundings.start { surroundings with controlOpens := true, sessionOpens := true } := rfl
    rw [start]
    generalize Surroundings.receiveText { surroundings with controlOpens := true, sessionOpens := true } _ = answer
    obtain ⟨_ | text, client⟩ := answer
    · exact ⟨rfl, handles, state⟩
    · dsimp only
      rw [acknowledge_eq, acknowledge_granted]
      exact ⟨rfl, handles, state⟩

/-- Behind an open the count is not 0. -/
theorem packet_ok (state : DriverState) : StatusOk ((Ask.sent 1#8).next (Ask.opened.next state)).packet := by
  have opened := Ask.openCount_opened state
  have some : (Ask.opened.next state).openCount ≠ 0#8 := by
    intro none
    rw [none] at opened
    have zero : (0#8 : Byte).toNat = 0 := rfl
    omega
  exact ⟨rfl, rfl, rfl, rfl, some, rfl, rfl⟩

/-- The device test passes, where DOS returns the counts. -/
theorem deviceTest_spec (counts : ∀ number count, kernel.ax number count = count) (station : Station) :
    let opened := (kernel.handle station.calls station.handles).isSome
    let run := deviceTest kernel station
    run.1 = (if opened then 0 else 1) ∧ run.2.2.handles = station.handles ∧
      run.2.2.driver.toDriverState =
        if opened then station.driver.used else station.driver.toDriverState := by
  intro opened run
  rcases @Station.openHandle_spec kernel station with
    ⟨none, fails, handles, driver⟩ | ⟨handle, some, succeeds, active⟩
  · have absent : opened = false := by simp [opened, none]
    have gives : run.1 = 1 ∧ run.2.2 = (station.openHandle kernel).2 := by
      simp only [run, deviceTest]
      rw [← Prod.mk.eta (p := station.openHandle kernel), fails]
      exact ⟨rfl, rfl⟩
    rw [gives.1, gives.2, absent]
    exact ⟨rfl, handles, congrArg _ driver⟩
  · have present : opened = true := by simp [opened, some]
    simp only [run, deviceTest]
    generalize station.openHandle kernel = opening at succeeds active
    obtain ⟨result, busy⟩ := opening
    obtain rfl : result = Option.some handle := succeeds
    obtain ⟨_, answered, begun⟩ := @Station.Holds.command kernel _ _ _ _ active 1#8 (by decide)
    dsimp only at answered begun ⊢
    generalize busy.ioctl kernel (.ioctlOutput (commandPacket 1#8)) handle = beginning at answered begun
    obtain ⟨result, working⟩ := beginning
    obtain rfl := answered
    rw [counts]
    obtain ⟨queried, asked⟩ := @Station.Holds.query kernel _ _ _ _ begun
    dsimp only at queried asked ⊢
    generalize working.ioctl kernel (.ioctlInput 8#16) handle = querying at queried asked
    obtain ⟨result, known⟩ := querying
    obtain rfl := queried
    rw [counts]
    have good := packet_ok station.driver.toDriverState
    obtain ⟨_, ended, ending⟩ := @Station.Holds.command kernel _ _ _ _ asked 2#8 (by decide)
    dsimp only at ended ending ⊢
    simp only [ne_eq, not_true_eq_false, good, or_self, if_false]
    generalize known.ioctl kernel (.ioctlOutput (commandPacket 2#8)) handle = closing at ended ending
    obtain ⟨result, done⟩ := closing
    obtain rfl := ended
    simp only [counts, not_true_eq_false, if_false, present, if_true]
    exact ⟨trivial, ending.close⟩

end Programs

/-! ## One program after the other -/

inductive DeviceProgram where
  /-- IME98.COM, with what stands in the variables of `ime98_control.c` when it is loaded. -/
  | client (surroundings : Surroundings) (argv : List (List Byte)) (control : Control)
  | test

namespace DeviceProgram

/-- The exit code, and what the program leaves. -/
def run (kernel : Kernel) (program : DeviceProgram) (station : Station) : Nat × Station :=
  match program with
  | .client surroundings argv control =>
    let (code, _, desk) := clientMain kernel surroundings argv { toStation := station, toControl := control }
    (code, desk.toStation)
  | .test =>
    let (code, _, station) := deviceTest kernel station
    (code, station)

def leaves (kernel : Kernel) (program : DeviceProgram) (station : Station) : Station := (program.run kernel station).2

/-- The exit code when the device can be opened, or not: the driver refuses neither the session
nor the test. -/
def code (opened : Bool) : DeviceProgram → Nat
  | .client surroundings argv _ =>
    (Surroundings.main { surroundings with controlOpens := opened, sessionOpens := true } argv).1
  | .test => if opened then 0 else 1

theorem run_spec {kernel : Kernel} (program : DeviceProgram) (station : Station)
    (counts : program = .test → ∀ number count, kernel.ax number count = count) :
    let opened := (kernel.handle station.calls station.handles).isSome
    (program.run kernel station).1 = program.code opened ∧
      (program.run kernel station).2.handles = station.handles ∧
      (program.run kernel station).2.driver.toDriverState =
        if opened then station.driver.used else station.driver.toDriverState := by
  cases program with
  | client surroundings argv control =>
    obtain ⟨same, handles, state⟩ := @clientMain_spec kernel surroundings argv ⟨station, control⟩
    exact ⟨congrArg Prod.fst same, handles, state⟩
  | test => exact deviceTest_spec (counts rfl) station

end DeviceProgram

/-- Whatever uses IME98$ from a state without a session and with room on its count, and however
often: afterwards no handle is left open, the count of opens is what it was, and no session is
left; the driver refuses no session, and the device test passes whenever it can open the
device.  Where the device test is run at all, DOS has to return the counts it is given: a test
that finds another one leaves its session behind. -/
theorem programs_release_device (kernel : Kernel) (programs : List DeviceProgram) (program : DeviceProgram)
    (counts : .test ∈ program :: programs → ∀ number count, kernel.ax number count = count) (station : Station)
    (room : station.driver.openCount ≠ 0xff#8) (idle : station.driver.sessionState = 0#8) :
    let reached := Run.run (DeviceProgram.leaves kernel) programs station
    reached.handles = station.handles ∧ reached.driver.openCount = station.driver.openCount ∧
      reached.driver.sessionState = 0#8 ∧
      (program.run kernel reached).1 = program.code (kernel.handle reached.calls reached.handles).isSome := by
  intro reached
  have kept : reached.handles = station.handles ∧ reached.driver.openCount = station.driver.openCount ∧
      reached.driver.sessionState = 0#8 := by
    have all : ∀ other ∈ programs, other = .test → ∀ number count, kernel.ax number count = count :=
      fun other member isTest => counts (isTest ▸ List.mem_cons_of_mem _ member)
    clear counts
    -- Each program gives back what it took.
    induction programs generalizing station with
    | nil => exact ⟨rfl, rfl, idle⟩
    | cons first programs inductionHypothesis =>
      obtain ⟨_, handles, state⟩ := first.run_spec station (all first List.mem_cons_self)
      have same : (first.leaves kernel station).driver.openCount = station.driver.openCount ∧
          (first.leaves kernel station).driver.sessionState = 0#8 := by
        simp only [DeviceProgram.leaves, state]
        split
        · rw [DriverState.used_eq, if_neg room]
          exact ⟨rfl, rfl⟩
        · exact ⟨rfl, idle⟩
      obtain ⟨handles', openCount', session'⟩ := inductionHypothesis (first.leaves kernel station)
        (same.1 ▸ room) same.2 fun other member => all other (List.mem_cons_of_mem _ member)
      exact ⟨handles'.trans handles, openCount'.trans same.1, session'⟩
  obtain ⟨handles, openCount, session⟩ := kept
  obtain ⟨code, _⟩ := program.run_spec reached fun isTest => counts (isTest ▸ List.mem_cons_self)
  exact ⟨handles, openCount, session, code⟩

/-! ## A kernel -/

/-- A request header at 0060:0010 for a buffer at 2000:0000. -/
def withHeader (memory : RealMemory) (command : Byte) (length : Word) : RealMemory :=
  (memory.writeBytes 0x0060#16 0x0012#16 [command]).writeBytes 0x0060#16 0x001e#16
    [0#8, 0#8, 0#8, 0x20#8, length.low, length.high]

theorem withHeader_reads (memory : RealMemory) (command : Byte) (length : Word) :
    (withHeader memory command length).readByte 0x0060#16 0x0012#16 = command ∧
      (withHeader memory command length).readWord 0x0060#16 0x001e#16 = 0#16 ∧
      (withHeader memory command length).readWord 0x0060#16 0x0020#16 = 0x2000#16 ∧
      (withHeader memory command length).readWord 0x0060#16 0x0022#16 = length := by
  simp [withHeader, RealMemory.writeBytes, RealMemory.readByte, RealMemory.readWord, Memory.readWord]
  decide

/-- The packet of an IOCTL output stands in the buffer. -/
def DosCall.memory (call : DosCall) : RealMemory :=
  let packet := match call with
    | .ioctlOutput packet => packet
    | _ => []
  withHeader (RealMemory.writeBytes (fun _ => 0#8) 0x2000#16 0#16 packet) call.command call.length

def DosCall.made (call : DosCall) : Call where
  segment := 0x0060#16
  offset := 0x0010#16
  es := 0#16
  bx := 0#16
  di := 0#16
  memory := call.memory

theorem DosCall.made_reads (call : DosCall) : call.made.command = call.command ∧
    call.made.bufferOffset = 0#16 ∧ call.made.bufferSegment = 0x2000#16 ∧ call.made.length = call.length :=
  withHeader_reads _ _ _

theorem DosCall.separate_made (call : DosCall) : call.made.Separate := by
  obtain ⟨_, offset, segment, _⟩ := call.made_reads
  unfold Call.Separate
  rw [offset, segment]
  intro _ _
  exact (by decide : ∀ index < 8, ∀ field < 20, linear 0x2000#16 (0#16 + BitVec.ofNat 16 index) ≠
    linear 0x0060#16 (0x0010#16 + BitVec.ofNat 16 field))

/-- The header is out of the way of the buffer. -/
theorem readBytes_withHeader (memory : RealMemory) (command : Byte) (length : Word) (count : Nat) :
    (withHeader memory command length).readBytes 0x2000#16 0#16 count = memory.readBytes 0x2000#16 0#16 count := by
  apply RealMemory.readBytes_congr
  intro index _
  have far (field : Word) (low : field.toNat < 0x100) :
      linear 0x2000#16 (0#16 + BitVec.ofNat 16 index) ≠ linear 0x0060#16 field := by
    unfold linear
    bv_omega
  simp (disch := exact far _ (by decide)) only [withHeader, RealMemory.writeBytes,
    RealMemory.writeByte_elsewhere]

/-- A DOS that has one handle for IME98$. -/
def oneHandle : Kernel where
  image := ⟨0x1000#16, 0x0200#16⟩
  request _ call := { toCall := call.made, separate := call.separate_made }
  command_request _ call := call.made_reads.1
  length_request _ call _ := call.made_reads.2.2.2
  buffer_request _ packet short := by
    obtain ⟨_, offset, segment, _⟩ := (DosCall.ioctlOutput packet).made_reads
    dsimp only
    rw [offset, segment]
    exact (readBytes_withHeader _ _ _ _).trans (RealMemory.readBytes_writeBytes packet short)
  handle _ handles := if handles = [] then some 5#16 else none
  fresh := by
    intro _ handles opened found
    split at found
    · rename_i none
      simp [none]
    · contradiction
  ax _ count := count

/-- The test, the client, which finds garbage in its variables, and the test once more. -/
theorem programs_release_device_test :
    let programs := [.test, .client letterInTime [] ⟨0xffff#16, true⟩]
    let reached := Run.run (DeviceProgram.leaves oneHandle) programs {}
    reached.handles = [] ∧ reached.driver.openCount = 0#8 ∧ reached.driver.sessionState = 0#8 ∧
      (DeviceProgram.run oneHandle .test reached).1 =
        DeviceProgram.code (oneHandle.handle reached.calls reached.handles).isSome .test :=
  programs_release_device oneHandle [.test, .client letterInTime [] ⟨0xffff#16, true⟩] .test
    (fun _ _ _ => rfl) {} (by decide) rfl

end ImeBridge.Device
