import ImeBridge.Library.Run
import ImeBridge.Device.Driver

/-! # The device driver over a sequence of requests

What a request asks for is decided by its header and its buffer.  One lemma says that the
driver does what is asked and answers in the request header, whichever way through its
code ES:BX went; the three variables are then a matter of the requests so far.
-/

namespace ImeBridge.Device

open Library

/-! ## What a request asks for -/

inductive Refusal where
  | badLength
  | badPacket
  | badCommand
  | unsupportedCommand

def Refusal.status : Refusal → Word
  | .badLength => 0x8105#16
  | .badPacket => 0x810c#16
  | .badCommand | .unsupportedCommand => 0x8103#16

inductive Ask where
  | loaded
  | opened
  | closed
  /-- An IOCTL output with a command the driver knows. -/
  | sent (command : Byte)
  /-- An IOCTL input. -/
  | queried
  | refused (refusal : Refusal)

/-- An IOCTL output packet begins with `I98` and version 1. -/
def Call.Signed (call : Call) : Prop :=
  call.memory.readBytes call.bufferSegment call.bufferOffset 4 = [0x49#8, 0x39#8, 0x38#8, 1#8]

instance (call : Call) : Decidable call.Signed := by unfold Call.Signed; infer_instance

theorem Call.signed_iff (call : Call) : call.Signed ↔
    call.memory.readByte call.bufferSegment (call.bufferOffset + 0#16) = 0x49#8 ∧
      call.memory.readByte call.bufferSegment (call.bufferOffset + 1#16) = 0x39#8 ∧
      call.memory.readByte call.bufferSegment (call.bufferOffset + 2#16) = 0x38#8 ∧
      call.memory.readByte call.bufferSegment (call.bufferOffset + 3#16) = 1#8 := by
  simp [Call.Signed, RealMemory.readBytes, List.range_succ]

def Call.ask (call : Call) : Ask :=
  if call.command = 0x00#8 then .loaded
  else if call.command = 0x03#8 then
    if call.length < 8#16 then .refused .badLength else .queried
  else if call.command = 0x0c#8 then
    if call.length < 5#16 then .refused .badLength
    else if ¬ call.Signed then .refused .badPacket
    else if call.packetCommand > 2#8 then .refused .badCommand
    else .sent call.packetCommand
  else if call.command = 0x0d#8 then .opened
  else if call.command = 0x0e#8 then .closed
  else .refused .unsupportedCommand

/-- The answer to an IOCTL input. -/
def DriverState.packet (state : DriverState) : List Byte :=
  [0x49#8, 0x39#8, 0x38#8, 1#8, state.openCount, state.lastCommand, state.sessionState, 0#8]

theorem Call.ask_input {call : Call} (input : call.command = 0x03#8) :
    call.ask = if call.length < 8#16 then .refused .badLength else .queried := by
  simp [Call.ask, input]

theorem Call.ask_output {call : Call} (output : call.command = 0x0c#8) :
    call.ask = if call.length < 5#16 then .refused .badLength
      else if ¬ call.Signed then .refused .badPacket
      else if call.packetCommand > 2#8 then .refused .badCommand
      else .sent call.packetCommand := by
  simp [Call.ask, output]

theorem Call.opened_iff (call : Call) : call.ask = .opened ↔ call.command = 0x0d#8 := by
  unfold Call.ask
  split_ifs <;> simp [*]

theorem Call.closed_iff (call : Call) : call.ask = .closed ↔ call.command = 0x0e#8 := by
  unfold Call.ask
  split_ifs <;> simp [*]

theorem Call.queried_iff (call : Call) :
    call.ask = .queried ↔ call.command = 0x03#8 ∧ ¬ call.length < 8#16 := by
  unfold Call.ask
  split_ifs <;> simp [*]

theorem Call.sent_iff (call : Call) (command : Byte) : call.ask = .sent command ↔
    call.command = 0x0c#8 ∧ (¬ ∃ refusal, call.ask = .refused refusal) ∧ call.packetCommand = command := by
  unfold Call.ask
  split_ifs <;> simp [*]

namespace Ask

def status : Ask → Word
  | .refused refusal => refusal.status
  | _ => 0x0100#16

/-- What an IOCTL transfers. -/
def count : Ask → Word
  | .sent _ => 5#16
  | .queried => 8#16
  | _ => 0#16

def next (state : DriverState) : Ask → DriverState
  | .opened =>
    if state.openCount = 0xff#8 then state else { state with openCount := state.openCount + 1#8 }
  | .closed =>
    if state.openCount = 0x00#8 then state else { state with openCount := state.openCount - 1#8 }
  | .sent command =>
    { state with
      lastCommand := command
      sessionState := if command = 1#8 then 1#8 else if command = 2#8 then 0#8 else state.sessionState }
  | _ => state

theorem failed_iff (ask : Ask) : ask.status.msb = true ↔ ∃ refusal, ask = .refused refusal := by
  cases ask with
  | refused refusal =>
    cases refusal with
    | badLength | badPacket | badCommand | unsupportedCommand => exact iff_of_true (by decide) ⟨_, rfl⟩
  | loaded | opened | closed | sent | queried =>
    refine iff_of_false (show ¬ (0x0100#16 : Word).msb = true by decide) ?_
    rintro ⟨refusal, same⟩
    cases same

section Next

variable (state : DriverState)

theorem openCount_opened :
    (opened.next state).openCount.toNat = min (state.openCount.toNat + 1) 255 := by
  have byte := state.openCount.isLt
  rw [next]
  split_ifs with full
  · rw [full]
    rfl
  · have below : state.openCount.toNat ≠ 255 := fun same => full (BitVec.eq_of_toNat_eq same)
    bv_omega

theorem openCount_closed : (closed.next state).openCount.toNat = state.openCount.toNat - 1 := by
  rw [next]
  split_ifs with none
  · rw [none]
    rfl
  · bv_omega

theorem openCount_next {ask : Ask} (opens : ask ≠ .opened) (closes : ask ≠ .closed) :
    (ask.next state).openCount = state.openCount := by
  cases ask with
  | opened => exact absurd rfl opens
  | closed => exact absurd rfl closes
  | loaded | sent | queried | refused => rfl

/-- Only an accepted command touches the last command and the session. -/
theorem command_next {ask : Ask} (sends : ∀ command, ask ≠ .sent command) :
    (ask.next state).lastCommand = state.lastCommand ∧ (ask.next state).sessionState = state.sessionState := by
  cases ask with
  | sent command => exact absurd rfl (sends command)
  | opened | closed =>
    rw [next]
    split_ifs
    · exact ⟨rfl, rfl⟩
    · exact ⟨rfl, rfl⟩
  | loaded | queried | refused => exact ⟨rfl, rfl⟩

end Next

end Ask

/-! ## The driver answers in the request header -/

namespace Cpu

variable {cpu : Cpu} {call : Call}

/-- ES:BX is the request header. -/
def AtHeader (cpu : Cpu) (call : Call) : Prop := cpu.es = call.segment ∧ cpu.bx = call.offset

/-- The driver's variables hold the address of the request header. -/
def Remembers (cpu : Cpu) (call : Call) : Prop :=
  cpu.driver.requestSegment = call.segment ∧ cpu.driver.requestOffset = call.offset

theorem Remembers.loadRequest (remembers : cpu.Remembers call) : cpu.loadRequest.AtHeader call :=
  remembers

theorem Remembers.update (remembers : cpu.Remembers call) (change : DriverState → DriverState) :
    (cpu.update change).Remembers call := remembers

theorem AtHeader.update (atHeader : cpu.AtHeader call) (change : DriverState → DriverState) :
    (cpu.update change).AtHeader call := atHeader

theorem AtHeader.writeWord_status (atHeader : cpu.AtHeader call) (status : Word) :
    (call.reply (cpu.writeWord (cpu.bx + 3#16) status).memory).status = status := by
  obtain ⟨es, bx⟩ := atHeader
  simp only [Call.reply, writeWord, es, bx, RealMemory.readWord, RealMemory.behind_writeWord,
    Memory.readWord_writeWord_same]

/-- The status does not run over the count. -/
theorem AtHeader.writeWord_count (atHeader : cpu.AtHeader call) (count status : Word) :
    (call.reply ((cpu.writeWord (cpu.bx + 18#16) count).writeWord (cpu.bx + 3#16) status).memory).count =
      count := by
  obtain ⟨es, bx⟩ := atHeader
  simp only [Call.reply, writeWord, es, bx, RealMemory.readWord, RealMemory.behind_writeWord]
  rw [Memory.readWord_writeWord_apart _ _ (by bv_omega) (by bv_omega) (by bv_omega),
    Memory.readWord_writeWord_same]

/-- Count and status do not run over a buffer that lies apart from the header. -/
theorem AtHeader.writeWord_buffer (atHeader : cpu.AtHeader call)
    (separate : ∀ index < 8, ∀ field < 20,
      linear call.bufferSegment (call.bufferOffset + BitVec.ofNat 16 index) ≠
        linear call.segment (call.offset + BitVec.ofNat 16 field)) (count status : Word) :
    (call.reply ((cpu.writeWord (cpu.bx + 18#16) count).writeWord (cpu.bx + 3#16) status).memory).buffer =
      cpu.memory.readBytes call.bufferSegment call.bufferOffset 8 := by
  obtain ⟨es, bx⟩ := atHeader
  have countHigh : call.offset + 18#16 + 1#16 = call.offset + BitVec.ofNat 16 19 := by bv_omega
  have statusHigh : call.offset + 3#16 + 1#16 = call.offset + BitVec.ofNat 16 4 := by bv_omega
  apply RealMemory.readBytes_congr
  intro index bound
  have apart := separate index bound
  simp only [writeWord, es, bx]
  rw [RealMemory.writeWord_elsewhere _ (apart 3 (by decide)) (statusHigh ▸ apart 4 (by decide)),
    RealMemory.writeWord_elsewhere _ (apart 18 (by decide)) (countHigh ▸ apart 19 (by decide))]

/-- The request ended with what was asked for. -/
structure Answers (cpu : Cpu) (call : Call) (ask : Ask) (state : DriverState) : Prop where
  status : (call.reply cpu.memory).status = ask.status
  count : call.IsIoctl → (call.reply cpu.memory).count = ask.count
  state : cpu.driver.toDriverState = ask.next state

section Ends

variable {state : DriverState}

theorem AtHeader.transfers (atHeader : cpu.AtHeader call) (ask : Ask)
    (next : cpu.driver.toDriverState = ask.next state) :
    ((cpu.writeWord (cpu.bx + 18#16) ask.count).writeWord (cpu.bx + 3#16) ask.status).Answers call ask
      state where
  status := (show (cpu.writeWord _ ask.count).AtHeader call from atHeader).writeWord_status ask.status
  count _ := atHeader.writeWord_count ask.count ask.status
  state := next

theorem AtHeader.refuses (atHeader : cpu.AtHeader call) (kept : cpu.driver.toDriverState = state)
    (refusal : Refusal) : (cpu.refuse refusal.status).Answers call (.refused refusal) state :=
  atHeader.transfers (.refused refusal) kept

/-- The count is a field of IOCTL requests only. -/
theorem AtHeader.ends (atHeader : cpu.AtHeader call) (other : ¬ call.IsIoctl) (ask : Ask)
    (next : cpu.driver.toDriverState = ask.next state) :
    (cpu.writeWord (cpu.bx + 3#16) ask.status).Answers call ask state where
  status := atHeader.writeWord_status ask.status
  count ioctl := absurd ioctl other
  state := next

theorem Remembers.commandAccepted (remembers : cpu.Remembers call) {command : Byte}
    (stored : cpu.driver.toDriverState = (Ask.sent command).next state) :
    cpu.commandAccepted.Answers call (.sent command) state :=
  remembers.loadRequest.transfers (.sent command) stored

/-- Commands 1 and 2 begin and end a session, command 0 leaves it. -/
theorem Remembers.store (remembers : cpu.Remembers call) (command : Byte) :
    (if command = 1#8 then
      ((cpu.update fun state => { state with lastCommand := command }).update
        fun state => { state with sessionState := 1#8 }).commandAccepted
    else
      (cpu.update fun state => { state with lastCommand := command }).checkSessionClose command).Answers
      call (.sent command) cpu.driver.toDriverState := by
  have stored := remembers.update fun state => { state with lastCommand := command }
  by_cases opens : command = 1#8
  · rw [if_pos opens]
    exact (stored.update _).commandAccepted (by simp [Ask.next, opens])
  rw [if_neg opens, checkSessionClose, ite_not]
  by_cases closes : command = 2#8
  · rw [if_pos closes]
    exact (stored.update _).commandAccepted (by simp [Ask.next, closes])
  · rw [if_neg closes]
    exact stored.commandAccepted (by simp [Ask.next, opens, closes])

end Ends

/-- The interrupt entry has loaded the request header. -/
structure Fetched (cpu : Cpu) (call : Call) (state : DriverState) : Prop where
  atHeader : cpu.AtHeader call
  remembers : cpu.Remembers call
  memory : cpu.memory = call.memory
  state : cpu.driver.toDriverState = state

namespace Fetched

variable {state : DriverState}

theorem readCommand (fetched : cpu.Fetched call state) : cpu.readByte (cpu.bx + 2#16) = call.command := by
  rw [Cpu.readByte, fetched.memory, fetched.atHeader.1, fetched.atHeader.2, Call.command]

theorem readLength (fetched : cpu.Fetched call state) : cpu.readWord (cpu.bx + 18#16) = call.length := by
  rw [Cpu.readWord, fetched.memory, fetched.atHeader.1, fetched.atHeader.2, Call.length]

/-- With the buffer's segment in ES the request header is out of reach until it is loaded again. -/
theorem loadBuffer (fetched : cpu.Fetched call state) :
    cpu.loadBuffer.es = call.bufferSegment ∧ cpu.loadBuffer.di = call.bufferOffset ∧
      cpu.loadBuffer.memory = call.memory := by
  refine ⟨?_, ?_, fetched.memory⟩
  · change cpu.readWord (cpu.bx + 16#16) = call.bufferSegment
    rw [Cpu.readWord, fetched.memory, fetched.atHeader.1, fetched.atHeader.2, Call.bufferSegment]
  · change cpu.readWord (cpu.bx + 14#16) = call.bufferOffset
    rw [Cpu.readWord, fetched.memory, fetched.atHeader.1, fetched.atHeader.2, Call.bufferOffset]

theorem readBuffer (fetched : cpu.Fetched call state) (offset : Word) :
    cpu.loadBuffer.readByte (cpu.loadBuffer.di + offset) =
      call.memory.readByte call.bufferSegment (call.bufferOffset + offset) := by
  obtain ⟨es, di, memory⟩ := fetched.loadBuffer
  rw [Cpu.readByte, es, di, memory]

theorem ioctlOutput (fetched : cpu.Fetched call state) (output : call.command = 0x0c#8) :
    cpu.ioctlOutput.Answers call call.ask state := by
  have kept := fetched.state
  have remembers : cpu.loadBuffer.Remembers call := fetched.remembers
  have command : call.memory.readByte call.bufferSegment (call.bufferOffset + 4#16) = call.packetCommand := rfl
  rw [Call.ask_output output, Cpu.ioctlOutput]
  simp only [fetched.readLength, fetched.readBuffer, command, ne_eq, ite_not, ← ite_and, ← call.signed_iff]
  by_cases short : call.length < 5#16
  · rw [if_pos short, if_pos short]
    exact fetched.atHeader.refuses kept .badLength
  rw [if_neg short, if_neg short]
  by_cases signed : call.Signed
  · rw [if_pos signed, if_pos signed]
    by_cases unknown : call.packetCommand > 2#8
    · rw [if_pos unknown, if_pos unknown]
      exact remembers.loadRequest.refuses kept .badCommand
    · rw [if_neg unknown, if_neg unknown]
      exact kept ▸ remembers.store call.packetCommand
  · rw [if_neg signed, if_neg signed]
    exact remembers.loadRequest.refuses kept .badPacket

/-- The buffer is filled before the header is loaded again. -/
theorem ioctlInput (fetched : cpu.Fetched call state) (input : call.command = 0x03#8) :
    cpu.ioctlInput.Answers call call.ask state := by
  have kept := fetched.state
  rw [Call.ask_input input, Cpu.ioctlInput]
  simp only [fetched.readLength]
  by_cases short : call.length < 8#16
  · rw [if_pos short, if_pos short]
    exact fetched.atHeader.refuses kept .badLength
  · rw [if_neg short, if_neg short]
    have remembers : (cpu.loadBuffer.writeBytes cpu.loadBuffer.di [0x49#8, 0x39#8, 0x38#8, 1#8,
        cpu.loadBuffer.driver.openCount, cpu.loadBuffer.driver.lastCommand,
        cpu.loadBuffer.driver.sessionState, 0#8]).Remembers call := fetched.remembers
    exact remembers.loadRequest.transfers .queried kept

theorem ioctlInput_buffer (fetched : cpu.Fetched call state) (input : call.command = 0x03#8)
    (enough : ¬ call.length < 8#16) (separate : call.Separate) :
    (call.reply cpu.ioctlInput.memory).buffer = state.packet := by
  obtain rfl := fetched.state
  obtain ⟨es, di, -⟩ := fetched.loadBuffer
  have packet : [0x49#8, 0x39#8, 0x38#8, 1#8, cpu.loadBuffer.driver.openCount,
      cpu.loadBuffer.driver.lastCommand, cpu.loadBuffer.driver.sessionState, 0#8] =
      cpu.driver.packet := rfl
  have remembers : (cpu.loadBuffer.writeBytes cpu.loadBuffer.di cpu.driver.packet).Remembers call :=
    fetched.remembers
  simp only [Cpu.ioctlInput, fetched.readLength, if_neg enough, packet]
  have kept := remembers.loadRequest.writeWord_buffer (separate input (BitVec.not_lt.mp enough)) 8#16 0x0100#16
  refine kept.trans ?_
  change (cpu.loadBuffer.memory.writeBytes cpu.loadBuffer.es cpu.loadBuffer.di cpu.driver.packet).readBytes
    call.bufferSegment call.bufferOffset cpu.driver.packet.length = cpu.driver.packet
  rw [es, di]
  exact RealMemory.readBytes_writeBytes _ (by simp [DriverState.packet])

theorem deviceOpen (fetched : cpu.Fetched call state) (opening : call.command = 0x0d#8) :
    cpu.deviceOpen.Answers call call.ask state := by
  have asks := call.opened_iff.mpr opening
  have other : ¬ call.IsIoctl := by simp [Call.IsIoctl, opening]
  obtain rfl := fetched.state
  rw [asks, Cpu.deviceOpen]
  by_cases full : cpu.driver.openCount = 0xff#8
  · rw [if_pos full]
    exact fetched.atHeader.ends other .opened (by simp [Ask.next, full])
  · rw [if_neg full]
    exact (fetched.atHeader.update _).ends other .opened (by simp [Ask.next, full])

theorem deviceClose (fetched : cpu.Fetched call state) (closing : call.command = 0x0e#8) :
    cpu.deviceClose.Answers call call.ask state := by
  have asks := call.closed_iff.mpr closing
  have other : ¬ call.IsIoctl := by simp [Call.IsIoctl, closing]
  obtain rfl := fetched.state
  rw [asks, Cpu.deviceClose]
  by_cases none : cpu.driver.openCount = 0x00#8
  · rw [if_pos none]
    exact fetched.atHeader.ends other .closed (by simp [Ask.next, none])
  · rw [if_neg none]
    exact (fetched.atHeader.update _).ends other .closed (by simp [Ask.next, none])

theorem initializeDriver (fetched : cpu.Fetched call state) (image : Image) (first : call.command = 0x00#8) :
    (cpu.initializeDriver image).Answers call call.ask state := by
  have asks : call.ask = .loaded := by simp [Call.ask, first]
  have other : ¬ call.IsIoctl := by simp [Call.IsIoctl, first]
  have filled : ((cpu.writeWord (cpu.bx + 14#16) image.residentEnd).writeWord (cpu.bx + 16#16)
      image.segment).AtHeader call := fetched.atHeader
  rw [asks]
  exact ⟨(filled.ends other .loaded fetched.state).status, fun ioctl => absurd ioctl other, fetched.state⟩

theorem unsupportedCommand (fetched : cpu.Fetched call state) (loading : call.command ≠ 0x00#8)
    (input : call.command ≠ 0x03#8) (output : call.command ≠ 0x0c#8) (opening : call.command ≠ 0x0d#8)
    (closing : call.command ≠ 0x0e#8) : cpu.unsupportedCommand.Answers call call.ask state := by
  have asks : call.ask = .refused .unsupportedCommand := by
    simp [Call.ask, loading, input, output, opening, closing]
  have other : ¬ call.IsIoctl := not_or.mpr ⟨input, output⟩
  rw [asks]
  exact fetched.atHeader.ends other (.refused .unsupportedCommand) fetched.state

end Fetched

theorem Remembers.fetched (remembers : cpu.Remembers call) (unread : cpu.memory = call.memory) :
    cpu.loadRequest.Fetched call cpu.driver.toDriverState :=
  ⟨remembers.loadRequest, remembers, unread, rfl⟩

/-- Whatever was in ES:BX, the interrupt entry does what the remembered request asks for. -/
theorem Remembers.interruptEntry (remembers : cpu.Remembers call) (unread : cpu.memory = call.memory)
    (image : Image) : (cpu.interruptEntry image).Answers call call.ask cpu.driver.toDriverState := by
  have fetched := remembers.fetched unread
  unfold Cpu.interruptEntry
  simp only [fetched.readCommand]
  by_cases loading : call.command = 0x00#8
  · rw [if_pos loading]
    exact fetched.initializeDriver image loading
  by_cases input : call.command = 0x03#8
  · rw [if_neg loading, if_pos input]
    exact fetched.ioctlInput input
  by_cases output : call.command = 0x0c#8
  · rw [if_neg loading, if_neg input, if_pos output]
    exact fetched.ioctlOutput output
  by_cases opening : call.command = 0x0d#8
  · rw [if_neg loading, if_neg input, if_neg output, if_pos opening]
    exact fetched.deviceOpen opening
  by_cases closing : call.command = 0x0e#8
  · rw [if_neg loading, if_neg input, if_neg output, if_neg opening, if_pos closing]
    exact fetched.deviceClose closing
  · rw [if_neg loading, if_neg input, if_neg output, if_neg opening, if_neg closing]
    exact fetched.unsupportedCommand loading input output opening closing

theorem Remembers.interruptEntry_buffer (remembers : cpu.Remembers call) (unread : cpu.memory = call.memory)
    (image : Image) (input : call.command = 0x03#8) (enough : ¬ call.length < 8#16)
    (separate : call.Separate) :
    (call.reply (cpu.interruptEntry image).memory).buffer = cpu.driver.packet := by
  have fetched := remembers.fetched unread
  have dispatched : cpu.interruptEntry image = cpu.loadRequest.ioctlInput := by
    simp only [Cpu.interruptEntry, fetched.readCommand, input]
    rfl
  rw [dispatched]
  exact fetched.ioctlInput_buffer input enough separate

end Cpu

/-! ## One request -/

/-- The strategy entry has the driver remember the request header. -/
theorem Call.remembers_strategyEntry (call : Call) (driver : Driver) :
    { Cpu.strategyEntry
        { es := call.segment, bx := call.offset, di := call.di, driver, memory := call.memory } with
      es := call.es, bx := call.bx }.Remembers call := ⟨rfl, rfl⟩

section Serve

variable (image : Image) (driver : Driver)

theorem Driver.serve_answers (call : Call) :
    (call.finish image driver).Answers call call.ask driver.toDriverState :=
  (call.remembers_strategyEntry driver).interruptEntry rfl image

theorem Driver.serve_packet (request : Request) (queries : request.ask = .queried) :
    (driver.serve image request.toCall).1.buffer = driver.packet := by
  obtain ⟨input, enough⟩ := request.queried_iff.mp queries
  exact (request.remembers_strategyEntry driver).interruptEntry_buffer rfl image input enough request.separate

/-- A request fails exactly if it asks for nothing the driver knows. -/
theorem Driver.serve_failed_iff (call : Call) :
    (driver.serve image call).1.Failed ↔ ∃ refusal, call.ask = .refused refusal := by
  rw [← call.ask.failed_iff, ← (driver.serve_answers image call).status]
  rfl

end Serve

/-! ## Sequences of requests -/

structure Exchange where
  request : Request
  reply : Reply

/-- The command of an IOCTL output that did not fail. -/
def Exchange.acceptedCommand (exchange : Exchange) : Option Byte :=
  if exchange.request.command = 0x0c#8 ∧ ¬ exchange.reply.Failed then some exchange.request.packetCommand
  else none

/-- One more for an open and one less for a close, within 0 and 255. -/
def Exchange.counted (opened : Nat) (exchange : Exchange) : Nat :=
  if exchange.request.command = 0x0d#8 then min (opened + 1) 255
  else if exchange.request.command = 0x0e#8 then opened - 1
  else opened

def opens (history : List Exchange) : Nat := history.foldl Exchange.counted 0

def accepted (history : List Exchange) : List Byte := history.filterMap Exchange.acceptedCommand

/-- The last accepted command that begins or ends a session. -/
def lastSession (history : List Exchange) : Option Byte :=
  ((accepted history).filter fun command => command = 1#8 ∨ command = 2#8).getLast?

/-- The driver with the requests it has served, oldest first. -/
structure Service where
  driver : Driver := {}
  history : List Exchange := []

def Service.serve (image : Image) (request : Request) (service : Service) : Service :=
  let served := service.driver.serve image request.toCall
  { driver := served.2, history := service.history ++ [⟨request, served.1⟩] }

/-- The variables of the driver as the requests so far account for them. -/
structure Service.Accounts (service : Service) : Prop where
  openCount : service.driver.openCount.toNat = opens service.history
  lastCommand : service.driver.lastCommand = (accepted service.history).getLastD 0xff#8
  sessionState : service.driver.sessionState = if lastSession service.history = some 1#8 then 1#8 else 0#8

namespace Service.Accounts

theorem start : ({} : Service).Accounts := ⟨rfl, rfl, rfl⟩

section Step

variable {history : List Exchange} (exchange : Exchange)

@[simp] theorem opens_concat : opens (history ++ [exchange]) = exchange.counted (opens history) := by
  simp [opens]

theorem accepted_concat :
    accepted (history ++ [exchange]) = accepted history ++ exchange.acceptedCommand.toList := by
  cases taken : exchange.acceptedCommand with
  | none => simp [accepted, taken]
  | some command => simp [accepted, taken]

variable {exchange}

theorem lastSession_none (refused : exchange.acceptedCommand = none) :
    lastSession (history ++ [exchange]) = lastSession history := by
  rw [lastSession, accepted_concat, refused]
  simp [lastSession]

theorem lastSession_some {command : Byte} (taken : exchange.acceptedCommand = some command) :
    lastSession (history ++ [exchange]) =
      if command = 1#8 ∨ command = 2#8 then some command else lastSession history := by
  rw [lastSession, accepted_concat, taken, Option.toList_some, List.filter_append]
  split_ifs with session
  · simp [session]
  · simp [session, lastSession]

end Step

variable {service : Service}

theorem acceptedCommand_serve (image : Image) (driver : Driver) (request : Request) (command : Byte) :
    Exchange.acceptedCommand ⟨request, (driver.serve image request.toCall).1⟩ = some command ↔
      request.ask = .sent command := by
  have failed := driver.serve_failed_iff image request.toCall
  rw [request.sent_iff, ← failed, Exchange.acceptedCommand]
  split_ifs with accepted
  · simp [accepted]
  · simp only [false_iff]
    exact fun ⟨output, succeeds, _⟩ => accepted ⟨output, succeeds⟩

/-- An open or a close counts, and nothing else does. -/
theorem openCount_serve (accounts : service.Accounts) (image : Image) (request : Request) :
    (request.ask.next service.driver.toDriverState).openCount.toNat =
      opens (service.serve image request).history := by
  rw [Service.serve, opens_concat, ← accounts.openCount, Exchange.counted]
  by_cases opening : request.command = 0x0d#8
  · rw [request.opened_iff.mpr opening, if_pos opening, Ask.openCount_opened]
  rw [if_neg opening]
  by_cases closing : request.command = 0x0e#8
  · rw [request.closed_iff.mpr closing, if_pos closing, Ask.openCount_closed]
  · rw [if_neg closing, Ask.openCount_next _ (request.opened_iff.not.mpr opening)
      (request.closed_iff.not.mpr closing)]

/-- The last accepted command, and the session it leaves. -/
theorem command_serve (accounts : service.Accounts) (image : Image) (request : Request) :
    (request.ask.next service.driver.toDriverState).lastCommand =
        (accepted (service.serve image request).history).getLastD 0xff#8 ∧
      (request.ask.next service.driver.toDriverState).sessionState =
        if lastSession (service.serve image request).history = some 1#8 then 1#8 else 0#8 := by
  have takes := acceptedCommand_serve image service.driver request
  rw [Service.serve]
  cases taken : Exchange.acceptedCommand ⟨request, (service.driver.serve image request.toCall).1⟩ with
  | none =>
    have sends : ∀ command, request.ask ≠ .sent command := by
      intro command asks
      rw [(takes command).mpr asks] at taken
      cases taken
    obtain ⟨lastCommand, sessionState⟩ := Ask.command_next service.driver.toDriverState sends
    rw [lastCommand, sessionState, accepted_concat, taken, lastSession_none taken, accounts.lastCommand,
      accounts.sessionState]
    simp
  | some command =>
    rw [(takes command).mp taken, accepted_concat, taken, lastSession_some taken, Ask.next]
    refine ⟨by simp, ?_⟩
    change (if command = 1#8 then 1#8 else if command = 2#8 then 0#8 else service.driver.sessionState) = _
    by_cases opens : command = 1#8
    · simp [opens]
    by_cases closes : command = 2#8
    · simp [closes]
    · simp [opens, closes, accounts.sessionState]

theorem serve (accounts : service.Accounts) (image : Image) (request : Request) :
    (service.serve image request).Accounts := by
  have served : (service.serve image request).driver.toDriverState =
      request.ask.next service.driver.toDriverState :=
    (service.driver.serve_answers image request.toCall).state
  obtain ⟨lastCommand, sessionState⟩ := accounts.command_serve image request
  constructor
  · rw [served]
    exact accounts.openCount_serve image request
  · rw [served]
    exact lastCommand
  · rw [served]
    exact sessionState

theorem run (image : Image) (requests : List Request) :
    (Run.run (Service.serve image) requests {}).Accounts :=
  Run.invariant _ (fun _ request accounts => accounts.serve image request) requests start

end Service.Accounts

/-- In every sequence of requests a request that fails leaves the three variables as they were
and, for an IOCTL, transfers nothing; an IOCTL input that does not fail returns the number of
opens less the closes, the last accepted command, and the state of the session. -/
theorem driver_accounts_for_requests (image : Image) (requests : List Request) (request : Request) :
    let service := Run.run (Service.serve image) requests {}
    let served := service.driver.serve image request.toCall
    (served.1.Failed → served.2.toDriverState = service.driver.toDriverState ∧
        (request.IsIoctl → served.1.count = 0#16)) ∧
      (request.command = 0x03#8 → ¬ served.1.Failed → ∃ openCount sessionState : Byte,
        served.1.buffer = [0x49#8, 0x39#8, 0x38#8, 1#8, openCount,
            (accepted service.history).getLastD 0xff#8, sessionState, 0#8] ∧
          openCount.toNat = opens service.history ∧
          (sessionState = 1#8 ↔ lastSession service.history = some 1#8) ∧
          (sessionState = 0#8 ∨ sessionState = 1#8)) := by
  intro service served
  have accounts : service.Accounts := Service.Accounts.run image requests
  have answers := service.driver.serve_answers image request.toCall
  have failed := service.driver.serve_failed_iff image request.toCall
  refine ⟨fun fails => ?_, fun input succeeds => ?_⟩
  · obtain ⟨refusal, asks⟩ := failed.mp fails
    rw [asks] at answers
    exact ⟨answers.state, answers.count⟩
  · have queries : request.ask = .queried := by
      refine request.queried_iff.mpr ⟨input, fun short => succeeds (failed.mpr ⟨.badLength, ?_⟩)⟩
      rw [Call.ask_input input, if_pos short]
    refine ⟨service.driver.openCount, service.driver.sessionState, ?_, accounts.openCount, ?_, ?_⟩
    · rw [← accounts.lastCommand]
      exact service.driver.serve_packet image request queries
    · rw [accounts.sessionState]
      split_ifs with begun
      · exact iff_of_true rfl begun
      · exact iff_of_false (by decide) begun
    · rw [accounts.sessionState]
      split_ifs
      · exact .inr rfl
      · exact .inl rfl

/-- The calls of `device_test.c` up to its status query, with the header at 0060:0010 and the
buffer at 2000:0000. -/
example :
    let call (command : Byte) (length : Word) (packet : List Byte) : Call :=
      { segment := 0x0060#16, offset := 0x0010#16, es := 0#16, bx := 0#16, di := 0#16
        memory :=
          ((RealMemory.writeBytes (fun _ => 0#8) 0x2000#16 0#16 packet).writeBytes 0x0060#16 0x0012#16
            [command]).writeBytes 0x0060#16 0x001e#16 [0#8, 0#8, 0#8, 0x20#8, length.low, length.high] }
    (Run.respond (Driver.serve ⟨0x1000#16, 0x0200#16⟩)
        [call 0x0d#8 0#16 [], call 0x0c#8 5#16 [0x49#8, 0x39#8, 0x38#8, 1#8, 1#8], call 0x03#8 8#16 []]
        {}).1.getLast? = some
      { status := 0x0100#16, count := 8#16
        buffer := [0x49#8, 0x39#8, 0x38#8, 1#8, 1#8, 1#8, 1#8, 0#8] } := by
  decide +kernel

end ImeBridge.Device
