import ImeBridge.Resident.Runs

/-! # Waiting for the host

Runs in which nothing comes in and staged input finds the BIOS queue full only
move the response timer on, until it fires.
-/

namespace ImeBridge

open Library

/-- Nothing for the worker to do but wait. -/
structure Idle (tsr : Tsr) : Prop where
  hotkeyUp : tsr.memory.readByte 0x0530#16 &&& 0x10#8 = 0#8
  unlatched : tsr.hotkeyLatched = false
  ringEmpty : tsr.irqReadPos = tsr.irqWritePos
  nothingReceived : tsr.received = []
  queueFull : tsr.memory.readByte pc98KbCount ≥ pc98KbCapacity
  unfinished : tsr.pendingLength ≠ 0 → tsr.pendingOffset < tsr.pendingLength
  noRequest : tsr.openPending = false
  waiting : tsr.toSession.waiting = true

/-- The same state with the response timer at `ticks`. -/
def Tsr.atTicks (tsr : Tsr) (ticks : Nat) : Tsr := { tsr with waitTicks := BitVec.ofNat 16 ticks }

namespace Idle

variable {tsr : Tsr}

theorem at_ticks (idle : Idle tsr) (ticks : Nat) : Idle (tsr.atTicks ticks) :=
  ⟨idle.hotkeyUp, idle.unlatched, idle.ringEmpty, idle.nothingReceived, idle.queueFull,
    idle.unfinished, idle.noRequest, idle.waiting⟩

theorem hotkeyStage (idle : Idle tsr) : hotkeyStage tsr = tsr := by
  -- With the key up the latch is cleared, which it is already.
  have unlatched : { tsr with hotkeyLatched := false } = tsr := by rw [← idle.unlatched]
  simp [ImeBridge.hotkeyStage, pc98PollHotkey, idle.hotkeyUp, unlatched]

theorem receiveStage (idle : Idle tsr) : receiveStage tsr = tsr := by
  simp [ImeBridge.receiveStage, pollTransport, pollLoop, pollByte, pc98TsrSerialTryReadByte,
    pc98SerialTryReadByte, idle.ringEmpty, idle.nothingReceived]

theorem enqueueNoting (idle : Idle tsr) (event : Event) (key : Word) :
    enqueueNoting event key tsr = (false, tsr) := by
  have refuses : pc98BiosEnqueueWord key tsr.memory = (false, tsr.memory) := by
    rw [pc98BiosEnqueueWord, if_pos (.inl idle.queueFull)]
  simp [ImeBridge.enqueueNoting, refuses]

theorem injectStage (idle : Idle tsr) : injectStage tsr = tsr := by
  -- The first word offered is refused, so neither routine goes any further.
  have text : tsr.pendingLength ≠ 0 → injectPendingText tsr = tsr := by
    intro staged
    simp [injectPendingText, injectTextLoop, idle.unfinished staged, idle.enqueueNoting]
  have key : injectPendingKey tsr = tsr := by
    simp [injectPendingKey, idle.enqueueNoting]
  simp only [ImeBridge.injectStage]
  split_ifs with staged
  any_goals rw [text staged]
  all_goals first | exact key | rfl

theorem openStage (idle : Idle tsr) : openStage tsr = tsr := by
  simp [ImeBridge.openStage, idle.noRequest]

theorem beforeTick (idle : Idle tsr) : beforeTick tsr = tsr := by
  rw [ImeBridge.beforeTick, idle.hotkeyStage, idle.receiveStage, idle.injectStage, idle.openStage]

/-- The timer moves on, -/
theorem tickStage (idle : Idle tsr) {ticks : Nat} (early : ticks < 0xfffe) :
    tickStage (tsr.atTicks ticks) = tsr.atTicks (ticks + 1) := by
  have next : BitVec.ofNat 16 ticks + 1#16 = BitVec.ofNat 16 (ticks + 1) := by
    simp [BitVec.ofNat_add]
  have notLast : BitVec.ofNat 16 (ticks + 1) ≠ 0xffff#16 := by
    intro last
    have value := congrArg BitVec.toNat last
    simp at value
    omega
  rw [ImeBridge.tickStage, if_pos (idle.at_ticks ticks).waiting]
  simp only [Tsr.atTicks, next, notLast, if_false]

/-- and fires at last. -/
theorem timesOut (idle : Idle tsr) : (tsr.atTicks 0xfffe).toSession.timesOut = true := by
  rw [Session.timesOut, (idle.at_ticks 0xfffe).waiting]
  rfl

theorem tickStage_late (idle : Idle tsr) :
    (ImeBridge.tickStage (tsr.atTicks 0xfffe)).toSession = (tsr.atTicks 0xfffe).timedOut := by
  rw [tickStage_session, if_pos idle.timesOut]

theorem foreground (idle : Idle tsr) (ticks : Nat) :
    Action.apply .foreground (tsr.atTicks ticks) = ImeBridge.tickStage (tsr.atTicks ticks) := by
  change ImeBridge.tickStage (ImeBridge.beforeTick (tsr.atTicks ticks)) = _
  rw [(idle.at_ticks ticks).beforeTick]

/-- `count` idle runs in a row, none of them the one in which the timer fires. -/
theorem run (idle : Idle tsr) {ticks count : Nat} (bound : ticks + count ≤ 0xfffe) :
    Run.run Action.apply (List.replicate count .foreground) (tsr.atTicks ticks) =
      tsr.atTicks (ticks + count) := by
  apply Run.run_replicate Action.apply .foreground fun index => tsr.atTicks (ticks + index)
  intro index below
  rw [idle.foreground, idle.tickStage (by omega), Nat.add_assoc]

/-- Idle runs up to and with the one in which the timer fires. -/
theorem run_late (idle : Idle tsr) {ticks count : Nat} (late : ticks + count = 0xfffe) :
    (Run.run Action.apply (List.replicate count .foreground ++ [.foreground])
      (tsr.atTicks ticks)).toSession = (tsr.atTicks 0xfffe).timedOut := by
  rw [Run.run_append, idle.run late.le, late, Run.run_cons, Run.run_nil, idle.foreground,
    idle.tickStage_late]

end Idle

end ImeBridge
