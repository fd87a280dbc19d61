import ImeBridge.Link.Net
import ImeBridge.Resident.Idle

/-! # A line on which nothing happens

An idle client on the line: worker runs without a turn of the receive loop move the
response timer on, until it fires.
-/

namespace ImeBridge.Net

open Library

/-- The same state with the client's response timer at `ticks`. -/
def atTicks (net : Net) (ticks : Nat) : Net := { net with client := net.client.atTicks ticks }

/-- A worker run on the machine as it is, with nothing read. -/
def pause (Outside : Type) (net : Net) : Action Outside := .worker net.client.toHardware []

variable {Outside : Type} (outside : Outside → List Event → Line → Line) {net : Net}
  (idle : Idle net.client)
include idle

theorem beforeTick_idle (ticks : Nat) :
    (net.atTicks ticks).beforeTick outside net.client.toHardware [] = net.atTicks ticks := by
  have idle := idle.at_ticks ticks
  have hotkey : hotkeyStage { net.client.atTicks ticks with toHardware := net.client.toHardware } =
      net.client.atTicks ticks := idle.hotkeyStage
  simp only [beforeTick, work, Net.atTicks, List.foldl_nil, hotkey, idle.injectStage, idle.openStage]

theorem apply_pause (ticks : Nat) :
    (net.atTicks ticks).apply outside (net.pause Outside) = (net.atTicks ticks).work tickStage := by
  rw [pause, apply, beforeTick_idle outside idle]

theorem run_pause {ticks count : Nat} (bound : ticks + count ≤ 0xfffe) :
    Run.run (Net.apply outside) (List.replicate count (net.pause Outside)) (net.atTicks ticks) =
      net.atTicks (ticks + count) := by
  apply Run.run_replicate (Net.apply outside) (net.pause Outside) fun index => net.atTicks (ticks + index)
  intro index below
  rw [apply_pause outside idle, work, Net.atTicks, idle.tickStage (by omega)]
  rfl

/-- Pauses up to and with the one in which the response timeout fires. -/
theorem run_pause_late {ticks count : Nat} (late : ticks + count = 0xfffe) :
    Run.run (Net.apply outside) (List.replicate count (net.pause Outside) ++ [net.pause Outside])
      (net.atTicks ticks) = (net.atTicks 0xfffe).work tickStage := by
  rw [Run.run_append, run_pause outside idle late.le, late, Run.run_cons, Run.run_nil,
    apply_pause outside idle]

omit outside in
theorem late_link : ((net.atTicks 0xfffe).work tickStage).link =
    { net.toLine with session := (net.client.atTicks 0xfffe).timedOut } := by
  rw [link, work, Net.atTicks, idle.tickStage_late]

end ImeBridge.Net
