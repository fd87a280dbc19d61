import ImeBridge.Resident.Refinement

/-! # Runs of the resident program

The resident copy is entered by the INT 18h hook, by COM1 interrupts and by `/U`, each
time with interrupts off; between two entries the machine around it changes freely.
-/

namespace ImeBridge

open Relation Library Session

inductive Action where
  /-- Key presses, application reads, arriving bytes, the transmitter's coming behaviour. -/
  | environment (hardware : Hardware)
  | foreground
  | serialIrq
  | returnedHotkey
  | prepareUninstall

def Action.apply (action : Action) (tsr : Tsr) : Tsr :=
  match action with
  | .environment hardware => { tsr with toHardware := hardware }
  | .foreground => pc98ServiceForeground tsr
  | .serialIrq => pc98SerialIrqHook tsr
  | .returnedHotkey => (pc98ServiceReturnedHotkey tsr).2
  | .prepareUninstall => pc98PrepareUninstall tsr

/-- The state `clear_resident_state` and the configuration leave on a machine. -/
def cleared (modifierMask : Byte) (hardware : Hardware) : Tsr :=
  { hotkeyModifierMask := modifierMask, toHardware := hardware }

/-- The state from which an action runs `pc98_service_foreground`, if it does. -/
def Action.service (action : Action) (tsr : Tsr) : Option Tsr :=
  match action with
  | .foreground => some tsr
  | .serialIrq =>
    if tsr.irqCapture then
      match tsr.received with
      | [] => none
      | value :: received => some (irqStore value { tsr with received := received })
    else none
  | _ => none

/-- The state in which an action comes to look at the response timer, if it does. -/
def Action.atTimer (action : Action) (tsr : Tsr) : Option Tsr := (action.service tsr).map beforeTick

theorem irqStore_session (value : Byte) (tsr : Tsr) :
    (irqStore value tsr).toSession = tsr.toSession := by
  simp only [irqStore]
  split_ifs <;> rfl

theorem Action.service_some {action : Action} {tsr rest : Tsr}
    (serves : action.service tsr = some rest) :
    rest.toSession = tsr.toSession ∧ action.apply tsr = pc98ServiceForeground rest := by
  cases action with
  | environment | returnedHotkey | prepareUninstall => simp [service] at serves
  | foreground =>
    cases serves
    exact ⟨rfl, rfl⟩
  | serialIrq =>
    cases capture : tsr.irqCapture with
    | false => simp [service, capture] at serves
    | true =>
      cases arrived : tsr.received with
      | nil => simp [service, capture, arrived] at serves
      | cons value received =>
        simp only [service, capture, arrived, if_true, Option.some.injEq] at serves
        rw [← serves, irqStore_session]
        simp [apply, pc98SerialIrqHook, capture, arrived]

/-- An action that does not serve the foreground leaves the session alone, toggles
it or shuts it down. -/
theorem Action.service_none {action : Action} {tsr : Tsr} (serves : action.service tsr = none) :
    (action.apply tsr).toSession = tsr.toSession ∨
      (∃ rest : Tsr, rest.toSession = tsr.toSession ∧
        (action.apply tsr).toSession = (toggleImeHotkey rest).toSession) ∨
      ∃ written succeeded, (action.apply tsr).toSession = tsr.toSession.closed written succeeded := by
  cases action with
  | environment => exact .inl rfl
  | foreground => simp [service] at serves
  | returnedHotkey =>
    have polled := pc98PollHotkey_session tsr
    simp only [apply, pc98ServiceReturnedHotkey]
    rcases poll : pc98PollHotkey tsr with ⟨hotkeyState, rest⟩
    rw [poll] at polled
    dsimp only
    split
    · exact .inr (.inl ⟨rest, polled, rfl⟩)
    · exact .inl polled
  | prepareUninstall => exact .inr (.inr (closeIme_session tsr))
  | serialIrq =>
    refine .inl ?_
    cases capture : tsr.irqCapture with
    | false => simp [apply, pc98SerialIrqHook, capture]
    | true =>
      cases arrived : tsr.received with
      | nil => simp [apply, pc98SerialIrqHook, capture, arrived]
      | cons value received => simp [service, capture, arrived] at serves

/-- An action that comes to the response timer does so after some moves and ends
with it; any other action is a row of steps. -/
theorem Action.apply_session (action : Action) (tsr : Tsr) :
    match action.atTimer tsr with
    | some before => Moves tsr.toSession before.toSession ∧ action.apply tsr = tickStage before
    | none => Steps tsr.toSession (action.apply tsr).toSession := by
  cases serves : action.service tsr with
  | none =>
    simp only [atTimer, serves, Option.map_none]
    obtain same | ⟨rest, same, toggles⟩ | ⟨written, succeeded, closes⟩ := service_none serves
    · rw [same]
    · rw [toggles, ← same]
      exact toggleImeHotkey_session rest
    · rw [closes]
      exact .single (.shutDown written succeeded)
  | some rest =>
    obtain ⟨same, applies⟩ := service_some serves
    simp only [atTimer, serves, Option.map_some]
    exact ⟨same ▸ beforeTick_session rest, applies⟩

theorem Session.Moves.preserves {invariant : Session → Prop}
    (move : ∀ session next, Move session next → invariant session → invariant next)
    {session next : Session} (moves : Moves session next) (start : invariant session) :
    invariant next := by
  induction moves with
  | refl => exact start
  | tail _ last inductionHypothesis => exact move _ _ last inductionHypothesis

/-- What moves and the response timeout preserve, every action preserves. -/
theorem Action.preserves (invariant : Session → Prop)
    (move : ∀ session next, Move session next → invariant session → invariant next)
    {action : Action} {tsr : Tsr}
    (timeout : ∀ before, action.atTimer tsr = some before → before.timesOut = true →
      invariant before.toSession → invariant before.timedOut)
    (start : invariant tsr.toSession) : invariant (action.apply tsr).toSession := by
  have does := action.apply_session tsr
  cases timer : action.atTimer tsr with
  | none =>
    simp only [timer] at does
    exact does.moves.preserves move start
  | some before =>
    simp only [timer] at does
    obtain ⟨moves, ends⟩ := does
    have reached := moves.preserves move start
    rw [ends, tickStage_session]
    split_ifs with late waiting
    -- The timer fires, it moves on, or it is not running.
    · exact timeout before timer late reached
    · exact move _ _ (.own (.ticked waiting (by simpa using late))) reached
    · exact reached

theorem Action.grows (action : Action) (tsr : Tsr) : tsr.history <+: (action.apply tsr).history :=
  action.preserves (fun session => tsr.history <+: session.history) (fun _ _ does grows => grows.trans does.grows)
    (fun before _ _ grows => grows.trans before.timedOut_grows) List.prefix_rfl

/-! ## A run that opens a session -/

/-- A machine whose BIOS queue holds `count` words of zero from `0502h` on. -/
def machine (count : Byte) (received : List Byte) : Hardware where
  memory := ((Memory.blank.writeWord pc98KbHead 0x0502#16).writeWord pc98KbTail
    (0x0502#16 + 2#16 * (count &&& 0x0f#8).setWidth 16)).writeByte pc98KbCount count
  received := received

/-- The same with Shift and Space held down. -/
def hotkeyHeld (hardware : Hardware) : Hardware :=
  { hardware with memory := (hardware.memory.writeByte 0x053a#16 0x01#8).writeByte 0x0530#16 0x10#8 }

/-- Press the hotkey, send HELLO 1, take its PONG and send OPEN_IME 2, while the
application lets the BIOS queue stay full. -/
def opening : List Action :=
  [.environment (hotkeyHeld (machine 16#8 [])), .returnedHotkey,
    .environment (machine 16#8 []), .foreground,
    .environment (machine 16#8 (imePacketBuild imePong 1#16 [])), .foreground]

example : (Run.run Action.apply opening (cleared 0x01#8 {})).toSession.expects ⟨imeText, 2#16, []⟩ =
    true := by
  decide +kernel

end ImeBridge
