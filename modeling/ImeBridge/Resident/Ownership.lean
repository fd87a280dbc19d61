import ImeBridge.Resident.Consistency
import ImeBridge.Resident.Port

/-! # COM1's interrupt belongs to the session

The interrupt mask is saved when a session begins and put back when it ends, on
every path; a second save without a restore in between would lose it for good.
-/

namespace ImeBridge

open Library

/-- With the link down nothing is held; with the link up the mask before the session
is kept aside, and COM1's bit alone is cleared in it. -/
structure Port.Owned (original : Byte) (port : Port) : Prop where
  capture : port.capture = port.up
  maskSaved : port.maskSaved = port.up
  savedMask : port.up = true → port.savedMask = original
  picMask : port.picMask = if port.up then original &&& ~~~0x10#8 else original

namespace Port.Owned

variable {original : Byte} {port next : Port}

theorem released (owned : port.Owned original) : port.released.Owned original := by
  refine ⟨rfl, rfl, by simp [Port.released], ?_⟩
  cases up : port.up with
  | false =>
    have saved := owned.maskSaved
    have mask := owned.picMask
    simp_all [Port.released]
  | true =>
    have saved := owned.maskSaved
    simp [Port.released, saved, up, owned.savedMask up]

/-- A session only begins where none is up: the mask that is saved is the original. -/
theorem claimed (owned : port.Owned original) (down : port.up = false) :
    port.claimed.Owned original := by
  have mask := owned.picMask
  rw [down] at mask
  exact
    { capture := rfl
      maskSaved := rfl
      savedMask := fun _ => mask
      picMask := by simp [Port.claimed, mask] }

theorem step (does : Port.Step port next) (owned : port.Owned original) : next.Owned original := by
  cases does with
  | released => exact owned.released
  | claimed down => exact owned.claimed down
  | fetched => exact ⟨owned.capture, owned.maskSaved, owned.savedMask, owned.picMask⟩
  | stored => exact ⟨owned.capture, owned.maskSaved, owned.savedMask, owned.picMask⟩

end Port.Owned

/-- Nobody else writes the interrupt mask. -/
def MaskAlone (tsr : Tsr) (action : Action) : Prop :=
  ∀ hardware, action = .environment hardware → hardware.picMask = tsr.picMask

theorem Action.owned {original : Byte} (tsr : Tsr) (action : Action) (owned : tsr.port.Owned original)
    (alone : MaskAlone tsr action) : (action.apply tsr).port.Owned original := by
  by_cases outside : ∃ hardware, action = .environment hardware
  · obtain ⟨hardware, rfl⟩ := outside
    have mask : hardware.picMask = tsr.picMask := alone hardware rfl
    exact ⟨owned.capture, owned.maskSaved, owned.savedMask, mask.trans owned.picMask⟩
  · have steps := action.port_steps tsr fun hardware same => outside ⟨hardware, same⟩
    exact steps.preserves (fun _ _ does => Port.Owned.step does) owned

theorem cleared_owned (modifierMask : Byte) (hardware : Hardware) :
    (cleared modifierMask hardware).port.Owned hardware.picMask :=
  ⟨rfl, rfl, by simp [cleared, Tsr.port], by simp [cleared, Tsr.port]⟩

/-- `close_ime` ends in LINK_CLOSED from any state. -/
theorem closeIme_down (tsr : Tsr) : (closeIme tsr).linkState = .closed := by
  obtain ⟨written, succeeded, closes⟩ := closeIme_session tsr
  exact congrArg Session.linkState closes

/-- The interrupt is held for the time of a session only: with the link down capture
is off, no mask is saved and the mask is the one before the first session; with the
link up capture is on and that mask has COM1's bit alone cleared.  `/U` always ends
in the first case. -/
theorem interrupt_bounded_to_session (modifierMask : Byte) (hardware : Hardware) (actions : List Action)
    (alone : Run.AllSteps Action.apply MaskAlone actions (cleared modifierMask hardware)) :
    let tsr := Run.run Action.apply actions (cleared modifierMask hardware)
    (tsr.linkState = .closed →
      tsr.irqCapture = false ∧ tsr.picMaskSaved = false ∧ tsr.picMask = hardware.picMask) ∧
    (tsr.linkState ≠ .closed →
      tsr.irqCapture = true ∧ tsr.picMask = hardware.picMask &&& ~~~0x10#8) ∧
    let removed := pc98PrepareUninstall tsr
    removed.linkState = .closed ∧ removed.irqCapture = false ∧ removed.picMaskSaved = false ∧
      removed.picMask = hardware.picMask := by
  intro tsr
  have owned : tsr.port.Owned hardware.picMask := Run.invariant_of_allSteps Action.apply
    (fun state action => Action.owned state action) (cleared_owned modifierMask hardware) alone
  have free : ∀ rest : Tsr, rest.port.Owned hardware.picMask → rest.linkState = .closed →
      rest.irqCapture = false ∧ rest.picMaskSaved = false ∧ rest.picMask = hardware.picMask := by
    intro rest owned link
    have down : rest.port.up = false := by simp [Tsr.port, link]
    have capture := owned.capture
    have saved := owned.maskSaved
    have mask := owned.picMask
    rw [down] at capture saved mask
    exact ⟨capture, saved, mask⟩
  refine ⟨free tsr owned, fun link => ?_, closeIme_down tsr, free _ ?_ (closeIme_down tsr)⟩
  · have up : tsr.port.up = true := by simp [Tsr.port, link]
    have capture := owned.capture
    have mask := owned.picMask
    rw [up] at capture mask
    exact ⟨capture, mask⟩
  · exact (closeIme_serves tsr).port.steps.preserves (fun _ _ does => Port.Owned.step does) owned

/-- Press the hotkey and send HELLO, with nobody else at the mask. -/
def greeted : List Action :=
  [.environment (hotkeyHeld (machine 16#8 [])), .returnedHotkey, .environment (machine 16#8 []),
    .foreground]

theorem interrupt_bounded_to_session_greeted :
    (Run.run Action.apply greeted (cleared 0x01#8 {})).picMask = 0xef#8 := by
  have alone : Run.AllSteps Action.apply MaskAlone greeted (cleared 0x01#8 {}) := by
    refine ⟨?_, ?_, ?_, ?_, trivial⟩
    · rintro hardware ⟨⟩
      rfl
    · rintro hardware ⟨⟩
    · rintro hardware ⟨⟩
      decide +kernel
    · rintro hardware ⟨⟩
  have up : (Run.run Action.apply greeted (cleared 0x01#8 {})).linkState ≠ .closed := by
    decide +kernel
  exact ((interrupt_bounded_to_session 0x01#8 {} greeted alone).2.1 up).2

end ImeBridge
