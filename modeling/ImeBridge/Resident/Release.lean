import ImeBridge.Resident.Framer
import ImeBridge.Resident.Port

/-! # The framer and COM1 are given up together

Outside the receive loop and `start_link` the worker leaves the framer and COM1 alone,
or brings the link down and empties the framer with it.
-/

namespace ImeBridge

/-- COM1 and the framer are left alone. -/
structure Tsr.Leaves (tsr next : Tsr) : Prop where
  port : next.port = tsr.port
  framer : next.framer = tsr.framer

/-- COM1 and the framer are left alone, or both are given up. -/
def Tsr.Spares (tsr next : Tsr) : Prop :=
  tsr.Leaves next ∨ (next.port = tsr.port.released ∧ next.framer = {})

namespace Tsr

variable {tsr middle next : Tsr}

theorem Leaves.trans (first : tsr.Leaves middle) (second : middle.Leaves next) : tsr.Leaves next :=
  ⟨second.port.trans first.port, second.framer.trans first.framer⟩

namespace Spares

theorem refl (tsr : Tsr) : tsr.Spares tsr := .inl ⟨rfl, rfl⟩

theorem trans (first : tsr.Spares middle) (second : middle.Spares next) : tsr.Spares next := by
  cases first with
  | inl left =>
    cases second with
    | inl again => exact .inl (left.trans again)
    | inr released => exact .inr ⟨left.port ▸ released.1, released.2⟩
  | inr released =>
    cases second with
    | inl left => exact .inr ⟨left.port.trans released.1, left.framer.trans released.2⟩
    | inr again =>
      refine .inr ⟨?_, again.2⟩
      rw [again.1, released.1, Port.released_released]

theorem kept (spares : tsr.Spares next) : tsr.port.Kept next.port := spares.imp Leaves.port And.left

end Spares

end Tsr

variable (tsr : Tsr)

theorem sendPacket_leaves (type : Byte) (sequence : Word) :
    tsr.Leaves (sendPacket type sequence [] tsr).2 := by
  obtain ⟨written, succeeded, limits, sends⟩ := sendPacket_eq tsr type sequence [] (Nat.zero_le _)
  rw [sends]
  exact ⟨rfl, rfl⟩

theorem resetLink_spares : tsr.Spares (resetLink tsr) := .inr ⟨resetLink_port tsr, rfl⟩

theorem sendOpenIme_spares : tsr.Spares (sendOpenIme tsr) := by
  have numbered : tsr.Spares
      { tsr with sequence := tsr.sequence + 1#16, openSequence := tsr.sequence + 1#16 } := .inl ⟨rfl, rfl⟩
  have sent := numbered.trans (.inl (sendPacket_leaves _ imeOpenIme (tsr.sequence + 1#16)))
  simp only [sendOpenIme]
  split
  · exact sent.trans (.inl ⟨rfl, rfl⟩)
  · exact (sent.trans (resetLink_spares _)).trans (.inl ⟨rfl, rfl⟩)

theorem closeIme_spares : tsr.Spares (closeIme tsr) := by
  have told : tsr.Spares (if tsr.linkState = .ready then
      (sendPacket imeCloseIme tsr.openSequence [] tsr).2 else tsr) := by
    split
    · exact .inl (sendPacket_leaves tsr _ _)
    · exact .refl tsr
  simp only [closeIme]
  generalize (if tsr.linkState = .ready then (sendPacket imeCloseIme tsr.openSequence [] tsr).2
    else tsr) = rest at told
  have closed : tsr.Spares (if rest.linkState ≠ .closed then resetLink rest else rest) := by
    split
    · exact told.trans (resetLink_spares rest)
    · exact told
  exact closed.trans (.inl ⟨rfl, rfl⟩)

theorem toggleImeHotkey_spares : tsr.Spares (toggleImeHotkey tsr) := by
  simp only [toggleImeHotkey]
  split
  · have noted : tsr.Spares (tsr.note (.toggled false)) := .inl ⟨rfl, rfl⟩
    exact noted.trans (closeIme_spares _)
  · exact .inl ⟨rfl, rfl⟩

theorem hotkeyStage_spares : tsr.Spares (hotkeyStage tsr) := by
  by_cases held : tsr.HotkeyHeld
  · rw [hotkeyStage_held tsr held]
    have polled : tsr.Spares { tsr with
        memory := (pc98BiosDiscardHotkeySpace tsr.memory).2
        hotkeyLatched := true } := .inl ⟨rfl, rfl⟩
    dsimp only
    split
    · exact polled.trans (toggleImeHotkey_spares _)
    · exact polled
  · rw [hotkeyStage_released tsr held]
    exact .inl ⟨rfl, rfl⟩

theorem pc98ServiceReturnedHotkey_spares : tsr.Spares (pc98ServiceReturnedHotkey tsr).2 := by
  obtain ⟨-, latched⟩ := pc98PollHotkey_spec tsr
  simp only [pc98ServiceReturnedHotkey, latched]
  split
  · have polled : tsr.Spares { tsr with hotkeyLatched := decide tsr.HotkeyHeld } := .inl ⟨rfl, rfl⟩
    exact polled.trans (toggleImeHotkey_spares _)
  · exact .inl ⟨rfl, rfl⟩

/-! ## Staged input -/

theorem injectTextLoop_leaves (budget : Nat) : tsr.Leaves (injectTextLoop budget tsr).2 :=
  @injectTextLoop_rule tsr Tsr.Leaves (fun _ => ⟨rfl, rfl⟩) (fun _ _ _ _ => ⟨rfl, rfl⟩)
    (fun _ _ _ _ _ _ _ _ later => ⟨later.port, later.framer⟩) budget

theorem injectPendingText_leaves : tsr.Leaves (injectPendingText tsr) := by
  have loop := injectTextLoop_leaves tsr 16
  obtain ⟨rest, sent, looped, sends, waits | ⟨-, answers⟩⟩ := injectPendingText_cases tsr
  · rwa [waits, ← looped]
  · have sending := sendPacket_leaves rest imeTextAck rest.pendingSequence
    rw [looped] at loop
    rw [sends] at sending
    rw [answers]
    exact ⟨sending.port.trans loop.port, sending.framer.trans loop.framer⟩

theorem injectPendingKey_leaves : tsr.Leaves (injectPendingKey tsr) := by
  obtain ⟨memory, ⟨-, refused⟩ | ⟨-, rest, sent, queued, sends, answers⟩⟩ := injectPendingKey_cases tsr
  · rw [refused]
    exact ⟨rfl, rfl⟩
  · have sending := sendPacket_leaves rest imeKeyAck rest.pendingSequence
    rw [sends] at sending
    rw [answers]
    rw [← queued] at sending
    exact ⟨sending.port, sending.framer⟩

theorem injectStage_leaves : tsr.Leaves (injectStage tsr) :=
  @injectStage_rule tsr Tsr.Leaves ⟨rfl, rfl⟩ (fun _ => injectPendingText_leaves tsr)
    (fun rest text _ => text.trans (injectPendingKey_leaves rest))

/-! ## Opening the link and the timer -/

/-- Opening the link does not touch the framer, or fails and empties it. -/
theorem startLink_spares : Tsr.port (startLink tsr) = tsr.port.claimed ∧ (startLink tsr).framer = tsr.framer ∨
    Tsr.port (startLink tsr) = tsr.port.claimed.released ∧ (startLink tsr).framer = {} := by
  obtain ⟨written, succeeded, limits, sends⟩ := sendPacket_eq
    { pc98TsrSerialCaptureBegin (pc98SerialOpen tsr) with sequence := tsr.sequence + 1#16 }
    imeHello (tsr.sequence + 1#16) hello (by decide)
  simp only [startLink]
  rw [show (pc98TsrSerialCaptureBegin (pc98SerialOpen tsr)).sequence = tsr.sequence from rfl, sends]
  cases succeeded with
  | true => exact .inl ⟨rfl, rfl⟩
  | false =>
    refine .inr ⟨?_, rfl⟩
    simp only [Bool.false_eq_true, if_false, resetLink_port]
    rfl

theorem openStage_spares (stays : ¬ tsr.Starts) : tsr.Spares (openStage tsr) := by
  simp only [openStage]
  split_ifs with wanted ready closed
  · exact sendOpenIme_spares tsr
  · exact absurd ⟨wanted.1, by simpa using wanted.2, closed⟩ stays
  · exact .refl tsr
  · exact .refl tsr

theorem tickStage_spares : tsr.Spares (tickStage tsr) := by
  simp only [tickStage]
  split_ifs
  · have ticked : tsr.Spares { tsr with waitTicks := tsr.waitTicks + 1#16 } := .inl ⟨rfl, rfl⟩
    exact (ticked.trans (resetLink_spares _)).trans (.inl ⟨rfl, rfl⟩)
  · exact .inl ⟨rfl, rfl⟩
  · exact .refl tsr

end ImeBridge
