import ImeBridge.Resident.Framer
import ImeBridge.Resident.Port

/-! # What the worker does not look at

Outside the receive loop the worker looks neither at the framer nor at the receive ring
or the UART.  What it does is therefore the same in two copies that differ there only.
-/

namespace ImeBridge

/-- The copy without anything received. -/
def Tsr.core (tsr : Tsr) : Tsr :=
  { tsr with
    rxPacket := []
    rxExpected := 0#16
    irqReadPos := 0#8
    irqWritePos := 0#8
    irqBuffer := fun _ => 0#8
    received := [] }

theorem session_of_core {tsr other : Tsr} (same : tsr.core = other.core) : tsr.toSession = other.toSession := by
  have sessions : tsr.core.toSession = other.core.toSession := by rw [same]
  exact sessions

/-- It does the same in a copy with nothing received. -/
def Overlooks (does : Tsr → Tsr) : Prop := ∀ tsr, (does tsr).core = (does tsr.core).core

namespace Overlooks

variable {does next : Tsr → Tsr}

theorem comp (first : Overlooks does) (second : Overlooks next) : Overlooks fun tsr => next (does tsr) := by
  intro tsr
  rw [second (does tsr), first tsr, ← second (does tsr.core)]

theorem alike (overlooks : Overlooks does) {tsr other : Tsr} (same : tsr.core = other.core) :
    (does tsr).core = (does other).core := by
  rw [overlooks tsr, overlooks other, same]

end Overlooks

/-! ## Sending and closing -/

theorem sendPacket_core (type : Byte) (sequence : Word) (payload : List Byte) (tsr : Tsr) :
    (sendPacket type sequence payload tsr).1 = (sendPacket type sequence payload tsr.core).1 ∧
      (sendPacket type sequence payload tsr).2.core = (sendPacket type sequence payload tsr.core).2.core := by
  simp only [sendPacket]
  split
  · exact ⟨rfl, rfl⟩
  · simp only [pc98SerialWrite, show tsr.core.serialOpened = tsr.serialOpened from rfl,
      show tsr.core.transmitLimits = tsr.transmitLimits from rfl]
    split
    · split
      · exact ⟨rfl, rfl⟩
      · exact ⟨rfl, rfl⟩
    · exact ⟨rfl, rfl⟩

theorem sendPacket_alike (type : Byte) (sequence : Word) (payload : List Byte) {tsr other : Tsr}
    (same : tsr.core = other.core) :
    (sendPacket type sequence payload tsr).1 = (sendPacket type sequence payload other).1 ∧
      (sendPacket type sequence payload tsr).2.core = (sendPacket type sequence payload other).2.core := by
  obtain ⟨outcome, sent⟩ := sendPacket_core type sequence payload tsr
  obtain ⟨outcome', sent'⟩ := sendPacket_core type sequence payload other
  rw [outcome, sent, outcome', sent', same]
  exact ⟨rfl, rfl⟩

theorem resetLink_overlooks : Overlooks resetLink := by
  intro tsr
  have saved : tsr.core.picMaskSaved = tsr.picMaskSaved := rfl
  simp only [resetLink, pc98TsrSerialCaptureEnd, saved]
  split
  · rfl
  · rfl

theorem sendOpenIme_overlooks : Overlooks sendOpenIme := by
  intro tsr
  let numbered : Tsr := { tsr with sequence := tsr.sequence + 1#16, openSequence := tsr.sequence + 1#16 }
  obtain ⟨outcome, sent⟩ := @sendPacket_alike imeOpenIme (tsr.sequence + 1#16) [] numbered numbered.core rfl
  simp only [sendOpenIme]
  change (if (sendPacket imeOpenIme (tsr.sequence + 1#16) [] numbered).1 then _ else _ : Tsr).core =
    (if (sendPacket imeOpenIme (tsr.sequence + 1#16) [] numbered.core).1 then _ else _ : Tsr).core
  rw [outcome]
  split
  · exact congrArg (fun tsr : Tsr =>
      ({ tsr with imeActive := true, openPending := false, waitTicks := 0#16 } : Tsr)) sent
  · exact congrArg (fun tsr => ({ tsr with openPending := true } : Tsr)) (resetLink_overlooks.alike sent)

theorem closeIme_overlooks : Overlooks closeIme := by
  intro tsr
  have told : (if tsr.linkState = .ready then (sendPacket imeCloseIme tsr.openSequence [] tsr).2 else tsr).core =
      (if tsr.core.linkState = .ready then
        (sendPacket imeCloseIme tsr.core.openSequence [] tsr.core).2 else tsr.core).core := by
    rw [show tsr.core.linkState = tsr.linkState from rfl]
    split
    · exact (sendPacket_alike imeCloseIme tsr.openSequence [] (show tsr.core = tsr.core.core from rfl)).2
    · rfl
  simp only [closeIme]
  generalize (if tsr.linkState = .ready then (sendPacket imeCloseIme tsr.openSequence [] tsr).2 else tsr) = rest
    at told
  generalize (if tsr.core.linkState = .ready then
    (sendPacket imeCloseIme tsr.core.openSequence [] tsr.core).2 else tsr.core) = other at told
  have link : rest.linkState = other.linkState := congrArg (fun tsr => tsr.linkState) told
  have closed : (if rest.linkState ≠ .closed then resetLink rest else rest).core =
      (if other.linkState ≠ .closed then resetLink other else other).core := by
    rw [link]
    split
    · exact resetLink_overlooks.alike told
    · exact told
  exact congrArg (fun tsr => ({ tsr with
    imeEnabled := false
    openPending := false
    imeActive := false
    pendingLength := 0
    pendingOffset := 0
    pendingKeyActive := false
    waitTicks := 0#16 } : Tsr)) closed

theorem handleParsed_overlooks (packet : Packet) : Overlooks (handleParsed packet) := by
  intro tsr
  have link : tsr.core.linkState = tsr.linkState := rfl
  have expects : tsr.core.toSession.expects packet = tsr.toSession.expects packet := rfl
  simp only [handleParsed, link, expects]
  split
  · simp only [show tsr.core.openPending = tsr.openPending from rfl]
    split
    · exact sendOpenIme_overlooks.alike rfl
    · rfl
  · split
    · rfl
    · split
      · split
        · rfl
        · rfl
      · split
        · exact closeIme_overlooks.alike rfl
        · rfl

theorem toggleImeHotkey_overlooks : Overlooks toggleImeHotkey := by
  intro tsr
  simp only [toggleImeHotkey, show tsr.core.imeEnabled = tsr.imeEnabled from rfl]
  split
  · exact closeIme_overlooks.alike rfl
  · rfl

theorem hotkeyStage_overlooks : Overlooks hotkeyStage := by
  intro tsr
  have memory : tsr.core.memory = tsr.memory := rfl
  by_cases held : tsr.HotkeyHeld
  · rw [hotkeyStage_held tsr held, hotkeyStage_held tsr.core held]
    simp only [memory]
    split
    · exact toggleImeHotkey_overlooks.alike rfl
    · rfl
  · rw [hotkeyStage_released tsr held, hotkeyStage_released tsr.core held]
    rfl

theorem pc98ServiceReturnedHotkey_overlooks : Overlooks fun tsr => (pc98ServiceReturnedHotkey tsr).2 := by
  intro tsr
  by_cases held : tsr.HotkeyHeld
  · have held' : tsr.core.HotkeyHeld := held
    simp only [pc98ServiceReturnedHotkey_eq, if_pos held, if_pos held', decide_eq_true held, decide_eq_true held']
    exact toggleImeHotkey_overlooks.alike rfl
  · have held' : ¬ tsr.core.HotkeyHeld := held
    simp only [pc98ServiceReturnedHotkey_eq, if_neg held, if_neg held', decide_eq_false held,
      decide_eq_false held']
    rfl

/-! ## Staged input -/

theorem enqueueNoting_core (event : Event) (key : Word) (tsr : Tsr) :
    (enqueueNoting event key tsr).1 = (enqueueNoting event key tsr.core).1 ∧
      (enqueueNoting event key tsr).2.core = (enqueueNoting event key tsr.core).2.core := by
  have memory : tsr.core.memory = tsr.memory := rfl
  simp only [enqueueNoting, memory]
  split
  · exact ⟨rfl, rfl⟩
  · exact ⟨rfl, rfl⟩

theorem injectTextLoop_alike (budget : Nat) {tsr other : Tsr} (same : tsr.core = other.core) :
    (injectTextLoop budget tsr).1 = (injectTextLoop budget other).1 ∧
      (injectTextLoop budget tsr).2.core = (injectTextLoop budget other).2.core := by
  induction budget generalizing tsr other with
  | zero => exact ⟨rfl, same⟩
  | succ budget inductionHypothesis =>
    have session : tsr.toSession = other.toSession := session_of_core same
    simp only [injectTextLoop, session]
    split
    · generalize pc98BiosEncodeKey other.pendingText other.pendingLength other.pendingOffset = encoded
      obtain ⟨room, queued⟩ := enqueueNoting_core (.queuedText encoded.1) encoded.1 tsr
      obtain ⟨room', queued'⟩ := enqueueNoting_core (.queuedText encoded.1) encoded.1 other
      rw [same, ← queued'] at queued
      rw [same, ← room'] at room
      generalize enqueueNoting (.queuedText encoded.1) encoded.1 tsr = outcome at room queued
      generalize enqueueNoting (.queuedText encoded.1) encoded.1 other = outcome' at room queued
      obtain ⟨succeeded, rest⟩ := outcome
      obtain ⟨succeeded', rest'⟩ := outcome'
      obtain rfl : succeeded = succeeded' := room
      cases succeeded with
      | false => exact ⟨rfl, queued⟩
      | true =>
        exact inductionHypothesis
          (congrArg (fun tsr : Tsr => ({ tsr with pendingOffset := encoded.2 + 1 } : Tsr)) queued)
    · exact ⟨rfl, same⟩

theorem injectPendingText_overlooks : Overlooks injectPendingText := by
  intro tsr
  obtain ⟨done, looped⟩ := @injectTextLoop_alike 16 tsr tsr.core rfl
  simp only [injectPendingText]
  generalize injectTextLoop 16 tsr = outcome at done looped
  generalize injectTextLoop 16 tsr.core = outcome' at done looped
  obtain ⟨finished, rest⟩ := outcome
  obtain ⟨finished', rest'⟩ := outcome'
  obtain rfl : finished = finished' := done
  have session : rest.toSession = rest'.toSession := session_of_core looped
  cases finished with
  | false => exact looped
  | true =>
    simp only [session]
    split
    · have answered := (sendPacket_alike imeTextAck rest'.pendingSequence [] looped).2
      exact congrArg (fun tsr : Tsr => ({ tsr with
        pendingLength := 0
        pendingOffset := 0
        imeActive := false
        openPending := tsr.imeEnabled } : Tsr)) answered
    · exact looped

theorem injectPendingKey_overlooks : Overlooks injectPendingKey := by
  intro tsr
  obtain ⟨room, queued⟩ := enqueueNoting_core (.queuedKey tsr.pendingKey) tsr.pendingKey tsr
  simp only [injectPendingKey, show tsr.core.pendingKey = tsr.pendingKey from rfl]
  generalize enqueueNoting (.queuedKey tsr.pendingKey) tsr.pendingKey tsr = outcome at room queued
  generalize enqueueNoting (.queuedKey tsr.pendingKey) tsr.pendingKey tsr.core = outcome' at room queued
  obtain ⟨succeeded, rest⟩ := outcome
  obtain ⟨succeeded', rest'⟩ := outcome'
  obtain rfl : succeeded = succeeded' := room
  have session : rest.toSession = rest'.toSession := session_of_core queued
  cases succeeded with
  | false => exact queued
  | true =>
    simp only [session]
    have answered := (sendPacket_alike imeKeyAck rest'.pendingSequence [] queued).2
    exact congrArg (fun tsr : Tsr => ({ tsr with
      pendingKeyActive := false
      imeActive := false
      openPending := tsr.imeEnabled } : Tsr)) answered

theorem injectStage_overlooks : Overlooks injectStage := by
  intro tsr
  have first : (if tsr.pendingLength ≠ 0 then injectPendingText tsr else tsr).core =
      (if tsr.core.pendingLength ≠ 0 then injectPendingText tsr.core else tsr.core).core := by
    rw [show tsr.core.pendingLength = tsr.pendingLength from rfl]
    split
    · exact injectPendingText_overlooks tsr
    · rfl
  simp only [injectStage]
  generalize (if tsr.pendingLength ≠ 0 then injectPendingText tsr else tsr) = rest at first
  generalize (if tsr.core.pendingLength ≠ 0 then injectPendingText tsr.core else tsr.core) = other at first
  have active : rest.pendingKeyActive = other.pendingKeyActive := congrArg (fun tsr => tsr.pendingKeyActive) first
  rw [active]
  split
  · exact injectPendingKey_overlooks.alike first
  · exact first

/-! ## Opening the link and the timer -/

theorem startLink_overlooks : Overlooks startLink := by
  intro tsr
  let numbered : Tsr → Tsr := fun tsr =>
    { pc98TsrSerialCaptureBegin (pc98SerialOpen tsr) with sequence := tsr.sequence + 1#16 }
  obtain ⟨outcome, sent⟩ := @sendPacket_alike imeHello (tsr.sequence + 1#16) hello
    (numbered tsr) (numbered tsr.core) rfl
  simp only [startLink]
  change (if (sendPacket imeHello (tsr.sequence + 1#16) hello (numbered tsr)).1 then _ else _ : Tsr).core =
    (if (sendPacket imeHello (tsr.sequence + 1#16) hello (numbered tsr.core)).1 then _ else _ : Tsr).core
  rw [outcome]
  split
  · exact congrArg (fun tsr : Tsr => ({ tsr with linkState := .helloWait, waitTicks := 0#16 } : Tsr)) sent
  · exact resetLink_overlooks.alike sent

theorem openStage_overlooks : Overlooks openStage := by
  intro tsr
  have session : tsr.core.toSession = tsr.toSession := rfl
  simp only [openStage, session]
  split
  · split
    · exact sendOpenIme_overlooks tsr
    · split
      · exact startLink_overlooks tsr
      · rfl
  · rfl

theorem tickStage_overlooks : Overlooks tickStage := by
  intro tsr
  have session : tsr.core.toSession = tsr.toSession := rfl
  simp only [tickStage, session]
  split
  · split
    · exact congrArg (fun tsr : Tsr => ({ tsr with imeEnabled := false, openPending := false } : Tsr))
        (resetLink_overlooks { tsr with waitTicks := tsr.waitTicks + 1#16 })
    · rfl
  · rfl

/-! ## A received byte -/

/-- A byte that completes nothing only goes to the framer. -/
theorem acceptByte_incomplete {value : Byte} {tsr : Tsr} (incomplete : (tsr.framer.accept value).1 = none) :
    (acceptByte value tsr).core = tsr.core := by
  revert incomplete
  dsimp only [acceptByte, Framer.accept, Tsr.framer]
  split_ifs
  all_goals first | exact fun _ => rfl | exact False.elim

/-- The byte that completes a good frame has its packet handled. -/
theorem acceptByte_complete {value : Byte} {tsr : Tsr} {frame : Frame} (good : frame.Good)
    (complete : (tsr.framer.accept value).1 = some frame.bytes) :
    (acceptByte value tsr).core = (handleParsed frame.packet tsr).core := by
  have parsed : imePacketParse frame.bytes = some frame.packet := by rw [frame.imePacketParse_bytes, if_pos good]
  have handled : ∀ rest : Tsr, rest.core = tsr.core → rest.rxPacket = frame.bytes →
      (handlePacket rest).core = (handleParsed frame.packet tsr).core := by
    intro rest same buffer
    rw [handlePacket, buffer, parsed]
    exact (handleParsed_overlooks frame.packet).alike same
  revert complete
  dsimp only [acceptByte, Framer.accept, Tsr.framer]
  split_ifs
  all_goals
    first
    | exact False.elim
    | exact fun nothing => Option.noConfusion nothing
    | exact fun buffer => handled _ rfl (Option.some.inj buffer)

theorem acceptByte_framer (value : Byte) (tsr : Tsr) :
    (acceptByte value tsr).framer = (tsr.framer.accept value).2 := by
  rw [← acceptByteNoting_state]
  exact (acceptByteNoting_framer value tsr).2

/-- The interrupt puts the byte into the ring and does nothing else. -/
theorem irqStore_core (value : Byte) (tsr : Tsr) :
    (irqStore value tsr).core = tsr.core ∧ (irqStore value tsr).framer = tsr.framer := by
  simp only [irqStore]
  split
  · exact ⟨rfl, rfl⟩
  · exact ⟨rfl, rfl⟩

end ImeBridge
