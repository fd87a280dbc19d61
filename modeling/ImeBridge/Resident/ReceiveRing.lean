import ImeBridge.Library.Run
import ImeBridge.Library.CircularBuffer
import ImeBridge.Resident.Serial

/-! # The interrupt receive ring is a bounded FIFO

The producer is the ring part of `pc98_serial_irq_hook`, the consumer
`pc98_tsr_serial_try_read_byte`.  No count is kept: equal positions mean an empty ring,
so one of the 128 slots stays free.
-/

namespace ImeBridge

open Library

/-! ## Positions -/

/-- Both sides mask a position to its low seven bits. -/
theorem nextPosition_toNat (position : Byte) :
    ((position + 1#8) &&& 0x7f#8).toNat = (position.toNat + 1) % 128 := by
  rw [BitVec.toNat_and, BitVec.toNat_add]
  change (position.toNat + 1) % 2 ^ 8 &&& 2 ^ 7 - 1 = (position.toNat + 1) % 128
  rw [Nat.and_two_pow_sub_one_eq_mod]
  omega

namespace Tsr

variable {tsr : Tsr}

/-- The number of bytes from the read position to the write position. -/
def unreadCount (tsr : Tsr) : Nat := (tsr.irqWritePos.toNat + 128 - tsr.irqReadPos.toNat) % 128

def ringSlot (tsr : Tsr) (index : Nat) : Byte := tsr.irqBuffer (BitVec.ofNat 8 index)

/-- The bytes stored and not yet read, oldest first. -/
def unread (tsr : Tsr) : List Byte :=
  CircularBuffer.contents tsr.ringSlot 128 tsr.irqReadPos.toNat tsr.unreadCount

/-- `pc98_serial_irq_buffer` has 128 bytes. -/
structure RingBounded (tsr : Tsr) : Prop where
  readPos : tsr.irqReadPos.toNat < 128
  writePos : tsr.irqWritePos.toNat < 128

@[simp] theorem length_unread : tsr.unread.length = tsr.unreadCount := by simp [unread]

theorem unreadCount_le : tsr.unreadCount ≤ 127 := by
  unfold unreadCount
  omega

theorem ringSlot_toNat (position : Byte) : tsr.ringSlot position.toNat = tsr.irqBuffer position := by
  simp [ringSlot]

namespace RingBounded

/-- The write position is the slot behind the last unread byte. -/
theorem writePos_eq (bounded : tsr.RingBounded) :
    tsr.irqWritePos.toNat = (tsr.irqReadPos.toNat + tsr.unreadCount) % 128 := by
  have := bounded.readPos
  have := bounded.writePos
  unfold unreadCount
  omega

theorem empty_iff (bounded : tsr.RingBounded) :
    tsr.irqReadPos = tsr.irqWritePos ↔ tsr.unreadCount = 0 := by
  have := bounded.readPos
  have := bounded.writePos
  rw [← BitVec.toNat_inj]
  unfold unreadCount
  omega

/-- The next write position would be the read position: 127 bytes are unread. -/
theorem full_iff (bounded : tsr.RingBounded) :
    (tsr.irqWritePos + 1#8) &&& 0x7f#8 = tsr.irqReadPos ↔ tsr.unreadCount = 127 := by
  have := bounded.readPos
  have := bounded.writePos
  rw [← BitVec.toNat_inj, nextPosition_toNat]
  unfold unreadCount
  omega

end RingBounded

/-! ## The two sides -/

/-- After `capture_begin` nothing is unread, whatever the buffer holds. -/
theorem captureBegin_ring (tsr : Tsr) :
    (pc98TsrSerialCaptureBegin tsr).RingBounded ∧ (pc98TsrSerialCaptureBegin tsr).unread = [] := by
  have bounded : (pc98TsrSerialCaptureBegin tsr).RingBounded :=
    ⟨Nat.zero_lt_succ 127, Nat.zero_lt_succ 127⟩
  have empty : (pc98TsrSerialCaptureBegin tsr).unreadCount = 0 := bounded.empty_iff.mp rfl
  exact ⟨bounded, List.length_eq_zero_iff.mp (length_unread.trans empty)⟩

namespace RingBounded

theorem store_full (bounded : tsr.RingBounded) (full : tsr.unreadCount = 127) (value : Byte) :
    irqStore value tsr = tsr := by
  have meets := bounded.full_iff.mpr full
  simp only [irqStore, if_pos meets]

theorem store_room (bounded : tsr.RingBounded) (room : tsr.unreadCount < 127) (value : Byte) :
    (irqStore value tsr).RingBounded ∧ (irqStore value tsr).unread = tsr.unread ++ [value] := by
  have apart : ¬ (tsr.irqWritePos + 1#8) &&& 0x7f#8 = tsr.irqReadPos := by
    rw [bounded.full_iff]
    omega
  simp only [irqStore, if_neg apart]
  generalize stored : { tsr with
    irqBuffer := fun position => if position = tsr.irqWritePos then value else tsr.irqBuffer position
    irqWritePos := (tsr.irqWritePos + 1#8) &&& 0x7f#8 } = tsr'
  have sameRead : tsr'.irqReadPos = tsr.irqReadPos := by rw [← stored]
  have newWrite : tsr'.irqWritePos.toNat = (tsr.irqWritePos.toNat + 1) % 128 := by
    rw [← stored, nextPosition_toNat]
  have readBound := bounded.readPos
  have writeBound := bounded.writePos
  have newCount : tsr'.unreadCount = tsr.unreadCount + 1 := by
    unfold Tsr.unreadCount at room ⊢
    rw [sameRead, newWrite]
    omega
  have slots : ∀ index, index < 128 → tsr'.ringSlot index =
      if index = tsr.irqWritePos.toNat then value else tsr.ringSlot index := by
    intro index bound
    have same : BitVec.ofNat 8 index = tsr.irqWritePos ↔ index = tsr.irqWritePos.toNat := by
      rw [← BitVec.toNat_inj, BitVec.toNat_ofNat, Nat.mod_eq_of_lt (by omega)]
    simp only [Tsr.ringSlot, ← stored, same]
  refine ⟨⟨by rwa [sameRead], by omega⟩, ?_⟩
  rw [Tsr.unread, Tsr.unread, sameRead, newCount]
  apply CircularBuffer.contents_store (by omega)
  · rw [slots _ (Nat.mod_lt _ (by decide)), if_pos bounded.writePos_eq.symm]
  · intro index bound other
    rw [slots index bound, if_neg (bounded.writePos_eq ▸ other)]

theorem read_empty (bounded : tsr.RingBounded) (empty : tsr.unreadCount = 0) :
    pc98TsrSerialTryReadByte tsr = (none, tsr) := by
  have meets := bounded.empty_iff.mpr empty
  simp only [pc98TsrSerialTryReadByte, if_pos meets]

theorem read_waiting (bounded : tsr.RingBounded) (waiting : tsr.unreadCount ≠ 0) :
    ∃ oldest, (pc98TsrSerialTryReadByte tsr).1 = some oldest ∧
      (pc98TsrSerialTryReadByte tsr).2.RingBounded ∧
      tsr.unread = oldest :: (pc98TsrSerialTryReadByte tsr).2.unread := by
  have apart : ¬ tsr.irqReadPos = tsr.irqWritePos := bounded.empty_iff.not.mpr waiting
  simp only [pc98TsrSerialTryReadByte, if_neg apart]
  generalize taken : { tsr with irqReadPos := (tsr.irqReadPos + 1#8) &&& 0x7f#8 } = tsr'
  have newRead : tsr'.irqReadPos.toNat = (tsr.irqReadPos.toNat + 1) % 128 := by
    rw [← taken, nextPosition_toNat]
  have sameWrite : tsr'.irqWritePos = tsr.irqWritePos := by rw [← taken]
  have sameSlots : tsr'.ringSlot = tsr.ringSlot := by rw [← taken]; rfl
  have readBound := bounded.readPos
  have writeBound := bounded.writePos
  have newCount : tsr.unreadCount = tsr'.unreadCount + 1 := by
    unfold Tsr.unreadCount at waiting ⊢
    rw [newRead, sameWrite]
    omega
  refine ⟨_, rfl, ⟨by omega, by rwa [sameWrite]⟩, ?_⟩
  rw [Tsr.unread, Tsr.unread, newCount, CircularBuffer.contents_succ_first, newRead, sameSlots,
    Nat.mod_eq_of_lt readBound, Tsr.ringSlot_toNat]

end RingBounded

end Tsr

/-! ## The refinement -/

/-- What `pc98_tsr_serial_try_read_byte` returns as an `int`: -1 for no byte, and an
`unsigned char` with zeros above it. -/
def readResult : Option Byte → Word
  | none => 0xffff#16
  | some value => value.setWidth 16

/-- A byte from 80h on is returned as it is, and none is taken for -1. -/
theorem readResult_toInt (read : Option Byte) :
    (readResult read).toInt = read.elim (-1) fun value => (value.toNat : Int) := by
  cases read with
  | none => decide
  | some value =>
    have bound := value.isLt
    simp only [readResult, Option.elim_some]
    rw [BitVec.toInt_eq_toNat_of_lt (by rw [BitVec.toNat_setWidth]; omega), BitVec.toNat_setWidth]
    omega

inductive RingStep where
  | store (value : Byte)
  | read

/-- A store answers nothing. -/
def RingStep.apply (step : RingStep) (tsr : Tsr) : Option Word × Tsr :=
  match step with
  | .store value => (none, irqStore value tsr)
  | .read => (pc98TsrSerialTryReadByte tsr).map (fun read => some (readResult read)) id

/-- The same steps on a list of at most 127 bytes. -/
def RingStep.abstract (step : RingStep) (queue : List Byte) : Option Word × List Byte :=
  match step with
  | .store value => (none, (BoundedFifo.push 127 value queue).2)
  | .read => (BoundedFifo.pop queue).map (fun read => some (readResult read)) id

namespace Tsr.RingBounded

variable {tsr : Tsr}

/-- A full ring refuses the byte and stays as it is. -/
theorem store_spec (bounded : tsr.RingBounded) (value : Byte) :
    (irqStore value tsr).RingBounded ∧
      (irqStore value tsr).unread = (BoundedFifo.push 127 value tsr.unread).2 ∧
      (tsr.unread.length = 127 → irqStore value tsr = tsr) := by
  have countLe : tsr.unreadCount ≤ 127 := unreadCount_le
  rw [BoundedFifo.push, length_unread]
  by_cases room : tsr.unreadCount < 127
  · obtain ⟨bounded', appended⟩ := bounded.store_room room value
    rw [if_pos room]
    exact ⟨bounded', appended, fun full => absurd full room.ne⟩
  · have unchanged := bounded.store_full (by omega) value
    rw [if_neg room, unchanged]
    exact ⟨bounded, rfl, fun _ => rfl⟩

theorem read_spec (bounded : tsr.RingBounded) :
    (pc98TsrSerialTryReadByte tsr).1 = (BoundedFifo.pop tsr.unread).1 ∧
      (pc98TsrSerialTryReadByte tsr).2.RingBounded ∧
      (pc98TsrSerialTryReadByte tsr).2.unread = (BoundedFifo.pop tsr.unread).2 := by
  by_cases empty : tsr.unreadCount = 0
  · have nothing : tsr.unread = [] := List.length_eq_zero_iff.mp (length_unread.trans empty)
    rw [bounded.read_empty empty, nothing]
    exact ⟨rfl, bounded, rfl⟩
  · obtain ⟨oldest, taken, bounded', split⟩ := bounded.read_waiting empty
    rw [split, taken]
    exact ⟨rfl, bounded', rfl⟩

/-- One step answers as the list does and keeps the positions below 128. -/
theorem step_spec (bounded : tsr.RingBounded) (step : RingStep) :
    (step.apply tsr).1 = (step.abstract tsr.unread).1 ∧ (step.apply tsr).2.RingBounded ∧
      (step.apply tsr).2.unread = (step.abstract tsr.unread).2 := by
  cases step with
  | store value =>
    obtain ⟨bounded', stored, -⟩ := bounded.store_spec value
    exact ⟨rfl, bounded', stored⟩
  | read =>
    obtain ⟨answer, bounded', rest⟩ := bounded.read_spec
    exact ⟨congrArg (fun read => some (readResult read)) answer, bounded', rest⟩

end Tsr.RingBounded

/-- From `capture_begin` on the receive ring is a FIFO of at most 127 bytes: any stores and
reads get the answers of the list automaton, both positions stay below 128, and the ring
holds that list.  At every point a store appends its byte or, with 127 bytes unread, changes
nothing, and a read returns -1 if no byte is unread and otherwise takes the oldest. -/
theorem receiveRing_refines_fifo (tsr : Tsr) (steps : List RingStep) :
    let concrete := Run.respond RingStep.apply steps (pc98TsrSerialCaptureBegin tsr)
    let abstract := Run.respond RingStep.abstract steps []
    let ring := concrete.2
    (concrete.1 = abstract.1 ∧ ring.unread = abstract.2) ∧
      ring.irqReadPos < 128#8 ∧ ring.irqWritePos < 128#8 ∧ ring.unread.length ≤ 127 ∧
      (∀ value, (ring.unread.length < 127 → (irqStore value ring).unread = ring.unread ++ [value]) ∧
        (ring.unread.length = 127 → irqStore value ring = ring)) ∧
      ((readResult (pc98TsrSerialTryReadByte ring).1).toInt = -1 ↔ ring.unread = []) ∧
      ∀ oldest later, ring.unread = oldest :: later →
        (readResult (pc98TsrSerialTryReadByte ring).1).toInt = oldest.toNat ∧
          (pc98TsrSerialTryReadByte ring).2.unread = later := by
  intro concrete abstract ring
  have refines : ∀ (step : RingStep) (low : Tsr) (high : List Byte),
      low.RingBounded ∧ low.unread = high →
        (step.apply low).1 = (step.abstract high).1 ∧
          (step.apply low).2.RingBounded ∧ (step.apply low).2.unread = (step.abstract high).2 := by
    rintro step low _ ⟨bounded, rfl⟩
    exact bounded.step_spec step
  obtain ⟨sameAnswers, bounded, sameList⟩ :=
    Run.respond_refines refines steps (Tsr.captureBegin_ring tsr)
  have ringBounded : ring.RingBounded := bounded
  have readLimit : ring.irqReadPos < 128#8 := ringBounded.readPos
  have writeLimit : ring.irqWritePos < 128#8 := ringBounded.writePos
  obtain ⟨answer, -, rest⟩ := ringBounded.read_spec
  refine ⟨⟨sameAnswers, sameList⟩, readLimit, writeLimit, ?_, ?_, ?_, ?_⟩
  · rw [Tsr.length_unread]
    exact Tsr.unreadCount_le
  · intro value
    obtain ⟨-, stored, full⟩ := ringBounded.store_spec value
    refine ⟨fun room => ?_, full⟩
    rw [stored, BoundedFifo.push, if_pos room]
  · rw [readResult_toInt, answer]
    cases ring.unread with
    | nil => simp [BoundedFifo.pop]
    | cons oldest later => simp [BoundedFifo.pop]
  · intro oldest later waiting
    rw [readResult_toInt, answer, rest, waiting]
    exact ⟨rfl, rfl⟩

/-! ## A read that is interrupted -/

/-- Interrupts one after the other. -/
def irqStores (values : List Byte) (tsr : Tsr) : Tsr := values.foldl (fun tsr value => irqStore value tsr) tsr

/-- `pc98_tsr_serial_try_read_byte` with interrupts between its accesses to the ring. -/
def interruptedRead (afterPosition afterTest afterValue : List Byte) (tsr : Tsr) : Option Byte × Tsr :=
  let position := tsr.irqReadPos
  let tsr := irqStores afterPosition tsr
  if position = tsr.irqWritePos then (none, irqStores (afterTest ++ afterValue) tsr)
  else
    let tsr := irqStores afterTest tsr
    let value := tsr.irqBuffer position
    let tsr := irqStores afterValue tsr
    (some value, { tsr with irqReadPos := (position + 1#8) &&& 0x7f#8 })

theorem irqStores_append (first later : List Byte) (tsr : Tsr) :
    irqStores (first ++ later) tsr = irqStores later (irqStores first tsr) := List.foldl_append

theorem irqStores_readPos (values : List Byte) (tsr : Tsr) :
    (irqStores values tsr).irqReadPos = tsr.irqReadPos := by
  induction values generalizing tsr with
  | nil => rfl
  | cons value values inductionHypothesis =>
    have kept : (irqStore value tsr).irqReadPos = tsr.irqReadPos := by
      simp only [irqStore]
      split_ifs
      · rfl
      · rfl
    exact (inductionHypothesis (irqStore value tsr)).trans kept

/-- A store never reaches the oldest byte of a ring that is not empty. -/
theorem irqStores_waiting (values : List Byte) {tsr : Tsr} (waiting : tsr.irqReadPos ≠ tsr.irqWritePos) :
    (irqStores values tsr).irqReadPos ≠ (irqStores values tsr).irqWritePos ∧
      (irqStores values tsr).irqBuffer tsr.irqReadPos = tsr.irqBuffer tsr.irqReadPos := by
  induction values generalizing tsr with
  | nil => exact ⟨waiting, rfl⟩
  | cons value values inductionHypothesis =>
    have step : (irqStore value tsr).irqReadPos = tsr.irqReadPos ∧
        (irqStore value tsr).irqReadPos ≠ (irqStore value tsr).irqWritePos ∧
        (irqStore value tsr).irqBuffer tsr.irqReadPos = tsr.irqBuffer tsr.irqReadPos := by
      simp only [irqStore]
      split_ifs with full
      · exact ⟨rfl, waiting, rfl⟩
      · exact ⟨rfl, Ne.symm full, if_neg waiting⟩
    obtain ⟨samePos, stillWaiting, sameByte⟩ := step
    obtain ⟨later, oldest⟩ := inductionHypothesis stillWaiting
    rw [samePos, sameByte] at oldest
    exact ⟨later, oldest⟩

/-- Whenever interrupts come during a read, the outcome is that of a whole read between two of
them. -/
theorem interruptedRead_linear (afterPosition afterTest afterValue : List Byte) (tsr : Tsr) :
    ∃ before later, before ++ later = afterPosition ++ afterTest ++ afterValue ∧
      interruptedRead afterPosition afterTest afterValue tsr =
        (pc98TsrSerialTryReadByte (irqStores before tsr)).map id (irqStores later) := by
  have position := irqStores_readPos afterPosition tsr
  by_cases empty : tsr.irqReadPos = (irqStores afterPosition tsr).irqWritePos
  · refine ⟨afterPosition, afterTest ++ afterValue, (List.append_assoc _ _ _).symm, ?_⟩
    simp only [interruptedRead, if_pos empty, pc98TsrSerialTryReadByte, if_pos (position.trans empty)]
    rfl
  · refine ⟨afterPosition ++ afterTest ++ afterValue, [], List.append_nil _, ?_⟩
    have tested : (irqStores afterPosition tsr).irqReadPos ≠ (irqStores afterPosition tsr).irqWritePos :=
      position.symm ▸ empty
    have fetched := (irqStores_waiting afterTest tested).1
    obtain ⟨waiting, oldest⟩ := irqStores_waiting afterValue fetched
    rw [irqStores_append, irqStores_append]
    simp only [interruptedRead, if_neg empty, pc98TsrSerialTryReadByte, if_neg waiting]
    rw [irqStores_readPos, irqStores_readPos] at oldest
    rw [irqStores_readPos, irqStores_readPos, ← oldest, position]
    rfl

end ImeBridge
