import ImeBridge.Library.Run
import ImeBridge.Library.CircularBuffer
import ImeBridge.Keyboard.Encoding

/-! # The BIOS keyboard queue is a bounded FIFO

The ring invariant of the BIOS data area, what each routine does to it, and the
refinement: any sequence of the four routines answers and behaves like the list
automaton of `Library.BoundedFifo` with room for 16 words.
-/

namespace ImeBridge

open Library

/-- The address of a ring slot. -/
def slotAddress (index : Nat) : Word := BitVec.ofNat 16 (0x0502 + 2 * index)

/-- The slot an address of the ring belongs to. -/
def slotIndex (address : Word) : Nat := (address.toNat - 0x0502) / 2

/-- An even address in `0502h..0520h`. -/
def InRing (address : Word) : Prop :=
  0x0502#16 ≤ address ∧ address ≤ 0x0520#16 ∧ address &&& 1#16 = 0#16

instance (address : Word) : Decidable (InRing address) := by unfold InRing; infer_instance

namespace Memory

variable (memory : Memory)

def slot (index : Nat) : Word := memory.readWord (slotAddress index)

def head : Word := memory.readWord pc98KbHead
def tail : Word := memory.readWord pc98KbTail
def count : Nat := (memory.readByte pc98KbCount).toNat

/-- The words waiting in the queue, oldest first. -/
def queue : List Word := CircularBuffer.contents memory.slot 16 (slotIndex memory.head) memory.count

/-- Head and tail are slots, and the tail is `count` slots past the head. -/
structure WellFormedRing : Prop where
  head_inRing : InRing memory.head
  tail_inRing : InRing memory.tail
  count_le : memory.count ≤ 16
  tail_index : slotIndex memory.tail = (slotIndex memory.head + memory.count) % 16

end Memory

theorem toNat_slotAddress {index : Nat} (bound : index < 16) :
    (slotAddress index).toNat = 0x0502 + 2 * index := by
  simp [slotAddress]
  omega

theorem slotIndex_slotAddress {index : Nat} (bound : index < 16) :
    slotIndex (slotAddress index) = index := by
  rw [slotIndex, toNat_slotAddress bound]
  omega

theorem and_one_eq_zero_iff (address : Word) : address &&& 1#16 = 0#16 ↔ address.toNat % 2 = 0 := by
  rw [← Nat.and_one_is_mod, ← BitVec.toNat_inj]
  simp [BitVec.toNat_and]

theorem inRing_slotAddress {index : Nat} (bound : index < 16) : InRing (slotAddress index) := by
  have value := toNat_slotAddress bound
  refine ⟨by bv_omega, by bv_omega, ?_⟩
  rw [and_one_eq_zero_iff]
  omega

/-- Every ring address is a slot's. -/
theorem InRing.eq_slotAddress {address : Word} (inRing : InRing address) :
    slotIndex address < 16 ∧ address = slotAddress (slotIndex address) := by
  obtain ⟨lower, upper, even⟩ := inRing
  rw [and_one_eq_zero_iff] at even
  have bound : slotIndex address < 16 := by unfold slotIndex; bv_omega
  refine ⟨bound, BitVec.eq_of_toNat_eq ?_⟩
  rw [toNat_slotAddress bound, slotIndex]
  bv_omega

/-! ## What one store does to the view of the ring -/

namespace Memory

variable {memory : Memory} {index : Nat}

theorem head_writeSlot (bound : index < 16) (key : Word) :
    (memory.writeWord (slotAddress index) key).head = memory.head := by
  have value := toNat_slotAddress bound
  apply readWord_writeWord_apart <;> simp only [pc98KbHead] <;> bv_omega

theorem count_writeSlot (bound : index < 16) (key : Word) :
    (memory.writeWord (slotAddress index) key).readByte pc98KbCount = memory.readByte pc98KbCount := by
  have value := toNat_slotAddress bound
  apply readByte_writeWord_apart <;> simp only [pc98KbCount] <;> bv_omega

theorem slot_writeSlot (bound : index < 16) (key : Word) {other : Nat} (otherBound : other < 16) :
    (memory.writeWord (slotAddress index) key).slot other =
      if other = index then key else memory.slot other := by
  have value := toNat_slotAddress bound
  have otherValue := toNat_slotAddress otherBound
  split
  · rename_i same
    subst other
    exact readWord_writeWord_same memory _ key
  · apply readWord_writeWord_apart <;> bv_omega

@[simp] theorem head_writeTail (value : Word) : (memory.writeWord pc98KbTail value).head = memory.head :=
  readWord_writeWord_apart memory value (by decide) (by decide) (by decide)

@[simp] theorem tail_writeTail (value : Word) : (memory.writeWord pc98KbTail value).tail = value :=
  readWord_writeWord_same memory pc98KbTail value

@[simp] theorem count_writeTail (value : Word) :
    (memory.writeWord pc98KbTail value).readByte pc98KbCount = memory.readByte pc98KbCount :=
  readByte_writeWord_apart memory value (by decide) (by decide)

theorem slot_writeTail (value : Word) (bound : index < 16) :
    (memory.writeWord pc98KbTail value).slot index = memory.slot index := by
  have address := toNat_slotAddress bound
  apply readWord_writeWord_apart <;> simp only [pc98KbTail] <;> bv_omega

@[simp] theorem head_writeHead (value : Word) : (memory.writeWord pc98KbHead value).head = value :=
  readWord_writeWord_same memory pc98KbHead value

@[simp] theorem tail_writeHead (value : Word) : (memory.writeWord pc98KbHead value).tail = memory.tail :=
  readWord_writeWord_apart memory value (by decide) (by decide) (by decide)

@[simp] theorem count_writeHead (value : Word) :
    (memory.writeWord pc98KbHead value).readByte pc98KbCount = memory.readByte pc98KbCount :=
  readByte_writeWord_apart memory value (by decide) (by decide)

theorem slot_writeHead (value : Word) (bound : index < 16) :
    (memory.writeWord pc98KbHead value).slot index = memory.slot index := by
  have address := toNat_slotAddress bound
  apply readWord_writeWord_apart <;> simp only [pc98KbHead] <;> bv_omega

@[simp] theorem head_writeCount (value : Byte) : (memory.writeByte pc98KbCount value).head = memory.head :=
  readWord_writeByte_apart memory value (by decide) (by decide)

@[simp] theorem tail_writeCount (value : Byte) : (memory.writeByte pc98KbCount value).tail = memory.tail :=
  readWord_writeByte_apart memory value (by decide) (by decide)

@[simp] theorem count_writeCount (value : Byte) :
    (memory.writeByte pc98KbCount value).readByte pc98KbCount = value := by
  simp

theorem slot_writeCount (value : Byte) (bound : index < 16) :
    (memory.writeByte pc98KbCount value).slot index = memory.slot index := by
  have address := toNat_slotAddress bound
  apply readWord_writeByte_apart <;> simp only [pc98KbCount] <;> bv_omega

end Memory

/-! ## The pointer movements -/

theorem slotIndex_lt {address : Word} (inRing : InRing address) : slotIndex address < 16 :=
  inRing.eq_slotAddress.1

theorem forward_wrap {index : Nat} (bound : index < 16) :
    (if slotAddress index + 2#16 ≥ pc98KbBufferEnd then pc98KbBufferStart
      else slotAddress index + 2#16) = slotAddress ((index + 1) % 16) := by
  have value := toNat_slotAddress bound
  have nextValue := toNat_slotAddress (Nat.mod_lt (index + 1) (by decide : 16 > 0))
  unfold pc98KbBufferEnd pc98KbBufferStart
  by_cases wraps : slotAddress index + 2#16 ≥ 0x0522#16
  · rw [if_pos wraps]
    bv_omega
  · rw [if_neg wraps]
    bv_omega

theorem backward_wrap {index : Nat} (bound : index < 16) :
    (if slotAddress index = pc98KbBufferStart then pc98KbBufferEnd - 2#16
      else slotAddress index - 2#16) = slotAddress ((index + 15) % 16) := by
  have value := toNat_slotAddress bound
  have previousValue := toNat_slotAddress (Nat.mod_lt (index + 15) (by decide : 16 > 0))
  unfold pc98KbBufferEnd pc98KbBufferStart
  by_cases wraps : slotAddress index = 0x0502#16
  · rw [if_pos wraps]
    bv_omega
  · rw [if_neg wraps]
    bv_omega

/-- A ring address passes the range checks of the C routines. -/
theorem rejects_iff_not_inRing (address : Word) :
    (address < pc98KbBufferStart ∨ address ≥ pc98KbBufferEnd ∨ address &&& 1#16 ≠ 0#16) ↔
      ¬ InRing address := by
  simp only [InRing, pc98KbBufferStart, pc98KbBufferEnd, Ne, and_one_eq_zero_iff]
  constructor <;> intro h <;> bv_omega

namespace Memory.WellFormedRing

variable {memory : Memory}

theorem tail_eq (ring : memory.WellFormedRing) :
    memory.tail = slotAddress ((slotIndex memory.head + memory.count) % 16) := by
  rw [← ring.tail_index]
  exact ring.tail_inRing.eq_slotAddress.2

theorem queue_length (memory : Memory) : memory.queue.length = memory.count := by
  simp [queue]

/-- The three stores of an enqueue append the key. -/
theorem append (ring : memory.WellFormedRing) (room : memory.count < 16) (key : Word) :
    let stored := (memory.writeWord memory.tail key).writeWord pc98KbTail
      (if memory.tail + 2#16 ≥ pc98KbBufferEnd then pc98KbBufferStart else memory.tail + 2#16)
    let memory' := stored.writeByte pc98KbCount (stored.readByte pc98KbCount + 1#8)
    memory'.WellFormedRing ∧ memory'.queue = memory.queue ++ [key] := by
  intro stored memory'
  have headBound := slotIndex_lt ring.head_inRing
  have tailBound : (slotIndex memory.head + memory.count) % 16 < 16 := Nat.mod_lt _ (by decide)
  have newHead : memory'.head = memory.head := by
    simp [memory', stored, ring.tail_eq, head_writeSlot tailBound]
  have storedCount : stored.readByte pc98KbCount = memory.readByte pc98KbCount := by
    simp only [stored, count_writeTail, ring.tail_eq, count_writeSlot tailBound]
  have newCount : memory'.count = memory.count + 1 := by
    unfold count at room ⊢
    simp only [memory', count_writeCount, storedCount]
    bv_omega
  have newTail : memory'.tail = slotAddress ((slotIndex memory.head + memory.count + 1) % 16) := by
    simp only [memory', stored, tail_writeCount, tail_writeTail, ring.tail_eq]
    rw [forward_wrap tailBound]
    simp
  have newSlot : ∀ index, index < 16 → memory'.slot index =
      if index = (slotIndex memory.head + memory.count) % 16 then key else memory.slot index := by
    intro index bound
    simp only [memory', stored, slot_writeCount _ bound, slot_writeTail _ bound, ring.tail_eq]
    exact slot_writeSlot tailBound key bound
  refine ⟨⟨?_, ?_, ?_, ?_⟩, ?_⟩
  · exact newHead ▸ ring.head_inRing
  · exact newTail ▸ inRing_slotAddress (Nat.mod_lt _ (by decide))
  · omega
  · rw [newTail, newHead, newCount, slotIndex_slotAddress (Nat.mod_lt _ (by decide)), Nat.add_assoc]
  · -- The slot written is not one of the `count` in use.
    rw [queue, queue, newHead, newCount]
    apply CircularBuffer.contents_store room
    · rw [newSlot _ tailBound, if_pos rfl]
    · intro index bound different
      rw [newSlot index bound, if_neg different]

/-- Stepping the tail back removes the newest word. -/
theorem retract (ring : memory.WellFormedRing) (waiting : memory.count ≠ 0) :
    let position := if memory.tail = pc98KbBufferStart then pc98KbBufferEnd - 2#16
      else memory.tail - 2#16
    let stored := memory.writeWord pc98KbTail position
    let memory' := stored.writeByte pc98KbCount (stored.readByte pc98KbCount - 1#8)
    memory'.WellFormedRing ∧ memory.queue = memory'.queue ++ [memory.readWord position] := by
  intro position stored memory'
  have headBound := slotIndex_lt ring.head_inRing
  have tailBound : (slotIndex memory.head + memory.count) % 16 < 16 := Nat.mod_lt _ (by decide)
  have countLe := ring.count_le
  have position_eq : position = slotAddress ((slotIndex memory.head + (memory.count - 1)) % 16) := by
    simp only [position, ring.tail_eq]
    rw [backward_wrap tailBound]
    congr 1
    omega
  have newHead : memory'.head = memory.head := by simp [memory', stored]
  have newCount : memory'.count = memory.count - 1 := by
    unfold count at waiting ⊢
    simp only [memory', stored, count_writeCount, count_writeTail]
    bv_omega
  have newTail : memory'.tail = position := by simp [memory', stored]
  have newSlot : ∀ index, index < 16 → memory'.slot index = memory.slot index := by
    intro index bound
    simp only [memory', stored, slot_writeCount _ bound, slot_writeTail _ bound]
  refine ⟨⟨?_, ?_, ?_, ?_⟩, ?_⟩
  · exact newHead ▸ ring.head_inRing
  · exact newTail ▸ position_eq ▸ inRing_slotAddress (Nat.mod_lt _ (by decide))
  · omega
  · rw [newTail, newHead, newCount, position_eq, slotIndex_slotAddress (Nat.mod_lt _ (by decide))]
  · -- The words stay where they are; the last of them falls out of the count.
    rw [queue, queue, newHead, newCount, CircularBuffer.contents_congr newSlot (by decide)]
    conv_lhs => rw [show memory.count = memory.count - 1 + 1 by omega]
    rw [CircularBuffer.contents_succ_last, position_eq]
    rfl

/-- The hook's dequeue in terms of the view of the ring. -/
theorem dequeue_eq (ring : memory.WellFormedRing) : pc98InputDequeue memory =
    (memory.readWord memory.head,
      (memory.writeByte pc98KbCount (memory.readByte pc98KbCount - 1#8)).writeWord pc98KbHead
        (slotAddress ((slotIndex memory.head + 1) % 16))) := by
  have headBound := slotIndex_lt ring.head_inRing
  have head_eq := ring.head_inRing.eq_slotAddress.2
  have sameHead : (memory.writeByte pc98KbCount (memory.readByte pc98KbCount - 1#8)).head =
      memory.head := head_writeCount _
  have sameWord : (memory.writeByte pc98KbCount (memory.readByte pc98KbCount - 1#8)).slot
      (slotIndex memory.head) = memory.slot (slotIndex memory.head) := slot_writeCount _ headBound
  unfold head at sameHead
  unfold slot at sameWord
  rw [← head_eq] at sameWord
  -- The assembly tests `jb`, the C routines `>=`: the same wrap with its arms exchanged.
  have wraps := forward_wrap headBound
  rw [← head_eq, ← ite_not] at wraps
  simp only [ge_iff_le, BitVec.not_le] at wraps
  simp only [pc98InputDequeue, sameHead]
  rw [← head, wraps, sameWord]

/-- Advancing the head removes the oldest word. -/
theorem advance (ring : memory.WellFormedRing) (waiting : memory.count ≠ 0) :
    (pc98InputDequeue memory).2.WellFormedRing ∧
      memory.queue = (pc98InputDequeue memory).1 :: (pc98InputDequeue memory).2.queue := by
  have headBound := slotIndex_lt ring.head_inRing
  have head_eq := ring.head_inRing.eq_slotAddress.2
  have countLe := ring.count_le
  rw [ring.dequeue_eq]
  generalize taken : (memory.writeByte pc98KbCount (memory.readByte pc98KbCount - 1#8)).writeWord
    pc98KbHead (slotAddress ((slotIndex memory.head + 1) % 16)) = memory'
  change memory'.WellFormedRing ∧ memory.queue = memory.readWord memory.head :: memory'.queue
  have newHead : memory'.head = slotAddress ((slotIndex memory.head + 1) % 16) := by simp [← taken]
  have newTail : memory'.tail = memory.tail := by simp [← taken]
  have newCount : memory'.count = memory.count - 1 := by
    unfold count at waiting ⊢
    simp only [← taken, count_writeHead, count_writeCount]
    bv_omega
  have newSlot : ∀ index, index < 16 → memory'.slot index = memory.slot index := by
    intro index bound
    simp only [← taken, slot_writeHead _ bound, slot_writeCount _ bound]
  refine ⟨⟨?_, ?_, ?_, ?_⟩, ?_⟩
  · exact newHead ▸ inRing_slotAddress (Nat.mod_lt _ (by decide))
  · exact newTail ▸ ring.tail_inRing
  · omega
  · rw [newTail, newHead, newCount, ring.tail_index, slotIndex_slotAddress (Nat.mod_lt _ (by decide))]
    omega
  · rw [queue, queue, newHead, newCount, CircularBuffer.contents_congr newSlot (by decide),
      slotIndex_slotAddress (Nat.mod_lt _ (by decide))]
    conv_lhs => rw [show memory.count = memory.count - 1 + 1 by omega]
    rw [CircularBuffer.contents_succ_first, Nat.mod_eq_of_lt headBound, slot, ← head_eq]

/-! ## The routines on a well-formed ring -/

/-- The checks of the C routines on the tail never fire. -/
theorem tail_accepted (ring : memory.WellFormedRing) :
    ¬ (memory.tail < pc98KbBufferStart ∨ memory.tail ≥ pc98KbBufferEnd ∨
      memory.tail &&& 1#16 ≠ 0#16) := by
  rw [rejects_iff_not_inRing]
  exact not_not_intro ring.tail_inRing

theorem enqueue_room (ring : memory.WellFormedRing) (room : memory.count < 16) (key : Word) :
    (pc98BiosEnqueueWord key memory).1 = true ∧ (pc98BiosEnqueueWord key memory).2.WellFormedRing ∧
      (pc98BiosEnqueueWord key memory).2.queue = memory.queue ++ [key] := by
  have notFull : ¬ memory.readByte pc98KbCount ≥ pc98KbCapacity := by
    unfold count at room
    unfold pc98KbCapacity
    bv_omega
  have accepted := not_or.mpr ⟨notFull, ring.tail_accepted⟩
  unfold tail at accepted
  simp only [pc98BiosEnqueueWord, if_neg accepted]
  exact ⟨trivial, ring.append room key⟩

theorem enqueue_full (full : ¬ memory.count < 16) (key : Word) :
    pc98BiosEnqueueWord key memory = (false, memory) := by
  have isFull : memory.readByte pc98KbCount ≥ pc98KbCapacity := by
    unfold count at full
    unfold pc98KbCapacity
    bv_omega
  simp only [pc98BiosEnqueueWord, if_pos (Or.inl isFull)]

/-- The word before the tail is the newest one. -/
theorem newest_eq (ring : memory.WellFormedRing) (waiting : memory.count ≠ 0) :
    memory.queue.getLast? = some (memory.readWord
      (if memory.tail = pc98KbBufferStart then pc98KbBufferEnd - 2#16 else memory.tail - 2#16)) := by
  rw [(ring.retract waiting).2, List.getLast?_append]
  rfl

theorem newest_none (waiting : ¬ memory.count ≠ 0) : memory.queue.getLast? = none := by
  have empty : memory.queue = [] := List.length_eq_zero_iff.mp (by rw [queue_length]; omega)
  rw [empty]
  rfl

theorem isSpace_iff (key : Word) : ¬ (key.low ≠ 0x20#8 ∨ key.high ≠ pc98ScanSpace) ↔ key = 0x3420#16 := by
  rw [show (0x3420#16 : Word) = word 0x20#8 pc98ScanSpace by decide, word_eq_iff, not_or, not_not,
    not_not]

theorem count_zero_iff (memory : Memory) : memory.readByte pc98KbCount = 0#8 ↔ memory.count = 0 := by
  unfold count
  bv_omega

theorem discard_space (ring : memory.WellFormedRing)
    (newest : memory.queue.getLast? = some 0x3420#16) :
    (pc98BiosDiscardHotkeySpace memory).1 = true ∧
      (pc98BiosDiscardHotkeySpace memory).2.WellFormedRing ∧
      (pc98BiosDiscardHotkeySpace memory).2.queue = memory.queue.dropLast := by
  have waiting : memory.count ≠ 0 := by
    intro empty
    rw [newest_none (not_not_intro empty)] at newest
    contradiction
  have accepted := not_or.mpr ⟨(count_zero_iff memory).not.mpr waiting, ring.tail_accepted⟩
  have isSpace := (isSpace_iff _).mpr (Option.some.inj ((ring.newest_eq waiting).symm.trans newest))
  obtain ⟨ring', split⟩ := ring.retract waiting
  unfold tail at accepted isSpace ring' split
  simp only [pc98BiosDiscardHotkeySpace, if_neg accepted, if_neg isSpace]
  refine ⟨trivial, ring', ?_⟩
  rw [split, List.dropLast_concat]

theorem discard_other (ring : memory.WellFormedRing)
    (newest : memory.queue.getLast? ≠ some 0x3420#16) :
    pc98BiosDiscardHotkeySpace memory = (false, memory) := by
  by_cases waiting : memory.count ≠ 0
  · have accepted := not_or.mpr ⟨(count_zero_iff memory).not.mpr waiting, ring.tail_accepted⟩
    have notSpace : ¬ memory.readWord _ = 0x3420#16 := fun same =>
      newest ((ring.newest_eq waiting).trans (congrArg some same))
    rw [← isSpace_iff, not_not] at notSpace
    unfold tail at accepted notSpace
    simp only [pc98BiosDiscardHotkeySpace, if_neg accepted, if_pos notSpace]
  · have empty : memory.readByte pc98KbCount = 0#8 := (count_zero_iff memory).mpr (by omega)
    simp only [pc98BiosDiscardHotkeySpace, if_pos (Or.inl empty)]

/-- From index `i` on, the injection loop appends the words of the remaining text. -/
theorem injectLoop_appends (text : List Byte) (fuel i : Nat) (enough : text.length ≤ i + fuel)
    {memory : Memory} (ring : memory.WellFormedRing)
    (fits : memory.count + (keyWords (text.drop i)).length ≤ 16) :
    (injectLoop text fuel i memory).1 = true ∧ (injectLoop text fuel i memory).2.WellFormedRing ∧
      (injectLoop text fuel i memory).2.queue = memory.queue ++ keyWords (text.drop i) := by
  -- On the fuel: each turn stores one word and moves `i` over the bytes it stands for.
  induction fuel generalizing i memory with
  | zero =>
    rw [List.drop_eq_nil_of_le (by omega : text.length ≤ i)]
    exact ⟨rfl, ring, by simp [injectLoop, keyWords]⟩
  | succ fuel inductionHypothesis =>
    by_cases bound : i < text.length
    · obtain ⟨words, stays, stillInside⟩ := pc98BiosEncodeKey_spec bound
      rw [words, List.length_cons] at fits
      have notFull : ¬ memory.readByte pc98KbCount ≥ pc98KbCapacity := by
        unfold count at fits
        unfold pc98KbCapacity
        bv_omega
      obtain ⟨ring', queue'⟩ := ring.append (by omega) (pc98BiosEncodeKey text text.length i).1
      unfold tail at ring' queue'
      have count' := congrArg List.length queue'
      rw [queue_length, List.length_append, queue_length, List.length_singleton] at count'
      have rest := inductionHypothesis ((pc98BiosEncodeKey text text.length i).2 + 1) (by omega) ring'
        (by omega)
      simp only [injectLoop, if_pos bound, if_neg notFull]
      refine ⟨rest.1, rest.2.1, ?_⟩
      rw [rest.2.2, queue', words]
      simp
    · rw [List.drop_eq_nil_of_le (by omega)]
      simp only [injectLoop, if_neg bound]
      exact ⟨trivial, ring, by simp [keyWords]⟩

theorem inject_accepts_iff (ring : memory.WellFormedRing) (text : List Byte) :
    ¬ (normalizedLength text = 0 ∨ normalizedLength text > pc98KbCapacity.toNat ∨
        memory.readByte pc98KbCount ≠ 0#8 ∨ memory.readWord pc98KbHead ≠ memory.readWord pc98KbTail) ↔
      memory.queue = [] ∧ keyWords text ≠ [] ∧ (keyWords text).length ≤ 16 := by
  rw [normalizedLength_eq, ← List.length_eq_zero_iff, queue_length, ← List.length_pos_iff]
  simp only [not_or, Ne, not_not, count_zero_iff]
  constructor
  · rintro ⟨some, few, empty, -⟩
    exact ⟨empty, by omega, by simpa [pc98KbCapacity] using few⟩
  · rintro ⟨empty, some, few⟩
    refine ⟨by omega, by simpa [pc98KbCapacity] using few, empty, ?_⟩
    -- In an empty well-formed ring head and tail are the same slot.
    have tail := ring.tail_eq
    have headBound := slotIndex_lt ring.head_inRing
    rw [empty, Nat.add_zero, Nat.mod_eq_of_lt headBound, ← ring.head_inRing.eq_slotAddress.2] at tail
    exact tail.symm

end Memory.WellFormedRing

/-! ## The refinement -/

/-- The four routines that move the ring. -/
inductive KeyboardOp where
  | enqueue (key : Word)
  | discard
  | inject (text : List Byte)
  | dequeue

/-- What a caller sees: success or refusal, or the word taken out. -/
inductive KeyboardAnswer where
  | done (succeeded : Bool)
  | taken (key : Option Word)
  deriving DecidableEq, Repr

def KeyboardAnswer.Refused (answer : KeyboardAnswer) : Prop :=
  answer = .done false ∨ answer = .taken none

def KeyboardOp.apply (op : KeyboardOp) (memory : Memory) : KeyboardAnswer × Memory :=
  match op with
  | .enqueue key => (pc98BiosEnqueueWord key memory).map .done id
  | .discard => (pc98BiosDiscardHotkeySpace memory).map .done id
  | .inject text => (pc98BiosInject text memory).map .done id
  | .dequeue => (pc98InputWaitQueue memory).map .taken id

/-- The same operations on a list of at most 16 words. -/
def KeyboardOp.abstract (op : KeyboardOp) (queue : List Word) : KeyboardAnswer × List Word :=
  match op with
  | .enqueue key => (BoundedFifo.push 16 key queue).map .done id
  | .discard => (BoundedFifo.retract 0x3420#16 queue).map .done id
  | .inject text => (BoundedFifo.fill 16 (keyWords text) queue).map .done id
  | .dequeue => (BoundedFifo.pop queue).map .taken id

/-- One operation keeps the ring well formed, acts on the queue as its abstract
counterpart, and changes nothing when it refuses. -/
theorem KeyboardOp.apply_spec (op : KeyboardOp) {memory : Memory} (ring : memory.WellFormedRing) :
    (op.apply memory).1 = (op.abstract memory.queue).1 ∧ (op.apply memory).2.WellFormedRing ∧
      (op.apply memory).2.queue = (op.abstract memory.queue).2 ∧
      ((op.apply memory).1.Refused → (op.apply memory).2 = memory) := by
  have length := Memory.WellFormedRing.queue_length memory
  cases op with
  | enqueue key =>
    by_cases room : memory.count < 16
    · obtain ⟨succeeds, ring', queue'⟩ := ring.enqueue_room room key
      simp [apply, abstract, BoundedFifo.push, length, room, succeeds, ring', queue',
        KeyboardAnswer.Refused]
    · have full := Memory.WellFormedRing.enqueue_full room key
      simp [apply, abstract, BoundedFifo.push, length, room, full, ring]
  | discard =>
    by_cases newest : memory.queue.getLast? = some 0x3420#16
    · obtain ⟨succeeds, ring', queue'⟩ := ring.discard_space newest
      simp [apply, abstract, BoundedFifo.retract, newest, succeeds, ring', queue',
        KeyboardAnswer.Refused]
    · have refused := ring.discard_other newest
      simp [apply, abstract, BoundedFifo.retract, newest, refused, ring]
  | inject text =>
    by_cases accepts : memory.queue = [] ∧ keyWords text ≠ [] ∧ (keyWords text).length ≤ 16
    · have fits : memory.count + (keyWords (text.drop 0)).length ≤ 16 := by
        rw [← length, accepts.1]
        simpa using accepts.2.2
      obtain ⟨succeeds, ring', queue'⟩ :=
        Memory.WellFormedRing.injectLoop_appends text text.length 0 (by omega) ring fits
      have passes := (ring.inject_accepts_iff text).mpr accepts
      simp only [apply, abstract, pc98BiosInject, if_neg passes, BoundedFifo.fill, if_pos accepts]
      rw [accepts.1, List.drop_zero, List.nil_append] at queue'
      simp [succeeds, ring', queue', KeyboardAnswer.Refused]
    · have refused := not_not.mp (mt (ring.inject_accepts_iff text).mp accepts)
      simp [apply, abstract, pc98BiosInject, if_pos refused, BoundedFifo.fill, if_neg accepts, ring]
  | dequeue =>
    by_cases waiting : memory.count ≠ 0
    · obtain ⟨ring', queue'⟩ := ring.advance waiting
      have enters : memory.readByte pc98KbCount ≠ 0#8 :=
        (Memory.WellFormedRing.count_zero_iff memory).not.mpr waiting
      simp [apply, abstract, pc98InputWaitQueue, enters, queue', BoundedFifo.pop, ring',
        KeyboardAnswer.Refused]
    · have empty : memory.queue = [] := List.length_eq_zero_iff.mp (by omega)
      have halts : memory.readByte pc98KbCount = 0#8 :=
        (Memory.WellFormedRing.count_zero_iff memory).mpr (by omega)
      simp [apply, abstract, pc98InputWaitQueue, halts, empty, BoundedFifo.pop, ring]

/-- The BIOS keyboard ring refines a bounded FIFO: over any sequence of operations
the answers are those of the list automaton, the ring stays well formed and holds
that list, and at every point an operation that refuses leaves memory unchanged. -/
theorem keyboardRing_refines_fifo {memory : Memory} (ring : memory.WellFormedRing)
    (ops : List KeyboardOp) :
    let concrete := Run.respond KeyboardOp.apply ops memory
    let abstract := Run.respond KeyboardOp.abstract ops memory.queue
    concrete.1 = abstract.1 ∧ concrete.2.WellFormedRing ∧ concrete.2.queue = abstract.2 ∧
      concrete.2.queue.length ≤ 16 ∧
      ∀ op : KeyboardOp, (op.apply concrete.2).1.Refused → (op.apply concrete.2).2 = concrete.2 := by
  intro concrete abstract
  have refines : ∀ (op : KeyboardOp) (low : Memory) (high : List Word),
      low.WellFormedRing ∧ low.queue = high →
        (op.apply low).1 = (op.abstract high).1 ∧
          (op.apply low).2.WellFormedRing ∧ (op.apply low).2.queue = (op.abstract high).2 := by
    rintro op low _ ⟨lowRing, rfl⟩
    have spec := op.apply_spec lowRing
    exact ⟨spec.1, spec.2.1, spec.2.2.1⟩
  obtain ⟨sameAnswers, ring', queue'⟩ := Run.respond_refines refines ops ⟨ring, rfl⟩
  refine ⟨sameAnswers, ring', queue', ?_, fun op => (op.apply_spec ring').2.2.2⟩
  rw [Memory.WellFormedRing.queue_length]
  exact ring'.count_le

/-- A ring holding two Spaces across the wrap-around. -/
def wrappedSpaces : Memory :=
  ((((Memory.blank.writeWord 0x0520#16 0x3420#16).writeWord 0x0502#16 0x3420#16).writeWord
    pc98KbHead 0x0520#16).writeWord pc98KbTail 0x0504#16).writeByte pc98KbCount 2#8

theorem keyboardRing_refines_fifo_wrapped :
    (Run.respond KeyboardOp.apply [.discard, .discard, .discard, .inject [0x0d, 0x0a, 0x41], .dequeue]
        wrappedSpaces).1 =
      [.done true, .done true, .done false, .done true, .taken (some 0x1c0d#16)] := by
  have ring : wrappedSpaces.WellFormedRing := ⟨by decide, by decide, by decide, by decide⟩
  rw [(keyboardRing_refines_fifo ring _).1]
  decide

end ImeBridge
