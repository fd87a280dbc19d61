import ImeBridge.Keyboard.Ring

/-! # Queue metadata of any kind

Head, tail and count of the BIOS queue are bytes that any program can write.  With a tail
that is a slot the routines of `inject_bios_pc98.c` store in the queue only, whatever the
rest says; `pc98_bios_inject` is the one that does not look whether it is.
-/

namespace ImeBridge

/-- The ring words, the tail word and the count byte. -/
def QueueArea (address : Word) : Prop :=
  pc98KbBufferStart ≤ address ∧ address < pc98KbBufferEnd ∨
    address = pc98KbTail ∨ address = pc98KbTail + 1#16 ∨ address = pc98KbCount

/-- The tests of `pc98_bios_inject` before its loop fail. -/
def InjectRefuses (text : List Byte) (memory : Memory) : Prop :=
  normalizedLength text = 0 ∨ normalizedLength text > pc98KbCapacity.toNat ∨
    memory.readByte pc98KbCount ≠ 0#8 ∨ memory.readWord pc98KbHead ≠ memory.readWord pc98KbTail

/-- The three routines store in the queue only, and with a tail that is no slot they fail
and store nothing. -/
structure StoresInQueue (memory : Memory) (key : Word) (text : List Byte) : Prop where
  enqueue : memory.SameOutside QueueArea (pc98BiosEnqueueWord key memory).2
  discard : memory.SameOutside QueueArea (pc98BiosDiscardHotkeySpace memory).2
  inject : memory.SameOutside QueueArea (pc98BiosInject text memory).2
  invalid : ¬ InRing memory.tail →
    pc98BiosEnqueueWord key memory = (false, memory) ∧
      pc98BiosDiscardHotkeySpace memory = (false, memory) ∧ pc98BiosInject text memory = (false, memory)

theorem queueArea_tail : QueueArea pc98KbTail ∧ QueueArea (pc98KbTail + 1#16) :=
  ⟨.inr (.inl rfl), .inr (.inr (.inl rfl))⟩

theorem queueArea_count : QueueArea pc98KbCount := .inr (.inr (.inr rfl))

/-- Both bytes of a slot are in the ring. -/
theorem InRing.queueArea {address : Word} (inRing : InRing address) :
    QueueArea address ∧ QueueArea (address + 1#16) := by
  obtain ⟨bound, isSlot⟩ := inRing.eq_slotAddress
  have value := toNat_slotAddress bound
  rw [← isSlot] at value
  unfold QueueArea pc98KbBufferStart pc98KbBufferEnd
  exact ⟨.inl ⟨by bv_omega, by bv_omega⟩, .inl ⟨by bv_omega, by bv_omega⟩⟩

namespace Memory

variable {memory : Memory}

/-- The three stores by which the routines append a key word. -/
def store (key : Word) (memory : Memory) : Memory :=
  let position := if memory.tail + 2#16 ≥ pc98KbBufferEnd then pc98KbBufferStart else memory.tail + 2#16
  let stored := (memory.writeWord memory.tail key).writeWord pc98KbTail position
  stored.writeByte pc98KbCount (stored.readByte pc98KbCount + 1#8)

/-- At a tail that is a slot they are confined to the queue and leave such a tail. -/
theorem store_confined (inRing : InRing memory.tail) (key : Word) :
    memory.SameOutside QueueArea (memory.store key) ∧ InRing (memory.store key).tail := by
  obtain ⟨bound, isSlot⟩ := inRing.eq_slotAddress
  constructor
  · exact (((SameOutside.refl memory).writeWord inRing.queueArea.1 inRing.queueArea.2 _).writeWord
      queueArea_tail.1 queueArea_tail.2 _).writeByte queueArea_count _
  · simp only [store, tail_writeCount, tail_writeTail]
    rw [isSlot, forward_wrap bound]
    exact inRing_slotAddress (Nat.mod_lt _ (by decide))

/-- One turn of the loop of `pc98_bios_inject`. -/
theorem injectLoop_turn (text : List Byte) (fuel i : Nat) (memory : Memory) :
    injectLoop text (fuel + 1) i memory =
      if i < text.length then
        if memory.readByte pc98KbCount ≥ pc98KbCapacity then (false, memory)
        else injectLoop text fuel ((pc98BiosEncodeKey text text.length i).2 + 1)
          (memory.store (pc98BiosEncodeKey text text.length i).1)
      else (true, memory) := rfl

/-- The routines that compare the tail with the bounds of the ring. -/
theorem enqueue_confined (key : Word) :
    memory.SameOutside QueueArea (pc98BiosEnqueueWord key memory).2 := by
  rw [pc98BiosEnqueueWord]
  dsimp only
  split
  · exact SameOutside.refl memory
  · rename_i refuses
    have accepted := mt (rejects_iff_not_inRing memory.tail).mpr (not_or.mp refuses).2
    exact (store_confined (not_not.mp accepted) key).1

theorem discard_confined : memory.SameOutside QueueArea (pc98BiosDiscardHotkeySpace memory).2 := by
  rw [pc98BiosDiscardHotkeySpace]
  dsimp only
  split
  · exact SameOutside.refl memory
  · -- Wherever the newest word is read, only the tail and the count are stored.
    generalize (if memory.readWord pc98KbTail = pc98KbBufferStart then pc98KbBufferEnd - 2#16
      else memory.readWord pc98KbTail - 2#16) = position
    split
    · exact SameOutside.refl memory
    · exact ((SameOutside.refl memory).writeWord queueArea_tail.1 queueArea_tail.2 _).writeByte
        queueArea_count _

/-- The loop of `pc98_bios_inject` goes from slot to slot. -/
theorem injectLoop_confined (text : List Byte) (fuel i : Nat) (inRing : InRing memory.tail) :
    memory.SameOutside QueueArea (injectLoop text fuel i memory).2 := by
  -- On the fuel; a store leaves a tail that is a slot, which the next turn stores at.
  induction fuel generalizing i memory with
  | zero => exact SameOutside.refl memory
  | succ fuel inductionHypothesis =>
    rw [injectLoop_turn]
    split_ifs with more full
    · exact SameOutside.refl memory
    · obtain ⟨same, next⟩ := store_confined inRing (pc98BiosEncodeKey text text.length i).1
      exact same.trans (inductionHypothesis _ next)
    · exact SameOutside.refl memory

/-- The loop fails on a full queue only. -/
theorem injectLoop_fails (text : List Byte) (fuel i : Nat)
    (fails : (injectLoop text fuel i memory).1 = false) :
    (injectLoop text fuel i memory).2.readByte pc98KbCount ≥ pc98KbCapacity := by
  induction fuel generalizing i memory with
  | zero => simp [injectLoop] at fails
  | succ fuel inductionHypothesis =>
    rw [injectLoop_turn] at fails ⊢
    split_ifs at fails ⊢ with more full
    · exact full
    · exact inductionHypothesis _ fails

/-- Once its tests have passed, `pc98_bios_inject` stores something. -/
theorem inject_stores {text : List Byte} (passes : ¬ InjectRefuses text memory) :
    pc98BiosInject text memory ≠ (false, memory) := by
  intro unchanged
  have empty : memory.readByte pc98KbCount = 0#8 := by
    simp only [InjectRefuses, not_or, not_not] at passes
    exact passes.2.2.1
  have loops : pc98BiosInject text memory = injectLoop text text.length 0 memory := if_neg passes
  rw [loops] at unchanged
  have full := injectLoop_fails text text.length 0 (congrArg Prod.fst unchanged)
  -- A loop that fails and changes nothing has found a full queue, but the count is 0.
  rw [unchanged, empty] at full
  exact absurd full (by decide)

end Memory

/-- Exactly with a tail that is a slot, or with a text or a queue that `pc98_bios_inject`
refuses, no routine stores through invalid metadata. -/
theorem storesInQueue_iff (memory : Memory) (key : Word) (text : List Byte) :
    StoresInQueue memory key text ↔ InRing memory.tail ∨ InjectRefuses text memory := by
  have refuses : InjectRefuses text memory → pc98BiosInject text memory = (false, memory) := fun h => if_pos h
  constructor
  · intro stores
    by_contra neither
    obtain ⟨outside, passes⟩ := not_or.mp neither
    exact Memory.inject_stores passes (stores.invalid outside).2.2
  · intro valid
    refine ⟨Memory.enqueue_confined key, Memory.discard_confined, ?_, fun outside => ?_⟩
    · by_cases refused : InjectRefuses text memory
      · rw [refuses refused]
        exact Memory.SameOutside.refl memory
      · have loops : pc98BiosInject text memory = injectLoop text text.length 0 memory := if_neg refused
        rw [loops]
        exact Memory.injectLoop_confined text _ 0 (valid.resolve_right refused)
    · have rejected := (rejects_iff_not_inRing memory.tail).mpr outside
      exact ⟨if_pos (.inr rejected), if_pos (.inr rejected), refuses (valid.resolve_left outside)⟩

/-- Head and tail are 0000h and the queue counts as empty: the first key word of the text
goes into the interrupt vector table. -/
theorem inject_stores_outside_queue :
    ¬ ∀ memory key text, StoresInQueue memory key text := by
  intro all
  have outside : ¬ QueueArea 0x0000#16 := by
    unfold QueueArea
    decide
  have same := (all Memory.blank 0#16 [0x41#8]).inject 0x0000#16 outside
  exact absurd same (by decide)

end ImeBridge
