import ImeBridge.Keyboard.Metadata

/-! # Keys that arrive during an injection

`pc98_bios_inject` looks at the queue before it disables interrupts.  The keyboard
interrupt can append words between its tests, and behind the last of them.
-/

namespace ImeBridge

open Library

/-- The queue's side of the keyboard interrupt of the BIOS. -/
structure KeyboardInterrupt where
  store : Word → Memory → Memory
  /-- A word is appended, with the queue full it is lost; the head stays. -/
  stores : ∀ {memory : Memory} (key : Word), memory.WellFormedRing →
    (store key memory).WellFormedRing ∧
      (store key memory).queue = (BoundedFifo.push 16 key memory.queue).2 ∧
      (store key memory).head = memory.head

/-- The key words that come before each access of `pc98_bios_inject` to the queue, and
before its CLI. -/
structure Arrivals where
  beforeCount : List Word := []
  beforeHead : List Word := []
  beforeTail : List Word := []
  beforeCli : List Word := []

namespace KeyboardInterrupt

variable (interrupt : KeyboardInterrupt)

def arrive (keys : List Word) (memory : Memory) : Memory := Run.run interrupt.store keys memory

/-- What `pc98_bios_inject` does with interrupts enabled: whether it comes to its CLI, and
the memory there or at its return. -/
def injectTests (arrivals : Arrivals) (text : List Byte) (memory : Memory) : Bool × Memory :=
  let outputLength := normalizedLength text
  let memory := interrupt.arrive arrivals.beforeCount memory
  if outputLength = 0 ∨ outputLength > pc98KbCapacity.toNat then (false, memory)
  else if memory.readByte pc98KbCount ≠ 0#8 then (false, memory)
  else
    let memory := interrupt.arrive arrivals.beforeHead memory
    let head := memory.readWord pc98KbHead
    let memory := interrupt.arrive arrivals.beforeTail memory
    if head ≠ memory.readWord pc98KbTail then (false, memory)
    else (true, interrupt.arrive arrivals.beforeCli memory)

/-- `pc98_bios_inject` on a machine whose keyboard is in use; `true` stands for the return
value 1, `false` for -1. -/
def pc98BiosInject (arrivals : Arrivals) (text : List Byte) (memory : Memory) : Bool × Memory :=
  match interrupt.injectTests arrivals text memory with
  | (false, memory) => (false, memory)
  | (true, memory) => injectLoop text text.length 0 memory

/-- The call returned 1 and has appended all words of the text behind those of the
keyboard, or it returned -1 and has appended none. -/
def AllOrNothing (arrivals : Arrivals) (text : List Byte) (memory : Memory) : Prop :=
  let typed := (interrupt.injectTests arrivals text memory).2.queue
  let outcome := interrupt.pc98BiosInject arrivals text memory
  outcome.1 = true ∧ outcome.2.queue = typed ++ keyWords text ∨ outcome.1 = false ∧ outcome.2.queue = typed

/-- With no key the routine is the one that is not interrupted. -/
theorem pc98BiosInject_quiet (text : List Byte) (memory : Memory) :
    interrupt.pc98BiosInject {} text memory = ImeBridge.pc98BiosInject text memory := by
  have quiet : ∀ memory, interrupt.arrive [] memory = memory := fun _ => rfl
  unfold pc98BiosInject injectTests ImeBridge.pc98BiosInject
  simp only [quiet]
  by_cases length : normalizedLength text = 0 ∨ normalizedLength text > pc98KbCapacity.toNat
  · simp only [if_pos length, if_pos (or_assoc.mp (.inl length))]
  · by_cases count : memory.readByte pc98KbCount ≠ 0#8
    · simp only [if_neg length, if_pos count, if_pos (Or.inr (Or.inr (Or.inl count)))]
    · by_cases tail : memory.readWord pc98KbHead ≠ memory.readWord pc98KbTail
      · simp only [if_neg length, if_neg count, if_pos tail, if_pos (Or.inr (Or.inr (Or.inr tail)))]
      · have passes : ¬ InjectRefuses text memory := by
          unfold InjectRefuses
          tauto
        simp only [if_neg length, if_neg count, if_neg tail]
        exact (if_neg passes).symm

variable {memory : Memory}

/-- The words that fit are appended. -/
theorem arrive_spec (keys : List Word) (ring : memory.WellFormedRing) :
    (interrupt.arrive keys memory).WellFormedRing ∧
      (interrupt.arrive keys memory).queue = (memory.queue ++ keys).take 16 ∧
      (interrupt.arrive keys memory).head = memory.head := by
  induction keys using List.reverseRecOn with
  | nil =>
    have length := Memory.WellFormedRing.queue_length memory
    have bound := ring.count_le
    refine ⟨ring, ?_, rfl⟩
    rw [List.append_nil, List.take_of_length_le (by omega)]
    rfl
  | append_singleton keys key inductionHypothesis =>
    obtain ⟨ring', queue', head'⟩ := inductionHypothesis
    obtain ⟨ring'', queue'', head''⟩ := interrupt.stores key ring'
    have last : interrupt.arrive (keys ++ [key]) memory =
        interrupt.store key (interrupt.arrive keys memory) := by
      rw [arrive, Run.run_append]
      rfl
    rw [last]
    refine ⟨ring'', ?_, head''.trans head'⟩
    rw [queue'', queue', BoundedFifo.push_take, List.append_assoc]

end KeyboardInterrupt

namespace Memory.WellFormedRing

variable {memory : Memory}

theorem store_appends (ring : memory.WellFormedRing) (room : memory.count < 16) (key : Word) :
    (memory.store key).WellFormedRing ∧ (memory.store key).queue = memory.queue ++ [key] :=
  ring.append room key

theorem head_store (ring : memory.WellFormedRing) (key : Word) : (memory.store key).head = memory.head := by
  have bound := slotIndex_lt ring.tail_inRing
  simp only [store, head_writeCount, head_writeTail]
  rw [ring.tail_inRing.eq_slotAddress.2, head_writeSlot bound]

/-- From index `i` on, the injection loop appends the words that fit, and succeeds if these
are all words of the remaining text. -/
theorem injectLoop_spec (ring : memory.WellFormedRing) (text : List Byte) (fuel i : Nat)
    (enough : text.length ≤ i + fuel) :
    ((injectLoop text fuel i memory).1 = true ↔ memory.count + (keyWords (text.drop i)).length ≤ 16) ∧
      (injectLoop text fuel i memory).2.queue = (memory.queue ++ keyWords (text.drop i)).take 16 := by
  -- On the fuel: each turn stores one word and moves `i` over the bytes it stands for.
  induction fuel generalizing i memory with
  | zero =>
    have bound := ring.count_le
    rw [List.drop_eq_nil_of_le (by omega : text.length ≤ i)]
    have whole : memory.queue.take 16 = memory.queue :=
      List.take_of_length_le (by rw [queue_length]; exact bound)
    exact ⟨by simpa [injectLoop, keyWords] using bound, by simp [injectLoop, keyWords, whole]⟩
  | succ fuel inductionHypothesis =>
    rw [injectLoop_turn]
    have bound := ring.count_le
    by_cases more : i < text.length
    · obtain ⟨words, stays, _⟩ := pc98BiosEncodeKey_spec more
      have fullIff : memory.readByte pc98KbCount ≥ pc98KbCapacity ↔ 16 ≤ memory.count := by
        unfold count pc98KbCapacity
        bv_omega
      rw [if_pos more, words, List.length_cons]
      by_cases full : 16 ≤ memory.count
      · rw [if_pos (fullIff.mpr full), List.take_append_of_le_length (by rwa [queue_length]),
          List.take_of_length_le (by rwa [queue_length])]
        exact ⟨iff_of_false (by simp) (by omega), rfl⟩
      · obtain ⟨ring', queue'⟩ := ring.store_appends (by omega) (pc98BiosEncodeKey text text.length i).1
        have count' := congrArg List.length queue'
        rw [queue_length, List.length_append, queue_length, List.length_singleton] at count'
        obtain ⟨succeeds, rest⟩ := inductionHypothesis ring'
          ((pc98BiosEncodeKey text text.length i).2 + 1) (by omega)
        rw [if_neg (mt fullIff.mp full), succeeds, rest, queue', count', List.append_assoc]
        exact ⟨by omega, rfl⟩
    · rw [if_neg more, List.drop_eq_nil_of_le (by omega)]
      have whole : memory.queue.take 16 = memory.queue :=
        List.take_of_length_le (by rw [queue_length]; exact bound)
      exact ⟨by simpa [keyWords] using bound, by simp [keyWords, whole]⟩

/-- Head and tail meet in an empty ring, and in a full one. -/
theorem head_eq_tail_iff (ring : memory.WellFormedRing) :
    memory.head = memory.tail ↔ memory.count = 0 ∨ memory.count = 16 := by
  have bound := ring.count_le
  have headBound := slotIndex_lt ring.head_inRing
  have index := ring.tail_index
  constructor
  · intro same
    rw [← same] at index
    omega
  · intro counts
    have sameSlot : slotIndex memory.head = slotIndex memory.tail := by omega
    rw [ring.head_inRing.eq_slotAddress.2, ring.tail_inRing.eq_slotAddress.2, sameSlot]

end Memory.WellFormedRing

namespace KeyboardInterrupt

variable (interrupt : KeyboardInterrupt) {memory : Memory}

/-- The queue is empty and stays so up to the last test, and then keys arrive: fewer than
the queue holds, and too many to leave room for the text, which alone would fit. -/
def Crowded (arrivals : Arrivals) (text : List Byte) (memory : Memory) : Prop :=
  memory.queue = [] ∧ arrivals.beforeCount = [] ∧ arrivals.beforeHead = [] ∧ arrivals.beforeTail = [] ∧
    arrivals.beforeCli.length < 16 ∧ (keyWords text).length ≤ 16 ∧
    16 < arrivals.beforeCli.length + (keyWords text).length

/-- The text is neither empty nor too long. -/
theorem lengthOk_iff (text : List Byte) :
    ¬ (normalizedLength text = 0 ∨ normalizedLength text > pc98KbCapacity.toNat) ↔
      0 < (keyWords text).length ∧ (keyWords text).length ≤ 16 := by
  rw [normalizedLength_eq]
  simp only [pc98KbCapacity, BitVec.reduceToNat]
  omega

/-- The memory at the CLI or the return still holds a ring.  The tests pass with an empty
queue that stays empty, or with one that the keyboard fills up behind the first test. -/
theorem injectTests_spec (arrivals : Arrivals) (text : List Byte) (ring : memory.WellFormedRing) :
    (interrupt.injectTests arrivals text memory).2.WellFormedRing ∧
      ((interrupt.injectTests arrivals text memory).1 = true →
        (0 < (keyWords text).length ∧ (keyWords text).length ≤ 16) ∧
          ((interrupt.injectTests arrivals text memory).2.count = 16 ∨
            (memory.queue = [] ∧ arrivals.beforeCount = [] ∧ arrivals.beforeHead = [] ∧
              arrivals.beforeTail = [] ∧
              (interrupt.injectTests arrivals text memory).2.queue = arrivals.beforeCli.take 16))) := by
  obtain ⟨ring1, queue1, _⟩ := interrupt.arrive_spec arrivals.beforeCount ring
  obtain ⟨ring2, queue2, _⟩ := interrupt.arrive_spec arrivals.beforeHead ring1
  obtain ⟨ring3, queue3, head3⟩ := interrupt.arrive_spec arrivals.beforeTail ring2
  obtain ⟨ring4, queue4, _⟩ := interrupt.arrive_spec arrivals.beforeCli ring3
  simp only [injectTests]
  split_ifs with length count tail
  · exact ⟨ring1, fun passes => by simp at passes⟩
  · exact ⟨ring1, fun passes => by simp at passes⟩
  · exact ⟨ring3, fun passes => by simp at passes⟩
  · -- The count was 0 and head and tail have met since; that can be a queue that was filled.
    refine ⟨ring4, fun _ => ⟨(lengthOk_iff text).mp length, ?_⟩⟩
    have none : (interrupt.arrive arrivals.beforeCount memory).queue = [] := by
      rw [← List.length_eq_zero_iff, Memory.WellFormedRing.queue_length]
      exact (Memory.WellFormedRing.count_zero_iff _).mp (not_not.mp count)
    have meets : (interrupt.arrive arrivals.beforeTail (interrupt.arrive arrivals.beforeHead
        (interrupt.arrive arrivals.beforeCount memory))).head = _ := head3.trans (not_not.mp tail)
    rcases ring3.head_eq_tail_iff.mp meets with empty | full
    · -- No key has come before the last test.
      refine .inr ?_
      rw [← Memory.WellFormedRing.queue_length, List.length_eq_zero_iff] at empty
      rw [none, List.nil_append] at queue2
      rw [empty, List.nil_append] at queue4
      rw [queue2] at queue3
      have first := queue1.symm.trans none
      have second := queue3.symm.trans empty
      simp only [List.take_eq_nil_iff, List.append_eq_nil_iff, OfNat.ofNat_ne_zero, false_or] at first second
      exact ⟨first.1, first.2, second.1, second.2, queue4⟩
    · refine .inl ?_
      rw [← Memory.WellFormedRing.queue_length] at full ⊢
      rw [queue4, List.length_take, List.length_append]
      omega

/-- With an empty queue that stays empty, and a text that fits, the tests pass. -/
theorem injectTests_passes {arrivals : Arrivals} {text : List Byte} (ring : memory.WellFormedRing)
    (empty : memory.queue = []) (some : 0 < (keyWords text).length) (few : (keyWords text).length ≤ 16)
    (first : arrivals.beforeCount = []) (second : arrivals.beforeHead = [])
    (third : arrivals.beforeTail = []) :
    interrupt.injectTests arrivals text memory = (true, interrupt.arrive arrivals.beforeCli memory) := by
  have quiet : ∀ memory, interrupt.arrive [] memory = memory := fun _ => rfl
  have count : memory.count = 0 := by rw [← Memory.WellFormedRing.queue_length, empty, List.length_nil]
  have meets : memory.readWord pc98KbHead = memory.readWord pc98KbTail :=
    ring.head_eq_tail_iff.mpr (.inl count)
  rw [injectTests, first, second, third]
  simp only [quiet]
  rw [if_neg ((lengthOk_iff text).mpr ⟨some, few⟩),
    if_neg (not_not.mpr ((Memory.WellFormedRing.count_zero_iff memory).mpr count)),
    if_neg (not_not.mpr meets)]

/-- Then the words that crowd the text out are the ones in the queue at the CLI. -/
theorem tests_of_crowded {arrivals : Arrivals} {text : List Byte}
    (ring : memory.WellFormedRing) (crowded : Crowded arrivals text memory) :
    (interrupt.injectTests arrivals text memory).1 = true ∧
      (interrupt.injectTests arrivals text memory).2.count = arrivals.beforeCli.length := by
  obtain ⟨empty, first, second, third, fewKeys, few, many⟩ := crowded
  rw [interrupt.injectTests_passes ring empty (by omega) few first second third]
  refine ⟨rfl, ?_⟩
  rw [← Memory.WellFormedRing.queue_length, (interrupt.arrive_spec arrivals.beforeCli ring).2.1, empty,
    List.nil_append, List.length_take]
  omega

theorem allOrNothing_of_returns {interrupt : KeyboardInterrupt} {arrivals : Arrivals} {text : List Byte}
    (returns : (interrupt.injectTests arrivals text memory).1 = false) :
    interrupt.AllOrNothing arrivals text memory := by
  unfold AllOrNothing pc98BiosInject
  generalize interrupt.injectTests arrivals text memory = tests at returns ⊢
  obtain ⟨passes, typed⟩ := tests
  obtain rfl : passes = false := returns
  exact .inr ⟨rfl, rfl⟩

/-- From the CLI on it matters whether the whole text fits behind what the keyboard has left
in the queue, or nothing does. -/
theorem allOrNothing_iff_room {interrupt : KeyboardInterrupt} {arrivals : Arrivals} {text : List Byte}
    (ring : memory.WellFormedRing) (passes : (interrupt.injectTests arrivals text memory).1 = true) :
    interrupt.AllOrNothing arrivals text memory ↔
      (interrupt.injectTests arrivals text memory).2.count + (keyWords text).length ≤ 16 ∨
        (interrupt.injectTests arrivals text memory).2.count = 16 := by
  obtain ⟨ring', reaches⟩ := interrupt.injectTests_spec arrivals text ring
  obtain ⟨⟨some, _⟩, _⟩ := reaches passes
  unfold AllOrNothing pc98BiosInject
  generalize interrupt.injectTests arrivals text memory = tests at ring' passes ⊢
  obtain ⟨goesOn, typed⟩ := tests
  obtain rfl : goesOn = true := passes
  have ring' : typed.WellFormedRing := ring'
  have length := Memory.WellFormedRing.queue_length typed
  have bound := ring'.count_le
  obtain ⟨succeeds, queue⟩ := ring'.injectLoop_spec text text.length 0 (by omega)
  rw [List.drop_zero] at succeeds queue
  dsimp only
  by_cases fits : typed.count + (keyWords text).length ≤ 16
  · have whole : (typed.queue ++ keyWords text).take 16 = typed.queue ++ keyWords text :=
      List.take_of_length_le (by rw [List.length_append, length]; exact fits)
    exact iff_of_true (.inl ⟨succeeds.mpr fits, queue.trans whole⟩) (.inl fits)
  have fails : (injectLoop text text.length 0 typed).1 = false := by
    rw [← Bool.not_eq_true, succeeds]
    exact fits
  by_cases full : typed.count = 16
  · -- The first turn of the loop fails.
    have same : (typed.queue ++ keyWords text).take 16 = typed.queue := by
      rw [List.take_append_of_le_length (by omega), List.take_of_length_le (by omega)]
    exact iff_of_true (.inr ⟨fails, queue.trans same⟩) (.inr full)
  · -- A part of the text is appended, and the call returns -1.
    refine iff_of_false ?_ (not_or.mpr ⟨fits, full⟩)
    rintro (⟨succeeded, _⟩ | ⟨_, same⟩)
    · rw [fails] at succeeded
      contradiction
    · have lengths := congrArg List.length (queue.symm.trans same)
      rw [List.length_take, List.length_append] at lengths
      omega

/-- The queue is empty and stays so up to the last test, and then the keys that arrive leave
room for the text. -/
def Roomy (arrivals : Arrivals) (text : List Byte) (memory : Memory) : Prop :=
  memory.queue = [] ∧ arrivals.beforeCount = [] ∧ arrivals.beforeHead = [] ∧ arrivals.beforeTail = [] ∧
    arrivals.beforeCli.length + (keyWords text).length ≤ 16

/-- Only then the words of the text come into the queue, if there are any. -/
theorem places_iff_roomy {arrivals : Arrivals} {text : List Byte}
    (ring : memory.WellFormedRing) (words : keyWords text ≠ []) :
    (interrupt.pc98BiosInject arrivals text memory).2.queue =
        (interrupt.injectTests arrivals text memory).2.queue ++ keyWords text ↔
      Roomy arrivals text memory := by
  have some : 0 < (keyWords text).length := List.length_pos_iff.mpr words
  obtain ⟨ring', reaches⟩ := interrupt.injectTests_spec arrivals text ring
  unfold pc98BiosInject
  constructor
  · intro placed
    generalize interrupt.injectTests arrivals text memory = tests at ring' reaches placed
    obtain ⟨passes, typed⟩ := tests
    cases passes with
    | false => exact absurd (List.self_eq_append_right.mp placed) words
    | true =>
      -- Words that came in whole left the queue no longer than it can be.
      obtain ⟨_, waiting⟩ := reaches rfl
      have length := Memory.WellFormedRing.queue_length typed
      have lengths := congrArg List.length placed
      rw [(Memory.WellFormedRing.injectLoop_spec ring' text text.length 0 (by omega)).2, List.drop_zero,
        List.length_take, List.length_append, length] at lengths
      dsimp only at waiting
      rcases waiting with full | ⟨empty, first, second, third, keys⟩
      · omega
      · have count := congrArg List.length keys
        rw [length, List.length_take] at count
        exact ⟨empty, first, second, third, by omega⟩
  · rintro ⟨empty, first, second, third, room⟩
    rw [interrupt.injectTests_passes ring empty some (by omega) first second third]
    obtain ⟨cli, queue, _⟩ := interrupt.arrive_spec arrivals.beforeCli ring
    dsimp only
    rw [(cli.injectLoop_spec text text.length 0 (by omega)).2, List.drop_zero, List.take_of_length_le]
    rw [queue, empty, List.nil_append, List.length_append, List.length_take]
    omega

end KeyboardInterrupt

/-- The call appends all of the text or nothing of it, unless keys arrive between the last
test and the CLI that leave room for a part of it.  With no key at all it is the call that
is not interrupted. -/
theorem inject_all_or_nothing (interrupt : KeyboardInterrupt) (arrivals : Arrivals) (text : List Byte)
    (memory : Memory) (ring : memory.WellFormedRing) :
    (interrupt.AllOrNothing arrivals text memory ↔ ¬ KeyboardInterrupt.Crowded arrivals text memory) ∧
      interrupt.pc98BiosInject {} text memory = ImeBridge.pc98BiosInject text memory := by
  refine ⟨?_, interrupt.pc98BiosInject_quiet text memory⟩
  cases tests : (interrupt.injectTests arrivals text memory).1 with
  | false =>
    refine iff_of_true (KeyboardInterrupt.allOrNothing_of_returns tests) fun crowded => ?_
    have passes := (interrupt.tests_of_crowded ring crowded).1
    rw [tests] at passes
    contradiction
  | true =>
    obtain ⟨ring', reaches⟩ := interrupt.injectTests_spec arrivals text ring
    obtain ⟨⟨some, few⟩, waiting⟩ := reaches tests
    have bound := ring'.count_le
    rw [KeyboardInterrupt.allOrNothing_iff_room ring tests]
    constructor
    · intro room crowded
      have count := (interrupt.tests_of_crowded ring crowded).2
      obtain ⟨_, _, _, _, fewKeys, _, many⟩ := crowded
      omega
    · intro roomy
      rcases waiting with full | ⟨empty, first, second, third, keys⟩
      · exact .inr full
      · have count := congrArg List.length keys
        rw [Memory.WellFormedRing.queue_length, List.length_take] at count
        by_contra partly
        exact roomy ⟨empty, first, second, third, by omega, few, by omega⟩

/-- A keyboard interrupt that appends a word as `pc98_bios_enqueue_word` does. -/
def enqueueInterrupt : KeyboardInterrupt where
  store := fun key memory => (pc98BiosEnqueueWord key memory).2
  stores := by
    intro memory key ring
    have length := Memory.WellFormedRing.queue_length memory
    by_cases room : memory.count < 16
    · obtain ⟨_, ring', queue'⟩ := ring.enqueue_room room key
      have notFull : ¬ memory.readByte pc98KbCount ≥ pc98KbCapacity := by
        unfold Memory.count at room
        unfold pc98KbCapacity
        bv_omega
      have stores : (pc98BiosEnqueueWord key memory).2 = memory.store key :=
        congrArg Prod.snd (if_neg (not_or.mpr ⟨notFull, ring.tail_accepted⟩))
      refine ⟨ring', ?_, ?_⟩
      · rw [queue', BoundedFifo.push, length, if_pos room]
      · rw [stores, ring.head_store]
    · rw [Memory.WellFormedRing.enqueue_full room, BoundedFifo.push, length, if_neg room]
      exact ⟨ring, rfl, rfl⟩

/-- An empty ring at the start of the buffer. -/
def emptyRing : Memory :=
  (Memory.blank.writeWord pc98KbHead 0x0502#16).writeWord pc98KbTail 0x0502#16

theorem emptyRing_wellFormed : emptyRing.WellFormedRing := ⟨by decide, by decide, by decide, by decide⟩

/-- A key between the last test and the CLI, and two words that still fit. -/
theorem inject_all_or_nothing_keyBeforeCli :
    enqueueInterrupt.AllOrNothing { beforeCli := [0x1e61#16] } [0x41#8, 0x42#8] emptyRing :=
  (inject_all_or_nothing enqueueInterrupt _ _ _ emptyRing_wellFormed).1.mpr (by
    rintro ⟨_, _, _, _, _, _, many⟩
    exact absurd many (by decide))

/-- Sixteen letters, and one key between the last test and the CLI: the call returns -1
with fifteen of the letters in the queue. -/
theorem inject_appends_part :
    ¬ ∀ interrupt arrivals text memory, memory.WellFormedRing →
      KeyboardInterrupt.AllOrNothing interrupt arrivals text memory := by
  intro all
  have crowded : KeyboardInterrupt.Crowded { beforeCli := [0x1e61#16] } (List.replicate 16 0x41#8) emptyRing := by
    refine ⟨?_, rfl, rfl, rfl, ?_, ?_, ?_⟩ <;> decide
  obtain ⟨passes, count⟩ := enqueueInterrupt.tests_of_crowded emptyRing_wellFormed crowded
  have room := (KeyboardInterrupt.allOrNothing_iff_room emptyRing_wellFormed passes).mp
    (all enqueueInterrupt _ _ _ emptyRing_wellFormed)
  rw [count] at room
  exact absurd room (by decide)

end ImeBridge
