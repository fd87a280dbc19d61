import ImeBridge.Input.Hook

/-! # What the hook and the worker do to the keys

For each piece of the hook, which waiting keys it takes for the hotkey, and that the
account of the keys stays in step with the BIOS queue.
-/

namespace ImeBridge

open Library

/-! ## The BIOS data area -/

namespace Memory

variable (memory : Memory)

/-- The queue and its pointers lie below the key bitmap. -/
theorem keyState_writeWord {address : Word} (below : address < 0x052a#16) (value : Word) :
    (memory.writeWord address value).keyState = memory.keyState := by
  have space : (memory.writeWord address value).readByte 0x0530#16 = memory.readByte 0x0530#16 := by
    apply readByte_writeWord_apart <;> bv_omega
  have modifiers : (memory.writeWord address value).readByte 0x053a#16 = memory.readByte 0x053a#16 := by
    apply readByte_writeWord_apart <;> bv_omega
  simp only [keyState, space, modifiers]

@[simp] theorem keyState_writeCount (value : Byte) :
    (memory.writeByte pc98KbCount value).keyState = memory.keyState := by
  simp [keyState, pc98KbCount]

variable {memory} {other : Memory}

theorem WellFormedRing.keyState_enqueue (ring : memory.WellFormedRing) (key : Word) :
    (pc98BiosEnqueueWord key memory).2.keyState = memory.keyState := by
  have tail : memory.readWord pc98KbTail < 0x052a#16 := by
    have upper := ring.tail_inRing.2.1
    unfold Memory.tail at upper
    bv_omega
  simp only [pc98BiosEnqueueWord]
  split
  · rfl
  · simp only [keyState_writeCount, keyState_writeWord _ tail,
      keyState_writeWord _ (show pc98KbTail < 0x052a#16 by decide)]

theorem keyState_discard : (pc98BiosDiscardHotkeySpace memory).2.keyState = memory.keyState := by
  simp only [pc98BiosDiscardHotkeySpace]
  generalize (if memory.readWord pc98KbTail = pc98KbBufferStart then pc98KbBufferEnd - 2#16
    else memory.readWord pc98KbTail - 2#16) = position
  split_ifs
  · rfl
  · rfl
  · simp only [keyState_writeCount, keyState_writeWord _ (show pc98KbTail < 0x052a#16 by decide)]

theorem keyState_dequeue : (pc98InputDequeue memory).2.keyState = memory.keyState := by
  simp only [pc98InputDequeue, keyState_writeWord _ (show pc98KbHead < 0x052a#16 by decide),
    keyState_writeCount]

/-- A byte above the queue and its pointers does not disturb them. -/
theorem WellFormedRing.writeAbove (ring : memory.WellFormedRing) {address : Word}
    (above : 0x052a#16 ≤ address) (value : Byte) :
    (memory.writeByte address value).WellFormedRing ∧
      (memory.writeByte address value).queue = memory.queue := by
  have head : (memory.writeByte address value).head = memory.head := by
    apply readWord_writeByte_apart <;> simp only [pc98KbHead] <;> bv_omega
  have tail : (memory.writeByte address value).tail = memory.tail := by
    apply readWord_writeByte_apart <;> simp only [pc98KbTail] <;> bv_omega
  have count : (memory.writeByte address value).count = memory.count := by
    have apart : pc98KbCount ≠ address := by
      simp only [pc98KbCount]
      bv_omega
    simp [Memory.count, apart]
  have slots : ∀ index, index < 16 →
      (memory.writeByte address value).slot index = memory.slot index := by
    intro index bound
    have position := toNat_slotAddress bound
    apply readWord_writeByte_apart <;> bv_omega
  refine ⟨⟨head ▸ ring.head_inRing, tail ▸ ring.tail_inRing, count ▸ ring.count_le, ?_⟩, ?_⟩
  · rw [head, tail, count]
    exact ring.tail_index
  · rw [queue, queue, head, count, CircularBuffer.contents_congr slots (by decide)]

/-- Words are appended to the queue, and no key is touched. -/
structure Fills (before after : Memory) : Prop where
  ring : after.WellFormedRing
  queue : before.queue <+: after.queue
  keyState : after.keyState = before.keyState

theorem Fills.refl (ring : memory.WellFormedRing) : memory.Fills memory := ⟨ring, List.prefix_rfl, rfl⟩

theorem Fills.trans {last : Memory} (first : memory.Fills other) (second : other.Fills last) :
    memory.Fills last :=
  ⟨second.ring, first.queue.trans second.queue, second.keyState.trans first.keyState⟩

theorem enqueue_fills (ring : memory.WellFormedRing) (key : Word) :
    memory.Fills (pc98BiosEnqueueWord key memory).2 := by
  by_cases room : memory.count < 16
  · obtain ⟨_, ring', queue⟩ := ring.enqueue_room room key
    exact ⟨ring', queue ▸ List.prefix_append _ _, ring.keyState_enqueue key⟩
  · rw [WellFormedRing.enqueue_full room key]
    exact .refl ring

end Memory

theorem injectTextLoop_fills (budget : Nat) {tsr : Tsr} (ring : tsr.memory.WellFormedRing) :
    tsr.memory.Fills (injectTextLoop budget tsr).2.memory := by
  refine @injectTextLoop_rule tsr
    (fun before after => before.memory.WellFormedRing → before.memory.Fills after.memory)
    (fun _ => .refl) ?_ ?_ budget ring
  · intro rest key memory full ring
    have fills := Memory.enqueue_fills ring key
    rwa [full] at fills
  · intro rest after key input memory _ _ room later ring
    have fills := Memory.enqueue_fills ring key
    rw [room] at fills
    exact fills.trans (later fills.ring)

theorem injectPendingText_fills {tsr : Tsr} (ring : tsr.memory.WellFormedRing) :
    tsr.memory.Fills (injectPendingText tsr).memory := by
  have loop := injectTextLoop_fills 16 ring
  obtain ⟨rest, sent, looped, sends, waits | ⟨-, answers⟩⟩ := injectPendingText_cases tsr
  · rwa [waits, ← looped]
  · have sending := (sendPacket_serves rest imeTextAck rest.pendingSequence []).memory
    rw [sends] at sending
    rw [looped] at loop
    rwa [answers, sending]

theorem injectPendingKey_fills {tsr : Tsr} (ring : tsr.memory.WellFormedRing) :
    tsr.memory.Fills (injectPendingKey tsr).memory := by
  have fills := Memory.enqueue_fills ring tsr.pendingKey
  obtain ⟨memory, ⟨full, refused⟩ | ⟨room, rest, sent, queued, sends, answers⟩⟩ :=
    injectPendingKey_cases tsr
  · rw [full] at fills
    rwa [refused]
  · have sending := (sendPacket_serves rest imeKeyAck rest.pendingSequence []).memory
    rw [sends] at sending
    rw [room] at fills
    rw [answers, sending, ← queued]
    exact fills

theorem injectStage_fills {tsr : Tsr} (ring : tsr.memory.WellFormedRing) :
    tsr.memory.Fills (injectStage tsr).memory :=
  @injectStage_rule tsr (fun before after => before.memory.Fills after.memory) (.refl ring)
    (fun _ => injectPendingText_fills ring)
    (fun _ text _ => text.trans (injectPendingKey_fills text.ring))

/-! ## A worker run -/

/-- How often `toggle_ime_hotkey` has run. -/
def Tsr.toggles (tsr : Tsr) : Nat := tsr.history.countP Event.isToggle

theorem Tsr.Works.toggles {tsr next : Tsr} (works : tsr.Works next) : next.toggles = tsr.toggles := by
  obtain ⟨added, history, events⟩ := works.history
  have none : added.countP Event.isToggle = 0 :=
    List.countP_eq_zero.mpr fun event member => by simp [(events event member).2]
  rw [Tsr.toggles, history, List.countP_append, none, Nat.add_zero, Tsr.toggles]

@[simp] theorem Tsr.toggles_withMemory (tsr : Tsr) (memory : Memory) :
    Tsr.toggles { tsr with memory := memory } = tsr.toggles := rfl

theorem toggleImeHotkey_toggles (tsr : Tsr) : (toggleImeHotkey tsr).toggles = tsr.toggles + 1 := by
  rw [(toggleImeHotkey_serves tsr).toWorks.toggles]
  simp [Tsr.toggles, Tsr.note, Event.isToggle]

/-- A worker run from here takes the newest word back. -/
def Tsr.FindsHotkey (tsr : Tsr) : Prop :=
  tsr.HotkeyHeld ∧ tsr.memory.queue.getLast? = some 0x3420#16

instance (tsr : Tsr) : Decidable tsr.FindsHotkey := by unfold Tsr.FindsHotkey; infer_instance

/-- The queue behind the first stage of a worker run. -/
def Tsr.queueLeft (tsr : Tsr) : List Word :=
  if tsr.FindsHotkey then tsr.memory.queue.dropLast else tsr.memory.queue

variable {tsr : Tsr}

theorem discards_iff (ring : tsr.memory.WellFormedRing) :
    (decide tsr.HotkeyHeld && (pc98BiosDiscardHotkeySpace tsr.memory).1) = decide tsr.FindsHotkey := by
  by_cases newest : tsr.memory.queue.getLast? = some 0x3420#16
  · simp [Tsr.FindsHotkey, newest, (ring.discard_space newest).1]
  · simp [Tsr.FindsHotkey, newest, ring.discard_other newest]

theorem hotkeyStage_keys (ring : tsr.memory.WellFormedRing) :
    (hotkeyStage tsr).memory.WellFormedRing ∧ (hotkeyStage tsr).memory.queue = tsr.queueLeft ∧
      (hotkeyStage tsr).memory.keyState = tsr.memory.keyState ∧
      (hotkeyStage tsr).hotkeyModifierMask = tsr.hotkeyModifierMask ∧
      (hotkeyStage tsr).toggles = tsr.toggles + if tsr.FindsHotkey then 1 else 0 := by
  by_cases held : tsr.HotkeyHeld
  · rw [hotkeyStage_held tsr held]
    by_cases newest : tsr.memory.queue.getLast? = some 0x3420#16
    · obtain ⟨discarded, ring', queue⟩ := ring.discard_space newest
      have found : tsr.FindsHotkey := ⟨held, newest⟩
      simp only [discarded, if_true, Tsr.queueLeft, if_pos found]
      have works := (toggleImeHotkey_serves
        { tsr with memory := (pc98BiosDiscardHotkeySpace tsr.memory).2, hotkeyLatched := true }).toWorks
      rw [works.memory, works.modifierMask, toggleImeHotkey_toggles]
      exact ⟨ring', queue, Memory.keyState_discard, rfl, rfl⟩
    · have notFound : ¬ tsr.FindsHotkey := fun found => newest found.2
      rw [ring.discard_other newest, Tsr.queueLeft, if_neg notFound, if_neg notFound]
      exact ⟨ring, rfl, rfl, rfl, rfl⟩
  · have notFound : ¬ tsr.FindsHotkey := fun found => held found.1
    rw [hotkeyStage_released tsr held, Tsr.queueLeft, if_neg notFound, if_neg notFound]
    exact ⟨ring, rfl, rfl, rfl, rfl⟩

/-- A worker run takes the newest word if it counts it as the hotkey, and appends words. -/
theorem pc98ServiceForeground_keys (ring : tsr.memory.WellFormedRing) :
    (pc98ServiceForeground tsr).memory.WellFormedRing ∧
      tsr.queueLeft <+: (pc98ServiceForeground tsr).memory.queue ∧
      (pc98ServiceForeground tsr).memory.keyState = tsr.memory.keyState ∧
      (pc98ServiceForeground tsr).hotkeyModifierMask = tsr.hotkeyModifierMask ∧
      (pc98ServiceForeground tsr).toggles = tsr.toggles + if tsr.FindsHotkey then 1 else 0 := by
  obtain ⟨ring', queue, keyState, modifierMask, toggles⟩ := hotkeyStage_keys ring
  have works := pc98ServiceForeground_works tsr
  have received := (receiveStage_works (hotkeyStage tsr)).memory
  have fills := injectStage_fills (show (receiveStage (hotkeyStage tsr)).memory.WellFormedRing from
    received ▸ ring')
  have last : (pc98ServiceForeground tsr).memory =
      (injectStage (receiveStage (hotkeyStage tsr))).memory := by
    rw [pc98ServiceForeground, finish_memory]
  rw [received, ← last] at fills
  refine ⟨fills.ring, queue ▸ fills.queue, fills.keyState.trans keyState,
    works.modifierMask.trans modifierMask, ?_⟩
  rw [works.toggles, Tsr.toggles_withMemory, toggles]

theorem pc98ServiceReturnedHotkey_keys (tsr : Tsr) :
    (pc98ServiceReturnedHotkey tsr).1 = decide tsr.HotkeyHeld ∧
      (pc98ServiceReturnedHotkey tsr).2.memory = tsr.memory ∧
      (pc98ServiceReturnedHotkey tsr).2.hotkeyModifierMask = tsr.hotkeyModifierMask ∧
      (pc98ServiceReturnedHotkey tsr).2.toggles = tsr.toggles + if tsr.HotkeyHeld then 1 else 0 := by
  rw [pc98ServiceReturnedHotkey_eq]
  by_cases held : tsr.HotkeyHeld
  · have works := (toggleImeHotkey_serves { tsr with hotkeyLatched := decide tsr.HotkeyHeld }).toWorks
    have toggles := toggleImeHotkey_toggles { tsr with hotkeyLatched := decide tsr.HotkeyHeld }
    rw [if_pos held, if_pos held, decide_eq_true held]
    rw [decide_eq_true held] at works toggles
    exact ⟨rfl, works.memory, works.modifierMask, toggles⟩
  · rw [if_neg held, if_neg held, decide_eq_false held]
    exact ⟨rfl, rfl, rfl, rfl⟩

/-! ## The account of the keys -/

/-- The account agrees with the queue and with what the application was given. -/
structure Console.InStep (console : Console) : Prop where
  ring : console.memory.WellFormedRing
  queue : console.memory.queue = console.queued.map Key.word
  returned : console.returned = console.delivered.map Key.word
  accounted : console.Accounted
  halted : console.phase = .halted → console.inputOriginalAh = .ah00

/-- On the way from one state to the other the keys `seen` are counted as the hotkey, of
which `lost` are taken. -/
structure Console.Counts (seen lost : List Key) (before after : Console) : Prop where
  noticed : after.noticed = before.noticed ++ seen
  taken : after.taken = before.taken ++ lost
  toggles : after.toggles = before.toggles + seen.length

namespace Console

theorem Counts.trans {seen lost later laterLost : List Key} {before middle after : Console}
    (first : Counts seen lost before middle) (second : Counts later laterLost middle after) :
    Counts (seen ++ later) (lost ++ laterLost) before after where
  noticed := by rw [second.noticed, first.noticed, List.append_assoc]
  taken := by rw [second.taken, first.taken, List.append_assoc]
  toggles := by rw [second.toggles, first.toggles, List.length_append, Nat.add_assoc]

variable {console : Console}

/-- What `enter` needs to bring the account into step. -/
theorem enter_inStep (ring : console.memory.WellFormedRing)
    (queue : console.queued.map Key.word <+: console.memory.queue)
    (returned : console.returned = console.delivered.map Key.word) (accounted : console.Accounted)
    (halted : console.phase = .halted → console.inputOriginalAh = .ah00) : console.enter.InStep where
  ring := ring
  queue := by
    obtain ⟨added, split⟩ := queue
    simp [enter, Custody.arrive, ← split, Tsr.key, Function.comp_def]
  returned := returned
  accounted := accounted.arrive _
  halted := halted

theorem Counts.enter {seen lost : List Key} {before after : Console}
    (counts : Counts seen lost before after) : Counts seen lost before after.enter :=
  ⟨counts.noticed, counts.taken, counts.toggles⟩

/-- The newest waiting key, if a worker run takes it back. -/
def newestHotkey (console : Console) : List Key :=
  if console.FindsHotkey then console.queued.getLast?.toList else []

/-- The Space words at the head of the queue, while the hotkey is held. -/
def leadingHotkeys (console : Console) : List Key :=
  if console.HotkeyHeld then console.queued.takeWhile fun key => key.word = 0x3420#16 else []

theorem leadingHotkeys_eq_nil : console.leadingHotkeys = [] ↔
    ¬ (console.HotkeyHeld ∧ (console.queued.map Key.word).head? = some 0x3420#16) := by
  by_cases held : console.HotkeyHeld
  · cases queued : console.queued with
    | nil => simp [leadingHotkeys, queued]
    | cons key keys =>
      by_cases space : key.word = 0x3420#16
      · simp [leadingHotkeys, held, queued, space]
      · simp [leadingHotkeys, queued, space]
  · simp [leadingHotkeys, held]

theorem service_tsr (console : Console) (tsr : Tsr) :
    (console.service tsr).toTsr = pc98ServiceForeground tsr := by
  simp only [service, serve, enter]

/-- A worker run of the console, on the state `tsr` of the resident copy. -/
theorem service_spec (inStep : console.InStep) (tsr : Tsr) (memory : tsr.memory = console.memory)
    (modifierMask : tsr.hotkeyModifierMask = console.hotkeyModifierMask)
    (history : tsr.history = console.history) :
    (console.service tsr).InStep ∧
      Counts console.newestHotkey console.newestHotkey console (console.service tsr) := by
  have ring : tsr.memory.WellFormedRing := memory ▸ inStep.ring
  have finds : tsr.FindsHotkey ↔ console.FindsHotkey := by
    simp only [Tsr.FindsHotkey, Tsr.HotkeyHeld, memory, modifierMask]
  obtain ⟨ring', queue, -, -, toggles⟩ := pc98ServiceForeground_keys ring
  have before : tsr.toggles = console.toggles := by simp only [Tsr.toggles, history]
  rw [before] at toggles
  have words : tsr.memory.queue = console.queued.map Key.word := memory ▸ inStep.queue
  have discards := discards_iff ring
  simp only [service, serve, discards]
  generalize pc98ServiceForeground tsr = served at ring' queue toggles ⊢
  by_cases found : console.FindsHotkey
  · have foundHere := finds.mpr found
    have newest : console.newestHotkey = console.queued.getLast?.toList := if_pos found
    have single : console.queued.getLast?.toList.length = 1 := by
      have last := found.2
      rw [inStep.queue, List.getLast?_map, Option.map_eq_some_iff] at last
      obtain ⟨key, last, _⟩ := last
      simp [last]
    rw [Tsr.queueLeft, if_pos foundHere, words, ← List.map_dropLast] at queue
    rw [if_pos foundHere, ← single] at toggles
    simp only [foundHere, decide_true, if_true, newest]
    exact ⟨enter_inStep ring' queue inStep.returned inStep.accounted.takeNewest inStep.halted,
      Counts.enter ⟨rfl, rfl, toggles⟩⟩
  · have notFoundHere := mt finds.mp found
    have newest : console.newestHotkey = [] := if_neg found
    rw [Tsr.queueLeft, if_neg notFoundHere, words] at queue
    rw [if_neg notFoundHere] at toggles
    simp only [notFoundHere, decide_false, Bool.false_eq_true, if_false, newest]
    exact ⟨enter_inStep ring' queue inStep.returned inStep.accounted inStep.halted,
      Counts.enter ⟨(List.append_nil _).symm, (List.append_nil _).symm, toggles⟩⟩

/-! ### Behind the old handler -/

/-- AX holds the word of the oldest key, which has left the queue unless AH=01h only looked. -/
structure Holds (word : Word) (console : Console) : Prop where
  ring : console.memory.WellFormedRing
  queue : console.queued.map Key.word =
    if console.inputOriginalAh = .ah01 then console.memory.queue else word :: console.memory.queue
  oldest : (console.queued.map Key.word).head? = some word
  returned : console.returned = console.delivered.map Key.word
  accounted : console.Accounted

theorem Holds.cons {word : Word} (holds : console.Holds word) :
    ∃ key keys, console.queued = key :: keys ∧ key.word = word ∧
      (console.inputOriginalAh ≠ .ah01 → keys.map Key.word = console.memory.queue) := by
  obtain ⟨key, keys, split⟩ : ∃ key keys, console.queued = key :: keys := by
    cases queued : console.queued with
    | nil => simpa [queued] using holds.oldest
    | cons key keys => exact ⟨key, keys, rfl⟩
  have oldest := holds.oldest
  rw [split, List.map_cons, List.head?_cons, Option.some.injEq] at oldest
  refine ⟨key, keys, split, oldest, fun removed => ?_⟩
  have queue := holds.queue
  rw [if_neg removed, split, List.map_cons, oldest] at queue
  exact (List.cons.inj queue).2

theorem inputReturn_spec {word : Word} (holds : console.Holds word) :
    (console.inputReturn word).InStep ∧ Counts [] [] console (console.inputReturn word) := by
  have queue := holds.queue
  by_cases looked : console.inputOriginalAh = .ah01
  · have returns : console.inputReturn word = { console with phase := .application } := by
      simp [inputReturn, looked]
    rw [if_pos looked] at queue
    rw [returns]
    exact ⟨⟨holds.ring, queue.symm, holds.returned, holds.accounted, by simp⟩,
      ⟨by simp, by simp, rfl⟩⟩
  · obtain ⟨key, keys, split, oldest, rest⟩ := holds.cons
    have returns : console.inputReturn word =
        { console with
          phase := .application
          returned := console.returned ++ [word]
          toCustody := console.deliverOldest } := by
      cases ah : console.inputOriginalAh with
      | ah00 | ah05 => simp [inputReturn, ah]
      | ah01 => exact absurd ah looked
    have queued : console.deliverOldest.queued = keys := by simp [Custody.deliverOldest, split]
    have delivered : console.deliverOldest.delivered = console.delivered ++ [key] := by
      simp [Custody.deliverOldest, split]
    rw [returns]
    refine ⟨⟨holds.ring, ?_, ?_, holds.accounted.deliverOldest, by simp⟩, ⟨?_, ?_, rfl⟩⟩
    · exact (queued ▸ rest looked).symm
    · simp [delivered, holds.returned, oldest]
    · simp [Custody.deliverOldest]
    · simp [Custody.deliverOldest]

/-- What the filter takes for the hotkey. -/
def filtered (word : Word) (console : Console) : List Key :=
  if word = 0x3420#16 ∧ console.HotkeyHeld then console.queued.take 1 else []

/-- It is the first of the Space words at the head. -/
theorem Holds.filtered {word : Word} (holds : console.Holds word) :
    console.filtered word = console.leadingHotkeys.take 1 := by
  obtain ⟨key, keys, split, oldest, -⟩ := holds.cons
  by_cases hotkey : word = 0x3420#16 ∧ console.HotkeyHeld
  · rw [Console.filtered, if_pos hotkey, leadingHotkeys, if_pos hotkey.2, split]
    simp [oldest, hotkey.1]
  · have none : console.leadingHotkeys = [] := by
      rw [leadingHotkeys_eq_nil, holds.oldest, Option.some.injEq]
      exact fun both => hotkey ⟨both.2, both.1⟩
    rw [Console.filtered, if_neg hotkey, none, List.take_nil]

/-- Behind `pc98_service_returned_hotkey` AX still holds the word. -/
theorem Holds.served {word : Word} (holds : console.Holds word) :
    Holds word { console with toTsr := (pc98ServiceReturnedHotkey console.toTsr).2 } := by
  obtain ⟨-, memory, -, -⟩ := pc98ServiceReturnedHotkey_keys console.toTsr
  exact ⟨memory ▸ holds.ring, memory ▸ holds.queue, holds.oldest, holds.returned, holds.accounted⟩

theorem inputReturnedSpace_spec (holds : console.Holds 0x3420#16) (held : console.HotkeyHeld) :
    (console.inputReturnedSpace).2.InStep ∧
      Counts (console.queued.take 1)
        (if console.inputOriginalAh = .ah01 then [] else console.queued.take 1) console
        (console.inputReturnedSpace).2 := by
  have served := holds.served
  obtain ⟨key, keys, split, -, rest⟩ := served.cons
  obtain ⟨handled, -, -, toggles⟩ := pc98ServiceReturnedHotkey_keys console.toTsr
  rw [decide_eq_true held] at handled
  rw [if_pos held] at toggles
  have split : console.queued = key :: keys := split
  have oldest : console.queued.take 1 = [key] := by simp [split]
  have head : console.queued.head?.toList = [key] := by simp [split]
  have tail : console.queued.tail = keys := by simp [split]
  simp only [inputReturnedSpace, handled, if_true, oldest]
  cases ah : console.inputOriginalAh with
  | ah00 =>
    refine ⟨⟨served.ring, ?_, served.returned, holds.accounted.takeOldest, fun _ => rfl⟩, ?_⟩
    · exact (tail ▸ rest (by simp [ah])).symm
    · exact ⟨head ▸ rfl, head ▸ rfl, toggles⟩
  | ah05 =>
    refine ⟨⟨served.ring, ?_, served.returned, holds.accounted.takeOldest, by simp⟩, ?_⟩
    · exact (tail ▸ rest (by simp [ah])).symm
    · exact ⟨head ▸ rfl, head ▸ rfl, toggles⟩
  | ah01 =>
    have queue := served.queue
    rw [if_pos ah] at queue
    refine ⟨⟨served.ring, queue.symm, served.returned, holds.accounted.noticeOldest, by simp⟩, ?_⟩
    exact ⟨head ▸ rfl, (List.append_nil _).symm, toggles⟩

theorem inputFilter_spec {word : Word} (holds : console.Holds word) :
    (console.inputFilter word).2.InStep ∧
      Counts (console.filtered word)
        (if console.inputOriginalAh = .ah01 then [] else console.filtered word) console
        (console.inputFilter word).2 := by
  by_cases space : word = 0x3420#16
  · subst space
    by_cases held : console.HotkeyHeld
    · have filtered : console.filtered 0x3420#16 = console.queued.take 1 := if_pos ⟨rfl, held⟩
      rw [filtered, inputFilter, if_pos rfl]
      exact inputReturnedSpace_spec holds held
    · have filtered : console.filtered 0x3420#16 = [] := if_neg fun both => held both.2
      obtain ⟨handled, -, -, toggles⟩ := pc98ServiceReturnedHotkey_keys console.toTsr
      rw [decide_eq_false held] at handled
      rw [if_neg held] at toggles
      have served : Counts [] [] console
          { console with toTsr := (pc98ServiceReturnedHotkey console.toTsr).2 } :=
        ⟨(List.append_nil _).symm, (List.append_nil _).symm, toggles⟩
      obtain ⟨inStep, counts⟩ := inputReturn_spec holds.served
      rw [filtered, ite_self, inputFilter, if_pos rfl]
      simp only [inputReturnedSpace, handled, Bool.false_eq_true, if_false]
      exact ⟨inStep, served.trans counts⟩
  · have filtered : console.filtered word = [] := if_neg fun both => space both.1
    rw [filtered, ite_self, inputFilter, if_neg space]
    exact inputReturn_spec holds

/-- The hook goes round again only with a hotkey word that AH=00h was to return. -/
theorem inputFilter_retries (word : Word) : (console.inputFilter word).1 =
    decide (word = 0x3420#16 ∧ console.HotkeyHeld ∧ console.inputOriginalAh = .ah00) := by
  obtain ⟨handled, -⟩ := pc98ServiceReturnedHotkey_keys console.toTsr
  by_cases space : word = 0x3420#16
  · by_cases held : console.HotkeyHeld
    · rw [decide_eq_true held] at handled
      cases ah : console.inputOriginalAh <;>
        simp [inputFilter, inputReturnedSpace, space, held, handled, ah]
    · rw [decide_eq_false held] at handled
      simp [inputFilter, inputReturnedSpace, space, held, handled]
  · simp [inputFilter, space]

/-- What the next turn of the loop begins with. -/
theorem inputFilter_retry {word : Word} (retries : (console.inputFilter word).1 = true) :
    (console.inputFilter word).2 = { console with
      toTsr := toggleImeHotkey { console.toTsr with hotkeyLatched := true }
      toCustody := console.takeOldest } := by
  rw [inputFilter_retries, decide_eq_true_eq] at retries
  obtain ⟨space, held, ah⟩ := retries
  have service := pc98ServiceReturnedHotkey_eq console.toTsr
  rw [if_pos held, decide_eq_true held] at service
  simp only [inputFilter, if_pos space, inputReturnedSpace, service, if_true, ah]

theorem hotkeyHeld_congr {tsr other : Tsr} (keyState : other.memory.keyState = tsr.memory.keyState)
    (modifierMask : other.hotkeyModifierMask = tsr.hotkeyModifierMask) :
    other.HotkeyHeld ↔ tsr.HotkeyHeld := by
  simp only [Memory.keyState, Prod.mk.injEq] at keyState
  simp only [Tsr.HotkeyHeld, keyState, modifierMask]

theorem inputReturn_fields (word : Word) : (console.inputReturn word).phase = .application ∧
    (console.inputReturn word).toTsr = console.toTsr := by
  cases ah : console.inputOriginalAh <;> simp [inputReturn, ah]

/-- A word that is no hotkey goes to the application. -/
theorem inputFilter_stop {word : Word} (other : ¬ (word = 0x3420#16 ∧ console.HotkeyHeld)) :
    (console.inputFilter word).2.phase = .application ∧
      ∃ latched, (console.inputFilter word).2.toTsr = { console.toTsr with hotkeyLatched := latched } := by
  by_cases space : word = 0x3420#16
  · have released : ¬ console.HotkeyHeld := fun held => other ⟨space, held⟩
    have service := pc98ServiceReturnedHotkey_eq console.toTsr
    rw [if_neg released] at service
    simp only [inputFilter, if_pos space, inputReturnedSpace, service, Bool.false_eq_true, if_false]
    obtain ⟨phase, tsr⟩ := @inputReturn_fields
      { console with toTsr := { console.toTsr with hotkeyLatched := decide console.HotkeyHeld } } 0x3420#16
    exact ⟨phase, _, tsr⟩
  · obtain ⟨phase, tsr⟩ := @inputReturn_fields console word
    rw [inputFilter, if_neg space]
    exact ⟨phase, console.hotkeyLatched, tsr⟩

/-! ### The loop behind AH=00h -/

/-- The oldest key has been taken for the hotkey, and the next word is wanted. -/
structure Retries (before next : Console) : Prop where
  key : ∃ key, before.queued = key :: next.queued ∧
    before.leadingHotkeys = key :: next.leadingHotkeys ∧ Counts [key] [key] before next
  tsr : next.toTsr = toggleImeHotkey { before.toTsr with hotkeyLatched := true }

/-- The oldest key goes to the application. -/
structure Delivers (before after : Console) : Prop where
  waiting : before.queued ≠ []
  leading : before.leadingHotkeys = []
  counts : Counts [] [] before after
  phase : after.phase = .application
  tsr : ∃ latched, after.toTsr = { before.toTsr with hotkeyLatched := latched }

theorem inputFilter_cases {word : Word} (holds : console.Holds word)
    (ah : console.inputOriginalAh = .ah00) :
    let filtered := console.inputFilter word
    filtered.2.InStep ∧
      ((filtered.1 = true ∧ filtered.2.inputOriginalAh = .ah00 ∧ Retries console filtered.2) ∨
        (filtered.1 = false ∧ Delivers console filtered.2)) := by
  intro filtered
  obtain ⟨key, keys, split, oldest, -⟩ := holds.cons
  obtain ⟨inStep, counts⟩ := inputFilter_spec holds
  rw [if_neg (by simp [ah])] at counts
  have retries := @inputFilter_retries console word
  refine ⟨inStep, ?_⟩
  by_cases hotkey : word = 0x3420#16 ∧ console.HotkeyHeld
  · have again : filtered.1 = true := retries.trans (by simp [hotkey.1, hotkey.2, ah])
    have next : filtered.2 = _ := inputFilter_retry again
    have works := (toggleImeHotkey_serves { console.toTsr with hotkeyLatched := true }).toWorks
    have tsr : filtered.2.toTsr = toggleImeHotkey { console.toTsr with hotkeyLatched := true } := by
      rw [next]
    have queued : filtered.2.queued = keys := by
      rw [next]
      simp [Custody.takeOldest, split]
    have held : filtered.2.HotkeyHeld := by
      rw [tsr]
      exact (hotkeyHeld_congr (congrArg Memory.keyState works.memory) works.modifierMask).mpr hotkey.2
    rw [Console.filtered, if_pos hotkey, split] at counts
    refine .inl ⟨again, by rw [next]; exact ah, ⟨key, queued ▸ split, ?_, counts⟩, tsr⟩
    rw [leadingHotkeys, leadingHotkeys, if_pos hotkey.2, if_pos held, queued, split]
    simp [oldest, hotkey.1]
  · have stops : filtered.1 = false := retries.trans (by
      rw [decide_eq_false_iff_not]
      exact fun both => hotkey ⟨both.1, both.2.1⟩)
    have leading : console.leadingHotkeys = [] := by
      rw [leadingHotkeys_eq_nil, holds.oldest, Option.some.injEq]
      exact fun both => hotkey ⟨both.2, both.1⟩
    rw [Console.filtered, if_neg hotkey] at counts
    obtain ⟨phase, latched, tsr⟩ := inputFilter_stop hotkey
    exact .inr ⟨stops, by simp [split], leading, counts, phase, latched, tsr⟩

theorem inputWaitQueue_empty (inStep : console.InStep) (none : console.queued = []) (turns : Nat) :
    console.inputWaitQueue (turns + 1) = { console with phase := .halted } := by
  have empty : console.memory.readByte pc98KbCount = 0#8 := by
    rw [Memory.WellFormedRing.count_zero_iff, ← Memory.WellFormedRing.queue_length, inStep.queue, none]
    rfl
  simp [inputWaitQueue, pc98InputWaitQueue, empty]

/-- One turn of the loop takes the oldest word and puts it through the filter. -/
theorem inputWaitQueue_turn (inStep : console.InStep) (ah : console.inputOriginalAh = .ah00)
    {key : Key} {keys : List Key} (split : console.queued = key :: keys) (turns : Nat) :
    ∃ memory, Holds key.word { console with memory := memory } ∧
      memory.keyState = console.memory.keyState ∧
      console.inputWaitQueue (turns + 1) =
        let filtered := ({ console with memory := memory } : Console).inputFilter key.word
        if filtered.1 then filtered.2.inputWaitQueue turns else filtered.2 := by
  have words := inStep.queue
  rw [split, List.map_cons] at words
  have waiting : console.memory.count ≠ 0 := by
    rw [← Memory.WellFormedRing.queue_length, words]
    simp
  have some : console.memory.readByte pc98KbCount ≠ 0#8 :=
    (Memory.WellFormedRing.count_zero_iff console.memory).not.mpr waiting
  obtain ⟨ring, queue⟩ := inStep.ring.advance waiting
  have keyState := @Memory.keyState_dequeue console.memory
  rcases dequeued : pc98InputDequeue console.memory with ⟨word, memory⟩
  rw [dequeued] at ring queue keyState
  rw [words, List.cons.injEq] at queue
  obtain ⟨rfl, queue⟩ := queue
  refine ⟨memory, ⟨ring, ?_, by simp [split], inStep.returned, inStep.accounted⟩, keyState, ?_⟩
  · simp [ah, split, queue]
  · simp only [inputWaitQueue, pc98InputWaitQueue, if_pos some, dequeued]
    rcases inputFilter { console with memory := memory } key.word with ⟨_ | _, next⟩
    · rfl
    · rfl

/-- What a relation between the state before and behind the loop has to respect. -/
structure HookRule (relation : Console → Console → Prop) : Prop where
  halts : ∀ {console : Console}, console.queued = [] →
    relation console { console with phase := .halted }
  dequeues : ∀ {console after : Console} {memory : Memory}, memory.keyState = console.memory.keyState →
    relation { console with memory := memory } after → relation console after
  retries : ∀ {before next after : Console}, Retries before next → relation next after →
    relation before after
  delivers : ∀ {before after : Console}, Delivers before after → relation before after

variable {relation : Console → Console → Prop}

/-- The filter, followed by something that respects the relation. -/
theorem HookRule.filter (rule : HookRule relation) {word : Word} (holds : console.Holds word)
    (ah : console.inputOriginalAh = .ah00) {wait : Console → Console}
    (waits : ∀ next : Console, next.InStep → next.inputOriginalAh = .ah00 →
      next.queued = console.queued.tail → (wait next).InStep ∧ relation next (wait next)) :
    let filtered := console.inputFilter word
    let after := if filtered.1 then wait filtered.2 else filtered.2
    after.InStep ∧ relation console after := by
  obtain ⟨inStep, ⟨again, nextAh, retries⟩ | ⟨stops, delivers⟩⟩ := inputFilter_cases holds ah
  · obtain ⟨key, split, -, -⟩ := retries.key
    obtain ⟨inStepAfter, related⟩ := waits _ inStep nextAh (by rw [split, List.tail_cons])
    simp only [again, if_true]
    exact ⟨inStepAfter, rule.retries retries related⟩
  · simp only [stops, Bool.false_eq_true, if_false]
    exact ⟨inStep, rule.delivers delivers⟩

theorem HookRule.waitQueue (rule : HookRule relation) (turns : Nat) (inStep : console.InStep)
    (ah : console.inputOriginalAh = .ah00) (enough : console.queued.length < turns) :
    (console.inputWaitQueue turns).InStep ∧ relation console (console.inputWaitQueue turns) := by
  induction turns generalizing console with
  | zero => omega
  | succ turns inductionHypothesis =>
    cases split : console.queued with
    | nil =>
      rw [inputWaitQueue_empty inStep split]
      refine ⟨?_, rule.halts split⟩
      exact ⟨inStep.ring, inStep.queue, inStep.returned, inStep.accounted, fun _ => ah⟩
    | cons key keys =>
      obtain ⟨memory, holds, keyState, turn⟩ := inputWaitQueue_turn inStep ah split turns
      rw [turn]
      obtain ⟨inStepAfter, related⟩ := rule.filter holds ah fun next nextInStep nextAh queued =>
        inductionHypothesis nextInStep nextAh (by
          rw [queued, List.length_tail]
          simp only [split, List.length_cons] at enough ⊢
          omega)
      exact ⟨inStepAfter, rule.dequeues keyState related⟩

theorem HookRule.retryBlocking (rule : HookRule relation) (inStep : console.InStep)
    (ah : console.inputOriginalAh = .ah00) :
    console.inputRetryBlocking.InStep ∧ relation console console.inputRetryBlocking := by
  refine rule.waitQueue _ inStep ah ?_
  rw [← Memory.WellFormedRing.queue_length, inStep.queue, List.length_map]
  omega

theorem inputReturned_eq (word : Word) : console.inputReturned word =
    if (console.inputFilter word).1 then (console.inputFilter word).2.inputRetryBlocking
    else (console.inputFilter word).2 := by
  simp only [inputReturned]
  rcases console.inputFilter word with ⟨_ | _, next⟩
  · rfl
  · rfl

theorem HookRule.returned (rule : HookRule relation) {word : Word} (holds : console.Holds word)
    (ah : console.inputOriginalAh = .ah00) :
    (console.inputReturned word).InStep ∧ relation console (console.inputReturned word) := by
  rw [inputReturned_eq]
  exact rule.filter holds ah fun next inStep nextAh _ => rule.retryBlocking inStep nextAh

/-- The other two functions always come back to the application. -/
theorem inputReturned_application {word : Word} (ah : console.inputOriginalAh ≠ .ah00) :
    (console.inputReturned word).phase = .application ∧
      ((∃ latched,
          (console.inputReturned word).toTsr = { console.toTsr with hotkeyLatched := latched }) ∨
        (console.inputReturned word).toTsr =
          toggleImeHotkey { console.toTsr with hotkeyLatched := true }) := by
  have stops : (console.inputFilter word).1 = false := by
    rw [inputFilter_retries, decide_eq_false_iff_not]
    exact fun both => ah both.2.2
  rw [inputReturned_eq, stops]
  by_cases hotkey : word = 0x3420#16 ∧ console.HotkeyHeld
  · have service := pc98ServiceReturnedHotkey_eq console.toTsr
    rw [if_pos hotkey.2, decide_eq_true hotkey.2] at service
    cases function : console.inputOriginalAh with
    | ah00 => exact absurd function ah
    | ah01 | ah05 => simp [inputFilter, hotkey.1, inputReturnedSpace, service, function]
  · obtain ⟨phase, tsr⟩ := inputFilter_stop hotkey
    exact ⟨phase, .inl tsr⟩

/-- AH=00h takes all leading Space words for the hotkey. -/
theorem countsLeading : HookRule fun before after =>
    Counts before.leadingHotkeys before.leadingHotkeys before after where
  halts := by
    intro console none
    have leading : console.leadingHotkeys = [] := by simp [leadingHotkeys, none]
    rw [leading]
    exact ⟨by simp, by simp, rfl⟩
  dequeues := by
    intro console after memory keyState counts
    have held : Tsr.HotkeyHeld { console.toTsr with memory := memory } ↔ console.HotkeyHeld :=
      hotkeyHeld_congr keyState rfl
    simp only [leadingHotkeys, held] at counts
    exact ⟨counts.noticed, counts.taken, counts.toggles⟩
  retries := by
    rintro before next after ⟨⟨key, -, leading, counts⟩, -⟩ later
    rw [leading]
    exact counts.trans later
  delivers := by
    intro before after delivers
    rw [delivers.leading]
    exact delivers.counts

/-- AH=00h takes all leading Space words, the other two look at the oldest only. -/
def returnedHotkeys (console : Console) : List Key :=
  if console.inputOriginalAh = .ah00 then console.leadingHotkeys else console.leadingHotkeys.take 1

theorem inputReturned_spec {word : Word} (holds : console.Holds word) :
    (console.inputReturned word).InStep ∧
      Counts console.returnedHotkeys
        (if console.inputOriginalAh = .ah01 then [] else console.returnedHotkeys) console
        (console.inputReturned word) := by
  by_cases ah : console.inputOriginalAh = .ah00
  · have removed : console.inputOriginalAh ≠ .ah01 := by simp [ah]
    rw [returnedHotkeys, if_pos ah, if_neg removed]
    exact countsLeading.returned holds ah
  · have stops : (console.inputFilter word).1 = false := by
      rw [inputFilter_retries, decide_eq_false_iff_not]
      exact fun both => ah both.2.2
    rw [inputReturned_eq, returnedHotkeys, if_neg ah, stops, ← holds.filtered]
    exact inputFilter_spec holds

end Console

end ImeBridge
