import Mathlib.Data.List.TakeWhile
import ImeBridge.Input.Steps

/-! # The hotkey and ordinary Space

The queue has one word for both, so the resident program goes by the keys that are
held when it looks.
-/

namespace ImeBridge

open Library

/-- The interrupt's part of its worker run touches neither the keys nor the session. -/
theorem serialIrq_service {tsr rest : Tsr} (serves : Action.service .serialIrq tsr = some rest) :
    rest.memory = tsr.memory ∧ rest.hotkeyModifierMask = tsr.hotkeyModifierMask ∧
      rest.transmitLimits = tsr.transmitLimits ∧ rest.toSession = tsr.toSession := by
  refine ⟨?_, ?_, ?_, (Action.service_some serves).1⟩
  all_goals
    simp only [Action.service] at serves
    split at serves
    · split at serves
      · simp at serves
      · rw [← Option.some.inj serves]
        simp only [irqStore]
        split <;> rfl
    · simp at serves

/-- The old handler has a word for the hook. -/
theorem Console.InStep.holds {bios : Bios} {console : Console} (inStep : console.InStep)
    (waiting : console.memory.count ≠ 0) :
    let word := (bios.take console.memory).1
    let memory := (bios.take console.memory).2
    (console.inputOriginalAh = .ah01 → console.Holds word) ∧
      (console.inputOriginalAh ≠ .ah01 → Console.Holds word { console with memory := memory }) ∧
      memory.keyState = console.memory.keyState := by
  have nonempty : console.memory.queue ≠ [] := by
    rwa [ne_eq, ← List.length_eq_zero_iff, Memory.WellFormedRing.queue_length]
  obtain ⟨ring, queue, keyState⟩ := bios.takes inStep.ring nonempty
  have oldest : (console.queued.map Key.word).head? = some (bios.take console.memory).1 := by
    rw [← inStep.queue, queue]
    rfl
  refine ⟨fun looks => ?_, fun removes => ?_, keyState⟩
  · exact ⟨inStep.ring, by rw [if_pos looks, inStep.queue], oldest, inStep.returned, inStep.accounted⟩
  · exact ⟨ring, by rw [if_neg removes, ← queue, inStep.queue], oldest, inStep.returned,
      inStep.accounted⟩

namespace InputAction

/-- The waiting keys an action counts as the hotkey. -/
def hotkeys (action : InputAction) (console : Console) : List Key :=
  match action with
  | .keyboard _ _ _ | .host _ _ => []
  | .serialIrq =>
    if (Action.service .serialIrq console.toTsr).isSome then console.newestHotkey else []
  | .call _ => if console.phase = .application then console.newestHotkey else []
  | .oldHandlerReturns => if console.phase = .oldHandler then console.returnedHotkeys else []
  | .wake => if console.phase = .halted then console.leadingHotkeys else []

/-- The old handler returns from an AH=01h. -/
def looksOnly (action : InputAction) (console : Console) : Bool :=
  match action with
  | .oldHandlerReturns => console.phase = .oldHandler && console.inputOriginalAh = .ah01
  | _ => false

variable (bios : Bios) {console : Console}

theorem apply_spec (action : InputAction) (inStep : console.InStep) :
    (action.apply bios console).InStep ∧
      Console.Counts (action.hotkeys console)
        (if action.looksOnly console then [] else action.hotkeys console) console
        (action.apply bios console) := by
  have idle : ∀ after : Console, after.noticed = console.noticed → after.taken = console.taken →
      after.history = console.history → Console.Counts [] [] console after := by
    intro after noticed taken history
    exact ⟨by simp [noticed], by simp [taken], by simp [Tsr.toggles, history]⟩
  cases action with
  | keyboard spaceRow modifiers word =>
    obtain ⟨spaceRing, spaceQueue⟩ :=
      inStep.ring.writeAbove (show 0x052a#16 ≤ 0x0530#16 by decide) spaceRow
    obtain ⟨ring, queue⟩ := spaceRing.writeAbove (show 0x052a#16 ≤ 0x053a#16 by decide) modifiers
    rw [spaceQueue, inStep.queue] at queue
    simp only [apply, hotkeys, ite_self]
    cases word with
    | none =>
      exact ⟨⟨ring, queue, inStep.returned, inStep.accounted, inStep.halted⟩, idle _ rfl rfl rfl⟩
    | some word =>
      obtain ⟨storedRing, stored, -⟩ := bios.stores word ring
      refine ⟨Console.enter_inStep storedRing ?_ inStep.returned inStep.accounted inStep.halted,
        Console.Counts.enter (idle _ rfl rfl rfl)⟩
      simp only [stored, queue, BoundedFifo.push]
      split
      · exact List.prefix_append _ _
      · exact List.prefix_rfl
  | host received transmitLimits =>
    simp only [apply, hotkeys, ite_self]
    exact ⟨⟨inStep.ring, inStep.queue, inStep.returned, inStep.accounted, inStep.halted⟩,
      idle _ rfl rfl rfl⟩
  | serialIrq =>
    simp only [apply, hotkeys, looksOnly, Bool.false_eq_true, if_false]
    cases serves : Action.service .serialIrq console.toTsr with
    | none => exact ⟨inStep, idle _ rfl rfl rfl⟩
    | some tsr =>
      obtain ⟨memory, modifierMask, -, session⟩ := serialIrq_service serves
      exact Console.service_spec inStep tsr memory modifierMask (congrArg Session.history session)
  | call ah =>
    simp only [apply, hotkeys, looksOnly, Bool.false_eq_true, if_false]
    split
    · obtain ⟨served, counts⟩ := Console.service_spec inStep console.toTsr rfl rfl rfl
      generalize console.service console.toTsr = after at served counts ⊢
      exact ⟨⟨served.ring, served.queue, served.returned, served.accounted, by simp⟩,
        counts.noticed, counts.taken, counts.toggles⟩
    · exact ⟨inStep, idle _ rfl rfl rfl⟩
  | oldHandlerReturns =>
    simp only [apply, hotkeys]
    split
    · rename_i waits
      split
      · -- Nothing has come yet: AH=00h goes on waiting.
        rename_i empty
        have none : console.queued = [] := by
          rw [← Memory.WellFormedRing.queue_length, inStep.queue, List.length_map] at empty
          exact List.length_eq_zero_iff.mp empty
        have nothing : console.returnedHotkeys = [] := by
          simp [Console.returnedHotkeys, Console.leadingHotkeys, none]
        rw [nothing, ite_self]
        split
        · exact ⟨inStep, idle _ rfl rfl rfl⟩
        · exact ⟨⟨inStep.ring, inStep.queue, inStep.returned, inStep.accounted, by simp⟩,
            idle _ rfl rfl rfl⟩
      · rename_i waiting
        obtain ⟨looked, removed, keyState⟩ := inStep.holds waiting
        have only : looksOnly .oldHandlerReturns console = decide (console.inputOriginalAh = .ah01) := by
          simp [looksOnly, waits]
        simp only [only, decide_eq_true_eq]
        split
        · rename_i looks
          have spec := Console.inputReturned_spec (looked looks)
          rwa [if_pos looks] at spec
        · rename_i removes
          have held : Tsr.HotkeyHeld { console.toTsr with memory := (bios.take console.memory).2 } ↔
              console.HotkeyHeld := Console.hotkeyHeld_congr keyState rfl
          have same : Console.returnedHotkeys { console with memory := (bios.take console.memory).2 } =
              console.returnedHotkeys := by
            simp only [Console.returnedHotkeys, Console.leadingHotkeys, held]
          obtain ⟨after, counts⟩ := Console.inputReturned_spec (removed removes)
          rw [if_neg removes, same] at counts
          exact ⟨after, counts.noticed, counts.taken, counts.toggles⟩
    · rw [ite_self]
      exact ⟨inStep, idle _ rfl rfl rfl⟩
  | wake =>
    simp only [apply, hotkeys, looksOnly, Bool.false_eq_true, if_false]
    split
    · rename_i halted
      exact Console.countsLeading.retryBlocking inStep (inStep.halted halted)
    · exact ⟨inStep, idle _ rfl rfl rfl⟩

/-- Only Space words are counted. -/
theorem hotkeys_space (action : InputAction) (inStep : console.InStep) :
    ∀ key ∈ action.hotkeys console, key.word = 0x3420#16 := by
  have leading : ∀ key ∈ console.leadingHotkeys, key.word = 0x3420#16 := by
    intro key member
    simp only [Console.leadingHotkeys] at member
    split at member
    · simpa using List.mem_takeWhile_imp member
    · simp at member
  have newest : ∀ key ∈ console.newestHotkey, key.word = 0x3420#16 := by
    intro key member
    simp only [Console.newestHotkey] at member
    split at member
    · rename_i found
      have last := found.2
      rw [inStep.queue, List.getLast?_map, Option.mem_toList.mp member] at last
      exact Option.some.inj last
    · simp at member
  intro key member
  cases action with
  | keyboard | host => simp [hotkeys] at member
  | serialIrq | call =>
    simp only [hotkeys] at member
    split at member
    · exact newest key member
    · simp at member
  | oldHandlerReturns =>
    simp only [hotkeys, Console.returnedHotkeys] at member
    split at member
    · split at member
      · exact leading key member
      · exact leading key (List.mem_of_mem_take member)
    · simp at member
  | wake =>
    simp only [hotkeys] at member
    split at member
    · exact leading key member
    · simp at member

end InputAction

/-! ## Whole runs -/

/-- The account is in step with the queue from the installation on. -/
theorem installed_inStep (modifierMask : Byte) (booted : Booted) :
    (Console.installed modifierMask booted).InStep :=
  ⟨booted.ring, booted.holds, rfl, Custody.Accounted.initial booted.queued, by simp [Console.installed]⟩

/-- Every run keeps the account in step, and counts only Space words. -/
structure Console.Kept (console : Console) : Prop extends Console.InStep console where
  noticed_space : ∀ key ∈ console.noticed, key.word = 0x3420#16
  taken_counted : console.taken.length ≤ console.toggles

theorem Console.Kept.apply {bios : Bios} {console : Console} (kept : console.Kept)
    (action : InputAction) : (action.apply bios console).Kept := by
  obtain ⟨inStep, counts⟩ := action.apply_spec bios kept.toInStep
  refine ⟨inStep, ?_, ?_⟩
  · rw [counts.noticed]
    intro key member
    rcases List.mem_append.mp member with before | new
    · exact kept.noticed_space key before
    · exact action.hotkeys_space kept.toInStep key new
  · have before := kept.taken_counted
    rw [counts.taken, counts.toggles, List.length_append]
    split
    · rw [List.length_nil]
      omega
    · omega

theorem installed_kept (modifierMask : Byte) (booted : Booted) :
    (Console.installed modifierMask booted).Kept :=
  ⟨installed_inStep modifierMask booted, by simp [Console.installed], by simp [Console.installed]⟩

theorem run_kept (bios : Bios) (modifierMask : Byte) (booted : Booted) (actions : List InputAction) :
    (Run.run (InputAction.apply bios) actions (Console.installed modifierMask booted)).Kept :=
  @Run.invariant Console InputAction (InputAction.apply bios) Console.Kept
    (fun _ action kept => kept.apply action) actions _ (installed_kept modifierMask booted)

/-- The old AH=01h returns the hotkey word while the hotkey is held. -/
def SeesHotkey (console : Console) (action : InputAction) : Prop :=
  action.looksOnly console = true ∧ console.HotkeyHeld ∧
    console.memory.queue.head? = some 0x3420#16

theorem seesHotkey_iff {console : Console} (inStep : console.InStep) (action : InputAction) :
    SeesHotkey console action ↔ action.looksOnly console = true ∧ action.hotkeys console ≠ [] := by
  cases action with
  | oldHandlerReturns =>
    refine and_congr_right fun looks => ?_
    obtain ⟨waits, ah⟩ : console.phase = .oldHandler ∧ console.inputOriginalAh = .ah01 := by
      simpa [InputAction.looksOnly] using looks
    have counts : InputAction.oldHandlerReturns.hotkeys console = console.leadingHotkeys.take 1 := by
      simp [InputAction.hotkeys, waits, Console.returnedHotkeys, ah]
    rw [inStep.queue, counts, ne_eq, List.take_eq_nil_iff, Console.leadingHotkeys_eq_nil]
    simp
  | keyboard | host | serialIrq | call | wake => simp [SeesHotkey, InputAction.looksOnly]

/-- How many toggles no word was taken for. -/
def Console.unpaid (console : Console) : Nat := console.toggles - console.taken.length

theorem unpaid_apply {bios : Bios} {console : Console} (kept : console.Kept) (action : InputAction) :
    (action.apply bios console).unpaid =
      console.unpaid + if action.looksOnly console then (action.hotkeys console).length else 0 := by
  have counted := kept.taken_counted
  obtain ⟨-, counts⟩ := action.apply_spec bios kept.toInStep
  rw [Console.unpaid, Console.unpaid, counts.toggles, counts.taken, List.length_append]
  split
  · rw [List.length_nil]
    omega
  · omega

/-- The hotkey toggles once for every Space word that is taken away from the application, and
no oftener, exactly if the old AH=01h never returns a Space word while the hotkey is
held: that word is counted, but not taken. -/
theorem toggles_paid_for (bios : Bios) (modifierMask : Byte) (booted : Booted)
    (actions : List InputAction) :
    let console := Run.run (InputAction.apply bios) actions (Console.installed modifierMask booted)
    (∀ key ∈ console.taken, key.word = 0x3420#16) ∧
      (console.toggles = console.taken.length ↔
        Run.AllSteps (InputAction.apply bios) (fun console action => ¬ SeesHotkey console action) actions
          (Console.installed modifierMask booted)) := by
  intro console
  have kept : console.Kept := run_kept bios modifierMask booted actions
  have same : ∀ (before : Console) (action : InputAction), before.Kept →
      ((action.apply bios before).unpaid = before.unpaid ↔ ¬ SeesHotkey before action) := by
    intro before action kept
    rw [unpaid_apply kept, seesHotkey_iff kept.toInStep]
    cases looks : action.looksOnly before <;> simp
  obtain ⟨-, paid⟩ := Run.allSteps_iff_count (InputAction.apply bios)
    (fun _ action kept => kept.apply action) (fun _ action kept => by rw [unpaid_apply kept]; omega)
    same actions (installed_kept modifierMask booted)
  refine ⟨fun key taken => kept.noticed_space key (kept.accounted.taken_noticed key taken), ?_⟩
  rw [← paid]
  have counted := kept.taken_counted
  have none : (Console.installed modifierMask booted).unpaid = 0 := rfl
  rw [none, show Run.run (InputAction.apply bios) actions _ = console from rfl, Console.unpaid]
  omega

/-- A handler that was there before and works on the ring as the resident program does. -/
def ringBios : Bios where
  store key memory := (pc98BiosEnqueueWord key memory).2
  take := pc98InputDequeue
  stores := by
    intro memory key ring
    refine ⟨?_, ?_, ring.keyState_enqueue key⟩
    · exact (KeyboardOp.apply_spec (.enqueue key) ring).2.1
    · exact (KeyboardOp.apply_spec (.enqueue key) ring).2.2.1
  takes := by
    intro memory ring nonempty
    obtain ⟨ring', queue⟩ := ring.advance (by
      rwa [← Memory.WellFormedRing.queue_length, ne_eq, List.length_eq_zero_iff])
    exact ⟨ring', queue, Memory.keyState_dequeue⟩

/-- A machine with an empty queue. -/
def justBooted : Booted where
  toHardware := machine 0#8 []
  queued := []
  ring := ⟨by decide +kernel, by decide +kernel, by decide +kernel, by decide +kernel⟩
  holds := by decide +kernel

/-- With Shift and Space held, A is pressed as well before the application asks for a key. -/
def peeked : List InputAction :=
  [.keyboard 0x10#8 0x01#8 (some 0x3420#16), .keyboard 0x10#8 0x01#8 (some 0x1d41#16), .call .ah01,
    .oldHandlerReturns]

/-- AH=01h toggles for a word that stays in the queue. -/
theorem peek_toggles_unpaid :
    let console := Run.run (InputAction.apply ringBios) peeked (Console.installed 0x01#8 justBooted)
    console.toggles = 1 ∧ console.taken = [] ∧ console.memory.queue = [0x3420#16, 0x1d41#16] ∧
      console.toggles ≠ console.taken.length := by
  decide +kernel

/-- Any key but a Space pressed with the configured modifier. -/
def Key.ordinary (key : Key) : Bool := !(key.word = 0x3420#16 && key.modified)

/-- The application gets every ordinary Space, once and in its place among the other keys,
and none of them is counted as the hotkey, exactly if whenever the resident program
looks with the hotkey held, the Space words it finds were pressed with the modifier:
the newest word for a worker run, the oldest behind AH=01h and AH=05h, all the leading
Space words behind AH=00h. -/
theorem ordinary_space_stays (bios : Bios) (modifierMask : Byte) (booted : Booted)
    (actions : List InputAction) :
    let console := Run.run (InputAction.apply bios) actions (Console.installed modifierMask booted)
    console.memory.queue = console.queued.map Key.word ∧
      console.returned = console.delivered.map Key.word ∧
      ((∀ key ∈ console.taken ++ console.noticed, key.ordinary = false) ∧
          (console.delivered ++ console.queued).filter Key.ordinary =
            console.arrived.filter Key.ordinary ↔
        Run.AllSteps (InputAction.apply bios)
          (fun console action => ∀ key ∈ action.hotkeys console, key.modified = true) actions
          (Console.installed modifierMask booted)) := by
  intro console
  have kept : console.Kept := run_kept bios modifierMask booted actions
  have counted : ∀ (before : Console) (action : InputAction), before.Kept →
      (action.apply bios before).noticed.countP (fun key => !key.modified) =
        before.noticed.countP (fun key => !key.modified) +
          (action.hotkeys before).countP (fun key => !key.modified) := by
    intro before action kept
    rw [(action.apply_spec bios kept.toInStep).2.noticed, List.countP_append]
  have same : ∀ (before : Console) (action : InputAction), before.Kept →
      ((action.apply bios before).noticed.countP (fun key => !key.modified) =
        before.noticed.countP (fun key => !key.modified) ↔
          ∀ key ∈ action.hotkeys before, key.modified = true) := by
    intro before action kept
    rw [counted before action kept, Nat.add_eq_left, List.countP_eq_zero]
    simp
  obtain ⟨-, untouched⟩ := @Run.allSteps_iff_count Console InputAction (InputAction.apply bios)
    Console.Kept _ (fun console => console.noticed.countP (fun key => !key.modified))
    (fun _ action kept => kept.apply action)
    (fun before action kept => by simp only [counted before action kept]; omega) same actions _
    (installed_kept modifierMask booted)
  have none : (Console.installed modifierMask booted).noticed.countP (fun key => !key.modified) = 0 :=
    rfl
  refine ⟨kept.queue, kept.returned, ?_⟩
  rw [← untouched, none, List.countP_eq_zero]
  constructor
  · rintro ⟨hotkeys, -⟩ key noticed
    have hotkey := hotkeys key (List.mem_append_right _ noticed)
    simp only [Key.ordinary, kept.noticed_space key noticed] at hotkey
    simpa using hotkey
  · intro modified
    have hotkey : ∀ key ∈ console.noticed, key.ordinary = false := by
      intro key noticed
      have held := modified key noticed
      simp only [Key.ordinary, kept.noticed_space key noticed]
      simpa using held
    have taken : ∀ key ∈ console.taken, key.ordinary = false :=
      fun key taken => hotkey key (kept.accounted.taken_noticed key taken)
    refine ⟨fun key member => ?_, kept.accounted.keeps taken⟩
    rcases List.mem_append.mp member with isTaken | isNoticed
    · exact taken key isTaken
    · exact hotkey key isNoticed

/-- Space and then Shift+Space are pressed before the application reads a key. -/
def typedAhead : List InputAction :=
  [.keyboard 0x10#8 0x00#8 (some 0x3420#16), .keyboard 0x00#8 0x00#8 none,
    .keyboard 0x00#8 0x01#8 none, .keyboard 0x10#8 0x01#8 (some 0x3420#16), .call .ah00,
    .oldHandlerReturns]

/-- Both Spaces are taken, and the IME is off again. -/
theorem ordinary_space_lost :
    let console := Run.run (InputAction.apply ringBios) typedAhead (Console.installed 0x01#8 justBooted)
    console.taken = [⟨0x3420#16, true⟩, ⟨0x3420#16, false⟩] ∧ console.returned = [] ∧
      console.memory.queue = [] ∧ console.imeEnabled = false ∧ console.phase = .halted ∧
      ¬ ∀ key ∈ console.taken, key.ordinary = false := by
  decide +kernel

end ImeBridge
