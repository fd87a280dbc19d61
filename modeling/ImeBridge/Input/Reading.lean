import ImeBridge.Input.Hotkey
import ImeBridge.Resident.Enqueued

/-! # What the application reads

The keys typed at the PC-98 and the words of accepted input go into one queue.  The
application reads what has come into it, in that order and each word once, but for the
Space words that were taken for the hotkey.
-/

namespace ImeBridge

open Library Session

namespace Console

/-- The hook has done something that brings no word into the queue. -/
structure Passes (before after : Console) : Prop where
  arrived : after.arrived = before.arrived
  session : Steps before.toSession after.toSession
  words : enqueued after.history = enqueued before.history

variable {console : Console}

theorem Passes.refl (console : Console) : console.Passes console := ⟨rfl, .refl, rfl⟩

theorem Passes.trans {before middle after : Console} (first : Passes before middle)
    (second : Passes middle after) : Passes before after :=
  ⟨second.arrived.trans first.arrived, first.session.trans second.session, second.words.trans first.words⟩

theorem inputReturn_passes (console : Console) (word : Word) : console.Passes (console.inputReturn word) := by
  rw [inputReturn]
  cases console.inputOriginalAh with
  | ah01 => exact ⟨rfl, .refl, rfl⟩
  | ah00 | ah05 => exact ⟨rfl, .refl, rfl⟩

theorem inputReturnedSpace_passes (console : Console) : console.Passes console.inputReturnedSpace.2 := by
  have steps := pc98ServiceReturnedHotkey_session console.toTsr
  have words : enqueued (pc98ServiceReturnedHotkey console.toTsr).2.history = enqueued console.history := by
    rw [pc98ServiceReturnedHotkey_eq]
    dsimp only
    split
    · exact toggleImeHotkey_enqueued _
    · rfl
  simp only [inputReturnedSpace]
  split
  · cases console.inputOriginalAh with
    | ah00 | ah05 | ah01 => exact ⟨rfl, steps, words⟩
  · have served : console.Passes { console with toTsr := (pc98ServiceReturnedHotkey console.toTsr).2 } :=
      ⟨rfl, steps, words⟩
    exact served.trans (inputReturn_passes _ _)

theorem inputFilter_passes (console : Console) (word : Word) : console.Passes (console.inputFilter word).2 := by
  rw [inputFilter]
  split
  · exact inputReturnedSpace_passes console
  · exact inputReturn_passes console word

theorem inputWaitQueue_passes (turns : Nat) (console : Console) :
    console.Passes (console.inputWaitQueue turns) := by
  induction turns generalizing console with
  | zero => exact .refl console
  | succ turns inductionHypothesis =>
    rw [inputWaitQueue]
    rcases pc98InputWaitQueue console.memory with ⟨_ | word, memory⟩
    · exact ⟨rfl, .refl, rfl⟩
    · have filtered := inputFilter_passes { console with memory := memory } word
      have taken : console.Passes (inputFilter { console with memory := memory } word).2 :=
        ⟨filtered.arrived, filtered.session, filtered.words⟩
      dsimp only
      generalize inputFilter { console with memory := memory } word = outcome at taken ⊢
      obtain ⟨_ | _, next⟩ := outcome
      · exact taken
      · exact taken.trans (inductionHypothesis next)

theorem inputReturned_passes (console : Console) (word : Word) :
    console.Passes (console.inputReturned word) := by
  have filtered := inputFilter_passes console word
  rw [inputReturned_eq]
  split
  · exact filtered.trans (inputWaitQueue_passes _ _)
  · exact filtered

/-- The words of a worker run come into the queue. -/
theorem service_arrives (inStep : console.InStep) (tsr : Tsr) (memory : tsr.memory = console.memory) :
    ∃ keys, (console.service tsr).arrived = console.arrived ++ keys ∧
      enqueued (pc98ServiceForeground tsr).history = enqueued tsr.history ++ keys.map Key.word := by
  have ring : tsr.memory.WellFormedRing := memory ▸ inStep.ring
  obtain ⟨stageRing, left, -⟩ := hotkeyStage_keys ring
  obtain ⟨words, queue, history⟩ := (pc98ServiceForeground_enqueues stageRing).words
  rw [left] at queue
  rw [hotkeyStage_enqueued] at history
  have waiting : tsr.memory.queue.length = console.queued.length := by
    rw [memory, inStep.queue, List.length_map]
  have length : (console.serve tsr).queued.length = tsr.queueLeft.length := by
    simp only [serve, discards_iff ring, decide_eq_true_eq, Tsr.queueLeft]
    split
    · simp [Custody.takeNewest, waiting]
    · exact waiting.symm
  have arrived : (console.serve tsr).arrived = console.arrived := by
    simp only [serve]
    split
    · rfl
    · rfl
  have arrivals : (console.serve tsr).memory.queue.drop (console.serve tsr).queued.length = words := by
    rw [show (console.serve tsr).memory.queue = _ from queue, length, List.drop_left]
  refine ⟨words.map (console.serve tsr).key, ?_, ?_⟩
  · rw [service, enter, arrivals]
    simp only [Custody.arrive, arrived]
  · rw [history, List.map_map]
    exact congrArg _ (List.map_id words).symm

end Console

/-- The word a key gives. -/
def InputAction.typed : InputAction → List Word
  | .keyboard _ _ word => word.toList
  | .host _ _ | .serialIrq | .call _ | .oldHandlerReturns | .wake => []

/-- The keyboard's words and those of accepted input have come into the queue. -/
structure Console.Merges (typed : List Word) (console : Console) : Prop where
  kept : console.Kept
  handing : console.toSession.Handing
  merged : ∃ keyboard, keyboard.Sublist typed ∧
    Interleaved keyboard (enqueued console.history) (console.arrived.map Key.word)

namespace Console.Merges

variable {typed : List Word} {console after : Console}

/-- Where no word comes into the queue. -/
theorem passes (merges : console.Merges typed) (kept : after.Kept) (passed : console.Passes after) :
    after.Merges typed := by
  refine ⟨kept, passed.session.moves.preserves Session.Handing.move merges.handing, ?_⟩
  rw [passed.arrived, passed.words]
  exact merges.merged

/-- A worker run, which brings in its own words. -/
theorem served (merges : console.Merges typed) {tsr : Tsr} (memory : tsr.memory = console.memory)
    (session : tsr.toSession = console.toSession) (kept : after.Kept)
    (arrived : after.arrived = (console.service tsr).arrived)
    (serves : after.toSession = (pc98ServiceForeground tsr).toSession) : after.Merges typed := by
  obtain ⟨keys, entered, words⟩ := Console.service_arrives merges.kept.toInStep tsr memory
  have handing : (pc98ServiceForeground tsr).toSession.Handing :=
    @Action.preserves Session.Handing Session.Handing.move .foreground tsr
      (fun before _ _ => Session.Handing.aside (.timedOut before.toSession)) (session ▸ merges.handing)
  obtain ⟨keyboard, some, merged⟩ := merges.merged
  refine ⟨kept, serves ▸ handing, keyboard, some, ?_⟩
  rw [arrived, entered, serves, words, session, List.map_append]
  exact merged.rights _

/-- A key of the keyboard, for which the queue may have no room. -/
theorem keyed (merges : console.Merges typed) {memory : Memory} {bios : Bios} (word : Word)
    (ring : memory.WellFormedRing) (queue : memory.queue = console.memory.queue)
    (kept : Console.Kept (Console.enter { console with memory := bios.store word memory })) :
    Console.Merges (typed ++ [word]) (Console.enter { console with memory := bios.store word memory }) := by
  obtain ⟨keyboard, some, merged⟩ := merges.merged
  have length : console.queued.length = console.memory.queue.length := by
    rw [merges.kept.queue, List.length_map]
  obtain ⟨-, stored, -⟩ := bios.stores word ring
  by_cases room : console.memory.queue.length < 16
  · refine ⟨kept, merges.handing, keyboard ++ [word], some.append_right [word], ?_⟩
    have arrivals : (bios.store word memory).queue.drop console.queued.length = [word] := by
      rw [stored, BoundedFifo.push, queue, if_pos room, length, List.drop_left]
    simp only [Console.enter, Custody.arrive, arrivals, List.map_append]
    exact merged.lefts [word]
  · refine ⟨kept, merges.handing, keyboard, some.trans (List.sublist_append_left typed [word]), ?_⟩
    have arrivals : (bios.store word memory).queue.drop console.queued.length = [] := by
      rw [stored, BoundedFifo.push, queue, if_neg room, length, List.drop_length]
    simp only [Console.enter, Custody.arrive, arrivals, List.map_nil, List.append_nil]
    exact merged

theorem apply {bios : Bios} (merges : console.Merges typed) (action : InputAction) :
    (action.apply bios console).Merges (typed ++ action.typed) := by
  have kept : (action.apply bios console).Kept := merges.kept.apply action
  cases action with
  | keyboard spaceRow modifiers word =>
    obtain ⟨spaceRing, spaceQueue⟩ :=
      merges.kept.ring.writeAbove (show 0x052a#16 ≤ 0x0530#16 by decide) spaceRow
    obtain ⟨ring, queue⟩ := spaceRing.writeAbove (show 0x052a#16 ≤ 0x053a#16 by decide) modifiers
    cases word with
    | none =>
      rw [InputAction.typed, Option.toList_none, List.append_nil]
      exact merges.passes kept ⟨rfl, .refl, rfl⟩
    | some word => exact merges.keyed word ring (queue.trans spaceQueue) kept
  | host received transmitLimits =>
    rw [InputAction.typed, List.append_nil]
    exact merges.passes kept ⟨rfl, .refl, rfl⟩
  | serialIrq =>
    rw [InputAction.typed, List.append_nil]
    simp only [InputAction.apply] at kept ⊢
    cases serves : Action.service .serialIrq console.toTsr with
    | none => exact merges
    | some tsr =>
      obtain ⟨memory, -, -, session⟩ := serialIrq_service serves
      rw [serves] at kept
      exact merges.served memory session kept rfl (congrArg Tsr.toSession (console.service_tsr tsr))
  | call ah =>
    rw [InputAction.typed, List.append_nil]
    simp only [InputAction.apply] at kept ⊢
    split
    · rename_i waits
      rw [if_pos waits] at kept
      exact merges.served rfl rfl kept rfl (congrArg Tsr.toSession (console.service_tsr console.toTsr))
    · exact merges
  | oldHandlerReturns =>
    rw [InputAction.typed, List.append_nil]
    refine merges.passes kept ?_
    simp only [InputAction.apply]
    split_ifs with waits empty blocked looks
    · exact .refl console
    · exact ⟨rfl, .refl, rfl⟩
    · exact Console.inputReturned_passes console _
    · have returned := Console.inputReturned_passes { console with memory := (bios.take console.memory).2 }
        (bios.take console.memory).1
      exact ⟨returned.arrived, returned.session, returned.words⟩
    · exact .refl console
  | wake =>
    rw [InputAction.typed, List.append_nil]
    refine merges.passes kept ?_
    simp only [InputAction.apply]
    split
    · exact Console.inputWaitQueue_passes _ console
    · exact .refl console

theorem installed (modifierMask : Byte) (booted : Booted) :
    (Console.installed modifierMask booted).Merges (booted.queued.map Key.word) := by
  refine ⟨installed_kept modifierMask booted, .initial, booted.queued.map Key.word, .refl _, ?_⟩
  exact (List.nil_append (booted.queued.map Key.word)) ▸ Interleaved.nil.lefts (booted.queued.map Key.word)

end Console.Merges

/-- Whatever is typed, whatever comes from the host and whenever the application reads: the
words that have come into the BIOS queue are keys typed and words of accepted input,
those of the keyboard, of the TEXTs and of the KEYs each in their order.  The
application has got these words and the queue has the rest, in this order and each once,
but for some Space words. -/
theorem words_reach_application (bios : Bios) (modifierMask : Byte) (booted : Booted)
    (actions : List InputAction) :
    let console := Run.run (InputAction.apply bios) actions (Console.installed modifierMask booted)
    let inputs := accounts console.history
    Ledger.InOrder inputs.texts ∧ Ledger.InOrder inputs.keys ∧
      ∃ keyboard resident entered : List Word,
        keyboard.Sublist (booted.queued.map Key.word ++ actions.flatMap InputAction.typed) ∧
          Interleaved (Ledger.handed inputs.texts) (Ledger.handed inputs.keys) resident ∧
          Interleaved keyboard resident entered ∧
          (console.returned ++ console.memory.queue).Sublist entered ∧
          (console.returned ++ console.memory.queue).filter (· ≠ 0x3420#16) =
            entered.filter (· ≠ 0x3420#16) := by
  intro console inputs
  have merges : console.Merges (booted.queued.map Key.word ++ actions.flatMap InputAction.typed) :=
    Run.run_log (InputAction.apply bios) InputAction.typed (fun _ _ action merges => merges.apply action)
      actions (Console.Merges.installed modifierMask booted)
  obtain ⟨keyboard, some, merged⟩ := merges.merged
  have kept := merges.kept
  have words : console.returned ++ console.memory.queue =
      (console.delivered ++ console.queued).map Key.word := by
    rw [kept.returned, kept.queue, List.map_append]
  have others : ∀ key ∈ console.taken, decide (key.word ≠ 0x3420#16) = false := by
    intro key taken
    simp [kept.noticed_space key (kept.accounted.taken_noticed key taken)]
  refine ⟨merges.handing.texts, merges.handing.keys, keyboard, enqueued console.history,
    console.arrived.map Key.word, some, merges.handing.merged, merged, ?_, ?_⟩
  · rw [words]
    exact kept.accounted.ordered.map Key.word
  · rw [words, List.filter_map, List.filter_map]
    exact congrArg _ (kept.accounted.keeps others)

end ImeBridge
