import ImeBridge.Keyboard.Ring
import ImeBridge.Library.Interleaving
import ImeBridge.Resident.Accounts
import ImeBridge.Resident.Port

/-! # What the resident program puts into the BIOS queue

A worker run appends to the queue the words it notes down, and these are the words that
the accepted TEXTs and KEYs owe, next word by next word.
-/

namespace ImeBridge

open Library Session

/-- The word that went into the BIOS queue. -/
def Event.word : Event → Option Word
  | .queuedText key | .queuedKey key => some key
  | _ => none

/-- The words the resident program has put into the BIOS queue, oldest first. -/
def enqueued (history : List Event) : List Word := history.filterMap Event.word

theorem enqueued_append (history events : List Event) :
    enqueued (history ++ events) = enqueued history ++ enqueued events := List.filterMap_append

theorem Event.word_of_aside {event : Event} (isAside : event.aside = true) : event.word = none := by
  cases event with
  | queuedText | queuedKey => simp [aside] at isAside
  | _ => rfl

theorem Session.Aside.enqueued {session next : Session} (moved : session.Aside next) :
    enqueued next.history = enqueued session.history := by
  obtain ⟨⟨events, history, areAside⟩, -⟩ := moved
  have wordless : ImeBridge.enqueued events = [] :=
    List.filterMap_eq_nil_iff.mpr fun event member => Event.word_of_aside (areAside event member)
  rw [history, enqueued_append, wordless, List.append_nil]

theorem Session.Handled.enqueued {packet : Packet} {session next : Session}
    (does : Handled packet session next) : enqueued next.history = enqueued session.history := by
  cases does with
  | greeted | ignored => rfl
  | greetedAsking written succeeded => exact (Aside.asked _ written succeeded).enqueued
  | text | key => exact (enqueued_append _ _).trans (List.append_nil _)
  | close written succeeded => exact (Aside.note_closed session written succeeded rfl).enqueued

/-! ## The stages of the worker -/

section Stages

variable (tsr : Tsr)

theorem toggleImeHotkey_enqueued : enqueued (toggleImeHotkey tsr).history = enqueued tsr.history := by
  obtain ⟨-, written, succeeded, closes⟩ | ⟨-, opens⟩ := toggleImeHotkey_cases tsr
  · rw [closes]
    exact (Aside.note_closed tsr.toSession written succeeded rfl).enqueued
  · rw [opens]
    exact (enqueued_append _ _).trans (List.append_nil _)

theorem hotkeyStage_enqueued : enqueued (hotkeyStage tsr).history = enqueued tsr.history := by
  obtain same | ⟨rest, same, toggles⟩ := hotkeyStage_cases tsr
  · rw [same]
  · rw [toggles, toggleImeHotkey_enqueued, same]

theorem receiveStage_enqueued : enqueued (receiveStage tsr).history = enqueued tsr.history := by
  simp only [receiveStage]
  split
  · refine @pollLoop_rule tsr (fun before after => enqueued after.history = enqueued before.history)
      (fun _ => rfl) (fun first second => second.trans first) ?_ ?_ 32
    · intro rest
      rw [pollByte_session]
    · intro rest value
      obtain same | ⟨packet, -, handled⟩ := acceptByte_cases rest value
      · rw [same]
      · exact handled.enqueued
  · rfl

theorem openStage_enqueued : enqueued (openStage tsr).history = enqueued tsr.history := by
  obtain ⟨-, -, ⟨-, written, succeeded, asks⟩ | ⟨-, written, succeeded, greets⟩⟩ | ⟨-, same⟩ :=
    openStage_cases tsr
  · rw [asks]
    exact (Aside.asked tsr.toSession written succeeded).enqueued
  · rw [greets]
    exact (Aside.greeting tsr.toSession written succeeded).enqueued
  · rw [same]

theorem tickStage_enqueued : enqueued (tickStage tsr).history = enqueued tsr.history := by
  rw [tickStage_session]
  split_ifs
  · exact (Aside.timedOut tsr.toSession).enqueued
  · rfl
  · rfl

end Stages

/-- The queue has got the words that the history has. -/
structure Tsr.Enqueues (before after : Tsr) : Prop where
  ring : after.memory.WellFormedRing
  words : ∃ words, after.memory.queue = before.memory.queue ++ words ∧
    enqueued after.history = enqueued before.history ++ words

namespace Tsr.Enqueues

variable {before middle after : Tsr}

/-- Something that leaves queue and words alone. -/
theorem same (ring : before.memory.WellFormedRing) (memory : after.memory = before.memory)
    (history : enqueued after.history = enqueued before.history) : before.Enqueues after :=
  ⟨memory ▸ ring, [], by rw [memory, List.append_nil], by rw [history, List.append_nil]⟩

theorem trans (first : before.Enqueues middle) (second : middle.Enqueues after) : before.Enqueues after := by
  obtain ⟨words, queue, history⟩ := first.words
  obtain ⟨later, laterQueue, laterHistory⟩ := second.words
  exact ⟨second.ring, words ++ later, by rw [laterQueue, queue, List.append_assoc],
    by rw [laterHistory, history, List.append_assoc]⟩

/-- A word for which there was room. -/
theorem queued {tsr : Tsr} {event : Event} {key : Word} {memory : Memory} (ring : tsr.memory.WellFormedRing)
    (word : event.word = some key) (succeeds : pc98BiosEnqueueWord key tsr.memory = (true, memory)) :
    tsr.Enqueues ({ tsr with memory := memory }.note event) := by
  by_cases room : tsr.memory.count < 16
  · obtain ⟨-, ring', queue⟩ := ring.enqueue_room room key
    rw [succeeds] at ring' queue
    refine ⟨ring', [key], queue, (enqueued_append _ _).trans ?_⟩
    simp [enqueued, word]
  · rw [Memory.WellFormedRing.enqueue_full room key] at succeeds
    exact absurd (congrArg Prod.fst succeeds) Bool.noConfusion

theorem refused {tsr : Tsr} {key : Word} {memory : Memory} (ring : tsr.memory.WellFormedRing)
    (refuses : pc98BiosEnqueueWord key tsr.memory = (false, memory)) :
    tsr.Enqueues { tsr with memory := memory } := by
  by_cases room : tsr.memory.count < 16
  · obtain ⟨succeeds, -⟩ := ring.enqueue_room room key
    rw [refuses] at succeeds
    exact absurd succeeds Bool.noConfusion
  · rw [Memory.WellFormedRing.enqueue_full room key] at refuses
    exact .same ring (congrArg Prod.snd refuses).symm rfl

/-- An answer. -/
theorem sent (type : Byte) (sequence : Word) {tsr : Tsr} (ring : tsr.memory.WellFormedRing) :
    tsr.Enqueues (sendPacket type sequence [] tsr).2 := by
  obtain ⟨written, succeeded, limits, sends⟩ := sendPacket_eq tsr type sequence [] (by simp)
  rw [sends]
  exact .same ring rfl ((enqueued_append _ _).trans (List.append_nil _))

end Tsr.Enqueues

theorem injectTextLoop_enqueues (budget : Nat) {tsr : Tsr} (ring : tsr.memory.WellFormedRing) :
    tsr.Enqueues (injectTextLoop budget tsr).2 := by
  refine @injectTextLoop_rule tsr (fun before after => before.memory.WellFormedRing → before.Enqueues after)
    (fun _ ring => .same ring rfl rfl) (fun _ _ _ full ring => .refused ring full) ?_ budget ring
  intro rest after key input memory _ _ room later ring
  have queued := Tsr.Enqueues.queued ring (show (Event.queuedText key).word = some key from rfl) room
  have more := later queued.ring
  exact queued.trans ⟨more.ring, more.words⟩

theorem injectPendingText_enqueues {tsr : Tsr} (ring : tsr.memory.WellFormedRing) :
    tsr.Enqueues (injectPendingText tsr) := by
  have loop := injectTextLoop_enqueues 16 ring
  obtain ⟨rest, sent, looped, sends, waits | ⟨-, answers⟩⟩ := injectPendingText_cases tsr
  · rwa [waits, ← looped]
  · rw [looped] at loop
    have answered := loop.trans (.sent imeTextAck rest.pendingSequence loop.ring)
    rw [sends] at answered
    rw [answers]
    exact ⟨answered.ring, answered.words⟩

theorem injectPendingKey_enqueues {tsr : Tsr} (ring : tsr.memory.WellFormedRing) :
    tsr.Enqueues (injectPendingKey tsr) := by
  obtain ⟨memory, ⟨full, refused⟩ | ⟨room, rest, sent, queued, sends, answers⟩⟩ :=
    injectPendingKey_cases tsr
  · rw [refused]
    exact .refused ring full
  · have enqueues := Tsr.Enqueues.queued ring (show (Event.queuedKey tsr.pendingKey).word = _ from rfl) room
    rw [queued] at enqueues
    have answered := enqueues.trans (.sent imeKeyAck rest.pendingSequence enqueues.ring)
    rw [sends] at answered
    rw [answers]
    exact ⟨answered.ring, answered.words⟩

/-- Behind its first stage a worker run appends to the queue the words it notes. -/
theorem pc98ServiceForeground_enqueues {tsr : Tsr} (ring : (hotkeyStage tsr).memory.WellFormedRing) :
    (hotkeyStage tsr).Enqueues (pc98ServiceForeground tsr) := by
  have received : (hotkeyStage tsr).Enqueues (receiveStage (hotkeyStage tsr)) :=
    .same ring (receiveStage_works _).memory (receiveStage_enqueued _)
  have injected := @injectStage_rule (receiveStage (hotkeyStage tsr)) Tsr.Enqueues
    (.same received.ring rfl rfl) (fun _ => injectPendingText_enqueues received.ring)
    (fun _ text _ => text.trans (injectPendingKey_enqueues text.ring))
  have finished : (injectStage (receiveStage (hotkeyStage tsr))).Enqueues (pc98ServiceForeground tsr) :=
    .same injected.ring (finish_memory _) ((tickStage_enqueued _).trans (openStage_enqueued _))
  exact received.trans (injected.trans finished)

/-! ## The words are those of the accepted input -/

/-- The words in the queue are what the accepted TEXTs and KEYs have handed over, the rest of the
staged ones is still owed. -/
structure Session.Handing (session : Session) : Prop where
  length : session.pendingLength ≠ 0 → session.pendingText.length = session.pendingLength
  text : session.pendingLength ≠ 0 →
    Ledger.Owes (keyWords (session.pendingText.drop session.pendingOffset)) (fun _ => True) (fun _ => True)
      (accounts session.history).texts
  key : session.pendingKeyActive = true →
    Ledger.Owes [session.pendingKey] (fun _ => True) (fun _ => True) (accounts session.history).keys
  texts : Ledger.InOrder (accounts session.history).texts
  keys : Ledger.InOrder (accounts session.history).keys
  merged : Interleaved (Ledger.handed (accounts session.history).texts)
    (Ledger.handed (accounts session.history).keys) (enqueued session.history)

namespace Session.Handing

variable {session next : Session}

theorem initial : ({} : Session).Handing :=
  ⟨by simp, by simp, by simp, fun _ member => absurd member List.not_mem_nil,
    fun _ member => absurd member List.not_mem_nil, .nil⟩

theorem aside (moved : session.Aside next) (handing : session.Handing) : next.Handing := by
  have words := moved.enqueued
  obtain ⟨⟨events, history, areAside⟩, staged⟩ := moved
  have same : accounts next.history = accounts session.history := by rw [history, accounts_aside _ areAside]
  have merged := handing.merged
  rw [← words] at merged
  obtain dropped | ⟨text, length, offset, -, key, active⟩ := staged
  · obtain ⟨noText, noKey⟩ := not_or.mp dropped
    rw [← same] at merged
    exact ⟨fun staged => absurd staged noText, fun staged => absurd staged noText,
      fun staged => absurd staged noKey, same ▸ handing.texts, same ▸ handing.keys, merged⟩
  · refine ⟨?_, ?_, ?_, same ▸ handing.texts, same ▸ handing.keys, same.symm ▸ merged⟩
    · rw [text, length]
      exact handing.length
    · rw [same, text, length, offset]
      exact handing.text
    · rw [same, key, active]
      exact handing.key

theorem queuedText {key : Word} {input : Nat} (handing : session.Handing)
    (remaining : session.pendingOffset < session.pendingLength)
    (encoded : pc98BiosEncodeKey session.pendingText session.pendingLength session.pendingOffset =
      (key, input)) : ({ session with pendingOffset := input + 1 }.note (.queuedText key)).Handing := by
  have staged : session.pendingLength ≠ 0 := by omega
  have length := handing.length staged
  have owes := handing.text staged
  rw [(pc98BiosEncodeKey_spec (length ▸ remaining)).1, length, encoded] at owes
  have accounts := accounts_concat session.history (.queuedText key)
  refine ⟨fun _ => length, fun _ => ?_, fun active => ?_, ?_, ?_, ?_⟩
  · rw [Session.note, accounts]
    exact owes.deliver
  · rw [Session.note, accounts]
    exact handing.key active
  · rw [Session.note, accounts]
    exact handing.texts.deliver owes
  · rw [Session.note, accounts]
    exact handing.keys
  · rw [Session.note, accounts, enqueued_append]
    simp only [Accounts.enter, owes.handed_deliver]
    exact .left key handing.merged

theorem queuedKey (handing : session.Handing) (staged : session.pendingKeyActive = true) :
    Handing { session.note (.queuedKey session.pendingKey) with pendingKeyActive := false } := by
  have owes := handing.key staged
  have accounts := accounts_concat session.history (.queuedKey session.pendingKey)
  refine ⟨handing.length, fun staged => ?_, fun active => absurd active Bool.noConfusion, ?_, ?_, ?_⟩
  · rw [Session.note, accounts]
    exact handing.text staged
  · rw [Session.note, accounts]
    exact handing.texts
  · rw [Session.note, accounts]
    exact handing.keys.deliver owes
  · rw [Session.note, accounts, enqueued_append]
    simp only [Accounts.enter, owes.handed_deliver]
    exact .right session.pendingKey handing.merged

/-- An event of no account, and input that is no longer staged. -/
theorem answered {event : Event} (handing : session.Handing)
    (account : ∀ accounts : Accounts,
      (accounts.enter event).texts = accounts.texts ∧ (accounts.enter event).keys = accounts.keys)
    (wordless : event.word = none)
    (history : next.history = session.history ++ [event])
    (text : next.pendingText = session.pendingText) (offset : next.pendingLength ≠ 0 →
      next.pendingLength = session.pendingLength ∧ next.pendingOffset = session.pendingOffset)
    (key : next.pendingKey = session.pendingKey)
    (active : next.pendingKeyActive = true → session.pendingKeyActive = true) : next.Handing := by
  obtain ⟨texts, keys⟩ := account (accounts session.history)
  rw [← accounts_concat, ← history] at texts keys
  have words : enqueued next.history = enqueued session.history := by
    rw [history, enqueued_append]
    simp [enqueued, wordless]
  refine ⟨fun staged => ?_, fun staged => ?_, fun staged => ?_, texts ▸ handing.texts, keys ▸ handing.keys, ?_⟩
  · obtain ⟨length, -⟩ := offset staged
    rw [text, length]
    exact handing.length (length ▸ staged)
  · obtain ⟨length, offset⟩ := offset staged
    rw [texts, text, offset]
    exact handing.text (length ▸ staged)
  · rw [keys, key]
    exact handing.key (active staged)
  · rw [texts, keys, words]
    exact handing.merged

theorem step (does : Step session next) (handing : session.Handing) : next.Handing := by
  cases does with
  | turnedOn => exact handing.answered (fun _ => ⟨rfl, rfl⟩) rfl rfl rfl (fun _ => ⟨rfl, rfl⟩) rfl id
  | turnedOff written succeeded => exact handing.aside (.note_closed session written succeeded rfl)
  | shutDown written succeeded => exact handing.aside (.closed session written succeeded)
  | queuedText key input remaining encoded => exact handing.queuedText remaining encoded
  | answeredText written succeeded =>
    exact handing.answered (fun _ => ⟨rfl, rfl⟩) rfl rfl rfl (fun staged => absurd rfl staged) rfl id
  | answeredKey written succeeded staged =>
    exact (handing.queuedKey staged).answered (fun _ => ⟨rfl, rfl⟩) rfl
      (session.answeredKey_history written succeeded) rfl (fun _ => ⟨rfl, rfl⟩) rfl id
  | asked written succeeded => exact handing.aside (.asked session written succeeded)
  | greeting written succeeded => exact handing.aside (.greeting session written succeeded)
  | ticked => exact handing.aside (.linked session session.linkState (session.waitTicks + 1#16))

theorem handled {packet : Packet} (does : Handled packet session next) (handing : session.Handing) :
    next.Handing := by
  cases does with
  | greeted => exact handing.aside (.linked session .ready 0#16)
  | greetedAsking written succeeded =>
    exact (handing.aside (.linked session .ready 0#16)).aside (.asked _ written succeeded)
  | text =>
    have accounts := accounts_concat session.history (.acceptedText packet.sequence packet.payload)
    refine ⟨fun _ => rfl, fun _ => ?_, fun active => ?_, ?_, ?_, ?_⟩
    · rw [Session.note, accounts]
      exact Ledger.owes_accept _ _ trivial fun _ _ => trivial
    · rw [Session.note, accounts]
      exact handing.key active
    · rw [Session.note, accounts]
      exact handing.texts.accept _ _
    · rw [Session.note, accounts]
      exact handing.keys
    · rw [Session.note, accounts, enqueued_append]
      simp only [Accounts.enter, Ledger.handed_accept]
      exact (List.append_nil (enqueued session.history)).symm ▸ handing.merged
  | key word =>
    have accounts := accounts_concat session.history
      (.acceptedKey packet.sequence word (session.pendingLength ≠ 0))
    refine ⟨handing.length, fun staged => ?_, fun _ => ?_, ?_, ?_, ?_⟩
    · rw [Session.note, accounts]
      exact handing.text staged
    · rw [Session.note, accounts]
      exact Ledger.owes_accept _ _ trivial fun _ _ => trivial
    · rw [Session.note, accounts]
      exact handing.texts
    · rw [Session.note, accounts]
      exact handing.keys.accept _ _
    · rw [Session.note, accounts, enqueued_append]
      simp only [Accounts.enter, Ledger.handed_accept]
      exact (List.append_nil (enqueued session.history)).symm ▸ handing.merged
  | close written succeeded => exact handing.aside (.note_closed session written succeeded rfl)
  | ignored => exact handing

theorem move (session next : Session) (does : Move session next) (handing : session.Handing) :
    next.Handing := by
  cases does with
  | own does => exact handing.step does
  | packet packet fits does => exact handing.handled does

end Session.Handing

end ImeBridge
