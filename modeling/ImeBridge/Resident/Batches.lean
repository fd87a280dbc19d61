import ImeBridge.Keyboard.Ring
import ImeBridge.Resident.Refinement

/-! # Batched injection

`inject_pending_text` moves a TEXT into the BIOS queue over several runs: a run ends on a
full queue or on its budget of 16 words.  The runs together queue what encoding the
payload at once gives.
-/

namespace ImeBridge

open Library

/-- The packet of a `send_packet` call. -/
def Event.sentPacket : Event → Option Packet
  | .sent packet _ _ => some packet
  | _ => none

/-- The key words of the staged TEXT that are not queued yet. -/
def Session.wordsLeft (session : Session) : List Word :=
  keyWords (session.pendingText.drop session.pendingOffset)

/-- The loop queued `words` and moved the offset over the bytes they stand for. -/
structure Tsr.Queues (tsr : Tsr) (words : List Word) (after : Tsr) : Prop where
  ring : after.memory.WellFormedRing
  queue : after.memory.queue = tsr.memory.queue ++ words
  left : tsr.wordsLeft = words ++ after.wordsLeft
  frame : after = { tsr with
    memory := after.memory
    pendingOffset := after.pendingOffset
    history := tsr.history ++ words.map .queuedText }

namespace Tsr.Queues

variable {tsr after : Tsr} {words : List Word}

theorem refl (ring : tsr.memory.WellFormedRing) : tsr.Queues [] tsr :=
  ⟨ring, by simp, by simp, by simp⟩

/-- One turn of the loop before the others. -/
theorem cons {key : Word} {memory : Memory} {offset : Nat} (queue : memory.queue = tsr.memory.queue ++ [key])
    (left : tsr.wordsLeft = key :: keyWords (tsr.pendingText.drop offset))
    (rest : Tsr.Queues { tsr.note (.queuedText key) with memory := memory, pendingOffset := offset } words after) :
    tsr.Queues (key :: words) after where
  ring := rest.ring
  queue := by rw [rest.queue, queue, List.append_assoc, List.singleton_append]
  left := by
    have later := rest.left
    simp only [Session.wordsLeft] at left later ⊢
    rw [left, List.cons_append]
    exact congrArg (key :: ·) later
  frame := by
    have frame := rest.frame
    rw [frame]
    simp [Tsr.note]

end Tsr.Queues

/-- The loop runs to the end of the text, or until the budget is spent or the queue full. -/
theorem injectTextLoop_queues (budget : Nat) {tsr : Tsr} (ring : tsr.memory.WellFormedRing)
    (whole : tsr.pendingText.length = tsr.pendingLength) :
    ∃ words, tsr.Queues words (injectTextLoop budget tsr).2 ∧
      ((injectTextLoop budget tsr).1 = true ∧
          (tsr.pendingLength ≤ (injectTextLoop budget tsr).2.pendingOffset ∨ words.length = budget) ∨
        (injectTextLoop budget tsr).1 = false ∧
          (injectTextLoop budget tsr).2.pendingOffset < tsr.pendingLength ∧
          tsr.memory.count + words.length = 16) := by
  induction budget generalizing tsr with
  | zero => exact ⟨[], .refl ring, .inl ⟨rfl, .inr rfl⟩⟩
  | succ budget inductionHypothesis =>
    by_cases remaining : tsr.pendingOffset < tsr.pendingLength
    · have encoded := pc98BiosEncodeKey_spec (whole.symm ▸ remaining)
      rw [whole] at encoded
      simp only [injectTextLoop, if_pos remaining]
      rcases coded : pc98BiosEncodeKey tsr.pendingText tsr.pendingLength tsr.pendingOffset with ⟨key, input⟩
      rw [coded] at encoded
      by_cases room : tsr.memory.count < 16
      · obtain ⟨succeeds, ring', queue'⟩ := ring.enqueue_room room key
        rcases enqueued : pc98BiosEnqueueWord key tsr.memory with ⟨succeeded, memory⟩
        rw [enqueued] at succeeds ring' queue'
        cases succeeds
        simp only [enqueueNoting, enqueued]
        obtain ⟨words, queues, ends⟩ := @inductionHypothesis
          { tsr.note (.queuedText key) with memory := memory, pendingOffset := input + 1 } ring' whole
        have grown := congrArg List.length queue'
        rw [List.length_append, Memory.WellFormedRing.queue_length, Memory.WellFormedRing.queue_length] at grown
        refine ⟨key :: words, queues.cons queue' encoded.1, ?_⟩
        rcases ends with ⟨done, reason⟩ | ⟨full, unfinished, count⟩
        · exact .inl ⟨done, reason.imp_right fun spent => congrArg (· + 1) spent⟩
        · refine .inr ⟨full, unfinished, ?_⟩
          simp only [List.length_cons, List.length_nil] at count grown ⊢
          omega
      · -- The queue is full: the encoder's index is dropped with the word.
        have full := Memory.WellFormedRing.enqueue_full room key
        simp only [enqueueNoting, full]
        exact ⟨[], .refl ring, .inr ⟨trivial, remaining, le_antisymm ring.count_le (Nat.not_lt.mp room)⟩⟩
    · simp only [injectTextLoop, if_neg remaining]
      exact ⟨[], .refl ring, .inl ⟨trivial, .inl (Nat.not_lt.mp remaining)⟩⟩

theorem Session.wordsLeft_ne_nil {session : Session} (whole : session.pendingText.length = session.pendingLength)
    (unfinished : session.pendingOffset < session.pendingLength) : session.wordsLeft ≠ [] := by
  rw [wordsLeft, (pc98BiosEncodeKey_spec (whole.symm ▸ unfinished)).1]
  exact List.cons_ne_nil _ _

theorem Session.wordsLeft_nil {session : Session} (whole : session.pendingText.length = session.pendingLength)
    (finished : session.pendingLength ≤ session.pendingOffset) : session.wordsLeft = [] := by
  rw [wordsLeft, List.drop_eq_nil_of_le (whole ▸ finished)]
  rfl

/-- A call queues a batch; the text is answered in the call that queues the last of it. -/
theorem injectPendingText_queues {tsr : Tsr} (ring : tsr.memory.WellFormedRing)
    (whole : tsr.pendingText.length = tsr.pendingLength) : ∃ words rest, tsr.Queues words rest ∧
      ((rest.pendingOffset < tsr.pendingLength ∧
          (words.length = 16 ∨ tsr.memory.count + words.length = 16) ∧ injectPendingText tsr = rest) ∨
        tsr.pendingLength ≤ rest.pendingOffset ∧ ∃ sent : Tsr,
          (sendPacket imeTextAck tsr.pendingSequence [] rest).2 = sent ∧ injectPendingText tsr = { sent with
            pendingLength := 0
            pendingOffset := 0
            imeActive := false
            openPending := sent.imeEnabled }) := by
  obtain ⟨words, queues, ends⟩ := injectTextLoop_queues 16 ring whole
  have length : (injectTextLoop 16 tsr).2.pendingLength = tsr.pendingLength := by rw [queues.frame]
  have sequence : (injectTextLoop 16 tsr).2.pendingSequence = tsr.pendingSequence := by rw [queues.frame]
  refine ⟨words, (injectTextLoop 16 tsr).2, queues, ?_⟩
  simp only [injectPendingText]
  generalize injectTextLoop 16 tsr = looped at *
  obtain ⟨done, rest⟩ := looped
  dsimp only at *
  cases ends with
  | inl ended =>
    obtain ⟨rfl, reason⟩ := ended
    by_cases finished : rest.pendingOffset ≥ rest.pendingLength
    · simp only [if_pos finished]
      exact .inr ⟨length ▸ finished, _, rfl, by rw [sequence]⟩
    · -- The budget is spent before the end of the text.
      simp only [if_neg finished]
      have unfinished : rest.pendingOffset < tsr.pendingLength := length ▸ Nat.not_le.mp finished
      exact .inl ⟨unfinished, .inl (reason.resolve_left (Nat.not_le.mpr unfinished)), trivial⟩
  | inr ended =>
    obtain ⟨rfl, unfinished, full⟩ := ended
    exact .inl ⟨unfinished, .inr full, rfl⟩

/-! ## Calls among other turns of the machine -/

/-- What happens while a TEXT is staged: a call of `inject_pending_text`, an operation on the
BIOS queue, or anything else that leaves the staged TEXT and the queue alone. -/
inductive InjectionTurn where
  | call
  | keyboard (op : KeyboardOp)
  | outside (next : Tsr)

namespace InjectionTurn

def apply : InjectionTurn → Tsr → Tsr
  -- As in the worker, whose only call this is.
  | call, tsr => if tsr.pendingLength ≠ 0 then injectPendingText tsr else tsr
  | keyboard op, tsr => { tsr with memory := (op.apply tsr.memory).2 }
  | outside next, tsr => { next with
      pendingText := tsr.pendingText
      pendingLength := tsr.pendingLength
      pendingOffset := tsr.pendingOffset
      pendingSequence := tsr.pendingSequence
      memory := tsr.memory }

/-- The words and the packets a turn hands out. -/
structure Output where
  words : List Word := []
  packets : List Packet := []
  deriving DecidableEq, Repr

/-- Only calls of `inject_pending_text` are looked at: what they put behind the words already
in the queue, and what they sent. -/
def output (turn : InjectionTurn) (tsr : Tsr) : Output :=
  match turn with
  | call =>
    { words := (turn.apply tsr).memory.queue.drop tsr.memory.queue.length
      packets := ((turn.apply tsr).history.drop tsr.history.length).filterMap Event.sentPacket }
  | keyboard _ | outside _ => {}

def respond (turn : InjectionTurn) (tsr : Tsr) : Output × Tsr := (turn.output tsr, turn.apply tsr)

end InjectionTurn

/-- `left` is what remains of the TEXT, and nothing remains once the staging is cleared. -/
structure Tsr.Remains (left : List Word) (tsr : Tsr) : Prop where
  ring : tsr.memory.WellFormedRing
  staged : tsr.pendingLength ≠ 0 → tsr.pendingText.length = tsr.pendingLength ∧
    tsr.pendingOffset < tsr.pendingLength ∧ tsr.wordsLeft = left
  cleared : tsr.pendingLength = 0 → left = []

theorem Tsr.Remains.nil_iff {tsr : Tsr} {left : List Word} (remains : tsr.Remains left) :
    left = [] ↔ tsr.pendingLength = 0 := by
  refine ⟨fun none => ?_, remains.cleared⟩
  by_contra staged
  obtain ⟨whole, unfinished, rest⟩ := remains.staged staged
  exact Session.wordsLeft_ne_nil whole unfinished (rest.trans none)

/-- What a call hands out, from a staged TEXT. -/
theorem Tsr.Remains.call {tsr : Tsr} {left : List Word} (remains : tsr.Remains left)
    (staged : tsr.pendingLength ≠ 0) : ∃ words rest, left = words ++ rest ∧
      (injectPendingText tsr).Remains rest ∧
      (injectPendingText tsr).memory.queue = tsr.memory.queue ++ words ∧
      (injectPendingText tsr).pendingSequence = tsr.pendingSequence ∧
      ∃ events, (injectPendingText tsr).history = tsr.history ++ events ∧
        events.filterMap Event.sentPacket = if (injectPendingText tsr).pendingLength = 0
          then [⟨imeTextAck, tsr.pendingSequence, []⟩] else [] := by
  obtain ⟨whole, -, same⟩ := remains.staged staged
  obtain ⟨words, rest, queues, ends⟩ := injectPendingText_queues remains.ring whole
  have text : rest.pendingText = tsr.pendingText := by rw [queues.frame]
  have length : rest.pendingLength = tsr.pendingLength := by rw [queues.frame]
  have sequence : rest.pendingSequence = tsr.pendingSequence := by rw [queues.frame]
  have history : rest.history = tsr.history ++ words.map .queuedText := by rw [queues.frame]
  have silent : (words.map Event.queuedText).filterMap Event.sentPacket = [] := by
    rw [List.filterMap_map]
    exact List.filterMap_eq_nil_iff.mpr fun _ _ => rfl
  have split := same.symm.trans queues.left
  refine ⟨words, rest.wordsLeft, split, ?_⟩
  cases ends with
  | inl waits =>
    obtain ⟨unfinished, -, stays⟩ := waits
    have notCleared : rest.pendingLength ≠ 0 := length ▸ staged
    rw [stays, if_neg notCleared]
    refine ⟨⟨queues.ring, fun _ => ⟨?_, length ▸ unfinished, rfl⟩, fun cleared => absurd cleared notCleared⟩,
      queues.queue, sequence, _, history, silent⟩
    rw [text, whole, length]
  | inr answers =>
    obtain ⟨finished, sent, sends, answered⟩ := answers
    obtain ⟨written, succeeded, limits, eq⟩ := sendPacket_eq rest imeTextAck tsr.pendingSequence []
      (by simp)
    have nothing : rest.wordsLeft = [] :=
      Session.wordsLeft_nil (by rw [text, whole, length]) (length ▸ finished)
    rw [answered, ← sends, eq, nothing]
    refine ⟨⟨queues.ring, fun isStaged => absurd rfl isStaged, fun _ => rfl⟩, queues.queue, sequence,
      words.map Event.queuedText ++ [.sent ⟨imeTextAck, tsr.pendingSequence, []⟩ written succeeded], ?_, ?_⟩
    · simp [Tsr.note, history]
    · rw [List.filterMap_append, silent]
      rfl

namespace InjectionTurn

/-- The TEXT_ACK of the turn that clears the staging. -/
def answer (turn : InjectionTurn) (number : Word) (tsr : Tsr) : List Packet :=
  if tsr.pendingLength ≠ 0 ∧ (turn.apply tsr).pendingLength = 0 then [⟨imeTextAck, number, []⟩] else []

theorem answer_unchanged {turn : InjectionTurn} {number : Word} {tsr : Tsr}
    (same : (turn.apply tsr).pendingLength = tsr.pendingLength) : turn.answer number tsr = [] := by
  rw [answer, same]
  exact if_neg fun both => both.1 both.2

/-- A turn takes the words it queues from the front of what remains. -/
theorem takes (turn : InjectionTurn) {tsr : Tsr} {left : List Word} (remains : tsr.Remains left) :
    ∃ rest, left = (turn.output tsr).words ++ rest ∧ (turn.apply tsr).Remains rest ∧
      (turn.apply tsr).pendingSequence = tsr.pendingSequence ∧
      (turn.output tsr).packets = turn.answer tsr.pendingSequence tsr ∧
      (turn = .call → (turn.apply tsr).memory.queue = tsr.memory.queue ++ (turn.output tsr).words) := by
  cases turn with
  | call =>
    by_cases staged : tsr.pendingLength ≠ 0
    · have called : apply .call tsr = injectPendingText tsr := if_pos staged
      obtain ⟨words, rest, split, next, queue, sequence, events, history, packets⟩ := remains.call staged
      have taken : (output .call tsr).words = words := by
        simp only [output, called, queue, List.drop_left]
      have handed : (output .call tsr).packets = answer .call tsr.pendingSequence tsr := by
        simp only [output, answer, called, history, List.drop_left, packets, staged, not_false_eq_true,
          true_and, ne_eq]
      rw [taken, called]
      exact ⟨rest, split, next, sequence, handed, fun _ => queue⟩
    · -- With nothing staged the worker does not call.
      have skipped : apply .call tsr = tsr := if_neg staged
      have nothing : output .call tsr = {} := by simp [output, skipped]
      rw [nothing, skipped, answer_unchanged (by rw [skipped])]
      exact ⟨left, rfl, remains, rfl, rfl, fun _ => (List.append_nil _).symm⟩
  | keyboard op =>
    have ring' := (op.apply_spec remains.ring).2.1
    exact ⟨left, rfl, ⟨ring', remains.staged, remains.cleared⟩, rfl, (answer_unchanged rfl).symm, nofun⟩
  | outside next =>
    exact ⟨left, rfl, ⟨remains.ring, remains.staged, remains.cleared⟩, rfl, (answer_unchanged rfl).symm, nofun⟩

theorem takes_run (turns : List InjectionTurn) {tsr : Tsr} {left : List Word} (remains : tsr.Remains left) :
    let outcome := Run.respond respond turns tsr
    ∃ rest, left = outcome.1.flatMap Output.words ++ rest ∧ outcome.2.Remains rest ∧
      outcome.2.pendingSequence = tsr.pendingSequence := by
  induction turns generalizing tsr left with
  | nil => exact ⟨left, rfl, remains, rfl⟩
  | cons turn turns inductionHypothesis =>
    obtain ⟨middle, first, next, sequence, -⟩ := turn.takes remains
    obtain ⟨rest, later, last, same⟩ := inductionHypothesis next
    refine ⟨rest, ?_, last, same.trans sequence⟩
    rw [first, later]
    simp [respond]

end InjectionTurn

open InjectionTurn in
/-- Whatever the batches are, the calls queue the encoding of the payload from its front and
in order; it is queued whole when and only when the staging is cleared, and the TEXT_ACK goes
out in the call that clears it. -/
theorem batches_are_encoding {tsr : Tsr} (ring : tsr.memory.WellFormedRing)
    (whole : tsr.pendingText.length = tsr.pendingLength) (nonempty : tsr.pendingLength ≠ 0)
    (fresh : tsr.pendingOffset = 0) (turns : List InjectionTurn) :
    let outcome := Run.respond InjectionTurn.respond turns tsr
    let words := outcome.1.flatMap Output.words
    words <+: keyWords tsr.pendingText ∧
      (words = keyWords tsr.pendingText ↔ outcome.2.pendingLength = 0) ∧
      ∀ turn : InjectionTurn,
        (turn = .call → (turn.apply outcome.2).memory.queue =
          outcome.2.memory.queue ++ (turn.output outcome.2).words) ∧
        (turn.output outcome.2).packets = turn.answer tsr.pendingSequence outcome.2 := by
  intro outcome words
  have all : tsr.wordsLeft = keyWords tsr.pendingText := by rw [Session.wordsLeft, fresh, List.drop_zero]
  have start : tsr.Remains (keyWords tsr.pendingText) :=
    ⟨ring, fun _ => ⟨whole, by omega, all⟩, fun cleared => absurd cleared nonempty⟩
  obtain ⟨rest, split, remains, sequence⟩ := takes_run turns start
  refine ⟨⟨rest, split.symm⟩, ?_, fun turn => ?_⟩
  · rw [← remains.nil_iff, split]
    exact List.self_eq_append_right
  · obtain ⟨-, -, -, -, packets, queue⟩ := turn.takes remains
    exact ⟨queue, by rw [packets, sequence]⟩

/-- A TEXT of A, CR LF and LF before a queue with one slot left. -/
def stagedLines : Tsr where
  pendingText := [0x41, 0x0d, 0x0a, 0x0a]
  pendingLength := 4
  pendingSequence := 7#16
  imeActive := true
  memory := ((Memory.blank.writeWord pc98KbHead 0x0502#16).writeWord pc98KbTail 0x0520#16).writeByte
    pc98KbCount 15#8

/-- Three calls, each of which ends on a full queue or on the end of the text. -/
theorem batches_are_encoding_lines :
    let turns : List InjectionTurn := [.call, .keyboard .dequeue, .call, .keyboard .dequeue, .call]
    (Run.respond InjectionTurn.respond turns stagedLines).1.flatMap InjectionTurn.Output.words =
      [0x0041#16, 0x1c0d#16, 0x1c0d#16] := by
  intro turns
  have ring : stagedLines.memory.WellFormedRing := ⟨by decide, by decide, by decide, by decide⟩
  have cleared : (Run.respond InjectionTurn.respond turns stagedLines).2.pendingLength = 0 := by
    decide +kernel
  have encodes := batches_are_encoding ring rfl (by decide) rfl turns
  exact (encodes.2.1.mpr cleared).trans (by decide)

end ImeBridge
