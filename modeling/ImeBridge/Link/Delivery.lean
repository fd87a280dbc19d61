import ImeBridge.Link.Traffic
import ImeBridge.Resident.Accounts

/-! # What becomes of the letters

The line may lose messages, the user and the hotkey act at any time, and the response
timer may fire: of the letters the host wrote, some are accepted, in the order they were
written and each once, and of an accepted one the first key words reach the BIOS queue.
-/

namespace ImeBridge

open Library Relation

namespace Event

/-- A word of a TEXT that went into the BIOS queue. -/
def textWord : Event → Option Word
  | .queuedText key => some key
  | _ => none

/-- A word of a KEY that did. -/
def keyWord : Event → Option Word
  | .queuedKey key => some key
  | _ => none

variable {event : Event}

theorem textWord_of_aside (isAside : event.aside = true) : event.textWord = none := by
  cases event with
  | queuedText => simp [aside] at isAside
  | _ => rfl

theorem keyWord_of_aside (isAside : event.aside = true) : event.keyWord = none := by
  cases event with
  | queuedKey => simp [aside] at isAside
  | _ => rfl

end Event

/-- What the packet stands for as a TEXT. -/
def Packet.wordsOfText (packet : Packet) : List Word := keyWords packet.payload

/-- What it stands for as a KEY. -/
def Packet.wordOfKey (packet : Packet) : List Word := (keyCodeWord (packet.payload.getD 0 0)).toList

/-- Some of the letters of this kind were accepted, in the order they were written.  Their
numbers were noted as they were accepted, and they have the entries of the client's account
of accepted input: of each the queue got the first words. -/
def Arrive (kind : Byte) (words : Packet → List Word) (letters : List Letter) (numbers : List Nat)
    (inputs : List InputJob) (queued : List Word) : Prop :=
  ∃ accepted : List (Letter × List Word),
    (accepted.map Prod.fst).Sublist (letters.filter (·.packet.type = kind)) ∧
      accepted.map (·.1.number) = numbers ∧
      accepted.map (fun entry => ((entry.1.packet.sequence, words entry.1.packet), entry.2)) =
        inputs.map (fun input => (input.entry, input.delivered)) ∧
      (∀ entry ∈ accepted, entry.2 <+: words entry.1.packet) ∧ queued = (accepted.map Prod.snd).flatten

/-- The jobs are the accepted letters of a kind, newest first, and what is still on its way
was written after them. -/
structure Conveyed (kind : Byte) (words : Packet → List Word) (letters flying : List Letter)
    (numbers : List Nat) (inputs : List InputJob) (queued : List Word) (staged : Prop)
    (remaining : List Word) (jobs : List (Ledger.Job Letter Word)) : Prop where
  order : (jobs.reverse.map Ledger.Job.label ++ flying).Sublist letters
  noted : jobs.map (·.label.number) = numbers
  account : jobs.map (fun job => ((job.label.packet.sequence, job.items), job.delivered)) =
    inputs.map (fun input => (input.entry, input.delivered))
  filed : ∀ job ∈ jobs, job.label.packet.type = kind ∧ job.items = words job.label.packet
  inOrder : Ledger.InOrder jobs
  queued : queued = Ledger.handed jobs
  owes : staged → Ledger.Owes remaining (fun _ => True) (fun _ => True) jobs

namespace Conveyed

variable {kind : Byte} {words : Packet → List Word} {letters flying flying' : List Letter}
  {numbers : List Nat} {inputs : List InputJob} {queued : List Word} {staged staged' : Prop} {remaining remaining' : List Word}
  {jobs : List (Ledger.Job Letter Word)}

theorem empty (unstaged : ¬ staged) : Conveyed kind words [] [] [] [] [] staged remaining [] :=
  ⟨List.Sublist.refl _, rfl, rfl, by simp, by simp [Ledger.InOrder], rfl,
    fun stages => absurd stages unstaged⟩

theorem weaken (conveyed : Conveyed kind words letters flying numbers inputs queued staged remaining jobs)
    (fewer : flying'.Sublist flying) (stays : staged' → staged ∧ remaining' = remaining) :
    Conveyed kind words letters flying' numbers inputs queued staged' remaining' jobs := by
  refine ⟨((List.Sublist.refl _).append fewer).trans conveyed.order, conveyed.noted, conveyed.account,
    conveyed.filed, conveyed.inOrder, conveyed.queued, fun stages => ?_⟩
  obtain ⟨wasStaged, same⟩ := stays stages
  exact same ▸ conveyed.owes wasStaged

/-- The host writes, and letters on their way may get lost. -/
theorem written (conveyed : Conveyed kind words letters flying numbers inputs queued staged remaining jobs)
    (fresh : List Letter) (fewer : flying'.Sublist (flying ++ fresh)) :
    Conveyed kind words (letters ++ fresh) flying' numbers inputs queued staged remaining jobs := by
  refine ⟨?_, conveyed.noted, conveyed.account, conveyed.filed, conveyed.inOrder, conveyed.queued, conveyed.owes⟩
  have longer := conveyed.order.append (List.Sublist.refl fresh)
  rw [List.append_assoc] at longer
  exact ((List.Sublist.refl _).append fewer).trans longer

theorem accept {letter : Letter} {receipt : Receipt}
    (conveyed : Conveyed kind words letters (letter :: flying) numbers inputs queued staged remaining jobs)
    (isKind : letter.packet.type = kind) (filed : receipt.sequence = letter.packet.sequence) :
    Conveyed kind words letters flying (letter.number :: numbers)
      (Ledger.accept receipt (words letter.packet) inputs) queued staged' (words letter.packet)
      (Ledger.accept letter (words letter.packet) jobs) := by
  refine ⟨?_, congrArg (List.cons _) conveyed.noted, ?_, List.forall_mem_cons.mpr ⟨⟨isKind, rfl⟩, conveyed.filed⟩, conveyed.inOrder.accept _ _, ?_,
    fun _ => Ledger.owes_accept _ _ trivial fun _ _ => trivial⟩
  · have order := conveyed.order
    rw [List.append_cons] at order
    simpa [Ledger.accept] using order
  · rw [Ledger.accept, Ledger.accept, List.map_cons, List.map_cons, conveyed.account, InputJob.entry, filed]
  · rw [Ledger.handed_accept]
    exact conveyed.queued

theorem deliver {word : Word}
    (conveyed : Conveyed kind words letters flying numbers inputs queued staged (word :: remaining) jobs)
    (isStaged : staged) : Conveyed kind words letters flying numbers (Ledger.deliver word inputs)
      (queued ++ [word]) staged' remaining (Ledger.deliver word jobs) := by
  have owes := conveyed.owes isStaged
  have account := conveyed.account
  refine ⟨?_, ?_, ?_, ?_, conveyed.inOrder.deliver owes, ?_, fun _ => owes.deliver⟩
  · obtain ⟨job, older, rfl, -⟩ := owes
    simpa [Ledger.deliver] using conveyed.order
  · obtain ⟨job, older, rfl, -⟩ := owes
    exact conveyed.noted
  · -- The newest entries of both get the word.
    obtain ⟨job, older, rfl, -⟩ := owes
    cases inputs with
    | nil => simp at account
    | cons input earlier =>
      simp only [List.map_cons, List.cons.injEq, Prod.mk.injEq] at account
      obtain ⟨⟨entry, delivered⟩, rest⟩ := account
      simp only [Ledger.deliver, List.map_cons, rest, delivered, entry]
      rfl
  · obtain ⟨job, older, rfl, -⟩ := owes
    exact List.forall_mem_cons.mpr (List.forall_mem_cons.mp conveyed.filed)
  · rw [owes.handed_deliver, ← conveyed.queued]

theorem arrive (conveyed : Conveyed kind words letters flying numbers inputs queued staged remaining jobs) :
    Arrive kind words letters numbers.reverse inputs.reverse queued := by
  refine ⟨jobs.reverse.map fun job => (job.label, job.delivered), ?_, ?_, ?_, ?_, ?_⟩
  · have accepted : (jobs.reverse.map Ledger.Job.label).Sublist letters :=
      (List.sublist_append_left _ _).trans conveyed.order
    have all : (jobs.reverse.map Ledger.Job.label).filter (·.packet.type = kind) =
        jobs.reverse.map Ledger.Job.label := by
      refine List.filter_eq_self.mpr fun letter member => ?_
      obtain ⟨job, isJob, rfl⟩ := List.mem_map.mp member
      exact decide_eq_true (conveyed.filed job (List.mem_reverse.mp isJob)).1
    have kept := accepted.filter (·.packet.type = kind)
    rw [all] at kept
    rw [List.map_map]
    exact kept
  · rw [← conveyed.noted, List.map_map, List.map_reverse]
    rfl
  · have entries : jobs.map (fun job => ((job.label.packet.sequence, words job.label.packet), job.delivered)) =
        inputs.map (fun input => (input.entry, input.delivered)) := by
      rw [← conveyed.account]
      exact List.map_congr_left fun job member => by rw [(conveyed.filed job member).2]
    rw [List.map_map, List.map_reverse, List.map_reverse, ← entries]
    rfl
  · intro entry member
    obtain ⟨job, isJob, rfl⟩ := List.mem_map.mp member
    have isJob := List.mem_reverse.mp isJob
    exact (conveyed.filed job isJob).2 ▸ conveyed.inOrder job isJob
  · rw [conveyed.queued, Ledger.handed, List.map_map]
    rfl

end Conveyed

namespace Link

/-- The words of TEXTs that went into the BIOS queue, oldest first. -/
def queuedTexts (history : List Event) : List Word := history.filterMap Event.textWord

/-- The words of KEYs. -/
def queuedKeys (history : List Event) : List Word := history.filterMap Event.keyWord

section Queued

variable {event : Event} (history : List Event)

theorem queuedTexts_silent (silent : event.textWord = none) :
    queuedTexts (history ++ [event]) = queuedTexts history := by
  simp [queuedTexts, silent]

theorem queuedKeys_silent (silent : event.keyWord = none) :
    queuedKeys (history ++ [event]) = queuedKeys history := by
  simp [queuedKeys, silent]

theorem queuedTexts_word (key : Word) :
    queuedTexts (history ++ [.queuedText key]) = queuedTexts history ++ [key] := by
  simp [queuedTexts, Event.textWord]

theorem queuedKeys_word (key : Word) :
    queuedKeys (history ++ [.queuedKey key]) = queuedKeys history ++ [key] := by
  simp [queuedKeys, Event.keyWord]

end Queued

/-- What holds between the letters the host wrote and the line. -/
structure Conveys (letters : List Letter) (link : Link) : Prop where
  numbers : letters.map (·.number) = List.range link.written
  length : link.session.pendingLength ≠ 0 → link.session.pendingText.length = link.session.pendingLength
  text : ∃ jobs, Conveyed imeText Packet.wordsOfText letters link.toClient link.texts
    (accounts link.session.history).texts (queuedTexts link.session.history) (link.session.pendingLength ≠ 0)
    (keyWords (link.session.pendingText.drop link.session.pendingOffset)) jobs
  key : ∃ jobs, Conveyed imeKey Packet.wordOfKey letters link.toClient link.keys
    (accounts link.session.history).keys (queuedKeys link.session.history)
    (link.session.pendingKeyActive = true) [link.session.pendingKey] jobs

namespace Conveys

variable {letters : List Letter} {link : Link}

/-- Nothing goes into the queue, and staged input is left alone or dropped. -/
theorem quiet {session : Session} {line : Line} (events : List Event)
    (history : session.history = link.session.history ++ events)
    (wordless : ∀ event ∈ events, event.textWord = none ∧ event.keyWord = none)
    (staged : ¬ session.Staged ∨
      (session.pendingText = link.session.pendingText ∧ session.pendingLength = link.session.pendingLength ∧
        session.pendingOffset = link.session.pendingOffset ∧ session.pendingKey = link.session.pendingKey ∧
        session.pendingKeyActive = link.session.pendingKeyActive))
    (inputs : (accounts session.history).texts = (accounts link.session.history).texts ∧
      (accounts session.history).keys = (accounts link.session.history).keys)
    (notes : line.texts = link.texts ∧ line.keys = link.keys)
    (written : line.written = link.written) (fewer : line.toClient.Sublist link.toClient)
    (conveys : link.Conveys letters) : Conveys letters { line with session := session } := by
  have noTexts : queuedTexts session.history = queuedTexts link.session.history := by
    rw [queuedTexts, history, List.filterMap_append,
      List.filterMap_eq_nil_iff.mpr fun event member => (wordless event member).1, List.append_nil, ← queuedTexts]
  have noKeys : queuedKeys session.history = queuedKeys link.session.history := by
    rw [queuedKeys, history, List.filterMap_append,
      List.filterMap_eq_nil_iff.mpr fun event member => (wordless event member).2, List.append_nil, ← queuedKeys]
  obtain ⟨texts, text⟩ := conveys.text
  obtain ⟨keys, key⟩ := conveys.key
  obtain dropped | ⟨sameText, sameLength, sameOffset, sameKey, sameActive⟩ := staged
  · obtain ⟨noText, noKey⟩ := not_or.mp dropped
    refine ⟨written ▸ conveys.numbers, fun staged => absurd staged noText, ⟨texts, ?_⟩, ⟨keys, ?_⟩⟩
    · rw [noTexts, inputs.1, notes.1]
      exact text.weaken fewer fun staged => absurd staged noText
    · rw [noKeys, inputs.2, notes.2]
      exact key.weaken fewer fun staged => absurd staged noKey
  · refine ⟨written ▸ conveys.numbers, ?_, ⟨texts, ?_⟩, ⟨keys, ?_⟩⟩
    · rw [sameText, sameLength]
      exact conveys.length
    · rw [noTexts, inputs.1, notes.1, sameText, sameLength, sameOffset]
      exact text.weaken fewer fun staged => ⟨staged, rfl⟩
    · rw [noKeys, inputs.2, notes.2, sameKey, sameActive]
      exact key.weaken fewer fun staged => ⟨staged, rfl⟩

/-- The client does something aside, while letters leave the channel to it. -/
theorem passes {session : Session} {line : Line} (moved : link.session.Aside session)
    (notes : line.texts = link.texts ∧ line.keys = link.keys) (written : line.written = link.written)
    (fewer : line.toClient.Sublist link.toClient) (conveys : link.Conveys letters) :
    Conveys letters { line with session := session } := by
  obtain ⟨⟨events, history, areAside⟩, staged⟩ := moved
  have same : accounts session.history = accounts link.session.history := by
    rw [history, accounts_aside _ areAside]
  refine conveys.quiet events history (fun event member => ?_) ?_ (by rw [same]; exact ⟨rfl, rfl⟩) notes
    written fewer
  · have isAside := areAside event member
    exact ⟨Event.textWord_of_aside isAside, Event.keyWord_of_aside isAside⟩
  · obtain dropped | ⟨text, length, offset, -, key, active⟩ := staged
    · exact .inl dropped
    · exact .inr ⟨text, length, offset, key, active⟩

theorem aside {session : Session} (moved : link.session.Aside session) (conveys : link.Conveys letters) :
    Conveys letters { link with session := session } :=
  conveys.passes moved ⟨rfl, rfl⟩ rfl (List.Sublist.refl _)

theorem queuedText {key : Word} {input : Nat} (conveys : link.Conveys letters)
    (remaining : link.session.pendingOffset < link.session.pendingLength)
    (encoded : pc98BiosEncodeKey link.session.pendingText link.session.pendingLength
      link.session.pendingOffset = (key, input)) :
    Conveys letters { link with
      session := { link.session with pendingOffset := input + 1 }.note (.queuedText key) } := by
  have staged : link.session.pendingLength ≠ 0 := by omega
  have length := conveys.length staged
  obtain ⟨texts, text⟩ := conveys.text
  obtain ⟨keys, conveyed⟩ := conveys.key
  rw [(pc98BiosEncodeKey_spec (length ▸ remaining)).1, length, encoded] at text
  refine ⟨conveys.numbers, fun _ => length, ⟨Ledger.deliver key texts, ?_⟩, ⟨keys, ?_⟩⟩
  · rw [Session.note, queuedTexts_word, accounts_concat]
    exact text.deliver staged
  · rw [Session.note, queuedKeys_silent _ rfl, accounts_concat]
    exact conveyed

theorem answeredKey {written : Nat} {succeeded : Bool} (conveys : link.Conveys letters)
    (staged : link.session.pendingKeyActive = true) :
    Conveys letters { link with session := link.session.answeredKey written succeeded } := by
  obtain ⟨texts, text⟩ := conveys.text
  obtain ⟨keys, key⟩ := conveys.key
  have history := link.session.answeredKey_history written succeeded
  refine ⟨conveys.numbers, conveys.length, ⟨texts, ?_⟩, ⟨Ledger.deliver link.session.pendingKey keys, ?_⟩⟩
  · rw [history, queuedTexts_silent _ rfl, queuedTexts_silent _ rfl, accounts_concat, accounts_concat]
    exact text
  · rw [history, queuedKeys_silent _ rfl, queuedKeys_word, accounts_concat, accounts_concat]
    have delivered := @Conveyed.deliver _ _ _ _ _ _ _ _ False _ _ _ key staged
    exact delivered.weaken (List.Sublist.refl _) fun active => absurd active Bool.noConfusion

theorem own {session : Session} (does : Session.Step link.session session) (conveys : link.Conveys letters) :
    Conveys letters { link with session := session } := by
  cases does with
  | turnedOn =>
    have inputs := accounts_concat link.session.history (.toggled true)
    refine conveys.quiet [.toggled true] rfl (by simp [Event.textWord, Event.keyWord])
      (.inr ⟨rfl, rfl, rfl, rfl, rfl⟩) ?_ ⟨rfl, rfl⟩ rfl (List.Sublist.refl _)
    rw [Session.note, inputs]
    exact ⟨rfl, rfl⟩
  | turnedOff written succeeded => exact conveys.aside (.note_closed link.session written succeeded rfl)
  | shutDown written succeeded => exact conveys.aside (.closed link.session written succeeded)
  | queuedText key input remaining encoded => exact conveys.queuedText remaining encoded
  | answeredText written succeeded =>
    obtain ⟨texts, text⟩ := conveys.text
    obtain ⟨keys, key⟩ := conveys.key
    refine ⟨conveys.numbers, fun staged => absurd rfl staged, ⟨texts, ?_⟩, ⟨keys, ?_⟩⟩
    · rw [Session.answeredText, queuedTexts_silent _ rfl, accounts_concat]
      exact text.weaken (List.Sublist.refl _) fun staged => absurd rfl staged
    · rw [Session.answeredText, queuedKeys_silent _ rfl, accounts_concat]
      exact key
  | answeredKey written succeeded staged => exact conveys.answeredKey staged
  | asked written succeeded => exact conveys.aside (.asked link.session written succeeded)
  | greeting written succeeded => exact conveys.aside (.greeting link.session written succeeded)
  | ticked =>
    exact conveys.aside
      (Session.Aside.linked link.session link.session.linkState (link.session.waitTicks + 1#16))

/-- A letter leaves its channel. -/
theorem receive {letter : Letter} {rest : List Letter} {next : Session} (conveys : link.Conveys letters)
    (incoming : link.toClient = letter :: rest) (does : Session.Handled letter.packet link.session next) :
    Conveys letters { link.toLine.deliver letter rest link.session next.history with session := next } := by
  have written (after : List Event) :
      (link.toLine.deliver letter rest link.session after).written = link.written := by
    rw [Line.deliver_eq]
  have fewer (after : List Event) :
      (link.toLine.deliver letter rest link.session after).toClient.Sublist link.toClient := by
    rw [Line.deliver_toClient, incoming]
    exact List.sublist_cons_self _ _
  have passed {session : Session} (moved : link.session.Aside session) :
      Conveys letters { link.toLine.deliver letter rest link.session session.history with
        session := session } := by
    obtain ⟨events, grows, areAside⟩ := moved.history
    exact conveys.passes moved (Line.deliver_aside _ letter rest grows areAside) (written _) (fewer _)
  -- The one event behind the history is noted.
  have noted (event : Event) : link.toLine.deliver letter rest link.session (link.session.history ++ [event]) =
      Line.note letter link.session { link.toLine with toClient := rest } event := by
    rw [Line.deliver, List.drop_left]
    rfl
  obtain ⟨texts, text⟩ := conveys.text
  obtain ⟨keys, conveyed⟩ := conveys.key
  cases does with
  | greeted => exact passed (.linked link.session .ready 0#16)
  | greetedAsking sent succeeded =>
    have asks := Session.Aside.asked { link.session with linkState := .ready, waitTicks := 0#16 } sent succeeded
    exact passed ⟨asks.history, asks.staged⟩
  | text isText expected fits =>
    refine ⟨(written _).symm ▸ conveys.numbers, fun _ => rfl,
      ⟨Ledger.accept letter letter.packet.wordsOfText texts, ?_⟩, ⟨keys, ?_⟩⟩
    · rw [incoming] at text
      rw [Session.note, noted, queuedTexts_silent _ rfl, accounts_concat]
      exact text.accept isText rfl
    · have fewerKeys := fewer (link.session.history ++
        [.acceptedText letter.packet.sequence letter.packet.payload])
      rw [Session.note, noted] at *
      rw [queuedKeys_silent _ rfl, accounts_concat]
      exact conveyed.weaken fewerKeys fun staged => ⟨staged, rfl⟩
  | key word isKey expected code known =>
    refine ⟨(written _).symm ▸ conveys.numbers, conveys.length, ⟨texts, ?_⟩,
      ⟨Ledger.accept letter letter.packet.wordOfKey keys, ?_⟩⟩
    · have fewerTexts := fewer (link.session.history ++ [.acceptedKey letter.packet.sequence word
        (link.session.pendingLength ≠ 0)])
      rw [noted] at fewerTexts
      rw [Session.note, noted, queuedTexts_silent _ rfl, accounts_concat]
      exact text.weaken fewerTexts fun staged => ⟨staged, rfl⟩
    · have words : letter.packet.wordOfKey = [word] := by rw [Packet.wordOfKey, known, Option.toList_some]
      rw [incoming] at conveyed
      rw [Session.note, noted, queuedKeys_silent _ rfl, accounts_concat]
      have accepted := @Conveyed.accept _ _ _ _ _ _ _ _ (true = true) _ _ _
        ⟨letter.packet.sequence, (accounts link.session.history).session⟩ conveyed isKey rfl
      rw [words] at accepted ⊢
      exact accepted
  | close sent succeeded => exact passed (.note_closed link.session sent succeeded rfl)
  | ignored => exact passed ⟨⟨[], (List.append_nil _).symm, by simp⟩, .inr ⟨rfl, rfl, rfl, rfl, rfl, rfl⟩⟩

end Conveys

end Link

/-! ## Whole runs -/

/-- The letters that a change of the line put into the channel to the client. -/
def Line.fresh (before after : Line) : List Letter := after.toClient.drop before.toClient.length

namespace Net

section Outside

variable {Outside : Type} (outside : Outside → List Event → Line → Line)

/-- The letters that are written in the turns of a receive loop. -/
def turnLetters : List (Option Outside) → Net → List Letter
  | [], _ => []
  | none :: turns, net => turnLetters turns net.receive
  | some action :: turns, net =>
    net.toLine.fresh (outside action net.client.history net.toLine) ++
      turnLetters turns (net.meanwhile outside action)

/-- The letters that are written during an action. -/
def letters (action : Action Outside) (net : Net) : List Letter :=
  match action with
  | .worker hardware turns =>
    turnLetters outside turns (net.work fun client => hotkeyStage { client with toHardware := hardware })
  | .outside action => net.toLine.fresh (outside action net.client.history net.toLine)
  | .returnedHotkey _ | .prepareUninstall _ | .unread => []

end Outside

end Net

/-- A line and all letters the host wrote on it; the letters are no part of the program. -/
structure Correspondence extends Net where
  letters : List Letter := []

namespace Correspondence

def step (bridge : Bridge) (action : Net.Action LossyAction) (correspondence : Correspondence) :
    Correspondence where
  toNet := correspondence.toNet.apply (LossyAction.perform bridge) action
  letters := correspondence.letters ++ correspondence.toNet.letters (LossyAction.perform bridge) action

end Correspondence

/-- What happens on the line leaves the notes on accepted input alone. -/
theorem LossyAction.perform_notes (bridge : Bridge) (action : LossyAction) (history : List Event) (line : Line) :
    (action.perform bridge history line).texts = line.texts ∧
      (action.perform bridge history line).keys = line.keys := by
  cases action with
  | host action =>
    cases action with
    | serve =>
      change (line.serve bridge history).texts = line.texts ∧ (line.serve bridge history).keys = line.keys
      cases waiting : line.toHost history with
      | nil =>
        rw [line.serve_nil waiting]
        exact ⟨rfl, rfl⟩
      | cons mail rest =>
        obtain ⟨texts, keys⟩ := Line.write_notes (serveAsync bridge mail.packet line.host).1
          { line.judge (accounts history) mail.packet with
            host := (serveAsync bridge mail.packet line.host).2
            arrived := line.arrived + 1
            heard := if mail.packet.type = imeOpenIme then mail.opening else line.heard }
        rw [line.serve_cons waiting, texts, keys, Line.judge_eq]
        exact ⟨rfl, rfl⟩
    | user action => exact Line.write_notes (action.perform bridge line.host).1 _
  | loseToHost | loseToClient => exact ⟨rfl, rfl⟩

/-- What happens on the line numbers the letters as it writes them, and may lose some. -/
theorem LossyAction.perform_fresh (bridge : Bridge) (action : LossyAction) (history : List Event) (line : Line) :
    (action.perform bridge history line).toClient.Sublist
        (line.toClient ++ line.fresh (action.perform bridge history line)) ∧
      List.range (action.perform bridge history line).written =
        List.range line.written ++ (line.fresh (action.perform bridge history line)).map (·.number) := by
  have writes (packet : Option Packet) (before : Line) {after : Line} (same : before.toClient = line.toClient)
      (count : before.written = line.written) (isWrite : after = before.write packet) :
      after.toClient.Sublist (line.toClient ++ line.fresh after) ∧
        List.range after.written = List.range line.written ++ (line.fresh after).map (·.number) := by
    subst isWrite
    rw [Line.fresh, Line.write_toClient, same, List.drop_left]
    refine ⟨List.Sublist.refl _, ?_⟩
    cases packet with
    | none => simp [Line.write, count]
    | some packet => simp [Line.write, count, List.range_succ]
  cases action with
  | host action =>
    cases action with
    | serve =>
      cases waiting : line.toHost history with
      | nil => exact writes none line rfl rfl (line.serve_nil waiting)
      | cons mail rest =>
        refine writes _ _ ?_ ?_ (line.serve_cons waiting)
        · rw [Line.judge_eq]
        · rw [Line.judge_eq]
    | user action =>
      exact writes (action.perform bridge line.host).1
        { line with host := (action.perform bridge line.host).2 } rfl rfl rfl
  | loseToHost =>
    exact writes none { line with arrived := min (line.arrived + 1) (posted history).length } rfl rfl rfl
  | loseToClient =>
    have nothing : line.fresh { line with toClient := line.toClient.tail } = [] := by
      simp [Line.fresh]
    change line.toClient.tail.Sublist (line.toClient ++ line.fresh { line with toClient := line.toClient.tail }) ∧ _
    rw [nothing, List.append_nil]
    exact ⟨List.tail_sublist _, by simp [LossyAction.perform, nothing]⟩

namespace Net

open Link

variable {bridge : Bridge} {net : Net} {letters : List Letter}

theorem work_conveys (does : Tsr → Tsr) (steps : Session.Steps net.client.toSession (does net.client).toSession)
    (conveys : net.link.Conveys letters) : (net.work does).link.Conveys letters := by
  have whole {session : Session} (steps : Session.Steps net.client.toSession session) :
      Conveys letters { net.link with session := session } := by
    induction steps with
    | refl => exact conveys
    | tail _ last inductionHypothesis =>
      have next := Conveys.own last inductionHypothesis
      exact next
  exact whole steps

theorem receive_conveys (conveys : net.link.Conveys letters) : net.receive.link.Conveys letters := by
  simp only [receive]
  split
  · exact conveys
  · split
    · exact conveys
    · rename_i letter rest incoming
      exact conveys.receive incoming (handleParsed_session net.client letter.packet)

theorem meanwhile_conveys (action : LossyAction) (conveys : net.link.Conveys letters) :
    (net.meanwhile (LossyAction.perform bridge) action).link.Conveys
      (letters ++ net.toLine.fresh (action.perform bridge net.client.history net.toLine)) := by
  obtain ⟨fewer, numbers⟩ := action.perform_fresh bridge net.client.history net.toLine
  obtain ⟨texts, text⟩ := conveys.text
  obtain ⟨keys, key⟩ := conveys.key
  obtain ⟨noteTexts, noteKeys⟩ := action.perform_notes bridge net.client.history net.toLine
  refine ⟨?_, conveys.length, ⟨texts, ?_⟩, ⟨keys, ?_⟩⟩
  · rw [List.map_append, conveys.numbers]
    exact numbers.symm
  · exact noteTexts.symm ▸ text.written _ fewer
  · exact noteKeys.symm ▸ key.written _ fewer

theorem turns_conveys (turns : List (Option LossyAction)) (conveys : net.link.Conveys letters) :
    (turns.foldl (turn (LossyAction.perform bridge)) net).link.Conveys
      (letters ++ turnLetters (LossyAction.perform bridge) turns net) := by
  induction turns generalizing net letters with
  | nil => rwa [turnLetters, List.append_nil]
  | cons turn turns inductionHypothesis =>
    cases turn with
    | none => exact inductionHypothesis (receive_conveys conveys)
    | some action =>
      have later := inductionHypothesis (@meanwhile_conveys bridge _ _ action conveys)
      rwa [List.append_assoc] at later

theorem apply_conveys (action : Action LossyAction) (conveys : net.link.Conveys letters) :
    (net.apply (LossyAction.perform bridge) action).link.Conveys
      (letters ++ net.letters (LossyAction.perform bridge) action) := by
  cases action with
  | worker hardware turns =>
    have hotkey := work_conveys (fun client => hotkeyStage { client with toHardware := hardware })
      (hotkeyStage_session { net.client with toHardware := hardware }) conveys
    have served := @turns_conveys bridge _ _ turns hotkey
    have injected := work_conveys injectStage (injectStage_session _) served
    have before := work_conveys openStage (openStage_session _) injected
    have ticks := tickStage_session (net.beforeTick (LossyAction.perform bridge) hardware turns).client
    simp only [apply, link, work, ticks]
    split_ifs with late waiting
    · have next := before.aside (.timedOut _)
      exact next
    · have next := before.own (.ticked waiting (eq_false_of_ne_true late))
      exact next
    · exact before
  | returnedHotkey hardware =>
    rw [Net.letters, List.append_nil]
    exact work_conveys (fun client => (pc98ServiceReturnedHotkey { client with toHardware := hardware }).2)
      (pc98ServiceReturnedHotkey_session { net.client with toHardware := hardware }) conveys
  | prepareUninstall hardware =>
    rw [Net.letters, List.append_nil]
    exact work_conveys (fun client => pc98PrepareUninstall { client with toHardware := hardware })
      (pc98PrepareUninstall_session { net.client with toHardware := hardware }) conveys
  | outside action => exact meanwhile_conveys action conveys
  | unread =>
    rw [Net.letters, List.append_nil, apply]
    split
    · exact @Conveys.quiet _ net.link net.client.toSession { net.toLine with toClient := net.toClient.tail } []
        (List.append_nil _).symm (by simp) (.inr ⟨rfl, rfl, rfl, rfl, rfl⟩) ⟨rfl, rfl⟩ ⟨rfl, rfl⟩ rfl
        (List.tail_sublist _) conveys
    · exact conveys

end Net

/-- Whatever the line loses and whatever the user, the hotkey and the timer do: the accepted
TEXTs, as the history has them, are some of those the host wrote, in the order it wrote
them and each once.  What the queue has got of each of them before the next was accepted
are its first words.  The same holds of the KEYs. -/
theorem letters_arrive_in_order (bridge : Bridge) (modifierMask : Byte) (hardware : Hardware)
    (actions : List (Net.Action LossyAction)) :
    let correspondence := Run.run (Correspondence.step bridge) actions
      { Net.start modifierMask hardware with }
    let history := correspondence.client.history
    correspondence.letters.map (·.number) = List.range correspondence.written ∧
      ((accounts history).texts.reverse.map InputJob.entry = history.filterMap Event.textInput ∧
        Arrive imeText Packet.wordsOfText correspondence.letters correspondence.texts.reverse
          (accounts history).texts.reverse (Link.queuedTexts history)) ∧
      (accounts history).keys.reverse.map InputJob.entry = history.filterMap Event.keyInput ∧
        Arrive imeKey Packet.wordOfKey correspondence.letters correspondence.keys.reverse
          (accounts history).keys.reverse (Link.queuedKeys history) := by
  intro correspondence history
  have conveys : correspondence.toNet.link.Conveys correspondence.letters := by
    refine @Run.invariant _ _ (Correspondence.step bridge)
      (fun correspondence => correspondence.toNet.link.Conveys correspondence.letters)
      (fun correspondence action => Net.apply_conveys action) actions _ ?_
    exact ⟨rfl, fun staged => absurd rfl staged, ⟨[], .empty fun staged => absurd rfl staged⟩,
      ⟨[], .empty Bool.noConfusion⟩⟩
  obtain ⟨texts, text⟩ := conveys.text
  obtain ⟨keys, key⟩ := conveys.key
  obtain ⟨textEntries, keyEntries⟩ := accounts_entries history
  exact ⟨conveys.numbers, ⟨textEntries, text.arrive⟩, keyEntries, key.arrive⟩

end ImeBridge
