import ImeBridge.Link.Order

/-! # Whose turn it is

For each OPEN_IME there is one turn: the ready host has it, then the letter it
writes, then the input the client stages, then the ACK on its way back.  An ACK
answers the last input the host wrote because nobody else can have the turn.
-/

namespace ImeBridge

open Library

/-- The letter answers the OPEN_IME the host last received. -/
def Letter.live (heard : Nat) (letter : Letter) : Bool :=
  letter.packet.type ≠ imePong && letter.opening = heard

def Packet.acks (packet : Packet) : Bool := packet.type = imeTextAck || packet.type = imeKeyAck

/-- What is known of the last input of its kind that the host wrote and that is still
outstanding: on its way, staged with these words left, or acknowledged. -/
structure Slot (out : Option Nat) (numbers : List Nat) (jobs : List InputJob) (flying : Nat → Prop)
    (staged : Prop) (remaining : List Word) (acked : Prop) : Prop where
  flying : ∀ number, flying number → out = some number
  staged : staged → ∃ number older, out = some number ∧ numbers = number :: older ∧
    Ledger.Owes remaining (fun _ => True) (fun _ => True) jobs
  acked : acked → ∃ number, out = some number ∧ Enqueued number numbers jobs

namespace Slot

variable {out : Option Nat} {numbers : List Nat} {jobs : List InputJob} {flying flying' : Nat → Prop}
  {staged staged' acked acked' : Prop} {remaining remaining' : List Word}

theorem weaken (slot : Slot out numbers jobs flying staged remaining acked)
    (fewer : ∀ number, flying' number → flying number)
    (stays : staged' → staged ∧ remaining' = remaining) (answers : acked' → acked) :
    Slot out numbers jobs flying' staged' remaining' acked' := by
  refine ⟨fun number flies => slot.flying number (fewer number flies), fun stages => ?_,
    fun isAcked => slot.acked (answers isAcked)⟩
  obtain ⟨wasStaged, same⟩ := stays stages
  exact same ▸ slot.staged wasStaged

/-- With nothing outstanding there is nothing to know. -/
theorem empty (lands : ∀ number, ¬ flying number) (unstaged : ¬ staged) (unacked : ¬ acked) :
    Slot out numbers jobs flying staged remaining acked :=
  ⟨fun number flies => absurd flies (lands number), fun stages => absurd stages unstaged,
    fun isAcked => absurd isAcked unacked⟩

/-- The client accepts the input that was on its way. -/
theorem accept {number : Nat} (label : Receipt) (last : out = some number)
    (lands : ∀ number, ¬ flying' number) (unacked : ¬ acked') :
    Slot out (number :: numbers) (Ledger.accept label remaining jobs) flying' staged' remaining
      acked' := by
  have owes : Ledger.Owes remaining (fun _ => True) (fun _ => True)
      (Ledger.accept label remaining jobs) :=
    Ledger.owes_accept label remaining trivial fun _ _ => trivial
  exact ⟨fun number flies => absurd flies (lands number),
    fun _ => ⟨number, numbers, last, rfl, owes⟩, fun isAcked => absurd isAcked unacked⟩

/-- A word of the staged input reaches the BIOS queue. -/
theorem deliver {word : Word} (slot : Slot out numbers jobs flying staged (word :: remaining) acked)
    (isStaged : staged) (lands : ∀ number, ¬ flying' number) (unacked : ¬ acked') :
    Slot out numbers (Ledger.deliver word jobs) flying' staged' remaining acked' := by
  obtain ⟨number, older, out, newest, owes⟩ := slot.staged isStaged
  exact ⟨fun number flies => absurd flies (lands number),
    fun _ => ⟨number, older, out, newest, owes.deliver⟩, fun isAcked => absurd isAcked unacked⟩

/-- The staged input has nothing left and is acknowledged. -/
theorem answer (slot : Slot out numbers jobs flying staged [] acked) (isStaged : staged)
    (lands : ∀ number, ¬ flying' number) (unstaged : ¬ staged') :
    Slot out numbers jobs flying' staged' remaining' acked' := by
  refine ⟨fun number flies => absurd flies (lands number), fun stages => absurd stages unstaged,
    fun _ => ?_⟩
  -- The newest note and the newest job are about the same input, and it owes nothing.
  obtain ⟨number, older, out, rfl, job, earlier, rfl, items, _⟩ := slot.staged isStaged
  refine ⟨number, out, (number, job), by simp, rfl, ?_⟩
  rw [Ledger.Job.Whole, items, List.append_nil]

/-- The host writes a letter, which is the outstanding input if it is of this kind. -/
theorem written (letter : Letter) (kind : Byte) (unstaged : ¬ staged) (unacked : ¬ acked) :
    Slot (if letter.packet.type = kind then some letter.number else out) numbers jobs
      (fun number => ∃ found ∈ [letter], found.packet.type = kind ∧ found.number = number)
      staged remaining acked := by
  refine ⟨?_, fun stages => absurd stages unstaged, fun isAcked => absurd isAcked unacked⟩
  rintro number ⟨found, member, isKind, rfl⟩
  cases List.mem_singleton.mp member
  rw [if_pos isKind]

end Slot

namespace Link

/-- The answers to the host's last OPEN_IME that are on their way. -/
def live (link : Link) : List Letter := link.toClient.filter (Letter.live link.heard)

/-- The ACKs on their way. -/
def acks (link : Link) : List Mail :=
  (link.toHost link.session.history).filter fun mail => mail.packet.acks

/-- How many have the turn. -/
def turns (link : Link) : Nat :=
  link.host.imeReady.toNat + link.live.length + (decide (link.session.pendingLength ≠ 0)).toNat +
    link.session.pendingKeyActive.toNat + link.acks.length

section Holders

theorem unstaged {session : Session} (noText : (decide (session.pendingLength ≠ 0)).toNat = 0)
    (noKey : session.pendingKeyActive.toNat = 0) : ¬ session.Staged := by
  rintro (text | key)
  · rw [decide_eq_true text] at noText
    cases noText
  · rw [key] at noKey
    cases noKey

variable {link : Link} (one : link.turns ≤ 1)
include one

theorem alone_of_ready (ready : link.host.imeReady = true) :
    link.live = [] ∧ ¬ link.session.Staged ∧ link.acks = [] := by
  simp only [turns, ready, Bool.toNat_true] at one
  exact ⟨List.length_eq_zero_iff.mp (by omega), unstaged (by omega) (by omega),
    List.length_eq_zero_iff.mp (by omega)⟩

theorem alone_of_live {letter : Letter} (member : letter ∈ link.live) :
    link.host.imeReady = false ∧ link.live = [letter] ∧ ¬ link.session.Staged ∧ link.acks = [] := by
  -- The sum of the turns is at most one, and this letter has one of them.
  have some := List.length_pos_of_mem member
  simp only [turns] at one
  obtain ⟨other, single⟩ := List.length_eq_one_iff.mp (show link.live.length = 1 by omega)
  cases List.mem_singleton.mp (single ▸ member)
  exact ⟨Bool.toNat_eq_zero.mp (by omega), single, unstaged (by omega) (by omega),
    List.length_eq_zero_iff.mp (by omega)⟩

theorem alone_of_text (staged : link.session.pendingLength ≠ 0) :
    link.host.imeReady = false ∧ link.live = [] ∧ link.session.pendingKeyActive = false ∧
      link.acks = [] := by
  simp only [turns, decide_eq_true staged, Bool.toNat_true] at one
  exact ⟨Bool.toNat_eq_zero.mp (by omega), List.length_eq_zero_iff.mp (by omega),
    Bool.toNat_eq_zero.mp (by omega), List.length_eq_zero_iff.mp (by omega)⟩

theorem alone_of_key (staged : link.session.pendingKeyActive = true) :
    link.host.imeReady = false ∧ link.live = [] ∧ link.session.pendingLength = 0 ∧
      link.acks = [] := by
  simp only [turns, staged, Bool.toNat_true] at one
  refine ⟨Bool.toNat_eq_zero.mp (by omega), List.length_eq_zero_iff.mp (by omega), ?_,
    List.length_eq_zero_iff.mp (by omega)⟩
  have noText : (decide (link.session.pendingLength ≠ 0)).toNat = 0 := by omega
  simpa [Bool.toNat_eq_zero] using noText

theorem alone_of_ack {mail : Mail} (member : mail ∈ link.acks) :
    link.host.imeReady = false ∧ link.live = [] ∧ ¬ link.session.Staged ∧ link.acks = [mail] := by
  have some := List.length_pos_of_mem member
  simp only [turns] at one
  obtain ⟨other, single⟩ := List.length_eq_one_iff.mp (show link.acks.length = 1 by omega)
  cases List.mem_singleton.mp (single ▸ member)
  exact ⟨Bool.toNat_eq_zero.mp (by omega), List.length_eq_zero_iff.mp (by omega),
    unstaged (by omega) (by omega), single⟩

end Holders

/-- The outstanding TEXT. -/
def TextSlot (link : Link) : Prop :=
  Slot link.textOut link.texts (accounts link.session.history).texts
    (fun number => ∃ letter ∈ link.live, letter.packet.type = imeText ∧ letter.number = number)
    (link.session.pendingLength ≠ 0)
    (keyWords (link.session.pendingText.drop link.session.pendingOffset))
    (∃ mail ∈ link.acks, mail.packet.type = imeTextAck)

/-- The outstanding KEY. -/
def KeySlot (link : Link) : Prop :=
  Slot link.keyOut link.keys (accounts link.session.history).keys
    (fun number => ∃ letter ∈ link.live, letter.packet.type = imeKey ∧ letter.number = number)
    (link.session.pendingKeyActive = true) [link.session.pendingKey]
    (∃ mail ∈ link.acks, mail.packet.type = imeKeyAck)

structure Acknowledged (link : Link) : Prop where
  one : link.turns ≤ 1
  waits : link.session.Staged →
    link.session.imeActive = true ∧ openings link.session.history = link.heard
  current : ∀ mail ∈ link.acks, mail.opening = link.heard
  length : link.session.pendingLength ≠ 0 →
    link.session.pendingText.length = link.session.pendingLength
  text : link.TextSlot
  key : link.KeySlot
  verdicts : ∀ verdict ∈ link.verdicts, verdict = true

/-- Nobody gets the turn, and what is known of the outstanding input stays true. -/
structure Quiet (link next : Link) : Prop where
  ready : next.host.imeReady = true → link.host.imeReady = true
  live : next.live.Sublist link.live
  heard : next.heard = link.heard
  acks : next.acks = link.acks
  staged : ¬ next.session.Staged ∨
    (next.session.pendingText = link.session.pendingText ∧
      next.session.pendingLength = link.session.pendingLength ∧
      next.session.pendingOffset = link.session.pendingOffset ∧
      next.session.pendingKey = link.session.pendingKey ∧
      next.session.pendingKeyActive = link.session.pendingKeyActive)
  waits : next.session.Staged →
    next.session.imeActive = true ∧ openings next.session.history = link.heard
  textOut : next.textOut = link.textOut
  keyOut : next.keyOut = link.keyOut
  texts : next.texts = link.texts
  keys : next.keys = link.keys
  textJobs : (accounts next.session.history).texts = (accounts link.session.history).texts
  keyJobs : (accounts next.session.history).keys = (accounts link.session.history).keys
  verdicts : next.verdicts = link.verdicts

namespace Quiet

variable {link next : Link} (quiet : link.Quiet next)
include quiet

theorem text_stays (staged : next.session.pendingLength ≠ 0) : link.session.pendingLength ≠ 0 ∧
    next.session.pendingText = link.session.pendingText ∧
    next.session.pendingLength = link.session.pendingLength ∧
    next.session.pendingOffset = link.session.pendingOffset := by
  obtain dropped | ⟨text, length, offset, -, -⟩ := quiet.staged
  · exact absurd (.inl staged) dropped
  · exact ⟨length ▸ staged, text, length, offset⟩

theorem key_stays (staged : next.session.pendingKeyActive = true) :
    link.session.pendingKeyActive = true ∧ next.session.pendingKey = link.session.pendingKey := by
  obtain dropped | ⟨-, -, -, key, active⟩ := quiet.staged
  · exact absurd (.inr staged) dropped
  · exact ⟨active ▸ staged, key⟩

theorem turns_le : next.turns ≤ link.turns := by
  have ready : next.host.imeReady.toNat ≤ link.host.imeReady.toNat := Bool.toNat_le_toNat quiet.ready
  have text : (decide (next.session.pendingLength ≠ 0)).toNat ≤
      (decide (link.session.pendingLength ≠ 0)).toNat :=
    Bool.toNat_le_toNat fun staged => decide_eq_true (quiet.text_stays (of_decide_eq_true staged)).1
  have key : next.session.pendingKeyActive.toNat ≤ link.session.pendingKeyActive.toNat :=
    Bool.toNat_le_toNat fun staged => (quiet.key_stays staged).1
  have live := quiet.live.length_le
  rw [turns, turns, quiet.acks]
  omega

theorem textSlot (before : link.TextSlot) : next.TextSlot := by
  rw [TextSlot, quiet.textOut, quiet.texts, quiet.textJobs, quiet.acks]
  refine before.weaken ?_ (fun staged => ?_) id
  · intro number flies
    obtain ⟨letter, member, kind⟩ := flies
    exact ⟨letter, quiet.live.subset member, kind⟩
  · obtain ⟨wasStaged, text, -, offset⟩ := quiet.text_stays staged
    exact ⟨wasStaged, by rw [text, offset]⟩

theorem keySlot (before : link.KeySlot) : next.KeySlot := by
  rw [KeySlot, quiet.keyOut, quiet.keys, quiet.keyJobs, quiet.acks]
  refine before.weaken ?_ (fun staged => ?_) id
  · intro number flies
    obtain ⟨letter, member, kind⟩ := flies
    exact ⟨letter, quiet.live.subset member, kind⟩
  · obtain ⟨wasStaged, key⟩ := quiet.key_stays staged
    exact ⟨wasStaged, by rw [key]⟩

theorem acknowledged (before : link.Acknowledged) : next.Acknowledged where
  one := quiet.turns_le.trans before.one
  waits staged := quiet.heard ▸ quiet.waits staged
  current := by
    rw [quiet.acks, quiet.heard]
    exact before.current
  length staged := by
    obtain ⟨wasStaged, text, length, -⟩ := quiet.text_stays staged
    rw [text, length]
    exact before.length wasStaged
  text := quiet.textSlot before.text
  key := quiet.keySlot before.key
  verdicts := quiet.verdicts ▸ before.verdicts

end Quiet

end Link

end ImeBridge
