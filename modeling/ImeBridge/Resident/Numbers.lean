import ImeBridge.Library.Counter
import ImeBridge.Resident.Runs

/-! # The numbers of HELLO and OPEN_IME

Both take the next value of one counter, whether or not they go out.  Less than a
full turn of it, the number of an OPEN_IME tells which OPEN_IME it is.
-/

namespace ImeBridge

open Library

/-- The number an event uses up. -/
def Event.number : Event → Option Word
  | .sent packet _ _ =>
    if packet.type = imeHello ∨ packet.type = imeOpenIme then some packet.sequence else none
  | _ => none

/-- The number of an OPEN_IME, out or not. -/
def Event.openNumber : Event → Option Word
  | .sent packet _ _ => if packet.type = imeOpenIme then some packet.sequence else none
  | _ => none

/-- The numbers used so far, oldest first. -/
def numbers (history : List Event) : List Word := history.filterMap Event.number

theorem numbers_below {history longer : List Event} {bound : Nat} (grows : history <+: longer)
    (below : (numbers longer).length < bound) : (numbers history).length < bound :=
  lt_of_le_of_lt (grows.filterMap Event.number).length_le below

/-- Those of the OPEN_IMEs. -/
def opened (history : List Event) : List Word := history.filterMap Event.openNumber

theorem Event.openNumber_cases (event : Event) :
    event.openNumber = none ∨ event.openNumber = event.number := by
  cases event with
  | sent packet =>
    by_cases isOpen : packet.type = imeOpenIme <;> simp [Event.openNumber, Event.number, isOpen]
  | _ => exact .inl rfl

theorem opened_sublist (history : List Event) : (opened history).Sublist (numbers history) := by
  induction history with
  | nil => exact .slnil
  | cons event history inductionHypothesis =>
    rw [opened, numbers, List.filterMap_cons, List.filterMap_cons]
    cases event.openNumber_cases with
    | inl skipped =>
      rw [skipped]
      cases event.number with
      | none => exact inductionHypothesis
      | some number => exact inductionHypothesis.cons number
    | inr same =>
      rw [same]
      cases event.number with
      | none => exact inductionHypothesis
      | some number => exact inductionHypothesis.cons_cons number

/-- The `opening`-th OPEN_IME had this number. -/
def OpenedAs (history : List Event) (opening : Nat) (number : Word) : Prop :=
  0 < opening ∧ (opened history)[opening - 1]? = some number

theorem OpenedAs.later {history longer : List Event} {opening : Nat} {number : Word}
    (openedAs : OpenedAs history opening number) (grows : history <+: longer) :
    OpenedAs longer opening number := by
  obtain ⟨events, rfl⟩ := grows
  have bound := (List.getElem?_eq_some_iff.mp openedAs.2).1
  refine ⟨openedAs.1, ?_⟩
  rw [opened, List.filterMap_append, ← opened, List.getElem?_append_left bound]
  exact openedAs.2

/-- Where no number was used twice, it names one OPEN_IME only. -/
theorem OpenedAs.unique {history : List Event} {opening other : Nat} {number : Word}
    (once : (numbers history).Nodup) (openedAs : OpenedAs history opening number)
    (otherwise : OpenedAs history other number) : opening = other := by
  have bound := (List.getElem?_eq_some_iff.mp openedAs.2).1
  have same := (List.getElem?_inj bound (once.sublist (opened_sublist history))).mp
    (openedAs.2.trans otherwise.2.symm)
  have positive := openedAs.1
  have positive := otherwise.1
  omega

namespace Session

/-- The counter stands at the last number used, and the number a waiting client
compares with is that of its last OPEN_IME. -/
structure Counted (session : Session) : Prop where
  follows : Counter.Follows (numbers session.history) session.sequence
  last : session.imeActive = true → (opened session.history).getLast? = some session.openSequence

namespace Counted

variable {session next : Session}

theorem initial : ({} : Session).Counted := ⟨Counter.follows_nil, by simp⟩

/-- Less than a full turn, no number was used twice. -/
theorem nodup (counted : session.Counted) (below : (numbers session.history).length < 2 ^ 16) :
    (numbers session.history).Nodup := counted.follows.nodup below

/-- Events without a number leave everything as it is. -/
theorem quiet (counted : session.Counted) {events : List Event}
    (grows : next.history = session.history ++ events)
    (silent : ∀ event ∈ events, event.number = none)
    (sequence : next.sequence = session.sequence)
    (waits : next.imeActive = true →
      session.imeActive = true ∧ next.openSequence = session.openSequence) : next.Counted := by
  have noNumbers : numbers next.history = numbers session.history := by
    simp [grows, numbers, List.filterMap_eq_nil_iff.mpr silent]
  -- An OPEN_IME uses up a number, so there is none of these either.
  have noOpens : opened next.history = opened session.history := by
    have silent : ∀ event ∈ events, event.openNumber = none := by
      intro event member
      cases event.openNumber_cases with
      | inl skipped => exact skipped
      | inr same => rw [same, silent event member]
    simp [grows, opened, List.filterMap_eq_nil_iff.mpr silent]
  refine ⟨?_, fun active => ?_⟩
  · rw [noNumbers, sequence]
    exact counted.follows
  · obtain ⟨active, number⟩ := waits active
    rw [noOpens, number]
    exact counted.last active

theorem asked (counted : session.Counted) (written : Nat) (succeeded : Bool) :
    (session.asked written succeeded).Counted := by
  have numbered : numbers (session.asked written succeeded).history =
      numbers session.history ++ [session.sequence + 1#16] := by
    rw [asked_history, numbers, List.filterMap_append]
    cases succeeded <;> rfl
  refine ⟨?_, fun active => ?_⟩
  · rw [numbered]
    cases succeeded <;> exact counted.follows.next
  · cases succeeded with
    | false => simp [Session.asked, Session.reset] at active
    | true => simp [opened, Event.openNumber, Session.asked, Session.note]

theorem greeting (counted : session.Counted) (written : Nat) (succeeded : Bool)
    (idle : session.imeActive = false) : (session.greeting written succeeded).Counted := by
  have numbered : numbers (session.greeting written succeeded).history =
      numbers session.history ++ [session.sequence + 1#16] := by
    rw [greeting_history, numbers, List.filterMap_append]
    cases succeeded <;> rfl
  refine ⟨?_, fun active => ?_⟩
  · rw [numbered]
    cases succeeded <;> exact counted.follows.next
  · cases succeeded <;> simp [Session.greeting, Session.note, Session.reset, idle] at active

theorem note_quiet (counted : session.Counted) {event : Event} (silent : event.number = none)
    (history : next.history = session.history ++ [event]) (sequence : next.sequence = session.sequence)
    (active : next.imeActive = true → session.imeActive = true)
    (number : next.openSequence = session.openSequence) : next.Counted :=
  counted.quiet history (by simpa using silent) sequence fun waits => ⟨active waits, number⟩

theorem closed (counted : session.Counted) (written : Nat) (succeeded : Bool) :
    (session.closed written succeeded).Counted := by
  refine counted.quiet rfl ?_ rfl (fun active => by simp [Session.closed] at active)
  cases link : session.linkState with
  | closed => simp [farewell, link]
  | helloWait => simp [farewell, link, Event.number]
  | ready => simp [farewell, link, Event.number]

theorem timedOut (counted : session.Counted) : session.timedOut.Counted :=
  counted.note_quiet rfl rfl rfl (fun active => absurd active Bool.noConfusion) rfl

theorem handled {packet : Packet} (does : Handled packet session next) (counted : session.Counted) :
    next.Counted := by
  cases does with
  | greeted => exact ⟨counted.follows, counted.last⟩
  | greetedAsking written succeeded =>
    have linked : ({ session with linkState := .ready, waitTicks := 0#16 } : Session).Counted :=
      ⟨counted.follows, counted.last⟩
    exact linked.asked written succeeded
  | text | key => exact counted.note_quiet rfl rfl rfl id rfl
  | close written succeeded =>
    have noted : (session.note (.acceptedClose packet.sequence)).Counted :=
      counted.note_quiet rfl rfl rfl id rfl
    exact noted.closed written succeeded
  | ignored => exact counted

theorem step (does : Step session next) (counted : session.Counted) : next.Counted := by
  cases does with
  | turnedOn | queuedText => exact counted.note_quiet rfl rfl rfl id rfl
  | turnedOff written succeeded =>
    have noted : (session.note (.toggled false)).Counted := counted.note_quiet rfl rfl rfl id rfl
    exact noted.closed written succeeded
  | shutDown written succeeded => exact counted.closed written succeeded
  | answeredText =>
    refine counted.quiet rfl ?_ rfl (fun active => by simp [answeredText] at active)
    simp [Event.number]
  | answeredKey =>
    refine counted.quiet rfl ?_ rfl (fun active => by simp [answeredKey] at active)
    simp [Event.number]
  | asked written succeeded => exact counted.asked written succeeded
  | greeting written succeeded request idle => exact counted.greeting written succeeded idle
  | ticked => exact ⟨counted.follows, counted.last⟩

/-- The number a waiting client compares with is that of its last OPEN_IME. -/
theorem waits_for_last (counted : session.Counted) (active : session.imeActive = true) :
    OpenedAs session.history (opened session.history).length session.openSequence := by
  have last := counted.last active
  rw [List.getLast?_eq_getElem?] at last
  have bound := (List.getElem?_eq_some_iff.mp last).1
  exact ⟨by omega, last⟩

end Counted

end Session

end ImeBridge
