import Mathlib.Tactic

/-! # Properties of every event in a history

A history is a list of events, oldest first.  `Everywhere` says that each of its
events is right for the events before it; it grows one event at a time.
-/

namespace Library.History

variable {Event : Type*} {right : List Event → Event → Prop} {history : List Event}

/-- Each event of the history is right after the events before it. -/
def Everywhere (right : List Event → Event → Prop) (history : List Event) : Prop :=
  ∀ before event after, history = before ++ event :: after → right before event

theorem everywhere_nil : Everywhere right [] := by
  intro before event after split
  simp at split

/-- Where one item is added at the end, each item is that one or stands before it. -/
theorem concat_split {Item : Type*} {items before after : List Item} {last found : Item}
    (split : items ++ [last] = before ++ found :: after) :
    (before = items ∧ found = last ∧ after = []) ∨
      ∃ between, after = between ++ [last] ∧ items = before ++ found :: between := by
  cases after using List.reverseRecOn with
  | nil =>
    obtain ⟨same, ends⟩ := List.append_inj' split rfl
    cases ends
    exact .inl ⟨same.symm, rfl, rfl⟩
  | append_singleton between newest =>
    rw [← List.cons_append, ← List.append_assoc] at split
    obtain ⟨same, ends⟩ := List.append_inj' split rfl
    cases ends
    exact .inr ⟨between, rfl, same⟩

theorem everywhere_concat {event : Event} :
    Everywhere right (history ++ [event]) ↔ Everywhere right history ∧ right history event := by
  constructor
  · intro all
    refine ⟨fun before earlier after split => all before earlier (after ++ [event]) ?_, ?_⟩
    · simp [split]
    · exact all history event [] rfl
  · rintro ⟨all, last⟩ before found after split
    obtain ⟨rfl, rfl, _⟩ | ⟨between, _, earlier⟩ := concat_split split
    · exact last
    · exact all before found between earlier

/-- Events that are right after any events of the history and each other. -/
theorem everywhere_append {added : List Event} (all : Everywhere right history)
    (quiet : ∀ before, ∀ event ∈ added, right before event) : Everywhere right (history ++ added) := by
  induction added generalizing history with
  | nil => simpa using all
  | cons event added inductionHypothesis =>
    rw [List.append_cons]
    refine inductionHypothesis (everywhere_concat.mpr ⟨all, quiet _ _ (by simp)⟩) ?_
    exact fun before later member => quiet before later (by simp [member])

/-- If all other events are right after any events, it is the one between them that counts. -/
theorem everywhere_between {first later : List Event} {event : Event}
    (before : ∀ history, ∀ event ∈ first, right history event)
    (after : ∀ history, ∀ event ∈ later, right history event) :
    Everywhere right (first ++ event :: later) ↔ right first event := by
  refine ⟨fun all => all first event later rfl, fun rightly => ?_⟩
  rw [List.append_cons]
  have quiet := everywhere_append everywhere_nil before
  rw [List.nil_append] at quiet
  exact everywhere_append (everywhere_concat.mpr ⟨quiet, rightly⟩) after

theorem Everywhere.earlier {longer : List Event} (all : Everywhere right longer)
    (grows : history <+: longer) : Everywhere right history := by
  obtain ⟨added, rfl⟩ := grows
  exact fun before event after split => all before event (after ++ added) (by simp [split])

theorem everywhere_iff_take : Everywhere right history ↔
    ∀ index : Fin history.length, right (history.take index) history[index] := by
  constructor
  · intro all index
    refine all _ _ (history.drop (index + 1)) ?_
    simp
  · rintro all before event after rfl
    simpa using all ⟨before.length, by simp⟩

instance [∀ before event, Decidable (right before event)] : Decidable (Everywhere right history) :=
  decidable_of_iff _ everywhere_iff_take.symm

end Library.History
