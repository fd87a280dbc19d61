import ImeBridge.Library.History

/-! # Permits that are good for one use

Some events of a history grant a permit and some use one; both carry a label.  A new
grant replaces the one before it.
-/

namespace Library.Permit

variable {Event Label : Type*} {grants uses : Event → Option Label} {history : List Event} {event : Event}
  {label : Label}

/-- The last grant has this label, and since then nothing was used. -/
def Standing (grants uses : Event → Option Label) (history : List Event) (label : Label) : Prop :=
  ∃ earlier granted later, history = earlier ++ granted :: later ∧ grants granted = some label ∧
    ∀ event ∈ later, grants event = none ∧ uses event = none

/-- Each use is of the permit that stands. -/
def UsedOnce (grants uses : Event → Option Label) (history : List Event) : Prop :=
  History.Everywhere (fun before event => ∀ label, uses event = some label →
    Standing grants uses before label) history

theorem standing_grant (granted : grants event = some label) : Standing grants uses (history ++ [event]) label :=
  ⟨history, event, [], rfl, granted, by simp⟩

/-- The event that came last is the grant, or the permit stood before it. -/
theorem Standing.concat (standing : Standing grants uses (history ++ [event]) label) :
    grants event = some label ∨
      (grants event = none ∧ uses event = none) ∧ Standing grants uses history label := by
  obtain ⟨earlier, granted, later, split, isGrant, quiet⟩ := standing
  obtain ⟨_, rfl, _⟩ | ⟨between, rfl, before⟩ := History.concat_split split
  · exact .inl isGrant
  · exact .inr ⟨quiet event (by simp), earlier, granted, between, before, isGrant,
      fun other member => quiet other (by simp [member])⟩

/-- Events that neither grant nor use leave the permit as it is. -/
theorem standing_append {events : List Event}
    (quiet : ∀ event ∈ events, grants event = none ∧ uses event = none) :
    Standing grants uses (history ++ events) label ↔ Standing grants uses history label := by
  induction events using List.reverseRecOn with
  | nil => rw [List.append_nil]
  | append_singleton events last inductionHypothesis =>
    have before := inductionHypothesis fun event member => quiet event (by simp [member])
    obtain ⟨noGrant, noUse⟩ := quiet last (by simp)
    rw [← List.append_assoc, ← before]
    constructor
    · intro standing
      cases standing.concat with
      | inl granted => simp [noGrant] at granted
      | inr earlier => exact earlier.2
    · rintro ⟨earlier, granted, later, split, isGrant, still⟩
      refine ⟨earlier, granted, later ++ [last], by simp [split], isGrant, fun other member => ?_⟩
      cases List.mem_append.mp member with
      | inl early => exact still other early
      | inr late => exact List.mem_singleton.mp late ▸ ⟨noGrant, noUse⟩

theorem not_standing_use {used : Label} (noGrant : grants event = none) (isUse : uses event = some used) :
    ¬ Standing grants uses (history ++ [event]) label := by
  intro standing
  cases standing.concat with
  | inl granted => simp [noGrant] at granted
  | inr earlier => simp [isUse] at earlier

theorem usedOnce_concat : UsedOnce grants uses (history ++ [event]) ↔
    UsedOnce grants uses history ∧ ∀ label, uses event = some label → Standing grants uses history label :=
  History.everywhere_concat

theorem usedOnce_append {events : List Event} (noUse : ∀ event ∈ events, uses event = none) :
    UsedOnce grants uses (history ++ events) ↔ UsedOnce grants uses history := by
  induction events using List.reverseRecOn with
  | nil => rw [List.append_nil]
  | append_singleton events last inductionHypothesis =>
    have before := inductionHypothesis fun event member => noUse event (by simp [member])
    rw [← List.append_assoc, usedOnce_concat, before]
    simp [noUse last (by simp)]

theorem usedOnce_use {used : Label} (isUse : uses event = some used) :
    UsedOnce grants uses (history ++ [event]) ↔
      UsedOnce grants uses history ∧ Standing grants uses history used := by
  simp [usedOnce_concat, isUse]

end Library.Permit
