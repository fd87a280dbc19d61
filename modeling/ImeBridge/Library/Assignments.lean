import ImeBridge.Library.History

/-! # The last assignment stands

A list is read in order, and some of its items assign a value.  A reader that takes more
items for assignments than are valid is wrong exactly about the last of those it takes.
-/

namespace Library.Assignments

variable {Item Value : Type*} {assigns accepts valid : Item → Option Value} {items : List Item}
  {initial : Value}

/-- The value that the last assigning item assigns, or else the initial one. -/
def last (assigns : Item → Option Value) (items : List Item) (initial : Value) : Value :=
  (items.filterMap assigns).getLast?.getD initial

@[simp] theorem last_nil : last assigns [] initial = initial := rfl

theorem last_concat (item : Item) :
    last assigns (items ++ [item]) initial = (assigns item).getD (last assigns items initial) := by
  unfold last
  cases assigned : assigns item <;> simp [assigned]

/-- Assigning in order leaves what the last item assigns. -/
theorem foldl_eq_last (items : List Item) (initial : Value) :
    items.foldl (fun value item => (assigns item).getD value) initial = last assigns items initial := by
  induction items using List.reverseRecOn with
  | nil => rfl
  | append_singleton items item inductionHypothesis =>
    rw [List.foldl_concat, inductionHypothesis, last_concat]

/-- Whether the last item that is taken for an assignment makes no difference, if it is none:
it assigns what the items before it leave. -/
theorem last_eq_iff (more : ∀ item value, valid item = some value → accepts item = some value) :
    last accepts items initial = last valid items initial ↔
      ∀ before item after value, items = before ++ item :: after → accepts item = some value →
        valid item = none → (∀ later ∈ after, accepts later = none) → value = last valid before initial := by
  induction items using List.reverseRecOn with
  | nil => simp
  | append_singleton items item inductionHypothesis =>
    rw [last_concat, last_concat]
    cases accepted : accepts item with
    | none =>
      have invalid : valid item = none := by
        rw [Option.eq_none_iff_forall_ne_some]
        intro value assigned
        rw [more item value assigned] at accepted
        contradiction
      rw [invalid, Option.getD_none, Option.getD_none, inductionHypothesis]
      constructor
      · intro right before found after value split taken wrong quiet
        obtain ⟨_, rfl, _⟩ | ⟨between, rfl, earlier⟩ := History.concat_split split
        · rw [accepted] at taken
          contradiction
        · refine right before found between value earlier taken wrong fun later member => ?_
          exact quiet later (List.mem_append_left _ member)
      · intro right before found after value split taken wrong quiet
        refine right before found (after ++ [item]) value (by simp [split]) taken wrong fun later member => ?_
        rcases List.mem_append.mp member with earlier | newest
        · exact quiet later earlier
        · rwa [List.mem_singleton.mp newest]
    | some value =>
      -- Nothing behind this item assigns, and nothing before it counts.
      have alone : ∀ before found after, items ++ [item] = before ++ found :: after →
          (∀ later ∈ after, accepts later = none) → before = items ∧ found = item := by
        intro before found after split quiet
        obtain ⟨rfl, rfl, _⟩ | ⟨between, rfl, _⟩ := History.concat_split split
        · exact ⟨rfl, rfl⟩
        · have none := quiet item (by simp)
          rw [accepted] at none
          contradiction
      cases assigned : valid item with
      | some other =>
        have same : some value = some other := accepted.symm.trans (more item other assigned)
        refine iff_of_true (Option.some.inj same) fun before found after _ split _ wrong quiet => ?_
        obtain ⟨rfl, rfl⟩ := alone before found after split quiet
        rw [assigned] at wrong
        contradiction
      | none =>
        rw [Option.getD_some, Option.getD_none]
        constructor
        · intro right before found after other split taken _ quiet
          obtain ⟨rfl, rfl⟩ := alone before found after split quiet
          rw [accepted] at taken
          cases taken
          exact right
        · intro right
          exact right items item [] value rfl accepted assigned (by simp)

end Library.Assignments
