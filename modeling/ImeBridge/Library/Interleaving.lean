import Mathlib.Tactic

/-! # Two orders in one

A list that grows at its end, each item added to one of two other lists as well.  Both
keep their order in it, and together they are all of it.
-/

namespace Library

variable {Item : Type*}

/-- The third list has the items of the other two, those of each in their order. -/
inductive Interleaved : List Item → List Item → List Item → Prop where
  | nil : Interleaved [] [] []
  | left {first second whole : List Item} (item : Item) (before : Interleaved first second whole) :
      Interleaved (first ++ [item]) second (whole ++ [item])
  | right {first second whole : List Item} (item : Item) (before : Interleaved first second whole) :
      Interleaved first (second ++ [item]) (whole ++ [item])

namespace Interleaved

variable {first second whole : List Item}

theorem lefts (interleaved : Interleaved first second whole) (items : List Item) :
    Interleaved (first ++ items) second (whole ++ items) := by
  induction items using List.reverseRecOn with
  | nil => simpa using interleaved
  | append_singleton items item inductionHypothesis =>
    rw [← List.append_assoc, ← List.append_assoc]
    exact .left item inductionHypothesis

theorem rights (interleaved : Interleaved first second whole) (items : List Item) :
    Interleaved first (second ++ items) (whole ++ items) := by
  induction items using List.reverseRecOn with
  | nil => simpa using interleaved
  | append_singleton items item inductionHypothesis =>
    rw [← List.append_assoc, ← List.append_assoc]
    exact .right item inductionHypothesis

end Interleaved

end Library
