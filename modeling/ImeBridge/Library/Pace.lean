import Mathlib.Tactic
import ImeBridge.Library.Scanner

/-! # Going through a list piece by piece

A reader that takes a list apart from the front looks at what lies ahead to say how long
the next piece is.  It stands at the positions between its pieces, and passes over the
others.
-/

namespace Library

/-- How many elements the next piece has; there is always one. -/
structure Pace (Element : Type*) where
  step : List Element → Nat
  positive : ∀ ahead, 0 < step ahead

namespace Pace

variable {Element : Type*} {pace : Pace Element} {elements : List Element} {position : Nat}

/-- The positions between the pieces. -/
inductive Stands (pace : Pace Element) (elements : List Element) : Nat → Prop
  | start : pace.Stands elements 0
  | next {position : Nat} (stands : pace.Stands elements position) :
      pace.Stands elements (position + pace.step (elements.drop position))

/-- Behind the first piece one goes on as if the list began there. -/
theorem stands_iff (ahead : 0 < position) : pace.Stands elements position ↔
    pace.step elements ≤ position ∧
      pace.Stands (elements.drop (pace.step elements)) (position - pace.step elements) := by
  constructor
  · intro stands
    induction stands with
    | start => omega
    | @next earlier stands inductionHypothesis =>
      cases earlier with
      | zero => simpa using Stands.start
      | succ earlier =>
        obtain ⟨inside, behind⟩ := inductionHypothesis (Nat.succ_pos _)
        have further := behind.next
        rw [List.drop_drop, Nat.add_sub_cancel' inside] at further
        refine ⟨by omega, ?_⟩
        rwa [Nat.sub_add_comm inside]
  · rintro ⟨inside, behind⟩
    obtain ⟨rest, rfl⟩ := Nat.exists_eq_add_of_le inside
    rw [Nat.add_sub_cancel_left] at behind
    clear inside ahead
    induction behind with
    | start => simpa using (Stands.start : pace.Stands elements 0).next
    | next stands inductionHypothesis =>
      rw [List.drop_drop, ← Nat.add_assoc]
      exact inductionHypothesis.next

/-- The same within a number of pieces. -/
def standsWithin (pace : Pace Element) : Nat → List Element → Nat → Bool
  | 0, _, position => position = 0
  | pieces + 1, elements, position => position = 0 ||
    (pace.step elements ≤ position &&
      standsWithin pace pieces (elements.drop (pace.step elements)) (position - pace.step elements))

theorem standsWithin_iff {pieces : Nat} (enough : position ≤ pieces) :
    pace.standsWithin pieces elements position = true ↔ pace.Stands elements position := by
  induction pieces generalizing elements position with
  | zero =>
    obtain rfl : position = 0 := Nat.le_zero.mp enough
    exact iff_of_true rfl .start
  | succ pieces inductionHypothesis =>
    cases position with
    | zero => exact iff_of_true rfl .start
    | succ position =>
      have positive := pace.positive elements
      have behind := @inductionHypothesis (elements.drop (pace.step elements))
        (position + 1 - pace.step elements) (by omega)
      rw [stands_iff (Nat.succ_pos position), ← behind]
      simp [standsWithin]

instance : Decidable (pace.Stands elements position) :=
  decidable_of_iff _ (standsWithin_iff (Nat.le_refl position))

/-- Two paces that agree before a position stand there or pass over it alike. -/
theorem stands_congr {other : Pace Element}
    (agree : ∀ earlier < position, pace.step (elements.drop earlier) = other.step (elements.drop earlier)) :
    pace.Stands elements position ↔ other.Stands elements position := by
  induction position using Nat.strong_induction_on generalizing elements with
  | h position inductionHypothesis =>
    cases position with
    | zero => exact iff_of_true .start .start
    | succ position =>
      have first : pace.step elements = other.step elements := agree 0 (Nat.succ_pos _)
      have positive := pace.positive elements
      rw [stands_iff (Nat.succ_pos _), stands_iff (Nat.succ_pos _), ← first]
      refine and_congr_right fun inside => ?_
      refine inductionHypothesis _ (by omega) fun earlier below => ?_
      rw [List.drop_drop]
      exact agree _ (by omega)

/-- Where all pieces are single elements, one stands everywhere. -/
theorem stands_of_ones (inside : ∀ earlier < position, pace.step (elements.drop earlier) = 1) :
    pace.Stands elements position := by
  induction position with
  | zero => exact .start
  | succ position inductionHypothesis =>
    have here := inductionHypothesis fun earlier below => inside earlier (Nat.lt_succ_of_lt below)
    have further := here.next
    rwa [inside position (Nat.lt_succ_self position)] at further

end Pace

/-! ## The pace of a scanner -/

namespace Scanner

variable {Element Item : Type*} {scanner : Scanner Element Item} {buffer : List Element}

/-- A turn deletes a piece. -/
def pace (scanner : Scanner Element Item) : Pace Element where
  step := fun buffer => ((scanner.turn buffer).map Prod.snd).getD 1
  positive := by
    intro buffer
    cases turned : scanner.turn buffer with
    | none => exact Nat.one_pos
    | some outcome => exact (scanner.deletes turned).1

/-- If the scanner waits nowhere before a position, it takes what is there exactly if it
stands there. -/
theorem mem_taken_iff_stands {position count : Nat} {item : Item}
    (found : scanner.turn (buffer.drop position) = some (some item, count))
    (goesOn : ∀ earlier < position, scanner.turn (buffer.drop earlier) ≠ none) :
    (position, item) ∈ scanner.taken buffer ↔ scanner.pace.Stands buffer position := by
  induction buffer using @scan_induction _ _ scanner generalizing position with
  | waiting buffer waits =>
    cases position with
    | zero =>
      rw [List.drop_zero, waits] at found
      contradiction
    | succ position => exact absurd waits (goesOn 0 (Nat.succ_pos _))
  | turning buffer other deleted turned inductionHypothesis =>
    have positive := (scanner.deletes turned).1
    have step : scanner.pace.step buffer = deleted := by simp [pace, turned]
    rw [taken_turn turned, List.mem_append]
    cases position with
    | zero =>
      rw [List.drop_zero, turned] at found
      cases found
      exact iff_of_true (.inl (by simp)) .start
    | succ position =>
      have notFirst : ¬ (position + 1, item) ∈ other.toList.map fun item => (0, item) := by
        simp
      rw [Pace.stands_iff (Nat.succ_pos _), step, or_iff_right notFirst]
      by_cases inside : deleted ≤ position + 1
      · have rest : (position + 1, item) ∈ ((scanner.taken (buffer.drop deleted)).map
            fun taken => (taken.1 + deleted, taken.2)) ↔
            (position + 1 - deleted, item) ∈ scanner.taken (buffer.drop deleted) := by
          rw [List.mem_map]
          constructor
          · rintro ⟨⟨distance, other⟩, member, same⟩
            rw [Prod.mk.injEq] at same
            rwa [← same.1, ← same.2, Nat.add_sub_cancel]
          · intro member
            exact ⟨_, member, by rw [Nat.sub_add_cancel inside]⟩
        rw [rest, and_iff_right inside]
        apply inductionHypothesis
        · rwa [List.drop_drop, Nat.add_sub_cancel' inside]
        · intro earlier below
          rw [List.drop_drop]
          exact goesOn _ (by omega)
      · refine iff_of_false (fun member => ?_) fun both => inside both.1
        obtain ⟨taken, _, same⟩ := List.mem_map.mp member
        rw [Prod.mk.injEq] at same
        omega

end Scanner

end Library
