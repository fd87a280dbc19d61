import Mathlib.Tactic

/-! # Lines of a stream

Elements that end a line split a stream into lines, the last one ended by nothing.  A
reader that gathers a line element by element and treats it where it ends does the same,
wherever its input was cut.
-/

namespace Library.Lines

variable {Element State : Type*} (ends : Element → Bool) (treat : State → List Element → State)

/-- One element goes to the open line or ends it. -/
def read (opened : List Element × State) (value : Element) : List Element × State :=
  if ends value then ([], treat opened.2 opened.1) else (opened.1 ++ [value], opened.2)

/-- What is open when the stream ends is a line too. -/
def close (opened : List Element × State) : State := treat opened.2 opened.1

/-- All lines, one after the other. -/
def treatAll (content : List Element) (state : State) : State :=
  (content.splitOnP ends).foldl treat state

theorem modifyHead_self (lines : List (List Element)) : lines.modifyHead ([] ++ ·) = lines := by
  cases lines <;> rfl

theorem close_read (content line : List Element) (state : State) :
    close treat (content.foldl (read ends treat) (line, state)) =
      ((content.splitOnP ends).modifyHead (line ++ ·)).foldl treat state := by
  induction content generalizing line state with
  | nil => simp [close]
  | cons value content inductionHypothesis =>
    rw [List.foldl_cons, List.splitOnP_cons_eq_if_modifyHead]
    -- The open line is the head of the lines to come.
    by_cases ending : ends value = true
    · have closes : read ends treat (line, state) value = ([], treat state line) := if_pos ending
      rw [if_pos ending, closes, inductionHypothesis, modifyHead_self]
      simp
    · have goesOn : read ends treat (line, state) value = (line ++ [value], state) := if_neg ending
      rw [if_neg ending, goesOn, inductionHypothesis, List.modifyHead_modifyHead]
      simp [Function.comp_def]

/-- A reader that closes its last line treats all of them. -/
theorem close_read_nil (content : List Element) (state : State) :
    close treat (content.foldl (read ends treat) ([], state)) = treatAll ends treat content state := by
  rw [close_read, modifyHead_self, treatAll]

end Library.Lines
