import Mathlib.Tactic

/-! # Progress along a sequence of states

A rank that falls as long as something has not happened bounds when it happens; a
phase that counts its steps ends at a known one.  Only the first `limit` steps are
known to behave.
-/

namespace Library.Progress

variable {State : Type*} {state : Nat → State} {limit : Nat}

/-- A rank that falls until `done` holds bounds the first state in which it does. -/
theorem exists_done {done : State → Prop} (rank : State → Nat)
    (falls : ∀ index < limit, ¬ done (state index) →
      done (state (index + 1)) ∨ rank (state (index + 1)) < rank (state index)) (start : Nat)
    (within : start + rank (state start) + 1 ≤ limit) :
    ∃ count ≤ rank (state start) + 1, done (state (start + count)) := by
  induction bound : rank (state start) using Nat.strong_induction_on generalizing start with
  | _ total inductionHypothesis =>
    by_cases now : done (state start)
    · exact ⟨0, by omega, now⟩
    · rcases falls start (by omega) now with next | lower
      · exact ⟨1, by omega, next⟩
      · obtain ⟨count, soon, later⟩ := inductionHypothesis (rank (state (start + 1)))
          (bound ▸ lower) (start + 1) (by omega) rfl
        refine ⟨count + 1, by omega, ?_⟩
        rwa [show start + (count + 1) = start + 1 + count by omega]

/-- A phase with a counter goes on for as many states as its last count allows. -/
theorem phase_lasts {phase : Nat → State → Prop} {first last : Nat} {start : Nat}
    (begins : phase first (state start))
    (counts : ∀ index < limit, ∀ count < last, phase count (state index) →
      phase (count + 1) (state (index + 1))) :
    ∀ more, first + more ≤ last → start + more ≤ limit →
      phase (first + more) (state (start + more)) := by
  intro more
  induction more with
  | zero => exact fun _ _ => begins
  | succ more inductionHypothesis =>
    intro within early
    exact counts (start + more) (by omega) (first + more) (by omega)
      (inductionHypothesis (by omega) (by omega))

end Library.Progress
