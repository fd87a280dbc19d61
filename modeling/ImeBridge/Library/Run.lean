import Mathlib.Tactic

/-! # Runs of a deterministic machine

A machine is a step function `Action → State → State`; the choices of its
environment are data of the action.  A run is a list of actions.  The invariant
rules below are the only inductions over runs in this development.
-/

namespace Library.Run

variable {State Action : Type*} (step : Action → State → State)

/-- The state a list of actions leads to. -/
def run (actions : List Action) (state : State) : State :=
  actions.foldl (fun state action => step action state) state

@[simp] theorem run_nil (state : State) : run step [] state = state := rfl

@[simp] theorem run_cons (action : Action) (actions : List Action) (state : State) :
    run step (action :: actions) state = run step actions (step action state) := rfl

theorem run_append (first second : List Action) (state : State) :
    run step (first ++ second) state = run step second (run step first state) := by
  simp [run, List.foldl_append]

/-- Every action of the run meets a condition in the state it is taken from. -/
def AllSteps (meets : State → Action → Prop) : List Action → State → Prop
  | [], _ => True
  | action :: actions, state => meets state action ∧ AllSteps meets actions (step action state)

instance decidableAllSteps {meets : State → Action → Prop}
    [∀ state action, Decidable (meets state action)] (actions : List Action) (state : State) :
    Decidable (AllSteps step meets actions state) :=
  match actions with
  | [] => .isTrue trivial
  | action :: actions =>
    have : Decidable (AllSteps step meets actions (step action state)) :=
      decidableAllSteps actions (step action state)
    inferInstanceAs (Decidable (meets state action ∧ AllSteps step meets actions (step action state)))

/-- What one step preserves under the condition, a run whose steps all meet it preserves. -/
theorem invariant_of_allSteps {invariant : State → Prop} {meets : State → Action → Prop}
    (preserved : ∀ state action, invariant state → meets state action →
      invariant (step action state))
    {actions : List Action} {state : State} (start : invariant state)
    (allSteps : AllSteps step meets actions state) : invariant (run step actions state) := by
  induction actions generalizing state with
  | nil => exact start
  | cons action actions inductionHypothesis =>
    exact inductionHypothesis (preserved state action start allSteps.1) allSteps.2

/-- What one step preserves, every run preserves. -/
theorem invariant {invariant : State → Prop}
    (preserved : ∀ state action, invariant state → invariant (step action state))
    (actions : List Action) {state : State} (start : invariant state) :
    invariant (run step actions state) := by
  induction actions generalizing state with
  | nil => exact start
  | cons action actions inductionHypothesis =>
    exact inductionHypothesis (preserved state action start)

/-- Two conditions that agree wherever an invariant holds agree on whole runs, if the
invariant is kept as long as they are met. -/
theorem allSteps_congr {invariant : State → Prop} {meets other : State → Action → Prop}
    {actions : List Action}
    (same : ∀ state, ∀ action ∈ actions, invariant state → (meets state action ↔ other state action))
    (preserved : ∀ state, ∀ action ∈ actions, invariant state → meets state action →
      invariant (step action state)) {state : State} (start : invariant state) :
    AllSteps step meets actions state ↔ AllSteps step other actions state := by
  induction actions generalizing state with
  | nil => rfl
  | cons action actions inductionHypothesis =>
    rw [AllSteps, AllSteps, same state action List.mem_cons_self start]
    refine and_congr_right fun met => ?_
    have next := preserved state action List.mem_cons_self start
      ((same state action List.mem_cons_self start).mpr met)
    exact inductionHypothesis (fun state action member => same state action (.tail _ member))
      (fun state action member => preserved state action (.tail _ member)) next

/-- A count that no step lowers is the same at the end of a run exactly if every step
keeps it. -/
theorem allSteps_iff_count {invariant : State → Prop} {meets : State → Action → Prop} {count : State → Nat}
    (preserved : ∀ state action, invariant state → invariant (step action state))
    (grows : ∀ state action, invariant state → count state ≤ count (step action state))
    (same : ∀ state action, invariant state → (count (step action state) = count state ↔ meets state action))
    (actions : List Action) {state : State} (start : invariant state) :
    count state ≤ count (run step actions state) ∧
      (count (run step actions state) = count state ↔ AllSteps step meets actions state) := by
  induction actions generalizing state with
  | nil => exact ⟨le_rfl, iff_of_true rfl trivial⟩
  | cons action actions inductionHypothesis =>
    obtain ⟨later, rest⟩ := inductionHypothesis (preserved state action start)
    have now := grows state action start
    refine ⟨now.trans later, ?_⟩
    rw [run_cons, AllSteps, ← same state action start, ← rest]
    omega

/-- What a step keeps up exactly if it meets a condition, a run keeps up exactly if all its
steps do. -/
theorem holds_iff_allSteps {invariant holds : State → Prop} {meets : State → Action → Prop}
    (preserved : ∀ state action, invariant state → invariant (step action state))
    (same : ∀ state action, invariant state →
      (holds (step action state) ↔ holds state ∧ meets state action))
    (actions : List Action) {state : State} (start : invariant state) :
    holds (run step actions state) ↔ holds state ∧ AllSteps step meets actions state := by
  induction actions generalizing state with
  | nil => exact (and_iff_left trivial).symm
  | cons action actions inductionHypothesis =>
    rw [run_cons, AllSteps, inductionHypothesis (preserved state action start),
      same state action start, and_assoc]

/-- What each action adds to a quantity at most adds up over a run. -/
theorem run_cost {invariant : State → Prop} {measure : State → Nat} (cost : Action → Nat)
    (costs : ∀ state action, invariant state →
      invariant (step action state) ∧ measure (step action state) ≤ measure state + cost action)
    (actions : List Action) {state : State} (start : invariant state) :
    invariant (run step actions state) ∧
      measure (run step actions state) ≤ measure state + (actions.map cost).sum := by
  induction actions generalizing state with
  | nil => exact ⟨start, le_rfl⟩
  | cons action actions inductionHypothesis =>
    obtain ⟨next, few⟩ := costs state action start
    obtain ⟨last, total⟩ := inductionHypothesis next
    refine ⟨last, total.trans ?_⟩
    rw [List.map_cons, List.sum_cons]
    omega

/-- Repeating one action walks along a family of states, as long as each step of
the family is that action's step. -/
theorem run_replicate (action : Action) (family : Nat → State) (count : Nat)
    (walks : ∀ index, index < count → step action (family index) = family (index + 1)) :
    run step (List.replicate count action) (family 0) = family count := by
  induction count with
  | zero => rfl
  | succ count inductionHypothesis =>
    rw [List.replicate_succ', run_append, inductionHypothesis fun index bound => walks index (by omega)]
    exact walks count (by omega)

/-- A step that keeps an invariant of the state and a list, and adds the action's entries to the list,
does so over a run. -/
theorem run_log {Entry : Type*} {invariant : List Entry → State → Prop} (entries : Action → List Entry)
    (preserved : ∀ log state action, invariant log state →
      invariant (log ++ entries action) (step action state))
    (actions : List Action) {log : List Entry} {state : State} (start : invariant log state) :
    invariant (log ++ actions.flatMap entries) (run step actions state) := by
  induction actions generalizing log state with
  | nil => simpa using start
  | cons action actions inductionHypothesis =>
    rw [List.flatMap_cons, ← List.append_assoc]
    exact inductionHypothesis (preserved log state action start)

/-- An action that lowers a count, done as often as the count says, brings it to nothing. -/
theorem run_drains {invariant : State → Prop} {count : State → Nat} {action : Action}
    (drains : ∀ state, invariant state →
      invariant (step action state) ∧ count (step action state) = count state - 1)
    {state : State} (start : invariant state) :
    invariant (run step (List.replicate (count state) action) state) ∧
      count (run step (List.replicate (count state) action) state) = 0 := by
  induction left : count state generalizing state with
  | zero => exact ⟨start, left⟩
  | succ count inductionHypothesis =>
    obtain ⟨next, lower⟩ := drains state start
    rw [List.replicate_succ, run_cons]
    exact inductionHypothesis next (by omega)

/-- Forward simulation: if each step of one machine is a row of steps of another, then so is a run, one
row for each of its actions. -/
theorem run_simulated {Other Move : Type*} {move : Move → Other → Other} {related : State → Other → Prop}
    {meets : State → Action → Prop}
    (simulates : ∀ state action other, related state other → meets state action →
      ∃ row, related (step action state) (run move row other))
    {actions : List Action} {state : State} {other : Other} (start : related state other)
    (allSteps : AllSteps step meets actions state) :
    ∃ rows : List (List Move), rows.length = actions.length ∧
      ∀ count, related (run step (actions.take count) state) (run move (rows.take count).flatten other) := by
  induction actions generalizing state other with
  | nil => exact ⟨[], rfl, fun count => by simpa using start⟩
  | cons action actions inductionHypothesis =>
    obtain ⟨row, next⟩ := simulates state action other start allSteps.1
    obtain ⟨rows, length, later⟩ := inductionHypothesis next allSteps.2
    refine ⟨row :: rows, by rw [List.length_cons, List.length_cons, length], fun count => ?_⟩
    cases count with
    | zero => exact start
    | succ count =>
      rw [List.take_succ_cons, List.take_succ_cons, List.flatten_cons, run_append, run_cons]
      exact later count

/-! ## Machines that answer -/

section Answers

variable {Concrete Abstract Answer : Type*}

/-- The answers a list of actions gets, and the state it leads to. -/
def respond (answer : Action → State → Answer × State) :
    List Action → State → List Answer × State
  | [], state => ([], state)
  | action :: actions, state =>
    let first := answer action state
    let rest := respond answer actions first.2
    (first.1 :: rest.1, rest.2)

@[simp] theorem respond_nil (answer : Action → State → Answer × State) (state : State) :
    respond answer [] state = ([], state) := rfl

@[simp] theorem respond_cons (answer : Action → State → Answer × State) (action : Action)
    (actions : List Action) (state : State) :
    respond answer (action :: actions) state =
      ((answer action state).1 :: (respond answer actions (answer action state).2).1,
        (respond answer actions (answer action state).2).2) := rfl

theorem respond_append (answer : Action → State → Answer × State) (first second : List Action)
    (state : State) :
    respond answer (first ++ second) state =
      ((respond answer first state).1 ++ (respond answer second (respond answer first state).2).1,
        (respond answer second (respond answer first state).2).2) := by
  induction first generalizing state with
  | nil => rfl
  | cons action first inductionHypothesis =>
    simp only [List.cons_append, respond_cons, inductionHypothesis]

/-- A function of the answers may be applied as they come or at the end. -/
theorem respond_map {Other : Type*} (view : Answer → Other) (answer : Action → State → Answer × State)
    (actions : List Action) (state : State) :
    respond (fun action state => (view (answer action state).1, (answer action state).2)) actions state =
      ((respond answer actions state).1.map view, (respond answer actions state).2) := by
  induction actions generalizing state with
  | nil => rfl
  | cons action actions inductionHypothesis =>
    simp only [respond_cons, inductionHypothesis, List.map_cons]

/-- The states of a machine that answers are those of the machine without its answers. -/
theorem respond_state {answer : Action → State → Answer × State} {step : Action → State → State}
    (same : ∀ action state, (answer action state).2 = step action state) (actions : List Action)
    (state : State) : (respond answer actions state).2 = run step actions state := by
  induction actions generalizing state with
  | nil => rfl
  | cons action actions inductionHypothesis =>
    rw [respond_cons, run_cons, inductionHypothesis, same]

/-- Data refinement: if single actions give equal answers and keep two states
related, so do all lists of actions. -/
theorem respond_refines {concrete : Action → Concrete → Answer × Concrete}
    {abstract : Action → Abstract → Answer × Abstract} {related : Concrete → Abstract → Prop}
    (refines : ∀ action low high, related low high →
      (concrete action low).1 = (abstract action high).1 ∧
        related (concrete action low).2 (abstract action high).2)
    (actions : List Action) {low : Concrete} {high : Abstract} (start : related low high) :
    (respond concrete actions low).1 = (respond abstract actions high).1 ∧
      related (respond concrete actions low).2 (respond abstract actions high).2 := by
  induction actions generalizing low high with
  | nil => exact ⟨rfl, start⟩
  | cons action actions inductionHypothesis =>
    obtain ⟨sameAnswer, next⟩ := refines action low high start
    obtain ⟨sameAnswers, final⟩ := inductionHypothesis next
    exact ⟨by simp only [respond, sameAnswer, sameAnswers], final⟩

end Answers

end Library.Run
