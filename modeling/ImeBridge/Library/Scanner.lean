import Mathlib.Tactic
import ImeBridge.Library.Run

/-! # Scanners of a growing buffer

A loop that takes items from the front of a buffer, turn by turn, until it has to wait
for more.  Its turns are final: what a turn does to a buffer it does to every longer one.
Such a loop comes to its end, and what it takes does not depend on how the buffer came
to be filled.
-/

namespace Library

/-- A turn takes an item and deletes its elements, or deletes one element that begins
none; `none` waits for more. -/
structure Scanner (Element Item : Type*) where
  turn : List Element → Option (Option Item × Nat)
  size : Item → Nat
  takes : ∀ {buffer item count}, turn buffer = some (some item, count) → count = size item
  skips : ∀ {buffer count}, turn buffer = some (none, count) → count = 1
  deletes : ∀ {buffer item count}, turn buffer = some (item, count) →
    0 < count ∧ count ≤ buffer.length
  final : ∀ {buffer outcome}, turn buffer = some outcome → ∀ more, turn (buffer ++ more) = some outcome

namespace Scanner

variable {Element Item : Type*} (scanner : Scanner Element Item)

/-- The items taken, each with the number of elements that were in the buffer at that
turn, and the elements left. -/
def scan (buffer : List Element) : List (Nat × Item) × List Element :=
  match _ : scanner.turn buffer with
  | none => ([], buffer)
  | some (item, count) =>
    let rest := scan (buffer.drop count)
    (item.toList.map (fun item => (buffer.length, item)) ++ rest.1, rest.2)
termination_by buffer.length
decreasing_by
  rename_i turned
  have deletes := scanner.deletes turned
  simp only [List.length_drop]
  omega

/-- The same within a number of turns; `none` if these do not do. -/
def scanWithin : Nat → List Element → Option (List (Nat × Item) × List Element)
  | turns, buffer =>
    match scanner.turn buffer with
    | none => some ([], buffer)
    | some (item, count) =>
      match turns with
      | 0 => none
      | turns + 1 => (scanWithin turns (buffer.drop count)).map fun rest =>
        (item.toList.map (fun item => (buffer.length, item)) ++ rest.1, rest.2)

/-- Elements are put behind the buffer, and it is scanned. -/
def feed (data buffer : List Element) : List Item × List Element :=
  let outcome := scanner.scan (buffer ++ data)
  (outcome.1.map Prod.snd, outcome.2)

variable {scanner} {buffer : List Element}

theorem scan_waits (waits : scanner.turn buffer = none) : scanner.scan buffer = ([], buffer) := by
  rw [scan]
  split
  · rfl
  · rename_i turned
    rw [waits] at turned
    contradiction

theorem scan_turn {item : Option Item} {count : Nat} (turned : scanner.turn buffer = some (item, count)) :
    scanner.scan buffer = (item.toList.map (fun item => (buffer.length, item)) ++
      (scanner.scan (buffer.drop count)).1, (scanner.scan (buffer.drop count)).2) := by
  rw [scan]
  split
  · rename_i waits
    rw [waits] at turned
    contradiction
  · rename_i turned'
    rw [turned'] at turned
    cases turned
    rfl

/-- What holds of a buffer that waits, and of one if it holds of what a turn leaves of
it, holds of all. -/
theorem scan_induction {holds : List Element → Prop}
    (waiting : ∀ buffer, scanner.turn buffer = none → holds buffer)
    (turning : ∀ buffer item count, scanner.turn buffer = some (item, count) →
      holds (buffer.drop count) → holds buffer) (buffer : List Element) : holds buffer := by
  induction length : buffer.length using Nat.strong_induction_on generalizing buffer with
  | h _ inductionHypothesis =>
    subst length
    cases turned : scanner.turn buffer with
    | none => exact waiting buffer turned
    | some outcome =>
      obtain ⟨item, count⟩ := outcome
      have deletes := scanner.deletes turned
      refine turning buffer item count turned (inductionHypothesis _ ?_ _ rfl)
      simp only [List.length_drop]
      omega

/-- As many turns as there are elements are enough. -/
theorem scanWithin_length (buffer : List Element) :
    ∀ turns, buffer.length ≤ turns → scanner.scanWithin turns buffer = some (scanner.scan buffer) := by
  induction buffer using @scan_induction _ _ scanner with
  | waiting buffer waits =>
    intro turns _
    rw [scanWithin, waits, scan_waits waits]
  | turning buffer item count turned inductionHypothesis =>
    intro turns enough
    have deletes := scanner.deletes turned
    rw [scanWithin, turned, scan_turn turned]
    cases turns with
    | zero => omega
    | succ turns =>
      have rest := inductionHypothesis turns (by simp only [List.length_drop]; omega)
      simp only [rest, Option.map_some]

/-- What is left waits for more. -/
theorem turn_rest (buffer : List Element) : scanner.turn (scanner.scan buffer).2 = none := by
  induction buffer using @scan_induction _ _ scanner with
  | waiting buffer waits => rwa [scan_waits waits]
  | turning buffer item count turned inductionHypothesis => rwa [scan_turn turned]

/-! ## Buffers that grow -/

/-- A longer buffer is scanned as far as the shorter one, and on from what that left. -/
theorem scan_append (buffer more : List Element) : scanner.scan (buffer ++ more) =
    ((scanner.scan buffer).1.map (fun taken => (taken.1 + more.length, taken.2)) ++
        (scanner.scan ((scanner.scan buffer).2 ++ more)).1,
      (scanner.scan ((scanner.scan buffer).2 ++ more)).2) := by
  induction buffer using @scan_induction _ _ scanner with
  | waiting buffer waits => simp [scan_waits waits]
  | turning buffer item count turned inductionHypothesis =>
    have inside := (scanner.deletes turned).2
    rw [scan_turn (scanner.final turned more), scan_turn turned, List.drop_append_of_le_length inside,
      inductionHypothesis]
    simp

/-- Feeding chunks one by one takes the items, and leaves the buffer, of feeding them all
at once. -/
theorem respond_feed (chunks : List (List Element)) (waits : scanner.turn buffer = none) :
    (Run.respond scanner.feed chunks buffer).1.flatten = (scanner.feed chunks.flatten buffer).1 ∧
      (Run.respond scanner.feed chunks buffer).2 = (scanner.feed chunks.flatten buffer).2 := by
  induction chunks generalizing buffer with
  | nil => simp [feed, scan_waits waits]
  | cons chunk chunks inductionHypothesis =>
    -- The next chunk comes to a buffer that waits again.
    obtain ⟨items, rest⟩ := inductionHypothesis (turn_rest (buffer ++ chunk))
    have whole := @scan_append _ _ scanner (buffer ++ chunk) chunks.flatten
    rw [List.append_assoc] at whole
    have later : (scanner.feed chunk buffer).2 = (scanner.scan (buffer ++ chunk)).2 := rfl
    rw [Run.respond_cons, later]
    dsimp only
    rw [List.flatten_cons, items, rest, List.flatten_cons, feed, feed, feed, whole]
    simp [Function.comp_def]

/-! ## Slices

An item that was taken with some elements left occupies the elements at this distance from
the end. -/

/-- The items with the positions in the buffer they were taken at. -/
def taken (scanner : Scanner Element Item) (buffer : List Element) : List (Nat × Item) :=
  (scanner.scan buffer).1.map fun taken => (buffer.length - taken.1, taken.2)

theorem taken_waits (waits : scanner.turn buffer = none) : scanner.taken buffer = [] := by
  rw [taken, scan_waits waits]
  rfl

theorem scan_bounded (buffer : List Element) :
    ∀ found ∈ (scanner.scan buffer).1, found.1 ≤ buffer.length := by
  induction buffer using @scan_induction _ _ scanner with
  | waiting buffer waits => simp [scan_waits waits]
  | turning buffer item count turned inductionHypothesis =>
    rw [scan_turn turned]
    intro found member
    rcases List.mem_append.mp member with here | later
    · obtain ⟨item, _, rfl⟩ := List.mem_map.mp here
      exact le_rfl
    · have bound := inductionHypothesis found later
      rw [List.length_drop] at bound
      omega

/-- An item is taken at its distance from the end. -/
theorem mem_scan_iff {buffer : List Element} {left : Nat} {item : Item} (inside : left ≤ buffer.length) :
    (left, item) ∈ (scanner.scan buffer).1 ↔ (buffer.length - left, item) ∈ scanner.taken buffer := by
  rw [taken, List.mem_map]
  constructor
  · intro member
    exact ⟨_, member, rfl⟩
  · rintro ⟨⟨other, found⟩, member, same⟩
    have bound := scan_bounded buffer _ member
    rw [Prod.mk.injEq] at same
    obtain rfl : other = left := by omega
    rwa [← same.2]

/-- The positions behind a turn count from where it begins. -/
theorem taken_turn {item : Option Item} {count : Nat}
    (turned : scanner.turn buffer = some (item, count)) :
    scanner.taken buffer = item.toList.map (fun item => (0, item)) ++
      (scanner.taken (buffer.drop count)).map (fun taken => (taken.1 + count, taken.2)) := by
  have inside := (scanner.deletes turned).2
  rw [taken, scan_turn turned, taken, List.map_append, List.map_map, List.map_map]
  congr 1
  · simp [Function.comp_def]
  · refine List.map_congr_left fun found member => ?_
    have bound := scan_bounded (buffer.drop count) found member
    rw [List.length_drop] at bound
    simp only [Function.comp_apply, List.length_drop, Prod.mk.injEq, and_true]
    omega

/-- Each item is what a turn takes at its position. -/
theorem turn_taken (buffer : List Element) : ∀ found ∈ scanner.taken buffer,
    scanner.turn (buffer.drop found.1) = some (some found.2, scanner.size found.2) := by
  induction buffer using @scan_induction _ _ scanner with
  | waiting buffer waits => simp [taken_waits waits]
  | turning buffer item count turned inductionHypothesis =>
    rw [taken_turn turned]
    intro found member
    rcases List.mem_append.mp member with here | later
    · obtain ⟨item, isItem, rfl⟩ := List.mem_map.mp here
      obtain rfl := Option.mem_toList.mp isItem
      rw [List.drop_zero, turned, ← scanner.takes turned]
    · obtain ⟨earlier, isEarlier, rfl⟩ := List.mem_map.mp later
      rw [Nat.add_comm, ← List.drop_drop]
      exact inductionHypothesis earlier isEarlier

/-- The items occupy disjoint slices, in order. -/
theorem taken_disjoint (buffer : List Element) :
    (scanner.taken buffer).Pairwise fun first second => first.1 + scanner.size first.2 ≤ second.1 := by
  induction buffer using @scan_induction _ _ scanner with
  | waiting buffer waits => simp [taken_waits waits]
  | turning buffer item count turned inductionHypothesis =>
    rw [taken_turn turned, List.pairwise_append]
    refine ⟨?_, ?_, ?_⟩
    · cases item <;> simp
    · rw [List.pairwise_map]
      refine inductionHypothesis.imp fun {first second} before => ?_
      dsimp only
      omega
    · intro first isFirst second isSecond
      obtain ⟨item, isItem, rfl⟩ := List.mem_map.mp isFirst
      obtain ⟨later, _, rfl⟩ := List.mem_map.mp isSecond
      obtain rfl := Option.mem_toList.mp isItem
      have whole := scanner.takes turned
      dsimp only
      omega

/-- If the scanner waits nowhere before a position, it takes what is there, unless it
takes an item that lies across the position. -/
theorem takes_or_crosses {position count : Nat} {item : Item} {buffer : List Element}
    (found : scanner.turn (buffer.drop position) = some (some item, count))
    (goesOn : ∀ earlier < position, scanner.turn (buffer.drop earlier) ≠ none) :
    (position, item) ∈ scanner.taken buffer ∨
      ∃ earlier ∈ scanner.taken buffer,
        earlier.1 < position ∧ position < earlier.1 + scanner.size earlier.2 := by
  induction buffer using @scan_induction _ _ scanner generalizing position with
  | waiting buffer waits =>
    cases position with
    | zero =>
      rw [List.drop_zero, waits] at found
      contradiction
    | succ position => exact absurd waits (goesOn 0 (Nat.succ_pos _))
  | turning buffer other deleted turned inductionHypothesis =>
    rw [taken_turn turned]
    rcases Nat.lt_or_ge position deleted with before | behind
    · cases position with
      | zero =>
        rw [List.drop_zero, turned] at found
        cases found
        exact .inl (by simp)
      | succ position =>
        cases other with
        | none =>
          -- A turn without an item deletes one element only.
          have one := scanner.skips turned
          omega
        | some other =>
          refine .inr ⟨(0, other), by simp, Nat.succ_pos _, ?_⟩
          rw [← scanner.takes turned]
          omega
    · have found' : scanner.turn ((buffer.drop deleted).drop (position - deleted)) =
          some (some item, count) := by
        rw [List.drop_drop, Nat.add_sub_cancel' behind]
        exact found
      have goesOn' : ∀ earlier < position - deleted,
          scanner.turn ((buffer.drop deleted).drop earlier) ≠ none := by
        intro earlier below
        rw [List.drop_drop]
        exact goesOn _ (by omega)
      rcases inductionHypothesis found' goesOn' with takes | ⟨earlier, member, starts, ends⟩
      · refine .inl (List.mem_append_right _ (List.mem_map.mpr ⟨_, takes, ?_⟩))
        simp only [Prod.mk.injEq, and_true]
        omega
      · refine .inr ⟨_, List.mem_append_right _ (List.mem_map.mpr ⟨earlier, member, rfl⟩), ?_, ?_⟩
        · dsimp only
          omega
        · dsimp only
          omega

end Scanner

end Library
