import Mathlib.Tactic

/-! # Numbers handed out by a counter of fixed width

The counter starts at zero and is raised before each use, so a number comes back
only after a full turn.
-/

namespace Library.Counter

variable {width count : Nat}

/-- The first `count` numbers, oldest first. -/
def handed (width count : Nat) : List (BitVec width) :=
  (List.range count).map fun index => BitVec.ofNat width (index + 1)

theorem handed_succ :
    handed width (count + 1) = handed width count ++ [BitVec.ofNat width count + 1] := by
  simp [handed, List.range_succ, BitVec.ofNat_add]

/-- Within a turn no number is handed out twice. -/
theorem handed_nodup (below : count < 2 ^ width) : (handed width count).Nodup := by
  refine List.Nodup.map_on ?_ List.nodup_range
  intro first firstMember second secondMember same
  have values := congrArg BitVec.toNat same
  rw [List.mem_range] at firstMember secondMember
  simp only [BitVec.toNat_ofNat] at values
  rw [Nat.mod_eq_of_lt (by omega), Nat.mod_eq_of_lt (by omega)] at values
  omega

/-- The counter after a row of numbers that it handed out. -/
structure Follows (numbers : List (BitVec width)) (counter : BitVec width) : Prop where
  handed : numbers = handed width numbers.length
  counter : counter = BitVec.ofNat width numbers.length

variable {numbers : List (BitVec width)} {counter : BitVec width}

theorem follows_nil : Follows ([] : List (BitVec width)) 0 := ⟨rfl, rfl⟩

theorem Follows.next (follows : Follows numbers counter) :
    Follows (numbers ++ [counter + 1]) (counter + 1) := by
  constructor
  · rw [List.length_append, List.length_singleton, handed_succ, ← follows.handed, ← follows.counter]
  · rw [List.length_append, List.length_singleton, BitVec.ofNat_add, ← follows.counter]
    rfl

theorem Follows.nodup (follows : Follows numbers counter) (below : numbers.length < 2 ^ width) :
    numbers.Nodup := by
  rw [follows.handed]
  exact handed_nodup below

end Library.Counter
