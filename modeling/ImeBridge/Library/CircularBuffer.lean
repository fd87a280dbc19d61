import Mathlib.Tactic

/-! # Circular buffers and the bounded FIFO they implement

`contents` reads a circular buffer of `capacity` slots from its head.  The
lemmas say what the three pointer movements of such a buffer (store behind the
last item, advance the head, step the tail back) do to that list, whatever the
slots are made of.  `BoundedFifo` is the list automaton to compare with.
-/

namespace Library.CircularBuffer

variable {Item : Type*} {slot slot' : Nat → Item} {capacity head count : Nat}

/-- The items in `count` consecutive slots from `head` on, wrapping at `capacity`. -/
def contents (slot : Nat → Item) (capacity head count : Nat) : List Item :=
  (List.range count).map fun offset => slot ((head + offset) % capacity)

@[simp] theorem length_contents : (contents slot capacity head count).length = count := by
  simp [contents]

/-- The newest item is the one before the tail. -/
theorem contents_succ_last : contents slot capacity head (count + 1) =
    contents slot capacity head count ++ [slot ((head + count) % capacity)] := by
  simp [contents, List.range_succ]

/-- The oldest item is the one at the head. -/
theorem contents_succ_first : contents slot capacity head (count + 1) =
    slot (head % capacity) :: contents slot capacity ((head + 1) % capacity) count := by
  simp only [contents, List.range_succ_eq_map, List.map_cons, List.map_map, Nat.add_zero]
  congr 1
  apply List.map_congr_left
  intro offset _
  simp [Nat.add_assoc, Nat.add_comm 1]

theorem contents_congr (agree : ∀ index, index < capacity → slot' index = slot index)
    (positive : 0 < capacity) :
    contents slot' capacity head count = contents slot capacity head count := by
  apply List.map_congr_left
  intro offset _
  exact agree _ (Nat.mod_lt _ positive)

/-- Two offsets below the capacity never share a slot. -/
theorem slot_index_injective {first second : Nat} (firstBound : first < capacity)
    (secondBound : second < capacity)
    (same : (head + first) % capacity = (head + second) % capacity) : first = second := by
  have congruent : first ≡ second [MOD capacity] := Nat.ModEq.add_left_cancel' head same
  exact Nat.ModEq.eq_of_lt_of_lt congruent firstBound secondBound

/-- Storing behind the last item of a buffer that is not full appends it. -/
theorem contents_store {item : Item} (room : count < capacity)
    (stored : slot' ((head + count) % capacity) = item)
    (others : ∀ index, index < capacity → index ≠ (head + count) % capacity →
      slot' index = slot index) :
    contents slot' capacity head (count + 1) = contents slot capacity head count ++ [item] := by
  rw [contents_succ_last, stored]
  congr 1
  apply List.map_congr_left
  intro offset member
  have offsetBound : offset < count := List.mem_range.mp member
  apply others _ (Nat.mod_lt _ (by omega))
  intro same
  have := slot_index_injective (by omega) room same
  omega

end Library.CircularBuffer

namespace Library.BoundedFifo

variable {Item : Type*}

/-- Append one item, unless the queue is full. -/
def push (capacity : Nat) (item : Item) (queue : List Item) : Bool × List Item :=
  if queue.length < capacity then (true, queue ++ [item]) else (false, queue)

/-- Append all items in one go, which is only done on an empty queue they fit into. -/
def fill (capacity : Nat) (items queue : List Item) : Bool × List Item :=
  if queue = [] ∧ items ≠ [] ∧ items.length ≤ capacity then (true, items) else (false, queue)

/-- Take the newest item back if it is the given one. -/
def retract [DecidableEq Item] (item : Item) (queue : List Item) : Bool × List Item :=
  if queue.getLast? = some item then (true, queue.dropLast) else (false, queue)

/-- Remove the oldest item. -/
def pop : List Item → Option Item × List Item
  | [] => (none, [])
  | item :: queue => (some item, queue)

/-- A queue takes the items that come as long as there is room. -/
theorem push_take {capacity : Nat} (item : Item) (queue : List Item) :
    (push capacity item (queue.take capacity)).2 = (queue ++ [item]).take capacity := by
  unfold push
  split_ifs with room
  · have short : queue.length < capacity := by simpa using room
    rw [List.take_of_length_le short.le, List.take_of_length_le (by simpa using short)]
  · have full : capacity ≤ queue.length := by simpa using room
    rw [List.take_append_of_le_length full]

end Library.BoundedFifo
