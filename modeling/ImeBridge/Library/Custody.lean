import Mathlib.Tactic

/-! # A queue that somebody takes items out of

Items arrive at the end of a queue and are meant for a reader at its head.  An
interceptor takes some for itself: the newest where they wait, or the oldest
instead of the reader; or it only notices the oldest and lets it go on.  What is
never taken reaches the reader once and in order.
-/

namespace Library

/-- The queue and what became of every item. -/
structure Custody (Item : Type*) where
  queued : List Item := []
  arrived : List Item := []
  delivered : List Item := []
  taken : List Item := []
  /-- The items the interceptor has acted on, one entry for each time. -/
  noticed : List Item := []

namespace Custody

variable {Item : Type*}

section Operations

variable (custody : Custody Item)

def arrive (items : List Item) : Custody Item :=
  { custody with queued := custody.queued ++ items, arrived := custody.arrived ++ items }

def deliverOldest : Custody Item :=
  { custody with
    queued := custody.queued.tail
    delivered := custody.delivered ++ custody.queued.head?.toList }

def takeOldest : Custody Item :=
  { custody with
    queued := custody.queued.tail
    taken := custody.taken ++ custody.queued.head?.toList
    noticed := custody.noticed ++ custody.queued.head?.toList }

def takeNewest : Custody Item :=
  { custody with
    queued := custody.queued.dropLast
    taken := custody.taken ++ custody.queued.getLast?.toList
    noticed := custody.noticed ++ custody.queued.getLast?.toList }

def noticeOldest : Custody Item :=
  { custody with noticed := custody.noticed ++ custody.queued.head?.toList }

end Operations

/-- No item is lost, doubled or overtaken. -/
structure Accounted (custody : Custody Item) : Prop where
  ordered : (custody.delivered ++ custody.queued).Sublist custody.arrived
  conserved : custody.arrived.Perm (custody.taken ++ (custody.delivered ++ custody.queued))
  taken_noticed : ∀ item ∈ custody.taken, item ∈ custody.noticed

variable {custody : Custody Item}

theorem head_append_tail (items : List Item) : items.head?.toList ++ items.tail = items := by
  cases items <;> rfl

theorem dropLast_append_last (items : List Item) : items.dropLast ++ items.getLast?.toList = items := by
  induction items using List.reverseRecOn with
  | nil => rfl
  | append_singleton items item => simp

namespace Accounted

theorem initial (items : List Item) : Accounted { queued := items, arrived := items } :=
  ⟨List.Sublist.refl _, List.Perm.refl _, by simp⟩

theorem arrive (accounted : custody.Accounted) (items : List Item) : (custody.arrive items).Accounted where
  ordered := by
    simp only [Custody.arrive, ← List.append_assoc]
    exact accounted.ordered.append_right items
  conserved := by
    simp only [Custody.arrive, ← List.append_assoc]
    exact accounted.conserved.append_right items |>.trans (by simp [List.append_assoc])
  taken_noticed := accounted.taken_noticed

theorem deliverOldest (accounted : custody.Accounted) : custody.deliverOldest.Accounted where
  ordered := by
    simpa [Custody.deliverOldest, head_append_tail] using accounted.ordered
  conserved := by
    simpa [Custody.deliverOldest, head_append_tail] using accounted.conserved
  taken_noticed := accounted.taken_noticed

theorem takeOldest (accounted : custody.Accounted) : custody.takeOldest.Accounted where
  ordered := by
    have fewer := (List.tail_sublist custody.queued).append_left custody.delivered
    exact fewer.trans accounted.ordered
  conserved := by
    have conserved := accounted.conserved
    rw [← head_append_tail custody.queued] at conserved
    refine conserved.trans ?_
    simp only [Custody.takeOldest, List.append_assoc]
    refine .append_left _ ?_
    simp only [← List.append_assoc]
    exact List.perm_append_comm.append_right _
  taken_noticed := fun item member => List.mem_append.mpr <|
    (List.mem_append.mp member).imp_left (accounted.taken_noticed item)

theorem takeNewest (accounted : custody.Accounted) : custody.takeNewest.Accounted where
  ordered := by
    have fewer := (List.dropLast_sublist custody.queued).append_left custody.delivered
    exact fewer.trans accounted.ordered
  conserved := by
    have conserved := accounted.conserved
    rw [← dropLast_append_last custody.queued] at conserved
    refine conserved.trans ?_
    simp only [Custody.takeNewest, List.append_assoc]
    refine .append_left _ ?_
    rw [← List.append_assoc]
    exact List.perm_append_comm
  taken_noticed := fun item member => List.mem_append.mpr <|
    (List.mem_append.mp member).imp_left (accounted.taken_noticed item)

theorem noticeOldest (accounted : custody.Accounted) : custody.noticeOldest.Accounted :=
  ⟨accounted.ordered, accounted.conserved,
    fun item member => List.mem_append_left _ (accounted.taken_noticed item member)⟩

/-- Items of a kind of which none has been taken are all delivered or queued, once each and
in the order of their arrival. -/
theorem keeps (accounted : custody.Accounted) {kind : Item → Bool}
    (untouched : ∀ item ∈ custody.taken, kind item = false) :
    (custody.delivered ++ custody.queued).filter kind = custody.arrived.filter kind := by
  refine (accounted.ordered.filter kind).eq_of_length ?_
  have conserved := (accounted.conserved.filter kind).length_eq
  have none : custody.taken.filter kind = [] := List.filter_eq_nil_iff.mpr (by simpa using untouched)
  rw [conserved, List.filter_append _ (custody.delivered ++ _), none, List.nil_append]

end Accounted

end Custody

end Library
