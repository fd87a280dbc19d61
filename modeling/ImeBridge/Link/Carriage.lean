import ImeBridge.Resident.Framer

/-! # Packets on their way to the framer

The bytes that come to the framer, seen as packets: first the rest of one that is partly
read or partly lost, then whole ones.
-/

namespace ImeBridge

open Library

/-- Less is left than the whole of the last packet. -/
def Cuts (past : List Frame) (rest : List Byte) : Prop :=
  ∀ frame, past.getLast? = some frame → rest.length < frame.bytes.length

theorem Cuts.fewer {past : List Frame} {rest fewer : List Byte} (cuts : Cuts past rest)
    (shorter : fewer.length ≤ rest.length) : Cuts past fewer :=
  fun frame last => shorter.trans_lt (cuts frame last)

theorem Frame.bytes_pos (frame : Frame) : 0 < frame.bytes.length := by
  rw [frame.length_bytes]
  omega

theorem Cuts.whole (past : List Frame) : Cuts past [] := fun frame _ => frame.bytes_pos

theorem Cuts.concat {past : List Frame} {frame : Frame} {rest : List Byte}
    (shorter : rest.length < frame.bytes.length) : Cuts (past ++ [frame]) rest := by
  intro last isLast
  rw [List.getLast?_concat, Option.some.injEq] at isLast
  exact isLast ▸ shorter

/-- Of the bytes that come, those before the whole packets `flying` are the rest of a packet. -/
def Lies (past : List Frame) (coming : List Byte) (flying : List Frame) : Prop :=
  ∃ rest, coming = rest ++ flying.flatMap Frame.bytes ∧ Cuts past rest

/-- What the framer holds and the bytes that come make up the packets `flying`. -/
inductive Carries (past : List Frame) : Framer → List Byte → List Frame → Prop where
  /-- No packet is begun, and the rest of a lost one does not look like the beginning of one. -/
  | between {framer : Framer} {coming : List Byte} {flying : List Frame} (rest : List Byte)
      (between : framer.Between) (clean : ¬ [imeMagic0, imeMagic1] <:+: rest)
      (apart : framer ≠ {} → rest.head? ≠ some imeMagic1) (cuts : Cuts past rest)
      (comes : coming = rest ++ flying.flatMap Frame.bytes) : Carries past framer coming flying
  | within {coming : List Byte} {flying : List Frame} (frame : Frame) (filled rest : List Byte)
      (begun : filled ≠ []) (unfinished : rest ≠ []) (split : filled ++ rest = frame.bytes)
      (comes : coming = rest ++ flying.flatMap Frame.bytes) :
      Carries past (Framer.filling frame filled) coming (frame :: flying)

variable {past flying : List Frame} {framer : Framer} {coming : List Byte}

/-- With an empty framer. -/
theorem Carries.fresh {rest : List Byte} (clean : ¬ [imeMagic0, imeMagic1] <:+: rest) (cuts : Cuts past rest) :
    Carries past {} (rest ++ flying.flatMap Frame.bytes) flying :=
  .between rest (.inl rfl) clean (fun other => absurd rfl other) cuts rfl

/-- Where nothing but whole packets come. -/
theorem Carries.whole : Carries past {} (flying.flatMap Frame.bytes) flying := by
  have clean : ¬ [imeMagic0, imeMagic1] <:+: ([] : List Byte) := by simp
  exact .fresh clean (.whole past)

/-! ## Bytes that are lost -/

/-- The framer lets go of what it has. -/
theorem Carries.lies (carries : Carries past framer coming flying) : ∃ begun left, flying = begun ++ left ∧
    Lies (past ++ begun) coming left := by
  cases carries with
  | between rest between clean apart cuts comes =>
    exact ⟨[], flying, rfl, _, comes, (List.append_nil past).symm ▸ cuts⟩
  | within frame filled rest begun unfinished split comes =>
    refine ⟨[_], _, rfl, _, comes, .concat ?_⟩
    have lengths := congrArg List.length split
    have held := List.length_pos_iff.mpr begun
    rw [List.length_append] at lengths
    omega

theorem Lies.tail (lies : Lies past coming flying) : ∃ begun left, flying = begun ++ left ∧
    Lies (past ++ begun) coming.tail left := by
  obtain ⟨rest, comes, cuts⟩ := lies
  cases rest with
  | cons value rest =>
    rw [comes]
    exact ⟨[], flying, rfl, rest, rfl, (List.append_nil past).symm ▸ cuts.fewer (Nat.le_succ _)⟩
  | nil =>
    cases flying with
    | nil =>
      rw [comes]
      exact ⟨[], [], rfl, [], rfl, .whole _⟩
    | cons frame flying =>
      have begins := List.length_pos_iff.mp frame.bytes_pos
      refine ⟨[frame], flying, rfl, frame.bytes.tail, ?_, .concat ?_⟩
      · rw [comes, List.nil_append, List.flatMap_cons, List.tail_append_of_ne_nil begins]
      · rw [List.length_tail]
        exact Nat.sub_lt frame.bytes_pos Nat.one_pos

theorem Lies.drop (lies : Lies past coming flying) (count : Nat) : ∃ begun left, flying = begun ++ left ∧
    Lies (past ++ begun) (coming.drop count) left := by
  induction count generalizing past coming flying with
  | zero => exact ⟨[], flying, rfl, (List.append_nil past).symm ▸ lies⟩
  | succ count inductionHypothesis =>
    obtain ⟨first, middle, rfl, tail⟩ := lies.tail
    obtain ⟨later, left, rfl, dropped⟩ := inductionHypothesis tail
    rw [List.drop_tail, List.append_assoc] at dropped
    exact ⟨first ++ later, left, (List.append_assoc _ _ _).symm, dropped⟩

/-! ## Bytes that are written -/

theorem Lies.write (lies : Lies past coming flying) (frame : Frame) :
    Lies past (coming ++ frame.bytes) (flying ++ [frame]) := by
  obtain ⟨rest, comes, cuts⟩ := lies
  refine ⟨rest, ?_, cuts⟩
  rw [comes, List.flatMap_append, List.append_assoc, List.flatMap_singleton]

theorem Carries.write (carries : Carries past framer coming flying) (frame : Frame) :
    Carries past framer (coming ++ frame.bytes) (flying ++ [frame]) := by
  have behind (flying : List Frame) (rest : List Byte) : rest ++ flying.flatMap Frame.bytes ++ frame.bytes =
      rest ++ (flying ++ [frame]).flatMap Frame.bytes := by
    rw [List.flatMap_append, List.append_assoc, List.flatMap_singleton]
  cases carries with
  | between rest between clean apart cuts comes =>
    exact .between rest between clean apart cuts (comes ▸ behind _ rest)
  | within first filled rest begun unfinished split comes =>
    exact .within first filled rest begun unfinished split (comes ▸ behind _ rest)

/-! ## Bytes that are read -/

/-- Any byte of a frame but the first. -/
theorem Framer.accept_begun {frame : Frame} {filled rest : List Byte} {value : Byte}
    (split : filled ++ value :: rest = frame.bytes) (begun : filled ≠ []) :
    accept value (filling frame filled) =
      if rest = [] then (some frame.bytes, {}) else (none, filling frame (filled ++ [value])) := by
  obtain ⟨first, filled, rfl⟩ := List.exists_cons_of_ne_nil begun
  cases filled with
  | nil =>
    -- The second byte of the magic.
    have more : rest ≠ [] := frame.more_behind split (by simp)
    obtain ⟨tail, bytes⟩ : ∃ tail, frame.bytes = imeMagic0 :: imeMagic1 :: tail := ⟨_, rfl⟩
    rw [bytes, List.singleton_append, List.cons.injEq, List.cons.injEq] at split
    obtain ⟨rfl, rfl, -⟩ := split
    rw [if_neg more]
    rfl
  | cons second filled => exact accept_filling frame split (by simp)

/-- A byte that comes to the framer completes the packet it is working on, or none. -/
theorem Carries.accept {value : Byte} (carries : Carries past framer (value :: coming) flying) :
    ((framer.accept value).1 = none ∧ Carries past (framer.accept value).2 coming flying) ∨
      ∃ frame later, flying = frame :: later ∧ (framer.accept value).1 = some frame.bytes ∧
        (framer.accept value).2 = {} ∧ coming = later.flatMap Frame.bytes := by
  cases carries with
  | between rest between clean apart cuts comes =>
    refine .inl ?_
    cases rest with
    | cons first rest =>
      rw [List.cons_append, List.cons.injEq] at comes
      obtain ⟨rfl, comes⟩ := comes
      obtain ⟨nothing, stays, began⟩ := Framer.accept_between between value
        (fun other same => apart other (congrArg some same))
      refine ⟨nothing, .between rest stays ?_ ?_ (cuts.fewer (Nat.le_succ _)) comes⟩
      · exact fun within => clean (within.trans (List.suffix_cons value rest).isInfix)
      · -- A first magic byte held back is the last byte read.
        intro holds follows
        obtain ⟨later, rfl⟩ := List.head?_eq_some_iff.mp follows
        rw [began holds] at clean
        exact clean ⟨[], later, rfl⟩
    | nil =>
      cases flying with
      | nil => exact absurd comes (List.cons_ne_nil _ _)
      | cons frame flying =>
        -- The first byte of a packet.
        obtain ⟨tail, bytes⟩ : ∃ tail, frame.bytes = imeMagic0 :: tail := ⟨_, rfl⟩
        have more : tail ≠ [] := by
          rintro rfl
          have length := congrArg List.length bytes
          rw [frame.length_bytes, List.length_singleton] at length
          omega
        rw [List.nil_append, List.flatMap_cons, bytes, List.cons_append, List.cons.injEq] at comes
        obtain ⟨rfl, comes⟩ := comes
        have first : framer.accept imeMagic0 = (none, Framer.filling frame [imeMagic0]) := by
          obtain rfl | rfl := between
          · rfl
          · rfl
        rw [first]
        exact ⟨rfl, .within frame [imeMagic0] tail (List.cons_ne_nil _ _) more bytes.symm comes⟩
  | within frame filled rest begun unfinished split comes =>
    obtain ⟨next, rest, rfl⟩ := List.exists_cons_of_ne_nil unfinished
    rw [List.cons_append, List.cons.injEq] at comes
    obtain ⟨rfl, comes⟩ := comes
    have here : filled ++ [value] ++ rest = frame.bytes := by rw [← split, ← List.append_cons]
    have accepted := Framer.accept_begun split begun
    by_cases last : rest = []
    · rw [if_pos last] at accepted
      rw [last, List.nil_append] at comes
      exact .inr ⟨frame, _, rfl, by rw [accepted], by rw [accepted], comes⟩
    · rw [if_neg last] at accepted
      rw [accepted]
      exact .inl ⟨rfl, .within frame (filled ++ [value]) rest (by simp) last here comes⟩

end ImeBridge
