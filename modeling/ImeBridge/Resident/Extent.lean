import ImeBridge.Library.Pace
import ImeBridge.Resident.Slices

/-! # How far the framer goes

`accept_byte` goes by the length field of each magic it finds, and passes over the bytes
between one by one.  So the bytes alone tell where it looks for a magic: `Framer.pace`
says how far it goes from each of them.
-/

namespace ImeBridge

open Library

namespace Framer

/-- How many bytes are taken from a magic on, by the length field behind it.  A field that
is too large costs the header, unless the 16-bit sum for the expected length wraps: the
header is then complete on its eighth or ninth byte, or the buffer runs full. -/
def extent (length : Word) : Nat :=
  if length.toNat ≤ imeMaxPayload then 10 + length.toNat
  else if length ≤ 0xFFF5#16 ∨ length = 0xFFFE#16 then 8
  else if length = 0xFFFF#16 then 9
  else 523

theorem extent_long (length : Word) : 8 ≤ extent length := by
  unfold extent
  split_ifs <;> omega

/-- The bytes that are taken together, from the front. -/
def pace : Pace Byte where
  step := fun ahead =>
    if [imeMagic0, imeMagic1] <+: ahead then extent (word (ahead.getD 6 0) (ahead.getD 7 0)) else 1
  positive := by
    intro ahead
    have long := extent_long (word (ahead.getD 6 0) (ahead.getD 7 0))
    split_ifs
    · omega
    · exact Nat.one_pos

theorem pace_magic {ahead : List Byte} (begins : [imeMagic0, imeMagic1] <+: ahead) :
    pace.step ahead = extent (word (ahead.getD 6 0) (ahead.getD 7 0)) := if_pos begins

theorem pace_other {ahead : List Byte} (other : ¬ [imeMagic0, imeMagic1] <+: ahead) :
    pace.step ahead = 1 := if_neg other

/-! ## A header and what it takes with it -/

/-- A first magic byte that was held back before the magic makes no difference. -/
theorem respond_between {framer : Framer} (between : framer.Between) (rest : List Byte) :
    Run.respond accept (imeMagic0 :: rest) framer = Run.respond accept (imeMagic0 :: rest) {} := by
  obtain rfl | rfl := between
  · rfl
  · rfl

/-- An expected length that is passed is never reached: the buffer fills up. -/
theorem respond_passed {buffer bytes : List Byte} {expected : Word} (header : 8 ≤ buffer.length)
    (passed : expected.toNat ≤ buffer.length) (room : buffer.length + bytes.length ≤ 522) :
    Run.respond accept bytes { buffer := buffer, expected := expected } =
      (List.replicate bytes.length none, { buffer := buffer ++ bytes, expected := expected }) := by
  induction bytes generalizing buffer with
  | nil => simp
  | cons value bytes inductionHypothesis =>
    simp only [List.length_cons] at room
    have stores : accept value { buffer := buffer, expected := expected } =
        (none, { buffer := buffer ++ [value], expected := expected }) := by
      have next : (buffer ++ [value]).length = buffer.length + 1 := by simp
      have noise : ¬ (buffer.length = 0 ∧ value ≠ imeMagic0) := by omega
      have second : ¬ (buffer.length = 1 ∧ value ≠ imeMagic1) := by omega
      have notFull : ¬ buffer.length ≥ 522 := by omega
      have behind : ¬ buffer.length + 1 = 8 := by omega
      have unreached : ¬ (expected ≠ 0#16 ∧ buffer.length + 1 = expected.toNat) := by omega
      simp only [accept, noise, second, notFull, next, behind, unreached, if_false]
    rw [Run.respond_cons, stores, inductionHypothesis (by simp; omega) (by simp; omega) (by simp; omega)]
    simp [List.replicate_succ]

section Piece

variable {header rest : List Byte} {version type s0 s1 l0 l1 : Byte} {framer : Framer}
  (isHeader : header = [imeMagic0, imeMagic1, version, type, s0, s1, l0, l1])
include isHeader

/-- A header whose length field is in its bounds begins a frame, if bytes enough follow. -/
theorem exists_begun (fits : (word l0 l1).toNat ≤ imeMaxPayload)
    (enough : 10 + (word l0 l1).toNat ≤ (header ++ rest).length) :
    ∃ frame : Frame, frame.bytes = (header ++ rest).take (10 + (word l0 l1).toNat) ∧
      frame.payload.length = (word l0 l1).toNat := by
  have length : ((header ++ rest).take (10 + (word l0 l1).toNat)).length = 10 + (word l0 l1).toNat :=
    List.length_take_of_le enough
  have inside (index : Nat) (early : index < 8) :
      ((header ++ rest).take (10 + (word l0 l1).toNat)).getD index 0 = header.getD index 0 := by
    have there : index < header.length := by simp [isHeader]; omega
    rw [List.getD_eq_getElem?_getD, List.getElem?_take_of_lt (by omega), List.getElem?_append_left there,
      List.getD_eq_getElem?_getD]
  have field : word (((header ++ rest).take (10 + (word l0 l1).toNat)).getD 6 0)
      (((header ++ rest).take (10 + (word l0 l1).toNat)).getD 7 0) = word l0 l1 := by
    rw [inside 6 (by decide), inside 7 (by decide), isHeader]
    rfl
  obtain ⟨frame, bytes⟩ := exists_frame (by omega)
    (show ((header ++ rest).take (10 + (word l0 l1).toNat)).getD 0 0 = imeMagic0 by
      rw [inside 0 (by decide), isHeader]; rfl)
    (show ((header ++ rest).take (10 + (word l0 l1).toNat)).getD 1 0 = imeMagic1 by
      rw [inside 1 (by decide), isHeader]; rfl)
    (by rw [field]; exact fits) (by rw [field]; exact length)
  refine ⟨frame, bytes, ?_⟩
  have total := frame.length_bytes
  rw [bytes, length] at total
  omega

/-- Behind an oversized header whose sum wraps, bytes are stored until the sum is reached. -/
theorem respond_wrapped (between : framer.Between) (oversized : ¬ (word l0 l1).toNat ≤ imeMaxPayload)
    (wraps : ¬ (word l0 l1 ≤ 0xFFF5#16 ∨ word l0 l1 = 0xFFFE#16)) {more : List Byte}
    (room : word l0 l1 = 0xFFFF#16 → more = []) (short : more.length ≤ 514) :
    (Run.respond accept (header ++ more) framer).2 =
      { buffer := header ++ more, expected := 10#16 + word l0 l1 } := by
  rw [not_or] at wraps
  have swallowed := respond_oversized isHeader (Nat.lt_of_not_le oversized)
  rw [if_neg wraps.1, if_neg wraps.2] at swallowed
  have same : Run.respond accept (header ++ more) framer = Run.respond accept (header ++ more) {} := by
    rw [isHeader]
    exact respond_between between _
  have length : header.length = 8 := by rw [isHeader]; rfl
  rw [same, Run.respond_append, swallowed]
  dsimp only
  by_cases ninth : word l0 l1 = 0xFFFF#16
  · simp [room ninth]
  · have small : (10#16 + word l0 l1).toNat ≤ 8 := by
      have wrapped := wraps.1
      have eighth := wraps.2
      bv_omega
    rw [respond_passed (by omega) (by omega) (by omega)]

/-- Up to where the header goes, all bytes are kept. -/
theorem respond_within (between : framer.Between) {count : Nat} (two : 2 ≤ count)
    (inside : count < extent (word l0 l1)) (there : count ≤ (header ++ rest).length) :
    (Run.respond accept ((header ++ rest).take count) framer).2.buffer = (header ++ rest).take count := by
  have length : header.length = 8 := by rw [isHeader]; rfl
  by_cases fits : (word l0 l1).toNat ≤ imeMaxPayload
  · -- The bytes begin a frame of that length, whatever may stand behind them.
    rw [extent, if_pos fits] at inside
    let zeros := List.replicate (10 + (word l0 l1).toNat) 0#8
    have enough : 10 + (word l0 l1).toNat ≤ (header ++ (rest ++ zeros)).length := by
      simp [zeros]
      omega
    obtain ⟨frame, bytes, total⟩ := exists_begun isHeader fits enough
    have front : (header ++ rest).take count = frame.bytes.take count := by
      rw [bytes, List.take_take, Nat.min_eq_left (by omega), ← List.append_assoc,
        List.take_append_of_le_length there]
    have unfinished : frame.bytes.drop count ≠ [] := by
      have whole := frame.length_bytes
      rw [ne_eq, List.drop_eq_nil_iff]
      omega
    have counted : (frame.bytes.take count).length = count := by
      rw [List.length_take, frame.length_bytes]
      omega
    rw [front, respond_begun frame (List.take_append_drop count frame.bytes) (by omega) unfinished between]
    rfl
  · by_cases short : count < 8
    · have early : (header ++ rest).take count = header.take count :=
        List.take_append_of_le_length (by omega)
      have magic : (header.take count).take 2 <+: [imeMagic0, imeMagic1] := by
        rw [isHeader, List.take_take, Nat.min_eq_left two]
        exact List.prefix_refl _
      have begins : header.take count = imeMagic0 :: (header.take count).tail := by
        obtain ⟨more, rfl⟩ := Nat.exists_eq_add_of_le two
        rw [isHeader, Nat.add_comm]
        rfl
      have same : Run.respond accept (header.take count) framer =
          Run.respond accept (header.take count) {} := by
        rw [begins]
        exact respond_between between _
      have kept := @respond_early [] (header.take count) magic (by simp; omega)
      rw [early, same, kept]
      rfl
    · have split : (header ++ rest).take count = header ++ rest.take (count - 8) := by
        rw [List.take_append, length, List.take_of_length_le (by omega)]
      rw [extent, if_neg fits] at inside
      have wraps : ¬ (word l0 l1 ≤ 0xFFF5#16 ∨ word l0 l1 = 0xFFFE#16) := by
        intro dropped
        rw [if_pos dropped] at inside
        exact short inside
      rw [if_neg wraps] at inside
      rw [split, respond_wrapped isHeader between fits wraps]
      · intro ninth
        rw [if_pos ninth] at inside
        rw [show count - 8 = 0 by omega, List.take_zero]
      · rw [List.length_take]
        split_ifs at inside <;> omega

/-- Where the header does not go on, nothing is kept. -/
theorem respond_over (between : framer.Between) (there : extent (word l0 l1) ≤ (header ++ rest).length) :
    (Run.respond accept ((header ++ rest).take (extent (word l0 l1))) framer).2 = {} := by
  have length : header.length = 8 := by rw [isHeader]; rfl
  have same (more : List Byte) :
      Run.respond accept (header ++ more) framer = Run.respond accept (header ++ more) {} := by
    rw [isHeader]
    exact respond_between between _
  by_cases fits : (word l0 l1).toNat ≤ imeMaxPayload
  · rw [extent, if_pos fits] at there ⊢
    obtain ⟨frame, bytes, total⟩ := exists_begun isHeader fits there
    rw [← bytes, respond_whole frame between]
  · have swallowed := respond_oversized isHeader (Nat.lt_of_not_le fits)
    rw [extent, if_neg fits] at there ⊢
    by_cases dropped : word l0 l1 ≤ 0xFFF5#16 ∨ word l0 l1 = 0xFFFE#16
    · -- The header is let go, or complete, on its eighth byte.
      rw [if_pos dropped, ← length, List.take_left]
      have alone := same []
      rw [List.append_nil] at alone
      rw [alone, swallowed]
      split_ifs with small eighth
      · rfl
      · rfl
      · exact absurd dropped (not_or.mpr ⟨small, eighth⟩)
    · -- Some bytes are stored before the one that ends it.
      rw [if_neg dropped] at there ⊢
      have ends : ∀ {count value} {more : List Byte}, rest.take count = more ++ [value] →
          (Run.respond accept ((header ++ rest).take (8 + count)) framer).2 =
            (accept value (Run.respond accept (header ++ more) framer).2).2 := by
        intro count value more split
        rw [List.take_append, length, List.take_of_length_le (by omega), Nat.add_sub_cancel_left, split,
          ← List.append_assoc, Run.respond_append]
        rfl
      have last (count : Nat) (inside : count + 1 ≤ rest.length) :
          ∃ value, rest.take (count + 1) = rest.take count ++ [value] :=
        ⟨rest[count], List.take_succ_eq_append_getElem inside⟩
      rw [List.length_append, length] at there
      by_cases ninth : word l0 l1 = 0xFFFF#16
      · rw [if_pos ninth] at there ⊢
        obtain ⟨value, split⟩ := last 0 (by omega)
        rw [show 9 = 8 + (0 + 1) by rfl, ends split,
          respond_wrapped isHeader between fits dropped (by simp) (by simp)]
        rw [isHeader, ninth]
        rfl
      · rw [if_neg ninth] at there ⊢
        obtain ⟨value, split⟩ := last 514 (by omega)
        rw [show 523 = 8 + (514 + 1) by rfl, ends split,
          respond_wrapped isHeader between fits dropped (fun is => absurd is ninth) (by simp)]
        have full : (header ++ rest.take 514).length = 522 := by
          simp [length]
          omega
        simp only [accept, full]
        rfl

end Piece

/-! ## The framer at a first magic byte -/

theorem exists_bytes {bytes : List Byte} (begins : [imeMagic0, imeMagic1] <+: bytes)
    (long : 8 ≤ bytes.length) : ∃ version type s0 s1 l0 l1 rest,
      bytes = [imeMagic0, imeMagic1, version, type, s0, s1, l0, l1] ++ rest := by
  obtain ⟨behind, rfl⟩ := begins
  rcases behind with _ | ⟨b2, _ | ⟨b3, _ | ⟨b4, _ | ⟨b5, _ | ⟨b6, _ | ⟨b7, rest⟩⟩⟩⟩⟩⟩
  all_goals simp at long
  exact ⟨b2, b3, b4, b5, b6, b7, rest, rfl⟩

/-- At a position with a first magic byte, a header's length before the end, the framer
is in no frame exactly if its pace leads there. -/
theorem hunts_iff_stands {bytes : List Byte} {position : Nat} (here : bytes[position]? = some imeMagic0)
    (header : position + 8 ≤ bytes.length) {framer : Framer} (between : framer.Between)
    (apart : framer ≠ {} → bytes.head? ≠ some imeMagic1) :
    (Run.respond accept (bytes.take position) framer).2.buffer.length ≤ 1 ↔
      pace.Stands bytes position := by
  induction position using Nat.strong_induction_on generalizing bytes framer with
  | h position inductionHypothesis =>
    cases position with
    | zero =>
      refine iff_of_true ?_ .start
      obtain rfl | rfl := between <;> simp
    | succ position =>
      rw [Pace.stands_iff (Nat.succ_pos position)]
      by_cases begins : [imeMagic0, imeMagic1] <+: bytes
      · obtain ⟨version, type, s0, s1, l0, l1, rest, rfl⟩ := exists_bytes begins (by omega)
        have step : pace.step ([imeMagic0, imeMagic1, version, type, s0, s1, l0, l1] ++ rest) =
            extent (word l0 l1) := pace_magic begins
        have long := extent_long (word l0 l1)
        rw [step]
        by_cases inside : extent (word l0 l1) ≤ position + 1
        · -- The header goes no further than the position: behind it the framer starts afresh.
          have there : extent (word l0 l1) ≤
              ([imeMagic0, imeMagic1, version, type, s0, s1, l0, l1] ++ rest).length := by omega
          have emptied := respond_over rfl between there
          rw [← List.take_append_drop (extent (word l0 l1)) (List.take (position + 1) _)]
          rw [List.take_take, Nat.min_eq_left inside, Run.respond_append, emptied, List.drop_take,
            and_iff_right inside]
          refine inductionHypothesis _ (by omega) ?_ ?_ (.inl rfl) fun holds => absurd rfl holds
          · rw [List.getElem?_drop, Nat.add_sub_cancel' inside]
            exact here
          · rw [List.length_drop]
            omega
        · -- The position lies within; it is not the second one, where the magic ends.
          have later : position + 1 ≠ 1 := by
            rintro second
            rw [second] at here
            simp [imeMagic0, imeMagic1] at here
          have kept := respond_within rfl between (by omega) (Nat.lt_of_not_le inside)
            (show position + 1 ≤ ([imeMagic0, imeMagic1, version, type, s0, s1, l0, l1] ++ rest).length by
              omega)
          rw [kept, List.length_take]
          refine iff_of_false ?_ fun both => inside both.1
          omega
      · obtain ⟨value, rest, rfl⟩ : ∃ value rest, bytes = value :: rest := by
          cases bytes with
          | nil => simp at header
          | cons value rest => exact ⟨value, rest, rfl⟩
        obtain ⟨_, stays, began⟩ := accept_between between value (by simpa using apart)
        have step : pace.step (value :: rest) = 1 := pace_other begins
        rw [step, List.take_succ_cons, Run.respond_cons, List.drop_one, Nat.succ_sub_one,
          List.tail_cons, and_iff_right (by omega)]
        refine inductionHypothesis position (Nat.lt_succ_self _) (by simpa using here)
          (by simpa using header) stays ?_
        intro holds follows
        obtain ⟨more, rfl⟩ := List.head?_eq_some_iff.mp follows
        rw [began holds] at begins
        exact begins ⟨more, rfl⟩

end Framer

end ImeBridge
