import Mathlib.Tactic
import Mathlib.Data.List.GetD
import Mathlib.Data.ZMod.Basic

/-! # Cyclic checksums, bit by bit

A register that is shifted to the right and takes a polynomial in when a one falls out,
fed with one bit at a time.  All of it is linear over exclusive or, so what an error does
to the register does not depend on the data it strikes.
-/

namespace Library.Checksum

variable {width : Nat} (polynomial : BitVec width)

def shift (register : BitVec width) : BitVec width :=
  if register.getLsbD 0 then (register >>> 1) ^^^ polynomial else register >>> 1

/-- A bit as a register. -/
def lowest (bit : Bool) : BitVec width := (BitVec.ofBool bit).setWidth width

def absorb (register : BitVec width) (bit : Bool) : BitVec width :=
  shift polynomial (register ^^^ lowest bit)

/-- The register behind some bits. -/
def remainder (register : BitVec width) (bits : List Bool) : BitVec width :=
  bits.foldl (absorb polynomial) register

@[simp] theorem remainder_nil (register : BitVec width) : remainder polynomial register [] = register := rfl

@[simp] theorem remainder_cons (register : BitVec width) (bit : Bool) (bits : List Bool) :
    remainder polynomial register (bit :: bits) =
      remainder polynomial (absorb polynomial register bit) bits := rfl

theorem remainder_append (register : BitVec width) (first second : List Bool) :
    remainder polynomial register (first ++ second) =
      remainder polynomial (remainder polynomial register first) second := by
  simp [remainder, List.foldl_append]

/-! ## Linearity -/

theorem lowest_xor (first second : Bool) :
    (lowest (first ^^ second) : BitVec width) = lowest first ^^^ lowest second := by
  cases first <;> cases second <;> simp [lowest]

@[simp] theorem lowest_false : (lowest false : BitVec width) = 0#(width) := by simp [lowest]

theorem xor_xor_xor_comm (first second third fourth : BitVec width) :
    (first ^^^ second) ^^^ (third ^^^ fourth) = (first ^^^ third) ^^^ (second ^^^ fourth) := by
  rw [BitVec.xor_assoc, BitVec.xor_assoc, ← BitVec.xor_assoc second, BitVec.xor_comm second,
    BitVec.xor_assoc third]

theorem shift_xor (first second : BitVec width) :
    shift polynomial (first ^^^ second) = shift polynomial first ^^^ shift polynomial second := by
  simp only [shift, BitVec.getLsbD_xor, BitVec.ushiftRight_xor_distrib]
  cases first.getLsbD 0 <;> cases second.getLsbD 0
  · simp
  · simp [BitVec.xor_assoc]
  · simp only [Bool.xor_false, if_true, Bool.false_eq_true, if_false]
    rw [BitVec.xor_assoc, BitVec.xor_comm (second >>> 1), ← BitVec.xor_assoc]
  · -- The polynomial is taken in twice.
    simp only [Bool.xor_self, Bool.false_eq_true, if_false, if_true]
    rw [xor_xor_xor_comm, BitVec.xor_self, BitVec.xor_zero]

@[simp] theorem shift_zero : shift polynomial 0#(width) = 0#(width) := by simp [shift]

theorem iterate_shift_zero (count : Nat) : (shift polynomial)^[count] 0#(width) = 0#(width) :=
  Function.iterate_fixed (shift_zero polynomial) count

/-- Two registers and two strings of bits go through the shifts side by side. -/
theorem remainder_xor (first second : BitVec width) {bits errors : List Bool}
    (same : bits.length = errors.length) :
    remainder polynomial (first ^^^ second) (List.zipWith xor bits errors) =
      remainder polynomial first bits ^^^ remainder polynomial second errors := by
  induction bits generalizing first second errors with
  | nil =>
    cases errors with
    | nil => rfl
    | cons error errors => simp at same
  | cons bit bits inductionHypothesis =>
    cases errors with
    | nil => simp at same
    | cons error errors =>
      simp only [List.length_cons, Nat.add_right_cancel_iff] at same
      rw [List.zipWith_cons_cons, remainder_cons, remainder_cons, remainder_cons, ← inductionHypothesis _ _ same]
      congr 1
      rw [absorb, absorb, absorb, ← shift_xor, lowest_xor, xor_xor_xor_comm]

theorem remainder_replicate_false (register : BitVec width) (count : Nat) :
    remainder polynomial register (List.replicate count false) = (shift polynomial)^[count] register := by
  induction count generalizing register with
  | zero => rfl
  | succ count inductionHypothesis =>
    rw [List.replicate_succ, remainder_cons, inductionHypothesis, Function.iterate_succ_apply, absorb,
      lowest_false, BitVec.xor_zero]

/-! ## Bits taken in at once -/

/-- Bits as a register, the first one lowest. -/
def pack : List Bool → BitVec width
  | [] => 0#(width)
  | bit :: bits => lowest bit ^^^ pack bits <<< 1

theorem getLsbD_lowest (bit : Bool) (index : Nat) :
    (lowest bit : BitVec width).getLsbD index = (decide (index < width) && decide (index = 0) && bit) := by
  cases bit with
  | false => simp
  | true =>
    simp only [lowest, BitVec.getLsbD_setWidth, BitVec.getLsbD_ofBool, Bool.and_true]

theorem getLsbD_pack (bits : List Bool) (index : Nat) :
    (pack bits : BitVec width).getLsbD index = (decide (index < width) && bits.getD index false) := by
  induction bits generalizing index with
  | nil => simp [pack]
  | cons bit bits inductionHypothesis =>
    rw [pack, BitVec.getLsbD_xor, getLsbD_lowest, BitVec.getLsbD_shiftLeft, inductionHypothesis]
    cases index with
    | zero => simp
    | succ index =>
      by_cases inside : index + 1 < width
      · simp [inside, show index < width by omega]
      · simp [inside]

/-- What was moved up is only moved down again. -/
theorem shift_shiftLeft (register : BitVec width) (room : register.getLsbD (width - 1) = false) :
    shift polynomial (register <<< 1) = register := by
  have even : (register <<< 1).getLsbD 0 = false := by simp [BitVec.getLsbD_shiftLeft]
  rw [shift, even, if_neg (by decide)]
  apply BitVec.eq_of_getLsbD_eq
  intro index bound
  rw [BitVec.getLsbD_ushiftRight, BitVec.getLsbD_shiftLeft]
  by_cases last : index = width - 1
  · simp [last, room]
  · simp [show 1 + index < width by omega]

/-- At most as many bits as the register has can be taken in at once. -/
theorem remainder_eq (register : BitVec width) {bits : List Bool} (fits : bits.length ≤ width) :
    remainder polynomial register bits =
      (shift polynomial)^[bits.length] (register ^^^ pack bits) := by
  induction bits generalizing register with
  | nil => simp [pack]
  | cons bit bits inductionHypothesis =>
    rw [List.length_cons] at fits
    have room : (pack bits : BitVec width).getLsbD (width - 1) = false := by
      rw [getLsbD_pack, List.getD_eq_default _ _ (by omega), Bool.and_false]
    rw [remainder_cons, inductionHypothesis _ (by omega), List.length_cons, Function.iterate_succ_apply,
      absorb, pack, ← BitVec.xor_assoc, shift_xor _ _ (pack bits <<< 1), shift_shiftLeft _ _ room]

/-- The bits of a register, the lowest one first. -/
def bits {width : Nat} (register : BitVec width) : List Bool := (List.range width).map register.getLsbD

@[simp] theorem length_bits (register : BitVec width) : (bits register).length = width := by simp [bits]

theorem pack_bits {other : Nat} (register : BitVec other) :
    (pack (bits register) : BitVec width) = register.setWidth width := by
  apply BitVec.eq_of_getLsbD_eq
  intro index bound
  rw [getLsbD_pack, BitVec.getLsbD_setWidth]
  by_cases inside : index < other
  · rw [List.getD_eq_getElem _ _ (by simpa using inside)]
    simp [bits]
  · rw [List.getD_eq_default _ _ (by simpa using inside), BitVec.getLsbD_of_ge _ _ (by omega)]

/-- A register that takes in its own bits is left with nothing: data followed by its
checksum, lowest bit first, leave no remainder. -/
theorem remainder_bits_self (register : BitVec width) :
    remainder polynomial register (bits register) = 0#(width) := by
  rw [remainder_eq polynomial register (length_bits register).le, pack_bits, BitVec.setWidth_eq,
    BitVec.xor_self,
    iterate_shift_zero]

/-! ## Errors that are caught -/

section Detection

/-- A polynomial with its top bit set can be told from what a shift leaves. -/
theorem shift_eq_zero {polynomial : BitVec width} (top : polynomial.getLsbD (width - 1) = true)
    {register : BitVec width} (vanishes : shift polynomial register = 0#(width)) : register = 0#(width) := by
  cases low : register.getLsbD 0 with
  | false =>
    rw [shift, low, if_neg (by decide)] at vanishes
    apply BitVec.eq_of_getLsbD_eq
    intro index bound
    cases index with
    | zero => rw [low, BitVec.getLsbD_zero]
    | succ index =>
      have moved := congrArg (fun value => value.getLsbD index) vanishes
      simpa [BitVec.getLsbD_ushiftRight, Nat.add_comm] using moved
  | true =>
    rw [shift, low, if_pos rfl] at vanishes
    have moved := congrArg (fun value => value.getLsbD (width - 1)) vanishes
    have outside : register.getLsbD (1 + (width - 1)) = false :=
      BitVec.getLsbD_of_ge register _ (by omega)
    simp [top, outside] at moved

theorem iterate_shift_ne_zero {polynomial : BitVec width} (top : polynomial.getLsbD (width - 1) = true)
    {register : BitVec width} (nonzero : register ≠ 0#(width)) (count : Nat) :
    (shift polynomial)^[count] register ≠ 0#(width) := by
  induction count with
  | zero => exact nonzero
  | succ count inductionHypothesis =>
    rw [Function.iterate_succ_apply']
    exact fun vanishes => inductionHypothesis (shift_eq_zero top vanishes)

/-- Errors within as many bits as the register has. -/
theorem remainder_burst {polynomial : BitVec width} (top : polynomial.getLsbD (width - 1) = true)
    {burst : List Bool} (fits : burst.length ≤ width) (strikes : true ∈ burst) (before after : Nat) :
    remainder polynomial 0#(width)
      (List.replicate before false ++ burst ++ List.replicate after false) ≠ 0#(width) := by
  have nonzero : (pack burst : BitVec width) ≠ 0#(width) := by
    intro zero
    obtain ⟨index, bound, bit⟩ := List.mem_iff_getElem.mp strikes
    have packed := @getLsbD_pack width burst index
    rw [zero, List.getD_eq_getElem _ _ bound, bit] at packed
    simp [show index < width by omega] at packed
  rw [remainder_append, remainder_append, remainder_replicate_false polynomial 0#(width), iterate_shift_zero,
    remainder_eq polynomial _ fits, BitVec.zero_xor, remainder_replicate_false]
  exact iterate_shift_ne_zero top (iterate_shift_ne_zero top nonzero _) _

/-- Two errors, unless a lone bit comes back after as many shifts as lie between them. -/
theorem remainder_pair {polynomial : BitVec width} (top : polynomial.getLsbD (width - 1) = true)
    {distance : Nat} (apart : (shift polynomial)^[distance + 1] (lowest true) ≠ lowest true)
    (before after : Nat) :
    remainder polynomial 0#(width) (List.replicate before false ++
      true :: (List.replicate distance false ++ true :: List.replicate after false)) ≠ 0#(width) := by
  rw [remainder_append, remainder_replicate_false polynomial 0#(width), iterate_shift_zero, remainder_cons,
    absorb, BitVec.zero_xor, remainder_append, remainder_replicate_false, remainder_cons, absorb,
    remainder_replicate_false, ← Function.iterate_succ_apply]
  refine iterate_shift_ne_zero top (fun vanishes => apart ?_) after
  exact BitVec.xor_eq_zero_iff.mp (shift_eq_zero top vanishes)

/-- The sum of the bits of a register. -/
def parity (register : BitVec width) : ZMod 2 :=
  ∑ index ∈ Finset.range width, (register.getLsbD index).toNat

theorem parity_xor (first second : BitVec width) :
    parity (first ^^^ second) = parity first + parity second := by
  simp only [parity, ← Finset.sum_add_distrib]
  refine Finset.sum_congr rfl fun index _ => ?_
  rw [BitVec.getLsbD_xor]
  cases first.getLsbD index <;> cases second.getLsbD index <;> decide

theorem parity_ushiftRight (register : BitVec width) :
    parity (register >>> 1) + (register.getLsbD 0).toNat = parity register := by
  have outside : register.getLsbD width = false := BitVec.getLsbD_of_ge register width le_rfl
  have moved := Finset.sum_range_succ' (fun index => ((register.getLsbD index).toNat : ZMod 2)) width
  rw [Finset.sum_range_succ, outside] at moved
  simpa [parity, BitVec.getLsbD_ushiftRight, Nat.add_comm] using moved.symm

/-- A polynomial with an odd number of bits keeps the parity. -/
theorem parity_shift {polynomial : BitVec width} (odd : parity polynomial = 1) (register : BitVec width) :
    parity (shift polynomial register) = parity register := by
  have moved := parity_ushiftRight register
  cases low : register.getLsbD 0 with
  | false =>
    rw [shift, low, if_neg (by decide)]
    simpa [low] using moved
  | true =>
    rw [shift, low, if_pos rfl, parity_xor, odd]
    simpa [low] using moved

theorem parity_lowest (positive : 0 < width) (bit : Bool) :
    parity (lowest bit : BitVec width) = bit.toNat := by
  rw [parity, Finset.sum_eq_single_of_mem 0 (Finset.mem_range.mpr positive)]
  · rw [getLsbD_lowest]
    simp [positive]
  · intro index _ other
    rw [getLsbD_lowest]
    simp [other]

theorem parity_remainder {polynomial : BitVec width} (odd : parity polynomial = 1)
    (register : BitVec width) (bits : List Bool) :
    parity (remainder polynomial register bits) = parity register + bits.count true := by
  have positive : 0 < width := by
    rcases Nat.eq_zero_or_pos width with rfl | positive
    · simp [parity] at odd
    · exact positive
  induction bits generalizing register with
  | nil => simp
  | cons bit bits inductionHypothesis =>
    rw [remainder_cons, inductionHypothesis, absorb, parity_shift odd, parity_xor, parity_lowest positive,
      List.count_cons]
    cases bit with
    | false => simp
    | true =>
      simp
      ring

/-- An odd number of errors. -/
theorem remainder_odd {polynomial : BitVec width} (odd : parity polynomial = 1) {errors : List Bool}
    (strikes : Odd (errors.count true)) : remainder polynomial 0#(width) errors ≠ 0#(width) := by
  intro vanishes
  have sums := parity_remainder odd 0#(width) errors
  have zero : parity 0#(width) = 0 := by simp [parity]
  rw [vanishes, zero, zero_add, eq_comm, ZMod.natCast_eq_zero_iff_even] at sums
  exact Nat.not_even_iff_odd.mpr strikes sums

end Detection

end Library.Checksum
