import ImeBridge.Library.Checksum
import ImeBridge.Wire.Frame

/-! # What the checksum catches

`ime_crc16` as a cyclic checksum over the bits in the order of the wire, byte by byte
and each byte from its lowest bit on.  A packet with its checksum leaves no remainder,
whatever the data, and the errors below always leave one.
-/

namespace ImeBridge

open Library

/-- The bits of some bytes in the order of the wire. -/
def wireBits (bytes : List Byte) : List Bool := bytes.flatMap Checksum.bits

@[simp] theorem wireBits_cons (value : Byte) (bytes : List Byte) :
    wireBits (value :: bytes) = Checksum.bits value ++ wireBits bytes := List.flatMap_cons

/-- Bytes whose bits are flipped at the positions struck. -/
def strike (strikes : Nat → Bool) (bytes : List Byte) : List Byte :=
  bytes.mapIdx fun index value =>
    value ^^^ Checksum.pack ((List.range 8).map fun bit => strikes (8 * index + bit))

def flipBits (flips : Finset Nat) (bytes : List Byte) : List Byte := strike (fun position => position ∈ flips) bytes

/-! ## The loop as a cyclic checksum -/

theorem crcBit_eq_shift : crcBit = Checksum.shift 0xA001#16 := by
  funext crc
  have odd : crc &&& 1#16 = 1#16 ↔ crc.getLsbD 0 = true := by
    rw [BitVec.and_one_eq_setWidth_ofBool_getLsbD]
    cases crc.getLsbD 0 <;> decide
  simp only [crcBit, Checksum.shift, odd]

theorem crcByte_eq (crc : Word) (value : Byte) :
    crcByte crc value = Checksum.remainder 0xA001#16 crc (Checksum.bits value) := by
  rw [Checksum.remainder_eq _ _ (by simp), Checksum.length_bits, Checksum.pack_bits, crcByte, crcBit_eq_shift]

theorem foldl_crcByte (crc : Word) (bytes : List Byte) :
    bytes.foldl crcByte crc = Checksum.remainder 0xA001#16 crc (wireBits bytes) := by
  induction bytes generalizing crc with
  | nil => rfl
  | cons value bytes inductionHypothesis =>
    rw [List.foldl_cons, inductionHypothesis, crcByte_eq, wireBits_cons, Checksum.remainder_append]

theorem range_add_map {Value : Type} (first second : Nat) (value : Nat → Value) :
    (List.range (first + second)).map value =
      (List.range first).map value ++ (List.range second).map fun index => value (first + index) := by
  rw [List.range_add, List.map_append, List.map_map]
  rfl

/-- The checksum goes out in the order in which its register takes bits in. -/
theorem wireBits_word (value : Word) : wireBits [value.low, value.high] = Checksum.bits value := by
  have low : Checksum.bits value.low = (List.range 8).map value.getLsbD := by
    refine List.map_congr_left fun index member => ?_
    rw [List.mem_range] at member
    simp [Word.low, member]
  have high : Checksum.bits value.high = (List.range 8).map fun index => value.getLsbD (8 + index) := by
    refine List.map_congr_left fun index member => ?_
    rw [List.mem_range] at member
    simp [Word.high, member]
  have whole : Checksum.bits value = (List.range (8 + 8)).map value.getLsbD := rfl
  rw [whole, range_add_map, wireBits_cons, wireBits_cons, low, high]
  exact congrArg _ (List.append_nil _)

/-- What the parser accepts leaves no remainder. -/
theorem remainder_of_parse {packet : List Byte} {parsed : Packet}
    (accepted : imePacketParse packet = some parsed) :
    Checksum.remainder 0xA001#16 0xFFFF#16 (wireBits packet) = 0#16 := by
  obtain ⟨frame, rfl, good, _⟩ := exists_frame_of_parse accepted
  have split : wireBits frame.bytes = wireBits frame.body ++ Checksum.bits frame.crc := by
    rw [← wireBits_word, Frame.bytes, wireBits, List.flatMap_append]
    rfl
  rw [split, Checksum.remainder_append, ← foldl_crcByte, ← imeCrc16, ← good.2, Checksum.remainder_bits_self]

/-! ## Flipped bits -/

theorem bits_xor_pack (value : Byte) (strikes : Nat → Bool) :
    Checksum.bits (value ^^^ Checksum.pack ((List.range 8).map strikes)) =
      List.zipWith xor (Checksum.bits value) ((List.range 8).map strikes) := by
  rw [Checksum.bits, Checksum.bits, List.zipWith_map, List.zipWith_self]
  refine List.map_congr_left fun index member => ?_
  rw [List.mem_range] at member
  rw [BitVec.getLsbD_xor, Checksum.getLsbD_pack, List.getD_eq_getElem _ _ (by simpa using member)]
  simp [member]

@[simp] theorem length_wireBits (bytes : List Byte) : (wireBits bytes).length = 8 * bytes.length := by
  induction bytes with
  | nil => rfl
  | cons value bytes inductionHypothesis =>
    rw [wireBits_cons, List.length_append, Checksum.length_bits, inductionHypothesis, List.length_cons]
    ring

theorem wireBits_strike (strikes : Nat → Bool) (bytes : List Byte) :
    wireBits (strike strikes bytes) =
      List.zipWith xor (wireBits bytes) ((List.range (8 * bytes.length)).map strikes) := by
  induction bytes generalizing strikes with
  | nil => rfl
  | cons value bytes inductionHypothesis =>
    have rest : strike strikes (value :: bytes) =
        (value ^^^ Checksum.pack ((List.range 8).map strikes)) ::
          strike (fun position => strikes (8 + position)) bytes := by
      simp only [strike, List.mapIdx_cons, Nat.mul_zero, Nat.zero_add]
      congr 2
      funext index value
      congr 3
      funext bit
      congr 1
      ring
    rw [rest, List.length_cons, Nat.mul_add, Nat.mul_one, Nat.add_comm (8 * bytes.length), range_add_map,
      wireBits_cons, wireBits_cons, inductionHypothesis, bits_xor_pack, List.zipWith_append (by simp)]

/-- Flipped bits that leave a remainder of their own are not accepted. -/
theorem parse_strike {packet : List Byte} {parsed : Packet} (accepted : imePacketParse packet = some parsed)
    {strikes : Nat → Bool}
    (remains : Checksum.remainder 0xA001#16 0#16 ((List.range (8 * packet.length)).map strikes) ≠ 0#16) :
    imePacketParse (strike strikes packet) = none := by
  cases result : imePacketParse (strike strikes packet) with
  | none => rfl
  | some other =>
    have first := remainder_of_parse accepted
    have second := remainder_of_parse result
    have linear := Checksum.remainder_xor 0xA001#16 0xFFFF#16 0#16
      (by simp : (wireBits packet).length = ((List.range (8 * packet.length)).map strikes).length)
    rw [BitVec.xor_zero, ← wireBits_strike, second, first, BitVec.zero_xor] at linear
    exact absurd linear.symm remains

/-! ## The three kinds of errors -/

theorem map_range_false {strikes : Nat → Bool} {count : Nat}
    (quiet : ∀ position < count, strikes position = false) :
    (List.range count).map strikes = List.replicate count false := by
  have same := List.map_eq_replicate_iff.mpr fun position member => quiet position (List.mem_range.mp member)
  rwa [List.length_range] at same

/-- All flipped bits lie within sixteen positions. -/
theorem remainder_flips_burst {flips : Finset Nat} {size start : Nat} (inside : flips ⊆ Finset.range size)
    (some : flips.Nonempty) (close : ∀ position ∈ flips, start ≤ position ∧ position < start + 16) :
    Checksum.remainder 0xA001#16 0#16
      ((List.range size).map fun position => decide (position ∈ flips)) ≠ 0#16 := by
  obtain ⟨struck, member⟩ := some
  have below := Finset.mem_range.mp (inside member)
  have near := close struck member
  obtain ⟨burst, rest, size_eq, short, reaches⟩ : ∃ burst rest, size = start + (burst + rest) ∧
      burst ≤ 16 ∧ (rest ≠ 0 → burst = 16) :=
    ⟨min 16 (size - start), size - start - min 16 (size - start), by omega, by omega, by omega⟩
  have before : ∀ position < start, decide (position ∈ flips) = false := by
    intro position earlier
    exact decide_eq_false fun hit => absurd (close position hit).1 (by omega)
  have after : ∀ position < rest, decide (start + (burst + position) ∈ flips) = false := by
    intro position later
    exact decide_eq_false fun hit => absurd (close _ hit).2 (by omega)
  rw [size_eq, range_add_map, range_add_map, map_range_false before, map_range_false after, ← List.append_assoc]
  refine Checksum.remainder_burst (by decide) (by simpa using short) ?_ _ _
  refine List.mem_map.mpr ⟨struck - start, List.mem_range.mpr (by omega), ?_⟩
  rw [Nat.add_sub_cancel' near.1]
  exact decide_eq_true member

theorem remainder_flips_odd {flips : Finset Nat} {size : Nat} (inside : flips ⊆ Finset.range size)
    (odd : Odd flips.card) :
    Checksum.remainder 0xA001#16 0#16
      ((List.range size).map fun position => decide (position ∈ flips)) ≠ 0#16 := by
  have counted : ((List.range size).map fun position => decide (position ∈ flips)).count true = flips.card := by
    have filtered : (Finset.range size).filter (fun position => position ∈ flips) = flips := by
      rw [Finset.filter_mem_eq_inter, Finset.inter_eq_right.mpr inside]
    conv_rhs => rw [← filtered]
    rw [List.count_eq_countP, List.countP_map, List.countP_eq_length_filter]
    simp only [Function.comp_def, beq_true, Finset.filter, Finset.range, Finset.card]
    rfl
  exact Checksum.remainder_odd (by decide) (by rwa [counted])

/-- The register does not come to a value again within so many shifts. -/
def away : Nat → Word → Bool
  | 0, _ => true
  | count + 1, register => crcBit register != 1#16 && away count (crcBit register)

theorem iterate_ne_one {count : Nat} {register : Word} (stays : away count register = true) {shifts : Nat}
    (positive : 0 < shifts) (bound : shifts ≤ count) : crcBit^[shifts] register ≠ 1#16 := by
  induction count generalizing register shifts with
  | zero => omega
  | succ count inductionHypothesis =>
    simp only [away, Bool.and_eq_true, bne_iff_ne] at stays
    obtain ⟨shifts, rfl⟩ : ∃ rest, shifts = rest + 1 := ⟨shifts - 1, by omega⟩
    rw [Function.iterate_succ_apply]
    cases shifts with
    | zero => exact stays.1
    | succ shifts => exact inductionHypothesis stays.2 (by omega) (by omega)

/-- A lone bit does not come back within the bits of the longest packet. -/
theorem away_longest : away 4175 1#16 = true := by decide +kernel

theorem remainder_flips_pair {flips : Finset Nat} {size : Nat} (inside : flips ⊆ Finset.range size)
    (longest : size ≤ 4176) (two : flips.card = 2) :
    Checksum.remainder 0xA001#16 0#16
      ((List.range size).map fun position => decide (position ∈ flips)) ≠ 0#16 := by
  obtain ⟨first, second, order, rfl⟩ : ∃ first second, first < second ∧ flips = {first, second} := by
    obtain ⟨first, second, differ, rfl⟩ := Finset.card_eq_two.mp two
    rcases Nat.lt_or_gt_of_ne differ with order | order
    · exact ⟨first, second, order, rfl⟩
    · exact ⟨second, first, order, Finset.pair_comm _ _⟩
  have bound : second < size := Finset.mem_range.mp (inside (by simp))
  obtain ⟨distance, rfl⟩ : ∃ distance, second = first + (1 + distance) := ⟨second - first - 1, by omega⟩
  obtain ⟨rest, rfl⟩ : ∃ rest, size = first + (1 + (distance + (1 + rest))) :=
    ⟨size - first - distance - 2, by omega⟩
  have apart := iterate_ne_one away_longest (Nat.succ_pos distance) (by omega)
  rw [crcBit_eq_shift] at apart
  have quiet : ∀ position, position ≠ first → position ≠ first + (1 + distance) →
      decide (position ∈ ({first, first + (1 + distance)} : Finset Nat)) = false := by
    intro position notFirst notSecond
    simp [notFirst, notSecond]
  have before := map_range_false fun position (below : position < first) =>
    quiet position (by omega) (by omega)
  have between := map_range_false fun position (below : position < distance) =>
    quiet (first + (1 + position)) (by omega) (by omega)
  have after := map_range_false fun position (_ : position < rest) =>
    quiet (first + (1 + (distance + (1 + position)))) (by omega) (by omega)
  rw [range_add_map, range_add_map, range_add_map, range_add_map, before, between, after]
  simpa [Nat.add_assoc] using Checksum.remainder_pair (by decide) apart first rest

/-- The parser rejects what it would accept but for flipped bits that all lie within
sixteen positions, or are odd in number, or are two. -/
theorem imePacketParse_flipBits {packet : List Byte} {parsed : Packet}
    (accepted : imePacketParse packet = some parsed) {flips : Finset Nat}
    (inside : flips ⊆ Finset.range (8 * packet.length)) (some : flips.Nonempty)
    (kind : (∃ start, ∀ position ∈ flips, start ≤ position ∧ position < start + 16) ∨
      Odd flips.card ∨ flips.card = 2) :
    imePacketParse (flipBits flips packet) = none := by
  refine parse_strike accepted ?_
  rcases kind with ⟨start, close⟩ | odd | two
  · exact remainder_flips_burst inside some close
  · exact remainder_flips_odd inside odd
  · obtain ⟨frame, rfl, _⟩ := exists_frame_of_parse accepted
    have fits := frame.fits
    simp only [imeMaxPayload] at fits
    exact remainder_flips_pair inside (by rw [Frame.length_bytes]; omega) two

/-- The lowest bit of the type of a PING, and a bit of its checksum. -/
theorem imePacketParse_flipBits_ping :
    imePacketParse (flipBits {24, 75} (imePacketBuild imePing 1#16 [])) = none := by
  have accepted := (imePacketBuild_imePacketParse.1 imePing 1#16 [] (by decide)).2
  exact imePacketParse_flipBits accepted (by decide) (by decide) (.inr (.inr (by decide)))

end ImeBridge
