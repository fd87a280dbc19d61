import ImeBridge.Machine.Memory

/-! # Real-mode memory

The mebibyte that pairs of a segment and an offset address.  Offsets wrap within their
segment; pairs of different segments may mean the same byte.
-/

namespace ImeBridge

/-- Sixteen times the segment plus the offset, in the 20 bits the 8086 has for it. -/
def linear (segment offset : Word) : BitVec 20 := (segment.setWidth 20 <<< 4) + offset.setWidth 20

theorem linear_injective {segment first second : Word} :
    linear segment first = linear segment second ↔ first = second := by
  constructor
  · intro same
    have widened : first.setWidth 20 = second.setWidth 20 := (BitVec.add_right_inj _).mp same
    have values := congrArg BitVec.toNat widened
    simp only [BitVec.toNat_setWidth] at values
    apply BitVec.eq_of_toNat_eq
    omega
  · rintro rfl
    rfl

/-- The bytes of the mebibyte. -/
def RealMemory := BitVec 20 → Byte

namespace RealMemory

variable (memory : RealMemory) (segment offset : Word)

/-- The 64 KiB behind a segment register. -/
def behind : Memory := fun offset => memory (linear segment offset)

def readByte : Byte := (memory.behind segment).readByte offset

def readWord : Word := (memory.behind segment).readWord offset

/-- The bytes from an offset on. -/
def readBytes (count : Nat) : List Byte :=
  (List.range count).map fun index => memory.readByte segment (offset + BitVec.ofNat 16 index)

def writeByte (value : Byte) : RealMemory :=
  fun address => if address = linear segment offset then value else memory address

def writeWord (value : Word) : RealMemory :=
  (memory.writeByte segment offset value.low).writeByte segment (offset + 1#16) value.high

/-- One byte after the other, the first at the offset. -/
def writeBytes (memory : RealMemory) (segment offset : Word) : List Byte → RealMemory
  | [] => memory
  | value :: values => (memory.writeByte segment offset value).writeBytes segment (offset + 1#16) values

variable {memory segment offset}

/-! ## Within one segment -/

@[simp] theorem behind_writeByte (value : Byte) :
    (memory.writeByte segment offset value).behind segment = (memory.behind segment).writeByte offset value := by
  funext other
  simp only [behind, writeByte, Memory.writeByte, Memory.readByte, linear_injective]

@[simp] theorem behind_writeWord (value : Word) :
    (memory.writeWord segment offset value).behind segment = (memory.behind segment).writeWord offset value := by
  rw [writeWord, behind_writeByte, behind_writeByte, Memory.writeWord]

/-- A row of bytes leaves alone what lies before it. -/
theorem readByte_writeBytes_before (values : List Byte) {distance : Nat} (positive : 0 < distance)
    (short : distance + values.length ≤ 2 ^ 16) :
    (memory.writeBytes segment (offset + BitVec.ofNat 16 distance) values).readByte segment offset =
      memory.readByte segment offset := by
  induction values generalizing memory distance with
  | nil => rfl
  | cons value values inductionHypothesis =>
    rw [List.length_cons] at short
    have apart : offset ≠ offset + BitVec.ofNat 16 distance := by
      intro same
      have values := congrArg BitVec.toNat same
      rw [BitVec.toNat_add, BitVec.toNat_ofNat] at values
      omega
    have next : offset + BitVec.ofNat 16 distance + 1#16 = offset + BitVec.ofNat 16 (distance + 1) := by
      rw [BitVec.ofNat_add, BitVec.add_assoc]
    rw [writeBytes, next, inductionHypothesis (by omega) (by omega), readByte, behind_writeByte,
      Memory.readByte_writeByte, if_neg apart, readByte]

theorem readBytes_succ (count : Nat) : memory.readBytes segment offset (count + 1) =
    memory.readByte segment offset :: memory.readBytes segment (offset + 1#16) count := by
  simp only [readBytes, List.range_succ_eq_map, List.map_cons, List.map_map]
  congr 1
  · simp
  · apply List.map_congr_left
    intro index _
    simp only [Function.comp_apply, Nat.succ_eq_add_one, BitVec.ofNat_add]
    rw [BitVec.add_comm (BitVec.ofNat 16 index), ← BitVec.add_assoc]

theorem readBytes_writeBytes (values : List Byte) (short : values.length ≤ 2 ^ 16) :
    (memory.writeBytes segment offset values).readBytes segment offset values.length = values := by
  induction values generalizing memory offset with
  | nil => rfl
  | cons value values inductionHypothesis =>
    rw [List.length_cons] at short ⊢
    have first : ((memory.writeByte segment offset value).writeBytes segment (offset + 1#16)
        values).readByte segment offset = value := by
      rw [readByte_writeBytes_before values Nat.one_pos (by omega), readByte, behind_writeByte,
        Memory.readByte_writeByte, if_pos rfl]
    rw [readBytes_succ, writeBytes, first, inductionHypothesis (by omega)]

/-! ## Across segments -/

theorem writeByte_elsewhere {address : BitVec 20} (value : Byte) (elsewhere : address ≠ linear segment offset) :
    memory.writeByte segment offset value address = memory address := if_neg elsewhere

theorem writeWord_elsewhere {address : BitVec 20} (value : Word) (low : address ≠ linear segment offset)
    (high : address ≠ linear segment (offset + 1#16)) :
    memory.writeWord segment offset value address = memory address := by
  rw [writeWord, writeByte_elsewhere _ high, writeByte_elsewhere _ low]

/-- Memories that agree on a row of bytes give the same row. -/
theorem readBytes_congr {later : RealMemory} {count : Nat}
    (same : ∀ index < count, later (linear segment (offset + BitVec.ofNat 16 index)) =
      memory (linear segment (offset + BitVec.ofNat 16 index))) :
    later.readBytes segment offset count = memory.readBytes segment offset count := by
  apply List.map_congr_left
  intro index member
  exact same index (List.mem_range.mp member)

end RealMemory

end ImeBridge
