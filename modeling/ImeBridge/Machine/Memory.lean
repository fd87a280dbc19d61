import Mathlib.Tactic

/-! # Bytes, words and segment 0

The 8086 view of memory the C code relies on: bytes of 8 bits, little-endian
words of 16 bits, and one 64 KiB segment in which offsets wrap.  The PC-98 BIOS
data area lives in segment 0.
-/

namespace ImeBridge

abbrev Byte := BitVec 8
abbrev Word := BitVec 16

/-- `(unsigned short)low | ((unsigned short)high << 8)` -/
def word (low high : Byte) : Word := high ++ low

/-- `(unsigned char)value` -/
def Word.low (value : Word) : Byte := value.extractLsb' 0 8

/-- `(unsigned char)(value >> 8)` -/
def Word.high (value : Word) : Byte := value.extractLsb' 8 8

@[simp] theorem word_low_high (value : Word) : word value.low value.high = value := by
  apply BitVec.eq_of_getLsbD_eq
  intro index bound
  simp [word, Word.low, Word.high]
  grind

@[simp] theorem low_word (low high : Byte) : (word low high).low = low := by
  apply BitVec.eq_of_getLsbD_eq
  intro index bound
  simp [word, Word.low]
  grind

@[simp] theorem high_word (low high : Byte) : (word low high).high = high := by
  apply BitVec.eq_of_getLsbD_eq
  intro index bound
  simp [word, Word.high]
  grind

/-- A word is its two bytes. -/
theorem word_eq_iff (value : Word) (low high : Byte) :
    value = word low high ↔ value.low = low ∧ value.high = high := by
  constructor
  · rintro rfl
    simp
  · rintro ⟨rfl, rfl⟩
    simp

/-- The bytes of segment 0, by offset. -/
def Memory := Word → Byte

namespace Memory

def blank : Memory := fun _ => 0#8

variable (memory : Memory)

def readByte (address : Word) : Byte := memory address

/-- A word access takes the byte at `address` and the one after it; offsets wrap. -/
def readWord (address : Word) : Word :=
  word (memory.readByte address) (memory.readByte (address + 1#16))

def writeByte (address : Word) (value : Byte) : Memory :=
  fun other => if other = address then value else memory.readByte other

def writeWord (address : Word) (value : Word) : Memory :=
  (memory.writeByte address value.low).writeByte (address + 1#16) value.high

@[simp] theorem readByte_writeByte (address other : Word) (value : Byte) :
    (memory.writeByte address value).readByte other =
      if other = address then value else memory.readByte other := rfl

theorem readByte_writeWord_apart {address other : Word} (value : Word)
    (apart : other ≠ address) (apartNext : other ≠ address + 1#16) :
    (memory.writeWord address value).readByte other = memory.readByte other := by
  simp [writeWord, apart, apartNext]

@[simp] theorem readWord_writeWord_same (address value : Word) :
    (memory.writeWord address value).readWord address = value := by
  have next : address ≠ address + 1#16 := by bv_omega
  simp [writeWord, readWord, next]

/-- Two words that do not overlap do not disturb each other. -/
theorem readWord_writeWord_apart {address other : Word} (value : Word) (apart : other ≠ address)
    (apartNext : other ≠ address + 1#16) (apartPrevious : other + 1#16 ≠ address) :
    (memory.writeWord address value).readWord other = memory.readWord other := by
  have apartBoth : other + 1#16 ≠ address + 1#16 := by bv_omega
  simp [writeWord, readWord, apart, apartNext, apartPrevious, apartBoth]

theorem readWord_writeByte_apart {address other : Word} (value : Byte) (apart : other ≠ address)
    (apartNext : other + 1#16 ≠ address) :
    (memory.writeByte address value).readWord other = memory.readWord other := by
  simp [readWord, apart, apartNext]

/-! ## What a routine leaves alone -/

/-- Two memories have the same bytes at all addresses but those of an area. -/
def SameOutside (area : Word → Prop) (memory later : Memory) : Prop :=
  ∀ address, ¬ area address → later.readByte address = memory.readByte address

variable {memory}

namespace SameOutside

variable {area : Word → Prop} {between later : Memory}

theorem refl (memory : Memory) : SameOutside area memory memory := fun _ _ => rfl

theorem trans (first : SameOutside area memory between) (second : SameOutside area between later) :
    SameOutside area memory later :=
  fun address outside => (second address outside).trans (first address outside)

theorem writeByte (same : SameOutside area memory between) {address : Word} (inside : area address)
    (value : Byte) : SameOutside area memory (between.writeByte address value) := by
  intro other outside
  have apart : other ≠ address := by
    rintro rfl
    exact outside inside
  rw [readByte_writeByte, if_neg apart]
  exact same other outside

theorem writeWord (same : SameOutside area memory between) {address : Word} (low : area address)
    (high : area (address + 1#16)) (value : Word) :
    SameOutside area memory (between.writeWord address value) :=
  (same.writeByte low value.low).writeByte high value.high

end SameOutside

end Memory

end ImeBridge
