import ImeBridge.Machine.Memory

/-! # The PC-98 BIOS keyboard queue

`dos/pc98/inject_bios_pc98.c` and the dequeue of `dos/pc98/tsr_hook.S`, over
segment 0.  The routines run with interrupts off from their first access to their
last, so each is one function of the memory; only `pc98_bios_inject` makes its tests
before the CLI, and here no interrupt comes between (`Keyboard.Injection` has those).
A text and its 16-bit length are one list; indices into it are `Nat`, since none of
them can pass the length.
-/

namespace ImeBridge

def pc98KbBufferStart : Word := 0x0502#16
def pc98KbBufferEnd : Word := 0x0522#16
def pc98KbHead : Word := 0x0524#16
def pc98KbTail : Word := 0x0526#16
def pc98KbCount : Word := 0x0528#16
def pc98KbCapacity : Byte := 16#8

def pc98ScanEsc : Byte := 0x00#8
def pc98ScanBackspace : Byte := 0x0e#8
def pc98ScanTab : Byte := 0x0f#8
def pc98ScanReturn : Byte := 0x1c#8
def pc98ScanSpace : Byte := 0x34#8

def carriageReturn : Byte := 0x0d#8
def lineFeed : Byte := 0x0a#8

/-- The number of key words a text becomes: CR LF counts once. -/
def normalizedLength : List Byte → Nat
  | [] => 0
  | [_] => 1
  | first :: second :: rest =>
    if first = carriageReturn ∧ second = lineFeed then normalizedLength rest + 1
    else normalizedLength (second :: rest) + 1

/-- The key word at `input`, and `input` again, moved over the LF of a CR LF. -/
def pc98BiosEncodeKey (text : List Byte) (length input : Nat) : Word × Nat :=
  let character := text.getD input 0
  if character = carriageReturn then
    (word character pc98ScanReturn,
      if input + 1 < length ∧ text.getD (input + 1) 0 = lineFeed then input + 1 else input)
  else if character = lineFeed then (word carriageReturn pc98ScanReturn, input)
  else if character = 0x08#8 then (word character pc98ScanBackspace, input)
  else if character = 0x09#8 then (word character pc98ScanTab, input)
  else if character = 0x1b#8 then (word character pc98ScanEsc, input)
  else (word character 0#8, input)

def pc98BiosEnqueueWord (key : Word) (memory : Memory) : Bool × Memory :=
  let position := memory.readWord pc98KbTail
  if memory.readByte pc98KbCount ≥ pc98KbCapacity ∨ position < pc98KbBufferStart ∨
      position ≥ pc98KbBufferEnd ∨ position &&& 1#16 ≠ 0#16 then (false, memory)
  else
    let memory := memory.writeWord position key
    let position := position + 2#16
    let position := if position ≥ pc98KbBufferEnd then pc98KbBufferStart else position
    let memory := memory.writeWord pc98KbTail position
    (true, memory.writeByte pc98KbCount (memory.readByte pc98KbCount + 1#8))

def pc98BiosDiscardHotkeySpace (memory : Memory) : Bool × Memory :=
  let position := memory.readWord pc98KbTail
  if memory.readByte pc98KbCount = 0#8 ∨ position < pc98KbBufferStart ∨
      position ≥ pc98KbBufferEnd ∨ position &&& 1#16 ≠ 0#16 then (false, memory)
  else
    let position :=
      if position = pc98KbBufferStart then pc98KbBufferEnd - 2#16 else position - 2#16
    let key := memory.readWord position
    if key.low ≠ 0x20#8 ∨ key.high ≠ pc98ScanSpace then (false, memory)
    else
      let memory := memory.writeWord pc98KbTail position
      (true, memory.writeByte pc98KbCount (memory.readByte pc98KbCount - 1#8))

/-- The `for` loop of `pc98_bios_inject` from index `i` on; a text of `fuel`
bytes never needs more than `fuel` turns. -/
def injectLoop (text : List Byte) : Nat → Nat → Memory → Bool × Memory
  | 0, _, memory => (true, memory)
  | fuel + 1, i, memory =>
    if i < text.length then
      if memory.readByte pc98KbCount ≥ pc98KbCapacity then (false, memory)
      else
        let position := memory.readWord pc98KbTail
        let (key, i) := pc98BiosEncodeKey text text.length i
        let memory := memory.writeWord position key
        let position := position + 2#16
        let position := if position ≥ pc98KbBufferEnd then pc98KbBufferStart else position
        let memory := memory.writeWord pc98KbTail position
        injectLoop text fuel (i + 1)
          (memory.writeByte pc98KbCount (memory.readByte pc98KbCount + 1#8))
    else (true, memory)

/-- `true` stands for the return value 1, `false` for -1. -/
def pc98BiosInject (text : List Byte) (memory : Memory) : Bool × Memory :=
  let outputLength := normalizedLength text
  if outputLength = 0 ∨ outputLength > pc98KbCapacity.toNat ∨ memory.readByte pc98KbCount ≠ 0#8 ∨
      memory.readWord pc98KbHead ≠ memory.readWord pc98KbTail then (false, memory)
  else injectLoop text text.length 0 memory

/-- `pc98_input_dequeue`: the word at the head, removed. -/
def pc98InputDequeue (memory : Memory) : Word × Memory :=
  let memory := memory.writeByte pc98KbCount (memory.readByte pc98KbCount - 1#8)
  let head := memory.readWord pc98KbHead
  let key := memory.readWord head
  let head := head + 2#16
  let head := if head < pc98KbBufferEnd then head else pc98KbBufferStart
  (key, memory.writeWord pc98KbHead head)

/-- `pc98_input_wait_queue`: `none` where the hook enables interrupts and halts. -/
def pc98InputWaitQueue (memory : Memory) : Option Word × Memory :=
  if memory.readByte pc98KbCount ≠ 0#8 then
    let (key, memory) := pc98InputDequeue memory
    (some key, memory)
  else (none, memory)

end ImeBridge
