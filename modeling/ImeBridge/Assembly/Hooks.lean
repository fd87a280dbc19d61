import ImeBridge.Library.Handlers
import ImeBridge.Machine.Memory

/-! # The hooks in assembly

`pc98_input_hook`, `pc98_serial_irq_hook` and `pc98_uninstall_prepare_entry` of
`tsr_hook.S`, instruction by instruction.  A block ends where the next label stands; one
that runs on into it does so by `through`.  The branch of `pc98_input_hook` that clears BH
has no label in the source and is given one here.
-/

namespace ImeBridge.Assembly

open Library.Handlers

/-! ## Variables -/

/-- What the hooks read and write besides the stack. -/
structure Resident where
  workerOldSs : Word := 0#16
  workerOldSp : Word := 0#16
  inputOriginalAh : Byte := 0#8
  returnedHotkeyHandled : Byte := 0#8
  inputHookCount : Word := 0#16
  inputAh00Count : Word := 0#16
  inputAh01Count : Word := 0#16
  inputAh02Count : Word := 0#16
  inputAh05Count : Word := 0#16
  inputOtherCount : Word := 0#16
  serialIrqCapture : Byte := 0#8
  serialIrqReadPos : Byte := 0#8
  serialIrqWritePos : Byte := 0#8
  serialIrqBuffer : Word → Byte := fun _ => 0#8
  serialIrqEntryCount : Word := 0#16
  serialIrqRxReadyCount : Word := 0#16
  serialIrqStoredCount : Word := 0#16
  serialStatusPort : Word := 0#16
  serialDataPort : Word := 0#16
  /-- By segment; the hooks only look at segment 0. -/
  memory : Word → Memory := fun _ => Memory.blank

/-- The variables that `tsr_hook.S` keeps to itself. -/
def Resident.confine (resident other : Resident) : Resident :=
  { other with
    workerOldSs := resident.workerOldSs
    workerOldSp := resident.workerOldSp
    inputOriginalAh := resident.inputOriginalAh
    returnedHotkeyHandled := resident.returnedHotkeyHandled }

/-- Where the resident copy lies. -/
structure Copy where
  segment : Word
  workerStackTop : Word

/-! ## Operands -/

/-- The routines the hooks call and the variables they decide on. -/
inductive Symbol where
  | pc98ServiceForeground
  | pc98ServiceReturnedHotkey
  | pc98PrepareUninstall
  | pc98InputOriginalAh
  | pc98ReturnedHotkeyHandled
  deriving DecidableEq, Repr

structure Register where
  get : Registers → Word
  set : Word → Registers → Registers

def ax : Register := ⟨(·.ax), fun value registers => { registers with ax := value }⟩
def bx : Register := ⟨(·.bx), fun value registers => { registers with bx := value }⟩
def cx : Register := ⟨(·.cx), fun value registers => { registers with cx := value }⟩
def dx : Register := ⟨(·.dx), fun value registers => { registers with dx := value }⟩
def si : Register := ⟨(·.si), fun value registers => { registers with si := value }⟩
def di : Register := ⟨(·.di), fun value registers => { registers with di := value }⟩
def bp : Register := ⟨(·.bp), fun value registers => { registers with bp := value }⟩
def ds : Register := ⟨(·.ds), fun value registers => { registers with ds := value }⟩
def es : Register := ⟨(·.es), fun value registers => { registers with es := value }⟩
def ss : Register := ⟨(·.ss), fun value registers => { registers with ss := value }⟩
def sp : Register := ⟨(·.sp), fun value registers => { registers with sp := value }⟩

/-- CS is only read. -/
def Copy.cs (copy : Copy) : Register := ⟨fun _ => copy.segment, fun _ registers => registers⟩

structure Operand (value : Type) where
  get : Registers → Resident → value
  set : value → Registers → Resident → Registers × Resident
  symbol : Option Symbol := none

instance : Coe Register (Operand Word) where
  coe register :=
    { get registers _ := register.get registers
      set value registers store := (register.set value registers, store) }

/-- A constant is only read. -/
def imm {value : Type} (constant : value) : Operand value where
  get _ _ := constant
  set _ registers store := (registers, store)

def lowHalf (register : Register) : Operand Byte where
  get registers _ := Word.low (register.get registers)
  set value registers store :=
    (register.set (word value (Word.high (register.get registers))) registers, store)

def highHalf (register : Register) : Operand Byte where
  get registers _ := Word.high (register.get registers)
  set value registers store :=
    (register.set (word (Word.low (register.get registers)) value) registers, store)

def al : Operand Byte := lowHalf ax
def ah : Operand Byte := highHalf ax
def bl : Operand Byte := lowHalf bx
def bh : Operand Byte := highHalf bx

/-- A variable behind `%cs:`. -/
def named {value : Type} (get : Resident → value) (set : value → Resident → Resident) :
    Operand value where
  get _ store := get store
  set value registers store := (registers, set value store)

def pc98WorkerOldSs : Operand Word :=
  named (·.workerOldSs) fun value store => { store with workerOldSs := value }
def pc98WorkerOldSp : Operand Word :=
  named (·.workerOldSp) fun value store => { store with workerOldSp := value }
def pc98InputOriginalAh : Operand Byte :=
  { named (·.inputOriginalAh) fun value store => { store with inputOriginalAh := value } with
    symbol := some .pc98InputOriginalAh }
def pc98ReturnedHotkeyHandled : Operand Byte :=
  { named (·.returnedHotkeyHandled)
      fun value store => { store with returnedHotkeyHandled := value } with
    symbol := some .pc98ReturnedHotkeyHandled }
def pc98InputHookCount : Operand Word :=
  named (·.inputHookCount) fun value store => { store with inputHookCount := value }
def pc98InputAh00Count : Operand Word :=
  named (·.inputAh00Count) fun value store => { store with inputAh00Count := value }
def pc98InputAh01Count : Operand Word :=
  named (·.inputAh01Count) fun value store => { store with inputAh01Count := value }
def pc98InputAh02Count : Operand Word :=
  named (·.inputAh02Count) fun value store => { store with inputAh02Count := value }
def pc98InputAh05Count : Operand Word :=
  named (·.inputAh05Count) fun value store => { store with inputAh05Count := value }
def pc98InputOtherCount : Operand Word :=
  named (·.inputOtherCount) fun value store => { store with inputOtherCount := value }
def pc98SerialIrqCapture : Operand Byte :=
  named (·.serialIrqCapture) fun value store => { store with serialIrqCapture := value }
def pc98SerialIrqReadPos : Operand Byte :=
  named (·.serialIrqReadPos) fun value store => { store with serialIrqReadPos := value }
def pc98SerialIrqWritePos : Operand Byte :=
  named (·.serialIrqWritePos) fun value store => { store with serialIrqWritePos := value }
def pc98SerialIrqEntryCount : Operand Word :=
  named (·.serialIrqEntryCount) fun value store => { store with serialIrqEntryCount := value }
def pc98SerialIrqRxReadyCount : Operand Word :=
  named (·.serialIrqRxReadyCount) fun value store => { store with serialIrqRxReadyCount := value }
def pc98SerialIrqStoredCount : Operand Word :=
  named (·.serialIrqStoredCount) fun value store => { store with serialIrqStoredCount := value }
def pc98SerialStatusPort : Operand Word :=
  named (·.serialStatusPort) fun value store => { store with serialStatusPort := value }
def pc98SerialDataPort : Operand Word :=
  named (·.serialDataPort) fun value store => { store with serialDataPort := value }

/-- `%cs:pc98_serial_irq_buffer(%bx)` -/
def pc98SerialIrqBufferBx : Operand Byte where
  get registers store := store.serialIrqBuffer registers.bx
  set value registers store :=
    (registers, { store with
      serialIrqBuffer := Function.update store.serialIrqBuffer registers.bx value })

/-- A byte behind `%es:`. -/
def esByte (offset : Word) : Operand Byte where
  get registers store := (store.memory registers.es).readByte offset
  set value registers store :=
    (registers, { store with
      memory := Function.update store.memory registers.es
        ((store.memory registers.es).writeByte offset value) })

/-- A word behind `%es:`. -/
def esWord (offset : Registers → Word) : Operand Word where
  get registers store := (store.memory registers.es).readWord (offset registers)
  set value registers store :=
    (registers, { store with
      memory := Function.update store.memory registers.es
        ((store.memory registers.es).writeWord (offset registers) value) })

attribute [simp] ax bx cx dx si di bp ds es ss sp Copy.cs imm lowHalf highHalf al ah bl bh named
  pc98WorkerOldSs pc98WorkerOldSp pc98InputOriginalAh pc98ReturnedHotkeyHandled pc98InputHookCount
  pc98InputAh00Count pc98InputAh01Count pc98InputAh02Count pc98InputAh05Count pc98InputOtherCount
  pc98SerialIrqCapture pc98SerialIrqReadPos pc98SerialIrqWritePos pc98SerialIrqEntryCount
  pc98SerialIrqRxReadyCount pc98SerialIrqStoredCount pc98SerialStatusPort pc98SerialDataPort
  pc98SerialIrqBufferBx esByte esWord

/-! ## Instructions -/

inductive Label where
  | pc98InputHook
  | pc98InputCountAh00
  | pc98InputCountAh01
  | pc98InputCountAh02
  | pc98InputCountAh05
  | pc98InputCountDone
  | pc98InputCallOld
  | pc98InputReturnedSpace
  | clearBh
  | pc98InputRetryBlocking
  | pc98InputWaitQueue
  | pc98InputDequeue
  | pc98InputStoreHead
  | pc98InputReturn
  | pc98SerialIrqHook
  | pc98SerialIrqEoi
  | pc98SerialIrqNotReceive
  | pc98SerialIrqChain
  | pc98UninstallPrepareEntry
  deriving DecidableEq, Repr

abbrev Command := Instruction Label Symbol Resident

def pushf : Command := .pushf
def popf : Command := .popf
def pushw (register : Register) : Command := .push register.get
def popw (register : Register) : Command := .pop register.set
def cli : Command := .cli
def sti : Command := .sti
def hlt : Command := .hlt
def iret : Command := .iret
def lret : Command := .lret
def call (routine : Symbol) : Command := .call routine

/-- The direction flag is left out. -/
def cld : Command := .data fun registers store => (registers, store)

def mov {value : Type} (source target : Operand value) : Command :=
  .data fun registers store => target.set (source.get registers store) registers store

abbrev movw (source target : Operand Word) : Command := mov source target
abbrev movb (source target : Operand Byte) : Command := mov source target

/-- Arithmetic whose flags nothing looks at. -/
def arithmetic {value : Type} (compute : value → value → value) (source target : Operand value) :
    Command :=
  .data fun registers store =>
    target.set (compute (target.get registers store) (source.get registers store)) registers store

def incw (target : Operand Word) : Command := arithmetic (· + ·) (imm 1#16) target
def incb (target : Operand Byte) : Command := arithmetic (· + ·) (imm 1#8) target
def decb (target : Operand Byte) : Command := arithmetic (· - ·) (imm 1#8) target
def addw (source target : Operand Word) : Command := arithmetic (· + ·) source target
def andb (source target : Operand Byte) : Command := arithmetic (· &&& ·) source target
def xorw (source target : Operand Word) : Command := arithmetic (· ^^^ ·) source target
def xorb (source target : Operand Byte) : Command := arithmetic (· ^^^ ·) source target

def cmp {width : Nat} (source target : Operand (BitVec width)) : Command :=
  .compare target.symbol fun registers store =>
    (target.get registers store == source.get registers store,
      (target.get registers store).ult (source.get registers store))

abbrev cmpw (source target : Operand Word) : Command := cmp source target
abbrev cmpb (source target : Operand Byte) : Command := cmp source target

def testb (source target : Operand Byte) : Command :=
  .compare none fun registers store =>
    (target.get registers store &&& source.get registers store == 0#8, false)

/-- The port's byte goes to AL. -/
def inb : Command :=
  .input fun byte registers => { registers with ax := word byte (Word.high registers.ax) }

/-- Nothing here depends on what is written to a port. -/
def outb : Command := .data fun registers store => (registers, store)

def jmp (target : Label) : Command := .jump (fun _ => true) target
def je (target : Label) : Command := .jump zero target
def jne (target : Label) : Command := .jump (fun flags => !zero flags) target
def jz (target : Label) : Command := .jump zero target
def jb (target : Label) : Command := .jump carry target

/-- The next label stands here. -/
def through (label : Label) : Command := jmp label

/-- `lcall *%cs:pc98_old_input_vector` -/
def lcallOldInputVector : Command := .callPrevious

/-- `ljmp *%cs:pc98_old_serial_irq_vector` -/
def ljmpOldSerialIrqVector : Command := .jumpPrevious

attribute [simp] pushf popf pushw popw cli sti hlt iret lret call cld mov arithmetic incw incb decb
  addw andb xorw xorb cmp testb inb outb jmp je jne jz jb through lcallOldInputVector
  ljmpOldSerialIrqVector

/-! ## The code -/

def Copy.code (copy : Copy) : Label → List Command
  | .pc98InputHook =>
    [pushf,
      movb ah pc98InputOriginalAh,
      incw pc98InputHookCount,
      cmpb (imm 0x00#8) ah,
      je .pc98InputCountAh00,
      cmpb (imm 0x01#8) ah,
      je .pc98InputCountAh01,
      cmpb (imm 0x02#8) ah,
      je .pc98InputCountAh02,
      cmpb (imm 0x05#8) ah,
      je .pc98InputCountAh05,
      incw pc98InputOtherCount,
      jmp .pc98InputCountDone]
  | .pc98InputCountAh00 =>
    [incw pc98InputAh00Count,
      jmp .pc98InputCountDone]
  | .pc98InputCountAh01 =>
    [incw pc98InputAh01Count,
      jmp .pc98InputCountDone]
  | .pc98InputCountAh02 =>
    [incw pc98InputAh02Count,
      jmp .pc98InputCountDone]
  | .pc98InputCountAh05 =>
    [incw pc98InputAh05Count,
      through .pc98InputCountDone]
  | .pc98InputCountDone =>
    [pushw ax,
      pushw bx,
      pushw cx,
      pushw dx,
      pushw si,
      pushw di,
      pushw bp,
      pushw ds,
      pushw es,
      pushw copy.cs,
      popw ds,
      cli,
      movw ss ax,
      movw ax pc98WorkerOldSs,
      movw sp pc98WorkerOldSp,
      pushw copy.cs,
      popw ss,
      movw (imm copy.workerStackTop) sp,
      call .pc98ServiceForeground,
      cli,
      movw pc98WorkerOldSs ax,
      movw pc98WorkerOldSp bx,
      movw ax ss,
      movw bx sp,
      popw es,
      popw ds,
      popw bp,
      popw di,
      popw si,
      popw dx,
      popw cx,
      popw bx,
      popw ax,
      popf,
      through .pc98InputCallOld]
  | .pc98InputCallOld =>
    [pushf,
      lcallOldInputVector,
      cmpw (imm 0x3420#16) ax,
      jne .pc98InputReturn,
      through .pc98InputReturnedSpace]
  | .pc98InputReturnedSpace =>
    [pushf,
      pushw ax,
      pushw bx,
      pushw cx,
      pushw dx,
      pushw si,
      pushw di,
      pushw bp,
      pushw ds,
      pushw es,
      pushw copy.cs,
      popw ds,
      cli,
      movw ss ax,
      movw ax pc98WorkerOldSs,
      movw sp pc98WorkerOldSp,
      pushw copy.cs,
      popw ss,
      movw (imm copy.workerStackTop) sp,
      call .pc98ServiceReturnedHotkey,
      movb al pc98ReturnedHotkeyHandled,
      cli,
      movw pc98WorkerOldSs ax,
      movw pc98WorkerOldSp bx,
      movw ax ss,
      movw bx sp,
      popw es,
      popw ds,
      popw bp,
      popw di,
      popw si,
      popw dx,
      popw cx,
      popw bx,
      popw ax,
      popf,
      cmpb (imm 0#8) pc98ReturnedHotkeyHandled,
      je .pc98InputReturn,
      cmpb (imm 0x00#8) pc98InputOriginalAh,
      je .pc98InputRetryBlocking,
      cmpb (imm 0x05#8) pc98InputOriginalAh,
      jne .pc98InputReturn,
      through .clearBh]
  | .clearBh =>
    [xorb bh bh,
      jmp .pc98InputReturn]
  | .pc98InputRetryBlocking => [through .pc98InputWaitQueue]
  | .pc98InputWaitQueue =>
    [cli,
      pushw bx,
      pushw es,
      xorw ax ax,
      movw ax es,
      cmpb (imm 0#8) (esByte 0x0528#16),
      jne .pc98InputDequeue,
      popw es,
      popw bx,
      sti,
      hlt,
      jmp .pc98InputWaitQueue]
  | .pc98InputDequeue =>
    [decb (esByte 0x0528#16),
      movw (esWord fun _ => 0x0524#16) bx,
      movw (esWord fun registers => registers.bx) ax,
      addw (imm 2#16) bx,
      cmpw (imm 0x0522#16) bx,
      jb .pc98InputStoreHead,
      movw (imm 0x0502#16) bx,
      through .pc98InputStoreHead]
  | .pc98InputStoreHead =>
    [movw bx (esWord fun _ => 0x0524#16),
      popw es,
      popw bx,
      cmpw (imm 0x3420#16) ax,
      je .pc98InputReturnedSpace,
      jmp .pc98InputReturn]
  | .pc98InputReturn => [iret]
  | .pc98SerialIrqHook =>
    [cmpb (imm 0#8) pc98SerialIrqCapture,
      je .pc98SerialIrqChain,
      pushw ax,
      pushw bx,
      pushw dx,
      incw pc98SerialIrqEntryCount,
      movw pc98SerialStatusPort dx,
      inb,
      testb (imm 0x02#8) al,
      jz .pc98SerialIrqNotReceive,
      incw pc98SerialIrqRxReadyCount,
      movw pc98SerialDataPort dx,
      inb,
      movb pc98SerialIrqWritePos bl,
      xorb bh bh,
      movb bl ah,
      incb ah,
      andb (imm 0x7f#8) ah,
      cmpb pc98SerialIrqReadPos ah,
      je .pc98SerialIrqEoi,
      movb al pc98SerialIrqBufferBx,
      movb ah pc98SerialIrqWritePos,
      incw pc98SerialIrqStoredCount,
      through .pc98SerialIrqEoi]
  | .pc98SerialIrqEoi =>
    [movw (imm 0x0000#16) dx,
      movb (imm 0x20#8) al,
      outb,
      pushw cx,
      pushw si,
      pushw di,
      pushw bp,
      pushw ds,
      pushw es,
      pushw copy.cs,
      popw ds,
      cli,
      movw ss ax,
      movw ax pc98WorkerOldSs,
      movw sp pc98WorkerOldSp,
      pushw copy.cs,
      popw ss,
      movw (imm copy.workerStackTop) sp,
      call .pc98ServiceForeground,
      cli,
      movw pc98WorkerOldSs ax,
      movw pc98WorkerOldSp bx,
      movw ax ss,
      movw bx sp,
      popw es,
      popw ds,
      popw bp,
      popw di,
      popw si,
      popw cx,
      popw dx,
      popw bx,
      popw ax,
      iret]
  | .pc98SerialIrqNotReceive =>
    [popw dx,
      popw bx,
      popw ax,
      through .pc98SerialIrqChain]
  | .pc98SerialIrqChain => [ljmpOldSerialIrqVector]
  | .pc98UninstallPrepareEntry =>
    [pushf,
      cli,
      pushw ax,
      pushw bx,
      pushw cx,
      pushw dx,
      pushw si,
      pushw di,
      pushw bp,
      pushw ds,
      pushw es,
      movw ss ax,
      movw ax pc98WorkerOldSs,
      movw sp pc98WorkerOldSp,
      pushw copy.cs,
      popw ds,
      pushw copy.cs,
      popw ss,
      movw (imm copy.workerStackTop) sp,
      cld,
      call .pc98PrepareUninstall,
      cli,
      movw pc98WorkerOldSs ax,
      movw pc98WorkerOldSp bx,
      movw ax ss,
      movw bx sp,
      popw es,
      popw ds,
      popw bp,
      popw di,
      popw si,
      popw dx,
      popw cx,
      popw bx,
      popw ax,
      popf,
      lret]

/-- What an observer of an INT 18h call remembers. -/
structure Observed where
  /-- The registers with which the previous handler came back. -/
  returned : Registers := {}
  /-- The last answer of `pc98_service_returned_hotkey`. -/
  handled : Bool := false
  /-- A word was not given to the caller. -/
  suppressed : Bool := false

def Observed.jumps (target : Label) (observed : Observed) : Observed :=
  match target with
  | .clearBh | .pc98InputRetryBlocking => { observed with suppressed := true }
  | _ => observed

def Observed.called (routine : Symbol) (registers : Registers) (observed : Observed) : Observed :=
  match routine with
  | .pc98ServiceReturnedHotkey => { observed with handled := Word.low registers.ax != 0#8 }
  | _ => observed

attribute [simp] Observed.jumps Observed.called

@[simps]
def Copy.hooks (copy : Copy) : Program Label Symbol Resident Observed where
  code := copy.code
  enters
    | .pc98InputHook => some false
    | .pc98UninstallPrepareEntry => some true
    | _ => none
  irq := .pc98SerialIrqHook
  confine := Resident.confine
  confine_self _ := rfl
  confine_confine _ _ _ := rfl
  start := {}
  jumps := Observed.jumps
  called := Observed.called
  returned registers observed := { observed with returned := registers }

end ImeBridge.Assembly
