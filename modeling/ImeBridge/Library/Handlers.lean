import Mathlib.Tactic

/-! # Handlers in assembly that interrupt one another

An 8086 as far as a handler can spoil it for the code it interrupts: the registers, FLAGS,
the words on the stacks, and a store for everything else.  Handlers are blocks of
instructions under labels.  What runs around them is not code here: other programs, the
handlers that were installed before, and the routines the handlers call may do anything
but write over stack words of handlers that are still to go on.
-/

namespace Library.Handlers

abbrev Word := BitVec 16
abbrev Byte := BitVec 8

structure Registers where
  ax : Word := 0#16
  bx : Word := 0#16
  cx : Word := 0#16
  dx : Word := 0#16
  si : Word := 0#16
  di : Word := 0#16
  bp : Word := 0#16
  ds : Word := 0#16
  es : Word := 0#16
  ss : Word := 0#16
  sp : Word := 0#16
  deriving DecidableEq, Repr

/-! ## FLAGS -/

def interrupts (flags : Word) : Bool := flags.getLsbD 9
def zero (flags : Word) : Bool := flags.getLsbD 6
def carry (flags : Word) : Bool := flags.getLsbD 0

def disabled (flags : Word) : Word := flags &&& ~~~0x0200#16
def enabled (flags : Word) : Word := flags ||| 0x0200#16

/-- Of the arithmetic flags only those that a jump looks at are computed. -/
def compared (isZero isCarry : Bool) (flags : Word) : Word :=
  (flags &&& ~~~0x0041#16) ||| (if isZero then 0x0040#16 else 0#16) |||
    (if isCarry then 0x0001#16 else 0#16)

@[simp] theorem interrupts_disabled (flags : Word) : interrupts (disabled flags) = false := by
  simp [interrupts, disabled]

@[simp] theorem interrupts_compared (isZero isCarry : Bool) (flags : Word) :
    interrupts (compared isZero isCarry flags) = interrupts flags := by
  cases isZero <;> cases isCarry <;> simp [interrupts, compared]

@[simp] theorem zero_compared (isZero isCarry : Bool) (flags : Word) :
    zero (compared isZero isCarry flags) = isZero := by
  cases isZero <;> cases isCarry <;> simp [zero, compared]

@[simp] theorem carry_compared (isZero isCarry : Bool) (flags : Word) :
    carry (compared isZero isCarry flags) = isCarry := by
  cases isZero <;> cases isCarry <;> simp [carry, compared]

/-! ## Instructions and tasks -/

variable {Label Symbol Store Ghost : Type}

inductive Instruction (Label Symbol Store : Type) where
  | pushf
  | popf
  | push (value : Registers → Word)
  | pop (set : Word → Registers → Registers)
  | cli
  | sti
  | hlt
  /-- Moves, and arithmetic whose flags nothing looks at. -/
  | data (apply : Registers → Store → Registers × Store)
  /-- Gives the zero and the carry flag; an observer may watch the variable that is compared. -/
  | compare (watched : Option Symbol) (result : Registers → Store → Bool × Bool)
  /-- A byte from a port: it may be any. -/
  | input (set : Byte → Registers → Registers)
  | jump (taken : Word → Bool) (target : Label)
  | call (routine : Symbol)
  /-- `pushf` stands before it: the previous handler is called like an interrupt. -/
  | callPrevious
  | jumpPrevious
  | iret
  | lret

/-- How an activation of a handler began. -/
structure Entry where
  /-- The registers before the words of `bottom` were pushed. -/
  before : Registers
  /-- FLAGS on its first instruction. -/
  flags : Word
  /-- What was pushed to enter it, last word first. -/
  bottom : List Word
  /-- An interrupt brought it about, rather than an instruction. -/
  interrupt : Bool

/-- An activation of a handler. -/
structure Activation (Label Symbol Store Ghost : Type) where
  entry : Entry
  code : List (Instruction Label Symbol Store)
  /-- What an observer remembers of it. -/
  ghost : Ghost
  /-- Its words on the stack it was entered on, last word first. -/
  words : List Word

inductive Task (Label Symbol Store Ghost : Type) where
  | program
  /-- The previous handler of an instruction's interrupt, called by the task below. -/
  | previous
  /-- Some other interrupt handler; it goes back to the task below with these registers. -/
  | service (registers : Registers) (flags : Word)
  /-- A routine called by the task below, with SS:SP as given. -/
  | worker (routine : Symbol) (segment offset : Word)
  | handler (activation : Activation Label Symbol Store Ghost)

structure Machine (Store : Type) where
  registers : Registers := {}
  flags : Word := 0#16
  store : Store
  /-- By segment and offset, as if no two such pairs were one address. -/
  stack : Word → Word → Word := fun _ _ => 0#16

structure System (Label Symbol Store Ghost : Type) where
  machine : Machine Store
  /-- The running task first, each above the one it goes back to. -/
  tasks : List (Task Label Symbol Store Ghost)

structure Program (Label Symbol Store Ghost : Type) where
  code : Label → List (Instruction Label Symbol Store)
  /-- The handlers that an instruction can enter, and whether it is a far call. -/
  enters : Label → Option Bool
  /-- The handler of the hooked interrupt. -/
  irq : Label
  /-- The part of the store that only handlers write is kept from a routine. -/
  confine : Store → Store → Store
  confine_self : ∀ store, confine store store = store
  confine_confine : ∀ store first second, confine (confine store first) second = confine store second
  start : Ghost
  jumps : Label → Ghost → Ghost
  called : Symbol → Registers → Ghost → Ghost
  returned : Registers → Ghost → Ghost

/-! ## The stack -/

/-- The offset of the `count`-th word below `base`. -/
def slot (base : Word) (count : Nat) : Word := base - BitVec.ofNat 16 (2 * count)

@[simp] theorem slot_zero (base : Word) : slot base 0 = base := by simp [slot]

theorem slot_add (base : Word) (count more : Nat) :
    slot base (count + more) = slot base count - BitVec.ofNat 16 (2 * more) := by
  unfold slot
  rw [Nat.mul_add, BitVec.ofNat_add]
  bv_omega

def Entry.base (entry : Entry) : Word := entry.before.sp

/-- The registers on the first instruction. -/
def Entry.registers (entry : Entry) : Registers :=
  { entry.before with sp := slot entry.base entry.bottom.length }

/-- The words a handler may have on the stack it was entered on, those of its entry included. -/
def capacity : Nat := 16

/-- Where words on a stack lie. -/
def cells (segment base : Word) : List Word → List (Word × Word)
  | [] => []
  | _ :: words => (segment, slot base (words.length + 1)) :: cells segment base words

def Activation.cells (activation : Activation Label Symbol Store Ghost) : List (Word × Word) :=
  Handlers.cells activation.entry.registers.ss activation.entry.base activation.words

def Task.cells : Task Label Symbol Store Ghost → List (Word × Word)
  | .handler activation => activation.cells
  | _ => []

/-- The stack words that waiting handlers still need. -/
def used (tasks : List (Task Label Symbol Store Ghost)) : List (Word × Word) :=
  tasks.flatMap Task.cells

namespace Machine

variable (machine : Machine Store)

def push (value : Word) : Machine Store :=
  { machine with
    registers := { machine.registers with sp := machine.registers.sp - 2#16 }
    stack := fun segment offset =>
      if segment = machine.registers.ss ∧ offset = machine.registers.sp - 2#16 then value
      else machine.stack segment offset }

/-- The last of the words is pushed first. -/
def pushAll (machine : Machine Store) : List Word → Machine Store
  | [] => machine
  | word :: words => (machine.pushAll words).push word

def top : Word := machine.stack machine.registers.ss machine.registers.sp

def drop (count : Nat) : Machine Store :=
  { machine with
    registers := { machine.registers with sp := machine.registers.sp + BitVec.ofNat 16 (2 * count) } }

/-- A handler that is entered now does not run into words in use. -/
def HasRoom (tasks : List (Task Label Symbol Store Ghost)) : Prop :=
  ∀ count < capacity, (machine.registers.ss, slot machine.registers.sp (count + 1)) ∉ used tasks

instance (tasks : List (Task Label Symbol Store Ghost)) : Decidable (machine.HasRoom tasks) := by
  unfold HasRoom; infer_instance

/-- Another stack, with the words in use as they are. -/
def overwrite (tasks : List (Task Label Symbol Store Ghost)) (stack : Word → Word → Word) :
    Word → Word → Word :=
  fun segment offset => if (segment, offset) ∈ used tasks then machine.stack segment offset
    else stack segment offset

end Machine

/-! ## Steps -/

inductive Action (Label Store : Type) where
  /-- The running task is not a handler and does this. -/
  | runs (registers : Registers) (flags : Word) (store : Store → Store) (stack : Word → Word → Word)
  /-- An instruction of the running task enters a handler. -/
  | enters (label : Label) (ip cs : Word)
  /-- The hooked interrupt comes. -/
  | interrupts (ip cs : Word)
  /-- Some other interrupt comes. -/
  | serves
  /-- The running task is not a handler and returns. -/
  | returns (flags : Word)
  /-- The running handler executes its next instruction; a port it reads holds `input`. -/
  | executes (input : Byte)

/-- Neither a handler nor a routine of one. -/
def Task.foreign : Task Label Symbol Store Ghost → Bool
  | .program | .previous | .service _ _ => true
  | _ => false

namespace Program

variable (program : Program Label Symbol Store Ghost)

def enter (label : Label) (interrupt : Bool) (bottom : List Word) (flags : Word)
    (system : System Label Symbol Store Ghost) : System Label Symbol Store Ghost :=
  { machine := { system.machine.pushAll bottom with flags := flags }
    tasks := .handler
      { entry := ⟨system.machine.registers, flags, bottom, interrupt⟩
        code := program.code label
        ghost := program.start
        words := bottom } :: system.tasks }

/-- One instruction: the machine after it, and what stands in the place of the handler. -/
def execute (input : Byte) (activation : Activation Label Symbol Store Ghost)
    (machine : Machine Store) : Machine Store × List (Task Label Symbol Store Ghost) :=
  match activation.code with
  | [] => (machine, [.handler activation])
  | instruction :: code =>
    let next := { activation with code := code }
    match instruction with
    | .pushf => (machine.push machine.flags,
        [.handler { next with words := machine.flags :: next.words }])
    | .popf => ({ machine.drop 1 with flags := machine.top },
        [.handler { next with words := next.words.tail }])
    | .push value => (machine.push (value machine.registers),
        [.handler { next with words := value machine.registers :: next.words }])
    | .pop set => ({ machine with registers := set machine.top (machine.drop 1).registers },
        [.handler { next with words := next.words.tail }])
    | .cli => ({ machine with flags := disabled machine.flags }, [.handler next])
    | .sti => ({ machine with flags := enabled machine.flags }, [.handler next])
    | .hlt => (machine, [.handler next])
    | .data apply =>
      let (registers, store) := apply machine.registers machine.store
      ({ machine with registers := registers, store := store }, [.handler next])
    | .compare _ result =>
      let (isZero, isCarry) := result machine.registers machine.store
      ({ machine with flags := compared isZero isCarry machine.flags }, [.handler next])
    | .input set => ({ machine with registers := set input machine.registers }, [.handler next])
    | .jump taken target =>
      if taken machine.flags then
        (machine, [.handler { next with
          code := program.code target
          ghost := program.jumps target next.ghost }])
      else (machine, [.handler next])
    | .call routine =>
      -- The address to come back to belongs to the routine's side of the stack.
      (machine, [.worker routine machine.registers.ss machine.registers.sp, .handler next])
    | .callPrevious =>
      -- The address to come back to, here a pair of zeros, lies above FLAGS.
      (machine.pushAll [0#16, 0#16],
        [.previous, .handler { next with words := 0#16 :: 0#16 :: next.words }])
    | .jumpPrevious =>
      -- The previous handler keeps the registers and takes the words of the entry off the stack.
      (machine, [.service (machine.drop 3).registers (machine.drop 2).top])
    | .iret => ({ machine.drop 3 with flags := (machine.drop 2).top }, [])
    | .lret => (machine.drop 2, [])

/-- An action that is not possible changes nothing. -/
def step (action : Action Label Store) (system : System Label Symbol Store Ghost) :
    System Label Symbol Store Ghost :=
  let machine := system.machine
  match action, system.tasks with
  | .runs registers flags store stack, .worker routine segment offset :: rest =>
    -- A routine does not set IF.
    { machine :=
        { registers := registers
          flags := if interrupts machine.flags then flags else disabled flags
          store := program.confine machine.store (store machine.store)
          stack := machine.overwrite rest stack }
      tasks := .worker routine segment offset :: rest }
  | .runs registers flags store stack, task :: rest =>
    if task.foreign then
      ⟨⟨registers, flags, store machine.store, machine.overwrite rest stack⟩, task :: rest⟩
    else system
  | .enters label ip cs, task :: rest =>
    if task.foreign ∧ machine.HasRoom (task :: rest) then
      match program.enters label with
      | none => system
      | some true => program.enter label false [ip, cs] machine.flags system
      | some false => program.enter label false [ip, cs, machine.flags] (disabled machine.flags) system
    else system
  | .interrupts ip cs, tasks =>
    if interrupts machine.flags ∧ machine.HasRoom tasks then
      program.enter program.irq true [ip, cs, machine.flags] (disabled machine.flags) system
    else system
  | .serves, tasks =>
    if interrupts machine.flags then
      ⟨{ machine with flags := disabled machine.flags },
        .service machine.registers machine.flags :: tasks⟩
    else system
  | .returns _, .worker routine segment offset :: .handler activation :: rest =>
    -- A routine keeps its stack balanced.
    if machine.registers.ss = segment ∧ machine.registers.sp = offset then
      ⟨machine, .handler { activation with
        ghost := program.called routine machine.registers activation.ghost } :: rest⟩
    else system
  | .returns flags, .previous :: .handler activation :: rest =>
    -- It returns from where it was entered; it may have changed FLAGS there.
    if machine.registers.ss = activation.entry.registers.ss ∧
        machine.registers.sp = slot activation.entry.base activation.words.length then
      ⟨{ machine.drop 3 with flags := flags }, .handler { activation with
        words := activation.words.drop 3
        ghost := program.returned (machine.drop 3).registers activation.ghost } :: rest⟩
    else system
  | .returns _, .service registers flags :: task :: rest =>
    ⟨{ machine with registers := registers, flags := flags }, task :: rest⟩
  | .executes input, .handler activation :: rest =>
    let (machine, tasks) := program.execute input activation machine
    ⟨machine, tasks ++ rest⟩
  | _, _ => system

end Program

end Library.Handlers
