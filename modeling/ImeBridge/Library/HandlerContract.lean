import ImeBridge.Library.Handlers

/-! # Handlers that keep to a contract

`Safe` goes through the rest of a block: what a handler pushed it pops again from the same
place, a routine is called with interrupts off, and the block ends with what the contract
asks for at its jump.  An instruction with interrupts on may find the store changed.  If
every block is safe, then so is every handler at every point of every run, however handlers,
routines and other programs interrupt one another.
-/

namespace Library.Handlers

variable {Label Symbol Store Ghost : Type}

/-- What the code of an activation has to do with: its ghost, its words on the stack and the
machine, without the stacks. -/
structure View (Store Ghost : Type) where
  ghost : Ghost
  words : List Word
  registers : Registers
  flags : Word
  store : Store

structure Contract (Label Symbol Store Ghost : Type) where
  /-- What a run is only looked at under: it holds at every watched comparison. -/
  assumes : Symbol → Entry → View Store Ghost → Prop
  /-- What holds at a label. -/
  holds : Label → Entry → View Store Ghost → Prop
  /-- What holds where the previous handler is called. -/
  calls : Entry → View Store Ghost → Prop
  /-- What holds where a routine is called. -/
  works : Entry → View Store Ghost → Prop
  /-- What holds where the handler is left. -/
  leaves : Entry → View Store Ghost → Prop

namespace View

variable (view : View Store Ghost)

@[simp] def push (entry : Entry) (word : Word) : View Store Ghost :=
  { view with
    words := word :: view.words
    registers := { view.registers with sp := slot entry.base (view.words.length + 1) } }

/-- Behind the topmost words. -/
@[simp] def leave (entry : Entry) (words : List Word) : View Store Ghost :=
  { view with words := words, registers := { view.registers with sp := slot entry.base words.length } }

/-- SS:SP points to the last word of the activation. -/
@[simp] def Here (entry : Entry) : Prop :=
  view.registers.ss = entry.registers.ss ∧ view.registers.sp = slot entry.base view.words.length

/-- Only the words of the entry are left on the stack. -/
@[simp] def Balanced (entry : Entry) : Prop := view.words = entry.bottom ∧ view.Here entry

end View

/-! ## What runs are looked at under -/

def Activation.view (activation : Activation Label Symbol Store Ghost) (machine : Machine Store) :
    View Store Ghost :=
  ⟨activation.ghost, activation.words, machine.registers, machine.flags, machine.store⟩

section Watched

variable (assumes : Symbol → Entry → View Store Ghost → Prop)

/-- If the next instruction is a watched comparison, it finds what is assumed. -/
def Watched (system : System Label Symbol Store Ghost) (action : Action Label Store) : Prop :=
  match action, system.tasks with
  | .executes _, .handler activation :: _ =>
    match activation.code with
    | .compare (some symbol) _ :: _ => assumes symbol activation.entry (activation.view system.machine)
    | _ => True
  | _, _ => True

instance [∀ symbol entry view, Decidable (assumes symbol entry view)]
    (system : System Label Symbol Store Ghost) (action : Action Label Store) :
    Decidable (Watched assumes system action) := by
  unfold Watched
  split
  · split <;> infer_instance
  · infer_instance

end Watched

theorem watched_of_all {assumes : Symbol → Entry → View Store Ghost → Prop}
    (all : ∀ symbol entry view, assumes symbol entry view) (system : System Label Symbol Store Ghost)
    (action : Action Label Store) : Watched assumes system action := by
  unfold Watched
  split
  · split
    · exact all _ _ _
    · trivial
  · trivial

theorem Watched.mono {first second : Symbol → Entry → View Store Ghost → Prop}
    {system : System Label Symbol Store Ghost} {action : Action Label Store}
    (watched : Watched first system action)
    (weaker : ∀ symbol entry view, first symbol entry view → second symbol entry view) :
    Watched second system action := by
  obtain ⟨machine, tasks⟩ := system
  unfold Watched at *
  split at watched
  · split at watched
    · simp_all
    · simp_all
  · simp_all

/-! ## Verification -/

section Verification

variable (program : Program Label Symbol Store Ghost) (contract : Contract Label Symbol Store Ghost)
  (entry : Entry)

/-- What one instruction needs, `next` being what the rest of the block needs. -/
@[simp] def Does (instruction : Instruction Label Symbol Store) (next : View Store Ghost → Prop)
    (view : View Store Ghost) : Prop :=
  match instruction with
  | .pushf => view.Here entry ∧ view.words.length < capacity ∧ next (view.push entry view.flags)
  | .popf =>
    match view.words with
    | [] => False
    | word :: words => view.Here entry ∧ entry.bottom.length ≤ words.length ∧
        next { view.leave entry words with flags := word }
  | .push value => view.Here entry ∧ view.words.length < capacity ∧
      next (view.push entry (value view.registers))
  | .pop set =>
    match view.words with
    | [] => False
    | word :: words => view.Here entry ∧ entry.bottom.length ≤ words.length ∧
        next { view.leave entry words with registers := set word (view.leave entry words).registers }
  | .cli => next { view with flags := disabled view.flags }
  | .sti => next { view with flags := enabled view.flags }
  | .hlt => next view
  | .data apply => next { view with
      registers := (apply view.registers view.store).1
      store := (apply view.registers view.store).2 }
  | .compare watched result => (∀ symbol ∈ watched, contract.assumes symbol entry view) →
      let (isZero, isCarry) := result view.registers view.store
      next { view with flags := compared isZero isCarry view.flags }
  | .input set => ∀ byte, next { view with registers := set byte view.registers }
  | .jump taken target =>
    if taken view.flags then
      contract.holds target entry { view with ghost := program.jumps target view.ghost }
    else next view
  | .call routine => interrupts view.flags = false ∧ contract.works entry view ∧
      ∀ registers flags store, registers.ss = view.registers.ss → registers.sp = view.registers.sp →
        interrupts flags = false → next { view with
          ghost := program.called routine registers view.ghost
          registers := registers
          flags := flags
          store := program.confine view.store store }
  | .callPrevious =>
    match view.words with
    | [] => False
    | _ :: words => view.Here entry ∧ words.length + 3 ≤ capacity ∧ entry.bottom.length ≤ words.length ∧
        contract.calls entry view ∧
        ∀ registers flags store, registers.ss = entry.registers.ss →
          registers.sp = slot entry.base words.length →
          next ⟨program.returned registers view.ghost, words, registers, flags, store⟩
  | .jumpPrevious => view.Balanced entry ∧ entry.bottom.length = 3 ∧ entry.interrupt = true ∧
      view.registers = entry.registers ∧ contract.leaves entry view
  | .iret => view.Balanced entry ∧ entry.bottom.length = 3 ∧
      (entry.interrupt = true → view.registers = entry.registers) ∧ contract.leaves entry view
  | .lret => view.Balanced entry ∧ entry.bottom.length = 2 ∧ entry.interrupt = false ∧
      contract.leaves entry view

def Safe : List (Instruction Label Symbol Store) → View Store Ghost → Prop
  | [], _ => False
  | instruction :: code, view => ∀ store, (interrupts view.flags = false → store = view.store) →
      Does program contract entry instruction (Safe code) { view with store := store }

end Verification

/-- The ways to enter a handler. -/
def Program.EntersAt (program : Program Label Symbol Store Ghost) (label : Label) (entry : Entry) :
    Prop :=
  if entry.bottom.length = 3 then
    interrupts entry.flags = false ∧
      if entry.interrupt then label = program.irq else program.enters label = some false
  else entry.bottom.length = 2 ∧ entry.interrupt = false ∧ program.enters label = some true

/-- Every block of the program keeps to the contract, and so does every way to enter one. -/
structure Verified (program : Program Label Symbol Store Ghost)
    (contract : Contract Label Symbol Store Ghost) : Prop where
  safe : ∀ label entry view, contract.holds label entry view →
    Safe program contract entry (program.code label) view
  starts : ∀ label entry, program.EntersAt label entry → ∀ store,
    contract.holds label entry ⟨program.start, entry.bottom, entry.registers, entry.flags, store⟩

variable {program : Program Label Symbol Store Ghost} {contract : Contract Label Symbol Store Ghost}
  {entry : Entry} {code : List (Instruction Label Symbol Store)} {view : View Store Ghost}

theorem Program.EntersAt.short {label : Label} (way : program.EntersAt label entry) :
    entry.bottom.length ≤ capacity := by
  by_cases three : entry.bottom.length = 3
  · rw [three]
    decide
  · rw [EntersAt, if_neg three] at way
    rw [way.1]
    decide

/-- With interrupts on the store does not matter. -/
theorem Safe.anyStore (safe : Safe program contract entry code view) (on : interrupts view.flags = true)
    (store : Store) : Safe program contract entry code { view with store := store } := by
  cases code with
  | nil => exact safe
  | cons instruction code =>
    intro other same
    exact safe other fun off => absurd (on.symm.trans off) Bool.noConfusion

theorem Safe.does {instruction : Instruction Label Symbol Store}
    (safe : Safe program contract entry (instruction :: code) view) :
    Does program contract entry instruction (Safe program contract entry code) view :=
  safe view.store fun _ => rfl

variable {instruction : Instruction Label Symbol Store} {ghost : Ghost} {words : List Word}
  {registers : Registers} {flags : Word}

/-- With interrupts off an instruction finds the store as the one before it left it. -/
@[simp] theorem safe_cons_off {store : Store} (off : interrupts flags = false) :
    Safe program contract entry (instruction :: code) ⟨ghost, words, registers, flags, store⟩ ↔
      Does program contract entry instruction (Safe program contract entry code)
        ⟨ghost, words, registers, flags, store⟩ := by
  constructor
  · intro safe
    exact safe.does
  · intro does other same
    obtain rfl := same off
    exact does

/-- Where every store will do, it does not matter whether they are on. -/
@[simp] theorem safe_cons_all :
    (∀ store, Safe program contract entry (instruction :: code)
        ⟨ghost, words, registers, flags, store⟩) ↔
      ∀ store, Does program contract entry instruction (Safe program contract entry code)
        ⟨ghost, words, registers, flags, store⟩ :=
  ⟨fun safe store => (safe store).does, fun does _ other _ => does other⟩

end Library.Handlers
