import ImeBridge.Library.Handlers
import ImeBridge.Library.Run

/-! # Handlers over a model

Handlers call routines, and a model says what the routines are for: each call changes it at one
stroke.  A part of the model lies in the store, where handlers and other programs change it as
well.  As long as interrupts are off a handler may leave the two apart; where an interrupt can come,
a routine is called or the handler is left, what the store shows is a model that can be reached.
-/

namespace Library.Handlers

variable {Label Symbol Store Ghost Model Device : Type}

/-- A model and its part in the store. -/
structure Tie (Symbol Store Model Device : Type) where
  /-- The model, with its part as the store has it. -/
  shown : Store → Model → Model
  /-- The store, with the part that belongs to the model. -/
  written : Model → Store → Store
  /-- What a routine makes of the model, the devices being as they are. -/
  work : Symbol → Device → Model → Model
  /-- What other programs get of a store they want. -/
  altered : Store → Store → Store

/-- A system, and the model of what its routines know. -/
structure Modelled (Label Symbol Store Ghost Model : Type) extends System Label Symbol Store Ghost where
  model : Model

section Runs

variable (program : Program Label Symbol Store Ghost) (tie : Tie Symbol Store Model Device)

/-- A routine that returns has written its part of the model to the store. -/
def Tie.actions (action : Action Label Store) (modelled : Modelled Label Symbol Store Ghost Model) :
    List (Action Label Store) :=
  let machine := modelled.machine
  match action, modelled.tasks with
  | .runs _ _ _ _, .worker _ _ _ :: _ => [action]
  | .runs registers flags store stack, _ =>
    [.runs registers flags (fun before => tie.altered before (store before)) stack]
  | .returns flags, .worker _ _ _ :: _ =>
    [.runs machine.registers machine.flags (tie.written modelled.model) machine.stack, .returns flags]
  | _, _ => [action]

/-- A routine changes the model when it is called. -/
def Tie.next (action : Action Label Store) (device : Device)
    (modelled : Modelled Label Symbol Store Ghost Model) : Model :=
  match action, modelled.tasks with
  | .executes _, .handler activation :: _ =>
    match activation.code with
    | .call routine :: _ => tie.work routine device (tie.shown modelled.machine.store modelled.model)
    | _ => modelled.model
  | _, _ => modelled.model

/-- One action, with the devices as they are then. -/
def Program.follow (event : Action Label Store × Device)
    (modelled : Modelled Label Symbol Store Ghost Model) : Modelled Label Symbol Store Ghost Model where
  toSystem := Run.run program.step (tie.actions event.1 modelled) modelled.toSystem
  model := tie.next event.1 event.2 modelled

/-- The model, unless a handler is at work on its part with interrupts off. -/
def Tie.current (modelled : Modelled Label Symbol Store Ghost Model) : Option Model :=
  match modelled.tasks with
  | .worker _ _ _ :: _ => some modelled.model
  | .handler _ :: _ =>
    if interrupts modelled.machine.flags then some (tie.shown modelled.machine.store modelled.model)
    else none
  | _ => some (tie.shown modelled.machine.store modelled.model)

end Runs

/-! ## Handlers that keep the model up to date -/

/-- What the code of a handler works on, without the stacks. -/
structure Spot (Store : Type) where
  registers : Registers
  flags : Word
  store : Store

section Following

variable (tie : Tie Symbol Store Model Device) (reached : Model → Prop)
  (holds : Label → Spot Store → Model → Prop)

/-- What one instruction needs, `next` being what the rest of the block needs.  A word from the
stack may be any. -/
@[simp] def Tie.Does (instruction : Instruction Label Symbol Store) (next : Spot Store → Model → Prop)
    (spot : Spot Store) (model : Model) : Prop :=
  match instruction with
  | .pushf | .push _ =>
    next { spot with registers := { spot.registers with sp := spot.registers.sp - 2#16 } } model
  | .popf => ∀ flags, next { spot with
      registers := { spot.registers with sp := spot.registers.sp + 2#16 }
      flags := flags } model
  | .pop set => ∀ word, next { spot with
      registers := set word { spot.registers with sp := spot.registers.sp + 2#16 } } model
  | .cli => next { spot with flags := disabled spot.flags } model
  | .sti => next { spot with flags := enabled spot.flags } model
  | .hlt => next spot model
  | .data apply => next { spot with
      registers := (apply spot.registers spot.store).1
      store := (apply spot.registers spot.store).2 } model
  | .compare _ result =>
      let (isZero, isCarry) := result spot.registers spot.store
      next { spot with flags := compared isZero isCarry spot.flags } model
  | .input set => ∀ byte, next { spot with registers := set byte spot.registers } model
  | .jump taken target => if taken spot.flags then holds target spot model else next spot model
  | .call routine => interrupts spot.flags = false ∧ ∀ device,
      let after := tie.work routine device (tie.shown spot.store model)
      reached after ∧ ∀ registers flags store, interrupts flags = false →
        tie.shown store after = after → next ⟨registers, flags, store⟩ after
  | .callPrevious => reached (tie.shown spot.store model) ∧ ∀ registers flags store model,
      reached (tie.shown store model) → next ⟨registers, flags, store⟩ model
  | .jumpPrevious | .iret | .lret => reached (tie.shown spot.store model)

/-- With interrupts on, another handler may come before the instruction. -/
def Tie.Follows : List (Instruction Label Symbol Store) → Spot Store → Model → Prop
  | [], spot, model => reached (tie.shown spot.store model)
  | instruction :: code, spot, model =>
    if interrupts spot.flags then
      reached (tie.shown spot.store model) ∧ ∀ registers flags store model,
        reached (tie.shown store model) →
          tie.Does reached holds instruction (Tie.Follows code) ⟨registers, flags, store⟩ model
    else tie.Does reached holds instruction (Tie.Follows code) spot model

/-- Code to go on with, whatever was done since. -/
def Tie.Resumes (code : List (Instruction Label Symbol Store)) : Prop :=
  ∀ registers flags store model, reached (tie.shown store model) →
    tie.Follows reached holds code ⟨registers, flags, store⟩ model

/-- Every block and every way to enter one keeps the model up to date. -/
structure Tied (program : Program Label Symbol Store Ghost) : Prop where
  follows : ∀ label spot model, holds label spot model →
    tie.Follows reached holds (program.code label) spot model
  entered : ∀ label spot model, label = program.irq ∨ program.enters label = some false →
    interrupts spot.flags = false → reached (tie.shown spot.store model) → holds label spot model
  called : ∀ label spot model, program.enters label = some true →
    reached (tie.shown spot.store model) → holds label spot model
  altered : ∀ store other model, reached (tie.shown store model) →
    reached (tie.shown (tie.altered store other) model)
  written : ∀ store model,
    tie.shown (program.confine store (tie.written model store)) model = model

/-! ### Blocks that leave the model alone -/

/-- But for its routines the code does nothing to the model; `off` tells that interrupts are off. -/
def Tie.Plain (off : Bool) : List (Instruction Label Symbol Store) → Prop
  | [] => True
  | instruction :: code =>
    match instruction with
    | .cli => Tie.Plain true code
    | .sti | .popf | .callPrevious => Tie.Plain false code
    | .call routine => off = true ∧
        (∀ device model, reached model → reached (tie.work routine device model)) ∧ Tie.Plain true code
    | .data apply => (∀ registers store model,
        tie.shown (apply registers store).2 model = tie.shown store model) ∧ Tie.Plain off code
    | .jump _ target => (∀ spot model, reached (tie.shown spot.store model) → holds target spot model) ∧
        Tie.Plain off code
    | .jumpPrevious | .iret | .lret => True
    | _ => Tie.Plain off code

end Following

section Rules

variable {program : Program Label Symbol Store Ghost} {tie : Tie Symbol Store Model Device}
  {reached : Model → Prop} {holds : Label → Spot Store → Model → Prop}
  {instruction : Instruction Label Symbol Store} {code : List (Instruction Label Symbol Store)}
  {spot : Spot Store} {model : Model}

namespace Tie

@[simp] theorem follows_off (off : interrupts spot.flags = false) :
    tie.Follows reached holds (instruction :: code) spot model ↔
      tie.Does reached holds instruction (tie.Follows reached holds code) spot model := by
  rw [Follows, off]
  exact Iff.rfl

theorem Follows.on (follows : tie.Follows reached holds code spot model)
    (on : interrupts spot.flags = true) :
    reached (tie.shown spot.store model) ∧ tie.Resumes reached holds code := by
  cases code with
  | nil => exact ⟨follows, fun _ _ _ _ => id⟩
  | cons instruction code =>
    rw [Follows, if_pos on] at follows
    refine ⟨follows.1, fun registers flags store model there => ?_⟩
    rw [Follows]
    split
    · exact ⟨there, follows.2⟩
    · exact follows.2 registers flags store model there

/-- An instruction that needs nothing but a model that can be reached. -/
theorem follows_cons {off : Bool} (here : reached (tie.shown spot.store model))
    (isOff : off = true → interrupts spot.flags = false)
    (does : ∀ spot model, reached (tie.shown spot.store model) →
      (off = true → interrupts spot.flags = false) →
        tie.Does reached holds instruction (tie.Follows reached holds code) spot model) :
    tie.Follows reached holds (instruction :: code) spot model := by
  rw [Follows]
  split
  case isTrue on =>
    have unknown : off = false := by
      cases off with
      | false => rfl
      | true => exact absurd (on.symm.trans (isOff rfl)) Bool.noConfusion
    subst unknown
    exact ⟨here, fun registers flags store model there => does ⟨registers, flags, store⟩ model there nofun⟩
  case isFalse => exact does spot model here isOff

theorem Plain.follows {off : Bool} (plain : tie.Plain reached holds off code)
    (here : reached (tie.shown spot.store model)) (isOff : off = true → interrupts spot.flags = false) :
    tie.Follows reached holds code spot model := by
  induction code generalizing off spot model with
  | nil => exact here
  | cons instruction code inductionHypothesis =>
    refine follows_cons here isOff fun spot model here isOff => ?_
    cases instruction with
    | pushf | push | hlt => exact inductionHypothesis plain here isOff
    | popf => exact fun flags => inductionHypothesis plain here nofun
    | pop set => exact fun word => inductionHypothesis plain here isOff
    | cli => exact inductionHypothesis plain here fun _ => interrupts_disabled spot.flags
    | sti => exact inductionHypothesis plain here nofun
    | data apply =>
      refine inductionHypothesis plain.2 ?_ isOff
      rw [plain.1]
      exact here
    | compare watched result =>
      refine inductionHypothesis plain here fun off => ?_
      rw [interrupts_compared]
      exact isOff off
    | input set => exact fun byte => inductionHypothesis plain here isOff
    | jump taken target =>
      rw [Does]
      split
      · exact plain.1 spot model here
      · exact inductionHypothesis plain.2 here isOff
    | call routine =>
      refine ⟨isOff plain.1, fun device => ?_⟩
      have done := plain.2.1 device _ here
      refine ⟨done, fun registers flags store off same => ?_⟩
      exact inductionHypothesis plain.2.2 (same.symm ▸ done) fun _ => off
    | callPrevious =>
      exact ⟨here, fun registers flags store model there => inductionHypothesis plain there nofun⟩
    | jumpPrevious | iret | lret => exact here

end Tie

/-! ## Runs -/

/-- A task that waits. -/
def Tie.Waits (tie : Tie Symbol Store Model Device) (reached : Model → Prop)
    (holds : Label → Spot Store → Model → Prop) (task : Task Label Symbol Store Ghost) : Prop :=
  match task with
  | .handler activation => tie.Resumes reached holds activation.code
  | .worker _ _ _ => False
  | _ => True

/-- What every step keeps. -/
def Tie.Keeps (tie : Tie Symbol Store Model Device) (reached : Model → Prop)
    (holds : Label → Spot Store → Model → Prop)
    (modelled : Modelled Label Symbol Store Ghost Model) : Prop :=
  let machine := modelled.machine
  match modelled.tasks with
  | .handler activation :: rest =>
    tie.Follows reached holds activation.code ⟨machine.registers, machine.flags, machine.store⟩
      modelled.model ∧ ∀ task ∈ rest, tie.Waits reached holds task
  | .worker _ _ _ :: rest => interrupts machine.flags = false ∧ reached modelled.model ∧
      ∃ activation below, rest = .handler activation :: below ∧
        (∀ registers flags store, interrupts flags = false →
          tie.shown store modelled.model = modelled.model →
          tie.Follows reached holds activation.code ⟨registers, flags, store⟩ modelled.model) ∧
        ∀ task ∈ below, tie.Waits reached holds task
  | tasks => reached (tie.shown machine.store modelled.model) ∧
      ∀ task ∈ tasks.tail, tie.Waits reached holds task

theorem Tie.Follows.does (follows : tie.Follows reached holds (instruction :: code) spot model) :
    tie.Does reached holds instruction (tie.Follows reached holds code) spot model := by
  rw [Follows] at follows
  split at follows
  · exact follows.2 spot.registers spot.flags spot.store model follows.1
  · exact follows

variable {machine : Machine Store} {task : Task Label Symbol Store Ghost}
  {tasks rest : List (Task Label Symbol Store Ghost)}

namespace Tie.Keeps

theorem foreign (foreign : task.foreign = true) :
    tie.Keeps reached holds ⟨⟨machine, task :: rest⟩, model⟩ ↔
      reached (tie.shown machine.store model) ∧ ∀ task ∈ rest, tie.Waits reached holds task := by
  cases task with
  | program | previous | service => exact Iff.rfl
  | worker | handler => cases foreign

/-- Where an interrupt can come, every task can wait. -/
theorem waits (keeps : tie.Keeps reached holds ⟨⟨machine, tasks⟩, model⟩)
    (on : interrupts machine.flags = true) :
    reached (tie.shown machine.store model) ∧ ∀ task ∈ tasks, tie.Waits reached holds task := by
  cases tasks with
  | nil => exact keeps
  | cons task rest =>
    cases task with
    | program | previous | service => exact ⟨keeps.1, List.forall_mem_cons.mpr ⟨trivial, keeps.2⟩⟩
    | worker => exact absurd (on.symm.trans keeps.1) Bool.noConfusion
    | handler activation =>
      obtain ⟨here, resumes⟩ := keeps.1.on on
      exact ⟨here, List.forall_mem_cons.mpr ⟨resumes, keeps.2⟩⟩

/-- The task below goes on. -/
theorem resume (here : reached (tie.shown machine.store model))
    (waiting : ∀ task ∈ tasks, tie.Waits reached holds task) :
    tie.Keeps reached holds ⟨⟨machine, tasks⟩, model⟩ := by
  cases tasks with
  | nil => exact ⟨here, waiting⟩
  | cons task rest =>
    obtain ⟨top, below⟩ := List.forall_mem_cons.mp waiting
    cases task with
    | program | previous | service => exact ⟨here, below⟩
    | worker => exact top.elim
    | handler activation => exact ⟨top _ _ _ _ here, below⟩

theorem current {modelled : Modelled Label Symbol Store Ghost Model} {model : Model}
    (keeps : tie.Keeps reached holds modelled) (isCurrent : tie.current modelled = some model) :
    reached model := by
  obtain ⟨⟨machine, tasks⟩, known⟩ := modelled
  cases tasks with
  | nil =>
    cases isCurrent
    exact keeps.1
  | cons task rest =>
    cases task with
    | program | previous | service =>
      cases isCurrent
      exact keeps.1
    | worker =>
      cases isCurrent
      exact keeps.2.1
    | handler activation =>
      simp only [Tie.current] at isCurrent
      split at isCurrent
      case isTrue on =>
        cases isCurrent
        exact (keeps.waits on).1
      case isFalse => cases isCurrent

end Tie.Keeps

/-- A handler is entered. -/
theorem Tied.enter (tied : Tied tie reached holds program) {label : Label} {interrupt : Bool}
    {bottom : List Word} {flags : Word} (here : reached (tie.shown machine.store model))
    (waiting : ∀ task ∈ tasks, tie.Waits reached holds task)
    (store : (machine.pushAll bottom).store = machine.store)
    (way : (label = program.irq ∨ program.enters label = some false) ∧ interrupts flags = false ∨
      program.enters label = some true) :
    tie.Keeps reached holds ⟨program.enter label interrupt bottom flags ⟨machine, tasks⟩, model⟩ := by
  refine ⟨tied.follows label _ _ ?_, waiting⟩
  have there : reached (tie.shown (machine.pushAll bottom).store model) := store ▸ here
  cases way with
  | inl off => exact tied.entered label _ _ off.1 off.2 there
  | inr far => exact tied.called label _ _ far there

/-- One instruction of the running handler. -/
theorem Tied.execute (tied : Tied tie reached holds program)
    {activation : Activation Label Symbol Store Ghost} (input : Byte) (device : Device)
    (keeps : tie.Keeps reached holds ⟨⟨machine, .handler activation :: rest⟩, model⟩) :
    tie.Keeps reached holds ⟨program.step (.executes input) ⟨machine, .handler activation :: rest⟩,
      tie.next (.executes input) device ⟨⟨machine, .handler activation :: rest⟩, model⟩⟩ := by
  obtain ⟨follows, waiting⟩ := keeps
  obtain ⟨entry, code, ghost, words⟩ := activation
  cases code with
  | nil => exact ⟨follows, waiting⟩
  | cons instruction code =>
    have does := follows.does
    cases instruction with
    | pushf | push | cli | sti | hlt | data | compare => exact ⟨does, waiting⟩
    | popf | pop => exact ⟨does _, waiting⟩
    | input => exact ⟨does input, waiting⟩
    | jump taken target =>
      by_cases isTaken : taken machine.flags = true
      · have there := Eq.mp (if_pos isTaken) does
        simp only [Program.step, Program.execute, if_pos isTaken]
        exact ⟨tied.follows target _ _ there, waiting⟩
      · have onwards := Eq.mp (if_neg isTaken) does
        simp only [Program.step, Program.execute, if_neg isTaken]
        exact ⟨onwards, waiting⟩
    | call routine =>
      obtain ⟨off, later⟩ := does
      obtain ⟨done, onwards⟩ := later device
      exact ⟨off, done, _, rest, rfl, onwards, waiting⟩
    | callPrevious =>
      exact ⟨does.1, List.forall_mem_cons.mpr ⟨does.2, waiting⟩⟩
    | jumpPrevious => exact ⟨does, waiting⟩
    | iret | lret => exact Tie.Keeps.resume does waiting

/-- A routine returns, its part of the model written. -/
theorem Tied.workerReturns (tied : Tied tie reached holds program) {routine : Symbol}
    {segment offset : Word} (flags : Word) (device : Device)
    (keeps : tie.Keeps reached holds ⟨⟨machine, .worker routine segment offset :: rest⟩, model⟩) :
    tie.Keeps reached holds (program.follow tie (.returns flags, device)
      ⟨⟨machine, .worker routine segment offset :: rest⟩, model⟩) := by
  obtain ⟨off, done, activation, below, rfl, onwards, waiting⟩ := keeps
  have still : interrupts (if interrupts machine.flags then machine.flags else disabled machine.flags) =
      false := by
    rw [off]
    exact interrupts_disabled machine.flags
  simp only [Program.follow, Tie.actions, Tie.next, Run.run_cons, Run.run_nil, Program.step]
  split
  case isTrue => exact ⟨onwards _ _ _ still (tied.written machine.store model), waiting⟩
  case isFalse => exact ⟨still, done, _, _, rfl, onwards, waiting⟩

theorem Tied.step (tied : Tied tie reached holds program)
    (event : Action Label Store × Device) {modelled : Modelled Label Symbol Store Ghost Model}
    (keeps : tie.Keeps reached holds modelled) :
    tie.Keeps reached holds (program.follow tie event modelled) := by
  obtain ⟨⟨machine, tasks⟩, model⟩ := modelled
  obtain ⟨action, device⟩ := event
  cases action with
  | interrupts ip cs =>
    have same : program.follow tie (.interrupts ip cs, device) ⟨⟨machine, tasks⟩, model⟩ =
        ⟨program.step (.interrupts ip cs) ⟨machine, tasks⟩, model⟩ := rfl
    rw [same]
    simp only [Program.step]
    split
    case isTrue possible =>
      obtain ⟨here, waiting⟩ := keeps.waits possible.1
      exact tied.enter here waiting rfl (.inl ⟨.inl rfl, interrupts_disabled _⟩)
    case isFalse => exact keeps
  | serves =>
    have same : program.follow tie (.serves, device) ⟨⟨machine, tasks⟩, model⟩ =
        ⟨program.step .serves ⟨machine, tasks⟩, model⟩ := rfl
    rw [same]
    simp only [Program.step]
    split
    case isTrue on => exact keeps.waits on
    case isFalse => exact keeps
  | enters label ip cs =>
    have same : program.follow tie (.enters label ip cs, device) ⟨⟨machine, tasks⟩, model⟩ =
        ⟨program.step (.enters label ip cs) ⟨machine, tasks⟩, model⟩ := rfl
    rw [same]
    cases tasks with
    | nil => exact keeps
    | cons task rest =>
      simp only [Program.step]
      split
      case isFalse => exact keeps
      case isTrue possible =>
        obtain ⟨here, below⟩ := (Tie.Keeps.foreign possible.1).mp keeps
        have waiting : ∀ other ∈ task :: rest, tie.Waits reached holds other := by
          refine List.forall_mem_cons.mpr ⟨?_, below⟩
          cases task with
          | program | previous | service => trivial
          | worker | handler => cases possible.1
        split
        case h_1 => exact keeps
        case h_2 way => exact tied.enter here waiting rfl (.inr way)
        case h_3 way => exact tied.enter here waiting rfl (.inl ⟨.inr way, interrupts_disabled _⟩)
  | runs registers flags store stack =>
    cases tasks with
    | nil => exact keeps
    | cons task rest =>
      cases task with
      | program | previous | service => exact ⟨tied.altered _ _ _ keeps.1, keeps.2⟩
      | handler => exact keeps
      | worker routine segment offset =>
        obtain ⟨off, done, later⟩ := keeps
        refine ⟨?_, done, later⟩
        have still : (if interrupts machine.flags then flags else disabled flags) = disabled flags :=
          if_neg (off ▸ Bool.false_ne_true)
        exact (congrArg interrupts still).trans (interrupts_disabled flags)
  | executes input =>
    cases tasks with
    | nil => exact keeps
    | cons task rest =>
      cases task with
      | program | previous | service | worker => exact keeps
      | handler activation => exact tied.execute input device keeps
  | returns flags =>
    cases tasks with
    | nil => exact keeps
    | cons task rest =>
      cases task with
      | program | handler => exact keeps
      | worker routine segment offset => exact tied.workerReturns flags device keeps
      | previous =>
        cases rest with
        | nil => exact keeps
        | cons task rest =>
          cases task with
          | program | previous | service | worker => exact keeps
          | handler activation =>
            obtain ⟨resumes, below⟩ := List.forall_mem_cons.mp keeps.2
            have same : program.follow tie (.returns flags, device)
                ⟨⟨machine, .previous :: .handler activation :: rest⟩, model⟩ =
              ⟨program.step (.returns flags) ⟨machine, .previous :: .handler activation :: rest⟩, model⟩ := rfl
            rw [same]
            simp only [Program.step]
            split
            case isTrue => exact ⟨resumes _ _ _ _ keeps.1, below⟩
            case isFalse => exact keeps
      | service registers flags =>
        cases rest with
        | nil => exact keeps
        | cons task rest => exact Tie.Keeps.resume keeps.1 keeps.2

/-- Whatever the tasks do to one another, the model is one that can be reached. -/
theorem Tied.run (tied : Tied tie reached holds program) (events : List (Action Label Store × Device))
    (here : reached (tie.shown machine.store model)) {current : Model}
    (isCurrent : tie.current (Run.run (program.follow tie) events
      ⟨⟨machine, [.program]⟩, model⟩) = some current) : reached current := by
  have keeps : tie.Keeps reached holds
      (Run.run (program.follow tie) events ⟨⟨machine, [.program]⟩, model⟩) :=
    Run.invariant (program.follow tie) (fun _ event before => tied.step event before) events
      ⟨here, fun _ member => absurd member List.not_mem_nil⟩
  exact keeps.current isCurrent

end Rules

end Library.Handlers
