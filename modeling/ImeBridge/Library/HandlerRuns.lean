import ImeBridge.Library.HandlerContract
import ImeBridge.Library.Run

/-! # Runs of verified handlers

The invariant of every run of a verified program.  The tasks that wait below the running one
are safe to go on with; their words are still on the stacks; a routine is only ever the
running task.
-/

namespace Library.Handlers

variable {Label Symbol Store Ghost : Type}

/-! ## Words on a stack -/

/-- The words lie on the stack below `base`, the last of them lowest. -/
def OnStack (stack : Word → Word → Word) (segment base : Word) : List Word → Prop
  | [] => True
  | word :: words =>
    stack segment (slot base (words.length + 1)) = word ∧ OnStack stack segment base words

/-- Taking the words of the entry off the stack again. -/
theorem Entry.restored (entry : Entry) :
    { entry.registers with sp := slot entry.base 0 } = entry.before := by
  simp [Entry.registers, Entry.base]

theorem slot_injective {base : Word} {first second : Nat} (firstBound : first ≤ capacity)
    (secondBound : second ≤ capacity) (same : slot base first = slot base second) : first = second := by
  unfold slot capacity at *
  bv_omega

variable {segment base : Word} {words : List Word}

/-- All cells of at most `capacity` words are among the first `capacity` slots. -/
theorem mem_cells {cell : Word × Word} (member : cell ∈ cells segment base words) :
    ∃ count < words.length, cell = (segment, slot base (count + 1)) := by
  induction words with
  | nil => simp [cells] at member
  | cons word words inductionHypothesis =>
    cases List.mem_cons.mp member with
    | inl here => exact ⟨words.length, by simp, here⟩
    | inr below =>
      obtain ⟨count, bound, same⟩ := inductionHypothesis below
      exact ⟨count, by simp; omega, same⟩

theorem OnStack.agree {stack other : Word → Word → Word} (holds : OnStack stack segment base words)
    (same : ∀ cell ∈ cells segment base words, other cell.1 cell.2 = stack cell.1 cell.2) :
    OnStack other segment base words := by
  induction words with
  | nil => trivial
  | cons word words inductionHypothesis =>
    refine ⟨?_, inductionHypothesis holds.2 fun cell member => same cell (.tail _ member)⟩
    rw [same (segment, slot base (words.length + 1)) List.mem_cons_self]
    exact holds.1

theorem OnStack.drop {stack : Word → Word → Word} (holds : OnStack stack segment base words)
    (count : Nat) : OnStack stack segment base (words.drop count) := by
  induction count generalizing words with
  | zero => exact holds
  | succ count inductionHypothesis =>
    cases words with
    | nil => exact holds
    | cons word words => exact inductionHypothesis holds.2

/-- Pushing onto the words of a handler: where SP goes, and what stays the same. -/
structure Pushed (machine after : Machine Store) (base : Word) (words : List Word) : Prop where
  registers : after.registers = { machine.registers with sp := slot base words.length }
  flags : after.flags = machine.flags
  store : after.store = machine.store
  holds : OnStack after.stack machine.registers.ss base words
  apart : ∀ segment offset,
    (∀ count < capacity, (segment, offset) ≠ (machine.registers.ss, slot base (count + 1))) →
    after.stack segment offset = machine.stack segment offset

theorem Machine.pushAll_pushed {machine : Machine Store}
    (here : machine.registers.sp = slot base words.length)
    (holds : OnStack machine.stack machine.registers.ss base words) (added : List Word)
    (fits : added.length + words.length ≤ capacity) :
    Pushed machine (machine.pushAll added) base (added ++ words) := by
  induction added with
  | nil => exact ⟨by rw [List.nil_append, ← here]; rfl, rfl, rfl, holds, fun _ _ _ => rfl⟩
  | cons word added inductionHypothesis =>
    have bound : added.length + words.length < capacity := by
      simp only [List.length_cons] at fits
      omega
    have before := inductionHypothesis (by omega)
    have length : (added ++ words).length < capacity := by simpa using bound
    have next : (machine.pushAll added).registers.sp - 2#16 =
        slot base ((added ++ words).length + 1) := by
      rw [before.registers]
      exact (slot_add base _ 1).symm
    have segment : (machine.pushAll added).registers.ss = machine.registers.ss := by
      rw [before.registers]
    have stack : ∀ other offset,
        (other, offset) ≠ (machine.registers.ss, slot base ((added ++ words).length + 1)) →
        (machine.pushAll (word :: added)).stack other offset =
          (machine.pushAll added).stack other offset := by
      intro other offset different
      simp only [pushAll, push, segment, next]
      exact if_neg fun same => different (Prod.ext same.1 same.2)
    refine ⟨?_, before.flags, before.store, ⟨?_, before.holds.agree fun cell member => ?_⟩,
      fun other offset apart => ?_⟩
    · simp only [pushAll, push, next]
      rw [before.registers]
      rfl
    · simp [pushAll, push, segment, next]
    · obtain ⟨count, under, rfl⟩ := mem_cells member
      refine stack _ _ fun same => ?_
      have equal := slot_injective (by omega) (by omega) (congrArg Prod.snd same)
      omega
    · rw [stack other offset (apart _ length)]
      exact before.apart other offset apart


/-- The last word pushed is on top. -/
theorem OnStack.top {machine : Machine Store} {word : Word}
    (holds : OnStack machine.stack segment base (word :: words))
    (sameSegment : machine.registers.ss = segment)
    (here : machine.registers.sp = slot base (words.length + 1)) : machine.top = word := by
  rw [Machine.top, sameSegment, here]
  exact holds.1

theorem Machine.drop_registers {machine : Machine Store} {left count : Nat}
    (here : machine.registers.sp = slot base (left + count)) :
    (machine.drop count).registers = { machine.registers with sp := slot base left } := by
  have sum := slot_add base left count
  simp only [drop, Registers.mk.injEq, true_and]
  rw [here, sum]
  bv_omega

theorem OnStack.pop {machine : Machine Store} {word : Word}
    (holds : OnStack machine.stack segment base (word :: words))
    (sameSegment : machine.registers.ss = segment)
    (here : machine.registers.sp = slot base (words.length + 1)) :
    machine.top = word ∧
      (machine.drop 1).registers = { machine.registers with sp := slot base words.length } :=
  ⟨holds.top sameSegment here, Machine.drop_registers here⟩

/-- What `iret` finds on the stack. -/
theorem OnStack.frame {machine : Machine Store} (holds : OnStack machine.stack segment base words)
    (three : words.length = 3) (sameSegment : machine.registers.ss = segment)
    (here : machine.registers.sp = slot base words.length) :
    (machine.drop 3).registers = { machine.registers with sp := slot base 0 } ∧
      (machine.drop 2).top = words.getD 2 0#16 := by
  rw [three] at here
  refine ⟨Machine.drop_registers here, ?_⟩
  have registers : (machine.drop 2).registers = { machine.registers with sp := slot base 1 } :=
    Machine.drop_registers here
  have last := holds.drop 2
  obtain ⟨ip, cs, flags, rfl⟩ := List.length_eq_three.mp three
  refine @OnStack.top _ _ _ [] (machine.drop 2) flags last ?_ ?_
  · rw [registers]
    exact sameSegment
  · rw [registers]
    rfl

/-! ## The invariant -/

/-- The words of an activation are on its stack. -/
structure Kept (stack : Word → Word → Word) (activation : Activation Label Symbol Store Ghost) :
    Prop where
  fits : activation.words.length ≤ capacity
  holds : OnStack stack activation.entry.registers.ss activation.entry.base activation.words

/-- The stack a handler may use holds no word of a task below it. -/
def Apart (above below : Task Label Symbol Store Ghost) : Prop :=
  match above with
  | .handler activation => ∀ count < capacity,
      (activation.entry.registers.ss, slot activation.entry.base (count + 1)) ∉ below.cells
  | _ => True

section Invariant

variable (program : Program Label Symbol Store Ghost) (contract : Contract Label Symbol Store Ghost)

/-- The activation is safe to go on with when the task above it returns. -/
def Awaits (above : Task Label Symbol Store Ghost)
    (activation : Activation Label Symbol Store Ghost) : Prop :=
  match above with
  | .program => False
  | .previous => 3 ≤ activation.words.length ∧ ∀ registers flags store,
      registers.ss = activation.entry.registers.ss →
      registers.sp = slot activation.entry.base (activation.words.drop 3).length →
      Safe program contract activation.entry activation.code
        ⟨program.returned registers activation.ghost, activation.words.drop 3, registers, flags, store⟩
  | .service registers flags => ∀ store, Safe program contract activation.entry activation.code
      ⟨activation.ghost, activation.words, registers, flags, store⟩
  -- What a routine returns to depends on the store, which `Running` looks at.
  | .worker _ _ _ => True
  | .handler interrupting => interrupting.entry.interrupt = true ∧
      ∀ store, Safe program contract activation.entry activation.code
        ⟨activation.ghost, activation.words,
          interrupting.entry.before, interrupting.entry.bottom.getD 2 0#16, store⟩

def Below (above below : Task Label Symbol Store Ghost) : Prop :=
  match below with
  | .handler activation => Awaits program contract above activation
  | .worker _ _ _ => False
  | _ => True

/-- The running task is safe. -/
def Running (system : System Label Symbol Store Ghost) : Prop :=
  match system.tasks with
  | .handler activation :: _ =>
    Safe program contract activation.entry activation.code (activation.view system.machine)
  | .worker routine segment offset :: rest => interrupts system.machine.flags = false ∧
      ∀ activation, rest.head? = some (.handler activation) → ∀ registers flags store,
        registers.ss = segment → registers.sp = offset → interrupts flags = false →
        Safe program contract activation.entry activation.code
          ⟨program.called routine registers activation.ghost, activation.words, registers, flags,
            program.confine system.machine.store store⟩
  | _ => True

/-- The tasks that wait have their words on the stacks, and each of them is safe to go on with
when the one above it returns. -/
structure Waiting (stack : Word → Word → Word) (tasks : List (Task Label Symbol Store Ghost)) :
    Prop where
  kept : ∀ activation, .handler activation ∈ tasks → Kept stack activation
  apart : tasks.Pairwise Apart
  linked : tasks.IsChain (Below program contract)

structure Sound (system : System Label Symbol Store Ghost) : Prop extends
    Waiting program contract system.machine.stack system.tasks where
  running : Running program contract system

end Invariant

variable {program : Program Label Symbol Store Ghost} {contract : Contract Label Symbol Store Ghost}
  {machine after : Machine Store} {activation : Activation Label Symbol Store Ghost}
  {tasks rest : List (Task Label Symbol Store Ghost)} {task : Task Label Symbol Store Ghost}

theorem Kept.agree {stack other : Word → Word → Word} (kept : Kept stack activation)
    (same : ∀ cell ∈ activation.cells, other cell.1 cell.2 = stack cell.1 cell.2) :
    Kept other activation :=
  ⟨kept.fits, kept.holds.agree same⟩

theorem cells_used (member : .handler activation ∈ tasks) {cell : Word × Word}
    (isCell : cell ∈ activation.cells) : cell ∈ used tasks :=
  List.mem_flatMap.mpr ⟨_, member, isCell⟩

/-- Another stack keeps the words in use. -/
theorem Kept.overwrite (kept : Kept machine.stack activation) (member : .handler activation ∈ tasks)
    (stack : Word → Word → Word) : Kept (machine.overwrite tasks stack) activation :=
  kept.agree fun _ isCell => if_pos (cells_used member isCell)

/-- What a handler pushes lies apart from the words of the tasks below. -/
theorem Kept.pushed {base : Word} {words : List Word} (pushed : Pushed machine after base words)
    (kept : Kept machine.stack activation)
    (clear : ∀ count < capacity, (machine.registers.ss, slot base (count + 1)) ∉ activation.cells) :
    Kept after.stack activation := by
  refine kept.agree fun cell isCell => pushed.apart cell.1 cell.2 fun count bound same => ?_
  have equal : cell = (machine.registers.ss, slot base (count + 1)) := same
  exact clear count bound (equal ▸ isCell)

namespace Waiting

variable {stack other : Word → Word → Word}

theorem below (waiting : Waiting program contract stack (task :: rest)) :
    Waiting program contract stack rest :=
  ⟨fun activation member => waiting.kept activation (.tail _ member),
    (List.pairwise_cons.mp waiting.apart).2, waiting.linked.tail⟩

theorem agree (waiting : Waiting program contract stack tasks)
    (kept : ∀ activation, .handler activation ∈ tasks → Kept other activation) :
    Waiting program contract other tasks := ⟨kept, waiting.apart, waiting.linked⟩

/-- A task without words of its own goes on top. -/
theorem cons (waiting : Waiting program contract stack tasks)
    (noHandler : ∀ activation, task ≠ .handler activation)
    (below : ∀ below, tasks.head? = some below → Below program contract task below) :
    Waiting program contract stack (task :: tasks) where
  kept := by
    intro activation member
    cases List.mem_cons.mp member with
    | inl same => exact absurd same.symm (noHandler activation)
    | inr member => exact waiting.kept activation member
  apart := by
    refine List.pairwise_cons.mpr ⟨fun other _ => ?_, waiting.apart⟩
    cases task with
    | handler activation => exact absurd rfl (noHandler activation)
    | program | previous | service | worker => trivial
  linked := by
    cases tasks with
    | nil => exact .singleton _
    | cons other tasks => exact List.isChain_cons_cons.mpr ⟨below other rfl, waiting.linked⟩

/-- The topmost handler goes on. -/
theorem replace {next : Activation Label Symbol Store Ghost}
    (waiting : Waiting program contract stack (.handler activation :: rest))
    (entry : next.entry = activation.entry) (kept : Kept other next)
    (others : ∀ activation, .handler activation ∈ rest → Kept other activation) :
    Waiting program contract other (.handler next :: rest) where
  kept := by
    intro activation member
    cases List.mem_cons.mp member with
    | inl same =>
      cases same
      exact kept
    | inr below => exact others activation below
  apart := by
    obtain ⟨first, later⟩ := List.pairwise_cons.mp waiting.apart
    refine List.pairwise_cons.mpr ⟨fun task member => ?_, later⟩
    have clear := first task member
    simp only [Apart, entry] at clear ⊢
    exact clear
  linked := by
    have linked := waiting.linked
    cases rest with
    | nil => exact .singleton _
    | cons below rest =>
      rw [List.isChain_cons_cons] at linked ⊢
      refine ⟨?_, linked.2⟩
      have before := linked.1
      cases below with
      | handler activation =>
        simp only [Below, Awaits, entry] at before ⊢
        exact before
      | worker => exact before
      | program | previous | service => trivial

/-- What the topmost handler pushes leaves the words below alone. -/
theorem pushed {next : Activation Label Symbol Store Ghost} {added : List Word}
    (waiting : Waiting program contract machine.stack (.handler activation :: rest))
    (entry : next.entry = activation.entry) (words : next.words = added ++ activation.words)
    (segment : machine.registers.ss = activation.entry.registers.ss)
    (pushed : Pushed machine after activation.entry.base (added ++ activation.words))
    (fits : (added ++ activation.words).length ≤ capacity) :
    Waiting program contract after.stack (.handler next :: rest) := by
  have kept := waiting.kept activation List.mem_cons_self
  have apart := (List.pairwise_cons.mp waiting.apart).1
  refine waiting.replace entry ⟨words ▸ fits, ?_⟩ fun other member => ?_
  · rw [entry, words, ← segment]
    exact pushed.holds
  · have clear := apart _ member
    simp only [Apart, ← segment] at clear
    exact (waiting.kept other (.tail _ member)).pushed pushed clear

end Waiting

namespace Sound

theorem safe (sound : Sound program contract ⟨machine, .handler activation :: rest⟩) :
    Safe program contract activation.entry activation.code (activation.view machine) := sound.running

/-- A handler is entered on the stack of the running task. -/
theorem enter (verified : Verified program contract) (sound : Sound program contract ⟨machine, tasks⟩)
    (room : machine.HasRoom tasks) {label : Label} {interrupt : Bool} {bottom : List Word}
    {flags : Word} (way : program.EntersAt label ⟨machine.registers, flags, bottom, interrupt⟩)
    (interrupted : ∀ activation, tasks.head? = some (.handler activation) →
      interrupt = true ∧ interrupts machine.flags = true ∧ bottom.getD 2 0#16 = machine.flags)
    (noWorker : ∀ routine segment offset, tasks.head? ≠ some (.worker routine segment offset)) :
    Sound program contract (program.enter label interrupt bottom flags ⟨machine, tasks⟩) := by
  have short : bottom.length ≤ capacity := way.short
  have pushed := @Machine.pushAll_pushed Store machine.registers.sp [] machine
    (slot_zero _).symm trivial bottom (by simpa using short)
  rw [List.append_nil] at pushed
  have clear : ∀ task ∈ tasks, ∀ count < capacity,
      (machine.registers.ss, slot machine.registers.sp (count + 1)) ∉ task.cells :=
    fun task member count bound isCell => room count bound (List.mem_flatMap.mpr ⟨task, member, isCell⟩)
  refine ⟨⟨fun other member => ?_, List.pairwise_cons.mpr ⟨clear, sound.apart⟩, ?_⟩, ?_⟩
  · change Kept (machine.pushAll bottom).stack other
    cases List.mem_cons.mp member with
    | inl same =>
      cases same
      exact ⟨short, pushed.holds⟩
    | inr below => exact (sound.kept other below).pushed pushed (clear _ below)
  · -- An interrupted handler goes on with its own registers.
    cases tasks with
    | nil => exact .singleton _
    | cons below rest =>
      refine List.isChain_cons_cons.mpr ⟨?_, sound.linked⟩
      cases below with
      | handler activation =>
        obtain ⟨isInterrupt, on, sameFlags⟩ := interrupted activation rfl
        refine ⟨isInterrupt, fun store => ?_⟩
        simp only [sameFlags]
        exact sound.safe.anyStore on store
      | worker routine segment offset => exact absurd rfl (noWorker routine segment offset)
      | program | previous | service => trivial
  · have start := verified.safe label _ _ (verified.starts label _ way (machine.pushAll bottom).store)
    have registers : (machine.pushAll bottom).registers =
        Entry.registers ⟨machine.registers, flags, bottom, interrupt⟩ := pushed.registers
    rw [← registers] at start
    exact start

/-- The running handler is left, and the task below goes on as it was. -/
theorem leave (sound : Sound program contract ⟨machine, .handler activation :: rest⟩)
    (same : ∀ below, rest.head? = some (.handler below) → activation.entry.interrupt = true →
      after.registers = activation.entry.before ∧
        after.flags = activation.entry.bottom.getD 2 0#16)
    (stack : after.stack = machine.stack) : Sound program contract ⟨after, rest⟩ := by
  refine ⟨stack ▸ sound.toWaiting.below, ?_⟩
  cases rest with
  | nil => trivial
  | cons below rest =>
    have linked := (List.isChain_cons_cons.mp sound.linked).1
    cases below with
    | handler other =>
      obtain ⟨isInterrupt, safe⟩ := linked
      obtain ⟨registers, flags⟩ := same other rfl isInterrupt
      have now := safe after.store
      rw [← registers, ← flags] at now
      exact now
    | worker => exact linked.elim
    | program | previous | service => trivial

/-- The running handler goes on without a push. -/
theorem goOn (sound : Sound program contract ⟨machine, .handler activation :: rest⟩)
    (next : Activation Label Symbol Store Ghost) (entry : next.entry = activation.entry) (count : Nat)
    (words : next.words = activation.words.drop count) (stack : after.stack = machine.stack)
    (safe : Safe program contract next.entry next.code (next.view after)) :
    Sound program contract ⟨after, .handler next :: rest⟩ := by
  have kept := sound.kept activation List.mem_cons_self
  refine ⟨sound.toWaiting.replace entry ⟨?_, ?_⟩ fun other member => ?_, safe⟩
  · have fits := kept.fits
    rw [words, List.length_drop]
    omega
  · rw [entry, words]
    exact stack ▸ kept.holds.drop count
  · exact stack ▸ sound.kept other (.tail _ member)

/-- The running handler goes on behind a push. -/
theorem pushes (sound : Sound program contract ⟨machine, .handler activation :: rest⟩)
    {next : Activation Label Symbol Store Ghost}
    (here : (activation.view machine).Here activation.entry) {word : Word}
    (fits : activation.words.length < capacity)
    (safe : Safe program contract activation.entry next.code
      ((activation.view machine).push activation.entry word))
    (same : next = { activation with code := next.code, words := word :: activation.words }) :
    Sound program contract ⟨machine.push word, .handler next :: rest⟩ := by
  have kept := sound.kept activation List.mem_cons_self
  have pushed : Pushed machine (machine.push word) activation.entry.base (word :: activation.words) :=
    Machine.pushAll_pushed here.2 (here.1 ▸ kept.holds) [word] (by rw [Nat.add_comm]; exact fits)
  have entry : next.entry = activation.entry := by rw [same]
  have words : next.words = [word] ++ activation.words := by rw [same]; rfl
  refine ⟨sound.toWaiting.pushed entry words here.1 pushed (by simpa using fits), ?_⟩
  have view : next.view (machine.push word) =
      (activation.view machine).push activation.entry word := by
    rw [same]
    simp only [Activation.view, View.push, View.mk.injEq, true_and]
    exact ⟨pushed.registers, pushed.flags, pushed.store⟩
  rw [Running]
  dsimp only
  rw [entry, view]
  exact safe

/-- One instruction of the running handler. -/
theorem execute (verified : Verified program contract)
    (sound : Sound program contract ⟨machine, .handler activation :: rest⟩)
    {input : Byte}
    (meets : Watched contract.assumes ⟨machine, .handler activation :: rest⟩ (.executes input)) :
    Sound program contract ⟨(program.execute input activation machine).1,
      (program.execute input activation machine).2 ++ rest⟩ := by
  have kept := sound.kept activation List.mem_cons_self
  have safe := sound.safe
  obtain ⟨entry, code, ghost, words⟩ := activation
  cases code with
  | nil => exact safe.elim
  | cons instruction code =>
    have does := safe.does
    cases instruction with
    | pushf => exact sound.pushes does.1 does.2.1 does.2.2 rfl
    | push value => exact sound.pushes does.1 does.2.1 does.2.2 rfl
    | popf =>
      cases words with
      | nil => exact does.elim
      | cons word words =>
        obtain ⟨here, -, next⟩ := does
        obtain ⟨top, registers⟩ := kept.holds.pop here.1 here.2
        refine sound.goOn ⟨entry, code, ghost, words⟩ rfl 1 rfl rfl ?_
        simp only [Program.execute, Activation.view, registers, top]
        exact next
    | pop set =>
      cases words with
      | nil => exact does.elim
      | cons word words =>
        obtain ⟨here, -, next⟩ := does
        obtain ⟨top, registers⟩ := kept.holds.pop here.1 here.2
        refine sound.goOn ⟨entry, code, ghost, words⟩ rfl 1 rfl rfl ?_
        simp only [Program.execute, Activation.view, registers, top]
        exact next
    | cli | sti | hlt => exact sound.goOn ⟨entry, code, ghost, words⟩ rfl 0 rfl rfl does
    | data apply => exact sound.goOn ⟨entry, code, ghost, words⟩ rfl 0 rfl rfl does
    | compare watched result =>
      refine sound.goOn ⟨entry, code, ghost, words⟩ rfl 0 rfl rfl (does fun symbol isWatched => ?_)
      cases isWatched
      exact meets
    | input set => exact sound.goOn ⟨entry, code, ghost, words⟩ rfl 0 rfl rfl (does input)
    | jump taken target =>
      by_cases isTaken : taken machine.flags
      · have there := Eq.mp (if_pos isTaken) does
        simp only [Program.execute, if_pos isTaken]
        exact sound.goOn ⟨entry, program.code target, program.jumps target ghost, words⟩ rfl 0 rfl rfl
          (verified.safe target entry _ there)
      · have onwards := Eq.mp (if_neg isTaken) does
        simp only [Program.execute, if_neg isTaken]
        exact sound.goOn ⟨entry, code, ghost, words⟩ rfl 0 rfl rfl onwards
    | call routine =>
      obtain ⟨off, -, later⟩ := does
      have waiting : Waiting program contract machine.stack
          (.handler ⟨entry, code, ghost, words⟩ :: rest) :=
        sound.toWaiting.replace rfl ⟨kept.fits, kept.holds⟩
          fun other member => sound.kept other (.tail _ member)
      refine ⟨waiting.cons nofun fun below same => ?_, off, fun other same => ?_⟩
      · cases same
        trivial
      · cases same
        intro registers flags store sameSegment sameOffset stillOff
        exact later registers flags store sameSegment sameOffset stillOff
    | callPrevious =>
      cases words with
      | nil => exact does.elim
      | cons word words =>
        obtain ⟨here, fits, -, -, later⟩ := does
        have room : ([0#16, 0#16] ++ word :: words).length ≤ capacity := by
          simp only [List.length_append, List.length_cons, List.length_nil]
          omega
        have pushed := Machine.pushAll_pushed here.2 (here.1 ▸ kept.holds) [0#16, 0#16]
          (List.length_append ▸ room)
        have waiting : Waiting program contract (machine.pushAll [0#16, 0#16]).stack
            (.handler ⟨entry, code, ghost, 0#16 :: 0#16 :: word :: words⟩ :: rest) :=
          sound.toWaiting.pushed rfl rfl here.1 pushed room
        refine ⟨waiting.cons nofun fun below same => ?_, trivial⟩
        cases same
        exact ⟨by simp, later⟩
    | jumpPrevious =>
      obtain ⟨⟨balanced, here⟩, three, isInterrupt, same, -⟩ := does
      obtain rfl : words = entry.bottom := balanced
      obtain ⟨registers, flags⟩ := kept.holds.frame three here.1 here.2
      have before : (machine.drop 3).registers = entry.before := by
        have unchanged : machine.registers = entry.registers := same
        rw [registers, unchanged]
        exact entry.restored
      refine ⟨sound.toWaiting.below.cons nofun fun below isHead => ?_, trivial⟩
      obtain ⟨others, rfl⟩ : ∃ others, rest = below :: others := List.head?_eq_some_iff.mp isHead
      have linked := (List.isChain_cons_cons.mp sound.linked).1
      cases below with
      | handler other =>
        intro store
        rw [before, flags]
        exact linked.2 store
      | worker => exact linked
      | program | previous | service => trivial
    | iret =>
      obtain ⟨⟨balanced, here⟩, three, same, -⟩ := does
      obtain rfl : words = entry.bottom := balanced
      obtain ⟨registers, flags⟩ := kept.holds.frame three here.1 here.2
      refine sound.leave (fun _ _ isInterrupt => ⟨?_, flags⟩) rfl
      have unchanged : machine.registers = entry.registers := same isInterrupt
      rw [unchanged] at registers
      exact registers.trans entry.restored
    | lret =>
      obtain ⟨-, -, noInterrupt, -⟩ := does
      refine sound.leave (fun _ _ isInterrupt => ?_) rfl
      exact absurd (isInterrupt.symm.trans noInterrupt) Bool.noConfusion

/-- The running task, without words of its own, does as it likes. -/
theorem runs (sound : Sound program contract ⟨machine, task :: rest⟩)
    (noHandler : ∀ activation, task ≠ .handler activation) (stack : Word → Word → Word)
    (after : Machine Store) (same : after.stack = machine.overwrite rest stack)
    (running : Running program contract ⟨after, task :: rest⟩) :
    Sound program contract ⟨after, task :: rest⟩ := by
  refine ⟨sound.toWaiting.agree fun activation member => ?_, running⟩
  cases List.mem_cons.mp member with
  | inl isTask => exact absurd isTask.symm (noHandler activation)
  | inr below => exact same ▸ (sound.kept activation member).overwrite below stack

/-- No routine runs with interrupts on. -/
theorem noWorker (sound : Sound program contract ⟨machine, tasks⟩)
    (on : interrupts machine.flags = true) (routine : Symbol) (segment offset : Word) :
    tasks.head? ≠ some (.worker routine segment offset) := by
  intro isHead
  obtain ⟨rest, rfl⟩ := List.head?_eq_some_iff.mp isHead
  have off : interrupts machine.flags = false := sound.running.1
  exact Bool.noConfusion (on.symm.trans off)

end Sound

theorem Sound.step (verified : Verified program contract) {system : System Label Symbol Store Ghost}
    (sound : Sound program contract system) (action : Action Label Store)
    (meets : Watched contract.assumes system action) :
    Sound program contract (program.step action system) := by
  obtain ⟨machine, tasks⟩ := system
  simp only [Program.step]
  split
  case h_1 registers flags store stack routine segment offset rest =>
    obtain ⟨off, later⟩ := sound.running
    refine sound.runs nofun stack _ rfl ⟨?_, fun activation isHead => ?_⟩
    · dsimp only at off ⊢
      simp [off]
    · simp only [program.confine_confine]
      exact later activation isHead
  case h_2 registers flags store stack task rest notWorker =>
    split_ifs with foreign
    · cases task with
      | handler | worker => exact absurd foreign Bool.noConfusion
      | program | previous | service => exact sound.runs nofun stack _ rfl trivial
    · exact sound
  case h_3 label ip cs task rest =>
    split_ifs with possible
    · obtain ⟨foreign, room⟩ := possible
      have noHandler : ∀ activation, (task :: rest).head? = some (.handler activation) → False := by
        intro activation same
        cases same
        exact Bool.noConfusion foreign
      have noWorker : ∀ routine segment offset,
          (task :: rest).head? ≠ some (.worker routine segment offset) := by
        intro routine segment offset same
        cases same
        exact Bool.noConfusion foreign
      split
      case h_1 => exact sound
      case h_2 way =>
        exact sound.enter verified room ⟨rfl, rfl, way⟩
          (fun _ same => (noHandler _ same).elim) noWorker
      case h_3 way =>
        exact sound.enter verified room ⟨interrupts_disabled _, way⟩
          (fun _ same => (noHandler _ same).elim) noWorker
    · exact sound
  case h_4 =>
    split_ifs with possible
    · exact sound.enter verified possible.2 ⟨interrupts_disabled _, rfl⟩
        (fun _ _ => ⟨rfl, possible.1, rfl⟩) (sound.noWorker possible.1)
    · exact sound
  case h_5 =>
    split_ifs with on
    · refine ⟨sound.toWaiting.cons nofun fun below isHead => ?_, trivial⟩
      obtain ⟨rest, rfl⟩ : ∃ rest, tasks = below :: rest := List.head?_eq_some_iff.mp isHead
      cases below with
      | handler activation =>
        exact fun store => sound.safe.anyStore on store
      | worker routine segment offset => exact absurd rfl (sound.noWorker on routine segment offset)
      | program | previous | service => trivial
    · exact sound
  case h_6 flags routine segment offset activation rest =>
    split_ifs with balanced
    · obtain ⟨off, later⟩ := sound.running
      have kept := sound.kept activation (.tail _ List.mem_cons_self)
      refine ⟨sound.toWaiting.below.replace rfl ⟨kept.fits, kept.holds⟩
        fun other member => sound.kept other (.tail _ (.tail _ member)), ?_⟩
      have safe := later activation rfl machine.registers machine.flags machine.store
        balanced.1 balanced.2 off
      rw [program.confine_self] at safe
      exact safe
    · exact sound
  case h_7 flags activation rest =>
    split_ifs with here
    · have kept := sound.kept activation (.tail _ List.mem_cons_self)
      obtain ⟨three, safe⟩ := (List.isChain_cons_cons.mp sound.linked).1
      have registers : (machine.drop 3).registers =
          { machine.registers with
            sp := slot activation.entry.base (activation.words.drop 3).length } := by
        refine Machine.drop_registers ?_
        rw [here.2, List.length_drop, Nat.sub_add_cancel three]
      refine ⟨sound.toWaiting.below.replace rfl ⟨?_, kept.holds.drop 3⟩
        fun other member => sound.kept other (.tail _ (.tail _ member)), ?_⟩
      · have fits := kept.fits
        simp only [List.length_drop]
        omega
      · refine safe _ flags machine.store ?_ ?_
        · rw [registers]
          exact here.1
        · rw [registers]
    · exact sound
  case h_8 flags registers flags task rest =>
    refine ⟨sound.toWaiting.below, ?_⟩
    have linked := (List.isChain_cons_cons.mp sound.linked).1
    cases task with
    | handler activation => exact linked machine.store
    | worker => exact linked.elim
    | program | previous | service => trivial
  case h_9 input activation rest => exact sound.execute verified meets
  case h_10 => exact sound

/-! ## Runs -/

/-- At first nothing but a program runs. -/
theorem sound_start (machine : Machine Store) : Sound program contract ⟨machine, [.program]⟩ where
  kept activation member := by simp at member
  apart := List.pairwise_singleton _ _
  linked := .singleton _
  running := trivial

/-- In every run that meets what the contract assumes, every handler is safe at every point. -/
theorem Sound.run (verified : Verified program contract) {system : System Label Symbol Store Ghost}
    (sound : Sound program contract system) {actions : List (Action Label Store)}
    {assumes : Symbol → Entry → View Store Ghost → Prop}
    (meets : Run.AllSteps program.step (Watched assumes) actions system)
    (enough : ∀ symbol entry view, assumes symbol entry view → contract.assumes symbol entry view) :
    Sound program contract (Run.run program.step actions system) :=
  Run.invariant_of_allSteps program.step
    (fun _ action sound watched => sound.step verified action (watched.mono enough)) sound meets

/-- A contract that assumes nothing speaks about every run. -/
theorem Sound.run_any (verified : Verified program contract) {system : System Label Symbol Store Ghost}
    (sound : Sound program contract system) (actions : List (Action Label Store))
    (all : ∀ symbol entry view, contract.assumes symbol entry view) :
    Sound program contract (Run.run program.step actions system) :=
  Run.invariant program.step
    (fun system action sound => sound.step verified action (watched_of_all all system action)) actions sound

namespace Sound

variable {instruction : Instruction Label Symbol Store} {code : List (Instruction Label Symbol Store)}

/-- What the next instruction of the running handler needs is there. -/
theorem does (sound : Sound program contract ⟨machine, .handler activation :: rest⟩)
    (here : activation.code = instruction :: code) :
    Does program contract activation.entry instruction (Safe program contract activation.entry code)
      (activation.view machine) := by
  have safe := sound.safe
  rw [here] at safe
  exact safe.does

/-- Only the running task can be a routine. -/
theorem noWorkerBelow (sound : Sound program contract ⟨machine, task :: rest⟩) (routine : Symbol)
    (segment offset : Word) : .worker routine segment offset ∉ rest := by
  have linked := sound.linked
  dsimp only at linked
  clear sound
  induction rest generalizing task with
  | nil => exact List.not_mem_nil
  | cons below rest inductionHypothesis =>
    obtain ⟨first, later⟩ := List.isChain_cons_cons.mp linked
    intro member
    cases List.mem_cons.mp member with
    | inl same =>
      cases same
      exact first
    | inr member => exact inductionHypothesis later member

/-- `iret` goes back to where the handler was entered. -/
theorem iret (sound : Sound program contract ⟨machine, .handler activation :: rest⟩)
    (here : activation.code = .iret :: code) (input : Byte) :
    program.step (.executes input) ⟨machine, .handler activation :: rest⟩ =
      ⟨{ machine with
          registers := { machine.registers with sp := activation.entry.base }
          flags := activation.entry.bottom.getD 2 0#16 }, rest⟩ := by
  obtain ⟨⟨balanced, segment, offset⟩, three, -, -⟩ := sound.does here
  have words : activation.words = activation.entry.bottom := balanced
  have kept := (sound.kept activation List.mem_cons_self).holds
  rw [words] at kept
  obtain ⟨registers, flags⟩ := kept.frame three segment (words ▸ offset)
  rw [slot_zero] at registers
  simp only [Program.step, Program.execute, here, List.nil_append, registers, flags]
  rfl

end Sound

end Library.Handlers
