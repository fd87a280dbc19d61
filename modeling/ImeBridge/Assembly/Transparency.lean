import ImeBridge.Assembly.Contract

/-! # The hooks are transparent

INT 18h calls, COM1 interrupts, calls of `pc98_uninstall_prepare_entry`, other programs and
the C worker, in any order.
-/

namespace ImeBridge.Assembly

open Library Library.Handlers

abbrev Computer := System Label Symbol Resident Observed

/-- The C worker starts at the top of the resident stack with DS=SS=CS and interrupts off, and no
other worker is on that stack. -/
def WorkerAlone (copy : Copy) (computer : Computer) : Prop :=
  ∀ activation rest symbol code, computer.tasks = .handler activation :: rest →
    activation.code = call symbol :: code →
    (∀ other segment offset, .worker other segment offset ∉ computer.tasks) ∧
      interrupts computer.machine.flags = false ∧
      computer.machine.registers.ds = copy.segment ∧
      computer.machine.registers.ss = copy.segment ∧
      computer.machine.registers.sp = copy.workerStackTop

/-- Where the COM1 hook ends, everything is as it was when the interrupt came, the frame on the
stack included; so `iret` goes on with the interrupted code as if nothing had been. -/
def SerialTransparent (copy : Copy) (computer : Computer) : Prop :=
  ∀ activation rest code, computer.tasks = .handler activation :: rest →
    activation.entry.interrupt = true →
    (activation.code = iret :: code ∨ activation.code = ljmpOldSerialIrqVector :: code →
      computer.machine.registers = activation.entry.registers ∧
        OnStack computer.machine.stack activation.entry.before.ss activation.entry.base
          activation.entry.bottom) ∧
    (activation.code = iret :: code → ∀ input, copy.hooks.step (.executes input) computer =
      ⟨{ computer.machine with
          registers := activation.entry.before
          flags := activation.entry.bottom.getD 2 0#16 }, rest⟩)

/-- The INT 18h hook calls the previous handler with the caller's registers and gives the caller
what it returned, unless that is a word the caller is not to see. -/
def InputTransparent (copy : Copy) (computer : Computer) : Prop :=
  ∀ activation rest code, computer.tasks = .handler activation :: rest →
    InputCall activation.entry →
    (activation.code = lcallOldInputVector :: code →
      computer.machine.registers =
          { activation.entry.before with sp := slot activation.entry.base 4 } ∧
        computer.machine.flags = activation.entry.flags ∧
        OnStack computer.machine.stack activation.entry.before.ss activation.entry.base
          (activation.entry.flags :: activation.entry.bottom)) ∧
    (activation.code = iret :: code →
      (activation.ghost.suppressed = true → activation.ghost.returned.ax = 0x3420#16) ∧
      (activation.ghost.suppressed = false → ∀ input, copy.hooks.step (.executes input) computer =
        ⟨{ computer.machine with
            registers := { activation.ghost.returned with sp := activation.entry.before.sp }
            flags := activation.entry.bottom.getD 2 0#16 }, rest⟩) ∧
      ∀ input,
        (copy.hooks.step (.executes input) computer).machine.registers.ss = activation.entry.before.ss ∧
          (copy.hooks.step (.executes input) computer).machine.registers.sp = activation.entry.before.sp)

variable {copy : Copy} {own : Prop} {computer : Computer}

theorem workerAlone (sound : Sound copy.hooks (copy.contract own) computer) :
    WorkerAlone copy computer := by
  intro activation rest symbol code tasks here
  obtain ⟨machine, _⟩ := computer
  subst tasks
  obtain ⟨off, works, -⟩ := sound.does here
  refine ⟨fun other segment offset member => ?_, off, works⟩
  cases List.mem_cons.mp member with
  | inl same => cases same
  | inr below => exact sound.noWorkerBelow other segment offset below

theorem serialTransparent (sound : Sound copy.hooks (copy.contract own) computer) :
    SerialTransparent copy computer := by
  intro activation rest code tasks isInterrupt
  obtain ⟨machine, _⟩ := computer
  subst tasks
  have kept := (sound.kept activation List.mem_cons_self).holds
  refine ⟨fun here => ?_, fun here input => ?_⟩
  · cases here with
    | inl here =>
      obtain ⟨⟨balanced, -⟩, -, unchanged, -⟩ := sound.does here
      have words : activation.words = activation.entry.bottom := balanced
      exact ⟨unchanged isInterrupt, words ▸ kept⟩
    | inr here =>
      obtain ⟨⟨balanced, -⟩, -, -, unchanged, -⟩ := sound.does here
      have words : activation.words = activation.entry.bottom := balanced
      exact ⟨unchanged, words ▸ kept⟩
  · rw [sound.iret here input]
    obtain ⟨-, -, same, -⟩ := sound.does here
    have unchanged : machine.registers = activation.entry.registers := same isInterrupt
    simp only [unchanged]
    rfl

theorem inputTransparent (sound : Sound copy.hooks (copy.contract own) computer) :
    InputTransparent copy computer := by
  intro activation rest code tasks isInput
  obtain ⟨machine, _⟩ := computer
  subst tasks
  have kept := (sound.kept activation List.mem_cons_self).holds
  refine ⟨fun here => ?_, fun here => ?_⟩
  · have does := sound.does here
    obtain ⟨entry, instructions, observed, words⟩ := activation
    cases words with
    | nil => exact does.elim
    | cons word words =>
      obtain ⟨-, -, -, ⟨-, same⟩, -⟩ := does
      injection same with _ onStack registers flags _
      exact ⟨registers, flags, onStack ▸ kept⟩
  · obtain ⟨⟨-, segment, -⟩, -, -, -, leaves⟩ := sound.does here
    obtain ⟨returns, -⟩ := leaves isInput
    refine ⟨returns.suppressed, fun shown input => ?_, fun input => ?_⟩
    · have same : machine.registers = activation.ghost.returned := returns.same shown
      rw [sound.iret here input]
      simp only [same]
      rfl
    · rw [sound.iret here input]
      exact ⟨segment, rfl⟩

/-- In every run, at every point of it. -/
theorem hooks_transparent (copy : Copy) (machine : Machine Resident)
    (actions : List (Action Label Resident)) :
    let computer := Run.run copy.hooks.step actions ⟨machine, [.program]⟩
    WorkerAlone copy computer ∧ SerialTransparent copy computer ∧ InputTransparent copy computer := by
  have sound : Sound copy.hooks (copy.contract False)
      (Run.run copy.hooks.step actions ⟨machine, [.program]⟩) :=
    (sound_start machine).run_any (hooks_verified copy False) actions fun _ _ _ => False.elim
  exact ⟨workerAlone sound, serialTransparent sound, inputTransparent sound⟩

end ImeBridge.Assembly
