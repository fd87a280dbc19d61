import ImeBridge.Assembly.Transparency

/-! # INT 18h calls inside one another

`pc98_input_original_ah` and `pc98_returned_hotkey_handled` are one variable each for all calls
there may be at a time.
-/

namespace ImeBridge.Assembly

open Library Library.Handlers

/-- When the hook looks at `pc98_input_original_ah` or `pc98_returned_hotkey_handled`, it finds what
the call itself put there, or a function number it treats alike. -/
def FindsOwn : Computer → Action Label Resident → Prop := Watched Own

instance (computer : Computer) (action : Action Label Resident) :
    Decidable (FindsOwn computer action) :=
  inferInstanceAs (Decidable (Watched Own computer action))

/-- The INT 18h call that goes back to its caller with the next instruction. -/
def goingBack (computer : Computer) : Option (Activation Label Symbol Resident Observed) :=
  match computer.tasks with
  | .handler activation :: _ =>
    match activation.code with
    | .iret :: _ => if InputCall activation.entry then some activation else none
    | _ => none
  | _ => none

/-- What becomes of an INT 18h call depends on its own function number. -/
def CallsApart (computer : Computer) : Prop :=
  ∀ activation ∈ goingBack computer,
    activation.ghost.Outcome (ownAh activation.entry) computer.machine.registers

instance (computer : Computer) : Decidable (CallsApart computer) := by
  unfold CallsApart; infer_instance

theorem goingBack_some {computer : Computer} {activation : Activation Label Symbol Resident Observed}
    (isBack : goingBack computer = some activation) :
    InputCall activation.entry ∧ (∃ rest, computer.tasks = .handler activation :: rest) ∧
      ∃ code, activation.code = iret :: code := by
  unfold goingBack at isBack
  split at isBack
  case h_1 running rest tasks =>
    split at isBack
    case h_1 code here =>
      split_ifs at isBack with isInput
      cases isBack
      exact ⟨isInput, ⟨rest, tasks⟩, code, here⟩
    case h_2 => cases isBack
  case h_2 => cases isBack

theorem callsApart {copy : Copy} {computer : Computer}
    (sound : Sound copy.hooks (copy.contract True) computer) : CallsApart computer := by
  intro activation isBack
  obtain ⟨isInput, ⟨rest, tasks⟩, code, here⟩ := goingBack_some isBack
  obtain ⟨machine, _⟩ := computer
  subst tasks
  obtain ⟨-, -, -, -, leaves⟩ := sound.does here
  exact (leaves isInput).2 trivial

/-- As long as every call finds its own values, all calls keep apart. -/
theorem nested_calls_keep_apart (copy : Copy) (machine : Machine Resident)
    (actions : List (Action Label Resident))
    (own : Run.AllSteps copy.hooks.step FindsOwn actions ⟨machine, [.program]⟩) :
    CallsApart (Run.run copy.hooks.step actions ⟨machine, [.program]⟩) := by
  have sound : Sound copy.hooks (copy.contract True)
      (Run.run copy.hooks.step actions ⟨machine, [.program]⟩) :=
    (sound_start machine).run (hooks_verified copy True) own fun _ _ _ own _ => own
  exact callsApart sound

/-- A call with `outer` in AX waits in the previous handler, where an interrupt handler makes one with
`inner`.  Then the outer one gets a hotkey word and executes `count` instructions behind
`pc98_service_returned_hotkey`. -/
def nested (outer inner : Word) (count : Nat) : List (Action Label Resident) :=
  let caller (ax sp flags : Word) : Action Label Resident :=
    .runs { ax := ax, bx := 0x0100#16, ss := 0x3000#16, sp := sp } flags id fun _ _ => 0#16
  -- On to the next routine or handler; where the hook is left earlier, the rest does nothing.
  let hook : List (Action Label Resident) := List.replicate 32 (.executes 0#8)
  [caller outer 0x0100#16 0x0200#16, .enters .pc98InputHook 0#16 0#16] ++
    hook ++ [.returns 0#16] ++ hook ++
    [caller outer 0x00f4#16 0x0200#16, .serves, caller inner 0x00f4#16 0#16,
      .enters .pc98InputHook 0#16 0#16] ++
    hook ++ [.returns 0#16] ++ hook ++ [.returns 0#16] ++ hook ++
    [.returns 0#16, caller 0x3420#16 0x00f4#16 0x0200#16, .returns 0#16] ++ hook ++
    [.runs { ax := 0x0001#16, ss := 0x2000#16, sp := 0x1c00#16 } 0#16 id fun _ _ => 0#16,
      .returns 0#16] ++
    List.replicate count (.executes 0#8)

/-- The computer of the runs below. -/
def sampleCopy : Copy := ⟨0x2000#16, 0x1c00#16⟩

def sampleMachine : Machine Resident := { store := {} }

/-- AH=05h in AH=05h: the outer call reports that there is no key. -/
theorem nested_calls_keep_apart_polling :
    (goingBack (Run.run sampleCopy.hooks.step (nested 0x0500#16 0x0500#16 25)
        ⟨sampleMachine, [.program]⟩)).isSome = true ∧
      CallsApart (Run.run sampleCopy.hooks.step (nested 0x0500#16 0x0500#16 25)
        ⟨sampleMachine, [.program]⟩) :=
  ⟨by decide +kernel,
    nested_calls_keep_apart sampleCopy sampleMachine (nested 0x0500#16 0x0500#16 25)
      (by decide +kernel)⟩

/-- AH=01h in AH=00h: the outer call gives its caller the word although it is handled. -/
theorem outer_call_gives_handled_word :
    ¬ ∀ (copy : Copy) (machine : Machine Resident) (actions : List (Action Label Resident)),
      CallsApart (Run.run copy.hooks.step actions ⟨machine, [.program]⟩) := by
  intro apart
  have outer := apart sampleCopy sampleMachine (nested 0x0000#16 0x0100#16 22)
  exact absurd outer (by decide +kernel)

end ImeBridge.Assembly
