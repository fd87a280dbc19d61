import ImeBridge.Dos.Removal

/-! # One copy for good

A machine on which the program is started again and again, with any arguments, while the
resident copy is entered by its interrupts.  The first start without `/U` stays resident;
from then on every start is refused, and nothing gives back the vectors or the memory.
-/

namespace ImeBridge

open Library

/-- A machine and how the starts of the program ended, oldest first. -/
structure Shell extends Dos where
  endings : List Ending := []

inductive ShellAction where
  /-- DOS loads the program at a segment and runs it to its end. -/
  | run (segment environment : Word) (args : List String) (modifierMask : Byte)
  /-- INT 18h or INT 0Ch enters the copy that its vector points to. -/
  | enter (hook : Hook) (action : Action)

namespace Shell

variable (layout : Layout) (frees : Word → Bool)

def step (action : ShellAction) (shell : Shell) : Shell :=
  match action with
  | .run segment environment args modifierMask =>
    let (ending, dos) := main layout segment args modifierMask frees
      (shell.toDos.load segment environment pc98TsrSignature)
    { toDos := dos, endings := shell.endings ++ [ending] }
  | .enter hook action =>
    let vector := shell.vectors hook.interrupt
    -- `main` installs no other hook.
    if (hook = .input ∨ hook = .serialIrq) ∧ vector.offset = layout.hook hook then
      { shell with toDos := shell.toDos.enter vector.segment action }
    else shell

/-- DOS does not load a program over the copy that INT 18h points to. -/
def Spares (shell : Shell) : ShellAction → Prop
  | .run segment _ _ _ => (shell.vectors 0x18#8).offset = layout.hook .input →
    segment ≠ (shell.vectors 0x18#8).segment
  | .enter _ _ => True

instance (shell : Shell) (action : ShellAction) : Decidable (shell.Spares layout action) := by
  cases action <;> unfold Spares <;> infer_instance

end Shell

/-- The arguments of the starts. -/
def ShellAction.args : ShellAction → Option (List String)
  | .run _ _ args _ => some args
  | .enter _ _ => none

/-- The segment of the first start that installs. -/
def installer : List ShellAction → Option Word
  | [] => none
  | .run segment _ args _ :: actions => if uninstallRequested args then installer actions else some segment
  | .enter _ _ :: actions => installer actions

/-- The exit codes of starts with these arguments, `none` where the program stays resident. -/
def exitCodes : Bool → List (List String) → List (Option Byte)
  | _, [] => []
  | resident, args :: later =>
    if resident ∨ uninstallRequested args then some 1#8 :: exitCodes resident later
    else none :: exitCodes true later

namespace Shell

/-- Since the machine was booted a copy became resident, or none. -/
structure Holds (layout : Layout) (boot : Dos) (resident : Option Word) (shell : Shell) : Prop where
  vectors : shell.vectors = match resident with
    | none => boot.vectors
    | some segment => Function.update (Function.update boot.vectors 0x0c#8 ⟨segment, layout.hook .serialIrq⟩)
        0x18#8 ⟨segment, layout.hook .input⟩
  signature : ∀ segment ∈ resident, (shell.copies segment).signature = pc98TsrSignature
  saved : ∀ segment ∈ resident, (shell.copies segment).oldVector .serialIrq = boot.vectors 0x0c#8 ∧
    (shell.copies segment).oldVector .input = boot.vectors 0x18#8
  freed : shell.freed = boot.freed

variable {layout : Layout} {frees : Word → Bool} {boot : Dos} {shell : Shell} {segment environment : Word}
  {args : List String} {modifierMask : Byte}

/-- A start that is refused changes nothing but its own copy. -/
theorem Holds.refused {resident : Option Word} {dos : Dos} {endings : List Ending}
    (vectors : dos.vectors = shell.vectors) (freed : dos.freed = shell.freed)
    (copies : ∀ other ∈ resident, dos.copies other = shell.copies other)
    (holds : shell.Holds layout boot resident) : Holds layout boot resident ⟨dos, endings⟩ where
  vectors := vectors.trans holds.vectors
  signature other isResident := copies other isResident ▸ holds.signature other isResident
  saved other isResident := copies other isResident ▸ holds.saved other isResident
  freed := freed.trans holds.freed

theorem clearResidentState_same (segment : Word) (modifierMask : Byte) (dos : Dos) :
    (clearResidentState segment modifierMask dos).vectors = dos.vectors ∧
      (clearResidentState segment modifierMask dos).freed = dos.freed ∧
      ∀ other, other ≠ segment → (clearResidentState segment modifierMask dos).copies other =
        dos.copies other :=
  ⟨rfl, rfl, fun _ differs => Function.update_of_ne differs _ _⟩

theorem load_same (segment environment : Word) (signature : List Byte) (dos : Dos) :
    (dos.load segment environment signature).vectors = dos.vectors ∧
      (dos.load segment environment signature).freed = dos.freed ∧
      ∀ other, other ≠ segment → (dos.load segment environment signature).copies other = dos.copies other :=
  ⟨rfl, rfl, fun _ differs => Function.update_of_ne differs _ _⟩

/-- `/U` finds no copy, or one without the signature that it looks for. -/
theorem uninstall_refused (dos : Dos) (refused : (dos.vectors 0x18#8).offset = layout.hook .input →
    ¬ Signed (dos.copies (dos.vectors 0x18#8).segment).signature) :
    pc98UninstallResident layout frees dos = (1#16, dos) := by
  by_cases present : (dos.vectors 0x18#8).offset = layout.hook .input
  · exact (if_neg (not_not.mpr present)).trans (if_pos (refused present))
  · exact if_pos present

theorem main_uninstall_refused {dos : Dos} (uninstalls : uninstallRequested args = true)
    (refused : pc98UninstallResident layout frees (clearResidentState segment 0x01#8 dos) =
      (1#16, clearResidentState segment 0x01#8 dos)) :
    main layout segment args modifierMask frees dos =
      (⟨["IME98 TSR is not installed or cannot be unloaded safely\r\n"], some 1#8⟩,
        clearResidentState segment 0x01#8 dos) := by
  simp [main, uninstalls, refused]

section Run

variable (serialFree : (boot.vectors 0x0c#8).offset ≠ layout.hook .serialIrq)
  (inputFree : (boot.vectors 0x18#8).offset ≠ layout.hook .input)
include serialFree inputFree

/-- A start without a resident copy. -/
theorem Holds.run_none (holds : shell.Holds layout boot none) :
    let next := shell.step layout frees (.run segment environment args modifierMask)
    next.Holds layout boot (if uninstallRequested args then none else some segment) ∧
      next.endings.map (·.code) =
        shell.endings.map (·.code) ++ [if uninstallRequested args then some 1#8 else none] := by
  intro next
  have vectors : shell.vectors = boot.vectors := holds.vectors
  obtain ⟨loadVectors, loadFreed, -⟩ := load_same segment environment pc98TsrSignature shell.toDos
  cases uninstalls : uninstallRequested args with
  | true =>
    obtain ⟨clearVectors, clearFreed, -⟩ := clearResidentState_same segment 0x01#8
      (shell.toDos.load segment environment pc98TsrSignature)
    have absent : ((clearResidentState segment 0x01#8
        (shell.toDos.load segment environment pc98TsrSignature)).vectors 0x18#8).offset ≠ layout.hook .input := by
      rw [clearVectors, loadVectors, vectors]
      exact inputFree
    have ends := @main_uninstall_refused layout frees segment args modifierMask
      (shell.toDos.load segment environment pc98TsrSignature) uninstalls
      (uninstall_refused _ fun present => absurd present absent)
    simp only [next, step, ends]
    exact ⟨holds.refused (clearVectors.trans loadVectors) (clearFreed.trans loadFreed)
      (fun _ isResident => nomatch isResident), by simp⟩
  | false =>
    obtain ⟨present, _⟩ | ⟨_, present, _⟩ | ⟨_, _, resident, ends⟩ := main_cases layout segment modifierMask frees
      (shell.toDos.load segment environment pc98TsrSignature) uninstalls
    · rw [loadVectors, vectors] at present
      exact absurd present serialFree
    · rw [loadVectors, vectors] at present
      exact absurd present inputFree
    · obtain ⟨signature, serial, input⟩ := Dos.main_saves resident
      rw [loadVectors, vectors] at serial input
      refine ⟨⟨?_, ?_, ?_, ?_⟩, ?_⟩
      · simp only [next, step, ends, hookVector_vectors]
        rw [show (clearResidentState segment modifierMask
          (shell.toDos.load segment environment pc98TsrSignature)).vectors = boot.vectors from vectors]
        rfl
      · rintro other ⟨⟩
        exact signature.trans (by simp [Dos.load, Dos.setCopy])
      · rintro other ⟨⟩
        exact ⟨serial, input⟩
      · simp only [next, step, ends]
        exact holds.freed
      · simp only [next, step, List.map_append, List.map_cons, List.map_nil, resident]
        rfl

omit serialFree inputFree in
/-- A start with one. -/
theorem Holds.run_some {resident : Word} (apart : segment ≠ resident)
    (holds : shell.Holds layout boot (some resident)) :
    let next := shell.step layout frees (.run segment environment args modifierMask)
    next.Holds layout boot (some resident) ∧
      next.endings.map (·.code) = shell.endings.map (·.code) ++ [some 1#8] := by
  intro next
  obtain ⟨loadVectors, loadFreed, loadCopies⟩ := load_same segment environment pc98TsrSignature shell.toDos
  have serial : (shell.vectors 0x0c#8).offset = layout.hook .serialIrq := by
    rw [holds.vectors]
    simp [Function.update_of_ne]
  have input : shell.vectors 0x18#8 = ⟨resident, layout.hook .input⟩ := by
    rw [holds.vectors]
    simp
  have ends : ∃ text mask, main layout segment args modifierMask frees
      (shell.toDos.load segment environment pc98TsrSignature) = (⟨text, some 1#8⟩,
        clearResidentState segment mask (shell.toDos.load segment environment pc98TsrSignature)) := by
    cases uninstalls : uninstallRequested args with
    | true =>
      -- The copy at work has its own signature, which is not the one that is looked for.
      have unsigned : ¬ Signed pc98TsrSignature := by decide
      obtain ⟨clearVectors, -, clearCopies⟩ := clearResidentState_same segment 0x01#8
        (shell.toDos.load segment environment pc98TsrSignature)
      refine ⟨_, _, main_uninstall_refused uninstalls (uninstall_refused _ fun _ => ?_)⟩
      rw [clearVectors, loadVectors, input, clearCopies _ apart.symm, loadCopies _ apart.symm,
        holds.signature resident rfl]
      exact unsigned
    | false =>
      obtain ⟨_, code, ends⟩ | ⟨absent, _⟩ | ⟨absent, _⟩ := main_cases layout segment modifierMask frees
        (shell.toDos.load segment environment pc98TsrSignature) uninstalls
      · refine ⟨(main layout segment args modifierMask frees
          (shell.toDos.load segment environment pc98TsrSignature)).1.printed, modifierMask, ?_⟩
        rw [← code, ← ends]
      · exact absurd serial absent
      · exact absurd serial absent
  obtain ⟨text, mask, ends⟩ := ends
  obtain ⟨clearVectors, clearFreed, clearCopies⟩ := clearResidentState_same segment mask
    (shell.toDos.load segment environment pc98TsrSignature)
  simp only [next, step, ends]
  refine ⟨holds.refused (clearVectors.trans loadVectors) (clearFreed.trans loadFreed) ?_, by simp⟩
  rintro other ⟨⟩
  exact (clearCopies _ apart.symm).trans (loadCopies _ apart.symm)

/-- Entering a copy leaves all this alone. -/
theorem Holds.enter {resident : Option Word} (hook : Hook) (action : Action)
    (holds : shell.Holds layout boot resident) :
    (shell.step layout frees (.enter hook action)).Holds layout boot resident ∧
      (shell.step layout frees (.enter hook action)).endings = shell.endings := by
  simp only [step]
  split
  · rename_i entered
    obtain ⟨kinds, offset⟩ := entered
    cases resident with
    | none =>
      have vectors : shell.vectors = boot.vectors := holds.vectors
      rw [vectors] at offset
      rcases kinds with rfl | rfl
      · exact absurd offset inputFree
      · exact absurd offset serialFree
    | some resident =>
      refine ⟨?_, rfl⟩
      have vector : (shell.vectors hook.interrupt).segment = resident := by
        rw [holds.vectors]
        rcases kinds with rfl | rfl <;> simp [Hook.interrupt, Function.update_of_ne]
      rw [vector]
      have kept := Dos.enter_sameProgram shell.toDos action
        (⟨rfl, rfl⟩ : Dos.SameProgram (shell.copies resident) (shell.copies resident))
      refine ⟨holds.vectors, ?_, ?_, holds.freed⟩
      · rintro other ⟨⟩
        exact kept.signature.trans (holds.signature resident rfl)
      · rintro other ⟨⟩
        have saved := holds.saved resident rfl
        rw [← kept.oldVector] at saved
        exact saved
  · exact ⟨holds, rfl⟩

theorem Holds.run (actions : List ShellAction) {resident : Option Word}
    (holds : shell.Holds layout boot resident)
    (spares : Run.AllSteps (step layout frees) (Spares layout) actions shell) :
    let last := Run.run (step layout frees) actions shell
    last.Holds layout boot (resident.or (installer actions)) ∧
      last.endings.map (·.code) = shell.endings.map (·.code) ++
        exitCodes resident.isSome (actions.filterMap ShellAction.args) := by
  induction actions generalizing shell resident with
  | nil => exact ⟨by simpa [installer] using holds, by simp [exitCodes]⟩
  | cons action actions inductionHypothesis =>
    obtain ⟨spare, spares⟩ := spares
    cases action with
    | enter hook action =>
      obtain ⟨next, same⟩ := holds.enter serialFree inputFree hook action
      have rest := inductionHypothesis next spares
      rw [same] at rest
      exact rest
    | run segment environment args modifierMask =>
      cases resident with
      | none =>
        obtain ⟨next, code⟩ := holds.run_none serialFree inputFree
        obtain ⟨last, codes⟩ := inductionHypothesis next spares
        refine ⟨?_, ?_⟩
        · cases uninstalls : uninstallRequested args <;>
            simpa [installer, uninstalls] using last
        · rw [Run.run_cons, codes, code]
          cases uninstalls : uninstallRequested args <;>
            simp [exitCodes, uninstalls, ShellAction.args]
      | some resident =>
        have apart : segment ≠ resident := by
          have input : shell.vectors 0x18#8 = ⟨resident, layout.hook .input⟩ := by
            rw [holds.vectors]
            simp
          have differs := spare (by rw [input])
          rwa [input] at differs
        obtain ⟨next, code⟩ := holds.run_some apart
        obtain ⟨last, codes⟩ := inductionHypothesis next spares
        refine ⟨last, ?_⟩
        rw [Run.run_cons, codes, code]
        simp [exitCodes, ShellAction.args]

end Run

end Shell

/-- On a machine whose INT 0Ch and INT 18h point at other offsets, in whatever segment, and as long
as DOS loads no program over the resident copy: the first start without `/U` stays resident and
every other start ends with exit code 1, whatever its arguments; INT 0Ch and INT 18h point to that
one copy ever after, which keeps the vectors from before, no other vector changes, and no memory is
given back. -/
theorem one_copy_for_good (layout : Layout) (frees : Word → Bool) (boot : Dos)
    (serialFree : (boot.vectors 0x0c#8).offset ≠ layout.hook .serialIrq)
    (inputFree : (boot.vectors 0x18#8).offset ≠ layout.hook .input) (actions : List ShellAction)
    (spares : Run.AllSteps (Shell.step layout frees) (Shell.Spares layout) actions { boot with }) :
    let shell := Run.run (Shell.step layout frees) actions { boot with }
    shell.Holds layout boot (installer actions) ∧
      shell.endings.map (·.code) = exitCodes false (actions.filterMap ShellAction.args) := by
  intro shell
  have holds : Shell.Holds layout boot none { boot with } :=
    ⟨rfl, fun _ isResident => (nomatch isResident), fun _ isResident => (nomatch isResident), rfl⟩
  obtain ⟨last, codes⟩ := Shell.Holds.run serialFree inputFree actions holds spares
  exact ⟨last, by simpa using codes⟩

/-- `/U`, an installation, `/U`, and the program once more. -/
def someStarts : List ShellAction :=
  [.run 0x2000#16 0x1f00#16 ["IME98TSR", "/U"] 0x01#8, .run 0x2000#16 0x1f00#16 ["IME98TSR"] 0x01#8,
    .enter .input .foreground, .run 0x3000#16 0x2f00#16 ["IME98TSR", "/U"] 0x01#8,
    .run 0x3000#16 0x2f00#16 ["IME98TSR"] 0x01#8]

theorem one_copy_for_good_someStarts :
    let shell := Run.run (Shell.step someLayout fun _ => true) someStarts
      { booted fun _ => ⟨0xf000#16, 0x1234#16⟩ with }
    shell.Holds someLayout (booted fun _ => ⟨0xf000#16, 0x1234#16⟩) (some 0x2000#16) ∧
      shell.endings.map (·.code) = [some 1#8, none, some 1#8, some 1#8] :=
  one_copy_for_good someLayout (fun _ => true) (booted fun _ => ⟨0xf000#16, 0x1234#16⟩) (by decide)
    (by decide) someStarts (by decide +kernel)

end ImeBridge
