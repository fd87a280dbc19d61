import ImeBridge.Dos.Rollback

/-! # Removing the resident copy

A second copy removes the resident one only if it finds its signature.  Apart from
that, `/U` after an installation gives back INT 0Ch and INT 18h, whatever the resident
copy did meanwhile; but the words it compares are not those of the signature.
-/

namespace ImeBridge

open Library

namespace Dos

/-- DOS loads the program file at a segment, with this signature in it. -/
def load (segment environment : Word) (signature : List Byte) (dos : Dos) : Dos :=
  dos.setCopy segment { dos.copy segment with environment := environment, signature := signature }

/-- The copy at a segment is entered. -/
def enter (segment : Word) (action : Action) : Dos → Dos := Dos.work segment action.apply

/-- `/U` did what it is for: it does not refuse, it runs the shutdown of the resident
copy, and INT 0Ch and INT 18h are what they were. -/
structure Removes (layout : Layout) (frees : Word → Bool) (resident : Word) (before : Vectors)
    (dos : Dos) : Prop where
  accepts : (pc98UninstallResident layout frees dos).1 ≠ 1#16
  shutDown : ((pc98UninstallResident layout frees dos).2.copies resident).toSession =
    (pc98PrepareUninstall (dos.tsr resident)).toSession
  serialIrq : (pc98UninstallResident layout frees dos).2.vectors 0x0c#8 = before 0x0c#8
  input : (pc98UninstallResident layout frees dos).2.vectors 0x18#8 = before 0x18#8

variable {layout : Layout} {frees : Word → Bool} {segment : Word} {dos : Dos}

@[simp] theorem free_vectors (block : Word) : (dos.free frees block).2.vectors = dos.vectors := by
  unfold free
  split_ifs <;> rfl

@[simp] theorem free_copies (block : Word) : (dos.free frees block).2.copies = dos.copies := by
  unfold free
  split_ifs <;> rfl

/-- Running a copy changes its session and intake only. -/
theorem work_copy (does : Tsr → Tsr) : (dos.work segment does).copies segment =
    { dos.copies segment with
      toSession := (does (dos.tsr segment)).toSession
      toIntake := (does (dos.tsr segment)).toIntake } := by
  simp [work, setCopy]

/-- What entering a copy leaves alone. -/
structure SameProgram (copy later : Copy) : Prop where
  signature : later.signature = copy.signature
  oldVector : later.oldVector = copy.oldVector

theorem enter_sameProgram {copy : Copy} (dos : Dos) (action : Action)
    (same : SameProgram copy (dos.copies segment)) :
    SameProgram copy ((dos.enter segment action).copies segment) := by
  rw [enter, work_copy]
  exact ⟨same.signature, same.oldVector⟩

theorem run_sameProgram (segment : Word) (dos : Dos) (actions : List Action) :
    SameProgram (dos.copies segment) ((Run.run (enter segment) actions dos).copies segment) :=
  Run.invariant (enter segment) (fun later action => enter_sameProgram later action) actions ⟨rfl, rfl⟩

/-- The resident copy, once it is shut down, -/
theorem uninstallOwned_copies : (pc98UninstallOwned frees segment dos).2.copies =
    (pc98UninstallPrepareEntry segment dos).copies := by
  simp only [pc98UninstallOwned, free_copies]
  split_ifs <;> simp [setVector]

/-- gives back the vectors it saved, -/
theorem uninstallOwned_vectors : (pc98UninstallOwned frees segment dos).2.vectors =
    Function.update (Function.update dos.vectors 0x0c#8 ((dos.copies segment).oldVector .serialIrq))
      0x18#8 ((dos.copies segment).oldVector .input) := by
  simp only [pc98UninstallOwned, free_vectors]
  split_ifs <;> simp [setVector, copy, Hook.interrupt, pc98UninstallPrepareEntry, work, setCopy]

/-- and does not refuse. -/
theorem uninstallOwned_accepts : (pc98UninstallOwned frees segment dos).1 ≠ 1#16 := by
  simp only [pc98UninstallOwned]
  split_ifs <;> decide

section Owned

variable (frees) (input : dos.vectors 0x18#8 = ⟨segment, layout.hook .input⟩)
include input

/-- Without the signature it looks for, `/U` refuses and changes nothing. -/
theorem uninstall_unsigned (unsigned : ¬ Signed (dos.copies segment).signature) :
    pc98UninstallResident layout frees dos = (1#16, dos) := by
  simp [pc98UninstallResident, Hook.interrupt, input, copy, unsigned]

theorem uninstall_signed (serial : dos.vectors 0x0c#8 = ⟨segment, layout.hook .serialIrq⟩)
    (signed : Signed (dos.copies segment).signature) :
    pc98UninstallResident layout frees dos = pc98UninstallOwned frees segment dos := by
  simp [pc98UninstallResident, Hook.interrupt, input, serial, copy, signed]

end Owned

theorem main_uninstalling {args : List String} (modifierMask : Byte)
    (uninstalls : uninstallRequested args = true) :
    (main layout segment args modifierMask frees dos).1.code ≠ none := by
  simp only [main, uninstalls, if_true]
  split_ifs <;> simp

theorem main_resident {args : List String} {modifierMask : Byte}
    (resident : (main layout segment args modifierMask frees dos).1.code = none) :
    (main layout segment args modifierMask frees dos).2 = hookVector layout segment .input
      (hookVector layout segment .serialIrq (clearResidentState segment modifierMask dos)) := by
  have installs : uninstallRequested args = false := by
    by_contra uninstalls
    exact main_uninstalling modifierMask (by simpa using uninstalls) resident
  obtain ⟨_, exits, _⟩ | ⟨_, _, exits, _⟩ | ⟨_, _, _, ends⟩ :=
    main_cases layout segment modifierMask frees dos installs
  · simp [exits] at resident
  · simp [exits] at resident
  · exact ends

/-- A copy that stays resident saved the vectors it replaced. -/
theorem main_saves {args : List String} {modifierMask : Byte}
    (resident : (main layout segment args modifierMask frees dos).1.code = none) :
    let copy := (main layout segment args modifierMask frees dos).2.copies segment
    copy.signature = (dos.copies segment).signature ∧
      copy.oldVector .serialIrq = dos.vectors 0x0c#8 ∧ copy.oldVector .input = dos.vectors 0x18#8 := by
  rw [main_resident resident]
  simp [hookVector, clearResidentState, setVector, setCopy, copy, Hook.interrupt]

/-- A program file with this signature was loaded at a segment and stayed resident; it
was entered any number of times since, and INT 0Ch and INT 18h point to its hooks. -/
structure Resides (layout : Layout) (frees : Word → Bool) (segment : Word) (signature : List Byte)
    (before later : Dos) : Prop where
  entered : ∃ environment args modifierMask actions,
    let loaded := main layout segment args modifierMask frees (before.load segment environment signature)
    loaded.1.code = none ∧
      later.copies segment = (Run.run (enter segment) actions loaded.2).copies segment
  serialIrq : later.vectors 0x0c#8 = ⟨segment, layout.hook .serialIrq⟩
  input : later.vectors 0x18#8 = ⟨segment, layout.hook .input⟩

theorem Resides.saved {signature : List Byte} {before later : Dos}
    (resides : Resides layout frees segment signature before later) :
    (later.copies segment).signature = signature ∧
      (later.copies segment).oldVector .serialIrq = before.vectors 0x0c#8 ∧
      (later.copies segment).oldVector .input = before.vectors 0x18#8 := by
  obtain ⟨environment, args, modifierMask, actions, resident, same⟩ := resides.entered
  obtain ⟨signed, serial, input⟩ := main_saves resident
  -- No entry writes the signature or a saved vector.
  have kept := run_sameProgram segment
    (main layout segment args modifierMask frees (before.load segment environment signature)).2 actions
  rw [same, kept.signature, kept.oldVector, signed, serial, input]
  simp [load, setCopy]

/-- `/U` from a second copy, whatever the resident one did meanwhile: the removal
succeeds exactly if the program file has the signature that is looked for. -/
theorem Resides.removes_iff {signature : List Byte} {before later : Dos}
    (resides : Resides layout frees segment signature before later) :
    Removes layout frees segment before.vectors later ↔ Signed signature := by
  obtain ⟨own, serial, input⟩ := resides.saved
  by_cases signed : Signed signature
  · -- Every comparison succeeds, so the shutdown runs and the saved vectors come back.
    have owned := uninstall_signed frees resides.input resides.serialIrq (own ▸ signed)
    refine iff_of_true ⟨?_, ?_, ?_, ?_⟩ signed
    · rw [owned]
      exact uninstallOwned_accepts
    · rw [owned, uninstallOwned_copies, pc98UninstallPrepareEntry, work_copy]
    · rw [owned, uninstallOwned_vectors, Function.update_of_ne (by decide), Function.update_self, serial]
    · rw [owned, uninstallOwned_vectors, Function.update_self, input]
  · -- The first comparison of a signature word fails.
    have refuses := uninstall_unsigned frees resides.input (own ▸ signed)
    exact iff_of_false (fun removes => removes.accepts (by rw [refuses])) signed

end Dos

/-- The signature that is looked for is not the program's own: after every installation
and every further run of the resident copy, with both vectors at its hooks, `/U` from
another copy refuses and changes nothing. -/
theorem uninstall_refuses_resident (layout : Layout) (frees : Word → Bool) (segment : Word)
    (before later : Dos) (resides : Dos.Resides layout frees segment pc98TsrSignature before later) :
    pc98UninstallResident layout frees later = (1#16, later) ∧
      ¬ Dos.Removes layout frees segment before.vectors later := by
  have unsigned : ¬ Signed pc98TsrSignature := by decide
  have own : (later.copies segment).signature = pc98TsrSignature := resides.saved.1
  exact ⟨Dos.uninstall_unsigned frees resides.input (own ▸ unsigned),
    fun removes => unsigned (resides.removes_iff.mp removes)⟩

/-- The program stays resident at 2000h, and its hotkey is pressed once. -/
def residentAtWork : Dos :=
  Dos.enter 0x2000#16 (.returnedHotkey)
    (main someLayout 0x2000#16 ["IME98TSR"] 0x01#8 (fun _ => true)
      ((booted fun _ => ⟨0xf000#16, 0x1234#16⟩).load 0x2000#16 0x1f00#16 pc98TsrSignature)).2

theorem residentAtWork_resides : Dos.Resides someLayout (fun _ => true) 0x2000#16 pc98TsrSignature
    (booted fun _ => ⟨0xf000#16, 0x1234#16⟩) residentAtWork where
  entered := ⟨0x1f00#16, ["IME98TSR"], 0x01#8, [.returnedHotkey], by decide, rfl⟩
  serialIrq := by decide
  input := by decide

/-- `/U` does not remove it. -/
theorem uninstall_keeps_resident :
    ¬ ∀ before later : Dos,
      Dos.Resides someLayout (fun _ => true) 0x2000#16 pc98TsrSignature before later →
        Dos.Removes someLayout (fun _ => true) 0x2000#16 before.vectors later := by
  intro all
  have refuses : (pc98UninstallResident someLayout (fun _ => true) residentAtWork).1 = 1#16 := by decide
  exact (all _ _ residentAtWork_resides).accepts refuses

/-- The refusal leaves its vectors in place. -/
theorem uninstall_refuses_residentAtWork :
    (pc98UninstallResident someLayout (fun _ => true) residentAtWork).2.vectors 0x18#8 =
      ⟨0x2000#16, 0x0260#16⟩ := by
  have refuses := uninstall_refuses_resident someLayout (fun _ => true) 0x2000#16 _ _
    residentAtWork_resides
  rw [refuses.1]
  decide

end ImeBridge
