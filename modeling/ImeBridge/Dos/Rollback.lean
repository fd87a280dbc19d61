import ImeBridge.Dos.Program

/-! # Undoing an installation

Restoring a hook right after installing it sets the vector to the variable in which the
old vector was saved, not to the old vector.  That is the old vector only where it
pointed to this very variable.
-/

namespace ImeBridge

variable {layout : Layout} {segment : Word} {dos : Dos}

/-- A vector that already points to the variable in which it would be saved. -/
def Dos.PointsToSaved (layout : Layout) (segment : Word) (hook : Hook) (dos : Dos) : Prop :=
  dos.vectors hook.interrupt = ⟨segment, layout.oldVector hook⟩

instance (layout : Layout) (segment : Word) (hook : Hook) (dos : Dos) :
    Decidable (dos.PointsToSaved layout segment hook) := by
  unfold Dos.PointsToSaved; infer_instance

/-! ## One pair -/

@[simp] theorem hookVector_vectors (hook : Hook) : (hookVector layout segment hook dos).vectors =
    Function.update dos.vectors hook.interrupt ⟨segment, layout.hook hook⟩ := rfl

theorem installHook_eq (layout : Layout) (segment : Word) (hook : Hook) (dos : Dos) :
    installHook layout segment hook dos = (1#16, dos) ∨
      installHook layout segment hook dos = (0#16, hookVector layout segment hook dos) := by
  by_cases present : (dos.vectors hook.interrupt).offset = layout.hook hook
  · exact .inl (if_pos present)
  · exact .inr (if_neg present)

/-- A hook is installed wholly or refused. -/
theorem Hook.install_eq (layout : Layout) (segment : Word) (hook : Hook) (dos : Dos) :
    hook.install layout segment dos = (1#16, dos) ∨
      hook.install layout segment dos = (0#16, hookVector layout segment hook dos) := by
  cases hook with
  | idle =>
    by_cases present : (dos.vectors Hook.idle.interrupt).segment = segment ∧
        (dos.vectors Hook.idle.interrupt).offset = layout.hook .idle
    · exact .inl (if_pos present)
    · exact .inr (if_neg present)
  | input => exact installHook_eq layout segment .input dos
  | serialIrq => exact installHook_eq layout segment .serialIrq dos
  | timer => exact installHook_eq layout segment .timer dos

theorem Hook.restore_eq (hook : Hook) : hook.restore layout segment dos =
    restoreHook layout segment hook dos := by
  cases hook <;> rfl

/-- Where the vector points to its hook, the copy owns it and sets it. -/
theorem restoreHook_owned {hook : Hook}
    (owned : dos.vectors hook.interrupt = ⟨segment, layout.hook hook⟩) :
    restoreHook layout segment hook dos =
      (0#16, dos.setVector hook.interrupt segment (layout.oldVector hook)) := by
  simp [restoreHook, owned]

/-- The vectors after installing and restoring one hook. -/
theorem restoreHook_installed (hook : Hook) :
    (restoreHook layout segment hook (hookVector layout segment hook dos)).2.vectors =
      Function.update dos.vectors hook.interrupt ⟨segment, layout.oldVector hook⟩ := by
  have owned : (hookVector layout segment hook dos).vectors hook.interrupt =
      ⟨segment, layout.hook hook⟩ := by simp
  rw [restoreHook_owned owned]
  simp [Dos.setVector]

theorem Hook.restores_iff (hook : Hook) (installed : (hook.install layout segment dos).1 = 0#16) :
    (hook.restore layout segment (hook.install layout segment dos).2).2.vectors = dos.vectors ↔
      dos.PointsToSaved layout segment hook := by
  cases hook.install_eq layout segment dos with
  | inl refused =>
    rw [refused] at installed
    have different : (1#16 : Word) ≠ 0#16 := by decide
    exact absurd installed different
  | inr installs =>
    rw [installs, hook.restore_eq, restoreHook_installed, Function.update_eq_self_iff]
    exact eq_comm

/-! ## The whole program -/

/-- How `main` without `/U` ends: the serial hook was there already, or the input hook
was and the serial hook is given up again, or both are installed. -/
theorem main_cases (layout : Layout) (segment : Word) {args : List String} (modifierMask : Byte)
    (frees : Word → Bool) (dos : Dos) (installs : uninstallRequested args = false) :
    let start := clearResidentState segment modifierMask dos
    let ending := main layout segment args modifierMask frees dos
    ((dos.vectors Hook.serialIrq.interrupt).offset = layout.hook .serialIrq ∧
        ending.1.code = some 1#8 ∧ ending.2 = start) ∨
      ((dos.vectors Hook.serialIrq.interrupt).offset ≠ layout.hook .serialIrq ∧
        (dos.vectors Hook.input.interrupt).offset = layout.hook .input ∧
        ending.1.code = some 1#8 ∧ ending.2 =
          (restoreHook layout segment .serialIrq (hookVector layout segment .serialIrq start)).2) ∨
      ((dos.vectors Hook.serialIrq.interrupt).offset ≠ layout.hook .serialIrq ∧
        (dos.vectors Hook.input.interrupt).offset ≠ layout.hook .input ∧
        ending.1.code = none ∧ ending.2 =
          hookVector layout segment .input (hookVector layout segment .serialIrq start)) := by
  intro start ending
  have begins : clearResidentState segment modifierMask dos = start := rfl
  have unchanged : start.vectors = dos.vectors := rfl
  have other : (hookVector layout segment .serialIrq start).vectors Hook.input.interrupt =
      dos.vectors Hook.input.interrupt := by
    rw [hookVector_vectors, Function.update_of_ne (by decide), unchanged]
  by_cases serial : (dos.vectors Hook.serialIrq.interrupt).offset = layout.hook .serialIrq
  · refine .inl ⟨serial, ?_⟩
    have result : pc98InstallSerialIrq layout segment start = (1#16, start) := if_pos serial
    simp [ending, main, installs, begins, result]
  have result : pc98InstallSerialIrq layout segment start =
      (0#16, hookVector layout segment .serialIrq start) := if_neg serial
  by_cases input : (dos.vectors Hook.input.interrupt).offset = layout.hook .input
  · refine .inr (.inl ⟨serial, input, ?_⟩)
    have second : pc98InstallInput layout segment (hookVector layout segment .serialIrq start) =
        (1#16, hookVector layout segment .serialIrq start) := if_pos (other ▸ input)
    simp [ending, main, installs, begins, result, second, pc98RestoreSerialIrq]
  · refine .inr (.inr ⟨serial, input, ?_⟩)
    have second : pc98InstallInput layout segment (hookVector layout segment .serialIrq start) =
        (0#16, hookVector layout segment .input (hookVector layout segment .serialIrq start)) :=
      if_neg (other ▸ input)
    simp [ending, main, installs, begins, result, second]

/-- What an installation undone at once leaves behind.  For each of the four pairs,
restoring right after installing gives back the vector table exactly if the vector
pointed to the variable in which the old vector is saved; and a `main` that finds a
hook resident gives back INT 0Ch and INT 18h exactly if it installed nothing or
INT 0Ch pointed there. -/
theorem failed_install_restores_iff (layout : Layout) (segment : Word) (args : List String)
    (modifierMask : Byte) (frees : Word → Bool) (dos : Dos) :
    (∀ hook : Hook, (hook.install layout segment dos).1 = 0#16 →
      ((hook.restore layout segment (hook.install layout segment dos).2).2.vectors = dos.vectors ↔
        dos.PointsToSaved layout segment hook)) ∧
    (uninstallRequested args = false → (main layout segment args modifierMask frees dos).1.code ≠ none →
      (((main layout segment args modifierMask frees dos).2.vectors 0x0c#8 = dos.vectors 0x0c#8 ∧
          (main layout segment args modifierMask frees dos).2.vectors 0x18#8 = dos.vectors 0x18#8) ↔
        (dos.vectors 0x0c#8).offset = layout.hook .serialIrq ∨
          dos.PointsToSaved layout segment .serialIrq)) := by
  refine ⟨fun hook => hook.restores_iff, fun installs fails => ?_⟩
  obtain ⟨present, _, ends⟩ | ⟨absent, _, _, ends⟩ | ⟨_, _, resident, _⟩ :=
    main_cases layout segment modifierMask frees dos installs
  · rw [ends]
    exact ⟨fun _ => .inl present, fun _ => ⟨rfl, rfl⟩⟩
  · -- INT 0Ch was hooked and given up, INT 18h never touched.
    rw [ends, restoreHook_installed]
    have input : (0x18#8 : Byte) ≠ Hook.serialIrq.interrupt := by decide
    rw [Function.update_of_ne input]
    constructor
    · rintro ⟨serial, -⟩
      exact .inr (serial.symm.trans (Function.update_self _ _ _))
    · rintro (present | saved)
      · exact absurd present absent
      · exact ⟨(Function.update_self _ _ _).trans saved.symm, rfl⟩
  · exact absurd resident fails

/-- Some place for hooks and variables. -/
def someLayout : Layout where
  hook
    | .idle => 0x0240#16
    | .input => 0x0260#16
    | .serialIrq => 0x0380#16
    | .timer => 0x0340#16
  oldVector
    | .idle => 0x1a00#16
    | .input => 0x1a04#16
    | .serialIrq => 0x1a08#16
    | .timer => 0x1a0c#16

/-- A machine with these vectors on which no copy ran yet. -/
def booted (vectors : Vectors) : Dos where
  vectors := vectors
  copies _ := { environment := 0#16, signature := [], oldVector := fun _ => ⟨0#16, 0#16⟩ }
  hardware := {}

/-- The program is resident at 2000h, but INT 0Ch points to another one since. -/
def halfOwned : Dos :=
  booted fun number => if number = 0x18#8 then ⟨0x2000#16, 0x0260#16⟩ else ⟨0xf000#16, 0x1234#16⟩

/-- Loaded again at 3000h, it leaves INT 0Ch pointing to a variable of its own; and so
does each pair from a table that points into the ROM. -/
theorem failed_install_leaves_variable :
    (¬ ∀ dos : Dos, (main someLayout 0x3000#16 ["IME98TSR"] 0x01#8 (fun _ => true) dos).1.code ≠ none →
      (main someLayout 0x3000#16 ["IME98TSR"] 0x01#8 (fun _ => true) dos).2.vectors 0x0c#8 =
          dos.vectors 0x0c#8 ∧
        (main someLayout 0x3000#16 ["IME98TSR"] 0x01#8 (fun _ => true) dos).2.vectors 0x18#8 =
          dos.vectors 0x18#8) ∧
      ∀ hook : Hook, ¬ ∀ dos : Dos, (hook.install someLayout 0x3000#16 dos).1 = 0#16 →
        (hook.restore someLayout 0x3000#16 (hook.install someLayout 0x3000#16 dos).2).2.vectors =
          dos.vectors := by
  constructor
  · intro all
    have serial := (all halfOwned (by decide)).1
    exact absurd serial (by decide)
  · intro hook all
    have installed : (hook.install someLayout 0x3000#16 (booted fun _ => ⟨0xf000#16, 0x1234#16⟩)).1 =
        0#16 := by
      cases hook <;> decide
    have saved := (hook.restores_iff installed).mp (all _ installed)
    exact absurd saved (by cases hook <;> decide)

/-- Where the serial hook is found first, nothing was installed; and a pair whose
vector pointed to its variable restores it. -/
theorem failed_install_restores_iff_resident :
    let dos := booted fun _ => ⟨0x2000#16, 0x0380#16⟩
    let saved := booted fun _ => ⟨0x3000#16, 0x1a08#16⟩
    (main someLayout 0x3000#16 ["IME98TSR"] 0x01#8 (fun _ => true) dos).2.vectors 0x0c#8 =
        dos.vectors 0x0c#8 ∧
      (Hook.serialIrq.restore someLayout 0x3000#16
        (Hook.serialIrq.install someLayout 0x3000#16 saved).2).2.vectors = saved.vectors := by
  intro dos saved
  have fails := failed_install_restores_iff someLayout 0x3000#16 ["IME98TSR"] 0x01#8 (fun _ => true)
  exact ⟨(((fails dos).2 (by decide) (by decide)).mpr (.inl rfl)).1,
    ((fails saved).1 .serialIrq (by decide)).mpr rfl⟩

end ImeBridge
