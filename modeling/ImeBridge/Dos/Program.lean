import ImeBridge.Resident.Runs

/-! # The DOS program around the resident copy

`tsr_main.c` and the install, restore and uninstall routines of `tsr_hook.S`.  A .COM
program runs with CS = DS, so a copy is known by its segment.  Of INT 21h, AH=35h and
AH=25h read and set a vector; whether AH=49h can free a block is a parameter.
-/

namespace ImeBridge

structure FarPtr where
  segment : Word
  offset : Word
  deriving DecidableEq, Repr

/-- The interrupt vector table. -/
abbrev Vectors := Byte → FarPtr

/-- The hooks of `tsr_hook.S`. -/
inductive Hook where
  | idle
  | input
  | serialIrq
  | timer
  deriving DecidableEq, Repr

def Hook.interrupt : Hook → Byte
  | .idle => 0x28#8
  | .input => 0x18#8
  | .serialIrq => 0x0c#8
  | .timer => 0x08#8

/-- Where the linker put each `pc98_X_hook` and `pc98_old_X_vector`; the same in every
copy of the program. -/
structure Layout where
  hook : Hook → Word
  oldVector : Hook → Word

/-- What lies in memory at a segment where a copy has its PSP, its signature and its
variables; at the segment of another program these are any bytes. -/
structure Copy extends Session, Intake where
  /-- PSP:002Ch -/
  environment : Word
  /-- The bytes at `pc98_tsr_signature`. -/
  signature : List Byte
  /-- The variables `pc98_old_X_vector`. -/
  oldVector : Hook → FarPtr

/-- The machine as INT 21h shows it to a program. -/
structure Dos where
  vectors : Vectors
  copies : Word → Copy
  hardware : Hardware
  /-- The blocks freed so far, newest first. -/
  freed : List Word := []

namespace Dos

def copy (segment : Word) (dos : Dos) : Copy := dos.copies segment

/-- AH=25h with DS:DX. -/
def setVector (number : Byte) (ds dx : Word) (dos : Dos) : Dos :=
  { dos with vectors := Function.update dos.vectors number ⟨ds, dx⟩ }

def setCopy (segment : Word) (copy : Copy) (dos : Dos) : Dos :=
  { dos with copies := Function.update dos.copies segment copy }

/-- A copy at work. -/
def tsr (segment : Word) (dos : Dos) : Tsr :=
  { dos.copies segment with toHardware := dos.hardware }

/-- A copy runs its worker or, in general, changes its own state and the hardware. -/
def work (segment : Word) (does : Tsr → Tsr) (dos : Dos) : Dos :=
  let tsr := does (dos.tsr segment)
  { dos.setCopy segment { dos.copies segment with
      toSession := tsr.toSession, toIntake := tsr.toIntake } with
    hardware := tsr.toHardware }

/-- AH=49h, if DOS can free the block. -/
def free (frees : Word → Bool) (block : Word) (dos : Dos) : Bool × Dos :=
  if frees block then (true, { dos with freed := block :: dos.freed }) else (false, dos)

end Dos

section Hooks

variable (layout : Layout) (segment : Word)

/-- The common end of the install routines: save the vector that was read and point
it to the hook. -/
def hookVector (hook : Hook) (dos : Dos) : Dos :=
  let copy := dos.copy segment
  (dos.setCopy segment { copy with
    oldVector := Function.update copy.oldVector hook (dos.vectors hook.interrupt) }).setVector
      hook.interrupt segment (layout.hook hook)

/-- The install routines that compare the offset of the vector only. -/
def installHook (hook : Hook) (dos : Dos) : Word × Dos :=
  if (dos.vectors hook.interrupt).offset = layout.hook hook then (1#16, dos)
  else (0#16, hookVector layout segment hook dos)

/-- The restore routines; DX is loaded with the address of the saved vector. -/
def restoreHook (hook : Hook) (dos : Dos) : Word × Dos :=
  let vector := dos.vectors hook.interrupt
  if vector.segment ≠ segment then (1#16, dos)
  else if vector.offset ≠ layout.hook hook then (1#16, dos)
  else
    -- DS is the copy's own segment and DX the offset of the variable, not its contents.
    (0#16, dos.setVector hook.interrupt segment (layout.oldVector hook))

/-- The only install routine that compares the segment too. -/
def pc98InstallIdle (dos : Dos) : Word × Dos :=
  let vector := dos.vectors Hook.idle.interrupt
  if vector.segment = segment ∧ vector.offset = layout.hook .idle then (1#16, dos)
  else (0#16, hookVector layout segment .idle dos)

def pc98InstallInput : Dos → Word × Dos := installHook layout segment .input

def pc98InstallSerialIrq : Dos → Word × Dos := installHook layout segment .serialIrq

def pc98InstallTimer : Dos → Word × Dos := installHook layout segment .timer

def pc98RestoreIdle : Dos → Word × Dos := restoreHook layout segment .idle

def pc98RestoreInput : Dos → Word × Dos := restoreHook layout segment .input

def pc98RestoreSerialIrq : Dos → Word × Dos := restoreHook layout segment .serialIrq

def pc98RestoreTimer : Dos → Word × Dos := restoreHook layout segment .timer

/-- The install routine of each pair, -/
def Hook.install : Hook → Dos → Word × Dos
  | .idle => pc98InstallIdle layout segment
  | .input => pc98InstallInput layout segment
  | .serialIrq => pc98InstallSerialIrq layout segment
  | .timer => pc98InstallTimer layout segment

/-- and its restore routine. -/
def Hook.restore : Hook → Dos → Word × Dos
  | .idle => pc98RestoreIdle layout segment
  | .input => pc98RestoreInput layout segment
  | .serialIrq => pc98RestoreSerialIrq layout segment
  | .timer => pc98RestoreTimer layout segment

end Hooks

/-- `pc98_tsr_signature`: "P98IMBU1". -/
def pc98TsrSignature : List Byte :=
  [0x50#8, 0x39#8, 0x38#8, 0x49#8, 0x4d#8, 0x42#8, 0x55#8, 0x31#8]

/-- The words that `pc98_uninstall_resident` looks for in the signature. -/
def Signed (signature : List Byte) : Prop :=
  word (signature.getD 0 0) (signature.getD 1 0) = 0x4953#16 ∧
    word (signature.getD 2 0) (signature.getD 3 0) = 0x464f#16 ∧
    word (signature.getD 4 0) (signature.getD 5 0) = 0x5045#16 ∧
    word (signature.getD 6 0) (signature.getD 7 0) = 0x3155#16

instance (signature : List Byte) : Decidable (Signed signature) := by unfold Signed; infer_instance

/-- `pc98_uninstall_prepare_entry` of a copy. -/
def pc98UninstallPrepareEntry (resident : Word) : Dos → Dos := Dos.work resident pc98PrepareUninstall

/-- `pc98_uninstall_resident` from its far call on: shut the resident copy down, set the
vectors it saved and free its environment and its PSP block. -/
def pc98UninstallOwned (frees : Word → Bool) (resident : Word) (dos : Dos) : Word × Dos :=
  -- Read before the shutdown, into `pc98_uninstall_environment_segment`.
  let environment := (dos.copy resident).environment
  let dos := pc98UninstallPrepareEntry resident dos
  let serial := (dos.copy resident).oldVector .serialIrq
  let dos := dos.setVector Hook.serialIrq.interrupt serial.segment serial.offset
  let input := (dos.copy resident).oldVector .input
  let dos := dos.setVector Hook.input.interrupt input.segment input.offset
  let (environmentFreed, dos) := if environment = 0#16 then (true, dos) else dos.free frees environment
  -- The program's own block is freed also where its environment was not.
  let (residentFreed, dos) := dos.free frees resident
  (if residentFreed then (if environmentFreed then 0#16 else 2#16) else 3#16, dos)

def pc98UninstallResident (layout : Layout) (frees : Word → Bool) (dos : Dos) : Word × Dos :=
  -- INT 18h tells where the resident copy is; its vector may be that of any program.
  let input := dos.vectors Hook.input.interrupt
  let resident := input.segment
  if input.offset ≠ layout.hook .input then (1#16, dos)
  else if ¬ Signed (dos.copy resident).signature then (1#16, dos)
  else
    let serial := dos.vectors Hook.serialIrq.interrupt
    if serial.offset ≠ layout.hook .serialIrq then (1#16, dos)
    else if serial.segment ≠ resident then (1#16, dos)
    else pc98UninstallOwned frees resident dos

/-- How a program ends: what it printed, and its exit code unless it stays resident. -/
structure Ending where
  printed : List String
  code : Option Byte
  deriving DecidableEq, Repr

def uninstallRequested : List String → Bool
  | _ :: option :: _ =>
    match option.toList with
    | [dash, letter] => (dash = '/' || dash = '-') && (letter = 'U' || letter = 'u')
    | _ => false
  | _ => false

/-- The hotkey that `print_hotkey_binding` names. -/
def hotkeyName (modifierMask : Byte) : String :=
  if modifierMask = 0x08#8 then "Graph+Space"
  else if modifierMask = 0x10#8 then "Ctrl+Space"
  else "Shift+Space"

/-- `clear_resident_state` and `pc98_hotkey_set_defaults`; then `modifierMask` is what
`IME98.CFG` makes of the default. -/
def clearResidentState (segment : Word) (modifierMask : Byte) (dos : Dos) : Dos :=
  let state := cleared modifierMask dos.hardware
  dos.setCopy segment { dos.copy segment with
    toSession := state.toSession
    toIntake := state.toIntake
    oldVector := fun _ => ⟨0#16, 0#16⟩ }

/-- `main` of a copy loaded at a segment. -/
def main (layout : Layout) (segment : Word) (args : List String) (modifierMask : Byte)
    (frees : Word → Bool) (dos : Dos) : Ending × Dos :=
  if uninstallRequested args then
    -- `/U` is looked at before `IME98.CFG`: the defaults stay.
    let (result, dos) := pc98UninstallResident layout frees (clearResidentState segment 0x01#8 dos)
    if result = 0#16 then (⟨["IME98 TSR unloaded; memory released\r\n"], some 0#8⟩, dos)
    else if result = 2#16 then
      (⟨["IME98 TSR unloaded; environment memory not released\r\n"], some 2#8⟩, dos)
    else if result = 3#16 then
      (⟨["IME98 TSR hooks removed; resident memory not released\r\n"], some 3#8⟩, dos)
    else (⟨["IME98 TSR is not installed or cannot be unloaded safely\r\n"], some 1#8⟩, dos)
  else
    let (serialIrqResult, dos) :=
      pc98InstallSerialIrq layout segment (clearResidentState segment modifierMask dos)
    if serialIrqResult ≠ 0#16 then
      (⟨["IME98 TSR installing\r\n", "IME98 TSR serial hook already resident\r\n"], some 1#8⟩, dos)
    else
      let (inputResult, dos) := pc98InstallInput layout segment dos
      if inputResult ≠ 0#16 then
        -- The result of the restore is not looked at.
        let (_, dos) := pc98RestoreSerialIrq layout segment dos
        (⟨["IME98 TSR installing\r\n", "IME98 TSR input hook already resident\r\n"], some 1#8⟩, dos)
      else
        (⟨["IME98 TSR installing\r\n", "IME98 TSR resident (", hotkeyName modifierMask,
          ": IME ON / Bridge Esc: IME OFF)\r\n"], none⟩, dos)

end ImeBridge
