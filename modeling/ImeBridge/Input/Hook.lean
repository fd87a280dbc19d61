import ImeBridge.Keyboard.Ring
import ImeBridge.Library.Custody
import ImeBridge.Resident.Port

/-! # The INT 18h hook

`pc98_input_hook` of `tsr_hook.S` and the machine it works on: the keyboard interrupt
that fills the BIOS queue, the INT 18h handler that was there before, and an
application that calls it.  The hook runs with interrupts off from its entry to the
call of the old handler, and from its return to an `iret` or a `hlt`, so each of the
two is one action.  The call counters only feed the debug port and are left out.
-/

namespace ImeBridge

open Library

/-- A word of the BIOS queue, and whether the configured modifier was held when it was
put there; the queue itself holds the word alone. -/
structure Key where
  word : Word
  modified : Bool
  deriving DecidableEq, Repr

/-- The bytes of the BIOS data area that `pc98_poll_hotkey` looks at. -/
def Memory.keyState (memory : Memory) : Byte × Byte :=
  (memory.readByte 0x0530#16, memory.readByte 0x053a#16)

/-- The handlers that were there before: `store` is the queue's side of the keyboard
interrupt, `take` that of INT 18h with AH=00h or AH=05h. -/
structure Bios where
  store : Word → Memory → Memory
  take : Memory → Word × Memory
  /-- A word is appended; with the queue full it is lost. -/
  stores : ∀ {memory : Memory} (key : Word), memory.WellFormedRing →
    (store key memory).WellFormedRing ∧
      (store key memory).queue = (BoundedFifo.push 16 key memory.queue).2 ∧
      (store key memory).keyState = memory.keyState
  /-- The oldest word is removed and returned. -/
  takes : ∀ {memory : Memory}, memory.WellFormedRing → memory.queue ≠ [] →
    (take memory).2.WellFormedRing ∧ memory.queue = (take memory).1 :: (take memory).2.queue ∧
      (take memory).2.keyState = memory.keyState

/-- The functions of INT 18h that return keys. -/
inductive InputFunction where
  /-- Wait for a key and remove it. -/
  | ah00
  /-- Look at the oldest key. -/
  | ah01
  /-- Remove the oldest key, if there is one. -/
  | ah05
  deriving DecidableEq, Repr

inductive Phase where
  | application
  | oldHandler
  /-- At the `hlt` of `pc98_input_wait_queue`. -/
  | halted
  deriving DecidableEq, Repr

/-- The resident copy, the application's INT 18h call and the keys. -/
structure Console extends Tsr, Custody Key where
  phase : Phase := .application
  inputOriginalAh : InputFunction := .ah00
  /-- The keys AH=00h and AH=05h have given the application; no variable of the program. -/
  returned : List Word := []

def Tsr.key (tsr : Tsr) (word : Word) : Key :=
  ⟨word, tsr.memory.readByte 0x053a#16 &&& tsr.hotkeyModifierMask ≠ 0#8⟩

namespace Console

variable (console : Console)

/-- The words at the end of the queue that are not accounted for yet are entered. -/
def enter : Console :=
  let arrivals := console.memory.queue.drop console.queued.length
  { console with toCustody := console.arrive (arrivals.map console.key) }

/-- A worker run that begins in `tsr`, with the key it takes back. -/
def serve (tsr : Tsr) : Console :=
  { console with
    toTsr := pc98ServiceForeground tsr
    toCustody :=
      if decide tsr.HotkeyHeld && (pc98BiosDiscardHotkeySpace tsr.memory).1 then console.takeNewest
      else console.toCustody }

/-- A worker run; the words it queues are its own arrivals. -/
def service (tsr : Tsr) : Console := (console.serve tsr).enter

/-- `pc98_input_return`: AX goes to the application. -/
def inputReturn (word : Word) : Console :=
  match console.inputOriginalAh with
  | .ah01 => { console with phase := .application }
  | .ah00 | .ah05 =>
    { console with
      phase := .application
      returned := console.returned ++ [word]
      toCustody := console.deliverOldest }

/-- `pc98_input_returned_space`; `true` where it goes on to `pc98_input_retry_blocking`. -/
def inputReturnedSpace : Bool × Console :=
  let (handled, tsr) := pc98ServiceReturnedHotkey console.toTsr
  let console : Console := { console with toTsr := tsr }
  if handled then
    match console.inputOriginalAh with
    | .ah00 => (true, { console with toCustody := console.takeOldest })
    -- BH is cleared: there was no key.
    | .ah05 => (false, { console with phase := .application, toCustody := console.takeOldest })
    -- Only AH=00h and AH=05h are looked for; the word stays in the queue and is shown.
    | .ah01 => (false, { console with phase := .application, toCustody := console.noticeOldest })
  else (false, console.inputReturn 0x3420#16)

/-- The test of AX behind the call of the old handler and behind the dequeue. -/
def inputFilter (word : Word) : Bool × Console :=
  if word = 0x3420#16 then console.inputReturnedSpace else (false, console.inputReturn word)

/-- `pc98_input_wait_queue`.  Each turn but the last takes a word, so with one turn more
than there are words it comes to its end. -/
def inputWaitQueue : Nat → Console → Console
  | 0, console => console
  | turns + 1, console =>
    match pc98InputWaitQueue console.memory with
    | (none, _) => { console with phase := .halted }
    | (some word, memory) =>
      match ({ console with memory := memory } : Console).inputFilter word with
      | (true, console) => inputWaitQueue turns console
      | (false, console) => console

def inputRetryBlocking : Console := console.inputWaitQueue (console.memory.count + 1)

/-- From the return of the old handler on. -/
def inputReturned (word : Word) : Console :=
  match console.inputFilter word with
  | (true, console) => console.inputRetryBlocking
  | (false, console) => console

end Console

inductive InputAction where
  /-- The keyboard interrupt: the byte with Space in the key bitmap, the modifiers, and the
  word of the key if it has one. -/
  | keyboard (spaceRow modifiers : Byte) (word : Option Word)
  /-- Bytes on the line, and the transmitter's coming behaviour. -/
  | host (received : List Byte) (transmitLimits : List Nat)
  | serialIrq
  /-- The application calls INT 18h. -/
  | call (ah : InputFunction)
  | oldHandlerReturns
  /-- An interrupt ends the `hlt`. -/
  | wake

def InputAction.apply (bios : Bios) (action : InputAction) (console : Console) : Console :=
  match action with
  | .keyboard spaceRow modifiers word =>
    let memory := (console.memory.writeByte 0x0530#16 spaceRow).writeByte 0x053a#16 modifiers
    match word with
    | none => { console with memory := memory }
    | some word => ({ console with memory := bios.store word memory } : Console).enter
  | .host received transmitLimits =>
    { console with received := received, transmitLimits := transmitLimits }
  | .serialIrq =>
    match Action.service .serialIrq console.toTsr with
    | none => console
    | some tsr => console.service tsr
  | .call ah =>
    if console.phase = .application then
      { console.service console.toTsr with phase := .oldHandler, inputOriginalAh := ah }
    else console
  | .oldHandlerReturns =>
    if console.phase = .oldHandler then
      if console.memory.count = 0 then
        -- With BH = 0, AX still holds the function number, which is no 3420h.
        if console.inputOriginalAh = .ah00 then console else { console with phase := .application }
      else
        let (word, memory) := bios.take console.memory
        if console.inputOriginalAh = .ah01 then console.inputReturned word
        else ({ console with memory := memory } : Console).inputReturned word
    else console
  | .wake => if console.phase = .halted then console.inputRetryBlocking else console

/-- A machine on which the BIOS has set up its queue, and what is known about the words in it. -/
structure Booted extends Hardware where
  queued : List Key
  ring : memory.WellFormedRing
  holds : memory.queue = queued.map Key.word

/-- The resident copy has just been installed. -/
def Console.installed (modifierMask : Byte) (booted : Booted) : Console where
  toTsr := cleared modifierMask booted.toHardware
  queued := booted.queued
  arrived := booted.queued

end ImeBridge
