import ImeBridge.Dos.Removal
import ImeBridge.Resident.Ownership

/-! # `/U`, instruction by instruction

`pc98_uninstall_resident` of `tsr_hook.S` with the registers it moves segments through.
Its own variables lie in the segment DS names, those of the resident copy in the one ES
names.  INT 21h is watched: each call is noted with the machine it is asked of.
-/

namespace ImeBridge

open Library

/-- What `pc98_uninstall_resident` looks for: both vectors point to the hooks of one copy,
and it has the signature. -/
structure Dos.Owned (layout : Layout) (resident : Word) (dos : Dos) : Prop where
  input : dos.vectors 0x18#8 = ⟨resident, layout.hook .input⟩
  serialIrq : dos.vectors 0x0c#8 = ⟨resident, layout.hook .serialIrq⟩
  signed : Signed (dos.copies resident).signature

/-- Otherwise the routine refuses. -/
theorem Dos.uninstall_notOwned {layout : Layout} {dos : Dos} (frees : Word → Bool)
    (notOwned : ¬ dos.Owned layout (dos.vectors 0x18#8).segment) :
    pc98UninstallResident layout frees dos = (1#16, dos) := by
  simp only [pc98UninstallResident]
  split_ifs with input signed serial segment
  · rfl
  · rfl
  · rfl
  · simp only [ne_eq, not_not] at input serial segment
    have owned : dos.Owned layout (dos.vectors 0x18#8).segment :=
      ⟨congrArg (FarPtr.mk _) input, congrArg₂ FarPtr.mk segment serial, signed⟩
    exact absurd owned notOwned
  · rfl

inductive DosCall where
  /-- AH=35h -/
  | getVector (number : Byte)
  /-- AH=25h -/
  | setVector (number : Byte) (pointer : FarPtr)
  /-- AH=49h -/
  | free (block : Word)
  deriving DecidableEq, Repr

/-- The variables behind `pc98_worker_stack`. -/
structure UninstallVariables where
  residentSegment : Word := 0#16
  environmentSegment : Word := 0#16
  preparePointer : FarPtr := ⟨0#16, 0#16⟩
  result : Word := 0#16

/-- The machine in the hands of the transient copy. -/
structure Transient where
  ax : Word := 0#16
  bx : Word := 0#16
  dx : Word := 0#16
  si : Word := 0#16
  di : Word := 0#16
  bp : Word := 0#16
  ds : Word := 0#16
  es : Word := 0#16
  carry : Bool := false
  stack : List Word := []
  /-- By segment. -/
  data : Word → UninstallVariables := fun _ => {}
  dos : Dos

structure Unloading extends Transient where
  /-- The calls so far, oldest first; no part of the machine. -/
  asked : List (DosCall × Dos) := []

namespace Unloading

variable (layout : Layout) (prepareEntry : Word) (outcome : List DosCall → Option Word)
  (machine : Unloading)

def ask (call : DosCall) : Unloading := { machine with asked := machine.asked ++ [(call, machine.dos)] }

/-- `int $0x21`.  What AH=49h comes to may depend on all calls so far: `none` is success,
and anything else the error code. -/
def int21 : Unloading :=
  if machine.ax.high = 0x35#8 then
    let vector := machine.dos.vectors machine.ax.low
    { machine.ask (.getVector machine.ax.low) with es := vector.segment, bx := vector.offset }
  else if machine.ax.high = 0x25#8 then
    { machine.ask (.setVector machine.ax.low ⟨machine.ds, machine.dx⟩) with
      dos := machine.dos.setVector machine.ax.low machine.ds machine.dx }
  else
    -- AH=49h
    let called := machine.ask (.free machine.es)
    match outcome (called.asked.map Prod.fst) with
    | none => { called with carry := false, dos := (machine.dos.free (fun _ => true) machine.es).2 }
    | some error => { called with carry := true, ax := error }

def movAx (value : Word) : Unloading := { machine with ax := value }
def movDx (value : Word) : Unloading := { machine with dx := value }
def movDs (value : Word) : Unloading := { machine with ds := value }
def movEs (value : Word) : Unloading := { machine with es := value }

def push (value : Word) : Unloading := { machine with stack := value :: machine.stack }

def pop : Word × Unloading := (machine.stack.headD 0#16, { machine with stack := machine.stack.tail })

/-- The variables at DS. -/
def own : UninstallVariables := machine.data machine.ds

def setOwn (own : UninstallVariables) : Unloading :=
  { machine with data := Function.update machine.data machine.ds own }

def setResult (result : Word) : Unloading := machine.setOwn { machine.own with result := result }

/-- A word of `%es:pc98_tsr_signature`. -/
def signature (index : Nat) : Word :=
  let bytes := (machine.dos.copy machine.es).signature
  word (bytes.getD index 0) (bytes.getD (index + 1) 0)

/-- `lcall *pc98_uninstall_prepare_pointer`: the entry preserves the registers, and its
offset is the same in every copy. -/
def callPrepare : Unloading :=
  -- `prepare` has just stored this offset.
  if machine.own.preparePointer.offset = prepareEntry then
    { machine with dos := pc98UninstallPrepareEntry machine.own.preparePointer.segment machine.dos }
  else machine

/-! Each label of the routine falls through to the one above it, or jumps there. -/

def pc98UninstallReturn : Unloading :=
  let (es, machine) := machine.pop
  let machine := machine.movEs es
  let (ds, machine) := machine.pop
  let machine := machine.movDs ds
  let (di, machine) := machine.pop
  let machine := { machine with di := di }
  let (si, machine) := machine.pop
  let machine := { machine with si := si }
  let (bp, machine) := machine.pop
  { machine with bp := bp }

def pc98UninstallNotOwner : Unloading := (machine.movAx 1#16).pc98UninstallReturn

def pc98UninstallDone : Unloading := (machine.movAx machine.own.result).pc98UninstallReturn

/-- AH=49h for the block in AX. -/
def callFree : Unloading := ((machine.movEs machine.ax).movAx 0x4900#16).int21 outcome

def pc98UninstallFreeResident : Unloading :=
  let machine := machine.movAx machine.own.residentSegment
  let machine := machine.callFree outcome
  if machine.carry = false then machine.pc98UninstallDone
  -- The copy stays in memory, with its hooks gone.
  else (machine.setResult 3#16).pc98UninstallDone

/-- Gives a vector back: DS:DX is the one that the resident copy saved. -/
def setSaved (hook : Hook) (function : Word) : Unloading :=
  let machine := machine.movAx machine.own.residentSegment
  let machine := machine.movEs machine.ax
  let machine := machine.movDx ((machine.dos.copy machine.es).oldVector hook).offset
  let machine := machine.movAx ((machine.dos.copy machine.es).oldVector hook).segment
  let machine := machine.push machine.ds
  let machine := machine.movDs machine.ax
  let machine := machine.movAx function
  let machine := machine.int21 outcome
  let (ds, machine) := machine.pop
  machine.movDs ds

/-- The shutdown of the resident copy. -/
def prepare : Unloading :=
  let machine := machine.movAx machine.own.residentSegment
  let machine := machine.movEs machine.ax
  let machine := machine.movAx (machine.dos.copy machine.es).environment
  let machine := machine.setOwn { machine.own with environmentSegment := machine.ax }
  let machine := machine.setOwn
    { machine.own with preparePointer := { machine.own.preparePointer with offset := prepareEntry } }
  let machine := machine.movAx machine.own.residentSegment
  let machine := machine.setOwn
    { machine.own with preparePointer := { machine.own.preparePointer with segment := machine.ax } }
  machine.callPrepare prepareEntry

/-- Gives both vectors back. -/
def restoreVectors : Unloading :=
  (machine.setSaved outcome .serialIrq 0x250c#16).setSaved outcome .input 0x2518#16

/-- Releases the environment unless there is none. -/
def freeEnvironment : Unloading :=
  let machine := machine.setResult 0#16
  let machine := machine.movAx machine.own.environmentSegment
  if machine.ax = 0#16 then machine
  else
    let machine := machine.callFree outcome
    -- The resident block is freed all the same.
    if machine.carry = false then machine else machine.setResult 2#16

/-- Behind the comparisons. -/
def pc98UninstallOwner : Unloading :=
  (((machine.prepare prepareEntry).restoreVectors outcome).freeEnvironment outcome).pc98UninstallFreeResident
    outcome

/-- Where INT 18h points. -/
def findInput : Unloading :=
  let machine := ((((machine.push machine.bp).push machine.si).push machine.di).push machine.ds).push machine.es
  (machine.movAx 0x3518#16).int21 outcome

/-- Notes that segment, and where INT 0Ch points. -/
def findSerialIrq : Unloading :=
  let machine := machine.movAx machine.es
  let machine := machine.setOwn { machine.own with residentSegment := machine.ax }
  (machine.movAx 0x350c#16).int21 outcome

def pc98UninstallResident : Unloading :=
  let machine := machine.findInput outcome
  if machine.bx ≠ layout.hook .input then machine.pc98UninstallNotOwner
  else if machine.signature 0 ≠ 0x4953#16 then machine.pc98UninstallNotOwner
  else if machine.signature 2 ≠ 0x464f#16 then machine.pc98UninstallNotOwner
  else if machine.signature 4 ≠ 0x5045#16 then machine.pc98UninstallNotOwner
  else if machine.signature 6 ≠ 0x3155#16 then machine.pc98UninstallNotOwner
  else
    let machine := machine.findSerialIrq outcome
    if machine.bx ≠ layout.hook .serialIrq then machine.pc98UninstallNotOwner
    else
      let machine := machine.movAx machine.es
      if machine.ax ≠ machine.own.residentSegment then machine.pc98UninstallNotOwner
      else machine.pc98UninstallOwner prepareEntry outcome

/-! ## What the pieces do -/

@[simp] theorem own_setOwn (own : UninstallVariables) : (machine.setOwn own).own = own := by
  simp [setOwn, Unloading.own]

@[simp] theorem own_setResult (result : Word) :
    (machine.setResult result).own = { machine.own with result := result } := own_setOwn machine _

section Calls

variable {outcome} {machine}

theorem int21_get (number : Byte) (high : machine.ax.high = 0x35#8) (low : machine.ax.low = number) :
    machine.int21 outcome = { machine.ask (.getVector number) with
      es := (machine.dos.vectors number).segment
      bx := (machine.dos.vectors number).offset } := by
  subst low
  exact if_pos high

theorem int21_set (high : machine.ax.high = 0x25#8) : machine.int21 outcome =
    { machine.ask (.setVector machine.ax.low ⟨machine.ds, machine.dx⟩) with
      dos := machine.dos.setVector machine.ax.low machine.ds machine.dx } := by
  have get : ¬ machine.ax.high = 0x35#8 := by rw [high]; decide
  rw [int21, if_neg get, if_pos high]

end Calls

/-- Up to a later machine vectors are read only. -/
structure Reads (machine later : Unloading) : Prop where
  dos : later.dos = machine.dos
  asked : ∀ call ∈ later.asked, call ∈ machine.asked ∨ ∃ number, call.1 = .getVector number

theorem Reads.trans {machine middle later : Unloading} (first : machine.Reads middle)
    (second : middle.Reads later) : machine.Reads later :=
  ⟨second.dos.trans first.dos, fun call member =>
    (second.asked call member).elim (first.asked call) .inr⟩

theorem ask_get (number : Byte) : ∀ call ∈ (machine.ask (.getVector number)).asked,
    call ∈ machine.asked ∨ ∃ number, call.1 = .getVector number := by
  intro call member
  rcases List.mem_append.mp member with before | last
  · exact .inl before
  · exact .inr ⟨number, by rw [List.mem_singleton.mp last]⟩

theorem findInput_spec :
    let found := machine.findInput outcome
    machine.Reads found ∧ FarPtr.mk found.es found.bx = machine.dos.vectors 0x18#8 := by
  have high : Word.high 0x3518#16 = 0x35#8 := by decide
  have low : Word.low 0x3518#16 = 0x18#8 := by decide
  simp only [findInput, push, movAx]
  rw [int21_get 0x18#8]
  · exact ⟨⟨by simp only [ask], ask_get machine 0x18#8⟩, by simp only⟩
  · exact high
  · exact low

theorem findSerialIrq_spec :
    let found := machine.findSerialIrq outcome
    machine.Reads found ∧ FarPtr.mk found.es found.bx = machine.dos.vectors 0x0c#8 ∧
      found.own.residentSegment = machine.es := by
  have high : Word.high 0x350c#16 = 0x35#8 := by decide
  have low : Word.low 0x350c#16 = 0x0c#8 := by decide
  dsimp only [findSerialIrq]
  rw [int21_get 0x0c#8]
  · exact ⟨⟨rfl, ask_get machine 0x0c#8⟩, rfl,
      congrArg UninstallVariables.residentSegment (own_setOwn _ _)⟩
  · exact high
  · exact low

theorem prepare_spec :
    let prepared := machine.prepare prepareEntry
    prepared.dos = pc98UninstallPrepareEntry machine.own.residentSegment machine.dos ∧
      prepared.own.residentSegment = machine.own.residentSegment ∧
      prepared.own.environmentSegment = (machine.dos.copy machine.own.residentSegment).environment ∧
      prepared.asked = machine.asked := by
  simp [prepare, callPrepare, movAx, movEs, own, setOwn]

theorem setSaved_spec (hook : Hook) {function : Word} (high : function.high = 0x25#8) :
    let vector := (machine.dos.copy machine.own.residentSegment).oldVector hook
    let given := machine.setSaved outcome hook function
    given.dos = machine.dos.setVector function.low vector.segment vector.offset ∧ given.own = machine.own ∧
      given.asked = machine.asked ++ [(.setVector function.low vector, machine.dos)] := by
  dsimp only [setSaved]
  rw [int21_set]
  · exact ⟨rfl, rfl, rfl⟩
  · exact high

theorem restoreVectors_spec :
    let serial := (machine.dos.copy machine.own.residentSegment).oldVector .serialIrq
    let input := (machine.dos.copy machine.own.residentSegment).oldVector .input
    let given := machine.restoreVectors outcome
    given.dos = (machine.dos.setVector 0x0c#8 serial.segment serial.offset).setVector 0x18#8
        input.segment input.offset ∧
      given.own = machine.own ∧
      ∀ call ∈ given.asked, call ∈ machine.asked ∨ ∃ number pointer, call.1 = .setVector number pointer := by
  intro serial input given
  have serialHigh : Word.high 0x250c#16 = 0x25#8 := by decide
  have inputHigh : Word.high 0x2518#16 = 0x25#8 := by decide
  have serialLow : Word.low 0x250c#16 = 0x0c#8 := by decide
  have inputLow : Word.low 0x2518#16 = 0x18#8 := by decide
  obtain ⟨serialDos, serialOwn, serialAsked⟩ := setSaved_spec outcome machine .serialIrq serialHigh
  obtain ⟨inputDos, inputOwn, inputAsked⟩ := setSaved_spec outcome
    (machine.setSaved outcome .serialIrq 0x250c#16) .input inputHigh
  refine ⟨?_, inputOwn.trans serialOwn, fun call member => ?_⟩
  · have dos : given.dos = _ := inputDos
    rw [serialOwn, serialDos, serialLow, inputLow] at dos
    exact dos
  · have asked : given.asked = _ := inputAsked
    rw [asked, serialAsked] at member
    simp only [List.mem_append, List.mem_singleton] at member
    rcases member with (before | rfl) | rfl
    · exact .inl before
    · exact .inr ⟨_, _, rfl⟩
    · exact .inr ⟨_, _, rfl⟩

/-- What the comparisons come to. -/
theorem resident_cases :
    let resident := (machine.dos.vectors 0x18#8).segment
    let ending := machine.pc98UninstallResident layout prepareEntry outcome
    (machine.dos.Owned layout resident ∧ ∃ owner : Unloading, machine.Reads owner ∧
        owner.own.residentSegment = resident ∧ ending = owner.pc98UninstallOwner prepareEntry outcome) ∨
      (¬ machine.dos.Owned layout resident ∧ ∃ other : Unloading, machine.Reads other ∧
        ending = other.pc98UninstallNotOwner) := by
  intro resident ending
  obtain ⟨input, inputVector⟩ := findInput_spec outcome machine
  obtain ⟨serial, serialVector, noted⟩ := findSerialIrq_spec outcome (machine.findInput outcome)
  have segment : (machine.findInput outcome).es = resident := congrArg FarPtr.segment inputVector
  have signature : ∀ index, (machine.findInput outcome).signature index =
      word ((machine.dos.copies resident).signature.getD index 0)
        ((machine.dos.copies resident).signature.getD (index + 1) 0) := by
    intro index
    rw [Unloading.signature, segment, input.dos]
    rfl
  have same : ending = ite ((machine.findInput outcome).bx ≠ layout.hook .input) _ _ := rfl
  -- One case for each comparison that fails, in the order of the source.
  split_ifs at same with otherInput first second third fourth
  · exact .inr ⟨fun owned => otherInput (congrArg FarPtr.offset (inputVector.trans owned.input)), _, input, same⟩
  · exact .inr ⟨fun owned => first ((signature 0).trans owned.signed.1), _, input, same⟩
  · exact .inr ⟨fun owned => second ((signature 2).trans owned.signed.2.1), _, input, same⟩
  · exact .inr ⟨fun owned => third ((signature 4).trans owned.signed.2.2.1), _, input, same⟩
  · exact .inr ⟨fun owned => fourth ((signature 6).trans owned.signed.2.2.2), _, input, same⟩
  rw [input.dos] at serialVector
  dsimp only at same
  split_ifs at same with otherSerial otherCopy
  · exact .inr ⟨fun owned => otherSerial (congrArg FarPtr.offset (serialVector.trans owned.serialIrq)), _,
      input.trans serial, same⟩
  · exact .inr ⟨fun owned => otherCopy ((congrArg FarPtr.segment (serialVector.trans owned.serialIrq)).trans
      (noted.trans segment).symm), _, (input.trans serial).trans ⟨rfl, fun _ => .inl⟩, same⟩
  · -- Every comparison succeeds.
    simp only [ne_eq, not_not] at otherInput first second third fourth otherSerial otherCopy
    have copySegment : (findSerialIrq outcome (machine.findInput outcome)).es = resident :=
      otherCopy.trans (noted.trans segment)
    refine .inl ⟨⟨?_, ?_, (signature 0).symm.trans first, (signature 2).symm.trans second,
      (signature 4).symm.trans third, (signature 6).symm.trans fourth⟩,
      _, (input.trans serial).trans ⟨rfl, fun _ => .inl⟩, noted.trans segment, same⟩
    · rw [← inputVector, ← otherInput, segment]
    · rw [← serialVector, ← otherSerial, copySegment]

/-! ## Freeing -/

/-- Only the list of freed blocks may differ. -/
structure SameButFreed (dos later : Dos) : Prop where
  vectors : later.vectors = dos.vectors
  copies : later.copies = dos.copies
  hardware : later.hardware = dos.hardware

theorem SameButFreed.trans {dos middle later : Dos} (first : SameButFreed dos middle)
    (second : SameButFreed middle later) : SameButFreed dos later :=
  ⟨second.vectors.trans first.vectors, second.copies.trans first.copies,
    second.hardware.trans first.hardware⟩

/-- From one machine to a later one nothing is asked but to free blocks. -/
structure Frees (machine later : Unloading) : Prop where
  dos : SameButFreed machine.dos later.dos
  asked : ∃ calls, later.asked = machine.asked ++ calls ∧ ∀ call ∈ calls, SameButFreed machine.dos call.2

theorem Frees.trans {machine middle later : Unloading} (first : machine.Frees middle)
    (second : middle.Frees later) : machine.Frees later := by
  obtain ⟨firstCalls, firstAsked, firstSame⟩ := first.asked
  obtain ⟨secondCalls, secondAsked, secondSame⟩ := second.asked
  refine ⟨first.dos.trans second.dos, firstCalls ++ secondCalls, ?_, fun call member => ?_⟩
  · rw [secondAsked, firstAsked, List.append_assoc]
  · rcases List.mem_append.mp member with early | late
    · exact firstSame call early
    · exact first.dos.trans (secondSame call late)

theorem callFree_spec :
    machine.Frees (machine.callFree outcome) ∧ (machine.callFree outcome).own = machine.own := by
  have get : ¬ Word.high 0x4900#16 = 0x35#8 := by decide
  have set : ¬ Word.high 0x4900#16 = 0x25#8 := by decide
  have once : ∀ call ∈ [(DosCall.free machine.ax, machine.dos)], SameButFreed machine.dos call.2 := by
    simpa using ⟨rfl, rfl, rfl⟩
  have called : machine.callFree outcome = _ := (if_neg get).trans (if_neg set)
  rw [called]
  dsimp only
  split
  · exact ⟨⟨⟨rfl, rfl, rfl⟩, _, rfl, once⟩, rfl⟩
  · exact ⟨⟨⟨rfl, rfl, rfl⟩, _, rfl, once⟩, rfl⟩

theorem freeEnvironment_spec :
    let freed := machine.freeEnvironment outcome
    machine.Frees freed ∧ (freed.own.result = 0#16 ∨ freed.own.result = 2#16) := by
  have cleared := own_setResult machine 0#16
  obtain ⟨frees, own⟩ := callFree_spec outcome
    ((machine.setResult 0#16).movAx (machine.setResult 0#16).own.environmentSegment)
  simp only [freeEnvironment]
  split
  · exact ⟨⟨⟨rfl, rfl, rfl⟩, [], (List.append_nil _).symm, by simp⟩, .inl (congrArg _ cleared)⟩
  · split
    · exact ⟨⟨frees.dos, frees.asked⟩, .inl (congrArg UninstallVariables.result (own.trans cleared))⟩
    · exact ⟨⟨frees.dos, frees.asked⟩, .inr (congrArg UninstallVariables.result (own_setResult _ _))⟩

theorem freeResident_spec :
    let freed := machine.pc98UninstallFreeResident outcome
    machine.Frees freed ∧ (freed.ax = machine.own.result ∨ freed.ax = 3#16) := by
  obtain ⟨frees, own⟩ := callFree_spec outcome (machine.movAx machine.own.residentSegment)
  simp only [pc98UninstallFreeResident]
  split
  · exact ⟨⟨frees.dos, frees.asked⟩, .inl (congrArg UninstallVariables.result own)⟩
  · exact ⟨⟨frees.dos, frees.asked⟩, .inr (congrArg UninstallVariables.result (own_setResult _ _))⟩

/-- `pc98_uninstall_resident` behind its comparisons: it does not refuse, and what DOS is
asked after the vectors are set is asked of a machine without the copy. -/
theorem owner_spec :
    let resident := machine.own.residentSegment
    let prepared := pc98UninstallPrepareEntry resident machine.dos
    let ending := machine.pc98UninstallOwner prepareEntry outcome
    ending.ax ≠ 1#16 ∧ ∀ call ∈ ending.asked, call ∈ machine.asked ∨
      (∃ number pointer, call.1 = .setVector number pointer) ∨
      (call.2.vectors 0x0c#8 = (machine.dos.copies resident).oldVector .serialIrq ∧
        call.2.vectors 0x18#8 = (machine.dos.copies resident).oldVector .input ∧
        call.2.copies = prepared.copies ∧ call.2.hardware = prepared.hardware) := by
  intro resident prepared ending
  obtain ⟨shut, segment, _, askedBefore⟩ := prepare_spec prepareEntry machine
  obtain ⟨given, _, asked⟩ := restoreVectors_spec outcome (machine.prepare prepareEntry)
  obtain ⟨first, result⟩ := freeEnvironment_spec outcome
    ((machine.prepare prepareEntry).restoreVectors outcome)
  obtain ⟨second, ax⟩ := freeResident_spec outcome
    (((machine.prepare prepareEntry).restoreVectors outcome).freeEnvironment outcome)
  obtain ⟨calls, later, freeing⟩ := (first.trans second).asked
  refine ⟨?_, fun call member => ?_⟩
  · rcases ax with same | failed
    · rcases result with whole | part
      · exact (same.trans whole) ▸ (by decide)
      · exact (same.trans part) ▸ (by decide)
    · exact failed ▸ (by decide)
  · have asks : ending.asked = _ := later
    rw [asks] at member
    rcases List.mem_append.mp member with early | late
    · -- Up to here nothing was freed.
      rw [← askedBefore]
      exact (asked call early).imp id .inl
    · have same := freeing call late
      have kept : (prepared.copies resident).oldVector = (machine.dos.copies resident).oldVector := by
        simp [prepared, pc98UninstallPrepareEntry, Dos.work_copy]
      rw [shut, segment] at given
      refine .inr (.inr ⟨?_, ?_, ?_, ?_⟩)
      · rw [same.vectors, given, ← kept]
        simp [Dos.setVector, Dos.copy, prepared, resident]
      · rw [same.vectors, given, ← kept]
        simp [Dos.setVector, Dos.copy, prepared, resident]
      · rw [same.copies, given]
        rfl
      · rw [same.hardware, given]
        rfl

/-! ## DOS decides by the block alone -/

section ByBlock

variable {outcome} {frees : Word → Bool}
  (byBlock : ∀ calls block, (outcome (calls ++ [.free block])).isNone = frees block)
include byBlock

theorem callFree_byBlock : (machine.callFree outcome).carry = !(machine.dos.free frees machine.ax).1 ∧
    (machine.callFree outcome).dos = (machine.dos.free frees machine.ax).2 := by
  have get : ¬ Word.high 0x4900#16 = 0x35#8 := by decide
  have set : ¬ Word.high 0x4900#16 = 0x25#8 := by decide
  have called : machine.callFree outcome = _ := (if_neg get).trans (if_neg set)
  have calls : (machine.asked ++ [(DosCall.free machine.ax, machine.dos)]).map Prod.fst =
      machine.asked.map Prod.fst ++ [.free machine.ax] := List.map_append
  have answer := byBlock (machine.asked.map Prod.fst) machine.ax
  rw [← calls] at answer
  rw [called]
  dsimp only
  split <;> rename_i result
  · have freed : frees machine.ax = true := answer.symm.trans (congrArg Option.isNone result)
    simp only [Dos.free, freed, if_true]
    exact ⟨rfl, rfl⟩
  · have refused : frees machine.ax = false := answer.symm.trans (congrArg Option.isNone result)
    simp only [Dos.free, refused]
    exact ⟨rfl, rfl⟩

theorem freeEnvironment_byBlock :
    let environment := machine.own.environmentSegment
    let freed := machine.freeEnvironment outcome
    let answer := if environment = 0#16 then (true, machine.dos) else machine.dos.free frees environment
    freed.dos = answer.2 ∧ freed.own.residentSegment = machine.own.residentSegment ∧
      freed.own.result = if answer.1 then 0#16 else 2#16 := by
  intro environment freed answer
  have cleared := own_setResult machine 0#16
  obtain ⟨_, own⟩ := callFree_spec outcome
    ((machine.setResult 0#16).movAx (machine.setResult 0#16).own.environmentSegment)
  obtain ⟨carry, dos⟩ := callFree_byBlock
    ((machine.setResult 0#16).movAx (machine.setResult 0#16).own.environmentSegment) byBlock
  have block : (machine.setResult 0#16).own.environmentSegment = environment := by rw [cleared]
  have same : freed = ite ((machine.setResult 0#16).own.environmentSegment = 0#16) _ _ := rfl
  rw [block] at same carry dos own
  have kept : ((machine.setResult 0#16).movAx environment).own = { machine.own with result := 0#16 } := cleared
  by_cases absent : environment = 0#16
  · rw [same, if_pos absent]
    simp only [answer, if_pos absent, if_true]
    exact ⟨rfl, by rw [kept], by rw [kept]⟩
  · have there : answer = machine.dos.free frees environment := if_neg absent
    have carries : (((machine.setResult 0#16).movAx environment).callFree outcome).carry =
        !(machine.dos.free frees environment).1 := carry
    rw [same, if_neg absent, there]
    simp only [carries]
    rw [kept] at own
    cases (machine.dos.free frees environment).1 with
    | true =>
      have segment := congrArg UninstallVariables.residentSegment own
      have result := congrArg UninstallVariables.result own
      exact ⟨dos, segment, result⟩
    | false =>
      have noted := own_setResult (((machine.setResult 0#16).movAx environment).callFree outcome) 2#16
      rw [own] at noted
      have segment := congrArg UninstallVariables.residentSegment noted
      have result := congrArg UninstallVariables.result noted
      exact ⟨dos, segment, result⟩

theorem freeResident_byBlock :
    let freed := machine.pc98UninstallFreeResident outcome
    let (done, dos) := machine.dos.free frees machine.own.residentSegment
    freed.dos = dos ∧ freed.ax = if done then machine.own.result else 3#16 := by
  obtain ⟨_, own⟩ := callFree_spec outcome (machine.movAx machine.own.residentSegment)
  obtain ⟨carry, dos⟩ := callFree_byBlock (machine.movAx machine.own.residentSegment) byBlock
  have carries : ((machine.movAx machine.own.residentSegment).callFree outcome).carry =
      !(machine.dos.free frees machine.own.residentSegment).1 := carry
  simp only [pc98UninstallFreeResident, carries]
  cases (machine.dos.free frees machine.own.residentSegment).1 with
  | true => exact ⟨dos, congrArg UninstallVariables.result own⟩
  | false => exact ⟨dos, congrArg UninstallVariables.result (own_setResult _ _)⟩

theorem owner_byBlock :
    let ending := machine.pc98UninstallOwner prepareEntry outcome
    (ending.ax, ending.dos) = pc98UninstallOwned frees machine.own.residentSegment machine.dos := by
  intro ending
  obtain ⟨shut, segment, environment, _⟩ := prepare_spec prepareEntry machine
  obtain ⟨given, own, _⟩ := restoreVectors_spec outcome (machine.prepare prepareEntry)
  obtain ⟨dos, kept, result⟩ := freeEnvironment_byBlock
    ((machine.prepare prepareEntry).restoreVectors outcome) byBlock
  obtain ⟨ends, ax⟩ := freeResident_byBlock
    (((machine.prepare prepareEntry).restoreVectors outcome).freeEnvironment outcome) byBlock
  rw [own, environment] at dos result
  rw [own, segment] at kept
  rw [segment, shut] at given
  rw [kept, dos, given] at ends
  rw [kept, dos, result, given] at ax
  refine Prod.ext ?_ ?_
  · exact ax
  · exact ends

end ByBlock

end Unloading

/-- The routine called in the transient copy. -/
def Transient.unload (layout : Layout) (prepareEntry : Word) (outcome : List DosCall → Option Word)
    (entry : Transient) : Unloading :=
  Unloading.pc98UninstallResident layout prepareEntry outcome { toTransient := entry }

/-! ## What the shutdown leaves -/

/-- With the link down nothing of COM1's interrupt is held. -/
def Port.HoldsInLink (port : Port) : Prop :=
  port.up = false → port.capture = false ∧ port.maskSaved = false

theorem Tsr.port_holdsInLink {tsr : Tsr} : tsr.port.HoldsInLink ↔
    (tsr.linkState = .closed → tsr.irqCapture = false ∧ tsr.picMaskSaved = false) := by
  simp [Port.HoldsInLink, Tsr.port]

theorem Port.HoldsInLink.step {port next : Port} (does : port.Step next) (holds : port.HoldsInLink) :
    next.HoldsInLink := by
  cases does with
  | released => exact fun _ => ⟨rfl, rfl⟩
  | claimed => exact fun down => nomatch down
  | fetched => exact holds
  | stored => exact holds

theorem Action.holdsInLink {tsr : Tsr} (action : Action) (holds : tsr.port.HoldsInLink) :
    (action.apply tsr).port.HoldsInLink := by
  by_cases outside : ∃ hardware, action = .environment hardware
  · obtain ⟨hardware, rfl⟩ := outside
    exact holds
  · have steps := action.port_steps tsr fun hardware same => outside ⟨hardware, same⟩
    exact steps.preserves (fun _ _ does => Port.HoldsInLink.step does) holds

/-- `close_ime` resets the link only where there is one. -/
theorem closeIme_gives {tsr : Tsr} (holds : tsr.port.HoldsInLink) :
    (closeIme tsr).irqCapture = false ∧ (closeIme tsr).picMaskSaved = false ∧
      (closeIme tsr).picMask = if tsr.picMaskSaved then tsr.savedPicMask else tsr.picMask := by
  rcases (closeIme_serves tsr).port with same | released
  · -- Then the link was down before.
    have down : (closeIme tsr).port.up = false := by simp [Tsr.port, closeIme_down tsr]
    obtain ⟨capture, saved⟩ := holds ((congrArg Port.up same).symm.trans down)
    have maskSaved : tsr.picMaskSaved = false := saved
    rw [maskSaved]
    exact ⟨(congrArg Port.capture same).trans capture, (congrArg Port.maskSaved same).trans saved,
      congrArg Port.picMask same⟩
  · exact ⟨congrArg Port.capture released, congrArg Port.maskSaved released,
      congrArg Port.picMask released⟩

namespace Dos

variable {layout : Layout} {frees : Word → Bool} {segment : Word}

/-- Running a copy is running it on its own state. -/
theorem work_tsr (does : Tsr → Tsr) (dos : Dos) :
    (dos.work segment does).tsr segment = does (dos.tsr segment) := by
  simp [work, tsr, setCopy]

/-- What a block may be freed of: `entry` is the machine that `/U` found and `dos` the one
on which DOS is asked. -/
structure Retired (layout : Layout) (entry : Dos) (resident : Word) (dos : Dos) : Prop where
  owned : entry.Owned layout resident
  closed : (dos.copies resident).linkState = .closed
  serialIrq : dos.vectors 0x0c#8 = (entry.copies resident).oldVector .serialIrq
  input : dos.vectors 0x18#8 = (entry.copies resident).oldVector .input

/-- Capture has ended and the saved interrupt mask is back. -/
structure InterruptFreed (entry : Dos) (resident : Word) (dos : Dos) : Prop where
  capture : (dos.copies resident).irqCapture = false
  maskSaved : (dos.copies resident).picMaskSaved = false
  picMask : dos.hardware.picMask =
    if (entry.copies resident).picMaskSaved then (entry.copies resident).savedPicMask
    else entry.hardware.picMask

/-- The shutdown of a copy that holds the interrupt in a link only. -/
theorem InterruptFreed.of_prepared {entry dos : Dos} (holds : (entry.tsr segment).port.HoldsInLink)
    (copies : dos.copies = (pc98UninstallPrepareEntry segment entry).copies)
    (hardware : dos.hardware = (pc98UninstallPrepareEntry segment entry).hardware) :
    entry.InterruptFreed segment dos := by
  obtain ⟨capture, maskSaved, picMask⟩ := closeIme_gives holds
  have worked := @Dos.work_copy segment entry pc98PrepareUninstall
  refine ⟨?_, ?_, ?_⟩
  · rw [copies, pc98UninstallPrepareEntry, worked]
    exact capture
  · rw [copies, pc98UninstallPrepareEntry, worked]
    exact maskSaved
  · rw [hardware]
    exact picMask

/-- A copy in memory, whatever happened to it since its installation. -/
theorem Resides.holdsInLink {signature : List Byte} {before later : Dos}
    (resides : Resides layout frees segment signature before later) :
    (later.tsr segment).port.HoldsInLink := by
  obtain ⟨environment, args, modifierMask, actions, resident, same⟩ := resides.entered
  have begins : ((main layout segment args modifierMask frees
      (before.load segment environment signature)).2.tsr segment).port.HoldsInLink := by
    rw [main_resident resident]
    intro _
    simp [hookVector, clearResidentState, setVector, setCopy, copy, tsr, cleared, Tsr.port]
  have runs := Run.invariant (enter segment) (fun dos action holds =>
    show ((dos.enter segment action).tsr segment).port.HoldsInLink by
      rw [enter, work_tsr]
      exact action.holdsInLink holds) actions begins
  rw [Tsr.port_holdsInLink] at runs ⊢
  simp only [tsr] at runs ⊢
  rw [same]
  exact runs

end Dos

/-- `/U` is safe: where it refuses it has changed nothing, and wherever it asks DOS to free
a block both vectors pointed to the hooks of the copy, the session of the copy is closed
and both vectors are those it saved.  Its interrupt is free too unless it was held with
the link down, and no copy in memory holds it so. -/
theorem unload_safe (layout : Layout) (prepareEntry : Word) (outcome : List DosCall → Option Word)
    (entry : Transient) :
    let resident := (entry.dos.vectors 0x18#8).segment
    let ending := entry.unload layout prepareEntry outcome
    (ending.ax = 1#16 → ending.dos = entry.dos) ∧
    (∀ block dos, (DosCall.free block, dos) ∈ ending.asked →
      Dos.Retired layout entry.dos resident dos ∧
      ((entry.dos.tsr resident).port.HoldsInLink → Dos.InterruptFreed entry.dos resident dos)) ∧
    ∀ frees segment signature before later, Dos.Resides layout frees segment signature before later →
      (later.tsr segment).port.HoldsInLink := by
  intro resident ending
  refine ⟨?_, ?_, fun _ _ _ _ _ => Dos.Resides.holdsInLink⟩
  · intro refused
    obtain ⟨_, owner, _, _, ends⟩ | ⟨_, other, reads, ends⟩ :=
      Unloading.resident_cases layout prepareEntry outcome { toTransient := entry }
    · have accepts := (Unloading.owner_spec prepareEntry outcome owner).1
      rw [← ends] at accepts
      exact absurd refused accepts
    · have ended : ending = other.pc98UninstallNotOwner := ends
      rw [ended]
      exact reads.dos
  · intro block dos member
    obtain ⟨owned, owner, reads, segment, ends⟩ | ⟨_, other, reads, ends⟩ :=
      Unloading.resident_cases layout prepareEntry outcome { toTransient := entry }
    · have asks := (Unloading.owner_spec prepareEntry outcome owner).2
      rw [segment, reads.dos, ← ends] at asks
      rcases asks _ member with early | ⟨_, _, other⟩ | ⟨serialSet, inputSet, copies, hardware⟩
      · -- The comparisons only read vectors.
        rcases reads.asked _ early with none | ⟨_, other⟩
        · exact nomatch none
        · exact nomatch other
      · exact nomatch other
      · refine ⟨⟨owned, ?_, serialSet, inputSet⟩, fun holds => .of_prepared holds copies hardware⟩
        rw [copies, pc98UninstallPrepareEntry, Dos.work_copy]
        exact closeIme_down _
    · have ended : ending = other.pc98UninstallNotOwner := ends
      rw [ended] at member
      rcases reads.asked _ member with none | ⟨_, other⟩
      · exact nomatch none
      · exact nomatch other

/-- A copy at 2000h that captures with the link down, and `/U` from 3000h. -/
def strayCapture : Transient where
  ds := 0x3000#16
  dos :=
    { vectors := fun number =>
        if number = 0x18#8 then ⟨0x2000#16, 0x0260#16⟩ else ⟨0x2000#16, 0x0380#16⟩
      copies := fun _ =>
        { environment := 0#16
          signature := [0x53#8, 0x49#8, 0x4f#8, 0x46#8, 0x45#8, 0x50#8, 0x55#8, 0x31#8]
          oldVector := fun _ => ⟨0xf000#16, 0x1234#16⟩
          irqCapture := true }
      hardware := {} }

/-- It still captures when its block is freed. -/
theorem unload_leaves_capture : ¬ ∀ block dos,
    (DosCall.free block, dos) ∈ (strayCapture.unload someLayout 0x0500#16 fun _ => none).asked →
      Dos.InterruptFreed strayCapture.dos 0x2000#16 dos := by
  intro all
  have asked : (DosCall.free 0x2000#16, true) ∈
      (strayCapture.unload someLayout 0x0500#16 fun _ => none).asked.map
        (fun call => (call.1, (call.2.copies 0x2000#16).irqCapture)) := by decide
  obtain ⟨⟨call, dos⟩, member, same⟩ := List.mem_map.mp asked
  obtain ⟨rfl, captures⟩ := Prod.mk.inj same
  exact absurd ((all _ _ member).capture.symm.trans captures) (by decide)

/-- The routine refines the one of `Dos.Program`: where DOS decides by the block alone whether it
frees it, AX and what is left of DOS, the copies and the devices are the same. -/
theorem unload_refines (layout : Layout) (prepareEntry : Word) {outcome : List DosCall → Option Word}
    {frees : Word → Bool} (byBlock : ∀ calls block, (outcome (calls ++ [.free block])).isNone = frees block)
    (entry : Transient) :
    let ending := entry.unload layout prepareEntry outcome
    (ending.ax, ending.dos) = pc98UninstallResident layout frees entry.dos := by
  intro ending
  obtain ⟨owned, owner, reads, segment, ends⟩ | ⟨notOwned, other, reads, ends⟩ :=
    Unloading.resident_cases layout prepareEntry outcome { toTransient := entry }
  · have same := Unloading.owner_byBlock prepareEntry owner byBlock
    rw [segment, reads.dos, ← ends] at same
    rw [Dos.uninstall_signed frees owned.input owned.serialIrq owned.signed]
    exact same
  · have ended : ending = other.pc98UninstallNotOwner := ends
    rw [ended, Dos.uninstall_notOwned frees notOwned]
    exact Prod.ext rfl reads.dos

/-- DOS frees the environment, but not the copy. -/
def freesEnvironment (calls : List DosCall) : Option Word :=
  if calls.getLast? = some (.free 0x2000#16) then some 9#16 else none

theorem unload_refines_refused :
    let entry : Transient := { strayCapture with dos := { strayCapture.dos with
      copies := fun segment => { strayCapture.dos.copies segment with environment := 0x1f00#16 } } }
    let ending := entry.unload someLayout 0x0500#16 freesEnvironment
    ending.ax = 3#16 ∧ (ending.ax, ending.dos) =
      pc98UninstallResident someLayout (fun block => block ≠ 0x2000#16) entry.dos :=
  ⟨by decide, unload_refines someLayout 0x0500#16
    (fun calls block => by simp [freesEnvironment, apply_ite Option.isNone]) _⟩

end ImeBridge
