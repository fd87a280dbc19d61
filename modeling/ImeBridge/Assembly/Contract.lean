import ImeBridge.Library.HandlerRuns
import ImeBridge.Assembly.Hooks

/-! # What the hooks keep to

An assertion for each label of `tsr_hook.S` and the proof that every block keeps it up.  The
instructions of a block are executed by `simp`; what is left is the assertion at its jumps.
-/

namespace ImeBridge.Assembly

open Library.Handlers

/-- The hook treats the two function numbers alike. -/
def SameFunction (first second : Byte) : Prop :=
  (first = 0x00#8 ↔ second = 0x00#8) ∧ (first = 0x05#8 ↔ second = 0x05#8)

instance (first second : Byte) : Decidable (SameFunction first second) := by
  unfold SameFunction; infer_instance

/-- The function number an INT 18h call was made with. -/
def ownAh (entry : Entry) : Byte := Word.high entry.before.ax

/-- The caller gets what the previous handler returned, but for a hotkey word. -/
def Observed.Returns (observed : Observed) (registers : Registers) : Prop :=
  if observed.suppressed then observed.returned.ax = 0x3420#16 else registers = observed.returned

namespace Observed.Returns

variable {observed : Observed} {registers : Registers}

theorem suppressed (returns : observed.Returns registers) (hidden : observed.suppressed = true) :
    observed.returned.ax = 0x3420#16 := by
  rw [Observed.Returns, if_pos hidden] at returns
  exact returns

theorem same (returns : observed.Returns registers) (shown : observed.suppressed = false) :
    registers = observed.returned := by
  rw [Observed.Returns, shown] at returns
  exact returns

theorem space (returns : observed.Returns registers) (isSpace : registers.ax = 0x3420#16) :
    observed.returned.ax = 0x3420#16 := by
  cases hidden : observed.suppressed with
  | true => exact returns.suppressed hidden
  | false => exact returns.same hidden ▸ isSpace

end Observed.Returns

/-- What becomes of a call depends on its own function number. -/
@[mk_iff]
structure Observed.Outcome (observed : Observed) (ah : Byte) (registers : Registers) : Prop where
  blocking : ah = 0x00#8 → ¬ (registers.ax = 0x3420#16 ∧ observed.handled = true)
  polling : ah = 0x05#8 → (observed.handled = true ∨ observed.suppressed = true) →
    Word.high registers.bx = 0#8
  other : ah ≠ 0x00#8 → ah ≠ 0x05#8 → observed.suppressed = false

instance (observed : Observed) (ah : Byte) (registers : Registers) :
    Decidable (observed.Outcome ah registers) :=
  decidable_of_iff' _ (observed.outcome_iff ah registers)

/-- Entered by INT 18h. -/
def InputCall (entry : Entry) : Prop :=
  entry.bottom.length = 3 ∧ entry.interrupt = false ∧ interrupts entry.flags = false

instance (entry : Entry) : Decidable (InputCall entry) := by
  unfold InputCall; infer_instance

/-- Entered by the COM1 interrupt. -/
def SerialCall (entry : Entry) : Prop :=
  entry.bottom.length = 3 ∧ entry.interrupt = true ∧ interrupts entry.flags = false

/-- Entered by a far call. -/
def FarCall (entry : Entry) : Prop := entry.bottom.length = 2 ∧ entry.interrupt = false

abbrev Seen := View Resident Observed

/-- What holds at each label.  `own` is for calls that find their own function number in
`pc98_input_original_ah`. -/
def Holds (own : Prop) (label : Label) (entry : Entry) (view : Seen) : Prop :=
  match label with
  | .pc98InputHook => InputCall entry ∧
      view = ⟨{}, entry.bottom, entry.registers, entry.flags, view.store⟩
  | .pc98InputCountAh00 | .pc98InputCountAh01 | .pc98InputCountAh02 | .pc98InputCountAh05
  | .pc98InputCountDone => InputCall entry ∧ interrupts view.flags = false ∧
      view = ⟨{}, entry.flags :: entry.bottom, { entry.registers with sp := slot entry.base 4 },
        view.flags, view.store⟩
  | .pc98InputCallOld => InputCall entry ∧
      view = ⟨{}, entry.bottom, entry.registers, entry.flags, view.store⟩
  | .pc98InputReturnedSpace => InputCall entry ∧ view.Balanced entry ∧
      view.registers.ax = 0x3420#16 ∧ view.ghost.Returns view.registers ∧
      (own → ownAh entry ≠ 0x00#8 → view.ghost.suppressed = false)
  | .clearBh => InputCall entry ∧ view.Balanced entry ∧
      view.ghost.suppressed = true ∧ view.ghost.returned.ax = 0x3420#16 ∧
      (own → ownAh entry = 0x05#8)
  | .pc98InputRetryBlocking | .pc98InputWaitQueue => InputCall entry ∧ view.Balanced entry ∧
      view.ghost.suppressed = true ∧ view.ghost.returned.ax = 0x3420#16 ∧
      (own → ownAh entry = 0x00#8)
  | .pc98InputDequeue | .pc98InputStoreHead => InputCall entry ∧ interrupts view.flags = false ∧
      (∃ oldEs oldBx, view.words = oldEs :: oldBx :: entry.bottom) ∧ view.Here entry ∧
      view.ghost.suppressed = true ∧ view.ghost.returned.ax = 0x3420#16 ∧
      (own → ownAh entry = 0x00#8)
  | .pc98InputReturn => InputCall entry ∧ view.Balanced entry ∧
      view.ghost.Returns view.registers ∧ (own → view.ghost.Outcome (ownAh entry) view.registers)
  | .pc98SerialIrqHook | .pc98SerialIrqChain => SerialCall entry ∧ interrupts view.flags = false ∧
      view = ⟨view.ghost, entry.bottom, entry.registers, view.flags, view.store⟩
  | .pc98SerialIrqEoi | .pc98SerialIrqNotReceive => SerialCall entry ∧ interrupts view.flags = false ∧
      view = ⟨view.ghost, entry.before.dx :: entry.before.bx :: entry.before.ax :: entry.bottom,
        { entry.registers with
          ax := view.registers.ax
          bx := view.registers.bx
          dx := view.registers.dx
          sp := slot entry.base 6 }, view.flags, view.store⟩
  | .pc98UninstallPrepareEntry => FarCall entry ∧
      view = ⟨view.ghost, entry.bottom, entry.registers, entry.flags, view.store⟩

/-- The variables the hook decides on are as this call left them. -/
def Own (symbol : Symbol) (entry : Entry) (view : Seen) : Prop :=
  match symbol with
  | .pc98ReturnedHotkeyHandled => view.store.returnedHotkeyHandled ≠ 0#8 ↔ view.ghost.handled = true
  | .pc98InputOriginalAh => SameFunction view.store.inputOriginalAh (ownAh entry)
  | _ => True

instance (symbol : Symbol) (entry : Entry) (view : Seen) : Decidable (Own symbol entry view) := by
  unfold Own; cases symbol <;> infer_instance

@[simps]
def Copy.contract (copy : Copy) (own : Prop) : Contract Label Symbol Resident Observed where
  assumes symbol entry view := own → Own symbol entry view
  holds := Holds own
  calls entry view := InputCall entry ∧ view = ⟨{}, entry.flags :: entry.bottom,
    { entry.registers with sp := slot entry.base 4 }, entry.flags, view.store⟩
  works _ view := view.registers.ds = copy.segment ∧ view.registers.ss = copy.segment ∧
    view.registers.sp = copy.workerStackTop
  leaves entry view :=
    (entry.bottom.length = 2 → view.registers = entry.registers ∧ view.flags = entry.flags) ∧
    (InputCall entry → view.ghost.Returns view.registers ∧
      (own → view.ghost.Outcome (ownAh entry) view.registers))

variable {copy : Copy} {own : Prop} {entry : Entry} {view : Seen}

attribute [local simp] Copy.code Holds capacity Entry.registers

theorem safe_inputHook (holds : Holds own .pc98InputHook entry view) :
    Safe copy.hooks (copy.contract own) entry (copy.code .pc98InputHook) view := by
  obtain ⟨call, same⟩ := holds
  obtain ⟨three, -, off⟩ := id call
  rw [same]
  simp [off, three, call]

theorem safe_inputCount (get : Resident → Word) (set : Word → Resident → Resident)
    (holds : Holds own .pc98InputCountDone entry view) :
    Safe copy.hooks (copy.contract own) entry [incw (named get set), jmp .pc98InputCountDone] view := by
  obtain ⟨call, off, same⟩ := holds
  rw [same]
  simp [off, call]

theorem safe_inputCountDone (holds : Holds own .pc98InputCountDone entry view) :
    Safe copy.hooks (copy.contract own) entry (copy.code .pc98InputCountDone) view := by
  obtain ⟨call, off, same⟩ := holds
  obtain ⟨three, -, entryOff⟩ := id call
  rw [same]
  simp [off, three]
  intro registers flags store segment offset stillOff
  simp [three, call, stillOff, entryOff, Resident.confine]

theorem safe_inputCallOld (holds : Holds own .pc98InputCallOld entry view) :
    Safe copy.hooks (copy.contract own) entry (copy.code .pc98InputCallOld) view := by
  obtain ⟨call, same⟩ := holds
  obtain ⟨three, -, off⟩ := id call
  rw [same]
  simp [Safe, off, three, call]
  intro registers flags store segment offset other _ later _
  split_ifs with isSpace
  · intro last _
    exact ⟨⟨segment, offset⟩, isSpace, rfl⟩
  · refine ⟨⟨segment, offset⟩, rfl, fun _ => ?_⟩
    refine ⟨fun _ both => isSpace both.1, fun _ either => ?_, fun _ _ => rfl⟩
    cases either with
    | inl handled => exact Bool.noConfusion handled
    | inr suppressed => exact Bool.noConfusion suppressed

/-- Interrupts may be on here: the previous handler came back with any FLAGS. -/
theorem safe_decides (call : InputCall entry) {observed : Observed} {registers : Registers}
    (here : registers.ss = entry.before.ss ∧ registers.sp = slot entry.base 3)
    (isSpace : registers.ax = 0x3420#16) (returns : observed.Returns registers)
    (fresh : own → ownAh entry ≠ 0x00#8 → observed.suppressed = false) (flags : Word)
    (store : Resident) :
    Safe copy.hooks (copy.contract own) entry
      [cmpb (imm 0#8) pc98ReturnedHotkeyHandled,
        je .pc98InputReturn,
        cmpb (imm 0x00#8) pc98InputOriginalAh,
        je .pc98InputRetryBlocking,
        cmpb (imm 0x05#8) pc98InputOriginalAh,
        jne .pc98InputReturn,
        through .clearBh] ⟨observed, entry.bottom, registers, flags, store⟩ := by
  simp [Safe, call, here, call.1]
  intro first _ answered second _
  split_ifs with notHandled
  · refine ⟨returns, fun isOwn => ?_⟩
    have clear : observed.handled ≠ true := fun handled => (answered isOwn).mpr handled notHandled
    refine ⟨fun _ both => clear both.2, fun isPolling either => ?_,
      fun notBlocking _ => fresh isOwn notBlocking⟩
    cases either with
    | inl handled => exact absurd handled clear
    | inr suppressed =>
      have shown := fresh isOwn (by rw [isPolling]; decide)
      exact Bool.noConfusion (shown.symm.trans suppressed)
  intro third _ blocking fourth _
  split_ifs with isBlocking
  · exact ⟨returns.space isSpace, fun isOwn => (blocking isOwn).1.mp isBlocking⟩
  intro fifth _ polling sixth _
  split_ifs with isPolling
  · intro seventh _
    exact ⟨returns.space isSpace, fun isOwn => (polling isOwn).2.mp isPolling⟩
  · refine ⟨returns, fun isOwn => ⟨fun zero => ?_, fun five => ?_, fun notBlocking _ => ?_⟩⟩
    · exact absurd ((blocking isOwn).1.mpr zero) isBlocking
    · exact absurd ((polling isOwn).2.mpr five) isPolling
    · exact fresh isOwn notBlocking

theorem safe_inputReturnedSpace (holds : Holds own .pc98InputReturnedSpace entry view) :
    Safe copy.hooks (copy.contract own) entry (copy.code .pc98InputReturnedSpace) view := by
  obtain ⟨call, balanced, isSpace, returns, fresh⟩ := holds
  obtain ⟨observed, words, registers, flags, store⟩ := view
  obtain ⟨rfl, segment, offset⟩ := balanced
  obtain ⟨three, -, off⟩ := id call
  dsimp only at segment offset isSpace returns fresh
  suffices all : ∀ store, Safe copy.hooks (copy.contract own) entry (copy.code .pc98InputReturnedSpace)
      ⟨observed, entry.bottom, registers, flags, store⟩ from all store
  have same : ({ registers with ss := entry.before.ss, sp := slot entry.base 3 } : Registers) =
      registers := by
    rw [← three, ← offset, ← show registers.ss = entry.before.ss from segment]
  simp +contextual [three, segment, offset, Resident.confine, same]
  intro _ answer _ _ _ _ _
  exact @safe_decides copy own entry call
    { observed with handled := Word.low answer.ax != 0#8 } registers
    ⟨segment, three ▸ offset⟩ isSpace returns fresh _ _

theorem safe_clearBh (holds : Holds own .clearBh entry view) :
    Safe copy.hooks (copy.contract own) entry (copy.code .clearBh) view := by
  obtain ⟨call, balanced, suppressed, isSpace, polling⟩ := holds
  obtain ⟨observed, words, registers, flags, store⟩ := view
  obtain ⟨rfl, segment, offset⟩ := balanced
  dsimp only at segment offset suppressed isSpace polling
  suffices all : ∀ store, Safe copy.hooks (copy.contract own) entry (copy.code .clearBh)
      ⟨observed, entry.bottom, registers, flags, store⟩ from all store
  simp [call, segment, offset]
  intro _
  refine ⟨by simp [Observed.Returns, suppressed, isSpace], fun isOwn => ?_⟩
  refine ⟨fun zero => ?_, fun _ _ => by simp, fun _ five => ?_⟩
  · exact absurd ((polling isOwn).symm.trans zero) (by decide)
  · exact absurd (polling isOwn) five

theorem safe_inputWaitQueue (holds : Holds own .pc98InputWaitQueue entry view) :
    Safe copy.hooks (copy.contract own) entry (copy.code .pc98InputWaitQueue) view := by
  obtain ⟨call, balanced, suppressed, isSpace, blocking⟩ := holds
  obtain ⟨observed, words, registers, flags, store⟩ := view
  obtain ⟨rfl, segment, offset⟩ := balanced
  dsimp only at segment offset suppressed isSpace blocking
  suffices all : ∀ store, Safe copy.hooks (copy.contract own) entry (copy.code .pc98InputWaitQueue)
      ⟨observed, entry.bottom, registers, flags, store⟩ from all store
  simp [call, call.1, segment, offset, suppressed, isSpace]
  intro store
  split_ifs with isEmpty
  · intro _ _ _ _
    exact ⟨call, ⟨rfl, rfl, by simp [call.1]⟩, suppressed, isSpace, blocking⟩
  · exact blocking

theorem safe_inputDequeue (holds : Holds own .pc98InputDequeue entry view) :
    Safe copy.hooks (copy.contract own) entry (copy.code .pc98InputDequeue) view := by
  obtain ⟨call, off, ⟨oldEs, oldBx, same⟩, ⟨segment, offset⟩, suppressed, isSpace, blocking⟩ := holds
  obtain ⟨observed, words, registers, flags, store⟩ := view
  dsimp only at off same segment offset suppressed isSpace blocking
  subst same
  simp [off, call, call.1, segment, offset, suppressed, isSpace]
  exact blocking

theorem safe_inputStoreHead (holds : Holds own .pc98InputStoreHead entry view) :
    Safe copy.hooks (copy.contract own) entry (copy.code .pc98InputStoreHead) view := by
  obtain ⟨call, off, ⟨oldEs, oldBx, same⟩, ⟨segment, offset⟩, suppressed, isSpace, blocking⟩ := holds
  obtain ⟨observed, words, registers, flags, store⟩ := view
  dsimp only at off same segment offset suppressed isSpace blocking
  subst same
  simp [off, call, call.1, segment, offset]
  have returns : ∀ other, observed.Returns other := by
    intro other
    rw [Observed.Returns, if_pos suppressed]
    exact isSpace
  split_ifs with again
  · exact ⟨again, returns _, fun isOwn notBlocking => absurd (blocking isOwn) notBlocking⟩
  · refine ⟨returns _, fun isOwn => ⟨fun _ both => again both.1, fun five => ?_, fun notBlocking => ?_⟩⟩
    · exact absurd ((blocking isOwn).symm.trans five) (by decide)
    · exact absurd (blocking isOwn) notBlocking

theorem safe_serialIrqHook (holds : Holds own .pc98SerialIrqHook entry view) :
    Safe copy.hooks (copy.contract own) entry (copy.code .pc98SerialIrqHook) view := by
  obtain ⟨call, off, same⟩ := holds
  rw [same]
  simp [off, call, call.1]

theorem SerialCall.not_inputCall (call : SerialCall entry) : ¬ InputCall entry :=
  fun input => Bool.noConfusion (call.2.1.symm.trans input.2.1)

theorem safe_serialIrqEoi (holds : Holds own .pc98SerialIrqEoi entry view) :
    Safe copy.hooks (copy.contract own) entry (copy.code .pc98SerialIrqEoi) view := by
  obtain ⟨call, off, same⟩ := holds
  rw [same]
  simp +contextual [off, call.1, call.not_inputCall, Resident.confine]

theorem safe_serialIrqNotReceive (holds : Holds own .pc98SerialIrqNotReceive entry view) :
    Safe copy.hooks (copy.contract own) entry (copy.code .pc98SerialIrqNotReceive) view := by
  obtain ⟨call, off, same⟩ := holds
  rw [same]
  simp [off, call, call.1]

theorem safe_uninstallPrepareEntry (holds : Holds own .pc98UninstallPrepareEntry entry view) :
    Safe copy.hooks (copy.contract own) entry (copy.code .pc98UninstallPrepareEntry) view := by
  obtain ⟨call, same⟩ := holds
  obtain ⟨observed, words, registers, flags, store⟩ := view
  cases same
  suffices all : ∀ store, Safe copy.hooks (copy.contract own) entry (copy.code .pc98UninstallPrepareEntry)
      ⟨observed, entry.bottom, entry.registers, entry.flags, store⟩ from all store
  have noInput : ¬ InputCall entry := fun input => absurd (call.1.symm.trans input.1) (by decide)
  simp +contextual [call.1, Resident.confine]
  intro _ _ _ _ _ _ _ other _
  simp [call.1, call.2, noInput]

theorem safe_inputReturn (holds : Holds own .pc98InputReturn entry view) :
    Safe copy.hooks (copy.contract own) entry (copy.code .pc98InputReturn) view := by
  obtain ⟨call, balanced, returns, outcome⟩ := holds
  intro store _
  refine ⟨balanced, call.1, fun isInterrupt => ?_, fun two => ?_, fun _ => ⟨returns, outcome⟩⟩
  · exact Bool.noConfusion (isInterrupt.symm.trans call.2.1)
  · exact absurd (call.1.symm.trans two) (by decide)

theorem safe_serialIrqChain (holds : Holds own .pc98SerialIrqChain entry view) :
    Safe copy.hooks (copy.contract own) entry (copy.code .pc98SerialIrqChain) view := by
  obtain ⟨call, off, same⟩ := holds
  rw [same]
  simp [off, call.1, call.2.1, call.not_inputCall]

theorem enters_input {label : Label} (enters : copy.hooks.enters label = some false) :
    label = .pc98InputHook := by
  cases label <;> simp at enters ⊢

theorem enters_uninstall {label : Label} (enters : copy.hooks.enters label = some true) :
    label = .pc98UninstallPrepareEntry := by
  cases label <;> simp at enters ⊢

theorem hooks_verified (copy : Copy) (own : Prop) : Verified copy.hooks (copy.contract own) where
  safe := by
    intro label entry view holds
    cases label with
    | pc98InputHook => exact safe_inputHook holds
    | pc98InputCountAh00 | pc98InputCountAh01 | pc98InputCountAh02 | pc98InputCountAh05 =>
      exact safe_inputCount _ _ holds
    | pc98InputCountDone => exact safe_inputCountDone holds
    | pc98InputCallOld => exact safe_inputCallOld holds
    | pc98InputReturnedSpace => exact safe_inputReturnedSpace holds
    | clearBh => exact safe_clearBh holds
    | pc98InputRetryBlocking => exact fun _ _ => holds
    | pc98InputWaitQueue => exact safe_inputWaitQueue holds
    | pc98InputDequeue => exact safe_inputDequeue holds
    | pc98InputStoreHead => exact safe_inputStoreHead holds
    | pc98InputReturn => exact safe_inputReturn holds
    | pc98SerialIrqHook => exact safe_serialIrqHook holds
    | pc98SerialIrqEoi => exact safe_serialIrqEoi holds
    | pc98SerialIrqNotReceive => exact safe_serialIrqNotReceive holds
    | pc98SerialIrqChain => exact safe_serialIrqChain holds
    | pc98UninstallPrepareEntry => exact safe_uninstallPrepareEntry holds
  starts := by
    intro label entry way store
    unfold Program.EntersAt at way
    split_ifs at way with three isInterrupt
    · obtain ⟨off, rfl⟩ := way
      exact ⟨⟨three, isInterrupt, off⟩, off, rfl⟩
    · obtain ⟨off, byInstruction⟩ := way
      obtain rfl := enters_input byInstruction
      exact ⟨⟨three, Bool.eq_false_iff.mpr isInterrupt, off⟩, rfl⟩
    · obtain ⟨two, notInterrupt, byFarCall⟩ := way
      obtain rfl := enters_uninstall byFarCall
      exact ⟨⟨two, notInterrupt⟩, rfl⟩

end ImeBridge.Assembly
