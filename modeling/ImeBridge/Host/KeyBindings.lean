import Mathlib.Data.List.DropRight
import ImeBridge.Library.Assignments

/-! # The shortcuts of the bridge

`BridgeKeyBindings.cs`.  The characters of a text are Unicode scalar values, since a file
that was read holds no others.
-/

namespace ImeBridge

open Library

/-- `Keys` of Windows Forms: a key, or modifiers that are or'ed together. -/
abbrev Keys := BitVec 32

namespace Keys

def none : Keys := 0x00000#32
def back : Keys := 0x00008#32
def enter : Keys := 0x0000d#32
def escape : Keys := 0x0001b#32
def left : Keys := 0x00025#32
def up : Keys := 0x00026#32
def right : Keys := 0x00027#32
def down : Keys := 0x00028#32
def shift : Keys := 0x10000#32
def control : Keys := 0x20000#32
def alt : Keys := 0x40000#32

end Keys

/-- What .NET knows about characters and names. -/
structure DotNet where
  /-- `char.IsWhiteSpace` -/
  isWhiteSpace : Char → Bool
  /-- What `ToUpperInvariant` makes of one character. -/
  toUpperInvariant : Char → Char
  /-- `Enum.TryParse` for `Keys`: the key of a name. -/
  tryParse : List Char → Option Keys

namespace DotNet

variable (dotNet : DotNet)

def trim (text : List Char) : List Char :=
  (text.dropWhile dotNet.isWhiteSpace).rdropWhile dotNet.isWhiteSpace

def toUpper (text : List Char) : List Char := text.map dotNet.toUpperInvariant

/-- `StringComparison.OrdinalIgnoreCase` -/
def equalsIgnoreCase (first second : List Char) : Bool := dotNet.toUpper first = dotNet.toUpper second

/-- `Split('+', TrimEntries | RemoveEmptyEntries)` -/
def split (text : List Char) : List (List Char) :=
  ((text.splitOn '+').map dotNet.trim).filter (· ≠ [])

end DotNet

structure KeyBinding where
  key : Keys
  modifiers : Keys
  enabled : Bool := true
  deriving DecidableEq, Repr

namespace KeyBinding

variable (dotNet : DotNet)

/-- The loop of `TryParse` over the parts, and the variables behind it; `none` where it
returns false. -/
def tryParseLoop : List (List Char) → Keys → Keys → Option (Keys × Keys)
  | [], modifiers, key => some (modifiers, key)
  | rawPart :: parts, modifiers, key =>
    let part := dotNet.toUpper rawPart
    if part = "CTRL".toList ∨ part = "CONTROL".toList then
      tryParseLoop parts (modifiers ||| Keys.control) key
    else if part = "SHIFT".toList then tryParseLoop parts (modifiers ||| Keys.shift) key
    else if part = "ALT".toList then tryParseLoop parts (modifiers ||| Keys.alt) key
    else
      let part := if part = "BACKSPACE".toList then "BACK".toList else part
      match dotNet.tryParse part with
      | none => none
      -- A key from an earlier part is lost.
      | some key => if key = Keys.none then none else tryParseLoop parts modifiers key

def tryParse (text : List Char) : Option KeyBinding :=
  if dotNet.equalsIgnoreCase (dotNet.trim text) "NONE".toList then some ⟨Keys.none, Keys.none, false⟩
  else
    match tryParseLoop dotNet (dotNet.split text) Keys.none Keys.none with
    | none => none
    | some (modifiers, key) => if key = Keys.none then none else some { key := key, modifiers := modifiers }

end KeyBinding

structure BridgeKeyBindings where
  send : KeyBinding := { key := Keys.enter, modifiers := Keys.none }
  close : KeyBinding := { key := Keys.escape, modifiers := Keys.none }
  remoteEnter : KeyBinding := { key := Keys.enter, modifiers := Keys.none }
  remoteBackspace : KeyBinding := { key := Keys.back, modifiers := Keys.none }
  remoteLeft : KeyBinding := { key := Keys.left, modifiers := Keys.none }
  remoteRight : KeyBinding := { key := Keys.right, modifiers := Keys.none }
  remoteUp : KeyBinding := { key := Keys.up, modifiers := Keys.none }
  remoteDown : KeyBinding := { key := Keys.down, modifiers := Keys.none }
  deriving DecidableEq, Repr

/-- `File.ReadLines`: CR, LF and CR LF end a line, and so does the end of the file unless the
line is empty. -/
def readLines (line : List Char) : List Char → List (List Char)
  | [] => if line = [] then [] else [line]
  | '\r' :: '\n' :: text => line :: readLines [] text
  | character :: text =>
    if character = '\r' ∨ character = '\n' then line :: readLines [] text
    else readLines (line ++ [character]) text

namespace BridgeKeyBindings

variable (dotNet : DotNet)

/-- The `switch` of `Load`. -/
def assign (result : BridgeKeyBindings) (name : List Char) (binding : KeyBinding) : BridgeKeyBindings :=
  if name = "SEND".toList then { result with send := binding }
  else if name = "CLOSE".toList then { result with close := binding }
  else if name = "REMOTE_ENTER".toList then { result with remoteEnter := binding }
  else if name = "REMOTE_BACKSPACE".toList then { result with remoteBackspace := binding }
  else if name = "REMOTE_LEFT".toList then { result with remoteLeft := binding }
  else if name = "REMOTE_RIGHT".toList then { result with remoteRight := binding }
  else if name = "REMOTE_UP".toList then { result with remoteUp := binding }
  else if name = "REMOTE_DOWN".toList then { result with remoteDown := binding }
  else result

/-- The body of the loop of `Load`. -/
def loadLine (result : BridgeKeyBindings) (rawLine : List Char) : BridgeKeyBindings :=
  let line := dotNet.trim rawLine
  if line = [] ∨ line.head? = some ';' ∨ line.head? = some '#' then result
  else
    match line.idxOf? '=' with
    | none => result
    | some separator =>
      -- A line without a name is ignored.
      if separator = 0 then result
      else
        match KeyBinding.tryParse dotNet (line.drop (separator + 1)) with
        | none => result
        | some binding => result.assign (dotNet.toUpper (dotNet.trim (line.take separator))) binding

/-- `Load`, with `none` for a file that is not there. -/
def load : Option (List Char) → BridgeKeyBindings
  | none => {}
  | some text => (readLines [] text).foldl (loadLine dotNet) {}

end BridgeKeyBindings

/-! ## What a line means -/

/-- What a shortcut can be bound to. -/
inductive BridgeAction where
  | send
  | close
  | remoteEnter
  | remoteBackspace
  | remoteLeft
  | remoteRight
  | remoteUp
  | remoteDown
  deriving DecidableEq, Repr

namespace BridgeAction

def name : BridgeAction → List Char
  | .send => "SEND".toList
  | .close => "CLOSE".toList
  | .remoteEnter => "REMOTE_ENTER".toList
  | .remoteBackspace => "REMOTE_BACKSPACE".toList
  | .remoteLeft => "REMOTE_LEFT".toList
  | .remoteRight => "REMOTE_RIGHT".toList
  | .remoteUp => "REMOTE_UP".toList
  | .remoteDown => "REMOTE_DOWN".toList

end BridgeAction

def BridgeKeyBindings.binding (bindings : BridgeKeyBindings) : BridgeAction → KeyBinding
  | .send => bindings.send
  | .close => bindings.close
  | .remoteEnter => bindings.remoteEnter
  | .remoteBackspace => bindings.remoteBackspace
  | .remoteLeft => bindings.remoteLeft
  | .remoteRight => bindings.remoteRight
  | .remoteUp => bindings.remoteUp
  | .remoteDown => bindings.remoteDown

namespace DotNet

variable (dotNet : DotNet)

/-- The value of a line that names the action. -/
def value (action : BridgeAction) (line : List Char) : Option (List Char) :=
  let line := dotNet.trim line
  let name := line.takeWhile (· ≠ '=')
  match line.dropWhile (· ≠ '=') with
  | [] => none
  | _ :: value =>
    if name ≠ [] ∧ name.head? ≠ some ';' ∧ name.head? ≠ some '#' ∧
      dotNet.toUpper (dotNet.trim name) = action.name then some value else none

/-- The value is NONE. -/
def disables (value : List Char) : Bool := dotNet.equalsIgnoreCase (dotNet.trim value) "NONE".toList

/-- The modifier with this name. -/
def modifier (name : List Char) : Option Keys :=
  if name = "CTRL".toList ∨ name = "CONTROL".toList then some Keys.control
  else if name = "SHIFT".toList then some Keys.shift
  else if name = "ALT".toList then some Keys.alt
  else none

/-- The key with this name. -/
def key (name : List Char) : Option Keys :=
  (dotNet.tryParse (if name = "BACKSPACE".toList then "BACK".toList else name)).filter (· ≠ Keys.none)

/-- The names in a value, in capital letters. -/
def names (value : List Char) : List (List Char) := (dotNet.split value).map dotNet.toUpper

/-- The keys in a value, if all its names but the modifiers name one. -/
def keys (value : List Char) : Option (List Keys) :=
  ((dotNet.names value).filter (modifier · = none)).mapM dotNet.key

def modifiers (value : List Char) : Keys :=
  ((dotNet.names value).filterMap modifier).foldl (· ||| ·) Keys.none

/-- NONE, or any modifiers and exactly one key. -/
def meaning (value : List Char) : Option KeyBinding :=
  if dotNet.disables value then some ⟨Keys.none, Keys.none, false⟩
  else
    match dotNet.keys value with
    | some [key] => some { key := key, modifiers := dotNet.modifiers value }
    | _ => none

/-- The binding of the last line that names the action and has a valid value, or the default. -/
def specified (lines : List (List Char)) (action : BridgeAction) : KeyBinding :=
  Assignments.last (fun line => (dotNet.value action line).bind dotNet.meaning) lines
    (BridgeKeyBindings.binding {} action)

/-- The parser takes NONE, and any modifiers with any number of keys but none. -/
def Accepted (value : List Char) : Prop :=
  dotNet.disables value = true ∨ ∃ keys, dotNet.keys value = some keys ∧ keys ≠ []

/-- The last of several keys in a value, with the modifiers. -/
def lastOfSeveral (value : List Char) : Option KeyBinding :=
  if dotNet.disables value then none
  else
    match dotNet.keys value with
    | some (_ :: second :: keys) => some { key := keys.getLastD second, modifiers := dotNet.modifiers value }
    | _ => none

end DotNet

/-! ## The parser of values -/

namespace DotNet

variable {dotNet : DotNet}

theorem key_ne_none {name : List Char} {key : Keys} (named : dotNet.key name = some key) :
    key ≠ Keys.none := by
  have passed := (Option.filter_eq_some_iff.mp named).2
  simpa using passed

theorem keys_ne_none {names : List (List Char)} {keys : List Keys} (named : names.mapM dotNet.key = some keys) :
    ∀ key ∈ keys, key ≠ Keys.none := by
  induction names generalizing keys with
  | nil =>
    cases named
    simp
  | cons name names inductionHypothesis =>
    rw [List.mapM_cons] at named
    obtain ⟨first, isFirst, named⟩ := Option.bind_eq_some_iff.mp named
    obtain ⟨rest, isRest, named⟩ := Option.bind_eq_some_iff.mp named
    cases named
    intro key member
    rcases List.mem_cons.mp member with rfl | later
    · exact key_ne_none isFirst
    · exact inductionHypothesis isRest key later

end DotNet

namespace KeyBinding

variable (dotNet : DotNet)

open DotNet

/-- A part is a modifier or has to name a key. -/
theorem tryParseLoop_cons (rawPart : List Char) (parts : List (List Char)) (modifiers key : Keys) :
    tryParseLoop dotNet (rawPart :: parts) modifiers key =
      match modifier (dotNet.toUpper rawPart) with
      | some modifier => tryParseLoop dotNet parts (modifiers ||| modifier) key
      | none => (dotNet.key (dotNet.toUpper rawPart)).bind fun key => tryParseLoop dotNet parts modifiers key := by
  rw [tryParseLoop]
  simp only [modifier, DotNet.key]
  split_ifs <;> try rfl
  all_goals
    generalize dotNet.tryParse _ = parsed
    cases parsed with
    | none => rfl
    | some key => by_cases known : key = Keys.none <;> simp [Option.filter, known]

theorem tryParseLoop_eq (parts : List (List Char)) (modifiers key : Keys) :
    tryParseLoop dotNet parts modifiers key =
      (((parts.map dotNet.toUpper).filter (modifier · = none)).mapM dotNet.key).map fun keys =>
        (((parts.map dotNet.toUpper).filterMap modifier).foldl (· ||| ·) modifiers, keys.getLastD key) := by
  induction parts generalizing modifiers key with
  | nil => rfl
  | cons rawPart parts inductionHypothesis =>
    rw [tryParseLoop_cons]
    cases isModifier : modifier (dotNet.toUpper rawPart) with
    | some modifier => simp [isModifier, inductionHypothesis]
    | none =>
      cases named : dotNet.key (dotNet.toUpper rawPart) with
      | none => simp [isModifier, named]
      | some key =>
        rw [List.map_cons, List.filter_cons_of_pos (by simpa using isModifier), List.mapM_cons, named,
          List.filterMap_cons_none isModifier]
        dsimp only
        rw [Option.bind_some, inductionHypothesis]
        generalize List.mapM dotNet.key _ = keys
        cases keys with
        | none => rfl
        | some keys => cases keys <;> rfl

/-- Of several keys the last one counts. -/
theorem tryParse_eq (value : List Char) : tryParse dotNet value =
    if dotNet.disables value then some ⟨Keys.none, Keys.none, false⟩
    else
      match dotNet.keys value with
      | some (key :: keys) => some { key := keys.getLastD key, modifiers := dotNet.modifiers value }
      | _ => none := by
  have parsed : tryParse dotNet value = if dotNet.disables value then some ⟨Keys.none, Keys.none, false⟩
      else match tryParseLoop dotNet (dotNet.split value) Keys.none Keys.none with
        | none => none
        | some (modifiers, key) =>
          if key = Keys.none then none else some { key := key, modifiers := modifiers } := rfl
  have loop : tryParseLoop dotNet (dotNet.split value) Keys.none Keys.none =
      (dotNet.keys value).map fun keys => (dotNet.modifiers value, keys.getLastD Keys.none) :=
    tryParseLoop_eq dotNet _ _ _
  rw [parsed, loop]
  congr 1
  cases named : dotNet.keys value with
  | none => rfl
  | some keys =>
    cases keys with
    | nil => rfl
    | cons key keys =>
      -- The test for a missing key passes, since no name stands for `Keys.None`.
      have known : keys.getLastD key ≠ Keys.none := keys_ne_none named _ List.getLastD_mem_cons
      rw [Option.map_some, List.getLastD_cons]
      exact if_neg known

/-- What is valid is parsed as it should be. -/
theorem tryParse_of_meaning {value : List Char} {binding : KeyBinding}
    (valid : dotNet.meaning value = some binding) : tryParse dotNet value = some binding := by
  rw [tryParse_eq]
  unfold meaning at valid
  cases disables : dotNet.disables value with
  | true => simpa [disables] using valid
  | false =>
    rcases named : dotNet.keys value with _ | _ | ⟨key, _ | ⟨second, keys⟩⟩ <;>
      simp [disables, named] at valid ⊢
    exact valid

theorem tryParse_none_iff (value : List Char) : tryParse dotNet value = none ↔ ¬ dotNet.Accepted value := by
  rw [tryParse_eq, Accepted]
  cases disables : dotNet.disables value with
  | true => simp
  | false => rcases named : dotNet.keys value with _ | _ | ⟨key, keys⟩ <;> simp

/-- What is parsed and not valid names several keys. -/
theorem tryParse_invalid_iff (value : List Char) (binding : KeyBinding) :
    tryParse dotNet value = some binding ∧ dotNet.meaning value = none ↔
      dotNet.lastOfSeveral value = some binding := by
  rw [tryParse_eq, meaning, lastOfSeveral]
  cases disables : dotNet.disables value with
  | true => simp
  | false =>
    rcases named : dotNet.keys value with _ | _ | ⟨key, _ | ⟨second, keys⟩⟩ <;> simp [List.getLast?_cons]

end KeyBinding

/-! ## The loop over the lines -/

namespace BridgeKeyBindings

variable (dotNet : DotNet)

theorem binding_assign (bindings : BridgeKeyBindings) (name : List Char) (binding : KeyBinding)
    (action : BridgeAction) : (bindings.assign name binding).binding action =
      if name = action.name then binding else bindings.binding action := by
  -- The names of the actions are the cases of the `switch`.
  by_cases named : ∃ other : BridgeAction, name = other.name
  · obtain ⟨other, rfl⟩ := named
    cases other <;> cases action <;> rfl
  · have different : ∀ other : BridgeAction, name ≠ other.name := fun other same => named ⟨other, same⟩
    have unchanged : bindings.assign name binding = bindings := by
      unfold assign
      split_ifs with send close enter backspace left right up down
      · exact absurd send (different .send)
      · exact absurd close (different .close)
      · exact absurd enter (different .remoteEnter)
      · exact absurd backspace (different .remoteBackspace)
      · exact absurd left (different .remoteLeft)
      · exact absurd right (different .remoteRight)
      · exact absurd up (different .remoteUp)
      · exact absurd down (different .remoteDown)
      · rfl
    rw [unchanged, if_neg (different action)]

/-- The `=` splits a line where the name ends. -/
theorem idxOf?_separator (line : List Char) :
    match line.idxOf? '=' with
    | none => line.dropWhile (· ≠ '=') = []
    | some separator => line.takeWhile (· ≠ '=') = line.take separator ∧
      line.dropWhile (· ≠ '=') = '=' :: line.drop (separator + 1) := by
  induction line with
  | nil => rfl
  | cons character line inductionHypothesis =>
    by_cases separates : character = '='
    · subst separates
      simp [List.idxOf?_cons]
    · rw [List.idxOf?_cons]
      simp only [beq_iff_eq, separates, if_false]
      cases found : line.idxOf? '=' with
      | none =>
        rw [found] at inductionHypothesis
        simpa [separates] using inductionHypothesis
      | some separator =>
        rw [found] at inductionHypothesis
        simpa [separates] using inductionHypothesis

/-- A line binds the action it names, if its value is parsed. -/
theorem binding_loadLine (result : BridgeKeyBindings) (line : List Char) (action : BridgeAction) :
    (loadLine dotNet result line).binding action =
      ((dotNet.value action line).bind (KeyBinding.tryParse dotNet)).getD (result.binding action) := by
  have split := idxOf?_separator (dotNet.trim line)
  unfold loadLine DotNet.value
  generalize dotNet.trim line = line at split ⊢
  dsimp only
  cases found : line.idxOf? '=' with
  | none =>
    rw [found] at split
    rw [split]
    split <;> rfl
  | some separator =>
    rw [found] at split
    obtain ⟨name, value⟩ := split
    have nonempty : line ≠ [] := by
      rintro rfl
      simp at value
    rw [name, value]
    dsimp only
    cases separator with
    | zero => split <;> simp
    | succ separator =>
      have head : (line.take (separator + 1)).head? = line.head? := by simp [List.head?_take]
      have named : line.take (separator + 1) ≠ [] := by simpa using nonempty
      rw [head]
      -- The line and its name begin alike.
      by_cases comment : line.head? = some ';' ∨ line.head? = some '#'
      · rw [if_pos (.inr comment), if_neg (by tauto)]
        rfl
      · rw [if_neg (by tauto), if_neg (Nat.succ_ne_zero separator)]
        cases parsed : KeyBinding.tryParse dotNet (line.drop (separator + 1 + 1)) with
        | none =>
          dsimp only
          split <;> simp [parsed]
        | some binding =>
          dsimp only
          rw [binding_assign]
          by_cases isAction : dotNet.toUpper (dotNet.trim (line.take (separator + 1))) = action.name
          · rw [if_pos isAction, if_pos (by tauto), Option.bind_some, parsed, Option.getD_some]
          · rw [if_neg isAction, if_neg (by tauto)]
            rfl

theorem binding_load (text : List Char) (action : BridgeAction) :
    (load dotNet (some text)).binding action =
      Assignments.last (fun line => (dotNet.value action line).bind (KeyBinding.tryParse dotNet))
        (readLines [] text) (binding {} action) := by
  have loaded : ∀ (lines : List (List Char)) result, ((lines.foldl (loadLine dotNet) result).binding action) =
      lines.foldl (fun binding line =>
        ((dotNet.value action line).bind (KeyBinding.tryParse dotNet)).getD binding) (result.binding action) := by
    intro lines
    induction lines with
    | nil => exact fun _ => rfl
    | cons line lines inductionHypothesis =>
      intro result
      rw [List.foldl_cons, List.foldl_cons, inductionHypothesis, binding_loadLine]
  rw [load, loaded, Assignments.foldl_eq_last]

end BridgeKeyBindings

/-- Each action is bound as the last line that names it with a valid value says, exactly if
the last accepted line that names it does not name several keys, or the last of these is what
the lines before bind the action to anyway. -/
theorem load_binds_iff (dotNet : DotNet) (text : List Char) :
    (∀ action, (BridgeKeyBindings.load dotNet (some text)).binding action =
        dotNet.specified (readLines [] text) action) ↔
      ∀ action before line after value binding, readLines [] text = before ++ line :: after →
        dotNet.value action line = some value → dotNet.lastOfSeveral value = some binding →
        (∀ later ∈ after, ∀ other, dotNet.value action later = some other → ¬ dotNet.Accepted other) →
        binding = dotNet.specified before action := by
  refine forall_congr' fun action => ?_
  rw [BridgeKeyBindings.binding_load, DotNet.specified, Assignments.last_eq_iff]
  · constructor
    · intro right before line after value binding split named several quiet
      obtain ⟨parsed, invalid⟩ := (KeyBinding.tryParse_invalid_iff dotNet value binding).mpr several
      refine right before line after binding split ?_ ?_ fun later member => ?_
      · rwa [named]
      · rwa [named]
      · rw [Option.bind_eq_none_iff]
        intro other isOther
        exact (KeyBinding.tryParse_none_iff dotNet other).mpr (quiet later member other isOther)
    · intro right before line after binding split taken wrong quiet
      obtain ⟨value, named, parsed⟩ := Option.bind_eq_some_iff.mp taken
      rw [named] at wrong
      refine right before line after value binding split named
        ((KeyBinding.tryParse_invalid_iff dotNet value binding).mp ⟨parsed, wrong⟩) ?_
      intro later member other isOther
      rw [← KeyBinding.tryParse_none_iff]
      exact Option.bind_eq_none_iff.mp (quiet later member) other isOther
  · intro line binding valid
    obtain ⟨value, named, meaning⟩ := Option.bind_eq_some_iff.mp valid
    exact Option.bind_eq_some_iff.mpr ⟨value, named, KeyBinding.tryParse_of_meaning dotNet meaning⟩

/-- As .NET has it for ASCII, with the names of two keys. -/
def twoLetters : DotNet where
  isWhiteSpace := Char.isWhitespace
  toUpperInvariant := Char.toUpper
  tryParse name :=
    if name = "A".toList then some 0x41#32 else if name = "B".toList then some 0x42#32 else none

/-- SEND gets the second of two keys. -/
theorem load_binds_last_key :
    ¬ ∀ action, (BridgeKeyBindings.load twoLetters (some "SEND=A+B".toList)).binding action =
      twoLetters.specified (readLines [] "SEND=A+B".toList) action := by
  intro all
  exact absurd (all .send) (by decide +kernel)

end ImeBridge
